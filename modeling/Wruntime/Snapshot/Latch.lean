import Wruntime.Snapshot.Consumer

/-!
What a run keeps of the snapshot consumer. The retained generation only rises and has one identity,
and freshness ends with the validity of the snapshot accepted last. A conflict blocks the consumer
until a higher generation arrives, except that a lower one, received meanwhile, weakens the recovery
predicate and lets the retained snapshot in again.
-/

namespace Wruntime.Snapshot

open Fallible Runs

variable {setup : Setup} {state later : SnapshotConsumerState} {fetch : Fetch}
  {candidate old : IndexedSnapshot} {now : Nat}

@[simp] theorem SnapshotConsumerState.retained_empty :
    SnapshotConsumerState.empty.retained = none := rfl

section

variable (retained : Option IndexedSnapshot)

@[simp] theorem SnapshotConsumerState.retained_blocked
    (reason : String) (recovery : RecoveryPredicate) :
    (SnapshotConsumerState.blocked retained reason recovery).retained = retained := rfl

@[simp] theorem SnapshotConsumerState.recovery_blocked
    (reason : String) (recovery : RecoveryPredicate) :
    (SnapshotConsumerState.blocked retained reason recovery).recovery = some recovery := rfl

end

@[simp] theorem retained_accept (candidate : IndexedSnapshot) (fetch : Fetch) :
    (accept candidate fetch).retained = some candidate := rfl

@[simp] theorem SnapshotConsumerState.retained_expire (state : SnapshotConsumerState) (now : Nat) :
    (state.expire now).retained = state.retained := by
  cases state with
  | fresh snapshot acceptedAt freshUntil =>
    simp only [SnapshotConsumerState.expire]
    split <;> rfl
  | _ => rfl

@[simp] theorem SnapshotConsumerState.recovery_expire (state : SnapshotConsumerState) (now : Nat) :
    (state.expire now).recovery = state.recovery := by
  cases state with
  | fresh snapshot acceptedAt freshUntil =>
    simp only [SnapshotConsumerState.expire]
    split <;> rfl
  | _ => rfl

inductive Setup.Consumed (setup : Setup) (state : SnapshotConsumerState) (fetch : Fetch) :
    SnapshotConsumerState → Prop
  | failed (reason : String) (herror : setup.decoded fetch = .error reason) :
      Consumed setup state fetch (.blocked state.retained reason (state.recovery.getD
        (if state.retained.isSome then .matchingRetainedOrHigher else .anyCompleteValid)))
  | regressed (candidate old : IndexedSnapshot) (hdecoded : setup.decoded fetch = .ok candidate)
      (hretained : state.retained = some old)
      (hlower : candidate.identity.generation < old.identity.generation) :
      Consumed setup state fetch
        (.blocked (some old) "policy generation regressed" .matchingRetainedOrHigher)
  | conflicted (candidate old : IndexedSnapshot) (hdecoded : setup.decoded fetch = .ok candidate)
      (hretained : state.retained = some old)
      (hsame : candidate.identity.generation = old.identity.generation)
      (hother : candidate.identity ≠ old.identity) :
      Consumed setup state fetch
        (.blocked (some old) "same-generation snapshot digest conflict" .strictlyHigherGeneration)
  | ignored (old : IndexedSnapshot) (hretained : state.retained = some old)
      (hrecovery : state.recovery = some .strictlyHigherGeneration) :
      Consumed setup state fetch (state.expire fetch.now)
  | accepted (candidate : IndexedSnapshot) (hdecoded : setup.decoded fetch = .ok candidate)
      (hold : ∀ old, state.retained = some old →
        old.identity.generation < candidate.identity.generation ∨
          old.identity = candidate.identity ∧
            state.recovery ≠ some .strictlyHigherGeneration) :
      Consumed setup state fetch (accept candidate fetch)

theorem Setup.consume_cases (setup : Setup) (state : SnapshotConsumerState) (fetch : Fetch) :
    setup.Consumed state fetch (setup.consume state fetch) := by
  unfold Setup.consume
  simp only [SnapshotConsumerState.retained_expire, SnapshotConsumerState.recovery_expire]
  cases hdecoded : setup.decoded fetch with
  | error reason => exact .failed reason hdecoded
  | ok candidate =>
    cases hretained : state.retained with
    | none => exact .accepted candidate hdecoded fun old hold => by simp [hretained] at hold
    | some old =>
      dsimp only
      split
      next hlower => exact .regressed candidate old hdecoded hretained hlower
      next hlower =>
        split
        next hconflict => exact .conflicted candidate old hdecoded hretained hconflict.1 hconflict.2
        next hconflict =>
          split
          next hstrict => exact .ignored old hretained hstrict.1
          next hstrict =>
            -- The last check repeats the conflict check, which did not hold.
            rw [if_neg fun hmatching => hconflict hmatching.2]
            refine .accepted candidate hdecoded fun old' hold' => ?_
            obtain rfl : old = old' := Option.mem_unique hretained hold'
            by_cases hhigher : old.identity.generation < candidate.identity.generation
            · exact .inl hhigher
            · have hsame : candidate.identity.generation = old.identity.generation := by omega
              refine .inr ⟨?_, fun hrecovery => hstrict ⟨hrecovery, hsame.le⟩⟩
              by_contra hother
              exact hconflict ⟨hsame, Ne.symm hother⟩

/-- What was retained is kept, or replaced by a higher generation. -/
def Kept (state later : SnapshotConsumerState) : Prop :=
  ∀ old, state.retained = some old → ∃ new, later.retained = some new ∧
    (old.identity = new.identity ∨ old.identity.generation < new.identity.generation)

theorem Kept.of_retained (h : later.retained = state.retained) : Kept state later :=
  fun old hold => ⟨old, h.trans hold, .inl rfl⟩

theorem Kept.trans {first second third : SnapshotConsumerState} (h : Kept first second)
    (h' : Kept second third) : Kept first third := by
  intro old hold
  obtain ⟨mid, hmid, hfirst⟩ := h old hold
  obtain ⟨new, hnew, hsecond⟩ := h' mid hmid
  refine ⟨new, hnew, ?_⟩
  rcases hfirst with hfirst | hfirst
  · exact hfirst ▸ hsecond
  · rcases hsecond with hsecond | hsecond
    · exact .inr (hsecond ▸ hfirst)
    · exact .inr (hfirst.trans hsecond)

theorem Setup.Consumed.kept (h : setup.Consumed state fetch later) : Kept state later := by
  cases h with
  | failed reason herror => exact Kept.of_retained rfl
  | regressed candidate old hdecoded hretained hlower => exact Kept.of_retained hretained.symm
  | conflicted candidate old hdecoded hretained hsame hother =>
    exact Kept.of_retained hretained.symm
  | ignored old hretained hrecovery => exact Kept.of_retained (by simp)
  | accepted candidate hdecoded hold =>
    intro old hretained
    refine ⟨candidate, rfl, ?_⟩
    rcases hold old hretained with hhigher | ⟨hsame, -⟩
    · exact .inr hhigher
    · exact .inl hsame

theorem Setup.next_consume (setup : Setup) (state : SnapshotConsumerState) (fetch : Fetch) :
    setup.next state (.consume fetch) = setup.consume state fetch := rfl

theorem Setup.kept_next (setup : Setup) (state : SnapshotConsumerState) (input : Input) :
    Kept state (setup.next state input) := by
  cases input with
  | consume fetch => exact (setup.consume_cases state fetch).kept
  | expire now => exact Kept.of_retained (by simp [Setup.next])

theorem kept_of_reach {ok : SnapshotConsumerState → Input → Prop}
    (hreach : Reach setup.next ok state later) : Kept state later :=
  hreach.related (fun _ => Kept.of_retained rfl) Kept.trans
    fun state input _ _ => setup.kept_next state input

def Setup.Accepts (setup : Setup) (state : SnapshotConsumerState) (fetch : Fetch)
    (candidate : IndexedSnapshot) : Prop :=
  setup.decoded fetch = .ok candidate ∧ setup.consume state fetch = accept candidate fetch

theorem decodeSnapshot_eq_ok {contract : Contract} {raw : Wire.Bytes} {cluster : String}
    {kind : ProjectionKind} {wall : Int}
    (h : decodeSnapshot contract raw cluster kind wall = .ok candidate) :
    0 ≤ wall ∧ wall.toNat < candidate.validUntil := by
  simp only [decodeSnapshot, bind_eq_ok, required_eq_ok, ensure_eq_ok, pure_eq_ok,
    systemDuration] at h
  obtain ⟨-, -, snapshot, -, -, -, -, -, -, -, -, -, -, -, -, -, -, -, items, -, revoked, -, -, -,
    -, -, -, -, issued, -, stamp, hstamp, until_, huntil, -, -, receipt, ⟨-, hwall, rfl⟩, -,
    henvelope, rfl⟩ := h
  refine ⟨hwall, ?_⟩
  simp only [IndexedSnapshot.validUntil, hstamp, Option.map_some, huntil]
  exact henvelope.2

theorem Setup.decoded_eq_ok (h : setup.decoded fetch = .ok candidate) :
    0 ≤ fetch.wall ∧ fetch.wall.toNat < candidate.validUntil := by
  simp only [Setup.decoded, bind_eq_ok] at h
  obtain ⟨bytes, -, -, -, hdecode⟩ := h
  exact decodeSnapshot_eq_ok hdecode

/-- A consumer in the fresh state is just as the fetch accepted last has left it. -/
theorem fresh_of_reach {ok : SnapshotConsumerState → Input → Prop}
    (hreach : Reach setup.next ok .empty state) (hfresh : state.isFresh now = true) :
    ∃ before fetch candidate, Reach setup.next ok .empty before ∧
      setup.Accepts before fetch candidate ∧ state = accept candidate fetch := by
  induction hreach with
  | refl => cases hfresh
  | @step before input hbefore hok ih =>
    cases input with
    | consume fetch =>
      have hcases := setup.consume_cases before fetch
      simp only [Setup.next] at hfresh ⊢
      generalize hnext : setup.consume before fetch = next at hcases hfresh
      cases hcases with
      | failed reason herror | regressed candidate old hdecoded hretained hlower
      | conflicted candidate old hdecoded hretained hsame hother => cases hfresh
      | ignored old hretained hrecovery =>
        -- Only a blocked consumer ignores a snapshot.
        cases before with
        | blocked retained reason recovery => cases hfresh
        | _ => cases hrecovery
      | accepted candidate hdecoded hold =>
        exact ⟨before, fetch, candidate, hbefore, ⟨hdecoded, hnext⟩, rfl⟩
    | expire at_ =>
      cases before with
      | fresh snapshot acceptedAt freshUntil =>
        simp only [Setup.next, SnapshotConsumerState.expire] at hfresh ⊢
        split at hfresh
        next hexpired => cases hfresh
        next hexpired =>
          rw [if_neg hexpired]
          exact ih hfresh
      | _ => cases hfresh

theorem isFresh_accept (hdecoded : setup.decoded fetch = .ok candidate)
    (hfresh : (accept candidate fetch).isFresh now = true) : now < fetch.now + snapshotValidity ∧
      fetch.wall.toNat + (now - fetch.now) < candidate.validUntil := by
  have hvalid := (Setup.decoded_eq_ok hdecoded).2
  simp only [accept, SnapshotConsumerState.isFresh, decide_eq_true_eq] at hfresh
  omega

/-- The fetch brings a snapshot of the retained generation with another content. -/
def Setup.Conflicts (setup : Setup) (state : SnapshotConsumerState) (fetch : Fetch)
    (old : IndexedSnapshot) : Prop :=
  state.retained = some old ∧ ∃ candidate, setup.decoded fetch = .ok candidate ∧
    candidate.identity.generation = old.identity.generation ∧ candidate.identity ≠ old.identity

/-- The input brings a valid snapshot of a generation below the retained one. -/
def Setup.Regresses (setup : Setup) (state : SnapshotConsumerState) (input : Input) : Prop :=
  ∃ fetch candidate old, input = .consume fetch ∧ setup.decoded fetch = .ok candidate ∧
    state.retained = some old ∧ candidate.identity.generation < old.identity.generation

/-- No lower generation is received while a conflict is latched. -/
def Setup.Calm (setup : Setup) (state : SnapshotConsumerState) (input : Input) : Prop :=
  state.recovery = some .strictlyHigherGeneration → ¬setup.Regresses state input

/-- The conflict over the retained snapshot stands, or a higher generation is in. -/
def Latched (old : IndexedSnapshot) (state : SnapshotConsumerState) : Prop :=
  (state.retained = some old ∧ state.recovery = some .strictlyHigherGeneration) ∨
    ∃ new, state.retained = some new ∧ old.identity.generation < new.identity.generation

theorem Latched.not_fresh (h : Latched old state) : (∀ now, state.isFresh now = false) ∨
      ∃ new, state.retained = some new ∧ old.identity.generation < new.identity.generation := by
  rcases h with ⟨-, hrecovery⟩ | hhigher
  · cases state with
    | blocked retained reason recovery => exact .inl fun _ => rfl
    | _ => cases hrecovery
  · exact .inr hhigher

theorem Setup.Conflicts.consume_eq (h : setup.Conflicts state fetch old) :
    setup.consume state fetch = .blocked (some old) "same-generation snapshot digest conflict"
        .strictlyHigherGeneration := by
  obtain ⟨hretained, candidate, hdecoded, hsame, hother⟩ := h
  simp [Setup.consume, hdecoded, hretained, hsame, hother]

theorem Setup.Conflicts.latched (h : setup.Conflicts state fetch old) :
    Latched old (setup.consume state fetch) := by
  rw [h.consume_eq]
  exact .inl ⟨rfl, rfl⟩

theorem Setup.consume_of_lower (hretained : state.retained = some old)
    (hdecoded : setup.decoded fetch = .ok candidate)
    (hlower : candidate.identity.generation < old.identity.generation) : setup.consume state fetch =
      .blocked (some old) "policy generation regressed" .matchingRetainedOrHigher := by
  simp [Setup.consume, hdecoded, hretained, hlower]

/-- The retained snapshot itself is taken in again unless a conflict is latched. -/
theorem Setup.consume_of_retained (hretained : state.retained = some old)
    (hrecovery : state.recovery = some .matchingRetainedOrHigher)
    (hdecoded : setup.decoded fetch = .ok old) : setup.consume state fetch = accept old fetch := by
  simp [Setup.consume, hdecoded, hretained, hrecovery]

theorem Setup.consume_of_empty (hdecoded : setup.decoded fetch = .ok candidate) :
    setup.consume .empty fetch = accept candidate fetch := by
  simp [Setup.consume, hdecoded]

theorem Latched.next {input : Input} (h : Latched old state) (hcalm : setup.Calm state input) :
    Latched old (setup.next state input) := by
  rcases h with ⟨hretained, hrecovery⟩ | ⟨mid, hmid, hhigher⟩
  · cases input with
    | expire now => exact .inl ⟨by simp [Setup.next, hretained], by simp [Setup.next, hrecovery]⟩
    | consume fetch =>
      have hcases := setup.consume_cases state fetch
      simp only [Setup.next]
      generalize setup.consume state fetch = next at hcases
      cases hcases with
      | failed reason herror => exact .inl ⟨hretained, by simp [hrecovery]⟩
      | regressed candidate old' hdecoded hretained' hlower =>
        exact absurd ⟨fetch, candidate, old', rfl, hdecoded, hretained', hlower⟩ (hcalm hrecovery)
      | conflicted candidate old' hdecoded hretained' hsame hother =>
        exact .inl ⟨hretained'.symm.trans hretained, rfl⟩
      | ignored old' hretained' hrecovery' => exact .inl ⟨by simp [hretained], by simp [hrecovery]⟩
      | accepted candidate hdecoded hold =>
        rcases hold old hretained with hhigher | ⟨-, hnot⟩
        · exact .inr ⟨candidate, rfl, hhigher⟩
        · exact absurd hrecovery hnot
  · -- A higher generation stays at least as high.
    obtain ⟨new, hnew, hkept⟩ := setup.kept_next state input mid hmid
    refine .inr ⟨new, hnew, ?_⟩
    rcases hkept with hsame | hmore
    · exact hsame ▸ hhigher
    · exact hhigher.trans hmore

/-- In every run the retained generation does not fall and has one identity, and a fresh consumer's
snapshot is valid. A conflict keeps it from being fresh until a higher generation is in, if no lower
one comes before. -/
theorem consumer_monotone_and_latched (setup : Setup)
    (hreach : Reach setup.next (fun _ _ => True) .empty state) :
    (∀ later, Reach setup.next (fun _ _ => True) state later → Kept state later) ∧
      (∀ fetch candidate later fetch' candidate', setup.Accepts state fetch candidate →
        Reach setup.next (fun _ _ => True) (setup.consume state fetch) later →
        setup.Accepts later fetch' candidate' →
        candidate.identity.generation = candidate'.identity.generation →
        candidate.identity = candidate'.identity) ∧
      (∀ now, state.isFresh now = true → ∃ before fetch candidate,
        Reach setup.next (fun _ _ => True) .empty before ∧
        setup.Accepts before fetch candidate ∧ state = accept candidate fetch ∧
        now < fetch.now + snapshotValidity ∧
        fetch.wall.toNat + (now - fetch.now) < candidate.validUntil) ∧
      (∀ fetch old later, setup.Conflicts state fetch old →
        Reach setup.next setup.Calm (setup.consume state fetch) later →
        (∀ now, later.isFresh now = false) ∨ ∃ new, later.retained = some new ∧
            old.identity.generation < new.identity.generation) := by
  refine ⟨fun later hlater => kept_of_reach hlater, ?_, ?_, ?_⟩
  · intro fetch candidate later fetch' candidate' haccept hlater haccept' hsame
    have hkept : Kept (setup.consume state fetch) (setup.consume later fetch') :=
      (kept_of_reach hlater).trans (setup.kept_next later (.consume fetch'))
    rw [haccept.2, haccept'.2] at hkept
    obtain ⟨new, hnew, hidentity⟩ := hkept candidate rfl
    obtain rfl : candidate' = new := Option.some.inj hnew
    rcases hidentity with hidentity | hmore
    · exact hidentity
    · omega
  · intro now hfresh
    obtain ⟨before, fetch, candidate, hbefore, haccept, rfl⟩ := fresh_of_reach hreach hfresh
    exact ⟨before, fetch, candidate, hbefore, haccept, rfl, isFresh_accept haccept.1 hfresh⟩
  · intro fetch old later hconflict hlater
    have hlatched : Latched old later :=
      hlater.invariant hconflict.latched fun _ _ _ hcalm hprev => hprev.next hcalm
    exact hlatched.not_fresh

namespace Sample

def zeros : String := String.ofList (List.replicate 64 '0')

def ones : String := String.ofList (List.replicate 64 '1')

def snapshot (generation : Nat) (policy : String) : WorkloadSnapshot where
  schemaVersion := 1
  projectionKind := 1
  clusterId := "c"
  policyGeneration := generation
  policyDigest := "sha256:" ++ policy
  projectionDigest := "sha256:" ++ zeros
  issuedAt := some ⟨100, 0⟩
  validUntil := some ⟨130, 0⟩
  enrollmentCount := 0
  revokedFingerprintCount := 0
  enrollments := []
  revokedLeafFingerprints := []

/-- A codec of three messages: generation 1, generation 2 and a second generation 2. -/
def contract : Contract where
  decode := fun
    | [1] => some (snapshot 1 zeros)
    | [2] => some (snapshot 2 zeros)
    | [3] => some (snapshot 2 ones)
    | _ => none
  encode := fun message =>
    if message = snapshot 1 zeros then [1] else if message = snapshot 2 zeros then [2] else [3]
  sha256 := fun _ => zeros

def proxyPeer : Setup := ⟨contract, "c", .proxyPeerV1⟩

def arrival (message : UInt8) : Fetch := ⟨.ok [message], 101 * 10 ^ 9, 0, true⟩

def settled : SnapshotConsumerState := proxyPeer.next .empty (.consume (arrival 2))

def indexed (generation : Nat) (policy : String) : IndexedSnapshot :=
  ⟨snapshot generation policy, [], []⟩

@[simp] theorem generation_indexed (generation : Nat) (policy : String) :
    (indexed generation policy).identity.generation = generation := rfl

theorem decoded_one : proxyPeer.decoded (arrival 1) = .ok (indexed 1 zeros) :=
  toOption_eq_some.mp (by decide +kernel)

theorem decoded_two : proxyPeer.decoded (arrival 2) = .ok (indexed 2 zeros) :=
  toOption_eq_some.mp (by decide +kernel)

theorem decoded_three : proxyPeer.decoded (arrival 3) = .ok (indexed 2 ones) :=
  toOption_eq_some.mp (by decide +kernel)

theorem identity_ne : (indexed 2 ones).identity ≠ (indexed 2 zeros).identity := by
  decide +kernel

theorem settled_reach : Reach proxyPeer.next (fun _ _ => True) .empty settled :=
  .single trivial

theorem settled_conflicts : proxyPeer.Conflicts settled (arrival 3) (indexed 2 zeros) := by
  have hsettled : settled = accept (indexed 2 zeros) (arrival 2) :=
    Setup.consume_of_empty decoded_two
  refine ⟨by rw [hsettled, retained_accept], indexed 2 ones, decoded_three, ?_, identity_ne⟩
  rw [generation_indexed, generation_indexed]

theorem regressed_eq : proxyPeer.consume (proxyPeer.consume settled (arrival 3)) (arrival 1) =
    .blocked (some (indexed 2 zeros)) "policy generation regressed" .matchingRetainedOrHigher := by
  rw [settled_conflicts.consume_eq]
  apply Setup.consume_of_lower (SnapshotConsumerState.retained_blocked _ _ _) decoded_one
  rw [generation_indexed, generation_indexed]
  exact Nat.one_lt_two

theorem released_eq : proxyPeer.consume
    (proxyPeer.consume (proxyPeer.consume settled (arrival 3)) (arrival 1)) (arrival 2) =
      accept (indexed 2 zeros) (arrival 2) := by
  rw [regressed_eq]
  exact Setup.consume_of_retained (SnapshotConsumerState.retained_blocked _ _ _)
    (SnapshotConsumerState.recovery_blocked _ _ _) decoded_two

end Sample

open Sample

/-- The two snapshots of generation 2 conflict, then one of generation 1 arrives. The first of
generation 2 then makes the consumer fresh again. -/
theorem lower_generation_releases_conflict :
    ∃ later, proxyPeer.Conflicts settled (arrival 3) (indexed 2 zeros) ∧
      Reach proxyPeer.next (fun _ _ => True) (proxyPeer.consume settled (arrival 3)) later ∧
      later.isFresh 1 = true ∧ later.retained = some (indexed 2 zeros) := by
  have hreach : Reach proxyPeer.next (fun _ _ => True) (proxyPeer.consume settled (arrival 3))
      (accept (indexed 2 zeros) (arrival 2)) := by
    rw [← released_eq, ← Setup.next_consume _ _ (arrival 2), ← Setup.next_consume _ _ (arrival 1)]
    exact .step (.single trivial) trivial
  exact ⟨_, settled_conflicts, hreach, by decide, retained_accept _ _⟩

/-- Without generation 1, the first snapshot of generation 2 does not end the conflict. -/
theorem conflict_stands_without_lower_generation :
    Reach proxyPeer.next (fun _ _ => True) .empty settled ∧
      proxyPeer.Conflicts settled (arrival 3) (indexed 2 zeros) ∧
      ((∀ now, (proxyPeer.next (proxyPeer.consume settled (arrival 3))
          (.consume (arrival 2))).isFresh now = false) ∨
        ∃ new, (proxyPeer.next (proxyPeer.consume settled (arrival 3))
          (.consume (arrival 2))).retained = some new ∧
            (indexed 2 zeros).identity.generation < new.identity.generation) := by
  refine ⟨settled_reach, settled_conflicts, ?_⟩
  have hcalm : proxyPeer.Calm (proxyPeer.consume settled (arrival 3)) (.consume (arrival 2)) := by
    rintro - ⟨fetch, candidate, old, hinput, hdecoded, hretained, hlower⟩
    obtain rfl : arrival 2 = fetch := Input.consume.inj hinput
    obtain rfl : indexed 2 zeros = candidate := Except.ok.inj (decoded_two.symm.trans hdecoded)
    rw [settled_conflicts.consume_eq, SnapshotConsumerState.retained_blocked] at hretained
    obtain rfl : indexed 2 zeros = old := Option.some.inj hretained
    exact absurd hlower (lt_irrefl _)
  exact (consumer_monotone_and_latched proxyPeer settled_reach).2.2.2 (arrival 3)
    (indexed 2 zeros) _ settled_conflicts (.single hcalm)

end Wruntime.Snapshot
