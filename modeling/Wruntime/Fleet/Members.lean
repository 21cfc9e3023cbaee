import Wruntime.Fleet.Guard

/-!
The members of rollouts. A begin writes one row for each source and target; a row then changes only
by an observation of its own manager under the row's role, and once by an outcome that the
controller reports.
-/

namespace Wruntime.Fleet

open Fallible Table Runs Sql
open Manager (Time Status)
open Member (key)

variable {outcomes : List MemberOutcome} {m : Member} {principal : String} {rolloutId : Uuid}
  {accepted : AcceptedPolicy}
variable {contract : Contract} {db db' : Store}

section Record

variable {seen : List (Role × String)}

/-- The row after an advance has recorded its outcomes. The first outcome stays. -/
def Member.recorded (rolloutId : Uuid) (outcomes : List MemberOutcome) (m : Member) : Member :=
  match outcomes.find? fun o => m.key = (rolloutId, o.memberRole, o.managerId) with
  | some outcome => if m.hostActionOutcome = none then m.record outcome else m
  | none => m

@[simp] theorem Member.key_recorded (outcomes : List MemberOutcome) (m : Member) :
    (m.recorded rolloutId outcomes).key = m.key := by
  unfold Member.recorded
  split
  · split <;> rfl
  · rfl

theorem Member.recorded_of_ne (h : ∀ o ∈ outcomes, m.key ≠ (rolloutId, o.memberRole, o.managerId)) :
    m.recorded rolloutId outcomes = m := by
  have hnone : outcomes.find? (fun o => decide (m.key =
      (rolloutId, o.memberRole, o.managerId))) = none := by
    rw [List.find?_eq_none]
    exact fun o ho hkey => h o ho (of_decide_eq_true hkey)
  simp only [Member.recorded, hnone]

section Key

variable {role : Role} {managerId : String}

theorem Member.key_eq_iff : m.key = (rolloutId, role, managerId) ↔
    m.rolloutId = rolloutId ∧ m.memberRole = role ∧ m.managerId = managerId := by
  simp only [key, Prod.mk.injEq]

theorem mem_of_member? (h : db.member? rolloutId role managerId = some m) :
    m ∈ db.members ∧ m.key = (rolloutId, role, managerId) :=
  found h

theorem member?_of_key (hkeys : (db.members.map key).Nodup)
    (h : (rolloutId, role, managerId) ∈ db.members.map key) :
    ∃ m ∈ db.members, db.member? rolloutId role managerId = some m ∧
      m.rolloutId = rolloutId ∧ m.memberRole = role := by
  obtain ⟨m, hm, hkey⟩ := List.mem_map.1 h
  have hfound := find?_key_of_mem hkeys hm
  obtain ⟨hid, hrole, -⟩ := Member.key_eq_iff.1 hkey
  rw [hkey] at hfound
  exact ⟨m, hm, hfound, hid, hrole⟩

end Key

theorem recordOutcome_members {replay : Bool} {outcome : MemberOutcome}
    (hkeys : (db.members.map key).Nodup)
    (h : recordOutcome contract db rolloutId replay seen outcome = .ok db') :
    (outcome.memberRole, outcome.managerId) ∉ seen ∧
      db'.members = db.members.map (·.recorded rolloutId [outcome]) := by
  simp only [recordOutcome, bind_eq_ok, required_eq_ok, ensure_eq_ok] at h
  obtain ⟨_, _, _, ⟨_, _, _, hfresh⟩, member, hmember, h⟩ := h
  obtain ⟨hmem, hkey⟩ := mem_of_member? hmember
  refine ⟨hfresh, ?_⟩
  have hsame : ∀ m ∈ db.members, m.key = (rolloutId, outcome.memberRole, outcome.managerId) →
      m = member := fun m hm hm' => eq_of_nodup_key hkeys hm hmem (hm'.trans hkey.symm)
  cases hstored : member.hostActionOutcome with
  | none | some stored =>
    simp only [hstored, bind_eq_ok, pure_eq_ok] at h
    obtain ⟨_, _, rfl⟩ := h
    first
      | apply List.map_congr_left
      | refine (List.map_id _).symm.trans (List.map_congr_left ?_)
    intro m hm
    by_cases hm' : m.key = (rolloutId, outcome.memberRole, outcome.managerId)
    · obtain rfl := hsame m hm hm'
      simp [Member.recorded, hm', hstored]
    · simp [Member.recorded, hm']

theorem recordOutcomes_members {replay : Bool} (hkeys : (db.members.map key).Nodup)
    (h : recordOutcomes contract rolloutId replay seen outcomes db = .ok db') :
    (∀ o ∈ outcomes, (o.memberRole, o.managerId) ∉ seen) ∧
      db'.members = db.members.map (·.recorded rolloutId outcomes) := by
  induction outcomes generalizing db seen with
  | nil =>
    cases h
    simp [Member.recorded]
  | cons outcome rest ih =>
    simp only [recordOutcomes, bind_eq_ok] at h
    obtain ⟨mid, hmid, hrest⟩ := h
    obtain ⟨hfresh, hmembers⟩ := recordOutcome_members hkeys hmid
    have hmidKeys : (mid.members.map key).Nodup := by
      rw [hmembers, List.map_map]
      simpa [Function.comp_def] using hkeys
    obtain ⟨hrestFresh, hrestMembers⟩ := ih hmidKeys hrest
    constructor
    · intro o ho
      rcases List.mem_cons.1 ho with rfl | ho
      · exact hfresh
      · exact fun hseen => hrestFresh o ho (List.mem_cons_of_mem _ hseen)
    rw [hrestMembers, hmembers, List.map_map]
    apply List.map_congr_left
    intro m _
    by_cases hm : m.key = (rolloutId, outcome.memberRole, outcome.managerId)
    · -- The rest of the list has no second outcome for this key.
      have hrestOther : ∀ o ∈ rest, (m.recorded rolloutId [outcome]).key ≠
          (rolloutId, o.memberRole, o.managerId) := by
        intro o ho hkey
        apply hrestFresh o ho
        rw [Member.key_recorded, hm] at hkey
        simp only [Prod.mk.injEq] at hkey
        rw [← hkey.2.1, ← hkey.2.2]
        exact List.mem_cons_self
      rw [Function.comp, Member.recorded_of_ne hrestOther]
      simp [Member.recorded, hm]
    · simp [Member.recorded, hm]

end Record

/-- What a call can do to a row that is there before it. -/
inductive Member.Moves (contract : Contract) (db : Store) (call : Call) (m : Member) :
    Member → Prop
  | kept : Moves contract db call m m
  | observed {policy : Policy} {rollout : Rollout}
      (hcall : call = .observe m.managerId policy) (hactive : db.active? = some rollout)
      (hrollout : m.rolloutId = rollout.rolloutId) (hrole : m.memberRole = rollout.roleOf policy)
      (process : ProcessState) (hprocess : process =
        if rollout.targetMatches contract policy ∨ m.memberRole = .source then .ready
        else .mismatch) :
      Moves contract db call m (m.observe policy.stored process
        (Rollout.stateOf rollout.phase (some m.memberRole)
          (rollout.targetMatches contract policy)))
  | recorded {principal : String} {expectedPhase nextPhase : Phase}
      {outcomes : List MemberOutcome} {threshold : Time} {outcome : MemberOutcome}
      (hcall : call =
        .advanceRollout m.rolloutId principal expectedPhase nextPhase outcomes threshold)
      (houtcome : outcome ∈ outcomes) (hrole : m.memberRole = outcome.memberRole)
      (hmanager : m.managerId = outcome.managerId) (hfresh : m.hostActionOutcome = none) :
      Moves contract db call m (m.record outcome)

namespace Member.Moves

variable {call : Call} {m' : Member}

theorem key_eq (h : Member.Moves contract db call m m') : m'.key = m.key := by
  cases h <;> rfl

theorem processState_ne_none (h : Member.Moves contract db call m m')
    (hm : m.processState ≠ none) : m'.processState ≠ none := by
  cases h with
  | kept | recorded => exact hm
  | observed => simp [Member.observe]

end Member.Moves

def Store.newMembers (db : Store) (now : Time) (request : BeginManagerRolloutRequest)
    (rolloutId : Uuid) : List Member :=
  (db.liveSources now).map (.ofSource rolloutId) ++
    request.expectedTargets.map (.ofTarget rolloutId)

section Step

variable {now : Time} {call : Call}

theorem moves_observe (managerId : String) (policy : Policy) : ∃ f : Member → Member,
      (observeManagerRollout contract db now managerId policy).1.members = db.members.map f ∧
      ∀ m ∈ db.members, Member.Moves contract db (.observe managerId policy) m (f m) := by
  unfold observeManagerRollout
  split
  next => exact ⟨id, by simp [Store.modifyManager], fun m _ => .kept⟩
  next rollout hactive =>
    refine ⟨_, rfl, ?_⟩
    intro m hm
    split
    next hmatches =>
      simp only [decide_eq_true_eq] at hmatches
      obtain ⟨hrollout, rfl, hrole⟩ := hmatches
      have hmember : m.memberRole = rollout.roleOf policy := by
        cases hfound : db.member? rollout.rolloutId (rollout.roleOf policy) m.managerId with
        | none =>
          rw [hfound] at hrole
          cases hrole
        | some found =>
          rw [hfound] at hrole
          obtain ⟨_, hfoundRole, _⟩ := Member.key_eq_iff.1 (mem_of_member? hfound).2
          exact (Option.some.inj hrole).trans hfoundRole
      rw [← hrole]
      exact .observed rfl hactive hrollout hmember _ (by simp)
    next => exact .kept

theorem moves_recorded {expectedPhase nextPhase : Phase} {threshold : Time} (m : Member) :
    Member.Moves contract db
      (.advanceRollout rolloutId principal expectedPhase nextPhase outcomes threshold) m
      (m.recorded rolloutId outcomes) := by
  unfold Member.recorded
  split
  next outcome hfound =>
    obtain ⟨hmem, hkey⟩ := found hfound
    obtain ⟨rfl, hrole, hmanager⟩ := Member.key_eq_iff.1 hkey
    split
    next hfresh => exact .recorded rfl hmem hrole hmanager hfresh
    next => exact .kept
  next => exact .kept

theorem Begun.members {request : BeginManagerRolloutRequest}
    (h : Begun contract db now principal request rolloutId db' accepted) :
    db'.members = db.members ++ db.newMembers now request rolloutId := by
  rw [h.result]
  simp [Store.create, Store.newMembers, Rollout.created]

def Rollout.fixed (rollout : Rollout) : Uuid × BeginManagerRolloutRequest :=
  (rollout.rolloutId, rollout.request)

/-- A call moves the rows that are there, or begins a rollout and adds its members. -/
theorem next_members (input : Input) (hkeys : (db.members.map key).Nodup) :
    (∃ f : Member → Member, (next contract db input).members = db.members.map f ∧
        (∀ m ∈ db.members, Member.Moves contract db input.call m (f m)) ∧
        (next contract db input).rollouts.map Rollout.fixed = db.rollouts.map Rollout.fixed) ∨
      ∃ principal request rolloutId accepted,
        Begun contract db input.now principal request rolloutId (next contract db input) accepted ∧
        (next contract db input).members =
          db.members ++ db.newMembers input.now request rolloutId := by
  obtain ⟨now, call⟩ := input
  refine next_elim (.inl ⟨id, by simp, fun m _ => .kept, rfl⟩) fun db' hcommits => ?_
  cases hcommits with
  | managers | bootstrap => exact .inl ⟨id, by simp, fun m _ => .kept, rfl⟩
  | observe managerId policy =>
    obtain ⟨f, hmembers, hmoves⟩ := @moves_observe contract db now managerId policy
    rw [observe_rollouts]
    exact .inl ⟨f, hmembers, hmoves, rfl⟩
  | @beginRollout principal request canonical _ rolloutId accepted _ _ hbegun =>
    exact .inr ⟨principal, canonical, rolloutId, accepted, hbegun, hbegun.members⟩
  | @advanceRollout rolloutId _ _ _ outcomes _ _ _ _ hadvanced =>
    obtain ⟨_, hmembers⟩ := recordOutcomes_members hkeys hadvanced.recorded_eq
    obtain ⟨_, hrollouts, _⟩ := recordOutcomes_frame hadvanced.recorded_eq
    refine .inl ⟨(·.recorded rolloutId outcomes), ?_, fun m _ => moves_recorded m, ?_⟩
    · rw [hadvanced.result]
      simp [Store.enterPhase, hmembers]
    · rw [hadvanced.result, ← hrollouts]
      apply map_updateWhere
      exact fun _ => rfl
  | resetRollout _ hreset =>
    rw [hreset.result]
    refine .inl ⟨id, by simp [Store.resetRollout], fun m _ => .kept, ?_⟩
    apply map_updateWhere
    exact fun _ => rfl

end Step

/-- Every rollout has the members of its request, one row for each. -/
structure Staffed (db : Store) : Prop where
  keys : (db.members.map key).Nodup
  owner : ∀ m ∈ db.members, ∃ r ∈ db.rollouts, r.rolloutId = m.rolloutId
  sources : ∀ r ∈ db.rollouts, ∀ managerId,
    (r.rolloutId, .source, managerId) ∈ db.members.map key ↔
      managerId ∈ r.request.sourceManagers.map (·.managerId)
  targets : ∀ r ∈ db.rollouts, ∀ managerId,
    (r.rolloutId, .target, managerId) ∈ db.members.map key ↔
      managerId ∈ r.request.expectedTargets.map (·.managerId)

theorem staffed_empty : Staffed Store.empty := by
  constructor <;> simp [Store.empty]

section Staffed

variable {now : Time}
variable {request : BeginManagerRolloutRequest}

theorem map_key_newMembers (request : BeginManagerRolloutRequest) (rolloutId : Uuid) :
    (db.newMembers now request rolloutId).map key =
      ((db.liveSources now).map (·.managerId)).map (fun id => (rolloutId, .source, id)) ++
        (request.expectedTargets.map (·.managerId)).map (fun id => (rolloutId, .target, id)) := by
  simp [Store.newMembers, key, Member.ofSource, Member.ofTarget, Function.comp_def]

theorem Begun.sourceIds (h : Begun contract db now principal request rolloutId db' accepted) :
    (db.liveSources now).map (·.managerId) = request.sourceManagers.map (·.managerId) := by
  have hids := congrArg (List.map Prod.fst) h.sources
  simpa [Function.comp_def] using hids.symm

theorem Staffed.begun (h : Staffed db)
    (hbegun : Begun contract db now principal request rolloutId db' accepted) : Staffed db' := by
  have hmembers := hbegun.members
  have hrollouts : db'.rollouts = db.rollouts ++
      [.created contract rolloutId principal request (contract.requestDigest request)] := by
    rw [hbegun.result]
    rfl
  have hnewKeys : db'.members.map key = db.members.map key ++
      (db.newMembers now request rolloutId).map key := by
    rw [hmembers, List.map_append]
  rw [map_key_newMembers, hbegun.sourceIds] at hnewKeys
  -- No row from before belongs to the new rollout.
  have hold : ∀ role managerId, (rolloutId, role, managerId) ∉ db.members.map key := by
    intro role managerId hmem
    obtain ⟨m, hm, hkey⟩ := List.mem_map.1 hmem
    obtain ⟨r, hr, hid⟩ := h.owner m hm
    apply hbegun.unused r hr
    rw [hid]
    exact congrArg Prod.fst hkey
  constructor
  · rw [hnewKeys, List.nodup_append, List.nodup_append]
    refine ⟨h.keys, ⟨hbegun.canonical.sourcesNodup.map ?_, hbegun.canonical.targetsNodup.map ?_,
      ?_⟩, ?_⟩
    · intro a b hab
      simpa using hab
    · intro a b hab
      simpa using hab
    · simp
    · intro a ha b hb hab
      subst hab
      rcases List.mem_append.1 hb with hb | hb <;>
        obtain ⟨id, _, rfl⟩ := List.mem_map.1 hb
      · exact hold _ _ ha
      · exact hold _ _ ha
  · intro m hm
    rw [hmembers] at hm
    rcases List.mem_append.1 hm with hm | hm
    · obtain ⟨r, hr, hid⟩ := h.owner m hm
      exact ⟨r, by simp [hrollouts, hr], hid⟩
    · refine ⟨_, by rw [hrollouts]; exact List.mem_append_right _ (List.mem_singleton_self _), ?_⟩
      simp only [Store.newMembers, List.mem_append, List.mem_map] at hm
      rcases hm with ⟨_, _, rfl⟩ | ⟨_, _, rfl⟩ <;> rfl
  all_goals
    intro r hr managerId
    rw [hrollouts] at hr
    rw [hnewKeys]
    rcases mem_snoc.1 hr with hr | rfl
    · have hne := hbegun.unused r hr
      have hne' := Ne.symm hne
      first
        | simpa [hne'] using h.sources r hr managerId
        | simpa [hne'] using h.targets r hr managerId
    · have hsourceOld := hold .source managerId
      have htargetOld := hold .target managerId
      simp [Rollout.created, hsourceOld, htargetOld]

theorem Staffed.moved (h : Staffed db)
    (hkeys : db'.members.map key = db.members.map key)
    (hrollouts : db'.rollouts.map Rollout.fixed = db.rollouts.map Rollout.fixed) : Staffed db' := by
  have hold : ∀ r ∈ db'.rollouts, ∃ r' ∈ db.rollouts, r'.rolloutId = r.rolloutId ∧
      r'.request = r.request := by
    intro r hr
    obtain ⟨r', hr', heq⟩ := exists_of_column hrollouts hr
    simp only [Rollout.fixed, Prod.mk.injEq] at heq
    exact ⟨r', hr', heq⟩
  constructor
  · rw [hkeys]
    exact h.keys
  · intro m hm
    obtain ⟨m', hm', hkey⟩ := exists_of_column hkeys hm
    obtain ⟨r, hr, hid⟩ := h.owner m' hm'
    obtain ⟨r', hr', heq⟩ := exists_of_column hrollouts.symm hr
    refine ⟨r', hr', (congrArg Prod.fst heq).trans (hid.trans ?_)⟩
    exact congrArg Prod.fst hkey
  · intro r hr managerId
    obtain ⟨r', hr', hid, hrequest⟩ := hold r hr
    rw [hkeys, ← hid, ← hrequest]
    exact h.sources r' hr' managerId
  · intro r hr managerId
    obtain ⟨r', hr', hid, hrequest⟩ := hold r hr
    rw [hkeys, ← hid, ← hrequest]
    exact h.targets r' hr' managerId

theorem map_key_of_moves {call : Call} {f : Member → Member}
    (hmoves : ∀ m ∈ db.members, Member.Moves contract db call m (f m)) :
    (db.members.map f).map key = db.members.map key := by
  rw [List.map_map]
  apply List.map_congr_left
  exact fun m hm => (hmoves m hm).key_eq

theorem next_staffed (input : Input) (h : Staffed db) : Staffed (next contract db input) := by
  rcases @next_members contract db input h.keys with
    ⟨f, hmembers, hmoves, hrollouts⟩ | ⟨_, _, _, _, hbegun, _⟩
  · apply h.moved _ hrollouts
    rw [hmembers, map_key_of_moves hmoves]
  · exact h.begun hbegun

theorem reachable_staffed (h : Reachable contract db) : Staffed db :=
  h.invariant (P := Staffed) staffed_empty fun _ input _ _ => next_staffed input

end Staffed

section Active

theorem active?_of_mem (h : Guarded db) {r : Rollout} (hr : r ∈ db.rollouts)
    (hactive : db.guard.activeRolloutId = some r.rolloutId) : db.active? = some r := by
  rw [Store.active?, hactive]
  exact rollout?_of_mem h.rolloutIds hr

theorem active?_congr (hguard : db'.guard = db.guard) (hrollouts : db'.rollouts = db.rollouts) :
    db'.active? = db.active? := by
  have hlookup : db'.rollout? = db.rollout? := by
    funext id
    rw [Store.rollout?, Store.rollout?, hrollouts]
  rw [Store.active?, Store.active?, hguard, hlookup]

theorem member?_of_mem (hkeys : (db.members.map key).Nodup)
    (hm : m ∈ db.members) : db.member? m.rolloutId m.memberRole m.managerId = some m :=
  find?_key_of_mem hkeys hm

theorem enter_eq_of_active {guard : Guard} {rollout : Rollout} {phase : Phase} {id : Uuid}
    (hactive : guard.activeRolloutId = some rollout.rolloutId)
    (h : (guard.enter rollout phase).activeRolloutId = some id) :
    guard.enter rollout phase = guard := by
  unfold Guard.enter at h ⊢
  rw [if_pos hactive] at h ⊢
  cases phase <;> first | rfl | cases h

/-- The active rollout after a call is the one from before, in the same phase or the next, or a new
one. Meanwhile the accepted policy does not change. -/
theorem next_active (h : Guarded db) (input : Input) {r' : Rollout}
    (hactive : (next contract db input).active? = some r') :
    (∃ r, db.active? = some r ∧ r'.fixed = r.fixed ∧
        (next contract db input).guard.accepted = db.guard.accepted ∧
        (r'.phase = r.phase ∨ r.phase.legal r'.phase = true)) ∨
      ∃ principal request rolloutId accepted,
        Begun contract db input.now principal request rolloutId (next contract db input) accepted ∧
        r' = .created contract rolloutId principal request (contract.requestDigest request) := by
  obtain ⟨now, call⟩ := input
  revert hactive
  refine next_elim (fun hactive => .inl ⟨r', hactive, rfl, rfl, .inl rfl⟩)
    fun db' hcommits hactive => ?_
  obtain ⟨hid, hmem⟩ := active?_eq hactive
  cases hcommits with
  | managers => exact .inl ⟨r', hactive, rfl, rfl, .inl rfl⟩
  | bootstrap _ hinactive =>
    cases hinactive.symm.trans hid
  | observe managerId policy =>
    rw [observe_guard] at hid ⊢
    rw [observe_rollouts] at hmem
    exact .inl ⟨r', active?_of_mem h hmem hid, rfl, rfl, .inl rfl⟩
  | @beginRollout principal _ request _ rolloutId accepted _ _ hbegun =>
    refine .inr ⟨principal, request, rolloutId, accepted, hbegun, ?_⟩
    rw [hbegun.result] at hid hmem
    rcases mem_snoc.1 hmem with hold | hnew
    · exact absurd (Option.some.inj hid).symm (hbegun.unused r' hold)
    · exact hnew
  | @advanceRollout rolloutId _ _ nextPhase _ _ _ rollout recorded hadvanced =>
    obtain ⟨hguard, hrollouts, _⟩ := recordOutcomes_frame hadvanced.recorded_eq
    obtain ⟨hold, _, _, hactiveOld⟩ := hadvanced.active h
    rw [hadvanced.result] at hid hmem ⊢
    simp only [Store.enterPhase, hrollouts, hguard] at hid hmem ⊢
    have henter := enter_eq_of_active hactiveOld hid
    rw [henter] at hid ⊢
    obtain ⟨old, hmemOld, rfl⟩ := mem_updateWhere.1 hmem
    refine .inl ⟨rollout, active?_of_mem h hold hactiveOld, ?_⟩
    have hsame : old = rollout := by
      apply eq_of_nodup_key h.rolloutIds hmemOld hold
      rw [hactiveOld] at hid
      rw [Option.some.inj hid]
      split <;> rfl
    subst hsame
    simp only [decide_true, if_true]
    refine ⟨rfl, trivial, .inr ?_⟩
    rw [hadvanced.phase_eq]
    exact hadvanced.legal
  | resetRollout _ hreset =>
    rw [hreset.result] at hid
    cases hid

end Active

end Wruntime.Fleet
