import Mathlib.Data.List.Induction
import Wruntime.Fleet.Members

/-!
Privileged admission. Each manager process has the policy it has loaded and a gate, which its own
calls open and close. Everything else happens in any order in between, and a process can be replaced
by one with another policy at any time.
-/

namespace Wruntime.Fleet

open Fallible Table Runs Sql
open Manager (Time Status)

variable {p q : Process} {pid : Nat}
variable {contract : Contract}

/-- A running manager. What its gate was last set from is kept in `seen`. -/
structure Process where
  pid : Nat
  managerId : String
  policy : Policy
  isOpen : Bool
  seen : Option (Guard × Option Rollout)

/-- The tables, the processes, and the member rows as they were first written. -/
structure World where
  db : Store
  processes : List Process
  records : List Member

inductive Event where
  | start (pid : Nat) (managerId : String) (policy : Policy)
  | stop (pid : Nat)
  | initializeState (now : Time) (pid : Nat)
  | observe (now : Time) (pid : Nat)
  | call (input : Input)

namespace World

def empty : World := ⟨Store.empty, [], []⟩

def process? (w : World) (pid : Nat) : Option Process :=
  w.processes.find? fun p => p.pid = pid

def view (w : World) : Guard × Option Rollout := (w.db.guard, w.db.active?)

def setGate (w : World) (db : Store) (pid : Nat) (isOpen : Bool) : World :=
  { w with
    db := db
    processes := updateWhere (fun p => p.pid = pid)
      (fun p => { p with isOpen := isOpen, seen := some w.view }) w.processes }

end World

/-- The calls that a manager process makes about its own policy. -/
def Call.ofProcess : Call → Bool
  | .initializeState .. | .observe .. => true
  | _ => false

/-- A process starts closed. Its own calls set its gate; the other calls leave the gates
alone. -/
def World.next (contract : Contract) (w : World) : Event → World
  | .start pid managerId policy =>
    { w with
      processes := upsertBy Process.pid ⟨pid, managerId, policy, false, none⟩ w.processes }
  | .stop pid => { w with processes := w.processes.filter fun p => p.pid ≠ pid }
  | .initializeState _ pid =>
    match w.process? pid with
    | none => w
    | some p =>
      let (db, isOpen) := initializeManagerPolicyState w.db p.managerId p.policy.generation
        p.policy.digest
      w.setGate db pid isOpen
  | .observe now pid =>
    match w.process? pid with
    | none => w
    | some p =>
      let (db, observation) :=
        observeManagerRollout contract w.db now p.managerId p.policy
      w.setGate db pid observation.shouldOpen
  | .call input =>
    if input.call.ofProcess then w
    else
      let db := Fleet.next contract w.db input
      { w with db := db, records := w.records ++ db.members.drop w.db.members.length }

def Event.own : Event → Option Nat
  | .initializeState _ pid | .observe _ pid => some pid
  | _ => none

def Member.policy (m : Member) : Option Int64 × Option String :=
  (m.observedPolicyGeneration, m.observedPolicyDigest)

def AcceptedPolicy.columns (policy : AcceptedPolicy) : Option Int64 × Option String :=
  (some policy.generation, some policy.digest)

def Rollout.sourcesOpen (rollout : Rollout) : Bool :=
  rollout.phase = .prepared ∨ rollout.phase = .staging

/-- The process may be in admission: it holds the accepted policy, the one it was recorded with as a
source of the active rollout, or the target policy while its rollout activates targets. -/
def World.Legitimate (w : World) (p : Process) : Prop :=
  w.db.guard.accepted = some p.policy.stored ∨
    ∃ rollout ∈ w.db.active?,
      ((∃ m ∈ w.records, m.key = (rollout.rolloutId, .source, p.managerId) ∧
          m.policy = p.policy.stored.columns) ∨
        ((rollout.phase = .activatingTarget ∨ rollout.phase = .completed) ∧
          rollout.target = p.policy.stored ∧
          p.managerId ∈ rollout.request.expectedTargets.map (·.managerId)))

instance (w : World) (p : Process) : Decidable (w.Legitimate p) := by
  unfold World.Legitimate
  infer_instance

/-- A source that observes while sources are in admission, without the target policy, does so under
the accepted policy or that of its row. -/
def World.faithful (w : World) : Event → Bool
  | .observe _ pid =>
    match w.process? pid, w.db.active? with
    | some p, some rollout =>
      !rollout.sourcesOpen || decide (rollout.target = p.policy.stored) ||
      decide (w.db.guard.accepted = some p.policy.stored) ||
      (match w.db.member? rollout.rolloutId .source p.managerId with
      | some m => decide (m.policy = p.policy.stored.columns)
      | none => true)
    | _, _ => true
  | _ => true

section Tables

variable {w : World}

theorem next_db (event : Event) : (w.next contract event).db = w.db ∨
      ∃ input, (w.next contract event).db = Fleet.next contract w.db input := by
  cases event with
  | start | stop => exact .inl rfl
  | initializeState now pid =>
    simp only [World.next]
    cases w.process? pid with
    | none => exact .inl rfl
    | some p => exact .inr ⟨⟨now, .initializeState p.managerId p.policy.generation
        p.policy.digest⟩, rfl⟩
  | observe now pid =>
    simp only [World.next]
    cases w.process? pid with
    | none => exact .inl rfl
    | some p => exact .inr ⟨⟨now, .observe p.managerId p.policy⟩, rfl⟩
  | call input =>
    simp only [World.next]
    split
    · exact .inl rfl
    · exact .inr ⟨input, rfl⟩

theorem reachable_db (events : List Event) :
    Reachable contract (runAll (World.next contract) World.empty events).db := by
  refine Reach.invariant (P := fun w : World => Reachable contract w.db) ?_ ?_
    (reach_runAll_any _ events)
  · exact .refl
  intro w event _ _ hw
  rcases @next_db contract w event with hsame | ⟨input, hnext⟩
  · exact hsame ▸ hw
  · exact hnext ▸ .step hw trivial

/-- Whatever managers and controllers do, one rollout holds the guard and each has its members. -/
theorem run_guarded_and_staffed (contract : Contract) (events : List Event) :
    let db := (runAll (World.next contract) World.empty events).db
    Guarded db ∧ Staffed db :=
  ⟨reachable_guarded (reachable_db events), reachable_staffed (reachable_db events)⟩

end Tables

section Open

variable {db : Store} {now : Time}

theorem active?_eq_none (h : db.guard.activeRolloutId = none) : db.active? = none := by
  simp [Store.active?, h]

theorem initialize_open {managerId digest : String} {generation : UInt64}
    (h : (initializeManagerPolicyState db managerId generation digest).2 = true) :
    db.active? = none ∧ db.guard.accepted = some ⟨generation.toInt64, digest⟩ := by
  unfold initializeManagerPolicyState at h
  split at h
  · cases h
  · simp only [decide_eq_true_eq] at h
    exact ⟨active?_eq_none h.1, h.2.2⟩

theorem stateOf_opened {phase : Phase} {role : Option Role} {matching : Bool}
    (h : Rollout.stateOf phase role matching = .opened) :
    ((phase = .prepared ∨ phase = .staging) ∧ role = some .source) ∨
      ((phase = .activatingTarget ∨ phase = .completed) ∧ role = some .target) := by
  rcases role with _ | _ | _ <;> cases phase <;> cases matching <;>
    simp [Rollout.stateOf] at h ⊢

/-- An observation opens the gate of a source whose rollout keeps sources open, and of a
target under the target policy whose rollout activates; without a rollout, under the
accepted policy. -/
theorem observe_open {managerId : String} {policy : Policy}
    (h : (observeManagerRollout contract db now managerId policy).2.shouldOpen = true) :
    (db.active? = none ∧ db.guard.accepted = some policy.stored) ∨
      ∃ rollout, db.active? = some rollout ∧
        ((rollout.sourcesOpen = true ∧ rollout.target ≠ policy.stored ∧
            ∃ m, db.member? rollout.rolloutId .source managerId = some m) ∨
          ((rollout.phase = .activatingTarget ∨ rollout.phase = .completed) ∧
            rollout.target = policy.stored ∧
            ∃ m, db.member? rollout.rolloutId .target managerId = some m)) := by
  unfold observeManagerRollout at h
  split at h
  next hnone =>
    refine .inl ⟨hnone, ?_⟩
    simp only [Guard.stateOf] at h
    split at h
    next haccepted => exact haccepted.2
    next => split at h <;> cases h
  next rollout hactive =>
    refine .inr ⟨rollout, hactive, ?_⟩
    simp only [decide_eq_true_eq] at h
    -- The row that was found has the role that the policy gives.
    have hfound : ∀ role, (db.member? rollout.rolloutId (rollout.roleOf policy) managerId).map
        (·.memberRole) = some role → rollout.roleOf policy = role ∧
        ∃ m, db.member? rollout.rolloutId role managerId = some m := by
      intro role hrole
      obtain ⟨m, hm, hmrole⟩ := Option.map_eq_some_iff.1 hrole
      obtain ⟨_, hfoundRole, _⟩ := Member.key_eq_iff.1 (mem_of_member? hm).2
      obtain rfl : rollout.roleOf policy = role := hfoundRole.symm.trans hmrole
      exact ⟨rfl, m, hm⟩
    rcases stateOf_opened h with ⟨hphase, hrole⟩ | ⟨hphase, hrole⟩
    · obtain ⟨hsource, hm⟩ := hfound _ hrole
      refine .inl ⟨decide_eq_true hphase, ?_, hm⟩
      intro heq
      simp [Rollout.roleOf, heq] at hsource
    · obtain ⟨htarget, hm⟩ := hfound _ hrole
      refine .inr ⟨hphase, ?_, hm⟩
      by_contra hne
      simp [Rollout.roleOf, hne] at htarget

end Open

def Admits (view : Guard × Option Rollout) (policy : AcceptedPolicy) : Prop :=
  match view.2 with
  | none => view.1.accepted = some policy
  | some rollout => rollout.target = policy ↔ rollout.sourcesOpen = false

/-- Processes have distinct ids, and an open gate was opened in a view that admits its policy. -/
structure World.Sound (w : World) : Prop where
  pids : (w.processes.map Process.pid).Nodup
  gates : ∀ p ∈ w.processes, p.isOpen = true →
    ∃ view, p.seen = some view ∧ Admits view p.policy.stored

section Gates

variable {w : World}

theorem admits_of_initialize (h : (initializeManagerPolicyState w.db p.managerId p.policy.generation
      p.policy.digest).2 = true) : Admits w.view p.policy.stored := by
  obtain ⟨hnone, haccepted⟩ := initialize_open h
  simp only [Admits, World.view, hnone]
  exact haccepted

theorem admits_of_observe {now : Time}
    (h : (observeManagerRollout contract w.db now p.managerId p.policy).2.shouldOpen = true) :
    Admits w.view p.policy.stored := by
  rcases observe_open h with ⟨hnone, haccepted⟩ | ⟨rollout, hactive, hcases⟩
  · simp only [Admits, World.view, hnone]
    exact haccepted
  · simp only [Admits, World.view, hactive]
    rcases hcases with ⟨hopen, hne, _⟩ | ⟨hphase, heq, _⟩
    · simp [hopen, hne]
    · rcases hphase with hphase | hphase <;> simp [heq, Rollout.sourcesOpen, hphase]

theorem mem_of_process? (h : w.process? pid = some p) : p ∈ w.processes ∧ p.pid = pid :=
  found h

theorem World.Sound.setGate (h : w.Sound) (hp : w.process? pid = some p) {isOpen : Bool}
    (db : Store) (hopen : isOpen = true → Admits w.view p.policy.stored) :
    (w.setGate db pid isOpen).Sound := by
  obtain ⟨hmem, rfl⟩ := mem_of_process? hp
  refine ⟨nodup_updateWhere h.pids fun _ => rfl, ?_⟩
  apply forall_updateWhere h.gates
  intro q hq hpid hgate
  obtain rfl := eq_of_nodup_key h.pids hq hmem (of_decide_eq_true hpid)
  exact ⟨w.view, rfl, hopen hgate⟩

theorem next_sound_gates (event : Event) (h : w.Sound) : (w.next contract event).Sound := by
  cases event with
  | start pid managerId policy =>
    refine ⟨nodup_upsertBy _ h.pids, ?_⟩
    intro p hp hopen
    rcases mem_upsertBy hp with rfl | hp
    · cases hopen
    · exact h.gates p hp hopen
  | stop pid =>
    refine ⟨h.pids.sublist (List.filter_sublist.map _), ?_⟩
    intro p hp
    exact h.gates p (List.mem_of_mem_filter hp)
  | initializeState now pid =>
    simp only [World.next]
    cases hp : w.process? pid with
    | none => exact h
    | some p => exact h.setGate hp _ admits_of_initialize
  | observe now pid =>
    simp only [World.next]
    cases hp : w.process? pid with
    | none => exact h
    | some p => exact h.setGate hp _ admits_of_observe
  | call input =>
    simp only [World.next]
    split
    · exact h
    · exact ⟨h.pids, h.gates⟩

theorem sound_of_events (events : List Event) :
    (runAll (World.next contract) World.empty events).Sound := by
  refine Reach.invariant (P := World.Sound) ?_ ?_ (reach_runAll_any _ events)
  · exact ⟨List.nodup_nil, by simp [World.empty]⟩
  · exact fun _ event _ _ => next_sound_gates event

/-- When every gate reflects the present, open gates agree on the target policy, and without a
rollout on their policy. -/
theorem World.Sound.exclusive (h : w.Sound) (hseen : ∀ p ∈ w.processes, p.seen = some w.view)
    (hp : p ∈ w.processes) (hq : q ∈ w.processes) (hpopen : p.isOpen = true)
    (hqopen : q.isOpen = true) :
    match w.db.active? with
    | none => p.policy.stored = q.policy.stored
    | some rollout => rollout.target = p.policy.stored ↔ rollout.target = q.policy.stored := by
  have hadmits : ∀ r ∈ w.processes, r.isOpen = true → Admits w.view r.policy.stored := by
    intro r hr hopen
    obtain ⟨view, hview, hadmits⟩ := h.gates r hr hopen
    rw [hseen r hr] at hview
    rwa [Option.some.inj hview]
  have hp' := hadmits p hp hpopen
  have hq' := hadmits q hq hqopen
  simp only [Admits, World.view] at hp' hq'
  split
  next hnone =>
    rw [hnone] at hp' hq'
    exact Option.mem_unique hp' hq'
  next rollout hactive =>
    rw [hactive] at hp' hq'
    exact hp'.trans hq'.symm

end Gates

/-- While sources are in admission, their rows show the accepted policy or their recorded one. -/
def Store.Sourced (db : Store) (records : List Member) : Prop :=
  ∀ rollout, db.active? = some rollout → rollout.sourcesOpen = true →
    ∀ m ∈ db.members, m.rolloutId = rollout.rolloutId → m.memberRole = .source →
      db.guard.accepted.map AcceptedPolicy.columns = some m.policy ∨
        ∃ first ∈ records, first.key = m.key ∧ first.policy = m.policy

section Sourced

variable {db : Store} {w : World} {records records' : List Member}

theorem sourcesOpen_of_legal {r r' : Rollout} (hopen : r'.sourcesOpen = true)
    (h : r'.phase = r.phase ∨ r.phase.legal r'.phase = true) : r.sourcesOpen = true := by
  rcases h with hsame | hlegal
  · simpa [Rollout.sourcesOpen, hsame] using hopen
  · simp only [Rollout.sourcesOpen, decide_eq_true_eq] at hopen ⊢
    rcases hopen with hphase | hphase <;> rw [hphase] at hlegal <;>
      revert hlegal <;> cases r.phase <;> decide

/-- A call keeps this, if a source observes under the accepted policy or its row's, and new rows are
recorded. -/
theorem Store.Sourced.next (h : db.Sourced records) (hguarded : Guarded db)
    (hstaffed : Staffed db) (input : Input)
    (hobserved : ∀ m ∈ db.members, ∀ policy rollout, input.call = .observe m.managerId policy →
      db.active? = some rollout → rollout.sourcesOpen = true →
      m.rolloutId = rollout.rolloutId → m.memberRole = .source → rollout.roleOf policy = .source →
      db.guard.accepted = some policy.stored ∨ m.policy = policy.stored.columns)
    (hrecords : records ⊆ records')
    (hnew : ∀ m ∈ (Fleet.next contract db input).members.drop db.members.length, m ∈ records') :
    (Fleet.next contract db input).Sourced records' := by
  intro r' hactive' hopen' m' hm' hid' hrole'
  rcases next_active hguarded input hactive' with ⟨r, hactive, hfixed, haccepted, hphase⟩ |
    ⟨_, request, rolloutId, _, hbegun, rfl⟩
  · have hopen := sourcesOpen_of_legal hopen' hphase
    have hid : r'.rolloutId = r.rolloutId := congrArg Prod.fst hfixed
    rw [haccepted]
    rcases @next_members contract db input hstaffed.keys with ⟨f, hmembers, hmoves, _⟩ |
      ⟨_, _, _, _, hbegun, _⟩
    · rw [hmembers] at hm'
      obtain ⟨m, hm, rfl⟩ := List.mem_map.1 hm'
      have hmove := hmoves m hm
      have hkey := hmove.key_eq
      simp only [Member.key, Prod.mk.injEq] at hkey
      have hold := h r hactive hopen m hm (hkey.1.symm.trans (hid'.trans hid))
        (hkey.2.1.symm.trans hrole')
      have hkept : (f m).policy = m.policy →
          db.guard.accepted.map AcceptedPolicy.columns = some (f m).policy ∨
            ∃ first ∈ records', first.key = (f m).key ∧ first.policy = (f m).policy := by
        intro hpolicy
        rw [hpolicy, hmove.key_eq]
        refine hold.imp_right ?_
        rintro ⟨first, hfirst, hsame⟩
        exact ⟨first, hrecords hfirst, hsame⟩
      generalize f m = m' at hmove hkept hid' hrole'
      cases hmove with
      | kept | recorded => exact hkept rfl
      | @observed policy rollout hcall hactive₂ hrollout hrole =>
        rw [hactive] at hactive₂
        obtain rfl := Option.some.inj hactive₂
        rcases hobserved m hm policy r hcall hactive hopen hrollout hrole'
          (hrole.symm.trans hrole') with haccepted | hpolicy
        · rw [haccepted]
          exact .inl rfl
        · exact hkept hpolicy.symm
    · obtain ⟨hguard, _⟩ := active?_eq hactive
      cases hbegun.inactive.symm.trans hguard
  · rw [hbegun.members] at hm'
    rcases List.mem_append.1 hm' with hold | hadded
    · obtain ⟨r, hr, hrid⟩ := hstaffed.owner m' hold
      exact absurd (hrid.trans hid') (hbegun.unused r hr)
    · refine .inr ⟨m', hnew m' ?_, rfl, rfl⟩
      rw [hbegun.members]
      simpa using hadded

theorem initialize_frame (managerId : String) (generation : UInt64) (digest : String) :
    (initializeManagerPolicyState db managerId generation digest).1.guard = db.guard ∧
    (initializeManagerPolicyState db managerId generation digest).1.rollouts = db.rollouts ∧
    (initializeManagerPolicyState db managerId generation digest).1.members = db.members := by
  unfold initializeManagerPolicyState
  split <;> exact ⟨rfl, rfl, rfl⟩

theorem observe_length (now : Time) (managerId : String) (policy : Policy) :
    (observeManagerRollout contract db now managerId policy).1.members.length =
      db.members.length := by
  obtain ⟨f, hmembers, _⟩ := @moves_observe contract db now managerId policy
  rw [hmembers, List.length_map]

theorem next_sourced (event : Event) (hreach : Reachable contract w.db)
    (hfaithful : w.faithful event = true) (h : w.db.Sourced w.records) :
    (w.next contract event).db.Sourced (w.next contract event).records := by
  have hguarded := reachable_guarded hreach
  have hstaffed := reachable_staffed hreach
  cases event with
  | start | stop => exact h
  | initializeState now pid =>
    simp only [World.next]
    cases w.process? pid with
    | none => exact h
    | some p =>
      obtain ⟨hguard, hrollouts, hmembers⟩ :=
        @initialize_frame w.db p.managerId p.policy.generation p.policy.digest
      intro rollout hactive
      simp only [World.setGate] at hactive ⊢
      rw [active?_congr hguard hrollouts] at hactive
      rw [hguard, hmembers]
      exact h rollout hactive
  | observe now pid =>
    simp only [World.next]
    cases hp : w.process? pid with
    | none => exact h
    | some p =>
      have hstep := @Store.Sourced.next contract w.db w.records w.records h hguarded
        hstaffed ⟨now, .observe p.managerId p.policy⟩
      apply hstep
      · intro m hm policy rollout hcall hactive hopen hid hrole hsource
        obtain ⟨hmanager, rfl⟩ := Call.observe.inj hcall
        have hfound := member?_of_mem hstaffed.keys hm
        rw [hid, hrole, ← hmanager] at hfound
        have hne : rollout.target ≠ p.policy.stored := by
          intro heq
          simp [Rollout.roleOf, heq] at hsource
        simpa [World.faithful, hp, hactive, hopen, hfound, hne] using hfaithful
      · exact List.Subset.refl _
      · intro m hm
        have hlength := @observe_length contract w.db now p.managerId p.policy
        change m ∈ (observeManagerRollout contract w.db now p.managerId
          p.policy).1.members.drop w.db.members.length at hm
        rw [← hlength, List.drop_length] at hm
        cases hm
  | call input =>
    simp only [World.next]
    split
    · exact h
    next hcall =>
      apply h.next hguarded hstaffed
      · intro m _ policy _ hobserve
        rw [hobserve] at hcall
        exact absurd rfl hcall
      · exact List.subset_append_left _ _
      · exact fun m hm => List.mem_append_right _ hm

end Sourced

section Own

variable {w : World}

theorem mem_setGate (hpids : (w.processes.map Process.pid).Nodup)
    (hp : w.process? pid = some p) {isOpen : Bool} {db : Store}
    (hq : q ∈ (w.setGate db pid isOpen).processes) (hpid : q.pid = pid) :
    q.managerId = p.managerId ∧ q.policy = p.policy ∧ q.isOpen = isOpen := by
  obtain ⟨hmem, rfl⟩ := mem_of_process? hp
  rcases (mem_updateWhere_key hpids hmem).1 hq with rfl | ⟨-, hother⟩
  · exact ⟨rfl, rfl, rfl⟩
  · exact absurd hpid hother

theorem legitimate_of_observe {now : Time} (hstaffed : Staffed w.db)
    (hsourced : w.db.Sourced w.records) (hfaithful : w.faithful (.observe now pid) = true)
    (hp : w.process? pid = some p) (hmanager : q.managerId = p.managerId)
    (hpolicy : q.policy = p.policy)
    (hopen : (observeManagerRollout contract w.db now p.managerId p.policy).2.shouldOpen = true) :
    w.Legitimate q := by
  rw [World.Legitimate, hmanager, hpolicy]
  rcases observe_open hopen with ⟨_, haccepted⟩ | ⟨rollout, hactive, hcases⟩
  · exact .inl haccepted
  rcases hcases with ⟨hsources, hne, m, hm⟩ | ⟨hphase, htarget, m, hm⟩
  · obtain ⟨hmem, hkey⟩ := mem_of_member? hm
    have hshown : w.db.guard.accepted = some p.policy.stored ∨
        m.policy = p.policy.stored.columns := by
      simpa [World.faithful, hp, hactive, hsources, hne, hm] using hfaithful
    rcases hshown with haccepted | hshown
    · exact .inl haccepted
    obtain ⟨hid, hrole, _⟩ := Member.key_eq_iff.1 hkey
    rcases hsourced rollout hactive hsources m hmem hid hrole with
      haccepted | ⟨first, hfirst, hfirstKey, hfirstPolicy⟩
    · rw [hshown] at haccepted
      obtain ⟨a, ha, hcolumns⟩ := Option.map_eq_some_iff.1 haccepted
      simp only [AcceptedPolicy.columns, Prod.mk.injEq, Option.some.injEq] at hcolumns
      cases a
      simp_all
    · exact .inr ⟨rollout, hactive, .inl ⟨first, hfirst, hfirstKey.trans hkey,
        hfirstPolicy.trans hshown⟩⟩
  · obtain ⟨hmem, hkey⟩ := mem_of_member? hm
    refine .inr ⟨rollout, hactive, .inr ⟨hphase, htarget, ?_⟩⟩
    apply (hstaffed.targets rollout (active?_eq hactive).2 p.managerId).1
    rw [← hkey]
    exact List.mem_map_of_mem hmem

theorem legitimate_of_own {event : Event} (hreach : Reachable contract w.db)
    (hpids : (w.processes.map Process.pid).Nodup) (hsourced : w.db.Sourced w.records)
    (hfaithful : w.faithful event = true) (hown : event.own = some pid) :
    ∀ p ∈ (w.next contract event).processes, p.pid = pid → p.isOpen = true →
      (w.next contract event).Legitimate p := by
  intro q hq hpid hopen
  cases event with
  | start | stop | call => cases hown
  | initializeState now pid' =>
    obtain rfl := Option.some.inj hown
    simp only [World.next] at hq ⊢
    cases hp : w.process? pid' with
    | none =>
      rw [hp] at hq
      exact (not_found hp hq hpid).elim
    | some p =>
      simp only [hp] at hq ⊢
      obtain ⟨_, hpolicy, hgate⟩ := mem_setGate hpids hp hq hpid
      obtain ⟨_, haccepted⟩ := initialize_open (hgate.symm.trans hopen)
      obtain ⟨hguard, _⟩ :=
        @initialize_frame w.db p.managerId p.policy.generation p.policy.digest
      left
      simp only [World.setGate, hguard, hpolicy]
      exact haccepted
  | observe now pid' =>
    obtain rfl := Option.some.inj hown
    simp only [World.next] at hq ⊢
    cases hp : w.process? pid' with
    | none =>
      rw [hp] at hq
      exact (not_found hp hq hpid).elim
    | some p =>
      simp only [hp] at hq ⊢
      obtain ⟨hmanager, hpolicy, hgate⟩ := mem_setGate hpids hp hq hpid
      have hbefore := legitimate_of_observe (reachable_staffed hreach) hsourced hfaithful hp
        hmanager hpolicy (hgate.symm.trans hopen)
      have hactive := active?_congr
        (@observe_guard contract w.db now p.managerId p.policy)
        (@observe_rollouts contract w.db now p.managerId p.policy)
      simp only [World.Legitimate, World.setGate, observe_guard, hactive]
      exact hbefore

theorem sourced_of_events {events : List Event} (hfaithful : AllOk (World.next contract)
      (fun w event => w.faithful event = true) World.empty events) :
    (runAll (World.next contract) World.empty events).db.Sourced
      (runAll (World.next contract) World.empty events).records := by
  induction events using List.reverseRecOn with
  | nil =>
    intro rollout hactive
    cases hactive
  | append_singleton events event ih =>
    obtain ⟨hevents, hevent, _⟩ := allOk_append.1 hfaithful
    rw [runAll_append]
    exact next_sourced event (reachable_db events) hevent (ih hevents)

end Own

/-- If sources that observe before the old managers close do so under the accepted policy or that of
their row, a process is open right after its step only if it may be. In every run, open gates that
reflect the tables agree on their policy. -/
theorem admission_legitimate_and_exclusive (contract : Contract) :
    (∀ events event pid, AllOk (World.next contract) (fun w event => w.faithful event = true)
        World.empty (events ++ [event]) → event.own = some pid →
      let w := runAll (World.next contract) World.empty (events ++ [event])
      ∀ p ∈ w.processes, p.pid = pid → p.isOpen = true → w.Legitimate p) ∧
    ∀ events, let w := runAll (World.next contract) World.empty events
      (∀ p ∈ w.processes, p.seen = some w.view) →
        ∀ p ∈ w.processes, ∀ q ∈ w.processes, p.isOpen = true → q.isOpen = true →
          match w.db.active? with
          | none => p.policy.stored = q.policy.stored
          | some rollout =>
            rollout.target = p.policy.stored ↔ rollout.target = q.policy.stored := by
  constructor
  · intro events event pid hfaithful hown
    obtain ⟨hevents, hevent, _⟩ := allOk_append.1 hfaithful
    rw [runAll_append]
    exact legitimate_of_own (reachable_db events) (sound_of_events events).pids
      (sourced_of_events hevents) hevent hown
  · intro events w hseen p hp q hq hpopen hqopen
    exact (sound_of_events events).exclusive hseen hp hq hpopen hqopen

namespace Sample

def replacing : List Event :=
  [.start 1 "manager-a" oldPolicy,
    .call (onTime 1 (.registerManager "manager-a" (endpoint "manager-a"))),
    .call (onTime 1 (.bootstrap 1 oldPolicy.digest)),
    .initializeState (Manager.seconds 1) 1,
    .call (begun 2 (request firstOperation newPolicy ["manager-a"] ["manager-b"]))]

def strayPolicy : Policy := policy 1 (digest 'c') ["manager-a"]

def restarted (policy : Policy) : List Event :=
  [.start 1 "manager-a" policy, .initializeState (Manager.seconds 3) 1]

end Sample

/-- The sample source restarts with the policy it had, and is open again under it. -/
theorem restarted_source_is_legitimate :
    let w := runAll (World.next Sample.contract) World.empty
      (Sample.replacing ++ Sample.restarted Sample.oldPolicy ++ [.observe (Manager.seconds 4) 1])
    ∃ p ∈ w.processes, p.isOpen = true ∧ w.Legitimate p := by
  intro w
  obtain ⟨hlegitimate, _⟩ := admission_legitimate_and_exclusive Sample.contract
  have hopen : ∃ p ∈ w.processes, p.pid = 1 ∧ p.isOpen = true := by decide +kernel
  obtain ⟨p, hp, hpid, hpopen⟩ := hopen
  exact ⟨p, hp, hpopen, hlegitimate _ _ 1 (by decide +kernel) rfl p hp hpid hpopen⟩

/-- The sample source restarts with a policy that is neither accepted, recorded nor the target. Its
start finds the mismatch, and its next observation opens the gate. -/
theorem stray_source_opens :
    let w := runAll (World.next Sample.contract) World.empty
      (Sample.replacing ++ Sample.restarted Sample.strayPolicy)
    let w' := w.next Sample.contract (.observe (Manager.seconds 4) 1)
    w.db.managers.map (·.admissionState) = [.closedMismatch] ∧
      ∃ p ∈ w'.processes, p.pid = 1 ∧ p.isOpen = true ∧ ¬w'.Legitimate p := by
  decide +kernel

end Wruntime.Fleet
