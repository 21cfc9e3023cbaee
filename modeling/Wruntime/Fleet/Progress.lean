import Wruntime.Fleet.Barriers

/-!
What a rollout needs to go on. An advance succeeds when its outcomes can be recorded and
its barrier is satisfied; observations by the members, one after the other, satisfy the
barriers that wait for them.
-/

namespace Wruntime.Fleet

open Fallible Table Runs Sql
open Manager (Time Status)

/-- The rollout is the active one and stands in the phase; the tables fit it. -/
structure Ongoing (rollout : Rollout) (phase : Phase) (db : Store) : Prop where
  guarded : Guarded db
  staffed : Staffed db
  active : db.active? = some { rollout with phase := phase }

namespace Ongoing

variable {contract : Contract} {rollout : Rollout} {phase : Phase} {db : Store}

section

variable (h : Ongoing rollout phase db)
include h

theorem activeRolloutId : db.guard.activeRolloutId = some rollout.rolloutId :=
  (active?_eq h.active).1

theorem mem : { rollout with phase := phase } ∈ db.rollouts :=
  (active?_eq h.active).2

theorem rollout? : db.rollout? rollout.rolloutId = some { rollout with phase := phase } :=
  rollout?_of_mem h.guarded.rolloutIds h.mem

theorem next (input : Input) (hactive : (next contract db input).active? = db.active?) :
    Ongoing rollout phase (Fleet.next contract db input) :=
  ⟨next_guarded input h.guarded, next_staffed input h.staffed, hactive.trans h.active⟩

end

end Ongoing

section Advance

variable {contract : Contract} {rollout : Rollout} {phase nextPhase : Phase}
  {db recorded : Store} {now threshold : Time} {outcomes : List MemberOutcome}

/-- Entering a phase writes it to the rollout, and the failure that a terminal phase brings. -/
theorem rollout?_enterPhase (h : Ongoing rollout phase db)
    (hrollouts : recorded.rollouts = db.rollouts) :
    (recorded.enterPhase { rollout with phase := phase } nextPhase).rollout?
        rollout.rolloutId =
      some { rollout with
        phase := nextPhase
        failure := nextPhase.terminalFailure <|> rollout.failure } := by
  have hfound := h.rollout?
  simp only [Store.rollout?, Store.enterPhase] at hfound ⊢
  rw [find?_updateWhere, hrollouts, hfound]
  · simp
  · exact fun _ => rfl

theorem getManagerRollout_eq_ok {rolloutId : Uuid} {view : ManagerRollout}
    (h : getManagerRollout contract db rolloutId = .ok view) :
    ∃ r, db.rollout? rolloutId = some r ∧ view.phase = r.phase ∧ view.rolloutId = r.rolloutId := by
  simp only [getManagerRollout, bind_eq_ok, required_eq_ok, pure_eq_ok] at h
  obtain ⟨r, hr, rfl⟩ := h
  exact ⟨r, hr, rfl, rfl⟩

variable (h : Ongoing rollout phase db) (hlegal : phase.legal nextPhase = true)
  (hrecorded : recordOutcomes contract rollout.rolloutId false [] outcomes db = .ok recorded)
  (hbarrier : recorded.remaining now threshold { rollout with phase := phase } nextPhase = 0)
include h hlegal hrecorded hbarrier

/-- An advance from the present phase, with recordable outcomes and a satisfied barrier, enters the
next phase and answers with it. -/
theorem Ongoing.serveAdvance :
    ∃ view : ManagerRollout, view.phase = nextPhase ∧ view.rolloutId = rollout.rolloutId ∧
      Fleet.serveAdvance contract db now rollout.rolloutId rollout.deploymentPrincipalUri phase
        nextPhase outcomes threshold =
        .ok (recorded.enterPhase { rollout with phase := phase } nextPhase, view) := by
  have hne : ¬phase = nextPhase := legal_ne hlegal
  obtain ⟨_, hrollouts, _⟩ := recordOutcomes_frame hrecorded
  have hadvance : advanceManagerRollout contract db now rollout.rolloutId
      rollout.deploymentPrincipalUri phase nextPhase outcomes threshold =
      .ok (recorded.enterPhase { rollout with phase := phase } nextPhase) := by
    simp only [advanceManagerRollout, bind_eq_ok, required_eq_ok, ensure_eq_ok]
    refine ⟨⟨⟩, hlegal, _, h.rollout?, ⟨⟩, rfl, ⟨⟩, .inl rfl, recorded, ?_, ?_⟩
    · simpa [hne] using hrecorded
    · rw [if_neg hne]
      simp only [bind_eq_ok, ensure_eq_ok]
      exact ⟨⟨⟩, hbarrier, rfl⟩
  obtain ⟨view, hview⟩ : ∃ view, getManagerRollout contract (recorded.enterPhase
      { rollout with phase := phase } nextPhase) rollout.rolloutId = .ok view := by
    simp only [getManagerRollout, bind_eq_ok, required_eq_ok]
    exact ⟨_, _, rollout?_enterPhase h hrollouts, rfl⟩
  obtain ⟨r, hr, hphase, hid⟩ := getManagerRollout_eq_ok hview
  rw [rollout?_enterPhase h hrollouts] at hr
  obtain rfl := Option.some.inj hr
  refine ⟨view, hphase, hid, ?_⟩
  simp only [Fleet.serveAdvance, hadvance, bind_eq_ok]
  exact ⟨_, rfl, view, hview, rfl⟩

theorem Ongoing.next_advance : Fleet.next contract db ⟨now, .advanceRollout rollout.rolloutId
        rollout.deploymentPrincipalUri phase nextPhase outcomes threshold⟩ =
      recorded.enterPhase { rollout with phase := phase } nextPhase := by
  obtain ⟨view, _, _, hserve⟩ := h.serveAdvance hlegal hrecorded hbarrier
  simp only [Fleet.next, step, hserve, settle]

/-- A rollout that enters a phase before its end is still the active one. -/
theorem Ongoing.entered (hon : nextPhase.rank ≤ 7) : Ongoing rollout nextPhase
      (recorded.enterPhase { rollout with phase := phase } nextPhase) := by
  have hnext := h.next_advance hlegal hrecorded hbarrier
  obtain ⟨hguard, hrollouts, _⟩ := recordOutcomes_frame hrecorded
  refine ⟨hnext ▸ next_guarded _ h.guarded, hnext ▸ next_staffed _ h.staffed, ?_⟩
  have hactive : (recorded.enterPhase { rollout with phase := phase }
      nextPhase).guard.activeRolloutId = some rollout.rolloutId := by
    simp only [Store.enterPhase, Guard.enter, hguard, h.activeRolloutId, if_true]
    revert hon
    cases nextPhase <;> simp [Phase.rank, h.activeRolloutId]
  rw [Store.active?, hactive, Option.bind_some, rollout?_enterPhase h hrollouts]
  revert hon
  cases nextPhase <;> simp [Phase.rank, Phase.terminalFailure]

end Advance

section Outcomes

variable {contract : Contract} {rolloutId : Uuid} {db : Store}

/-- Well-formed outcomes of different members, none of which has one yet, can be recorded. -/
theorem recordOutcomes_ok {seen : List (Role × String)} {outcomes : List MemberOutcome}
    (hform : ∀ o ∈ outcomes, contract.managerId o.managerId = .ok ⟨⟩ ∧
      o.hostActionOutcome ≠ "" ∧ o.hostActionOutcome.utf8ByteSize ≤ 64 ∧ o.error = "")
    (hdistinct : (outcomes.map fun o => (o.memberRole, o.managerId)).Nodup)
    (hseen : ∀ o ∈ outcomes, (o.memberRole, o.managerId) ∉ seen)
    (hmember : ∀ o ∈ outcomes, ∃ m, db.member? rolloutId o.memberRole o.managerId = some m ∧
      m.hostActionOutcome = none) :
    ∃ recorded, recordOutcomes contract rolloutId false seen outcomes db = .ok recorded := by
  induction outcomes generalizing db seen with
  | nil => exact ⟨db, rfl⟩
  | cons outcome rest ih =>
    obtain ⟨hid, hnonempty, hsize, herror⟩ := hform outcome List.mem_cons_self
    obtain ⟨m, hm, hfresh⟩ := hmember outcome List.mem_cons_self
    rw [List.map_cons, List.nodup_cons] at hdistinct
    have hother : ∀ o ∈ rest, (o.memberRole, o.managerId) ≠
        (outcome.memberRole, outcome.managerId) := by
      intro o ho heq
      apply hdistinct.1
      rw [← heq]
      exact List.mem_map_of_mem ho
    have hfirst : recordOutcome contract db rolloutId false seen outcome = .ok { db with
        members := updateWhere
          (fun m => m.key = (rolloutId, outcome.memberRole, outcome.managerId))
          (·.record outcome) db.members } := by
      simp only [recordOutcome, bind_eq_ok, mapError_eq_ok, ensure_eq_ok, required_eq_ok]
      refine ⟨⟨⟩, hid, ⟨⟩, ⟨hnonempty, hsize, ?_, hseen outcome List.mem_cons_self⟩, m, hm, ?_⟩
      · rw [herror]
        decide
      · rw [hfresh]
        rfl
    simp only [recordOutcomes, hfirst]
    apply ih
    · exact fun o ho => hform o (List.mem_cons_of_mem _ ho)
    · exact hdistinct.2
    · intro o ho hmem
      rcases List.mem_cons.1 hmem with heq | hmem
      · exact hother o ho heq
      · exact hseen o (List.mem_cons_of_mem _ ho) hmem
    · intro o ho
      obtain ⟨m', hm', hfresh'⟩ := hmember o (List.mem_cons_of_mem _ ho)
      refine ⟨m', ?_, hfresh'⟩
      -- The update is of a row with another key.
      have hkey := (mem_of_member? hm').2
      simp only [Store.member?] at hm' ⊢
      rw [find?_updateWhere, hm']
      · have hne : m'.key ≠ (rolloutId, outcome.memberRole, outcome.managerId) := by
          rw [hkey]
          intro heq
          exact hother o ho (congrArg Prod.snd heq)
        simp [hne]
      · exact fun _ => rfl

end Outcomes

section Observe

variable {contract : Contract} {rollout : Rollout} {phase : Phase} {db : Store} {now : Time}
  {role : Role} {state : AdmissionState} {policy : String → Policy}

/-- The store after the managers have observed the rollout, each with its own policy. -/
def Store.observedBy (db : Store) (now : Time) (rolloutId : Uuid) (role : Role)
    (state : AdmissionState) (policy : String → Policy) (ids : List String) : Store :=
  { db with
    members := updateWhere
      (fun m => m.rolloutId = rolloutId ∧ m.memberRole = role ∧ m.managerId ∈ ids)
      (fun m => m.observe (policy m.managerId).stored .ready state) db.members
    managers := updateWhere (fun row => row.managerId ∈ ids)
      (fun row => { row.report (policy row.managerId).stored state with lastHeartbeat := now })
      db.managers }

/-- With this policy a manager has the role in the rollout, and its observation reports readiness
and the admission state. -/
structure Due (contract : Contract) (rollout : Rollout) (phase : Phase) (role : Role)
    (state : AdmissionState) (policy : Policy) : Prop where
  role_eq : rollout.roleOf policy = role
  state_eq : Rollout.stateOf phase (some role) (rollout.targetMatches contract policy) = state
  ready : rollout.targetMatches contract policy = true ∨ role = .source

/-- One observation writes the row of its manager and that of its membership. -/
theorem observe_eq_observedBy (h : Ongoing rollout phase db) {managerId : String}
    (hdue : Due contract rollout phase role state (policy managerId))
    (hmember : (rollout.rolloutId, role, managerId) ∈ db.members.map Member.key) :
    (observeManagerRollout contract db now managerId (policy managerId)).1 =
      db.observedBy now rollout.rolloutId role state policy [managerId] := by
  obtain ⟨m, _, hfound, _, hmrole⟩ := member?_of_key h.staffed.keys hmember
  have hrole : Rollout.roleOf { rollout with phase := phase } (policy managerId) = role :=
    hdue.role_eq
  have hmatches : Rollout.targetMatches contract { rollout with phase := phase }
      (policy managerId) = rollout.targetMatches contract (policy managerId) := rfl
  have hprocess : (if rollout.targetMatches contract (policy managerId) = true ∨
      some role = some .source then ProcessState.ready else .mismatch) = .ready := by
    rw [if_pos]
    exact hdue.ready.imp_right (congrArg some)
  simp only [observeManagerRollout, h.active, hrole, hfound, Option.map_some, hmrole,
    hmatches, hdue.state_eq, hprocess, Store.observedBy, Store.modifyManager]
  congr 1
  · apply List.map_congr_left
    intro m' _
    by_cases hm' : m'.rolloutId = rollout.rolloutId ∧ m'.memberRole = role ∧
        m'.managerId = managerId
    · simp [hm'.1, hm'.2.1, hm'.2.2]
    · have hm'' : ¬(m'.rolloutId = rollout.rolloutId ∧ m'.managerId = managerId ∧
          m'.memberRole = role) := fun hall => hm' ⟨hall.1, hall.2.2, hall.2.1⟩
      simp only [Option.some.injEq, List.mem_singleton, hm', hm'', decide_false,
        Bool.false_eq_true, if_false]
  · apply List.map_congr_left
    intro row _
    by_cases hrow : row.managerId = managerId
    · simp [hrow]
    · simp [hrow]

theorem observedBy_nil (rolloutId : Uuid) :
    db.observedBy now rolloutId role state policy [] = db := by
  simp [Store.observedBy, updateWhere]

theorem observedBy_append (rolloutId : Uuid) (ids : List String) (id : String) :
    (db.observedBy now rolloutId role state policy ids).observedBy now rolloutId role state
        policy [id] = db.observedBy now rolloutId role state policy (ids ++ [id]) := by
  simp only [Store.observedBy]
  congr 1
  · rw [updateWhere_updateWhere]
    · congr 1
      funext m
      simp [and_or_left]
    · exact fun _ => rfl
    · exact fun _ => rfl
  · rw [updateWhere_updateWhere]
    · congr 1
      funext row
      simp
    · exact fun _ => rfl
    · exact fun _ => rfl

theorem observations_observedBy {rolloutId : Uuid} {ids : List String} {m : Member}
    (hm : m ∈ (db.observedBy now rolloutId role state policy ids).members)
    (hrollout : m.rolloutId = rolloutId) (hrole : m.memberRole = role) (hid : m.managerId ∈ ids) :
    m.observations = report (policy m.managerId).stored .ready state := by
  rcases updated hm with ⟨old, -, -, rfl⟩ | ⟨-, hother⟩
  · rfl
  · exact absurd (decide_eq_true ⟨hrollout, hrole, hid⟩) hother

/-- The members observe one after the other. The induction is on the list from its end, so that the
last observation is a step from the store of the others. -/
theorem reach_observedBy {ok : Store → Input → Prop} {ids : List String}
    (h : Ongoing rollout phase db)
    (hdue : ∀ id ∈ ids, Due contract rollout phase role state (policy id))
    (hmember : ∀ id ∈ ids, (rollout.rolloutId, role, id) ∈ db.members.map Member.key)
    (hok : ∀ done, ∀ id ∈ ids, ok (db.observedBy now rollout.rolloutId role state policy done)
      ⟨now, .observe id (policy id)⟩) :
    Reach (next contract) ok db (db.observedBy now rollout.rolloutId role state policy ids) ∧
      Ongoing rollout phase (db.observedBy now rollout.rolloutId role state policy ids) := by
  induction ids using List.reverseRecOn with
  | nil =>
    rw [observedBy_nil]
    exact ⟨.refl, h⟩
  | append_singleton ids id ih =>
    have hlast : id ∈ ids ++ [id] := List.mem_append_right _ (List.mem_singleton_self _)
    obtain ⟨hreach, hongoing⟩ := ih (fun x hx => hdue x (List.mem_append_left _ hx))
      (fun x hx => hmember x (List.mem_append_left _ hx))
      (fun done x hx => hok done x (List.mem_append_left _ hx))
    generalize hmid : db.observedBy now rollout.rolloutId role state policy ids = mid at *
    have hkeys : mid.members.map Member.key = db.members.map Member.key := by
      rw [← hmid]
      apply map_updateWhere
      exact fun _ => rfl
    have hnext : next contract mid ⟨now, .observe id (policy id)⟩ =
        db.observedBy now rollout.rolloutId role state policy (ids ++ [id]) := by
      rw [← observedBy_append, hmid]
      exact observe_eq_observedBy hongoing (hdue id hlast) (hkeys ▸ hmember id hlast)
    rw [← hnext]
    constructor
    · apply hreach.step
      rw [← hmid]
      exact hok ids id hlast
    · apply hongoing.next
      exact active?_congr (observe_guard id (policy id)) (observe_rollouts id (policy id))

end Observe

end Wruntime.Fleet
