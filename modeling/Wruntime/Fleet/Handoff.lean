import Wruntime.Fleet.Progress

/-!
The handoff from sources to targets, by managers that follow the protocol. The sources observe that
they are to close, and the rows of stopped managers age out. The targets start with the target
policy and observe, first closed and then, once activated, open.
-/

namespace Wruntime.Fleet

open Fallible Table Runs Sql
open Manager (Time Status)

structure Parties where
  held : String → Policy
  target : Policy
  threshold : Time

def Rollout.sourceIds (rollout : Rollout) : List String :=
  rollout.request.sourceManagers.map (·.managerId)

def Rollout.targetIds (rollout : Rollout) : List String :=
  rollout.request.expectedTargets.map (·.managerId)

/-- A source observes under its policy until it is recorded as stopped, a target under the target
policy. Others may observe too. -/
def Parties.Observes (parties : Parties) (rollout : Rollout) (db : Store) (managerId : String)
    (policy : Policy) : Prop :=
  (managerId ∈ rollout.sourceIds ∧ policy = parties.held managerId ∧
      ∀ m ∈ db.members, m.key = (rollout.rolloutId, .source, managerId) →
        m.hostActionOutcome ≠ some "STOPPED") ∨
    (managerId ∈ rollout.targetIds ∧ policy = parties.target) ∨
    (managerId ∉ rollout.sourceIds ∧ managerId ∉ rollout.targetIds)

/-- The calls of managers that follow the protocol, in the order of time. Only targets
start. -/
def Parties.Manages (parties : Parties) (rollout : Rollout) (db : Store) (input : Input) :
    Prop :=
  (∀ row ∈ db.managers, row.lastHeartbeat ≤ input.now) ∧
    match input.call with
    | .observe managerId policy => parties.Observes rollout db managerId policy
    | .registerManager managerId _ => managerId ∈ rollout.targetIds
    | .initializeState managerId generation digest => managerId ∈ rollout.targetIds ∧
        generation = parties.target.generation ∧ digest = parties.target.digest
    | .heartbeatManager _ | .deregisterManager _ | .cleanupStaleManagers _ => True
    | _ => False

structure Fresh (rollout : Rollout) (clock : Time) (db : Store) : Prop where
  outcomes : ∀ m ∈ db.members, m.rolloutId = rollout.rolloutId → m.hostActionOutcome = none
  clock : ∀ row ∈ db.managers, row.lastHeartbeat ≤ clock

section Members

variable {rollout : Rollout} {phase : Phase} {db : Store} {rolloutId : Uuid} {role : Role}
  {m : Member}

theorem mem_membersOf : m ∈ db.membersOf rolloutId role ↔
      m ∈ db.members ∧ m.rolloutId = rolloutId ∧ m.memberRole = role := by
  simp [Store.membersOf]

theorem Ongoing.source_mem (h : Ongoing rollout phase db) (hm : m ∈ db.members)
    (hid : m.rolloutId = rollout.rolloutId) (hrole : m.memberRole = .source) :
    m.managerId ∈ rollout.sourceIds := by
  apply (h.staffed.sources _ h.mem m.managerId).1
  exact Member.key_eq_iff.2 ⟨hid, hrole, rfl⟩ ▸ List.mem_map_of_mem hm

theorem Ongoing.target_mem (h : Ongoing rollout phase db) (hm : m ∈ db.members)
    (hid : m.rolloutId = rollout.rolloutId) (hrole : m.memberRole = .target) :
    m.managerId ∈ rollout.targetIds := by
  apply (h.staffed.targets _ h.mem m.managerId).1
  exact Member.key_eq_iff.2 ⟨hid, hrole, rfl⟩ ▸ List.mem_map_of_mem hm

end Members

section Sources

variable {contract : Contract} {parties : Parties} {rollout : Rollout} {db : Store}
  {clock : Time}

theorem Fresh.observedBy (h : Fresh rollout clock db) (role : Role) (state : AdmissionState)
    (policy : String → Policy) (ids : List String) : Fresh rollout clock
      (db.observedBy clock rollout.rolloutId role state policy ids) := by
  constructor
  · apply forall_updateWhere h.outcomes
    exact fun m hm _ => h.outcomes m hm
  · apply forall_updateWhere h.clock
    exact fun _ _ _ => Nat.le_refl _

/-- The sources observe that they are to close, if none of them holds the target policy. -/
theorem sources_close (h : Ongoing rollout .closingOld db) (hfresh : Fresh rollout clock db)
    (hheld : ∀ id ∈ rollout.sourceIds, (parties.held id).stored ≠ rollout.target) :
    ∃ t, Reach (next contract) (parties.Manages rollout) db t ∧
      Ongoing rollout .closingOld t ∧ Fresh rollout clock t ∧ ∀ now threshold,
        t.remaining now threshold { rollout with phase := .closingOld } .oldClosed = 0 := by
  have hdue : ∀ id ∈ rollout.sourceIds,
      Due contract rollout .closingOld .source .closedRollout (parties.held id) := by
    intro id hid
    refine ⟨?_, rfl, .inr rfl⟩
    simp [Rollout.roleOf, (hheld id hid).symm]
  have hmember : ∀ id ∈ rollout.sourceIds,
      (rollout.rolloutId, .source, id) ∈ db.members.map Member.key :=
    fun id hid => (h.staffed.sources _ h.mem id).2 hid
  have hok : ∀ done, ∀ id ∈ rollout.sourceIds, parties.Manages rollout
      (db.observedBy clock rollout.rolloutId .source .closedRollout parties.held done)
      ⟨clock, .observe id (parties.held id)⟩ := by
    intro done id hid
    have hmid := hfresh.observedBy .source .closedRollout parties.held done
    refine ⟨hmid.clock, .inl ⟨hid, rfl, ?_⟩⟩
    intro m hm hkey
    rw [hmid.outcomes m hm (congrArg Prod.fst hkey)]
    simp
  obtain ⟨hreach, hongoing⟩ := reach_observedBy h hdue hmember hok
  refine ⟨_, hreach, hongoing, hfresh.observedBy _ _ _ _, ?_⟩
  intro now threshold
  rw [Store.remaining, countWhere_eq_zero]
  intro m hm
  obtain ⟨hm, hid, hrole⟩ := mem_membersOf.1 hm
  have hshown := observations_observedBy hm hid hrole (hongoing.source_mem hm hid hrole)
  simp only [Member.observations, report, Prod.mk.injEq] at hshown
  simp [sourceNotClosed, hshown.2.2.2]

end Sources

structure Started (rollout : Rollout) (early late : Time) (db : Store) : Prop where
  outcomes : ∀ m ∈ db.members, m.rolloutId = rollout.rolloutId → m.hostActionOutcome = none
  targets : ∀ m ∈ db.members, m.rolloutId = rollout.rolloutId → m.memberRole = .target →
    m.observations = report rollout.target .ready .closedRollout
  managers : ∀ row ∈ db.managers, row.lastHeartbeat ≤ early ∨
    (row.managerId ∈ rollout.targetIds ∧ row.admissionState = .closedRollout ∧
      row.lastHeartbeat ≤ late)

structure Starting (rollout : Rollout) (early late : Time) (db : Store) : Prop where
  ongoing : Ongoing rollout .startingTarget db
  outcomes : ∀ m ∈ db.members, m.rolloutId = rollout.rolloutId → m.hostActionOutcome = none
  managers : ∀ row ∈ db.managers, row.lastHeartbeat ≤ early ∨
    (row.managerId ∈ rollout.targetIds ∧ row.lastHeartbeat ≤ late)

section Targets

variable {contract : Contract} {parties : Parties} {rollout : Rollout} {db : Store}
  {early late : Time}

section

variable (h : Starting rollout early late db)
include h

theorem Starting.clock (hle : early ≤ late) : ∀ row ∈ db.managers, row.lastHeartbeat ≤ late := by
  intro row hrow
  rcases h.managers row hrow with hold | ⟨_, hlate⟩
  · exact Nat.le_trans hold hle
  · exact hlate

theorem Starting.register {id : String} (hid : id ∈ rollout.targetIds) (address : String) :
    Starting rollout early late (next contract db ⟨late, .registerManager id address⟩) := by
  refine ⟨h.ongoing.next _ ?_, ?_, ?_⟩
  · simp only [next, step, registerManager]
    split <;> exact active?_congr rfl rfl
  · simp only [next, step, registerManager]
    split <;> exact h.outcomes
  · simp only [next, step, registerManager]
    split
    · apply forall_updateWhere h.managers
      intro row _ hrow
      have hrow' : row.managerId = id := of_decide_eq_true hrow
      exact .inr ⟨hrow' ▸ hid, Nat.le_refl _⟩
    · intro row hrow
      rcases mem_snoc.1 hrow with hold | rfl
      · exact h.managers row hold
      · exact .inr ⟨hid, Nat.le_refl _⟩

theorem Starting.initialized (id : String) (generation : UInt64) (digest : String) :
    Starting rollout early late
      (next contract db ⟨late, .initializeState id generation digest⟩) := by
  refine ⟨h.ongoing.next _ ?_, ?_, ?_⟩
  · simp only [next, step, initializeManagerPolicyState]
    split <;> exact active?_congr rfl rfl
  · simp only [next, step, initializeManagerPolicyState]
    split <;> exact h.outcomes
  · simp only [next, step, initializeManagerPolicyState]
    split
    all_goals
      apply forall_updateWhere h.managers
      exact fun row hrow _ => h.managers row hrow

end

variable (hmatches : rollout.targetMatches contract parties.target = true)
include hmatches

theorem target_stored : parties.target.stored = rollout.target := by
  simp only [Rollout.targetMatches, decide_eq_true_eq] at hmatches
  simp only [Rollout.target, Policy.stored, hmatches.1, hmatches.2.1, Int64.toInt64_toUInt64]

theorem due_target {phase : Phase} {state : AdmissionState}
    (hstate : Rollout.stateOf phase (some .target) true = state) :
    Due contract rollout phase .target state parties.target := by
  refine ⟨?_, hmatches ▸ hstate, .inl hmatches⟩
  simp [Rollout.roleOf, target_stored hmatches]

theorem targets_observe {phase : Phase} {state : AdmissionState} (h : Ongoing rollout phase db)
    (hstate : Rollout.stateOf phase (some .target) true = state)
    (hclock : ∀ row ∈ db.managers, row.lastHeartbeat ≤ late) :
    Reach (next contract) (parties.Manages rollout) db (db.observedBy late rollout.rolloutId
        .target state (fun _ => parties.target) rollout.targetIds) ∧
      Ongoing rollout phase (db.observedBy late rollout.rolloutId .target state
        (fun _ => parties.target) rollout.targetIds) := by
  apply reach_observedBy h
  · exact fun id _ => due_target hmatches hstate
  · exact fun id hid => (h.staffed.targets _ h.mem id).2 hid
  · intro done id hid
    refine ⟨?_, .inr (.inl ⟨hid, rfl⟩)⟩
    apply forall_updateWhere hclock
    exact fun _ _ _ => Nat.le_refl _

theorem targets_start (h : Ongoing rollout .startingTarget db) (hfresh : Fresh rollout early db)
    (hle : early ≤ late) : ∃ t, Reach (next contract) (parties.Manages rollout) db t ∧
      Ongoing rollout .startingTarget t ∧ Started rollout early late t := by
  have hstarting : Starting rollout early late db :=
    ⟨h, hfresh.outcomes, fun row hrow => .inl (hfresh.clock row hrow)⟩
  obtain ⟨registered, hregister, hregistered⟩ : ∃ t,
      Reach (next contract) (parties.Manages rollout) db t ∧ Starting rollout early late t := by
    apply reach_forEach (fun target : ManagerRolloutTarget =>
      ⟨late, .registerManager target.managerId target.endpoint⟩)
      rollout.request.expectedTargets _ hstarting
    intro s target htarget hs
    have hid : target.managerId ∈ rollout.targetIds := List.mem_map_of_mem htarget
    exact ⟨⟨hs.clock hle, hid⟩, hs.register hid _⟩
  obtain ⟨initialized, hinitialize, hinitialized⟩ : ∃ t,
      Reach (next contract) (parties.Manages rollout) registered t ∧
        Starting rollout early late t := by
    apply reach_forEach (fun target : ManagerRolloutTarget =>
      ⟨late, .initializeState target.managerId parties.target.generation
        parties.target.digest⟩) rollout.request.expectedTargets _ hregistered
    intro s target htarget hs
    exact ⟨⟨hs.clock hle, List.mem_map_of_mem htarget, rfl, rfl⟩, hs.initialized _ _ _⟩
  have hclosed : Rollout.stateOf .startingTarget (some .target) true = .closedRollout := rfl
  obtain ⟨hobserve, hongoing⟩ := targets_observe hmatches hinitialized.ongoing hclosed
    (hinitialized.clock hle)
  refine ⟨_, (hregister.trans hinitialize).trans hobserve, hongoing, ?_, ?_, ?_⟩
  · apply forall_updateWhere hinitialized.outcomes
    exact fun m hm _ => hinitialized.outcomes m hm
  · intro m hm hid hrole
    rw [observations_observedBy hm hid hrole (hongoing.target_mem hm hid hrole),
      target_stored hmatches]
  · intro row hrow
    rcases updated hrow with ⟨old, -, hid, rfl⟩ | ⟨hold, hother⟩
    · exact .inr ⟨of_decide_eq_true hid, rfl, Nat.le_refl _⟩
    · rcases hinitialized.managers row hold with hearly | ⟨hid, _⟩
      · exact .inl hearly
      · exact absurd (decide_eq_true hid) hother

omit hmatches

def Rollout.handoff (rollout : Rollout) : List MemberOutcome :=
  rollout.targetIds.map (fun id => ⟨id, .target, "READY_CLOSED", ""⟩) ++
    rollout.sourceIds.map (fun id => ⟨id, .source, "STOPPED", ""⟩)

theorem mem_handoff {outcome : MemberOutcome} (h : outcome ∈ rollout.handoff) :
    (outcome.managerId ∈ rollout.targetIds ∧ outcome = ⟨outcome.managerId, .target,
        "READY_CLOSED", ""⟩) ∨
      (outcome.managerId ∈ rollout.sourceIds ∧ outcome = ⟨outcome.managerId, .source,
        "STOPPED", ""⟩) := by
  rcases List.mem_append.1 h with h | h <;> obtain ⟨id, hid, rfl⟩ := List.mem_map.1 h
  · exact .inl ⟨hid, rfl⟩
  · exact .inr ⟨hid, rfl⟩

theorem recorded_handoff {phase : Phase} (h : Ongoing rollout phase db) {m : Member}
    (hm : m ∈ db.members) (hid : m.rolloutId = rollout.rolloutId)
    (hfresh : m.hostActionOutcome = none) :
    m.recorded rollout.rolloutId rollout.handoff = m.record ⟨m.managerId, m.memberRole,
      (if m.memberRole = .target then "READY_CLOSED" else "STOPPED"), ""⟩ := by
  have hreported : ∃ o ∈ rollout.handoff,
      m.key = (rollout.rolloutId, o.memberRole, o.managerId) := by
    cases hrole : m.memberRole with
    | source =>
      exact ⟨_, List.mem_append_right _ (List.mem_map_of_mem (h.source_mem hm hid hrole)),
        by simp [Member.key, hid, hrole]⟩
    | target =>
      exact ⟨_, List.mem_append_left _ (List.mem_map_of_mem (h.target_mem hm hid hrole)),
        by simp [Member.key, hid, hrole]⟩
  obtain ⟨o, ho, hkey⟩ := hreported
  cases hfound : rollout.handoff.find? fun o => decide (m.key =
      (rollout.rolloutId, o.memberRole, o.managerId)) with
  | none => exact (not_found hfound ho hkey).elim
  | some o' =>
    obtain ⟨hmem, hkey'⟩ := found hfound
    simp only [Member.key, Prod.mk.injEq] at hkey'
    simp only [Member.recorded, hfound, hfresh, if_true]
    rcases mem_handoff hmem with ⟨_, ho'⟩ | ⟨_, ho'⟩
    · rw [ho'] at hkey' ⊢
      simp [hkey'.2.1, hkey'.2.2]
    · rw [ho'] at hkey' ⊢
      simp [hkey'.2.1, hkey'.2.2]

theorem recordOutcomes_handoff {phase : Phase} (h : Ongoing rollout phase db)
    (hcanonical : Canonical contract rollout.request)
    (hfresh : ∀ m ∈ db.members, m.rolloutId = rollout.rolloutId → m.hostActionOutcome = none) :
    ∃ recorded, recordOutcomes contract rollout.rolloutId false [] rollout.handoff db =
      .ok recorded := by
  apply recordOutcomes_ok
  · intro o ho
    rcases mem_handoff ho with ⟨hid, ho⟩ | ⟨hid, ho⟩ <;>
      obtain ⟨member, hmember, hmanager⟩ := List.mem_map.1 hid <;> rw [ho]
    · have htext : "READY_CLOSED" ≠ "" ∧ "READY_CLOSED".utf8ByteSize ≤ 64 := by decide
      exact ⟨hmanager ▸ hcanonical.targetIds member hmember, htext.1, htext.2, rfl⟩
    · have htext : "STOPPED" ≠ "" ∧ "STOPPED".utf8ByteSize ≤ 64 := by decide
      exact ⟨hmanager ▸ hcanonical.sourceIds member hmember, htext.1, htext.2, rfl⟩
  · simp only [Rollout.handoff, List.map_append, List.map_map, Function.comp_def]
    rw [List.nodup_append]
    refine ⟨hcanonical.targetsNodup.map ?_, hcanonical.sourcesNodup.map ?_, ?_⟩
    · intro a b hab
      simpa using hab
    · intro a b hab
      simpa using hab
    · simp
  · simp
  · intro o ho
    have hkey : (rollout.rolloutId, o.memberRole, o.managerId) ∈
        db.members.map Member.key := by
      rcases mem_handoff ho with ⟨hid, ho⟩ | ⟨hid, ho⟩ <;> rw [ho]
      · exact (h.staffed.targets _ h.mem _).2 hid
      · exact (h.staffed.sources _ h.mem _).2 hid
    obtain ⟨m, hm, hfound, hid, _⟩ := member?_of_key h.staffed.keys hkey
    exact ⟨m, hfound, hfresh m hm hid⟩

theorem not_live {row : ManagerRow} {threshold : Time} (hage : early + threshold ≤ late)
    (hold : row.lastHeartbeat ≤ early) : row.live late threshold = false := by
  simp only [ManagerRow.live, decide_eq_false_iff_not, Nat.not_lt]
  exact Nat.le_trans (Nat.add_le_add_right hold threshold) hage

/-- The handoff can be recorded, and then nothing stands against `TARGET_READY_CLOSED`. -/
theorem handoff_ready (h : Ongoing rollout .startingTarget db)
    (hcanonical : Canonical contract rollout.request) (hstarted : Started rollout early late db)
    {threshold : Time} (hage : early + threshold ≤ late) :
    ∃ recorded, recordOutcomes contract rollout.rolloutId false [] rollout.handoff db =
        .ok recorded ∧
      recorded.remaining late threshold { rollout with phase := .startingTarget }
        .targetReadyClosed = 0 := by
  obtain ⟨recorded, hrecorded⟩ := recordOutcomes_handoff h hcanonical hstarted.outcomes
  refine ⟨recorded, hrecorded, ?_⟩
  obtain ⟨_, hmembers⟩ := recordOutcomes_members h.staffed.keys hrecorded
  obtain ⟨_, _, hmanagers⟩ := recordOutcomes_frame hrecorded
  -- Every row of the rollout is one from before, with its outcome.
  have hrow : ∀ m' ∈ recorded.members, m'.rolloutId = rollout.rolloutId →
      ∃ m ∈ db.members, m.rolloutId = rollout.rolloutId ∧ m' = m.record ⟨m.managerId,
        m.memberRole, (if m.memberRole = .target then "READY_CLOSED" else "STOPPED"), ""⟩ := by
    intro m' hm' hid
    rw [hmembers] at hm'
    obtain ⟨m, hm, rfl⟩ := List.mem_map.1 hm'
    have hkey := congrArg Prod.fst (@Member.key_recorded rollout.rolloutId rollout.handoff m)
    have hid' : m.rolloutId = rollout.rolloutId := hkey.symm.trans hid
    exact ⟨m, hm, hid', recorded_handoff h hm hid' (hstarted.outcomes m hm hid')⟩
  simp only [Store.remaining, Nat.add_eq_zero_iff, countWhere_eq_zero, List.countP_eq_zero]
  refine ⟨⟨?_, ?_⟩, ?_⟩
  · intro m' hm'
    obtain ⟨hm', hid, hrole⟩ := mem_membersOf.1 hm'
    obtain ⟨m, hm, hmid, rfl⟩ := hrow m' hm' hid
    have hshown := hstarted.targets m hm hmid hrole
    simp only [Member.observations, report, Prod.mk.injEq] at hshown
    have htarget : m.memberRole = .target := hrole
    simp [targetNotReady, Member.record, MemberOutcome.admissionOverride, hshown, htarget,
      Rollout.target, Rollout.targetGeneration]
  · intro m' hm'
    obtain ⟨hm', hid, hrole⟩ := mem_membersOf.1 hm'
    obtain ⟨m, hm, hmid, rfl⟩ := hrow m' hm' hid
    have hsource : m.memberRole = .source := hrole
    simp [sourceNotStopped, Member.record, hsource]
  · intro row hrow
    rw [hmanagers] at hrow
    rcases hstarted.managers row hrow with hold | ⟨_, hclosed, _⟩
    · simp [not_live hage hold]
    · simp [hclosed]

/-- The targets open when they are to be activated, and then nothing stands against
`COMPLETED`. -/
theorem targets_open (h : Ongoing rollout .activatingTarget db) (hle : early ≤ late)
    (hmanagers : ∀ row ∈ db.managers, row.lastHeartbeat ≤ early ∨
      (row.managerId ∈ rollout.targetIds ∧ row.lastHeartbeat ≤ late))
    (hmatches : rollout.targetMatches contract parties.target = true)
    {threshold : Time} (hage : early + threshold ≤ late) :
    ∃ t, Reach (next contract) (parties.Manages rollout) db t ∧
      Ongoing rollout .activatingTarget t ∧ (∀ row ∈ t.managers, row.lastHeartbeat ≤ late) ∧
      t.remaining late threshold { rollout with phase := .activatingTarget } .completed = 0 := by
  have hopened : Rollout.stateOf .activatingTarget (some .target) true = .opened := rfl
  have hclock : ∀ row ∈ db.managers, row.lastHeartbeat ≤ late := by
    intro row hrow
    rcases hmanagers row hrow with hold | ⟨_, hlate⟩
    · exact Nat.le_trans hold hle
    · exact hlate
  obtain ⟨hreach, hongoing⟩ := targets_observe hmatches h hopened hclock
  refine ⟨_, hreach, hongoing, ?_, ?_⟩
  · apply forall_updateWhere hclock
    exact fun _ _ _ => Nat.le_refl _
  simp only [Store.remaining, Nat.add_eq_zero_iff, countWhere_eq_zero, List.countP_eq_zero]
  constructor
  · intro m hm
    obtain ⟨hm, hid, hrole⟩ := mem_membersOf.1 hm
    have hshown := observations_observedBy hm hid hrole (hongoing.target_mem hm hid hrole)
    simp only [Member.observations, report, Prod.mk.injEq] at hshown
    simp [targetNotOpen, hshown.2.2.2]
  · intro row hrow
    obtain ⟨old, hold, hrow⟩ := mem_updateWhere.1 hrow
    have hmanager : row.managerId = old.managerId := by
      rw [hrow]
      split <;> rfl
    by_cases hid : old.managerId ∈ rollout.targetIds
    · have hkey := (hongoing.staffed.targets _ hongoing.mem row.managerId).2 (hmanager ▸ hid)
      obtain ⟨m, hm, hkey⟩ := List.mem_map.1 hkey
      have hany : (db.observedBy late rollout.rolloutId .target .opened
          (fun _ => parties.target) rollout.targetIds).members.any
          (fun m => decide (m.key = (rollout.rolloutId, .target, row.managerId))) = true :=
        List.any_eq_true.2 ⟨m, hm, decide_eq_true hkey⟩
      simp [hany]
    · rcases hmanagers old hold with hearly | ⟨htarget, _⟩
      · rw [hrow, if_neg (by simpa using hid), not_live hage hearly]
        simp
      · exact absurd htarget hid

end Targets

end Wruntime.Fleet
