import Mathlib.Data.List.Induction
import Wruntime.Fleet.Members

/-!
The barriers of a manager rollout. `TARGET_READY_CLOSED` and `COMPLETED` are entered when no row
stands against it. Columns of target rows are `NULL` until the target reports, and comparing them
then selects no row: the barriers say what they should exactly when every target has reported.
-/

namespace Wruntime.Fleet

open Fallible Table Runs Sql
open Manager (Time Status)

def Member.observations (m : Member) :
    Option Int64 × Option String × Option ProcessState × Option AdmissionState :=
  (m.observedPolicyGeneration, m.observedPolicyDigest, m.processState, m.admissionState)

def report (policy : AcceptedPolicy) (process : ProcessState) (state : AdmissionState) :
    Option Int64 × Option String × Option ProcessState × Option AdmissionState :=
  (some policy.generation, some policy.digest, some process, some state)

/-- The manager observes under the policy, and this report of it as a target of the active rollout
is stored. -/
def Reports (contract : Contract) (rolloutId : Uuid) (managerId : String)
    (policy : AcceptedPolicy) (process : ProcessState) (state : AdmissionState) (db : Store)
    (input : Input) : Prop :=
  db.guard.activeRolloutId = some rolloutId ∧
    (∃ loaded : Policy, input.call = .observe managerId loaded ∧ loaded.stored = policy) ∧
    ∃ m ∈ (next contract db input).members, m.key = (rolloutId, .target, managerId) ∧
      m.observations = report policy process state

section Provenance

variable {contract : Contract} {db : Store}

/-- The target row shows nothing, or a report that its manager made. -/
def Member.Authentic (contract : Contract) (inputs : List Input) (m : Member) : Prop :=
  m.observations = (none, none, none, none) ∨
    ∃ policy process state, m.observations = report policy process state ∧
      Happened (next contract)
        (Reports contract m.rolloutId m.managerId policy process state) Store.empty inputs

theorem authentic_step {inputs : List Input} (input : Input)
    (hkeys : ((runAll (next contract) Store.empty inputs).members.map Member.key).Nodup)
    (h : ∀ m ∈ (runAll (next contract) Store.empty inputs).members, m.memberRole = .target →
      m.Authentic contract inputs) :
    ∀ m ∈ (next contract (runAll (next contract) Store.empty inputs) input).members,
      m.memberRole = .target → m.Authentic contract (inputs ++ [input]) := by
  generalize hdb : runAll (next contract) Store.empty inputs = db at *
  -- A row that keeps its columns keeps its history.
  have hkept : ∀ m ∈ db.members, m.memberRole = .target → ∀ m' : Member, m'.key = m.key →
      m'.observations = m.observations → m'.Authentic contract (inputs ++ [input]) := by
    intro m hm hrole m' hkey hcolumns
    simp only [Member.key, Prod.mk.injEq] at hkey
    unfold Member.Authentic
    rw [hcolumns, hkey.1, hkey.2.2]
    rcases h m hm hrole with hnone | ⟨policy, process, state, hreport, hhappened⟩
    · exact .inl hnone
    · exact .inr ⟨policy, process, state, hreport, hhappened.more _⟩
  intro m' hm' hrole'
  rcases @next_members contract db input hkeys with ⟨f, hmembers, hmoves, _⟩ |
    ⟨_, request, rolloutId, _, hbegun, hmembers⟩
  · have hmem := hm'
    rw [hmembers] at hmem
    obtain ⟨m, hm, rfl⟩ := List.mem_map.1 hmem
    have hmove := hmoves m hm
    generalize hf : f m = m' at *
    cases hmove with
    | kept => exact hkept m hm hrole' m rfl rfl
    | @observed policy rollout hcall hactive hrollout hrole process hprocess =>
      refine .inr ⟨policy.stored, process, _, rfl, .last ?_⟩
      rw [hdb]
      obtain ⟨hguard, _⟩ := active?_eq hactive
      refine ⟨?_, ⟨policy, hcall, rfl⟩, _, hm', ?_, rfl⟩
      · exact hguard.trans (congrArg some hrollout.symm)
      · exact Prod.ext rfl (Prod.ext hrole' rfl)
    | @recorded _ _ _ _ _ outcome _ _ hrole _ hfresh =>
      refine hkept m hm hrole' (m.record outcome) rfl ?_
      have htarget : outcome.memberRole = .target := hrole.symm.trans hrole'
      simp [Member.observations, Member.record, MemberOutcome.admissionOverride, htarget]
  · rw [hmembers] at hm'
    rcases List.mem_append.1 hm' with hold | hnew
    · exact hkept m' hold hrole' m' rfl rfl
    · simp only [Store.newMembers, List.mem_append, List.mem_map] at hnew
      rcases hnew with ⟨row, _, rfl⟩ | ⟨target, _, rfl⟩
      · cases hrole'
      · exact .inl rfl

theorem target_authentic (inputs : List Input) :
    ∀ m ∈ (runAll (next contract) Store.empty inputs).members, m.memberRole = .target →
      m.Authentic contract inputs := by
  induction inputs using List.reverseRecOn with
  | nil => simp [runAll, Store.empty]
  | append_singleton inputs input ih =>
    rw [runAll_append]
    exact authentic_step input (reachable_staffed (reach_runAll_any _ _)).keys ih

theorem reported_stays {s t : Store} (hs : Reachable contract s)
    (hst : Reach (next contract) (fun _ _ => True) s t) {m : Member} (hm : m ∈ s.members)
    (hreported : m.processState ≠ none) :
    ∃ m' ∈ t.members, m'.key = m.key ∧ m'.processState ≠ none := by
  induction hst with
  | refl => exact ⟨m, hm, rfl, hreported⟩
  | @step u input hsu _ ih =>
    obtain ⟨m', hm', hkey, hreported'⟩ := ih
    have hkeys := (reachable_staffed (hs.trans hsu)).keys
    rcases @next_members contract u input hkeys with ⟨f, hmembers, hmoves, _⟩ |
      ⟨_, _, _, _, _, hmembers⟩
    · have hmove := hmoves m' hm'
      refine ⟨f m', ?_, hmove.key_eq.trans hkey, hmove.processState_ne_none hreported'⟩
      rw [hmembers]
      exact List.mem_map_of_mem hm'
    · refine ⟨m', ?_, hkey, hreported'⟩
      rw [hmembers]
      exact List.mem_append_left _ hm'

end Provenance

def Store.allReported (db : Store) (rolloutId : Uuid) : Bool :=
  (db.membersOf rolloutId .target).all fun m => m.processState.isSome

/-- `TARGET_READY_CLOSED` is to mean: the expected targets have reported ready and closed under the
target policy, the sources are recorded as stopped, and no live manager is in admission. -/
structure ReadyClosed (contract : Contract) (inputs : List Input) (rollout : Rollout)
    (now threshold : Time) (after : Store) : Prop where
  targets : ∀ target ∈ rollout.request.expectedTargets,
    Happened (next contract) (Reports contract rollout.rolloutId target.managerId
      rollout.target .ready .closedRollout) Store.empty inputs
  sources : ∀ m ∈ after.membersOf rollout.rolloutId .source,
    m.hostActionOutcome = some "STOPPED"
  closed : ∀ row ∈ after.managers, row.live now threshold = true →
    row.admissionState ≠ .opened

/-- `COMPLETED` is to mean: each expected target has reported open, and every live manager is a
target. -/
structure Activated (contract : Contract) (inputs : List Input) (rollout : Rollout)
    (now threshold : Time) (after : Store) : Prop where
  targets : ∀ target ∈ rollout.request.expectedTargets, ∃ policy process,
    Happened (next contract) (Reports contract rollout.rolloutId target.managerId
      policy process .opened) Store.empty inputs
  managers : ∀ row ∈ after.managers, row.live now threshold = true →
    row.managerId ∈ rollout.request.expectedTargets.map (·.managerId)

section Barrier

variable {contract : Contract} {inputs : List Input} {now threshold : Time} {rolloutId : Uuid}
  {principal : String} {expectedPhase nextPhase : Phase} {outcomes : List MemberOutcome}
  {rollout : Rollout} {db db' recorded : Store}

theorem advanced_of_entered (hrollout : db.rollout? rolloutId = some rollout)
    (hphase : rollout.phase ≠ nextPhase)
    (hentered : ((next contract db ⟨now, .advanceRollout rolloutId principal expectedPhase
      nextPhase outcomes threshold⟩).rollout? rolloutId).map (·.phase) = some nextPhase) :
    ∃ recorded, Advanced contract db now rolloutId principal expectedPhase nextPhase outcomes
      threshold (next contract db ⟨now, .advanceRollout rolloutId principal expectedPhase
        nextPhase outcomes threshold⟩) rollout recorded := by
  revert hentered
  refine next_elim (fun hentered => ?_) fun db' hcommits hentered => ?_
  · rw [hrollout] at hentered
    exact absurd (Option.some.inj hentered) hphase
  cases hcommits with
  | managers _ hcall => cases hcall
  | @advanceRollout _ _ _ _ _ _ _ rollout' recorded hadvanced =>
    obtain rfl : rollout' = rollout := Option.mem_unique hadvanced.rollout_eq hrollout
    exact ⟨recorded, hadvanced⟩

theorem observations_recorded {m : Member} (hrole : m.memberRole = .target) :
    (m.recorded rolloutId outcomes).observations = m.observations := by
  unfold Member.recorded
  split
  next outcome hfound =>
    have hkey := List.find?_some hfound
    simp only [decide_eq_true_eq, Member.key, Prod.mk.injEq, hrole] at hkey
    split
    · simp [Member.observations, Member.record, MemberOutcome.admissionOverride, ← hkey.2.1]
    · rfl
  next => rfl

theorem target_row (hstaffed : Staffed db) (hrollout : rollout ∈ db.rollouts)
    (hrecorded : recordOutcomes contract rollout.rolloutId false [] outcomes db = .ok recorded)
    {target : ManagerRolloutTarget} (htarget : target ∈ rollout.request.expectedTargets) :
    ∃ m ∈ db.membersOf rollout.rolloutId .target, m.managerId = target.managerId ∧
      ∃ m' ∈ recorded.membersOf rollout.rolloutId .target, m'.observations = m.observations := by
  have hmem := (hstaffed.targets rollout hrollout target.managerId).2 (List.mem_map_of_mem htarget)
  obtain ⟨m, hm, hkey⟩ := List.mem_map.1 hmem
  obtain ⟨hid, hrole, hmanager⟩ := Member.key_eq_iff.1 hkey
  obtain ⟨_, hmembers⟩ := recordOutcomes_members hstaffed.keys hrecorded
  refine ⟨m, ?_, hmanager, m.recorded rollout.rolloutId outcomes, ?_, observations_recorded hrole⟩
  · simp [Store.membersOf, hm, hid, hrole]
  · have hkey := @Member.key_recorded rollout.rolloutId outcomes m
    simp only [Member.key, Prod.mk.injEq] at hkey
    simp only [Store.membersOf, List.mem_filter, hmembers, hkey.1, hkey.2.1, hid, hrole,
      decide_true, and_self, and_true]
    exact List.mem_map_of_mem hm

section Reported

variable (hrollout : rollout ∈ (runAll (next contract) Store.empty inputs).rollouts)
include hrollout

theorem allReported_of_happened
    (h : ∀ target ∈ rollout.request.expectedTargets, ∃ policy process state,
      Happened (next contract) (Reports contract rollout.rolloutId target.managerId policy
        process state) Store.empty inputs) :
    (runAll (next contract) Store.empty inputs).allReported rollout.rolloutId = true := by
  have hstaffed := @reachable_staffed contract _ (reach_runAll_any Store.empty inputs)
  rw [Store.allReported, List.all_eq_true]
  intro m hm
  simp only [Store.membersOf, List.mem_filter, decide_eq_true_eq] at hm
  obtain ⟨hm, hid, hrole⟩ := hm
  have hkey := Member.key_eq_iff.2 ⟨hid, hrole, rfl⟩
  have hexpected := (hstaffed.targets rollout hrollout m.managerId).1
    (hkey ▸ List.mem_map_of_mem hm)
  obtain ⟨target, htarget, hmanager⟩ := List.mem_map.1 hexpected
  obtain ⟨policy, process, state, before, input, after, rfl, _, _, m', hm', hkey', hreport⟩ :=
    h target htarget
  simp only [Member.observations, report, Prod.mk.injEq] at hreport
  rw [runAll_append] at hm hstaffed
  obtain ⟨last, hlast, hlastKey, hlastReported⟩ := reported_stays
    (.step (reach_runAll_any Store.empty before) trivial) (reach_runAll_any _ after) hm'
    (by simp [hreport.2.2.1])
  have hsame : last = m := by
    apply eq_of_nodup_key hstaffed.keys hlast hm
    rw [hlastKey, hkey', hkey, hmanager]
  subst hsame
  exact Option.isSome_iff_ne_none.2 hlastReported

variable (hrecorded : recordOutcomes contract rollout.rolloutId false [] outcomes
    (runAll (next contract) Store.empty inputs) = .ok recorded)
  (hreported : (runAll (next contract) Store.empty inputs).allReported rollout.rolloutId = true)
include hrecorded hreported

theorem reported_row {target : ManagerRolloutTarget}
    (htarget : target ∈ rollout.request.expectedTargets) :
    ∃ m ∈ recorded.membersOf rollout.rolloutId .target, ∃ policy process state,
      m.observations = report policy process state ∧
      Happened (next contract) (Reports contract rollout.rolloutId target.managerId policy
        process state) Store.empty inputs := by
  have hstaffed := @reachable_staffed contract _ (reach_runAll_any Store.empty inputs)
  obtain ⟨m, hm, hmanager, m', hm', hcolumns⟩ := target_row hstaffed hrollout hrecorded htarget
  have hshown := List.all_eq_true.1 hreported m hm
  simp only [Store.membersOf, List.mem_filter, decide_eq_true_eq] at hm
  obtain ⟨hm, hid, hrole⟩ := hm
  rcases target_authentic inputs m hm hrole with hnone | ⟨policy, process, state, hreport, hhappened⟩
  · simp only [Member.observations, Prod.mk.injEq] at hnone
    exact absurd hnone.2.2.1 (Option.isSome_iff_ne_none.1 hshown)
  · rw [hid, hmanager] at hhappened
    exact ⟨m', hm', policy, process, state, hcolumns.trans hreport, hhappened⟩

theorem readyClosed_of_reported
    (hbarrier : recorded.remaining now threshold rollout .targetReadyClosed = 0) :
    ReadyClosed contract inputs rollout now threshold
      (recorded.enterPhase rollout .targetReadyClosed) := by
  simp only [Store.remaining, Nat.add_eq_zero_iff, countWhere_eq_zero, List.countP_eq_zero]
    at hbarrier
  obtain ⟨⟨htargets, hsources⟩, hclosed⟩ := hbarrier
  constructor
  · intro target htarget
    obtain ⟨m, hm, policy, process, state, hcolumns, hhappened⟩ :=
      reported_row hrollout hrecorded hreported htarget
    -- The columns are filled in, so the comparisons of the barrier are true or false.
    have hready := htargets m hm
    simp only [Member.observations, report, Prod.mk.injEq] at hcolumns
    obtain ⟨hgeneration, hdigest, hprocess, hstate⟩ := hcolumns
    simp only [targetNotReady, hgeneration, hdigest, hprocess, hstate, isTrue_or,
      isTrue_ne_some, Bool.or_eq_false_iff, decide_eq_false_iff_not, not_not] at hready
    obtain ⟨rfl, rfl, hgeneration', hdigest', _⟩ := hready
    have hpolicy : policy = rollout.target := by
      cases policy
      cases hgeneration'
      cases hdigest'
      rfl
    exact hpolicy ▸ hhappened
  · intro m hm
    have hstopped := hsources m hm
    simp only [sourceNotStopped, isTrue_some, decide_eq_false_iff_not, not_not] at hstopped
    cases houtcome : m.hostActionOutcome with
    | none => simp [houtcome] at hstopped
    | some outcome => simpa [houtcome] using hstopped
  · intro row hrow hlive hopened
    apply hclosed row hrow
    simp [hlive, hopened]

theorem activated_of_reported (hbarrier : recorded.remaining now threshold rollout .completed = 0) :
    Activated contract inputs rollout now threshold (recorded.enterPhase rollout .completed) := by
  have hstaffed := @reachable_staffed contract _ (reach_runAll_any Store.empty inputs)
  simp only [Store.remaining, Nat.add_eq_zero_iff, countWhere_eq_zero, List.countP_eq_zero]
    at hbarrier
  obtain ⟨htargets, hmanagers⟩ := hbarrier
  constructor
  · intro target htarget
    obtain ⟨m, hm, policy, process, state, hcolumns, hhappened⟩ :=
      reported_row hrollout hrecorded hreported htarget
    have hopen := htargets m hm
    simp only [Member.observations, report, Prod.mk.injEq] at hcolumns
    simp only [targetNotOpen, hcolumns.2.2.2, isTrue_ne_some, decide_eq_false_iff_not,
      not_not] at hopen
    subst hopen
    exact ⟨policy, process, hhappened⟩
  · intro row hrow hlive
    have hmember := hmanagers row hrow
    simp only [hlive, Bool.true_and, Bool.not_eq_true', Bool.not_eq_false, List.any_eq_true,
      decide_eq_true_eq] at hmember
    obtain ⟨m, hm, hkey⟩ := hmember
    obtain ⟨_, hmembers⟩ := recordOutcomes_members hstaffed.keys hrecorded
    apply (hstaffed.targets rollout hrollout row.managerId).1
    have hmem : m.key ∈ recorded.members.map Member.key := List.mem_map_of_mem hm
    rw [hmembers, List.map_map, hkey] at hmem
    simpa [Function.comp_def] using hmem

end Reported

end Barrier

/-- For every advance of every run that enters one of the two phases: the rollout has what it is to
mean exactly when every target row had been filled in by a report. -/
theorem barrier_complete_iff (contract : Contract) (inputs : List Input) (now : Time)
    (rolloutId : Uuid) (principal : String) (expectedPhase nextPhase : Phase)
    (outcomes : List MemberOutcome) (threshold : Time) (rollout : Rollout)
    (hrollout : (runAll (next contract) Store.empty inputs).rollout? rolloutId = some rollout)
    (hphase : rollout.phase ≠ nextPhase)
    (hentered : ((next contract (runAll (next contract) Store.empty inputs)
      ⟨now, .advanceRollout rolloutId principal expectedPhase nextPhase outcomes
        threshold⟩).rollout? rolloutId).map (·.phase) = some nextPhase) :
    let before := runAll (next contract) Store.empty inputs
    let after := next contract before
      ⟨now, .advanceRollout rolloutId principal expectedPhase nextPhase outcomes threshold⟩
    (nextPhase = .targetReadyClosed →
      (ReadyClosed contract inputs rollout now threshold after ↔
        before.allReported rolloutId = true)) ∧
    (nextPhase = .completed →
      (Activated contract inputs rollout now threshold after ↔
        before.allReported rolloutId = true)) := by
  intro before after
  obtain ⟨hmem, rfl⟩ := mem_of_rollout? hrollout
  obtain ⟨recorded, hadvanced⟩ := advanced_of_entered hrollout hphase hentered
  have hafter : after = recorded.enterPhase rollout nextPhase := hadvanced.result
  rw [hafter]
  constructor
  · rintro rfl
    constructor
    · intro h
      apply allReported_of_happened hmem
      exact fun target htarget => ⟨_, _, _, h.targets target htarget⟩
    · intro hreported
      exact readyClosed_of_reported hmem hadvanced.recorded_eq hreported hadvanced.barrier
  · rintro rfl
    constructor
    · intro h
      apply allReported_of_happened hmem
      intro target htarget
      obtain ⟨policy, process, hhappened⟩ := h.targets target htarget
      exact ⟨policy, process, _, hhappened⟩
    · intro hreported
      exact activated_of_reported hmem hadvanced.recorded_eq hreported hadvanced.barrier

namespace Sample

def replacement : BeginManagerRolloutRequest :=
  request firstOperation newPolicy ["manager-a"] ["manager-b"]

def started : List Input :=
  serving ++
    [begun 2 replacement,
      advanced 3 firstOperation .prepared .staging [],
      advanced 4 firstOperation .staging .closingOld [],
      observed 5 "manager-a" oldPolicy,
      advanced 6 firstOperation .closingOld .oldClosed [],
      advanced 7 firstOperation .oldClosed .startingTarget [outcome .source "manager-a" "STOPPED"]]

def readyClosed : Input :=
  advanced 60 firstOperation .startingTarget .targetReadyClosed
    [outcome .target "manager-b" "READY_CLOSED"]

def activating : Input := advanced 61 firstOperation .targetReadyClosed .activatingTarget []

def completed : Input := advanced 62 firstOperation .activatingTarget .completed []

def targetStarted : List Input :=
  [onTime 50 (.registerManager "manager-b" (endpoint "manager-b")),
    onTime 50 (.initializeState "manager-b" 2 newPolicy.digest),
    observed 51 "manager-b" newPolicy]

def phaseOf (inputs : List Input) : Option Phase :=
  ((run inputs).rollout? (rolloutOf firstOperation)).map (·.phase)

end Sample

open Sample

theorem reported_target_passes_barriers :
    let inputs := started ++ targetStarted
    ∃ rollout, (run inputs).rollout? (rolloutOf firstOperation) = some rollout ∧
      ReadyClosed Sample.contract inputs rollout (Manager.seconds 60) (Manager.seconds 30)
        (next Sample.contract (run inputs) readyClosed) := by
  intro inputs
  obtain ⟨rollout, hrollout, hphase⟩ : ∃ r ∈ (run inputs).rollout? (rolloutOf firstOperation),
      r.phase ≠ .targetReadyClosed := by decide +kernel
  refine ⟨rollout, hrollout, ?_⟩
  obtain ⟨hready, _⟩ := barrier_complete_iff Sample.contract inputs (Manager.seconds 60)
    (rolloutOf firstOperation) deployer .startingTarget .targetReadyClosed
    [outcome .target "manager-b" "READY_CLOSED"] (Manager.seconds 30) rollout
    hrollout hphase (by decide +kernel)
  exact (hready rfl).2 (by decide +kernel)

/-- The sample rollout enters both phases although its target never reports: the controller
only says that the host action was done. -/
theorem silent_target_passes_barriers :
    let ready := started
    let active := started ++ [readyClosed, activating]
    (∀ input ∈ active, ∀ policy, input.call ≠ .observe "manager-b" policy) ∧
      (phaseOf ready = some .startingTarget ∧
        phaseOf (ready ++ [readyClosed]) = some .targetReadyClosed ∧
        ∀ rollout ∈ (run ready).rollouts, rollout.rolloutId = (rolloutOf firstOperation) →
          ¬ReadyClosed Sample.contract ready rollout (Manager.seconds 60) (Manager.seconds 30)
            (run (ready ++ [readyClosed]))) ∧
      phaseOf active = some .activatingTarget ∧
        phaseOf (active ++ [completed]) = some .completed ∧
        ∀ rollout ∈ (run active).rollouts, rollout.rolloutId = (rolloutOf firstOperation) →
          ¬Activated Sample.contract active rollout (Manager.seconds 62) (Manager.seconds 30)
            (run (active ++ [completed])) := by
  intro ready active
  refine ⟨?_, ⟨by decide +kernel, by decide +kernel, ?_⟩, by decide +kernel, by decide +kernel, ?_⟩
  · intro input hinput policy
    simp only [active, started, serving, List.mem_append, List.mem_cons,
      List.not_mem_nil, or_false] at hinput
    rcases hinput with (((rfl | rfl | rfl) | (rfl | rfl | rfl | rfl | rfl | rfl)) | rfl | rfl)
      <;> simp [onTime, begun, advanced, observed, readyClosed, activating]
  · intro rollout hrollout hid h
    have hreported := allReported_of_happened hrollout
      (fun target htarget => ⟨_, _, _, h.targets target htarget⟩)
    rw [hid] at hreported
    exact absurd hreported (by decide +kernel)
  · intro rollout hrollout hid h
    have hreported := allReported_of_happened hrollout fun target htarget => by
      obtain ⟨policy, process, hhappened⟩ := h.targets target htarget
      exact ⟨policy, process, _, hhappened⟩
    rw [hid] at hreported
    exact absurd hreported (by decide +kernel)

end Wruntime.Fleet
