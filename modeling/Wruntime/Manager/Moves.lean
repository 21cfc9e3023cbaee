import Wruntime.Manager.System

/-!
What a transaction can do to the database. `OpMove` lists every write on an operation with its
guards, `Move` adds the writes on the other tables, and each call is a chain of moves. Invariants
are proved against these relations and never unfold a call.
-/

namespace Wruntime.Manager

open Fallible Table Runs

variable {op op' : Operation} {f : EngineTarget → EngineTarget} {db : Db} {now : Time}
  {slot : EngineTarget} {effect : Effect}

/-- A forward operation is only worked on before its deadline. -/
def Operation.BeforeDeadline (op : Operation) (now : Time) : Prop :=
  op.phase = .forward → now < op.forwardDeadline

/-- Every caller of `reconcile` hands it a leased operation within its deadline. -/
structure Operation.Workable (op : Operation) (now : Time) : Prop where
  running : op.state = .running
  beforeDeadline : op.BeforeDeadline now

structure Reconciles (now : Time) (op : Operation) (slot : EngineTarget) : Prop where
  state : op.state = .running
  beforeDeadline : op.BeforeDeadline now
  proxy : op.proxy.complete = true ∨ op.restoreEngineSlotsBeforeProxy = true
  target : op.reconcileTarget = some slot

theorem Reconciles.pause_eq (h : Reconciles now op slot) (key code detail : String) :
    op.pauseWithCondition key code detail =
      { op.setSlotCondition key code detail with
        state := .paused
        failureCode := code
        failureDetail := detail
        lease := none } :=
  if_pos (.inr h.state)

/-- The forward advances that evidence allows on a slot, without the authority switch: it writes
another table too. -/
inductive Advance (db : Db) (now : Time) (op : Operation) (slot : EngineTarget) :
    (EngineTarget → EngineTarget) → Prop
  | releaseVerified
      (hstep : slot.progress.nextStep = .verifyReleaseMetadata ∨
        slot.progress.nextStep = .verifyProxy)
      (hreported : slot.progress.effectReported = true) :
      Advance db now op slot (·.advance
        (nextForwardStep slot.transition slot.progress.nextStep)
        slot.progress.sourceRevision)
  | stopped (hstep : slot.progress.nextStep = .stopBackend) :
      Advance db now op slot fun t => (t.onProgress TargetProgress.markChanged).advance
        (nextForwardStep slot.transition .stopBackend) slot.progress.sourceRevision
  | selected (hstep : slot.progress.nextStep = .selectRelease) :
      Advance db now op slot fun t =>
        (if slot.progress.targetRevision ≠ slot.progress.sourceRevision
         then t.onProgress TargetProgress.markChanged else t).advance
          (nextForwardStep slot.transition .selectRelease) slot.progress.sourceRevision
  | started (hstep : slot.progress.nextStep = .startBackend) :
      Advance db now op slot (·.advance (nextForwardStep slot.transition .startBackend)
        slot.progress.sourceRevision)
  | sourceProven (backend process : String)
      (hstep : slot.progress.nextStep = .verifyTarget)
      (hproving : slot.provingSource = true) (hprocess : process ≠ "")
      (havailable :
        stopPreservesAvailability db now op slot.engineSlot op.policy = .ok true) :
      Advance db now op slot fun t => (t.onProgress (·.pin backend process)).advance
        (some .stopBackend) slot.progress.sourceRevision
  | targetProven (backend process : String)
      (hstep : slot.progress.nextStep = .verifyTarget)
      (hproving : slot.provingSource = false) (hprocess : process ≠ "") :
      Advance db now op slot fun t => (t.onProgress (·.pin backend process)).advance
        (if slot.progress.sourceRevision = slot.progress.targetRevision
         then some .verifyServing else some .switchAuthority)
        slot.progress.sourceRevision
  | serving (hstep : slot.progress.nextStep = .verifyServing) :
      Advance db now op slot fun t => t.markConverged.advance none
        slot.progress.targetRevision

/-- What a write does to the other tables. One that takes in an agent's result is marked with it. -/
inductive Effect where
  | plain
  | report (target : TargetKey) (request : ReportStepResultRequest)
  | authority (slot : String) (revision : Revision)
  | commit

def Effect.isReport : Effect → Bool
  | .report _ _ => true
  | .plain | .authority _ _ | .commit => false

def Db.applyEffect (db : Db) (op : Operation) : Effect → Db
  | .plain | .report _ _ => db
  | .authority slot revision => switchAuthority db slot revision
  | .commit => db.commit op.targetRevision

/-- Every write on an operation, with its guards. -/
inductive OpMove (db : Db) (now : Time) : Operation → Effect → Operation → Prop
  | expireLease {op : Operation} (hstate : op.state = .running)
      (hexpired : op.leaseExpired now = true) :
      OpMove db now op .plain op.expireLease
  | fencePolicy {op : Operation} (hstate : op.state = .running) :
      OpMove db now op .plain op.fencePolicy
  | resume {op : Operation} (hstate : op.state = .paused) :
      OpMove db now op .plain op.resume
  | takeLease {op : Operation} (agentInstanceId agent : String)
      (hstate : op.state = .queued) (hdeadline : op.BeforeDeadline now) :
      OpMove db now op .plain (op.takeLease now agentInstanceId agent)
  | extendLease {op : Operation} (hstate : op.state = .running)
      (hdeadline : op.BeforeDeadline now) :
      OpMove db now op .plain (op.extendLease now)
  | enterRestoration {op : Operation} (terminal : NodeOperationState) (code detail : String)
      (hactive : op.isActive = true) (hcommitted : op.committed = false)
      (hterminal : terminal = .failed ∨ terminal = .cancelled) :
      OpMove db now op .plain (op.enterRestoration terminal code detail)
  | setCondition {op : Operation} {slot : EngineTarget} (code detail : String)
      (hreconciles : Reconciles now op slot) :
      OpMove db now op .plain (op.setSlotCondition slot.engineSlot code detail)
  | pause {op : Operation} {slot : EngineTarget} (code detail : String)
      (hreconciles : Reconciles now op slot) :
      OpMove db now op .plain (op.pauseWithCondition slot.engineSlot code detail)
  | clearDelivery {op : Operation} {slot : EngineTarget} {observation : SlotObservation}
      {delivered : Time} (hreconciles : Reconciles now op slot)
      (hphase : op.phase ≠ .restoringSource)
      (hdelivered : slot.progress.effectDeliveredAt = some delivered)
      (hobservation :
        matchingObservation db now op slot.engineSlot = some observation)
      (hafter : delivered < observation.observedAt)
      (hshows : slot.showsNoEffect observation) :
      OpMove db now op .plain
        (op.modifyProgress slot.engineSlot TargetProgress.clearDelivery)
  | advance {op : Operation} {slot : EngineTarget} {f : EngineTarget → EngineTarget}
      (hreconciles : Reconciles now op slot) (hphase : op.phase ≠ .restoringSource)
      (hcondition : slot.progress.effectConditionCode = "")
      (hadvance : Advance db now op slot f) :
      OpMove db now op .plain (op.modifySlot slot.engineSlot f)
  | switchAuthority {op : Operation} {slot : EngineTarget}
      (hreconciles : Reconciles now op slot) (hphase : op.phase ≠ .restoringSource)
      (hstep : slot.progress.nextStep = .switchAuthority) :
      OpMove db now op (.authority slot.engineSlot slot.progress.targetRevision)
        (op.modifySlot slot.engineSlot fun t => t.markSwitched.advance
          (nextForwardStep slot.transition .switchAuthority) slot.progress.targetRevision)
  | resolveAmbiguity {op : Operation} {slot : EngineTarget} {observation : SlotObservation}
      (hreconciles : Reconciles now op slot) (hphase : op.phase = .restoringSource)
      (hstep : slot.progress.nextStep = .restoreSource)
      (hambiguous : slot.progress.effectAmbiguous = true)
      (hobservation :
        matchingObservation db now op slot.engineSlot = some observation)
      (hconclusive : observation.conclusive = true) :
      OpMove db now op .plain
        (op.modifyProgress slot.engineSlot TargetProgress.resolveAmbiguity)
  | restorePending {op : Operation} {slot : EngineTarget} (code detail : String)
      (hreconciles : Reconciles now op slot) (hphase : op.phase = .restoringSource)
      (hstep : slot.progress.nextStep = .restoreSource)
      (hproven : sourceHostProven db now slot
        (matchingObservation db now op slot.engineSlot) = true) :
      OpMove db now op (.authority slot.engineSlot slot.progress.sourceRevision)
        (op.setSlotCondition slot.engineSlot code detail)
  | restored {op : Operation} {slot : EngineTarget}
      (hreconciles : Reconciles now op slot) (hphase : op.phase = .restoringSource)
      (hstep : slot.progress.nextStep = .restoreSource)
      (hproven : sourceHostProven db now slot
        (matchingObservation db now op slot.engineSlot) = true) :
      OpMove db now op (.authority slot.engineSlot slot.progress.sourceRevision)
        (op.modifySlot slot.engineSlot (·.advance none slot.progress.sourceRevision))
  | finishRestored {op : Operation} (hstate : op.state = .running)
      (hphase : op.phase = .restoringSource) (hproxy : op.proxy.complete = true)
      (hslots : op.reconcileTarget = none) :
      OpMove db now op .plain (op.finish op.restoredState)
  | finishCommitted {op : Operation} (hstate : op.state = .running)
      (hdeadline : op.BeforeDeadline now) (hphase : op.phase ≠ .restoringSource)
      (hproxy : op.proxy.complete = true) (hslots : op.reconcileTarget = none)
      (hcommits : op.commits = true) :
      OpMove db now op .commit { op.finish .succeeded with committed := true }
  | finishSucceeded {op : Operation} (hstate : op.state = .running)
      (hdeadline : op.BeforeDeadline now) (hphase : op.phase ≠ .restoringSource)
      (hproxy : op.proxy.complete = true) (hslots : op.reconcileTarget = none)
      (hcommits : op.commits = false) :
      OpMove db now op .plain (op.finish .succeeded)
  | deliver {op : Operation} {selection : Selection} (hstate : op.state = .running)
      (hdeadline : op.BeforeDeadline now) (hselect : op.selectTarget = some selection)
      (hmutating : selection.step.isMutating = true)
      (hinspection : selection.inspection = false) :
      OpMove db now op .plain (op.deliver selection.key now)
  | reportSlot {op : Operation} {slot : EngineTarget} (request : ReportStepResultRequest)
      (code detail : String) (hstate : op.state = .running)
      (hdeadline : op.BeforeDeadline now) (hmem : slot ∈ op.engines)
      (hincomplete : slot.complete = false) (hstep : slot.progress.nextStep = request.step) :
      OpMove db now op (.report (.engineSlot slot.engineSlot) request)
        (op.modifyProgress slot.engineSlot (·.recordEffect request code detail))
  | failProxy {op : Operation} {request : ReportStepResultRequest} (code detail : String)
      (hstate : op.state = .running) (hdeadline : op.BeforeDeadline now)
      (hincomplete : op.proxy.complete = false) (hstep : op.proxy.nextStep = request.step)
      (hcode : code ≠ "") :
      OpMove db now op (.report .proxy request) (op.failProxy code detail)
  | proxyStep {op : Operation} (request : ReportStepResultRequest)
      (next : NodeOperationStepKind) (hstate : op.state = .running)
      (hdeadline : op.BeforeDeadline now) (hincomplete : op.proxy.complete = false)
      (hstep : op.proxy.nextStep = request.step) (hnext : proxyNextStep request.step = .ok next)
      (hsuccess : (proxyCondition request op.proxy).1 = "") :
      OpMove db now op (.report .proxy request)
        { op with proxy := op.proxy.proxyStep request next }

structure EngineSnapshot where
  engineSlot : String
  rolloutOrder : Nat
  transition : DerivedTransition
  source : ReleaseIdentity
  target : ReleaseIdentity

def EngineTarget.snapshot (target : EngineTarget) : EngineSnapshot :=
  ⟨target.engineSlot, target.rolloutOrder, target.transition, target.progress.source,
    target.progress.target⟩

theorem snapshot_fields {t t' : EngineTarget} (h : t.snapshot = t'.snapshot) :
    t.engineSlot = t'.engineSlot ∧ t.transition = t'.transition ∧
      t.progress.sourceRevision = t'.progress.sourceRevision ∧
      t.progress.targetRevision = t'.progress.targetRevision :=
  ⟨congrArg (·.engineSlot) h, congrArg (·.transition) h, congrArg (·.source.revision) h,
    congrArg (·.target.revision) h⟩

namespace Operation

structure Frame (op op' : Operation) : Prop where
  operationId : op'.operationId = op.operationId
  action : op'.action = op.action
  policy : op'.policy = op.policy
  sourceRevision : op'.sourceRevision = op.sourceRevision
  targetRevision : op'.targetRevision = op.targetRevision
  forwardDeadline : op'.forwardDeadline = op.forwardDeadline
  proxySource : op'.proxy.source = op.proxy.source
  proxyTarget : op'.proxy.target = op.proxy.target
  engines : op'.engines.map (·.snapshot) = op.engines.map (·.snapshot)

theorem Frame.refl (op : Operation) : Frame op op :=
  ⟨rfl, rfl, rfl, rfl, rfl, rfl, rfl, rfl, rfl⟩

theorem Frame.trans {a b c : Operation} (hab : Frame a b)
    (hbc : Frame b c) : Frame a c :=
  ⟨hbc.operationId.trans hab.operationId, hbc.action.trans hab.action,
    hbc.policy.trans hab.policy, hbc.sourceRevision.trans hab.sourceRevision,
    hbc.targetRevision.trans hab.targetRevision,
    hbc.forwardDeadline.trans hab.forwardDeadline, hbc.proxySource.trans hab.proxySource,
    hbc.proxyTarget.trans hab.proxyTarget, hbc.engines.trans hab.engines⟩

theorem Frame.snapshot_mem (h : Frame op op') {t' : EngineTarget}
    (ht' : t' ∈ op'.engines) : ∃ t ∈ op.engines, t.snapshot = t'.snapshot :=
  exists_of_column h.engines ht'

theorem Frame.of_modifySlot (op : Operation) (slot : String)
    (hf : ∀ t, (f t).snapshot = t.snapshot) : Frame op (op.modifySlot slot f) :=
  ⟨rfl, rfl, rfl, rfl, rfl, rfl, rfl, rfl, map_updateWhere hf op.engines⟩

theorem Frame.of_modifyProgress (op : Operation) (slot : String)
    {f : TargetProgress → TargetProgress}
    (hf : ∀ p, (f p).source = p.source ∧ (f p).target = p.target) :
    Frame op (op.modifyProgress slot f) := by
  refine .of_modifySlot op slot fun t => ?_
  simp only [EngineTarget.snapshot, (hf t.progress).1, (hf t.progress).2]

end Operation

theorem Advance.snapshot_eq (h : Advance db now op slot f) (t : EngineTarget) :
    (f t).snapshot = t.snapshot := by
  cases h with
  | selected hstep => split <;> rfl
  | _ => rfl

theorem Advance.authoritySwitched_eq (h : Advance db now op slot f) (t : EngineTarget) :
    (f t).authoritySwitched = t.authoritySwitched := by
  cases h with
  | selected hstep => split <;> rfl
  | _ => rfl

section

variable (h : OpMove db now op effect op')
include h

theorem OpMove.frame : Operation.Frame op op' := by
  cases h with
  | enterRestoration terminal code detail =>
    refine ⟨rfl, rfl, rfl, rfl, rfl, rfl, rfl, rfl, ?_⟩
    simp only [Operation.enterRestoration, List.map_map]
    exact List.map_congr_left fun t _ => rfl
  | setCondition code detail | clearDelivery | resolveAmbiguity | restorePending code detail
  | reportSlot request code detail => exact .of_modifyProgress op _ fun p => ⟨rfl, rfl⟩
  | @pause slot code detail hrec =>
    have hcondition : Operation.Frame op (op.setSlotCondition slot.engineSlot code detail) :=
      .of_modifyProgress op _ fun p => ⟨rfl, rfl⟩
    rw [hrec.pause_eq]
    exact hcondition.trans ⟨rfl, rfl, rfl, rfl, rfl, rfl, rfl, rfl, rfl⟩
  | advance hrec hphase hcondition hadvance =>
    exact .of_modifySlot op _ hadvance.snapshot_eq
  | switchAuthority | restored => exact .of_modifySlot op _ fun t => rfl
  | @deliver selection =>
    cases hkey : selection.key with
    | proxy => exact ⟨rfl, rfl, rfl, rfl, rfl, rfl, rfl, rfl, rfl⟩
    | engineSlot slot =>
      exact .of_modifyProgress op slot (f := (·.deliver now)) fun p => ⟨rfl, rfl⟩
  | _ => exact ⟨rfl, rfl, rfl, rfl, rfl, rfl, rfl, rfl, rfl⟩

theorem OpMove.phase_forward (hphase : op'.phase = .forward) : op.phase = .forward := by
  cases h with
  | enterRestoration | finishRestored | finishCommitted | finishSucceeded => cases hphase
  | pause code detail hrec =>
    rw [hrec.pause_eq] at hphase
    exact hphase
  | @deliver selection =>
    cases hkey : selection.key <;> rw [hkey] at hphase <;> exact hphase
  | _ => exact hphase

theorem OpMove.beforeDeadline (hop : op.BeforeDeadline now) : op'.BeforeDeadline now := by
  intro hphase
  rw [h.frame.forwardDeadline]
  exact hop (h.phase_forward hphase)

end

def Db.write (db : Db) (op : Operation) (effect : Effect) (f : Operation → Operation) : Db :=
  (db.applyEffect op effect).modifyOperation op.operationId f

theorem clearSlotCondition_modifySlot (hkey : ∀ t, (f t).engineSlot = t.engineSlot)
    (hclear : ∀ t, (f t).progress.setCondition "" "" = (f t).progress) (op : Operation)
    (slot : String) : (op.modifySlot slot f).clearSlotCondition slot = op.modifySlot slot f := by
  have hrow : ∀ t : EngineTarget,
      (let t' := if t.engineSlot = slot then f t else t
       if t'.engineSlot = slot then { t' with progress := t'.progress.setCondition "" "" }
       else t') = if t.engineSlot = slot then f t else t := by
    intro t
    by_cases ht : t.engineSlot = slot
    · simp only [if_pos ht]
      rw [if_pos ((hkey t).trans ht), hclear]
    · simp only [if_neg ht]
  simp only [Operation.clearSlotCondition, Operation.setSlotCondition,
    Operation.modifyProgress, Operation.modifySlot, updateWhere, List.map_map]
  congr 1
  refine List.map_congr_left fun t _ => ?_
  simpa using hrow t

theorem Advance.keeps (h : Advance db now op slot f) (t : EngineTarget) :
    (f t).engineSlot = t.engineSlot ∧ (f t).progress.setCondition "" "" = (f t).progress := by
  cases h with
  | selected hstep => split <;> exact ⟨rfl, rfl⟩
  | _ => exact ⟨rfl, rfl⟩

theorem advanceSlot_eq_write (hkeeps : ∀ t, (f t).engineSlot = t.engineSlot ∧
      (f t).progress.setCondition "" "" = (f t).progress)
    (db : Db) (op : Operation) (slot : EngineTarget) :
    advanceSlot db op slot f = db.write op .plain (·.modifySlot slot.engineSlot f) := by
  unfold advanceSlot Db.write Db.applyEffect
  congr 1
  funext o
  exact clearSlotCondition_modifySlot (fun t => (hkeeps t).1) (fun t => (hkeeps t).2) o _

def ReconcileOutcome (db : Db) (now : Time) (op : Operation) (db' : Db) : Prop :=
  db' = db ∨ ∃ effect f, effect.isReport = false ∧ OpMove db now op effect (f op) ∧
    db' = db.write op effect f

section ReconcileSlot

variable {db' : Db}

private theorem outcome_of_pause (code detail : String) (hrec : Reconciles now op slot) :
    ReconcileOutcome db now op (db.modifyOperation op.operationId
      (·.pauseWithCondition slot.engineSlot code detail)) :=
  .inr ⟨.plain, _, rfl, .pause code detail hrec, rfl⟩

private theorem outcome_of_condition (code detail : String) (hrec : Reconciles now op slot) :
    ReconcileOutcome db now op (db.modifyOperation op.operationId
      (·.setSlotCondition slot.engineSlot code detail)) :=
  .inr ⟨.plain, _, rfl, .setCondition code detail hrec, rfl⟩

theorem reconcileRestoring_outcome (hrec : Reconciles now op slot)
    (hphase : op.phase = .restoringSource) (h : reconcileRestoring db now op slot = .ok db') :
    ReconcileOutcome db now op db' := by
  unfold reconcileRestoring at h
  simp only at h
  split at h
  · exact .inl (Except.ok.inj h).symm
  next hstep =>
  replace hstep : slot.progress.nextStep = .restoreSource := not_not.1 hstep
  split at h
  · cases h
    exact outcome_of_pause _ _ hrec
  split at h
  · cases h
    exact outcome_of_pause _ _ hrec
  split at h
  next hproven =>
    -- The host is proven back at the source: authority is restored in any case.
    simp only [bind_eq_ok] at h
    obtain ⟨healthy, _, h⟩ := h
    split at h
    · rw [← pure_eq_ok.1 h]
      exact .inr ⟨.authority slot.engineSlot slot.progress.sourceRevision, _, rfl,
        .restorePending _ _ hrec hphase hstep hproven, rfl⟩
    · rw [← pure_eq_ok.1 h]
      exact .inr ⟨.authority slot.engineSlot slot.progress.sourceRevision, _, rfl,
        .restored hrec hphase hstep hproven, rfl⟩
  split at h
  next hambiguous =>
    cases h
    rw [Bool.and_eq_true] at hambiguous
    obtain ⟨observation, hobservation, hconclusive⟩ :=
      Option.any_eq_true _ _ |>.1 hambiguous.2
    exact .inr ⟨.plain, _, rfl, .resolveAmbiguity hrec hphase hstep hambiguous.1 hobservation
      hconclusive, rfl⟩
  · cases h
    exact outcome_of_condition _ _ hrec

theorem delivered_of_observationAfterDelivery {observation : SlotObservation}
    {deliveredAt : Option Time} (h : observationAfterDelivery observation deliveredAt = true) :
    ∃ delivered, deliveredAt = some delivered ∧ delivered < observation.observedAt := by
  cases deliveredAt with
  | none => simp [observationAfterDelivery] at h
  | some delivered => exact ⟨delivered, rfl, by simpa [observationAfterDelivery] using h⟩

theorem identities_of_observationReady {observation : SlotObservation} {expected : ReadyExpectation}
    (h : observationReady now observation expected = true) : observation.identities.2 ≠ "" := by
  simp only [observationReady, Bool.and_eq_true] at h
  obtain ⟨status, hstatus, hready⟩ := Option.any_eq_true _ _ |>.1 h.2
  simp only [Bool.and_eq_true, decide_eq_true_eq] at hready
  simp only [SlotObservation.identities, hstatus, Option.map_some, Option.getD_some]
  exact hready.1.1.2

theorem enterRestoration_eq_ok {id : String} {terminal : NodeOperationState}
    {code detail : String} (h : enterRestoration db id terminal code detail = .ok db') :
    (∃ o ∈ db.operations, o.operationId = id ∧ o.committed = false ∧ o.isActive = true) ∧
      db' = db.modifyOperation id (·.enterRestoration terminal code detail) := by
  simp only [enterRestoration, bind_eq_ok, required_eq_ok, pure_eq_ok] at h
  obtain ⟨found, hfind, rfl⟩ := h
  obtain ⟨hmem, hid, hopen, hactive⟩ := Table.found hfind
  exact ⟨⟨found, hmem, hid, by simpa using hopen, hactive⟩, rfl⟩

section Forward

variable (hrec : Reconciles now op slot) (hphase : op.phase ≠ .restoringSource)
include hrec hphase

theorem reconcileSwitchAuthority_outcome (hstep : slot.progress.nextStep = .switchAuthority)
    (h : reconcileSwitchAuthority db op slot = .ok db') : ReconcileOutcome db now op db' := by
  rw [← Except.ok.inj h, advanceSlot_eq_write (f := fun t => t.markSwitched.advance
    (nextForwardStep slot.transition .switchAuthority) slot.progress.targetRevision)
    (fun t => ⟨rfl, rfl⟩)]
  exact .inr ⟨.authority slot.engineSlot slot.progress.targetRevision, _, rfl,
    .switchAuthority hrec hphase hstep, rfl⟩

variable (hcondition : slot.progress.effectConditionCode = "")
include hcondition

private theorem outcome_of_advance (hadvance : Advance db now op slot f) :
    ReconcileOutcome db now op (advanceSlot db op slot f) := by
  rw [advanceSlot_eq_write hadvance.keeps]
  exact .inr ⟨.plain, _, rfl, .advance hrec hphase hcondition hadvance, rfl⟩

theorem reconcileStopBackend_outcome (hstep : slot.progress.nextStep = .stopBackend)
    (h : reconcileStopBackend db now op slot = .ok db') : ReconcileOutcome db now op db' := by
  unfold reconcileStopBackend at h
  split at h
  · exact .inl (Except.ok.inj h).symm
  · exact .inl (Except.ok.inj h).symm
  next delivered observation hdelivered hobservation =>
  split at h
  · exact .inl (Except.ok.inj h).symm
  next hafter =>
  replace hafter : delivered < observation.observedAt := by
    simpa [observationAfterDelivery] using hafter
  split at h
  next hrunning =>
    cases h
    have hshows : slot.showsNoEffect observation := by
      simp only [EngineTarget.showsNoEffect, hstep]
      exact ⟨hrunning.2.2, hrunning.1, hrunning.2.1⟩
    exact .inr ⟨.plain, _, rfl, .clearDelivery hrec hphase hdelivered hobservation hafter hshows,
      rfl⟩
  split at h
  · cases h
    exact outcome_of_pause _ _ hrec
  · cases h
    exact outcome_of_advance hrec hphase hcondition (.stopped hstep)

theorem reconcileSelectRelease_outcome (hstep : slot.progress.nextStep = .selectRelease)
    (h : reconcileSelectRelease db now op slot = .ok db') : ReconcileOutcome db now op db' := by
  unfold reconcileSelectRelease at h
  simp only at h
  split at h
  next hsource =>
    cases h
    obtain ⟨observation, hobservation, hvalue⟩ := Option.any_eq_true _ _ |>.1 hsource
    simp only [Bool.and_eq_true, decide_eq_true_eq] at hvalue
    obtain ⟨delivered, hdelivered, hafter⟩ :=
      delivered_of_observationAfterDelivery hvalue.1.1.1
    have hshows : slot.showsNoEffect observation := by
      simp only [EngineTarget.showsNoEffect, hstep]
      exact ⟨hvalue.2, hvalue.1.1.2, hvalue.1.2⟩
    exact .inr ⟨.plain, _, rfl, .clearDelivery hrec hphase hdelivered hobservation hafter hshows,
      rfl⟩
  split at h
  · exact .inl (Except.ok.inj h).symm
  · cases h
    exact outcome_of_advance hrec hphase hcondition (.selected hstep)

theorem reconcileStartBackend_outcome (hstep : slot.progress.nextStep = .startBackend)
    (h : reconcileStartBackend db now op slot = .ok db') : ReconcileOutcome db now op db' := by
  unfold reconcileStartBackend at h
  simp only at h
  split at h
  · split at h
    next hexited =>
      cases h
      obtain ⟨observation, hobservation, hvalue⟩ := Option.any_eq_true _ _ |>.1 hexited
      simp only [Bool.and_eq_true, decide_eq_true_eq] at hvalue
      obtain ⟨delivered, hdelivered, hafter⟩ :=
        delivered_of_observationAfterDelivery hvalue.1.1.1.1
      have hshows : slot.showsNoEffect observation := by
        simp only [EngineTarget.showsNoEffect, hstep]
        exact ⟨hvalue.2, hvalue.1.1.1.2, hvalue.1.1.2, hvalue.1.2⟩
      exact .inr ⟨.plain, _, rfl,
        .clearDelivery hrec hphase hdelivered hobservation hafter hshows, rfl⟩
    · exact .inl (Except.ok.inj h).symm
  · cases h
    exact outcome_of_advance hrec hphase hcondition (.started hstep)

theorem reconcileVerifyTarget_outcome (hstep : slot.progress.nextStep = .verifyTarget)
    (h : reconcileVerifyTarget db now op slot = .ok db') : ReconcileOutcome db now op db' := by
  unfold reconcileVerifyTarget at h
  simp only at h
  split at h
  · split at h
    · exact .inl (Except.ok.inj h).symm
    split at h
    · cases h
      exact outcome_of_pause _ _ hrec
    · exact .inl (Except.ok.inj h).symm
  next observed hobserved =>
  have hready := Option.mem_filter_iff.1 (Option.mem_def.2 hobserved)
  rw [Bool.and_eq_true] at hready
  have hprocess := identities_of_observationReady hready.2.1
  split at h
  next hproving =>
    simp only [bind_eq_ok] at h
    obtain ⟨available, havailable, h⟩ := h
    split at h
    · rw [← pure_eq_ok.1 h]
      exact outcome_of_pause _ _ hrec
    next hyes =>
      rw [← pure_eq_ok.1 h]
      replace havailable :
          stopPreservesAvailability db now op slot.engineSlot op.policy = .ok true := by
        rw [havailable]
        simpa using hyes
      exact .inr ⟨.plain, _, rfl, .advance hrec hphase hcondition
        (.sourceProven _ _ hstep hproving hprocess havailable), rfl⟩
  next hproving =>
  split at h
  · cases h
    exact outcome_of_pause _ _ hrec
  · cases h
    exact outcome_of_advance hrec hphase hcondition
      (.targetProven _ _ hstep (Bool.not_eq_true _ ▸ hproving) hprocess)

theorem reconcileVerifyReleaseMetadata_outcome
    (hstep : slot.progress.nextStep = .verifyReleaseMetadata ∨
      slot.progress.nextStep = .verifyProxy)
    (h : reconcileVerifyReleaseMetadata db op slot = .ok db') : ReconcileOutcome db now op db' := by
  unfold reconcileVerifyReleaseMetadata at h
  split at h
  · exact .inl (Except.ok.inj h).symm
  next hreported =>
    cases h
    exact outcome_of_advance hrec hphase hcondition
      (.releaseVerified hstep (by simpa using hreported))

theorem reconcileVerifyServing_outcome (hstep : slot.progress.nextStep = .verifyServing)
    (h : reconcileVerifyServing db now op slot = .ok db') : ReconcileOutcome db now op db' := by
  simp only [reconcileVerifyServing, bind_eq_ok] at h
  obtain ⟨healthy, _, h⟩ := h
  split at h
  · rw [← pure_eq_ok.1 h]
    exact outcome_of_condition _ _ hrec
  · rw [← pure_eq_ok.1 h]
    exact outcome_of_advance hrec hphase hcondition (.serving hstep)

end Forward

theorem reconcileForward_outcome (hnodup : (db.operations.map (·.operationId)).Nodup)
    (hmem : op ∈ db.operations) (hrec : Reconciles now op slot)
    (hphase : op.phase ≠ .restoringSource) (h : reconcileForward db now op slot = .ok db') :
    ReconcileOutcome db now op db' := by
  unfold reconcileForward at h
  split at h
  · obtain ⟨⟨found, hfound, hid, hcommitted, hactive⟩, rfl⟩ := enterRestoration_eq_ok h
    obtain rfl := eq_of_nodup_key hnodup hfound hmem hid
    exact .inr ⟨.plain, _, rfl, .enterRestoration .failed _ _ hactive hcommitted (.inl rfl), rfl⟩
  next hcondition =>
  replace hcondition : slot.progress.effectConditionCode = "" := not_not.1 hcondition
  split at h
  next hstep =>
    exact reconcileVerifyReleaseMetadata_outcome hrec hphase hcondition (.inl hstep) h
  next hstep =>
    exact reconcileVerifyReleaseMetadata_outcome hrec hphase hcondition (.inr hstep) h
  next hstep => exact reconcileStopBackend_outcome hrec hphase hcondition hstep h
  next hstep => exact reconcileSelectRelease_outcome hrec hphase hcondition hstep h
  next hstep => exact reconcileStartBackend_outcome hrec hphase hcondition hstep h
  next hstep => exact reconcileVerifyTarget_outcome hrec hphase hcondition hstep h
  next hstep => exact reconcileSwitchAuthority_outcome hrec hphase hstep h
  next hstep => exact reconcileVerifyServing_outcome hrec hphase hcondition hstep h
  all_goals exact .inl (Except.ok.inj h).symm

theorem finishOperation_outcome (hstate : op.state = .running) (hdeadline : op.BeforeDeadline now)
    (hproxy : op.proxy.complete = true) (hslots : op.reconcileTarget = none) :
    ReconcileOutcome db now op (finishOperation db op) := by
  unfold finishOperation
  split
  next hphase =>
    exact .inr ⟨.plain, _, rfl, .finishRestored hstate hphase hproxy hslots, rfl⟩
  next hphase =>
  split
  next hcommits =>
    exact .inr ⟨.commit, _, rfl,
      .finishCommitted hstate hdeadline hphase hproxy hslots hcommits, rfl⟩
  next hcommits =>
    exact .inr ⟨.plain, _, rfl, .finishSucceeded hstate hdeadline hphase hproxy hslots
      (Bool.not_eq_true _ ▸ hcommits), rfl⟩

theorem reconcile_outcome {id : String} (hnodup : (db.operations.map (·.operationId)).Nodup)
    (hworkable : ∀ o ∈ db.operations, o.operationId = id → o.Workable now)
    (h : reconcile db now id = .ok db') :
    ∃ o ∈ db.operations, o.operationId = id ∧ o.isActive = true ∧
      ReconcileOutcome db now o db' := by
  simp only [reconcile, bind_eq_ok] at h
  obtain ⟨o, hload, h⟩ := h
  obtain ⟨hmem, hid, hactive⟩ := loadActiveOperation_eq_ok hload
  refine ⟨o, hmem, hid, hactive, ?_⟩
  obtain ⟨hstate, hdeadline⟩ := hworkable o hmem hid
  split at h
  · exact .inl (pure_eq_ok.1 h).symm
  next hpaused =>
  split at h
  · exact .inl (pure_eq_ok.1 h).symm
  next hgate =>
  have hproxy : o.proxy.complete = true ∨ o.restoreEngineSlotsBeforeProxy = true := by
    cases hp : o.proxy.complete <;> simp_all
  split at h
  next slot hslot =>
    have hrec : Reconciles now o slot := ⟨hstate, hdeadline, hproxy, hslot⟩
    unfold reconcileSlot at h
    split at h
    next hphase => exact reconcileRestoring_outcome hrec hphase h
    next hphase => exact reconcileForward_outcome hnodup hmem hrec hphase h
  next hslots =>
  split at h
  · exact .inl (pure_eq_ok.1 h).symm
  next hcomplete =>
    rw [← pure_eq_ok.1 h]
    exact finishOperation_outcome hstate hdeadline (by simpa using hcomplete) hslots

end ReconcileSlot

end Wruntime.Manager
