import Wruntime.Lib.WorkList
import Wruntime.Manager.Evidence
import Wruntime.Manager.Transitions

/-!
The reconcile engine: from durable progress and one evidence snapshot, advance at most one slot by
one step, or finish the operation. Every write of the source is a function on the operation row (or
on the database, if it touches another table), and `reconcile` composes them.
-/

namespace Wruntime.Manager

open Fallible Table WorkList

namespace TargetProgress

/-- The target part of `enter_restoration`: what cannot have been changed is complete, the rest must
restore its source. The ambiguity flag survives; the delivery time does not. -/
def enterRestoration (progress : TargetProgress) : TargetProgress :=
  let needed := progress.changed || progress.effectAmbiguous
  { progress with
    nextStep := if needed then .restoreSource else .unspecified
    effectDeliveredAt := none
    effectReported := false
    effectConditionCode := ""
    effectDetail := ""
    effectObservedRevision := 0
    effectObservedDigest := ""
    effectBackendInstanceId := ""
    effectProcessInstanceId := ""
    conditionCode := if needed then "SOURCE_RESTORATION_REQUIRED" else ""
    conditionDetail :=
      if needed then "source restoration is required before terminal completion" else "" }

def setCondition (progress : TargetProgress) (code detail : String) : TargetProgress :=
  { progress with conditionCode := code, conditionDetail := detail }

/-- The target part of `advance_slot`. -/
def advance (progress : TargetProgress) (next : Option NodeOperationStepKind) :
    TargetProgress :=
  { progress with
    completedSteps := progress.completedSteps + 1
    nextStep := storedStep next
    effectAmbiguous := false
    effectDeliveredAt := none
    effectReported := false
    effectObservedRevision := 0
    effectObservedDigest := ""
    effectObservedResolvedDigest := ""
    effectBackendInstanceId := ""
    effectProcessInstanceId := ""
    conditionCode := ""
    conditionDetail := "" }

/-- A delivered effect is proven not to have happened. -/
def clearDelivery (progress : TargetProgress) : TargetProgress :=
  { progress with effectDeliveredAt := none, effectAmbiguous := false }

/-- A conclusive inspection during restoration: the slot counts as changed. -/
def resolveAmbiguity (progress : TargetProgress) : TargetProgress :=
  { progress with
    changed := true
    effectAmbiguous := false
    effectDeliveredAt := none
    conditionCode := ""
    conditionDetail := "" }

def markChanged (progress : TargetProgress) : TargetProgress :=
  { progress with changed := true }

def pin (progress : TargetProgress) (backend process : String) : TargetProgress :=
  { progress with
    pinnedBackendInstanceId := backend
    pinnedProcessInstanceId := process }

end TargetProgress

namespace EngineTarget

def onProgress (target : EngineTarget) (f : TargetProgress → TargetProgress) :
    EngineTarget :=
  { target with progress := f target.progress }

/-- `advance_slot`. -/
def advance (target : EngineTarget) (next : Option NodeOperationStepKind)
    (authoritativeRevision : Revision) : EngineTarget :=
  { target with
    authoritativeRevision := authoritativeRevision
    progress := target.progress.advance next }

def markSwitched (target : EngineTarget) : EngineTarget :=
  { target with authoritySwitched := true, progress := target.progress.markChanged }

/-- The slot's routes have converged under the target's authority. -/
def markConverged (target : EngineTarget) : EngineTarget :=
  { target with servingConverged := true }

end EngineTarget

namespace Operation

/-- `enter_restoration`, once its guard has passed. -/
def enterRestoration (op : Operation) (terminal : NodeOperationState)
    (code detail : String) : Operation :=
  { op with
    state := .queued
    phase := .restoringSource
    forwardFenced := true
    restorationRequested := true
    restorationTerminalState := some terminal
    failureCode := code
    failureDetail := detail
    lease := none
    proxy := op.proxy.enterRestoration
    engines := op.engines.map (·.onProgress TargetProgress.enterRestoration) }

def setSlotCondition (op : Operation) (slot code detail : String) : Operation :=
  op.modifyProgress slot (·.setCondition code detail)

def clearSlotCondition (op : Operation) (slot : String) : Operation :=
  op.setSlotCondition slot "" ""

/-- The operation part of a pause: only a queued or running operation pauses. -/
def pause (op : Operation) (code detail : String) : Operation :=
  if op.state = .queued ∨ op.state = .running then
    { op with
      state := .paused
      failureCode := code
      failureDetail := detail
      lease := none }
  else op

def pauseWithCondition (op : Operation) (slot code detail : String) : Operation :=
  (op.setSlotCondition slot code detail).pause code detail

/-- `deadline_expired`, which also reads the forward fence. -/
def deadlineExpired (op : Operation) (now : Time) : Bool :=
  (op.phase = .forward ∧ op.forwardDeadline ≤ now) ∨ op.forwardFenced = true

/-- A terminal write: the operation completes and drops its lease. -/
def finish (op : Operation) (state : NodeOperationState) : Operation :=
  { op with state := state, phase := .complete, lease := none }

def restoredState (op : Operation) : NodeOperationState :=
  match op.restorationTerminalState with
  | some .cancelled => .cancelled
  | _ => .failed

/-- Whether finishing the forward phase commits a revision. -/
def commits (op : Operation) : Bool :=
  op.action ≠ .restart ∧ op.targetRevision > 0

end Operation

def enterRestoration (db : Db) (id : String) (terminal : NodeOperationState)
    (code detail : String) : Except Status Db := do
  let _ ← required
    (db.operations.find? fun o => o.operationId = id ∧ !o.committed ∧ o.isActive)
    (.failedPrecondition "only an active uncommitted operation can enter restoration")
  return db.modifyOperation id (·.enterRestoration terminal code detail)

/-- `switch_authority`: one transaction that withdraws other revisions of the slot, makes `revision`
authoritative (none for zero) and takes down routes of engines of another revision. -/
def switchAuthority (db : Db) (slot : String) (revision : Revision) : Db :=
  let withdrawn := updateWhere
    (fun a => a.engineSlot = slot ∧ a.authoritative = true)
    (fun a => { a with authoritative := false }) db.authorities
  let authorities := match revision, db.deployment? revision with
    | 0, _ => withdrawn
    | _, none => withdrawn
    | _, some deployment => upsertBy (fun a => (a.engineSlot, a.revision))
        ⟨slot, revision, true, deployment.resolvedReleaseDigest⟩ withdrawn
  let superseded := fun route : RoutingRule =>
    route.healthy && db.engines.any fun engine =>
      engine.engineId = route.engineId ∧
      engine.deployment.any fun metadata =>
        metadata.nodeId = db.nodeId ∧ metadata.engineSlot = slot ∧
        metadata.revision ≠ revision
  { db with
    authorities := authorities
    routes := updateWhere superseded (fun route => { route with healthy := false }) db.routes
    routingVersion :=
      if db.routes.any superseded then db.routingVersion + 1 else db.routingVersion }

/-- The observation settles what a delivered effect did. -/
def SlotObservation.conclusive (observation : SlotObservation) : Bool :=
  observation.backendQueryError = "" ∧ observation.backendInstanceId ≠ "" ∧
    (observation.backendState = .running ∨ observation.backendState = .exited)

/-- Fresh evidence that the host is back at the slot's source: stopped and
cleared for an addition, ready and registered otherwise. -/
def sourceHostProven (db : Db) (now : Time) (slot : EngineTarget)
    (observation : Option SlotObservation) : Bool :=
  if slot.progress.sourceRevision = 0 then
    (observation.any fun value =>
      value.backendState = .exited && value.observedRevision = 0 &&
      value.observedDigest = "" && value.backendQueryError = "" &&
      value.backendInstanceId ≠ "") &&
    exactRegistrationAbsent db slot.engineSlot slot.progress.targetRevision
  else
    (observation.any fun value => observationReady now value
      { serviceKind := .engine
        revision := slot.progress.sourceRevision
        digest := slot.progress.sourceDigest
        previousBackend := ""
        previousProcess := ""
        reportedBackend := slot.progress.effectBackendInstanceId
        reportedProcess := slot.progress.effectProcessInstanceId }) &&
    exactRegistrationCount db now slot.engineSlot slot.progress.sourceRevision
      slot.progress.sourceDigest = 1

/-- A restored source serves once its routes are healthy; a slot without source
has none. -/
def sourceRoutesHealthy (db : Db) (now : Time) (slot : EngineTarget) :
    Except Status Bool :=
  if slot.progress.sourceRevision > 0 then
    slotRoutesHealthy db now slot.engineSlot slot.progress.sourceRevision
      slot.progress.sourceDigest
  else .ok true

def reconcileRestoring (db : Db) (now : Time) (op : Operation) (slot : EngineTarget) :
    Except Status Db :=
  let id := op.operationId
  let key := slot.engineSlot
  let observation := matchingObservation db now op key
  let ambiguous := slot.progress.effectAmbiguous
  if slot.progress.nextStep ≠ .restoreSource then .ok db
  else if slot.progress.effectConditionCode ≠ "" then
    .ok (db.modifyOperation id (·.pauseWithCondition key slot.progress.effectConditionCode
      "restoration effect failed; explicit resume is required"))
  else if ambiguous && observation.any (·.backendQueryError ≠ "") then
    .ok (db.modifyOperation id (·.pauseWithCondition key "RESTORATION_BACKEND_UNKNOWN"
      ((observation.map (·.backendQueryError)).getD
        "restoration backend state is inconclusive")))
  else if sourceHostProven db now slot observation then do
    let restored := switchAuthority db key slot.progress.sourceRevision
    let healthy ← sourceRoutesHealthy db now slot
    if !healthy then
      return restored.modifyOperation id (·.setSlotCondition key "RESTORATION_ROUTE_PENDING"
        "source authority is restored but required module routes have not converged")
    else
      return restored.modifyOperation id
        (·.modifySlot key (·.advance none slot.progress.sourceRevision))
  else if ambiguous && observation.any (·.conclusive) then
    .ok (db.modifyOperation id (·.modifyProgress key TargetProgress.resolveAmbiguity))
  else
    .ok (db.modifyOperation id (·.setSlotCondition key "RESTORATION_EVIDENCE_PENDING"
      (if ambiguous
       then "fresh inspection must prove whether the delivered effect changed the slot"
       else "fresh source backend, lifecycle, digest, registration, and route evidence are required")))

/-- The pending mutation had no effect: the pinned backend still runs, the source is still selected,
or the target has not been started. -/
def EngineTarget.showsNoEffect (slot : EngineTarget) (observation : SlotObservation) :
    Prop :=
  observation.backendQueryError = "" ∧
  match slot.progress.nextStep with
  | .stopBackend =>
    observation.backendState = .running ∧
    observation.backendInstanceId = slot.progress.pinnedBackendInstanceId
  | .selectRelease =>
    observation.observedRevision = slot.progress.sourceRevision ∧
    observation.observedDigest = slot.progress.sourceDigest
  | .startBackend =>
    observation.backendState = .exited ∧
    observation.observedRevision = slot.progress.targetRevision ∧
    observation.observedDigest = slot.progress.targetDigest
  | _ => False

/-- Write the slot and clear its condition, as every forward step that
advances does. -/
def advanceSlot (db : Db) (op : Operation) (slot : EngineTarget)
    (f : EngineTarget → EngineTarget) : Db :=
  db.modifyOperation op.operationId fun o =>
    (o.modifySlot slot.engineSlot f).clearSlotCondition slot.engineSlot

def reconcileVerifyReleaseMetadata (db : Db) (op : Operation) (slot : EngineTarget) :
    Except Status Db :=
  if !slot.progress.effectReported then .ok db
  else .ok (advanceSlot db op slot (·.advance
    (nextForwardStep slot.transition slot.progress.nextStep) slot.progress.sourceRevision))

def reconcileStopBackend (db : Db) (now : Time) (op : Operation) (slot : EngineTarget) :
    Except Status Db :=
  match slot.progress.effectDeliveredAt, matchingObservation db now op slot.engineSlot with
  | none, _ => .ok db
  | some _, none => .ok db
  | some delivered, some observation =>
    if !observationAfterDelivery observation (some delivered) then .ok db
    else if observation.backendState = .running ∧
        observation.backendInstanceId = slot.progress.pinnedBackendInstanceId ∧
        observation.backendQueryError = "" then
      .ok (db.modifyOperation op.operationId
        (·.modifyProgress slot.engineSlot TargetProgress.clearDelivery))
    else if observation.backendState ≠ .exited ∨
        slot.progress.pinnedBackendInstanceId = "" ∨
        observation.backendInstanceId ≠ slot.progress.pinnedBackendInstanceId ∨
        observation.backendQueryError ≠ "" ∨
        exactRegistrationAbsent db slot.engineSlot slot.progress.sourceRevision = false ∨
        oldRoutesNonServing db slot.engineSlot slot.progress.sourceRevision = false then
      .ok (db.modifyOperation op.operationId (·.pauseWithCondition slot.engineSlot
        "STOP_EVIDENCE_PENDING"
        "the fresh pinned backend exit, registration removal, and non-serving routes are not all proven"))
    else
      .ok (advanceSlot db op slot fun t =>
        (t.onProgress TargetProgress.markChanged).advance
          (nextForwardStep slot.transition .stopBackend) slot.progress.sourceRevision)

def reconcileSelectRelease (db : Db) (now : Time) (op : Operation) (slot : EngineTarget) :
    Except Status Db :=
  let observation := matchingObservation db now op slot.engineSlot
  if observation.any fun value =>
      observationAfterDelivery value slot.progress.effectDeliveredAt &&
      value.observedRevision = slot.progress.sourceRevision &&
      value.observedDigest = slot.progress.sourceDigest &&
      value.backendQueryError = "" then
    .ok (db.modifyOperation op.operationId
      (·.modifyProgress slot.engineSlot TargetProgress.clearDelivery))
  else if !observation.any fun value =>
      value.observedRevision = slot.progress.targetRevision &&
      value.observedDigest = slot.progress.targetDigest &&
      value.backendQueryError = "" then .ok db
  else
    .ok (advanceSlot db op slot fun t =>
      (if slot.progress.targetRevision ≠ slot.progress.sourceRevision
       then t.onProgress TargetProgress.markChanged else t).advance
        (nextForwardStep slot.transition .selectRelease) slot.progress.sourceRevision)

def reconcileStartBackend (db : Db) (now : Time) (op : Operation) (slot : EngineTarget) :
    Except Status Db :=
  let observation := matchingObservation db now op slot.engineSlot
  if !observation.any fun value => observationReady now value
      { serviceKind := .engine
        revision := slot.progress.targetRevision
        digest := slot.progress.targetDigest
        previousBackend := slot.progress.pinnedBackendInstanceId
        previousProcess := slot.progress.pinnedProcessInstanceId
        reportedBackend := slot.progress.effectBackendInstanceId
        reportedProcess := slot.progress.effectProcessInstanceId } then
    if observation.any fun value =>
        observationAfterDelivery value slot.progress.effectDeliveredAt &&
        value.backendState = .exited &&
        value.observedRevision = slot.progress.targetRevision &&
        value.observedDigest = slot.progress.targetDigest &&
        value.backendQueryError = "" then
      .ok (db.modifyOperation op.operationId
        (·.modifyProgress slot.engineSlot TargetProgress.clearDelivery))
    else .ok db
  else
    .ok (advanceSlot db op slot (·.advance
      (nextForwardStep slot.transition .startBackend) slot.progress.sourceRevision))

/-- A verify-target step proves the source until the source is pinned. -/
def EngineTarget.provingSource (slot : EngineTarget) : Bool :=
  slot.progress.sourceRevision > 0 ∧ slot.progress.pinnedProcessInstanceId = ""

def EngineTarget.verifyExpectation (slot : EngineTarget) : ReadyExpectation :=
  if slot.provingSource then
    { serviceKind := .engine
      revision := slot.progress.sourceRevision
      digest := slot.progress.sourceDigest
      previousBackend := ""
      previousProcess := ""
      reportedBackend := slot.progress.effectBackendInstanceId
      reportedProcess := slot.progress.effectProcessInstanceId }
  else
    { serviceKind := .engine
      revision := slot.progress.targetRevision
      digest := slot.progress.targetDigest
      previousBackend := slot.progress.pinnedBackendInstanceId
      previousProcess := slot.progress.pinnedProcessInstanceId
      reportedBackend := slot.progress.effectBackendInstanceId
      reportedProcess := slot.progress.effectProcessInstanceId }

def SlotObservation.identities (observation : SlotObservation) : String × String :=
  (observation.backendInstanceId,
    (observation.lifecycle.map (·.processInstanceId)).getD "")

def reconcileVerifyTarget (db : Db) (now : Time) (op : Operation) (slot : EngineTarget) :
    Except Status Db :=
  let key := slot.engineSlot
  let expected := slot.verifyExpectation
  match (matchingObservation db now op key).filter fun value =>
      observationReady now value expected &&
      exactRegistrationCount db now key expected.revision expected.digest = 1 with
  | none =>
    -- The agent reports a verification before it publishes the matching
    -- observation, so missing evidence alone does not pause.
    match matchingObservation db now op key with
    | none => .ok db
    | some value =>
      if value.backendQueryError ≠ "" ∨ slot.progress.effectReported = true then
        .ok (db.modifyOperation op.operationId (·.pauseWithCondition key
          (if slot.provingSource then "SOURCE_EVIDENCE_INVALID"
           else "TARGET_EVIDENCE_INVALID")
          "exact fresh running backend, replacement identities, lifecycle READY, digest, and one registration are required"))
      else .ok db
  | some observed =>
    let (backend, process) := observed.identities
    if slot.provingSource then do
      let available ← stopPreservesAvailability db now op key op.policy
      if !available then
        return db.modifyOperation op.operationId (·.pauseWithCondition key
          "AVAILABILITY_POLICY_BLOCKED"
          "the next withdrawal would exceed max_unavailable or remove the last healthy slot")
      else
        return db.modifyOperation op.operationId (·.modifySlot key fun t =>
          (t.onProgress (·.pin backend process)).advance (some .stopBackend)
            slot.progress.sourceRevision)
    else if (db.authoritative.any fun authority =>
          authority.engineSlot = key ∧
          authority.revision = slot.progress.targetRevision) &&
        slot.progress.sourceRevision ≠ slot.progress.targetRevision then
      .ok (db.modifyOperation op.operationId (·.pauseWithCondition key
        "PREMATURE_TARGET_AUTHORITY"
        "target became authoritative before the manager switch transaction"))
    else
      .ok (advanceSlot db op slot fun t =>
        (t.onProgress (·.pin backend process)).advance
          (if slot.progress.sourceRevision = slot.progress.targetRevision
           then some .verifyServing else some .switchAuthority)
          slot.progress.sourceRevision)

def reconcileSwitchAuthority (db : Db) (op : Operation) (slot : EngineTarget) :
    Except Status Db :=
  let switched := switchAuthority db slot.engineSlot slot.progress.targetRevision
  .ok (advanceSlot switched op slot fun t =>
    t.markSwitched.advance (nextForwardStep slot.transition .switchAuthority)
      slot.progress.targetRevision)

def reconcileVerifyServing (db : Db) (now : Time) (op : Operation) (slot : EngineTarget) :
    Except Status Db := do
  let healthy ← slotRoutesHealthy db now slot.engineSlot slot.progress.targetRevision
    slot.progress.targetDigest
  if !healthy then
    return db.modifyOperation op.operationId (·.setSlotCondition slot.engineSlot
      "SERVING_CONVERGENCE_PENDING"
      "fresh required module heartbeats and exact healthy default routes have not converged under target authority")
  else
    return advanceSlot db op slot fun t =>
      t.markConverged.advance none slot.progress.targetRevision

def reconcileForward (db : Db) (now : Time) (op : Operation) (slot : EngineTarget) :
    Except Status Db :=
  if slot.progress.effectConditionCode ≠ "" then
    enterRestoration db op.operationId .failed slot.progress.effectConditionCode
      (if slot.progress.effectDetail = "" then "typed effect failed"
       else slot.progress.effectDetail)
  else match slot.progress.nextStep with
    | .verifyReleaseMetadata | .verifyProxy => reconcileVerifyReleaseMetadata db op slot
    | .stopBackend => reconcileStopBackend db now op slot
    | .selectRelease => reconcileSelectRelease db now op slot
    | .startBackend => reconcileStartBackend db now op slot
    | .verifyTarget => reconcileVerifyTarget db now op slot
    | .switchAuthority => reconcileSwitchAuthority db op slot
    | .verifyServing => reconcileVerifyServing db now op slot
    | .restoreSource | .inspectBackend | .unspecified => .ok db

def reconcileSlot (db : Db) (now : Time) (op : Operation) (slot : EngineTarget) :
    Except Status Db :=
  if op.phase = .restoringSource then reconcileRestoring db now op slot
  else reconcileForward db now op slot

/-- `min_by_key(rollout_order)` over the slots that are not complete. -/
def Operation.reconcileTarget (op : Operation) : Option EngineTarget :=
  (op.engines.filter (!·.complete)).foldl (leastBy (·.rolloutOrder)) none

def Db.commit (db : Db) (revision : Revision) : Db :=
  let moved :=
    if db.targetRevision = some revision then
      { db with currentRevision := revision, targetRevision := none }
    else db
  { moved with
    deployments := updateWhere (fun d => d.revision = revision ∧ d.isOpen)
      (fun d => { d with state := .succeeded }) db.deployments }

/-- A deployment or rollback commits its revision in the transaction that
completes it. -/
def commitRevision (db : Db) (op : Operation) : Db :=
  (db.commit op.targetRevision).modifyOperation op.operationId fun o =>
    { o.finish .succeeded with committed := true }

def finishOperation (db : Db) (op : Operation) : Db :=
  if op.phase = .restoringSource then
    db.modifyOperation op.operationId (·.finish op.restoredState)
  else if op.commits then commitRevision db op
  else db.modifyOperation op.operationId (·.finish .succeeded)

def reconcile (db : Db) (now : Time) (id : String) : Except Status Db := do
  let op ← loadActiveOperation db id
  if op.state = .paused then return db
  else if !op.restoreEngineSlotsBeforeProxy && !op.proxy.complete then return db
  else match op.reconcileTarget with
    | some slot => reconcileSlot db now op slot
    | none => if !op.proxy.complete then return db else return finishOperation db op

end Wruntime.Manager
