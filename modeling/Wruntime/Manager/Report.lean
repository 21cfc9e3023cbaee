import Wruntime.Manager.Agent

/-!
Reports of step results. An accepted result leaves a receipt under its operation, node, activation,
epoch, step and target; a report that finds a receipt is a retry and is answered from it first of
all.
-/

namespace Wruntime.Manager

open Fallible Table

def stopEvidenceCondition (request : ReportStepResultRequest)
    (step : NodeOperationStepKind) (pinnedBackend pinnedProcess : String) :
    Option Condition :=
  if step ≠ .stopBackend then none
  else if pinnedBackend = "" ∨ pinnedProcess = "" ∨
      request.backendInstanceId ≠ pinnedBackend ∨
      request.processInstanceId ≠ pinnedProcess then
    some ("STOP_IDENTITY_MISMATCH",
      "stop result must identify the exact pinned backend and process instances")
  else match request.terminationEvidence with
    | none =>
      some ("TERMINATION_EVIDENCE_MISSING",
        "successful stop result requires typed termination evidence")
    | some evidence =>
      if evidence.backendInstanceId ≠ request.backendInstanceId ∨
          evidence.processInstanceId ≠ request.processInstanceId then
        some ("TERMINATION_EVIDENCE_MISMATCH",
          "termination evidence must identify the reported backend and process instances")
      else if evidence.gracefulTerminationRequested = false ∨
          evidence.killEscalated = true ∨ evidence.disposition ≠ .graceful then
        some ("TERMINATION_NOT_GRACEFUL",
          "stop result does not prove graceful termination without escalation")
      else none

def ReportStepResultRequest.observed (request : ReportStepResultRequest) :
    ReleaseIdentity :=
  ⟨request.observedRevision, request.observedDigest, request.observedResolvedReleaseDigest⟩

def TargetProgress.recordEffect (progress : TargetProgress)
    (request : ReportStepResultRequest) (code detail : String) : TargetProgress :=
  { progress with
    effectReported := true
    effectConditionCode := code
    effectDetail := detail
    effectObservedRevision := request.observedRevision
    effectObservedDigest := request.observedDigest
    effectObservedResolvedDigest := request.observedResolvedReleaseDigest
    effectBackendInstanceId := request.backendInstanceId
    effectProcessInstanceId := request.processInstanceId
    effectTerminationEvidence :=
      if request.step = .stopBackend then request.terminationEvidence
      else progress.effectTerminationEvidence }

def proxyExpected (proxy : TargetProgress) (step : NodeOperationStepKind) :
    ReleaseIdentity :=
  match step with
  | .inspectBackend | .stopBackend | .restoreSource | .verifyTarget => proxy.source
  | _ => proxy.target

def proxyCondition (request : ReportStepResultRequest) (proxy : TargetProgress) :
    Condition :=
  if request.conditionCode ≠ "" then (request.conditionCode, request.detail)
  else if request.backendQueryError ≠ "" then
    ("BACKEND_QUERY_ERROR", request.backendQueryError)
  else if request.observed ≠ proxyExpected proxy request.step then
    ("RELEASE_EVIDENCE_MISMATCH",
      "proxy evidence does not match the immutable instruction triple")
  else if (request.step = .verifyTarget ∨ request.step = .verifyProxy) ∧
      request.processInstanceId = "" then
    ("PROXY_EVIDENCE_MISSING", "proxy verification requires a process identity")
  else
    (stopEvidenceCondition request request.step proxy.pinnedBackendInstanceId
      proxy.pinnedProcessInstanceId).getD ("", request.detail)

def proxyNextStep : NodeOperationStepKind → Except Status NodeOperationStepKind
  | .inspectBackend => .ok .stopBackend
  | .stopBackend => .ok .selectRelease
  | .selectRelease => .ok .startBackend
  | .startBackend => .ok .verifyProxy
  | .verifyTarget => .ok .stopBackend
  | .verifyProxy | .restoreSource => .ok .unspecified
  | _ => .error (.aborted "invalid proxy operation step")

/-- A failed proxy step pauses the operation. The delivery and ambiguity marks
of the step stay. -/
def Operation.failProxy (op : Operation) (code detail : String) : Operation :=
  { op with
    proxy := { op.proxy with effectConditionCode := code, effectDetail := detail }
    state := .paused
    failureCode := code
    failureDetail := detail
    lease := none }

/-- A successful proxy step moves the proxy to its next step. -/
def TargetProgress.proxyStep (proxy : TargetProgress) (request : ReportStepResultRequest)
    (next : NodeOperationStepKind) : TargetProgress :=
  { proxy.recordEffect request "" "" with
    nextStep := next
    changed := proxy.changed || request.step.isMutating
    effectAmbiguous := false
    effectDeliveredAt := none
    pinnedBackendInstanceId :=
      if request.backendInstanceId ≠ "" then request.backendInstanceId
      else proxy.pinnedBackendInstanceId
    pinnedProcessInstanceId :=
      if request.processInstanceId ≠ "" then request.processInstanceId
      else proxy.pinnedProcessInstanceId }

def staleResult (target : String) (expected received : NodeOperationStepKind) : Status :=
  .aborted ("stale " ++ target ++ " result: expected " ++ expected.stepName ++
    ", received " ++ received.stepName)

def reportProxyStep (db : Db) (now : Time) (op : Operation)
    (request : ReportStepResultRequest) : Except Status Db := do
  ensure (op.proxy.complete = false) (.internal "database operation failed")
  ensure (op.proxy.nextStep ≠ .unspecified ∧ op.proxy.nextStep = request.step)
    (staleResult "proxy" op.proxy.nextStep request.step)
  let (code, detail) := proxyCondition request op.proxy
  if code ≠ "" then
    return db.modifyOperation op.operationId (·.failProxy code detail)
  else do
    let next ← proxyNextStep request.step
    ensure (request.observedRevision ≤ i64Max)
      (.invalidArgument "observed_revision is too large")
    reconcile (db.modifyOperation op.operationId fun o =>
      { o with proxy := o.proxy.proxyStep request next }) now op.operationId

def slotExpected (slot : EngineTarget) (step : NodeOperationStepKind) : ReleaseIdentity :=
  if step = .stopBackend ∨ step = .restoreSource ∨
      step = .verifyTarget ∧ slot.provingSource = true
  then slot.progress.source else slot.progress.target

/-- The steps whose result carries the release it acted on. -/
def reportsRelease : NodeOperationStepKind → Bool
  | .verifyReleaseMetadata | .stopBackend | .selectRelease | .startBackend
  | .verifyTarget | .restoreSource => true
  | _ => false

def slotCondition (request : ReportStepResultRequest) (slot : EngineTarget)
    (pinnedProxy : String) : Condition :=
  if request.conditionCode ≠ "" then (request.conditionCode, request.detail)
  else if request.backendQueryError ≠ "" then
    ("BACKEND_QUERY_ERROR", request.backendQueryError)
  else if reportsRelease request.step ∧ request.observed ≠ slotExpected slot request.step then
    ("RELEASE_EVIDENCE_MISMATCH",
      "reported revision/digest do not match the immutable instruction snapshot")
  else if request.step = .verifyProxy ∧ request.processInstanceId = "" then
    ("PROXY_EVIDENCE_MISSING", "proxy verification requires an activation process identity")
  else if request.step = .verifyProxy ∧ pinnedProxy ≠ "" ∧
      request.processInstanceId ≠ pinnedProxy then
    ("PROXY_IDENTITY_CHANGED",
      "proxy process identity differs from the operation's pinned activation")
  else match stopEvidenceCondition request request.step
      slot.progress.pinnedBackendInstanceId slot.progress.pinnedProcessInstanceId with
    | some condition => condition
    | none =>
      if (request.step = .stopBackend ∨ request.step = .startBackend ∨
          request.step = .restoreSource) ∧ request.backendInstanceId = "" then
        ("BACKEND_IDENTITY_MISSING",
          "typed backend effects require the exact resulting backend instance identity")
      else if (request.step = .startBackend ∨
          request.step = .restoreSource ∧ slot.progress.sourceRevision > 0) ∧
          request.processInstanceId = "" then
        ("PROCESS_IDENTITY_MISSING",
          "start and restoration effects require the exact resulting process identity")
      else ("", request.detail)

/-- A proxy verification reported for an engine slot pins the proxy; `report_step` refuses such
reports earlier. -/
def Operation.pinProxy (op : Operation) (process : String) : Operation :=
  { op with proxy := { op.proxy with
      pinnedProcessInstanceId :=
        if op.proxy.pinnedProcessInstanceId = "" then process
        else op.proxy.pinnedProcessInstanceId } }

/-- The engine branch of `report_step`. -/
def reportSlotStep (db : Db) (now : Time) (op : Operation) (key : String)
    (request : ReportStepResultRequest) : Except Status Db := do
  let slot ← required
    (op.engines.find? fun t => t.engineSlot = key ∧ t.complete = false)
    (.failedPrecondition "operation slot is complete or unknown")
  ensure (slot.progress.nextStep = request.step)
    (staleResult "step" slot.progress.nextStep request.step)
  let (code, detail) := slotCondition request slot op.proxy.pinnedProcessInstanceId
  ensure (request.observedRevision ≤ i64Max)
    (.invalidArgument "observed_revision is too large")
  let recorded := db.modifyOperation op.operationId fun o =>
    let reported := o.modifyProgress key (·.recordEffect request code detail)
    if request.step = .verifyProxy ∧ code = "" then
      reported.pinProxy request.processInstanceId
    else reported
  reconcile recorded now op.operationId

def ReportStepResultRequest.receipt (request : ReportStepResultRequest)
    (target : TargetKey) (agent : String) : Receipt where
  operationId := request.operationId
  nodeId := request.nodeId
  agentInstanceId := request.agentInstanceId
  leaseEpoch := request.leaseEpoch
  step := request.step
  target := target
  authenticatedPrincipal := agent
  resultPayload := request

def Db.receipt? (db : Db) (request : ReportStepResultRequest) (target : TargetKey) :
    Option Receipt :=
  db.receipts.find? fun r =>
    r.operationId = request.operationId ∧ r.nodeId = request.nodeId ∧
    r.agentInstanceId = request.agentInstanceId ∧ r.leaseEpoch = request.leaseEpoch ∧
    r.step = request.step ∧ r.target = target

/-- A result that no receipt answers: lease fence, deadline fence, the target's branch, receipt. -/
def acceptStep (db : Db) (now : Time) (request : ReportStepResultRequest)
    (target : TargetKey) (agent : String) : Except Status (Committed Operation) := do
  let op ← required
    (db.leasedOperation? now request.nodeId request.operationId request.leaseEpoch agent
      request.agentInstanceId)
    (.aborted "result has a stale, expired, or activation-mismatched lease")
  if op.phase = .forward ∧ op.deadlineExpired now then do
    let fenced ← fenceDeadline db op.operationId
    return (fenced, .error deadlineError)
  else do
    let reported ← match target with
      | .proxy => reportProxyStep db now op request
      | .engineSlot key => reportSlotStep db now op key request
    let stored := { reported with
      receipts := reported.receipts ++ [request.receipt target agent] }
    let result ← loadOperation stored request.operationId
    return (stored, .ok result)

def reportStep (db : Db) (now : Time) (request : ReportStepResultRequest)
    (agent : String) : Except Status (Committed Operation) := do
  ensure (request.leaseEpoch ≤ i64Max) (.invalidArgument "lease epoch is too large")
  let reportTarget ← required request.target (.invalidArgument "result target is required")
  let target ← instructionTargetKey reportTarget
  ensure (targetStepCompatible reportTarget.kind request.step = true)
    (.invalidArgument "target kind does not support the reported step")
  match db.receipt? request target with
  | some receipt => do
      ensure (receipt.authenticatedPrincipal = agent ∧ receipt.resultPayload = request)
        (.aborted "result retry conflicts with the accepted instruction receipt")
      let result ← loadOperation db request.operationId
      return (db, .ok result)
  | none => acceptStep db now request target agent

end Wruntime.Manager
