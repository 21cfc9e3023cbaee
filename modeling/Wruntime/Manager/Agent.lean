import Wruntime.Manager.Reconcile

/-!
The node agent's calls: attest, claim, renew, report an observation or a step result; and the
operator's resume, cancel and agent-policy updates. A call is one transaction. `Except.error` rolls
it back; a call that answers an error but commits (the deadline fence) returns a `Committed` with
that reply.
-/

namespace Wruntime.Manager

open Fallible Table

abbrev Committed (α : Type) := Db × Except Status α

def leaseSeconds : Nat := 15

def attestationFreshSeconds : Nat := 30

def deadlineError : Status := .deadlineExceeded "forward operation deadline expired"

/-- The deadline transition before an agent call acts on a forward operation past its deadline. -/
def fenceDeadline (db : Db) (id : String) : Except Status Db :=
  enterRestoration db id .failed "FORWARD_DEADLINE_EXPIRED"
    "forward deadline expired; forward execution is permanently fenced"

/-- `attest`, on an attestation that has been validated and normalized. -/
def attest (db : Db) (now : Time) (principal : String) (attestation : Attestation) :
    Except Status (Db × List Condition) := do
  let conditions := match db.agentPolicy with
    | none => [("AGENT_POLICY_MISSING", "manager has no expected policy for this node")]
    | some policy =>
      let missing := policy.capabilities.filter fun c => !attestation.capabilities.contains c
      (if policy.protocolVersion ≠ attestation.protocolVersion
       then [("PROTOCOL_MISMATCH", "agent protocol does not match manager policy")]
       else []) ++
      (if policy.binaryDigest ≠ attestation.binaryDigest
       then [("BINARY_MISMATCH", "agent binary digest does not match manager policy")]
       else []) ++
      (if missing ≠ []
       then [("CAPABILITY_MISMATCH",
         "missing required capabilities: " ++ ", ".intercalate missing)]
       else [])
  ensure (db.nodePresent = true) (.internal "database operation failed")
  let row := { attestation with authenticatedPrincipal := principal, observedAt := now }
  return ({ db with
    attestations := upsertBy Attestation.agentInstanceId row db.attestations }, conditions)

/-- Running operations lose their lease when the agent policy changes. -/
def Operation.fencePolicy (op : Operation) : Operation :=
  { op with
    state := .paused
    failureCode := "AGENT_POLICY_UPDATED"
    failureDetail := "node-agent policy changed; attest the replacement and explicitly resume"
    lease := none }

/-- An agent policy with `retention_count` as the request carries it. -/
structure PutAgentPolicyRequest where
  protocolVersion : String
  binaryDigest : String
  capabilities : List String
  retentionCount : Option Nat

/-- `put_agent_policy`, on a canonical policy with normalized capabilities. -/
def putAgentPolicy (db : Db) (request : PutAgentPolicyRequest) :
    Except Status (Db × AgentPolicy) := do
  ensure (request.retentionCount ≠ some 0)
    (.invalidArgument "retention_count must be positive")
  ensure (request.retentionCount.all fun count => decide (count ≤ 2147483647))
    (.invalidArgument "retention_count is too large")
  let retention ← required
    (request.retentionCount.or (db.agentPolicy.map (·.retentionCount)))
    (.invalidArgument "retention_count is required when creating a node-agent policy")
  let policy : AgentPolicy :=
    { protocolVersion := request.protocolVersion
      binaryDigest := request.binaryDigest
      capabilities := request.capabilities
      retentionCount := retention }
  let policyChanged := db.agentPolicy.any fun prior =>
    prior.protocolVersion ≠ policy.protocolVersion ∨
    prior.binaryDigest ≠ policy.binaryDigest ∨
    prior.capabilities ≠ policy.capabilities
  let stored := { db with nodePresent := true, agentPolicy := some policy }
  if policyChanged then
    return ({ stored with
      operations := updateWhere (fun o => o.state = .running) (·.fencePolicy)
        db.operations }, policy)
  else
    return (stored, policy)

def Operation.resume (op : Operation) : Operation :=
  { op with state := .queued, lease := none, failureCode := "", failureDetail := "" }

def resume (db : Db) (id : String) : Except Status (Db × Operation) := do
  let _ ← required (db.operations.find? fun o => o.operationId = id ∧ o.state = .paused)
    (.failedPrecondition "operation must be paused")
  let resumed := db.modifyOperation id (·.resume)
  let op ← loadOperation resumed id
  return (resumed, op)

def cancel (db : Db) (id : String) : Except Status (Db × Operation) := do
  let cancelled ← enterRestoration db id .cancelled "CANCEL_REQUESTED"
    "source restoration required before cancellation is terminal"
  let op ← loadOperation cancelled id
  return (cancelled, op)

/-- A fresh attestation of this activation by this principal that satisfies
the node's policy. -/
def attested (db : Db) (now : Time) (agentInstanceId agent : String) : Bool :=
  db.agentPolicy.any fun policy => db.attestations.any fun attestation =>
    attestation.agentInstanceId = agentInstanceId ∧
    attestation.authenticatedPrincipal = agent ∧
    attestation.protocolVersion = policy.protocolVersion ∧
    attestation.binaryDigest = policy.binaryDigest ∧
    (∀ c ∈ policy.capabilities, c ∈ attestation.capabilities) ∧
    now - seconds attestationFreshSeconds ≤ attestation.observedAt

def Operation.leaseExpired (op : Operation) (now : Time) : Bool :=
  op.lease.any fun lease => lease.expiresAt ≤ now

def Operation.expireLease (op : Operation) : Operation :=
  { op with
    state := .paused
    failureCode := "LEASE_EXPIRED"
    failureDetail := "node-agent lease expired"
    lease := none }

def expireLeases (db : Db) (now : Time) : Db :=
  { db with
    operations := updateWhere (fun o => o.state = .running ∧ o.leaseExpired now)
      (·.expireLease) db.operations }

/-- The operations a claim may take: a queued one, or a running one whose live
lease names this activation. -/
def Operation.claimable (op : Operation) (now : Time) (agentInstanceId : String) : Bool :=
  op.state = .queued ∨
    op.state = .running ∧ op.lease.any fun lease =>
      lease.agentInstanceId = agentInstanceId ∧ now < lease.expiresAt

/-- A queued operation starts a new epoch under the caller's lease. -/
def Operation.takeLease (op : Operation) (now : Time) (agentInstanceId agent : String) :
    Operation :=
  { op with
    state := .running
    leaseEpoch := op.leaseEpoch + 1
    lease := some ⟨now + seconds leaseSeconds, agent, agentInstanceId⟩ }

def Operation.extendLease (op : Operation) (now : Time) : Operation :=
  { op with lease := op.lease.map fun lease =>
      { lease with expiresAt := now + seconds leaseSeconds } }

structure Selection where
  key : TargetKey
  step : NodeOperationStepKind
  release : ReleaseIdentity
  pinnedBackend : String
  pinnedProcess : String
  delivered : Bool
  ambiguous : Bool

def TargetProgress.selection (progress : TargetProgress) (key : TargetKey)
    (usesSource : Bool) : Selection where
  key := key
  step := progress.nextStep
  release := if usesSource then progress.source else progress.target
  pinnedBackend := progress.pinnedBackendInstanceId
  pinnedProcess := progress.pinnedProcessInstanceId
  delivered := progress.effectDeliveredAt.isSome
  ambiguous := progress.effectAmbiguous

def Operation.proxySelection (op : Operation) : Selection :=
  op.proxy.selection .proxy
    (op.phase = .restoringSource ∨ op.proxy.nextStep = .inspectBackend ∨
      op.proxy.nextStep = .stopBackend ∨ op.proxy.nextStep = .verifyTarget)

def Operation.slotSelection (op : Operation) (slot : EngineTarget) : Selection :=
  slot.progress.selection (.engineSlot slot.engineSlot)
    (op.phase = .restoringSource ∨ slot.progress.nextStep = .stopBackend ∨
      slot.progress.nextStep = .verifyTarget ∧ slot.provingSource = true)

def Operation.pendingSlot (op : Operation) : Option EngineTarget :=
  op.engines.find? (!·.complete)

/-- The target of the next instruction. Authority switches and serving verification are the
manager's own steps. -/
def Operation.selectTarget (op : Operation) : Option Selection :=
  if !op.proxy.complete &&
      (!op.restoreEngineSlotsBeforeProxy || op.pendingSlot.isNone) then
    some op.proxySelection
  else match op.pendingSlot with
    | none => none
    | some slot =>
      if slot.progress.nextStep = .switchAuthority ∨
          slot.progress.nextStep = .verifyServing then none
      else some (op.slotSelection slot)

def Selection.inspection (selection : Selection) : Bool :=
  (selection.step.isMutating && selection.delivered) || selection.ambiguous

def Selection.instructionStep (selection : Selection) : NodeOperationStepKind :=
  if selection.inspection then .inspectBackend else selection.step

def TargetKey.kind : TargetKey → InstructionTargetKind
  | .proxy => .proxy
  | .engineSlot _ => .engineSlot

def TargetProgress.deliver (progress : TargetProgress) (now : Time) : TargetProgress :=
  { progress with effectDeliveredAt := some now, effectAmbiguous := true }

/-- Record that a mutating effect is on its way to the agent. -/
def Operation.deliver (op : Operation) (key : TargetKey) (now : Time) : Operation :=
  match key with
  | .proxy => { op with proxy := op.proxy.deliver now }
  | .engineSlot slot => op.modifyProgress slot (·.deliver now)

/-- `instruction deployment is missing`, unless the release is none. -/
def revisionDigestOf (db : Db) (revision : Revision) : Except Status String :=
  if revision = 0 then .ok ""
  else do
    let row ← required (db.deployment? revision)
      (.failedPrecondition "instruction deployment is missing")
    return row.revisionDigest

/-- The instruction for a selected target, with the delivery of a mutation recorded in the same
transaction. -/
def issueInstruction (db : Db) (now : Time) (op : Operation) (agentInstanceId : String)
    (selection : Selection) : Except Status (Db × AgentInstruction) := do
  let revisionDigest ← revisionDigestOf db selection.release.revision
  ensure (targetStepCompatible selection.key.kind selection.instructionStep = true)
    (.internal "stored target kind and step are incompatible")
  let instruction : AgentInstruction :=
    { operationId := op.operationId
      nodeId := db.nodeId
      leaseEpoch := op.leaseEpoch
      step := selection.instructionStep
      operationDeadline :=
        if op.phase = .restoringSource then none else some op.forwardDeadline
      agentInstanceId := agentInstanceId
      target :=
        { kind := selection.key.kind
          identity := some selection.key
          revision := selection.release.revision
          bundleDigest := selection.release.digest
          resolvedReleaseDigest := selection.release.resolvedDigest }
      pinnedBackendInstanceId := selection.pinnedBackend
      pinnedProcessInstanceId := selection.pinnedProcess
      restoration := op.phase = .restoringSource
      revisionDigest := revisionDigest }
  if selection.step.isMutating && !selection.inspection then
    return (db.modifyOperation op.operationId (·.deliver selection.key now), instruction)
  else
    return (db, instruction)

/-- `claim` with an operation picked and leased: reconcile it, then instruct its next target if it
still runs. -/
def claimLeased (db : Db) (now : Time) (id agentInstanceId : String) :
    Except Status (Db × Option AgentInstruction) := do
  let reconciled ← reconcile db now id
  let op ← loadOperation reconciled id
  if op.state ≠ .running then return (reconciled, none)
  else match op.selectTarget with
    | none => return (reconciled, none)
    | some selection => do
        let (issued, instruction) ← issueInstruction reconciled now op agentInstanceId selection
        return (issued, some instruction)

def claim (db : Db) (now : Time) (agentInstanceId agent : String) :
    Except Status (Db × Option AgentInstruction) := do
  ensure (agentInstanceId ≠ "") (.invalidArgument "agent_instance_id is required")
  ensure (attested db now agentInstanceId agent = true)
    (.failedPrecondition "fresh authenticated node-agent attestation is required")
  let current := expireLeases db now
  -- At most one operation is active, so the order of the candidates is moot.
  match current.operations.find? (·.claimable now agentInstanceId) with
  | none => return (current, none)
  | some op =>
    if op.phase = .forward ∧ op.deadlineExpired now then do
      let fenced ← fenceDeadline current op.operationId
      return (fenced, none)
    else
      let leased := current.modifyOperation op.operationId fun o =>
        if op.state = .queued then o.takeLease now agentInstanceId agent
        else o.extendLease now
      claimLeased leased now op.operationId agentInstanceId

/-- The lease fence of renew and reports: running, this epoch, principal and activation, not
expired. -/
def Operation.leasedTo (op : Operation) (now : Time) (epoch : Nat)
    (agent agentInstanceId : String) : Bool :=
  op.state = .running ∧ op.leaseEpoch = epoch ∧ op.lease.any fun lease =>
    lease.claimedBy = agent ∧ lease.agentInstanceId = agentInstanceId ∧
    now < lease.expiresAt

def Db.leasedOperation? (db : Db) (now : Time) (nodeId id : String) (epoch : Nat)
    (agent agentInstanceId : String) : Option Operation :=
  if nodeId = db.nodeId then
    db.operations.find? fun o =>
      o.operationId = id ∧ o.leasedTo now epoch agent agentInstanceId
  else none

def renew (db : Db) (now : Time) (request : RenewOperationLeaseRequest)
    (agent : String) : Except Status (Committed Time) := do
  ensure (request.leaseEpoch ≤ i64Max) (.invalidArgument "lease epoch is too large")
  let op ← required
    (db.leasedOperation? now request.nodeId request.operationId request.leaseEpoch agent
      request.agentInstanceId)
    (.aborted "operation lease is stale, expired, or activation-mismatched")
  if op.phase = .forward ∧ op.deadlineExpired now then do
    let fenced ← fenceDeadline db op.operationId
    return (fenced, .error deadlineError)
  else
    return (db.modifyOperation op.operationId (·.extendLease now),
      .ok (now + seconds leaseSeconds))

def ReportNodeObservationRequest.row (request : ReportNodeObservationRequest)
    (now : Time) : SlotObservation where
  engineSlot := request.engineSlot
  lifecycle := request.lifecycle
  backendState := request.backendState
  backendInstanceId := request.backendInstanceId
  observedRevision := request.observedRevision
  observedAt := now
  observedDigest := request.observedDigest
  observedResolvedDigest := request.observedResolvedReleaseDigest
  backendQueryError := request.backendQueryError
  operationId := request.operationId
  agentInstanceId := request.agentInstanceId
  leaseEpoch := request.leaseEpoch

/-- Store an observation unless a later one of the slot is there already. -/
def Db.recordObservation (db : Db) (row : SlotObservation) : Db :=
  match db.observations.find? fun o => o.engineSlot = row.engineSlot with
  | some stored =>
    if stored.observedAt ≤ row.observedAt then
      { db with observations := upsertBy SlotObservation.engineSlot row db.observations }
    else db
  | none =>
    { db with observations := upsertBy SlotObservation.engineSlot row db.observations }

/-- `report_observation`, stamped with the time `receivedAt` on the manager's clock before the
transaction. -/
def reportObservation (db : Db) (now receivedAt : Time)
    (request : ReportNodeObservationRequest) (agent : String) :
    Except Status (Committed Operation) := do
  ensure (request.leaseEpoch ≤ i64Max) (.invalidArgument "lease epoch is too large")
  ensure (request.backendState ≠ .queryError ∨ request.backendQueryError ≠ "")
    (.invalidArgument "backend query errors require typed error evidence")
  ensure (request.observedRevision ≤ i64Max)
    (.invalidArgument "observed_revision is too large")
  let op ← required
    (db.leasedOperation? now request.nodeId request.operationId request.leaseEpoch agent
      request.agentInstanceId)
    (.aborted "observation has a stale, expired, or activation-mismatched lease")
  if op.phase = .forward ∧ op.deadlineExpired now then do
    let fenced ← fenceDeadline db op.operationId
    return (fenced, .error deadlineError)
  else do
    -- The schema stores an error text exactly with the query-error state.
    ensure ((request.backendState = .queryError) ↔ request.backendQueryError ≠ "")
      (.internal "database operation failed")
    let recorded := db.recordObservation (request.row receivedAt)
    let reconciled ← reconcile recorded now op.operationId
    let result ← loadOperation reconciled op.operationId
    return (reconciled, .ok result)

end Wruntime.Manager
