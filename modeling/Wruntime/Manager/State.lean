import Wruntime.Lib.Table
import Wruntime.Manager.Types

/-!
The manager's database for one node, as committed between two transactions. Deployments, operations,
receipts, observations, slot authority, agent policy and attestations are written by the calls of
this development; engine registrations, module heartbeats and routes are published by other calls
and read as evidence.
-/

namespace Wruntime.Manager

open Table

inductive DeploymentState where
  | pending
  | active
  | succeeded
  | failed
  deriving DecidableEq

/-- A row of `wr_node_deployments`; none is ever deleted. Finalized is equivalent to a non-empty
`resolved_release_digest`. -/
structure Deployment where
  revision : Revision
  attemptToken : String
  bundleDigest : String
  inventory : DeploymentInventory
  revisionDigest : String
  state : DeploymentState
  failureDetail : String
  sourceRevision : Revision
  resolvedReleaseDigest : String
  abandoned : Bool
  allocatedBy : String
  operationId : Option String
  deriving DecidableEq

def Deployment.finalized (deployment : Deployment) : Bool :=
  deployment.resolvedReleaseDigest ≠ ""

/-- `state IN ('pending', 'active')`. -/
def Deployment.isOpen (deployment : Deployment) : Bool :=
  deployment.state = .pending ∨ deployment.state = .active

/-- A row of `wr_node_operation_targets`, a target's durable progress. `complete` is equivalent to
`next_step = 'complete'`. -/
structure TargetProgress where
  nextStep : NodeOperationStepKind
  completedSteps : Nat
  conditionCode : String
  conditionDetail : String
  sourceRevision : Revision
  sourceDigest : String
  sourceResolvedDigest : String
  targetRevision : Revision
  targetDigest : String
  targetResolvedDigest : String
  pinnedBackendInstanceId : String
  pinnedProcessInstanceId : String
  changed : Bool
  effectAmbiguous : Bool
  effectDeliveredAt : Option Time
  effectReported : Bool
  effectObservedRevision : Revision
  effectObservedDigest : String
  effectObservedResolvedDigest : String
  effectBackendInstanceId : String
  effectProcessInstanceId : String
  effectConditionCode : String
  effectDetail : String
  effectTerminationEvidence : Option BackendTerminationEvidence
  deriving DecidableEq

def TargetProgress.complete (progress : TargetProgress) : Bool :=
  progress.nextStep = .unspecified

/-- An engine target: its progress with its row of
`wr_node_operation_engine_target_details`. -/
structure EngineTarget where
  engineSlot : String
  rolloutOrder : Nat
  transition : DerivedTransition
  authoritativeRevision : Revision
  authoritySwitched : Bool
  servingConverged : Bool
  progress : TargetProgress
  deriving DecidableEq

def EngineTarget.complete (target : EngineTarget) : Bool := target.progress.complete

/-- The three lease columns, which the schema sets and clears together. -/
structure Lease where
  expiresAt : Time
  claimedBy : String
  agentInstanceId : String
  deriving DecidableEq

/-- A row of `wr_node_operations` with its targets, `engines` in the rollout order of
`load_operation`. -/
structure Operation where
  operationId : String
  requestToken : String
  actor : String
  action : NodeOperationAction
  state : NodeOperationState
  phase : NodeOperationPhase
  requestPayload : SubmitOperationRequest
  policy : RolloutPolicy
  sourceRevision : Revision
  targetRevision : Revision
  bundleDigest : String
  resolvedReleaseDigest : String
  targetRevisionDigest : Option String
  committed : Bool
  leaseEpoch : Nat
  lease : Option Lease
  failureCode : String
  failureDetail : String
  createdAt : Time
  forwardDeadline : Time
  forwardFenced : Bool
  restorationRequested : Bool
  restorationTerminalState : Option NodeOperationState
  proxy : TargetProgress
  engines : List EngineTarget
  deriving DecidableEq

/-- A row of `wr_node_operation_result_receipts`. -/
structure Receipt where
  operationId : String
  nodeId : String
  agentInstanceId : String
  leaseEpoch : Nat
  step : NodeOperationStepKind
  target : TargetKey
  authenticatedPrincipal : String
  resultPayload : ReportStepResultRequest
  deriving DecidableEq

/-- A row of `wr_node_slot_observations`; one per slot. -/
structure SlotObservation where
  engineSlot : String
  lifecycle : Option LifecycleStatus
  backendState : BackendProcessState
  backendInstanceId : String
  observedRevision : Revision
  observedAt : Time
  observedDigest : String
  observedResolvedDigest : String
  backendQueryError : String
  operationId : String
  agentInstanceId : String
  leaseEpoch : Nat
  deriving DecidableEq

/-- A row of `wr_node_slot_authority`. -/
structure SlotAuthority where
  engineSlot : String
  revision : Revision
  authoritative : Bool
  resolvedReleaseDigest : String
  deriving DecidableEq

/-- A row of `wr_node_agent_policies`. -/
structure AgentPolicy where
  protocolVersion : String
  binaryDigest : String
  capabilities : List String
  retentionCount : Nat
  deriving DecidableEq

/-- A row of `wr_node_agent_attestations`; one per activation. -/
structure Attestation where
  agentInstanceId : String
  authenticatedPrincipal : String
  protocolVersion : String
  binaryDigest : String
  capabilities : List String
  observedAt : Time
  deriving DecidableEq

/-- The deployment columns of `wr_engines`. -/
structure DeploymentMetadata where
  nodeId : String
  revision : Revision
  bundleDigest : String
  engineSlot : String
  deriving DecidableEq

structure EngineRecord where
  engineId : String
  deployment : Option DeploymentMetadata
  modules : List ModuleIdentity
  lastHeartbeat : Time
  deriving DecidableEq

structure ModuleHeartbeat where
  engineId : String
  identity : ModuleIdentity
  lastHealthy : Time
  deriving DecidableEq

structure RoutingRule where
  ruleId : String
  engineId : String
  destination : ModuleIdentity
  healthy : Bool
  deriving DecidableEq

/-- The database of one node. `nodePresent` is the presence of its `wr_nodes` row. -/
structure Db where
  nodeId : String
  nodePresent : Bool
  currentRevision : Revision
  targetRevision : Option Revision
  deployments : List Deployment
  operations : List Operation
  receipts : List Receipt
  observations : List SlotObservation
  authorities : List SlotAuthority
  agentPolicy : Option AgentPolicy
  attestations : List Attestation
  engines : List EngineRecord
  moduleHeartbeats : List ModuleHeartbeat
  routes : List RoutingRule
  routingVersion : Nat
  deriving DecidableEq

def Db.empty (nodeId : String) : Db where
  nodeId := nodeId
  nodePresent := false
  currentRevision := 0
  targetRevision := none
  deployments := []
  operations := []
  receipts := []
  observations := []
  authorities := []
  agentPolicy := none
  attestations := []
  engines := []
  moduleHeartbeats := []
  routes := []
  routingVersion := 0

def Operation.isActive (op : Operation) : Bool := op.state.isActive

def Operation.restoreEngineSlotsBeforeProxy (op : Operation) : Bool :=
  op.phase = .restoringSource ∧ op.sourceRevision = 0

def Operation.modifySlot (op : Operation) (slot : String)
    (f : EngineTarget → EngineTarget) : Operation :=
  { op with engines := updateWhere (fun t => t.engineSlot = slot) f op.engines }

def Operation.modifyProgress (op : Operation) (slot : String)
    (f : TargetProgress → TargetProgress) : Operation :=
  op.modifySlot slot fun t => { t with progress := f t.progress }

def Db.operation? (db : Db) (id : String) : Option Operation :=
  db.operations.find? fun o => o.operationId = id

def Db.deployment? (db : Db) (revision : Revision) : Option Deployment :=
  db.deployments.find? fun d => d.revision = revision

def Db.modifyOperation (db : Db) (id : String) (f : Operation → Operation) : Db :=
  { db with operations := updateWhere (fun o => o.operationId = id) f db.operations }

def Db.authoritative (db : Db) : List SlotAuthority :=
  db.authorities.filter (·.authoritative)

end Wruntime.Manager
