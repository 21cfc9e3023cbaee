import Wruntime.Lib.Fallible

/-!
The manager's vocabulary: enumerations and messages of the operation protocol. Enumerations that the
database stores as text are inductive types; error texts and condition codes stay strings, since
clients compare them.
-/

namespace Wruntime.Manager

/-- Database time (`NOW()`), in microseconds. -/
abbrev Time := Nat

abbrev Revision := Nat

def seconds (n : Nat) : Time := n * 1000000

inductive Code where
  | invalidArgument
  | notFound
  | alreadyExists
  | permissionDenied
  | failedPrecondition
  | aborted
  | deadlineExceeded
  | resourceExhausted
  | internal
  | unavailable
  | unauthenticated
  deriving DecidableEq

structure Status where
  code : Code
  message : String
  deriving DecidableEq

namespace Status

def invalidArgument (message : String) : Status := ⟨.invalidArgument, message⟩
def notFound (message : String) : Status := ⟨.notFound, message⟩
def alreadyExists (message : String) : Status := ⟨.alreadyExists, message⟩
def permissionDenied (message : String) : Status := ⟨.permissionDenied, message⟩
def failedPrecondition (message : String) : Status := ⟨.failedPrecondition, message⟩
def aborted (message : String) : Status := ⟨.aborted, message⟩
def deadlineExceeded (message : String) : Status := ⟨.deadlineExceeded, message⟩
def resourceExhausted (message : String) : Status := ⟨.resourceExhausted, message⟩
def internal (message : String) : Status := ⟨.internal, message⟩
def unavailable (message : String) : Status := ⟨.unavailable, message⟩
def unauthenticated (message : String) : Status := ⟨.unauthenticated, message⟩

end Status

/-- Largest value of the database's 64-bit integer columns. -/
def i64Max : Nat := 9223372036854775807

inductive NodeOperationAction where
  | unspecified
  | deployment
  | restart
  | rollback
  deriving DecidableEq

/-- `matches!(action, Deployment | Rollback)`. -/
def NodeOperationAction.isDeployment : NodeOperationAction → Bool
  | .deployment | .rollback => true
  | .unspecified | .restart => false

inductive NodeOperationState where
  | queued
  | running
  | paused
  | succeeded
  | failed
  | cancelled
  deriving DecidableEq

/-- The states the database calls active: `state IN ('queued', 'running', 'paused')`. -/
def NodeOperationState.isActive : NodeOperationState → Bool
  | .queued | .running | .paused => true
  | .succeeded | .failed | .cancelled => false

/-- The stored phases. `committing`, which the schema admits, is never written. -/
inductive NodeOperationPhase where
  | forward
  | restoringSource
  | complete
  deriving DecidableEq

/-- A stored step; `unspecified` is the step of a complete target. -/
inductive NodeOperationStepKind where
  | verifyReleaseMetadata
  | verifyProxy
  | stopBackend
  | selectRelease
  | startBackend
  | verifyTarget
  | switchAuthority
  | verifyServing
  | restoreSource
  | inspectBackend
  | unspecified
  deriving DecidableEq

/-- The text under which a step is stored and named in error messages. -/
def NodeOperationStepKind.stepName : NodeOperationStepKind → String
  | .verifyReleaseMetadata => "verify_release_metadata"
  | .verifyProxy => "verify_proxy"
  | .stopBackend => "stop_backend"
  | .selectRelease => "select_release"
  | .startBackend => "start_backend"
  | .verifyTarget => "verify_target"
  | .switchAuthority => "switch_authority"
  | .verifyServing => "verify_serving"
  | .restoreSource => "restore_source"
  | .inspectBackend => "inspect_backend"
  | .unspecified => "complete"

/-- The steps that change the host: `claim` records their delivery. -/
def NodeOperationStepKind.isMutating : NodeOperationStepKind → Bool
  | .stopBackend | .selectRelease | .startBackend | .restoreSource => true
  | _ => false

inductive DerivedTransition where
  | addition
  | replacement
  | unchanged
  | removal
  | restart
  deriving DecidableEq

inductive InstructionTargetKind where
  | unspecified
  | proxy
  | engineSlot
  | releaseCleanup
  deriving DecidableEq

inductive BackendProcessState where
  | unspecified
  | running
  | exited
  | queryError
  deriving DecidableEq

inductive BackendStopDisposition where
  | unknown
  | graceful
  | forced
  deriving DecidableEq

inductive ProcessLifecycleState where
  | unspecified
  | starting
  | ready
  | stopping
  deriving DecidableEq

inductive ServiceKind where
  | unspecified
  | manager
  | proxy
  | engine
  deriving DecidableEq

structure LifecycleStatus where
  state : ProcessLifecycleState
  serviceKind : ServiceKind
  processInstanceId : String
  deriving DecidableEq

structure BackendTerminationEvidence where
  backendInstanceId : String
  processInstanceId : String
  gracefulTerminationRequested : Bool
  killEscalated : Bool
  disposition : BackendStopDisposition
  terminalResult : String
  exitCode : Option Int
  signal : Option Int
  deriving DecidableEq

structure RolloutPolicy where
  maxUnavailable : Nat
  allowDowntime : Bool
  deadlineSeconds : Nat
  deriving DecidableEq

structure ModuleIdentity where
  nspace : String
  name : String
  version : String
  deriving DecidableEq

structure ExpectedModule where
  identity : Option ModuleIdentity
  protoSchemaDigest : String
  deriving DecidableEq

structure ExpectedEngine where
  engineSlot : String
  modules : List ExpectedModule
  deriving DecidableEq

/-- `DeploymentInventoryV1`: what a revision puts on the node. -/
structure DeploymentInventory where
  schemaVersion : Nat
  engines : List ExpectedEngine
  deriving DecidableEq

def DeploymentInventory.slots (inventory : DeploymentInventory) : List String :=
  inventory.engines.map (·.engineSlot)

inductive TargetKey where
  | proxy
  | engineSlot (slot : String)
  deriving DecidableEq

/-- The target named in a message. `identity` is the message's oneof. -/
structure InstructionTarget where
  kind : InstructionTargetKind
  identity : Option TargetKey
  revision : Revision
  bundleDigest : String
  resolvedReleaseDigest : String
  deriving DecidableEq

def instructionTargetKey (target : InstructionTarget) : Except Status TargetKey :=
  match target.kind, target.identity with
  | .proxy, some .proxy => .ok .proxy
  | .engineSlot, some (.engineSlot slot) =>
    if slot ≠ "" ∧ slot ≠ "proxy" then .ok (.engineSlot slot)
    else .error (.invalidArgument "target kind and identity mismatch")
  | _, _ => .error (.invalidArgument "target kind and identity mismatch")

def targetStepCompatible (kind : InstructionTargetKind)
    (step : NodeOperationStepKind) : Bool :=
  match kind with
  | .proxy =>
    match step with
    | .inspectBackend | .verifyTarget | .verifyProxy | .stopBackend
    | .selectRelease | .startBackend | .restoreSource | .unspecified => true
    | _ => false
  | .engineSlot => step ≠ .verifyProxy
  | .unspecified | .releaseCleanup => false

structure SubmitOperationRequest where
  nodeId : String
  requestToken : String
  action : NodeOperationAction
  targetRevision : Revision
  bundleDigest : String
  policy : Option RolloutPolicy
  resolvedReleaseDigest : String
  engineSlot : String
  deriving DecidableEq

structure BeginDeploymentRequest where
  nodeId : String
  attemptToken : String
  bundleDigest : String
  inventory : Option DeploymentInventory

structure FinalizeDeploymentRequest where
  nodeId : String
  revision : Revision
  attemptToken : String
  bundleDigest : String
  resolvedReleaseDigest : String

structure RenewOperationLeaseRequest where
  nodeId : String
  operationId : String
  leaseEpoch : Nat
  agentInstanceId : String

structure ReportNodeObservationRequest where
  nodeId : String
  engineSlot : String
  lifecycle : Option LifecycleStatus
  backendState : BackendProcessState
  backendInstanceId : String
  observedRevision : Revision
  observedDigest : String
  backendQueryError : String
  operationId : String
  agentInstanceId : String
  leaseEpoch : Nat
  observedResolvedReleaseDigest : String

structure ReportStepResultRequest where
  nodeId : String
  operationId : String
  leaseEpoch : Nat
  step : NodeOperationStepKind
  conditionCode : String
  detail : String
  agentInstanceId : String
  observedRevision : Revision
  observedDigest : String
  backendInstanceId : String
  processInstanceId : String
  backendQueryError : String
  observedResolvedReleaseDigest : String
  target : Option InstructionTarget
  terminationEvidence : Option BackendTerminationEvidence
  deriving DecidableEq

/-- What `claim` hands to an agent. -/
structure AgentInstruction where
  operationId : String
  nodeId : String
  leaseEpoch : Nat
  step : NodeOperationStepKind
  operationDeadline : Option Time
  agentInstanceId : String
  target : InstructionTarget
  pinnedBackendInstanceId : String
  pinnedProcessInstanceId : String
  restoration : Bool
  revisionDigest : String
  deriving DecidableEq

end Wruntime.Manager
