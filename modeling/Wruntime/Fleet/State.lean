import Wruntime.Lib.Table
import Wruntime.Manager.Types

/-!
The manager fleet: registered managers, the accepted authorization policy, and rollouts that replace
the managers of one policy by those of another. A `Store` is the content of these tables between two
transactions. Texts of a fixed vocabulary are enumerations; a controller's report about a host stays
text.
-/

namespace Wruntime.Fleet

open Table
open Manager (Time Status)

abbrev Uuid := String

inductive PrincipalKind where
  | human
  | serviceAccount
  | manager
  | proxy
  | nodeAgent
  | postgresClient
  deriving DecidableEq

/-- `ManagerRolloutPhase`. -/
inductive Phase where
  | unspecified
  | prepared
  | staging
  | closingOld
  | oldClosed
  | startingTarget
  | targetReadyClosed
  | activatingTarget
  | completed
  | failedPreClose
  | failedClosed
  deriving DecidableEq

inductive Role where
  | source
  | target
  deriving DecidableEq

/-- The admission states of managers, and those an outcome sets for a source member. -/
inductive AdmissionState where
  | opened
  | closedStartup
  | closedMismatch
  | closedRollout
  | stopped
  | unreachable
  deriving DecidableEq

inductive ProcessState where
  | ready
  | mismatch
  deriving DecidableEq

structure RolloutTarget where
  managerId : String
  endpoint : String
  deriving DecidableEq

inductive PolicyRole where
  | admin
  | infra
  | deploy
  | other

structure RoleAssignment where
  principal : String
  role : PolicyRole
  managerIds : Option (List String)

/-- `ValidatedPolicy`, as far as rollouts read it. -/
structure Policy where
  generation : UInt64
  digest : String
  clusterId : String
  principals : List (String × PrincipalKind)
  assignments : List RoleAssignment
  managerTargets : List RolloutTarget
  managerSetHash : String
  revokedLeafFingerprints : List String

/-- `RolloutPrevalidation`. -/
structure Receipt where
  validatorVersion : Nat
  generation : UInt64
  digest : String
  clusterId : String
  targetSetHash : String

structure ManagerRolloutSource where
  managerId : String
  endpoint : String
  hostDigest : String
  selectorDigest : String
  deriving DecidableEq

structure ManagerRolloutTarget where
  managerId : String
  endpoint : String
  hostDigest : String
  configDigest : String
  executableDigest : String
  systemdUnitDigest : String
  credentialDigest : String
  oldSelectorDigest : String
  newSelectorDigest : String
  deriving DecidableEq

structure BeginManagerRolloutRequest where
  clientOperationId : String
  clusterId : String
  targetGeneration : UInt64
  targetPolicyDigest : String
  expectedTargets : List ManagerRolloutTarget
  targetPolicyValidatorVersion : Nat
  targetDeploymentPrincipalUri : String
  targetDeploymentLeafFingerprint : String
  sourceManagers : List ManagerRolloutSource
  manifestDigest : String
  deploymentCertificate : String
  deriving DecidableEq

def ManagerRolloutTarget.toTarget (target : ManagerRolloutTarget) : RolloutTarget :=
  ⟨target.managerId, target.endpoint⟩

structure MemberOutcome where
  managerId : String
  memberRole : Role
  hostActionOutcome : String
  error : String

/-- `FailedManagerRolloutEvidence`. -/
structure Evidence where
  memberRole : Role
  managerId : String
  processState : String
  policyGeneration : UInt64
  policyDigest : String

structure ResetFailedManagerRolloutRequest where
  rolloutId : Uuid
  originalRequestDigest : String
  evidence : List Evidence

structure ManagerRow where
  managerId : String
  grpcAddress : String
  lastHeartbeat : Time
  policyGeneration : Option Int64
  policyDigest : Option String
  admissionState : AdmissionState
  deriving DecidableEq

structure ResetReceipt where
  requestDigest : String
  evidenceDigest : String
  policyGeneration : Int64
  policyDigest : String
  deriving DecidableEq

/-- A row of `wr_manager_rollouts`; columns copied from the canonical request are read from it. -/
structure Rollout where
  rolloutId : Uuid
  deploymentPrincipalUri : String
  canonicalRequestDigest : String
  request : BeginManagerRolloutRequest
  expectedTargetSetHash : String
  phase : Phase
  failure : Option String
  reset : Option ResetReceipt
  deriving DecidableEq

def Rollout.targetGeneration (rollout : Rollout) : Int64 :=
  rollout.request.targetGeneration.toInt64

/-- A row of `wr_manager_rollout_members`. -/
structure Member where
  rolloutId : Uuid
  memberRole : Role
  managerId : String
  observedPolicyGeneration : Option Int64
  observedPolicyDigest : Option String
  processState : Option ProcessState
  admissionState : Option AdmissionState
  hostActionOutcome : Option String
  error : Option String
  deriving DecidableEq

def Member.key (m : Member) : Uuid × Role × String := (m.rolloutId, m.memberRole, m.managerId)

structure AcceptedPolicy where
  generation : Int64
  digest : String
  deriving DecidableEq

/-- The row of `wr_manager_rollout_guard`. Generation and digest are both `NULL` or
neither is. -/
structure Guard where
  accepted : Option AcceptedPolicy
  activeRolloutId : Option Uuid
  recoveryPermitPrincipalUri : Option String
  deriving DecidableEq

structure Store where
  guard : Guard
  rollouts : List Rollout
  members : List Member
  managers : List ManagerRow
  deriving DecidableEq

def Store.empty : Store := ⟨⟨none, none, none⟩, [], [], []⟩

def Store.rollout? (db : Store) (rolloutId : Uuid) : Option Rollout :=
  db.rollouts.find? fun r => r.rolloutId = rolloutId

def Store.member? (db : Store) (rolloutId : Uuid) (role : Role) (managerId : String) :
    Option Member :=
  db.members.find? fun m => m.key = (rolloutId, role, managerId)

def Store.active? (db : Store) : Option Rollout :=
  db.guard.activeRolloutId.bind db.rollout?

def ManagerRow.live (now threshold : Time) (row : ManagerRow) : Bool :=
  now < row.lastHeartbeat + threshold

def Policy.stored (policy : Policy) : AcceptedPolicy :=
  ⟨policy.generation.toInt64, policy.digest⟩

def Rollout.target (rollout : Rollout) : AcceptedPolicy :=
  ⟨rollout.targetGeneration, rollout.request.targetPolicyDigest⟩

end Wruntime.Fleet
