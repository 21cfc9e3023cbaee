import Mathlib.Data.String.Basic
import Wruntime.Manager.State

/-!
The manager's routing side, for all nodes of a cluster: engine registrations, module heartbeats,
routing rules, slot owners, and the columns they are checked against. A `Cluster` is the committed
content between two transactions. Identifiers that the source parses as UUIDs are parsed values.
-/

namespace Wruntime.Routing

open Table
open Manager (Time Revision Status ModuleIdentity DeploymentState NodeOperationAction
  NodeOperationState NodeOperationPhase i64Max)

abbrev Uuid := String

structure SecretRequest where
  nspace : String
  key : String
  deriving DecidableEq

structure ModuleDescriptor where
  identity : ModuleIdentity
  protoSchema : List UInt8
  deriving DecidableEq

structure DeploymentMetadata where
  nodeId : String
  revision : Revision
  bundleDigest : String
  engineSlot : String
  operationId : Uuid
  revisionDigest : String
  deriving DecidableEq

structure EngineRegistration where
  engineId : String
  address : String
  proxyAddress : String
  peerAddress : String
  modules : List ModuleDescriptor
  secrets : List SecretRequest
  dbNamespaces : List String
  deployment : Option DeploymentMetadata
  jobQueueId : String
  jobAdminAddress : String
  deriving DecidableEq

structure ExpectedEngine where
  engineSlot : String
  modules : List (Option ModuleIdentity × String)
  secrets : List SecretRequest
  dbNamespaces : List String
  jobQueueId : String
  jobAdminAddress : String
  deriving DecidableEq

/-- The columns of `wr_node_deployments` that a registration reads. -/
structure Deployment where
  revision : Revision
  bundleDigest : String
  revisionDigest : String
  state : DeploymentState
  operationId : Option Uuid
  inventory : List ExpectedEngine
  deriving DecidableEq

/-- The columns of an operation's engine target that a registration reads. -/
structure OperationSlot where
  engineSlot : String
  sourceRevision : Revision
  sourceDigest : String
  targetRevision : Revision
  targetDigest : String
  deriving DecidableEq

/-- The columns of `wr_node_operations` that a registration reads. -/
structure Operation where
  operationId : Uuid
  action : NodeOperationAction
  state : NodeOperationState
  phase : NodeOperationPhase
  targetRevision : Revision
  bundleDigest : String
  targetRevisionDigest : Option String
  slots : List OperationSlot
  deriving DecidableEq

/-- A row of `wr_node_slot_authority`. -/
structure SlotAuthority where
  engineSlot : String
  revision : Revision
  authoritative : Bool
  deriving DecidableEq

/-- A row of `wr_nodes` with the rows of the node in the tables above. -/
structure Node where
  nodeId : String
  currentRevision : Revision
  targetRevision : Option Revision
  deployments : List Deployment
  operations : List Operation
  authorities : List SlotAuthority
  deriving DecidableEq

def Node.fresh (nodeId : String) : Node := ⟨nodeId, 0, none, [], [], []⟩

/-- A row of `wr_engines`. The columns that copy the registration are read from
`registration`. -/
structure EngineRow where
  registration : EngineRegistration
  operationId : Uuid
  revisionDigest : String
  activationId : Uuid
  slotGeneration : Nat
  lastHeartbeat : Time
  draining : Bool
  deriving DecidableEq

def EngineRow.engineId (engine : EngineRow) : String := engine.registration.engineId

def EngineRow.deployment (engine : EngineRow) : Option DeploymentMetadata :=
  engine.registration.deployment

/-- A row of `wr_module_heartbeats`. -/
structure ModuleHeartbeat where
  engineId : String
  identity : ModuleIdentity
  lastHealthy : Time
  deriving DecidableEq

/-- A row of `wr_routing_rules`: the columns that the routing table carries. -/
structure RoutingRule where
  ruleId : String
  sourceNamespace : String
  sourceModule : String
  destination : ModuleIdentity
  engineId : String
  engineAddress : String
  peerAddress : String
  healthy : Bool
  deriving DecidableEq

/-- Who owns a slot: the columns that a registration is compared with. -/
structure Ownership where
  operationId : Uuid
  revision : Revision
  revisionDigest : String
  activationId : Uuid
  deriving DecidableEq

/-- A row of `wr_node_slot_owners`. -/
structure SlotOwner where
  nodeId : String
  engineSlot : String
  owner : Option Ownership
  engineId : Option String
  slotGeneration : Nat
  routeAuthority : Bool
  lifecycleAuthority : Bool
  deriving DecidableEq

def SlotOwner.vacant (nodeId slot : String) : SlotOwner :=
  ⟨nodeId, slot, none, none, 0, false, false⟩

/-- `EngineOwnershipFence`. -/
structure Fence where
  nodeId : String
  slot : String
  revisionDigest : String
  activationId : Uuid
  slotGeneration : Nat
  deriving DecidableEq

/-- The routing side of the database. `version` is `wr_manager_lock.version`. -/
structure Cluster where
  version : Nat
  rules : List RoutingRule
  engines : List EngineRow
  heartbeats : List ModuleHeartbeat
  owners : List SlotOwner
  nodes : List Node
  secrets : List SecretRequest
  deriving DecidableEq

def Cluster.empty : Cluster where
  version := 0
  rules := []
  engines := []
  heartbeats := []
  owners := []
  nodes := []
  secrets := []

def Cluster.node? (c : Cluster) (nodeId : String) : Option Node :=
  c.nodes.find? fun node => node.nodeId = nodeId

def Cluster.owner? (c : Cluster) (nodeId slot : String) : Option SlotOwner :=
  c.owners.find? fun row => row.nodeId = nodeId ∧ row.engineSlot = slot

def Cluster.engine? (c : Cluster) (engineId : String) : Option EngineRow :=
  c.engines.find? fun engine => engine.engineId = engineId

def Cluster.modifyNode (c : Cluster) (nodeId : String) (f : Node → Node) : Cluster :=
  { c with nodes := updateWhere (fun node => node.nodeId = nodeId) f c.nodes }

def Cluster.modifyOwner (c : Cluster) (nodeId slot : String) (f : SlotOwner → SlotOwner) :
    Cluster :=
  { c with
    owners := updateWhere (fun row => row.nodeId = nodeId ∧ row.engineSlot = slot) f
      c.owners }

/-- `increment_version`; the column is a 64-bit integer. -/
def Cluster.incrementVersion (c : Cluster) : Except Status Cluster :=
  if c.version < i64Max then .ok { c with version := c.version + 1 }
  else .error (.internal "failed to increment version: bigint out of range")

def RoutingRule.serves (engineId : String) (rule : RoutingRule) : Bool :=
  rule.engineId = engineId ∧ rule.healthy = true

def RoutingRule.down (rule : RoutingRule) : RoutingRule := { rule with healthy := false }

def RoutingRule.up (rule : RoutingRule) : RoutingRule := { rule with healthy := true }

def Cluster.takeDown (c : Cluster) (p : RoutingRule → Bool) : Cluster :=
  { c with rules := updateWhere p RoutingRule.down c.rules }

/-- Increment the version if some statement has changed rows. -/
def Cluster.incrementIf (c : Cluster) (changed : Bool) : Except Status Cluster :=
  if changed then c.incrementVersion else .ok c

def Node.hasAuthority (node : Node) (slot : String) : Bool :=
  node.authorities.any fun a => a.engineSlot = slot ∧ a.authoritative = true

/-- The revision is the authoritative one of the slot, or the current one when
the slot has none. -/
def Node.admits (node : Node) (slot : String) (revision : Revision) : Bool :=
  (node.authorities.any fun a =>
    a.engineSlot = slot ∧ a.revision = revision ∧ a.authoritative = true) ||
  (decide (revision = node.currentRevision) && !node.hasAuthority slot)

/-- The engine is the recorded owner of the slot, with route authority. -/
def Cluster.owns (c : Cluster) (engineId nodeId slot : String) : Bool :=
  c.owners.any fun row => row.nodeId = nodeId ∧ row.engineSlot = slot ∧
    row.engineId = some engineId ∧ row.routeAuthority = true

/-- The authority predicate of readiness publication and of health updates. -/
def Cluster.authoritative (c : Cluster) (engine : EngineRow) : Bool :=
  match engine.deployment with
  | none => true
  | some metadata =>
    c.owns engine.engineId metadata.nodeId metadata.engineSlot &&
    (c.node? metadata.nodeId).any fun node =>
      node.admits metadata.engineSlot metadata.revision

end Wruntime.Routing
