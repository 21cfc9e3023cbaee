import Wruntime.Routing.State

/-!
The transactions of the routing side. Each locks `wr_manager_lock`, so they are
serial; one that fails leaves the cluster as it was.
-/

namespace Wruntime.Routing

open Fallible Table
open Manager (Time Revision Status ModuleIdentity DeploymentState NodeOperationAction
  NodeOperationState NodeOperationPhase i64Max)

/-- By SHA-256: the hex digest of a schema, and the operation id of a revision digest. -/
structure Contract where
  sha256 : List UInt8 → String
  deploymentOperationId : String → Except String Uuid

def Contract.schemaDigest (contract : Contract) (bytes : List UInt8) : String :=
  if bytes = [] then "" else "sha256:" ++ contract.sha256 bytes

def assignedSlotGeneration (current : Nat) (replay : Bool) : Except Status Nat :=
  if replay then .ok current
  else if current + 1 < 2 ^ 64 then .ok (current + 1)
  else .error (.resourceExhausted "engine slot generation exhausted")

def Node.deployment? (node : Node) (metadata : DeploymentMetadata) : Option Deployment :=
  node.deployments.find? fun d => d.revision = metadata.revision ∧
    d.bundleDigest = metadata.bundleDigest ∧ d.state ≠ .failed

def operationMismatch : Status :=
  .failedPrecondition "deployment operation/revision digest mismatch"

def Operation.liveSlot? (op : Operation) (metadata : DeploymentMetadata)
    (storedDigest : String) : Option OperationSlot :=
  op.slots.find? fun slot => slot.engineSlot = metadata.engineSlot ∧ op.state.isActive ∧
    ((op.action.isDeployment ∧ op.phase ≠ .restoringSource ∧
        op.targetRevision = metadata.revision ∧ op.bundleDigest = metadata.bundleDigest ∧
        op.targetRevisionDigest = some storedDigest) ∨
      (op.action = .restart ∧ slot.targetRevision = metadata.revision ∧
        slot.targetDigest = metadata.bundleDigest) ∨
      (op.phase = .restoringSource ∧ slot.sourceRevision = metadata.revision ∧
        slot.sourceDigest = metadata.bundleDigest))

def Node.liveOperation? (node : Node) (metadata : DeploymentMetadata)
    (storedDigest : String) : Option (Operation × OperationSlot) :=
  node.operations.findSome? fun op =>
    (op.liveSlot? metadata storedDigest).map fun slot => (op, slot)

/-- The operation may start this revision: staged when forward, committed for a restart or
restoration. -/
def registrationMatches (node : Node) (deployment : Deployment)
    (metadata : DeploymentMetadata) (op : Operation) (slot : OperationSlot) : Bool :=
  let isStaged := deployment.state = .pending ∨ deployment.state = .active
  let isCommitted := deployment.state = .succeeded ∧
    node.currentRevision = metadata.revision
  let operationTargetMatches := op.phase ≠ .restoringSource ∧
    op.targetRevision = metadata.revision ∧ op.bundleDigest = metadata.bundleDigest ∧
    op.targetRevisionDigest = some deployment.revisionDigest
  let restartTargetMatches := op.action = .restart ∧
    slot.targetRevision = metadata.revision ∧ slot.targetDigest = metadata.bundleDigest
  let restorationSourceMatches := op.phase = .restoringSource ∧
    slot.sourceRevision = metadata.revision ∧ slot.sourceDigest = metadata.bundleDigest
  (operationTargetMatches ∧ isStaged) ∨
    ((restartTargetMatches ∨ restorationSourceMatches) ∧ isCommitted)

/-- The desired-state checks of a registration: its deployment row and the slot's operation. -/
def desiredState (contract : Contract) (node : Node) (metadata : DeploymentMetadata) :
    Except Status (Deployment × Operation) := do
  let deployment ← required (node.deployment? metadata)
    (.failedPrecondition "deployment metadata does not match desired state")
  let expected ← (contract.deploymentOperationId deployment.revisionDigest).mapError fun e =>
    Status.internal ("stored revision digest is invalid: " ++ e)
  ensure (metadata.operationId = expected ∧ deployment.operationId = some expected ∧
    metadata.revisionDigest = deployment.revisionDigest) operationMismatch
  let (op, slot) ← required (node.liveOperation? metadata deployment.revisionDigest)
    (.failedPrecondition "deployment operation is not live for this node and slot")
  ensure (registrationMatches node deployment metadata op slot = true) operationMismatch
  return (deployment, op)

/-- One module of a registration, added to the digests of those before it. -/
def addModule (contract : Contract) (modules : List (ModuleIdentity × String))
    (module : ModuleDescriptor) : Except Status (List (ModuleIdentity × String)) :=
  let digest := contract.schemaDigest module.protoSchema
  match modules.lookup module.identity with
  | none =>
    if digest = "" then
      .error (.invalidArgument "module registration requires a protobuf schema")
    else .ok (upsertBy Prod.fst (module.identity, digest) modules)
  | some existing =>
    if digest = "" then .ok modules
    else if existing = "" then .ok (upsertBy Prod.fst (module.identity, digest) modules)
    else if existing ≠ digest then
      .error (.failedPrecondition "duplicate module registration has conflicting schemas")
    else .ok modules

def ExpectedEngine.moduleDigests (expected : ExpectedEngine) :
    Except Status (List (ModuleIdentity × String)) :=
  expected.modules.foldlM (fun modules (identity, digest) => do
    let key ← required identity (.internal "stored expected module identity missing")
    return upsertBy Prod.fst (key, digest) modules) []

def sameEntries (a b : List (ModuleIdentity × String)) : Bool :=
  a.all (b.contains ·) && b.all (a.contains ·)

def sortedSecrets (secrets : List SecretRequest) : List SecretRequest :=
  secrets.insertionSort fun a b =>
    a.nspace < b.nspace ∨ a.nspace = b.nspace ∧ a.key ≤ b.key

/-- The resources of a registration are exactly those of its slot. -/
def checkInventory (contract : Contract) (deployment : Deployment)
    (metadata : DeploymentMetadata) (reg : EngineRegistration) : Except Status PUnit := do
  let expected ← required
    (deployment.inventory.find? fun e => e.engineSlot = metadata.engineSlot)
    (.failedPrecondition "slot is not declared by deployment")
  let actualModules ← reg.modules.foldlM (addModule contract) []
  let expectedModules ← expected.moduleDigests
  ensure (sameEntries actualModules expectedModules = true ∧
      sortedSecrets reg.secrets = expected.secrets ∧
      reg.dbNamespaces.insertionSort (· ≤ ·) = expected.dbNamespaces ∧
      reg.jobQueueId = expected.jobQueueId ∧
      reg.jobAdminAddress = expected.jobAdminAddress)
    (.failedPrecondition
      "registration resources do not exactly match declared slot inventory")

/-- The secrets of a registration are ordinary ones and are stored. -/
def checkSecrets (c : Cluster) : List SecretRequest → Except Status PUnit
  | [] => .ok ⟨⟩
  | secret :: rest => do
      ensure ("__".toList.isPrefixOf secret.key.toList = false)
        (.invalidArgument "reserved secret key")
      ensure (c.secrets.contains secret = true)
        (.notFound ("missing secret: " ++ secret.nspace ++ "/" ++ secret.key))
      checkSecrets c rest

/-- The canonical prefix of an engine's default rules. -/
def enginePrefix (engineId : String) : String := engineId ++ "/"

def defaultRuleId (engineId : String) (identity : ModuleIdentity) : String :=
  enginePrefix engineId ++ identity.nspace ++ "/" ++ identity.name ++ "/" ++ identity.version

/-- One default rule per schema-bearing module, initially out of rotation. -/
def EngineRegistration.defaultRules (reg : EngineRegistration) : List RoutingRule :=
  let published := (reg.modules.filter (·.protoSchema ≠ [])).map (·.identity)
  published.eraseDups.map fun identity =>
    { ruleId := defaultRuleId reg.engineId identity
      sourceNamespace := ""
      sourceModule := ""
      destination := identity
      engineId := reg.engineId
      engineAddress := reg.address
      peerAddress := reg.peerAddress
      healthy := false }

def EngineRegistration.dropsRule (reg : EngineRegistration) (rule : RoutingRule) : Bool :=
  rule.engineId = reg.engineId ∧
    (enginePrefix reg.engineId).toList.isPrefixOf rule.ruleId.toList ∧
    rule.ruleId ∉ reg.defaultRules.map (·.ruleId)

def EngineRegistration.publishRules (reg : EngineRegistration) (rules : List RoutingRule) :
    List RoutingRule :=
  reg.defaultRules.foldl (fun rules rule => upsertBy (·.ruleId) rule rules) rules

def Cluster.withdrawOwner (c : Cluster) (owner : SlotOwner) : Cluster :=
  match owner.engineId with
  | none => c
  | some engineId =>
    { c.takeDown (RoutingRule.serves engineId) with
      heartbeats := c.heartbeats.filter (·.engineId ≠ engineId) }

def Cluster.publishRegistration (c : Cluster) (reg : EngineRegistration)
    (row : EngineRow) : Cluster :=
  let advertised := reg.modules.map (·.identity)
  let retained := c.heartbeats.filter fun m =>
    ¬(m.engineId = reg.engineId ∧ m.identity ∈ advertised)
  { c with
    engines := upsertBy EngineRow.engineId row c.engines
    rules := (reg.publishRules c.rules).filter (!reg.dropsRule ·)
    heartbeats := retained.filter fun m =>
      ¬(m.engineId = reg.engineId ∧ m.identity ∉ advertised) }

/-- A registered pending revision of the node becomes active. -/
def Node.activate (node : Node) (metadata : DeploymentMetadata) : Node :=
  { node with
    deployments := updateWhere
      (fun d => d.revision = metadata.revision ∧ d.bundleDigest = metadata.bundleDigest ∧
        d.state = .pending ∧ (node.currentRevision = d.revision ∨
          node.targetRevision = some d.revision))
      (fun d => { d with state := .active }) node.deployments }

def SlotOwner.assign (row : SlotOwner) (ownership : Ownership) (engineId : String)
    (generation : Nat) : SlotOwner :=
  { row with
    owner := some ownership
    engineId := some engineId
    slotGeneration := generation
    routeAuthority := true
    lifecycleAuthority := true }

def ownershipOf (metadata : DeploymentMetadata) (deployment : Deployment) (op : Operation)
    (activationId : Uuid) : Ownership :=
  ⟨op.operationId, metadata.revision, deployment.revisionDigest, activationId⟩

def registerEngineAndRoutes (contract : Contract) (c : Cluster) (now : Time)
    (reg : EngineRegistration) (activationId : Uuid) : Except Status (Cluster × Fence) := do
  let metadata ← required reg.deployment
    (.failedPrecondition "managed deployment metadata is required")
  ensure (metadata.revision ≤ i64Max) (.invalidArgument "deployment revision is too large")
  let node ← required (c.node? metadata.nodeId)
    (.internal "query returned an unexpected number of rows")
  let (deployment, op) ← desiredState contract node metadata
  checkInventory contract deployment metadata reg
  let owner ← required (c.owner? metadata.nodeId metadata.engineSlot)
    (.internal "query returned an unexpected number of rows")
  let ownership := ownershipOf metadata deployment op activationId
  let replay : Bool := owner.owner = some ownership
  let generation ← assignedSlotGeneration owner.slotGeneration replay
  ensure (generation ≠ 0) (.internal "manager attempted to assign zero slot generation")
  checkSecrets c reg.secrets
  let withdrawn := if replay then c else c.withdrawOwner owner
  let row : EngineRow :=
    { registration := reg
      operationId := op.operationId
      revisionDigest := deployment.revisionDigest
      activationId := activationId
      slotGeneration := generation
      lastHeartbeat := now
      draining := false }
  ensure (reg.defaultRules = [] ∨ reg.peerAddress ≠ "")
    (.internal "violates check constraint wr_routing_rules_peer_address_not_empty")
  let published := withdrawn.publishRegistration reg row
  -- Only the rules of this registration count, not those that were withdrawn.
  let versioned ← published.incrementIf
    (reg.defaultRules ≠ [] || (reg.publishRules withdrawn.rules).any reg.dropsRule)
  let activated := versioned.modifyNode metadata.nodeId (·.activate metadata)
  let owned := activated.modifyOwner metadata.nodeId metadata.engineSlot
    (·.assign ownership reg.engineId generation)
  return (owned,
    ⟨metadata.nodeId, metadata.engineSlot, deployment.revisionDigest, activationId,
      generation⟩)

def Fence.matchesOwner (fence : Fence) (engineId : String) (row : SlotOwner) : Bool :=
  row.nodeId = fence.nodeId ∧ row.engineSlot = fence.slot ∧
    (row.owner.any fun o => o.revisionDigest = fence.revisionDigest ∧
      o.activationId = fence.activationId) ∧
    row.engineId = some engineId ∧ row.slotGeneration = fence.slotGeneration ∧
    row.lifecycleAuthority = true

def requireOwnerFence (c : Cluster) (engineId : String) (fence : Fence) :
    Except Status PUnit := do
  ensure (fence.nodeId ≠ "" ∧ fence.slot ≠ "" ∧ fence.revisionDigest ≠ "" ∧
      fence.activationId ≠ "" ∧ fence.slotGeneration ≠ 0)
    (.permissionDenied "complete non-zero ownership fence is required")
  ensure (c.owners.any (fence.matchesOwner engineId) = true)
    (.permissionDenied "ownership fence is stale or mismatched")

def deregisterEngine (c : Cluster) (engineId : String) (fence : Fence) :
    Except Status Cluster := do
  requireOwnerFence c engineId fence
  let changed := c.rules.any (RoutingRule.serves engineId)
  let down := c.takeDown (RoutingRule.serves engineId)
  let released := down.modifyOwner fence.nodeId fence.slot fun row =>
    { row with routeAuthority := false, lifecycleAuthority := false }
  let removed := { released with
    engines := released.engines.filter (·.engineId ≠ engineId)
    heartbeats := released.heartbeats.filter (·.engineId ≠ engineId) }
  removed.incrementIf changed

def Cluster.recordHeartbeats (c : Cluster) (now : Time) (engineId : String)
    (modules : List ModuleIdentity) : Cluster :=
  { c with
    heartbeats := modules.foldl
      (fun rows identity => upsertBy (fun m => (m.engineId, m.identity))
        ⟨engineId, identity, now⟩ rows) c.heartbeats }

def publishEngineReadiness (c : Cluster) (now : Time) (engineId : String)
    (modules : List ModuleIdentity) (fence : Fence) : Except Status (Cluster × Nat) := do
  requireOwnerFence c engineId fence
  let engine ← required (c.engine? engineId)
    (.failedPrecondition ("engine " ++ engineId ++ " is not registered"))
  ensure (engine.draining = false)
    (.failedPrecondition ("engine " ++ engineId ++ " is draining"))
  let beaten := { c with
    engines := updateWhere (fun e => e.engineId = engineId)
      (fun e => { e with lastHeartbeat := now }) c.engines }
  let recorded := beaten.recordHeartbeats now engineId modules
  let recovers := fun rule : RoutingRule =>
    decide (rule.engineId = engineId) && !rule.healthy && modules.contains rule.destination
  if c.authoritative engine then
    let up := { recorded with
      rules := updateWhere recovers RoutingRule.up recorded.rules }
    let versioned ← up.incrementIf (recorded.rules.any recovers)
    return (versioned, versioned.version)
  else
    let versioned ← (recorded.takeDown (RoutingRule.serves engineId)).incrementIf
      (recorded.rules.any (RoutingRule.serves engineId))
    return (versioned, versioned.version)

def beginEngineDrain (c : Cluster) (engineId : String) (fence : Fence) :
    Except Status (Cluster × Nat) := do
  requireOwnerFence c engineId fence
  ensure (c.engines.any (fun e => e.engineId = engineId) = true)
    (.notFound ("engine " ++ engineId ++ " is not registered"))
  let draining := { c with
    engines := updateWhere (fun e => e.engineId = engineId)
      (fun e => { e with draining := true }) c.engines }
  let versioned ← (draining.takeDown (RoutingRule.serves engineId)).incrementIf
    (c.rules.any (RoutingRule.serves engineId))
  return (versioned, versioned.version)

/-- A fresh heartbeat of an engine that may serve, and one of the rule's module on it. -/
def Cluster.backed (c : Cluster) (now engineTimeout moduleTimeout : Time)
    (rule : RoutingRule) : Bool :=
  c.engines.any fun e => e.engineId = rule.engineId ∧ e.draining = false ∧
    c.authoritative e = true ∧ now ≤ e.lastHeartbeat + engineTimeout ∧
    c.heartbeats.any fun m => m.engineId = e.engineId ∧ m.identity = rule.destination ∧
      now ≤ m.lastHealthy + moduleTimeout

def updateRouteHealth (c : Cluster) (now engineTimeout moduleTimeout : Time) :
    Except Status (Cluster × List String × List String) := do
  let backed := c.backed now engineTimeout moduleTimeout
  let stale := fun rule : RoutingRule => rule.healthy && !backed rule
  let checked := updateWhere stale RoutingRule.down c.rules
  let recovered := fun rule : RoutingRule => !rule.healthy && backed rule
  let staleIds := (c.rules.filter stale).map (·.ruleId)
  let recoveredIds := (checked.filter recovered).map (·.ruleId)
  let versioned ← { c with rules := updateWhere recovered RoutingRule.up checked }.incrementIf
    (staleIds ≠ [] || recoveredIds ≠ [])
  return (versioned, staleIds, recoveredIds)

def upsertRoutingRule (c : Cluster) (rule : RoutingRule) : Except Status Cluster := do
  ensure (rule.peerAddress ≠ "")
    (.invalidArgument "routing rule peer_address must be non-empty")
  { c with rules := upsertBy (·.ruleId) rule c.rules }.incrementVersion

def deleteRoutingRule (c : Cluster) (ruleId : String) (expectedNamespace : Option String) :
    Except Status (Cluster × Bool) := do
  let selected := fun rule : RoutingRule => decide (rule.ruleId = ruleId) &&
    expectedNamespace.all (· = rule.destination.nspace)
  let versioned ← { c with rules := c.rules.filter (!selected ·) }.incrementIf
    (c.rules.any selected)
  return (versioned, c.rules.any selected)

structure RoutingTable where
  rules : List RoutingRule
  version : Nat

/-- `get_routing_table`: version and rules read in two states, without a transaction. -/
def getRoutingTable (atVersion atRules : Cluster) (knownVersion : Nat) :
    Option RoutingTable :=
  if knownVersion ≠ 0 ∧ knownVersion = atVersion.version then none
  else some ⟨atRules.rules, atVersion.version⟩

/-- A node's authority rows after a switch. A revision without deployment row, as 0, leaves the slot
without authority. -/
def Node.switch (node : Node) (slot : String) (revision : Revision) : Node :=
  let withdrawn := updateWhere (fun a => a.engineSlot = slot ∧ a.authoritative = true)
    (fun a => { a with authoritative := false }) node.authorities
  { node with
    authorities :=
      if 0 < revision ∧ node.deployments.any (·.revision = revision) then
        upsertBy (fun a => (a.engineSlot, a.revision)) ⟨slot, revision, true⟩ withdrawn
      else withdrawn }

/-- The rule belongs to an engine of the slot at another revision. -/
def Cluster.superseded (c : Cluster) (nodeId slot : String) (revision : Revision)
    (rule : RoutingRule) : Bool :=
  rule.healthy && c.engines.any fun e => e.engineId = rule.engineId ∧
    e.deployment.any fun m => m.nodeId = nodeId ∧ m.engineSlot = slot ∧ m.revision ≠ revision

def switchAuthority (c : Cluster) (nodeId slot : String) (revision : Revision) :
    Except Status Cluster :=
  let switched := c.modifyNode nodeId (·.switch slot revision)
  (switched.takeDown (c.superseded nodeId slot revision)).incrementIf
    (c.rules.any (c.superseded nodeId slot revision))

/-- The rows of `wr_nodes` and `wr_node_deployments` that a commit writes. -/
def Node.commit (node : Node) (revision : Revision) : Node :=
  { node with
    currentRevision :=
      if node.targetRevision = some revision then revision else node.currentRevision
    targetRevision := if node.targetRevision = some revision then none else node.targetRevision
    deployments := updateWhere
      (fun d => d.revision = revision ∧ (d.state = .pending ∨ d.state = .active))
      (fun d => { d with state := .succeeded }) node.deployments }

def commitOperation (c : Cluster) (nodeId : String) (revision : Revision) : Cluster :=
  c.modifyNode nodeId (·.commit revision)

/-- What other operation calls write to a node: deployments are added or updated, operations come
and go. -/
structure Plan where
  nodeId : String
  targetRevision : Option Revision
  deployments : List Deployment
  operations : List Operation
  slots : List String

def Node.plan (node : Node) (plan : Plan) : Node :=
  { node with
    targetRevision := plan.targetRevision
    deployments := plan.deployments.foldl
      (fun rows d => upsertBy (·.revision) d rows) node.deployments
    operations := plan.operations }

/-- A slot that is declared for the first time gets an owner row without owner. -/
def Cluster.declareSlot (c : Cluster) (nodeId slot : String) : Cluster :=
  if (c.owner? nodeId slot).isSome then c
  else { c with owners := c.owners ++ [.vacant nodeId slot] }

/-- Revisions are positive by the schema. -/
def planNode (c : Cluster) (plan : Plan) : Cluster :=
  if plan.deployments.all (0 < ·.revision) then
    let present := if (c.node? plan.nodeId).isSome then c
      else { c with nodes := c.nodes ++ [.fresh plan.nodeId] }
    let planned := present.modifyNode plan.nodeId (·.plan plan)
    plan.slots.foldl (fun c slot => c.declareSlot plan.nodeId slot) planned
  else c

end Wruntime.Routing
