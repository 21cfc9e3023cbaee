import Wruntime.Manager.State

/-!
Evidence checks over one snapshot: which observation an operation may use, whether a slot's routes
are healthy, and whether stopping a slot keeps the node within its rollout policy. All are pure
reads of a `Db` at a time.
-/

namespace Wruntime.Manager

open Fallible

def evidenceFreshSeconds : Nat := 15

/-- A stored observation as `observations_from_client` returns it: an old one loses its backend
state and lifecycle. The source reads the clock of the manager's host here, the model has one
clock for the transaction. -/
def SlotObservation.fromClient (observation : SlotObservation) (now : Time) :
    SlotObservation :=
  let stale := (now - observation.observedAt) / seconds 1 > evidenceFreshSeconds
  { observation with
    lifecycle := if stale then none else observation.lifecycle
    backendState := if stale then .unspecified else observation.backendState }

def Db.snapshotObservations (db : Db) (now : Time) : List SlotObservation :=
  db.observations.map (·.fromClient now)

def observationIsFresh (now : Time) (observation : SlotObservation) : Bool :=
  now - observation.observedAt ≤ seconds evidenceFreshSeconds

def observationAfterDelivery (observation : SlotObservation)
    (deliveredAt : Option Time) : Bool :=
  match deliveredAt with
  | some delivered => delivered < observation.observedAt
  | none => false

/-- The activation recorded on the operation, empty when there is no lease. -/
def Operation.agentInstanceId (op : Operation) : String :=
  (op.lease.map (·.agentInstanceId)).getD ""

/-- The fresh observation of `slot` accepted under the operation's current lease. -/
def matchingObservation (db : Db) (now : Time) (op : Operation) (slot : String) :
    Option SlotObservation :=
  (db.snapshotObservations now).find? fun observation =>
    observation.engineSlot = slot ∧
    observation.operationId = op.operationId ∧
    observation.agentInstanceId = op.agentInstanceId ∧
    observation.leaseEpoch = op.leaseEpoch ∧
    observationIsFresh now observation

structure ReadyExpectation where
  serviceKind : ServiceKind
  revision : Revision
  digest : String
  previousBackend : String
  previousProcess : String
  reportedBackend : String
  reportedProcess : String

def observationReady (now : Time) (observation : SlotObservation)
    (expected : ReadyExpectation) : Bool :=
  observationIsFresh now observation &&
  observation.backendState = .running &&
  observation.backendInstanceId ≠ "" &&
  observation.backendQueryError = "" &&
  observation.observedRevision = expected.revision &&
  observation.observedDigest = expected.digest &&
  (expected.previousBackend = "" ||
    observation.backendInstanceId ≠ expected.previousBackend) &&
  (expected.reportedBackend = "" ||
    observation.backendInstanceId = expected.reportedBackend) &&
  observation.lifecycle.any fun status =>
    status.state = .ready &&
    status.serviceKind = expected.serviceKind &&
    status.processInstanceId ≠ "" &&
    (expected.previousProcess = "" ||
      status.processInstanceId ≠ expected.previousProcess) &&
    (expected.reportedProcess = "" ||
      status.processInstanceId = expected.reportedProcess)

def EngineRecord.isForSlot (engine : EngineRecord) (nodeId slot : String) : Bool :=
  engine.deployment.any fun metadata =>
    metadata.nodeId = nodeId ∧ metadata.engineSlot = slot

def EngineRecord.isForSlotRevision (engine : EngineRecord) (nodeId slot : String)
    (revision : Revision) : Bool :=
  engine.deployment.any fun metadata =>
    metadata.nodeId = nodeId ∧ metadata.engineSlot = slot ∧
    metadata.revision = revision

def exactRegistrationCount (db : Db) (now : Time) (slot : String)
    (revision : Revision) (digest : String) : Nat :=
  (db.engines.filter fun engine =>
    (engine.deployment.any fun metadata =>
      metadata.nodeId = db.nodeId ∧ metadata.engineSlot = slot ∧
      metadata.revision = revision ∧ metadata.bundleDigest = digest) &&
    now - engine.lastHeartbeat ≤ seconds evidenceFreshSeconds).length

def exactRegistrationAbsent (db : Db) (slot : String) (revision : Revision) : Bool :=
  !db.engines.any fun engine => engine.isForSlotRevision db.nodeId slot revision

/-- Whole milliseconds against the timeout, as `fresh` in the status verifier. -/
def fresh (observedAt timestamp : Time) (timeoutSeconds : Nat) : Bool :=
  (observedAt - timestamp) / 1000 ≤ timeoutSeconds * 1000

abbrev Condition := String × String

def Revision.debugOption : Option Revision → String
  | none => "None"
  | some revision => "Some(" ++ toString revision ++ ")"

def moduleText (identity : ModuleIdentity) : String :=
  identity.nspace ++ "." ++ identity.name ++ "@" ++ identity.version

def moduleConditions (db : Db) (now : Time) (slot : String) (engine : EngineRecord)
    (timeoutSeconds : Nat) (expected : ExpectedModule) : List Condition :=
  match expected.identity with
  | none => [("INVALID_INVENTORY", "expected module identity is missing")]
  | some identity =>
    if !engine.modules.contains identity then
      [("MISSING_MODULE",
        "engine slot '" ++ slot ++ "' does not advertise " ++ moduleText identity)]
    else match db.moduleHeartbeats.find? fun heartbeat =>
        heartbeat.engineId = engine.engineId ∧ heartbeat.identity = identity with
      | none =>
        [("MISSING_MODULE_HEARTBEAT",
          "engine slot '" ++ slot ++ "' module " ++ moduleText identity ++
            " has no heartbeat")]
      | some heartbeat =>
        if !fresh now heartbeat.lastHealthy timeoutSeconds then
          [("STALE_MODULE_HEARTBEAT",
            "engine slot '" ++ slot ++ "' module " ++ moduleText identity ++
              " is not fresh")]
        else
          let ruleId := engine.engineId ++ "/" ++ identity.nspace ++ "/" ++
            identity.name ++ "/" ++ identity.version
          match db.routes.find? fun route =>
              route.ruleId = ruleId ∧ route.engineId = engine.engineId ∧
              route.destination = identity with
          | none =>
            [("MISSING_ROUTE",
              "engine slot '" ++ slot ++ "' module " ++ moduleText identity ++
                " has no default route")]
          | some route =>
            if !route.healthy then
              [("UNHEALTHY_ROUTE",
                "engine slot '" ++ slot ++ "' module " ++ moduleText identity ++
                  " default route is unhealthy")]
            else []

def engineConditions (db : Db) (now : Time) (deployment : Deployment)
    (engineTimeout moduleTimeout : Nat) (expected : ExpectedEngine) : List Condition :=
  let slot := expected.engineSlot
  let sameSlot := db.engines.filter (·.isForSlot db.nodeId slot)
  let exactEngines := sameSlot.filter fun engine =>
    engine.deployment.any fun metadata =>
      metadata.revision = deployment.revision ∧
      metadata.bundleDigest = deployment.bundleDigest
  if exactEngines.isEmpty then
    let code :=
      if sameSlot.isEmpty then "MISSING_ENGINE"
      else if sameSlot.any fun engine =>
          engine.deployment.any fun metadata =>
            metadata.revision ≠ deployment.revision then "REVISION_MISMATCH"
      else "DIGEST_MISMATCH"
    [(code, "engine slot '" ++ slot ++ "' has no matching activated registration")]
  else match exactEngines.filter fun engine =>
      fresh now engine.lastHeartbeat engineTimeout with
    | [] =>
      [("STALE_ENGINE_HEARTBEAT",
        "engine slot '" ++ slot ++ "' has no fresh matching registration")]
    | [engine] =>
      expected.modules.flatMap (moduleConditions db now slot engine moduleTimeout)
    | freshEngines =>
      [("DUPLICATE_ENGINE_SLOT",
        "engine slot '" ++ slot ++ "' has " ++ toString freshEngines.length ++
          " fresh matching registrations")]

def Condition.before (a b : Condition) : Prop :=
  a.1 < b.1 ∨ a.1 = b.1 ∧ a.2 ≤ b.2

instance : DecidableRel Condition.before := fun a b =>
  inferInstanceAs (Decidable (a.1 < b.1 ∨ a.1 = b.1 ∧ a.2 ≤ b.2))

def deploymentConditionsFromSnapshot (db : Db) (now : Time) (deployment : Deployment)
    (engineTimeout moduleTimeout : Nat) : Except Status (List Condition) := do
  ensure (db.deployments ≠ []) (.notFound ("node '" ++ db.nodeId ++ "' not found"))
  if db.currentRevision ≠ deployment.revision ∧
      db.targetRevision ≠ some deployment.revision then
    return [("NON_AUTHORITATIVE_REVISION",
      "revision " ++ toString deployment.revision ++
        " is neither committed revision " ++ toString db.currentRevision ++
        " nor staged target " ++ Revision.debugOption db.targetRevision)]
  else
    return (deployment.inventory.engines.flatMap
      (engineConditions db now deployment engineTimeout moduleTimeout)).insertionSort
        Condition.before

/-- `slot_routes_healthy`: the slot's engine of that revision has no condition, and no other
revision has the slot's authority. -/
def slotRoutesHealthy (db : Db) (now : Time) (slot : String) (revision : Revision)
    (digest : String) : Except Status Bool := do
  match db.deployments.find? fun candidate =>
      candidate.revision = revision ∧ candidate.bundleDigest = digest with
  | none => return false
  | some candidate =>
    let engines := candidate.inventory.engines.filter fun expected =>
      expected.engineSlot = slot
    if engines.length ≠ 1 then return false
    else if (db.authoritative.find? fun a => a.engineSlot = slot).any fun authority =>
        authority.revision ≠ revision then return false
    else
      let deployment :=
        { candidate with inventory := { candidate.inventory with engines := engines } }
      let conditions ← deploymentConditionsFromSnapshot db now deployment
        evidenceFreshSeconds evidenceFreshSeconds
      return conditions.isEmpty

def oldRoutesNonServing (db : Db) (slot : String) (revision : Revision) : Bool :=
  let oldEngines := db.engines.filter (·.isForSlotRevision db.nodeId slot revision)
  (db.routes.filter fun route =>
    oldEngines.any fun engine => engine.engineId = route.engineId).all (!·.healthy)

/-- A slot with the revision and bundle digest that are authoritative for it. -/
structure AuthoritativeSlot where
  engineSlot : String
  revision : Revision
  digest : String

/-- The authoritative slots now: those of the committed inventory, overridden by the operation's
targets. -/
def authoritativeSlots (db : Db) (op : Operation) : List AuthoritativeSlot :=
  let committed := match db.deployment? db.currentRevision with
    | none => []
    | some current => current.inventory.engines.foldl
        (fun slots expected => Table.upsertBy AuthoritativeSlot.engineSlot
          ⟨expected.engineSlot, current.revision, current.bundleDigest⟩ slots) []
  op.engines.foldl
    (fun slots candidate =>
      if candidate.authoritativeRevision = 0 then
        slots.filter fun slot => slot.engineSlot ≠ candidate.engineSlot
      else
        let digest :=
          if candidate.authoritativeRevision = candidate.progress.sourceRevision
          then candidate.progress.sourceDigest else candidate.progress.targetDigest
        Table.upsertBy AuthoritativeSlot.engineSlot
          ⟨candidate.engineSlot, candidate.authoritativeRevision, digest⟩ slots)
    committed

/-- `stop_preserves_availability`: counting `slot` as unavailable, at most
`max_unavailable` authoritative slots are not healthy, and one is left unless
downtime is allowed. -/
def stopPreservesAvailability (db : Db) (now : Time) (op : Operation) (slot : String)
    (policy : RolloutPolicy) : Except Status Bool := do
  let authoritative := authoritativeSlots db op
  let health ← authoritative.mapM fun candidate => do
    let healthy ← slotRoutesHealthy db now candidate.engineSlot candidate.revision
      candidate.digest
    return (candidate.engineSlot, healthy)
  let healthy := (health.filter (·.2)).length
  let selectedSlotHealthy := health.any fun entry => entry.1 = slot ∧ entry.2
  let projectedHealthy := healthy - (if selectedSlotHealthy then 1 else 0)
  let unavailable := authoritative.length - projectedHealthy
  return (policy.allowDowntime || projectedHealthy > 0) &&
    unavailable ≤ policy.maxUnavailable

end Wruntime.Manager
