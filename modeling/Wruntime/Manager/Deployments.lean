import Mathlib.Data.String.Basic
import Wruntime.Manager.State

/-!
Allocation of revisions: `begin_deployment`, `finalize_deployment`,
`abandon_deployment` and `begin_rollback`. At most one revision is staged on a
node; it is staged by an allocation and released by a commit or an abandon.
-/

namespace Wruntime.Manager

open Fallible Table

/-- From outside: the SHA-256 identities, and the checks of inventory entries that nothing here
reads. -/
structure DeploymentContract where
  checkEntries : DeploymentInventory → Except String PUnit
  revisionDigest : String → Revision → String → DeploymentInventory → Except String String
  deploymentOperationId : String → Except String String

def validToken (value : String) : Bool :=
  value ≠ "" ∧ value.utf8ByteSize ≤ 128 ∧
    value.toList.all fun c => c.isAlphanum || c == '-' || c == '_' || c == '.'

def ExpectedModule.sortKey (expected : ExpectedModule) : List String :=
  match expected.identity with
  | some identity =>
    [identity.nspace, identity.name, identity.version, expected.protoSchemaDigest]
  | none => [expected.protoSchemaDigest]

def canonicalizeInventory (contract : DeploymentContract)
    (inventory : DeploymentInventory) : Except String DeploymentInventory := do
  ensure (inventory.schemaVersion = 1) "deployment inventory schema_version must be 1"
  ensure (inventory.engines.length ≤ 1024)
    "deployment inventory engine count is out of range"
  ensure ((∀ slot ∈ inventory.slots, validToken slot = true) ∧ inventory.slots.Nodup)
    "engine slots must be unique URL-safe identities"
  contract.checkEntries inventory
  let engines := inventory.engines.map fun engine =>
    { engine with
      modules := engine.modules.insertionSort fun a b => a.sortKey ≤ b.sortKey }
  return { inventory with
    engines := engines.insertionSort fun a b => a.engineSlot ≤ b.engineSlot }

def Db.nextRevision (db : Db) : Revision :=
  (db.deployments.map (·.revision)).foldl max 0 + 1

def Db.deploymentByToken? (db : Db) (attemptToken : String) : Option Deployment :=
  db.deployments.find? fun d => d.attemptToken = attemptToken

def alreadyStaged (nodeId : String) (revision : Revision) : Status :=
  .failedPrecondition
    ("node '" ++ nodeId ++ "' already has staged target revision " ++ toString revision)

def Db.allocate (db : Db) (row : Deployment) : Db :=
  { db with
    nodePresent := true
    targetRevision := some row.revision
    deployments := db.deployments ++ [row] }

def beginDeployment (contract : DeploymentContract) (db : Db)
    (request : BeginDeploymentRequest) (actor : String) :
    Except Status (Db × Deployment) := do
  let requested ← required request.inventory
    (.invalidArgument "deployment inventory is required")
  let inventory ← (canonicalizeInventory contract requested).mapError .invalidArgument
  match db.deploymentByToken? request.attemptToken with
  | some existing =>
    ensure (existing.allocatedBy = actor ∧
        existing.bundleDigest = request.bundleDigest ∧
        existing.inventory = inventory ∧ existing.sourceRevision = 0)
      (.alreadyExists "attempt_token was already used with different deployment content")
    return (db, existing)
  | none =>
    match db.targetRevision with
    | some staged => .error (alreadyStaged request.nodeId staged)
    | none =>
      let revision := db.nextRevision
      let digest ← (contract.revisionDigest request.nodeId revision
        request.bundleDigest inventory).mapError .invalidArgument
      ensure (actor ≠ "") (.internal "database operation failed")
      let row : Deployment :=
        { revision := revision
          attemptToken := request.attemptToken
          bundleDigest := request.bundleDigest
          inventory := inventory
          revisionDigest := digest
          state := .pending
          failureDetail := ""
          sourceRevision := 0
          resolvedReleaseDigest := ""
          abandoned := false
          allocatedBy := actor
          operationId := none }
      return (db.allocate row, row)

def finalizeDeployment (db : Db) (request : FinalizeDeploymentRequest)
    (actor : String) : Except Status (Db × Deployment) := do
  ensure (request.revision ≤ i64Max)
    (.invalidArgument "deployment revision is too large")
  let row ← required
    (db.deployments.find? fun d =>
      d.attemptToken = request.attemptToken ∧ d.revision = request.revision)
    (.internal "database operation failed")
  ensure (row.allocatedBy = actor)
    (.permissionDenied "deployment allocation belongs to a different authenticated actor")
  ensure (row.bundleDigest = request.bundleDigest)
    (.alreadyExists
      "finalization source identity conflicts with the allocated deployment")
  ensure (row.abandoned = false) (.failedPrecondition "staged allocation was abandoned")
  ensure (row.resolvedReleaseDigest = "" ∨
      row.resolvedReleaseDigest = request.resolvedReleaseDigest)
    (.alreadyExists
      "deployment was already finalized with a different resolved release digest")
  if row.resolvedReleaseDigest = "" then
    ensure (row.operationId = none)
      (.failedPrecondition "submitted deployment cannot be finalized")
    -- The schema refuses a finalization without a resolved digest.
    ensure (request.resolvedReleaseDigest ≠ "") (.internal "database operation failed")
    let finalize := fun d : Deployment =>
      { d with resolvedReleaseDigest := request.resolvedReleaseDigest }
    return ({ db with
        deployments := updateWhere (fun d =>
          d.attemptToken = request.attemptToken ∧ d.revision = request.revision)
          finalize db.deployments }, finalize row)
  else
    return (db, row)

/-- Whether a revision already has a registration or serving authority. -/
def Db.hasEffect (db : Db) (revision : Revision) : Bool :=
  (db.engines.any fun engine => engine.deployment.any fun metadata =>
    metadata.nodeId = db.nodeId ∧ metadata.revision = revision) ||
  db.authoritative.any fun authority => authority.revision = revision

/-- Mark a revision as abandoned and release it if it is staged. -/
def Db.abandon (db : Db) (revision : Revision) : Db :=
  { db with
    deployments := updateWhere (fun d => d.revision = revision)
      (fun d => { d with
        state := .failed
        failureDetail := "staged allocation abandoned"
        abandoned := true }) db.deployments
    targetRevision := if db.targetRevision = some revision then none
      else db.targetRevision }

def abandonDeployment (db : Db) (attemptToken actor : String) :
    Except Status (Db × Deployment) := do
  let row ← required (db.deploymentByToken? attemptToken)
    (.notFound "staged allocation not found")
  ensure (row.allocatedBy = actor)
    (.permissionDenied "deployment allocation belongs to a different authenticated actor")
  if row.abandoned then
    return (db, row)
  else
    ensure (row.operationId = none)
      (.failedPrecondition "a submitted allocation must be cancelled through its operation")
    ensure (db.hasEffect row.revision = false)
      (.failedPrecondition
        "staged allocation has activation or authority evidence and cannot be abandoned")
    let abandoned := db.abandon row.revision
    let result ← required (abandoned.deployment? row.revision)
      (.internal "abandoned deployment remains present")
    return (abandoned, result)

/-- The prior success a rollback copies. Zero asks for the newest before the current revision. -/
def Db.rollbackSource (db : Db) (toRevision : Revision) : Option Deployment :=
  let candidates := db.deployments.filter fun d =>
    d.state = .succeeded ∧ d.revision < db.currentRevision
  if toRevision = 0 then
    candidates.foldl
      (fun best d => match best with
        | some b => if b.revision < d.revision then some d else some b
        | none => some d) none
  else
    candidates.find? fun d => d.revision = toRevision

def beginRollback (contract : DeploymentContract) (db : Db) (toRevision : Revision)
    (attemptToken actor : String) : Except Status (Db × Deployment) := do
  ensure (db.nodePresent = true)
    (.notFound ("node '" ++ db.nodeId ++ "' has no deployment history"))
  match db.deploymentByToken? attemptToken with
  | some existing =>
    ensure (existing.allocatedBy = actor ∧ existing.sourceRevision ≠ 0 ∧
        (toRevision = 0 ∨ existing.sourceRevision = toRevision))
      (.alreadyExists "attempt_token was already used for different deployment content")
    return (db, existing)
  | none =>
    match db.targetRevision with
    | some staged => .error (alreadyStaged db.nodeId staged)
    | none =>
      ensure (toRevision ≤ i64Max) (.invalidArgument "to_revision is too large")
      let selected ← required (db.rollbackSource toRevision)
        (.notFound "requested prior successful deployment snapshot not found")
      let revision := db.nextRevision
      let digest ← (contract.revisionDigest db.nodeId revision
        selected.bundleDigest selected.inventory).mapError .internal
      ensure (actor ≠ "") (.internal "database operation failed")
      let row : Deployment :=
        { revision := revision
          attemptToken := attemptToken
          bundleDigest := selected.bundleDigest
          inventory := selected.inventory
          revisionDigest := digest
          state := .pending
          failureDetail := ""
          sourceRevision := selected.revision
          resolvedReleaseDigest := ""
          abandoned := false
          allocatedBy := actor
          operationId := none }
      return (db.allocate row, row)

end Wruntime.Manager
