import Wruntime.Cleanup.Policy
import Wruntime.Manager.System

/-!
The cleanup of one node: the row of the deletion authority, the releases recorded as deleted and the
receipts of results. The manager's other calls fence the authority when they change what is
protected; a pass materializes an authority, the agent claims it, renews its lease and reports a
result.
-/

namespace Wruntime.Cleanup

open Fallible
open Manager (Db Revision Status Time seconds i64Max leaseSeconds attested)
open Wire (Bytes)

inductive CleanupState where
  | clean
  | needsReconcile
  | pending
  | claimed
  | paused
  deriving DecidableEq

/-- The columns that the schema fills exactly in the state `claimed`. -/
structure Claim where
  agentInstanceId : String
  claimedBy : String
  claimInstance : String
  leaseExpiresAt : Time
  deriving DecidableEq

/-- A row of `wr_node_release_cleanup`. The payload is stored with its digest. -/
structure Row where
  generation : Nat
  state : CleanupState
  protectionFingerprint : Bytes
  authority : Option Authority
  payloadDigest : Bytes
  knownInventory : Option (List Release)
  claim : Option Claim
  leaseEpoch : Nat
  nextReconcileAt : Option Time
  diagnosticCode : String
  diagnosticDetail : String
  deriving DecidableEq

def Row.fresh : Row where
  generation := 1
  state := .needsReconcile
  protectionFingerprint := []
  authority := none
  payloadDigest := []
  knownInventory := none
  claim := none
  leaseEpoch := 0
  nextReconcileAt := none
  diagnosticCode := ""
  diagnosticDetail := ""

/-- A row of `wr_node_release_deletions`. -/
structure Deletion where
  release : Release
  cleanupGeneration : Nat

structure ReportNodeCleanupResultRequest where
  agentInstanceId : String
  generation : Nat
  leaseEpoch : Nat
  claimInstance : String
  payloadDigest : Bytes
  deletedReleases : List Release
  resultingInventory : List Release
  conditionCode : String
  detail : String
  deriving DecidableEq

/-- A row of `wr_node_release_cleanup_result_receipts`, keyed by its request. -/
structure Receipt where
  authenticatedPrincipal : String
  result : ReportNodeCleanupResultRequest
  deriving DecidableEq

/-- The database of one node with its cleanup tables. -/
structure World where
  db : Db
  cleanup : Option Row
  deletions : List Deletion
  receipts : List Receipt

def World.initial (nodeId : String) : World := ⟨Db.empty nodeId, none, [], []⟩

def World.deleted (w : World) : List Revision := w.deletions.map (·.release.revision)

def Row.supersede (row : Row) : Row :=
  { row with
    generation := row.generation + 1
    state := .needsReconcile
    authority := none
    payloadDigest := []
    claim := none }

/-- `fence_cleanup_authority`. -/
def Row.fence (row : Row) (now : Time) : Row :=
  { row.supersede with
    nextReconcileAt := some now
    diagnosticCode := ""
    diagnosticDetail := "" }

def World.fence (w : World) (now : Time) (passes : Nat) : World :=
  { w with cleanup := w.cleanup.map fun row => (Row.fence · now)^[passes] row }

/-- The part of an agent policy whose change fences; the retention count is not
in it. -/
def policyChanged (prior policy : Manager.AgentPolicy) : Prop :=
  prior.protocolVersion ≠ policy.protocolVersion ∨ prior.binaryDigest ≠ policy.binaryDigest ∨
    prior.capabilities ≠ policy.capabilities

instance (prior policy : Manager.AgentPolicy) : Decidable (policyChanged prior policy) := by
  unfold policyChanged
  infer_instance

/-- The fences passed by a call that turned `db` into `db'`: none for a replay, `moved` for one that
moves an operation, one for every changed observation, switched slot and commit. -/
def fencesOf (call : Manager.Call) (db db' : Db) (moved : Nat) : Nat :=
  match call with
  | .beginDeployment _ _ | .finalizeDeployment _ _ | .abandonDeployment _ _ | .submit _ _ _ =>
    if db' = db then 0 else 1
  | .putAgentPolicy _ =>
    if ∃ prior ∈ db.agentPolicy, ∃ policy ∈ db'.agentPolicy, policyChanged prior policy then 1
    else 0
  | .claim _ _ | .reportObservation _ _ _ | .reportStep _ _ | .resume _ | .cancel _ => moved
  | _ => 0

def reconcileSeconds : Nat := 30

def Row.due (row : Row) (now : Time) : Bool :=
  row.state = .needsReconcile ||
    (row.state ≠ .paused && row.nextReconcileAt.all (· ≤ now))

def Row.candidates (row : Row) (policy : CleanupPolicySnapshot) : List Release :=
  (row.knownInventory.getD []).filter (· ∈ policy.delete)

def Row.materialize (contract : Contract) (row : Row) (policy : CleanupPolicySnapshot)
    (now : Time) : Row :=
  if row.knownInventory.isSome ∧ row.candidates policy = [] then
    { row with
      state := .clean
      protectionFingerprint := policy.fingerprint
      authority := none
      payloadDigest := []
      nextReconcileAt := some (now + seconds reconcileSeconds)
      diagnosticCode := ""
      diagnosticDetail := "" }
  else
    let authority : Authority := ⟨row.candidates policy, row.knownInventory.getD []⟩
    { row with
      state := .pending
      protectionFingerprint := policy.fingerprint
      authority := some authority
      payloadDigest := contract.sha256 authority.encode
      claim := none
      nextReconcileAt := some (now + seconds reconcileSeconds)
      diagnosticCode := ""
      diagnosticDetail := "" }

def Row.leaseExpired (row : Row) (clock : Time) : Bool :=
  row.state = .claimed && row.claim.all (·.leaseExpiresAt ≤ clock)

/-- One row of `reconcile_node_cleanup_batch`, which computed `policy` statement by statement. -/
def reconcileRow (contract : Contract) (row : Row) (policy : Except Status CleanupPolicySnapshot)
    (now clock : Time) : Except Status Row :=
  match policy with
  | .error status => do
    -- The schema refuses a claimed row that leaves the state with its claim.
    ensure (row.claim = none) (.internal "database operation failed")
    return { row with
      state := .paused
      diagnosticCode := "POLICY_QUERY_FAILED"
      diagnosticDetail := status.message
      nextReconcileAt := some (now + seconds reconcileSeconds) }
  | .ok policy =>
    if row.state ≠ .needsReconcile ∧
        (row.protectionFingerprint ≠ policy.fingerprint ∨ row.leaseExpired clock = true) then
      return row.supersede.materialize contract policy now
    else if row.state = .pending ∨ row.state = .claimed then
      return { row with nextReconcileAt := some (now + seconds reconcileSeconds) }
    else
      return row.materialize contract policy now

/-- A pass over the node. `seen` and `seenDeleted` are what its statements returned: at READ
COMMITTED they need not be of one state. -/
def reconcileNodeCleanup (contract : Contract) (w : World) (now clock : Time) (seen : Db)
    (seenDeleted : List Revision) : Except Status World := do
  let row := w.cleanup.or (if w.db.nodePresent then some Row.fresh else none)
  match row with
  | none => return w
  | some row =>
    if row.due now then
      let row' ← reconcileRow contract row (managerCleanupPolicy contract seen seenDeleted) now clock
      return { w with cleanup := some row' }
    else
      return { w with cleanup := some row }

structure NodeCleanupInstruction where
  agentInstanceId : String
  generation : Nat
  leaseEpoch : Nat
  claimInstance : String
  payloadDigest : Bytes
  deleteReleases : List Release
  expectedInventory : List Release
  deriving DecidableEq

def Row.claimable (row : Row) (clock : Time) (agentInstanceId principal : String) : Bool :=
  row.state = .pending ||
    (row.state = .claimed && row.claim.any fun claim =>
      claim.agentInstanceId = agentInstanceId && claim.claimedBy = principal &&
        decide (clock < claim.leaseExpiresAt))

def Row.takeClaim (row : Row) (now : Time) (agentInstanceId principal freshClaim : String) : Row :=
  let held := row.state = .claimed
  { row with
    state := .claimed
    claim := some {
      agentInstanceId
      claimedBy := principal
      claimInstance := if held then (row.claim.map (·.claimInstance)).getD "" else freshClaim
      leaseExpiresAt := now + seconds leaseSeconds }
    leaseEpoch := if held then row.leaseEpoch else row.leaseEpoch + 1 }

def Row.instruction (row : Row) : Option NodeCleanupInstruction :=
  match row.authority, row.claim with
  | some authority, some claim => some {
      agentInstanceId := claim.agentInstanceId
      generation := row.generation
      leaseEpoch := row.leaseEpoch
      claimInstance := claim.claimInstance
      payloadDigest := row.payloadDigest
      deleteReleases := authority.deleteReleases
      expectedInventory := authority.knownInventory }
  | _, _ => none

def claimNodeCleanup (contract : Contract) (w : World) (now clock : Time)
    (agentInstanceId principal freshClaim : String) :
    Except Status (World × Option NodeCleanupInstruction) := do
  ensure (w.db.nodeId ≠ "" ∧ agentInstanceId ≠ "")
    (.invalidArgument "node_id and agent_instance_id are required")
  ensure (attested w.db now agentInstanceId principal = true)
    (.failedPrecondition "fresh authenticated node-agent attestation is required")
  match w.cleanup with
  | none => return (w, none)
  | some row =>
    if row.claimable clock agentInstanceId principal then
      let policy ← managerCleanupPolicy contract w.db w.deleted
      if policy.fingerprint ≠ row.protectionFingerprint then
        return (w.fence now 1, none)
      else
        let _ ← required row.authority (.internal "pending cleanup authority is missing")
        let row' := row.takeClaim now agentInstanceId principal freshClaim
        return ({ w with cleanup := some row' }, row'.instruction)
    else
      return (w, none)

structure RenewNodeCleanupLeaseRequest where
  agentInstanceId : String
  generation : Nat
  leaseEpoch : Nat
  claimInstance : String
  deriving DecidableEq

/-- The claim that a request names, whose lease runs at `clock`. -/
def Row.heldBy (row : Row) (clock : Time) (request : RenewNodeCleanupLeaseRequest)
    (principal : String) : Bool :=
  row.generation = request.generation && row.state = .claimed &&
    row.leaseEpoch = request.leaseEpoch && row.claim.any fun claim =>
      claim.claimInstance = request.claimInstance &&
        claim.agentInstanceId = request.agentInstanceId && claim.claimedBy = principal &&
        decide (clock < claim.leaseExpiresAt)

/-- `renew_node_cleanup`: the new expiry, or `none` if the claim is superseded. -/
def renewNodeCleanup (w : World) (now : Time) (request : RenewNodeCleanupLeaseRequest)
    (principal : String) : Except Status (World × Option Time) := do
  ensure (request.generation ≤ i64Max) (.invalidArgument "generation is too large")
  ensure (request.leaseEpoch ≤ i64Max) (.invalidArgument "lease epoch is too large")
  match w.cleanup with
  | none => return (w, none)
  | some row =>
    if row.heldBy now request principal then
      let expiresAt := now + seconds leaseSeconds
      let row' := { row with
        claim := row.claim.map fun claim => { claim with leaseExpiresAt := expiresAt } }
      return ({ w with cleanup := some row' }, some expiresAt)
    else
      return (w, none)

def invalidIdentity : Status :=
  .failedPrecondition "cleanup result contains invalid or duplicate release identity"

/-- `canonical_releases`: the list itself once its revisions are distinct and its digests
present. -/
def canonicalReleases (values : List Release) : Except Status (List Release) := do
  ensure ((∀ r ∈ values, r.revision ≠ 0 ∧ r.bundleDigest ≠ "" ∧ r.resolvedReleaseDigest ≠ "") ∧
    (values.map (·.revision)).Nodup) invalidIdentity
  return values

def sameReleases (a b : List Release) : Prop := ∀ r, r ∈ a ↔ r ∈ b

instance (a b : List Release) : Decidable (sameReleases a b) :=
  decidable_of_iff ((∀ r ∈ a, r ∈ b) ∧ ∀ r ∈ b, r ∈ a)
    ⟨fun h r => ⟨h.1 r, h.2 r⟩, fun h => ⟨fun r => (h r).mp, fun r => (h r).mpr⟩⟩

inductive NodeCleanupResultDisposition where
  | accepted
  | superseded
  deriving DecidableEq

def ReportNodeCleanupResultRequest.claimRequest (request : ReportNodeCleanupResultRequest) :
    RenewNodeCleanupLeaseRequest :=
  ⟨request.agentInstanceId, request.generation, request.leaseEpoch, request.claimInstance⟩

def World.receipt? (w : World) (request : ReportNodeCleanupResultRequest) : Option Receipt :=
  w.receipts.find? fun receipt => receipt.result.claimRequest = request.claimRequest

def checkResult (contract : Contract) (w : World) (authority : Authority)
    (request : ReportNodeCleanupResultRequest) : Except Status Unit := do
  let deleted ← canonicalReleases request.deletedReleases
  let issued ← canonicalReleases authority.deleteReleases
  ensure (sameReleases deleted issued)
    (.failedPrecondition "deleted releases do not exactly match issued authority")
  let resulting ← canonicalReleases request.resultingInventory
  if authority.knownInventory = [] then
    let policy ← managerCleanupPolicy contract w.db w.deleted
    let catalog ← canonicalReleases policy.known
    ensure (∀ r ∈ resulting, r ∈ catalog)
      (.failedPrecondition "complete inventory contains an unknown release identity")
  else
    let known ← canonicalReleases authority.knownInventory
    let expected := known.filter fun r => r.revision ∉ issued.map (·.revision)
    ensure (sameReleases resulting expected)
      (.failedPrecondition
        "resulting inventory does not equal issued inventory minus authorized deletions")

/-- `INSERT ... ON CONFLICT (node_id, revision) DO NOTHING`, for each release. -/
def recordDeletions (deletions : List Deletion) (releases : List Release) (generation : Nat) :
    List Deletion :=
  releases.foldl (fun rows r =>
    if r.revision ∈ rows.map (·.release.revision) then rows else rows ++ [⟨r, generation⟩])
    deletions

def Row.cleaned (row : Row) (inventory : List Release) : Row :=
  { row with
    state := .clean
    knownInventory := some inventory
    authority := none
    payloadDigest := []
    claim := none
    diagnosticCode := ""
    diagnosticDetail := "" }

def Row.pause (row : Row) (code detail : String) : Row :=
  { row with
    state := .paused
    claim := none
    diagnosticCode := code
    diagnosticDetail := detail }

def reportNodeCleanupResult (contract : Contract) (w : World) (clock : Time)
    (request : ReportNodeCleanupResultRequest) (principal : String) :
    Except Status (World × NodeCleanupResultDisposition) := do
  ensure (request.generation ≤ i64Max) (.invalidArgument "generation is too large")
  ensure (request.leaseEpoch ≤ i64Max) (.invalidArgument "lease epoch is too large")
  match w.receipt? request with
  | some receipt =>
    ensure (receipt = ⟨principal, request⟩)
      (.aborted "cleanup result retry conflicts with stored receipt")
    ensure w.cleanup.isSome (.internal "database operation failed")
    return (w, .accepted)
  | none =>
    let row ← required w.cleanup (.notFound "node cleanup state not found")
    if row.heldBy clock request.claimRequest principal then
      ensure (row.payloadDigest = request.payloadDigest)
        (.failedPrecondition "cleanup payload digest does not match issued authority")
      let authority ← required row.authority (.internal "claimed authority")
      let receipts := w.receipts ++ [⟨principal, request⟩]
      if request.conditionCode = "" then
        checkResult contract w authority request
        return ({ w with
          cleanup := some (row.cleaned request.resultingInventory)
          deletions := recordDeletions w.deletions request.deletedReleases request.generation
          receipts }, .accepted)
      else
        return ({ w with
          cleanup := some (row.pause request.conditionCode request.detail)
          receipts }, .accepted)
    else
      return (w, .superseded)

def retryNodeCleanup (w : World) (now : Time) (observedGeneration : Nat) :
    Except Status (World × Row) := do
  ensure (observedGeneration ≤ i64Max) (.invalidArgument "observed generation is too large")
  let row ← required (w.cleanup.filter fun row =>
      row.generation = observedGeneration && row.state = .paused)
    (.failedPrecondition "cleanup generation changed or is not paused")
  return ({ w with cleanup := some (row.fence now) }, row.fence now)

end Wruntime.Cleanup
