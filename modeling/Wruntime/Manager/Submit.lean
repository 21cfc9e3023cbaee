import Mathlib.Data.List.Dedup
import Wruntime.Manager.Deployments
import Wruntime.Manager.Transitions

/-!
Submission of operations. An operation snapshots the source and target of every affected slot,
derives the transitions from the two inventories and fixes the rollout order; none of it changes
afterwards.
-/

namespace Wruntime.Manager

open Fallible Table

def noRelease : ReleaseIdentity := ⟨0, "", ""⟩

def deploymentInventory (db : Db) (revision : Revision) :
    Except Status (ReleaseIdentity × List String) :=
  if revision = 0 then .ok (noRelease, [])
  else do
    let row ← required (db.deployment? revision)
      (.failedPrecondition "deployment snapshot is missing")
    return (⟨revision, row.bundleDigest, row.resolvedReleaseDigest⟩, row.inventory.slots)

def defaultPolicy (action : NodeOperationAction) : RolloutPolicy where
  maxUnavailable := 1
  allowDowntime := false
  deadlineSeconds := if action = .restart then 300 else 1800

/-- Sorted slots without repetition: `sort` followed by `dedup`. -/
def sortedSlots (slots : List String) : List String :=
  slots.dedup.insertionSort (· ≤ ·)

/-- What an operation does: the release it leaves and the one it goes to, with
the slots of each. -/
structure Rollout where
  action : NodeOperationAction
  source : ReleaseIdentity
  sourceSlots : List String
  target : ReleaseIdentity
  targetSlots : List String

namespace Rollout

def slotSource (rollout : Rollout) (slot : String) : ReleaseIdentity :=
  if slot ∈ rollout.sourceSlots then rollout.source else noRelease

def slotTarget (rollout : Rollout) (slot : String) : ReleaseIdentity :=
  if rollout.action.isDeployment then
    if slot ∈ rollout.targetSlots then rollout.target else noRelease
  else rollout.source

def transition (rollout : Rollout) (slot : String) : DerivedTransition :=
  if rollout.action = .restart then .restart
  else deriveTransition (rollout.slotSource slot) (rollout.slotTarget slot)

def slots (rollout : Rollout) : List String :=
  if rollout.action.isDeployment then
    sortedSlots (rollout.sourceSlots ++ rollout.targetSlots)
  else sortedSlots rollout.targetSlots

def affectedSlots (rollout : Rollout) : Nat :=
  if rollout.action = .restart then rollout.slots.length
  else (rollout.slots.filter fun slot => rollout.transition slot ≠ .unchanged).length

end Rollout

/-- New capacity first, retained slots next, removals last. -/
def DerivedTransition.group : DerivedTransition → Nat
  | .addition => 0
  | .replacement | .unchanged | .restart => 1
  | .removal => 2

/-- The sort key `(group, slot)` of the rollout order. -/
def Rollout.before (rollout : Rollout) (a b : String) : Prop :=
  (rollout.transition a).group < (rollout.transition b).group ∨
    (rollout.transition a).group = (rollout.transition b).group ∧ a ≤ b

instance (rollout : Rollout) : DecidableRel rollout.before := fun a b =>
  inferInstanceAs (Decidable (_ < _ ∨ _ = _ ∧ a ≤ b))

def Rollout.orderedSlots (rollout : Rollout) : List String :=
  rollout.slots.insertionSort rollout.before

def initialProgress (nextStep : NodeOperationStepKind)
    (source target : ReleaseIdentity) : TargetProgress where
  nextStep := nextStep
  completedSteps := 0
  conditionCode := ""
  conditionDetail := ""
  sourceRevision := source.revision
  sourceDigest := source.digest
  sourceResolvedDigest := source.resolvedDigest
  targetRevision := target.revision
  targetDigest := target.digest
  targetResolvedDigest := target.resolvedDigest
  pinnedBackendInstanceId := ""
  pinnedProcessInstanceId := ""
  changed := false
  effectAmbiguous := false
  effectDeliveredAt := none
  effectReported := false
  effectObservedRevision := 0
  effectObservedDigest := ""
  effectObservedResolvedDigest := ""
  effectBackendInstanceId := ""
  effectProcessInstanceId := ""
  effectConditionCode := ""
  effectDetail := ""
  effectTerminationEvidence := none

def Rollout.engineTarget (rollout : Rollout) (slot : String) (rolloutOrder : Nat) :
    EngineTarget :=
  let transition := rollout.transition slot
  let first := firstForwardStep transition
  { engineSlot := slot
    rolloutOrder := rolloutOrder
    transition := transition
    authoritativeRevision := (rollout.slotSource slot).revision
    authoritySwitched := false
    servingConverged := first.isNone
    progress := initialProgress (storedStep first) (rollout.slotSource slot)
      (rollout.slotTarget slot) }

def Rollout.engineTargets (rollout : Rollout) : List EngineTarget :=
  rollout.orderedSlots.mapIdx fun index slot => rollout.engineTarget slot index

/-- The first proxy step: a committed source is proven before it is stopped. -/
def Rollout.proxyFirst (rollout : Rollout) : NodeOperationStepKind :=
  if rollout.action.isDeployment then
    if rollout.source.revision > 0 then .verifyTarget else .selectRelease
  else .unspecified

/-- The columns of a new operation row that both kinds of insertion share. -/
def newOperation (id actor : String) (request : SubmitOperationRequest)
    (policy : RolloutPolicy) (now : Time) (sourceRevision : Revision)
    (proxy : TargetProgress) (engines : List EngineTarget) : Operation where
  operationId := id
  requestToken := request.requestToken
  actor := actor
  action := request.action
  state := .queued
  phase := .forward
  requestPayload := request
  policy := policy
  sourceRevision := sourceRevision
  targetRevision := request.targetRevision
  bundleDigest := request.bundleDigest
  resolvedReleaseDigest := request.resolvedReleaseDigest
  targetRevisionDigest := none
  committed := false
  leaseEpoch := 0
  lease := none
  failureCode := ""
  failureDetail := ""
  createdAt := now
  forwardDeadline := now + seconds policy.deadlineSeconds
  forwardFenced := false
  restorationRequested := false
  restorationTerminalState := none
  proxy := proxy
  engines := engines

/-- The schema's constraint on the key of an engine target. -/
def validEngineKeys (engines : List EngineTarget) : Prop :=
  ∀ target ∈ engines, target.engineSlot ≠ "" ∧ target.engineSlot ≠ "proxy"

instance (engines : List EngineTarget) : Decidable (validEngineKeys engines) :=
  inferInstanceAs (Decidable (∀ target ∈ engines, _ ∧ _))

/-- Submitting the exact committed revision records a complete request and touches nothing else. -/
def submitNoEffect (db : Db) (now : Time) (actor : String)
    (request : SubmitOperationRequest) (policy : RolloutPolicy)
    (source : ReleaseIdentity) (sourceSlots : List String) (freshId : String) :
    Except Status (Db × Operation) := do
  let committed ← required
    (db.deployments.find? fun d => d.revision = db.currentRevision ∧ d.state = .succeeded)
    (.failedPrecondition "committed deployment snapshot is missing")
  ensure (request.bundleDigest = committed.bundleDigest ∧
      request.resolvedReleaseDigest = committed.resolvedReleaseDigest ∧
      source.digest = committed.bundleDigest ∧
      source.resolvedDigest = committed.resolvedReleaseDigest)
    (.failedPrecondition "operation digest does not match the committed deployment")
  let engines := (sortedSlots sourceSlots).mapIdx fun index slot =>
    { engineSlot := slot
      rolloutOrder := index
      transition := .unchanged
      authoritativeRevision := source.revision
      authoritySwitched := false
      servingConverged := true
      progress := initialProgress .unspecified source source : EngineTarget }
  let op := { newOperation freshId actor request policy now source.revision
      (initialProgress .unspecified source source) engines with
    state := .succeeded
    phase := .complete
    targetRevisionDigest := some committed.revisionDigest
    committed := true }
  ensure (db.operation? freshId = none) (.internal "database operation failed")
  ensure (validEngineKeys engines) (.internal "database operation failed")
  let inserted := { db with nodePresent := true, operations := db.operations ++ [op] }
  let result ← loadOperation inserted freshId
  return (inserted, result)

/-- The rollout of a request, with the operation id and revision digest a deployment reserves. -/
def requestedRollout (contract : DeploymentContract) (db : Db) (actor : String)
    (request : SubmitOperationRequest) (source : ReleaseIdentity)
    (sourceSlots : List String) (freshId : String) :
    Except Status (Rollout × String × Option String) :=
  if request.action.isDeployment then do
    let (target, targetSlots) ← deploymentInventory db request.targetRevision
    let deployment ← required
      (db.deployments.find? fun d => d.revision = request.targetRevision ∧ d.isOpen)
      (.internal "database operation failed")
    ensure (deployment.abandoned = false)
      (.failedPrecondition "staged allocation was abandoned")
    ensure (deployment.allocatedBy = actor)
      (.permissionDenied "staged allocation belongs to a different authenticated actor")
    ensure (deployment.attemptToken = request.requestToken)
      (.failedPrecondition
        "operation request_token must match the staged allocation token")
    ensure (deployment.finalized = true)
      (.failedPrecondition "staged deployment must be finalized before submission")
    let operationId ←
      (contract.deploymentOperationId deployment.revisionDigest).mapError .internal
    ensure (deployment.bundleDigest = request.bundleDigest ∧
        target.digest = request.bundleDigest ∧
        deployment.resolvedReleaseDigest = request.resolvedReleaseDigest ∧
        target.resolvedDigest = request.resolvedReleaseDigest)
      (.failedPrecondition
        "operation source or resolved digest does not match the finalized deployment")
    return (⟨request.action, source, sourceSlots, target, targetSlots⟩, operationId,
      some deployment.revisionDigest)
  else
    .ok (⟨request.action, source, sourceSlots, source, [request.engineSlot]⟩, freshId, none)

/-- The policy checks on a rollout before it is inserted. -/
def checkRollout (rollout : Rollout) (request : SubmitOperationRequest)
    (policy : RolloutPolicy) : Except Status PUnit := do
  ensure (request.action ≠ .restart ∨ request.engineSlot ∈ rollout.sourceSlots)
    (.failedPrecondition "restart requires a slot from the committed deployment")
  let withdrawsLastSource :=
    if rollout.action.isDeployment then
      rollout.sourceSlots ≠ [] ∧ rollout.targetSlots = []
    else rollout.sourceSlots.length = 1
  ensure (¬withdrawsLastSource ∨ policy.allowDowntime = true)
    (.failedPrecondition
      "withdrawing the last healthy source slot requires allow_downtime")
  ensure (rollout.slots ≠ [] ∨ rollout.action.isDeployment = true)
    (.invalidArgument "operation has no affected slots")
  ensure (rollout.affectedSlots = 0 ∨ policy.maxUnavailable ≤ rollout.affectedSlots)
    (.invalidArgument "max_unavailable exceeds the number of affected slots")

/-- What a submission writes: the operation, and for a deployment the staged revision and its
binding. -/
def Db.insertSubmitted (db : Db) (op : Operation) : Db :=
  let inserted := { db with
    nodePresent := true
    operations := db.operations ++ [op] }
  if op.action.isDeployment then
    { inserted with
      targetRevision := some op.targetRevision
      deployments := updateWhere (fun d => d.revision = op.targetRevision)
        (fun d => { d with operationId := some op.operationId }) db.deployments }
  else inserted

/-- Insert a queued operation. Unique indexes refuse a second row of its id and a second active
operation. -/
def insertOperation (db : Db) (op : Operation) : Except Status Db := do
  ensure (db.operation? op.operationId = none ∧
      ∀ other ∈ db.operations, other.isActive = false)
    (.failedPrecondition "node already has an active operation")
  ensure (validEngineKeys op.engines) (.internal "database operation failed")
  return db.insertSubmitted op

/-- `submit`. `freshId` is the UUID drawn for an operation that no deployment
revision reserves. -/
def submit (contract : DeploymentContract) (db : Db) (now : Time) (actor : String)
    (request : SubmitOperationRequest) (freshId : String) :
    Except Status (Db × Operation) :=
  match db.operations.find? fun o =>
      o.actor = actor ∧ o.requestToken = request.requestToken with
  | some existing => do
      ensure (existing.requestPayload = request)
        (.alreadyExists
          "request_token was already used by this actor with different operation content")
      let op ← loadOperation db existing.operationId
      return (db, op)
  | none => do
      ensure (request.action ≠ .unspecified)
        (.invalidArgument "operation action is required")
      let policy := request.policy.getD (defaultPolicy request.action)
      ensure (request.targetRevision ≤ i64Max)
        (.invalidArgument "target_revision is too large")
      ensure (policy.deadlineSeconds ≤ i64Max)
        (.invalidArgument "deadline_seconds is too large")
      let (source, sourceSlots) ← deploymentInventory db db.currentRevision
      if request.action = .deployment ∧ request.targetRevision = db.currentRevision then
        submitNoEffect db now actor request policy source sourceSlots freshId
      else
        let (rollout, operationId, revisionDigest) ←
          requestedRollout contract db actor request source sourceSlots freshId
        checkRollout rollout request policy
        let proxyTarget : ReleaseIdentity :=
          ⟨request.targetRevision, request.bundleDigest, request.resolvedReleaseDigest⟩
        let op := { newOperation operationId actor request policy now source.revision
            (initialProgress rollout.proxyFirst source proxyTarget)
            rollout.engineTargets with
          targetRevisionDigest := revisionDigest }
        let inserted ← insertOperation db op
        let result ← loadOperation inserted operationId
        return (inserted, result)

end Wruntime.Manager
