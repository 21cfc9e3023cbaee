import Mathlib.Data.String.Basic
import Wruntime.Lib.Sql
import Wruntime.Fleet.State

/-!
The transactions on the fleet tables, with the canonical form that the service first gives to a
request. An error rolls the transaction back. What the source computes outside of the tables, such
as the grammar of identifiers and digests of requests, is a parameter.
-/

namespace Wruntime.Fleet

open Fallible Table Sql
open Manager (Time Status seconds)

/-- Parsers and digests that the manager calls. -/
structure Contract where
  operationToken : String → Bool
  uuid : String → Option Uuid
  clusterId : String → Except String PUnit
  managerId : String → Except String PUnit
  principalUri : String → Except String (String × PrincipalKind)
  peerHttpsUrl : String → Bool
  bundleDigest : String → Bool
  requestDigest : BeginManagerRolloutRequest → String
  resetRequestDigest : ResetFailedManagerRolloutRequest → String
  evidenceDigest : List Evidence → String
  managerSetHash : List RolloutTarget → String

/-- `AUTHORIZATION_POLICY_VALIDATOR_VERSION`. -/
def validatorVersion : Nat := 1

def Policy.authorizesRollout (policy : Policy) (principal : String)
    (managerIds : List String) : Bool :=
  match policy.principals.lookup principal with
  | none => false
  | some kind => policy.assignments.any fun assignment =>
    decide (assignment.principal = principal) &&
    (match kind, assignment.role with
      | .human, .admin | .human, .infra | .serviceAccount, .deploy => true
      | _, _ => false) &&
    (match assignment.managerIds with
      | none => true
      | some allowed => managerIds.all (allowed.contains ·))

def Policy.prevalidateRolloutClaims (contract : Contract) (policy : Policy)
    (callerPrincipalUri callerLeafFingerprint : String)
    (expectedTargets : List RolloutTarget) : Except String Receipt := do
  let (cluster, kind) ← contract.principalUri callerPrincipalUri
  ensure (cluster = policy.clusterId) "rollout caller belongs to the wrong cluster"
  ensure (kind = .human ∨ kind = .serviceAccount)
    "rollout caller must be human or service-account"
  ensure (contract.bundleDigest callerLeafFingerprint = true)
    "rollout caller fingerprint must be sha256:<64 lowercase hex>"
  ensure (policy.revokedLeafFingerprints.contains callerLeafFingerprint = false)
    "rollout caller leaf is revoked"
  let targets := expectedTargets.insertionSort fun a b => a.managerId ≤ b.managerId
  ensure (targets = policy.managerTargets)
    "rollout targets must exactly equal policy manager enrollments"
  ensure (policy.authorizesRollout callerPrincipalUri (targets.map (·.managerId)) = true)
    "rollout caller lacks one complete target-set grant"
  return ⟨validatorVersion, policy.generation, policy.digest, policy.clusterId,
    policy.managerSetHash⟩

def ManagerRow.registered (managerId grpcAddress : String) (now : Time) : ManagerRow :=
  ⟨managerId, grpcAddress, now, none, none, .closedStartup⟩

def Store.modifyManager (db : Store) (managerId : String) (f : ManagerRow → ManagerRow) :
    Store :=
  { db with managers := updateWhere (fun row => row.managerId = managerId) f db.managers }

/-- `register_manager`. A row that exists keeps its policy and admission columns. -/
def registerManager (db : Store) (now : Time) (managerId grpcAddress : String) : Store :=
  if db.managers.any (fun row => row.managerId = managerId) then
    db.modifyManager managerId fun row =>
      { row with grpcAddress := grpcAddress, lastHeartbeat := now }
  else { db with managers := db.managers ++ [.registered managerId grpcAddress now] }

def deregisterManager (db : Store) (managerId : String) : Store :=
  { db with managers := db.managers.filter (·.managerId ≠ managerId) }

def heartbeatManager (db : Store) (now : Time) (managerId : String) : Store :=
  db.modifyManager managerId fun row => { row with lastHeartbeat := now }

def cleanupStaleManagers (db : Store) (now threshold : Time) : Store :=
  { db with managers := db.managers.filter fun row => now ≤ row.lastHeartbeat + threshold }

def ManagerRow.report (policy : AcceptedPolicy) (state : AdmissionState)
    (row : ManagerRow) : ManagerRow :=
  { row with
    policyGeneration := some policy.generation
    policyDigest := some policy.digest
    admissionState := state }

def positiveGeneration : Status :=
  .internal "violates check constraint accepted_generation_check"

def bootstrapInitialManagerPolicyState (db : Store) (generation : UInt64)
    (digest : String) : Except Status Store :=
  if db.guard.accepted = none ∧ db.guard.activeRolloutId = none ∧ db.rollouts = [] then do
    ensure (0 < generation.toInt64) positiveGeneration
    return { db with guard := { db.guard with
      accepted := some ⟨generation.toInt64, digest⟩ } }
  else .ok db

/-- An older generation than the accepted one, or the same with another digest. -/
def AcceptedPolicy.conflicts (accepted : AcceptedPolicy) (generation : UInt64)
    (digest : String) : Bool :=
  generation < accepted.generation.toUInt64 ∨
    (accepted.generation = generation.toInt64 ∧ accepted.digest ≠ digest)

/-- `initialize_manager_policy_state`, with the answer that opens the gate. -/
def initializeManagerPolicyState (db : Store) (managerId : String) (generation : UInt64)
    (digest : String) : Store × Bool :=
  let policy : AcceptedPolicy := ⟨generation.toInt64, digest⟩
  if db.guard.accepted.any (·.conflicts generation digest) then
    (db.modifyManager managerId (·.report policy .closedMismatch), false)
  else
    let isOpen : Bool := db.guard.activeRolloutId = none ∧
      db.guard.recoveryPermitPrincipalUri = none ∧ db.guard.accepted = some policy
    (db.modifyManager managerId
      (·.report policy (if isOpen then .opened else .closedStartup)), isOpen)

structure Observation where
  shouldOpen : Bool
  state : AdmissionState
  rolloutId : Option Uuid
  phase : Phase
  expectedSetHash : String

def Guard.stateOf (guard : Guard) (policy : Policy) : AdmissionState :=
  if guard.recoveryPermitPrincipalUri = none ∧ guard.accepted = some policy.stored then
    .opened
  else if guard.accepted.any (·.conflicts policy.generation policy.digest) then
    .closedMismatch
  else .closedStartup

def Rollout.roleOf (rollout : Rollout) (policy : Policy) : Role :=
  if rollout.target = policy.stored then .target else .source

def Rollout.receiptMatches (contract : Contract) (rollout : Rollout) (policy : Policy) :
    Bool :=
  let request := rollout.request
  match policy.prevalidateRolloutClaims contract request.targetDeploymentPrincipalUri
    request.targetDeploymentLeafFingerprint (request.expectedTargets.map (·.toTarget)) with
  | .error _ => false
  | .ok receipt => request.targetPolicyValidatorVersion = receipt.validatorVersion ∧
      policy.generation = receipt.generation ∧ policy.digest = receipt.digest ∧
      request.clusterId = receipt.clusterId ∧
      rollout.expectedTargetSetHash = receipt.targetSetHash

def Rollout.targetMatches (contract : Contract) (rollout : Rollout) (policy : Policy) : Bool :=
  policy.generation = rollout.targetGeneration.toUInt64 ∧
    policy.digest = rollout.request.targetPolicyDigest ∧
    rollout.receiptMatches contract policy

/-- The admission state of a manager with this role while the rollout is active. -/
def Rollout.stateOf (phase : Phase) (role : Option Role) (targetMatches : Bool) :
    AdmissionState :=
  match phase, role with
  | .prepared, some .source | .staging, some .source => .opened
  | .activatingTarget, some .target | .completed, some .target =>
    if targetMatches then .opened else .closedMismatch
  | _, some .target => if targetMatches then .closedRollout else .closedMismatch
  | _, _ => .closedRollout

def Member.observe (policy : AcceptedPolicy) (process : ProcessState)
    (state : AdmissionState) (m : Member) : Member :=
  { m with
    observedPolicyGeneration := some policy.generation
    observedPolicyDigest := some policy.digest
    processState := some process
    admissionState := some state }

/-- `observe_manager_rollout`, with generation and digest of the manager's own policy. -/
def observeManagerRollout (contract : Contract) (db : Store) (now : Time)
    (managerId : String) (policy : Policy) : Store × Observation :=
  match db.active? with
  | none =>
    let state := db.guard.stateOf policy
    (db.modifyManager managerId fun row =>
        { row.report policy.stored state with lastHeartbeat := now },
      ⟨state = .opened, state, none, .unspecified, ""⟩)
  | some rollout =>
    let member := db.member? rollout.rolloutId (rollout.roleOf policy) managerId
    let role := member.map (·.memberRole)
    let targetMatches := rollout.targetMatches contract policy
    let state := Rollout.stateOf rollout.phase role targetMatches
    let reported := db.modifyManager managerId fun row =>
      { row.report policy.stored state with lastHeartbeat := now }
    let process : ProcessState :=
      if targetMatches ∨ role = some .source then .ready else .mismatch
    ({ reported with
        members := updateWhere
          (fun m => m.rolloutId = rollout.rolloutId ∧ m.managerId = managerId ∧
            some m.memberRole = role)
          (·.observe policy.stored process state) reported.members },
      ⟨state = .opened, state, some rollout.rolloutId, rollout.phase,
        rollout.expectedTargetSetHash⟩)

def ManagerRolloutSource.wellFormed (contract : Contract) (source : ManagerRolloutSource) :
    Bool :=
  contract.peerHttpsUrl source.endpoint && contract.bundleDigest source.hostDigest &&
    contract.bundleDigest source.selectorDigest

def ManagerRolloutTarget.wellFormed (contract : Contract) (target : ManagerRolloutTarget) :
    Bool :=
  contract.peerHttpsUrl target.endpoint &&
    [target.hostDigest, target.configDigest, target.executableDigest,
      target.systemdUnitDigest, target.credentialDigest, target.oldSelectorDigest,
      target.newSelectorDigest].all contract.bundleDigest

/-- The source managers, in the order of the request, after those already seen. -/
def checkSources (contract : Contract) :
    List String → List ManagerRolloutSource → Except Status PUnit
  | _, [] => .ok ⟨⟩
  | seen, source :: rest => do
      (contract.managerId source.managerId).mapError Status.invalidArgument
      ensure (source.managerId ∉ seen ∧ source.wellFormed contract = true)
        (.invalidArgument ("source managers require unique IDs and canonical " ++
          "endpoint/host/selector digests"))
      checkSources contract (source.managerId :: seen) rest

def checkTargets (contract : Contract) :
    List String → List ManagerRolloutTarget → Except Status PUnit
  | _, [] => .ok ⟨⟩
  | seen, target :: rest => do
      (contract.managerId target.managerId).mapError Status.invalidArgument
      ensure (target.managerId ∉ seen)
        (.invalidArgument "expected target manager IDs must be unique")
      ensure (target.wellFormed contract = true)
        (.invalidArgument ("target endpoint and canonical Systemd artifact/selector " ++
          "digests are required"))
      checkTargets contract (target.managerId :: seen) rest

def canonicalRolloutRequest (contract : Contract) (request : BeginManagerRolloutRequest) :
    Except Status (BeginManagerRolloutRequest × String) := do
  ensure (contract.operationToken request.clientOperationId = true)
    (.invalidArgument "client_operation_id must satisfy the bounded operation-token grammar")
  ensure ((contract.uuid request.clientOperationId).isSome = true)
    (.invalidArgument "client_operation_id must be a UUID")
  (contract.clusterId request.clusterId).mapError Status.invalidArgument
  ensure (request.targetGeneration ≠ 0 ∧ contract.bundleDigest request.targetPolicyDigest = true)
    (.invalidArgument "target generation and sha256 policy digest are required")
  ensure (request.targetPolicyValidatorVersion = validatorVersion)
    (.invalidArgument "target policy validator version 1 is required")
  let _ ← (contract.principalUri request.targetDeploymentPrincipalUri).mapError
    Status.invalidArgument
  ensure (contract.bundleDigest request.targetDeploymentLeafFingerprint = true)
    (.invalidArgument "target deployment leaf fingerprint must be sha256:<lowercase hex>")
  ensure (request.expectedTargets ≠ [])
    (.invalidArgument "expected target manager set must not be empty")
  let sources := request.sourceManagers.insertionSort fun a b => a.managerId ≤ b.managerId
  checkSources contract [] sources
  ensure (contract.bundleDigest request.manifestDigest = true ∧
      request.deploymentCertificate ≠ "" ∧
      request.deploymentCertificate.utf8ByteSize ≤ 128 ∧
      '/' ∉ request.deploymentCertificate.toList)
    (.invalidArgument "manifest digest and deployment certificate name are required")
  let targets := request.expectedTargets.insertionSort fun a b => a.managerId ≤ b.managerId
  checkTargets contract [] targets
  let canonical := { request with sourceManagers := sources, expectedTargets := targets }
  return (canonical, contract.requestDigest canonical)

/-- The managers a rollout would replace: those in admission with a heartbeat of the last thirty
seconds, by id. -/
def Store.liveSources (db : Store) (now : Time) : List ManagerRow :=
  (db.managers.filter fun row => row.admissionState = .opened ∧
    row.live now (seconds 30)).insertionSort fun a b => a.managerId ≤ b.managerId

structure ManagerRollout where
  rolloutId : Uuid
  deploymentPrincipalUri : String
  requestDigest : String
  request : BeginManagerRolloutRequest
  phase : Phase
  expectedTargetSetHash : String
  failure : String

def managerRolloutFromRow (contract : Contract) (rollout : Rollout) (phase : Phase) :
    ManagerRollout :=
  ⟨rollout.rolloutId, rollout.deploymentPrincipalUri, rollout.canonicalRequestDigest,
    rollout.request, phase,
    contract.managerSetHash (rollout.request.expectedTargets.map (·.toTarget)), ""⟩

def getManagerRollout (contract : Contract) (db : Store) (rolloutId : Uuid) :
    Except Status ManagerRollout := do
  let rollout ← required (db.rollout? rolloutId) (.notFound "manager rollout was not found")
  return { managerRolloutFromRow contract rollout rollout.phase with
    failure := rollout.failure.getD ""
    expectedTargetSetHash := rollout.expectedTargetSetHash }

def Member.ofSource (rolloutId : Uuid) (row : ManagerRow) : Member :=
  ⟨rolloutId, .source, row.managerId, row.policyGeneration, row.policyDigest, none,
    some row.admissionState, none, none⟩

def Member.ofTarget (rolloutId : Uuid) (target : ManagerRolloutTarget) : Member :=
  ⟨rolloutId, .target, target.managerId, none, none, none, none, none, none⟩

def Rollout.created (contract : Contract) (rolloutId : Uuid) (deploymentPrincipalUri : String)
    (request : BeginManagerRolloutRequest) (canonicalRequestDigest : String) : Rollout where
  rolloutId := rolloutId
  deploymentPrincipalUri := deploymentPrincipalUri
  canonicalRequestDigest := canonicalRequestDigest
  request := request
  expectedTargetSetHash := contract.managerSetHash (request.expectedTargets.map (·.toTarget))
  phase := .prepared
  failure := none
  reset := none

/-- The rollout, its members and the guard are written; a recovery permit is used up. -/
def Store.create (db : Store) (now : Time) (rollout : Rollout) : Store :=
  { db with
    guard := { db.guard with
      activeRolloutId := some rollout.rolloutId
      recoveryPermitPrincipalUri := none }
    rollouts := db.rollouts ++ [rollout]
    members := db.members ++ (db.liveSources now).map (.ofSource rollout.rolloutId) ++
      rollout.request.expectedTargets.map (.ofTarget rollout.rolloutId) }

/-- A recovery permit is for its owner only; without one, admission must be open. -/
def Guard.checkPermit (guard : Guard) (deploymentPrincipalUri : String)
    (privilegedAdmissionOpen : Bool) : Except Status PUnit :=
  match guard.recoveryPermitPrincipalUri with
  | some owner => ensure (owner = deploymentPrincipalUri) (.permissionDenied
      "manager rollout recovery permit belongs to another principal")
  | none => ensure (privilegedAdmissionOpen = true) (.failedPrecondition
      "closed privileged admission requires an explicit recovery permit")

/-- `begin_manager_rollout` on the canonical request, with the identifier drawn for a new
rollout. -/
def beginManagerRollout (contract : Contract) (db : Store) (now : Time)
    (deploymentPrincipalUri : String) (request : BeginManagerRolloutRequest)
    (canonicalRequestDigest : String) (privilegedAdmissionOpen : Bool) (rolloutId : Uuid) :
    Except Status (Store × ManagerRollout) := do
  match db.rollouts.find? fun r => r.deploymentPrincipalUri = deploymentPrincipalUri ∧
    contract.uuid r.request.clientOperationId = contract.uuid request.clientOperationId with
  | some stored =>
    ensure (stored.canonicalRequestDigest = canonicalRequestDigest) (.alreadyExists
      "client_operation_id was already used with different rollout content")
    -- A replay gets the receipt of the creation, whatever phase is stored now.
    return (db, managerRolloutFromRow contract stored .prepared)
  | none =>
    let accepted ← required db.guard.accepted (.failedPrecondition
      "manager rollout creation requires initialized accepted policy")
    ensure (db.guard.activeRolloutId = none)
      (.failedPrecondition "another manager rollout is active")
    db.guard.checkPermit deploymentPrincipalUri privilegedAdmissionOpen
    let liveSources := db.liveSources now
    ensure (request.sourceManagers.map (fun s => (s.managerId, s.endpoint)) =
        liveSources.map (fun row => (row.managerId, row.grpcAddress)))
      (.failedPrecondition
        "manifest source manager set does not match the complete live source set")
    ensure (accepted.generation.toUInt64 ≤ request.targetGeneration)
      (.failedPrecondition "target policy generation must be strictly newer")
    ensure (¬(accepted.generation = request.targetGeneration.toInt64 ∧
        accepted.digest ≠ request.targetPolicyDigest))
      (.failedPrecondition "same policy generation has a different digest")
    ensure (db.rollouts.all (fun r => r.rolloutId ≠ rolloutId) = true ∧
        0 < request.targetGeneration.toInt64 ∧
        (request.expectedTargets.map (·.managerId)).Nodup)
      (.internal "violates a constraint of the rollout tables")
    let rollout := Rollout.created contract rolloutId deploymentPrincipalUri request
      canonicalRequestDigest
    return (db.create now rollout, managerRolloutFromRow contract rollout .prepared)

/-- The phase transitions that a controller may ask for. -/
def Phase.legal : Phase → Phase → Bool
  | .prepared, .staging | .prepared, .failedPreClose
  | .staging, .closingOld | .staging, .failedPreClose
  | .closingOld, .oldClosed | .closingOld, .failedClosed
  | .oldClosed, .startingTarget | .oldClosed, .failedClosed
  | .startingTarget, .targetReadyClosed | .startingTarget, .failedClosed
  | .targetReadyClosed, .activatingTarget | .targetReadyClosed, .failedClosed
  | .activatingTarget, .completed | .activatingTarget, .failedClosed => true
  | _, _ => false

def MemberOutcome.admissionOverride (outcome : MemberOutcome) : Option AdmissionState :=
  if outcome.memberRole = .source then
    if outcome.hostActionOutcome = "STOPPED" then some .stopped
    else if outcome.hostActionOutcome = "UNREACHABLE" then some .unreachable
    else none
  else none

def Member.record (outcome : MemberOutcome) (m : Member) : Member :=
  { m with
    hostActionOutcome := some outcome.hostActionOutcome
    error := if outcome.error = "" then none else some outcome.error
    admissionState := outcome.admissionOverride <|> m.admissionState }

def recordOutcome (contract : Contract) (db : Store) (rolloutId : Uuid) (replay : Bool)
    (seen : List (Role × String)) (outcome : MemberOutcome) : Except Status Store := do
  (contract.managerId outcome.managerId).mapError Status.invalidArgument
  ensure (outcome.hostActionOutcome ≠ "" ∧ outcome.hostActionOutcome.utf8ByteSize ≤ 64 ∧
      outcome.error.utf8ByteSize ≤ 1024 ∧ (outcome.memberRole, outcome.managerId) ∉ seen)
    (.invalidArgument "manager rollout member outcome is invalid or duplicated")
  let member ← required (db.member? rolloutId outcome.memberRole outcome.managerId)
    (.invalidArgument "manager rollout outcome names an unexpected member")
  match member.hostActionOutcome with
  | some stored => do
      ensure (stored = outcome.hostActionOutcome ∧ member.error.getD "" = outcome.error)
        (.alreadyExists "conflicting manager rollout member outcome replay")
      return db
  | none => do
      ensure (replay = false)
        (.alreadyExists "phase replay adds an uncommitted member outcome")
      return { db with
        members := updateWhere
          (fun m => m.key = (rolloutId, outcome.memberRole, outcome.managerId))
          (·.record outcome) db.members }

def recordOutcomes (contract : Contract) (rolloutId : Uuid) (replay : Bool) :
    List (Role × String) → List MemberOutcome → Store → Except Status Store
  | _, [], db => .ok db
  | seen, outcome :: rest, db => do
      let db ← recordOutcome contract db rolloutId replay seen outcome
      recordOutcomes contract rolloutId replay ((outcome.memberRole, outcome.managerId) :: seen)
        rest db

def Store.membersOf (db : Store) (rolloutId : Uuid) (role : Role) : List Member :=
  db.members.filter fun m => m.rolloutId = rolloutId ∧ m.memberRole = role

def sourceNotClosed (m : Member) : Truth :=
  some (m.admissionState ≠ some .closedRollout)

def targetNotReady (rollout : Rollout) (m : Member) : Truth :=
  Sql.or (ne m.processState (some .ready))
    (Sql.or (ne m.admissionState (some .closedRollout))
      (Sql.or (ne m.observedPolicyGeneration (some rollout.targetGeneration))
        (Sql.or (ne m.observedPolicyDigest (some rollout.request.targetPolicyDigest))
          (some (m.hostActionOutcome.getD "" ≠ "READY_CLOSED")))))

def sourceNotStopped (m : Member) : Truth :=
  some (m.hostActionOutcome.getD "" ≠ "STOPPED")

def targetNotOpen (m : Member) : Truth := ne m.admissionState (some .opened)

def Store.remaining (db : Store) (now threshold : Time) (rollout : Rollout) : Phase → Nat
  | .oldClosed => countWhere sourceNotClosed (db.membersOf rollout.rolloutId .source)
  | .targetReadyClosed =>
    countWhere (targetNotReady rollout) (db.membersOf rollout.rolloutId .target) +
    countWhere sourceNotStopped (db.membersOf rollout.rolloutId .source) +
    db.managers.countP fun row =>
      row.live now threshold && decide (row.admissionState = .opened)
  | .completed =>
    countWhere targetNotOpen (db.membersOf rollout.rolloutId .target) +
    db.managers.countP fun row => row.live now threshold &&
      !(db.members.any fun m => m.key = (rollout.rolloutId, .target, row.managerId))
  | _ => 0

def Phase.terminalFailure : Phase → Option String
  | .failedPreClose => some "manager rollout failed before privileged admission closed"
  | .failedClosed => some "manager rollout failed after privileged admission closed"
  | _ => none

def Guard.enter (guard : Guard) (rollout : Rollout) (next : Phase) : Guard :=
  if guard.activeRolloutId = some rollout.rolloutId then
    match next with
    | .completed => { guard with accepted := some rollout.target, activeRolloutId := none }
    | .failedPreClose => { guard with activeRolloutId := none }
    | _ => guard
  else guard

def Store.enterPhase (db : Store) (rollout : Rollout) (next : Phase) : Store :=
  { db with
    guard := db.guard.enter rollout next
    rollouts := updateWhere (fun r => r.rolloutId = rollout.rolloutId)
      (fun r => { r with
        phase := next
        failure := next.terminalFailure <|> r.failure }) db.rollouts }

def advanceManagerRollout (contract : Contract) (db : Store) (now : Time) (rolloutId : Uuid)
    (deploymentPrincipalUri : String) (expectedPhase nextPhase : Phase)
    (memberOutcomes : List MemberOutcome) (livenessThreshold : Time) : Except Status Store := do
  ensure (expectedPhase.legal nextPhase = true)
    (.failedPrecondition "illegal manager rollout phase transition")
  let rollout ← required (db.rollout? rolloutId) (.notFound "manager rollout was not found")
  ensure (rollout.deploymentPrincipalUri = deploymentPrincipalUri)
    (.permissionDenied "rollout control requires its immutable owner principal")
  ensure (rollout.phase = expectedPhase ∨ rollout.phase = nextPhase)
    (.failedPrecondition "rollout phase no longer matches")
  let recorded ← recordOutcomes contract rolloutId (rollout.phase = nextPhase) [] memberOutcomes
    db
  if rollout.phase = nextPhase then return recorded
  else do
    ensure (recorded.remaining now livenessThreshold rollout nextPhase = 0)
      (.failedPrecondition "manager rollout barrier is not satisfied")
    return recorded.enterPhase rollout nextPhase

def Role.le (a b : Role) : Bool := !(a = .target ∧ b = .source)

def memberOrder (a b : Role × String) : Bool :=
  if a.1 = b.1 then a.2 ≤ b.2 else a.1.le b.1

def checkEvidence (contract : Contract) :
    List (Role × String) → List Evidence → Except Status PUnit
  | _, [] => .ok ⟨⟩
  | seen, item :: rest => do
      (contract.managerId item.managerId).mapError Status.invalidArgument
      ensure ((item.memberRole, item.managerId) ∉ seen ∧ item.processState = "STOPPED" ∧
          item.policyGeneration ≠ 0 ∧ contract.bundleDigest item.policyDigest = true)
        (.invalidArgument "reset evidence is invalid or duplicated")
      checkEvidence contract ((item.memberRole, item.managerId) :: seen) rest

def uniformPolicy : List Evidence → Bool
  | [] => true
  | first :: rest => rest.all fun item =>
    item.policyGeneration = first.policyGeneration ∧ item.policyDigest = first.policyDigest

def canonicalResetRequest (contract : Contract) (request : ResetFailedManagerRolloutRequest) :
    Except Status (ResetFailedManagerRolloutRequest × String × String) := do
  ensure ((contract.uuid request.rolloutId).isSome = true)
    (.invalidArgument "rollout_id must be a UUID")
  ensure (contract.bundleDigest request.originalRequestDigest = true ∧ request.evidence ≠ [])
    (.invalidArgument "original request digest and reset evidence are required")
  checkEvidence contract [] request.evidence
  let evidence := request.evidence.insertionSort fun a b =>
    memberOrder (a.memberRole, a.managerId) (b.memberRole, b.managerId)
  ensure (uniformPolicy evidence = true)
    (.failedPrecondition "reset evidence must report one uniform policy")
  let canonical := { request with evidence := evidence }
  return (canonical, contract.resetRequestDigest canonical, contract.evidenceDigest evidence)

structure ResetResponse where
  rolloutId : Uuid
  originalRequestDigest : String
  resetRequestDigest : String
  evidenceDigest : String
  observedPolicyGeneration : UInt64
  observedPolicyDigest : String

/-- The receipt is stored, and the guard gives its owner a recovery permit. -/
def Store.resetRollout (db : Store) (rollout : Rollout) (receipt : ResetReceipt) : Store :=
  { db with
    guard := { db.guard with
      activeRolloutId := none
      recoveryPermitPrincipalUri := some rollout.deploymentPrincipalUri }
    rollouts := updateWhere (fun r => r.rolloutId = rollout.rolloutId)
      (fun r => { r with reset := some receipt }) db.rollouts }

def resetFailedManagerRollout (db : Store) (deploymentPrincipalUri : String)
    (request : ResetFailedManagerRolloutRequest) (resetRequestDigest evidenceDigest : String) :
    Except Status (Store × ResetResponse) := do
  let rollout ← required (db.rollout? request.rolloutId)
    (.notFound "manager rollout was not found")
  ensure (rollout.deploymentPrincipalUri = deploymentPrincipalUri)
    (.permissionDenied "reset requires the immutable rollout owner principal")
  ensure (rollout.canonicalRequestDigest = request.originalRequestDigest)
    (.failedPrecondition "original Begin request digest does not match")
  match rollout.reset with
  | some stored => do
      ensure (stored.requestDigest = resetRequestDigest ∧
          stored.evidenceDigest = evidenceDigest)
        (.alreadyExists "manager rollout was reset with different evidence")
      return (db, ⟨request.rolloutId, rollout.canonicalRequestDigest, stored.requestDigest,
        evidenceDigest, stored.policyGeneration.toUInt64, stored.policyDigest⟩)
  | none => do
      ensure (rollout.phase = .failedClosed)
        (.failedPrecondition "only FAILED_CLOSED rollout can be reset")
      ensure (db.guard.activeRolloutId = some request.rolloutId)
        (.failedPrecondition "failed rollout is not the active guard")
      let stored := ((db.members.filter fun m => m.rolloutId = request.rolloutId).map
        fun m => (m.memberRole, m.managerId)).insertionSort fun a b => memberOrder a b
      ensure (request.evidence.map (fun e => (e.memberRole, e.managerId)) = stored)
        (.failedPrecondition "reset evidence must exactly cover stored rollout members")
      let first ← required request.evidence.head?
        (.invalidArgument "reset evidence must not be empty")
      ensure (first.policyGeneration ≠ 0 ∧
          (request.evidence.all fun item => item.processState = "STOPPED" ∧
            item.policyGeneration = first.policyGeneration ∧
            item.policyDigest = first.policyDigest) = true)
        (.failedPrecondition
          "reset evidence must report every member stopped with one uniform nonzero policy")
      ensure (0 < first.policyGeneration.toInt64)
        (.internal "violates check constraint wr_manager_rollouts_reset_generation_check")
      let receipt : ResetReceipt := ⟨resetRequestDigest, evidenceDigest,
        first.policyGeneration.toInt64, first.policyDigest⟩
      return (db.resetRollout rollout receipt,
        ⟨request.rolloutId, rollout.canonicalRequestDigest, resetRequestDigest,
          evidenceDigest, first.policyGeneration, first.policyDigest⟩)

end Wruntime.Fleet
