import Wruntime.Auth.Policy

/-!
The manager's authorizer. A call names its method and resource, and its caller is the principal of a
client certificate. A workload is authorized by its enrollment, anyone else by one assignment that
covers the whole resource; the read methods filter their rows by the assignments admitted.
-/

namespace Wruntime.Auth

open Fallible Grants
open Manager (Status)

variable {uri : PrincipalUri}
inductive Service where
  | cluster
  | infrastructure
  | node
  | job
  | policy
  | lifecycle
  deriving DecidableEq

/-- The methods of `MANAGER_RPC_ROWS`. -/
inductive Rpc where
  | listEngines
  | getRoutingTable
  | upsertRoutingRule
  | deleteRoutingRule
  | listManagers
  | getClusterStatus
  | getSchema
  | setSecret
  | deleteSecret
  | listSecrets
  | upsertSchedule
  | deleteSchedule
  | listSchedules
  | getInfrastructureStatus
  | submitOperation
  | getOperation
  | listOperations
  | resumeOperation
  | cancelOperation
  | beginDeployment
  | verifyDeployment
  | finalizeDeployment
  | abandonDeployment
  | beginRollback
  | beginManagerRollout
  | resetFailedManagerRollout
  | advanceManagerRollout
  | getManagerRollout
  | putNodeAgentPolicy
  | getNodeCleanupStatus
  | retryNodeCleanup
  | registerProxy
  | reportProxyInventory
  | deregisterProxy
  | registerEngine
  | deregisterEngine
  | heartbeat
  | beginEngineDrain
  | attest
  | claimOperation
  | renewOperationLease
  | claimNodeCleanup
  | renewNodeCleanupLease
  | reportNodeCleanupResult
  | reportObservation
  | reportStepResult
  | listJobQueues
  | listJobs
  | getJobQueueSummary
  | getJob
  | retryJob
  | getPolicyStatus
  | getWorkloadSnapshot
  | getLifecycleStatus
  deriving DecidableEq

def Rpc.service : Rpc → Service
  | .listEngines | .getRoutingTable | .upsertRoutingRule | .deleteRoutingRule | .listManagers
  | .getClusterStatus | .getSchema | .setSecret | .deleteSecret | .listSecrets
  | .upsertSchedule | .deleteSchedule | .listSchedules => .cluster
  | .getInfrastructureStatus | .submitOperation | .getOperation | .listOperations
  | .resumeOperation | .cancelOperation | .beginDeployment | .verifyDeployment
  | .finalizeDeployment | .abandonDeployment | .beginRollback | .beginManagerRollout
  | .resetFailedManagerRollout | .advanceManagerRollout | .getManagerRollout
  | .putNodeAgentPolicy | .getNodeCleanupStatus | .retryNodeCleanup => .infrastructure
  | .registerProxy | .reportProxyInventory | .deregisterProxy | .registerEngine
  | .deregisterEngine | .heartbeat | .beginEngineDrain | .attest | .claimOperation
  | .renewOperationLease | .claimNodeCleanup | .renewNodeCleanupLease
  | .reportNodeCleanupResult | .reportObservation | .reportStepResult => .node
  | .listJobQueues | .listJobs | .getJobQueueSummary | .getJob | .retryJob => .job
  | .getPolicyStatus | .getWorkloadSnapshot => .policy
  | .getLifecycleStatus => .lifecycle

inductive WorkloadBinding where
  | notApplicable
  | proxyBound
  | nodeAgentBound
  | enrolledGlobal
  | proxyEnrolledGlobal
  deriving DecidableEq

def Rpc.workload : Rpc → WorkloadBinding
  | .getRoutingTable | .listManagers | .getSchema | .getWorkloadSnapshot =>
    .proxyEnrolledGlobal
  | .registerProxy | .reportProxyInventory | .deregisterProxy | .registerEngine
  | .deregisterEngine | .heartbeat | .beginEngineDrain => .proxyBound
  | .attest | .claimOperation | .renewOperationLease | .claimNodeCleanup
  | .renewNodeCleanupLease | .reportNodeCleanupResult | .reportObservation
  | .reportStepResult => .nodeAgentBound
  | .getPolicyStatus | .getLifecycleStatus => .enrolledGlobal
  | _ => .notApplicable

def rolesForRow (rpc : Rpc) (kind : PrincipalKind) : List PolicyRole :=
  match rpc.service, kind with
  | .cluster, .human =>
    match rpc with
    | .upsertRoutingRule | .deleteRoutingRule | .setSecret | .deleteSecret | .listSecrets
    | .upsertSchedule | .deleteSchedule => [.admin]
    | _ => [.admin, .view]
  | .cluster, .serviceAccount =>
    match rpc with
    | .upsertRoutingRule | .deleteRoutingRule => [.route]
    | .setSecret | .deleteSecret | .listSecrets => [.secret]
    | .upsertSchedule | .deleteSchedule => [.schedule]
    | .listSchedules => [.status, .schedule]
    | _ => [.status]
  | .infrastructure, .human =>
    match rpc with
    | .submitOperation | .resumeOperation | .cancelOperation | .retryNodeCleanup
    | .beginDeployment | .verifyDeployment | .finalizeDeployment | .abandonDeployment
    | .putNodeAgentPolicy | .beginRollback | .beginManagerRollout
    | .resetFailedManagerRollout | .advanceManagerRollout => [.admin, .infra]
    | _ => [.admin, .infra, .view]
  | .infrastructure, .serviceAccount =>
    match rpc with
    | .submitOperation | .resumeOperation | .cancelOperation | .retryNodeCleanup => [.infra]
    | .beginDeployment | .verifyDeployment | .finalizeDeployment | .abandonDeployment
    | .putNodeAgentPolicy | .beginRollback | .beginManagerRollout
    | .resetFailedManagerRollout | .advanceManagerRollout => [.deploy]
    | .getManagerRollout => [.deploy, .infra, .status]
    | _ => [.infra, .status]
  | .job, .human =>
    match rpc with
    | .retryJob => [.admin, .jobAdmin]
    | _ => [.admin, .jobAdmin, .jobView]
  | .job, .serviceAccount =>
    match rpc with
    | .retryJob => [.jobAdmin]
    | _ => [.jobAdmin, .jobView]
  | .policy, .human => [.admin, .view]
  | .policy, .serviceAccount => [.status]
  | .lifecycle, .human => [.admin, .view, .infra]
  | .lifecycle, .serviceAccount => [.status, .infra, .deploy]
  | _, _ => []

structure AuthorizationResource where
  namespaceId : Option String := none
  nodeId : Option String := none
  jobQueueId : Option String := none
  managerIds : List String := []

def AuthorizationResource.values (resource : AuthorizationResource) : Resource Dimension String
  | .nspace => resource.namespaceId.toList
  | .node => resource.nodeId.toList
  | .jobQueue => resource.jobQueueId.toList
  | .manager => resource.managerIds

def allows (ids : Option (List String)) (value : String) : Bool :=
  ids.all fun allowed => decide (value ∈ allowed)

def AssignmentScope.covers (scope : AssignmentScope) (resource : AuthorizationResource) : Bool :=
  resource.namespaceId.all (allows scope.namespaceIds) &&
    resource.nodeId.all (allows scope.nodeIds) &&
    resource.jobQueueId.all (allows scope.jobQueueIds) &&
    scope.managerIds.all fun allowed => resource.managerIds.all fun id => decide (id ∈ allowed)

inductive LeafProfile where
  | client
  | server
  deriving DecidableEq

structure LeafEvidence where
  profile : LeafProfile
  principal : Option PrincipalUri
  fingerprint : String

/-- The first peer certificate, if any, as its validation left it. -/
abbrev Peer := Option (Except String LeafEvidence)

structure AuthorizedPrincipal where
  name : String
  kind : PrincipalKind
  nodeId : Option String
  fingerprint : String

def workloadBindingMatches (binding : WorkloadBinding) (principal : AuthorizedPrincipal)
    (requestedNode : Option String) : Bool :=
  match binding with
  | .notApplicable => true
  | .proxyBound =>
    principal.kind = .proxy && principal.nodeId.isSome && principal.nodeId = requestedNode
  | .nodeAgentBound =>
    principal.kind = .nodeAgent && principal.nodeId.isSome && principal.nodeId = requestedNode
  | .enrolledGlobal => true
  | .proxyEnrolledGlobal => principal.kind = .proxy

def enrolledNode (enrollments : List NodeEnrollment) (principal : String) : Option String :=
  (enrollments.find? (·.principal = principal)).map (·.nodeId)

/-- The node a workload is enrolled for: `some none` for a manager, `none` if it is not enrolled. -/
def PolicySnapshot.enrollment (policy : PolicySnapshot) (kind : PrincipalKind)
    (principal : String) : Option (Option String) :=
  match kind with
  | .proxy => (enrolledNode policy.proxyEnrollments principal).map some
  | .nodeAgent => (enrolledNode policy.nodeAgentEnrollments principal).map some
  | .manager =>
    if policy.managerEnrollments.any (·.principal = principal) then some none else none
  | _ => some none

def peerEvidence (peer : Peer) : Except Status LeafEvidence := do
  let leaf ← required peer
    (Status.unauthenticated "client certificate identity is unavailable")
  leaf.mapError Status.unauthenticated

def authorizeRowEvidence (policy : PolicySnapshot) (rpc : Rpc) (evidence : LeafEvidence)
    (resource : AuthorizationResource) : Except Status AuthorizedPrincipal := do
  ensure (evidence.profile = .client)
    (Status.unauthenticated "authenticated leaf is not a client profile")
  let uri ← required evidence.principal
    (Status.unauthenticated "client certificate principal is unavailable")
  ensure (uri.clusterId = policy.clusterId)
    (Status.permissionDenied "client principal belongs to the wrong cluster")
  ensure (evidence.fingerprint ∉ policy.revokedLeafFingerprints)
    (Status.permissionDenied "client certificate leaf is revoked")
  let kind ← required ((policy.principals.lookup uri.asStr).filter (· = uri.kind))
    (Status.permissionDenied "client principal is not declared by policy")
  let nodeId ← required (policy.enrollment kind uri.asStr)
    (Status.permissionDenied "workload principal is not enrolled")
  let principal : AuthorizedPrincipal := ⟨uri.asStr, kind, nodeId, evidence.fingerprint⟩
  if kind.isWorkload then
    ensure (rpc.workload ≠ .notApplicable ∧
        workloadBindingMatches rpc.workload principal resource.nodeId = true)
      (Status.permissionDenied "workload binding does not authorize this RPC")
    return principal
  else
    ensure (policy.assignments.any fun a =>
        a.principal = principal.name && decide (a.role ∈ rolesForRow rpc kind) &&
          a.scope.covers resource)
      (Status.permissionDenied "role scope does not cover the complete resource tuple")
    return principal

structure AuthorizedCall where
  rpc : Rpc
  principal : AuthorizedPrincipal
  resource : AuthorizationResource
  namespaceFilter : Option (List String)
  nodeFilter : Option (List String)
  jobQueueFilter : Option (List String)
  managerFilter : Option (List String)
  assignments : List RoleAssignment

def Rpc.allowedWhileClosed (rpc : Rpc) : Bool :=
  rpc.service = .lifecycle || rpc = .beginManagerRollout || rpc = .resetFailedManagerRollout ||
    rpc = .advanceManagerRollout || rpc = .getManagerRollout

/-- The union of what the assignments admit in one dimension, unless one of them
leaves it open. -/
def collectScope (assignments : List RoleAssignment)
    (selected : AssignmentScope → Option (List String)) : Option (List String) :=
  if assignments.any fun a => (selected a.scope).isNone then none
  else some ((assignments.flatMap fun a => (selected a.scope).getD []).dedup)

/-- The resource with the node of an enrolled proxy or node agent filled in. -/
def PolicySnapshot.effective (policy : PolicySnapshot) (evidence : LeafEvidence)
    (resource : AuthorizationResource) : AuthorizationResource :=
  { resource with
    nodeId := resource.nodeId.or (evidence.principal.bind fun uri =>
      enrolledNode (policy.proxyEnrollments ++ policy.nodeAgentEnrollments) uri.asStr) }

def PolicySnapshot.admitted (policy : PolicySnapshot) (rpc : Rpc) (name : String)
    (kind : PrincipalKind) : List RoleAssignment :=
  policy.assignments.filter fun a =>
    a.principal = name && decide (a.role ∈ rolesForRow rpc kind)

/-- `ManagerAuthorizer::authorize`. `isOpen` is the state of the admission gate. -/
def authorize (policy : PolicySnapshot) (isOpen : Bool) (peer : Peer) (rpc : Rpc)
    (resource : AuthorizationResource) : Except Status AuthorizedCall := do
  let evidence ← peerEvidence peer
  let effective := policy.effective evidence resource
  let principal ← authorizeRowEvidence policy rpc evidence effective
  ensure (isOpen = true ∨ rpc.allowedWhileClosed = true)
    (Status.unavailable "privileged manager admission is closed")
  let assignments := policy.admitted rpc principal.name principal.kind
  return {
    rpc, principal, resource := effective
    namespaceFilter := collectScope assignments (·.namespaceIds)
    nodeFilter := collectScope assignments (·.nodeIds)
    jobQueueFilter := collectScope assignments (·.jobQueueIds)
    managerFilter := collectScope assignments (·.managerIds)
    assignments }

def AuthorizedCall.verify (call : AuthorizedCall) (rpc : Rpc) : Except Status Unit :=
  ensure (call.rpc = rpc)
    (Status.permissionDenied "authorized caller context does not match the invoked RPC")

/-- A row is kept if one assignment admits all of it. A workload's call has no assignments and keeps
every row. -/
def AuthorizedCall.allowsCollectionItem (call : AuthorizedCall)
    (namespaceId nodeId jobQueueId managerId : Option String) : Bool :=
  call.assignments.isEmpty || call.assignments.any fun a =>
    namespaceId.all (allows a.scope.namespaceIds) && nodeId.all (allows a.scope.nodeIds) &&
      jobQueueId.all (allows a.scope.jobQueueIds) && managerId.all (allows a.scope.managerIds)

variable {ids : Option (List String)} {resource : AuthorizationResource} {evidence : LeafEvidence}
  {policy : PolicySnapshot} {rpc : Rpc}

theorem allows_eq_true {value : String} :
    allows ids value = true ↔ ∀ allowed ∈ ids, value ∈ allowed := by
  cases ids <;> simp [allows]

theorem all_allows {value : Option String} :
    value.all (allows ids) = true ↔ ∀ allowed ∈ ids, ∀ v ∈ value.toList, v ∈ allowed := by
  cases value <;> simp [allows_eq_true]

theorem forall_dimension {P : Dimension → Prop} :
    (∀ d, P d) ↔ P .nspace ∧ P .node ∧ P .jobQueue ∧ P .manager := by
  constructor
  · intro h
    exact ⟨h .nspace, h .node, h .jobQueue, h .manager⟩
  · rintro ⟨hnspace, hnode, hqueue, hmanager⟩ d
    cases d <;> assumption

theorem AssignmentScope.covers_iff {scope : AssignmentScope} :
    scope.covers resource = true ↔ Covers scope.grant resource.values := by
  rw [Covers, forall_dimension, AssignmentScope.covers]
  simp only [Bool.and_eq_true, all_allows, and_assoc, AssignmentScope.grant,
    AuthorizationResource.values]
  cases scope.managerIds <;> simp

def grants (assignments : List RoleAssignment) : List (Grant Dimension String) :=
  assignments.map (·.scope.grant)

theorem covered_grants {assignments : List RoleAssignment} {resource : Resource Dimension String} :
    Covered (grants assignments) resource ↔ ∃ a ∈ assignments, Covers a.scope.grant resource := by
  simp [Covered, grants]

theorem AuthorizedCall.allowsCollectionItem_iff {call : AuthorizedCall}
    (hassignments : call.assignments ≠ []) {namespaceId nodeId jobQueueId managerId : Option String} :
    call.allowsCollectionItem namespaceId nodeId jobQueueId managerId = true ↔
      Covered (grants call.assignments)
        (AuthorizationResource.values ⟨namespaceId, nodeId, jobQueueId, managerId.toList⟩) := by
  have hempty : call.assignments.isEmpty = false := by simpa using hassignments
  simp only [allowsCollectionItem, hempty, Bool.false_or, List.any_eq_true, covered_grants, Covers,
    forall_dimension, Bool.and_eq_true, all_allows, and_assoc, AssignmentScope.grant,
    AuthorizationResource.values]

/-- The caller is who the policy says, with a certificate it still accepts. -/
structure Recognized (policy : PolicySnapshot) (evidence : LeafEvidence) (uri : PrincipalUri) :
    Prop where
  client : evidence.profile = .client
  principal : evidence.principal = some uri
  cluster : uri.clusterId = policy.clusterId
  unrevoked : evidence.fingerprint ∉ policy.revokedLeafFingerprints
  declared : policy.principals.lookup uri.asStr = some uri.kind

def PrincipalKind.isAssignable : PrincipalKind → Bool
  | .human | .serviceAccount => true
  | _ => false

theorem enrolledNode_eq_none {enrollments : List NodeEnrollment} {principal : String}
    (habsent : ∀ e ∈ enrollments, e.principal ≠ principal) :
    enrolledNode enrollments principal = none := by
  rw [enrolledNode, Option.map_eq_none_iff, List.find?_eq_none]
  intro e he
  simpa using habsent e he

theorem ValidatedPolicy.effective_eq (policy : ValidatedPolicy)
    (hrecognized : Recognized policy.toPolicySnapshot evidence uri)
    (hperson : uri.kind.isAssignable = true) (resource : AuthorizationResource) :
    policy.effective evidence resource = resource := by
  have hnode : enrolledNode (policy.proxyEnrollments ++ policy.nodeAgentEnrollments) uri.asStr =
      none := by
    apply enrolledNode_eq_none
    intro e he hself
    have hdeclared := hrecognized.declared
    rw [← hself] at hdeclared
    rcases List.mem_append.mp he with he | he
    · rw [policy.wellFormed.proxies e he, Option.some.injEq] at hdeclared
      simp [← hdeclared, PrincipalKind.isAssignable] at hperson
    · rw [policy.wellFormed.nodeAgents e he, Option.some.injEq] at hdeclared
      simp [← hdeclared, PrincipalKind.isAssignable] at hperson
  simp [PolicySnapshot.effective, hrecognized.principal, hnode]

theorem any_covers_iff {name : String} {kind : PrincipalKind} :
    (policy.assignments.any fun a => a.principal = name &&
        decide (a.role ∈ rolesForRow rpc kind) && a.scope.covers resource) = true ↔
      Covered (grants (policy.admitted rpc name kind)) resource.values := by
  simp only [List.any_eq_true, covered_grants, PolicySnapshot.admitted, List.mem_filter,
    Bool.and_eq_true, AssignmentScope.covers_iff, and_assoc]

theorem authorizeRowEvidence_eq_ok {principal : AuthorizedPrincipal}
    (hprincipal : evidence.principal = some uri) (hperson : uri.kind.isAssignable = true) :
    authorizeRowEvidence policy rpc evidence resource = .ok principal ↔
      Recognized policy evidence uri ∧
        Covered (grants (policy.admitted rpc uri.asStr uri.kind)) resource.values ∧
        principal = ⟨uri.asStr, uri.kind, none, evidence.fingerprint⟩ := by
  have hkind : uri.kind.isWorkload = false := by
    cases hkind : uri.kind <;> simp_all [PrincipalKind.isAssignable, PrincipalKind.isWorkload]
  have henrollment : policy.enrollment uri.kind uri.asStr = some none := by
    cases hkind : uri.kind <;> simp_all [PrincipalKind.isAssignable, PolicySnapshot.enrollment]
  have hdeclared (kind : PrincipalKind) :
      (policy.principals.lookup uri.asStr).filter (· = uri.kind) = some kind ↔
        policy.principals.lookup uri.asStr = some uri.kind ∧ kind = uri.kind := by
    rw [Option.filter_eq_some_iff]
    constructor
    · rintro ⟨hlookup, hkind⟩
      rw [decide_eq_true_eq] at hkind
      exact ⟨hkind ▸ hlookup, hkind⟩
    · rintro ⟨hlookup, rfl⟩
      exact ⟨hlookup, by simp⟩
  simp only [authorizeRowEvidence, bind_eq_ok, ensure_eq_ok, required_eq_ok]
  constructor
  · rintro ⟨_, hclient, uri', huri, _, hcluster, _, hunrevoked, kind, hlookup, nodeId, hnode, hrow⟩
    obtain rfl : uri = uri' := by simpa [hprincipal] using huri
    obtain ⟨hknown, rfl⟩ := (hdeclared kind).mp hlookup
    obtain rfl : none = nodeId := by simpa [henrollment] using hnode
    simp only [hkind, Bool.false_eq_true, if_false, bind_eq_ok, ensure_eq_ok, pure_eq_ok,
      any_covers_iff] at hrow
    obtain ⟨_, hcovered, hreturn⟩ := hrow
    exact ⟨⟨hclient, hprincipal, hcluster, hunrevoked, hknown⟩, hcovered, hreturn.symm⟩
  · rintro ⟨hrecognized, hcovered, rfl⟩
    refine ⟨⟨⟩, hrecognized.client, uri, hprincipal, ⟨⟩, hrecognized.cluster, ⟨⟩,
      hrecognized.unrevoked, uri.kind, (hdeclared uri.kind).mpr ⟨hrecognized.declared, rfl⟩, none,
      henrollment, ?_⟩
    simp only [hkind, Bool.false_eq_true, if_false, bind_eq_ok, ensure_eq_ok, pure_eq_ok,
      any_covers_iff]
    exact ⟨⟨⟩, hcovered, trivial⟩

theorem ValidatedPolicy.authorize_eq_ok (policy : ValidatedPolicy) {isOpen : Bool}
    (hprincipal : evidence.principal = some uri) (hperson : uri.kind.isAssignable = true)
    {call : AuthorizedCall}
    (hauthorize : authorize policy.toPolicySnapshot isOpen (some (.ok evidence)) rpc resource =
      .ok call) : (Recognized policy.toPolicySnapshot evidence uri ∧
      (isOpen = true ∨ rpc.allowedWhileClosed = true) ∧
      Covered (grants (policy.admitted rpc uri.asStr uri.kind)) resource.values) ∧
    call.rpc = rpc ∧ call.assignments = policy.admitted rpc uri.asStr uri.kind := by
  simp only [authorize, peerEvidence, bind_eq_ok, required_eq_ok, ensure_eq_ok, mapError_eq_ok,
    pure_eq_ok] at hauthorize
  obtain ⟨_, ⟨_, hpeer, hleaf⟩, _, hrow, _, hopen, rfl⟩ := hauthorize
  cases hpeer
  cases hleaf
  obtain ⟨hrecognized, hcovered, rfl⟩ :=
    (authorizeRowEvidence_eq_ok hprincipal hperson).mp hrow
  rw [policy.effective_eq hrecognized hperson] at hcovered
  exact ⟨⟨hrecognized, hopen, hcovered⟩, rfl, rfl⟩

theorem ValidatedPolicy.authorize_of_covered (policy : ValidatedPolicy) {isOpen : Bool}
    (hperson : uri.kind.isAssignable = true)
    (hrecognized : Recognized policy.toPolicySnapshot evidence uri)
    (hopen : isOpen = true ∨ rpc.allowedWhileClosed = true)
    (hcovered : Covered (grants (policy.admitted rpc uri.asStr uri.kind)) resource.values) :
    ∃ call, authorize policy.toPolicySnapshot isOpen (some (.ok evidence)) rpc resource =
      .ok call := by
  rw [← policy.effective_eq hrecognized hperson resource] at hcovered
  have hrow := (authorizeRowEvidence_eq_ok hrecognized.principal hperson).mpr
    ⟨hrecognized, hcovered, rfl⟩
  exact ⟨_, bind_eq_ok.mpr ⟨evidence, rfl, bind_eq_ok.mpr ⟨_, hrow,
    bind_eq_ok.mpr ⟨⟨⟩, ensure_eq_ok.mpr hopen, rfl⟩⟩⟩⟩

end Wruntime.Auth
