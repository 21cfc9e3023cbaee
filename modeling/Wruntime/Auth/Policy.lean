import Mathlib.Algebra.GroupWithZero.Nat
import Mathlib.Data.String.Basic
import Wruntime.Lib.Grants
import Wruntime.Lib.Table
import Wruntime.Manager.Types

/-!
The authorization policy, as `ValidatedPolicy::load` accepts it: an assignment belongs to a declared
principal that may hold its role, its scope restricts only dimensions of that role, and an enrolled
principal is a workload of the matching kind. Decoding and the canonical digest are left out.
-/

namespace Wruntime.Auth

open Fallible Grants

inductive PrincipalKind where
  | human
  | serviceAccount
  | manager
  | proxy
  | nodeAgent
  | postgresClient
  deriving DecidableEq

def PrincipalKind.asStr : PrincipalKind → String
  | .human => "human"
  | .serviceAccount => "service-account"
  | .manager => "manager"
  | .proxy => "proxy"
  | .nodeAgent => "node-agent"
  | .postgresClient => "postgres-client"

def PrincipalKind.fromStr : String → Except String PrincipalKind
  | "human" => .ok .human
  | "service-account" => .ok .serviceAccount
  | "manager" => .ok .manager
  | "proxy" => .ok .proxy
  | "node-agent" => .ok .nodeAgent
  | "postgres-client" => .ok .postgresClient
  | _ => .error "unsupported principal kind"

inductive PolicyRole where
  | admin
  | view
  | infra
  | jobView
  | jobAdmin
  | status
  | route
  | secret
  | schedule
  | deploy
  deriving DecidableEq

def PolicyRole.asStr : PolicyRole → String
  | .admin => "admin"
  | .view => "view"
  | .infra => "infra"
  | .jobView => "job-view"
  | .jobAdmin => "job-admin"
  | .status => "status"
  | .route => "route"
  | .secret => "secret"
  | .schedule => "schedule"
  | .deploy => "deploy"

def PolicyRole.fromStr : String → Except String PolicyRole
  | "admin" => .ok .admin
  | "view" => .ok .view
  | "infra" => .ok .infra
  | "job-view" => .ok .jobView
  | "job-admin" => .ok .jobAdmin
  | "status" => .ok .status
  | "route" => .ok .route
  | "secret" => .ok .secret
  | "schedule" => .ok .schedule
  | "deploy" => .ok .deploy
  | value => .error s!"unsupported authorization role '{value}'"

def maxStableNameLen : Nat := 24

/-- `validate_name`: the rule for namespaces, nodes, queues, managers, clusters
and principal names. -/
def validateName (value kind : String) : Except String Unit := do
  let plain := fun c : Char => c.isLower || c.isDigit
  ensure (value.toList ≠ []) s!"{kind} is required"
  ensure (value.utf8ByteSize ≤ maxStableNameLen)
    s!"{kind} must be at most {maxStableNameLen} characters"
  ensure (value.toList.head?.any plain)
    s!"{kind} must start with a lowercase ASCII letter or digit"
  ensure (value.toList.getLast?.any plain)
    s!"{kind} must end with a lowercase ASCII letter or digit"
  ensure (value.toList.all fun c => plain c || c = '-')
    s!"{kind} may contain only lowercase ASCII letters, digits, and '-'"

structure PrincipalUri where
  clusterId : String
  kind : PrincipalKind
  name : String

def PrincipalUri.asStr (uri : PrincipalUri) : String :=
  "urn:wruntime:" ++ uri.clusterId ++ ":" ++ uri.kind.asStr ++ ":" ++ uri.name

def PrincipalUri.parse (value : String) : Except String PrincipalUri :=
  match value.splitOn ":" with
  | "urn" :: "wruntime" :: [] => .error "principal URI is missing cluster id"
  | "urn" :: "wruntime" :: [_] => .error "principal URI is missing kind"
  | "urn" :: "wruntime" :: [_, _] => .error "principal URI is missing name"
  | "urn" :: "wruntime" :: [cluster, kind, name] => do
    validateName cluster "cluster id"
    let kind ← PrincipalKind.fromStr kind
    validateName name "principal name"
    let uri : PrincipalUri := ⟨cluster, kind, name⟩
    ensure (uri.asStr = value) "principal URI is not byte-exact canonical form"
    return uri
  | "urn" :: "wruntime" :: _ => .error "principal URI has trailing segments"
  | _ => .error "principal URI must start with urn:wruntime:"

structure RawPrincipal where
  uri : String
  kind : String

structure RawScope where
  namespaceIds : Option (List String)
  nodeIds : Option (List String)
  jobQueueIds : Option (List String)
  managerIds : Option (List String)

structure RawAssignment where
  principal : String
  role : String
  scope : RawScope

structure ManagerEnrollment where
  principal : String
  managerId : String
  endpoint : String

structure NodeEnrollment where
  principal : String
  nodeId : String

structure RawPolicy where
  schemaVersion : Nat
  generation : Nat
  clusterId : String
  principals : List RawPrincipal
  assignments : List RawAssignment
  managerEnrollments : List ManagerEnrollment
  proxyEnrollments : List NodeEnrollment
  nodeAgentEnrollments : List NodeEnrollment
  revokedLeafFingerprints : List String

inductive Dimension where
  | nspace
  | node
  | jobQueue
  | manager
  deriving DecidableEq

instance : Fintype Dimension :=
  ⟨{.nspace, .node, .jobQueue, .manager}, by intro d; cases d <;> decide⟩

structure AssignmentScope where
  namespaceIds : Option (List String)
  nodeIds : Option (List String)
  jobQueueIds : Option (List String)
  managerIds : Option (List String)
  deriving DecidableEq

def AssignmentScope.grant (scope : AssignmentScope) : Grant Dimension String
  | .nspace => scope.namespaceIds
  | .node => scope.nodeIds
  | .jobQueue => scope.jobQueueIds
  | .manager => scope.managerIds

structure RoleAssignment where
  principal : String
  role : PolicyRole
  scope : AssignmentScope
  deriving DecidableEq

def checkedSet (values : Option (List String)) (label : String)
    (parse : String → Except String Unit) : Except String (Option (List String)) :=
  match values with
  | none => return none
  | some values => do
    ensure (values ≠ []) s!"{label} must not be empty when present"
    let set ← values.foldlM (fun set value => do
      (parse value).mapError fun _ => s!"invalid {label} value '{value}'"
      ensure (value ∉ set) s!"duplicate {label} value"
      return set.orderedInsert (· ≤ ·) value) []
    return some set

def allowedDimensions : PrincipalKind → PolicyRole → Except String (List Dimension)
  | .human, .admin => .ok []
  | .human, .view => .ok [.nspace, .node]
  | .human, .infra => .ok [.node, .manager]
  | .human, .jobView | .human, .jobAdmin => .ok [.jobQueue]
  | .serviceAccount, .status => .ok [.nspace, .node]
  | .serviceAccount, .route | .serviceAccount, .secret | .serviceAccount, .schedule =>
    .ok [.nspace]
  | .serviceAccount, .infra => .ok [.node]
  | .serviceAccount, .deploy => .ok [.node, .manager]
  | .serviceAccount, .jobView | .serviceAccount, .jobAdmin => .ok [.jobQueue]
  | kind, role =>
    .error ("role '" ++ role.asStr ++ "' is invalid for principal kind " ++ kind.asStr)

def AssignmentScope.Within (scope : AssignmentScope) (allowed : List Dimension) : Prop :=
  ∀ d, (scope.grant d).isSome → d ∈ allowed

instance (scope : AssignmentScope) (allowed : List Dimension) :
    Decidable (scope.Within allowed) :=
  inferInstanceAs (Decidable (∀ d, (scope.grant d).isSome → d ∈ allowed))

def AssignmentScope.size (scope : AssignmentScope) : Nat :=
  ([scope.namespaceIds, scope.nodeIds, scope.jobQueueIds, scope.managerIds].map fun ids =>
    (ids.getD []).length).sum

def maxPrincipals : Nat := 4096
def maxAssignments : Nat := 16384
def maxAssignmentsPerPrincipal : Nat := 16
def maxScopeValues : Nat := 65536
def maxScopeValuesPerAssignment : Nat := 1024
def maxManagers : Nat := 128
def maxProxies : Nat := 4096
def maxNodeAgents : Nat := 4096
def maxRevokedFingerprints : Nat := 16384

abbrev Principals := List (String × PrincipalKind)

def declarePrincipal (cluster : String) (principals : Principals) (raw : RawPrincipal) :
    Except String Principals := do
  let uri ← PrincipalUri.parse raw.uri
  let kind ← PrincipalKind.fromStr raw.kind
  ensure (uri.clusterId = cluster) "principal belongs to the wrong cluster"
  ensure (uri.kind = kind) "principal kind does not match URI kind"
  ensure (principals.lookup uri.asStr = none) "principal URIs must be unique"
  return principals ++ [(uri.asStr, kind)]

def checkedScope (scope : RawScope) : Except String AssignmentScope := do
  let namespaceIds ← checkedSet scope.namespaceIds "namespace_ids" (validateName · "namespace")
  let nodeIds ← checkedSet scope.nodeIds "node_ids" (validateName · "node id")
  let jobQueueIds ← checkedSet scope.jobQueueIds "job_queue_ids" (validateName · "job queue id")
  let managerIds ← checkedSet scope.managerIds "manager_ids" (validateName · "manager id")
  return ⟨namespaceIds, nodeIds, jobQueueIds, managerIds⟩

def addAssignment (principals : Principals) (assignments : List RoleAssignment)
    (item : RawAssignment) : Except String (List RoleAssignment) := do
  let kind ← required (principals.lookup item.principal) "assignment principal is not declared"
  ensure (kind = .human ∨ kind = .serviceAccount)
    "workload principals cannot have role assignments"
  let role ← PolicyRole.fromStr item.role
  let allowed ← allowedDimensions kind role
  let scope ← checkedScope item.scope
  ensure (scope.Within allowed) "scope dimension is not allowed for this principal kind/role"
  ensure (scope.size ≤ maxScopeValuesPerAssignment) "assignment exceeds scope-value cap"
  ensure ((assignments.map (·.scope.size)).sum + scope.size ≤ maxScopeValues)
    "authorization policy exceeds total scope-value cap"
  ensure (assignments.countP (·.principal = item.principal) + 1 ≤ maxAssignmentsPerPrincipal)
    "principal exceeds assignment cap"
  return assignments ++ [⟨item.principal, role, scope⟩]

/-- A manager enrollment, with the principals enrolled so far. `peerHttpsUrl` is
the syntax of peer addresses. -/
def enrollManager (peerHttpsUrl : String → Except String Unit) (principals : Principals)
    (managers : List ManagerEnrollment) (item : ManagerEnrollment) :
    Except String (List ManagerEnrollment) := do
  let uri ← PrincipalUri.parse item.principal
  ensure (principals.lookup uri.asStr = some .manager)
    "manager enrollment principal kind mismatch"
  validateName item.managerId "manager id"
  ensure (uri.name = item.managerId) "manager principal name must equal manager_id"
  peerHttpsUrl item.endpoint
  ensure (item.principal ∉ managers.map (·.principal))
    "workload principal may be enrolled only once"
  ensure (item.managerId ∉ managers.map (·.managerId)) "manager IDs must be unique"
  ensure (item.endpoint ∉ managers.map (·.endpoint)) "manager endpoints must be unique"
  return managers ++ [item]

def enrollNode (principals : Principals) (enrolled : List String) (expected : PrincipalKind)
    (items : List NodeEnrollment) (item : NodeEnrollment) :
    Except String (List NodeEnrollment) := do
  let uri ← PrincipalUri.parse item.principal
  ensure (principals.lookup uri.asStr = some expected)
    "workload enrollment principal kind mismatch"
  validateName item.nodeId "node id"
  ensure (item.principal ∉ enrolled ++ items.map (·.principal))
    "workload principal may be enrolled only once"
  return items ++ [item]

/-- `sha256:` and 64 lowercase hexadecimal digits. -/
def fingerprint (value : String) : Bool :=
  value.utf8ByteSize = 71 && "sha256:".toList.isPrefixOf value.toList &&
    (value.toList.drop 7).all fun c => c.isDigit || ('a' ≤ c && c ≤ 'f')

def PrincipalKind.isWorkload : PrincipalKind → Bool
  | .manager | .proxy | .nodeAgent => true
  | _ => false

structure PolicySnapshot where
  generation : Nat
  clusterId : String
  principals : Principals
  assignments : List RoleAssignment
  managerEnrollments : List ManagerEnrollment
  proxyEnrollments : List NodeEnrollment
  nodeAgentEnrollments : List NodeEnrollment
  revokedLeafFingerprints : List String

/-- The checks of `ValidatedPolicy::load` on the decoded document. -/
def validatePolicy (peerHttpsUrl : String → Except String Unit) (raw : RawPolicy) :
    Except String PolicySnapshot := do
  ensure (raw.schemaVersion = 1) "authorization policy schema_version must be 1"
  ensure (raw.generation ≠ 0) "authorization policy generation must be nonzero"
  validateName raw.clusterId "cluster id"
  ensure (raw.principals.length ≤ maxPrincipals) "authorization policy exceeds principal cap"
  ensure (raw.assignments.length ≤ maxAssignments) "authorization policy exceeds assignment cap"
  ensure (raw.managerEnrollments.length ≤ maxManagers)
    "authorization policy exceeds manager enrollment cap"
  ensure (raw.proxyEnrollments.length ≤ maxProxies)
    "authorization policy exceeds proxy enrollment cap"
  ensure (raw.nodeAgentEnrollments.length ≤ maxNodeAgents)
    "authorization policy exceeds node-agent enrollment cap"
  ensure (raw.revokedLeafFingerprints.length ≤ maxRevokedFingerprints)
    "authorization policy exceeds revocation cap"
  let principals ← raw.principals.foldlM (declarePrincipal raw.clusterId) []
  let assignments ← raw.assignments.foldlM (addAssignment principals) []
  ensure assignments.Nodup "duplicate role assignments are invalid"
  let managers ← raw.managerEnrollments.foldlM (enrollManager peerHttpsUrl principals) []
  let enrolled := managers.map (·.principal)
  let proxies ← raw.proxyEnrollments.foldlM (enrollNode principals enrolled .proxy) []
  let enrolled := enrolled ++ proxies.map (·.principal)
  let nodeAgents ← raw.nodeAgentEnrollments.foldlM (enrollNode principals enrolled .nodeAgent) []
  let enrolled := enrolled ++ nodeAgents.map (·.principal)
  ensure (∀ principal ∈ principals, principal.2.isWorkload = true → principal.1 ∈ enrolled)
    "every workload principal must have exactly one enrollment"
  ensure (∀ value ∈ raw.revokedLeafFingerprints, fingerprint value = true)
    "revocation must be sha256:<64 lowercase hex>"
  ensure raw.revokedLeafFingerprints.Nodup "duplicate revoked fingerprints are invalid"
  return ⟨raw.generation, raw.clusterId, principals, assignments, managers, proxies, nodeAgents,
    raw.revokedLeafFingerprints⟩

structure RoleAssignment.Admissible (principals : Principals) (a : RoleAssignment) : Prop where
  holder : ∃ kind, principals.lookup a.principal = some kind ∧
    ∃ allowed, allowedDimensions kind a.role = .ok allowed ∧ a.scope.Within allowed

structure PolicySnapshot.WellFormed (snapshot : PolicySnapshot) : Prop where
  assignments : ∀ a ∈ snapshot.assignments, a.Admissible snapshot.principals
  proxies : ∀ e ∈ snapshot.proxyEnrollments,
    snapshot.principals.lookup e.principal = some .proxy
  nodeAgents : ∀ e ∈ snapshot.nodeAgentEnrollments,
    snapshot.principals.lookup e.principal = some .nodeAgent

structure ValidatedPolicy extends PolicySnapshot where
  wellFormed : toPolicySnapshot.WellFormed

theorem PrincipalUri.asStr_of_parse {value : String} {uri : PrincipalUri}
    (hparse : PrincipalUri.parse value = .ok uri) : uri.asStr = value := by
  unfold PrincipalUri.parse at hparse
  split at hparse <;> try cases hparse
  obtain ⟨_, -, kind, -, _, -, _, hexact, hreturn⟩ :
      ∃ _, _ ∧ ∃ kind, _ ∧ ∃ _, _ ∧ ∃ _, _ := by
    simpa only [bind_eq_ok, pure_eq_ok, ensure_eq_ok] using hparse
  rw [← hreturn]
  exact hexact

theorem addAssignment_admissible {principals : Principals} {assignments next : List RoleAssignment}
    {item : RawAssignment} (hadmissible : ∀ a ∈ assignments, a.Admissible principals)
    (hadd : addAssignment principals assignments item = .ok next) :
    ∀ a ∈ next, a.Admissible principals := by
  simp only [addAssignment, bind_eq_ok, required_eq_ok, ensure_eq_ok, pure_eq_ok] at hadd
  obtain ⟨kind, hkind, _, -, role, -, allowed, hallowed, scope, -, _, hwithin, -, -, -, -, -, -,
    rfl⟩ := hadd
  intro a ha
  rcases Table.mem_snoc.mp ha with ha | rfl
  · exact hadmissible a ha
  · exact ⟨kind, hkind, allowed, hallowed, hwithin⟩

theorem enrollNode_declared {principals : Principals} {enrolled : List String}
    {expected : PrincipalKind} {items next : List NodeEnrollment} {item : NodeEnrollment}
    (hdeclared : ∀ e ∈ items, principals.lookup e.principal = some expected)
    (henroll : enrollNode principals enrolled expected items item = .ok next) :
    ∀ e ∈ next, principals.lookup e.principal = some expected := by
  simp only [enrollNode, bind_eq_ok, ensure_eq_ok, pure_eq_ok] at henroll
  obtain ⟨uri, huri, _, hkind, -, -, -, -, rfl⟩ := henroll
  rw [PrincipalUri.asStr_of_parse huri] at hkind
  intro e he
  rcases Table.mem_snoc.mp he with he | rfl
  · exact hdeclared e he
  · exact hkind

theorem validatePolicy_wellFormed {peerHttpsUrl : String → Except String Unit} {raw : RawPolicy}
    {snapshot : PolicySnapshot} (hvalid : validatePolicy peerHttpsUrl raw = .ok snapshot) :
    snapshot.WellFormed := by
  simp only [validatePolicy, bind_eq_ok, ensure_eq_ok, pure_eq_ok] at hvalid
  obtain ⟨_, -, _, -, _, -, _, -, _, -, _, -, _, -, _, -, _, -, principals, -, assignments,
    hassignments, _, -, managers, -, proxies, hproxies, nodeAgents, hnodeAgents, -, -, -, -, -, -,
    rfl⟩ := hvalid
  constructor
  · exact foldlM_invariant (P := fun assignments => ∀ a ∈ assignments, a.Admissible principals)
      (fun _ _ _ => addAssignment_admissible) (by simp) hassignments
  · exact foldlM_invariant
      (P := fun items => ∀ e ∈ items, principals.lookup e.principal = some .proxy)
      (fun _ _ _ => enrollNode_declared) (by simp) hproxies
  · exact foldlM_invariant
      (P := fun items => ∀ e ∈ items, principals.lookup e.principal = some .nodeAgent)
      (fun _ _ _ => enrollNode_declared) (by simp) hnodeAgents

/-- `ValidatedPolicy::load`, on the decoded document. -/
def ValidatedPolicy.load (peerHttpsUrl : String → Except String Unit) (raw : RawPolicy) :
    Except String ValidatedPolicy :=
  match hvalid : validatePolicy peerHttpsUrl raw with
  | .ok snapshot => .ok ⟨snapshot, validatePolicy_wellFormed hvalid⟩
  | .error message => .error message

end Wruntime.Auth
