import Wruntime.Auth.Policy

/-!
The provisioning manifest of a PostgreSQL cluster: its validation, the databases, roles and schemas
derived from it, and the digest of a generation of it. Names are derived from identities; one that
would be too long, and every login name, carries part of a digest of the identity.
-/

namespace Wruntime.Postgres

open Fallible
open Auth (validateName)

inductive Ip
  | v4 (bits : BitVec 32)
  | v6 (bits : BitVec 128)
  deriving DecidableEq

structure PostgresProvisioningLimits where
  namespaceDatabaseConnections : Nat
  runtimeLoginConnections : Nat
  readinessVerifierConnections : Nat
  statementTimeoutMs : Nat
  lockTimeoutMs : Nat
  idleInTransactionTimeoutMs : Nat

structure PlatformDatabases where
  manager : String
  jobQueues : List String

structure PostgresProvisioningNode where
  nodeId : String
  certificatePemPath : String
  certificateSha256 : String
  certificateCommonName : String

structure PostgresProvisioningNamespace where
  name : String
  modules : List String

structure PostgresProvisioningManifest where
  formatVersion : Nat
  clusterId : String
  generation : Nat
  postgresMajor : Nat
  postgresCaSha256 : String
  identMapName : String
  platformDatabases : PlatformDatabases
  extensionAllowlist : List String
  tenantClientCidrs : List String
  limits : PostgresProvisioningLimits
  nodes : List PostgresProvisioningNode
  namespaces : List PostgresProvisioningNamespace

/-- From the libraries: digest of an identity, digest of a manifest's text, and the addresses that
parse. -/
structure Codec where
  identityDigest : String → List String → List Char
  encodedDigest : PostgresProvisioningManifest → String
  parseIp : String → Option Ip

def postgresIdentifierMaxBytes : Nat := 63

def hexDigit (n : Nat) : Char := if n < 10 then Char.ofNat (48 + n) else Char.ofNat (87 + n)

def storageByte (byte : UInt8) : List Char :=
  let c := Char.ofNat byte.toNat
  if c.isAlphanum then [c]
  else if c = '-' then ['_']
  else ['_', hexDigit (byte.toNat / 16), hexDigit (byte.toNat % 16)]

def storageComponent (value : String) : List Char :=
  value.toByteArray.data.toList.flatMap storageByte

section Names

variable (codec : Codec)

def boundedPostgresIdentifier (start domain : String) (components : List String)
    (alwaysHash : Bool) (maxBytes : Nat) : String :=
  let encoded := ['_', '_'].intercalate (components.map storageComponent)
  let readable := start.toList ++ encoded
  if !alwaysHash && readable.length ≤ maxBytes then String.ofList readable
  else
    let suffix := '_' :: (codec.identityDigest domain components).take 12
    String.ofList (readable.take (maxBytes - suffix.length) ++ suffix)

def namespaceIdentifier (start domain ns : String) : String :=
  boundedPostgresIdentifier codec start domain [ns] false postgresIdentifierMaxBytes

def moduleSchema (ns name : String) : String :=
  String.ofList ("wr__".toList ++ storageComponent ns ++ ['_', '_'] ++ storageComponent name)

def namespaceRuntimeGroup : String → String :=
  namespaceIdentifier codec "wr_ns_" "namespace-runtime-group"

def namespaceDatabase : String → String :=
  namespaceIdentifier codec "wr_db_" "namespace-database"

def namespaceOwner : String → String := namespaceIdentifier codec "wr_owner_" "namespace-owner"

def namespaceMaintenanceRole : String → String :=
  namespaceIdentifier codec "wr_maint_" "namespace-maintenance"

def namespaceRuntimeLogin (node ns : String) : String :=
  boundedPostgresIdentifier codec "wr_runtime_" "namespace-runtime-login" [node, ns] true
    postgresIdentifierMaxBytes

def namespaceReadinessVerifier (node ns : String) : String :=
  boundedPostgresIdentifier codec "wr_ready_" "namespace-readiness-verifier" [node, ns] true
    postgresIdentifierMaxBytes

end Names

def isHexLower (c : Char) : Bool := c.isDigit || ('a' ≤ c && c ≤ 'f')

def validateSha256 (value field : String) : Except String Unit :=
  ensure (value.toList.length = 71 ∧ value.toList.take 7 = "sha256:".toList ∧
      (value.toList.drop 7).all isHexLower)
    (field ++ " must be a lowercase sha256 fingerprint")

def validateSqlToken (value kind : String) : Except String Unit :=
  ensure (value.toList ≠ [] ∧ value.utf8ByteSize ≤ 63 ∧
      value.toList.all fun c => c.isLower || c.isDigit || c = '_')
    ("invalid " ++ kind ++ " name")

def isCommonNameChar (c : Char) : Bool :=
  c.isAlphanum || c = '.' || c = '_' || c = ':' || c = '@' || c = '-'

def validateCommonName (value : String) : Except String Unit := do
  ensure (value.toList ≠ [] ∧ value.utf8ByteSize ≤ 128)
    "certificate Common Name has invalid length"
  ensure (value.toList.all isCommonNameChar) "certificate Common Name contains pg_ident syntax"
  ensure (value.toList.head? ≠ some '/') "certificate Common Name must be literal"

/-- The text before the first slash and the one behind it. -/
def splitSlash (value : String) : Option (String × String) :=
  if '/' ∈ value.toList then
    some (String.ofList (value.toList.takeWhile (· ≠ '/')),
      String.ofList ((value.toList.dropWhile (· ≠ '/')).tail))
  else none

/-- A number of one byte: digits, with an optional plus in front. -/
def parseU8 (value : String) : Option Nat :=
  let digits := if value.toList.head? = some '+' then value.toList.tail else value.toList
  let number := digits.foldl (fun n c => 10 * n + (c.toNat - '0'.toNat)) 0
  if digits ≠ [] ∧ digits.all Char.isDigit ∧ number < 256 then some number else none

def Ip.width : Ip → Nat
  | .v4 _ => 32
  | .v6 _ => 128

def validateCidr (codec : Codec) (value : String) : Except String Unit := do
  let error := "invalid tenant client CIDR: " ++ value
  let parts ← required (splitSlash value) error
  let address ← required (codec.parseIp parts.1) error
  let bits ← required (parseU8 parts.2) error
  ensure (bits ≤ address.width) error

/-- Add to a set that must not have the value yet. -/
def insertNew (seen : List String) (value error : String) : Except String (List String) := do
  ensure (value ∉ seen) error
  .ok (value :: seen)

structure NodesSeen where
  nodes : List String
  commonNames : List String
  fingerprints : List String

def validateNode (seen : NodesSeen) (node : PostgresProvisioningNode) :
    Except String NodesSeen := do
  validateName node.nodeId "node id"
  let nodes ← insertNew seen.nodes node.nodeId ("duplicate node_id: " ++ node.nodeId)
  validateCommonName node.certificateCommonName
  let commonNames ← insertNew seen.commonNames node.certificateCommonName
    "duplicate certificate Common Name"
  validateSha256 node.certificateSha256 "certificate_sha256"
  let fingerprints ← insertNew seen.fingerprints node.certificateSha256
    "duplicate node certificate fingerprint"
  ensure (node.certificatePemPath ≠ "") "certificate_pem_path is required"
  .ok { nodes, commonNames, fingerprints }

/-- The namespaces seen so far and the names derived for them. -/
structure NamespacesSeen where
  namespaces : List String
  physical : List (String × String)

def insertPhysical (ns : String) (physical : List (String × String)) (name : String) :
    Except String (List (String × String)) :=
  match physical.lookup name with
  | some previous =>
    .error ("derived PostgreSQL identity collision between " ++ previous ++ " and " ++ ns)
  | none => .ok ((name, ns) :: physical)

def validateNamespace (codec : Codec) (platform : List String) (seen : NamespacesSeen)
    (ns : PostgresProvisioningNamespace) : Except String NamespacesSeen := do
  validateName ns.name "namespace"
  let namespaces ← insertNew seen.namespaces ns.name ("duplicate namespace: " ++ ns.name)
  ensure (ns.modules ≠ []) "namespace modules must not be empty"
  let _ ← ns.modules.foldlM (fun modules module => do
    validateName module "module name"
    insertNew modules module "duplicate module in namespace") []
  ensure (namespaceDatabase codec ns.name ∉ platform)
    "tenant and platform databases must be distinct"
  let physical ← [namespaceDatabase codec ns.name, namespaceOwner codec ns.name,
    namespaceRuntimeGroup codec ns.name, namespaceMaintenanceRole codec ns.name].foldlM
      (insertPhysical ns.name) seen.physical
  .ok { namespaces, physical }

namespace PostgresProvisioningManifest

def platform (manifest : PostgresProvisioningManifest) : Except String (List String) :=
  manifest.platformDatabases.jobQueues.foldlM (fun seen database => do
    ensure (database ≠ "") "job queue database name is required"
    insertNew seen database "platform databases must be distinct")
    [manifest.platformDatabases.manager]

def limitValues (limits : PostgresProvisioningLimits) : List Nat :=
  [limits.namespaceDatabaseConnections, limits.runtimeLoginConnections,
    limits.readinessVerifierConnections, limits.statementTimeoutMs, limits.lockTimeoutMs,
    limits.idleInTransactionTimeoutMs]

def validate (codec : Codec) (manifest : PostgresProvisioningManifest) : Except String Unit := do
  ensure (manifest.formatVersion = 1)
    "unsupported PostgreSQL provisioning manifest format_version"
  validateName manifest.clusterId "cluster id"
  ensure (0 < manifest.generation) "generation must be nonzero"
  ensure (manifest.postgresMajor = 18) "postgres_major must be 18"
  ensure (manifest.identMapName = "wruntime_nodes") "ident_map_name must be wruntime_nodes"
  validateSha256 manifest.postgresCaSha256 "postgres_ca_sha256"
  ensure (manifest.platformDatabases.manager ≠ "") "manager database is required"
  let platform ← manifest.platform
  ensure (manifest.tenantClientCidrs ≠ []) "tenant_client_cidrs must not be empty"
  manifest.tenantClientCidrs.forM (validateCidr codec)
  manifest.extensionAllowlist.forM fun extension => validateSqlToken extension "extension"
  ensure ((limitValues manifest.limits).all (0 < ·)) "all limits must be nonzero"
  ensure (manifest.limits.runtimeLoginConnections ≤ manifest.limits.namespaceDatabaseConnections)
    "namespace database connection ceiling is below one runtime-login ceiling"
  ensure (manifest.nodes ≠ []) "nodes must not be empty"
  let _ ← manifest.nodes.foldlM validateNode ⟨[], [], []⟩
  ensure (manifest.namespaces ≠ []) "namespaces must not be empty"
  let _ ← manifest.namespaces.foldlM (validateNamespace codec platform) ⟨[], []⟩

end PostgresProvisioningManifest

theorem insertNew_eq_ok {seen seen' : List String} {value error : String}
    (h : insertNew seen value error = .ok seen') : value ∉ seen ∧ seen' = value :: seen := by
  simp only [insertNew, bind_eq_ok, ensure_eq_ok] at h
  obtain ⟨_, hfresh, hseen⟩ := h
  exact ⟨hfresh, (Except.ok.inj hseen).symm⟩

theorem validateNode_eq_ok {seen seen' : NodesSeen} {node : PostgresProvisioningNode}
    (h : validateNode seen node = .ok seen') :
    validateCommonName node.certificateCommonName = .ok () ∧
    (node.nodeId ∉ seen.nodes ∧ seen'.nodes = node.nodeId :: seen.nodes) ∧
      node.certificateCommonName ∉ seen.commonNames ∧
        seen'.commonNames = node.certificateCommonName :: seen.commonNames := by
  simp only [validateNode, bind_eq_ok] at h
  obtain ⟨_, _, nodes, hids, _, hname, names, hnames, _, _, fingerprints, _, _, _, hseen⟩ := h
  obtain rfl := Except.ok.inj hseen
  exact ⟨hname, insertNew_eq_ok hids, insertNew_eq_ok hnames⟩

theorem validateNamespace_eq_ok {codec : Codec} {platform : List String}
    {seen seen' : NamespacesSeen} {ns : PostgresProvisioningNamespace}
    (h : validateNamespace codec platform seen ns = .ok seen') :
    ns.name ∉ seen.namespaces ∧ seen'.namespaces = ns.name :: seen.namespaces := by
  simp only [validateNamespace, bind_eq_ok] at h
  obtain ⟨_, _, namespaces, hnames, _, _, _, _, _, _, physical, _, hseen⟩ := h
  obtain rfl := Except.ok.inj hseen
  exact insertNew_eq_ok hnames

structure PostgresProvisioningManifest.Distinct (m : PostgresProvisioningManifest) : Prop where
  validNames : ∀ node ∈ m.nodes, validateCommonName node.certificateCommonName = .ok ()
  nodeIds : (m.nodes.map (·.nodeId)).Nodup
  commonNames : (m.nodes.map (·.certificateCommonName)).Nodup
  namespaces : (m.namespaces.map (·.name)).Nodup

theorem distinct_of_validate {codec : Codec} {m : PostgresProvisioningManifest}
    (h : m.validate codec = .ok ()) : m.identMapName = "wruntime_nodes" ∧ m.Distinct := by
  simp only [PostgresProvisioningManifest.validate, bind_eq_ok, ensure_eq_ok] at h
  obtain ⟨_, _, _, _, _, _, _, _, _, hname, _, _, _, _, platform, _, _, _, _, _, _, _, _, _, _, _,
    _, _, _, hnodes, _, _, _, hnamespaces, _⟩ := h
  refine ⟨hname, ?_, (nodup_of_foldlM (fun _ _ _ h => (validateNode_eq_ok h).2.1) hnodes).1,
    (nodup_of_foldlM (fun _ _ _ h => (validateNode_eq_ok h).2.2) hnodes).1,
    (nodup_of_foldlM (fun _ _ _ h => validateNamespace_eq_ok h) hnamespaces).1⟩
  intro node hnode
  obtain ⟨seen, seen', hseen⟩ := exists_of_foldlM hnodes node hnode
  exact (validateNode_eq_ok hseen).1

structure DerivedNodeLogins where
  nodeId : String
  runtime : String
  readiness : String

structure DerivedNamespace where
  name : String
  database : String
  owner : String
  runtimeGroup : String
  maintenanceRole : String
  schemas : List String
  nodeLogins : List DerivedNodeLogins

namespace PostgresProvisioningManifest

def deriveNamespaces (codec : Codec) (manifest : PostgresProvisioningManifest) :
    List DerivedNamespace :=
  manifest.namespaces.map fun ns =>
    { name := ns.name
      database := namespaceDatabase codec ns.name
      owner := namespaceOwner codec ns.name
      runtimeGroup := namespaceRuntimeGroup codec ns.name
      maintenanceRole := namespaceMaintenanceRole codec ns.name
      schemas := ns.modules.map (moduleSchema ns.name)
      nodeLogins := manifest.nodes.map fun node =>
        { nodeId := node.nodeId
          runtime := namespaceRuntimeLogin codec node.nodeId ns.name
          readiness := namespaceReadinessVerifier codec node.nodeId ns.name } }

/-- The manifest with its lists in order; the modules of a namespace stay as they are. -/
def normalized (manifest : PostgresProvisioningManifest) : PostgresProvisioningManifest :=
  { manifest with
    platformDatabases :=
      { manifest.platformDatabases with
        jobQueues := manifest.platformDatabases.jobQueues.insertionSort (· ≤ ·) }
    extensionAllowlist := manifest.extensionAllowlist.insertionSort (· ≤ ·)
    tenantClientCidrs := manifest.tenantClientCidrs.insertionSort (· ≤ ·)
    nodes := manifest.nodes.insertionSort fun a b => a.nodeId ≤ b.nodeId
    namespaces := manifest.namespaces.insertionSort fun a b => a.name ≤ b.name }

def normalizedDigest (codec : Codec) (manifest : PostgresProvisioningManifest) : String :=
  "sha256:" ++ codec.encodedDigest manifest.normalized

end PostgresProvisioningManifest

/-! A cluster with one node, one namespace and one tenant network. -/

namespace Sample

def codec : Codec where
  identityDigest _ _ := []
  encodedDigest _ := ""
  parseIp text := if text = "172.16.0.0" then some (.v4 0xac100000) else none

def fingerprint : String :=
  "sha256:00112233445566778899aabbccddeeff00112233445566778899aabbccddeeff"

def manifest (generation : Nat) (nodeId : String) : PostgresProvisioningManifest where
  formatVersion := 1
  clusterId := "cluster"
  generation := generation
  postgresMajor := 18
  postgresCaSha256 := fingerprint
  identMapName := "wruntime_nodes"
  platformDatabases := ⟨"wr_manager", []⟩
  extensionAllowlist := []
  tenantClientCidrs := ["172.16.0.0/12"]
  limits := ⟨10, 5, 2, 1000, 1000, 1000⟩
  nodes := [⟨nodeId, "node.pem", fingerprint, "tenant-1"⟩]
  namespaces := [⟨"billing", ["invoices"]⟩]

end Sample

end Wruntime.Postgres
