import Mathlib.Algebra.Group.Int.Defs
import Wruntime.Auth.Policy
import Wruntime.Lib.Runs
import Wruntime.Lib.Wire

/-!
The workload snapshot consumer: `decode_snapshot` with its checks, and the four states through which
`consume` and `expire` take the retained snapshot. Protobuf and SHA-256 are the contract's; times
are counted in nanoseconds.
-/

namespace Wruntime.Snapshot

open Fallible Wire Auth

inductive ProjectionKind where
  | proxyPeerV1
  | engineJobAdminV1

def ProjectionKind.code : ProjectionKind → Int
  | .proxyPeerV1 => 1
  | .engineJobAdminV1 => 2

structure Timestamp where
  seconds : Int
  nanos : Int
  deriving DecidableEq

structure WorkloadEnrollment where
  principalUri : String
  workloadId : String
  deriving DecidableEq

structure WorkloadSnapshot where
  schemaVersion : Nat
  projectionKind : Int
  clusterId : String
  policyGeneration : Nat
  policyDigest : String
  projectionDigest : String
  issuedAt : Option Timestamp
  validUntil : Option Timestamp
  enrollmentCount : Nat
  revokedFingerprintCount : Nat
  enrollments : List WorkloadEnrollment
  revokedLeafFingerprints : List String
  deriving DecidableEq

/-- The protobuf codec and SHA-256 as hexadecimal text. -/
structure Contract where
  decode : Bytes → Option WorkloadSnapshot
  encode : WorkloadSnapshot → Bytes
  sha256 : Bytes → String

def second : Nat := 10 ^ 9

def snapshotValidity : Nat := 30 * second

def maxFutureSkew : Nat := 5 * second

def maxWorkloadProjectionBytes : Nat := 2 * 1024 * 1024

def be32 (n : Nat) : Bytes :=
  [UInt8.ofNat (n / 2 ^ 24), UInt8.ofNat (n / 2 ^ 16), UInt8.ofNat (n / 2 ^ 8), UInt8.ofNat n]

def pushU32 (value : Nat) : Except String Bytes := do
  ensure (value < 2 ^ 32) "out of range integral type conversion attempted"
  pure (be32 value)

def pushStr (value : String) : Except String Bytes := do
  let length ← pushU32 value.utf8ByteSize
  pure (length ++ textBytes value)

def domain : Bytes := textBytes "wruntime-workload-snapshot-v1"

def projectionDigest (contract : Contract) (snapshot : WorkloadSnapshot) :
    Except String String := do
  let cluster ← pushStr snapshot.clusterId
  let digest ← pushStr snapshot.policyDigest
  let enrollmentCount ← pushU32 snapshot.enrollments.length
  let enrollments ← snapshot.enrollments.mapM fun item => do
    let principal ← pushStr item.principalUri
    let workload ← pushStr item.workloadId
    pure (principal ++ workload)
  let revokedCount ← pushU32 snapshot.revokedLeafFingerprints.length
  let revoked ← snapshot.revokedLeafFingerprints.mapM pushStr
  pure ("sha256:" ++ contract.sha256
    (domain ++ be32 snapshot.schemaVersion ++ be32 (snapshot.projectionKind % 2 ^ 32).toNat ++
      cluster ++ be64 snapshot.policyGeneration ++ digest ++ enrollmentCount ++
      enrollments.flatten ++ revokedCount ++ revoked.flatten))

structure SnapshotIdentity where
  generation : Nat
  policyDigest : String
  projectionDigest : String
  deriving DecidableEq

structure IndexedSnapshot where
  wire : WorkloadSnapshot
  enrollments : List (String × String)
  revocations : List String
  deriving DecidableEq

def IndexedSnapshot.identity (snapshot : IndexedSnapshot) : SnapshotIdentity :=
  ⟨snapshot.wire.policyGeneration, snapshot.wire.policyDigest, snapshot.wire.projectionDigest⟩

def systemDuration (wall : Int) : Except String Nat := do
  ensure (0 ≤ wall) "wall clock precedes Unix epoch"
  pure wall.toNat

def timestampDuration (value : Timestamp) : Except String Nat := do
  ensure (0 ≤ value.nanos ∧ value.nanos < 10 ^ 9 ∧ 0 ≤ value.seconds)
    "malformed snapshot timestamp"
  pure (value.seconds.toNat * second + value.nanos.toNat)

def ProjectionKind.cap : ProjectionKind → Nat
  | .proxyPeerV1 => maxProxies
  | .engineJobAdminV1 => maxManagers

def ProjectionKind.principalKind : ProjectionKind → PrincipalKind
  | .proxyPeerV1 => .proxy
  | .engineJobAdminV1 => .manager

def ProjectionKind.workloadLabel : ProjectionKind → String
  | .proxyPeerV1 => "node id"
  | .engineJobAdminV1 => "manager id"

/-- One enrollment of the list, given the one before it. -/
def indexEnrollment (cluster : String) (kind : ProjectionKind)
    (acc : Option WorkloadEnrollment × List (String × String)) (item : WorkloadEnrollment) :
    Except String (Option WorkloadEnrollment × List (String × String)) := do
  let principal ← PrincipalUri.parse item.principalUri
  ensure (principal.clusterId = cluster ∧ principal.kind = kind.principalKind)
    "workload enrollment principal mismatch"
  validateName item.workloadId kind.workloadLabel
  ensure (acc.1.all fun previous =>
      decide (previous.principalUri < item.principalUri ∨
        previous.principalUri = item.principalUri ∧ previous.workloadId < item.workloadId))
    "workload enrollments must be strictly sorted and unique"
  pure (some item,
    acc.2.filter (·.1 ≠ item.principalUri) ++ [(item.principalUri, item.workloadId)])

def indexRevocation (seen : List String) (value : String) : Except String (List String) := do
  ensure (fingerprint value = true ∧ seen.getLast?.getD "" < value ∧ value ∉ seen)
    "revocations must be valid, sorted, and unique"
  pure (seen ++ [value])

def decodeSnapshot (contract : Contract) (raw : Bytes) (cluster : String) (kind : ProjectionKind)
    (receiptWall : Int) : Except String IndexedSnapshot := do
  ensure (raw.length ≤ maxWorkloadProjectionBytes) "workload snapshot exceeds 2 MiB"
  let snapshot ← required (contract.decode raw) "malformed workload snapshot"
  ensure (contract.encode snapshot = raw) "workload snapshot encoding is noncanonical"
  ensure (snapshot.schemaVersion = 1 ∧ 0 < snapshot.policyGeneration)
    "invalid workload snapshot version/generation"
  ensure (snapshot.projectionKind = kind.code ∧ snapshot.clusterId = cluster)
    "wrong workload snapshot cluster/projection"
  validateName snapshot.clusterId "cluster id"
  ensure (fingerprint snapshot.policyDigest = true ∧ fingerprint snapshot.projectionDigest = true)
    "invalid workload snapshot digest"
  ensure (snapshot.enrollmentCount = snapshot.enrollments.length ∧
      snapshot.revokedFingerprintCount = snapshot.revokedLeafFingerprints.length)
    "workload snapshot cardinality mismatch"
  ensure (snapshot.enrollments.length ≤ kind.cap ∧
      snapshot.revokedLeafFingerprints.length ≤ maxRevokedFingerprints)
    "workload snapshot cardinality cap exceeded"
  let (_, enrollments) ← snapshot.enrollments.foldlM (indexEnrollment cluster kind) (none, [])
  let revocations ← snapshot.revokedLeafFingerprints.foldlM indexRevocation []
  let digest ← projectionDigest contract snapshot
  ensure (digest = snapshot.projectionDigest) "workload projection digest mismatch"
  let issuedAt ← required snapshot.issuedAt "issued_at is required"
  let issued ← timestampDuration issuedAt
  let validUntil ← required snapshot.validUntil "valid_until is required"
  let until_ ← timestampDuration validUntil
  ensure (issued ≤ until_ ∧ until_ - issued = snapshotValidity)
    "snapshot validity must be exactly 30 seconds"
  let receipt ← systemDuration receiptWall
  ensure (issued ≤ receipt + maxFutureSkew ∧ receipt < until_)
    "snapshot freshness envelope is invalid"
  pure ⟨snapshot, enrollments, revocations⟩

inductive RecoveryPredicate where
  | anyCompleteValid
  | matchingRetainedOrHigher
  | strictlyHigherGeneration
  deriving DecidableEq

inductive SnapshotConsumerState where
  | empty
  | fresh (snapshot : IndexedSnapshot) (acceptedAt freshUntil : Nat)
  | stale (retained : IndexedSnapshot)
  | blocked (retained : Option IndexedSnapshot) (reason : String) (recovery : RecoveryPredicate)

def SnapshotConsumerState.isFresh (state : SnapshotConsumerState) (now : Nat) : Bool :=
  match state with
  | .fresh _ _ freshUntil => now < freshUntil
  | _ => false

def SnapshotConsumerState.expire (state : SnapshotConsumerState) (now : Nat) :
    SnapshotConsumerState :=
  match state with
  | .fresh snapshot _ freshUntil => if freshUntil ≤ now then .stale snapshot else state
  | _ => state

def SnapshotConsumerState.retained : SnapshotConsumerState → Option IndexedSnapshot
  | .fresh snapshot _ _ => some snapshot
  | .stale retained => some retained
  | .blocked retained _ _ => retained
  | .empty => none

def SnapshotConsumerState.recovery : SnapshotConsumerState → Option RecoveryPredicate
  | .blocked _ _ recovery => some recovery
  | _ => none

structure Setup where
  contract : Contract
  cluster : String
  kind : ProjectionKind

/-- One fetch: bytes or an error, the clocks at receipt, and whether the ownership fence still
matches. -/
structure Fetch where
  raw : Except String Bytes
  wall : Int
  now : Nat
  fenceMatches : Bool

def Setup.decoded (setup : Setup) (fetch : Fetch) : Except String IndexedSnapshot := do
  let bytes ← fetch.raw
  ensure (fetch.fenceMatches = true) "ownership fence mismatch"
  decodeSnapshot setup.contract bytes setup.cluster setup.kind fetch.wall

def IndexedSnapshot.validUntil (snapshot : IndexedSnapshot) : Nat :=
  match snapshot.wire.validUntil.map timestampDuration with
  | some (.ok until_) => until_
  | _ => 0

/-- The state after the candidate is taken in: fresh for what is left of its validity. -/
def accept (candidate : IndexedSnapshot) (fetch : Fetch) : SnapshotConsumerState :=
  let receipt := fetch.wall.toNat
  let budget := min snapshotValidity (candidate.validUntil - receipt)
  .fresh candidate fetch.now (fetch.now + budget)

def Setup.consume (setup : Setup) (state : SnapshotConsumerState) (fetch : Fetch) :
    SnapshotConsumerState :=
  let state := state.expire fetch.now
  let retained := state.retained
  let recovery := state.recovery
  match setup.decoded fetch with
  | .error reason =>
    let recovery := recovery.getD
      (if retained.isSome then .matchingRetainedOrHigher else .anyCompleteValid)
    .blocked retained reason recovery
  | .ok candidate =>
    match retained with
    | none => accept candidate fetch
    | some old =>
      if candidate.identity.generation < old.identity.generation then
        .blocked retained "policy generation regressed" .matchingRetainedOrHigher
      else if candidate.identity.generation = old.identity.generation ∧
          candidate.identity ≠ old.identity then
        .blocked retained "same-generation snapshot digest conflict" .strictlyHigherGeneration
      else if recovery = some .strictlyHigherGeneration ∧
          candidate.identity.generation ≤ old.identity.generation then
        state
      else if recovery = some .matchingRetainedOrHigher ∧
          candidate.identity.generation = old.identity.generation ∧
          candidate.identity ≠ old.identity then
        state
      else accept candidate fetch

inductive Input where
  | consume (fetch : Fetch)
  | expire (now : Nat)

def Setup.next (setup : Setup) (state : SnapshotConsumerState) : Input → SnapshotConsumerState
  | .consume fetch => setup.consume state fetch
  | .expire now => state.expire now

end Wruntime.Snapshot
