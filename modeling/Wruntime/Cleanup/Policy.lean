import Mathlib.Data.List.Dedup
import Wruntime.Lib.Wire
import Wruntime.Manager.Deployments

/-!
Which releases of a node may be deleted. The catalogue is every deployment not recorded as deleted,
and a revision is protected if anything may still need it. The policy's fingerprint is a digest of
the retention count, the protected revisions and the catalogue, written one after the other.
-/

namespace Wruntime.Cleanup

open Fallible Wire
open Manager (Db Deployment Revision Status Time)

variable {db : Db} {deleted : List Revision} {r : Release}

structure Release where
  revision : Revision
  bundleDigest : String
  resolvedReleaseDigest : String
  deriving DecidableEq

def release (deployment : Deployment) : Release :=
  ⟨deployment.revision, deployment.bundleDigest, deployment.resolvedReleaseDigest⟩

/-- The protobuf encoding of a release; a field with its default is left out. -/
def Release.encode (r : Release) : Bytes :=
  (if r.revision = 0 then [] else 0x08 :: varint r.revision) ++
    (bytesField 0x12 (textBytes r.bundleDigest) ++
      bytesField 0x1a (textBytes r.resolvedReleaseDigest))

/-- `NodeCleanupAuthority`. -/
structure Authority where
  deleteReleases : List Release
  knownInventory : List Release
  deriving DecidableEq

def Authority.encode (authority : Authority) : Bytes :=
  authority.deleteReleases.flatMap (fun r => 0x0a :: delimited r.encode) ++
    authority.knownInventory.flatMap (fun r => 0x12 :: delimited r.encode)

/-- What is computed outside this development. -/
structure Contract where
  deployment : Manager.DeploymentContract
  sha256 : Bytes → Bytes

section Protection

variable (db : Db) (deleted : List Revision)

def newestFirst : List Deployment :=
  db.deployments.insertionSort fun a b => b.revision ≤ a.revision

def retained (retentionCount : Nat) : List Revision :=
  (((newestFirst db).filter fun d => d.state = .succeeded ∧ d.revision ≠ db.currentRevision ∧
    d.revision ∉ deleted).take retentionCount).map (·.revision)

/-- Allocated revisions that are neither committed nor abandoned. -/
def unfinished : List Revision :=
  ((newestFirst db).filter fun d => d.isOpen ∧ d.abandoned = false ∧
    d.revision ∉ deleted).map (·.revision)

def operationRevisions : List Revision :=
  (db.operations.filter (·.isActive)).flatMap fun op =>
    [op.sourceRevision, op.targetRevision].filter (0 < ·)

def observedRevisions : List Revision :=
  (db.observations.map (·.observedRevision)).filter (0 < ·)

/-- Everything that protects a revision, in the order of the source. -/
def protectedRevisions (retentionCount : Nat) : List Revision :=
  (if 0 < db.currentRevision then [db.currentRevision] else []) ++ db.targetRevision.toList ++
    retained db deleted retentionCount ++ operationRevisions db ++ unfinished db deleted ++
    observedRevisions db ++ db.authoritative.map (·.revision)

def protectedSet (retentionCount : Nat) : List Revision :=
  (protectedRevisions db deleted retentionCount).dedup.insertionSort (· ≤ ·)

/-- The releases of the node that are not recorded as deleted, by revision. -/
def catalogue : List Release :=
  ((db.deployments.filter fun d => d.revision ∉ deleted).insertionSort
    fun a b => a.revision ≤ b.revision).map release

end Protection

structure CleanupPolicySnapshot where
  fingerprint : Bytes
  known : List Release
  delete : List Release

def fingerprintInput (retentionCount : Nat) (protection : List Revision) (known : List Release) :
    Bytes :=
  be64 retentionCount ++ (protection.flatMap be64 ++ known.flatMap Release.encode)

def managerCleanupPolicy (contract : Contract) (db : Db) (deleted : List Revision) :
    Except Status CleanupPolicySnapshot := do
  let policy ← required db.agentPolicy
    (.failedPrecondition "node-agent retention policy is missing")
  ensure (db.nodePresent = true) (.internal "database operation failed")
  let protection := protectedSet db deleted policy.retentionCount
  let known := catalogue db deleted
  return {
    fingerprint := contract.sha256 (fingerprintInput policy.retentionCount protection known)
    known
    delete := known.filter fun r => r.revision ∉ protection }

@[simp] theorem mem_protectedSet {retentionCount : Nat} {revision : Revision} :
    revision ∈ protectedSet db deleted retentionCount ↔
      revision ∈ protectedRevisions db deleted retentionCount := by
  simp [protectedSet]

theorem mem_catalogue : r ∈ catalogue db deleted ↔
      ∃ d ∈ db.deployments, d.revision ∉ deleted ∧ release d = r := by
  simp [catalogue, and_assoc]

def Protected (db : Db) (deleted : List Revision) (revision : Revision) : Prop :=
  ∃ policy, db.agentPolicy = some policy ∧
    revision ∈ protectedRevisions db deleted policy.retentionCount

instance (db : Db) (deleted : List Revision) (revision : Revision) :
    Decidable (Protected db deleted revision) :=
  decidable_of_iff (∃ policy ∈ db.agentPolicy,
    revision ∈ protectedRevisions db deleted policy.retentionCount) Iff.rfl

theorem managerCleanupPolicy_eq_ok {contract : Contract} {snapshot : CleanupPolicySnapshot} :
    managerCleanupPolicy contract db deleted = .ok snapshot ↔
      ∃ policy, db.agentPolicy = some policy ∧ db.nodePresent = true ∧ snapshot = {
          fingerprint := contract.sha256 (fingerprintInput policy.retentionCount
            (protectedSet db deleted policy.retentionCount) (catalogue db deleted))
          known := catalogue db deleted
          delete := (catalogue db deleted).filter fun r =>
            r.revision ∉ protectedSet db deleted policy.retentionCount } := by
  simp only [managerCleanupPolicy, bind_eq_ok, required_eq_ok, ensure_eq_ok, pure_eq_ok]
  constructor
  · rintro ⟨policy, hpolicy, _, hpresent, rfl⟩
    exact ⟨policy, hpolicy, hpresent, rfl⟩
  · rintro ⟨policy, hpolicy, hpresent, rfl⟩
    exact ⟨policy, hpolicy, ⟨⟩, hpresent, rfl⟩

theorem mem_delete {contract : Contract} {snapshot : CleanupPolicySnapshot}
    (hpolicy : managerCleanupPolicy contract db deleted = .ok snapshot) : r ∈ snapshot.delete ↔
      (∃ d ∈ db.deployments, d.revision ∉ deleted ∧ release d = r) ∧
        ¬Protected db deleted r.revision := by
  obtain ⟨policy, hagent, -, rfl⟩ := managerCleanupPolicy_eq_ok.mp hpolicy
  have hprotected : Protected db deleted r.revision ↔
      r.revision ∈ protectedSet db deleted policy.retentionCount := by
    simp [Protected, hagent]
  simp only [List.mem_filter, mem_catalogue, hprotected, decide_eq_true_eq]

def ReleaseFollows (xs : Bytes) : Prop := xs.head? = none ∨ xs.head? = some 0x08

theorem releaseFollows_encode (hrevision : r.revision ≠ 0) (xs : Bytes) :
    ReleaseFollows (r.encode ++ xs) := by
  right
  rw [Release.encode, if_neg hrevision]
  rfl

theorem readable_release : Readable (fun r : Release => r.revision ≠ 0) ReleaseFollows
    Release.encode := by
  intro a b xs ys ha hb hxs hys heq
  -- After the revision: two optional fields, each told apart from what follows.
  have hresolved : ∀ xs, ReleaseFollows xs → xs.head? ≠ some 0x1a := by
    rintro xs (hnone | hsome)
    · simp [hnone]
    · simp [hsome]
  have hbundle : ∀ {bytes xs}, ReleaseFollows xs →
      (bytesField 0x1a bytes ++ xs).head? ≠ some 0x12 := by
    intro bytes xs hfollows htag
    rcases head?_bytesField htag with htag | htag
    · cases htag
    · rcases hfollows with hnone | hsome
      · simp [hnone] at htag
      · simp [hsome] at htag
  simp only [Release.encode, if_neg ha, if_neg hb, List.cons_append, List.append_assoc,
    List.cons.injEq, true_and] at heq
  obtain ⟨hrevision, heq⟩ :=
    readable_varint (P := fun _ => True) (F := fun _ => True) trivial trivial trivial trivial heq
  obtain ⟨hfirst, heq⟩ := readable_bytesField (P := fun _ => True)
    (F := fun xs => xs.head? ≠ some 0x12) (fun _ h => h) trivial trivial (hbundle hxs)
    (hbundle hys) heq
  obtain ⟨hsecond, hrest⟩ := readable_bytesField (P := fun _ => True) hresolved trivial trivial
    hxs hys heq
  refine ⟨?_, hrest⟩
  cases a
  cases b
  simp only [Release.mk.injEq]
  exact ⟨hrevision, textBytes_injective hfirst, textBytes_injective hsecond⟩

/-- A fingerprint's bytes determine retention count, protected revisions and catalogue: a small
revision starts with a zero byte, a release with the tag of its revision. -/
theorem fingerprintInput_injective {retention retention' : Nat} {protection protection' : List Revision}
    {known known' : List Release} (hretention : retention < 2 ^ 64)
    (hretention' : retention' < 2 ^ 64) (hsmall : ∀ r ∈ protection, r < 2 ^ 56)
    (hsmall' : ∀ r ∈ protection', r < 2 ^ 56) (hknown : ∀ r ∈ known, r.revision ≠ 0)
    (hknown' : ∀ r ∈ known', r.revision ≠ 0) (heq : fingerprintInput retention protection known =
      fingerprintInput retention' protection' known') :
    retention = retention' ∧ protection = protection' ∧ known = known' := by
  unfold fingerprintInput at heq
  obtain ⟨rfl, hrest⟩ := readable_be64 (fun _ => True) hretention hretention' trivial trivial heq
  have hprotection : Readable (fun items : List Nat => ∀ r ∈ items, r < 2 ^ 56)
      (fun xs => xs.head? ≠ some 0) (List.flatMap be64) := by
    refine readable_flatMap (F := fun _ => True) ?_ (fun _ _ => trivial)
      (fun _ _ _ => trivial) ?_
    · intro a b xs ys ha hb hxs hys
      exact readable_be64 (fun _ => True) (by omega) (by omega) hxs hys
    · intro n xs hn hstop
      exact hstop (head?_be64 hn xs)
  have hfollows (known : List Release) (hknown : ∀ r ∈ known, r.revision ≠ 0) :
      (known.flatMap Release.encode).head? ≠ some 0 := by
    cases known with
    | nil => simp
    | cons r known =>
      rcases releaseFollows_encode (hknown r List.mem_cons_self) (known.flatMap Release.encode)
        with hnone | hsome
      · simp [hnone]
      · simp [hsome]
  obtain ⟨rfl, hreleased⟩ := hprotection hsmall hsmall' (hfollows known hknown)
    (hfollows known' hknown') hrest
  have hreleases : Readable (fun items : List Release => ∀ r ∈ items, r.revision ≠ 0)
      (fun xs => xs = []) (List.flatMap Release.encode) := by
    refine readable_flatMap readable_release ?_ ?_ ?_
    · rintro xs rfl
      exact Or.inl rfl
    · intro r xs hr
      exact releaseFollows_encode hr xs
    · intro r xs hr hempty
      rcases releaseFollows_encode hr xs with hnone | hsome
      · rw [Release.encode, if_neg hr] at hnone
        cases hnone
      · rw [hempty] at hsome
        cases hsome
  exact ⟨rfl, rfl, hreleases.injective rfl hknown hknown' hreleased⟩

end Wruntime.Cleanup
