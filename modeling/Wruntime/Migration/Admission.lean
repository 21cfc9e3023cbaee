import Wruntime.Migration.Ledger

/-!
What the ledger's transactions do to the latest attempt of each file, and on which grounds a
file is admitted.
-/

namespace Wruntime.Migration

open Fallible Table

variable {ledger : Ledger} {row : Attempt} {key : Key}

variable {other : Attempt} {after : Ledger}

/-- No later attempt of the same file is recorded. -/
structure Ledger.Latest (ledger : Ledger) (row : Attempt) : Prop where
  mem : row ∈ ledger.attempts
  last : ∀ other ∈ ledger.attempts, other.key = row.key → other.attempt ≤ row.attempt

def Ledger.Keyed (ledger : Ledger) : Prop := (ledger.attempts.map Attempt.id).Nodup

theorem latest?_eq_some (h : ledger.latest? key = some row) :
    ledger.Latest row ∧ row.key = key := by
  have hmem := List.argmax_mem h
  obtain ⟨hrow, hkey⟩ := List.mem_filter.mp hmem
  simp only [decide_eq_true_eq] at hkey
  refine ⟨⟨hrow, ?_⟩, hkey⟩
  intro other hother hsame
  apply List.le_of_mem_argmax (f := Attempt.attempt) _ h
  apply List.mem_filter.mpr
  exact ⟨hother, by simpa using hsame.trans hkey⟩

theorem latest?_eq_none : ledger.latest? key = none ↔ ∀ row ∈ ledger.attempts, row.key ≠ key := by
  unfold Ledger.latest?
  rw [List.argmax_eq_none, List.filter_eq_nil_iff]
  simp

theorem Ledger.Keyed.eq (hkeyed : ledger.Keyed) (hrow : row ∈ ledger.attempts)
    (hother : other ∈ ledger.attempts) (hid : row.id = other.id) : row = other :=
  eq_of_nodup_key hkeyed hrow hother hid

theorem Ledger.Latest.unique (hkeyed : ledger.Keyed) (hrow : ledger.Latest row)
    (hother : ledger.Latest other) (hkey : row.key = other.key) : row = other := by
  apply hkeyed.eq hrow.mem hother.mem
  have hle := hother.last row hrow.mem hkey
  have hge := hrow.last other hother.mem hkey.symm
  exact Prod.ext hkey (by show row.attempt = other.attempt; omega)

/-- The row starts a file for the first time or follows its latest attempt. -/
def Ledger.Fresh (ledger : Ledger) (row : Attempt) : Prop :=
  ∀ other ∈ ledger.attempts, other.key = row.key → other.attempt < row.attempt

theorem Ledger.Fresh.latest (hfresh : ledger.Fresh row) : (ledger.insert row).Latest row := by
  refine ⟨List.mem_append_right _ List.mem_cons_self, ?_⟩
  intro other hother hkey
  rcases mem_snoc.mp hother with hold | rfl
  · exact Nat.le_of_lt (hfresh other hold hkey)
  · rfl

theorem Ledger.Fresh.keyed (hfresh : ledger.Fresh row) (hkeyed : ledger.Keyed) :
    (ledger.insert row).Keyed := by
  refine nodup_snoc hkeyed fun other hother hsame => ?_
  have hkey : other.key = row.key := congrArg Prod.fst hsame
  have hattempt : other.attempt = row.attempt := congrArg Prod.snd hsame
  have hlt := hfresh other hother hkey
  omega

theorem Ledger.Latest.insert (hlatest : ledger.Latest row)
    (hkey : other.key ≠ row.key) : (ledger.insert other).Latest row := by
  refine ⟨List.mem_append_left _ hlatest.mem, ?_⟩
  intro next hnext hsame
  rcases mem_snoc.mp hnext with hold | rfl
  · exact hlatest.last next hold hsame
  · exact absurd hsame hkey

theorem Ledger.Latest.of_insert {new : Attempt} (hlatest : (ledger.insert new).Latest row) :
    row = new ∨ ledger.Latest row ∧ (new.key = row.key → new.attempt ≤ row.attempt) := by
  rcases mem_snoc.mp hlatest.mem with hold | hnew
  · right
    refine ⟨⟨hold, fun other hother => hlatest.last other (List.mem_append_left _ hother)⟩, ?_⟩
    exact hlatest.last new (List.mem_append_right _ List.mem_cons_self)
  · exact .inl hnew

section Terminalize

variable {attempt : Nat} {state : AttemptState} {code : Option String}

def Attempt.ended (row : Attempt) (key : Key) (attempt : Nat) (state : AttemptState)
    (code : Option String) : Attempt :=
  if row.key = key ∧ row.attempt = attempt ∧ row.state = .started then
    { row with state, failureCode := code }
  else row

@[simp] theorem Attempt.ended_key (row : Attempt) :
    (row.ended key attempt state code).key = row.key := by
  unfold Attempt.ended
  split <;> rfl

@[simp] theorem Attempt.ended_attempt (row : Attempt) :
    (row.ended key attempt state code).attempt = row.attempt := by
  unfold Attempt.ended
  split <;> rfl

@[simp] theorem Attempt.ended_id (row : Attempt) :
    (row.ended key attempt state code).id = row.id := by
  simp [Attempt.id]

theorem terminalize_attempts : (terminalize ledger key attempt state code).attempts =
    ledger.attempts.map fun row => row.ended key attempt state code := by
  unfold terminalize updateWhere Attempt.ended
  simp

theorem mem_terminalize : row ∈ (terminalize ledger key attempt state code).attempts ↔
    ∃ old ∈ ledger.attempts, old.ended key attempt state code = row := by
  rw [terminalize_attempts, List.mem_map]

theorem Ledger.Keyed.terminalize (hkeyed : ledger.Keyed) :
    (Migration.terminalize ledger key attempt state code).Keyed := by
  unfold Ledger.Keyed
  rw [terminalize_attempts, List.map_map]
  have hsame : (Attempt.id ∘ fun row => row.ended key attempt state code) = Attempt.id := by
    funext row
    simp
  rw [hsame]
  exact hkeyed

theorem Ledger.Latest.terminalize (hlatest : ledger.Latest row) :
    (Migration.terminalize ledger key attempt state code).Latest
      (row.ended key attempt state code) := by
  refine ⟨mem_terminalize.mpr ⟨row, hlatest.mem, rfl⟩, ?_⟩
  intro other hother hkey
  obtain ⟨old, hold, rfl⟩ := mem_terminalize.mp hother
  simp only [Attempt.ended_key, Attempt.ended_attempt] at hkey ⊢
  exact hlatest.last old hold hkey

theorem Ledger.Latest.of_terminalize
    (hlatest : (Migration.terminalize ledger key attempt state code).Latest row) :
    ∃ old, ledger.Latest old ∧ old.ended key attempt state code = row := by
  obtain ⟨old, hold, hended⟩ := mem_terminalize.mp hlatest.mem
  refine ⟨old, ⟨hold, ?_⟩, hended⟩
  intro other hother hkey
  have hle := hlatest.last (other.ended key attempt state code)
    (mem_terminalize.mpr ⟨other, hother, rfl⟩) (by rw [← hended]; simpa using hkey)
  rw [← hended] at hle
  simpa using hle

end Terminalize

theorem approval?_eq_some {attempt : Nat} {state : AttemptState} {hash : String}
    {approval : Approval} (h : ledger.approval? key attempt state hash = some approval) :
    approval ∈ ledger.approvals ∧ approval.key = key ∧ approval.attempt = attempt ∧
      approval.state = state ∧ approval.contentHash = hash ∧ approval.consumed = false := by
  have hmem := List.argmin_mem h
  obtain ⟨happroval, hmatches⟩ := List.mem_filter.mp hmem
  simp only [decide_eq_true_eq] at hmatches
  exact ⟨happroval, hmatches⟩

/-- On which grounds a file is skipped, started or tried again. -/
inductive Admission (ledger : Ledger) (bundle : Bundle) (file : MigrationFile) :
    Ledger → Option Nat → Prop
  | skipped {row : Attempt} : ledger.Latest row → row.key = file.key →
      row.state = .succeeded → Admission ledger bundle file ledger none
  | first : (∀ row ∈ ledger.attempts, row.key ≠ file.key) →
      Admission ledger bundle file (ledger.insert (startedRow bundle file 1)) (some 1)
  | retried {row : Attempt} {approval : Approval} : ledger.Latest row → row.key = file.key →
      row.state ≠ .succeeded → row.contentHash = file.contentHash →
      approval ∈ ledger.approvals → approval.key = file.key →
      approval.attempt = row.attempt → approval.state = row.state →
      approval.contentHash = row.contentHash → approval.consumed = false →
      Admission ledger bundle file
        ((ledger.consume approval.approvalId).insert (startedRow bundle file (row.attempt + 1)))
        (some (row.attempt + 1))

theorem admission_of_admitAttempt {bundle : Bundle} {file : MigrationFile}
    {attempt : Option Nat} (h : admitAttempt ledger bundle file = .ok (after, attempt)) :
    Admission ledger bundle file after attempt := by
  unfold admitAttempt at h
  split at h
  next hnone =>
    cases h
    exact .first (latest?_eq_none.mp hnone)
  next row hsome =>
    obtain ⟨hlatest, hkey⟩ := latest?_eq_some hsome
    split at h
    next hsucceeded =>
      simp only [bind_eq_ok, pure_eq_ok, Prod.mk.injEq] at h
      obtain ⟨-, -, rfl, rfl⟩ := h
      exact .skipped hlatest hkey hsucceeded
    next hblocked =>
      simp only [bind_eq_ok, pure_eq_ok, Prod.mk.injEq, Prod.exists] at h
      obtain ⟨consumed, next, hretry, rfl, rfl⟩ := h
      unfold retryAttempt at hretry
      simp only [bind_eq_ok, pure_eq_ok, ensure_eq_ok, required_eq_ok, Prod.mk.injEq] at hretry
      obtain ⟨-, hidentity, approval, happroval, -, -, rfl, rfl⟩ := hretry
      obtain ⟨hmem, hfile, hattempt, hstate, hhash, hunconsumed⟩ :=
        approval?_eq_some happroval
      exact .retried hlatest hkey hblocked hidentity.2.1 hmem hfile hattempt hstate
        (hhash.trans hidentity.2.1.symm) hunconsumed

def Approval.terms (approval : Approval) : Approval := { approval with consumed := false }

theorem consume_terms (approvalId : Nat) :
    (ledger.consume approvalId).approvals.map Approval.terms =
      ledger.approvals.map Approval.terms := by
  unfold Ledger.consume
  rw [map_updateWhere]
  exact fun _ => rfl

/-- A file was started: its row is new, and approvals were at most consumed. -/
structure Started (before after : Ledger) (row : Attempt) : Prop where
  attempts : after.attempts = (before.insert row).attempts
  fresh : before.Fresh row
  state : row.state = .started
  terms : after.approvals.map Approval.terms = before.approvals.map Approval.terms
  nextApprovalId : after.nextApprovalId = before.nextApprovalId

theorem Admission.started {bundle : Bundle} {file : MigrationFile}
    {attempt : Nat} (hadmission : Admission ledger bundle file after (some attempt)) :
    Started ledger after (startedRow bundle file attempt) := by
  cases hadmission with
  | first hnone =>
    refine ⟨rfl, ?_, rfl, rfl, rfl⟩
    intro other hother hkey
    exact absurd hkey (hnone other hother)
  | @retried row approval hlatest hkey _ _ _ _ _ _ _ _ =>
    refine ⟨rfl, ?_, rfl, consume_terms _, rfl⟩
    intro other hother hsame
    have hle := hlatest.last other hother (hsame.trans hkey.symm)
    exact Nat.lt_succ_of_le hle

section

variable (hstarted : Started ledger after row)
include hstarted

theorem Started.mem : other ∈ after.attempts ↔ other ∈ ledger.attempts ∨ other = row := by
  rw [hstarted.attempts]
  simp [Ledger.insert]

theorem Started.not_mem (hother : other ∈ ledger.attempts) : other.id ≠ row.id := by
  intro hid
  have hlt := hstarted.fresh other hother (congrArg Prod.fst hid)
  have heq : other.attempt = row.attempt := congrArg Prod.snd hid
  omega

theorem Started.keyed (hkeyed : ledger.Keyed) : after.Keyed := by
  unfold Ledger.Keyed
  rw [hstarted.attempts]
  exact hstarted.fresh.keyed hkeyed

end

theorem latest_congr (h : after.attempts = ledger.attempts) :
    after.Latest row ↔ ledger.Latest row := by
  constructor
  · rintro ⟨hmem, hlast⟩
    exact ⟨h ▸ hmem, h ▸ hlast⟩
  · rintro ⟨hmem, hlast⟩
    exact ⟨h ▸ hmem, h ▸ hlast⟩

theorem Started.approval (hstarted : Started ledger after row) {approval : Approval}
    (hmem : approval ∈ after.approvals) :
    ∃ old ∈ ledger.approvals, old.key = approval.key ∧ old.attempt = approval.attempt ∧
      old.state = approval.state ∧ old.approvalId = approval.approvalId := by
  have hterms : approval.terms ∈ after.approvals.map Approval.terms :=
    List.mem_map_of_mem hmem
  rw [hstarted.terms] at hterms
  obtain ⟨old, hold, hsame⟩ := List.mem_map.mp hterms
  exact ⟨old, hold, congrArg (·.key) hsame, congrArg (·.attempt) hsame, congrArg (·.state) hsame,
    congrArg (·.approvalId) hsame⟩

theorem Started.approvalIds (hstarted : Started ledger after row) :
    after.approvals.map Approval.approvalId = ledger.approvals.map Approval.approvalId := by
  have hterms := congrArg (List.map Approval.approvalId) hstarted.terms
  simpa [List.map_map, Function.comp_def, Approval.terms] using hterms

theorem checkRetry_eq_ok {approval : RetryApproval} (h : checkRetry ledger approval = .ok ()) :
    ∃ row, ledger.Latest row ∧ row.key = approval.key ∧ row.attempt = approval.attempt ∧
      row.state = approval.state := by
  unfold checkRetry at h
  simp only [bind_eq_ok, ensure_eq_ok, required_eq_ok] at h
  obtain ⟨-, -, -, -, -, -, -, -, row, hrow, -, hattempt, -, hstate, -⟩ := h
  obtain ⟨hlatest, hkey⟩ := latest?_eq_some hrow
  exact ⟨row, hlatest, hkey, hattempt, hstate⟩

end Wruntime.Migration
