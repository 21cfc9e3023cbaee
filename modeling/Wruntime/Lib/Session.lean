import Mathlib.Tactic.Common

/-!
One session of a transactional database server, as its client sees it. A statement outside a block
commits by itself, an error aborts the block, a `COMMIT` that fails rolls it back and ends it, and
outside a block `COMMIT` and `ROLLBACK` do nothing. The record keeps what was made durable.
-/

namespace Wruntime.Session

variable {verdict : Verdict}

/-- Whether a transaction block is open, with the statements that succeeded in it. -/
inductive Status (σ : Type) where
  | idle
  | active (work : List σ)
  | aborted
  | closed
  deriving DecidableEq

/-- What the server makes of a command: done, or an error text. -/
abbrev Verdict := Except String Unit

structure Backend (σ : Type) where
  status : Status σ
  succeeded : List σ
  transactions : List (List σ)
  autocommitted : List σ
  deriving DecidableEq

variable {σ : Type}

def Backend.persisted (backend : Backend σ) : List σ :=
  backend.transactions.flatten ++ backend.autocommitted

def Backend.fresh : Backend σ := ⟨.idle, [], [], []⟩

def abortedMessage : String :=
  "current transaction is aborted, commands ignored until end of transaction block"

def closedMessage : String := "connection closed"

def Backend.begin (backend : Backend σ) : Verdict → Backend σ × Verdict
  | .error message => (backend, .error message)
  | .ok () =>
    match backend.status with
    | .idle => ({ backend with status := .active [] }, .ok ())
    | .active _ => (backend, .ok ())
    | .aborted => (backend, .error abortedMessage)
    | .closed => (backend, .error closedMessage)

/-- The verdict is heard only where the server gets to run the statement. -/
def Backend.statement (backend : Backend σ) (command : σ) (verdict : Verdict) :
    Backend σ × Verdict :=
  match backend.status with
  | .closed => (backend, .error closedMessage)
  | .aborted => (backend, .error abortedMessage)
  | .idle =>
    match verdict with
    | .ok () =>
      ({ backend with
          succeeded := backend.succeeded ++ [command]
          autocommitted := backend.autocommitted ++ [command] }, .ok ())
    | .error message => (backend, .error message)
  | .active work =>
    match verdict with
    | .ok () =>
      ({ backend with
          status := .active (work ++ [command])
          succeeded := backend.succeeded ++ [command] }, .ok ())
    | .error message => ({ backend with status := .aborted }, .error message)

/-- An aborted block answers `COMMIT` with success and rolls back. -/
def Backend.commit (backend : Backend σ) (verdict : Verdict) : Backend σ × Verdict :=
  match backend.status with
  | .closed => (backend, .error closedMessage)
  | .idle => (backend, .ok ())
  | .aborted => ({ backend with status := .idle }, .ok ())
  | .active work =>
    match verdict with
    | .ok () =>
      ({ backend with
          status := .idle
          transactions := backend.transactions ++ [work] }, .ok ())
    | .error message => ({ backend with status := .idle }, .error message)

def Backend.rollback (backend : Backend σ) : Backend σ × Verdict :=
  match backend.status with
  | .closed => (backend, .error closedMessage)
  | _ => ({ backend with status := .idle }, .ok ())

/-- The empty query, which only waits for the server. -/
def Backend.synchronize (backend : Backend σ) : Verdict :=
  match backend.status with
  | .closed => .error closedMessage
  | _ => .ok ()

/-- The connection ends, and an open block with it. -/
def Backend.close (backend : Backend σ) : Backend σ :=
  { backend with status := .closed }

/-- The connection goes back to a pool that rolls back before the next use. -/
def Backend.recycle (backend : Backend σ) : Backend σ := backend.rollback.1

section Durable

variable (backend : Backend σ)

@[simp] theorem close_status : backend.close.status = .closed := rfl
@[simp] theorem close_succeeded : backend.close.succeeded = backend.succeeded := rfl
@[simp] theorem close_transactions : backend.close.transactions = backend.transactions := rfl
@[simp] theorem close_autocommitted : backend.close.autocommitted = backend.autocommitted := rfl

@[simp] theorem rollback_succeeded : backend.rollback.1.succeeded = backend.succeeded := by
  unfold Backend.rollback
  split <;> rfl

@[simp] theorem rollback_transactions : backend.rollback.1.transactions = backend.transactions := by
  unfold Backend.rollback
  split <;> rfl

@[simp] theorem rollback_autocommitted :
    backend.rollback.1.autocommitted = backend.autocommitted := by
  unfold Backend.rollback
  split <;> rfl

@[simp] theorem recycle_succeeded : backend.recycle.succeeded = backend.succeeded :=
  rollback_succeeded backend

@[simp] theorem recycle_transactions : backend.recycle.transactions = backend.transactions :=
  rollback_transactions backend

@[simp] theorem recycle_autocommitted : backend.recycle.autocommitted = backend.autocommitted :=
  rollback_autocommitted backend

@[simp] theorem begin_transactions (verdict : Verdict) :
    (backend.begin verdict).1.transactions = backend.transactions := by
  unfold Backend.begin
  cases verdict with
  | error message => rfl
  | ok _ => cases backend.status <;> rfl

@[simp] theorem statement_transactions (command : σ) (verdict : Verdict) :
    (backend.statement command verdict).1.transactions = backend.transactions := by
  unfold Backend.statement
  cases backend.status <;> cases verdict <;> rfl

/-- Only a statement outside a block commits by itself. -/
theorem statement_autocommitted {command : σ} (hidle : backend.status ≠ .idle) :
    (backend.statement command verdict).1.autocommitted = backend.autocommitted := by
  unfold Backend.statement
  cases hstatus : backend.status <;> cases verdict <;> simp_all

section

variable (hclosed : backend.status = .closed)
include hclosed

theorem statement_of_closed {command : σ} :
    backend.statement command verdict = (backend, .error closedMessage) := by
  simp [Backend.statement, hclosed]

theorem commit_of_closed : backend.commit verdict = (backend, .error closedMessage) := by
  simp [Backend.commit, hclosed]

theorem rollback_of_closed : backend.rollback = (backend, .error closedMessage) := by
  simp [Backend.rollback, hclosed]

end

end Durable

/-- The session is in the one block its client began: the block's statements are all that succeeded,
or it is lost, and nothing is durable yet. -/
structure Backend.InBlock (backend : Backend σ) : Prop where
  transactions : backend.transactions = []
  autocommitted : backend.autocommitted = []
  notIdle : backend.status ≠ .idle
  work : ∀ work, backend.status = .active work → work = backend.succeeded

theorem Backend.InBlock.statement {backend : Backend σ} (hblock : backend.InBlock)
    (command : σ) (verdict : Verdict) : (backend.statement command verdict).1.InBlock := by
  refine ⟨?_, ?_, ?_, ?_⟩
  · rw [statement_transactions, hblock.transactions]
  · rw [statement_autocommitted _ hblock.notIdle, hblock.autocommitted]
  · have hidle := hblock.notIdle
    unfold Backend.statement
    cases hstatus : backend.status <;> cases verdict <;> simp_all
  · intro work hwork
    have hprev := hblock.work
    unfold Backend.statement at hwork ⊢
    cases hstatus : backend.status with
    | idle => exact absurd hstatus hblock.notIdle
    | aborted | closed => simp_all
    | active before =>
      cases verdict with
      | error message => simp_all
      | ok _ =>
        have hbefore := hprev before hstatus
        simp only [hstatus, Status.active.injEq] at hwork ⊢
        rw [← hwork, hbefore]

theorem Backend.InBlock.close {backend : Backend σ} (hblock : backend.InBlock) :
    backend.close.InBlock :=
  ⟨hblock.transactions, hblock.autocommitted, by simp, by simp⟩

theorem Backend.InBlock.aborted_of_statement {backend : Backend σ} (hblock : backend.InBlock)
    {command : σ} (haborted : (backend.statement command verdict).1.status = .aborted) :
    backend.status = .aborted ∨ ∃ message, verdict = .error message := by
  unfold Backend.statement at haborted
  cases hstatus : backend.status with
  | idle => exact absurd hstatus hblock.notIdle
  | aborted => exact .inl rfl
  | closed => simp_all
  | active work =>
    cases verdict with
    | error message => exact .inr ⟨message, rfl⟩
    | ok _ => simp_all

/-- A `COMMIT` that is not rejected makes the block durable as one transaction or fails with the
connection gone. -/
theorem Backend.InBlock.commit {backend : Backend σ} (hblock : backend.InBlock)
    (hnotAborted : backend.status ≠ .aborted) : (backend.commit (.ok ())).2 = .ok () ∧
        (backend.commit (.ok ())).1.transactions = [backend.succeeded] ∧
        (backend.commit (.ok ())).1.succeeded = backend.succeeded ∧
        (backend.commit (.ok ())).1.autocommitted = [] ∨
      backend.status = .closed ∧ backend.commit (.ok ()) = (backend, .error closedMessage) := by
  unfold Backend.commit
  cases hstatus : backend.status with
  | idle => exact absurd hstatus hblock.notIdle
  | aborted => exact absurd hstatus hnotAborted
  | closed => simp
  | active work =>
    have hwork := hblock.work work hstatus
    simp [hblock.transactions, hblock.autocommitted, hwork]

end Wruntime.Session
