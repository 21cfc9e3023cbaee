import Mathlib.Data.List.MinMax
import Wruntime.Lib.Fallible
import Wruntime.Lib.Table
import Wruntime.Lib.Utf8

/-!
The migration ledger of one namespace database: the attempts at each file, and the approvals by
which an operator lets a blocked file be tried again. The transactions are those of the offline
runner.
-/

namespace Wruntime.Migration

open Fallible Table
open Utf8 (isBlank)

/-- The identity of a migration in its namespace. -/
structure Key where
  module : String
  version : Nat
  deriving DecidableEq

structure MigrationFile where
  key : Key
  filename : String
  contentHash : String
  byteLength : Nat

structure Bundle where
  bundleDigest : String
  deploymentDigest : String

inductive AttemptState where
  | started
  | succeeded
  | failed
  deriving DecidableEq

/-- A row of `migration_attempts`. -/
structure Attempt where
  key : Key
  attempt : Nat
  filename : String
  contentHash : String
  byteLength : Nat
  bundleDigest : String
  deploymentDigest : String
  state : AttemptState
  failureCode : Option String

/-- A row of `migration_retry_approvals`. -/
structure Approval where
  approvalId : Nat
  key : Key
  attempt : Nat
  state : AttemptState
  contentHash : String
  operatorName : String
  reason : String
  consumed : Bool

structure Ledger where
  attempts : List Attempt
  approvals : List Approval
  nextApprovalId : Nat

def Ledger.empty : Ledger := ⟨[], [], 1⟩

/-- What the operator asks for; the state is the one of the attempt that is to be retried. -/
structure RetryApproval where
  key : Key
  attempt : Nat
  state : AttemptState
  contentHash : String
  operator : String
  reason : String
  deriving DecidableEq

/-- The primary key of an attempt within the namespace. -/
def Attempt.id (row : Attempt) : Key × Nat := (row.key, row.attempt)

/-- `ORDER BY attempt DESC LIMIT 1`. -/
def Ledger.latest? (ledger : Ledger) (key : Key) : Option Attempt :=
  (ledger.attempts.filter (·.key = key)).argmax (·.attempt)

/-- The first unconsumed approval, by id, of exactly this attempt, state and content. -/
def Ledger.approval? (ledger : Ledger) (key : Key) (attempt : Nat) (state : AttemptState)
    (contentHash : String) : Option Approval :=
  (ledger.approvals.filter fun approval =>
    approval.key = key ∧ approval.attempt = attempt ∧ approval.state = state ∧
      approval.contentHash = contentHash ∧ approval.consumed = false).argmin (·.approvalId)

def Ledger.consume (ledger : Ledger) (approvalId : Nat) : Ledger :=
  { ledger with
    approvals := updateWhere
      (fun approval => approval.approvalId = approvalId ∧ approval.consumed = false)
      (fun approval => { approval with consumed := true }) ledger.approvals }

def startedRow (bundle : Bundle) (file : MigrationFile) (attempt : Nat) : Attempt :=
  ⟨file.key, attempt, file.filename, file.contentHash, file.byteLength,
    bundle.bundleDigest, bundle.deploymentDigest, .started, none⟩

def Ledger.insert (ledger : Ledger) (row : Attempt) : Ledger :=
  { ledger with attempts := ledger.attempts ++ [row] }

def maxAttempt : Nat := 2 ^ 63 - 1

/-- The approval that a blocked attempt needs, and the number of the next one. -/
def retryAttempt (ledger : Ledger) (bundle : Bundle) (file : MigrationFile) (row : Attempt) :
    Except String (Ledger × Nat) := do
  ensure (row.filename = file.filename ∧ row.contentHash = file.contentHash ∧
      row.bundleDigest = bundle.bundleDigest ∧ row.deploymentDigest = bundle.deploymentDigest)
    "blocked migration may only retry the exact immutable artifact"
  let approval ← required
    (ledger.approval? file.key row.attempt row.state file.contentHash)
    "migration is blocked; a new exact-artifact retry approval is required"
  ensure (row.attempt + 1 ≤ maxAttempt) "migration attempt overflow"
  return (ledger.consume approval.approvalId, row.attempt + 1)

/-- Whether the file is to run, and as which attempt. A file that succeeded is skipped. -/
def admitAttempt (ledger : Ledger) (bundle : Bundle) (file : MigrationFile) :
    Except String (Ledger × Option Nat) :=
  match ledger.latest? file.key with
  | none => .ok (ledger.insert (startedRow bundle file 1), some 1)
  | some row =>
    if row.state = .succeeded then do
      ensure (row.filename = file.filename ∧ row.contentHash = file.contentHash)
        "successful migration identity is immutable"
      return (ledger, none)
    else do
      let (ledger, attempt) ← retryAttempt ledger bundle file row
      return (ledger.insert (startedRow bundle file attempt), some attempt)

/-- The end of an attempt; only a started one has an end to record. -/
def terminalize (ledger : Ledger) (key : Key) (attempt : Nat) (state : AttemptState)
    (failureCode : Option String) : Ledger :=
  { ledger with
    attempts := updateWhere
      (fun row => row.key = key ∧ row.attempt = attempt ∧ row.state = .started)
      (fun row => { row with state, failureCode }) ledger.attempts }

def checkRetry (ledger : Ledger) (approval : RetryApproval) : Except String Unit := do
  ensure (isBlank approval.operator = false) "operator is required"
  ensure (isBlank approval.reason = false) "approval reason is required"
  ensure (approval.reason.utf8ByteSize ≤ 1024) "approval reason is too long"
  ensure (approval.state = .started ∨ approval.state = .failed)
    "approval state must be started or failed"
  let row ← required (ledger.latest? approval.key) "migration attempt does not exist"
  ensure (row.attempt = approval.attempt) "stale retry approval attempt"
  ensure (row.state = approval.state) "stale retry approval state"
  ensure (row.contentHash = approval.contentHash) "retry approval hash mismatch"

def recordRetry (ledger : Ledger) (approval : RetryApproval) : Ledger :=
  { ledger with
    approvals := ledger.approvals ++
      [⟨ledger.nextApprovalId, approval.key, approval.attempt, approval.state,
        approval.contentHash, approval.operator, approval.reason, false⟩]
    nextApprovalId := ledger.nextApprovalId + 1 }

end Wruntime.Migration
