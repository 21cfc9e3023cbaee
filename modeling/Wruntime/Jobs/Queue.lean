import Mathlib.Data.List.MinMax
import Wruntime.Lib.Fallible
import Wruntime.Lib.Table
import Wruntime.Lib.Wire

/-!
The job queue: the `jobs` table with its constraints, and the workers' statements that insert,
claim, complete, fail and recover jobs. Each is one transaction at the clock's time; a refused one
leaves the table as it is.
-/

namespace Wruntime.Jobs

open Fallible Wire

/-- The text of a UUID, as job and engine ids are generated. -/
structure UuidText where
  text : String
  size : text.utf8ByteSize = 36
  deriving DecidableEq

abbrev ClaimId := Nat

inductive JobState where
  | pending
  | running
  | complete
  | dead
  deriving DecidableEq

def JobState.asStr : JobState → String
  | .pending => "pending"
  | .running => "running"
  | .complete => "complete"
  | .dead => "dead"

def maxJobBlobBytes : Nat := 1024 * 1024

def maxJobErrorBytes : Nat := 1024 * 1024

def maxJobMetadataBytes : Nat := 64 * 1024

/-- A row of `wr__jobs.jobs`; the status is one that `jobs_status_valid` allows. -/
structure Row where
  jobId : UuidText
  workerNamespace : String
  workerName : String
  workerVersion : String
  jobType : String
  payload : Bytes
  status : JobState
  result : Option Bytes
  errorMessage : Option String
  attempt : Int
  maxAttempts : Int
  timeoutSecs : Int
  createdAt : Nat
  updatedAt : Nat
  claimedAt : Option Nat
  completedAt : Option Nat
  claimedBy : Option UuidText
  sourceNamespace : String
  sourceModule : String
  claimId : Option ClaimId
  leaseExpiresAt : Option Nat

def Row.unclaimed (row : Row) : Bool :=
  row.claimedAt.isNone && row.claimedBy.isNone && row.claimId.isNone && row.leaseExpiresAt.isNone

def Row.valid (row : Row) : Bool :=
  0 < row.timeoutSecs && 0 < row.maxAttempts &&
  (0 ≤ row.attempt && row.attempt ≤ row.maxAttempts) &&
  (if row.status = .running then
    row.claimedAt.isSome && row.claimedBy.isSome && row.claimId.isSome && row.leaseExpiresAt.isSome
  else row.unclaimed) &&
  (row.status ≠ .dead ||
    (row.attempt = row.maxAttempts && row.errorMessage.any (· ≠ "") && row.result.isNone &&
      row.completedAt.isNone && row.unclaimed))

structure Queue where
  now : Nat
  jobs : List Row

def Queue.row (queue : Queue) (jobId : String) : Option Row :=
  queue.jobs.find? (·.jobId.text = jobId)

def Queue.write (queue : Queue) (jobs : List Row) : Except String Queue := do
  ensure (jobs.all Row.valid = true) "new row for relation \"jobs\" violates check constraint"
  pure { queue with jobs }

structure Submission where
  namespace_ : String
  name : String
  version : String
  jobType : String
  payload : Bytes
  timeoutSecs : Nat
  maxAttempts : Nat
  sourceNamespace : String
  sourceModule : String

def totalBytes (texts : List String) : Nat :=
  texts.foldl (fun total value => total + value.utf8ByteSize) 0

def Submission.metadataBytes (submission : Submission) : Nat :=
  totalBytes [submission.namespace_, submission.name, submission.version, submission.jobType,
    submission.sourceNamespace, submission.sourceModule]

/-- `i32::try_from` of a default and a positive `u32`. -/
def positiveOrDefault (value default : Nat) : Except String Int := do
  let value := if value = 0 then default else value
  ensure (value < 2 ^ 31) "out of range integral type conversion attempted"
  pure value

def Submission.row (submission : Submission) (jobId : UuidText) (now : Nat)
    (timeoutSecs maxAttempts : Int) : Row where
  jobId := jobId
  workerNamespace := submission.namespace_
  workerName := submission.name
  workerVersion := submission.version
  jobType := submission.jobType
  payload := submission.payload
  status := .pending
  result := none
  errorMessage := none
  attempt := 0
  maxAttempts := maxAttempts
  timeoutSecs := timeoutSecs
  createdAt := now
  updatedAt := now
  claimedAt := none
  completedAt := none
  claimedBy := none
  sourceNamespace := submission.sourceNamespace
  sourceModule := submission.sourceModule
  claimId := none
  leaseExpiresAt := none

def insertJob (queue : Queue) (jobId : UuidText) (submission : Submission) :
    Except String Queue := do
  ensure (submission.payload.length ≤ maxJobBlobBytes) "job payload exceeds 1048576 bytes"
  ensure (submission.metadataBytes ≤ maxJobMetadataBytes) "job metadata exceeds 65536 bytes"
  let timeout ← positiveOrDefault submission.timeoutSecs 300
  let attempts ← positiveOrDefault submission.maxAttempts 3
  ensure (queue.jobs.all (·.jobId ≠ jobId) = true)
    "duplicate key value violates unique constraint \"jobs_pkey\""
  queue.write (queue.jobs ++ [submission.row jobId queue.now timeout attempts])

structure Worker where
  namespace_ : String
  name : String
  version : String

def Row.claimableBy (row : Row) (worker : Worker) : Bool :=
  row.workerNamespace = worker.namespace_ && row.workerName = worker.name &&
  (row.workerVersion = worker.version || row.workerVersion = "") && row.status = .pending

def Row.claimed (row : Row) (now : Nat) (engineId : UuidText) (claimId : ClaimId) : Row :=
  { row with
    status := .running
    claimedAt := some now
    leaseExpiresAt := some (now + row.timeoutSecs.toNat)
    claimedBy := some engineId
    attempt := row.attempt + 1
    claimId := some claimId
    updatedAt := now }

/-- The rows in `locked` are held by other transactions and skipped. -/
def claimJob (queue : Queue) (locked : UuidText → Bool) (worker : Worker) (engineId : UuidText)
    (claimId : ClaimId) : Except String (Queue × Option Row) :=
  let candidates := queue.jobs.filter fun row => row.claimableBy worker && !locked row.jobId
  match candidates.argmin (·.createdAt) with
  | none => pure (queue, none)
  | some picked => do
    let queue' ← queue.write (Table.updateWhere (·.jobId = picked.jobId)
      (·.claimed queue.now engineId claimId) queue.jobs)
    pure (queue', some picked)

inductive Finalization where
  | applied
  | stale

def Finalization.fromAffectedRows (rows : Nat) : Finalization :=
  if rows = 1 then .applied else .stale

def Row.released (row : Row) (now : Nat) : Row :=
  { row with
    claimedAt := none, claimedBy := none, claimId := none, leaseExpiresAt := none, updatedAt := now }

def Row.completed (row : Row) (now : Nat) (result : Bytes) : Row :=
  { row.released now with status := .complete, result := some result, completedAt := some now }

def Row.afterFailure (row : Row) : JobState :=
  if row.attempt < row.maxAttempts then .pending else .dead

def Row.failed (row : Row) (now : Nat) (errorMsg : String) : Row :=
  { row.released now with status := row.afterFailure, errorMessage := some errorMsg }

def Row.activeFor (row : Row) (jobId : UuidText) (claimId : ClaimId) : Bool :=
  row.jobId = jobId && row.status = .running && row.claimId = some claimId

def Queue.finalize (queue : Queue) (jobId : UuidText) (claimId : ClaimId) (f : Row → Row) :
    Except String (Queue × Finalization) := do
  let queue' ← queue.write (Table.updateWhere (·.activeFor jobId claimId) f queue.jobs)
  pure (queue', .fromAffectedRows (queue.jobs.countP (·.activeFor jobId claimId)))

def completeJob (queue : Queue) (jobId : UuidText) (claimId : ClaimId) (result : Bytes) :
    Except String (Queue × Finalization) := do
  ensure (result.length ≤ maxJobBlobBytes) "job result exceeds 1048576 bytes"
  queue.finalize jobId claimId (·.completed queue.now result)

def failJob (queue : Queue) (jobId : UuidText) (claimId : ClaimId) (errorMsg : String) :
    Except String (Queue × Finalization) := do
  ensure (errorMsg ≠ "") "job error must not be empty"
  ensure (errorMsg.utf8ByteSize ≤ maxJobErrorBytes) "job error exceeds 1048576 bytes"
  queue.finalize jobId claimId (·.failed queue.now errorMsg)

/-- The SQL function `LEFT`, which counts characters. -/
def left (text : String) (count : Nat) : String := String.ofList (text.toList.take count)

def retainedErrorChars : Nat := maxJobErrorBytes / 4 - 32

def Row.recovered (row : Row) (now : Nat) : Row :=
  { row.released now with
    status := row.afterFailure
    errorMessage := some (left (row.errorMessage.getD "") retainedErrorChars ++ " [stale recovery]") }

/-- A running row whose lease has run out and that no other transaction holds. -/
def Row.expired (row : Row) (now : Nat) (locked : UuidText → Bool) : Bool :=
  row.status = .running && row.leaseExpiresAt.any (· ≤ now) && row.claimId.isSome &&
  !locked row.jobId

def recoverStaleJobs (queue : Queue) (locked : UuidText → Bool) : Except String (Queue × Nat) := do
  let queue' ← queue.write
    (Table.updateWhere (·.expired queue.now locked) (·.recovered queue.now) queue.jobs)
  pure (queue', queue.jobs.countP (·.expired queue.now locked))

end Wruntime.Jobs
