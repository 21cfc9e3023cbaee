import Wruntime.Jobs.Queue
import Wruntime.Lib.Utf8

/-!
The administrative side of the job queue: the decoders `list_item` and `detail` with their checks,
the paged listing, and the retry of a dead job. What the decoders refuse is a database error.
-/

namespace Wruntime.Jobs

open Fallible Wire
open Utf8 (isBlank)

inductive JobAdminError where
  | invalid (message : String)
  | notFound
  | failedPrecondition (message : String)
  | database (error : String)

/-- `Display` hides the error of the database. -/
def JobAdminError.text : JobAdminError → String
  | .invalid message | .failedPrecondition message => message
  | .notFound => "job not found"
  | .database _ => "job queue database operation failed"

def stored (p : Prop) [Decidable p] (error : String) : Except JobAdminError PUnit :=
  ensure p (.database error)

def asked (p : Prop) [Decidable p] (message : String) : Except JobAdminError PUnit :=
  ensure p (.invalid message)

@[simp] theorem stored_eq_ok {p : Prop} [Decidable p] {error : String} {u : PUnit} :
    stored p error = .ok u ↔ p :=
  ensure_eq_ok

theorem stored_of {p : Prop} [Decidable p] {error : String} (h : p) : stored p error = .ok ⟨⟩ :=
  stored_eq_ok.2 h

@[simp] theorem asked_eq_ok {p : Prop} [Decidable p] {message : String} {u : PUnit} :
    asked p message = .ok u ↔ p :=
  ensure_eq_ok

structure JobListItem where
  jobId : UuidText
  workerNamespace : String
  workerName : String
  workerVersion : String
  jobType : String
  status : JobState
  attempt : Nat
  maxAttempts : Nat
  sourceNamespace : String
  sourceModule : String
  createdAt : Nat
  updatedAt : Nat

structure JobDetail where
  summary : JobListItem
  payload : Bytes
  result : Bytes
  lastError : String
  timeout : Nat
  claimedAt : Option Nat
  leaseExpiresAt : Option Nat
  completedAt : Option Nat
  claimedBy : String

def checkedCounts (row : Row) : Except JobAdminError (Nat × Nat) := do
  stored (0 ≤ row.attempt) "negative attempt"
  stored (0 < row.maxAttempts) "invalid max attempts"
  stored (row.attempt.toNat ≤ row.maxAttempts.toNat) "attempt count exceeds max attempts"
  pure (row.attempt.toNat, row.maxAttempts.toNat)

def listItem (row : Row) : Except JobAdminError JobListItem := do
  let (attempt, maxAttempts) ← checkedCounts row
  stored (row.status = .pending ∨ attempt ≠ 0) "non-pending job has zero attempts"
  stored (row.status ≠ .dead ∨ attempt = maxAttempts) "dead job has remaining attempts"
  stored (row.createdAt ≤ row.updatedAt) "job updated_at precedes created_at"
  let item : JobListItem :=
    { jobId := row.jobId
      workerNamespace := row.workerNamespace
      workerName := row.workerName
      workerVersion := row.workerVersion
      jobType := row.jobType
      status := row.status
      attempt := attempt
      maxAttempts := maxAttempts
      sourceNamespace := row.sourceNamespace
      sourceModule := row.sourceModule
      createdAt := row.createdAt
      updatedAt := row.updatedAt }
  -- Unlike the bound at insertion, this one counts the job id.
  stored (totalBytes [item.jobId.text, item.workerNamespace, item.workerName, item.workerVersion,
      item.jobType, item.sourceNamespace, item.sourceModule] ≤ maxJobMetadataBytes)
    "job metadata exceeds configured size bounds"
  pure item

def validateDeadLifecycle (attempt maxAttempts : Nat) (lastError : Option String) :
    Except JobAdminError PUnit :=
  stored (attempt = maxAttempts ∧ lastError.any (· ≠ "") = true)
    "dead job has inconsistent attempt or failure metadata"

/-- The checks of `detail` that depend on the status. -/
def checkLifecycle (row : Row) (summary : JobListItem) : Except JobAdminError PUnit :=
  match row.status with
  | .pending =>
    stored (row.unclaimed = true ∧ row.completedAt = none ∧ row.result = none)
      "pending job has terminal or claim metadata"
  | .dead => do
    validateDeadLifecycle summary.attempt summary.maxAttempts row.errorMessage
    stored (row.unclaimed = true ∧ row.completedAt = none ∧ row.result = none)
      "dead job has terminal or claim metadata"
  | .running =>
    match row.claimedAt, row.leaseExpiresAt, row.claimedBy, row.claimId with
    | some claimedAt, some leaseExpiresAt, some claimedBy, some _ =>
      stored (claimedBy.text ≠ "" ∧ row.completedAt = none ∧ row.result = none ∧
          summary.createdAt ≤ claimedAt ∧ claimedAt ≤ summary.updatedAt ∧
          claimedAt < leaseExpiresAt)
        "running job has inconsistent lifecycle metadata"
    | _, _, _, _ => throw (.database "running job is missing claim metadata")
  | .complete =>
    match row.completedAt with
    | some completedAt =>
      stored (row.unclaimed = true ∧ row.result.isSome = true ∧ summary.createdAt ≤ completedAt ∧
          completedAt ≤ summary.updatedAt)
        "complete job has inconsistent lifecycle metadata"
    | none => throw (.database "complete job is missing completed_at")

def detail (row : Row) : Except JobAdminError JobDetail := do
  let summary ← listItem row
  stored (0 < row.timeoutSecs) "invalid job timeout"
  stored (row.payload.length ≤ maxJobBlobBytes ∧
      row.result.all (·.length ≤ maxJobBlobBytes) = true ∧
      row.errorMessage.all (·.utf8ByteSize ≤ maxJobErrorBytes) = true)
    "job detail exceeds configured size bounds"
  stored (totalBytes [summary.workerNamespace, summary.workerName, summary.workerVersion,
      summary.jobType, summary.sourceNamespace, summary.sourceModule] ≤ maxJobMetadataBytes)
    "job metadata exceeds configured size bounds"
  checkLifecycle row summary
  pure
    { summary
      payload := row.payload
      result := row.result.getD []
      lastError := row.errorMessage.getD ""
      timeout := row.timeoutSecs.toNat
      claimedAt := row.claimedAt
      leaseExpiresAt := row.leaseExpiresAt
      completedAt := row.completedAt
      claimedBy := (row.claimedBy.map (·.text)).getD "" }

structure JobFilter where
  workerNamespace : Option String
  workerName : Option String
  workerVersion : Option String
  jobType : Option String
  sourceNamespace : Option String
  sourceModule : Option String
  createdAtFrom : Option Nat
  createdAtBefore : Option Nat

def JobFilter.validate (filter : JobFilter) : Except JobAdminError PUnit := do
  asked (filter.workerName = none ∨ filter.workerNamespace ≠ none)
    "worker_namespace is required with worker_name"
  asked (filter.workerVersion = none ∨ filter.workerName ≠ none)
    "worker_name is required with worker_version"
  asked (filter.sourceModule = none ∨ filter.sourceNamespace ≠ none)
    "source_namespace is required with source_module"
  asked (∀ start ∈ filter.createdAtFrom, ∀ before ∈ filter.createdAtBefore, start < before)
    "created_at_from must be earlier than created_at_before"

def JobFilter.selects (filter : JobFilter) (row : Row) : Bool :=
  filter.workerNamespace.all (row.workerNamespace = ·) &&
  filter.workerName.all (row.workerName = ·) &&
  filter.workerVersion.all (row.workerVersion = ·) &&
  filter.jobType.all (row.jobType = ·) &&
  filter.sourceNamespace.all (row.sourceNamespace = ·) &&
  filter.sourceModule.all (row.sourceModule = ·) &&
  filter.createdAtFrom.all (· ≤ row.createdAt) &&
  filter.createdAtBefore.all (row.createdAt < ·)

/-- A cursor once its base64 and JSON layers are off; its time may still be malformed. -/
structure CursorV1 where
  v : Nat
  createdAt : Option Nat
  jobId : String
  filter : String

/-- The cursor's text format and the fingerprint of a filter. -/
structure CursorCodec where
  parse : String → Option CursorV1
  render : CursorV1 → String
  fingerprint : JobFilter → Option JobState → String

def decodeCursor (codec : CursorCodec) (value : String) (filter : JobFilter)
    (status : Option JobState) : Except JobAdminError (Option (Nat × String)) :=
  if value = "" then pure none
  else match codec.parse value with
    | none => throw (.invalid "cursor is malformed")
    | some cursor => do
      asked (cursor.v = 1 ∧ cursor.filter = codec.fingerprint filter status)
        "cursor does not match the requested filters"
      match cursor.createdAt with
      | none => throw (.invalid "cursor is malformed")
      | some createdAt => do
        asked (cursor.jobId ≠ "") "cursor is malformed"
        pure (some (createdAt, cursor.jobId))

def encodeCursor (codec : CursorCodec) (item : JobListItem) (filter : JobFilter)
    (status : Option JobState) : String :=
  codec.render ⟨1, some item.createdAt, item.jobId.text, codec.fingerprint filter status⟩

/-- `ORDER BY created_at DESC, job_id DESC`. -/
def Row.listedBefore (a b : Row) : Prop :=
  b.createdAt < a.createdAt ∨ b.createdAt = a.createdAt ∧ b.jobId.text ≤ a.jobId.text

instance (a b : Row) : Decidable (a.listedBefore b) :=
  inferInstanceAs (Decidable (_ ∨ _ ∧ _))

def Row.after (row : Row) (cursor : Nat × String) : Bool :=
  row.createdAt < cursor.1 || (row.createdAt = cursor.1 && row.jobId.text < cursor.2)

structure JobPage where
  jobs : List JobListItem
  nextCursor : Option String

def defaultPageSize : Nat := 50

def maxPageSize : Nat := 200

def listJobs (codec : CursorCodec) (queue : Queue) (filter : JobFilter) (status : Option JobState)
    (pageSize : Nat) (cursor : String) : Except JobAdminError JobPage := do
  filter.validate
  let pageSize := if pageSize = 0 then defaultPageSize else pageSize
  asked (1 ≤ pageSize ∧ pageSize ≤ maxPageSize) "page_size must be in 1..=200"
  let cursor ← decodeCursor codec cursor filter status
  let selected := queue.jobs.filter fun row =>
    filter.selects row && status.all (row.status = ·) && cursor.all row.after
  let rows := (selected.insertionSort Row.listedBefore).take (pageSize + 1)
  let jobs ← (rows.take pageSize).mapM listItem
  let nextCursor :=
    if pageSize < rows.length then jobs.getLast?.map (encodeCursor codec · filter status) else none
  pure ⟨jobs, nextCursor⟩

def getJob (queue : Queue) (jobId : String) : Except JobAdminError JobDetail := do
  asked (isBlank jobId = false) "job_id is required"
  match queue.row jobId with
  | none => throw .notFound
  | some row => detail row

def Row.retried (row : Row) (now : Nat) : Row :=
  { row.released now with
    status := .pending, attempt := 0, result := none, completedAt := none }

def retryDeadJob (queue : Queue) (jobId : String) :
    Except JobAdminError (Queue × JobDetail) := do
  asked (isBlank jobId = false) "job_id is required"
  match queue.row jobId with
  | none => throw .notFound
  | some row =>
    if row.status ≠ .dead then
      throw (.failedPrecondition
        ("job is " ++ row.status.asStr ++ ", only dead jobs can be retried"))
    else do
      let queue' ← (queue.write (Table.updateWhere (·.jobId.text = jobId) (·.retried queue.now)
        queue.jobs)).mapError .database
      -- A row that cannot be decoded rolls the transaction back.
      let updated ← detail (row.retried queue.now)
      pure (queue', updated)

end Wruntime.Jobs
