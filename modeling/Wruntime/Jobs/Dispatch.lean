import Wruntime.Lib.Utf8
import Wruntime.Jobs.Readable

/-!
What a worker records of a dispatched job: the response of a success as the result, of anything else
an error text. PostgreSQL stores no text with a zero character: such an error is not recorded, and
the job runs on until its lease is over.
-/

namespace Wruntime.Jobs

open Fallible Wire Runs
open Utf8 (fromUtf8Lossy fromUtf8Lossy_size fromUtf8Lossy_zero)

/-- How a dispatch ends; the errors are texts of the HTTP library. -/
inductive Dispatch
  | unbuilt (error : String)
  | channelClosed
  | responseDropped
  | bodyFailed (error : String)
  | timedOut
  | answered (status : Fin 1000) (body : Bytes) (hbody : body.length ≤ maxJobBlobBytes)

def errorBodyLimit : Nat := maxJobErrorBytes / 4

/-- The error text of a dispatch that has no result. -/
def Dispatch.message (jobTimeout : UInt64) : Dispatch → String
  | .unbuilt error => "build request: " ++ error
  | .channelClosed => "module channel closed"
  | .responseDropped => "module dropped response"
  | .bodyFailed error => "response body: " ++ error
  | .timedOut => "job timed out after " ++ toString jobTimeout.toNat ++ "s"
  | .answered status body _ =>
    "HTTP " ++ toString status.val ++ ": " ++ fromUtf8Lossy (body.take errorBodyLimit)

def isSuccess (status : Fin 1000) : Bool := 200 ≤ status.val && status.val < 300

def Dispatch.result? : Dispatch → Option Bytes
  | .answered status body _ => if isSuccess status then some body else none
  | _ => none

/-- `fail_job` with the database's own check of a text. -/
def storeFailure (queue : Queue) (jobId : UuidText) (claimId : ClaimId) (message : String) :
    Except String (Queue × Finalization) := do
  let finalized ← failJob queue jobId claimId message
  ensure ('\x00' ∉ message.toList) "invalid byte sequence for encoding \"UTF8\": 0x00"
  pure finalized

def dispatchJob (queue : Queue) (jobId : UuidText) (claimId : ClaimId)
    (jobTimeout : UInt64) (dispatch : Dispatch) : Except String (Queue × Finalization) :=
  match dispatch.result? with
  | some result => completeJob queue jobId claimId result
  | none => storeFailure queue jobId claimId (dispatch.message jobTimeout)

/-- What the checks of `fail_job` and of the column ask of a text. -/
structure Storable (message : String) : Prop where
  nonempty : message ≠ ""
  size : message.utf8ByteSize ≤ maxJobErrorBytes
  zero : '\x00' ∉ message.toList

def Dispatch.Recordable : Dispatch → Prop
  | .unbuilt error | .bodyFailed error =>
    15 + error.utf8ByteSize ≤ maxJobErrorBytes ∧ '\x00' ∉ error.toList
  | .answered status body _ => isSuccess status = true ∨ 0 ∉ body.take errorBodyLimit
  | .channelClosed | .responseDropped | .timedOut => True

def Recorded (jobId : UuidText) (answer : Except String (Queue × Finalization)) : Prop :=
  ∃ queue, answer = .ok (queue, .applied) ∧ ∀ r ∈ queue.jobs, r.jobId = jobId → r.status ≠ .running

theorem storable_append {heading text : String} {n : Nat} (hheading : heading.utf8ByteSize = n + 1)
    (hplain : '\x00' ∉ heading.toList) : Storable (heading ++ text) ↔
      n + 1 + text.utf8ByteSize ≤ maxJobErrorBytes ∧ '\x00' ∉ text.toList := by
  rw [← hheading, ← String.utf8ByteSize_append]
  have hzero : '\x00' ∉ (heading ++ text).toList ↔ '\x00' ∉ text.toList := by
    simp [String.toList_append, hplain]
  refine ⟨fun h => ⟨h.size, hzero.1 h.zero⟩, fun h => ⟨fun hempty => ?_, h.1, hzero.2 h.2⟩⟩
  have hsize := congrArg String.utf8ByteSize hempty
  rw [String.utf8ByteSize_append, String.utf8ByteSize_empty] at hsize
  omega

theorem zero_not_mem_toDigits (n : Nat) : '\x00' ∉ Nat.toDigits 10 n := by
  intro hmem
  have hdigit := Nat.isDigit_of_mem_toDigits (by decide) (by decide) hmem
  cases hdigit

theorem utf8ByteSize_toString {n k : Nat} (hk : 0 < k) (hn : n < 10 ^ k) :
    (toString n).utf8ByteSize ≤ 4 * k := by
  rw [Nat.toString_eq_repr, Nat.repr_eq_ofList_toDigits]
  refine (utf8ByteSize_ofList_le _).trans (Nat.mul_le_mul_left 4 ?_)
  exact (Nat.length_toDigits_le_iff (by decide) hk).2 hn

theorem message_storable_iff (jobTimeout : UInt64) {dispatch : Dispatch}
    (hfailed : dispatch.result? = none) :
    Storable (dispatch.message jobTimeout) ↔ dispatch.Recordable := by
  cases dispatch with
  | unbuilt error | bodyFailed error => exact storable_append (n := 14) (by decide) (by decide)
  | channelClosed =>
    have hplain : Storable "module channel closed" := by constructor <;> decide
    exact iff_of_true hplain trivial
  | responseDropped =>
    have hplain : Storable "module dropped response" := by constructor <;> decide
    exact iff_of_true hplain trivial
  | timedOut =>
    have hlt : jobTimeout.toNat < 10 ^ 20 := by
      have hbits := jobTimeout.toNat_lt
      omega
    have hsize := utf8ByteSize_toString (by decide) hlt
    refine iff_of_true ?_ trivial
    change Storable ("job timed out after " ++ toString jobTimeout.toNat ++ "s")
    rw [String.append_assoc, storable_append (n := 19) (by decide) (by decide),
      String.utf8ByteSize_append]
    refine ⟨?_, by simp [String.toList_append, zero_not_mem_toDigits]⟩
    change _ + (_ + 1) ≤ 1024 * 1024
    omega
  | answered status body hbody =>
    have hstatus : isSuccess status = false := by simpa [Dispatch.result?] using hfailed
    have hdigits := utf8ByteSize_toString (k := 3) (by decide) status.isLt
    have hlossy := fromUtf8Lossy_size (body.take errorBodyLimit)
    have htake : (body.take errorBodyLimit).length ≤ 1024 * 1024 / 4 := List.length_take_le _ _
    have hheading : ("HTTP " ++ toString status.val ++ ": ").utf8ByteSize =
        5 + (toString status.val).utf8ByteSize + 1 + 1 := by
      rw [String.utf8ByteSize_append, String.utf8ByteSize_append]
      rfl
    change Storable ("HTTP " ++ toString status.val ++ ": " ++ _) ↔
      isSuccess status = true ∨ 0 ∉ body.take errorBodyLimit
    rw [hstatus, storable_append hheading
      (by simp [String.toList_append, zero_not_mem_toDigits]), fromUtf8Lossy_zero]
    refine ⟨fun h => .inr h.2, fun h => ⟨?_, h.resolve_left (by simp)⟩⟩
    change _ ≤ 1024 * 1024
    omega

section

variable {s : System} {jobId : UuidText} {claimId : ClaimId} {now : Nat}
  (hreach : Reach System.next System.Fresh (.start now) s)
  (hactive : s.queue.jobs.any (·.activeFor jobId claimId) = true)
include hreach hactive

theorem finalize_recorded {f : Row → Row}
    (hshaped : ∀ row, Shaped s.queue.now row → row.status = .running → Shaped s.queue.now (f row))
    (hdone : ∀ row, (f row).status ≠ .running) :
    Recorded jobId (s.queue.finalize jobId claimId f) := by
  have hids := ids_nodup_of_reach hreach
  have hrows := shaped_of_reach hreach
  obtain ⟨row, hrow, hp⟩ := List.any_eq_true.1 hactive
  obtain ⟨hjob, _⟩ := Row.activeFor_eq_true.1 hp
  have hcount := Table.countP_eq_one_of_key hids hrow hp fun r _ hr =>
    (Row.activeFor_eq_true.1 hr).1.trans hjob.symm
  have hvalid : (Table.updateWhere (·.activeFor jobId claimId) f s.queue.jobs).all Row.valid =
      true := by
    rw [List.all_eq_true]
    exact Table.forall_updateWhere (fun r hr => (hrows r hr).valid) fun r hr hactive =>
      (hshaped r (hrows r hr) (Row.activeFor_eq_true.1 hactive).2.1).valid
  refine ⟨{ s.queue with jobs := Table.updateWhere (·.activeFor jobId claimId) f s.queue.jobs },
    ?_, fun r hr hrid => ?_⟩
  · rw [Queue.finalize, Queue.write, ensure_bind_of_true hvalid, hcount]
    rfl
  · rcases Table.updated hr with ⟨old, _, _, rfl⟩ | ⟨hold, hnot⟩
    · exact hdone old
    · obtain rfl := Table.eq_of_nodup_key hids hold hrow (hrid.trans hjob.symm)
      exact absurd hp (by simpa using hnot)

theorem storeFailure_recorded_iff (message : String) :
    Recorded jobId (storeFailure s.queue jobId claimId message) ↔ Storable message := by
  constructor
  · rintro ⟨queue, hok, -⟩
    simp only [storeFailure, failJob, bind_eq_ok, ensure_eq_ok] at hok
    obtain ⟨_, ⟨_, hnonempty, _, hsize, _⟩, _, hzero, _⟩ := hok
    exact ⟨hnonempty, hsize, hzero⟩
  · intro h
    obtain ⟨queue, hok, hleft⟩ := finalize_recorded hreach hactive
      (f := (·.failed s.queue.now message)) (fun row hrow hstatus => hrow.failed hstatus h.1 h.2)
      fun row => by simp only [Row.failed, Row.afterFailure]; split <;> simp
    refine ⟨queue, ?_, hleft⟩
    rw [storeFailure, failJob, ensure_bind_of_true h.1, ensure_bind_of_true h.2, hok]
    exact ensure_bind_of_true h.3

/-- With the claim active, the end of a dispatch is recorded at once exactly if it gives no error
text with a zero character, and the HTTP library none too long. -/
theorem dispatch_recorded_iff (jobTimeout : UInt64) (dispatch : Dispatch) :
    Recorded jobId (dispatchJob s.queue jobId claimId jobTimeout dispatch) ↔
      dispatch.Recordable := by
  unfold dispatchJob
  cases hresult : dispatch.result? with
  | none =>
    exact (storeFailure_recorded_iff hreach hactive _).trans (message_storable_iff _ hresult)
  | some result =>
    cases dispatch with
    | answered status body hbody =>
      simp only [Dispatch.result?, Option.ite_none_right_eq_some, Option.some.injEq] at hresult
      obtain ⟨hsuccess, rfl⟩ := hresult
      refine iff_of_true ?_ (.inl hsuccess)
      simp only [completeJob, ensure_bind_of_true hbody]
      exact finalize_recorded hreach hactive (fun row hrow hstatus => hrow.completed hstatus hbody)
        fun row => by simp [Row.completed]
    | unbuilt | channelClosed | responseDropped | bodyFailed | timedOut => cases hresult

end

namespace Sample

def claimed : System :=
  runAll System.next (.start 0)
    [.insert reader (longType 0), .claim (fun _ => false) ⟨"", "", ""⟩ reader 7]

end Sample

section

open Sample

/-- A body that is no UTF-8 at all: a lone continuation byte, an unfinished sequence and a byte
that no sequence has. Its three replacements are stored. -/
theorem invalid_error_recorded : Recorded reader (dispatchJob claimed.queue reader 7 300
    (.answered 503 [0x62, 0x80, 0xE2, 0x82, 0xFF] (by decide))) :=
  (dispatch_recorded_iff (reach_runAll _ (by decide)) (by decide) 300 _).2 (.inr (by decide))

/-- An error response of one zero byte is refused by the database. -/
theorem zero_byte_unrecorded :
    dispatchJob claimed.queue reader 7 300 (.answered 500 [0] (by decide)) =
      .error "invalid byte sequence for encoding \"UTF8\": 0x00" := by
  rfl

end

end Wruntime.Jobs
