import Wruntime.Jobs.System

/-!
What the administrative decoders make of a job. Every row of a run has the shape they ask for,
except that they count the job id among the metadata and the insertion does not: a job with more
than 65500 bytes of metadata is stored and cannot be read.
-/

namespace Wruntime.Jobs

open Fallible Wire Runs

variable {queue : Queue}

def Row.metadataBytes (row : Row) : Nat :=
  totalBytes [row.workerNamespace, row.workerName, row.workerVersion, row.jobType,
    row.sourceNamespace, row.sourceModule]

inductive Placed (row : Row) : Prop
  | pending (hstatus : row.status = .pending) (hunclaimed : row.unclaimed = true)
      (hcompleted : row.completedAt = none) (hresult : row.result = none)
      (hleft : row.attempt < row.maxAttempts)
  | running (claimedAt leaseExpiresAt : Nat) (claimedBy : UuidText) (claimId : ClaimId)
      (hstatus : row.status = .running) (hclaimedAt : row.claimedAt = some claimedAt)
      (hlease : row.leaseExpiresAt = some leaseExpiresAt) (hclaimedBy : row.claimedBy = some claimedBy)
      (hclaimId : row.claimId = some claimId) (hcompleted : row.completedAt = none)
      (hresult : row.result = none) (hcreated : row.createdAt ≤ claimedAt)
      (hupdated : claimedAt ≤ row.updatedAt) (hopen : claimedAt < leaseExpiresAt)
      (hattempt : 0 < row.attempt)
  | complete (completedAt : Nat) (hstatus : row.status = .complete)
      (hunclaimed : row.unclaimed = true) (hcompleted : row.completedAt = some completedAt)
      (hresult : row.result.isSome = true) (hcreated : row.createdAt ≤ completedAt)
      (hupdated : completedAt ≤ row.updatedAt) (hattempt : 0 < row.attempt)
  | dead (hstatus : row.status = .dead) (hunclaimed : row.unclaimed = true)
      (hcompleted : row.completedAt = none) (hresult : row.result = none)
      (hexhausted : row.attempt = row.maxAttempts)
      (herror : row.errorMessage.any (· ≠ "") = true)

structure Shaped (now : Nat) (row : Row) : Prop where
  created : row.createdAt ≤ row.updatedAt
  updated : row.updatedAt ≤ now
  timeout : 0 < row.timeoutSecs
  attempts : 0 < row.maxAttempts
  counted : 0 ≤ row.attempt ∧ row.attempt ≤ row.maxAttempts
  payload : row.payload.length ≤ maxJobBlobBytes
  metadata : row.metadataBytes ≤ maxJobMetadataBytes
  result : row.result.all (·.length ≤ maxJobBlobBytes) = true
  error : row.errorMessage.all (·.utf8ByteSize ≤ maxJobErrorBytes) = true
  placed : Placed row

variable {s t : System} {row row' : Row} {now now' : Nat}

theorem Shaped.later (h : Shaped now row) (hnow : now ≤ now') : Shaped now' row :=
  { h with updated := h.updated.trans hnow }

theorem utf8ByteSize_ofList_le (chars : List Char) :
    (String.ofList chars).utf8ByteSize ≤ 4 * chars.length := by
  induction chars with
  | nil => exact Nat.zero_le _
  | cons c chars ih =>
    have hchar := c.utf8Size_le_four
    rw [String.ofList_cons, String.utf8ByteSize_append, String.utf8ByteSize_singleton,
      List.length_cons]
    omega

/-- What is kept of an error leaves room for the note of the recovery. -/
theorem recovered_error_size (text : String) :
    (left text retainedErrorChars ++ " [stale recovery]").utf8ByteSize ≤ maxJobErrorBytes := by
  have hkept : (left text retainedErrorChars).utf8ByteSize ≤ 4 * retainedErrorChars := by
    refine (utf8ByteSize_ofList_le _).trans (Nat.mul_le_mul_left 4 ?_)
    exact List.length_take_le _ _
  have hnote : " [stale recovery]".utf8ByteSize = 17 := by decide
  rw [String.utf8ByteSize_append, hnote]
  simp only [retainedErrorChars, maxJobErrorBytes] at hkept ⊢
  omega

theorem recovered_error_ne (text : String) :
    left text retainedErrorChars ++ " [stale recovery]" ≠ "" := by
  intro h
  have hsize := congrArg String.utf8ByteSize h
  have hnote : " [stale recovery]".utf8ByteSize = 17 := by decide
  rw [String.utf8ByteSize_append, hnote, String.utf8ByteSize_empty] at hsize
  omega

theorem Placed.attempt_pos (h : Placed row) (hstatus : row.status = .running) :
    0 < row.attempt := by
  cases h with
  | running _ _ _ _ _ _ _ _ _ _ _ _ _ _ hattempt => exact hattempt
  | pending hother | complete _ hother | dead hother => rw [hstatus] at hother; cases hother

theorem Placed.unfinished (h : Placed row) (hstatus : row.status ≠ .complete) :
    row.completedAt = none ∧ row.result = none := by
  cases h with
  | pending _ _ hcompleted hresult | running _ _ _ _ _ _ _ _ _ hcompleted hresult
  | dead _ _ hcompleted hresult => exact ⟨hcompleted, hresult⟩
  | complete _ hother => exact absurd hother hstatus

section

variable (h : Shaped now row)
include h

theorem Shaped.claimed (hstatus : row.status = .pending)
    (engineId : UuidText) (claimId : ClaimId) : Shaped now (row.claimed now engineId claimId) := by
  have hunfinished := h.placed.unfinished (by rw [hstatus]; nofun)
  have hleft : row.attempt < row.maxAttempts := by
    cases h.placed with
    | pending _ _ _ _ hleft => exact hleft
    | running _ _ _ _ hother | complete _ hother | dead hother =>
      rw [hstatus] at hother; cases hother
  have hcreated := h.created.trans h.updated
  have htimeout := h.timeout
  have hcounted := h.counted
  refine { h with
    created := hcreated, updated := le_rfl, counted := ?_,
    placed := .running now (now + row.timeoutSecs.toNat) engineId claimId rfl rfl rfl rfl rfl
      hunfinished.1 hunfinished.2 hcreated le_rfl ?_ ?_ }
  · simp only [Row.claimed]
    omega
  · omega
  · simp only [Row.claimed]
    omega

theorem Shaped.completed (hstatus : row.status = .running) {result : Bytes}
    (hsize : result.length ≤ maxJobBlobBytes) : Shaped now (row.completed now result) :=
  have hcreated := h.created.trans h.updated
  { h with
    created := hcreated
    updated := le_rfl
    result := by simpa [Row.completed] using hsize
    placed := .complete now rfl rfl rfl rfl hcreated le_rfl (h.placed.attempt_pos hstatus) }

theorem Shaped.failed (hstatus : row.status = .running) {errorMsg : String}
    (hnonempty : errorMsg ≠ "") (hsize : errorMsg.utf8ByteSize ≤ maxJobErrorBytes) :
    Shaped now (row.failed now errorMsg) := by
  have hunfinished := h.placed.unfinished (by rw [hstatus]; nofun)
  have hcounted := h.counted
  refine { h with
    created := h.created.trans h.updated, updated := le_rfl,
    error := by simpa [Row.failed] using hsize, placed := ?_ }
  by_cases hless : row.attempt < row.maxAttempts
  · exact .pending (if_pos hless) rfl hunfinished.1 hunfinished.2 hless
  · exact .dead (if_neg hless) rfl hunfinished.1 hunfinished.2
      (by simp only [Row.failed, Row.released]; omega) (by simpa [Row.failed] using hnonempty)

theorem Shaped.retried : Shaped now (row.retried now) :=
  { h with
    created := h.created.trans h.updated
    updated := le_rfl
    counted := ⟨le_rfl, h.attempts.le⟩
    result := rfl
    placed := .pending rfl rfl rfl rfl h.attempts }

end

theorem Moved.shaped {moved : Option Event} (hmoved : Moved s row row' moved)
    (h : Shaped s.queue.now row) : Shaped s.queue.now row' := by
  cases hmoved with
  | kept => exact h
  | claimed engineId claimId hpending => exact h.claimed hpending engineId claimId
  | completed claimId result hrunning hclaim hsize => exact h.completed hrunning hsize
  | failed claimId errorMsg hrunning hclaim hnonempty hsize =>
    exact h.failed hrunning hnonempty hsize
  | recovered claimId hrunning =>
    exact h.failed hrunning (recovered_error_ne _) (recovered_error_size _)
  | retried hdead => exact h.retried

theorem Changed.shaped (hchanged : Changed s t) (h : ∀ row ∈ s.queue.jobs, Shaped s.queue.now row) :
    ∀ row ∈ t.queue.jobs, Shaped t.queue.now row := by
  cases hchanged with
  | inserted jobId submission timeoutSecs maxAttempts hnew htimeout hattempts hpayload hmetadata =>
    intro row hrow
    rcases Table.mem_snoc.1 hrow with hrow | rfl
    · exact h row hrow
    · exact ⟨le_rfl, le_rfl, htimeout, hattempts, ⟨le_rfl, hattempts.le⟩, hpayload, hmetadata, rfl,
        rfl, .pending rfl rfl rfl rfl hattempts⟩
  | moved now hnow f events hjobs hknown hclaims hmoved =>
    intro row hrow
    obtain ⟨old, hold, rfl⟩ := List.mem_map.1 hrow
    exact ((hmoved old hold).shaped (h old hold)).later hnow

theorem shaped_of_reach (hreach : Reach System.next System.Fresh (.start now) s) :
    ∀ row ∈ s.queue.jobs, Shaped s.queue.now row := by
  refine hreach.invariant (P := fun s => ∀ row ∈ s.queue.jobs, Shaped s.queue.now row)
    (by simp [System.start]) fun s input hprev hfresh h => ?_
  exact (System.next_changed (ids_nodup_of_reach hprev) hfresh).shaped h

theorem Placed.attempt_ne_zero (h : Placed row) (hattempts : 0 < row.maxAttempts) :
    row.status = .pending ∨ row.attempt.toNat ≠ 0 := by
  cases h with
  | pending hstatus => exact .inl hstatus
  | running | complete | dead => right; omega

theorem Placed.exhausted (h : Placed row) :
    row.status ≠ .dead ∨ row.attempt.toNat = row.maxAttempts.toNat := by
  cases h with
  | dead _ _ _ _ hexhausted => exact .inr (by rw [hexhausted])
  | pending hstatus | running _ _ _ _ hstatus | complete _ hstatus =>
    exact .inl (by rw [hstatus]; nofun)

def Row.item (row : Row) : JobListItem where
  jobId := row.jobId
  workerNamespace := row.workerNamespace
  workerName := row.workerName
  workerVersion := row.workerVersion
  jobType := row.jobType
  status := row.status
  attempt := row.attempt.toNat
  maxAttempts := row.maxAttempts.toNat
  sourceNamespace := row.sourceNamespace
  sourceModule := row.sourceModule
  createdAt := row.createdAt
  updatedAt := row.updatedAt

theorem totalBytes_with_jobId (row : Row) :
    totalBytes [row.jobId.text, row.workerNamespace, row.workerName, row.workerVersion,
      row.jobType, row.sourceNamespace, row.sourceModule] = row.metadataBytes + 36 := by
  have hsize := row.jobId.size
  simp only [totalBytes, Row.metadataBytes, List.foldl_cons, List.foldl_nil]
  omega

section

variable (h : Shaped now row)
include h

theorem Shaped.listItem_eq : listItem row = (do
      stored (row.metadataBytes + 36 ≤ maxJobMetadataBytes)
        "job metadata exceeds configured size bounds"
      pure row.item) := by
  have hcounted := h.counted
  have hbounded : row.attempt.toNat ≤ row.maxAttempts.toNat := by omega
  have hcounts : checkedCounts row = .ok (row.attempt.toNat, row.maxAttempts.toNat) := by
    simp only [checkedCounts, bind_eq_ok, stored_eq_ok, pure_eq_ok]
    exact ⟨⟨⟩, hcounted.1, ⟨⟩, h.attempts, ⟨⟩, hbounded, trivial⟩
  simp only [listItem]
  rw [bind_of_ok hcounts, bind_of_ok (stored_of (h.placed.attempt_ne_zero h.attempts)),
    bind_of_ok (stored_of h.placed.exhausted), bind_of_ok (stored_of h.created)]
  simp only [totalBytes_with_jobId]
  rfl

theorem Shaped.listItem_of_fits
    (hfits : row.metadataBytes + 36 ≤ maxJobMetadataBytes) : listItem row = .ok row.item := by
  rw [h.listItem_eq, bind_of_ok (stored_of hfits)]
  rfl

theorem Shaped.listItem_of_large (hlarge : ¬row.metadataBytes + 36 ≤ maxJobMetadataBytes) :
    listItem row = .error (.database "job metadata exceeds configured size bounds") := by
  rw [h.listItem_eq, stored, ensure_bind_of_false hlarge]

theorem Shaped.checkLifecycle : Jobs.checkLifecycle row row.item = .ok ⟨⟩ := by
  unfold Jobs.checkLifecycle
  cases h.placed with
  | pending hstatus hunclaimed hcompleted hresult =>
    simp only [hstatus, stored_eq_ok]
    exact ⟨hunclaimed, hcompleted, hresult⟩
  | running claimedAt lease claimedBy claimId hstatus hclaimedAt hlease hclaimedBy hclaimId
      hcompleted hresult hafter hbefore hopen =>
    have hnonempty : claimedBy.text ≠ "" := by
      intro hempty
      have hsize := claimedBy.size
      rw [hempty, String.utf8ByteSize_empty] at hsize
      omega
    simp only [hstatus, hclaimedAt, hlease, hclaimedBy, hclaimId, stored_eq_ok]
    exact ⟨hnonempty, hcompleted, hresult, hafter, hbefore, hopen⟩
  | complete completedAt hstatus hunclaimed hcompleted hresult hafter hbefore =>
    simp only [hstatus, hcompleted, stored_eq_ok]
    exact ⟨hunclaimed, hresult, hafter, hbefore⟩
  | dead hstatus hunclaimed hcompleted hresult hexhausted herror =>
    simp only [hstatus, validateDeadLifecycle, bind_eq_ok, stored_eq_ok]
    exact ⟨⟨⟩, ⟨by simp only [Row.item, hexhausted], herror⟩, hunclaimed, hcompleted, hresult⟩

theorem Shaped.detail_of_fits (hfits : row.metadataBytes + 36 ≤ maxJobMetadataBytes) :
    ∃ jobDetail, detail row = .ok jobDetail := by
  simp only [detail, bind_eq_ok, stored_eq_ok, pure_eq_ok]
  exact ⟨_, row.item, h.listItem_of_fits hfits, ⟨⟩, h.timeout, ⟨⟩, ⟨h.payload, h.result, h.error⟩,
    ⟨⟩, h.metadata, ⟨⟩, h.checkLifecycle, rfl⟩

theorem Shaped.detail_of_large (hlarge : ¬row.metadataBytes + 36 ≤ maxJobMetadataBytes) :
    detail row = .error (.database "job metadata exceeds configured size bounds") :=
  bind_of_error (h.listItem_of_large hlarge)

theorem Shaped.valid : row.valid = true := by
  have htimeout := h.timeout
  have hattempts := h.attempts
  have hcounted := h.counted
  cases h.placed <;> simp_all [Row.valid]

end

/-- The call does not end in an error about stored data. -/
def Consistent {α : Type} (answer : Except JobAdminError α) : Prop :=
  ∀ error, answer ≠ .error (.database error)

section Consistency

variable {α β : Type}

theorem consistent_ok (a : α) : Consistent (.ok a) := nofun

theorem consistent_throw_invalid (message : String) :
    Consistent (throw (.invalid message) : Except JobAdminError α) := nofun

theorem consistent_asked {p : Prop} [Decidable p] {message : String} :
    Consistent (asked p message) := by
  intro error h
  have := (ensure_eq_error.1 h).2
  cases this

theorem Consistent.bind {x : Except JobAdminError α} {f : α → Except JobAdminError β}
    (hx : Consistent x) (hf : ∀ a, x = .ok a → Consistent (f a)) : Consistent (x >>= f) := by
  intro error h
  rcases bind_eq_error.1 h with h | ⟨a, ha, h⟩
  · exact hx error h
  · exact hf a ha error h

theorem mapM_eq_ok {f : α → Except JobAdminError β} {items : List α}
    (h : ∀ item ∈ items, ∃ b, f item = .ok b) : ∃ results, items.mapM f = .ok results := by
  induction items with
  | nil => exact ⟨[], rfl⟩
  | cons item items ih =>
    obtain ⟨b, hb⟩ := h item List.mem_cons_self
    obtain ⟨results, hresults⟩ := ih fun i hi => h i (List.mem_cons_of_mem _ hi)
    exact ⟨b :: results, by simp [List.mapM_cons, hb, hresults]⟩

end Consistency

theorem consistent_validate (filter : JobFilter) : Consistent filter.validate :=
  consistent_asked.bind fun _ _ => consistent_asked.bind fun _ _ =>
    consistent_asked.bind fun _ _ => consistent_asked

theorem consistent_decodeCursor (codec : CursorCodec) (value : String) (filter : JobFilter)
    (status : Option JobState) : Consistent (decodeCursor codec value filter status) := by
  unfold decodeCursor
  split
  next => exact consistent_ok none
  next =>
    split
    next => exact consistent_throw_invalid _
    next cursor _ =>
      refine consistent_asked.bind fun _ _ => ?_
      split
      next => exact consistent_throw_invalid _
      next => exact consistent_asked.bind fun _ _ => consistent_ok _

theorem consistent_listJobs (h : ∀ row ∈ queue.jobs, ∃ item, listItem row = .ok item)
    (codec : CursorCodec) (filter : JobFilter) (status : Option JobState) (pageSize : Nat)
    (cursor : String) : Consistent (listJobs codec queue filter status pageSize cursor) := by
  refine (consistent_validate filter).bind fun _ _ => consistent_asked.bind fun _ _ => ?_
  refine (consistent_decodeCursor codec cursor filter status).bind fun position _ => ?_
  have hpage : ∀ size, ∀ row ∈ (((queue.jobs.filter fun row => filter.selects row &&
      status.all (row.status = ·) && position.all row.after).insertionSort
        Row.listedBefore).take (size + 1)).take size, ∃ item, listItem row = .ok item := by
    intro size row hrow
    have hsorted := List.mem_of_mem_take (List.mem_of_mem_take hrow)
    exact h row (List.mem_filter.1 ((List.perm_insertionSort _ _).mem_iff.1 hsorted)).1
  obtain ⟨items, hitems⟩ := mapM_eq_ok (hpage _)
  rw [bind_of_ok hitems]
  exact consistent_ok _

theorem consistent_getJob (h : ∀ row ∈ queue.jobs, ∃ jobDetail, detail row = .ok jobDetail)
    (jobId : String) : Consistent (getJob queue jobId) := by
  refine consistent_asked.bind fun _ _ => ?_
  split
  next => nofun
  next row hrow =>
    obtain ⟨jobDetail, hdetail⟩ := h row (List.mem_of_find?_eq_some hrow)
    rw [hdetail]
    exact consistent_ok _

theorem consistent_retryDeadJob (hshaped : ∀ row ∈ queue.jobs, Shaped queue.now row)
    (hbytes : ∀ row ∈ queue.jobs, row.metadataBytes + 36 ≤ maxJobMetadataBytes) (jobId : String) :
    Consistent (retryDeadJob queue jobId) := by
  refine consistent_asked.bind fun _ _ => ?_
  split
  next => nofun
  next row hrow =>
    split
    next => nofun
    next =>
      have hmem := List.mem_of_find?_eq_some hrow
      have hvalid : (Table.updateWhere (·.jobId.text = jobId) (·.retried queue.now)
          queue.jobs).all Row.valid = true := by
        rw [List.all_eq_true]
        exact Table.forall_updateWhere (fun r hr => (hshaped r hr).valid)
          fun r hr _ => (hshaped r hr).retried.valid
      obtain ⟨jobDetail, hdetail⟩ := (hshaped row hmem).retried.detail_of_fits (hbytes row hmem)
      rw [Queue.write, ensure_bind_of_true hvalid, hdetail]
      exact consistent_ok _

/-- The whole queue can be administered: every row decodes, and nothing ends in an error about
stored data. -/
def Queue.Readable (queue : Queue) : Prop :=
  (∀ row ∈ queue.jobs, (∃ item, listItem row = .ok item) ∧ ∃ jobDetail, detail row = .ok jobDetail) ∧
  (∀ codec filter status pageSize cursor,
    Consistent (listJobs codec queue filter status pageSize cursor)) ∧
  (∀ jobId, Consistent (getJob queue jobId)) ∧ ∀ jobId, Consistent (retryDeadJob queue jobId)

/-- A queue left by any run is readable exactly if every job was submitted with metadata that leave
room for the 36 bytes of a job id. -/
theorem queue_readable_iff (hreach : Reach System.next System.Fresh (.start now) s) :
    s.queue.Readable ↔ ∀ row ∈ s.queue.jobs, row.metadataBytes + 36 ≤ maxJobMetadataBytes := by
  have hshaped := shaped_of_reach hreach
  constructor
  · intro hreadable row hrow
    by_contra hlarge
    obtain ⟨item, hitem⟩ := (hreadable.1 row hrow).1
    rw [(hshaped row hrow).listItem_of_large hlarge] at hitem
    cases hitem
  · intro hbytes
    have hitem : ∀ row ∈ s.queue.jobs, ∃ item, listItem row = .ok item :=
      fun row hrow => ⟨row.item, (hshaped row hrow).listItem_of_fits (hbytes row hrow)⟩
    have hdetail : ∀ row ∈ s.queue.jobs, ∃ jobDetail, detail row = .ok jobDetail :=
      fun row hrow => (hshaped row hrow).detail_of_fits (hbytes row hrow)
    exact ⟨fun row hrow => ⟨hitem row hrow, hdetail row hrow⟩, consistent_listJobs hitem,
      consistent_getJob hdetail, consistent_retryDeadJob hshaped hbytes⟩

namespace Sample

def reader : UuidText := ⟨"00000000-0000-4000-8000-000000000003", by decide⟩

def longType (size : Nat) : Submission :=
  ⟨"", "", "", String.ofList (List.replicate size 'a'), [], 0, 0, "", ""⟩

def stored (size : Nat) : System := (System.start 0).next (.insert reader (longType size))

theorem stored_reach (size : Nat) : Reach System.next System.Fresh (.start 0) (stored size) :=
  .single trivial

theorem utf8ByteSize_replicate (size : Nat) :
    (String.ofList (List.replicate size 'a')).utf8ByteSize = size := by
  induction size with
  | zero => rfl
  | succ size ih =>
    have hchar : 'a'.utf8Size = 1 := rfl
    rw [List.replicate_succ, String.ofList_cons, String.utf8ByteSize_append,
      String.utf8ByteSize_singleton, ih, hchar]
    omega

def longRow (size : Nat) : Row := (longType size).row reader 0 300 3

theorem metadataBytes_longType (size : Nat) : (longType size).metadataBytes = size := by
  simp [Submission.metadataBytes, totalBytes, longType, utf8ByteSize_replicate]

theorem metadataBytes_longRow (size : Nat) : (longRow size).metadataBytes = size :=
  metadataBytes_longType size

theorem jobs_stored {size : Nat} (hsize : size ≤ maxJobMetadataBytes) :
    (stored size).queue.jobs = [longRow size] := by
  have hinsert : insertJob (System.start 0).queue reader (longType size) =
      .ok ⟨0, [longRow size]⟩ := by
    simp only [insertJob, bind_eq_ok, ensure_eq_ok]
    exact ⟨⟨⟩, Nat.zero_le _, ⟨⟩, by rwa [metadataBytes_longType], 300, rfl, 3, rfl, ⟨⟩, rfl, rfl⟩
  simp only [stored, System.next, hinsert]

/-- One job that cannot be decoded fails the page it is on. -/
theorem listJobs_error {error : JobAdminError} (hjobs : queue.jobs = [row])
    (hitem : listItem row = .error error) (codec : CursorCodec) :
    listJobs codec queue ⟨none, none, none, none, none, none, none, none⟩ none 0 "" =
      .error error := by
  have hitems : [row].mapM listItem = .error error := by
    rw [List.mapM_cons, bind_of_error hitem]
  have hvalidate : JobFilter.validate ⟨none, none, none, none, none, none, none, none⟩ =
      .ok ⟨⟩ := rfl
  have hsize : asked (1 ≤ defaultPageSize ∧ defaultPageSize ≤ maxPageSize)
      "page_size must be in 1..=200" = .ok ⟨⟩ := rfl
  have hcursor : decodeCursor codec "" ⟨none, none, none, none, none, none, none, none⟩ none =
      .ok none := rfl
  simp only [listJobs, hjobs, if_true]
  rw [bind_of_ok hvalidate, bind_of_ok hsize, bind_of_ok hcursor]
  exact bind_of_error hitems

end Sample

open Sample

/-- A job with 65536 bytes of metadata is accepted, and then neither listed nor found. -/
theorem accepted_job_unreadable :
    ∃ s, Reach System.next System.Fresh (.start 0) s ∧ s.queue.jobs.length = 1 ∧
      (∀ codec, listJobs codec s.queue ⟨none, none, none, none, none, none, none, none⟩ none 0 "" =
        .error (.database "job metadata exceeds configured size bounds")) ∧
      getJob s.queue reader.text =
        .error (.database "job metadata exceeds configured size bounds") := by
  have hjobs : (Sample.stored 65536).queue.jobs = [longRow 65536] :=
    jobs_stored (by decide)
  have hshaped : Shaped (Sample.stored 65536).queue.now (longRow 65536) :=
    shaped_of_reach (stored_reach 65536) _ (by simp [hjobs])
  have hlarge : ¬(longRow 65536).metadataBytes + 36 ≤ maxJobMetadataBytes := by
    rw [metadataBytes_longRow]
    decide
  refine ⟨Sample.stored 65536, stored_reach _, by rw [hjobs]; rfl, fun codec => ?_, ?_⟩
  · exact listJobs_error hjobs (hshaped.listItem_of_large hlarge) codec
  · have hrow : (Sample.stored 65536).queue.row reader.text = some (longRow 65536) := by
      rw [Queue.row, hjobs]
      exact List.find?_cons_of_pos (decide_eq_true rfl)
    have hblank : Utf8.isBlank reader.text = false := by decide
    simp only [getJob, hrow]
    have hasked : asked (Utf8.isBlank reader.text = false) "job_id is required" = .ok ⟨⟩ :=
      asked_eq_ok.2 hblank
    rw [bind_of_ok hasked]
    exact hshaped.detail_of_large hlarge

theorem queue_readable_at_bound : Reach System.next System.Fresh (.start 0) (Sample.stored 65500) ∧
      (Sample.stored 65500).queue.Readable := by
  refine ⟨stored_reach _, (queue_readable_iff (stored_reach _)).2 ?_⟩
  rw [jobs_stored (by decide)]
  intro row hrow
  obtain rfl := List.mem_singleton.1 hrow
  rw [metadataBytes_longRow]
  decide

end Wruntime.Jobs
