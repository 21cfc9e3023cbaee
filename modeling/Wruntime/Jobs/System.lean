import Wruntime.Jobs.Admin
import Wruntime.Lib.Runs

/-!
The queue under any interleaving of its six statements, with a log of what they did. `Changed` says
once what a step can do: a job is inserted, or every row moves by itself and leaves an event if it
moves.
-/

namespace Wruntime.Jobs

open Fallible Wire Runs

variable {claimId : ClaimId} {jobId : UuidText}

/-- How a claim of a job ended. -/
inductive Outcome where
  | completed (result : Bytes)
  | failed (errorMsg : String)
  | recovered

/-- What a statement did to one job, with the claim it did it for. -/
inductive Event where
  | inserted (jobId : UuidText)
  | claimed (jobId : UuidText) (claimId : ClaimId)
  | ended (jobId : UuidText) (claimId : ClaimId) (outcome : Outcome)
  | retried (jobId : UuidText)

def Event.job : Event → UuidText
  | .inserted jobId | .claimed jobId _ | .ended jobId _ _ | .retried jobId => jobId

def Event.claim : Event → Option ClaimId
  | .claimed _ claimId | .ended _ claimId _ => some claimId
  | .inserted _ | .retried _ => none

/-- The queue and everything that was done to it, in order. -/
structure System where
  queue : Queue
  log : List Event

/-- A statement with what it is given; `locked` are the rows that another transaction holds and
`SKIP LOCKED` passes over. -/
inductive Input where
  | tick (elapsed : Nat)
  | insert (jobId : UuidText) (submission : Submission)
  | claim (locked : UuidText → Bool) (worker : Worker) (engineId : UuidText) (claimId : ClaimId)
  | complete (jobId : UuidText) (claimId : ClaimId) (result : Bytes)
  | fail (jobId : UuidText) (claimId : ClaimId) (errorMsg : String)
  | recover (locked : UuidText → Bool)
  | retry (jobId : String)

/-- A finalization is logged only if it was applied: a stale report changes nothing. -/
def System.finalized (s : System) (answer : Except String (Queue × Finalization))
    (event : Event) : System :=
  match answer with
  | .ok (queue, .applied) => ⟨queue, s.log ++ [event]⟩
  | .ok (queue, .stale) => { s with queue }
  | .error _ => s

/-- The event that the recovery of stale jobs leaves for a row, if its lease has expired. -/
def Row.recovery (row : Row) (now : Nat) (locked : UuidText → Bool) : Option Event :=
  if row.expired now locked then row.claimId.map (.ended row.jobId · .recovered) else none

def Queue.recoveries (queue : Queue) (locked : UuidText → Bool) : List Event :=
  queue.jobs.filterMap (·.recovery queue.now locked)

/-- One statement. A statement that fails is rolled back and leaves the system as it was. -/
def System.next (s : System) : Input → System
  | .tick elapsed => { s with queue.now := s.queue.now + elapsed }
  | .insert jobId submission =>
    match insertJob s.queue jobId submission with
    | .ok queue => ⟨queue, s.log ++ [.inserted jobId]⟩
    | .error _ => s
  | .claim locked worker engineId claimId =>
    match claimJob s.queue locked worker engineId claimId with
    | .ok (queue, some picked) => ⟨queue, s.log ++ [.claimed picked.jobId claimId]⟩
    | .ok (queue, none) => { s with queue }
    | .error _ => s
  | .complete jobId claimId result =>
    s.finalized (completeJob s.queue jobId claimId result) (.ended jobId claimId (.completed result))
  | .fail jobId claimId errorMsg =>
    s.finalized (failJob s.queue jobId claimId errorMsg) (.ended jobId claimId (.failed errorMsg))
  | .recover locked =>
    match recoverStaleJobs s.queue locked with
    | .ok (queue, _) => ⟨queue, s.log ++ s.queue.recoveries locked⟩
    | .error _ => s
  | .retry jobId =>
    match retryDeadJob s.queue jobId with
    | .ok (queue, updated) => ⟨queue, s.log ++ [.retried updated.summary.jobId]⟩
    | .error _ => s

/-- A claim id is drawn at random: it is that of no earlier claim. -/
def System.Fresh (s : System) : Input → Prop
  | .claim _ _ _ claimId => ∀ event ∈ s.log, event.claim ≠ some claimId
  | _ => True

instance (s : System) (input : Input) : Decidable (s.Fresh input) := by
  cases input <;> unfold System.Fresh <;> infer_instance

def System.start (now : Nat) : System := ⟨⟨now, []⟩, []⟩

/-- What can happen to a row in one step, and the event that tells it. -/
inductive Moved (s : System) (row : Row) : Row → Option Event → Prop
  | kept : Moved s row row none
  | claimed (engineId : UuidText) (claimId : ClaimId) (hpending : row.status = .pending)
      (hfresh : ∀ event ∈ s.log, event.claim ≠ some claimId) :
      Moved s row (row.claimed s.queue.now engineId claimId) (some (.claimed row.jobId claimId))
  | completed (claimId : ClaimId) (result : Bytes) (hrunning : row.status = .running)
      (hclaim : row.claimId = some claimId) (hsize : result.length ≤ maxJobBlobBytes) :
      Moved s row (row.completed s.queue.now result)
        (some (.ended row.jobId claimId (.completed result)))
  | failed (claimId : ClaimId) (errorMsg : String) (hrunning : row.status = .running)
      (hclaim : row.claimId = some claimId) (hnonempty : errorMsg ≠ "")
      (hsize : errorMsg.utf8ByteSize ≤ maxJobErrorBytes) :
      Moved s row (row.failed s.queue.now errorMsg)
        (some (.ended row.jobId claimId (.failed errorMsg)))
  | recovered (claimId : ClaimId) (hrunning : row.status = .running)
      (hclaim : row.claimId = some claimId) :
      Moved s row (row.recovered s.queue.now) (some (.ended row.jobId claimId .recovered))
  | retried (hdead : row.status = .dead) :
      Moved s row (row.retried s.queue.now) (some (.retried row.jobId))

variable {s t : System} {row row' : Row} {event : Event} {input : Input}

theorem Moved.job_eq (h : Moved s row row' (some event)) : event.job = row.jobId := by
  cases h <;> rfl

theorem Moved.jobId_eq {moved : Option Event} (h : Moved s row row' moved) :
    row'.jobId = row.jobId := by
  cases h <;> rfl

def System.ids (s : System) : List UuidText := s.queue.jobs.map (·.jobId)

/-- The event of a job among those of one step, which have different jobs. -/
def eventOf (events : List Event) (jobId : UuidText) : Option Event :=
  events.find? (·.job = jobId)

/-- Everything that a step can do. -/
inductive Changed (s : System) : System → Prop
  | inserted (jobId : UuidText) (submission : Submission) (timeoutSecs maxAttempts : Int)
      (hnew : jobId ∉ s.ids) (htimeout : 0 < timeoutSecs) (hattempts : 0 < maxAttempts)
      (hpayload : submission.payload.length ≤ maxJobBlobBytes)
      (hmetadata : submission.metadataBytes ≤ maxJobMetadataBytes) :
      Changed s ⟨{ s.queue with
        jobs := s.queue.jobs ++ [submission.row jobId s.queue.now timeoutSecs maxAttempts] },
        s.log ++ [.inserted jobId]⟩
  | moved (now : Nat) (hnow : s.queue.now ≤ now) (f : Row → Row) (events : List Event)
      (hjobs : (events.map Event.job).Nodup) (hknown : ∀ event ∈ events, event.job ∈ s.ids)
      (hclaims : ∀ job job' claimId, .claimed job claimId ∈ events →
        .claimed job' claimId ∈ events → job = job')
      (hmoved : ∀ row ∈ s.queue.jobs, Moved s row (f row) (eventOf events row.jobId)) :
      Changed s ⟨⟨now, s.queue.jobs.map f⟩, s.log ++ events⟩

theorem Changed.tick (s : System) (elapsed : Nat) :
    Changed s { s with queue.now := s.queue.now + elapsed } := by
  have h := Changed.moved (s := s) (s.queue.now + elapsed) (Nat.le_add_right _ _) id [] (by simp)
    (by simp) (by simp) fun row _ => Moved.kept
  simpa using h

theorem Changed.refl (s : System) : Changed s s := Changed.tick s 0

/-- The update of the one row that a statement selects is a step. -/
theorem Changed.single {p : Row → Bool} {g : Row → Row} (hids : s.ids.Nodup)
    (hrow : row ∈ s.queue.jobs) (hp : p row = true)
    (hkey : ∀ r ∈ s.queue.jobs, p r = true → r.jobId = row.jobId)
    (hmoved : Moved s row (g row) (some event)) :
    Changed s ⟨{ s.queue with jobs := Table.updateWhere p g s.queue.jobs }, s.log ++ [event]⟩ := by
  refine Changed.moved s.queue.now le_rfl (fun r => if p r then g r else r) [event] (by simp)
    ?_ ?_ ?_
  · rintro e he
    obtain rfl := List.mem_singleton.1 he
    rw [hmoved.job_eq]
    exact List.mem_map_of_mem hrow
  · intro job job' claimId h h'
    have := (List.mem_singleton.1 h).trans (List.mem_singleton.1 h').symm
    exact (Event.claimed.inj this).1
  · intro r hr
    by_cases hpr : p r = true
    · obtain rfl : r = row := Table.eq_of_nodup_key hids hr hrow (hkey r hr hpr)
      simpa [eventOf, hmoved.job_eq, hpr] using hmoved
    · have hne : row.jobId ≠ r.jobId := fun heq =>
        hpr (Table.eq_of_nodup_key hids hrow hr heq ▸ hp)
      simpa [eventOf, hmoved.job_eq, hpr, hne] using Moved.kept

theorem Queue.write_eq_ok {queue queue' : Queue} {jobs : List Row}
    (h : queue.write jobs = .ok queue') : queue' = { queue with jobs } := by
  simp only [Queue.write, bind_eq_ok, ensure_eq_ok, pure_eq_ok] at h
  obtain ⟨-, -, rfl⟩ := h
  rfl

theorem positiveOrDefault_eq_ok {value default : Nat} {result : Int} (hdefault : 0 < default)
    (h : positiveOrDefault value default = .ok result) : 0 < result := by
  simp only [positiveOrDefault, bind_eq_ok, ensure_eq_ok, pure_eq_ok] at h
  obtain ⟨-, -, rfl⟩ := h
  split <;> omega

theorem changed_insert (s : System) (jobId : UuidText) (submission : Submission) :
    Changed s (s.next (.insert jobId submission)) := by
  simp only [System.next]
  split
  next queue hinsert =>
    simp only [insertJob, bind_eq_ok, ensure_eq_ok] at hinsert
    obtain ⟨-, hpayload, -, hmetadata, timeoutSecs, htimeout, maxAttempts, hattempts, -, hnew,
      hwrite⟩ := hinsert
    rw [Queue.write_eq_ok hwrite]
    refine .inserted jobId submission timeoutSecs maxAttempts ?_
      (positiveOrDefault_eq_ok (by omega) htimeout) (positiveOrDefault_eq_ok (by omega) hattempts)
      hpayload hmetadata
    intro hmem
    obtain ⟨row, hrow, rfl⟩ := List.mem_map.1 hmem
    simpa using List.all_eq_true.1 hnew row hrow
  next => exact .refl s

theorem changed_claim (hids : s.ids.Nodup) {locked : UuidText → Bool} {worker : Worker}
    {engineId : UuidText} (hfresh : s.Fresh (.claim locked worker engineId claimId)) :
    Changed s (s.next (.claim locked worker engineId claimId)) := by
  simp only [System.next]
  split
  next queue picked hclaim =>
    simp only [claimJob] at hclaim
    split at hclaim
    next => simp at hclaim
    next row hmin =>
      simp only [bind_eq_ok, pure_eq_ok, Prod.mk.injEq] at hclaim
      obtain ⟨queue', hwrite, rfl, hrow⟩ := hclaim
      obtain rfl := Option.some.inj hrow
      obtain ⟨hmem, hcond⟩ := List.mem_filter.1 (List.argmin_mem hmin)
      have hpending : row.status = .pending := by
        simp only [Row.claimableBy, Bool.and_eq_true, decide_eq_true_eq] at hcond
        exact hcond.1.2
      rw [Queue.write_eq_ok hwrite]
      exact .single hids hmem (by simp) (by simp) (.claimed engineId claimId hpending hfresh)
  next queue hclaim =>
    simp only [claimJob] at hclaim
    split at hclaim
    next =>
      obtain rfl : s.queue = queue := by simpa using hclaim
      exact .refl s
    next => simp at hclaim
  next => exact .refl s

theorem Row.activeFor_eq_true : row.activeFor jobId claimId = true ↔
      row.jobId = jobId ∧ row.status = .running ∧ row.claimId = some claimId := by
  simp [Row.activeFor, and_assoc]

/-- A report for a claim that is no longer active leaves the system as it was. -/
theorem System.finalized_of_inactive {f : Row → Row}
    (hinactive : s.queue.jobs.any (·.activeFor jobId claimId) = false) :
    s.finalized (s.queue.finalize jobId claimId f) event = s := by
  have hcount : s.queue.jobs.countP (·.activeFor jobId claimId) = 0 := by
    simpa [List.countP_eq_zero] using hinactive
  unfold Queue.finalize
  rw [Table.updateWhere_of_any_eq_false hinactive, hcount]
  cases hwrite : s.queue.write s.queue.jobs with
  | error reason => rfl
  | ok queue => rw [Queue.write_eq_ok hwrite]; rfl

/-- An applied report moves the one row that its claim holds. -/
theorem changed_finalized (hids : s.ids.Nodup)
    {f : Row → Row} (hmoved : ∀ row ∈ s.queue.jobs, row.activeFor jobId claimId = true →
      Moved s row (f row) (some event)) :
    Changed s (s.finalized (s.queue.finalize jobId claimId f) event) := by
  cases hactive : s.queue.jobs.any (·.activeFor jobId claimId) with
  | false =>
    rw [System.finalized_of_inactive hactive]
    exact .refl s
  | true =>
    obtain ⟨row, hrow, hp⟩ := List.any_eq_true.1 hactive
    have hkey : ∀ r ∈ s.queue.jobs, r.activeFor jobId claimId = true → r.jobId = row.jobId :=
      fun r _ hr => (Row.activeFor_eq_true.1 hr).1.trans (Row.activeFor_eq_true.1 hp).1.symm
    unfold Queue.finalize
    rw [Table.countP_eq_one_of_key hids hrow hp hkey]
    cases hwrite : s.queue.write _ with
    | error reason => exact .refl s
    | ok queue =>
      rw [Queue.write_eq_ok hwrite]
      exact .single hids hrow hp hkey (hmoved row hrow hp)

theorem changed_complete (hids : s.ids.Nodup) (jobId : UuidText) (claimId : ClaimId)
    (result : Bytes) : Changed s (s.next (.complete jobId claimId result)) := by
  by_cases hsize : result.length ≤ maxJobBlobBytes
  · simp only [System.next, completeJob, ensure_bind_of_true hsize]
    refine changed_finalized hids fun row hrow hactive => ?_
    obtain ⟨rfl, hrunning, hclaim⟩ := Row.activeFor_eq_true.1 hactive
    exact .completed claimId result hrunning hclaim hsize
  · simp only [System.next, completeJob, ensure_bind_of_false hsize]
    exact .refl s

theorem changed_fail (hids : s.ids.Nodup) (jobId : UuidText) (claimId : ClaimId)
    (errorMsg : String) : Changed s (s.next (.fail jobId claimId errorMsg)) := by
  by_cases hnonempty : errorMsg ≠ ""
  · by_cases hsize : errorMsg.utf8ByteSize ≤ maxJobErrorBytes
    · simp only [System.next, failJob, ensure_bind_of_true hnonempty, ensure_bind_of_true hsize]
      refine changed_finalized hids fun row hrow hactive => ?_
      obtain ⟨rfl, hrunning, hclaim⟩ := Row.activeFor_eq_true.1 hactive
      exact .failed claimId errorMsg hrunning hclaim hnonempty hsize
    · simp only [System.next, failJob, ensure_bind_of_true hnonempty, ensure_bind_of_false hsize]
      exact .refl s
  · simp only [System.next, failJob, ensure_bind_of_false hnonempty]
    exact .refl s

theorem Row.job_recovery (now : Nat) (locked : UuidText → Bool) (row : Row) (event : Event)
    (h : row.recovery now locked = some event) : event.job = row.jobId := by
  unfold Row.recovery at h
  split at h
  · obtain ⟨claimId, -, rfl⟩ := Option.map_eq_some_iff.1 h
    rfl
  · cases h

section RowEvents

variable {rows : List Row} {g : Row → Option Event}

section

variable (hjob : ∀ row event, g row = some event → event.job = row.jobId)
include hjob

theorem job_mem_of_filterMap : ∀ event ∈ rows.filterMap g, event.job ∈ rows.map (·.jobId) := by
  intro event hevent
  obtain ⟨row, hrow, hg⟩ := List.mem_filterMap.1 hevent
  rw [hjob row event hg]
  exact List.mem_map_of_mem hrow

/-- Recovering all stale rows at once leaves one event for each of them, found by its job. -/
theorem eventOf_filterMap (hnodup : (rows.map (·.jobId)).Nodup) :
    ((rows.filterMap g).map Event.job).Nodup ∧
      ∀ row ∈ rows, eventOf (rows.filterMap g) row.jobId = g row := by
  induction rows with
  | nil => simp
  | cons head rows ih =>
    rw [List.map_cons, List.nodup_cons] at hnodup
    obtain ⟨hjobs, hof⟩ := ih hnodup.2
    have hother : ∀ event ∈ rows.filterMap g, event.job ≠ head.jobId :=
      fun event hevent heq => hnodup.1 (heq ▸ job_mem_of_filterMap hjob event hevent)
    cases hg : g head with
    | none =>
      rw [List.filterMap_cons_none hg]
      refine ⟨hjobs, fun row hrow => ?_⟩
      rcases List.mem_cons.1 hrow with rfl | hrow
      · rw [hg, eventOf, List.find?_eq_none]
        simpa using hother
      · exact hof row hrow
    | some event =>
      have hevent := hjob head event hg
      rw [List.filterMap_cons_some hg, List.map_cons, List.nodup_cons]
      refine ⟨⟨fun hin => ?_, hjobs⟩, fun row hrow => ?_⟩
      · obtain ⟨e, he, hej⟩ := List.mem_map.1 hin
        exact hother e he (hej.trans hevent)
      · rcases List.mem_cons.1 hrow with rfl | hrow
        · simp [eventOf, hevent, hg]
        · have hne : head.jobId ≠ row.jobId := fun heq =>
            hnodup.1 (heq ▸ List.mem_map_of_mem hrow)
          rw [← hof row hrow]
          simp [eventOf, hevent, hne]

end

end RowEvents

theorem moved_recovery (s : System) (row : Row) (locked : UuidText → Bool) :
    Moved s row (if row.expired s.queue.now locked then row.recovered s.queue.now else row)
      (row.recovery s.queue.now locked) := by
  unfold Row.recovery
  by_cases hexpired : row.expired s.queue.now locked = true
  · have h := hexpired
    simp only [Row.expired, Bool.and_eq_true, decide_eq_true_eq] at h
    obtain ⟨claimId, hclaim⟩ := Option.isSome_iff_exists.1 h.1.2
    simp only [hexpired, if_true, hclaim, Option.map_some]
    exact .recovered claimId h.1.1.1 hclaim
  · simpa [hexpired] using Moved.kept

theorem changed_recover (hids : s.ids.Nodup) (locked : UuidText → Bool) :
    Changed s (s.next (.recover locked)) := by
  simp only [System.next]
  split
  next queue count hrecover =>
    simp only [recoverStaleJobs, bind_eq_ok, pure_eq_ok, Prod.mk.injEq] at hrecover
    obtain ⟨queue', hwrite, rfl, -⟩ := hrecover
    rw [Queue.write_eq_ok hwrite]
    have hjob := Row.job_recovery s.queue.now locked
    obtain ⟨hjobs, hof⟩ := eventOf_filterMap hjob hids
    refine .moved s.queue.now le_rfl _ _ hjobs (job_mem_of_filterMap hjob) ?_ ?_
    · intro job job' claimId h
      obtain ⟨row, -, hrow⟩ := List.mem_filterMap.1 h
      unfold Row.recovery at hrow
      split at hrow
      · obtain ⟨_, -, hevent⟩ := Option.map_eq_some_iff.1 hrow
        cases hevent
      · cases hrow
    · intro row hrow
      rw [Queue.recoveries, hof row hrow]
      exact moved_recovery s row locked
  next => exact .refl s

theorem UuidText.eq_of_text {a b : UuidText} (h : a.text = b.text) : a = b := by
  cases a
  cases b
  simpa using h

theorem summary_of_detail {jobDetail : JobDetail} (h : detail row = .ok jobDetail) :
    jobDetail.summary.jobId = row.jobId := by
  simp only [detail, listItem, bind_eq_ok, pure_eq_ok, stored_eq_ok] at h
  obtain ⟨item, ⟨counts, -, -, -, -, -, -, -, -, -, rfl⟩, -, -, -, -, -, -, -, -, rfl⟩ := h
  rfl

theorem changed_retry (hids : s.ids.Nodup) (jobId : String) :
    Changed s (s.next (.retry jobId)) := by
  simp only [System.next]
  split
  next queue updated hretry =>
    simp only [retryDeadJob, bind_eq_ok, asked_eq_ok] at hretry
    obtain ⟨-, -, hretry⟩ := hretry
    split at hretry
    next => cases hretry
    next row hfind =>
      split at hretry
      next => cases hretry
      next hdead =>
        simp only [bind_eq_ok, pure_eq_ok, mapError_eq_ok, Prod.mk.injEq] at hretry
        obtain ⟨queue', hwrite, updated', hdetail, rfl, rfl⟩ := hretry
        have hid : row.jobId.text = jobId := by simpa using List.find?_some hfind
        rw [Queue.write_eq_ok hwrite, summary_of_detail hdetail]
        refine .single hids (List.mem_of_find?_eq_some hfind) (by simpa using hid) ?_
          (.retried (not_not.1 hdead))
        intro r _ hr
        exact UuidText.eq_of_text ((of_decide_eq_true hr).trans hid.symm)
  next => exact .refl s

/-- Every statement is a step: the inversion that all invariants of the queue start from. -/
theorem System.next_changed (hids : s.ids.Nodup) (hfresh : s.Fresh input) :
    Changed s (s.next input) := by
  cases input with
  | tick elapsed => exact .tick s elapsed
  | insert jobId submission => exact changed_insert s jobId submission
  | claim locked worker engineId claimId => exact changed_claim hids hfresh
  | complete jobId claimId result => exact changed_complete hids jobId claimId result
  | fail jobId claimId errorMsg => exact changed_fail hids jobId claimId errorMsg
  | recover locked => exact changed_recover hids locked
  | retry jobId => exact changed_retry hids jobId

theorem Changed.ids_nodup (h : Changed s t) (hids : s.ids.Nodup) : t.ids.Nodup := by
  cases h with
  | inserted jobId submission timeoutSecs maxAttempts hnew =>
    refine Table.nodup_snoc hids fun row hrow hid => hnew ?_
    exact List.mem_map.2 ⟨row, hrow, hid⟩
  | moved now hnow f events hjobs hknown hclaims hmoved =>
    have hsame : (s.queue.jobs.map f).map (·.jobId) = s.ids := by
      rw [List.map_map]
      exact List.map_congr_left fun row hrow => (hmoved row hrow).jobId_eq
    simpa only [System.ids, hsame] using hids

theorem ids_nodup_of_reach {now : Nat} (hreach : Reach System.next System.Fresh (.start now) s) :
    s.ids.Nodup :=
  hreach.invariant (P := fun s => s.ids.Nodup) List.nodup_nil
    fun _ _ _ hfresh hids => (System.next_changed hids hfresh).ids_nodup hids

end Wruntime.Jobs
