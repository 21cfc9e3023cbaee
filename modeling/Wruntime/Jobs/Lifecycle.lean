import Wruntime.Jobs.System

/-!
The life of a job. The log gives a job its history: the claims since it was inserted or last
retried, each with how it ended. A row is always the image of that history in status, active claim
and result; a claim ends at most once and is then never active again.
-/

namespace Wruntime.Jobs

open Wire Runs

variable {events log : List Event}

/-- A claim of a job and how it has ended, if it has. -/
structure Attempt where
  claim : ClaimId
  outcome : Option Outcome

def Attempt.spent (attempt : Attempt) : Bool :=
  match attempt.outcome with
  | some (.failed _) | some .recovered => true
  | _ => false

def Attempt.finish (claimId : ClaimId) (outcome : Outcome) (attempt : Attempt) : Attempt :=
  if attempt.claim = claimId then { attempt with outcome := some outcome } else attempt

def record (jobId : UuidText) (attempts : List Attempt) (event : Event) : List Attempt :=
  if event.job = jobId then
    match event with
    | .inserted _ | .retried _ => []
    | .claimed _ claimId => attempts ++ [⟨claimId, none⟩]
    | .ended _ claimId outcome => attempts.map (.finish claimId outcome)
  else attempts

/-- The claims of a job since its insertion or last retry. -/
def history (log : List Event) (jobId : UuidText) : List Attempt :=
  log.foldl (record jobId) []

def reported (attempts : List Attempt) : Option Bytes :=
  match attempts.getLast? with
  | some ⟨_, some (.completed result)⟩ => some result
  | _ => none

variable {s t : System} {row row' : Row} {event : Event} {attempts : List Attempt}
  {jobId : UuidText} {claimId : ClaimId}

theorem record_of_ne (h : event.job ≠ jobId) : record jobId attempts event = attempts :=
  if_neg h

theorem foldl_record (hjobs : (events.map Event.job).Nodup) : events.foldl (record jobId) attempts =
      (eventOf events jobId).elim attempts (record jobId attempts) := by
  induction events generalizing attempts with
  | nil => rfl
  | cons event events ih =>
    rw [List.map_cons, List.nodup_cons] at hjobs
    rw [List.foldl_cons, ih hjobs.2]
    by_cases hjob : event.job = jobId
    · have hnone : eventOf events jobId = none := by
        rw [eventOf, List.find?_eq_none]
        intro e he heq
        exact hjobs.1 (hjob.trans (of_decide_eq_true heq).symm ▸ List.mem_map_of_mem he)
      rw [hnone]
      simp [eventOf, hjob]
    · rw [record_of_ne hjob]
      simp [eventOf, hjob]

theorem history_append (log events : List Event) (hjobs : (events.map Event.job).Nodup) :
    history (log ++ events) jobId =
      (eventOf events jobId).elim (history log jobId) (record jobId (history log jobId)) := by
  rw [history, List.foldl_append, foldl_record hjobs]
  rfl

theorem claim_of_mem_foldl {attempt : Attempt} (h : attempt ∈ log.foldl (record jobId) attempts) :
    (∃ event ∈ log, event.claim = some attempt.claim) ∨
      ∃ earlier ∈ attempts, earlier.claim = attempt.claim := by
  induction log generalizing attempts with
  | nil => exact .inr ⟨attempt, h, rfl⟩
  | cons event log ih =>
    rcases ih h with ⟨e, he, hclaim⟩ | ⟨earlier, hmem, hclaim⟩
    · exact .inl ⟨e, List.mem_cons_of_mem _ he, hclaim⟩
    · unfold record at hmem
      split at hmem
      · cases event with
        | inserted job | retried job => cases hmem
        | claimed job claimId =>
          rcases Table.mem_snoc.1 hmem with hmem | rfl
          · exact .inr ⟨earlier, hmem, hclaim⟩
          · exact .inl ⟨_, List.mem_cons_self, congrArg some hclaim⟩
        | ended job claimId outcome =>
          obtain ⟨old, hold, rfl⟩ := List.mem_map.1 hmem
          refine .inr ⟨old, hold, Eq.trans ?_ hclaim⟩
          unfold Attempt.finish
          split <;> rfl
      · exact .inr ⟨earlier, hmem, hclaim⟩

theorem claim_of_mem_history {attempt : Attempt} (h : attempt ∈ history log jobId) :
    ∃ event ∈ log, event.claim = some attempt.claim := by
  rcases claim_of_mem_foldl h with h | ⟨_, hmem, -⟩
  · exact h
  · cases hmem

inductive Stage (row : Row) (attempts : List Attempt) : Prop
  | pending (hstatus : row.status = .pending) (hclaim : row.claimId = none)
      (hresult : row.result = none) (hspent : ∀ attempt ∈ attempts, attempt.spent = true)
      (hleft : (attempts.length : Int) < row.maxAttempts)
  | running (earlier : List Attempt) (claimId : ClaimId)
      (hattempts : attempts = earlier ++ [⟨claimId, none⟩]) (hstatus : row.status = .running)
      (hclaim : row.claimId = some claimId) (hresult : row.result = none)
      (hspent : ∀ attempt ∈ earlier, attempt.spent = true)
  | complete (earlier : List Attempt) (claimId : ClaimId) (result : Bytes)
      (hattempts : attempts = earlier ++ [⟨claimId, some (.completed result)⟩])
      (hstatus : row.status = .complete) (hclaim : row.claimId = none)
      (hresult : row.result = some result) (hspent : ∀ attempt ∈ earlier, attempt.spent = true)
  | dead (hstatus : row.status = .dead) (hclaim : row.claimId = none)
      (hresult : row.result = none) (hspent : ∀ attempt ∈ attempts, attempt.spent = true)
      (hlength : (attempts.length : Int) = row.maxAttempts)

structure Tracks (attempts : List Attempt) (row : Row) : Prop where
  positive : 0 < row.maxAttempts
  attempt : row.attempt = attempts.length
  bounded : (attempts.length : Int) ≤ row.maxAttempts
  distinct : (attempts.map Attempt.claim).Nodup
  stage : Stage row attempts

theorem Tracks.pending (h : Tracks attempts row) (hstatus : row.status = .pending) :
    (∀ attempt ∈ attempts, attempt.spent = true) ∧ row.result = none ∧
      (attempts.length : Int) < row.maxAttempts := by
  cases h.stage with
  | pending _ _ hresult hspent hleft => exact ⟨hspent, hresult, hleft⟩
  | running _ _ _ hother | complete _ _ _ _ hother | dead hother =>
    rw [hstatus] at hother; cases hother

theorem Tracks.running (h : Tracks attempts row) (hclaim : row.claimId = some claimId) :
    ∃ earlier, attempts = earlier ++ [⟨claimId, none⟩] ∧ row.status = .running ∧
      row.result = none ∧ ∀ attempt ∈ earlier, attempt.spent = true := by
  cases h.stage with
  | pending _ hother | complete _ _ _ _ _ hother | dead _ hother =>
    rw [hclaim] at hother; cases hother
  | running earlier claimId' hattempts hstatus hclaim' hresult hspent =>
    obtain rfl : claimId = claimId' := Option.mem_unique hclaim hclaim'
    exact ⟨earlier, hattempts, hstatus, hresult, hspent⟩

theorem finish_last {earlier : List Attempt} {outcome : Outcome}
    (hdistinct : ((earlier ++ [Attempt.mk claimId none]).map Attempt.claim).Nodup) :
    (earlier ++ [Attempt.mk claimId none]).map (.finish claimId outcome) =
      earlier ++ [⟨claimId, some outcome⟩] := by
  rw [List.map_append, List.nodup_append] at hdistinct
  have hsame : earlier.map (.finish claimId outcome) = earlier := by
    conv_rhs => rw [← List.map_id earlier]
    apply List.map_congr_left
    intro attempt hattempt
    have hne : attempt.claim ≠ claimId :=
      hdistinct.2.2 _ (List.mem_map_of_mem hattempt) _ (by simp)
    simp [Attempt.finish, hne]
  rw [List.map_append, hsame]
  simp [Attempt.finish]

theorem Tracks.afterFailure {earlier : List Attempt} {outcome : Outcome}
    (h : Tracks (earlier ++ [⟨claimId, none⟩]) row)
    (hearlier : ∀ attempt ∈ earlier, attempt.spent = true)
    (hspent : (Attempt.mk claimId (some outcome)).spent = true) (hresult : row.result = none)
    (hstatus : row'.status = row.afterFailure) (hclaim : row'.claimId = none)
    (hresult' : row'.result = row.result) (hmax : row'.maxAttempts = row.maxAttempts)
    (hattempt : row'.attempt = row.attempt) :
    Tracks (earlier ++ [⟨claimId, some outcome⟩]) row' := by
  have hall : ∀ attempt ∈ earlier ++ [⟨claimId, some outcome⟩], attempt.spent = true := by
    intro attempt hmem
    rcases Table.mem_snoc.1 hmem with hmem | rfl
    · exact hearlier attempt hmem
    · exact hspent
  have hlength := h.attempt
  have hbounded := h.bounded
  simp only [List.length_append, List.length_singleton] at hlength hbounded
  refine ⟨hmax ▸ h.positive, ?_, ?_, ?_, ?_⟩
  · simpa [hattempt] using hlength
  · simpa [hmax] using hbounded
  · simpa using h.distinct
  · unfold Row.afterFailure at hstatus
    split at hstatus
    next hless =>
      refine .pending hstatus hclaim (hresult'.trans hresult) hall ?_
      simp only [List.length_append, List.length_singleton]
      omega
    next hless =>
      refine .dead hstatus hclaim (hresult'.trans hresult) hall ?_
      simp only [List.length_append, List.length_singleton]
      omega

theorem Moved.tracks {moved : Option Event} (h : Moved s row row' moved)
    (htracks : Tracks (history s.log row.jobId) row) :
    Tracks (moved.elim (history s.log row.jobId) (record row.jobId (history s.log row.jobId)))
      row' := by
  generalize hattempts : history s.log row.jobId = attempts at htracks
  cases h with
  | kept => exact htracks
  | claimed engineId claimId hpending hfresh =>
    obtain ⟨hspent, hresult, hleft⟩ := htracks.pending hpending
    simp only [Option.elim, record, Event.job, if_true]
    refine ⟨htracks.positive, ?_, ?_, ?_, ?_⟩
    · simp [Row.claimed, htracks.attempt]
    · simp only [List.length_append, List.length_singleton, Row.claimed]
      omega
    · refine Table.nodup_snoc htracks.distinct fun attempt hmem heq => ?_
      obtain ⟨event, hevent, hlogged⟩ := claim_of_mem_history (hattempts ▸ hmem)
      exact hfresh event hevent (hlogged.trans (congrArg some heq))
    · exact .running attempts claimId rfl rfl rfl hresult hspent
  | completed claimId result hrunning hclaim hsize =>
    obtain ⟨earlier, rfl, -, hresult, hspent⟩ := htracks.running hclaim
    simp only [Option.elim, record, Event.job, if_true]
    rw [finish_last htracks.distinct]
    have hattempt := htracks.attempt
    have hbounded := htracks.bounded
    refine ⟨htracks.positive, ?_, ?_, ?_, .complete earlier claimId result rfl rfl rfl rfl hspent⟩
    · simpa [Row.completed, Row.released] using hattempt
    · simpa [Row.completed, Row.released] using hbounded
    · simpa using htracks.distinct
  | failed claimId errorMsg hrunning hclaim hnonempty hsize | recovered claimId hrunning hclaim =>
    obtain ⟨earlier, rfl, -, hresult, hspent⟩ := htracks.running hclaim
    simp only [Option.elim, record, Event.job, if_true]
    rw [finish_last htracks.distinct]
    exact htracks.afterFailure hspent rfl hresult rfl rfl rfl rfl rfl
  | retried hdead =>
    simp only [Option.elim, record, Event.job, if_true]
    have hpositive := htracks.positive
    exact ⟨hpositive, rfl, hpositive.le, by simp, .pending rfl rfl rfl (by simp) hpositive⟩

def Event.endedClaim : Event → Option ClaimId
  | .ended _ claimId _ => some claimId
  | _ => none

structure Sound (s : System) : Prop where
  ids : s.ids.Nodup
  known : ∀ event ∈ s.log, event.job ∈ s.ids
  tracks : ∀ row ∈ s.queue.jobs, Tracks (history s.log row.jobId) row
  distinct : ∀ row ∈ s.queue.jobs, ∀ row' ∈ s.queue.jobs, ∀ claimId,
    row.claimId = some claimId → row'.claimId = some claimId → row = row'
  released : ∀ event ∈ s.log, ∀ claimId, event.endedClaim = some claimId →
    ∀ row ∈ s.queue.jobs, row.claimId ≠ some claimId
  once : (s.log.filterMap Event.endedClaim).Nodup

theorem Sound.start (now : Nat) : Sound (.start now) where
  ids := List.nodup_nil
  known := by simp [System.start]
  tracks := by simp [System.start]
  distinct := by simp [System.start]
  released := by simp [System.start]
  once := List.nodup_nil

theorem Sound.claim_logged (h : Sound s) (hrow : row ∈ s.queue.jobs)
    (hclaim : row.claimId = some claimId) : ∃ event ∈ s.log, event.claim = some claimId := by
  obtain ⟨earlier, hhistory, -⟩ := (h.tracks row hrow).running hclaim
  have hmem : Attempt.mk claimId none ∈ history s.log row.jobId := by simp [hhistory]
  exact claim_of_mem_history hmem

theorem Moved.claim_cases {moved : Option Event} (h : Moved s row row' moved)
    (hclaim : row'.claimId = some claimId) : (row' = row ∧ moved = none) ∨
      (moved = some (.claimed row.jobId claimId) ∧ ∀ event ∈ s.log, event.claim ≠ some claimId) := by
  cases h with
  | kept => exact .inl ⟨rfl, rfl⟩
  | claimed engineId claimId' hpending hfresh =>
    obtain rfl : claimId' = claimId := Option.some.inj hclaim
    exact .inr ⟨rfl, hfresh⟩
  | completed | failed | recovered | retried => cases hclaim

theorem Moved.claim_of_ended (h : Moved s row row' (some event))
    (hended : event.endedClaim = some claimId) : row.claimId = some claimId := by
  cases h with
  | claimed | retried => cases hended
  | completed claimId' result hrunning hclaim | failed claimId' errorMsg hrunning hclaim
  | recovered claimId' hrunning hclaim => exact hclaim.trans hended

theorem eventOf_of_mem (hjobs : (events.map Event.job).Nodup) (hevent : event ∈ events) :
    eventOf events event.job = some event :=
  Table.find?_key_of_mem hjobs hevent

section MovedRows

variable {f : Row → Row}
  (hmoved : ∀ row ∈ s.queue.jobs, Moved s row (f row) (eventOf events row.jobId))
include hmoved

theorem Sound.row_of_event (hjobs : (events.map Event.job).Nodup)
    (hknown : ∀ event ∈ events, event.job ∈ s.ids) (hevent : event ∈ events) :
    ∃ row ∈ s.queue.jobs, row.jobId = event.job ∧ Moved s row (f row) (some event) := by
  obtain ⟨row, hrow, hjob⟩ := List.mem_map.1 (hknown event hevent)
  have h := hmoved row hrow
  rw [hjob, eventOf_of_mem hjobs hevent] at h
  exact ⟨row, hrow, hjob, h⟩

theorem Sound.distinct_moved (h : Sound s)
    (hclaims : ∀ job job' claimId, .claimed job claimId ∈ events →
      .claimed job' claimId ∈ events → job = job')
    (hrow : row ∈ s.queue.jobs) (hrow' : row' ∈ s.queue.jobs)
    (hclaim : (f row).claimId = some claimId) (hclaim' : (f row').claimId = some claimId) :
    row = row' := by
  rcases (hmoved row hrow).claim_cases hclaim with ⟨hkept, -⟩ | ⟨hevent, hfresh⟩
  · rw [hkept] at hclaim
    rcases (hmoved row' hrow').claim_cases hclaim' with ⟨hkept', -⟩ | ⟨-, hfresh'⟩
    · rw [hkept'] at hclaim'
      exact h.distinct row hrow row' hrow' claimId hclaim hclaim'
    · obtain ⟨event, hlog, hlogged⟩ := h.claim_logged hrow hclaim
      exact absurd hlogged (hfresh' event hlog)
  · rcases (hmoved row' hrow').claim_cases hclaim' with ⟨hkept', -⟩ | ⟨hevent', -⟩
    · rw [hkept'] at hclaim'
      obtain ⟨event, hlog, hlogged⟩ := h.claim_logged hrow' hclaim'
      exact absurd hlogged (hfresh event hlog)
    · have hjob := hclaims _ _ claimId (List.mem_of_find?_eq_some hevent)
        (List.mem_of_find?_eq_some hevent')
      exact Table.eq_of_nodup_key h.ids hrow hrow' hjob

theorem Sound.released_moved (h : Sound s) (hjobs : (events.map Event.job).Nodup)
    (hknown : ∀ event ∈ events, event.job ∈ s.ids)
    (hevent : event ∈ s.log ++ events) (hended : event.endedClaim = some claimId)
    (hrow : row ∈ s.queue.jobs) : (f row).claimId ≠ some claimId := by
  intro hclaim
  have hclaimed : event.claim = some claimId := by
    cases event <;> first | exact hended | cases hended
  rcases List.mem_append.1 hevent with hevent | hevent
  · rcases (hmoved row hrow).claim_cases hclaim with ⟨hkept, -⟩ | ⟨-, hfresh⟩
    · exact h.released event hevent claimId hended row hrow (hkept ▸ hclaim)
    · exact hfresh event hevent hclaimed
  · -- The claim ends in this step: it was active in the event's row, and in no other.
    obtain ⟨old, hold, hjob, hstep⟩ := row_of_event hmoved hjobs hknown hevent
    have hactive := hstep.claim_of_ended hended
    rcases (hmoved row hrow).claim_cases hclaim with ⟨hkept, hnone⟩ | ⟨-, hfresh⟩
    · obtain rfl := h.distinct row hrow old hold claimId (hkept ▸ hclaim) hactive
      rw [hjob, eventOf_of_mem hjobs hevent] at hnone
      cases hnone
    · obtain ⟨logged, hlog, hlogged⟩ := h.claim_logged hold hactive
      exact hfresh logged hlog hlogged

theorem Sound.once_moved (h : Sound s) (hjobs : (events.map Event.job).Nodup)
    (hknown : ∀ event ∈ events, event.job ∈ s.ids) :
    ((s.log ++ events).filterMap Event.endedClaim).Nodup := by
  have hactive : ∀ event ∈ events, ∀ claimId, event.endedClaim = some claimId →
      ∃ row ∈ s.queue.jobs, row.jobId = event.job ∧ row.claimId = some claimId := by
    intro event hevent claimId hended
    obtain ⟨row, hrow, hjob, hstep⟩ := row_of_event hmoved hjobs hknown hevent
    exact ⟨row, hrow, hjob, hstep.claim_of_ended hended⟩
  rw [List.filterMap_append, List.nodup_append]
  refine ⟨h.once, ?_, ?_⟩
  · rw [List.Nodup, List.pairwise_filterMap]
    have hpairwise : events.Pairwise fun e e' => e.job ≠ e'.job := List.pairwise_map.1 hjobs
    refine hpairwise.imp_of_mem ?_
    rintro e e' he he' hne claimId hended _ hended' rfl
    obtain ⟨row, hrow, hjob, hclaim⟩ := hactive e he claimId hended
    obtain ⟨row', hrow', hjob', hclaim'⟩ := hactive e' he' claimId hended'
    exact hne (hjob.symm.trans ((congrArg Row.jobId
      (h.distinct row hrow row' hrow' claimId hclaim hclaim')).trans hjob'))
  · intro claimId hold _ hnew rfl
    obtain ⟨event, hevent, hended⟩ := List.mem_filterMap.1 hold
    obtain ⟨event', hevent', hended'⟩ := List.mem_filterMap.1 hnew
    obtain ⟨row, hrow, -, hclaim⟩ := hactive event' hevent' claimId hended'
    exact h.released event hevent claimId hended row hrow hclaim

end MovedRows

theorem Sound.changed (h : Sound s) (hchanged : Changed s t) : Sound t := by
  have hids := hchanged.ids_nodup h.ids
  cases hchanged with
  | inserted jobId submission timeoutSecs maxAttempts hnew htimeout hattempts =>
    have hother : ∀ row ∈ s.queue.jobs, jobId ≠ row.jobId :=
      fun row hrow heq => hnew (heq ▸ List.mem_map_of_mem hrow)
    have hhistory (job : UuidText) : history (s.log ++ [.inserted jobId]) job =
        record job (history s.log job) (.inserted jobId) := by
      simp [history]
    refine ⟨hids, ?_, ?_, ?_, ?_, ?_⟩
    · intro event hevent
      simp only [System.ids, List.map_append, List.mem_append]
      rcases Table.mem_snoc.1 hevent with hevent | rfl
      · exact .inl (h.known event hevent)
      · exact .inr (by simp [Event.job, Submission.row])
    · intro row hrow
      rw [hhistory]
      rcases Table.mem_snoc.1 hrow with hrow | rfl
      · have hne : (Event.inserted jobId).job ≠ row.jobId := hother row hrow
        rw [record_of_ne hne]
        exact h.tracks row hrow
      · have hempty : record jobId (history s.log jobId) (.inserted jobId) = [] := if_pos rfl
        simp only [Submission.row, hempty]
        exact ⟨hattempts, rfl, hattempts.le, List.nodup_nil,
          .pending rfl rfl rfl (by simp) hattempts⟩
    · intro row hrow row' hrow' claimId hclaim hclaim'
      rcases Table.mem_snoc.1 hrow with hrow | rfl
      · rcases Table.mem_snoc.1 hrow' with hrow' | rfl
        · exact h.distinct row hrow row' hrow' claimId hclaim hclaim'
        · cases hclaim'
      · cases hclaim
    · intro event hevent claimId hended row hrow hclaim
      rcases Table.mem_snoc.1 hrow with hrow | rfl
      · rcases Table.mem_snoc.1 hevent with hevent | rfl
        · exact h.released event hevent claimId hended row hrow hclaim
        · cases hended
      · cases hclaim
    · have hnone : [Event.inserted jobId].filterMap Event.endedClaim = [] := rfl
      rw [List.filterMap_append, hnone, List.append_nil]
      exact h.once
  | moved now hnow f events hjobs hknown hclaims hmoved =>
    have hsame : (s.queue.jobs.map f).map (·.jobId) = s.ids := by
      rw [List.map_map]
      exact List.map_congr_left fun row hrow => (hmoved row hrow).jobId_eq
    refine ⟨hids, ?_, ?_, ?_, ?_, h.once_moved hmoved hjobs hknown⟩
    · intro event hevent
      rw [System.ids, hsame]
      rcases List.mem_append.1 hevent with hevent | hevent
      · exact h.known event hevent
      · exact hknown event hevent
    · intro row hrow
      obtain ⟨old, hold, rfl⟩ := List.mem_map.1 hrow
      rw [(hmoved old hold).jobId_eq, history_append _ _ hjobs]
      exact (hmoved old hold).tracks (h.tracks old hold)
    · intro row hrow row' hrow' claimId hclaim hclaim'
      obtain ⟨old, hold, rfl⟩ := List.mem_map.1 hrow
      obtain ⟨old', hold', rfl⟩ := List.mem_map.1 hrow'
      rw [h.distinct_moved hmoved hclaims hold hold' hclaim hclaim']
    · intro event hevent claimId hended row hrow
      obtain ⟨old, hold, rfl⟩ := List.mem_map.1 hrow
      exact h.released_moved hmoved hjobs hknown hevent hended hold

theorem sound_of_reach (h : Sound s) (hreach : Reach System.next System.Fresh s t) : Sound t :=
  hreach.invariant h fun _ _ _ hfresh hsound => hsound.changed (System.next_changed hsound.ids hfresh)

/-- The log grows, a complete row stays as it is, and a dead one does unless it is retried. -/
def Kept (s t : System) : Prop :=
  ∃ later, t.log = s.log ++ later ∧ ∀ row ∈ s.queue.jobs,
    (row.status = .complete → row ∈ t.queue.jobs) ∧
    (row.status = .dead → row ∈ t.queue.jobs ∨ .retried row.jobId ∈ later)

theorem Kept.refl (s : System) : Kept s s :=
  ⟨[], by simp, fun _ hrow => ⟨fun _ => hrow, fun _ => .inl hrow⟩⟩

theorem Kept.trans {u : System} (h : Kept s t) (h' : Kept t u) : Kept s u := by
  obtain ⟨first, hfirst, hrows⟩ := h
  obtain ⟨second, hsecond, hrows'⟩ := h'
  refine ⟨first ++ second, by rw [hsecond, hfirst, List.append_assoc], fun row hrow => ?_⟩
  refine ⟨fun hcomplete => ?_, fun hdead => ?_⟩
  · exact (hrows' row ((hrows row hrow).1 hcomplete)).1 hcomplete
  · rcases (hrows row hrow).2 hdead with hkept | hretried
    · exact ((hrows' row hkept).2 hdead).imp_right (List.mem_append_right _)
    · exact .inr (List.mem_append_left _ hretried)

theorem Changed.kept (h : Changed s t) : Kept s t := by
  cases h with
  | inserted =>
    exact ⟨_, rfl, fun row hrow =>
      ⟨fun _ => List.mem_append_left _ hrow, fun _ => .inl (List.mem_append_left _ hrow)⟩⟩
  | moved now hnow f events hjobs hknown hclaims hmoved =>
    refine ⟨events, rfl, fun row hrow => ?_⟩
    have hmem : f row ∈ s.queue.jobs.map f := List.mem_map_of_mem hrow
    have hstep := hmoved row hrow
    generalize hevent : eventOf events row.jobId = moved at hstep
    generalize f row = row' at hmem hstep
    cases hstep with
    | kept => exact ⟨fun _ => hmem, fun _ => .inl hmem⟩
    | claimed _ _ hpending => simp [hpending]
    | completed _ _ hrunning | failed _ _ hrunning | recovered _ hrunning => simp [hrunning]
    | retried hdead => simp [hdead, List.mem_of_find?_eq_some hevent]

theorem kept_of_reach (h : Sound s) (hreach : Reach System.next System.Fresh s t) : Kept s t :=
  hreach.related Kept.refl Kept.trans fun _ _ hprev hfresh =>
    (System.next_changed (sound_of_reach h hprev).ids hfresh).kept

theorem report_of_inactive
    (hinactive : ∀ row ∈ s.queue.jobs, row.jobId = jobId → row.claimId ≠ some claimId)
    (result : Bytes) (errorMsg : String) :
    s.next (.complete jobId claimId result) = s ∧ s.next (.fail jobId claimId errorMsg) = s := by
  have hnone : s.queue.jobs.any (·.activeFor jobId claimId) = false := by
    rw [List.any_eq_false]
    intro row hrow hactive
    obtain ⟨hjob, -, hclaim⟩ := Row.activeFor_eq_true.1 hactive
    exact hinactive row hrow hjob hclaim
  constructor
  · simp only [System.next, completeJob]
    by_cases hsize : result.length ≤ maxJobBlobBytes
    · rw [Fallible.ensure_bind_of_true hsize, System.finalized_of_inactive hnone]
    · rw [Fallible.ensure_bind_of_false hsize]
      rfl
  · simp only [System.next, failJob]
    by_cases hnonempty : errorMsg ≠ ""
    · rw [Fallible.ensure_bind_of_true hnonempty]
      by_cases hsize : errorMsg.utf8ByteSize ≤ maxJobErrorBytes
      · rw [Fallible.ensure_bind_of_true hsize, System.finalized_of_inactive hnone]
      · rw [Fallible.ensure_bind_of_false hsize]
        rfl
    · rw [Fallible.ensure_bind_of_false hnonempty]
      rfl

section

variable (h : Tracks attempts row)
include h

theorem Tracks.running_iff : row.status = .running ↔ row.claimId.isSome = true := by
  cases h.stage <;> simp [*]

theorem Tracks.active_iff (claimId : ClaimId) :
    ⟨claimId, none⟩ ∈ attempts ↔ row.claimId = some claimId := by
  have hspent : ∀ earlier : List Attempt, (∀ attempt ∈ earlier, attempt.spent = true) →
      ⟨claimId, none⟩ ∉ earlier := fun earlier hearlier hmem => by
    have := hearlier _ hmem
    cases this
  cases h.stage with
  | pending _ hclaim _ hall | dead _ hclaim _ hall => simp [hclaim, hspent _ hall]
  | running earlier claimId' hattempts _ hclaim _ hall =>
    simp [hattempts, hclaim, hspent _ hall, eq_comm]
  | complete earlier claimId' result hattempts _ hclaim _ hall =>
    simp [hattempts, hclaim, hspent _ hall]

theorem Tracks.dead_iff : row.status = .dead ↔
      (attempts.length : Int) = row.maxAttempts ∧ ∀ attempt ∈ attempts, attempt.spent = true := by
  cases h.stage with
  | pending hstatus _ _ _ hleft =>
    rw [hstatus]
    exact ⟨nofun, fun hall => absurd hall.1 (ne_of_lt hleft)⟩
  | running earlier claimId hattempts hstatus =>
    rw [hstatus]
    refine ⟨nofun, fun hall => ?_⟩
    have := hall.2 ⟨claimId, none⟩ (by simp [hattempts])
    cases this
  | complete earlier claimId result hattempts hstatus =>
    rw [hstatus]
    refine ⟨nofun, fun hall => ?_⟩
    have := hall.2 ⟨claimId, some (.completed result)⟩ (by simp [hattempts])
    cases this
  | dead hstatus _ _ hspent hlength => exact ⟨fun _ => ⟨hlength, hspent⟩, fun _ => hstatus⟩

end

theorem reported_of_spent (h : ∀ attempt ∈ attempts, attempt.spent = true) :
    reported attempts = none := by
  unfold reported
  split
  next claimId result hlast =>
    have := h _ (List.mem_of_getLast? hlast)
    cases this
  next => rfl

theorem Tracks.result_eq (h : Tracks attempts row) : row.result = reported attempts := by
  cases h.stage with
  | pending _ _ hresult hspent | dead _ _ hresult hspent => rw [hresult, reported_of_spent hspent]
  | running earlier claimId hattempts _ _ hresult
  | complete earlier claimId result hattempts _ _ hresult => simp [hresult, hattempts, reported]

/-- In every state of every interleaving, each row is what its history says, a report
counts only for the active claim, each claim ends once, and jobs stay. -/
theorem job_lifecycle {now : Nat} (hreach : Reach System.next System.Fresh (.start now) s) :
    (∀ row ∈ s.queue.jobs, (row.status = .running ↔ row.claimId.isSome = true) ∧
      (∀ claimId, ⟨claimId, none⟩ ∈ history s.log row.jobId ↔ row.claimId = some claimId) ∧
      ((history s.log row.jobId).length : Int) ≤ row.maxAttempts ∧ (row.status = .dead ↔
        ((history s.log row.jobId).length : Int) = row.maxAttempts ∧
          ∀ attempt ∈ history s.log row.jobId, attempt.spent = true) ∧
      row.result = reported (history s.log row.jobId)) ∧ (∀ jobId claimId,
      (∀ row ∈ s.queue.jobs, row.jobId = jobId → row.claimId ≠ some claimId) →
      ∀ result errorMsg, s.next (.complete jobId claimId result) = s ∧
        s.next (.fail jobId claimId errorMsg) = s) ∧ (s.log.filterMap Event.endedClaim).Nodup ∧
    (∀ event ∈ s.log, event.job ∈ s.ids) ∧ ∀ t, Reach System.next System.Fresh s t →
      (∀ event ∈ s.log, ∀ claimId, event.endedClaim = some claimId →
        ∀ row ∈ t.queue.jobs, row.claimId ≠ some claimId) ∧ Kept s t := by
  have hsound : Sound s := sound_of_reach (Sound.start now) hreach
  refine ⟨fun row hrow => ?_, fun jobId claimId hinactive result errorMsg =>
    report_of_inactive hinactive result errorMsg, hsound.once, hsound.known, fun t ht => ?_⟩
  · have htracks := hsound.tracks row hrow
    exact ⟨htracks.running_iff, htracks.active_iff, htracks.bounded, htracks.dead_iff,
      htracks.result_eq⟩
  · have hkept := kept_of_reach hsound ht
    refine ⟨fun event hevent claimId hended row hrow => ?_, hkept⟩
    obtain ⟨later, hlog, -⟩ := hkept
    exact (sound_of_reach hsound ht).released event (hlog ▸ List.mem_append_left _ hevent) claimId
      hended row hrow

namespace Sample

def job : UuidText := ⟨"00000000-0000-4000-8000-000000000001", by decide⟩

def engine : UuidText := ⟨"00000000-0000-4000-8000-000000000002", by decide⟩

def submission : Submission := ⟨"shop", "mailer", "1.0.0", "/send", [1], 60, 2, "shop", "cart"⟩

def worker : Worker := ⟨"shop", "mailer", "1.0.0"⟩

/-- A job whose first claim fails and reports again after the second was taken. -/
def script : List Input :=
  [.insert job submission, .claim (fun _ => false) worker engine 1, .fail job 1 "broken",
    .claim (fun _ => false) worker engine 2, .complete job 1 [7], .complete job 2 [8]]

def finished : System := runAll System.next (.start 0) script

theorem finished_reach : Reach System.next System.Fresh (.start 0) finished :=
  reach_runAll script (by decide +kernel)

end Sample

/-- The second claim's result is the one that is stored. -/
theorem late_report_ignored : Reach System.next System.Fresh (.start 0) Sample.finished ∧
      ∃ row ∈ Sample.finished.queue.jobs, row.result = some [8] ∧
        row.result = reported (history Sample.finished.log row.jobId) := by
  have hrow : ∃ row ∈ Sample.finished.queue.jobs, row.result = some [8] := by decide +kernel
  obtain ⟨row, hmem, hresult⟩ := hrow
  exact ⟨Sample.finished_reach, row, hmem, hresult,
    ((job_lifecycle Sample.finished_reach).1 row hmem).2.2.2.2⟩

end Wruntime.Jobs
