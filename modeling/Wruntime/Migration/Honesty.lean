import Wruntime.Migration.Soundness

/-!
Honesty of the migration ledger, over every orderly run: an attempt is recorded as succeeded exactly
if its transaction has committed, and a file is started again only as its approval allows.
-/

namespace Wruntime.Migration

open Session Runs

variable {world : World} {process : Process} {id : Key × Nat} {row : Attempt} {after : Ledger}
  {approval : RetryApproval}

/-- The ledger is kept, or an attempt ends, an approval is recorded or a file is admitted. -/
inductive LedgerStep (world : World) : Ledger → Prop
  | kept : LedgerStep world world.ledger
  | ended (key : Key) (attempt : Nat) (state : AttemptState) (code : Option String) :
      LedgerStep world (terminalize world.ledger key attempt state code)
  | approved (approval : RetryApproval) : LedgerStep world (recordRetry world.ledger approval)
  | admitted {process : Process} {file : MigrationFile} {after : Ledger} {attempt : Nat} :
      world.process = some process → process.files[process.position]? = some file →
      Admission world.ledger process.bundle file after (some attempt) →
      LedgerStep world after

theorem ledgerStep_succeed (hprocess : world.process = some process) :
    LedgerStep world (world.succeed process).ledger := by
  unfold World.succeed
  split
  · exact .kept
  · unfold World.admitProcess
    split
    · exact .kept
    next file hfile =>
      split
      · exact .kept
      · exact .kept
      next hadmit => exact .admitted hprocess hfile (admission_of_admitAttempt hadmit)
  · split
    · exact .kept
    · exact .kept
    · exact .kept
    · exact .kept
    · exact .kept
    · split
      · exact .kept
      · exact .kept
    · exact .kept
    · exact .ended _ _ _ _
    · exact .ended _ _ _ _
    · exact .kept
    · exact .kept

theorem ledger_fail (sqlstate : Option String) (lost : Bool) :
    (world.fail process sqlstate lost).ledger = world.ledger := by
  unfold World.fail
  split
  · dsimp only
    split
    all_goals try rfl
    split <;> rfl
  · rfl

theorem ledgerStep_next (event : Event) : LedgerStep world (world.next event).ledger := by
  have hsame : ∀ {after : World}, after.ledger = world.ledger → LedgerStep world after.ledger :=
    fun h => h ▸ .kept
  cases event with
  | succeed =>
    simp only [World.next]
    split
    · exact .kept
    next hprocess => exact ledgerStep_succeed hprocess
  | recordRetry approval =>
    simp only [World.next]
    split
    · exact .approved approval
    · exact .kept
  | start bundle files | checkRetry approval =>
    simp only [World.next]
    split <;> exact .kept
  | crash | serverReject | serverEnd => exact .kept
  | serverCommit =>
    simp only [World.next, World.serverCommit]
    split
    · exact .kept
    · split <;> exact .kept
  | reject sqlstate =>
    simp only [World.next]
    split
    · exact .kept
    · exact hsame (ledger_fail sqlstate false)
  | lose =>
    simp only [World.next]
    split
    · exact .kept
    · exact hsame (ledger_fail none true)
  | refuse | present =>
    simp only [World.next]
    split
    · exact .kept
    · split <;> exact .kept
  | deadline =>
    simp only [World.next, World.deadline]
    split
    · exact .kept
    · split <;> exact .kept
  | absent terminated =>
    simp only [World.next, World.absent]
    split
    · exact .kept
    · split <;> exact .kept

theorem consumed_stays (hstep : LedgerStep world after) {approval : Approval}
    (hmem : approval ∈ world.ledger.approvals) (hconsumed : approval.consumed = true) :
    approval ∈ after.approvals := by
  cases hstep with
  | kept | ended key attempt state code => exact hmem
  | approved other => exact List.mem_append_left _ hmem
  | admitted _ _ hadmission =>
    cases hadmission with
    | first _ => exact hmem
    | retried _ _ _ _ _ _ _ _ _ _ =>
      apply Table.mem_updateWhere.mpr
      exact ⟨approval, hmem, by simp [hconsumed]⟩

/-- A new attempt: the run is at its file with all earlier files succeeded, and the file is new or
an unconsumed approval of its latest attempt is consumed. -/
def World.Starts (world after : World) (row : Attempt) : Prop :=
  (∃ process file, world.process = some process ∧
      process.files[process.position]? = some file ∧ row.key = file.key ∧
      ∀ earlier ∈ process.files.take process.position, world.ledger.Succeeded earlier.key) ∧
    (row.attempt = 1 ∧ (∀ old ∈ world.ledger.attempts, old.key ≠ row.key) ∨
      ∃ previous approval, world.ledger.Latest previous ∧ previous.key = row.key ∧
        row.attempt = previous.attempt + 1 ∧
        approval ∈ world.ledger.approvals ∧ approval.consumed = false ∧
        { approval with consumed := true } ∈ after.ledger.approvals ∧
        approval.key = row.key ∧ approval.attempt = previous.attempt ∧
        approval.state = previous.state ∧ approval.contentHash = previous.contentHash ∧
        ((∃ id ∈ world.committed, id.1 = row.key) → previous.state = .started))

structure World.Honest (ok : World → Event → Prop) (world : World) : Prop where
  succeeded : ∀ row ∈ world.ledger.attempts, row.state = .succeeded → row.id ∈ world.committed
  failed : ∀ row ∈ world.ledger.attempts, row.state = .failed → row.id ∉ world.committed
  executes : ∀ process file attempt stage, world.process = some process →
    process.point = .attempting file attempt stage → world.ledger.Open (file.key, attempt)
  starts : ∀ event, ok world event → ∀ row ∈ (world.next event).ledger.attempts,
    (∀ old ∈ world.ledger.attempts, old.id ≠ row.id) → world.Starts (world.next event) row
  distinct : (world.ledger.approvals.map Approval.approvalId).Nodup
  spent : ∀ event, ok world event → ∀ approval ∈ world.ledger.approvals,
    approval.consumed = true → approval ∈ (world.next event).ledger.approvals

theorem World.Sound.starts (hsound : world.Sound) {event : Event}
    (hrow : row ∈ (world.next event).ledger.attempts)
    (hnew : ∀ old ∈ world.ledger.attempts, old.id ≠ row.id) :
    world.Starts (world.next event) row := by
  have hstep := @ledgerStep_next world event
  unfold World.Starts
  generalize (world.next event).ledger = after at hrow hstep
  cases hstep with
  | kept | approved approval => exact absurd rfl (hnew row hrow)
  | ended key attempt state code =>
    obtain ⟨old, hold, rfl⟩ := mem_terminalize.mp hrow
    exact absurd (by simp) (hnew old hold)
  | @admitted process file _ attempt hprocess hfile hadmission =>
    obtain rfl : row = startedRow process.bundle file attempt := by
      rcases hadmission.started.mem.mp hrow with hold | hsame
      · exact absurd rfl (hnew row hold)
      · exact hsame
    refine ⟨⟨process, file, hprocess, hfile, rfl, hsound.behind process hprocess⟩, ?_⟩
    cases hadmission with
    | first hnone => exact .inl ⟨rfl, hnone⟩
    | @retried previous approval hlatest hkey hblocked hhash hmem happroval hattempt hstate
        hsame hunconsumed =>
        refine .inr ⟨previous, approval, hlatest, hkey, rfl, hmem, hunconsumed, ?_,
          happroval, hattempt, hstate, hsame, ?_⟩
        · apply Table.mem_updateWhere.mpr
          exact ⟨approval, hmem, by simp [hunconsumed]⟩
        · rintro ⟨id, hid, hidKey⟩
          -- a failed attempt that is approved belongs to a file that never committed
          cases hprevious : previous.state with
          | started => rfl
          | succeeded => exact absurd hprevious hblocked
          | failed =>
            have hnever := hsound.books.untouched approval hmem (hstate.trans hprevious)
              previous hlatest (Prod.ext (hkey.trans happroval.symm) hattempt.symm) id hid
            exact absurd (hidKey.trans happroval.symm) hnever

theorem World.Sound.honest (hsound : world.Sound) : world.Honest Orderly where
  succeeded := hsound.books.succeeded
  failed := hsound.books.failed
  executes := fun _ _ _ _ hprocess hpoint => (hsound.attempting hprocess hpoint).2.1
  starts := fun _ _ _ hrow hnew => hsound.starts hrow hnew
  distinct := hsound.books.approvalIds
  spent := fun event _ _ hmem hconsumed => consumed_stays (ledgerStep_next event) hmem hconsumed

/-- In every orderly sequence of runs and approvals, with crashes, deadlines and lost answers
anywhere, the ledger is always honest. -/
theorem migration_ledger_honest (hrun : Reach World.next Orderly .empty world) :
    world.Honest Orderly :=
  (reachable_sound hrun).honest

namespace Sample

def file : MigrationFile := ⟨⟨"ledger", 1⟩, "V1__create.sql", "sha256:aa", 20⟩

def bundle : Bundle := ⟨"sha256:bb", "sha256:cc"⟩

/-- A run that has taken its one file up to the `COMMIT`. -/
def toCommit : List Event :=
  [.start bundle [file], .succeed, .succeed, .succeed, .succeed, .succeed, .succeed, .succeed,
    .succeed, .succeed, .succeed, .succeed]

def approve (attempt : Nat) (state : AttemptState) : List Event :=
  let approval := ⟨file.key, attempt, state, file.contentHash, "operator", "retry"⟩
  [.checkRetry approval, .recordRetry approval]

/-- The `COMMIT` takes effect, the deadline fires before its answer, the backend is gone. -/
def lateDeadline : List Event :=
  toCommit ++ [.serverCommit, .deadline, .absent false, .succeed, .succeed]

/-- The answer of the `COMMIT` is lost, a retry is approved and fails, and so is that. -/
def failedRetry : List Event :=
  toCommit ++ [.serverCommit, .lose, .succeed, .succeed] ++ approve 1 .started ++
    toCommit.take 8 ++ [.reject (some "42P07"), .succeed, .succeed, .succeed] ++
    approve 2 .failed ++ [.start bundle [file], .succeed]

def stateOf (world : World) (attempt : Nat) : Option AttemptState :=
  (world.ledger.attempts.find? (·.attempt = attempt)).map (·.state)

end Sample

open Sample in
theorem answered_commit_recorded :
    (stateOf (runAll World.next .empty (toCommit ++ [.serverCommit, .succeed, .succeed, .succeed])) 1)
        = some .succeeded ∧ World.Honest Orderly
        (runAll World.next .empty (toCommit ++ [.serverCommit, .succeed, .succeed, .succeed])) := by
  refine ⟨by decide, migration_ledger_honest (reach_runAll _ ?_)⟩
  refine ⟨trivial, trivial, trivial, trivial, trivial, trivial, trivial, trivial, trivial,
    trivial, trivial, trivial, ?_, trivial, trivial, trivial, trivial⟩
  show World.cancelling _ = false
  decide

open Sample in
/-- A deadline after the `COMMIT` took effect records a committed attempt as failed. Without any
deadline, a file that committed unseen is executed a third time. -/
theorem committed_attempt_recorded_failed :
    (stateOf (runAll World.next .empty lateDeadline) 1 = some .failed ∧
        (file.key, 1) ∈ (runAll World.next .empty lateDeadline).committed) ∧
      stateOf (runAll World.next .empty failedRetry) 2 = some .failed ∧
        (file.key, 1) ∈ (runAll World.next .empty failedRetry).committed ∧
        stateOf (runAll World.next .empty failedRetry) 3 = none ∧
        stateOf (World.next (runAll World.next .empty failedRetry) .succeed) 3 = some .started := by
  decide

end Wruntime.Migration
