import Wruntime.Migration.Admission
import Wruntime.Migration.Runner

/-!
The books of a migration run. The truth about an attempt is in the executor's session, and the
ledger is written afterwards on another connection; `Sound` follows an attempt through the stages of
the runner, from its start to the record of its outcome.
-/

namespace Wruntime.Migration

open Session Runs

variable {world : World} {process : Process} {id : Key × Nat} {row : Attempt} {after : Ledger}
  {approval : RetryApproval}

def Ledger.Open (ledger : Ledger) (id : Key × Nat) : Prop :=
  ∃ row, ledger.Latest row ∧ row.id = id ∧ row.state = .started

def Ledger.Succeeded (ledger : Ledger) (key : Key) : Prop :=
  ∃ row, ledger.Latest row ∧ row.key = key ∧ row.state = .succeeded

/-- Nothing of the session can become durable any more. -/
def Executor.Dead (executor : Executor) : Prop :=
  ∀ work, executor.session.status ≠ .active work

/-- What an outcome says about the attempt's transaction. -/
def AttemptOutcome.Holds (committed : List (Key × Nat)) (id : Key × Nat) :
    AttemptOutcome → Prop
  | .succeeded => id ∈ committed
  | .failed _ => id ∉ committed
  | .ambiguous => True

def World.StageHolds (world : World) (id : Key × Nat) : Stage → Prop
  | .creating | .connecting => world.executor = none ∧ id ∉ world.committed
  | .running _ | .rollingBack _ =>
    ∃ executor, world.executor = some executor ∧ executor.id = id ∧
      executor.committing = false ∧ executor.session.transactions = [] ∧
      id ∉ world.committed
  | .committing =>
    ∃ executor, world.executor = some executor ∧ executor.id = id ∧
      (executor.session.transactions = [] ↔ id ∉ world.committed)
  | .cancelling => id ∉ world.committed
  | .cleaning outcome =>
    outcome.Holds world.committed id ∧
      ∀ executor code, world.executor = some executor → outcome = .failed code →
        executor.Dead
  | .recording outcome => world.executor = none ∧ outcome.Holds world.committed id

def World.PointHolds (world : World) (process : Process) : Prop :=
  match process.point with
  | .orphans => True
  | .admitting => world.executor = none
  | .attempting file attempt stage =>
    process.files[process.position]? = some file ∧
      world.ledger.Open (file.key, attempt) ∧ world.StageHolds (file.key, attempt) stage

/-- The ledger agrees with what was committed, and an approved failed attempt is of a file that
never committed. -/
structure World.Books (world : World) : Prop where
  keyed : world.ledger.Keyed
  executor : ∀ executor, world.executor = some executor → world.ledger.Open executor.id
  succeeded : ∀ row ∈ world.ledger.attempts, row.state = .succeeded → row.id ∈ world.committed
  failed : ∀ row ∈ world.ledger.attempts, row.state = .failed → row.id ∉ world.committed
  recorded : ∀ id ∈ world.committed, ∃ row ∈ world.ledger.attempts, row.id = id
  approved : ∀ approval ∈ world.ledger.approvals, approval.state = .failed →
    ∃ row ∈ world.ledger.attempts,
      row.id = (approval.key, approval.attempt) ∧ row.state = .failed
  checked : ∀ approval ∈ world.checked, approval.state = .failed →
    ∃ row ∈ world.ledger.attempts,
      row.id = (approval.key, approval.attempt) ∧ row.state = .failed
  untouched : ∀ approval ∈ world.ledger.approvals, approval.state = .failed →
    ∀ row, world.ledger.Latest row → row.id = (approval.key, approval.attempt) →
      ∀ id ∈ world.committed, id.1 ≠ approval.key
  approvalIds : (world.ledger.approvals.map Approval.approvalId).Nodup
  nextApprovalId : ∀ approval ∈ world.ledger.approvals,
    approval.approvalId < world.ledger.nextApprovalId

/-- The files a run has behind it are recorded as succeeded. -/
def World.Behind (world : World) (process : Process) : Prop :=
  ∀ file ∈ process.files.take process.position, world.ledger.Succeeded file.key

structure World.Sound (world : World) : Prop where
  books : world.Books
  behind : ∀ process, world.process = some process → world.Behind process
  point : ∀ process, world.process = some process → world.PointHolds process

theorem Ledger.Open.eq {ledger : Ledger} (hkeyed : ledger.Keyed) (hopen : ledger.Open id)
    (hrow : row ∈ ledger.attempts) (hid : row.id = id) :
    ledger.Latest row ∧ row.state = .started := by
  obtain ⟨current, hlatest, hcurrent, hstate⟩ := hopen
  obtain rfl := hkeyed.eq hlatest.mem hrow (hcurrent.trans hid.symm)
  exact ⟨hlatest, hstate⟩

theorem World.Books.congr {after : World} (hbooks : world.Books)
    (hledger : after.ledger = world.ledger) (hchecked : after.checked = world.checked)
    (hcommitted : after.committed = world.committed)
    (hexecutor : ∀ executor, after.executor = some executor → world.ledger.Open executor.id) :
    after.Books := by
  constructor
  all_goals simp only [hledger, hchecked, hcommitted]
  · exact hbooks.keyed
  · exact hexecutor
  · exact hbooks.succeeded
  · exact hbooks.failed
  · exact hbooks.recorded
  · exact hbooks.approved
  · exact hbooks.checked
  · exact hbooks.untouched
  · exact hbooks.approvalIds
  · exact hbooks.nextApprovalId

theorem stageHolds_goTo {point : Point} {stage : Stage} :
    (world.goTo process point).StageHolds id stage ↔ world.StageHolds id stage := by
  cases stage <;> exact Iff.rfl

section Steps

variable (hsound : world.Sound)
include hsound

theorem World.Sound.stop : world.stop.Sound :=
  ⟨hsound.books.congr rfl rfl rfl hsound.books.executor, by simp [World.stop],
    by simp [World.stop]⟩

variable (hprocess : world.process = some process) {file : MigrationFile} {attempt : Nat}
  {before reached : Stage}
include hprocess

theorem World.Sound.goTo {executor : Option Executor} {point : Point}
    (hexecutor : ∀ e, executor = some e → world.ledger.Open e.id)
    (hpoint : (World.goTo { world with executor } process point).PointHolds
      { process with point }) :
    (World.goTo { world with executor } process point).Sound := by
  refine ⟨hsound.books.congr rfl rfl rfl hexecutor, ?_, ?_⟩
  · intro p hp
    obtain rfl : p = { process with point } := by simpa [World.goTo] using hp.symm
    exact hsound.behind process hprocess
  · intro p hp
    obtain rfl : p = { process with point } := by simpa [World.goTo] using hp.symm
    exact hpoint

section

variable (hpoint : process.point = .attempting file attempt reached)
include hpoint

theorem World.Sound.attempting : process.files[process.position]? = some file ∧
      world.ledger.Open (file.key, attempt) ∧ world.StageHolds (file.key, attempt) reached := by
  have hholds := hsound.point process hprocess
  simpa only [World.PointHolds, hpoint] using hholds

theorem World.Sound.stage : world.StageHolds (file.key, attempt) reached :=
  (hsound.attempting hprocess hpoint).2.2

end

section

variable (hbefore : process.point = .attempting file attempt before)
include hbefore

theorem World.Sound.toStage {executor : Option Executor} (hexecutor : ∀ e, executor = some e →
      e.id = (file.key, attempt) ∨ world.executor = some e)
    (hstage : World.StageHolds { world with executor } (file.key, attempt) reached) :
    (World.goTo { world with executor } process (.attempting file attempt reached)).Sound := by
  obtain ⟨hfile, hopen, -⟩ := hsound.attempting hprocess hbefore
  refine hsound.goTo hprocess ?_ ⟨hfile, hopen, stageHolds_goTo.mpr hstage⟩
  intro e he
  rcases hexecutor e he with hown | hsame
  · rw [hown]
    exact hopen
  · exact hsound.books.executor e hsame

theorem World.Sound.atStage (hstage : world.StageHolds (file.key, attempt) reached) :
    (world.goTo process (.attempting file attempt reached)).Sound :=
  hsound.toStage hprocess hbefore (fun _ h => .inr h) hstage

theorem World.Sound.withExecutor {executor : Executor} (hid : executor.id = (file.key, attempt))
    (hstage : World.StageHolds { world with executor := some executor } (file.key, attempt) reached) :
    (World.goTo { world with executor := some executor } process
      (.attempting file attempt reached)).Sound :=
  hsound.toStage hprocess hbefore (fun _ he => .inl (Option.some.inj he ▸ hid)) hstage

end

theorem World.Sound.command {executor : Executor} {command : Command} {remaining : List Command}
    (hpoint : process.point = .attempting file attempt (.running (command :: remaining)))
    (hexecutor : world.executor = some executor) (verdict : Verdict) :
    (world.command process file attempt executor command remaining verdict).Sound := by
  obtain ⟨current, hcurrent, hid, hidle, hnone, hfresh⟩ := hsound.stage hprocess hpoint
  obtain rfl : current = executor := Option.mem_unique hcurrent hexecutor
  have hsession : (current.runCommand command verdict).1.transactions = [] := by
    unfold Executor.runCommand
    cases command <;> simp [hnone]
  unfold World.command
  rcases hanswer : current.runCommand command verdict with ⟨session, answer⟩
  rw [hanswer] at hsession
  refine hsound.withExecutor hprocess hpoint hid ?_
  cases answer with
  | ok _ => exact ⟨_, rfl, hid, hidle, hsession, hfresh⟩
  | error code =>
    cases command with
    | start => exact ⟨trivial, by simp⟩
    | _ => exact ⟨_, rfl, hid, hidle, hsession, hfresh⟩

end Steps

theorem Ledger.Succeeded.started {before : Ledger} {key : Key} (hsucceeded : before.Succeeded key)
    (hstarted : Started before after row) (hkey : row.key ≠ key) : after.Succeeded key := by
  obtain ⟨current, hlatest, hcurrent, hstate⟩ := hsucceeded
  refine ⟨current, ?_, hcurrent, hstate⟩
  rw [latest_congr hstarted.attempts]
  apply hlatest.insert
  rw [hcurrent]
  exact hkey

theorem World.Books.started (hbooks : world.Books) (hexecutor : world.executor = none)
    (hstarted : Started world.ledger after row) : World.Books { world with ledger := after } := by
  have hold : ∀ other ∈ after.attempts, other.state ≠ .started →
      other ∈ world.ledger.attempts := by
    intro other hother hstate
    rcases hstarted.mem.mp hother with hmem | rfl
    · exact hmem
    · exact absurd hstarted.state hstate
  refine ⟨hstarted.keyed hbooks.keyed, by simp [hexecutor], ?_, ?_, ?_, ?_, ?_, ?_, ?_, ?_⟩
  · exact fun other hother hstate =>
      hbooks.succeeded other (hold other hother (by simp [hstate])) hstate
  · exact fun other hother hstate =>
      hbooks.failed other (hold other hother (by simp [hstate])) hstate
  · intro id hid
    obtain ⟨other, hother, hsame⟩ := hbooks.recorded id hid
    exact ⟨other, hstarted.mem.mpr (.inl hother), hsame⟩
  · intro approval happroval hstate
    obtain ⟨old, hmem, hkey, hattempt, hsame, -⟩ := hstarted.approval happroval
    obtain ⟨other, hother, hid, hfailed⟩ := hbooks.approved old hmem (hsame.trans hstate)
    exact ⟨other, hstarted.mem.mpr (.inl hother), by rw [hid, hkey, hattempt], hfailed⟩
  · intro approval happroval hstate
    obtain ⟨other, hother, hid, hfailed⟩ := hbooks.checked approval happroval hstate
    exact ⟨other, hstarted.mem.mpr (.inl hother), hid, hfailed⟩
  · intro approval happroval hstate current hlatest hid
    obtain ⟨old, hmem, hkey, hattempt, hsame, -⟩ := hstarted.approval happroval
    rw [← hkey, ← hattempt] at hid
    rw [← hkey]
    rw [latest_congr hstarted.attempts] at hlatest
    rcases hlatest.of_insert with rfl | ⟨hbefore, -⟩
    · obtain ⟨other, hother, hother_id, -⟩ := hbooks.approved old hmem (hsame.trans hstate)
      exact absurd (hother_id.trans hid.symm) (hstarted.not_mem hother)
    · exact hbooks.untouched old hmem (hsame.trans hstate) current hbefore hid
  · rw [hstarted.approvalIds]
    exact hbooks.approvalIds
  · intro approval happroval
    obtain ⟨old, hmem, -, -, -, hid⟩ := hstarted.approval happroval
    show approval.approvalId < after.nextApprovalId
    rw [← hid, hstarted.nextApprovalId]
    exact hbooks.nextApprovalId old hmem

theorem Admission.not_succeeded {ledger : Ledger} {bundle : Bundle} {file : MigrationFile}
    {attempt : Nat} {key : Key} (hadmission : Admission ledger bundle file after (some attempt))
    (hkeyed : ledger.Keyed) (hsucceeded : ledger.Succeeded key) : file.key ≠ key := by
  rintro rfl
  obtain ⟨current, hlatest, hkey, hstate⟩ := hsucceeded
  cases hadmission with
  | first hnone => exact hnone current hlatest.mem hkey
  | retried hrow hrowKey hblocked _ _ _ _ _ _ _ =>
    obtain rfl := hrow.unique hkeyed hlatest (hrowKey.trans hkey.symm)
    exact hblocked hstate

theorem World.Sound.admitProcess (hsound : world.Sound) (hprocess : world.process = some process)
    (hpoint : process.point = .admitting) : (world.admitProcess process).Sound := by
  have hbehind := hsound.behind process hprocess
  have hexecutor : world.executor = none := by
    have hholds := hsound.point process hprocess
    simpa [World.PointHolds, hpoint] using hholds
  unfold World.admitProcess
  split
  · exact hsound.stop
  next file hfile =>
    split
    · exact hsound.stop
    next hadmit =>
      have hadmission := admission_of_admitAttempt hadmit
      cases hadmission with
      | skipped hlatest hkey hstate =>
        refine ⟨hsound.books.congr rfl rfl rfl hsound.books.executor, ?_, ?_⟩
        · rintro p hp done hdone
          cases hp
          rw [List.take_add_one, hfile] at hdone
          rcases Table.mem_snoc.mp hdone with hold | rfl
          · exact hbehind done hold
          · exact ⟨_, hlatest, hkey, hstate⟩
        · rintro p hp
          cases hp
          simpa [World.PointHolds, hpoint] using hexecutor
    next after attempt hadmit =>
      have hadmission := admission_of_admitAttempt hadmit
      have hstarted := hadmission.started
      refine ⟨?_, ?_, ?_⟩
      · refine World.Books.congr (hsound.books.started hexecutor hstarted) rfl rfl rfl ?_
        simp [World.goTo, hexecutor]
      · rintro p hp done hdone
        cases hp
        have hsucceeded := hbehind done hdone
        exact hsucceeded.started hstarted
          (hadmission.not_succeeded hsound.books.keyed hsucceeded)
      · rintro p hp
        cases hp
        refine ⟨hfile, ⟨startedRow process.bundle file attempt, ?_, rfl, rfl⟩, hexecutor, ?_⟩
        · exact (latest_congr hstarted.attempts).mpr hstarted.fresh.latest
        · intro hcommitted
          obtain ⟨row, hrow, hid⟩ := hsound.books.recorded _ hcommitted
          exact hstarted.not_mem hrow hid

section Recording

variable {key : Key} {attempt : Nat} {state : AttemptState} {code : Option String}

theorem Ledger.Succeeded.terminalize {ledger : Ledger} {other : Key}
    (hsucceeded : ledger.Succeeded other) :
    (Migration.terminalize ledger key attempt state code).Succeeded other := by
  obtain ⟨current, hlatest, hkey, hstate⟩ := hsucceeded
  have hsame : current.ended key attempt state code = current := by
    simp [Attempt.ended, hstate]
  refine ⟨current, ?_, hkey, hstate⟩
  have hended : (Migration.terminalize ledger key attempt state code).Latest
      (current.ended key attempt state code) := hlatest.terminalize
  rwa [hsame] at hended

theorem World.Books.terminalize (hbooks : world.Books) (hexecutor : world.executor = none)
    (hsucceeded : state = .succeeded → (key, attempt) ∈ world.committed)
    (hfailed : state = .failed → (key, attempt) ∉ world.committed) : World.Books
      { world with ledger := Migration.terminalize world.ledger key attempt state code } := by
  have hrow : ∀ old ∈ world.ledger.attempts,
      (old.ended key attempt state code).state = old.state ∨
        old.id = (key, attempt) ∧ (old.ended key attempt state code).state = state := by
    intro old _
    unfold Attempt.ended
    split
    next h => exact .inr ⟨Prod.ext h.1 h.2.1, rfl⟩
    · exact .inl rfl
  have hkept : ∀ old ∈ world.ledger.attempts, old.state = .failed →
      old.ended key attempt state code = old := by
    intro old _ hstate
    simp [Attempt.ended, hstate]
  refine ⟨hbooks.keyed.terminalize, by simp [hexecutor], ?_, ?_, ?_, ?_, ?_, ?_,
    hbooks.approvalIds, hbooks.nextApprovalId⟩
  · intro row hmem hstate
    obtain ⟨old, hold, rfl⟩ := mem_terminalize.mp hmem
    rw [Attempt.ended_id]
    rcases hrow old hold with hsame | ⟨hid, hnew⟩
    · exact hbooks.succeeded old hold (hsame.symm.trans hstate)
    · rw [hid]
      exact hsucceeded (hnew.symm.trans hstate)
  · intro row hmem hstate
    obtain ⟨old, hold, rfl⟩ := mem_terminalize.mp hmem
    rw [Attempt.ended_id]
    rcases hrow old hold with hsame | ⟨hid, hnew⟩
    · exact hbooks.failed old hold (hsame.symm.trans hstate)
    · rw [hid]
      exact hfailed (hnew.symm.trans hstate)
  · intro id hid
    obtain ⟨old, hold, hsame⟩ := hbooks.recorded id hid
    exact ⟨_, mem_terminalize.mpr ⟨old, hold, rfl⟩, by simpa using hsame⟩
  · intro approval happroval hstate
    obtain ⟨old, hold, hid, hold_failed⟩ := hbooks.approved approval happroval hstate
    exact ⟨old, mem_terminalize.mpr ⟨old, hold, hkept old hold hold_failed⟩, hid, hold_failed⟩
  · intro approval happroval hstate
    obtain ⟨old, hold, hid, hold_failed⟩ := hbooks.checked approval happroval hstate
    exact ⟨old, mem_terminalize.mpr ⟨old, hold, hkept old hold hold_failed⟩, hid, hold_failed⟩
  · intro approval happroval hstate row hlatest hid
    obtain ⟨old, hold, rfl⟩ := hlatest.of_terminalize
    rw [Attempt.ended_id] at hid
    exact hbooks.untouched approval happroval hstate old hold hid

theorem World.Sound.recordSucceeded (hsound : world.Sound)
    (hprocess : world.process = some process) {file : MigrationFile}
    (hpoint : process.point = .attempting file attempt (.recording .succeeded)) : World.Sound
      { world with
        ledger := Migration.terminalize world.ledger file.key attempt .succeeded none
        process := some { process with position := process.position + 1, point := .admitting } } := by
  obtain ⟨hfile, hopen, hexecutor, hcommitted⟩ := hsound.attempting hprocess hpoint
  refine ⟨?_, ?_, ?_⟩
  · refine World.Books.congr (hsound.books.terminalize hexecutor (fun _ => hcommitted)
      (by simp)) rfl rfl rfl ?_
    simp [hexecutor]
  · rintro p hp done hdone
    cases hp
    rw [List.take_add_one, hfile] at hdone
    rcases Table.mem_snoc.mp hdone with hold | rfl
    · exact (hsound.behind process hprocess done hold).terminalize
    · obtain ⟨row, hlatest, hid, hstate⟩ := hopen
      refine ⟨_, hlatest.terminalize, ?_, ?_⟩
      · exact (Attempt.ended_key row).trans (congrArg Prod.fst hid)
      · have hkey : row.key = done.key := congrArg Prod.fst hid
        have hattempt : row.attempt = attempt := congrArg Prod.snd hid
        simp [Attempt.ended, hkey, hattempt, hstate]
  · rintro p hp
    cases hp
    exact hexecutor

theorem World.Sound.recordFailed (hsound : world.Sound)
    (hprocess : world.process = some process) {file : MigrationFile} {failure : String}
    (hpoint : process.point = .attempting file attempt (.recording (.failed failure))) :
    World.Sound (World.stop
      { world with
        ledger := Migration.terminalize world.ledger file.key attempt .failed (some failure) }) := by
  obtain ⟨hexecutor, hcommitted⟩ := hsound.stage hprocess hpoint
  refine ⟨?_, by simp [World.stop], by simp [World.stop]⟩
  refine World.Books.congr (hsound.books.terminalize hexecutor (by simp)
    (fun _ => hcommitted)) rfl rfl rfl ?_
  simp [World.stop, hexecutor]

end Recording

end Wruntime.Migration
