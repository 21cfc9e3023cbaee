import Wruntime.Lib.Runs
import Wruntime.Lib.Session
import Wruntime.Migration.Ledger

/-!
The offline migration runner over one namespace. A run holds the advisory lock and takes the files
of its bundle in order, each on a disposable connection; the ledger is written on another one. The
process may stop at any point and leave its executor behind.
-/

namespace Wruntime.Migration

open Session

inductive Command where
  | start
  | setRole
  | setSearchPath
  | tenantSql
  | resetContext
  | publicationGuard

def commands : List Command :=
  [.start, .setRole, .setSearchPath, .tenantSql, .resetContext, .publicationGuard]

/-- The disposable executor on the server, and whether `COMMIT` is on its way to it. -/
structure Executor where
  key : Key
  attempt : Nat
  session : Backend Command
  committing : Bool

def Executor.id (executor : Executor) : Key × Nat := (executor.key, executor.attempt)

inductive AttemptOutcome where
  | succeeded
  | failed (code : String)
  | ambiguous

/-- How far the run has come with a file that it was admitted to. -/
inductive Stage where
  | creating
  | connecting
  | running (remaining : List Command)
  | rollingBack (code : String)
  | committing
  | cancelling
  | cleaning (outcome : AttemptOutcome)
  | recording (outcome : AttemptOutcome)

inductive Point where
  | orphans
  | admitting
  | attempting (file : MigrationFile) (attempt : Nat) (stage : Stage)

/-- One run of `migrate_namespace`: its files, and how many are behind it. -/
structure Process where
  bundle : Bundle
  files : List MigrationFile
  position : Nat
  point : Point

structure World where
  ledger : Ledger
  /-- Approvals whose checks have passed and that are not recorded yet. -/
  checked : List RetryApproval
  executor : Option Executor
  /-- The attempts whose transaction has committed. -/
  committed : List (Key × Nat)
  process : Option Process

def World.empty : World := ⟨.empty, [], none, [], none⟩

/-- The failure code that is stored: the server's code, or that there was none. -/
def redactedPostgresError (sqlstate : Option String) : String :=
  String.ofList (((sqlstate.map ("sqlstate:" ++ ·)).getD "migration_executor_error").toList.take 64)

inductive Event where
  /-- A run gets the namespace lock. -/
  | start (bundle : Bundle) (files : List MigrationFile)
  /-- The process ends where it is: it crashes, or a call on the ledger's connection fails. -/
  | crash
  /-- What the run waits for succeeds. -/
  | succeed
  /-- The server rejects what the run waits for. -/
  | reject (sqlstate : Option String)
  /-- The answer never comes. -/
  | lose
  /-- The publication guard finds something unsafe. -/
  | refuse
  /-- The deadline of the file fires. -/
  | deadline
  /-- The backend that was cancelled, or terminated, is seen to be gone. -/
  | absent (terminated : Bool)
  /-- The backend survived. -/
  | present
  /-- The server gets to the `COMMIT`, or fails it, or ends the executor's session. -/
  | serverCommit
  | serverReject
  | serverEnd
  | checkRetry (approval : RetryApproval)
  | recordRetry (approval : RetryApproval)

def World.goTo (world : World) (process : Process) (point : Point) : World :=
  { world with process := some { process with point } }

def World.stop (world : World) : World := { world with process := none }

def World.onExecutor (world : World) (f : Executor → Executor) : World :=
  { world with executor := world.executor.map f }

def Executor.close (executor : Executor) : Executor :=
  { executor with session := executor.session.close }

/-- A `COMMIT` that the server fails. -/
def Executor.reject (executor : Executor) : Executor :=
  if executor.committing then
    { executor with
      session := (executor.session.commit (.error "rejected")).1
      committing := false }
  else executor

/-- The ledger's transaction that admits the next file, or the end of the run. -/
def World.admitProcess (world : World) (process : Process) : World :=
  match process.files[process.position]? with
  | none => world.stop
  | some file =>
    match admitAttempt world.ledger process.bundle file with
    | .error _ => world.stop
    | .ok (_, none) =>
      { world with process := some { process with position := process.position + 1 } }
    | .ok (ledger, some attempt) =>
      { world with ledger }.goTo process (.attempting file attempt .creating)

def Executor.runCommand (executor : Executor) (command : Command) (verdict : Verdict) :
    Backend Command × Verdict :=
  match command with
  | .start => executor.session.begin verdict
  | command => executor.session.statement command verdict

def World.command (world : World) (process : Process) (file : MigrationFile) (attempt : Nat)
    (executor : Executor) (command : Command) (remaining : List Command) (verdict : Verdict) :
    World :=
  let (session, answer) := executor.runCommand command verdict
  let stage : Stage :=
    match answer, command with
    | .ok (), _ => .running remaining
    | .error _, .start => .cleaning .ambiguous
    | .error code, _ => .rollingBack code
  { world with executor := some { executor with session } }.goTo process
    (.attempting file attempt stage)

def World.succeed (world : World) (process : Process) : World :=
  match process.point with
  | .orphans => { world with executor := none }.goTo process .admitting
  | .admitting => world.admitProcess process
  | .attempting file attempt stage =>
    let go := fun (world : World) stage => world.goTo process (.attempting file attempt stage)
    match stage, world.executor with
    | .creating, _ => go world .connecting
    | .connecting, _ =>
      go { world with executor := some ⟨file.key, attempt, .fresh, false⟩ }
        (.running commands)
    | .running (command :: remaining), some executor =>
      world.command process file attempt executor command remaining (.ok ())
    | .running [], some executor =>
      go { world with executor := some { executor with committing := true } } .committing
    | .rollingBack code, some executor =>
      let (session, answer) := executor.session.rollback
      go { world with executor := some { executor with session } }
        (.cleaning (match answer with | .ok () => .failed code | .error _ => .ambiguous))
    | .committing, some executor =>
      -- the answer of `COMMIT` can only come once the server has got to it
      if executor.session.transactions = [] then world else go world (.cleaning .succeeded)
    | .cleaning outcome, _ => go { world with executor := none } (.recording outcome)
    | .recording .succeeded, _ =>
      { world with
        ledger := terminalize world.ledger file.key attempt .succeeded none
        process := some
          { process with position := process.position + 1, point := .admitting } }
    | .recording (.failed code), _ =>
      { world with
        ledger := terminalize world.ledger file.key attempt .failed (some code) }.stop
    | .recording .ambiguous, _ => world.stop
    | _, _ => world

/-- An error on the executor's connection. One on the ledger's ends the run. -/
def World.fail (world : World) (process : Process) (sqlstate : Option String) (lost : Bool) :
    World :=
  match process.point with
  | .attempting file attempt stage =>
    let go := fun (world : World) stage => world.goTo process (.attempting file attempt stage)
    match stage, world.executor with
    | .connecting, _ | .rollingBack _, _ | .committing, _ | .cancelling, _ =>
      go world (.cleaning .ambiguous)
    | .running (.start :: _), _ => go world (.cleaning .ambiguous)
    | .running (command :: remaining), some executor =>
      if lost then go world (.rollingBack (redactedPostgresError none))
      else
        world.command process file attempt executor command remaining
          (.error (redactedPostgresError sqlstate))
    | .running [], _ => world
    | _, _ => world.stop
  | _ => world.stop

def World.deadline (world : World) (process : Process) : World :=
  match process.point with
  | .attempting file attempt (.running _)
  | .attempting file attempt (.rollingBack _)
  | .attempting file attempt .committing =>
    world.goTo process (.attempting file attempt .cancelling)
  | _ => world

def World.absent (world : World) (process : Process) (terminated : Bool) : World :=
  match process.point with
  | .attempting file attempt .cancelling =>
    let code := if terminated then "deadline_terminated" else "deadline_cancelled"
    (world.onExecutor Executor.close).goTo process
      (.attempting file attempt (.cleaning (.failed code)))
  | _ => world

/-- The server gets to a `COMMIT` that was sent. -/
def World.serverCommit (world : World) : World :=
  match world.executor with
  | none => world
  | some executor =>
    match executor.committing, executor.session.status with
    | true, .active _ =>
      { world with
        executor := some
          { executor with
            session := (executor.session.commit (.ok ())).1
            committing := false }
        committed := world.committed ++ [executor.id] }
    | _, _ => world

def World.next (world : World) : Event → World
  | .start bundle files =>
    match world.process with
    | some _ => world
    | none => { world with process := some ⟨bundle, files, 0, .orphans⟩ }
  | .crash => world.stop
  | .serverCommit => world.serverCommit
  | .serverReject => world.onExecutor Executor.reject
  | .serverEnd => world.onExecutor Executor.close
  | .checkRetry approval =>
    match checkRetry world.ledger approval with
    | .ok () => { world with checked := world.checked ++ [approval] }
    | .error _ => world
  | .recordRetry approval =>
    if approval ∈ world.checked then
      { world with ledger := recordRetry world.ledger approval }
    else world
  | event =>
    match world.process with
    | none => world
    | some process =>
      match event with
      | .succeed => world.succeed process
      | .reject sqlstate => world.fail process sqlstate false
      | .lose => world.fail process none true
      | .refuse =>
        match process.point with
        | .attempting file attempt (.running (.publicationGuard :: _)) =>
          world.goTo process
            (.attempting file attempt (.rollingBack (redactedPostgresError none)))
        | _ => world
      | .deadline => world.deadline process
      | .absent terminated => world.absent process terminated
      | .present =>
        match process.point with
        | .attempting file attempt .cancelling =>
          world.goTo process (.attempting file attempt (.cleaning .ambiguous))
        | _ => world
      | _ => world

end Wruntime.Migration
