import Wruntime.Lib.Runs
import Wruntime.Lib.Session

/-!
The transaction resource of a guest module. The host keeps its idea of the transaction in
`TxLifecycle`, shared with the row cursors opened on it, and the server keeps the real one. A world
is the two together; a guest's call is one step, with the answers of server and driver as input.
-/

namespace Wruntime.Engine

open Session

abbrev Sql := String

inductive DbError where
  | connection (message : String)
  | query (message : String)
  | unsupportedResultType (columnIndex : Nat) (postgresTypeName : String)
  deriving DecidableEq

inductive TxPhase where
  | active
  | poisoned
  | completed
  deriving DecidableEq

structure TxLifecycle where
  phase : TxPhase
  activeCursor : Bool
  discard : Bool
  deriving DecidableEq

namespace TxLifecycle

def new : TxLifecycle := ⟨.active, false, false⟩

def ensureOperation (state : TxLifecycle) : Except DbError Unit :=
  if state.phase = .completed then .error (.query "transaction already completed")
  else if state.activeCursor then .error (.query "transaction has an active row cursor")
  else if state.discard then .error (.connection "transaction connection is unusable")
  else .ok ()

def ensureTerminal (state : TxLifecycle) : Except DbError Unit := state.ensureOperation

def reserveCursor (state : TxLifecycle) : Except DbError TxLifecycle :=
  if state.phase = .completed then .error (.query "transaction already completed")
  else if state.discard then .error (.connection "transaction connection is unusable")
  else if state.activeCursor then .error (.query "transaction has an active row cursor")
  else .ok { state with activeCursor := true }

def releaseCursor (state : TxLifecycle) : TxLifecycle :=
  { state with activeCursor := false }

def markPostgresError (state : TxLifecycle) : TxLifecycle :=
  if state.phase = .completed then state else { state with phase := .poisoned }

def markDiscard (state : TxLifecycle) : TxLifecycle :=
  if state.phase = .completed then { state with discard := true }
  else { state with discard := true, phase := .poisoned }

/-- The stream was read to its end, where an error may have waited. -/
def drained (state : TxLifecycle) (failure : Option String) : TxLifecycle :=
  if failure.isSome then state.markPostgresError else state

def isPoisoned (state : TxLifecycle) : Bool := state.phase = .poisoned

def mustDiscard (state : TxLifecycle) : Bool := state.discard

def complete (state : TxLifecycle) : TxLifecycle :=
  { state with phase := .completed, activeCursor := false }

end TxLifecycle

/-- Where the resource still holds its leased connection, or has given it back. -/
inductive TxResourceState where
  | active
  | completed
  deriving DecidableEq

/-- What is left to read of a row stream: rows that decode or do not, then an error or the
end. -/
structure RowStream where
  rows : List (Option DbError)
  failure : Option String
  deriving DecidableEq

def RowStream.cut (stream : RowStream) (received : Nat) : RowStream :=
  if received ≤ stream.rows.length then ⟨stream.rows.take received, some closedMessage⟩
  else stream

inductive CursorResourceState where
  | active (stream : RowStream)
  | exhausted
  | deleted
  deriving DecidableEq

/-- The resource, its cursors and the server's side of its connection. It is absent once deleted
from the table, and its children are the cursors that prevent that. -/
structure World where
  backend : Backend Sql
  resource : Option TxResourceState
  lifecycle : TxLifecycle
  children : List Nat
  cursors : List CursorResourceState
  trapped : Bool
  deriving DecidableEq

def notPresent : DbError := .connection "resource not present"

def World.client (world : World) : Except DbError Unit :=
  match world.resource with
  | none => .error notPresent
  | some .completed => .error (.query "transaction already completed")
  | some .active => .ok ()

def World.setCursor (world : World) (rep : Nat) (state : CursorResourceState) : World :=
  { world with cursors := world.cursors.set rep state }

structure Statement where
  sql : Sql
  rejected : Option DbError

/-- The server runs and judges a statement, or the driver cannot encode it and nothing runs. -/
inductive Outcome where
  | server (verdict : Verdict)
  | driver (message : String)

inductive HostDbError where
  | parameter (error : DbError)
  | postgres (error : DbError)
  | result (error : DbError)

def HostDbError.intoPublic : HostDbError → DbError
  | .parameter error | .postgres error | .result error => error

def HostDbError.isPostgres : HostDbError → Bool
  | .postgres _ => true
  | _ => false

def send (backend : Backend Sql) (statement : Statement) (outcome : Outcome) :
    Backend Sql × Except HostDbError Unit :=
  match statement.rejected with
  | some error => (backend, .error (.parameter error))
  | none =>
    match outcome with
    | .driver message => (backend, .error (.postgres (.query message)))
    | .server verdict =>
      let (backend, answer) := backend.statement statement.sql verdict
      (backend, answer.mapError fun message => .postgres (.query message))

def executeStatement (backend : Backend Sql) (statement : Statement) (outcome : Outcome) :
    Backend Sql × Except HostDbError Unit :=
  send backend statement outcome

/-- All rows are read before the first one is converted. -/
def queryRows (backend : Backend Sql) (statement : Statement) (outcome : Outcome)
    (undecodable : Option DbError) : Backend Sql × Except HostDbError Unit :=
  match send backend statement outcome with
  | (backend, .error error) => (backend, .error error)
  | (backend, .ok ()) =>
    match undecodable with
    | some error => (backend, .error (.result error))
    | none => (backend, .ok ())

/-- The server runs a streamed statement to its end. Its error comes at once (`early`) or after the
rows. -/
def openRowStream (backend : Backend Sql) (statement : Statement) (outcome : Outcome)
    (early : Bool) (rows : List (Option DbError)) :
    Backend Sql × Except HostDbError RowStream :=
  match send backend statement outcome with
  | (backend, .ok ()) => (backend, .ok ⟨rows, none⟩)
  | (backend, .error error) =>
    match early, error with
    | false, .postgres (.query message) => (backend, .ok ⟨rows, some message⟩)
    | _, error => (backend, .error error)

def publicTransactionError (lifecycle : TxLifecycle) (error : HostDbError) : TxLifecycle :=
  if error.isPostgres then lifecycle.markPostgresError else lifecycle

inductive Reply where
  | done
  | cursor (rep : Nat)
  | error (error : DbError)
  | trap
  deriving DecidableEq

/-- The answer of a statement that keeps the connection: its error may poison. -/
def World.answer (world : World) : Backend Sql × Except HostDbError Unit → World × Reply
  | (backend, .ok ()) => ({ world with backend }, .done)
  | (backend, .error error) =>
    ({ world with
        backend
        lifecycle := publicTransactionError world.lifecycle error },
      .error error.intoPublic)

def World.query (world : World) (statement : Statement) (outcome : Outcome)
    (undecodable : Option DbError) : World × Reply :=
  match world.resource with
  | none => (world, .error notPresent)
  | some _ =>
    match world.lifecycle.ensureOperation with
    | .error error => (world, .error error)
    | .ok () =>
      match world.client with
      | .error error => (world, .error error)
      | .ok () => world.answer (queryRows world.backend statement outcome undecodable)

def World.execute (world : World) (statement : Statement) (outcome : Outcome) :
    World × Reply :=
  match world.resource with
  | none => (world, .error notPresent)
  | some _ =>
    match world.lifecycle.ensureOperation with
    | .error error => (world, .error error)
    | .ok () =>
      match world.client with
      | .error error => (world, .error error)
      | .ok () => world.answer (executeStatement world.backend statement outcome)

/-- `tracked` is what the accounting of cursors says, `room` what the resource table says. A cursor
without room is dropped with its stream. -/
def World.queryStream (world : World) (statement : Statement) (outcome : Outcome)
    (early : Bool) (rows : List (Option DbError)) (tracked room : Bool) : World × Reply :=
  match world.resource with
  | none => (world, .error notPresent)
  | some _ =>
    match world.lifecycle.reserveCursor with
    | .error error => (world, .error error)
    | .ok lifecycle =>
      if !tracked then
        ({ world with lifecycle := lifecycle.releaseCursor },
          .error (.connection "db cursor cap exceeded"))
      else
        match world.client with
        | .error error =>
          ({ world with lifecycle := lifecycle.releaseCursor }, .error error)
        | .ok () =>
          match openRowStream world.backend statement outcome early rows with
          | (backend, .error error) =>
            ({ world with
                backend
                lifecycle := publicTransactionError lifecycle.releaseCursor error },
              .error error.intoPublic)
          | (backend, .ok stream) =>
            if room then
              let rep := world.cursors.length
              ({ world with
                  backend
                  lifecycle
                  children := world.children ++ [rep]
                  cursors := world.cursors ++ [.active stream] },
                .cursor rep)
            else
              ({ world with backend, lifecycle := lifecycle.releaseCursor },
                .error (.connection "resource table has no free keys"))

/-- Read the rest of the stream, wait for the server, let the transaction go on. An error poisons;
without an answer the connection is unusable. -/
def World.finishCursor (world : World) (rep : Nat) (firstError : Option DbError)
    (exhausted : Bool) : World × Except DbError Unit :=
  match world.cursors[rep]? with
  | some (.active stream) =>
    let failure := if exhausted then none else stream.failure
    let firstError := firstError <|> failure.map DbError.query
    let world :=
      { world.setCursor rep .exhausted with lifecycle := world.lifecycle.drained failure }
    match world.client with
    | .error error => (world, .error error)
    | .ok () =>
      match world.backend.synchronize with
      | .ok () =>
        ({ world with
            children := world.children.erase rep
            lifecycle := world.lifecycle.releaseCursor },
          match firstError with
          | some error => .error error
          | none => .ok ())
      | .error message =>
        ({ world with
            children := world.children.erase rep
            lifecycle := world.lifecycle.markDiscard.releaseCursor },
          .error (firstError.getD (.connection
            ("failed to synchronize transaction cursor: " ++ message))))
  | _ => (world, .ok ())

inductive Batch where
  | full (stream : RowStream)
  | undecodable (error : DbError) (stream : RowStream)
  | failed (message : String) (stream : RowStream)
  | exhausted (stream : RowStream)

def pull : Nat → RowStream → Batch
  | 0, stream => .full stream
  | max + 1, ⟨none :: rows, failure⟩ => pull max ⟨rows, failure⟩
  | _ + 1, ⟨some error :: rows, failure⟩ => .undecodable error ⟨rows, failure⟩
  | _ + 1, ⟨[], some message⟩ => .failed message ⟨[], none⟩
  | _ + 1, ⟨[], none⟩ => .exhausted ⟨[], none⟩

def maxCursorBatchRows : Nat := 1024

def validateBatchSize (max : Nat) : Except DbError Unit :=
  if 1 ≤ max ∧ max ≤ maxCursorBatchRows then .ok ()
  else .error (.query ("batch size must be between 1 and " ++ toString maxCursorBatchRows
    ++ ", got " ++ toString max))

def Reply.ofExcept : Except DbError Unit → Reply
  | .ok () => .done
  | .error failure => .error failure

def World.nextBatch (world : World) (rep max : Nat) : World × Reply :=
  match validateBatchSize max with
  | .error error => (world, .error error)
  | .ok () =>
    match world.cursors[rep]? with
    | none | some .deleted => (world, .error notPresent)
    | some .exhausted => (world, .done)
    | some (.active stream) =>
      match pull max stream with
      | .full stream => (world.setCursor rep (.active stream), .done)
      | .undecodable error stream =>
        let (world, result) :=
          (world.setCursor rep (.active stream)).finishCursor rep (some error) false
        (world, .ofExcept (result.bind fun _ => .error error))
      | .failed message stream =>
        let error := DbError.query message
        let world :=
          { world.setCursor rep (.active stream) with
            lifecycle := world.lifecycle.markPostgresError }
        let (world, result) := world.finishCursor rep (some error) false
        (world, .ofExcept (result.bind fun _ => .error error))
      | .exhausted stream =>
        let (world, result) :=
          (world.setCursor rep (.active stream)).finishCursor rep none true
        (world, .ofExcept result)

/-- The store is torn down with the rest of the resource: a connection marked for discard is closed,
any other goes back to the pool. -/
def World.trap (world : World) : World :=
  { world with
    backend :=
      match world.resource with
      | some .active =>
        if world.lifecycle.mustDiscard then world.backend.close else world.backend.recycle
      | _ => world.backend
    resource := none
    children := []
    cursors := world.cursors.map fun _ => .deleted
    trapped := true }

def World.dropCursor (world : World) (rep : Nat) : World × Reply :=
  match world.cursors[rep]? with
  | none | some .deleted => (world.trap, .trap)
  | some .exhausted => (world.setCursor rep .deleted, .done)
  | some (.active _) =>
    match world.finishCursor rep none false with
    | (world, .error _) => (world.trap, .trap)
    | (world, .ok ()) => (world.setCursor rep .deleted, .done)

/-- A poisoned transaction is rolled back, whatever the guest asks for. -/
def World.terminalCommand (world : World) (commit : Bool) (verdict : Verdict) :
    Backend Sql × Verdict :=
  if commit && !world.lifecycle.isPoisoned then world.backend.commit verdict
  else world.backend.rollback

/-- What follows the answer to the terminal command. An error leaves the resource and its
lifecycle as they were. -/
def World.terminated (world : World) (commit : Bool) : Backend Sql × Verdict → World × Reply
  | (backend, .error message) =>
    ({ world with backend },
      .error (.query ("transaction terminal command failed: " ++ message)))
  | (backend, .ok ()) =>
    ({ world with
        backend := backend.recycle
        lifecycle := world.lifecycle.complete
        resource := some .completed },
      if commit && world.lifecycle.isPoisoned then
        .error (.query "transaction was aborted by PostgreSQL and rolled back")
      else .done)

/-- A guard marks the connection unusable when the call ends before the command is
answered. -/
def World.finishTransaction (world : World) (commit : Bool) (verdict : Verdict) :
    World × Reply :=
  match world.resource with
  | none => (world, .error notPresent)
  | some _ =>
    match world.lifecycle.ensureTerminal with
    | .error error => (world, .error error)
    | .ok () =>
      match world.client with
      | .error error =>
        ({ world with lifecycle := world.lifecycle.markDiscard }, .error error)
      | .ok () => world.terminated commit (world.terminalCommand commit verdict)

def World.commit (world : World) (verdict : Verdict) : World × Reply :=
  world.finishTransaction true verdict

def World.rollback (world : World) : World × Reply :=
  world.finishTransaction false (.ok ())

def World.drop (world : World) : World × Reply :=
  match world.resource with
  | none => (world.trap, .trap)
  | some state =>
    -- the table does not delete a resource that has children
    if world.children ≠ [] then (world.trap, .trap)
    else
      let lifecycle := world.lifecycle.complete
      let backend :=
        match state with
        | .completed => world.backend
        | .active =>
          if lifecycle.mustDiscard then world.backend.close
          else
            match world.backend.rollback with
            | (backend, .ok ()) => backend.recycle
            | (backend, .error _) => backend.close
      ({ world with backend, lifecycle, resource := none }, .done)

/-- The server ends the connection, and the driver keeps the rows it has received. -/
def World.sever (world : World) (received : Nat) : World :=
  match world.resource with
  | some .active =>
    { world with
      backend := world.backend.close
      cursors := world.cursors.map fun
        | .active stream => .active (stream.cut received)
        | state => state }
  | _ => world

def beginTransaction (tracked room : Bool) (verdict : Verdict) : Except DbError World :=
  if !tracked then .error (.connection "db transaction cap exceeded")
  else
    match (Backend.fresh : Backend Sql).begin verdict with
    | (_, .error message) => .error (.query message)
    | (backend, .ok ()) =>
      if room then .ok ⟨backend, some .active, .new, [], [], false⟩
      else .error (.connection "resource table has no free keys")

/-- What a guest can ask for, with the answers its environment gives. -/
inductive Event where
  | query (statement : Statement) (outcome : Outcome) (undecodable : Option DbError)
  | execute (statement : Statement) (outcome : Outcome)
  | queryStream (statement : Statement) (outcome : Outcome) (early : Bool)
      (rows : List (Option DbError)) (tracked room : Bool)
  | nextBatch (rep max : Nat)
  | dropCursor (rep : Nat)
  | commit (verdict : Verdict)
  | rollback
  | drop
  | sever (received : Nat)

/-- One call, or the loss of the connection. A trapped store takes no more calls. -/
def World.step (world : World) (event : Event) : World × Reply :=
  if world.trapped then (world, .trap)
  else
    match event with
    | .query statement outcome undecodable => world.query statement outcome undecodable
    | .execute statement outcome => world.execute statement outcome
    | .queryStream statement outcome early rows tracked room =>
      world.queryStream statement outcome early rows tracked room
    | .nextBatch rep max => world.nextBatch rep max
    | .dropCursor rep => world.dropCursor rep
    | .commit verdict => world.commit verdict
    | .rollback => world.rollback
    | .drop => world.drop
    | .sever received => (world.sever received, .done)

def World.next (world : World) (event : Event) : World := (world.step event).1

def World.reply (world : World) (event : Event) : Reply := (world.step event).2

end Wruntime.Engine
