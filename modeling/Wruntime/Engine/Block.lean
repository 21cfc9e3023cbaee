import Wruntime.Engine.Transaction

/-!
The block of a guest transaction. While the resource holds its connection the server is in the one
block that the host began, and an abort of it is known to the host or will be when the open cursor
is read to its end (`Live`); afterwards the resource is gone and nothing is held (`Over`).
-/

namespace Wruntime.Engine

open Session Runs

variable {world a b c after : World} {rep : Nat} {stream : RowStream} {state : TxLifecycle}
  {backend : Backend Sql} {statement : Statement} {outcome : Outcome} {verdict : Verdict}

def World.Reading (world : World) (rep : Nat) (stream : RowStream) : Prop :=
  world.cursors[rep]? = some (CursorResourceState.active stream)

/-- An open cursor whose stream ends with an error the host has not read yet. -/
def World.Unread (world : World) : Prop :=
  ∃ rep stream, world.Reading rep stream ∧ stream.failure.isSome

structure World.Live (world : World) : Prop where
  resource : world.resource = some .active
  block : world.backend.InBlock
  phase : world.lifecycle.phase ≠ .completed
  cursor : ∀ rep stream, world.Reading rep stream → world.lifecycle.activeCursor = true
  single : ∀ rep rep' stream stream', world.Reading rep stream →
    world.Reading rep' stream' → rep = rep'
  told : world.backend.status = .aborted →
    world.lifecycle.phase = .poisoned ∨ world.Unread

structure World.Over (world : World) : Prop where
  resource : world.resource ≠ some .active
  autocommitted : world.backend.autocommitted = []
  outcome : world.backend.transactions = [] ∨
    world.backend.transactions = [world.backend.succeeded]

@[simp] theorem markPostgresError_activeCursor (state : TxLifecycle) :
    state.markPostgresError.activeCursor = state.activeCursor := by
  unfold TxLifecycle.markPostgresError
  split <;> rfl

@[simp] theorem markPostgresError_discard (state : TxLifecycle) :
    state.markPostgresError.discard = state.discard := by
  unfold TxLifecycle.markPostgresError
  split <;> rfl

theorem markPostgresError_phase (h : state.phase ≠ .completed) :
    state.markPostgresError.phase = .poisoned := by
  simp [TxLifecycle.markPostgresError, h]

@[simp] theorem markDiscard_discard (state : TxLifecycle) : state.markDiscard.discard = true := by
  unfold TxLifecycle.markDiscard
  split <;> rfl

theorem markDiscard_phase (h : state.phase ≠ .completed) : state.markDiscard.phase = .poisoned := by
  simp [TxLifecycle.markDiscard, h]

theorem drained_phase (h : state.phase ≠ .completed) (failure : Option String) :
    (state.drained failure).phase ≠ .completed := by
  unfold TxLifecycle.drained
  split
  · simp [markPostgresError_phase h]
  · exact h

theorem drained_of_poisoned (h : state.phase = .poisoned) (failure : Option String) :
    (state.drained failure).phase = .poisoned := by
  unfold TxLifecycle.drained
  split
  · exact markPostgresError_phase (by simp [h])
  · exact h

@[simp] theorem releaseCursor_phase (state : TxLifecycle) :
    state.releaseCursor.phase = state.phase := rfl

@[simp] theorem releaseCursor_discard (state : TxLifecycle) :
    state.releaseCursor.discard = state.discard := rfl

theorem ensureOperation_eq_ok : state.ensureOperation = .ok () ↔
      state.phase ≠ .completed ∧ state.activeCursor = false ∧ state.discard = false := by
  unfold TxLifecycle.ensureOperation
  split
  · simp_all
  · split
    · simp_all
    · split <;> simp_all

theorem reserveCursor_eq_ok {reserved : TxLifecycle} : state.reserveCursor = .ok reserved ↔
      state.phase ≠ .completed ∧ state.activeCursor = false ∧ state.discard = false ∧
        reserved = { state with activeCursor := true } := by
  unfold TxLifecycle.reserveCursor
  split
  · simp_all
  · split
    · simp_all
    · split
      · simp_all
      · simp_all only [Except.ok.injEq, ne_eq, not_false_eq_true, true_and, Bool.not_eq_true]
        exact eq_comm

theorem client_eq_ok : world.client = .ok () ↔ world.resource = some .active := by
  unfold World.client
  rcases hresource : world.resource with _ | _ | _ <;> simp

/-- An aborted block was aborted before, or the host is told that the server failed. -/
theorem send_aborted (hblock : backend.InBlock)
    (haborted : (send backend statement outcome).1.status = .aborted) :
    backend.status = .aborted ∨ ∃ message, outcome = .server (.error message) ∧
      (send backend statement outcome).2 = .error (.postgres (.query message)) := by
  unfold send at haborted ⊢
  cases hrejected : statement.rejected with
  | some error => simp_all
  | none =>
    cases outcome with
    | driver message => simp_all
    | server verdict =>
      simp only [hrejected] at haborted ⊢
      by_cases hbefore : backend.status = .aborted
      · exact .inl hbefore
      · obtain ⟨message, rfl⟩ :=
          (hblock.aborted_of_statement haborted).resolve_left hbefore
        refine .inr ⟨message, rfl, ?_⟩
        cases hstatus : backend.status with
        | idle => exact absurd hstatus hblock.notIdle
        | aborted => exact absurd hstatus hbefore
        | active work => simp [Backend.statement, hstatus, Except.mapError]
        | closed => simp_all [Backend.statement]

theorem send_inBlock (hblock : backend.InBlock) (statement : Statement) (outcome : Outcome) :
    (send backend statement outcome).1.InBlock := by
  unfold send
  cases statement.rejected with
  | some error => exact hblock
  | none =>
    cases outcome with
    | driver message => exact hblock
    | server verdict => exact hblock.statement statement.sql verdict

theorem queryRows_fst (backend : Backend Sql) (statement : Statement) (outcome : Outcome)
    (undecodable : Option DbError) : (queryRows backend statement outcome undecodable).1 =
      (send backend statement outcome).1 := by
  unfold queryRows
  rcases hsend : send backend statement outcome with ⟨after, _ | _⟩
  · rfl
  · cases undecodable <;> rfl

theorem queryRows_postgres {undecodable : Option DbError} {error : DbError}
    (h : (send backend statement outcome).2 = .error (.postgres error)) :
    (queryRows backend statement outcome undecodable).2 = .error (.postgres error) := by
  unfold queryRows
  rcases hsend : send backend statement outcome with ⟨after, _ | _⟩ <;> simp_all

theorem openRowStream_fst (backend : Backend Sql) (statement : Statement)
    (outcome : Outcome) (early : Bool) (rows : List (Option DbError)) :
    (openRowStream backend statement outcome early rows).1 =
      (send backend statement outcome).1 := by
  unfold openRowStream
  rcases hsend : send backend statement outcome with ⟨after, error | _⟩
  · cases early <;> rcases error with _ | (_ | _ | _) | _ <;> rfl
  · rfl

/-- The error of a streamed statement is returned at once or waits at the end of the
stream. -/
theorem openRowStream_postgres {early : Bool} {rows : List (Option DbError)} {message : String}
    (h : (send backend statement outcome).2 = .error (.postgres (.query message))) :
    (openRowStream backend statement outcome early rows).2 = .error (.postgres (.query message)) ∨
      (openRowStream backend statement outcome early rows).2 = .ok ⟨rows, some message⟩ := by
  unfold openRowStream
  rcases hsend : send backend statement outcome with ⟨after, error | _⟩
  · rw [hsend] at h
    cases h
    cases early <;> simp
  · simp_all

theorem reading_setCursor {state : CursorResourceState} {i : Nat} {si : RowStream} :
    (world.setCursor rep state).Reading i si ↔
      i = rep ∧ rep < world.cursors.length ∧ state = .active si ∨ i ≠ rep ∧ world.Reading i si := by
  unfold World.Reading World.setCursor
  rw [List.getElem?_set]
  by_cases hrep : rep = i
  · subst hrep
    by_cases hlength : rep < world.cursors.length <;> simp [hlength]
  · simp [hrep, Ne.symm hrep]

theorem reading_set (hreading : world.Reading rep stream) {rest : RowStream} :
    (world.setCursor rep (.active rest)).Reading rep rest :=
  reading_setCursor.mpr (.inl ⟨rfl, (List.getElem?_eq_some_iff.mp hreading).1, rfl⟩)

theorem pull_failure (max : Nat) (stream : RowStream) :
    match pull max stream with
    | .full rest | .undecodable _ rest => rest.failure = stream.failure
    | .failed _ rest => rest.failure = none
    | .exhausted rest => rest.failure = none ∧ stream.failure = none := by
  induction max, stream using pull.induct with
  | case1 stream | case3 max error rows failure | case4 max message | case5 max => simp [pull]
  | case2 max rows failure ih => simpa [pull] using ih

namespace World

structure Settled (world after : World) : Prop where
  succeeded : after.backend.succeeded = world.backend.succeeded
  transactions : after.backend.transactions = world.backend.transactions
  autocommitted : after.backend.autocommitted = world.backend.autocommitted
  resource : world.resource ≠ some .active → after.resource ≠ some .active

theorem Settled.trans (hab : a.Settled b) (hbc : b.Settled c) : a.Settled c :=
  ⟨hbc.succeeded.trans hab.succeeded, hbc.transactions.trans hab.transactions,
    hbc.autocommitted.trans hab.autocommitted, fun h => hbc.resource (hab.resource h)⟩

theorem Settled.persisted (hsettled : world.Settled after) :
    after.backend.persisted = world.backend.persisted := by
  rw [Backend.persisted, hsettled.transactions, hsettled.autocommitted, Backend.persisted]

theorem released_trap (world : World) :
    world.trap.resource ≠ some .active ∧ world.Settled world.trap := by
  refine ⟨by simp [trap], ?_, ?_, ?_, by simp [trap]⟩
  all_goals
    unfold trap
    split
    · split <;> simp
    · rfl

theorem released_drop (world : World) :
    world.drop.1.resource ≠ some .active ∧ world.Settled world.drop.1 := by
  unfold drop
  split
  · exact world.released_trap
  next state hstate =>
    split
    · exact world.released_trap
    · refine ⟨by simp, ?_⟩
      have hsucceeded := rollback_succeeded world.backend
      have htransactions := rollback_transactions world.backend
      have hauto := rollback_autocommitted world.backend
      cases state with
      | completed => exact ⟨rfl, rfl, rfl, by simp⟩
      | active =>
        dsimp only
        split
        · exact ⟨rfl, rfl, rfl, by simp⟩
        · split <;> next hrollback =>
            rw [hrollback] at hsucceeded htransactions hauto
            exact ⟨by simpa using hsucceeded, by simpa using htransactions, by simpa using hauto,
              by simp⟩

end World

end Wruntime.Engine
