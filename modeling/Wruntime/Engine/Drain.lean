import Wruntime.Engine.Transaction

/-!
How often a transaction cursor polls its row stream. Cleanup reads on to the stream's end. A stream
whose connection is lost answers every poll with an error and has no end, so a call that comes to
clean it up never returns.
-/

namespace Wruntime.Engine

open Session

/-- After its rows a stream ends, with or without an error of the server, or its connection is
lost. -/
inductive Ending where
  | ended (failure : Option String)
  | lost

structure Polled where
  rows : List (Option DbError)
  ending : Ending

inductive Poll where
  | row (undecodable : Option DbError)
  | error (message : String)
  | ended

def Polled.poll : Polled → Poll × Polled
  | ⟨row :: rows, ending⟩ => (.row row, ⟨rows, ending⟩)
  | ⟨[], .ended none⟩ => (.ended, ⟨[], .ended none⟩)
  | ⟨[], .ended (some message)⟩ => (.error message, ⟨[], .ended none⟩)
  | ⟨[], .lost⟩ => (.error closedMessage, ⟨[], .lost⟩)

/-- The transaction's lifecycle, and the cursor's stream until it is exhausted. While it is active
the transaction holds its connection. -/
structure Cursor where
  lifecycle : TxLifecycle
  stream : Option Polled

/-- The loop of `finish_cursor`. It has no result when its polls are used up. -/
def drain : Nat → Polled → TxLifecycle → Option DbError → Option (TxLifecycle × Option DbError)
  | 0, _, _, _ => none
  | polls + 1, stream, lifecycle, firstError =>
    match stream.poll with
    | (.row _, rest) => drain polls rest lifecycle firstError
    | (.error message, rest) =>
      drain polls rest lifecycle.markPostgresError (firstError <|> some (.query message))
    | (.ended, _) => some (lifecycle, firstError)

/-- What follows the end of the stream; `answer` is what the server says to the empty query. -/
def conclude (answer : Verdict) : TxLifecycle × Option DbError → Cursor × Except DbError Unit
  | (lifecycle, firstError) =>
    match answer with
    | .ok () =>
      (⟨lifecycle.releaseCursor, none⟩,
        match firstError with
        | some error => .error error
        | none => .ok ())
    | .error message =>
      (⟨lifecycle.markDiscard.releaseCursor, none⟩, .error (firstError.getD
        (.connection ("failed to synchronize transaction cursor: " ++ message))))

def finish (answer : Verdict) (polls : Nat) (stream : Polled) (lifecycle : TxLifecycle)
    (firstError : Option DbError) (exhausted : Bool) : Option (Cursor × Except DbError Unit) :=
  (if exhausted then some (lifecycle, firstError)
    else drain polls stream lifecycle firstError).map (conclude answer)

/-- The loop of `next_batch`. -/
def readBatch (answer : Verdict) : Nat → Nat → Polled → TxLifecycle →
    Option (Cursor × Except DbError Unit)
  | _, 0, stream, lifecycle => some (⟨lifecycle, some stream⟩, .ok ())
  | 0, _ + 1, _, _ => none
  | polls + 1, max + 1, stream, lifecycle =>
    match stream.poll with
    | (.row none, rest) => readBatch answer polls max rest lifecycle
    | (.row (some error), rest) => finish answer polls rest lifecycle (some error) false
    | (.error message, rest) =>
      finish answer polls rest lifecycle.markPostgresError (some (.query message)) false
    | (.ended, rest) => finish answer polls rest lifecycle none true

inductive CursorCall where
  | nextBatch (max : Nat)
  | drop

def Cursor.call (cursor : Cursor) (answer : Verdict) (call : CursorCall) (polls : Nat) :
    Option (Cursor × Except DbError Unit) :=
  match call with
  | .nextBatch max =>
    match validateBatchSize max with
    | .error error => some (cursor, .error error)
    | .ok () =>
      match cursor.stream with
      | none => some (cursor, .ok ())
      | some stream => readBatch answer polls max stream cursor.lifecycle
  | .drop =>
    match cursor.stream with
    | none => some (cursor, .ok ())
    | some stream => finish answer polls stream cursor.lifecycle none false

/-- A call returns after finitely many polls, and frees the cursor's slot if it ended the stream. -/
def Cursor.Returns (cursor : Cursor) (call : Nat → Option (Cursor × Except DbError Unit)) : Prop :=
  ∃ polls after reply, call polls = some (after, reply) ∧
    (after.stream = none → after = cursor ∨ after.lifecycle.activeCursor = false)

/-- A call that meets a lost connection is refused, or fills its batch from rows that came
before. -/
def Cursor.Served : Cursor → CursorCall → Prop
  | ⟨_, some ⟨_, .lost⟩⟩, .drop => False
  | ⟨_, some ⟨rows, .lost⟩⟩, .nextBatch max => 1 ≤ max ∧ max ≤ maxCursorBatchRows →
    max ≤ (rows.takeWhile Option.isNone).length
  | _, _ => True

variable {answer : Verdict} {n max : Nat} {rows : List (Option DbError)} {ending : Ending}
  {failure : Option String} {lifecycle : TxLifecycle} {firstError : Option DbError}
  {cursor : Cursor} {call call' : Nat → Option (Cursor × Except DbError Unit)}

theorem drain_lost : drain n ⟨rows, .lost⟩ lifecycle firstError = none := by
  induction n generalizing rows lifecycle firstError with
  | zero => rfl
  | succ n ih => cases rows <;> exact ih

theorem drain_ended : ∃ polls, drain polls ⟨rows, .ended failure⟩ lifecycle firstError =
    some (lifecycle.drained failure, firstError <|> failure.map .query) := by
  induction rows with
  | nil =>
    cases failure with
    | none => exact ⟨1, by simp [drain, Polled.poll, TxLifecycle.drained]⟩
    | some message => exact ⟨2, by simp [drain, Polled.poll, TxLifecycle.drained]⟩
  | cons row rows ih =>
    obtain ⟨polls, hdrain⟩ := ih
    exact ⟨polls + 1, hdrain⟩

/-- Cleanup of a stream that ends is what `World.finishCursor` makes of its error. -/
theorem finish_eq_finishCursor {world : World} {rep : Nat}
    (hcursor : world.cursors[rep]? = some (.active ⟨rows, failure⟩))
    (hclient : world.client = .ok ()) :
    ∃ polls, finish world.backend.synchronize polls ⟨rows, .ended failure⟩ world.lifecycle
        firstError false = some (⟨(world.finishCursor rep firstError false).1.lifecycle, none⟩,
        (world.finishCursor rep firstError false).2) := by
  obtain ⟨polls, hdrain⟩ := @drain_ended rows failure world.lifecycle firstError
  refine ⟨polls, ?_⟩
  have hafter : ({ world.setCursor rep .exhausted with
      lifecycle := world.lifecycle.drained failure } : World).client = .ok () := hclient
  simp only [finish, World.finishCursor, hcursor, hdrain, hafter, Bool.false_eq_true, if_false]
  change Option.map (conclude (world.setCursor rep .exhausted).backend.synchronize) _ = _
  cases (world.setCursor rep .exhausted).backend.synchronize <;> rfl

theorem finish_eq_finishCursor_failed :
    let world : World := ⟨⟨.active [], [], [], []⟩, some .active, ⟨.active, true, false⟩, [0],
      [.active ⟨[none], some "canceled"⟩], false⟩
    ∃ polls, finish world.backend.synchronize polls ⟨[none], .ended (some "canceled")⟩
        world.lifecycle none false = some
      (⟨(world.finishCursor 0 none false).1.lifecycle, none⟩, .error (.query "canceled")) :=
  finish_eq_finishCursor rfl rfl

theorem returns_conclude (result : TxLifecycle × Option DbError)
    (h : call n = some (conclude answer result)) : cursor.Returns call := by
  refine ⟨n, _, _, h, fun _ => .inr ?_⟩
  cases answer <;> rfl

theorem returns_finish (h : ending ≠ .lost) :
    cursor.Returns (finish answer · ⟨rows, ending⟩ lifecycle firstError false) := by
  cases ending with
  | lost => exact absurd rfl h
  | ended failure =>
    obtain ⟨polls, hdrain⟩ := @drain_ended rows failure lifecycle firstError
    exact returns_conclude (n := polls) _ (congrArg (Option.map (conclude answer)) hdrain)

theorem Cursor.Returns.later (h : cursor.Returns call)
    (hcall : ∀ polls, call' (polls + 1) = call polls) : cursor.Returns call' := by
  obtain ⟨polls, hreturns⟩ := h
  exact ⟨polls + 1, by rwa [hcall]⟩

theorem returns_readBatch (h : ending ≠ .lost ∨ max ≤ (rows.takeWhile Option.isNone).length) :
    cursor.Returns (readBatch answer · max ⟨rows, ending⟩ lifecycle) := by
  induction max generalizing rows with
  | zero =>
    refine ⟨0, _, _, rfl, ?_⟩
    intro h
    cases h
  | succ max ih =>
    rcases rows with _ | ⟨_ | error, rows⟩
    · have hended := h.resolve_right (by simp)
      cases ending with
      | lost => exact absurd rfl hended
      | ended failure =>
        cases failure with
        | none => exact returns_conclude (n := 1) (lifecycle, none) rfl
        | some message =>
          refine Cursor.Returns.later (returns_finish ?_) fun _ => rfl
          simp
    · exact (ih (h.imp_right (by simp))).later fun _ => rfl
    · exact (returns_finish (h.resolve_right (by simp))).later fun _ => rfl

theorem readBatch_lost (h : (rows.takeWhile Option.isNone).length < max) :
    readBatch answer n max ⟨rows, .lost⟩ lifecycle = none := by
  induction n generalizing rows max with
  | zero =>
    cases max with
    | zero => exact absurd h (Nat.not_lt_zero _)
    | succ max => rfl
  | succ n ih =>
    cases max with
    | zero => exact absurd h (Nat.not_lt_zero _)
    | succ max =>
      rcases rows with _ | ⟨_ | error, rows⟩
      · simp [readBatch, Polled.poll, finish, drain_lost]
      · exact ih (by simpa using h)
      · simp [readBatch, Polled.poll, finish, drain_lost]

/-- A call on a cursor returns unless it has to clean up after a lost connection. -/
theorem cursor_call_returns_iff (cursor : Cursor) (answer : Verdict) (call : CursorCall) :
    cursor.Returns (cursor.call answer call) ↔ cursor.Served call := by
  obtain ⟨lifecycle, stream⟩ := cursor
  cases call with
  | drop =>
    rcases stream with _ | ⟨rows, failure | _⟩
    · exact iff_of_true ⟨0, _, _, rfl, fun _ => .inl rfl⟩ trivial
    · exact iff_of_true (returns_finish (by simp)) trivial
    · refine iff_of_false ?_ id
      rintro ⟨polls, after, reply, hcall, -⟩
      simp [Cursor.call, finish, drain_lost] at hcall
  | nextBatch max =>
    by_cases hmax : 1 ≤ max ∧ max ≤ maxCursorBatchRows
    · have hcall : ∀ stream : Polled, Cursor.call ⟨lifecycle, some stream⟩ answer (.nextBatch max) =
          (readBatch answer · max stream lifecycle) := by
        intro stream
        funext polls
        simp [Cursor.call, validateBatchSize, hmax]
      rcases stream with _ | ⟨rows, failure | _⟩
      · refine iff_of_true ⟨0, ⟨lifecycle, none⟩, .ok (), ?_, fun _ => .inl rfl⟩ trivial
        simp [Cursor.call, validateBatchSize, hmax]
      · rw [hcall]
        exact iff_of_true (returns_readBatch (.inl (by simp))) trivial
      · rw [hcall]
        constructor
        · rintro ⟨polls, after, reply, hread, -⟩ _
          by_contra hshort
          have hnone := hread.symm.trans (readBatch_lost (Nat.lt_of_not_le hshort))
          cases hnone
        · exact fun h => returns_readBatch (.inr (h hmax))
    · refine iff_of_true ⟨0, ⟨lifecycle, stream⟩, ?_⟩ ?_
      · simp [Cursor.call, validateBatchSize, hmax]
      · rcases stream with _ | ⟨rows, failure | _⟩
        · trivial
        · trivial
        · exact fun h => absurd h hmax

theorem lost_connection_is_drained_forever :
    ¬Cursor.Returns ⟨⟨.active, true, false⟩, some ⟨[], .lost⟩⟩
      (Cursor.call ⟨⟨.active, true, false⟩, some ⟨[], .lost⟩⟩ (.error closedMessage) .drop) := by
  rintro ⟨polls, after, reply, hcall, -⟩
  simp [Cursor.call, finish, drain_lost] at hcall

end Wruntime.Engine
