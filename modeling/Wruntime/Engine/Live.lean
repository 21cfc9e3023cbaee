import Wruntime.Engine.Block

/-!
Every call of the guest keeps the block: statements, streams and cursors, read to the end or
dropped, a lost connection, and an end of the transaction that the server answers.
-/

namespace Wruntime.Engine

open Session Runs

variable {world a after : World} {rep : Nat} {stream : RowStream} {state : TxLifecycle}
  {backend : Backend Sql} {statement : Statement} {outcome : Outcome} {commit : Bool}
  {verdict : Verdict}

section Live

variable (hlive : world.Live)
include hlive

section

variable (hcursor : world.lifecycle.activeCursor = false)
include hcursor

/-- With no cursor open, a block that the server aborted is one the host knows about. -/
theorem World.Live.poisoned
    (haborted : world.backend.status = .aborted) : world.lifecycle.phase = .poisoned := by
  rcases hlive.told haborted with hphase | ⟨rep, stream, hactive, -⟩
  · exact hphase
  · have hopen := hlive.cursor rep stream hactive
    cases hcursor.symm.trans hopen

theorem World.Live.no_cursor (rep : Nat) (stream : RowStream) : ¬world.Reading rep stream := by
  intro hactive
  have hopen := hlive.cursor rep stream hactive
  cases hcursor.symm.trans hopen

theorem World.Live.publicError
    {error : HostDbError} (hblock : backend.InBlock) (hknown : backend.status = .aborted →
      world.lifecycle.phase = .poisoned ∨ error.isPostgres = true) : World.Live
      { world with
        backend
        lifecycle := publicTransactionError world.lifecycle error } := by
  have hphase := hlive.phase
  unfold publicTransactionError
  refine ⟨hlive.resource, hblock, ?_, ?_, hlive.single, ?_⟩
  · split
    · simp [markPostgresError_phase hphase]
    · exact hphase
  · intro rep stream hactive
    exact absurd hactive (hlive.no_cursor hcursor rep stream)
  · intro haborted
    left
    by_cases hpostgres : error.isPostgres = true
    · simp [hpostgres, markPostgresError_phase hphase]
    · simpa [hpostgres] using (hknown haborted).resolve_right hpostgres

theorem World.Live.answer
    {result : Backend Sql × Except HostDbError Unit} (hblock : result.1.InBlock)
    (hknown : result.1.status = .aborted →
      world.lifecycle.phase = .poisoned ∨ ∃ error, result.2 = .error (.postgres error)) :
    (world.answer result).1.Live := by
  rcases result with ⟨backend, error | _⟩
  · apply hlive.publicError hcursor hblock
    intro haborted
    rcases hknown haborted with hphase | ⟨e, he⟩
    · exact .inl hphase
    · right
      cases he
      rfl
  · refine ⟨hlive.resource, hblock, hlive.phase, hlive.cursor, hlive.single, ?_⟩
    intro haborted
    left
    exact (hknown haborted).resolve_right (by simp)

theorem World.Live.send
    (haborted : (Engine.send world.backend statement outcome).1.status = .aborted) :
    world.lifecycle.phase = .poisoned ∨ ∃ message, outcome = .server (.error message) ∧
      (Engine.send world.backend statement outcome).2 = .error (.postgres (.query message)) :=
  (send_aborted hlive.block haborted).imp_left (hlive.poisoned hcursor)

end

namespace World

theorem Live.execute (statement : Statement) (outcome : Outcome) :
    (world.execute statement outcome).1.Live := by
  unfold World.execute
  split
  · exact hlive
  split
  · exact hlive
  next hoperation =>
    obtain ⟨-, hcursor, -⟩ := ensureOperation_eq_ok.mp hoperation
    rw [client_eq_ok.mpr hlive.resource]
    apply hlive.answer hcursor (send_inBlock hlive.block statement outcome)
    intro haborted
    exact (hlive.send hcursor haborted).imp_right fun ⟨_, _, h⟩ => ⟨_, h⟩

theorem Live.query (statement : Statement) (outcome : Outcome)
    (undecodable : Option DbError) : (world.query statement outcome undecodable).1.Live := by
  unfold World.query
  split
  · exact hlive
  split
  · exact hlive
  next hoperation =>
    obtain ⟨-, hcursor, -⟩ := ensureOperation_eq_ok.mp hoperation
    rw [client_eq_ok.mpr hlive.resource]
    apply hlive.answer hcursor
    · rw [queryRows_fst]
      exact send_inBlock hlive.block statement outcome
    · intro haborted
      rw [queryRows_fst] at haborted
      exact (hlive.send hcursor haborted).imp_right
        fun ⟨_, _, h⟩ => ⟨_, queryRows_postgres h⟩

theorem Live.reading_append (hcursor : world.lifecycle.activeCursor = false)
    {opened : RowStream} (hreading : (world.cursors ++ [CursorResourceState.active opened])[rep]? =
      some (.active stream)) : rep = world.cursors.length ∧ stream = opened := by
  rw [List.getElem?_append] at hreading
  split at hreading
  · exact absurd hreading (hlive.no_cursor hcursor rep stream)
  next hlength =>
    have hzero : rep - world.cursors.length = 0 := by
      by_contra hne
      rw [List.getElem?_eq_none] at hreading
      · cases hreading
      · simp only [List.length_cons, List.length_nil]
        omega
    rw [hzero] at hreading
    simp only [List.getElem?_cons_zero, Option.some.injEq,
      CursorResourceState.active.injEq] at hreading
    exact ⟨by omega, hreading.symm⟩

/-- A stream keeps the error that aborted the block, unless its cursor finds no room. -/
theorem Live.queryStream (statement : Statement) (outcome : Outcome) (early : Bool)
    (rows : List (Option DbError)) (tracked room : Bool)
    (hroom : room = true ∨ ∀ message, outcome ≠ .server (.error message)) :
    (world.queryStream statement outcome early rows tracked room).1.Live := by
  unfold World.queryStream
  split
  · exact hlive
  split
  · exact hlive
  next lifecycle hreserve =>
    obtain ⟨-, hcursor, -, rfl⟩ := reserveCursor_eq_ok.mp hreserve
    have hreleased : ({ world.lifecycle with activeCursor := true } : TxLifecycle).releaseCursor =
        world.lifecycle := by
      rw [TxLifecycle.releaseCursor, ← hcursor]
    rw [hreleased]
    split
    · exact hlive
    · rw [client_eq_ok.mpr hlive.resource]
      dsimp only
      have hblock := send_inBlock hlive.block statement outcome
      have hfst := openRowStream_fst world.backend statement outcome early rows
      have hsnd := @openRowStream_postgres world.backend statement outcome early rows
      have hsend := @World.Live.send _ statement outcome hlive hcursor
      split
      next backend error hopened =>
        rw [hopened] at hfst hsnd
        apply hlive.publicError hcursor
        · rw [show backend = _ from hfst]
          exact hblock
        · intro haborted
          rw [show backend = _ from hfst] at haborted
          refine (hsend haborted).imp_right ?_
          rintro ⟨message, -, hmessage⟩
          rcases hsnd hmessage with herror | hok
          · cases herror
            rfl
          · cases hok
      next backend opened hopened =>
        rw [hopened] at hfst hsnd
        have hbackend : backend = (Engine.send world.backend statement outcome).1 := hfst
        have haborted : backend.status = .aborted →
            world.lifecycle.phase = .poisoned ∨
              (∃ message, outcome = .server (.error message)) ∧ opened.failure.isSome := by
          intro haborted
          rw [hbackend] at haborted
          refine (hsend haborted).imp_right ?_
          rintro ⟨message, houtcome, hmessage⟩
          refine ⟨⟨message, houtcome⟩, ?_⟩
          rcases hsnd hmessage with herror | hok
          · cases herror
          · cases hok
            rfl
        split
        · refine ⟨hlive.resource, hbackend ▸ hblock, hlive.phase, fun _ _ _ => rfl, ?_, ?_⟩
          · intro i j si sj hi hj
            rw [(hlive.reading_append hcursor hi).1, (hlive.reading_append hcursor hj).1]
          · intro hstatus
            refine (haborted hstatus).imp_right ?_
            rintro ⟨-, hfailure⟩
            exact ⟨world.cursors.length, opened, by simp [World.Reading], hfailure⟩
        next hfull =>
          refine ⟨hlive.resource, hbackend ▸ hblock, hlive.phase, hlive.cursor, hlive.single, ?_⟩
          intro hstatus
          left
          refine (haborted hstatus).resolve_right ?_
          rintro ⟨⟨message, hmessage⟩, -⟩
          exact (hroom.resolve_left hfull) message hmessage

theorem Live.setStream (hreading : world.Reading rep stream) {rest : RowStream}
    (hrest : rest.failure = stream.failure ∨ world.lifecycle.phase = .poisoned) :
    (world.setCursor rep (.active rest)).Live := by
  refine ⟨hlive.resource, hlive.block, hlive.phase, ?_, ?_, ?_⟩
  · intro _ _ _
    exact hlive.cursor rep stream hreading
  · intro i j si sj hi hj
    have hat : ∀ k sk, (world.setCursor rep (.active rest)).Reading k sk → k = rep := by
      intro k sk hk
      rcases reading_setCursor.mp hk with ⟨hrep, -⟩ | ⟨-, hk⟩
      · exact hrep
      · exact hlive.single k rep sk stream hk hreading
    rw [hat i si hi, hat j sj hj]
  · intro haborted
    rcases hrest with hrest | hpoisoned
    · refine (hlive.told haborted).imp_right ?_
      rintro ⟨i, si, hi, hfailure⟩
      obtain rfl := hlive.single i rep si stream hi hreading
      obtain rfl : si = stream := by simpa using hi.symm.trans hreading
      exact ⟨i, rest, reading_set hreading, hrest ▸ hfailure⟩
    · exact .inl hpoisoned

theorem Live.setInactive {state : CursorResourceState}
    (hbefore : ∀ stream, ¬world.Reading rep stream) (hstate : ∀ stream, state ≠ .active stream) :
    (world.setCursor rep state).Live := by
  have hback : ∀ k sk, (world.setCursor rep state).Reading k sk → world.Reading k sk := by
    intro k sk hk
    rcases reading_setCursor.mp hk with ⟨-, -, hactive⟩ | ⟨-, hk⟩
    · exact absurd hactive (hstate sk)
    · exact hk
  refine ⟨hlive.resource, hlive.block, hlive.phase, ?_, ?_, ?_⟩
  · exact fun k sk hk => hlive.cursor k sk (hback k sk hk)
  · exact fun i j si sj hi hj => hlive.single i j si sj (hback i si hi) (hback j sj hj)
  · intro haborted
    refine (hlive.told haborted).imp_right ?_
    rintro ⟨i, si, hi, hfailure⟩
    refine ⟨i, si, reading_setCursor.mpr (.inr ⟨?_, hi⟩), hfailure⟩
    rintro rfl
    exact hbefore si hi

theorem Live.markPostgresError :
    World.Live { world with lifecycle := world.lifecycle.markPostgresError } := by
  have hphase := markPostgresError_phase hlive.phase
  refine ⟨hlive.resource, hlive.block, ?_, ?_, hlive.single, fun _ => .inl hphase⟩
  · simp [hphase]
  · intro i si hi
    simpa using hlive.cursor i si hi

theorem Live.finishCursor (hreading : world.Reading rep stream) (firstError : Option DbError)
    {exhausted : Bool} (hexhausted : exhausted = true → stream.failure = none) :
    (world.finishCursor rep firstError exhausted).1.Live ∧
      ∀ i si, ¬(world.finishCursor rep firstError exhausted).1.Reading i si := by
  have hnone : ∀ i si, ¬(world.setCursor rep .exhausted).Reading i si := by
    intro i si hi
    rcases reading_setCursor.mp hi with ⟨-, -, hactive⟩ | ⟨hne, hi⟩
    · cases hactive
    · exact hne (hlive.single i rep si stream hi hreading)
  have hphase := fun failure => drained_phase hlive.phase failure
  have hknown : world.backend.status = .aborted →
      (world.lifecycle.drained (if exhausted then none else stream.failure)).phase =
        .poisoned := by
    intro haborted
    rcases hlive.told haborted with hpoisoned | ⟨i, si, hi, hfailure⟩
    · exact drained_of_poisoned hpoisoned _
    · obtain rfl := hlive.single i rep si stream hi hreading
      obtain rfl : si = stream := by simpa using hi.symm.trans hreading
      have hread : exhausted = false := by
        by_contra h
        simp [hexhausted (by simpa using h)] at hfailure
      simp [TxLifecycle.drained, hread, hfailure, markPostgresError_phase hlive.phase]
  unfold World.finishCursor
  rw [show world.cursors[rep]? = some (.active stream) from hreading]
  dsimp only
  generalize (if exhausted then none else stream.failure) = failure at hknown ⊢
  have hclient : World.client { world.setCursor rep .exhausted with
      lifecycle := world.lifecycle.drained failure } = .ok () :=
    client_eq_ok.mpr hlive.resource
  rw [hclient]
  dsimp only
  split
  · refine ⟨⟨hlive.resource, hlive.block, hphase failure, ?_, ?_, ?_⟩, hnone⟩
    · exact fun i si hi => absurd hi (hnone i si)
    · exact fun i j si sj hi => absurd hi (hnone i si)
    · exact fun haborted => .inl (hknown haborted)
  · have hpoisoned := markDiscard_phase (hphase failure)
    refine ⟨⟨hlive.resource, hlive.block, ?_, ?_, ?_, fun _ => .inl hpoisoned⟩, hnone⟩
    · simp [hpoisoned]
    · exact fun i si hi => absurd hi (hnone i si)
    · exact fun i j si sj hi => absurd hi (hnone i si)

theorem Live.nextBatch (rep max : Nat) : (world.nextBatch rep max).1.Live := by
  unfold World.nextBatch
  split
  · exact hlive
  split
  · exact hlive
  · exact hlive
  · exact hlive
  next stream hreading =>
    have hfailure := pull_failure max stream
    split
    next rest hpull =>
      rw [hpull] at hfailure
      exact hlive.setStream hreading (.inl hfailure)
    next error rest hpull =>
      rw [hpull] at hfailure
      have hset := hlive.setStream hreading (.inl hfailure)
      exact (hset.finishCursor (reading_set hreading) (some error) (by simp)).1
    next message rest hpull =>
      have hset := @World.Live.setStream _ _ _ hlive.markPostgresError hreading rest
        (.inr (markPostgresError_phase hlive.phase))
      exact (hset.finishCursor (reading_set hreading) _ (by simp)).1
    next rest hpull =>
      rw [hpull] at hfailure
      have hset := hlive.setStream hreading (.inl (hfailure.1.trans hfailure.2.symm))
      exact (hset.finishCursor (reading_set hreading) none fun _ => hfailure.1).1

theorem Live.released (hreleased : after.resource ≠ some .active ∧ world.Settled after) :
    after.Over := by
  obtain ⟨hresource, hsettled⟩ := hreleased
  refine ⟨hresource, ?_, .inl ?_⟩
  · rw [hsettled.autocommitted, hlive.block.autocommitted]
  · rw [hsettled.transactions, hlive.block.transactions]

theorem Live.dropCursor (rep : Nat) :
    (world.dropCursor rep).1.Live ∨ (world.dropCursor rep).1.Over := by
  unfold World.dropCursor
  split
  · exact .inr (hlive.released world.released_trap)
  · exact .inr (hlive.released world.released_trap)
  next hexhausted =>
    refine .inl (hlive.setInactive ?_ (by simp))
    intro stream hreading
    have hsame := hexhausted.symm.trans hreading
    simp at hsame
  next stream hreading =>
    obtain ⟨hfinished, hnone⟩ := hlive.finishCursor hreading none (by simp : false = true → _)
    split
    next after error hresult =>
      rw [hresult] at hfinished
      exact .inr (hfinished.released after.released_trap)
    next after hresult =>
      rw [hresult] at hfinished hnone
      exact .inl (hfinished.setInactive (hnone rep) (by simp))

theorem Live.sever (received : Nat) : (world.sever received).Live := by
  have hback : ∀ i si, (world.sever received).Reading i si →
      ∃ before, world.Reading i before := by
    intro i si hi
    rw [World.sever, hlive.resource] at hi
    unfold World.Reading at hi
    dsimp only at hi
    rw [List.getElem?_map, Option.map_eq_some_iff] at hi
    obtain ⟨state, hstate, hcut⟩ := hi
    cases state with
    | active before => exact ⟨before, hstate⟩
    | exhausted | deleted => cases hcut
  rw [World.sever, hlive.resource] at hback ⊢
  dsimp only at hback ⊢
  refine ⟨rfl, hlive.block.close, hlive.phase, ?_, ?_, ?_⟩
  · intro i si hi
    obtain ⟨before, hbefore⟩ := hback i si hi
    exact hlive.cursor i before hbefore
  · intro i j si sj hi hj
    obtain ⟨before, hbefore⟩ := hback i si hi
    obtain ⟨before', hbefore'⟩ := hback j sj hj
    exact hlive.single i j before before' hbefore hbefore'
  · intro haborted
    cases haborted

theorem Live.finishTransaction_cases (commit : Bool) (verdict : Verdict) :
    (∃ error, world.finishTransaction commit verdict = (world, .error error) ∧
        (world.lifecycle.activeCursor = true ∨ world.lifecycle.discard = true)) ∨
      world.lifecycle.activeCursor = false ∧ world.finishTransaction commit verdict =
        world.terminated commit (world.terminalCommand commit verdict) := by
  unfold World.finishTransaction
  rw [client_eq_ok.mpr hlive.resource]
  cases hterminal : world.lifecycle.ensureTerminal with
  | ok _ =>
    refine .inr ⟨(ensureOperation_eq_ok.mp hterminal).2.1, ?_⟩
    split
    next hnone => simp [hlive.resource] at hnone
    · rfl
  | error error =>
    refine .inl ⟨error, ?_, ?_⟩
    · split
      next hnone => simp [hlive.resource] at hnone
      · rfl
    · by_contra hfree
      have hok := ensureOperation_eq_ok.mpr
        ⟨hlive.phase, by simpa using (not_or.mp hfree).1, by simpa using (not_or.mp hfree).2⟩
      cases hok.symm.trans hterminal

/-- A `ROLLBACK` ends the transaction with nothing kept, or the connection is gone. -/
theorem Live.rolledBack (commit : Bool)
    (hreply : commit = true → world.lifecycle.isPoisoned = true) :
    let result := world.terminated commit world.backend.rollback
    result.1.Live ∧ result.2 ≠ .done ∧ result.1.backend.status = .closed ∨
      result.1.Over ∧ result.1.backend.transactions = [] ∧ (result.2 = .done → commit = false) := by
  cases hstatus : world.backend.status with
  | closed =>
    left
    rw [rollback_of_closed _ hstatus]
    exact ⟨hlive, by simp [World.terminated], hstatus⟩
  | _ =>
    right
    simp only [Backend.rollback, hstatus, World.terminated]
    have hauto := hlive.block.autocommitted
    have htransactions := hlive.block.transactions
    refine ⟨⟨by simp, by simpa using hauto, .inl (by simpa using htransactions)⟩,
      by simpa using htransactions, ?_⟩
    cases commit with
    | false => simp
    | true => simp [hreply rfl]

theorem Live.committed (hcursor : world.lifecycle.activeCursor = false)
    (hclean : world.lifecycle.isPoisoned = false) :
    let result := world.terminated true (world.backend.commit (.ok ()))
    result.1.Live ∧ result.2 ≠ .done ∧ result.1.backend.status = .closed ∨
      result.1.Over ∧ result.2 = .done ∧
        result.1.backend.transactions = [result.1.backend.succeeded] := by
  have hnotAborted : world.backend.status ≠ .aborted := by
    intro haborted
    simp [TxLifecycle.isPoisoned, hlive.poisoned hcursor haborted] at hclean
  rcases hlive.block.commit hnotAborted with ⟨hok, hone, hsame, hauto⟩ | ⟨hclosed, hfail⟩
  · right
    rcases hcommit : world.backend.commit (.ok ()) with ⟨backend, answer⟩
    rw [hcommit] at hok hone hsame hauto
    obtain rfl : answer = .ok () := hok
    have hkept : backend.recycle.transactions = [backend.recycle.succeeded] := by
      rw [recycle_transactions, recycle_succeeded, hone, hsame]
    refine ⟨⟨by simp [World.terminated], by simpa [World.terminated] using hauto, .inr hkept⟩,
      by simp [World.terminated, hclean], hkept⟩
  · left
    rw [hfail]
    exact ⟨hlive, by simp [World.terminated], hclosed⟩

end World

end Live

end Wruntime.Engine
