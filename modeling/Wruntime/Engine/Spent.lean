import Wruntime.Engine.Live

/-!
After its end a transaction is spent: calls still answer, but they reach no server and change
nothing that is stored.
-/

namespace Wruntime.Engine

open Session Runs

variable {world a b c after : World} {rep : Nat} {state : TxLifecycle} {backend : Backend Sql}
  {statement : Statement} {outcome : Outcome} {commit : Bool} {verdict : Verdict}

structure World.Quiet (world after : World) : Prop where
  backend : after.backend = world.backend
  resource : after.resource = world.resource
  discard : world.lifecycle.discard = true → after.lifecycle.discard = true

theorem World.Quiet.refl (world : World) : world.Quiet world := ⟨rfl, rfl, id⟩

theorem World.Quiet.trans (hab : a.Quiet b) (hbc : b.Quiet c) : a.Quiet c :=
  ⟨hbc.backend.trans hab.backend, hbc.resource.trans hab.resource,
    fun h => hbc.discard (hab.discard h)⟩

theorem World.quiet_setCursor (world : World) (rep : Nat) (state : CursorResourceState) :
    world.Quiet (world.setCursor rep state) := ⟨rfl, rfl, id⟩

theorem World.quiet_markPostgresError (world : World) :
    world.Quiet { world with lifecycle := world.lifecycle.markPostgresError } :=
  ⟨rfl, rfl, by simp⟩

theorem drained_discard (state : TxLifecycle) (failure : Option String) :
    (state.drained failure).discard = state.discard := by
  unfold TxLifecycle.drained
  split <;> simp

namespace World

theorem quiet_finishCursor (world : World) (rep : Nat) (firstError : Option DbError)
    (exhausted : Bool) : world.Quiet (world.finishCursor rep firstError exhausted).1 := by
  unfold finishCursor
  split
  · dsimp only
    split
    · exact ⟨rfl, rfl, by simp [drained_discard]⟩
    · split
      · exact ⟨rfl, rfl, by simp [drained_discard]⟩
      · exact ⟨rfl, rfl, by simp⟩
  · exact .refl world

theorem quiet_nextBatch (world : World) (rep max : Nat) :
    world.Quiet (world.nextBatch rep max).1 := by
  unfold nextBatch
  split
  · exact .refl world
  split
  · exact .refl world
  · exact .refl world
  · exact .refl world
  · split
    · exact world.quiet_setCursor rep _
    · exact (world.quiet_setCursor rep _).trans (quiet_finishCursor _ rep _ false)
    · exact ((world.quiet_setCursor rep _).trans (quiet_markPostgresError _)).trans
        (quiet_finishCursor _ rep _ false)
    · exact (world.quiet_setCursor rep _).trans (quiet_finishCursor _ rep none true)

def Spent (world : World) : Prop :=
  world.resource ≠ some .active ∨ world.backend.status = .closed ∨
    world.lifecycle.discard = true

theorem Quiet.settled (hquiet : world.Quiet after) : world.Settled after := by
  have hbackend := hquiet.backend
  exact ⟨by rw [hbackend], by rw [hbackend], by rw [hbackend], fun h => hquiet.resource ▸ h⟩

theorem Spent.quiet (hspent : world.Spent) (hquiet : world.Quiet after) :
    after.Spent ∧ world.Settled after := by
  refine ⟨?_, hquiet.settled⟩
  rcases hspent with hresource | hclosed | hdiscard
  · exact .inl (hquiet.resource ▸ hresource)
  · exact .inr (.inl (hquiet.backend ▸ hclosed))
  · exact .inr (.inr (hquiet.discard hdiscard))

end World

theorem send_of_closed (hclosed : backend.status = .closed) (statement : Statement)
    (outcome : Outcome) : (send backend statement outcome).1 = backend := by
  unfold send
  cases statement.rejected with
  | some error => rfl
  | none =>
    cases outcome with
    | driver message => rfl
    | server verdict => simp [statement_of_closed _ hclosed]

theorem World.quiet_answer {result : Backend Sql × Except HostDbError Unit}
    (hbackend : result.1 = world.backend) : world.Quiet (world.answer result).1 := by
  rcases result with ⟨backend, error | _⟩
  · refine ⟨hbackend, rfl, ?_⟩
    intro hdiscard
    simp only [World.answer, publicTransactionError]
    split <;> simpa using hdiscard
  · exact ⟨hbackend, rfl, id⟩

section Spent

variable (hspent : world.Spent)
include hspent

theorem World.Spent.closed (hclient : world.client = .ok ())
    (hdiscard : world.lifecycle.discard = false) : world.backend.status = .closed := by
  rcases hspent with hresource | hclosed | hspoilt
  · exact absurd (client_eq_ok.mp hclient) hresource
  · exact hclosed
  · cases hdiscard.symm.trans hspoilt

section

variable (statement : Statement)

section

variable (outcome : Outcome)

theorem World.Spent.query (undecodable : Option DbError) :
    world.Quiet (world.query statement outcome undecodable).1 := by
  unfold World.query
  split
  · exact .refl world
  split
  · exact .refl world
  split
  · exact .refl world
  next hoperation _ hclient =>
    have hclosed := hspent.closed hclient (ensureOperation_eq_ok.mp hoperation).2.2
    apply World.quiet_answer
    rw [queryRows_fst, send_of_closed hclosed]

theorem World.Spent.execute : world.Quiet (world.execute statement outcome).1 := by
  unfold World.execute
  split
  · exact .refl world
  split
  · exact .refl world
  split
  · exact .refl world
  next hoperation _ hclient =>
    have hclosed := hspent.closed hclient (ensureOperation_eq_ok.mp hoperation).2.2
    exact World.quiet_answer (send_of_closed hclosed statement outcome)

theorem World.Spent.queryStream (early : Bool)
    (rows : List (Option DbError)) (tracked room : Bool) :
    world.Quiet (world.queryStream statement outcome early rows tracked room).1 := by
  unfold World.queryStream
  split
  · exact .refl world
  split
  · exact .refl world
  next lifecycle hreserve =>
    obtain ⟨-, -, hdiscard, rfl⟩ := reserveCursor_eq_ok.mp hreserve
    split
    · exact ⟨rfl, rfl, by simp [hdiscard]⟩
    split
    · exact ⟨rfl, rfl, by simp [hdiscard]⟩
    next hclient =>
      have hclosed := hspent.closed hclient hdiscard
      have hfst := openRowStream_fst world.backend statement outcome early rows
      rw [send_of_closed hclosed] at hfst
      split
      next hopened =>
        rw [hopened] at hfst
        exact ⟨hfst, rfl, by simp [hdiscard]⟩
      next hopened =>
        rw [hopened] at hfst
        split
        · exact ⟨hfst, rfl, by simp [hdiscard]⟩
        · exact ⟨hfst, rfl, by simp [hdiscard]⟩

end

end

theorem World.Spent.finishTransaction (commit : Bool) (verdict : Verdict) :
    world.Quiet (world.finishTransaction commit verdict).1 := by
  unfold World.finishTransaction
  split
  · exact .refl world
  split
  · exact .refl world
  split
  · exact ⟨rfl, rfl, by simp⟩
  next hterminal _ hclient =>
    have hclosed := hspent.closed hclient (ensureOperation_eq_ok.mp hterminal).2.2
    have hcommand : world.terminalCommand commit verdict =
        (world.backend, .error closedMessage) := by
      unfold World.terminalCommand
      rw [commit_of_closed _ hclosed, rollback_of_closed _ hclosed]
      split <;> rfl
    rw [hcommand]
    exact ⟨rfl, rfl, id⟩

theorem World.Spent.next (event : Event) :
    (world.next event).Spent ∧ world.Settled (world.next event) := by
  have hsame := hspent.quiet (.refl world)
  have htrap := world.released_trap.imp_left (.inl : _ → World.Spent world.trap)
  unfold World.next World.step
  split
  · exact hsame
  cases event with
  | query statement outcome undecodable =>
    exact hspent.quiet (hspent.query statement outcome undecodable)
  | execute statement outcome => exact hspent.quiet (hspent.execute statement outcome)
  | queryStream statement outcome early rows tracked room =>
    exact hspent.quiet (hspent.queryStream statement outcome early rows tracked room)
  | nextBatch rep max => exact hspent.quiet (world.quiet_nextBatch rep max)
  | commit verdict => exact hspent.quiet (hspent.finishTransaction true verdict)
  | rollback => exact hspent.quiet (hspent.finishTransaction false (.ok ()))
  | drop => exact world.released_drop.imp_left .inl
  | dropCursor rep =>
    dsimp only
    unfold World.dropCursor
    split
    · exact htrap
    · exact htrap
    · exact hspent.quiet (world.quiet_setCursor rep _)
    · have hquiet := world.quiet_finishCursor rep none false
      split <;> next hfinished =>
        rw [hfinished] at hquiet
        first
          | exact (World.released_trap _).imp .inl hquiet.settled.trans
          | exact hspent.quiet (hquiet.trans (World.quiet_setCursor _ rep _))
  | sever received =>
    dsimp only
    unfold World.sever
    split
    · exact ⟨.inr (.inl rfl), rfl, rfl, rfl, id⟩
    · exact hsame

end Spent

theorem World.Spent.reach {ok : World → Event → Prop} (hspent : world.Spent)
    (hrun : Reach World.next ok world after) :
    after.backend.persisted = world.backend.persisted := by
  have hboth : after.Spent ∧ after.backend.persisted = world.backend.persisted := by
    refine hrun.invariant (P := fun after =>
      after.Spent ∧ after.backend.persisted = world.backend.persisted) ⟨hspent, rfl⟩ ?_
    rintro before event - - ⟨hbefore, hsame⟩
    obtain ⟨hafter, hkept⟩ := hbefore.next event
    exact ⟨hafter, hkept.persisted.trans hsame⟩
  exact hboth.2

end Wruntime.Engine
