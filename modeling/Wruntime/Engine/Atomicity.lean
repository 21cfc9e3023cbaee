import Wruntime.Engine.Spent

/-!
Atomicity of guest transactions, over every run of a guest: what it stores is nothing or all of its
statements. A rejected `COMMIT` breaks this: the server has left the block that the host takes for
open.
-/

namespace Wruntime.Engine

open Session Runs

variable {world a after : World} {rep : Nat} {stream : RowStream} {state : TxLifecycle}
  {statement : Statement} {outcome : Outcome} {commit : Bool} {verdict : Verdict}

/-- No `COMMIT` is rejected by a server that goes on, and no cursor with an unread error is lost. -/
def Sound (_ : World) : Event → Prop
  | .commit verdict => verdict = .ok ()
  | .queryStream _ outcome _ _ _ room =>
    room = true ∨ ∀ message, outcome ≠ .server (.error message)
  | _ => True

namespace World

def Ends (world : World) : Event → Prop
  | .commit verdict =>
    world.reply (.commit verdict) ≠ .done ∧ world.lifecycle.activeCursor = false
  | .rollback => world.lifecycle.activeCursor = false
  | .drop => True
  | _ => False

/-- What a guest may rely on in every state of its transaction. -/
structure Atomic (ok : World → Event → Prop) (world : World) : Prop where
  inside : world.resource = some .active → world.backend.status ≠ .idle
  noAutocommit : world.backend.autocommitted = []
  whole : ∀ verdict, ok world (.commit verdict) → world.reply (.commit verdict) = .done →
    (world.next (.commit verdict)).backend.transactions =
      [(world.next (.commit verdict)).backend.succeeded]
  nothing : ∀ event, ok world event → world.Ends event → world.backend.persisted = [] →
    ∀ after, Reach World.next ok (world.next event) after → after.backend.persisted = []

theorem Live.persisted (hlive : world.Live) : world.backend.persisted = [] := by
  simp [Backend.persisted, hlive.block.transactions, hlive.block.autocommitted]

theorem Over.spent (hover : world.Over) : world.Spent := .inl hover.resource

theorem Live.ended (hlive : world.Live) (hverdict : commit = true → verdict = .ok ())
    (hcursor : world.lifecycle.activeCursor = false) :
    let result := world.finishTransaction commit verdict
    result.1.Spent ∧ (result.1.Live ∧ result.2 ≠ .done ∨ result.1.Over ∧
      (result.1.backend.transactions = [] ∧ (result.2 = .done → commit = false) ∨
        commit = true ∧ result.2 = .done ∧
          result.1.backend.transactions = [result.1.backend.succeeded])) := by
  intro result
  rcases hlive.finishTransaction_cases commit verdict with ⟨error, hrefused, hbusy⟩ | ⟨-, hsent⟩
  · have hdiscard := hbusy.resolve_left (by simp [hcursor])
    simp only [result, hrefused]
    exact ⟨.inr (.inr hdiscard), .inl ⟨hlive, by simp⟩⟩
  · simp only [result, hsent, World.terminalCommand]
    split
    next hclean =>
      obtain ⟨hcommit, hunpoisoned⟩ : commit = true ∧ world.lifecycle.isPoisoned = false := by
        simpa using hclean
      subst hcommit
      obtain rfl := hverdict rfl
      rcases hlive.committed hcursor hunpoisoned with ⟨hafter, hreply, hclosed⟩ | hdone
      · exact ⟨.inr (.inl hclosed), .inl ⟨hafter, hreply⟩⟩
      · exact ⟨hdone.1.spent, .inr ⟨hdone.1, .inr ⟨rfl, hdone.2⟩⟩⟩
    next hpoisoned =>
      have hreply : commit = true → world.lifecycle.isPoisoned = true := by
        simpa using hpoisoned
      rcases hlive.rolledBack commit hreply with ⟨hafter, hreply, hclosed⟩ | hdone
      · exact ⟨.inr (.inl hclosed), .inl ⟨hafter, hreply⟩⟩
      · exact ⟨hdone.1.spent, .inr ⟨hdone.1, .inl hdone.2⟩⟩

theorem Live.finish (hlive : world.Live) (hverdict : commit = true → verdict = .ok ()) :
    (world.finishTransaction commit verdict).1.Live ∨
      (world.finishTransaction commit verdict).1.Over := by
  rcases hlive.finishTransaction_cases commit verdict with ⟨error, hrefused, -⟩ | ⟨hcursor, -⟩
  · rw [hrefused]
    exact .inl hlive
  · exact (hlive.ended hverdict hcursor).2.imp And.left And.left

theorem Live.next (hlive : world.Live) {event : Event} (hsound : Sound world event) :
    (world.next event).Live ∨ (world.next event).Over := by
  unfold World.next World.step
  split
  · exact .inl hlive
  cases event with
  | query statement outcome undecodable => exact .inl (hlive.query statement outcome undecodable)
  | execute statement outcome => exact .inl (hlive.execute statement outcome)
  | queryStream statement outcome early rows tracked room =>
    exact .inl (hlive.queryStream statement outcome early rows tracked room hsound)
  | nextBatch rep max => exact .inl (hlive.nextBatch rep max)
  | dropCursor rep => exact hlive.dropCursor rep
  | commit verdict => exact hlive.finish fun _ => hsound
  | rollback => exact hlive.finish (by simp)
  | drop => exact .inr (hlive.released world.released_drop)
  | sever received => exact .inl (hlive.sever received)

theorem Over.next (hover : world.Over) (event : Event) : (world.next event).Over := by
  have hkept := (hover.spent.next event).2
  refine ⟨hkept.resource hover.resource, ?_, ?_⟩
  · rw [hkept.autocommitted]
    exact hover.autocommitted
  · rw [hkept.transactions, hkept.succeeded]
    exact hover.outcome

theorem Over.reply (hover : world.Over) (commit : Bool) (verdict : Verdict) :
    (world.finishTransaction commit verdict).2 ≠ .done := by
  unfold World.finishTransaction
  split
  · simp
  split
  · simp
  split
  · simp
  next hclient => exact absurd (client_eq_ok.mp hclient) hover.resource

end World

theorem live_of_begin {tracked room : Bool}
    (hbegin : beginTransaction tracked room verdict = .ok world) : world.Live := by
  unfold beginTransaction at hbegin
  cases tracked <;> cases verdict <;> cases room <;>
    simp [Backend.begin, Backend.fresh] at hbegin
  subst hbegin
  refine ⟨rfl, ⟨rfl, rfl, by simp, by simp⟩, by simp [TxLifecycle.new], ?_, ?_, by simp⟩
  · intro rep stream hreading
    simp [World.Reading] at hreading
  · intro rep rep' stream stream' hreading
    simp [World.Reading] at hreading

theorem reach_live_or_over {start : World} (hstart : start.Live)
    (hrun : Reach World.next Sound start world) : world.Live ∨ world.Over := by
  refine hrun.invariant (P := fun world => world.Live ∨ world.Over) (.inl hstart) ?_
  intro before event _ hsound hbefore
  rcases hbefore with hlive | hover
  · exact hlive.next hsound
  · exact .inr (hover.next event)

theorem World.next_of_trapped (htrapped : world.trapped = true) (event : Event) :
    world.next event = world := by
  simp [World.next, World.step, htrapped]

section

variable (hlive : world.Live)
include hlive

/-- A live transaction that is ended is spent, with nothing kept unless the commit succeeded. -/
theorem World.Live.ended_nothing (hverdict : commit = true → verdict = .ok ())
    (hcursor : world.lifecycle.activeCursor = false)
    (hreply : commit = true → (world.finishTransaction commit verdict).2 ≠ .done) :
    (world.finishTransaction commit verdict).1.Spent ∧
      (world.finishTransaction commit verdict).1.backend.persisted = [] := by
  obtain ⟨hspent, hafter⟩ := hlive.ended hverdict hcursor
  refine ⟨hspent, ?_⟩
  rcases hafter with ⟨hafter, -⟩ | ⟨hover, ⟨hnone, -⟩ | ⟨hcommit, hdone, -⟩⟩
  · exact hafter.persisted
  · simp [Backend.persisted, hnone, hover.autocommitted]
  · exact absurd hdone (hreply hcommit)

theorem World.Live.nothing {event : Event} (hsound : Sound world event) (hends : world.Ends event) :
    (world.next event).Spent ∧ (world.next event).backend.persisted = [] ∨
      world.trapped = true := by
  by_cases htrapped : world.trapped = true
  · exact .inr htrapped
  · left
    cases event with
    | commit verdict =>
      obtain ⟨hreply, hcursor⟩ := hends
      simp only [World.reply, World.next, World.step, htrapped, World.commit] at hreply ⊢
      exact hlive.ended_nothing (fun _ => hsound) hcursor fun _ => hreply
    | rollback =>
      simp only [World.next, World.step, htrapped, World.rollback]
      exact hlive.ended_nothing (by simp) hends (by simp)
    | drop =>
      simp only [World.next, World.step, htrapped]
      obtain ⟨hresource, hkept⟩ := world.released_drop
      exact ⟨.inl hresource, hkept.persisted.trans hlive.persisted⟩
    | _ => cases hends

theorem World.Live.whole (hsound : Sound world (.commit verdict))
    (hdone : (world.finishTransaction true verdict).2 = .done) :
    (world.finishTransaction true verdict).1.backend.transactions =
      [(world.finishTransaction true verdict).1.backend.succeeded] := by
  rcases hlive.finishTransaction_cases true verdict with ⟨_, hrefused, -⟩ | ⟨hcursor, -⟩
  · rw [hrefused] at hdone
    cases hdone
  · rcases (hlive.ended (fun _ => hsound) hcursor).2 with ⟨-, hnot⟩ | ⟨-, hkept⟩
    · exact absurd hdone hnot
    · rcases hkept with ⟨-, hfalse⟩ | ⟨-, -, hwhole⟩
      · cases hfalse hdone
      · exact hwhole

theorem World.Live.atomic : world.Atomic Sound := by
  refine ⟨fun _ => hlive.block.notIdle, hlive.block.autocommitted, ?_, ?_⟩
  · intro verdict hsound hreply
    by_cases htrapped : world.trapped = true
    · simp [World.reply, World.step, htrapped] at hreply
    · simp only [World.reply, World.next, World.step, htrapped, World.commit] at hreply ⊢
      exact hlive.whole hsound hreply
  · intro event hsound hends _ after hrun
    rcases hlive.nothing hsound hends with ⟨hspent, hnone⟩ | htrapped
    · rw [hspent.reach hrun, hnone]
    · rw [World.next_of_trapped htrapped] at hrun
      have hsame : after = world := by
        refine hrun.invariant (P := fun after => after = world) rfl ?_
        rintro _ event - - rfl
        exact World.next_of_trapped htrapped event
      rw [hsame]
      exact hlive.persisted

end

theorem World.Over.atomic (hover : world.Over) : world.Atomic Sound := by
  refine ⟨fun hactive => absurd hactive hover.resource, hover.autocommitted, ?_, ?_⟩
  · intro verdict _ hreply
    by_cases htrapped : world.trapped = true
    · simp [World.reply, World.step, htrapped] at hreply
    · simp only [World.reply, World.step, htrapped, World.commit] at hreply
      exact absurd hreply (hover.reply true verdict)
  · intro event _ _ hnone after hrun
    obtain ⟨hspent, hkept⟩ := hover.spent.next event
    rw [hspent.reach hrun, hkept.persisted, hnone]

/-- In every run without a rejected `COMMIT` or lost unread stream, a guest transaction is atomic:
its statements run in its block and are kept together or not at all. -/
theorem guest_transaction_atomic {tracked room : Bool} {verdict : Verdict} {start : World}
    (hbegin : beginTransaction tracked room verdict = .ok start)
    (hrun : Reach World.next Sound start world) : world.Atomic Sound := by
  rcases reach_live_or_over (live_of_begin hbegin) hrun with hlive | hover
  · exact hlive.atomic
  · exact hover.atomic

namespace Sample

def insert (row : String) : Event :=
  .execute ⟨"INSERT INTO t VALUES (" ++ row ++ ")", none⟩ (.server (.ok ()))

def begun : World :=
  ⟨⟨.active [], [], [], []⟩, some .active, .new, [], [], false⟩

/-- The commit is rejected for a deferred constraint, and the guest goes on. -/
def rejectedCommit : List Event :=
  [insert "1", .commit (.error "violates foreign key constraint"), insert "2"]

end Sample

open Sample in
theorem committed_pair_is_whole : (World.next (runAll World.next begun [insert "1", insert "2"])
      (.commit (.ok ()))).backend.transactions =
        [["INSERT INTO t VALUES (1)", "INSERT INTO t VALUES (2)"]] := by
  have hrun : Reach World.next Sound begun (runAll World.next begun [insert "1", insert "2"]) :=
    reach_runAll _ ⟨trivial, trivial, trivial⟩
  have hatomic := @guest_transaction_atomic _ true true (.ok ()) begun rfl hrun
  exact hatomic.whole (.ok ()) rfl rfl

open Sample in
/-- After a rejected commit the next statement commits by itself, and the next commit succeeds
without the first statement. -/
theorem rejected_commit_breaks_atomicity : beginTransaction true true (.ok ()) = .ok begun ∧
      (runAll World.next begun rejectedCommit).backend.autocommitted =
        ["INSERT INTO t VALUES (2)"] ∧
      (runAll World.next begun rejectedCommit).reply (.commit (.ok ())) = .done ∧
      ((runAll World.next begun rejectedCommit).next (.commit (.ok ()))).backend.transactions =
        [] := by
  decide

end Wruntime.Engine
