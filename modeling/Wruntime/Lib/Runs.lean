import Mathlib.Logic.Relation
import Mathlib.Tactic.Common

/-!
Runs of a deterministic machine under arbitrary inputs. `Reach next ok start` is the set of states
of runs from `start` whose inputs each meet `ok` in the state they are applied to. Proofs about runs
use the rules below.
-/

namespace Wruntime.Runs

variable {σ ι : Type*}
variable {P : σ → ι → Prop}

inductive Reach (next : σ → ι → σ) (ok : σ → ι → Prop) (start : σ) : σ → Prop
  | refl : Reach next ok start start
  | step {s : σ} {i : ι} :
      Reach next ok start s → ok s i → Reach next ok start (next s i)

variable {next : σ → ι → σ} {ok ok' : σ → ι → Prop} {start s t : σ}

theorem Reach.single {i : ι} (hok : ok s i) : Reach next ok s (next s i) :=
  .step .refl hok

theorem Reach.trans (hst : Reach next ok start s) (htu : Reach next ok s t) :
    Reach next ok start t := by
  induction htu with
  | refl => exact hst
  | step _ hok ih => exact .step ih hok

theorem Reach.mono (hweaker : ∀ s i, ok s i → ok' s i)
    (hreach : Reach next ok start s) : Reach next ok' start s := by
  induction hreach with
  | refl => exact .refl
  | step _ hok ih => exact .step ih (hweaker _ _ hok)

/-- What holds at the start and is kept by every allowed input holds in every reachable state. -/
theorem Reach.invariant {P : σ → Prop} (hstart : P start)
    (hstep : ∀ s i, Reach next ok start s → ok s i → P s → P (next s i))
    (hreach : Reach next ok start s) : P s := by
  induction hreach with
  | refl => exact hstart
  | step hprev hok ih => exact hstep _ _ hprev hok ih

/-- A reflexive, transitive relation that holds across every step holds across a run. -/
theorem Reach.related {R : σ → σ → Prop} (hrefl : ∀ s, R s s)
    (htrans : ∀ {a b c}, R a b → R b c → R a c)
    (hstep : ∀ s i, Reach next ok start s → ok s i → R s (next s i))
    (hreach : Reach next ok start s) : R start s := by
  induction hreach with
  | refl => exact hrefl _
  | step hprev hok ih => exact htrans ih (hstep _ _ hprev hok)

/-- A property that a run loses is lost by one of its steps. -/
theorem Reach.crossing {P : σ → Prop} (hstart : P start) (hend : ¬P s)
    (hreach : Reach next ok start s) : ∃ t i, Reach next ok start t ∧ ok t i ∧ P t ∧ ¬P (next t i) ∧
      Reach next ok (next t i) s := by
  induction hreach with
  | refl => exact absurd hstart hend
  | @step s i hprev hok ih =>
    by_cases hs : P s
    · exact ⟨s, i, hprev, hok, hs, hend, .refl⟩
    · obtain ⟨t, j, ht, hj, hPt, hnot, hrest⟩ := ih hs
      exact ⟨t, j, ht, hj, hPt, hnot, hrest.step hok⟩

/-- Some step of a run from `start` to `later` meets `P`. -/
def Between (next : σ → ι → σ) (ok : σ → ι → Prop) (P : σ → ι → Prop) (start later : σ) :
    Prop :=
  ∃ s i, Reach next ok start s ∧ ok s i ∧ P s i ∧ Reach next ok (next s i) later

theorem Between.last {i : ι} (hreach : Reach next ok start s) (hok : ok s i) (hP : P s i) :
    Between next ok P start (next s i) :=
  ⟨s, i, hreach, hok, hP, .refl⟩

theorem Between.extend (h : Between next ok P start s) (hreach : Reach next ok s t) :
    Between next ok P start t := by
  obtain ⟨u, i, hu, hok, hP, hrest⟩ := h
  exact ⟨u, i, hu, hok, hP, hrest.trans hreach⟩

def runAll (next : σ → ι → σ) : σ → List ι → σ
  | s, [] => s
  | s, i :: is => runAll next (next s i) is

def AllOk (next : σ → ι → σ) (ok : σ → ι → Prop) : σ → List ι → Prop
  | _, [] => True
  | s, i :: is => ok s i ∧ AllOk next ok (next s i) is

instance AllOk.decidable [∀ s i, Decidable (ok s i)] :
    (s : σ) → (is : List ι) → Decidable (AllOk next ok s is)
  | _, [] => isTrue trivial
  | s, i :: is =>
    have : Decidable (AllOk next ok (next s i) is) := AllOk.decidable _ _
    inferInstanceAs (Decidable (ok s i ∧ AllOk next ok (next s i) is))

theorem reach_runAll_any (s : σ) (is : List ι) :
    Reach next (fun _ _ => True) s (runAll next s is) := by
  induction is generalizing s with
  | nil => exact .refl
  | cons i is ih => exact (Reach.single trivial).trans (ih (next s i))

theorem reach_runAll (is : List ι) (hok : AllOk next ok s is) :
    Reach next ok s (runAll next s is) := by
  induction is generalizing s with
  | nil => exact .refl
  | cons i is ih => exact (Reach.single hok.1).trans (ih hok.2)

theorem runAll_append (s : σ) (is js : List ι) :
    runAll next s (is ++ js) = runAll next (runAll next s is) js := by
  induction is generalizing s with
  | nil => rfl
  | cons i is ih => exact ih (next s i)

theorem allOk_append {is js : List ι} : AllOk next ok s (is ++ js) ↔
      AllOk next ok s is ∧ AllOk next ok (runAll next s is) js := by
  induction is generalizing s with
  | nil => simp [AllOk, runAll]
  | cons i is ih => simp [AllOk, runAll, ih, and_assoc]

/-- One of the inputs met `P` in the state it was applied to. -/
def Happened (next : σ → ι → σ) (P : σ → ι → Prop) (start : σ) (inputs : List ι) : Prop :=
  ∃ before i after, inputs = before ++ i :: after ∧ P (runAll next start before) i

theorem Happened.last {is : List ι} {i : ι} (h : P (runAll next start is) i) :
    Happened next P start (is ++ [i]) :=
  ⟨is, i, [], rfl, h⟩

theorem Happened.more {is : List ι} (js : List ι) (h : Happened next P start is) :
    Happened next P start (is ++ js) := by
  obtain ⟨before, i, after, rfl, hP⟩ := h
  exact ⟨before, i, after ++ js, by simp, hP⟩

/-- Inputs that are each chosen in the state they are applied to. -/
def runScript (next : σ → ι → σ) : σ → List (σ → ι) → σ
  | s, [] => s
  | s, choose :: script => runScript next (next s (choose s)) script

def ScriptOk (next : σ → ι → σ) (ok : σ → ι → Prop) : σ → List (σ → ι) → Prop
  | _, [] => True
  | s, choose :: script => ok s (choose s) ∧ ScriptOk next ok (next s (choose s)) script

instance ScriptOk.decidable [∀ s i, Decidable (ok s i)] :
    (s : σ) → (script : List (σ → ι)) → Decidable (ScriptOk next ok s script)
  | _, [] => isTrue trivial
  | s, choose :: script =>
    have : Decidable (ScriptOk next ok (next s (choose s)) script) := ScriptOk.decidable _ _
    inferInstanceAs (Decidable (ok s (choose s) ∧ ScriptOk next ok (next s (choose s)) script))

theorem reach_runScript (script : List (σ → ι)) (hok : ScriptOk next ok s script) :
    Reach next ok s (runScript next s script) := by
  induction script generalizing s with
  | nil => exact .refl
  | cons choose script ih => exact (Reach.single hok.1).trans (ih hok.2)

theorem reach_forEach {α : Type*} {P : σ → Prop} (input : α → ι) (xs : List α)
    (hstep : ∀ s, ∀ x ∈ xs, P s → ok s (input x) ∧ P (next s (input x))) (hs : P s) :
    ∃ t, Reach next ok s t ∧ P t := by
  induction xs generalizing s with
  | nil => exact ⟨s, .refl, hs⟩
  | cons x xs ih =>
    obtain ⟨hok, hnext⟩ := hstep s x List.mem_cons_self hs
    obtain ⟨t, hreach, ht⟩ :=
      ih (fun s y hy => hstep s y (List.mem_cons_of_mem _ hy)) hnext
    exact ⟨t, (Reach.single hok).trans hreach, ht⟩

end Wruntime.Runs
