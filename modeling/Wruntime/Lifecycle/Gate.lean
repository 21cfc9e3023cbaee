import Wruntime.Lib.Runs

/-!
The admission gate. Threads enter it, drop their guards, open and close it and wait until it is
idle. Each load, store or read-modify-write of its atomics is one step, in any order. A waiting
thread may be woken at any time.
-/

namespace Wruntime.Lifecycle

open Runs

inductive Call
  | tryEnter | openGate | close | waitForIdle

/-- Where a thread stands, by the access that is its next step. -/
inductive Point
  /-- The loads of `open` in `try_enter` with `fetch_add` between them, and the `fetch_sub` of a
  refused call. -/
  | loading | adding | reloading | refused
  | guarded
  /-- The stores of `open` and `close`, and the load that `close` ends with. -/
  | opening | closing | closed
  /-- The loads of `wait_for_idle`, which sleeps after the second. -/
  | counting | recounting | sleeping | overdue
  /-- The call has returned; `idle` is the `Ok` of `wait_for_idle`. -/
  | returned | idle
  deriving DecidableEq

def Call.point : Call → Point
  | .tryEnter => .loading
  | .openGate => .opening
  | .close => .closing
  | .waitForIdle => .counting

/-- A new thread makes a call, or a thread takes its next step. -/
inductive Event
  | start (call : Call)
  | advance (thread : Nat) (late : Bool)

structure Gate where
  isOpen : Bool
  inFlight : Int
  threads : List Point

namespace Gate

/-- `AdmissionGate::closed`. -/
def initial : Gate := ⟨false, 0, []⟩

/-- The step of a thread at a point; a sleeping thread may find its deadline over. -/
def step (g : Gate) (late : Bool) : Point → Bool × Int × Point
  | .loading => (g.isOpen, g.inFlight, if g.isOpen then .adding else .returned)
  | .adding => (g.isOpen, g.inFlight + 1, .reloading)
  | .reloading => (g.isOpen, g.inFlight, if g.isOpen then .guarded else .refused)
  | .refused | .guarded => (g.isOpen, g.inFlight - 1, .returned)
  | .opening => (true, g.inFlight, .returned)
  | .closing => (false, g.inFlight, .closed)
  | .counting => (g.isOpen, g.inFlight, if g.inFlight = 0 then .idle else .recounting)
  | .recounting => (g.isOpen, g.inFlight, if g.inFlight = 0 then .idle else .sleeping)
  | .sleeping => (g.isOpen, g.inFlight, if late then .overdue else .counting)
  | .closed | .overdue | .returned => (g.isOpen, g.inFlight, .returned)
  | .idle => (g.isOpen, g.inFlight, .idle)

def next (g : Gate) : Event → Gate
  | .start call => { g with threads := g.threads ++ [call.point] }
  | .advance i late =>
    match g.threads[i]? with
    | none => g
    | some p =>
      let (isOpen, inFlight, q) := g.step late p
      ⟨isOpen, inFlight, g.threads.set i q⟩

def guards (g : Gate) : Nat := g.threads.count .guarded

/-- The calls that have counted themselves and have neither a guard nor taken it back. -/
def deciding (g : Gate) : Nat := g.threads.count .reloading + g.threads.count .refused

def StaysShut (g : Gate) : Event → Prop
  | .start _ => True
  | .advance i _ => g.threads[i]? ≠ some .opening

variable {g t u : Gate} {event : Event}

def isCounted (p : Point) : Bool := p = .guarded || p = .reloading || p = .refused

theorem countP_isCounted (threads : List Point) : threads.countP isCounted =
    threads.count .guarded + (threads.count .reloading + threads.count .refused) := by
  induction threads with
  | nil => rfl
  | cons p threads ih =>
    cases p <;> simp [isCounted] <;> omega

/-- A step counts its own thread, a shut gate issues no guard, and only a counter of 0 ends a
wait. -/
theorem step_spec (g : Gate) (late : Bool) (p : Point) : (g.step late p).2.1 + (isCounted p).toInt =
        g.inFlight + (isCounted (g.step late p).2.2).toInt ∧ (g.isOpen = false → p ≠ .opening →
        (g.step late p).1 = false ∧ (g.step late p).2.2 ≠ .guarded) ∧
      ((g.step late p).2.2 = .idle → p = .idle ∨ g.inFlight = 0) := by
  cases p <;> grind [step, isCounted]

theorem next_advance {i : Nat} {late : Bool} {p : Point} (hp : g.threads[i]? = some p) :
    g.next (.advance i late) =
      ⟨(g.step late p).1, (g.step late p).2.1, g.threads.set i (g.step late p).2.2⟩ := by
  simp only [next, hp]

def Counts (g : Gate) : Prop := g.inFlight = g.threads.countP isCounted

theorem Counts.next (h : g.Counts) (event : Event) : (g.next event).Counts := by
  cases event with
  | start call => cases call <;> simpa [Counts, Gate.next, Call.point, isCounted] using h
  | advance i late =>
    cases hp : g.threads[i]? with
    | none => simpa only [Gate.next, hp] using h
    | some p =>
      obtain ⟨hi, rfl⟩ := List.getElem?_eq_some_iff.1 hp
      obtain ⟨hstep, _⟩ := step_spec g late g.threads[i]
      have hpos : isCounted g.threads[i] = true → 0 < g.threads.countP isCounted :=
        fun hcounted => List.countP_pos_iff.2 ⟨_, List.getElem_mem hi, hcounted⟩
      rw [next_advance hp, Counts, List.countP_set hi]
      rw [Counts] at h
      grind

def Drained (g : Gate) : Prop := g.isOpen = false ∧ .guarded ∉ g.threads

theorem isOpen_next (hopen : g.isOpen = false) (hshut : g.StaysShut event) :
    (g.next event).isOpen = false := by
  cases event with
  | start call => exact hopen
  | advance i late =>
    cases hp : g.threads[i]? with
    | none => simpa only [next, hp] using hopen
    | some p =>
      rw [next_advance hp]
      exact ((step_spec g late p).2.1 hopen fun h => hshut (h ▸ hp)).1

theorem Drained.next (h : g.Drained) (hshut : g.StaysShut event) : (g.next event).Drained := by
  refine ⟨isOpen_next h.1 hshut, ?_⟩
  cases event with
  | start call => cases call <;> simp [Gate.next, Call.point, h.2]
  | advance i late =>
    cases hp : g.threads[i]? with
    | none => simpa only [Gate.next, hp] using h.2
    | some p =>
      rw [next_advance hp]
      intro hmem
      rcases List.mem_or_eq_of_mem_set hmem with hold | heq
      · exact h.2 hold
      · exact ((step_spec g late p).2.1 h.1 fun h => hshut (h ▸ hp)).2 heq.symm

def Idles (g : Gate) (j : Nat) : Prop :=
  g.threads[j]? ≠ some .idle ∧ (g.next (.advance j false)).threads[j]? = some .idle

theorem Idles.inFlight {j : Nat} (h : g.Idles j) : g.inFlight = 0 := by
  obtain ⟨hbefore, hidle⟩ := h
  cases hp : g.threads[j]? with
  | none => simp [next, hp] at hidle
  | some p =>
    obtain ⟨hj, _⟩ := List.getElem?_eq_some_iff.1 hp
    rw [next_advance hp, List.getElem?_set_self hj] at hidle
    exact ((step_spec g false p).2.2 (Option.some.inj hidle)).resolve_left fun h =>
      hbefore (h ▸ hp)

/-- The counter is the number of live guards and undecided calls. Once `wait_for_idle` returns after
a `close` that no `open` follows, there are no guards. -/
theorem gate_drains (hg : Reach next (fun _ _ => True) initial g) :
    g.inFlight = g.guards + g.deciding ∧ 0 ≤ g.inFlight ∧ ∀ i t j u, g.threads[i]? = some .closing →
      Reach next StaysShut (g.next (.advance i false)) t → t.Idles j →
      Reach next StaysShut t u → u.guards = 0 := by
  have hcounts : ∀ {t}, Reach next (fun _ _ => True) initial t → t.Counts := fun ht =>
    ht.invariant (P := Counts) (show Counts initial from rfl) fun _ event _ _ h => h.next event
  have hnumber := hcounts hg
  rw [Counts, countP_isCounted] at hnumber
  refine ⟨by rw [hnumber, guards, deciding]; push_cast; rfl, by omega, ?_⟩
  intro i t j u hclosing hshut hidles hu
  have hclosed : (g.next (.advance i false)).isOpen = false := by rw [next_advance hclosing]; rfl
  have hopen := hshut.invariant (P := fun t => t.isOpen = false) hclosed
    fun _ _ _ hok h => isOpen_next h hok
  have hzero := hcounts ((hg.step trivial).trans (hshut.mono fun _ _ _ => trivial))
  rw [Counts, hidles.inFlight] at hzero
  have hdrained : t.Drained := ⟨hopen, fun hmem => by
    have hpos := List.countP_pos_iff.2 ⟨_, hmem, (rfl : isCounted .guarded = true)⟩
    omega⟩
  have hafter := hu.invariant (P := Drained) hdrained fun _ _ _ hok h => h.next hok
  exact List.count_eq_zero.2 hafter.2

/-- A caller that saw the gate open adds itself after the wait, and gets no guard. -/
theorem late_caller_refused :
    let step (i : Nat) : Event := .advance i false
    let g := runAll next initial [.start .openGate, step 0, .start .tryEnter, .start .tryEnter,
      step 1, step 1, step 1, step 2, .start .close]
    let t := runAll next (g.next (step 3)) [step 1, .start .waitForIdle]
    let u := runAll next t [step 4, step 2, step 2]
    g.guards = 1 ∧ t.Idles 4 ∧ u.inFlight = 1 ∧ u.guards = 0 := by
  refine ⟨by decide, by unfold Idles; decide, by decide, ?_⟩
  exact (gate_drains (reach_runAll_any _ _)).2.2 3 _ 4 _ (by decide)
    (reach_runAll _ (by simp [AllOk, StaysShut]; decide)) (by unfold Idles; decide)
    (reach_runAll _ (by simp [AllOk, StaysShut]; decide))

end Gate

end Wruntime.Lifecycle
