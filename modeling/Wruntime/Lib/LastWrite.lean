import Wruntime.Lib.Fallible

/-!
Writes in order, the later one winning. A sequence of keyed writes leaves at a key the value of the
last item that writes there; a store whose step is such a write is read through that value.
-/

namespace Wruntime.LastWrite

variable {α κ ν σ : Type}

section Definitions

variable [DecidableEq κ]

def writeAt (write : α → Option (κ × ν)) (key : κ) (item : α) : Option ν :=
  (write item).bind fun (at_, value) => if at_ = key then some value else none

def lastAt (write : α → Option (κ × ν)) (key : κ) : List α → Option ν
  | [] => none
  | item :: rest => (lastAt write key rest).or (writeAt write key item)

end Definitions

variable [DecidableEq κ] {write : α → Option (κ × ν)} {key : κ} {value : ν} {item : α}
  {items : List α}

theorem writeAt_eq_some : writeAt write key item = some value ↔ write item = some (key, value) := by
  simp only [writeAt, Option.bind_eq_some_iff, Prod.exists]
  constructor
  · rintro ⟨at_, left, hwrite, hleft⟩
    split at hleft <;> simp_all
  · intro hwrite
    exact ⟨key, value, hwrite, by simp⟩

theorem writeAt_eq_none : writeAt write key item = none ↔ ∀ value, write item ≠ some (key, value) := by
  rw [Option.eq_none_iff_forall_ne_some]
  exact forall_congr' fun value => not_congr writeAt_eq_some

theorem lastAt_append (items items' : List α) :
    lastAt write key (items ++ items') = (lastAt write key items').or (lastAt write key items) := by
  induction items with
  | nil => simp [lastAt]
  | cons item items ih => simp [lastAt, ih, Option.or_assoc]

theorem lastAt_eq_none :
    lastAt write key items = none ↔ ∀ item ∈ items, ∀ value, write item ≠ some (key, value) := by
  induction items with
  | nil => simp [lastAt]
  | cons item items ih =>
    rw [lastAt, Option.or_eq_none_iff, ih, writeAt_eq_none, List.forall_mem_cons, and_comm]

/-- The value at a key is the value of an item after which no other writes there. -/
theorem lastAt_eq_some : lastAt write key items = some value ↔
      ∃ before item after, items = before ++ item :: after ∧
        write item = some (key, value) ∧ lastAt write key after = none := by
  induction items with
  | nil => simp [lastAt]
  | cons head rest ih =>
    rw [lastAt, Option.or_eq_some_iff, ih, writeAt_eq_some]
    constructor
    · rintro (⟨before, item, after, rfl, hitem, hafter⟩ | ⟨hnone, hhead⟩)
      · exact ⟨head :: before, item, after, rfl, hitem, hafter⟩
      · exact ⟨[], head, rest, rfl, hhead, hnone⟩
    · rintro ⟨before, item, after, heq, hitem, hafter⟩
      cases before with
      | nil =>
        obtain ⟨rfl, rfl⟩ := List.cons.inj heq
        exact .inr ⟨hafter, hitem⟩
      | cons first before =>
        obtain ⟨rfl, rfl⟩ := List.cons.inj heq
        exact .inl ⟨before, item, after, rfl, hitem, hafter⟩

theorem lastAt_isSome_of_mem (hitem : item ∈ items) (hwrite : write item = some (key, value)) :
    ∃ left, lastAt write key items = some left := by
  rw [← Option.isSome_iff_exists, Option.isSome_iff_ne_none]
  intro hnone
  exact lastAt_eq_none.mp hnone item hitem value hwrite

theorem lastAt_map {ν' : Type} (f : ν → ν') (items : List α) :
    lastAt (fun item => (write item).map fun (at_, value) => (at_, f value)) key items =
      (lastAt write key items).map f := by
  induction items with
  | nil => rfl
  | cons item items ih =>
    have hitem : writeAt (fun item => (write item).map fun (at_, value) => (at_, f value)) key item
        = (writeAt write key item).map f := by
      simp only [writeAt]
      cases write item with
      | none => rfl
      | some pair => by_cases hkey : pair.1 = key <;> simp [hkey]
    rw [lastAt, lastAt, ih, hitem]
    cases lastAt write key items <;> simp

/-- A store whose every step is such a write is read through the last one. -/
theorem foldl_get (write : α → Option (κ × ν)) (key : κ) (get : σ → Option ν)
    {step : σ → α → σ} (items : List α) (start : σ) (hstep : ∀ store, ∀ item ∈ items,
      get (step store item) = (writeAt write key item).or (get store)) :
    get (items.foldl step start) = (lastAt write key items).or (get start) := by
  induction items generalizing start with
  | nil => simp [lastAt]
  | cons item items ih =>
    have hhead := hstep start item List.mem_cons_self
    have hrest := ih (step start item)
      fun store item hitem => hstep store item (List.mem_cons_of_mem _ hitem)
    rw [List.foldl_cons, hrest, hhead, lastAt, Option.or_assoc]

/-- The same for a store whose steps may fail, with an invariant that makes its steps
writes. -/
theorem foldlM_get (get : σ → Option ν) {step : σ → α → Option σ} {Inv : σ → Prop}
    {start final : σ} (hstart : Inv start) (hrun : items.foldlM step start = some final)
    (hstep : ∀ store next, ∀ item ∈ items, Inv store → step store item = some next →
      Inv next ∧ get next = (writeAt write key item).or (get store)) :
    Inv final ∧ get final = (lastAt write key items).or (get start) := by
  induction items generalizing start with
  | nil =>
    obtain rfl : start = final := by simpa using hrun
    exact ⟨hstart, by simp [lastAt]⟩
  | cons item items ih =>
    rw [List.foldlM_cons, Option.bind_eq_bind, Option.bind_eq_some_iff] at hrun
    obtain ⟨next, hnext, hrest⟩ := hrun
    obtain ⟨hinv, hget⟩ := hstep start next item List.mem_cons_self hstart hnext
    obtain ⟨hfinal, hlast⟩ := ih hinv hrest
      fun store next item hitem => hstep store next item (List.mem_cons_of_mem _ hitem)
    exact ⟨hfinal, by rw [hlast, hget, lastAt, Option.or_assoc]⟩

/-- A loop that computes a value for every item and stores it under the item's key. -/
theorem foldlM_update {ε : Type} {f : α → Except ε ν} {keyOf : α → κ} {start final : κ → Option ν}
    (h : items.foldlM (fun store item => do
      let value ← f item
      pure (Function.update store (keyOf item) (some value))) start = .ok final) (key : κ) :
    final key =
      (lastAt (fun item => (f item).toOption.map (keyOf item, ·)) key items).or (start key) := by
  induction items generalizing start with
  | nil => simp [← Fallible.pure_eq_ok.mp h, lastAt]
  | cons item items ih =>
    simp only [List.foldlM_cons, Fallible.bind_eq_ok, Fallible.pure_eq_ok] at h
    obtain ⟨_, ⟨value, hvalue, rfl⟩, h⟩ := h
    rw [ih h, lastAt, Option.or_assoc]
    by_cases hkey : keyOf item = key
    · simp [writeAt, hvalue, Except.toOption, hkey]
    · simp [writeAt, hvalue, Except.toOption, hkey, Function.update_of_ne (Ne.symm hkey)]

end Wruntime.LastWrite
