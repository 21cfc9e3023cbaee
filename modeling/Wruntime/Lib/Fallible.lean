import Mathlib.Algebra.Group.Nat.Defs
import Mathlib.Tactic.Common

/-!
Fallible straight-line code. A function that checks its input and returns early with an error is a
chain of binds in `Except`; the lemmas take the chain apart into the facts under which it returns a
value, so that no later proof unfolds a `do` block.
-/

namespace Wruntime.Fallible

universe u

variable {ε α β : Type u}
variable {cond : Prop} {error e : ε} {x : Except ε α} {a : α} {f : α → Except ε β} {b b' : β}
  {items : List α}

/-- Go on only if `cond` holds, and fail with `error` otherwise. -/
def ensure (cond : Prop) [Decidable cond] (error : ε) : Except ε PUnit.{u + 1} :=
  if cond then .ok ⟨⟩ else .error error

/-- Go on with the value, and fail with `error` when there is none. -/
def required (value : Option α) (error : ε) : Except ε α :=
  match value with
  | some a => .ok a
  | none => .error error

@[simp] theorem ensure_eq_ok [Decidable cond] {x : PUnit.{u + 1}} :
    ensure cond error = .ok x ↔ cond := by
  unfold ensure
  split <;> simp_all

@[simp] theorem required_eq_ok {value : Option α} :
    required value error = .ok a ↔ value = some a := by
  cases value <;> simp [required]

@[simp] theorem bind_eq_ok : x >>= f = .ok b ↔ ∃ a, x = .ok a ∧ f a = .ok b := by
  cases x with
  | error e | ok a => simp [bind, Except.bind]

@[simp] theorem pure_eq_ok {b : α} : (pure a : Except ε α) = .ok b ↔ a = b := by
  simp [pure, Except.pure]

@[simp] theorem map_eq_ok {f : α → β} : f <$> x = .ok b ↔ ∃ a, x = .ok a ∧ f a = b := by
  cases x with
  | error e | ok a => simp [Functor.map, Except.map]

@[simp] theorem mapError_eq_ok {ε' : Type u} {f : ε → ε'} : x.mapError f = .ok a ↔ x = .ok a := by
  cases x with
  | error e | ok a => simp [Except.mapError]

theorem toOption_eq_some : x.toOption = some a ↔ x = .ok a := by
  cases x with
  | error e | ok b => simp [Except.toOption]

theorem ensure_eq_error [Decidable cond] :
    (ensure cond error : Except ε PUnit.{u + 1}) = .error e ↔ ¬cond ∧ error = e := by
  unfold ensure
  split <;> simp_all

theorem required_eq_error {value : Option α} :
    required value error = .error e ↔ value = none ∧ error = e := by
  cases value <;> simp [required]

theorem bind_eq_error : x >>= f = .error e ↔ x = .error e ∨ ∃ a, x = .ok a ∧ f a = .error e := by
  cases x with
  | error e | ok a => simp [bind, Except.bind]

theorem mapError_eq_error {ε' : Type u} {f : ε → ε'} {e : ε'} :
    x.mapError f = .error e ↔ ∃ e', x = .error e' ∧ f e' = e := by
  cases x with
  | error e | ok a => simp [Except.mapError]

theorem bind_of_ok (h : x = .ok a) : x >>= f = f a := by
  rw [h]
  rfl

theorem bind_of_error (h : x = .error e) : x >>= f = .error e := by
  rw [h]
  rfl

@[simp] theorem ensure_bind_of_true [Decidable cond] {f : PUnit.{u + 1} → Except ε β}
    (hcond : cond) : ensure cond error >>= f = f ⟨⟩ := by
  simp [ensure, hcond, bind, Except.bind]

theorem ensure_bind_of_false [Decidable cond] {f : PUnit.{u + 1} → Except ε β} (hcond : ¬cond) :
    ensure cond error >>= f = .error error := by
  simp [ensure, hcond, bind, Except.bind]

theorem forM_eq_ok {f : α → Except ε PUnit.{u + 1}} :
    items.forM f = .ok ⟨⟩ ↔ ∀ a ∈ items, f a = .ok ⟨⟩ := by
  induction items with
  | nil => simp [List.forM, pure, Except.pure]
  | cons item items ih =>
    rw [List.forM, bind_eq_ok, List.forall_mem_cons, ← ih]
    constructor
    · rintro ⟨⟨⟩, hitem, hrest⟩
      exact ⟨hitem, hrest⟩
    · rintro ⟨hitem, hrest⟩
      exact ⟨⟨⟩, hitem, hrest⟩

/-- A loop that returns early on an error: what every iteration keeps holds of the
result. -/
theorem foldlM_invariant {f : β → α → Except ε β} {P : β → Prop}
    (hstep : ∀ b a b', P b → f b a = .ok b' → P b') (hinit : P b)
    (hfold : items.foldlM f b = .ok b') : P b' := by
  induction items generalizing b with
  | nil =>
    rw [List.foldlM_nil, pure_eq_ok] at hfold
    exact hfold ▸ hinit
  | cons a items ih =>
    rw [List.foldlM_cons, bind_eq_ok] at hfold
    obtain ⟨next, hnext, hrest⟩ := hfold
    exact ih (hstep b a next hinit hnext) hrest

theorem exists_of_foldlM {f : β → α → Except ε β} (hfold : items.foldlM f b = .ok b') :
    ∀ a ∈ items, ∃ c c', f c a = .ok c' := by
  induction items generalizing b with
  | nil => simp
  | cons a items ih =>
    rw [List.foldlM_cons, bind_eq_ok] at hfold
    obtain ⟨next, hnext, hrest⟩ := hfold
    exact List.forall_mem_cons.2 ⟨⟨b, next, hnext⟩, ih hrest⟩

/-- A loop that adds the key of every item to a set, and refuses a key it has, has
distinct keys. -/
theorem nodup_of_foldlM {κ : Type*} {f : β → α → Except ε β} {key : α → κ} {seen : β → List κ}
    (hstep : ∀ b a b', f b a = .ok b' → key a ∉ seen b ∧ seen b' = key a :: seen b)
    (hfold : items.foldlM f b = .ok b') : (items.map key).Nodup ∧ ∀ a ∈ items, key a ∉ seen b := by
  induction items generalizing b with
  | nil => simp
  | cons a items ih =>
    rw [List.foldlM_cons, bind_eq_ok] at hfold
    obtain ⟨next, hnext, hrest⟩ := hfold
    obtain ⟨hnew, hseen⟩ := hstep b a next hnext
    obtain ⟨hnodup, hfresh⟩ := ih hrest
    rw [hseen] at hfresh
    refine ⟨?_, ?_⟩
    · refine List.nodup_cons.2 ⟨?_, hnodup⟩
      rintro hmem
      obtain ⟨other, hother, hkey⟩ := List.mem_map.1 hmem
      exact hfresh other hother (hkey ▸ List.mem_cons_self)
    · intro other hother
      rcases List.mem_cons.1 hother with rfl | hother
      · exact hnew
      · exact fun hold => hfresh other hother (List.mem_cons_of_mem _ hold)

end Wruntime.Fallible
