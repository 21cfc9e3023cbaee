import Mathlib.Data.List.Basic

/-!
Three-valued conditions. A comparison with `NULL` is neither true nor false, and a
row is selected only if its condition is true; so a count of offending rows passes
over the rows whose columns are not filled in yet.
-/

namespace Wruntime.Sql

variable {α : Type}

/-- The value of a condition: `none` is unknown. -/
abbrev Truth := Option Bool

/-- The operator `!=` on nullable columns. -/
def ne [DecidableEq α] (a b : Option α) : Truth :=
  match a, b with
  | some x, some y => some (decide (x ≠ y))
  | _, _ => none

/-- `OR` is true as soon as one side is. -/
def or : Truth → Truth → Truth
  | some true, _ => some true
  | _, some true => some true
  | some false, some false => some false
  | _, _ => none

def isTrue (t : Truth) : Bool := t = some true

/-- `SELECT COUNT(*) … WHERE`. -/
def countWhere (p : α → Truth) (rows : List α) : Nat :=
  rows.countP fun row => isTrue (p row)

@[simp] theorem isTrue_or (a b : Truth) : isTrue (or a b) = (isTrue a || isTrue b) := by
  rcases a with _ | ⟨_ | _⟩ <;> rcases b with _ | ⟨_ | _⟩ <;> rfl

@[simp] theorem isTrue_ne_some [DecidableEq α] (x y : α) :
    isTrue (ne (some x) (some y)) = decide (x ≠ y) := by
  simp [isTrue, ne]

@[simp] theorem isTrue_some (b : Bool) : isTrue (some b) = b := by
  cases b <;> rfl

theorem countWhere_eq_zero {p : α → Truth} {rows : List α} :
    countWhere p rows = 0 ↔ ∀ row ∈ rows, isTrue (p row) = false := by
  simp [countWhere, List.countP_eq_zero]

end Wruntime.Sql
