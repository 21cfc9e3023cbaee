import Mathlib.Data.Fintype.Basic
import Mathlib.Data.List.Sort

/-!
Scoped grants and confined listings. A grant restricts some dimensions of a resource to given
values; it covers a resource if it admits all its values, in all dimensions at once. A listing is
confined to a set of rows if it keeps just those: it is then the same for any two tables that agree
on them.
-/

namespace Wruntime.Grants

section Coverage

variable {ι κ : Type*}

/-- The values that a grant admits in each dimension; `none` admits all. -/
abbrev Grant (ι κ : Type*) := ι → Option (List κ)

/-- The values that a resource has in each dimension. -/
abbrev Resource (ι κ : Type*) := ι → List κ

def Covers (grant : Grant ι κ) (resource : Resource ι κ) : Prop :=
  ∀ d, ∀ allowed ∈ grant d, ∀ value ∈ resource d, value ∈ allowed

def Covered (grants : List (Grant ι κ)) (resource : Resource ι κ) : Prop :=
  ∃ grant ∈ grants, Covers grant resource

instance [Fintype ι] [DecidableEq κ] (grant : Grant ι κ) (resource : Resource ι κ) :
    Decidable (Covers grant resource) :=
  inferInstanceAs (Decidable (∀ d, ∀ allowed ∈ grant d, ∀ value ∈ resource d, value ∈ allowed))

instance [Fintype ι] [DecidableEq κ] (grants : List (Grant ι κ)) (resource : Resource ι κ) :
    Decidable (Covered grants resource) :=
  inferInstanceAs (Decidable (∃ grant ∈ grants, Covers grant resource))

theorem Covers.mono {grant : Grant ι κ} {resource part : Resource ι κ}
    (hcovers : Covers grant resource) (hpart : ∀ d, ∀ value ∈ part d, value ∈ resource d) :
    Covers grant part := by
  intro d allowed hallowed value hvalue
  exact hcovers d allowed hallowed value (hpart d value hvalue)

theorem Covered.mono {grants : List (Grant ι κ)} {resource part : Resource ι κ}
    (hcovered : Covered grants resource) (hpart : ∀ d, ∀ value ∈ part d, value ∈ resource d) :
    Covered grants part := by
  obtain ⟨grant, hmem, hcovers⟩ := hcovered
  exact ⟨grant, hmem, hcovers.mono hpart⟩

end Coverage

section Listings

variable {α β : Type*} {keep visible : α → Bool} {rows rows' : List α}

theorem filter_of_confined (hconfined : ∀ row ∈ rows, keep row = visible row) :
    rows.filter keep = rows.filter visible :=
  List.filter_congr hconfined

/-- A listing that keeps what is visible returns the visible rows only if it
keeps nothing else. -/
theorem confined_of_filter (hkeeps : ∀ row ∈ rows, visible row = true → keep row = true)
    (hfilter : rows.filter keep = rows.filter visible) : ∀ row ∈ rows, keep row = visible row := by
  intro row hmem
  rw [Bool.eq_iff_iff]
  constructor
  · intro hkeep
    have hkept : row ∈ rows.filter visible := by
      rw [← hfilter]
      exact List.mem_filter.mpr ⟨hmem, hkeep⟩
    exact (List.mem_filter.mp hkept).2
  · exact hkeeps row hmem

def select [LinearOrder β] (p : α → Bool) (key : α → β) (rows : List α) : List α :=
  (rows.filter p).insertionSort fun a b => key a ≤ key b

private theorem orderedInsert_of_le [LinearOrder β] (key : α → β) (a : α)
    (hle : ∀ b ∈ rows, key a ≤ key b) :
    rows.orderedInsert (fun a b => key a ≤ key b) a = a :: rows := by
  cases rows with
  | nil => rfl
  | cons b rows => simp [List.orderedInsert, hle b List.mem_cons_self]

private theorem filter_orderedInsert [LinearOrder β] (key : α → β) (a : α)
    (hsorted : rows.Pairwise fun a b => key a ≤ key b) :
    (rows.orderedInsert (fun a b => key a ≤ key b) a).filter visible =
      if visible a then (rows.filter visible).orderedInsert (fun a b => key a ≤ key b) a
      else rows.filter visible := by
  induction rows with
  | nil => cases hvisible : visible a <;> simp [hvisible]
  | cons b rows ih =>
    obtain ⟨hfirst, hrest⟩ := List.pairwise_cons.mp hsorted
    by_cases hab : key a ≤ key b
    · -- The new row goes first, and stays in front of the visible rows.
      have hle : ∀ c ∈ (b :: rows).filter visible, key a ≤ key c := by
        intro c hc
        rcases List.mem_cons.mp (List.mem_filter.mp hc).1 with rfl | hc
        · exact hab
        · exact hab.trans (hfirst c hc)
      rw [List.orderedInsert_cons, if_pos hab, List.filter_cons, orderedInsert_of_le key a hle]
    · rw [List.orderedInsert_cons, if_neg hab, List.filter_cons, ih hrest, List.filter_cons]
      cases hvisible : visible b <;> cases visible a <;> simp [hab]

theorem filter_select [LinearOrder β] (p : α → Bool) (key : α → β) (rows : List α) :
    (select p key rows).filter visible = select p key (rows.filter visible) := by
  have hcomm : (rows.filter visible).filter p = (rows.filter p).filter visible := by
    simp only [List.filter_filter, Bool.and_comm]
  rw [select, select, hcomm]
  induction rows.filter p with
  | nil => rfl
  | cons a rows ih =>
    have hsorted := List.pairwise_insertionSort (fun a b : α => key a ≤ key b) rows
    rw [List.insertionSort_cons, filter_orderedInsert key a hsorted, ih, List.filter_cons]
    split
    · rw [List.insertionSort_cons]
    · rfl

end Listings

end Wruntime.Grants
