import Mathlib.Data.List.Nodup
import Mathlib.Data.List.Perm.Subperm

/-!
The newest entries of a set of versions. A version is among the newest `k` when
fewer than `k` others are newer, so what is kept by such a rule can be compared
between two sets by counting.
-/

namespace Wruntime.Newest

def newer (versions : List Nat) (x : Nat) : Nat := (versions.filter (x < ·)).length

variable {versions versions' : List Nat} {x k : Nat}

/-- Of versions in descending order, the first `k` are those with fewer than `k`
newer ones. -/
theorem mem_take_iff (hsorted : versions.Pairwise (· > ·)) :
    x ∈ versions.take k ↔ x ∈ versions ∧ newer versions x < k := by
  induction versions generalizing k with
  | nil => simp
  | cons top rest ih =>
    obtain ⟨htop, hrest⟩ := List.pairwise_cons.mp hsorted
    cases k with
    | zero => simp
    | succ k =>
      rw [List.take_succ_cons, List.mem_cons, List.mem_cons, ih hrest]
      by_cases hx : x = top
      · -- Nothing in the rest is newer than the first version.
        have hnone : newer (top :: rest) x = 0 := by
          rw [newer, List.length_eq_zero_iff, List.filter_eq_nil_iff]
          intro y hy
          rcases List.mem_cons.mp hy with rfl | hy
          · simp [hx]
          · have := htop y hy
            simp only [decide_eq_true_eq]
            omega
        simp [hx, hx ▸ hnone]
      · have hcount : x ∈ rest → newer (top :: rest) x = newer rest x + 1 := by
          intro hmem
          have hlt : x < top := htop x hmem
          simp [newer, hlt]
        constructor
        · rintro (hsame | ⟨hmem, hlt⟩)
          · exact absurd hsame hx
          · refine ⟨.inr hmem, ?_⟩
            rw [hcount hmem]
            omega
        · rintro ⟨hsame | hmem, hlt⟩
          · exact absurd hsame hx
          · rw [hcount hmem] at hlt
            exact .inr ⟨hmem, by omega⟩

theorem newer_perm (h : versions.Perm versions') : newer versions x = newer versions' x :=
  (h.filter _).length_eq

theorem newer_mono (hnodup : versions.Nodup) (h : ∀ y ∈ versions, y ∈ versions') :
    newer versions x ≤ newer versions' x := by
  have hfiltered : (versions.filter (x < ·)).Subperm (versions'.filter (x < ·)) := by
    refine (hnodup.filter _).subperm ?_
    intro y hy
    obtain ⟨hmem, hlt⟩ := List.mem_filter.mp hy
    exact List.mem_filter.mpr ⟨h y hmem, hlt⟩
  exact hfiltered.length_le

end Wruntime.Newest
