import Mathlib.Order.Basic

/-!
Paging by key through tables that change between the pages. A page goes from a key down to
another, where the next page starts; what stands in every table meanwhile is not passed over.
-/

namespace Wruntime.Keyset

variable {K : Type*} [Preorder K] {top middle bottom : K} {tables : List (List K)} {keys : List K}

structure Covers (tables : List (List K)) (top bottom : K) (keys : List K) : Prop where
  sorted : keys.Pairwise (· > ·)
  below : ∀ k ∈ keys, k < top
  above : ∀ k ∈ keys, bottom ≤ k
  bounds : bottom ≤ top
  held : ∀ k ∈ keys, ∃ table ∈ tables, k ∈ table
  standing : ∀ k < top, (∀ table ∈ tables, k ∈ table) → k ∈ keys ∨ k < bottom

theorem Covers.nil : Covers [] top top [] where
  sorted := .nil
  below := by simp
  above := by simp
  bounds := le_rfl
  held := by simp
  standing _ hk _ := .inr hk

theorem Covers.append {tables' : List (List K)} {keys' : List K}
    (h : Covers tables top middle keys) (h' : Covers tables' middle bottom keys') :
    Covers (tables ++ tables') top bottom (keys ++ keys') where
  sorted := List.pairwise_append.2
    ⟨h.sorted, h'.sorted, fun x hx y hy => (h'.below y hy).trans_le (h.above x hx)⟩
  below k hk := (List.mem_append.1 hk).elim (h.below k) fun hk => (h'.below k hk).trans_le h.bounds
  above k hk := (List.mem_append.1 hk).elim (fun hk => h'.bounds.trans (h.above k hk)) (h'.above k)
  bounds := h'.bounds.trans h.bounds
  held k hk := by
    rcases List.mem_append.1 hk with hk | hk
    · obtain ⟨table, htable, hk⟩ := h.held k hk
      exact ⟨table, List.mem_append_left _ htable, hk⟩
    · obtain ⟨table, htable, hk⟩ := h'.held k hk
      exact ⟨table, List.mem_append_right _ htable, hk⟩
  standing k hk htables := by
    rw [List.forall_mem_append] at htables
    rcases h.standing k hk htables.1 with hk | hk
    · exact .inl (List.mem_append_left _ hk)
    · exact (h'.standing k hk htables.2).imp_left (List.mem_append_right _)

section Page

variable {table rest init : List K}

/-- A page leaves the `rest` of the table below its last key. -/
theorem Covers.page (hsorted : (keys ++ rest).Pairwise (· > ·))
    (hkeys : ∀ k, k ∈ keys ++ rest ↔ k ∈ table ∧ k < top) (hbounds : bottom ≤ top)
    (habove : ∀ k ∈ keys, bottom ≤ k) (hrest : ∀ k ∈ rest, k < bottom) :
    Covers [table] top bottom keys where
  sorted := (List.pairwise_append.1 hsorted).1
  below k hk := ((hkeys k).1 (List.mem_append_left _ hk)).2
  above := habove
  bounds := hbounds
  held k hk := ⟨table, List.mem_singleton_self _, ((hkeys k).1 (List.mem_append_left _ hk)).1⟩
  standing k hk htable :=
    (List.mem_append.1 ((hkeys k).2 ⟨htable _ (List.mem_singleton_self _), hk⟩)).imp_right (hrest k)

theorem Covers.page_concat (hsorted : (init ++ [bottom] ++ rest).Pairwise (· > ·))
    (hkeys : ∀ k, k ∈ init ++ [bottom] ++ rest ↔ k ∈ table ∧ k < top) :
    Covers [table] top bottom (init ++ [bottom]) := by
  obtain ⟨hpage, _, hrest⟩ := List.pairwise_append.1 hsorted
  refine .page hsorted hkeys ((hkeys bottom).1 (by simp)).2.le (fun k hk => ?_)
    (hrest bottom (by simp))
  rcases List.mem_append.1 hk with hk | hk
  · exact ((List.pairwise_append.1 hpage).2.2 k hk _ (List.mem_singleton_self _)).le
  · exact (List.mem_singleton.1 hk).ge

end Page

end Wruntime.Keyset
