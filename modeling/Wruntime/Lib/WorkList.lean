import Mathlib.Data.List.Pairwise
import Wruntime.Lib.Table

/-!
Work lists that are processed one item at a time. `Sequential done fresh items` says that an item is
only touched after every item before it is done. Writes on the first item not done keep it, and so
do writes that do not change which items are done or fresh.
-/

namespace Wruntime.WorkList

open Table

variable {α κ : Type*}
variable {items : List α} {done fresh : α → Prop}

def Sequential (done fresh : α → Prop) (items : List α) : Prop :=
  items.Pairwise fun a b => ¬fresh b → done a

section

variable {done fresh : α → Prop} {items : List α}

theorem sequential_of_fresh (hfresh : ∀ item ∈ items, fresh item) :
    Sequential done fresh items := by
  refine List.pairwise_iff_forall_sublist.2 fun {a b} hsub hnot => ?_
  exact absurd (hfresh b (hsub.subset (by simp))) hnot

/-- Before the first item that is not done everything is done, after it
everything is fresh. -/
theorem Sequential.split {before after : List α} {item : α}
    (hseq : Sequential done fresh (before ++ item :: after)) (hitem : ¬done item) :
    ∀ later ∈ after, fresh later := by
  intro later hlater
  by_contra hnot
  have htail := (List.pairwise_append.1 hseq).2.1
  exact hitem ((List.pairwise_cons.1 htail).1 later hlater hnot)

theorem sequential_of_split {before after : List α} {item : α}
    (hbefore : ∀ earlier ∈ before, done earlier) (hafter : ∀ later ∈ after, fresh later) :
    Sequential done fresh (before ++ item :: after) := by
  refine List.pairwise_append.2 ⟨?_, ?_, ?_⟩
  · exact List.pairwise_iff_forall_sublist.2 fun {a b} hsub _ =>
      hbefore a (hsub.subset (by simp))
  · refine List.pairwise_cons.2 ⟨fun b hb hnot => absurd (hafter b hb) hnot, ?_⟩
    exact sequential_of_fresh hafter
  · exact fun a ha b _ _ => hbefore a ha

theorem Sequential.update {p : α → Bool} {f : α → α} (hseq : Sequential done fresh items)
    (hdone : ∀ item, done item → done (f item)) (hfresh : ∀ item, fresh item → fresh (f item)) :
    Sequential done fresh (updateWhere p f items) := by
  unfold Sequential updateWhere
  rw [List.pairwise_map]
  refine hseq.imp fun {a b} hab hnot => ?_
  have hb : ¬fresh b := by
    intro hb
    apply hnot
    split
    · exact hfresh b hb
    · exact hb
  split
  · exact hdone a (hab hb)
  · exact hab hb

/-- There is an index with everything done before it and everything fresh
after it. -/
theorem Sequential.exists_index (hseq : Sequential done fresh items) :
    ∃ k : Nat, ∀ (i : Nat) (item : α), items[i]? = some item →
      (i < k → done item) ∧ (k < i → fresh item) := by
  classical
  induction items with
  | nil => exact ⟨0, by simp⟩
  | cons head tail ih =>
    have hhead := (List.pairwise_cons.1 hseq).1
    by_cases hdone : done head
    · obtain ⟨k, hk⟩ := ih (List.pairwise_cons.1 hseq).2
      refine ⟨k + 1, fun i item hitem => ?_⟩
      cases i with
      | zero =>
        obtain rfl : head = item := by simpa using hitem
        exact ⟨fun _ => hdone, fun hlt => by omega⟩
      | succ i =>
        have hrest := hk i item (by simpa using hitem)
        exact ⟨fun hlt => hrest.1 (by omega), fun hlt => hrest.2 (by omega)⟩
    · refine ⟨0, fun i item hitem => ⟨fun hlt => by omega, fun hlt => ?_⟩⟩
      cases i with
      | zero => omega
      | succ i =>
        have hmem : item ∈ tail := List.mem_of_getElem? (by simpa using hitem)
        by_contra hnot
        exact hdone (hhead item hmem hnot)

end

theorem split_of_find? {pending : α → Bool} {item : α} (hfind : items.find? pending = some item) :
    ∃ before after, items = before ++ item :: after ∧ pending item = true ∧
      ∀ earlier ∈ before, pending earlier = false := by
  obtain ⟨hitem, before, after, hsplit, hbefore⟩ := List.find?_eq_some_iff_append.1 hfind
  exact ⟨before, after, hsplit, hitem, fun earlier hmem => by simpa using hbefore earlier hmem⟩

theorem updateWhere_split [DecidableEq κ] {key : α → κ} {f : α → α} {before after : List α}
    {item : α} (hnodup : ((before ++ item :: after).map key).Nodup) :
    updateWhere (fun a => decide (key a = key item)) f (before ++ item :: after) =
      before ++ f item :: after := by
  have hother : ∀ a ∈ before ++ after, key a ≠ key item := by
    intro a ha heq
    rw [List.map_append, List.map_cons, List.nodup_append] at hnodup
    rcases List.mem_append.1 ha with hbefore | hafter
    · exact hnodup.2.2 _ (List.mem_map_of_mem hbefore) _ List.mem_cons_self heq
    · have hnot := (List.nodup_cons.1 hnodup.2.1).1
      exact hnot (heq ▸ List.mem_map_of_mem hafter)
  have hkeep : ∀ rows : List α, (∀ a ∈ rows, key a ≠ key item) →
      updateWhere (fun a => decide (key a = key item)) f rows = rows := by
    intro rows hrows
    unfold updateWhere
    exact (List.map_congr_left fun a ha => by simp [hrows a ha]).trans (List.map_id' rows)
  have hbefore := hkeep before fun a ha => hother a (List.mem_append_left _ ha)
  have hafter := hkeep after fun a ha => hother a (List.mem_append_right _ ha)
  unfold updateWhere at hbefore hafter ⊢
  rw [List.map_append, List.map_cons, hbefore, hafter]
  simp

/-- A write on the first item that is not done keeps the list sequential. -/
theorem Sequential.replace [DecidableEq κ] {pending : α → Bool} {item : α} {key : α → κ} {f : α → α}
    (hpending : ∀ a, done a ↔ pending a = false) (hseq : Sequential done fresh items)
    (hnodup : (items.map key).Nodup) (hfind : items.find? pending = some item) :
    Sequential done fresh (updateWhere (fun a => decide (key a = key item)) f items) := by
  obtain ⟨before, after, rfl, hitem, hbefore⟩ := split_of_find? hfind
  rw [updateWhere_split hnodup]
  refine sequential_of_split (fun a ha => (hpending a).2 (hbefore a ha)) (hseq.split ?_)
  simp [hpending, hitem]

def leastBy (key : α → Nat) (best : Option α) (item : α) : Option α :=
  match best with
  | some b => if key item < key b then some item else some b
  | none => some item

theorem foldl_leastBy_of_sorted {key : α → Nat}
    (hsorted : items.Pairwise fun a b => key a < key b) :
    items.foldl (leastBy key) none = items.head? := by
  have hkeep : ∀ (rest : List α) (best : α), (∀ b ∈ rest, key best < key b) →
      rest.foldl (leastBy key) (some best) = some best := by
    intro rest best
    induction rest with
    | nil => exact fun _ => rfl
    | cons item rest ih =>
      intro hbest
      have hitem := hbest item List.mem_cons_self
      have hstep : leastBy key (some best) item = some best := by
        simp only [leastBy]
        rw [if_neg (by omega)]
      rw [List.foldl_cons, hstep]
      exact ih fun b hb => hbest b (List.mem_cons_of_mem _ hb)
  cases items with
  | nil => rfl
  | cons head tail => exact hkeep tail head (List.pairwise_cons.1 hsorted).1

end Wruntime.WorkList
