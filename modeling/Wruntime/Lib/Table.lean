import Mathlib.Data.List.Sort

/-!
Database tables as lists of rows. `updateWhere` is an `UPDATE ... WHERE`,
`upsertBy` an `INSERT ... ON CONFLICT (key) DO UPDATE`, and a lookup is
`List.find?`. The lemmas say what a lookup or a column sees after a write.
-/

namespace Wruntime.Table

variable {α β κ : Type*}
variable {p q : α → Bool} {f : α → α} {rows new : List α} {row : α} {key : α → κ}
  {step : Option α → α → Option α}

/-- Apply `f` to the rows that meet `p` and keep the others. -/
def updateWhere (p : α → Bool) (f : α → α) (rows : List α) : List α :=
  rows.map fun row => if p row then f row else row

theorem mem_snoc {a : α} : a ∈ rows ++ [row] ↔ a ∈ rows ∨ a = row := by
  rw [List.mem_append, List.mem_singleton]

theorem found {c : α → Prop} [DecidablePred c] (h : rows.find? (fun r => decide (c r)) = some row) :
    row ∈ rows ∧ c row :=
  ⟨List.mem_of_find?_eq_some h, by simpa using List.find?_some h⟩

theorem not_found {c : α → Prop} [DecidablePred c]
    (h : rows.find? (fun r => decide (c r)) = none) (hrow : row ∈ rows) : ¬c row := by
  simpa using List.find?_eq_none.1 h row hrow

theorem nodup_snoc (hnodup : (rows.map key).Nodup) (hnew : ∀ r ∈ rows, key r ≠ key row) :
    ((rows ++ [row]).map key).Nodup := by
  rw [List.map_append, List.nodup_append]
  refine ⟨hnodup, List.nodup_singleton _, ?_⟩
  intro a ha b hb
  obtain ⟨r, hr, rfl⟩ := List.mem_map.1 ha
  rw [List.mem_singleton.1 hb]
  exact hnew r hr

theorem exists_of_column {rows' : List α} {g : α → β} (h : rows'.map g = rows.map g)
    (hrow : row ∈ rows') : ∃ r ∈ rows, g r = g row :=
  List.mem_map.1 (h ▸ List.mem_map_of_mem hrow)

theorem mem_updateWhere : row ∈ updateWhere p f rows ↔
      ∃ old ∈ rows, row = if p old then f old else old := by
  rw [updateWhere, List.mem_map]
  constructor <;> rintro ⟨old, hmem, hrow⟩ <;> exact ⟨old, hmem, hrow.symm⟩

/-- A row of the updated table was written, or stood there and does not meet `p`. -/
theorem updated (h : row ∈ updateWhere p f rows) :
    (∃ old ∈ rows, p old = true ∧ row = f old) ∨ row ∈ rows ∧ ¬p row = true := by
  obtain ⟨old, hold, rfl⟩ := mem_updateWhere.1 h
  split
  next hp => exact .inl ⟨old, hold, hp, rfl⟩
  next hp => exact .inr ⟨hold, hp⟩

/-- What a row is to its written version and to itself, it is to a row of the updated
table. -/
theorem exists_updated {R : α → α → Prop} (hrefl : ∀ r, R r r)
    (hf : ∀ r ∈ rows, p r = true → R r (f r)) :
    ∀ r ∈ rows, ∃ r' ∈ updateWhere p f rows, R r r' := by
  intro r hr
  refine ⟨_, mem_updateWhere.2 ⟨r, hr, rfl⟩, ?_⟩
  split
  next hp => exact hf r hr hp
  next => exact hrefl r

@[simp] theorem updateWhere_cons (p : α → Bool) (f : α → α) (row : α) (rows : List α) :
    updateWhere p f (row :: rows) = (if p row then f row else row) :: updateWhere p f rows := rfl

theorem map_updateWhere {g : α → β} (hkeep : ∀ row, g (f row) = g row) (rows : List α) :
    (updateWhere p f rows).map g = rows.map g := by
  simp only [updateWhere, List.map_map]
  refine List.map_congr_left fun row _ => ?_
  simp only [Function.comp]
  split
  · exact hkeep row
  · rfl

theorem nodup_updateWhere {key : α → β} (hnodup : (rows.map key).Nodup)
    (hkeep : ∀ row, key (f row) = key row) : ((updateWhere p f rows).map key).Nodup := by
  rw [map_updateWhere hkeep]
  exact hnodup

theorem updateWhere_of_any_eq_false (h : rows.any p = false) : updateWhere p f rows = rows := by
  induction rows with
  | nil => rfl
  | cons row rows ih =>
    simp only [List.any_cons, Bool.or_eq_false_iff] at h
    rw [updateWhere_cons, ih h.2, h.1]
    rfl

/-- An update made a second time changes only the rows that it had not met. -/
theorem updateWhere_updateWhere (hf : ∀ row, f (f row) = f row) (hq : ∀ row, q (f row) = q row)
    (rows : List α) :
    updateWhere q f (updateWhere p f rows) = updateWhere (fun row => p row || q row) f rows := by
  simp only [updateWhere, List.map_map]
  apply List.map_congr_left
  intro row _
  by_cases hp : p row = true
  · simp only [Function.comp, hp, if_true, hq, Bool.true_or]
    split
    · exact hf row
    · rfl
  · simp [Function.comp, hp]

theorem forall_updateWhere {Q : α → Prop} (hold : ∀ row ∈ rows, Q row)
    (hnew : ∀ row ∈ rows, p row = true → Q (f row)) : ∀ row ∈ updateWhere p f rows, Q row := by
  intro row hrow
  obtain ⟨old, hmem, rfl⟩ := mem_updateWhere.1 hrow
  split
  next hp => exact hnew old hmem hp
  · exact hold old hmem

/-- A lookup that the update does not affect finds the updated version of the row. -/
theorem find?_updateWhere (hkeep : ∀ row, q (f row) = q row) (rows : List α) :
    (updateWhere p f rows).find? q =
      (rows.find? q).map fun row => if p row then f row else row := by
  induction rows with
  | nil => rfl
  | cons row rows ih =>
    have hq : q (if p row then f row else row) = q row := by
      split
      · exact hkeep row
      · rfl
    simp only [updateWhere_cons, List.find?_cons, hq]
    cases q row with
    | true => rfl
    | false => exact ih

section

variable (hnodup : (rows.map key).Nodup)
include hnodup

theorem eq_of_nodup_key [DecidableEq κ] {a b : α} (ha : a ∈ rows)
    (hb : b ∈ rows) (hkey : key a = key b) : a = b :=
  List.inj_on_of_nodup_map hnodup ha hb hkey

theorem eq_or_key_ne [DecidableEq κ] {a b : α} (ha : a ∈ rows) (hb : b ∈ rows) :
    a = b ∨ key a ≠ key b :=
  (em (key a = key b)).imp_left (eq_of_nodup_key hnodup ha hb)

theorem mem_updateWhere_key [DecidableEq κ] (hrow : row ∈ rows)
    {a : α} : a ∈ updateWhere (fun r => decide (key r = key row)) f rows ↔
      a = f row ∨ a ∈ rows ∧ key a ≠ key row := by
  constructor
  · intro ha
    rcases updated ha with ⟨old, hold, hkey, rfl⟩ | ⟨hold, hkey⟩
    · rw [eq_of_nodup_key hnodup hold hrow (of_decide_eq_true hkey)]
      exact .inl rfl
    · exact .inr ⟨hold, by simpa using hkey⟩
  · rintro (rfl | ⟨ha, hkey⟩)
    · exact mem_updateWhere.2 ⟨row, hrow, by simp⟩
    · exact mem_updateWhere.2 ⟨a, ha, by simp [hkey]⟩

theorem find?_key_of_mem [DecidableEq κ] (hrow : row ∈ rows) :
    rows.find? (fun r => decide (key r = key row)) = some row := by
  cases hfind : rows.find? (fun r => decide (key r = key row)) with
  | none =>
    have hnone := List.find?_eq_none.1 hfind row hrow
    simp at hnone
  | some found =>
    have hkey : key found = key row := by
      simpa using List.find?_some hfind
    rw [eq_of_nodup_key hnodup (List.mem_of_find?_eq_some hfind) hrow hkey]

theorem countP_eq_one_of_key [DecidableEq κ] (hrow : row ∈ rows)
    (hp : p row = true) (hkey : ∀ r ∈ rows, p r = true → key r = key row) : rows.countP p = 1 := by
  induction rows with
  | nil => cases hrow
  | cons head rows ih =>
    rw [List.map_cons, List.nodup_cons] at hnodup
    rcases List.mem_cons.1 hrow with rfl | hrest
    · have hnone : rows.countP p = 0 := by
        rw [List.countP_eq_zero]
        intro r hr hpr
        exact hnodup.1 (hkey r (List.mem_cons_of_mem _ hr) hpr ▸ List.mem_map_of_mem hr)
      rw [List.countP_cons_of_pos hp, hnone]
    · have hhead : ¬p head = true := fun hph =>
        hnodup.1 (hkey head List.mem_cons_self hph ▸ List.mem_map_of_mem hrest)
      rw [List.countP_cons_of_neg hhead]
      exact ih hnodup.2 hrest fun r hr => hkey r (List.mem_cons_of_mem _ hr)

end

variable [DecidableEq κ]

/-- Replace the row with the new row's key, or append it when there is none. -/
def upsertBy (key : α → κ) (new : α) : List α → List α
  | [] => [new]
  | row :: rows => if key row = key new then new :: rows else row :: upsertBy key new rows

theorem mem_upsertBy {new : α} (hrow : row ∈ upsertBy key new rows) : row = new ∨ row ∈ rows := by
  induction rows with
  | nil => simpa [upsertBy] using hrow
  | cons head rows ih =>
    simp only [upsertBy] at hrow
    split at hrow
    · rcases List.mem_cons.1 hrow with rfl | htail
      · exact .inl rfl
      · exact .inr (List.mem_cons_of_mem _ htail)
    · rcases List.mem_cons.1 hrow with rfl | htail
      · exact .inr List.mem_cons_self
      · exact (ih htail).imp_right (List.mem_cons_of_mem _)

theorem mem_upsertBy_of_ne {new : α} (hne : key row ≠ key new) (rows : List α) :
    row ∈ upsertBy key new rows ↔ row ∈ rows := by
  have hrow : row ≠ new := by
    rintro rfl
    exact hne rfl
  induction rows with
  | nil => simp [upsertBy, hrow]
  | cons head rows ih =>
    simp only [upsertBy]
    split
    next hhead =>
      have hhead' : row ≠ head := by
        rintro rfl
        exact hne hhead
      simp [hrow, hhead']
    next => simp [ih]

theorem mem_upsertBy_self (key : α → κ) (new : α) (rows : List α) :
    new ∈ upsertBy key new rows := by
  induction rows with
  | nil => simp [upsertBy]
  | cons head rows ih =>
    simp only [upsertBy]
    split
    · exact List.mem_cons_self
    · exact List.mem_cons_of_mem _ ih

theorem mem_foldl_upsertBy (hrow : row ∈ new.foldl (fun rows r => upsertBy key r rows) rows) :
    row ∈ new ∨ row ∈ rows := by
  induction new generalizing rows with
  | nil => exact .inr hrow
  | cons head new ih =>
    rw [List.foldl_cons] at hrow
    rcases ih hrow with hnew | hold
    · exact .inl (List.mem_cons_of_mem _ hnew)
    · rcases mem_upsertBy hold with rfl | hold
      · exact .inl List.mem_cons_self
      · exact .inr hold

theorem mem_foldl_upsertBy_of_ne (hne : ∀ r ∈ new, key row ≠ key r) :
    row ∈ new.foldl (fun rows r => upsertBy key r rows) rows ↔ row ∈ rows := by
  induction new generalizing rows with
  | nil => rfl
  | cons head new ih =>
    rw [List.foldl_cons, ih (fun r hr => hne r (List.mem_cons_of_mem _ hr))]
    exact mem_upsertBy_of_ne (hne head List.mem_cons_self) rows

theorem nodup_upsertBy (new : α) (hnodup : (rows.map key).Nodup) :
    ((upsertBy key new rows).map key).Nodup := by
  induction rows with
  | nil => simp [upsertBy]
  | cons head rows ih =>
    rw [List.map_cons, List.nodup_cons] at hnodup
    simp only [upsertBy]
    split
    next hhead =>
      rw [List.map_cons, List.nodup_cons, ← hhead]
      exact hnodup
    next hhead =>
      rw [List.map_cons, List.nodup_cons]
      refine ⟨?_, ih hnodup.2⟩
      intro hmem
      obtain ⟨row, hrow, hkey⟩ := List.mem_map.1 hmem
      rcases mem_upsertBy hrow with rfl | hrow
      · exact hhead hkey.symm
      · exact hnodup.1 (List.mem_map.2 ⟨row, hrow, hkey⟩)

theorem nodup_foldl_upsertBy (new : List α) (hnodup : (rows.map key).Nodup) :
    ((new.foldl (fun rows r => upsertBy key r rows) rows).map key).Nodup := by
  induction new generalizing rows with
  | nil => exact hnodup
  | cons head new ih => exact ih (nodup_upsertBy head hnodup)

theorem eq_of_mem_upsertBy {new : α} (hnodup : (rows.map key).Nodup)
    (hrow : row ∈ upsertBy key new rows) (hkey : key row = key new) : row = new :=
  eq_of_nodup_key (nodup_upsertBy new hnodup) hrow (mem_upsertBy_self key new rows) hkey

/-- With distinct keys, a row with the key of one of the upserted rows is one of
them. -/
theorem mem_of_mem_foldl_upsertBy (hnodup : (rows.map key).Nodup)
    (hrow : row ∈ new.foldl (fun rows r => upsertBy key r rows) rows)
    (hkey : key row ∈ new.map key) : row ∈ new := by
  induction new generalizing rows with
  | nil => cases hkey
  | cons head new ih =>
    rw [List.foldl_cons] at hrow
    by_cases htail : key row ∈ new.map key
    · exact List.mem_cons_of_mem _ (ih (nodup_upsertBy head hnodup) hrow htail)
    · have hhead : key row = key head := by
        rcases List.mem_cons.1 hkey with hhead | hmem
        · exact hhead
        · exact absurd hmem htail
      have hne : ∀ r ∈ new, key row ≠ key r := by
        intro r hr heq
        exact htail (heq ▸ List.mem_map_of_mem hr)
      rw [eq_of_mem_upsertBy hnodup ((mem_foldl_upsertBy_of_ne hne).1 hrow) hhead]
      exact List.mem_cons_self

section

variable (hstep : ∀ best row, step best row = some row ∨ step best row = best)
include hstep

theorem mem_or_of_foldl_choice {best : Option α}
    (h : rows.foldl step best = some row) : row ∈ rows ∨ best = some row := by
  induction rows generalizing best with
  | nil => exact .inr h
  | cons head rows ih =>
    rcases ih h with hmem | hhead
    · exact .inl (List.mem_cons_of_mem _ hmem)
    · rcases hstep best head with hnew | hkept
      · obtain rfl := Option.mem_unique hnew hhead
        exact .inl List.mem_cons_self
      · exact .inr (hkept.symm.trans hhead)

/-- A fold that keeps its choice or takes the row it is at chooses one of the rows. -/
theorem mem_of_foldl_choice (h : rows.foldl step none = some row) : row ∈ rows :=
  (mem_or_of_foldl_choice hstep h).resolve_right (by simp)

end

omit [DecidableEq κ] in
/-- Rows sorted by a key that tells them apart do not depend on the order they came in. -/
theorem insertionSort_eq_of_perm [LinearOrder κ] [DecidableRel fun a b : α => key a ≤ key b]
    {rows' : List α} (hkey : ∀ a ∈ rows, ∀ b ∈ rows, key a = key b → a = b)
    (hperm : rows.Perm rows') : rows.insertionSort (fun a b => key a ≤ key b) =
      rows'.insertionSort fun a b => key a ≤ key b := by
  have htotal : Std.Total fun a b : α => key a ≤ key b := ⟨fun a b => le_total _ _⟩
  have htrans : IsTrans α fun a b => key a ≤ key b := ⟨fun _ _ _ => le_trans⟩
  have hsorted := hperm.trans (List.perm_insertionSort (fun a b => key a ≤ key b) rows').symm
  refine List.Perm.eq_of_pairwise ?_ (List.pairwise_insertionSort _ rows)
    (List.pairwise_insertionSort _ rows') ((List.perm_insertionSort _ rows).trans hsorted)
  intro a b ha hb hab hba
  have hmem := hsorted.mem_iff.2 hb
  exact hkey a ((List.perm_insertionSort _ rows).mem_iff.1 ha) b hmem (le_antisymm hab hba)

end Wruntime.Table
