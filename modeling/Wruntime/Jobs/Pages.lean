import Mathlib.Data.Prod.Lex
import Mathlib.Data.String.Basic
import Mathlib.Order.WithBot
import Wruntime.Jobs.Lifecycle
import Wruntime.Lib.Keyset

/-!
A client that pages through the jobs while the queue moves on. A cursor names a key, not an
offset: no job is listed twice, and none that stands throughout is passed over.
-/

namespace Wruntime.Jobs

open Fallible Keyset Runs

variable {codec : CursorCodec} {filter : JobFilter} {status : Option JobState} {cursor : String}
  {jobs : List JobListItem} {ended : Bool} {now : ℕ} {pages : List (System × ℕ)}

/-- A listing goes down from `⊤`, through the places of jobs, to `⊥`. -/
abbrev Place := WithBot (WithTop (ℕ ×ₗ String))

def placeAt (position : ℕ × String) : Place := WithBot.some (WithTop.some (toLex position))

def Row.place (row : Row) : Place := placeAt (row.createdAt, row.jobId.text)

def JobListItem.place (item : JobListItem) : Place := placeAt (item.createdAt, item.jobId.text)

def Queue.places (queue : Queue) (filter : JobFilter) (status : Option JobState) : List Place :=
  (queue.jobs.filter fun row => filter.selects row && status.all (row.status = ·)).map Row.place

/-- Each page is read from the queue as it then is; `true` says that the last one was reached. -/
def listAll (codec : CursorCodec) (filter : JobFilter) (status : Option JobState) :
    String → List (System × ℕ) → Except JobAdminError (List JobListItem × Bool)
  | _, [] => pure ([], false)
  | cursor, (s, pageSize) :: pages => do
    let page ← listJobs codec s.queue filter status pageSize cursor
    match page.nextCursor with
    | none => pure (page.jobs, true)
    | some next => do
      let (jobs, ended) ← listAll codec filter status next pages
      pure (page.jobs ++ jobs, ended)

def CursorCodec.ReadsBack (codec : CursorCodec) (filter : JobFilter) (status : Option JobState) :
    Prop :=
  ∀ item, decodeCursor codec (encodeCursor codec item filter status) filter status =
    .ok (some (item.createdAt, item.jobId.text))

theorem placeAt_lt_top (position : ℕ × String) : placeAt position < ⊤ :=
  WithBot.coe_lt_coe.2 (WithTop.coe_lt_top _)

theorem Row.listedBefore_iff {a b : Row} : a.listedBefore b ↔ b.place ≤ a.place := by
  rw [place, place, placeAt, placeAt, WithBot.coe_le_coe, WithTop.coe_le_coe,
    Prod.Lex.toLex_le_toLex]
  rfl

theorem Row.after_iff {row : Row} {position : Option (ℕ × String)} :
    position.all row.after = true ↔ row.place < position.elim ⊤ placeAt := by
  cases position with
  | none => exact iff_of_true rfl (placeAt_lt_top _)
  | some position =>
    rw [place, Option.elim_some, placeAt, placeAt, WithBot.coe_lt_coe, WithTop.coe_lt_coe,
      Prod.Lex.toLex_lt_toLex]
    simp [after]

instance : Std.Total Row.listedBefore := ⟨fun a b => by
  simp only [Row.listedBefore_iff]
  exact le_total _ _⟩

instance : IsTrans Row Row.listedBefore := ⟨fun a b c hab hbc => by
  rw [Row.listedBefore_iff] at *
  exact hbc.trans hab⟩

theorem places_of_mapM {rows : List Row} (h : rows.mapM listItem = .ok jobs) :
    jobs.map JobListItem.place = rows.map Row.place := by
  induction rows generalizing jobs with
  | nil =>
    obtain rfl := pure_eq_ok.1 h
    rfl
  | cons row rows ih =>
    simp only [List.mapM_cons, bind_eq_ok, pure_eq_ok, listItem] at h
    obtain ⟨item, ⟨_, _, _, _, _, _, _, _, _, _, rfl⟩, rest, hrest, rfl⟩ := h
    exact congrArg _ (ih hrest)

theorem places_sorted {rows : List Row} (h : (rows.map (·.jobId)).Nodup) :
    ((rows.insertionSort Row.listedBefore).map Row.place).Pairwise (· > ·) := by
  have hne := List.pairwise_map.1
    (((List.perm_insertionSort Row.listedBefore rows).map (·.jobId)).nodup_iff.2 h)
  refine List.pairwise_map.2 (((List.pairwise_insertionSort Row.listedBefore rows).and hne).imp ?_)
  rintro a b ⟨hle, hne⟩
  refine (Row.listedBefore_iff.1 hle).lt_of_ne fun hplace => hne ?_
  have hkeys := WithTop.coe_inj.1 (WithBot.coe_inj.1 hplace)
  exact UuidText.eq_of_text (Prod.ext_iff.1 (toLex_inj.1 hkeys)).2.symm

theorem mem_places_below (queue : Queue) (filter : JobFilter) (status : Option JobState)
    (position : Option (ℕ × String)) (k : Place) :
    k ∈ ((queue.jobs.filter fun row => filter.selects row && status.all (row.status = ·) &&
        position.all row.after).insertionSort Row.listedBefore).map Row.place ↔
      k ∈ queue.places filter status ∧ k < position.elim ⊤ placeAt := by
  simp only [Queue.places, List.mem_map, List.mem_insertionSort, List.mem_filter,
    Bool.and_eq_true, Row.after_iff]
  constructor
  · rintro ⟨row, ⟨hrow, hselect, hafter⟩, rfl⟩
    exact ⟨⟨row, ⟨hrow, hselect⟩, rfl⟩, hafter⟩
  · rintro ⟨⟨row, ⟨hrow, hselect⟩, rfl⟩, hafter⟩
    exact ⟨row, ⟨hrow, hselect, hafter⟩, rfl⟩

/-- A page goes from its cursor down to the item that the next cursor names, or to the end. -/
theorem listJobs_covers {s : System} {pageSize : ℕ} {page : JobPage} (hids : s.ids.Nodup)
    (h : listJobs codec s.queue filter status pageSize cursor = .ok page) :
    ∃ position, decodeCursor codec cursor filter status = .ok position ∧
      ∃ last : Option JobListItem,
        page.nextCursor = last.map (encodeCursor codec · filter status) ∧
        Covers [s.queue.places filter status] (position.elim ⊤ placeAt)
          (last.elim ⊥ JobListItem.place) (page.jobs.map JobListItem.place) := by
  simp only [listJobs, bind_eq_ok, pure_eq_ok] at h
  obtain ⟨_, _, _, hsize, position, hposition, jobs, hjobs, rfl⟩ := h
  generalize (if pageSize = 0 then defaultPageSize else pageSize) = n at *
  have hsorted := places_sorted (hids.sublist ((List.filter_sublist (p := fun row =>
    filter.selects row && status.all (row.status = ·) && position.all row.after)).map _))
  have hmem := mem_places_below s.queue filter status position
  generalize (s.queue.jobs.filter _).insertionSort Row.listedBefore = rows at *
  have hsplit : rows.map Row.place =
      jobs.map JobListItem.place ++ (rows.drop n).map Row.place := by
    rw [places_of_mapM hjobs, List.take_take, Nat.min_eq_left n.le_succ, ← List.map_append,
      List.take_append_drop]
  rw [hsplit] at hsorted hmem
  refine ⟨position, hposition, if n < rows.length then jobs.getLast? else none, ?_, ?_⟩
  · simp only [List.length_take]
    split <;> split <;> first | rfl | omega
  split
  next hlong =>
    have hne : jobs ≠ [] := by
      rintro rfl
      have hn := (ensure_eq_ok.1 hsize).1
      have hlength := congrArg List.length hsplit
      simp at hlength
      omega
    obtain ⟨init, last, rfl⟩ := jobs.eq_nil_or_concat.resolve_left hne
    rw [List.concat_eq_append, List.getLast?_concat, List.map_append] at *
    exact .page_concat hsorted hmem
  next hshort =>
    refine .page hsorted hmem bot_le (fun _ _ => bot_le) fun k hk => ?_
    rw [List.drop_eq_nil_of_le (not_lt.1 hshort)] at hk
    cases hk

theorem listAll_covers {position : Option (ℕ × String)} (hcodec : codec.ReadsBack filter status)
    (hids : ∀ page ∈ pages, page.1.ids.Nodup)
    (hposition : decodeCursor codec cursor filter status = .ok position)
    (h : listAll codec filter status cursor pages = .ok (jobs, ended)) :
    ∃ bottom, (ended = true → bottom = ⊥) ∧
      ∃ read ⊆ pages, Covers (read.map fun page => page.1.queue.places filter status)
        (position.elim ⊤ placeAt) bottom (jobs.map JobListItem.place) := by
  induction pages generalizing cursor position jobs with
  | nil =>
    obtain ⟨rfl, rfl⟩ := Prod.mk.inj (pure_eq_ok.1 h)
    exact ⟨_, by simp, [], List.Subset.refl _, .nil⟩
  | cons page pages ih =>
    rw [List.forall_mem_cons] at hids
    rw [listAll, bind_eq_ok] at h
    obtain ⟨first, hfirst, h⟩ := h
    obtain ⟨_, hposition', last, hlast, hcovers⟩ := listJobs_covers hids.1 hfirst
    obtain rfl := Except.ok.inj (hposition.symm.trans hposition')
    cases last with
    | none =>
      simp only [hlast, Option.map_none] at h
      obtain ⟨rfl, rfl⟩ := Prod.mk.inj (pure_eq_ok.1 h)
      exact ⟨_, fun _ => rfl, [page], by simp, hcovers⟩
    | some last =>
      simp only [hlast, Option.map_some, bind_eq_ok, pure_eq_ok] at h
      obtain ⟨⟨rest, ended⟩, hrest, h⟩ := h
      obtain ⟨rfl, rfl⟩ := Prod.mk.inj h
      obtain ⟨bottom, hended, read, hread, hrest⟩ := ih hids.2 (hcodec last) hrest
      refine ⟨bottom, hended, page :: read, List.cons_subset_cons _ hread, ?_⟩
      rw [List.map_append]
      exact hcovers.append hrest

theorem Moved.place_eq {s : System} {row row' : Row} {moved : Option Event}
    (h : Moved s row row' moved) (filter : JobFilter) :
    row'.place = row.place ∧ filter.selects row' = filter.selects row := by
  cases h <;> exact ⟨rfl, rfl⟩

/-- Jobs stay where they are, whatever becomes of them. -/
theorem Changed.places_subset {s t : System} (h : Changed s t) :
    s.queue.places filter none ⊆ t.queue.places filter none := by
  intro place hplace
  obtain ⟨row, hrow, rfl⟩ := List.mem_map.1 hplace
  obtain ⟨hrow, hselects⟩ := List.mem_filter.1 hrow
  cases h with
  | inserted =>
    exact List.mem_map_of_mem (List.mem_filter.2 ⟨List.mem_append_left _ hrow, hselects⟩)
  | moved now hnow f events hjobs hknown hclaims hmoved =>
    obtain ⟨hplace, hsame⟩ := (hmoved row hrow).place_eq filter
    rw [← hplace]
    exact List.mem_map_of_mem (List.mem_filter.2 ⟨List.mem_map_of_mem hrow, by rwa [hsame]⟩)

theorem places_subset_of_reach {s t : System}
    (hreach : Reach System.next System.Fresh (.start now) s)
    (h : Reach System.next System.Fresh s t) :
    s.queue.places filter none ⊆ t.queue.places filter none := by
  refine h.invariant (P := fun t => s.queue.places filter none ⊆ t.queue.places filter none)
    (List.Subset.refl _) fun t input ht hfresh hsub => List.Subset.trans hsub ?_
  exact (System.next_changed (ids_nodup_of_reach (hreach.trans ht)) hfresh).places_subset

/-- The jobs are listed in order and none twice. A listing that ends misses no job that matched
throughout, nor, without a status, one that matched when it began. -/
theorem listing_exact {start : System} (hcodec : codec.ReadsBack filter status)
    (hstart : Reach System.next System.Fresh (.start now) start)
    (hpages : ∀ page ∈ pages, Reach System.next System.Fresh start page.1)
    (h : listAll codec filter status "" pages = .ok (jobs, ended)) :
    (jobs.map JobListItem.place).Pairwise (· > ·) ∧
      (∀ job ∈ jobs, ∃ page ∈ pages, job.place ∈ page.1.queue.places filter status) ∧
      (ended = true → ∀ position,
        (∀ page ∈ pages, placeAt position ∈ page.1.queue.places filter status) ∨
          status = none ∧ placeAt position ∈ start.queue.places filter none →
        placeAt position ∈ jobs.map JobListItem.place) := by
  obtain ⟨bottom, hended, read, hread, hcovers⟩ := listAll_covers hcodec
    (fun page hpage => ids_nodup_of_reach (hstart.trans (hpages page hpage))) rfl h
  refine ⟨hcovers.sorted, fun job hjob => ?_, fun hend position hall => ?_⟩
  · obtain ⟨_, hplaces, hplace⟩ := hcovers.held _ (List.mem_map_of_mem hjob)
    obtain ⟨page, hpage, rfl⟩ := List.mem_map.1 hplaces
    exact ⟨page, hread hpage, hplace⟩
  · refine (hcovers.standing _ (placeAt_lt_top position) ?_).resolve_right ?_
    · rw [List.forall_mem_map]
      intro page hpage
      rcases hall with hall | ⟨rfl, hbegan⟩
      · exact hall page (hread hpage)
      · exact places_subset_of_reach hstart (hpages page (hread hpage)) hbegan
    · rw [hended hend]
      exact not_lt_bot

namespace Sample

/-- A cursor written in unary. -/
def unary : CursorCodec where
  parse text :=
    let rest := text.toList.dropWhile (· = '1')
    some ⟨1, some (text.toList.length - rest.length), String.ofList rest.tail, ""⟩
  render cursor :=
    String.ofList (List.replicate (cursor.createdAt.getD 0) '1' ++ '0' :: cursor.jobId.toList)
  fingerprint _ _ := ""

theorem unary_readsBack (filter : JobFilter) (status : Option JobState) :
    unary.ReadsBack filter status := by
  intro item
  have hid : item.jobId.text ≠ "" := by
    intro h
    have := item.jobId.size
    simp [h] at this
  simp [decodeCursor, encodeCursor, unary, asked, ensure, hid]

def everything : JobFilter := ⟨none, none, none, none, none, none, none, none⟩

def submitted : System :=
  runAll System.next (.start 0) [.insert job submission, .insert engine submission]

def afterClaim : System := submitted.next (.claim (fun _ => false) worker engine 1)

end Sample

open Sample in
/-- The second page is read after a job was claimed. -/
theorem listing_across_claim : ∃ jobs,
    listAll unary everything none "" [(submitted, 1), (afterClaim, 1)] = .ok (jobs, true) ∧
    ∀ position, placeAt position ∈ submitted.queue.places everything none →
      placeAt position ∈ jobs.map JobListItem.place := by
  obtain ⟨jobs, hjobs⟩ : ∃ jobs, listAll unary everything none ""
      [(submitted, 1), (afterClaim, 1)] = .ok (jobs, true) := ⟨_, rfl⟩
  have hsubmitted : Reach System.next System.Fresh (.start 0) submitted :=
    reach_runAll _ (by decide +kernel)
  have hclaimed : Reach System.next System.Fresh submitted afterClaim :=
    .single (by decide +kernel)
  obtain ⟨-, -, hlisted⟩ := listing_exact (unary_readsBack _ _) hsubmitted
    (by simpa using ⟨.refl, hclaimed⟩) hjobs
  exact ⟨jobs, hjobs, fun position hbegan => hlisted rfl position (.inr ⟨rfl, hbegan⟩)⟩

end Wruntime.Jobs
