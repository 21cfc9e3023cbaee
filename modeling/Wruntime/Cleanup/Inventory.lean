import Wruntime.Cleanup.Authority

/-!
What the manager remembers of a node's releases. The inventory is written by cleanup results alone:
the first one names it, later ones take out what was deleted. A release that is finalized after the
first never enters it, and a pass that finds nothing to delete has not looked at such a release.
Where nothing is finalized after a first result that names everything, the inventory stays complete
over the whole run, and a clean pass leaves nothing behind.
-/

namespace Wruntime.Cleanup

open Fallible Runs
open Manager (Status Time seconds)

section Clean

variable {contract : Contract} {w w' : World} {row row' : Row} {now clock : Time}

/-- A row materialized as clean has an inventory, and the policy deletes none of it. -/
theorem Row.materialize_clean {snapshot : CleanupPolicySnapshot}
    (hstate : (row.materialize contract snapshot now).state = .clean) :
    row.knownInventory.isSome = true ∧ ∀ r ∈ row.knownInventory.getD [], r ∉ snapshot.delete := by
  unfold Row.materialize at hstate
  split at hstate
  next hnone =>
    refine ⟨hnone.1, fun r hr hdelete => ?_⟩
    have hcandidate : r ∈ row.candidates snapshot :=
      List.mem_filter.mpr ⟨hr, decide_eq_true hdelete⟩
    rw [hnone.2] at hcandidate
    cases hcandidate
  · cases hstate

theorem reconcileRow_clean {policy : Except Status CleanupPolicySnapshot}
    (h : reconcileRow contract row policy now clock = .ok row') (hstate : row'.state = .clean) :
    ∃ snapshot, policy = .ok snapshot ∧ row.knownInventory.isSome = true ∧
      ∀ r ∈ row.knownInventory.getD [], r ∉ snapshot.delete := by
  unfold reconcileRow at h
  split at h
  next =>
    simp only [bind_eq_ok, pure_eq_ok] at h
    obtain ⟨_, _, rfl⟩ := h
    cases hstate
  next snapshot =>
    refine ⟨snapshot, rfl, ?_⟩
    split at h
    · rw [← pure_eq_ok.mp h] at hstate
      have hnone := row.supersede.materialize_clean hstate
      exact hnone
    · split at h
      next hbusy =>
        rw [← pure_eq_ok.mp h] at hstate
        rcases hbusy with hbusy | hbusy
        · cases hbusy.symm.trans hstate
        · cases hbusy.symm.trans hstate
      · rw [← pure_eq_ok.mp h] at hstate
        exact row.materialize_clean hstate

theorem reconcile_of_due (hrow : w.cleanup = some row) (hdue : row.due now = true)
    (h : reconcileNodeCleanup contract w now clock w.db w.deleted = .ok w')
    (hrow' : w'.cleanup = some row') :
    reconcileRow contract row (managerCleanupPolicy contract w.db w.deleted) now clock =
      .ok row' := by
  simp only [reconcileNodeCleanup, hrow, Option.some_or, hdue, if_true, bind_eq_ok, pure_eq_ok] at h
  obtain ⟨row'', hreconcile, rfl⟩ := h
  rw [hreconcile, Option.some.inj hrow']

end Clean

/-- The releases that were finalized on the node. -/
def World.finalizedReleases (w : World) : List Release :=
  (w.db.deployments.filter (·.finalized)).map release

/-- An authority is issued from the remembered inventory, which is not empty then. -/
def Row.Issued (row : Row) : Prop := ∀ authority, row.authority = some authority →
  authority.knownInventory = row.knownInventory.getD [] ∧ row.knownInventory ≠ some []

/-- Every finalized release that is not deleted is remembered, once an inventory is. -/
def Complete (w : World) : Prop := ∀ row ∈ w.cleanup, ∀ inventory ∈ row.knownInventory,
  ∀ r ∈ w.finalizedReleases, r.revision ∉ w.deleted → r ∈ inventory

def Event.resulting? : Event → Option (List Release)
  | .report _ request _ => some request.resultingInventory
  | _ => none

/-- The steps that the remembered inventory keeps up with: none finalizes a release once there is an
inventory, and the result that brings the first one names every finalized release that is not
deleted. -/
structure Discovers (contract : Contract) (w : World) (event : Event) : Prop where
  settled : ∀ row ∈ w.cleanup, row.knownInventory ≠ none →
    (w.next contract event).finalizedReleases ⊆ w.finalizedReleases
  first : ∀ row ∈ w.cleanup, row.knownInventory = none → ∀ inventory ∈ event.resulting?,
    ∀ r ∈ w.finalizedReleases, r.revision ∉ w.deleted → r ∈ inventory

instance (contract : Contract) (w : World) (event : Event) :
    Decidable (Discovers contract w event) :=
  decidable_of_iff ((∀ row ∈ w.cleanup, row.knownInventory ≠ none →
        (w.next contract event).finalizedReleases ⊆ w.finalizedReleases) ∧
      ∀ row ∈ w.cleanup, row.knownInventory = none → ∀ inventory ∈ event.resulting?,
        ∀ r ∈ w.finalizedReleases, r.revision ∉ w.deleted → r ∈ inventory)
    ⟨fun h => ⟨h.1, h.2⟩, fun h => ⟨h.settled, h.first⟩⟩

section Runs

variable {contract : Contract} {nodeId : String} {w w' : World} {row row' : Row} {event : Event}
variable {seen : Manager.Db} {seenDeleted : List Manager.Revision} {now clock : Time}

theorem Row.Issued.of_eq (h : row.Issued) (hauthority : row'.authority = row.authority)
    (hinventory : row'.knownInventory = row.knownInventory) : row'.Issued := by
  unfold Row.Issued
  rw [hauthority, hinventory]
  exact h

theorem Row.Issued.of_withdrawn (h : row.authority = none) : row.Issued := by
  intro authority hauthority
  cases h.symm.trans hauthority

/-- With an empty inventory there is nothing to delete, so the row is set `clean` instead. -/
theorem Row.materialize_issued (row : Row) (policy : CleanupPolicySnapshot) (now : Time) :
    (row.materialize contract policy now).Issued := by
  unfold Row.materialize
  split
  · exact .of_withdrawn rfl
  next hsome =>
    rintro authority hauthority
    obtain rfl := Option.some.inj hauthority
    refine ⟨rfl, fun hempty => hsome ?_⟩
    change row.knownInventory = some [] at hempty
    simp [Row.candidates, hempty]

theorem Reconciled.issued (h : Reconciled contract seen seenDeleted row row')
    (hrow : row.Issued) : row'.Issued := by
  cases h with
  | kept => exact hrow
  | touched | paused => exact hrow.of_eq rfl rfl
  | materialized => exact Row.materialize_issued _ _ _

theorem Reconciled.knownInventory (h : Reconciled contract seen seenDeleted row row') :
    row'.knownInventory = row.knownInventory := by
  cases h with
  | kept | touched | paused => rfl
  | materialized _ hfrom =>
    unfold Row.materialize
    rcases hfrom with rfl | ⟨rfl, -⟩ <;> split <;> rfl

theorem Outcome.issued (h : Outcome contract w event w') (hw : ∀ row ∈ w.cleanup, row.Issued) :
    ∀ row ∈ w'.cleanup, row.Issued := by
  intro row' hrow'
  cases h with
  | same => exact hw row' hrow'
  | manager | fenced =>
    obtain ⟨row, hrow, rfl | ⟨generation, -, rfl⟩⟩ := World.fence_cleanup hrow'
    · exact hw _ hrow
    · exact .of_withdrawn rfl
  | @reconciled _ _ _ _ row _ hrow hreconciled =>
    obtain rfl := Option.some.inj hrow'
    refine hreconciled.issued ?_
    rcases hrow with hrow | ⟨-, rfl⟩
    · exact hw row hrow
    · exact .of_withdrawn rfl
  | claimed hrow | renewed hrow | pausedReport hrow =>
    obtain rfl := Option.some.inj hrow'
    exact (hw _ hrow).of_eq rfl rfl
  | cleaned =>
    obtain rfl := Option.some.inj hrow'
    exact .of_withdrawn rfl

theorem reach_issued {ok : World → Event → Prop}
    (hreach : Reach (World.next contract) ok (World.initial nodeId) w) :
    ∀ row ∈ w.cleanup, row.Issued := by
  refine hreach.invariant (P := fun w => ∀ row ∈ w.cleanup, row.Issued) ?_ ?_
  · rintro row hrow
    cases hrow
  · intro w event _ _ hw
    exact (next_outcome contract w event).issued hw

/-- What an accepted result leaves: the first one everything that is finalized, a later one the
issued inventory without the deletions. -/
theorem complete_of_result {authority : Authority} {request : ReportNodeCleanupResultRequest}
    {r : Release} (hissued : row.Issued) (hauthority : row.authority = some authority)
    (hcheck : checkResult contract w authority request = .ok ())
    (hfirst : row.knownInventory = none → r ∈ request.resultingInventory)
    (hknown : ∀ inventory ∈ row.knownInventory, r ∈ inventory)
    (hleft : r.revision ∉ request.deletedReleases.map (·.revision)) :
    r ∈ request.resultingInventory := by
  obtain ⟨heq, hne⟩ := hissued authority hauthority
  obtain ⟨-, -, hdeleted, -, hresult⟩ := checkResult_eq_ok.mp hcheck
  cases hinventory : row.knownInventory with
  | none => exact hfirst hinventory
  | some inventory =>
    rw [hinventory, Option.getD_some] at heq
    rw [hinventory] at hne
    have hsome : authority.knownInventory ≠ [] := fun hempty => hne (by rw [← heq, hempty])
    rw [if_neg hsome] at hresult
    refine (hresult.2 r).mpr (List.mem_filter.mpr ⟨heq ▸ hknown inventory hinventory, ?_⟩)
    refine decide_eq_true fun hmem => hleft ?_
    obtain ⟨deleted, hin, hrevision⟩ := List.mem_map.mp hmem
    exact List.mem_map.mpr ⟨deleted, (hdeleted deleted).mpr hin, hrevision⟩

theorem Outcome.complete (h : Outcome contract w event w')
    (hsettled : ∀ row ∈ w.cleanup, row.knownInventory ≠ none →
      w'.finalizedReleases ⊆ w.finalizedReleases)
    (hfirst : ∀ row ∈ w.cleanup, row.knownInventory = none → ∀ inventory ∈ event.resulting?,
      ∀ r ∈ w.finalizedReleases, r.revision ∉ w.deleted → r ∈ inventory)
    (hissued : ∀ row ∈ w.cleanup, row.Issued) (hw : Complete w) : Complete w' := by
  intro row' hrow' inventory hinventory r hr hleft
  -- Everything but a result keeps the inventory and the deletions.
  have hkept {row : Row} (hrow : w.cleanup = some row)
      (hsame : row'.knownInventory = row.knownInventory) (hdeleted : r.revision ∉ w.deleted) :
      r ∈ inventory := by
    rw [hsame] at hinventory
    exact hw row hrow inventory hinventory r
      (hsettled row hrow (by simp [Option.mem_def.mp hinventory]) hr) hdeleted
  cases h with
  | same => exact hkept hrow' rfl hleft
  | manager | fenced =>
    obtain ⟨row, hrow, rfl | ⟨generation, -, rfl⟩⟩ := World.fence_cleanup hrow'
    · exact hkept hrow rfl hleft
    · exact hkept hrow rfl hleft
  | @reconciled _ _ _ _ row _ hrow hreconciled =>
    obtain rfl := Option.some.inj hrow'
    rcases hrow with hrow | ⟨-, rfl⟩
    · exact hkept hrow hreconciled.knownInventory hleft
    · rw [hreconciled.knownInventory] at hinventory
      cases hinventory
  | claimed hrow | renewed hrow | pausedReport hrow =>
    obtain rfl := Option.some.inj hrow'
    exact hkept hrow rfl hleft
  | @cleaned _ _ _ row authority hrow _ hauthority hcheck =>
    obtain rfl := Option.some.inj hrow'
    obtain rfl := Option.some.inj hinventory
    have hleft := fun hmem => hleft (mem_recordDeletions.mpr hmem)
    have hdeleted : r.revision ∉ w.deleted := fun hmem => hleft (.inl hmem)
    refine complete_of_result (hissued row hrow) hauthority hcheck
      (fun hnone => hfirst row hrow hnone _ rfl r hr hdeleted)
      (fun known hknown => hw row hrow known hknown r hr hdeleted) fun hmem => hleft (.inr hmem)

section

variable (hreach : Reach (World.next contract) (Discovers contract) (World.initial nodeId) w)
include hreach

theorem reach_complete : Complete w := by
  refine hreach.invariant (P := Complete) ?_ ?_
  · rintro row hrow
    cases hrow
  · intro w event hprev hdiscovers hw
    exact (next_outcome contract w event).complete hdiscovers.settled hdiscovers.first
      (reach_issued hprev) hw

/-- In a run that finalizes nothing once an inventory is remembered, and whose first inventory is
complete, a pass that sets `clean` leaves no release that is finalized, not deleted and
unprotected. -/
theorem clean_pass_is_complete (hrow : w.cleanup = some row) (hdue : row.due now = true)
    (hpass : reconcileNodeCleanup contract w now clock w.db w.deleted = .ok w')
    (hrow' : w'.cleanup = some row') (hclean : row'.state = .clean) :
    ∀ d ∈ w.db.deployments, d.finalized = true → d.revision ∉ w.deleted →
      Protected w.db w.deleted d.revision := by
  intro d hd hfinalized hdeleted
  obtain ⟨snapshot, hpolicy, hsome, hnone⟩ :=
    reconcileRow_clean (reconcile_of_due hrow hdue hpass hrow') hclean
  obtain ⟨inventory, hinventory⟩ := Option.isSome_iff_exists.mp hsome
  have hknown : release d ∈ inventory := reach_complete hreach row hrow inventory hinventory _
    (List.mem_map.mpr ⟨d, List.mem_filter.mpr ⟨hd, hfinalized⟩, rfl⟩) hdeleted
  by_contra hunprotected
  refine hnone (release d) ?_ ((mem_delete hpolicy).mpr ⟨⟨d, hd, hdeleted, rfl⟩, hunprotected⟩)
  rw [hinventory]
  exact hknown

end

end Runs

section CleanSamples

open Sample

/-- Revision 1 was discovered, abandoned and deleted; revision 2 is finalized, then abandoned. -/
def Sample.forgotten : List (World → Event) :=
  offered ++ [claim 10, report 11 [entry 1] [], begin_ 12 2, finalize 13 2, abandon 14 2]

/-- The next pass sets `clean` although revision 2 is unprotected and not deleted. -/
theorem forgotten_release_is_left :
    ∃ w, Reach (World.next contract) (fun _ event => event.Fits) (World.initial "node-a") w ∧
      (runFrom w [pass 15]).cleanup.map (·.state) = some .clean ∧
      ∃ d ∈ w.db.deployments, d.revision = 2 ∧ d.finalized = true ∧ d.revision ∉ w.deleted ∧
        ¬Protected w.db w.deleted d.revision := by
  refine ⟨run forgotten, reach_runScript _ ?_, ?_⟩ <;> decide +kernel

/-- Revision 1 is abandoned, revision 2 is staged; both are discovered, and 1 is deleted. -/
def Sample.deletedOne : List (World → Event) :=
  [retain 1 1, attest 2, begin_ 3 1, finalize 4 1, abandon 5 1, begin_ 6 2, finalize 7 2, pass 8,
    claim 9, report 10 [] [entry 1, entry 2], pass 38, attest 39, claim 40,
    report 41 [entry 1] [entry 2]]

/-- The next pass is clean, and revision 2, which is left, is protected. -/
theorem clean_pass_after_deletion :
    let w := run deletedOne
    (runFrom w [pass 80]).cleanup.map (·.state) = some .clean ∧ w.deleted = [1] ∧
      ∀ d ∈ w.db.deployments, d.finalized = true → d.revision ∉ w.deleted →
        Protected w.db w.deleted d.revision := by
  have hreach : Reach (World.next contract) (Discovers contract) (World.initial "node-a")
      (run deletedOne) := reach_runScript _ (by decide +kernel)
  have hfacts : ∃ row ∈ (run deletedOne).cleanup, row.due (seconds 80) = true ∧
      ∃ w' ∈ (reconcileNodeCleanup contract (run deletedOne) (seconds 80) (seconds 80)
        (run deletedOne).db (run deletedOne).deleted).toOption,
      ∃ row' ∈ w'.cleanup, row'.state = .clean := by
    decide +kernel
  obtain ⟨row, hrow, hdue, w', hpass, row', hrow', hclean⟩ := hfacts
  exact ⟨by decide +kernel, by decide +kernel,
    clean_pass_is_complete hreach hrow hdue (toOption_eq_some.mp hpass) hrow' hclean⟩

end CleanSamples

end Wruntime.Cleanup
