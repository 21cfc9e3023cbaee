import Wruntime.Cleanup.Authority
import Wruntime.Lib.Newest
import Wruntime.Manager.Succession

/-!
Rollbacks and cleanup. A rollback copies the release of an earlier success without looking at
recorded deletions or fencing the authority that is out. Its source is protected by retention alone:
if every claim retains `k` successes, the newest `k` are never deleted, and a source among them is
safe.
-/

namespace Wruntime.Cleanup

open Fallible Runs Newest
open Manager (Db Deployment Revision Time seconds Keys Sound Staged Succession Move Moves)

variable {db : Db} {deleted : List Revision} {r revision : Revision} {k : Nat} {event : Event}
  {row : Deployment} {now : Time}

def history (db : Db) (deleted : List Revision) : List Revision :=
  (db.deployments.filter fun d => d.state = .succeeded ∧ d.revision ≠ db.currentRevision ∧
    d.revision ∉ deleted).map (·.revision)

theorem mem_history : r ∈ history db deleted ↔
      ∃ d ∈ db.deployments, d.revision = r ∧ d.state = .succeeded ∧ r ≠ db.currentRevision ∧
        r ∉ deleted := by
  simp only [history, List.mem_map, List.mem_filter, decide_eq_true_eq]
  constructor
  · rintro ⟨d, ⟨hd, hstate, hcurrent, hdeleted⟩, rfl⟩
    exact ⟨d, hd, rfl, hstate, hcurrent, hdeleted⟩
  · rintro ⟨d, hd, rfl, hstate, hcurrent, hdeleted⟩
    exact ⟨d, ⟨hd, hstate, hcurrent, hdeleted⟩, rfl⟩

theorem nodup_history (hkeys : Keys db) (deleted : List Revision) : (history db deleted).Nodup :=
  hkeys.revisions.sublist (List.filter_sublist.map _)

theorem mem_retained (hkeys : Keys db) : r ∈ retained db deleted k ↔
      r ∈ history db deleted ∧ newer (history db deleted) r < k := by
  have hperm : (((newestFirst db).filter fun d => d.state = .succeeded ∧
      d.revision ≠ db.currentRevision ∧ d.revision ∉ deleted).map (·.revision)).Perm
      (history db deleted) :=
    ((List.perm_insertionSort _ _).filter _).map _
  have hsorted : (((newestFirst db).filter fun d => d.state = .succeeded ∧
      d.revision ≠ db.currentRevision ∧ d.revision ∉ deleted).map (·.revision)).Pairwise
      (· > ·) := by
    have hdescending : ((newestFirst db).map (·.revision)).Pairwise (· ≥ ·) := by
      rw [List.pairwise_map]
      exact List.pairwise_insertionSort (fun a b : Deployment => b.revision ≤ a.revision) _
    have hnodup : ((newestFirst db).map (·.revision)).Nodup :=
      ((List.perm_insertionSort _ _).map _).nodup_iff.mpr hkeys.revisions
    refine List.Pairwise.sublist (List.filter_sublist.map _) ?_
    exact hdescending.imp₂ (fun a b hle hne => lt_of_le_of_ne hle (Ne.symm hne)) hnodup
  rw [retained, List.map_take, mem_take_iff hsorted, hperm.mem_iff, newer_perm hperm]

theorem retained_mono {k' : Nat} (hk : k ≤ k')
    (hr : r ∈ retained db deleted k) : r ∈ retained db deleted k' := by
  rw [retained, List.map_take] at hr ⊢
  exact (List.take_sublist_take_left hk).subset hr

theorem retained_of_history {db' : Db} (hkeys : Keys db) (hkeys' : Keys db')
    {deleted' : List Revision} (hr : r ∈ retained db deleted k) (hkept : r ∈ history db' deleted')
    (hsubset : ∀ x ∈ history db' deleted', x ∈ history db deleted) :
    r ∈ retained db' deleted' k := by
  rw [mem_retained hkeys] at hr
  rw [mem_retained hkeys']
  exact ⟨hkept, lt_of_le_of_lt (newer_mono (nodup_history hkeys' deleted') hsubset) hr.2⟩

/-- The revision is closed, not current, and if it is a success, at least `k` newer
ones are kept. -/
structure Gone (k : Nat) (db : Db) (deleted : List Revision) (r : Revision) : Prop where
  closed : ∃ d ∈ db.deployments, d.revision = r ∧ d.isOpen = false ∧
    (d.state = .succeeded → k ≤ newer (history db deleted) r)
  current : r ≠ db.currentRevision

theorem Gone.not_retained
    (h : Gone k db deleted r) (hkeys : Keys db) : r ∉ retained db deleted k := by
  intro hretained
  obtain ⟨hhistory, hlt⟩ := (mem_retained hkeys).mp hretained
  obtain ⟨d, hd, hrevision, -, hnewer⟩ := h.closed
  obtain ⟨d', hd', hrevision', hsucceeded, -⟩ := mem_history.mp hhistory
  obtain rfl := Table.eq_of_nodup_key hkeys.revisions hd hd' (hrevision.trans hrevision'.symm)
  have := hnewer hsucceeded
  omega

theorem Gone.of_undeleted (h : Gone k db deleted r) (hkeys : Keys db) : Gone k db [] r := by
  obtain ⟨⟨d, hd, hrevision, hclosed, hnewer⟩, hcurrent⟩ := h
  refine ⟨⟨d, hd, hrevision, hclosed, fun hsucceeded => (hnewer hsucceeded).trans ?_⟩, hcurrent⟩
  refine newer_mono (nodup_history hkeys deleted) fun x hx => ?_
  obtain ⟨d, hd, hspec⟩ := mem_history.mp hx
  exact mem_history.mpr ⟨d, hd, hspec.1, hspec.2.1, hspec.2.2.1, List.not_mem_nil⟩

/-- Where all that is deleted is out of reach of retention, the newest successes are still there. -/
theorem retained_of_gone (hkeys : Keys db) (hr : r ∈ retained db [] k)
    (hgone : ∀ x ∈ deleted, Gone k db [] x) : r ∈ retained db deleted k := by
  have hkept : r ∉ deleted := fun hmem => (hgone r hmem).not_retained hkeys hr
  obtain ⟨d, hd, hrevision, hsucceeded, hcurrent, -⟩ :=
    mem_history.mp ((mem_retained hkeys).mp hr).1
  refine retained_of_history hkeys hkeys hr
    (mem_history.mpr ⟨d, hd, hrevision, hsucceeded, hcurrent, hkept⟩) fun x hx => ?_
  obtain ⟨d, hd, hrevision, hsucceeded, hcurrent, -⟩ := mem_history.mp hx
  exact mem_history.mpr ⟨d, hd, hrevision, hsucceeded, hcurrent, List.not_mem_nil⟩

section Successions

variable {db' : Db}

theorem ne_current_of_closed (h : Succession db db') (hkeys : Keys db) {d : Deployment}
    (hd : d ∈ db.deployments) (hclosed : d.isOpen = false)
    (hcurrent : d.revision ≠ db.currentRevision) : d.revision ≠ db'.currentRevision := by
  intro heq
  rcases h.current with hsame | ⟨-, row, hrow, hrevision, hopen, -⟩
  · exact hcurrent (heq.trans hsame)
  · obtain rfl := Table.eq_of_nodup_key hkeys.revisions hd hrow (heq.trans hrevision.symm)
    cases hclosed.symm.trans hopen

theorem history_succession (h : Succession db db') (hkeys : Keys db)
    (hr : r ∈ history db deleted) : r ∈ history db' deleted := by
  obtain ⟨d, hd, rfl, hsucceeded, hcurrent, hdeleted⟩ := mem_history.mp hr
  obtain ⟨d', hd', hages⟩ := h.rows d hd
  have hclosed := Deployment.closed_of_succeeded hsucceeded
  exact mem_history.mpr ⟨d', hd', hages.revision, (hages.closed hclosed).2.mpr hsucceeded,
    ne_current_of_closed h hkeys hd hclosed hcurrent, hdeleted⟩

theorem Gone.succession (h : Gone k db deleted r) (hsuccession : Succession db db')
    (hkeys : Keys db) : Gone k db' deleted r := by
  obtain ⟨⟨d, hd, rfl, hclosed, hnewer⟩, hcurrent⟩ := h
  obtain ⟨d', hd', hages⟩ := hsuccession.rows d hd
  refine ⟨⟨d', hd', hages.revision, (hages.closed hclosed).1, ?_⟩,
    ne_current_of_closed hsuccession hkeys hd hclosed hcurrent⟩
  intro hsucceeded
  refine (hnewer ((hages.closed hclosed).2.mp hsucceeded)).trans ?_
  exact newer_mono (nodup_history hkeys deleted)
    fun _ hx => history_succession hsuccession hkeys hx

theorem retained_succession (h : Succession db db') (hkeys : Keys db) (hkeys' : Keys db')
    (hcurrent : db'.currentRevision = db.currentRevision) (hr : r ∈ retained db deleted k) :
    r ∈ retained db' deleted k := by
  refine retained_of_history hkeys hkeys' hr ?_ ?_
  · exact history_succession h hkeys ((mem_retained hkeys).mp hr).1
  · intro x hx
    obtain ⟨d', hd', rfl, hsucceeded, hother, hdeleted⟩ := mem_history.mp hx
    obtain ⟨d, hd, hrevision, hstate⟩ := h.successes d' hd' hsucceeded hother
    exact mem_history.mpr ⟨d, hd, hrevision, hstate, hcurrent ▸ hother, hdeleted⟩

end Successions

def Prepared (db : Db) (revision : Revision) : Prop :=
  ∃ d ∈ db.deployments, d.revision = revision ∧ (d.finalized = true ∨ d.abandoned = true)

def Sourced (k : Nat) (db : Db) (deleted : List Revision) (source target : Revision) : Prop :=
  Prepared db target ∨
    (∃ d ∈ db.deployments, d.revision = target ∧ d.isOpen = true) ∧ source ∈ retained db deleted k

/-- The facts about a node that the writes of a call rest on. -/
structure Settled (db : Db) : Prop where
  keys : Keys db
  sound : Sound db
  staged : Staged db

section Settled

variable {db' : Db} {source target : Revision}

theorem Settled.succession (h : Settled db) (hmove : Move now db db') : Succession db db' :=
  hmove.succession h.keys h.sound.staging h.staged fun op hop => (h.sound.operations op hop).1

theorem Settled.move (h : Settled db) (hmove : Move now db db') : Settled db' :=
  ⟨hmove.keys h.keys, hmove.sound h.keys h.sound,
    hmove.staged h.keys h.sound.staging h.staged fun op hop => (h.sound.operations op hop).1⟩

theorem Prepared.succession (h : Prepared db target) (hsuccession : Succession db db') :
    Prepared db' target := by
  obtain ⟨d, hd, rfl, hdone⟩ := h
  obtain ⟨d', hd', hages⟩ := hsuccession.rows d hd
  exact ⟨d', hd', hages.revision, hdone.imp hages.finalized hages.abandoned⟩

theorem Sourced.move (h : Sourced k db deleted source target) (hdb : Settled db)
    (hmove : Move now db db') : Sourced k db' deleted source target := by
  have hsuccession := hdb.succession hmove
  rcases h with hprepared | ⟨⟨d, hd, rfl, hopen⟩, hretained⟩
  · exact .inl (hprepared.succession hsuccession)
  by_cases hbound : d.operationId.isSome = true
  · -- A submitted rollback was finalized.
    exact .inl (Prepared.succession ⟨d, hd, rfl, .inl (hdb.staged.submitted d hd hbound)⟩ hsuccession)
  obtain ⟨d', hd', hages⟩ := hsuccession.rows d hd
  rcases hages.opened hopen with hopen' | habandoned | hsubmitted
  · refine .inr ⟨⟨d', hd', hages.revision, hopen'⟩, ?_⟩
    refine retained_succession hsuccession hdb.keys (hdb.move hmove).keys ?_ hretained
    -- The open row is the staged one, and only a submitted row is committed.
    rcases hsuccession.current with hsame | ⟨hstaged, row, hrow, hrevision, -, hrowBound⟩
    · exact hsame
    · have hself := (hdb.sound.staging.opened d hd hopen).1
      rw [hstaged] at hself
      obtain rfl := Table.eq_of_nodup_key hdb.keys.revisions hd hrow
        ((Option.some.inj hself).symm.trans hrevision.symm)
      exact absurd hrowBound hbound
  · exact .inl ⟨d', hd', hages.revision, .inr habandoned⟩
  · exact absurd hsubmitted hbound

theorem Settled.moves {P : Db → Prop} (hdb : Settled db) (h : P db)
    (hkeep : ∀ a b, Settled a → P a → Move now a b → P b) (hmoves : Moves now db db') : P db' := by
  refine (Moves.keeps (P := fun db => Settled db ∧ P db) ?_ hdb.keys ⟨hdb, h⟩ hmoves).2
  rintro a b _ ⟨hsettled, ha⟩ hmove
  exact ⟨hsettled.move hmove, hkeep a b hsettled ha hmove⟩

end Settled

/-- A fresh rollback selects one of the `k` newest successes, whether their releases are deleted or
not, and a claim's policy retains `k`. -/
def Covered (k : Nat) (w : World) : Event → Prop
  | .manager ⟨_, .beginRollback toRevision attemptToken _⟩ _ =>
    w.db.deploymentByToken? attemptToken = none →
      ∀ d ∈ w.db.rollbackSource toRevision, d.revision ∈ retained w.db [] k
  | .reconcile _ _ seen seenDeleted => Fits seen seenDeleted
  | .claim _ _ _ _ _ =>
    Fits w.db w.deleted ∧ ∀ policy ∈ w.db.agentPolicy, k ≤ policy.retentionCount
  | _ => True

instance (k : Nat) (w : World) (event : Event) : Decidable (Covered k w event) := by
  unfold Covered
  split <;> infer_instance

theorem Covered.fits {w : World} (h : Covered k w event) : event.Fits := by
  cases event with
  | reconcile => exact h
  | _ => trivial

section Runs

variable {contract : Contract} {nodeId : String} {w w' : World}

theorem reach_settled {ok : World → Event → Prop}
    (hreach : Reach (World.next contract) ok (World.initial nodeId) w) : Settled w.db := by
  obtain ⟨m, hm, hdb⟩ := reach_manager hreach
  obtain ⟨hsound, hstaged⟩ := Manager.reachable_staged hm
  rw [← hdb]
  exact ⟨(Manager.reachable_sound hm).1, hsound, hstaged⟩

theorem gone_of_unprotected (hdb : Settled w.db)
    (hretention : ∀ policy ∈ w.db.agentPolicy, k ≤ policy.retentionCount)
    (hpolicy : w.db.agentPolicy.isSome = true)
    (hcatalogued : ∃ d ∈ w.db.deployments, d.revision ∉ w.deleted ∧ d.revision = r)
    (hunprotected : ¬Protected w.db w.deleted r) : Gone k w.db w.deleted r := by
  obtain ⟨policy, hagent⟩ := Option.isSome_iff_exists.mp hpolicy
  obtain ⟨d, hd, hdeleted, rfl⟩ := hcatalogued
  have hnot : d.revision ∉ protectedRevisions w.db w.deleted policy.retentionCount :=
    fun hmem => hunprotected ⟨policy, hagent, hmem⟩
  simp only [protectedRevisions, List.mem_append, not_or] at hnot
  obtain ⟨⟨⟨⟨⟨⟨hcurrent, -⟩, hretained⟩, -⟩, hunfinished⟩, -⟩, -⟩ := hnot
  have hother : d.revision ≠ w.db.currentRevision := by
    intro heq
    have hpositive : 0 < w.db.currentRevision :=
      Nat.pos_of_ne_zero (heq ▸ hdb.sound.staging.positive d hd)
    rw [if_pos hpositive, List.mem_singleton] at hcurrent
    exact hcurrent heq
  have hclosed : d.isOpen = false := by
    rw [← Bool.not_eq_true]
    intro hopen
    refine hunfinished (List.mem_map.mpr ⟨d, ?_, rfl⟩)
    have hlive := (hdb.sound.staging.opened d hd hopen).2
    simp [newestFirst, hd, hopen, hlive, hdeleted]
  refine ⟨⟨d, hd, rfl, hclosed, ?_⟩, hother⟩
  intro hsucceeded
  have hhistory : d.revision ∈ history w.db w.deleted :=
    mem_history.mpr ⟨d, hd, rfl, hsucceeded, hother, hdeleted⟩
  have hnewer : ¬newer (history w.db w.deleted) d.revision < policy.retentionCount :=
    fun hlt => hretained ((mem_retained hdb.keys).mpr ⟨hhistory, hlt⟩)
  have := hretention policy hagent
  omega

def Clear (k : Nat) (w : World) : Prop :=
  ∀ row ∈ w.cleanup, row.state = .claimed → ∀ authority, row.authority = some authority →
    ∀ r ∈ authority.deleteReleases, Gone k w.db w.deleted r.revision

theorem Reconciled.claimed {seen : Db} {seenDeleted : List Revision} {row row' : Row}
    (h : Reconciled contract seen seenDeleted row row') (hstate : row'.state = .claimed) :
    row.state = .claimed ∧ row'.authority = row.authority := by
  cases h with
  | kept | touched => exact ⟨hstate, rfl⟩
  | paused => cases hstate
  | materialized =>
    unfold Row.materialize at hstate
    split at hstate <;> cases hstate

theorem World.fence_claimed {passes : Nat} {row : Row} (h : (w.fence now passes).cleanup = some row)
    (hstate : row.state = .claimed) : w.cleanup = some row := by
  obtain ⟨old, hold, rfl | ⟨generation, -, rfl⟩⟩ := World.fence_cleanup h
  · exact hold
  · cases hstate

theorem Outcome.clear (h : Outcome contract w event w') (hsha : Function.Injective contract.sha256)
    (hcovered : Covered k w event) (hdb : Settled w.db)
    (htied : ∀ row ∈ w.cleanup, row.Tied contract) (hw : Clear k w) : Clear k w' := by
  have hmoves := h.moves hdb.keys
  intro row' hrow' hstate authority hauthority r hr
  cases h with
  | same => exact hw row' hrow' hstate authority hauthority r hr
  | manager =>
    obtain ⟨now, hmoves⟩ := hmoves
    have hgone := hw row' (World.fence_claimed hrow' hstate) hstate authority hauthority r hr
    exact hdb.moves (P := fun db => Gone k db w.deleted r.revision) hgone
      (fun a b ha hgone hmove => hgone.succession (ha.succession hmove) ha.keys) hmoves
  | fenced => exact hw row' (World.fence_claimed hrow' hstate) hstate authority hauthority r hr
  | reconciled hrow hreconciled =>
    obtain rfl := Option.some.inj hrow'
    obtain ⟨hclaimed, hsame⟩ := hreconciled.claimed hstate
    rcases hrow with hrow | ⟨-, rfl⟩
    · exact hw _ hrow hclaimed authority (hsame ▸ hauthority) r hr
    · cases hclaimed
  | @claimed _ _ _ _ _ row policy hrow hclaimable hpolicy hfingerprint =>
    obtain rfl := Option.some.inj hrow'
    obtain ⟨hfits, hretention⟩ := hcovered
    have hdelete := delete_of_claim hsha (htied row hrow) hclaimable hfits hpolicy hfingerprint
      hauthority hr
    obtain ⟨⟨d, hd, hdeleted, rfl⟩, hunprotected⟩ := (mem_delete hpolicy).mp hdelete
    obtain ⟨agent, hagent, -⟩ := managerCleanupPolicy_eq_ok.mp hpolicy
    exact gone_of_unprotected hdb hretention (by rw [hagent]; rfl) ⟨d, hd, hdeleted, rfl⟩
      hunprotected
  | renewed hrow hheld =>
    obtain rfl := Option.some.inj hrow'
    exact hw _ hrow hstate authority hauthority r hr
  | cleaned | pausedReport =>
    obtain rfl := Option.some.inj hrow'
    cases hstate

theorem reach_clear (hsha : Function.Injective contract.sha256)
    (hreach : Reach (World.next contract) (Covered k) (World.initial nodeId) w) : Clear k w := by
  refine hreach.invariant (P := Clear k) ?_ ?_
  · rintro row hrow
    cases hrow
  · intro w event hprev hcovered hw
    exact (next_outcome contract w event).clear hsha hcovered (reach_settled hprev)
      (reach_tied (hprev.mono fun _ _ => Covered.fits)) hw

/-- What is deleted was out of reach of retention when it was claimed, and stays so. -/
theorem reach_gone (hsha : Function.Injective contract.sha256)
    (hreach : Reach (World.next contract) (Covered k) (World.initial nodeId) w) :
    ∀ x ∈ w.deleted, Gone k w.db [] x := by
  refine hreach.invariant (P := fun w => ∀ x ∈ w.deleted, Gone k w.db [] x)
    (fun _ hx => absurd hx List.not_mem_nil) fun w event hprev hcovered hw x hx => ?_
  have hdb := reach_settled hprev
  have houtcome := next_outcome contract w event
  have hmoves := houtcome.moves hdb.keys
  generalize w.next contract event = w' at *
  cases houtcome with
  | manager =>
    obtain ⟨now, hmoves⟩ := hmoves
    exact hdb.moves (P := fun db => Gone k db [] x) (hw x hx)
      (fun a b ha hgone hmove => hgone.succession (ha.succession hmove) ha.keys) hmoves
  | @cleaned _ request _ row authority hrow hheld hauthority hcheck =>
    rcases mem_recordDeletions.mp hx with hold | hnew
    · exact hw x hold
    · obtain ⟨r, hr, rfl⟩ := List.mem_map.mp hnew
      have hsame := (checkResult_eq_ok.mp hcheck).2.2.1
      exact (reach_clear hsha hprev row hrow (Row.heldBy_state hheld) authority hauthority r
        ((hsame r).mp hr)).of_undeleted hdb.keys
  | _ => exact hw x hx

theorem Outcome.sourced (h : Outcome contract w event w') (hdb : Settled w.db)
    (hclear : Clear k w) {source target : Revision}
    (hw : Sourced k w.db w.deleted source target) : Sourced k w'.db w'.deleted source target := by
  have hmoves := h.moves hdb.keys
  cases h with
  | manager =>
    obtain ⟨now, hmoves⟩ := hmoves
    exact hdb.moves (P := fun db => Sourced k db w.deleted source target) hw
      (fun a b ha hsourced hmove => hsourced.move ha hmove) hmoves
  | @cleaned _ request _ row authority hrow hheld hauthority hcheck =>
    rcases hw with hprepared | ⟨hopen, hretained⟩
    · exact .inl hprepared
    refine .inr ⟨hopen, ?_⟩
    have hsame := (checkResult_eq_ok.mp hcheck).2.2.1
    obtain ⟨d, hd, rfl, hsucceeded, hcurrent, hdeleted⟩ :=
      mem_history.mp ((mem_retained hdb.keys).mp hretained).1
    have hsubset : ∀ x, x ∈ w.deleted →
        x ∈ (recordDeletions w.deletions request.deletedReleases request.generation).map
          (·.release.revision) :=
      fun x hx => mem_recordDeletions.mpr (.inl hx)
    refine retained_of_history hdb.keys hdb.keys hretained ?_ ?_
    · refine mem_history.mpr ⟨d, hd, rfl, hsucceeded, hcurrent, ?_⟩
      intro hmem
      rcases mem_recordDeletions.mp hmem with hold | hnew
      · exact hdeleted hold
      · -- What the authority names is out of reach of retention.
        obtain ⟨r, hr, hrevision⟩ := List.mem_map.mp hnew
        have hgone := hclear row hrow (Row.heldBy_state hheld) authority hauthority r
          ((hsame r).mp hr)
        rw [hrevision] at hgone
        exact hgone.not_retained hdb.keys hretained
    · intro x hx
      obtain ⟨d, hd, rfl, hstate, hother, hkept⟩ := mem_history.mp hx
      exact mem_history.mpr ⟨d, hd, rfl, hstate, hother, fun hmem => hkept (hsubset _ hmem)⟩
  | _ => exact hw

theorem beginRollback_fresh {contract : Manager.DeploymentContract} {db' : Db}
    {toRevision : Revision} {attemptToken actor : String}
    (hfresh : db.deploymentByToken? attemptToken = none)
    (h : Manager.beginRollback contract db toRevision attemptToken actor = .ok (db', row)) :
    db' = db.allocate row ∧ row.isOpen = true ∧
      ∃ d ∈ db.rollbackSource toRevision, row.sourceRevision = d.revision := by
  simp only [Manager.beginRollback, bind_eq_ok, ensure_eq_ok, hfresh] at h
  obtain ⟨_, _, h⟩ := h
  split at h
  · cases h
  · simp only [bind_eq_ok, ensure_eq_ok, required_eq_ok] at h
    obtain ⟨_, _, selected, hselected, _, _, _, _, h⟩ := h
    obtain ⟨hdb, hrow⟩ := Prod.mk.inj (pure_eq_ok.mp h)
    rw [← hrow]
    exact ⟨hdb.symm, rfl, selected, hselected, rfl⟩

theorem beginRollback_of_step {moved : Nat} {toRevision : Revision}
    {attemptToken actor : String} (h : (step contract w
      (.manager ⟨now, .beginRollback toRevision attemptToken actor⟩ moved)).2 =
        .manager (.deployment row)) :
    Manager.beginRollback contract.deployment w.db toRevision attemptToken actor =
        .ok ((w.next contract
          (.manager ⟨now, .beginRollback toRevision attemptToken actor⟩ moved)).db, row) ∧
      (w.next contract
        (.manager ⟨now, .beginRollback toRevision attemptToken actor⟩ moved)).cleanup =
          w.cleanup := by
  refine ⟨?_, ?_⟩
  · change Reply.manager (Manager.settle w.db .deployment (Manager.beginRollback
      contract.deployment w.db toRevision attemptToken actor)).2 = _ at h
    change _ = Except.ok ((Manager.settle w.db .deployment (Manager.beginRollback
      contract.deployment w.db toRevision attemptToken actor)).1, row)
    cases hresult : Manager.beginRollback contract.deployment w.db toRevision attemptToken
        actor with
    | error status =>
      rw [hresult] at h
      cases h
    | ok result =>
      rw [hresult] at h
      cases h
      rfl
  · change w.cleanup.map (fun row => (Row.fence · now)^[0] row) = w.cleanup
    simp

theorem Sourced.of_allocate (hkeys : Keys db) (hkeys' : Keys (db.allocate row))
    (hopen : row.isOpen = true) (hretained : row.sourceRevision ∈ retained db deleted k) :
    Sourced k (db.allocate row) deleted row.sourceRevision row.revision := by
  refine .inr ⟨⟨row, List.mem_append_right _ (List.mem_singleton_self row), rfl, hopen⟩, ?_⟩
  refine retained_of_history hkeys hkeys' hretained ?_ ?_
  · obtain ⟨d, hd, hspec⟩ := mem_history.mp ((mem_retained hkeys).mp hretained).1
    exact mem_history.mpr ⟨d, List.mem_append_left _ hd, hspec⟩
  · intro x hx
    obtain ⟨d, hd, hrevision, hsucceeded, hrest⟩ := mem_history.mp hx
    rcases Table.mem_snoc.mp hd with hd | rfl
    · exact mem_history.mpr ⟨d, hd, hrevision, hsucceeded, hrest⟩
    · -- The new row is open, so it is no success.
      rw [Deployment.closed_of_succeeded hsucceeded] at hopen
      cases hopen

theorem retained_not_claimed (hsha : Function.Injective contract.sha256)
    (hreach : Reach (World.next contract) (Covered k) (World.initial nodeId) w)
    {clock : Time} {agentInstanceId principal freshClaim : String}
    (hcovered : Covered k w (.claim now clock agentInstanceId principal freshClaim))
    {instruction : NodeCleanupInstruction}
    (hreply : (step contract w (.claim now clock agentInstanceId principal freshClaim)).2 =
      .instruction (some instruction)) (hretained : revision ∈ retained w.db w.deleted k) :
    ∀ r ∈ instruction.deleteReleases, r.revision ≠ revision := by
  rintro r hr rfl
  obtain ⟨row, policy, authority, hrow, hclaimable, hpolicy, hfingerprint, hauthority,
    hdelete⟩ := claim_of_step hreply
  rw [hdelete] at hr
  have htied := reach_tied (hreach.mono fun _ _ => Covered.fits) row hrow
  have hmem := delete_of_claim hsha htied hclaimable hcovered.1 hpolicy hfingerprint hauthority hr
  obtain ⟨agent, hagent, -⟩ := managerCleanupPolicy_eq_ok.mp hpolicy
  have hprotected := retained_mono (hcovered.2 agent hagent) hretained
  refine ((mem_delete hpolicy).mp hmem).2 ⟨agent, hagent, ?_⟩
  simp only [protectedRevisions, List.mem_append]
  exact .inl (.inl (.inl (.inl (.inr hprotected))))

/-- In every run whose rollbacks select one of the `k` newest successes, and whose claims retain
`k`, a rollback's source is not deleted nor listed for deletion until the rollback is over. -/
theorem covered_rollback_keeps_source (hsha : Function.Injective contract.sha256)
    (hreach : Reach (World.next contract) (Covered k) (World.initial nodeId) w)
    {now : Time} {moved : Nat} {toRevision : Revision} {attemptToken actor : String}
    (hcovered : Covered k w (.manager ⟨now, .beginRollback toRevision attemptToken actor⟩ moved))
    (hfresh : w.db.deploymentByToken? attemptToken = none) {row : Deployment}
    (hreply : (step contract w
      (.manager ⟨now, .beginRollback toRevision attemptToken actor⟩ moved)).2 =
        .manager (.deployment row)) (hnext : w' = w.next contract
      (.manager ⟨now, .beginRollback toRevision attemptToken actor⟩ moved)) :
    row.sourceRevision ∉ w.deleted ∧ (∀ cleanup ∈ w'.cleanup, cleanup.state = .claimed →
        ∀ authority, cleanup.authority = some authority →
          ∀ r ∈ authority.deleteReleases, r.revision ≠ row.sourceRevision) ∧
      ∀ later, Reach (World.next contract) (Covered k) w' later → ¬Prepared later.db row.revision →
        ∀ now clock agentInstanceId principal freshClaim instruction,
          Covered k later (.claim now clock agentInstanceId principal freshClaim) →
          (step contract later (.claim now clock agentInstanceId principal freshClaim)).2 =
            .instruction (some instruction) →
          ∀ r ∈ instruction.deleteReleases, r.revision ≠ row.sourceRevision := by
  have hdb := reach_settled hreach
  obtain ⟨hrollback, hcleanup⟩ := beginRollback_of_step hreply
  obtain ⟨hallocated, hopen, d, hselected, hsource⟩ := beginRollback_fresh hfresh hrollback
  have hretained : row.sourceRevision ∈ retained w.db w.deleted k :=
    retained_of_gone hdb.keys (hsource ▸ hcovered hfresh d hselected) (reach_gone hsha hreach)
  have hreach' : Reach (World.next contract) (Covered k) (World.initial nodeId) w' :=
    hnext ▸ hreach.step hcovered
  rw [← hnext] at hcleanup hallocated
  refine ⟨?_, ?_, ?_⟩
  · obtain ⟨_, _, _, _, _, hkept⟩ := mem_history.mp ((mem_retained hdb.keys).mp hretained).1
    exact hkept
  · intro cleanup hmem hstate authority hauthority r hr heq
    have hgone := reach_clear hsha hreach cleanup (hcleanup ▸ hmem) hstate authority hauthority
      r hr
    rw [heq] at hgone
    exact hgone.not_retained hdb.keys hretained
  · intro later hlater hunprepared now' clock agentInstanceId principal freshClaim instruction
      hclaim hinstruction
    have hstart : Sourced k w'.db w'.deleted row.sourceRevision row.revision := by
      have hdeleted : w'.deleted = w.deleted := by
        rw [hnext]
        rfl
      have hkeys' := (reach_settled hreach').keys
      rw [hallocated] at hkeys' ⊢
      rw [hdeleted]
      exact .of_allocate hdb.keys hkeys' hopen hretained
    have hsourced : Sourced k later.db later.deleted row.sourceRevision row.revision := by
      refine hlater.invariant (P := fun w => Sourced k w.db w.deleted row.sourceRevision
        row.revision) hstart ?_
      intro s event hs _ hsourced
      exact (next_outcome contract s event).sourced (reach_settled (hreach'.trans hs))
        (reach_clear hsha (hreach'.trans hs)) hsourced
    exact retained_not_claimed hsha (hreach'.trans hlater) hclaim hinstruction
      (hsourced.resolve_left hunprepared).2

end Runs

/-! Worked runs: three successes, of which the policy retains one. -/

namespace Sample

open Manager (BackendTerminationEvidence NodeOperationStepKind)
open Manager.Sample (bundle resolved)

def submit (n : Nat) (revision : Revision) : World → Event :=
  call n (.submit ⟨"node-a", token revision, .deployment, revision, bundle, none, resolved, ""⟩
    "alice" "unused")

def operationId (revision : Revision) : String :=
  ((revisions.find? fun row => row.1 = revision).map (·.2.2)).getD ""

def proxyStep (n : Nat) (revision observed : Revision) (step : NodeOperationStepKind)
    (backend process : String) (stopped : Option BackendTerminationEvidence) :
    List (World → Event) :=
  [call n (.claim "activation-1" "agent-a"),
    call n (.reportStep
      { Manager.Sample.result (operationId revision) 1 step .proxy observed backend process with
        terminationEvidence := stopped } "agent-a")]

def submitted (n : Nat) (revision : Revision) : List (World → Event) :=
  [attest n, begin_ n revision, finalize n revision, submit n revision]

def firstDeployment (n : Nat) : List (World → Event) :=
  submitted n 1 ++ proxyStep n 1 1 .selectRelease "" "" none ++
    proxyStep n 1 1 .startBackend "proxy-1" "process-1" none ++
    proxyStep n 1 1 .verifyProxy "proxy-1" "process-1" none ++
    [call n (.claim "activation-1" "agent-a")]

def nextDeployment (n : Nat) (revision : Revision) : List (World → Event) :=
  let old := toString (revision - 1)
  let new := toString revision
  submitted n revision ++
    proxyStep n revision (revision - 1) .verifyTarget ("proxy-" ++ old) ("process-" ++ old) none ++
    proxyStep n revision (revision - 1) .stopBackend ("proxy-" ++ old) ("process-" ++ old)
      (some ⟨"proxy-" ++ old, "process-" ++ old, true, false, .graceful, "success", some 0, none⟩) ++
    proxyStep n revision revision .selectRelease "" "" none ++
    proxyStep n revision revision .startBackend ("proxy-" ++ new) ("process-" ++ new) none ++
    proxyStep n revision revision .verifyProxy ("proxy-" ++ new) ("process-" ++ new) none ++
    [call n (.claim "activation-1" "agent-a")]

def threeSuccesses : List (World → Event) :=
  retain 1 1 :: firstDeployment 2 ++ nextDeployment 3 2 ++ nextDeployment 4 3

def handedOut : List (World → Event) :=
  threeSuccesses ++ [attest 5, pass 5, claim 6, report 7 [] [entry 1, entry 2, entry 3],
    pass 40, attest 41, claim 41]

def rollback (n : Nat) (toRevision : Revision) : World → Event :=
  call n (.beginRollback toRevision "attempt-4" "alice")

def source? : Reply → Option Revision
  | .manager (.deployment row) => some row.sourceRevision
  | _ => none

theorem source?_eq_some {reply : Reply} (h : source? reply = some revision) :
    ∃ row, reply = .manager (.deployment row) ∧ row.sourceRevision = revision := by
  unfold source? at h
  split at h
  next row => exact ⟨row, rfl, Option.some.inj h⟩
  · cases h

def deletions? : Reply → Option (List Revision)
  | .instruction (some instruction) => some (instruction.deleteReleases.map (·.revision))
  | _ => none

def reply (w : World) (event : World → Event) : Reply := (step contract w (event w)).2

def deleteFirst (n : Nat) : World → Event := report n [entry 1] [entry 2, entry 3]

end Sample

section Samples

open Sample

/-- A rollback to revision 1 is accepted while its deletion is handed out. The deletion is accepted
and handed out again, and a rollback to it is accepted even then. -/
theorem rollback_source_is_deleted :
    ∃ w, Reach (World.next contract) (fun _ event => event.Fits) (World.initial "node-a") w ∧
      source? (reply w (rollback 42 1)) = some 1 ∧ (runFrom w [rollback 42 1]).cleanup = w.cleanup ∧
      reply (runFrom w [rollback 42 1]) (deleteFirst 43) = .disposition .accepted ∧
      deletions? (reply (runFrom w [rollback 42 1, pass 73, attest 74]) (claim 74)) = some [1] ∧
      (runFrom w [deleteFirst 42]).deleted = [1] ∧
      source? (reply (runFrom w [deleteFirst 42]) (rollback 43 1)) = some 1 := by
  refine ⟨run handedOut, reach_runScript _ ?_, ?_⟩ <;> decide +kernel

/-- A rollback to the retained revision 2 keeps its source while revision 1 is handed out. -/
theorem covered_rollback_keeps_second :
    ∃ w row, deletions? (reply w (claim 42)) = some [1] ∧ row.sourceRevision = 2 ∧
      reply w (rollback 42 2) = .manager (.deployment row) ∧ 2 ∉ w.deleted ∧
      ∀ later, Reach (World.next contract) (Covered 1) (runFrom w [rollback 42 2]) later →
        ¬Prepared later.db row.revision →
        ∀ now clock agentInstanceId principal freshClaim instruction,
          Covered 1 later (.claim now clock agentInstanceId principal freshClaim) →
          (step contract later (.claim now clock agentInstanceId principal freshClaim)).2 =
            .instruction (some instruction) → ∀ r ∈ instruction.deleteReleases, r.revision ≠ 2 := by
  have hreach : Reach (World.next contract) (Covered 1) (World.initial "node-a")
      (run handedOut) :=
    reach_runScript _ (by decide +kernel)
  have hfacts : deletions? (reply (run handedOut) (claim 42)) = some [1] ∧
      source? (reply (run handedOut) (rollback 42 2)) = some 2 ∧
      Covered 1 (run handedOut) (rollback 42 2 (run handedOut)) ∧
      (run handedOut).db.deploymentByToken? "attempt-4" = none := by
    decide +kernel
  obtain ⟨hdeletes, hsource, hcovered, hfresh⟩ := hfacts
  obtain ⟨row, hreply, hrow⟩ := source?_eq_some hsource
  obtain ⟨hkept, -, hlater⟩ := covered_rollback_keeps_source List.cons_injective hreach hcovered
    hfresh hreply rfl
  rw [hrow] at hkept hlater
  exact ⟨run handedOut, row, hdeletes, hrow, hreply, hkept, hlater⟩

end Samples

end Wruntime.Cleanup
