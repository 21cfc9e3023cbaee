import Wruntime.Manager.Serving

/-!
An operation moves the serving map from that of its source revision to that of its target, or back.
Each of its moves keeps `Underway`, its end leaves one of the two maps, and a submission starts it.
-/

namespace Wruntime.Manager

open Fallible Table Runs

variable {db : Db} {revision : Revision} {effect : Effect} {op op' : Operation}
  {f : Operation → Operation} {now : Time} {slot t : EngineTarget} {identity : ReleaseIdentity}
  {serving : String → Revision}

section

variable (h : Underway db op serving)
include h

theorem Underway.plain (hprogress : op.Progressing)
    (hopen : op.phase ≠ .complete) (hmove : OpMove db now op effect op')
    (hlocal : effect = .plain ∨ effect.isReport = true) : Underway db op' serving := by
  have hkept := hmove.slotsKept hlocal
  refine h.frame hmove.frame (fun _ _ => rfl) ?_ ?_
  · intro hphase t' ht'
    obtain ⟨t, ht, hsnapshot, hswitched⟩ := hkept.forward hphase t' ht'
    have hserving := h.forward (hmove.phase_forward hphase) t ht
    rw [hswitched] at hserving
    obtain ⟨hslot, -, hsource, htarget⟩ := snapshot_fields hsnapshot
    rw [← hslot, hserving, hsource, htarget]
  · intro hphase t' ht' hdone
    obtain ⟨t, ht, hsnapshot, hwas⟩ := hkept.restoring hphase t' ht' hdone
    obtain ⟨hslot, -, hsource, -⟩ := snapshot_fields hsnapshot
    rw [← hslot, ← hsource]
    rcases hwas with ⟨hrestoring, hold⟩ | ⟨hnot, hunchanged⟩
    · exact h.restoring hrestoring t ht hold
    · have hforward : op.phase = .forward := by
        cases hp : op.phase with
        | forward => rfl
        | restoringSource => exact absurd hp hnot
        | complete => exact absurd hp hopen
      have honPath := (hprogress.inSequence hforward).onPath t ht
      rw [h.forward hforward t ht, honPath.unswitched hunchanged]
      rfl

theorem Underway.restore
    (hordered : op.Ordered) (hrec : Reconciles now op slot) (hphase : op.phase = .restoringSource)
    {f : EngineTarget → EngineTarget} (hf : ∀ t, (f t).snapshot = t.snapshot) :
    Underway db (op.modifySlot slot.engineSlot f)
      (Function.update serving slot.engineSlot slot.progress.sourceRevision) := by
  obtain ⟨hslot, _⟩ := mem_of_pendingSlot (hrec.pendingSlot_eq hordered)
  refine h.frame (.of_modifySlot op slot.engineSlot hf) ?_ ?_ ?_
  · intro s hs
    refine Function.update_of_ne ?_ _ _
    rintro rfl
    exact hs (List.mem_map_of_mem hslot)
  · intro hforward
    rw [show (op.modifySlot slot.engineSlot f).phase = op.phase from rfl, hphase] at hforward
    cases hforward
  · intro _ t' ht' hdone
    rcases (mem_modifySlot hordered.nodup hslot).1 ht' with rfl | ⟨hold, hne⟩
    · obtain ⟨hkey, -, hsource, -⟩ := snapshot_fields (hf slot)
      rw [hkey, hsource, Function.update_self]
    · rw [Function.update_of_ne hne]
      exact h.restoring hphase t' hold hdone

theorem Underway.switch
    (hordered : op.Ordered) (hrec : Reconciles now op slot) (hphase : op.phase = .forward)
    (next : Option NodeOperationStepKind) (revision : Revision) :
    Underway db (op.modifySlot slot.engineSlot (·.markSwitched.advance next revision))
      (Function.update serving slot.engineSlot slot.progress.targetRevision) := by
  obtain ⟨hslot, _⟩ := mem_of_pendingSlot (hrec.pendingSlot_eq hordered)
  refine h.frame (.of_modifySlot op slot.engineSlot fun t => rfl) ?_ ?_ ?_
  · intro s hs
    refine Function.update_of_ne ?_ _ _
    rintro rfl
    exact hs (List.mem_map_of_mem hslot)
  · intro _ t' ht'
    rcases (mem_modifySlot hordered.nodup hslot).1 ht' with rfl | ⟨hold, hne⟩
    · exact Function.update_self _ _ _
    · rw [Function.update_of_ne hne]
      exact h.forward hphase t' hold
  · intro hrestoring
    rw [show (op.modifySlot slot.engineSlot _).phase = op.phase from rfl, hphase] at hrestoring
    cases hrestoring

theorem Underway.move
    (hlife : op.Lifecycle) (hprogress : op.Progressing) (hmove : OpMove db now op effect op')
    (hactive : op'.isActive = true) : Underway db op' (effect.serving serving) := by
  have hopen := hlife.active.1 hmove.active
  have hordered := hprogress.ordered hopen
  have hwas := hmove.active
  cases effect with
  | plain => exact h.plain hprogress hopen hmove (.inl rfl)
  | report target request => exact h.plain hprogress hopen hmove (.inr rfl)
  | authority slot revision =>
    cases hmove with
    | switchAuthority hrec hphase hstep =>
      exact h.switch hordered hrec (hlife.forward hwas hphase) _ _
    | restorePending code detail hrec hphase =>
      exact h.restore hordered hrec hphase fun t => rfl
    | restored hrec hphase => exact h.restore hordered hrec hphase fun t => rfl
  | commit =>
    rw [hmove.commit_eq.2] at hactive
    cases hactive

theorem Underway.row {slot : String}
    (hordered : op.Ordered) (hmove : OpMove db now op (.authority slot revision) op') :
    revision = 0 ∨ (db.deployment? revision).isSome = true := by
  cases hmove with
  | switchAuthority hrec hphase hstep =>
    rw [h.ends _ (mem_of_pendingSlot (hrec.pendingSlot_eq hordered)).1]
    exact slotRevision_row db _ _
  | restorePending code detail hrec hphase | restored hrec hphase =>
    rw [h.starts _ (mem_of_pendingSlot (hrec.pendingSlot_eq hordered)).1]
    exact slotRevision_row db _ _

end

theorem complete_of_reconcileTarget (hordered : op.Ordered)
    (h : op.reconcileTarget = none) : ∀ t ∈ op.engines, t.complete = true := by
  rw [hordered.reconcileTarget_eq] at h
  intro t ht
  simpa using List.find?_eq_none.1 h t ht

theorem Underway.restored (h : Underway db op serving)
    (hphase : op.phase = .restoringSource) (hdone : ∀ t ∈ op.engines, t.complete = true)
    (s : String) : serving s = db.slotRevision db.currentRevision s := by
  by_cases hs : s ∈ op.engines.map (·.engineSlot)
  · obtain ⟨t, ht, rfl⟩ := List.mem_map.1 hs
    rw [h.restoring hphase t ht (.inl (hdone t ht))]
    exact h.starts t ht
  · exact (h.outside s hs).1

theorem Underway.succeeded
    (h : Underway db op serving) (hphase : op.phase = .forward) (hsequence : op.InSequence)
    (hdone : ∀ t ∈ op.engines, t.complete = true) (s : String) :
    serving s = db.slotRevision op.goal s := by
  by_cases hs : s ∈ op.engines.map (·.engineSlot)
  · obtain ⟨t, ht, rfl⟩ := List.mem_map.1 hs
    rw [h.forward hphase t ht, (hsequence.onPath t ht).settled (hdone t ht)]
    exact h.ends t ht
  · rw [(h.outside s hs).1, (h.outside s hs).2]

def Effect.current (effect : Effect) (op : Operation) (current : Revision) : Revision :=
  match effect with
  | .commit => op.targetRevision
  | .plain | .report _ _ | .authority _ _ => current

theorem Underway.finished (h : Underway db op serving)
    (hlife : op.Lifecycle) (hprogress : op.Progressing)
    (hpositive : op.action.isDeployment = true → op.targetRevision ≠ 0)
    (hmove : OpMove db now op effect op') (hdone : op'.isActive = false) (s : String) :
    effect.serving serving s = db.slotRevision (effect.current op db.currentRevision) s := by
  have hopen := hlife.active.1 hmove.active
  have hcomplete : op'.phase = .complete := by
    have hactive := (hmove.lifecycle hlife).active
    by_contra hne
    rw [hactive.2 hne] at hdone
    cases hdone
  obtain ⟨_, htarget, hcases⟩ := hmove.finished hopen hcomplete
  have hslots := complete_of_reconcileTarget (hprogress.ordered hopen) htarget
  rcases hcases with ⟨hphase, rfl, _⟩ | ⟨hphase, _, ⟨rfl, hcommits, _⟩ | ⟨rfl, hcommits, _⟩⟩
  · exact h.restored hphase hslots s
  · have hforward := hlife.forward hmove.active hphase
    have hgoal : op.goal = op.targetRevision :=
      if_pos (hlife.isDeployment hmove.active hcommits)
    change serving s = db.slotRevision op.targetRevision s
    rw [← hgoal]
    exact h.succeeded hforward (hprogress.inSequence hforward) hslots s
  · have hforward := hlife.forward hmove.active hphase
    have hrestart : op.action.isDeployment = false := by
      by_contra hyes
      have hdeployment : op.action.isDeployment = true := by simpa using hyes
      refine hpositive hdeployment ?_
      by_contra hnonzero
      simp only [Operation.commits, decide_eq_false_iff_not, not_and] at hcommits
      refine hcommits ?_ (Nat.pos_of_ne_zero hnonzero)
      intro haction
      rw [haction] at hdeployment
      cases hdeployment
    have hgoal : op.goal = db.currentRevision := by
      rw [Operation.goal, hrestart]
      exact h.source
    rw [← hgoal]
    exact h.succeeded hforward (hprogress.inSequence hforward) hslots s

theorem slotRevision_rollout (hstaging : Staging db) {slots : List String}
    (h : deploymentInventory db revision = .ok (identity, slots)) (s : String) :
    (if s ∈ slots then identity else noRelease).revision = db.slotRevision revision s := by
  have hrevision := (deploymentInventory_eq_ok h).1
  rw [Db.slotRevision, inventorySlots_of_eq_ok hstaging h]
  split
  · exact hrevision
  · rfl

theorem Submitted.underway {rollout : Rollout}
    (h : Submitted db now op rollout) (hstaging : Staging db)
    (hserving : ∀ s, serving s = db.slotRevision db.currentRevision s) :
    Underway db op serving := by
  have hsource : ∀ s, (rollout.slotSource s).revision =
      db.slotRevision db.currentRevision s := slotRevision_rollout hstaging h.source
  have hcurrent : op.sourceRevision = db.currentRevision := by
    obtain ⟨_, _, _, _, hrow⟩ := h.row
    rw [hrow]
    exact (deploymentInventory_eq_ok h.source).1
  have htarget : ∀ s ∈ rollout.slots,
      (rollout.slotTarget s).revision = db.slotRevision op.goal s := by
    intro s hs
    unfold Rollout.slotTarget Operation.goal
    rw [h.action]
    split
    next haction => exact slotRevision_rollout hstaging (h.target haction).1 s
    next haction =>
      -- A restart names one slot of the current inventory.
      have hrestart : op.action = .restart := by
        have hspecified := h.specified
        cases hop : op.action <;> simp_all [NodeOperationAction.isDeployment]
      obtain ⟨named, hnamed, hslots, _⟩ := h.restart hrestart
      have hs' : s = named := by
        simpa [Rollout.slots, h.action, hrestart, NodeOperationAction.isDeployment, hslots,
          mem_sortedSlots] using hs
      rw [hcurrent, ← hsource s, Rollout.slotSource, hs', if_pos hnamed]
  have houtside : ∀ s ∉ rollout.slots,
      db.slotRevision op.goal s = db.slotRevision db.currentRevision s := by
    intro s hs
    unfold Operation.goal
    split
    next haction =>
      have hneither : s ∉ rollout.sourceSlots ∧ s ∉ rollout.targetSlots := by
        simpa [Rollout.slots, h.action, haction, mem_sortedSlots] using hs
      rw [← slotRevision_rollout hstaging (h.target haction).1 s, if_neg hneither.2,
        ← slotRevision_rollout hstaging h.source s, if_neg hneither.1]
    next => rw [hcurrent]
  have hengine : ∀ t ∈ op.engines, t.engineSlot ∈ rollout.slots ∧
      t.progress.sourceRevision = (rollout.slotSource t.engineSlot).revision ∧
      t.progress.targetRevision = (rollout.slotTarget t.engineSlot).revision ∧
      t.authoritySwitched = false := by
    intro t ht
    rw [h.engines] at ht
    obtain ⟨hslot, order, heq⟩ := Rollout.mem_engineTargets ht
    refine ⟨hslot, ?_, ?_, ?_⟩ <;> rw [heq] <;> rfl
  refine ⟨hcurrent, ?_, ?_, ?_, ?_, ?_⟩
  · intro t ht
    rw [(hengine t ht).2.1]
    exact hsource t.engineSlot
  · intro t ht
    rw [(hengine t ht).2.2.1]
    exact htarget t.engineSlot (hengine t ht).1
  · intro s hs
    refine ⟨hserving s, houtside s ?_⟩
    rw [h.engines, Rollout.slots_engineTargets, Rollout.mem_orderedSlots] at hs
    exact hs
  · intro _ t ht
    rw [(hengine t ht).2.2.2, hserving, (hengine t ht).2.1]
    exact (hsource t.engineSlot).symm
  · intro hphase
    obtain ⟨_, _, _, _, hrow⟩ := h.row
    rw [hrow] at hphase
    cases hphase

end Wruntime.Manager
