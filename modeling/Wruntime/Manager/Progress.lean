import Mathlib.Data.List.GetD
import Wruntime.Manager.Lifecycle

/-!
Forward progress of an operation. A slot's path is a fixed list of steps for its transition; a
forward operation walks the slots along their paths, one at a time in rollout order, after the
proxy. The invariant is stated on one operation and kept by every write.
-/

namespace Wruntime.Manager

open Fallible Table Runs WorkList

variable {k : Nat} {slot t t' : EngineTarget} {db : Db} {now : Time} {op op' : Operation}
  {f : EngineTarget → EngineTarget} {effect : Effect} {rollout : Rollout}

variable {transition : DerivedTransition}

/-- The steps of a slot for each kind of transition, in order. -/
def forwardPath : DerivedTransition → List NodeOperationStepKind
  | .addition =>
    [.verifyReleaseMetadata, .selectRelease, .startBackend, .verifyTarget,
      .switchAuthority, .verifyServing]
  | .replacement =>
    [.verifyReleaseMetadata, .verifyTarget, .stopBackend, .selectRelease, .startBackend,
      .verifyTarget, .switchAuthority, .verifyServing]
  | .removal => [.verifyTarget, .stopBackend, .switchAuthority]
  | .restart => [.verifyTarget, .stopBackend, .startBackend, .verifyTarget, .verifyServing]
  | .unchanged => []

/-- The step after `k` completed ones, unspecified at the end of the path. -/
def stepAt (transition : DerivedTransition) (k : Nat) : NodeOperationStepKind :=
  (forwardPath transition).getD k .unspecified

theorem lt_length_of_stepAt (h : stepAt transition k ≠ .unspecified) :
    k < (forwardPath transition).length := by
  by_contra hle
  exact h (List.getD_eq_default _ _ (not_lt.1 hle))

theorem stepAt_ne_unspecified (h : k < (forwardPath transition).length) :
    stepAt transition k ≠ .unspecified := by
  rw [stepAt, List.getD_eq_getElem _ _ h]
  intro heq
  have hmem := List.getElem_mem (l := forwardPath transition) h
  rw [heq] at hmem
  revert hmem
  cases transition <;> decide

theorem length_forwardPath_le (transition : DerivedTransition) :
    (forwardPath transition).length ≤ 8 := by
  cases transition <;> decide

theorem take_succ_of_stepAt (h : stepAt transition k ≠ .unspecified) :
    (forwardPath transition).take (k + 1) =
      (forwardPath transition).take k ++ [stepAt transition k] := by
  have hlt := lt_length_of_stepAt h
  rw [List.take_succ_eq_append_getElem hlt, stepAt, List.getD_eq_getElem _ _ hlt]

theorem lt_eight_of_stepAt {step : NodeOperationStepKind} (hstep : stepAt transition k = step)
    (hopen : step ≠ .unspecified) : k < 8 :=
  (lt_length_of_stepAt (hstep ▸ hopen)).trans_le (length_forwardPath_le _)

/-- `next_forward_step` walks along the path. It does not tell the two visits of `verify_target`
apart, which are treated by themselves. -/
theorem nextForwardStep_eq_stepAt (transition : DerivedTransition) (k : Nat)
    (hstep : stepAt transition k ≠ .unspecified) (hverify : stepAt transition k ≠ .verifyTarget) :
    storedStep (nextForwardStep transition (stepAt transition k)) = stepAt transition (k + 1) := by
  have hlt := lt_eight_of_stepAt rfl hstep
  revert hstep hverify
  revert k
  cases transition <;> decide

/-- After the first of two target proofs the backend is stopped; after the last one authority is
switched, or serving verified where it does not change. -/
theorem stepAt_succ_verifyTarget (hstep : stepAt transition k = .verifyTarget) :
    stepAt transition (k + 1) =
      if .verifyTarget ∈ (forwardPath transition).take k ∨ transition = .addition then
        if transition = .restart then .verifyServing else .switchAuthority else .stopBackend := by
  have hlt := lt_eight_of_stepAt hstep (by decide)
  revert hstep
  revert k
  cases transition <;> decide

theorem mutated_of_stepAt_switchAuthority (hstep : stepAt transition k = .switchAuthority) :
    .stopBackend ∈ (forwardPath transition).take k ∨
      .selectRelease ∈ (forwardPath transition).take k := by
  have hlt := lt_eight_of_stepAt hstep (by decide)
  revert hstep
  revert k
  cases transition <;> decide

theorem serving_is_last (hstep : stepAt transition k = .verifyServing) :
    stepAt transition (k + 1) = .unspecified := by
  have hlt := lt_eight_of_stepAt hstep (by decide)
  revert hstep
  revert k
  cases transition <;> decide

/-- The revisions that a transition leads between, where revision 0 is none. -/
def DerivedTransition.Leads (transition : DerivedTransition) (source target : Nat) :
    Prop :=
  match transition with
  | .addition => source = 0 ∧ target ≠ 0
  | .replacement => source ≠ 0 ∧ target ≠ 0 ∧ source ≠ target
  | .removal => source ≠ 0 ∧ target = 0
  | .restart => source ≠ 0 ∧ source = target
  | .unchanged => source = target

/-- The steps that a slot has completed. -/
def EngineTarget.taken (t : EngineTarget) : List NodeOperationStepKind :=
  (forwardPath t.transition).take t.progress.completedSteps

/-- A slot's next step, and what it has pinned, changed, switched and converged, follow from its
completed steps. -/
structure EngineTarget.OnPath (t : EngineTarget) : Prop where
  leads : t.transition.Leads t.progress.sourceRevision t.progress.targetRevision
  bound : t.progress.completedSteps ≤ (forwardPath t.transition).length
  next : t.progress.nextStep = stepAt t.transition t.progress.completedSteps
  pinned : t.progress.pinnedProcessInstanceId ≠ "" ↔ .verifyTarget ∈ t.taken
  changed : t.progress.changed = true ↔
    .stopBackend ∈ t.taken ∨ .selectRelease ∈ t.taken
  switched : t.authoritySwitched = true ↔ .switchAuthority ∈ t.taken
  converged : t.servingConverged = true ↔
    .verifyServing ∈ t.taken ∨ forwardPath t.transition = []
  delivered : t.progress.effectDeliveredAt.isSome = t.progress.effectAmbiguous
  mutating : t.progress.effectAmbiguous = true → t.progress.nextStep.isMutating = true

/-- A slot that nothing has happened to, but for a result reported early: `report_step` does not ask
whose turn it is. -/
structure EngineTarget.Fresh (t : EngineTarget) : Prop where
  steps : t.progress.completedSteps = 0
  next : t.progress.nextStep = storedStep (firstForwardStep t.transition)
  unchanged : t.progress.changed = false
  unambiguous : t.progress.effectAmbiguous = false
  undelivered : t.progress.effectDeliveredAt = none
  unpinnedBackend : t.progress.pinnedBackendInstanceId = ""
  unpinnedProcess : t.progress.pinnedProcessInstanceId = ""

section

variable (h : t.OnPath)
include h

namespace EngineTarget

theorem OnPath.leads_of_snapshot (hsnapshot : t'.snapshot = t.snapshot) :
    t'.transition.Leads t'.progress.sourceRevision t'.progress.targetRevision := by
  obtain ⟨-, htransition, hsource, htarget⟩ := snapshot_fields hsnapshot
  rw [htransition, hsource, htarget]
  exact h.leads

/-- A slot is complete once all of its path is taken. -/
theorem OnPath.complete_iff :
    t.complete = true ↔ t.taken = forwardPath t.transition := by
  have hcomplete : t.complete = true ↔
      stepAt t.transition t.progress.completedSteps = .unspecified := by
    rw [← h.next]
    simp [complete, TargetProgress.complete]
  rw [hcomplete]
  constructor
  · intro hstep
    have hlength : (forwardPath t.transition).length ≤ t.progress.completedSteps := by
      by_contra hlt
      exact stepAt_ne_unspecified (not_le.1 hlt) hstep
    exact List.take_of_length_le hlength
  · intro htaken
    have hlength := congrArg List.length htaken
    simp only [taken, List.length_take] at hlength
    exact List.getD_eq_default _ _ (by omega)

theorem OnPath.step {step : NodeOperationStepKind} (hstep : t.progress.nextStep = step)
    (hopen : step ≠ .unspecified) (hsnapshot : t'.snapshot = t.snapshot)
    (hcompleted : t'.progress.completedSteps = t.progress.completedSteps + 1)
    (hnext : t'.progress.nextStep = stepAt t.transition (t.progress.completedSteps + 1))
    (hpinned : t'.progress.pinnedProcessInstanceId ≠ "" ↔
      t.progress.pinnedProcessInstanceId ≠ "" ∨ step = .verifyTarget)
    (hchanged : t'.progress.changed = true ↔
      t.progress.changed = true ∨ step = .stopBackend ∨ step = .selectRelease)
    (hswitched : t'.authoritySwitched = true ↔ t.authoritySwitched = true ∨ step = .switchAuthority)
    (hconverged : t'.servingConverged = true ↔ t.servingConverged = true ∨ step = .verifyServing)
    (hambiguous : t'.progress.effectAmbiguous = false)
    (hdelivered : t'.progress.effectDeliveredAt = none) : t'.OnPath := by
  obtain ⟨-, hpath, -⟩ := snapshot_fields hsnapshot
  have hleads := h.leads_of_snapshot hsnapshot
  have hat : stepAt t.transition t.progress.completedSteps = step := h.next.symm.trans hstep
  have hlt := lt_length_of_stepAt (hat ▸ hopen)
  have htaken : ∀ s, s ∈ t'.taken ↔ s ∈ t.taken ∨ s = step := by
    intro s
    rw [taken, hpath, hcompleted, take_succ_of_stepAt (hat ▸ hopen), hat]
    simp [taken]
  exact
    { leads := hleads
      bound := by rw [hpath, hcompleted]; exact hlt
      next := by rw [hpath, hcompleted]; exact hnext
      pinned := by rw [hpinned, htaken, h.pinned, eq_comm (a := step)]
      changed := by
        rw [hchanged, htaken, htaken, h.changed, eq_comm (a := step), eq_comm (a := step),
          or_or_or_comm]
      switched := by rw [hswitched, htaken, h.switched, eq_comm (a := step)]
      converged := by
        rw [hconverged, htaken, hpath, h.converged, eq_comm (a := step), or_right_comm]
      delivered := by rw [hambiguous, hdelivered]; rfl
      mutating := by simp [hambiguous] }

theorem OnPath.congr (hsnapshot : t'.snapshot = t.snapshot)
    (hcompleted : t'.progress.completedSteps = t.progress.completedSteps)
    (hnext : t'.progress.nextStep = t.progress.nextStep)
    (hpinned : t'.progress.pinnedProcessInstanceId = t.progress.pinnedProcessInstanceId)
    (hchanged : t'.progress.changed = t.progress.changed)
    (hswitched : t'.authoritySwitched = t.authoritySwitched)
    (hconverged : t'.servingConverged = t.servingConverged)
    (hdelivered : t'.progress.effectDeliveredAt.isSome = t'.progress.effectAmbiguous)
    (hmutating : t'.progress.effectAmbiguous = true → t.progress.nextStep.isMutating = true) :
    t'.OnPath := by
  obtain ⟨-, hpath, -⟩ := snapshot_fields hsnapshot
  have hleads := h.leads_of_snapshot hsnapshot
  have htaken : t'.taken = t.taken := by
    rw [taken, hpath, hcompleted, taken]
  exact
    { leads := hleads
      bound := by rw [hpath, hcompleted]; exact h.bound
      next := by rw [hpath, hcompleted, hnext]; exact h.next
      pinned := by rw [hpinned, htaken]; exact h.pinned
      changed := by rw [hchanged, htaken]; exact h.changed
      switched := by rw [hswitched, htaken]; exact h.switched
      converged := by rw [hconverged, htaken, hpath]; exact h.converged
      delivered := hdelivered
      mutating := by rw [hnext]; exact hmutating }

theorem OnPath.target_ne_source (hstep : t.progress.nextStep = .selectRelease) :
    t.progress.targetRevision ≠ t.progress.sourceRevision := by
  have hmem : NodeOperationStepKind.selectRelease ∈ forwardPath t.transition := by
    have hat := h.next.symm.trans hstep
    have hlt : t.progress.completedSteps < (forwardPath t.transition).length :=
      lt_length_of_stepAt (by rw [hat]; decide)
    rw [← hat, stepAt, List.getD_eq_getElem _ _ hlt]
    exact List.getElem_mem hlt
  have hleads := h.leads
  cases htransition : t.transition with
  | addition | replacement =>
    simp only [htransition, DerivedTransition.Leads] at hleads
    lia
  | _ =>
    rw [htransition] at hmem
    exact absurd hmem (by decide)

/-- A target proof is about the source while the backend still runs it: at the first of two. -/
theorem OnPath.provingSource_iff (hstep : t.progress.nextStep = .verifyTarget) :
    t.provingSource = true ↔ ¬(.verifyTarget ∈ t.taken ∨ t.transition = .addition) := by
  have hpinned := h.pinned
  have hsource : t.progress.sourceRevision > 0 ↔ t.transition ≠ .addition := by
    have hleads := h.leads
    have hpath := h.next.symm.trans hstep
    cases htransition : t.transition <;>
      simp only [htransition, DerivedTransition.Leads] at hleads hpath
    case unchanged => simp [stepAt, forwardPath] at hpath
    all_goals simp; lia
  rw [provingSource, decide_eq_true_eq, hsource]
  tauto

end EngineTarget

end

section Steps

attribute [local simp] EngineTarget.advance EngineTarget.onProgress EngineTarget.markSwitched
  EngineTarget.markConverged TargetProgress.advance TargetProgress.markChanged TargetProgress.pin

/-- A reconciliation that advances a slot takes the next step of its path. -/
theorem Advance.onPath (h : Advance db now op slot f) (hslot : slot.OnPath) : (f slot).OnPath := by
  have hat := hslot.next
  have hnext : slot.progress.nextStep ≠ .unspecified →
      slot.progress.nextStep ≠ .verifyTarget →
      storedStep (nextForwardStep slot.transition slot.progress.nextStep) =
        stepAt slot.transition (slot.progress.completedSteps + 1) := by
    rw [hat]
    exact nextForwardStep_eq_stepAt _ _
  have hsnapshot := h.snapshot_eq slot
  cases h with
  | releaseVerified hstep hreported =>
    have hne : slot.progress.nextStep ≠ .unspecified ∧
        slot.progress.nextStep ≠ .verifyTarget ∧ slot.progress.nextStep ≠ .stopBackend ∧
        slot.progress.nextStep ≠ .selectRelease ∧
        slot.progress.nextStep ≠ .switchAuthority ∧
        slot.progress.nextStep ≠ .verifyServing := by
      rcases hstep with hstep | hstep <;> rw [hstep] <;> decide
    obtain ⟨hopen, hverify, hstop, hselect, hswitch, hserve⟩ := hne
    refine hslot.step rfl hopen hsnapshot rfl (hnext hopen hverify) ?_ ?_ ?_ ?_ rfl rfl
    · simp [hverify]
    · simp [hstop, hselect]
    · simp [hswitch]
    · simp [hserve]
  | stopped hstep | started hstep =>
    rw [hstep] at hnext
    refine hslot.step hstep (by decide) hsnapshot rfl (hnext (by decide) (by decide))
      ?_ ?_ ?_ ?_ rfl rfl
    · simp
    · simp
    · simp
    · simp
  | selected hstep =>
    rw [hstep] at hnext
    simp only [if_pos (hslot.target_ne_source hstep)] at hsnapshot ⊢
    refine hslot.step hstep (by decide) hsnapshot rfl (hnext (by decide) (by decide))
      ?_ ?_ ?_ ?_ rfl rfl
    · simp
    · simp
    · simp
    · simp
  | sourceProven backend process hstep hproving hprocess havailable =>
    have hfirst := (hslot.provingSource_iff hstep).1 hproving
    have hpath := stepAt_succ_verifyTarget (hat.symm.trans hstep)
    rw [if_neg (by exact hfirst)] at hpath
    refine hslot.step hstep (by decide) hsnapshot rfl hpath.symm ?_ ?_ ?_ ?_ rfl rfl
    · simp [hprocess]
    · simp
    · simp
    · simp
  | targetProven backend process hstep hproving hprocess =>
    have hsecond : .verifyTarget ∈ slot.taken ∨ slot.transition = .addition := by
      by_contra hfirst
      rw [(hslot.provingSource_iff hstep).2 hfirst] at hproving
      cases hproving
    have hpath := stepAt_succ_verifyTarget (hat.symm.trans hstep)
    rw [if_pos (by exact hsecond)] at hpath
    have hrestart : slot.progress.sourceRevision = slot.progress.targetRevision ↔
        slot.transition = .restart := by
      have hleads := hslot.leads
      have hverify := hat.symm.trans hstep
      cases htransition : slot.transition <;>
        simp only [htransition, DerivedTransition.Leads] at hleads hverify
      case unchanged => simp [stepAt, forwardPath] at hverify
      all_goals simp; lia
    have hnextStep : storedStep
        (if slot.progress.sourceRevision = slot.progress.targetRevision
          then some NodeOperationStepKind.verifyServing else some .switchAuthority) =
        stepAt slot.transition (slot.progress.completedSteps + 1) := by
      rw [hpath]
      by_cases heq : slot.progress.sourceRevision = slot.progress.targetRevision
      · rw [if_pos heq, if_pos (hrestart.1 heq)]; rfl
      · rw [if_neg heq, if_neg (fun hr => heq (hrestart.2 hr))]; rfl
    refine hslot.step hstep (by decide) hsnapshot rfl hnextStep ?_ ?_ ?_ ?_ rfl rfl
    · simp [hprocess]
    · simp
    · simp
    · simp
  | serving hstep =>
    have hlast := serving_is_last (hat.symm.trans hstep)
    refine hslot.step hstep (by decide) hsnapshot rfl hlast.symm ?_ ?_ ?_ ?_ rfl rfl
    · simp
    · simp
    · simp
    · simp

theorem EngineTarget.OnPath.switch (h : t.OnPath)
    (hstep : t.progress.nextStep = .switchAuthority) (revision : Revision) :
    (t.markSwitched.advance (nextForwardStep t.transition .switchAuthority) revision).OnPath := by
  have hat := h.next.symm.trans hstep
  have hnext := nextForwardStep_eq_stepAt t.transition t.progress.completedSteps
    (by rw [hat]; decide) (by rw [hat]; decide)
  rw [hat] at hnext
  have hchanged : t.progress.changed = true :=
    h.changed.2 (mutated_of_stepAt_switchAuthority hat)
  refine h.step hstep (by decide) rfl rfl hnext ?_ ?_ ?_ ?_ rfl rfl
  · simp
  · simp [hchanged]
  · simp
  · simp

end Steps

/-- The rollout order: by group, then by slot name, with distinct slots. -/
structure RolloutOrder (snapshots : List EngineSnapshot) : Prop where
  slots : (snapshots.map (·.engineSlot)).Nodup
  sorted : snapshots.Pairwise fun a b => a.rolloutOrder < b.rolloutOrder
  grouped : snapshots.Pairwise fun a b =>
    a.transition.group < b.transition.group ∨
      a.transition.group = b.transition.group ∧ a.engineSlot < b.engineSlot

namespace Operation

/-- Slots stand in their rollout order. -/
def Ordered (op : Operation) : Prop := RolloutOrder (op.engines.map (·.snapshot))

/-- Slots are worked on one after the other, each along its path, after the proxy. -/
structure InSequence (op : Operation) : Prop where
  onPath : ∀ t ∈ op.engines, t.OnPath
  sequential : Sequential (fun t => t.complete = true) EngineTarget.Fresh op.engines
  proxyFirst : op.proxy.complete = false → ∀ t ∈ op.engines, t.Fresh

theorem Ordered.frame (h : op.Ordered)
    (hframe : Frame op op') : op'.Ordered := by
  unfold Ordered
  rw [hframe.engines]
  exact h

theorem Ordered.nodup (h : op.Ordered) : (op.engines.map (·.engineSlot)).Nodup := by
  have hslots := h.slots
  rw [List.map_map] at hslots
  exact hslots

/-- What is reconciled is the first slot that is not complete. -/
theorem Ordered.reconcileTarget_eq (h : op.Ordered) :
    op.reconcileTarget = op.pendingSlot := by
  have hsorted : op.engines.Pairwise fun a b => a.rolloutOrder < b.rolloutOrder := by
    have hsnapshots := h.sorted
    rw [List.pairwise_map] at hsnapshots
    exact hsnapshots
  unfold reconcileTarget pendingSlot
  rw [foldl_leastBy_of_sorted (hsorted.filter _), List.head?_filter]

end Operation

theorem Reconciles.pendingSlot_eq
    (h : Reconciles now op slot) (hordered : op.Ordered) : op.pendingSlot = some slot :=
  hordered.reconcileTarget_eq.symm.trans h.target

theorem Reconciles.proxy_complete (h : Reconciles now op slot) (hphase : op.phase = .forward) :
    op.proxy.complete = true := by
  refine h.proxy.resolve_right ?_
  simp [Operation.restoreEngineSlotsBeforeProxy, hphase]

theorem mem_of_pendingSlot
    (h : op.pendingSlot = some slot) : slot ∈ op.engines ∧ slot.complete = false :=
  ⟨List.mem_of_find?_eq_some h, by simpa using List.find?_some h⟩

theorem mem_modifySlot (hnodup : (op.engines.map (·.engineSlot)).Nodup)
    (hslot : slot ∈ op.engines) : t ∈ (op.modifySlot slot.engineSlot f).engines ↔
      t = f slot ∨ t ∈ op.engines ∧ t.engineSlot ≠ slot.engineSlot :=
  mem_updateWhere_key hnodup hslot

theorem Operation.InSequence.modifyPending (h : op.InSequence)
    (hordered : op.Ordered) (hslot : op.pendingSlot = some slot) (hproxy : op.proxy.complete = true)
    (hf : (f slot).OnPath) : (op.modifySlot slot.engineSlot f).InSequence where
  onPath := by
    intro t ht
    rcases (mem_modifySlot hordered.nodup (mem_of_pendingSlot hslot).1).1 ht with rfl | ⟨hold, _⟩
    · exact hf
    · exact h.onPath t hold
  sequential :=
    h.sequential.replace (fun t => by simp) hordered.nodup hslot
  proxyFirst := by
    intro hopen
    change op.proxy.complete = false at hopen
    cases hproxy.symm.trans hopen

theorem Operation.InSequence.modifyProgress (h : op.InSequence)
    (slot : String) {f : TargetProgress → TargetProgress}
    (hpath : ∀ t : EngineTarget, t.OnPath → { t with progress := f t.progress }.OnPath)
    (hcomplete : ∀ p, p.complete = true → (f p).complete = true)
    (hfresh : ∀ t : EngineTarget, t.Fresh → { t with progress := f t.progress }.Fresh) :
    (op.modifyProgress slot f).InSequence where
  onPath := forall_updateWhere h.onPath fun t ht _ => hpath t (h.onPath t ht)
  sequential := h.sequential.update (fun t => hcomplete t.progress) hfresh
  proxyFirst := by
    intro hopen
    have hall := h.proxyFirst hopen
    exact forall_updateWhere hall fun t ht _ => hfresh t (hall t ht)

section

variable (h : t.OnPath)
include h

theorem EngineTarget.OnPath.setCondition (code detail : String) :
    { t with progress := t.progress.setCondition code detail }.OnPath :=
  h.congr rfl rfl rfl rfl rfl rfl rfl h.delivered h.mutating

theorem EngineTarget.OnPath.recordEffect
    (request : ReportStepResultRequest) (code detail : String) :
    { t with progress := t.progress.recordEffect request code detail }.OnPath :=
  h.congr rfl rfl rfl rfl rfl rfl rfl h.delivered h.mutating

theorem EngineTarget.OnPath.clearDelivery : { t with progress := t.progress.clearDelivery }.OnPath :=
  h.congr rfl rfl rfl rfl rfl rfl rfl rfl (fun hamb => by cases hamb)

theorem EngineTarget.OnPath.deliver
    (hmutating : t.progress.nextStep.isMutating = true) (now : Time) :
    { t with progress := t.progress.deliver now }.OnPath :=
  h.congr rfl rfl rfl rfl rfl rfl rfl rfl (fun _ => hmutating)

end

theorem EngineTarget.Fresh.setCondition (h : t.Fresh) (code detail : String) :
    { t with progress := t.progress.setCondition code detail }.Fresh :=
  ⟨h.1, h.2, h.3, h.4, h.5, h.6, h.7⟩

theorem EngineTarget.Fresh.recordEffect (h : t.Fresh)
    (request : ReportStepResultRequest) (code detail : String) :
    { t with progress := t.progress.recordEffect request code detail }.Fresh :=
  ⟨h.1, h.2, h.3, h.4, h.5, h.6, h.7⟩

theorem Operation.InSequence.setSlotCondition (h : op.InSequence)
    (slot code detail : String) : (op.setSlotCondition slot code detail).InSequence :=
  h.modifyProgress slot (fun _ ht => ht.setCondition code detail) (fun _ hp => hp)
    (fun _ ht => ht.setCondition code detail)

/-- An instruction for a slot is for the pending one, once the proxy is complete or in a restoration
that begins with the slots. -/
theorem selectTarget_slot {selection : Selection} {key : String}
    (h : op.selectTarget = some selection) (hkey : selection.key = .engineSlot key) :
    ∃ slot, op.pendingSlot = some slot ∧ slot.engineSlot = key ∧ selection = op.slotSelection slot ∧
      (op.proxy.complete = true ∨ op.restoreEngineSlotsBeforeProxy = true) ∧
      slot.progress.nextStep ≠ .switchAuthority ∧ slot.progress.nextStep ≠ .verifyServing := by
  unfold Operation.selectTarget at h
  split at h
  · cases h
    cases hkey
  next hproxy =>
    split at h
    · cases h
    next slot hslot =>
      split at h
      · cases h
      next hstep =>
        cases h
        rw [not_or] at hstep
        refine ⟨slot, hslot, ?_, rfl, ?_, hstep⟩
        · simpa [Operation.slotSelection, TargetProgress.selection] using hkey
        · cases hcomplete : op.proxy.complete <;> simp_all

theorem selectTarget_proxy {selection : Selection}
    (h : op.selectTarget = some selection) (hkey : selection.key = .proxy) :
    op.proxy.complete = false ∧ selection = op.proxySelection := by
  unfold Operation.selectTarget at h
  split at h
  next hproxy =>
    simp only [Bool.and_eq_true, Bool.not_eq_true'] at hproxy
    exact ⟨hproxy.1, (Option.some.inj h).symm⟩
  next hproxy =>
    split at h
    · cases h
    next slot hslot =>
      split at h
      · cases h
      next hstep =>
        cases h
        cases hkey

theorem Operation.InSequence.reconciled (h : op.InSequence) (hordered : op.Ordered)
    (hrec : Reconciles now op slot) (hforward : op.phase = .forward)
    (hf : slot.OnPath → (f slot).OnPath) : (op.modifySlot slot.engineSlot f).InSequence := by
  have hpending := hrec.pendingSlot_eq hordered
  exact h.modifyPending hordered hpending (hrec.proxy_complete hforward)
    (hf (h.onPath _ (mem_of_pendingSlot hpending).1))

/-- Every move of a forward operation keeps its slots in sequence. -/
theorem OpMove.inSequence (hmove : OpMove db now op effect op') (hordered : op.Ordered)
    (hphase : op'.phase = .forward) (h : op.InSequence) : op'.InSequence := by
  have hforward := hmove.phase_forward hphase
  cases hmove with
  | enterRestoration | finishRestored | finishCommitted | finishSucceeded => cases hphase
  | setCondition code detail hrec => exact h.setSlotCondition _ code detail
  | @pause slot code detail hrec =>
    have hset := h.setSlotCondition slot.engineSlot code detail
    rw [hrec.pause_eq]
    exact ⟨hset.1, hset.2, hset.3⟩
  | clearDelivery hrec hnot hdelivered hobservation hafter hshows =>
    exact h.reconciled hordered hrec hforward (·.clearDelivery)
  | advance hrec hnot hcondition hadvance =>
    exact h.reconciled hordered hrec hforward hadvance.onPath
  | @switchAuthority slot hrec hnot hstep =>
    exact h.reconciled hordered hrec hforward (·.switch hstep _)
  | resolveAmbiguity hrec hrestoring | restorePending code detail hrec hrestoring
  | restored hrec hrestoring => simp [hforward] at hrestoring
  | @deliver selection hstate hdeadline hselect hmutating hinspection =>
    cases hkey : selection.key with
    | proxy => exact ⟨h.1, h.2, h.3⟩
    | engineSlot key =>
      obtain ⟨slot, hpending, rfl, rfl, hproxy, _⟩ := selectTarget_slot hselect hkey
      have hslot := h.onPath slot (mem_of_pendingSlot hpending).1
      have hcomplete : op.proxy.complete = true := by
        refine hproxy.resolve_right ?_
        simp [Operation.restoreEngineSlotsBeforeProxy, hforward]
      exact h.modifyPending hordered hpending hcomplete (hslot.deliver hmutating now)
  | reportSlot request code detail =>
    exact h.modifyProgress _ (fun _ ht => ht.recordEffect request code detail)
      (fun _ hp => hp) (fun _ ht => ht.recordEffect request code detail)
  | proxyStep request next hstate hdeadline hincomplete =>
    exact ⟨h.1, h.2, fun _ => h.3 hincomplete⟩
  | _ => exact ⟨h.1, h.2, h.3⟩

theorem deploymentInventory_eq_ok {revision : Revision} {identity : ReleaseIdentity}
    {slots : List String} (h : deploymentInventory db revision = .ok (identity, slots)) :
    identity.revision = revision ∧ (revision = 0 → slots = []) := by
  unfold deploymentInventory at h
  split at h
  next hzero =>
    cases h
    exact ⟨hzero.symm, fun _ => rfl⟩
  next hnonzero =>
    simp only [bind_eq_ok, required_eq_ok] at h
    obtain ⟨row, _, h⟩ := h
    cases pure_eq_ok.1 h
    exact ⟨rfl, fun hzero => absurd hzero hnonzero⟩

theorem nodup_sortedSlots (slots : List String) : (sortedSlots slots).Nodup :=
  ((List.perm_insertionSort (· ≤ ·) slots.dedup).nodup_iff).2 (List.nodup_dedup slots)

theorem mem_sortedSlots {slots : List String} {slot : String} :
    slot ∈ sortedSlots slots ↔ slot ∈ slots := by
  unfold sortedSlots
  rw [(List.perm_insertionSort (· ≤ ·) slots.dedup).mem_iff, List.mem_dedup]

theorem Rollout.nodup_slots (rollout : Rollout) : rollout.slots.Nodup := by
  unfold Rollout.slots
  split <;> exact nodup_sortedSlots _

instance (rollout : Rollout) : Std.Total rollout.before where
  total a b := by
    unfold Rollout.before
    rcases Nat.lt_trichotomy (rollout.transition a).group (rollout.transition b).group with
      hlt | heq | hgt
    · exact .inl (.inl hlt)
    · rcases String.le_total a b with hab | hba
      · exact .inl (.inr ⟨heq, hab⟩)
      · exact .inr (.inr ⟨heq.symm, hba⟩)
    · exact .inr (.inl hgt)

instance (rollout : Rollout) : IsTrans String rollout.before where
  trans a b c hab hbc := by
    unfold Rollout.before at *
    rcases hab with hab | ⟨hab, hleab⟩ <;> rcases hbc with hbc | ⟨hbc, hlebc⟩
    · exact .inl (hab.trans hbc)
    · exact .inl (hbc ▸ hab)
    · exact .inl (hab ▸ hbc)
    · exact .inr ⟨hab.trans hbc, String.le_trans hleab hlebc⟩

namespace Rollout

theorem nodup_orderedSlots (rollout : Rollout) : rollout.orderedSlots.Nodup :=
  ((List.perm_insertionSort rollout.before rollout.slots).nodup_iff).2 rollout.nodup_slots

theorem mem_orderedSlots {slot : String} :
    slot ∈ rollout.orderedSlots ↔ slot ∈ rollout.slots :=
  (List.perm_insertionSort rollout.before rollout.slots).mem_iff

theorem mem_engineTargets (h : t ∈ rollout.engineTargets) :
    t.engineSlot ∈ rollout.slots ∧ ∃ order, t = rollout.engineTarget t.engineSlot order := by
  unfold engineTargets at h
  obtain ⟨i, hi, rfl⟩ := List.mem_mapIdx.1 h
  exact ⟨mem_orderedSlots.1 (List.getElem_mem hi), i, rfl⟩

theorem slots_engineTargets (rollout : Rollout) :
    rollout.engineTargets.map (·.engineSlot) = rollout.orderedSlots := by
  refine List.ext_getElem (by simp [engineTargets]) fun i h₁ h₂ => ?_
  simp [engineTargets, engineTarget]

/-- Targets that a submission derives stand in their order. -/
theorem ordered_engineTargets (rollout : Rollout) :
    RolloutOrder (rollout.engineTargets.map (·.snapshot)) where
  slots := by
    rw [List.map_map]
    change (rollout.engineTargets.map (·.engineSlot)).Nodup
    rw [rollout.slots_engineTargets]
    exact rollout.nodup_orderedSlots
  sorted := by
    rw [List.pairwise_map, List.pairwise_iff_getElem]
    intro i j hi hj hij
    simpa [engineTargets, engineTarget, EngineTarget.snapshot] using hij
  grouped := by
    have hsorted : rollout.orderedSlots.Pairwise rollout.before :=
      List.pairwise_insertionSort rollout.before rollout.slots
    rw [List.pairwise_map, List.pairwise_iff_getElem]
    intro i j hi hj hij
    have hi' : i < rollout.orderedSlots.length := by simpa [engineTargets] using hi
    have hj' : j < rollout.orderedSlots.length := by simpa [engineTargets] using hj
    have hbefore := List.pairwise_iff_getElem.1 hsorted i j hi' hj' hij
    have hne : rollout.orderedSlots[i] ≠ rollout.orderedSlots[j] := by
      intro heq
      have := (rollout.nodup_orderedSlots.getElem_inj_iff).1 heq
      omega
    simp only [engineTargets, List.getElem_mapIdx, EngineTarget.snapshot,
      engineTarget]
    refine hbefore.imp_right fun h => ⟨h.1, ?_⟩
    by_contra hnot
    exact hne (String.le_antisymm h.2 (String.not_lt.1 hnot))

end Rollout

/-- The transitions of a submitted rollout agree with the revisions of its slots. -/
theorem Submitted.leads
    (h : Submitted db now op rollout) {slot : String} (hslot : slot ∈ rollout.slots) :
    (rollout.transition slot).Leads (rollout.slotSource slot).revision
      (rollout.slotTarget slot).revision := by
  obtain ⟨hsource, hsourceSlots⟩ := deploymentInventory_eq_ok h.source
  by_cases hrestart : rollout.action = .restart
  · obtain ⟨named, hnamed, htargets, _⟩ := h.restart (h.action ▸ hrestart)
    have hdeployment : rollout.action.isDeployment = false := by rw [hrestart]; rfl
    have hmem : slot ∈ rollout.sourceSlots := by
      simp only [Rollout.slots, hdeployment, Bool.false_eq_true, if_false, mem_sortedSlots,
        htargets, List.mem_singleton] at hslot
      exact hslot ▸ hnamed
    have hnonzero : rollout.source.revision ≠ 0 := by
      intro hzero
      rw [hsourceSlots (hsource.symm.trans hzero)] at hmem
      cases hmem
    simp only [Rollout.transition, hrestart, if_true, DerivedTransition.Leads,
      Rollout.slotSource, Rollout.slotTarget, hmem, NodeOperationAction.isDeployment]
    exact ⟨hnonzero, rfl⟩
  · have hdeployment : rollout.action.isDeployment = true := by
      have hspecified := h.specified
      rw [← h.action] at hspecified
      cases haction : rollout.action <;> simp_all [NodeOperationAction.isDeployment]
    obtain ⟨htarget, _⟩ := h.target (h.action ▸ hdeployment)
    obtain ⟨htargetRevision, _⟩ := deploymentInventory_eq_ok htarget
    -- Equal revisions are read from the same row.
    have hsame : rollout.source.revision = rollout.target.revision →
        rollout.source = rollout.target := by
      intro heq
      have hrevision : db.currentRevision = op.targetRevision :=
        hsource.symm.trans (heq.trans htargetRevision)
      have hrows := h.source
      rw [hrevision, htarget] at hrows
      exact (Prod.mk.inj (Except.ok.inj hrows)).1.symm
    simp only [Rollout.transition, if_neg hrestart, deriveTransition]
    split
    next hzero =>
      split
      next htargetZero => exact hzero.trans htargetZero.symm
      next htargetNonzero => exact ⟨hzero, htargetNonzero⟩
    next hnonzero =>
      split
      next htargetZero => exact ⟨hnonzero, htargetZero⟩
      next htargetNonzero =>
        split
        next heq => exact congrArg ReleaseIdentity.revision heq
        next hne =>
          refine ⟨hnonzero, htargetNonzero, fun heq => hne ?_⟩
          have hsourceSlot : rollout.slotSource slot = rollout.source := by
            unfold Rollout.slotSource at hnonzero ⊢
            split at hnonzero
            next hmem => rw [if_pos hmem]
            next => exact absurd rfl hnonzero
          have htargetSlot : rollout.slotTarget slot = rollout.target := by
            unfold Rollout.slotTarget at htargetNonzero ⊢
            rw [if_pos hdeployment] at htargetNonzero ⊢
            split at htargetNonzero
            next hmem => rw [if_pos hmem]
            next => exact absurd rfl htargetNonzero
          rw [hsourceSlot, htargetSlot] at heq ⊢
          exact hsame heq

theorem Rollout.engineTarget_onPath {slot : String}
    (hleads : (rollout.transition slot).Leads (rollout.slotSource slot).revision
      (rollout.slotTarget slot).revision) (order : Nat) :
    (rollout.engineTarget slot order).OnPath where
  leads := hleads
  bound := Nat.zero_le _
  next := by
    change storedStep (firstForwardStep (rollout.transition slot)) =
      stepAt (rollout.transition slot) 0
    cases rollout.transition slot <;> rfl
  pinned := by simp [EngineTarget.taken, Rollout.engineTarget, initialProgress]
  changed := by simp [EngineTarget.taken, Rollout.engineTarget, initialProgress]
  switched := by simp [EngineTarget.taken, Rollout.engineTarget, initialProgress]
  converged := by
    simp only [EngineTarget.taken, Rollout.engineTarget, initialProgress]
    cases rollout.transition slot <;> decide
  delivered := rfl
  mutating := by simp [Rollout.engineTarget, initialProgress]

theorem Rollout.engineTarget_fresh (rollout : Rollout) (slot : String) (order : Nat) :
    (rollout.engineTarget slot order).Fresh :=
  ⟨rfl, rfl, rfl, rfl, rfl, rfl, rfl⟩

section

variable (h : Submitted db now op rollout)
include h

theorem Submitted.engines : op.engines = rollout.engineTargets := by
  obtain ⟨_, _, _, _, hrow⟩ := h.row
  rw [hrow]
  rfl

theorem Submitted.ordered : op.Ordered := by
  unfold Operation.Ordered
  rw [h.engines]
  exact rollout.ordered_engineTargets

theorem Submitted.inSequence : op.InSequence := by
  have hfresh : ∀ t ∈ op.engines, t.Fresh := by
    intro t ht
    rw [h.engines] at ht
    obtain ⟨_, order, heq⟩ := Rollout.mem_engineTargets ht
    rw [heq]
    exact rollout.engineTarget_fresh _ _
  refine ⟨?_, sequential_of_fresh hfresh, fun _ => hfresh⟩
  intro t ht
  rw [h.engines] at ht
  obtain ⟨hslot, order, heq⟩ := Rollout.mem_engineTargets ht
  rw [heq]
  exact Rollout.engineTarget_onPath (h.leads hslot) order

end

/-- The steps that the proxy of a forward operation can stand at. -/
def proxyPath : List NodeOperationStepKind :=
  [.verifyTarget, .stopBackend, .selectRelease, .startBackend, .verifyProxy, .unspecified]

/-- In restoration there is one step left for every target that needs one. -/
structure Operation.RestoringSteps (op : Operation) : Prop where
  engines : ∀ t ∈ op.engines,
    t.progress.nextStep = .restoreSource ∨ t.progress.nextStep = .unspecified
  proxy : op.proxy.nextStep = .restoreSource ∨ op.proxy.nextStep = .unspecified

theorem enterRestoration_nextStep (progress : TargetProgress) :
    progress.enterRestoration.nextStep = .restoreSource ∨
      progress.enterRestoration.nextStep = .unspecified := by
  simp only [TargetProgress.enterRestoration]
  split
  · exact .inl rfl
  · exact .inr rfl

theorem Operation.RestoringSteps.modifySlot (h : op.RestoringSteps) (slot : String)
    (hf : ∀ t ∈ op.engines, (f t).progress.nextStep = t.progress.nextStep ∨
      (f t).progress.nextStep = .unspecified) : (op.modifySlot slot f).RestoringSteps := by
  refine ⟨forall_updateWhere h.engines fun t ht _ => ?_, h.proxy⟩
  rcases hf t ht with hsame | hdone
  · rw [hsame]
    exact h.engines t ht
  · exact .inr hdone

/-- In a restoration a slot has its source to restore or nothing to do. -/
theorem OpMove.restoringSteps
    (hmove : OpMove db now op effect op') (hphase : op'.phase = .restoringSource)
    (h : op.phase = .restoringSource → op.RestoringSteps) : op'.RestoringSteps := by
  cases hmove with
  | enterRestoration terminal code detail =>
    refine ⟨?_, enterRestoration_nextStep op.proxy⟩
    intro t ht
    obtain ⟨old, _, rfl⟩ := List.mem_map.1 ht
    exact enterRestoration_nextStep old.progress
  | setCondition code detail =>
    exact (h hphase).modifySlot _ fun t _ => .inl rfl
  | @pause slot code detail hrec =>
    rw [hrec.pause_eq] at hphase ⊢
    have hset : (op.setSlotCondition slot.engineSlot code detail).RestoringSteps :=
      (h hphase).modifySlot _ fun t _ => .inl rfl
    exact ⟨hset.engines, hset.proxy⟩
  | clearDelivery hrec hnot | advance hrec hnot | switchAuthority hrec hnot =>
    exact absurd hphase hnot
  | resolveAmbiguity | restorePending | reportSlot =>
    exact (h hphase).modifySlot _ fun t _ => .inl rfl
  | restored => exact (h hphase).modifySlot _ fun t _ => .inr rfl
  | @deliver selection =>
    cases hkey : selection.key with
    | proxy =>
      rw [hkey] at hphase
      exact ⟨(h hphase).engines, (h hphase).proxy⟩
    | engineSlot slot =>
      rw [hkey] at hphase
      exact (h hphase).modifySlot _ fun t _ => .inl rfl
  | proxyStep request next hstate hdeadline hincomplete hstep hnext =>
    refine ⟨(h hphase).engines, .inr ?_⟩
    have hrestore : request.step = .restoreSource := by
      rw [← hstep]
      refine (h hphase).proxy.resolve_right fun hdone => ?_
      simp [TargetProgress.complete, hdone] at hincomplete
    rw [hrestore] at hnext
    exact (Except.ok.inj hnext).symm
  | finishRestored | finishCommitted | finishSucceeded => cases hphase
  | _ => exact ⟨(h hphase).engines, (h hphase).proxy⟩

theorem OpMove.proxyStep_mem (hmove : OpMove db now op effect op') (hphase : op'.phase = .forward)
    (h : op.proxy.nextStep ∈ proxyPath) : op'.proxy.nextStep ∈ proxyPath := by
  cases hmove with
  | enterRestoration => cases hphase
  | pause code detail hrec =>
    rw [hrec.pause_eq]
    exact h
  | @deliver selection =>
    cases hkey : selection.key <;> exact h
  | proxyStep request next hstate hdeadline hincomplete hstep hnext =>
    change next ∈ proxyPath
    rw [hstep] at h
    have htable : ∀ step ∈ proxyPath, ∀ next, proxyNextStep step = .ok next →
        next ∈ proxyPath := by
      intro step hmem next hok
      simp only [proxyPath, List.mem_cons, List.not_mem_nil, or_false] at hmem
      rcases hmem with rfl | rfl | rfl | rfl | rfl | rfl <;> cases hok <;> decide
    exact htable request.step h next hnext
  | _ => exact h

/-- What holds of an operation by its phase: slots in order and in sequence while it goes forward,
the proxy on its path, and in a restoration no step but those that restore. -/
structure Operation.Progressing (op : Operation) : Prop where
  ordered : op.phase ≠ .complete → op.Ordered
  inSequence : op.phase = .forward → op.InSequence
  proxyStep : op.phase = .forward → op.proxy.nextStep ∈ proxyPath
  restoring : op.phase = .restoringSource → op.RestoringSteps

theorem Submitted.progressing (h : Submitted db now op rollout) : op.Progressing := by
  refine ⟨fun _ => h.ordered, fun _ => h.inSequence, fun _ => ?_, fun hphase => ?_⟩
  · obtain ⟨_, _, _, _, hrow⟩ := h.row
    rw [hrow]
    change rollout.proxyFirst ∈ proxyPath
    unfold Rollout.proxyFirst
    split
    · split <;> decide
    · decide
  · obtain ⟨_, _, _, _, hrow⟩ := h.row
    rw [hrow] at hphase
    cases hphase

theorem Recorded.progressing (h : Recorded db op) : op.Progressing := by
  refine ⟨fun hopen => absurd h.phase hopen, fun hphase => ?_, fun hphase => ?_,
    fun hphase => ?_⟩ <;>
  · cases h.phase.symm.trans hphase

/-- Every move keeps it; the lifecycle says which phases a move leads between. -/
theorem OpMove.progressing (hmove : OpMove db now op effect op') (hlife : op.Lifecycle)
    (h : op.Progressing) : op'.Progressing := by
  have hordered := h.ordered (hlife.active.1 hmove.active)
  refine ⟨fun _ => hordered.frame hmove.frame, fun hphase => ?_, fun hphase => ?_,
    fun hphase => hmove.restoringSteps hphase h.restoring⟩
  · exact hmove.inSequence hordered hphase (h.inSequence (hmove.phase_forward hphase))
  · exact hmove.proxyStep_mem hphase (h.proxyStep (hmove.phase_forward hphase))

theorem Moves.progressing {db' : Db} (hkeys : Keys db)
    (hdb : ∀ op ∈ db.operations, op.Lifecycle ∧ op.Progressing) (h : Moves now db db') :
    ∀ op ∈ db'.operations, op.Lifecycle ∧ op.Progressing := by
  refine Moves.operations_keep (P := fun op => op.Lifecycle ∧ op.Progressing) ?_ ?_ ?_
    hkeys hdb h
  · intro db op rollout _ h
    exact ⟨h.lifecycle, h.progressing⟩
  · intro db op h
    exact ⟨h.lifecycle, h.progressing⟩
  · intro db op effect op' hmove h
    exact ⟨hmove.lifecycle h.1, hmove.progressing h.1 h.2⟩

/-- In every reachable state all operations progress in this sense. -/
theorem reachable_progressing {contract : DeploymentContract} {nodeId : String} {w : World}
    (hreach : Reachable contract nodeId w) :
    ∀ op ∈ w.db.operations, op.Lifecycle ∧ op.Progressing := by
  refine (db_invariant (P := fun db => ∀ op ∈ db.operations, op.Lifecycle ∧ op.Progressing)
    ?_ ?_ hreach).2
  · intro op hop
    cases hop
  · intro now db db' hkeys hdb hmove
    exact Moves.progressing hkeys hdb (.single hmove)

end Wruntime.Manager
