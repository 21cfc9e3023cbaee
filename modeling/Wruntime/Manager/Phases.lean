import Wruntime.Manager.Redelivery

/-!
The phases of an operation over whole runs. It goes from forward to complete, directly or through
restoration, and never back. Commits and forward work end at the deadline. A fenced operation ends
in the state recorded then, once every target that restoration sent back has been proven at its
source.
-/

namespace Wruntime.Manager

open Fallible Table Runs Relation

variable {db : Db} {now : Time} {o op op' : Operation} {effect : Effect} {slot : String}
variable {contract : DeploymentContract} {nodeId : String} {w : World}

def NodeOperationPhase.rank : NodeOperationPhase → Nat
  | .forward => 0
  | .restoringSource => 1
  | .complete => 2

section

variable (hmove : OpMove db now op effect op')
include hmove

theorem OpMove.past_deadline (hforward : op.phase = .forward) (hlate : op.forwardDeadline ≤ now) :
    op'.phase = .restoringSource ∨ op'.proxy = op.proxy ∧ op'.engines = op.engines := by
  have hclosed : ¬op.BeforeDeadline now := fun hopen => absurd (hopen hforward) (not_lt.2 hlate)
  cases hmove with
  | expireLease | fencePolicy | resume => exact .inr ⟨rfl, rfl⟩
  | takeLease _ _ _ hdeadline | extendLease _ hdeadline | finishCommitted _ hdeadline
  | finishSucceeded _ hdeadline | deliver _ hdeadline | reportSlot _ _ _ _ hdeadline
  | failProxy _ _ _ hdeadline | proxyStep _ _ _ hdeadline => exact absurd hdeadline hclosed
  | enterRestoration => exact .inl rfl
  | setCondition _ _ hrec | pause _ _ hrec | clearDelivery hrec | advance hrec
  | switchAuthority hrec | resolveAmbiguity hrec | restorePending _ _ hrec | restored hrec =>
    exact absurd hrec.beforeDeadline hclosed
  | finishRestored _ hphase =>
    cases hforward.symm.trans hphase

theorem OpMove.commit_forward (hlife : op.Lifecycle)
    (hbefore : op.committed = false) (hafter : op'.committed = true) :
    op.phase = .forward ∧ now < op.forwardDeadline ∧ op'.phase = .complete := by
  have hcommit : effect = .commit := by
    by_contra hne
    rw [hmove.committed_eq hne, hbefore] at hafter
    cases hafter
  subst hcommit
  have hactive := hmove.active
  cases hmove with
  | finishCommitted hstate hdeadline hphase =>
    have hforward := hlife.forward hactive hphase
    exact ⟨hforward, hdeadline hforward, rfl⟩

theorem OpMove.rank_le (hlife : op.Lifecycle) : op.phase.rank ≤ op'.phase.rank := by
  have hopen := hlife.active.1 hmove.active
  cases hphase' : op'.phase with
  | forward => rw [hmove.phase_forward hphase']
  | restoringSource =>
    cases hphase : op.phase with
    | complete => exact absurd hphase hopen
    | _ => decide
  | complete => cases op.phase <;> decide

end

theorem Operation.Writes.rank_le (h : op.Writes op')
    (hlife : op.Lifecycle) : op'.Lifecycle ∧ op.phase.rank ≤ op'.phase.rank := by
  induction h with
  | refl => exact ⟨hlife, le_rfl⟩
  | tail _ hlast ih =>
    obtain ⟨_, _, _, hmove⟩ := hlast
    exact ⟨hmove.lifecycle ih.1, ih.2.trans (hmove.rank_le ih.1)⟩

theorem Operation.Writes.commit_forward (h : op.Writes op')
    (hlife : op.Lifecycle) (hbefore : op.committed = false) (hafter : op'.committed = true) :
    op.phase = .forward ∧ op'.phase = .complete := by
  induction h with
  | refl =>
    cases hbefore.symm.trans hafter
  | @tail mid last hprev hlast ih =>
    obtain ⟨_, _, _, hmove⟩ := hlast
    obtain ⟨hmid, _⟩ := Operation.Writes.rank_le hprev hlife
    cases hcommitted : mid.committed with
    | true =>
      -- A committed operation is not written again.
      have hactive := hmove.active
      rw [hmid.active] at hactive
      exact absurd (hmid.committed hcommitted).1 hactive
    | false =>
      obtain ⟨hforward, _, hcomplete⟩ := hmove.commit_forward hmid hcommitted hafter
      exact ⟨Operation.Writes.phase_forward hprev hforward, hcomplete⟩

theorem Operation.Writes.restored_end (h : op.Writes op') (hlife : op.Lifecycle)
    (hphase : op.phase = .restoringSource) (hdone : op'.phase = .complete) :
    op'.restorationTerminalState = some op'.state ∧
      (op'.state = .failed ∨ op'.state = .cancelled) := by
  induction h with
  | refl =>
    cases hphase.symm.trans hdone
  | @tail mid last hprev hlast ih =>
    obtain ⟨_, _, _, hmove⟩ := hlast
    obtain ⟨hmid, _⟩ := Operation.Writes.rank_le hprev hlife
    have hopen := hmid.active.1 hmove.active
    have hrestoring : mid.phase = .restoringSource := by
      apply hmid.restoringSource hmove.active
      intro hback
      rw [Operation.Writes.phase_forward hprev hback] at hphase
      cases hphase
    obtain ⟨_, _, ⟨_, _, rfl⟩ | ⟨hnot, _⟩⟩ := hmove.finished hopen hdone
    · rcases hmid.restoring hrestoring with hrecorded | hrecorded
      · simp [Operation.finish, Operation.restoredState, hrecorded]
      · simp [Operation.finish, Operation.restoredState, hrecorded]
    · exact absurd hrestoring hnot

theorem past_deadline_writes {read : Db}
    (h : ReflTransGen (ReadingWrite now read) op op') (hop : op.Lifecycle ∧ op.Progressing)
    (hforward : op.phase = .forward) (hlate : op.forwardDeadline ≤ now) : op'.committed = false ∧
      (op'.phase = .forward → op'.proxy = op.proxy ∧ op'.engines = op.engines) := by
  induction h with
  | refl =>
    refine ⟨?_, fun _ => ⟨rfl, rfl⟩⟩
    cases hcommitted : op.committed with
    | false => rfl
    | true =>
      rw [(hop.1.committed hcommitted).1] at hforward
      cases hforward
  | @tail mid last hprev hlast ih =>
    obtain ⟨db, effect, _, hmove⟩ := hlast
    obtain ⟨hmid, _⟩ := progressing_of_reading hprev hop
    have hdeadline : mid.forwardDeadline ≤ now := by
      rw [(writes_of_reading hprev).frame.forwardDeadline]
      exact hlate
    constructor
    · cases hcommitted : last.committed with
      | false => rfl
      | true =>
        obtain ⟨_, hbefore, _⟩ := hmove.commit_forward hmid ih.1 hcommitted
        exact absurd hbefore (not_lt.2 hdeadline)
    · intro hphase
      have hmidForward := hmove.phase_forward hphase
      obtain ⟨hproxy, hengines⟩ := ih.2 hmidForward
      rcases hmove.past_deadline hmidForward hdeadline with hrestoring | ⟨hproxy', hengines'⟩
      · cases hphase.symm.trans hrestoring
      · exact ⟨hproxy'.trans hproxy, hengines'.trans hengines⟩

section Accepted

variable {input : Input}

theorem committed_of_settle {result : Except Status (Db × Except Status Operation)}
    (h : (settle db (.ofCommitted .operation) result).2 = .operation op) :
    result = .ok ((settle db (.ofCommitted .operation) result).1, .ok op) := by
  cases result with
  | error status => cases h
  | ok value =>
    obtain ⟨db', reply⟩ := value
    cases reply with
    | error status => cases h
    | ok found =>
      cases h
      rfl

section

variable (hreach : Reachable contract nodeId w)
include hreach

theorem Claims.beforeDeadline
    {instruction : AgentInstruction} (hclaim : Claims contract w input instruction)
    (hforward : instruction.restoration = false) (ho : o ∈ w.db.operations)
    (hid : o.operationId = instruction.operationId) : input.now < o.forwardDeadline := by
  obtain ⟨⟨instanceId, agent, hcall⟩, hreply⟩ := hclaim
  have hkeys := reachable_keys hreach
  rw [hcall] at hreply
  obtain ⟨base, db₁, op, selection, h⟩ := claim_instructed (claim_of_step hreply)
  obtain ⟨digest, hinstruction⟩ := h.instruction
  obtain ⟨prior, hprior, hpriorId, hwrites⟩ := h.prior hkeys
  have hopId : instruction.operationId = op.operationId := by rw [hinstruction]; rfl
  obtain rfl := eq_of_nodup_key hkeys.operations ho hprior
    (hid.trans (hopId.trans hpriorId.symm))
  rw [← hwrites.frame.forwardDeadline]
  exact h.beforeDeadline hkeys (h.forward hreach hforward)

theorem AcceptsObservation.beforeDeadline
    {row : SlotObservation} (h : AcceptsObservation contract row w input)
    (ho : o ∈ w.db.operations) (hid : o.operationId = row.operationId)
    (hphase : o.phase = .forward) : input.now < o.forwardDeadline := by
  obtain ⟨receivedAt, request, agent, op, result, hcall, rfl, _, hreply⟩ := h
  rw [hcall] at hreply
  have haccepted : reportObservation w.db input.now receivedAt request agent =
      .ok (_, .ok result) := committed_of_settle hreply
  obtain ⟨found, hfound, ⟨_, _, hfailed, _⟩ | ⟨hopen, _⟩⟩ := reportObservation_eq_ok haccepted
  · cases hfailed
  · obtain ⟨_, hmem, hfoundId, _⟩ := leasedOperation?_eq_some hfound
    obtain rfl := eq_of_nodup_key (reachable_keys hreach).operations ho hmem
      (hid.trans hfoundId.symm)
    exact hopen hphase

/-- A result for a forward operation past its deadline is answered from its
receipt, and changes nothing. -/
theorem late_result_unchanged
    {request : ReportStepResultRequest} {agent : String} {result : Operation}
    (hcall : input.call = .reportStep request agent)
    (hreply : (step contract w.db input.now input.call).2 = .operation result)
    (ho : o ∈ w.db.operations) (hid : o.operationId = request.operationId)
    (hphase : o.phase = .forward) (hlate : o.forwardDeadline ≤ input.now) :
    (w.next contract input).db = w.db := by
  rw [hcall] at hreply
  have haccepted : reportStep w.db input.now request agent = .ok (_, .ok result) :=
    committed_of_settle hreply
  change (step contract w.db input.now input.call).1 = w.db
  rw [hcall]
  obtain ⟨_, target, _, _, _, ⟨_, _, _, _, hsame⟩ | ⟨_, haccept⟩⟩ := reportStep_eq_ok haccepted
  · exact hsame
  obtain ⟨found, hfound, ⟨_, _, hfailed, _⟩ | ⟨hopen, _⟩⟩ := acceptStep_eq_ok haccept
  · cases hfailed
  · obtain ⟨_, hmem, hfoundId, _⟩ := leasedOperation?_eq_some hfound
    obtain rfl := eq_of_nodup_key (reachable_keys hreach).operations ho hmem
      (hid.trans hfoundId.symm)
    exact absurd (hopen hphase) (not_lt.2 hlate)

end

end Accepted

def TargetProgress.Touched (progress : TargetProgress) : Prop :=
  progress.changed = true ∨ progress.effectAmbiguous = true

/-- In restoration only a target that may have left its source has a step to do. -/
structure Operation.RestoresTouched (op : Operation) : Prop where
  engines : op.phase = .restoringSource → ∀ t ∈ op.engines,
    t.progress.nextStep = .restoreSource → t.progress.Touched
  proxy : op.phase = .restoringSource → op.proxy.nextStep = .restoreSource →
    op.proxy.Touched

/-- `enter_restoration` sends back every target that may have left its source. -/
theorem enterRestoration_step_iff (progress : TargetProgress) :
    progress.enterRestoration.nextStep = .restoreSource ↔ progress.enterRestoration.Touched := by
  simp only [TargetProgress.enterRestoration, TargetProgress.Touched, Bool.or_eq_true]
  split
  next htouched => simpa using htouched
  next huntouched => simpa using huntouched

section

variable (hmove : OpMove db now op effect op')
include hmove

theorem OpMove.proxy_restoring_cases :
    (op'.proxy.nextStep = op.proxy.nextStep ∧ op'.proxy.changed = op.proxy.changed ∧
        op'.proxy.effectAmbiguous = op.proxy.effectAmbiguous) ∨
      op'.proxy.nextStep = op.proxy.nextStep ∧ op'.proxy.effectAmbiguous = true ∨
      op'.proxy = op.proxy.enterRestoration ∧ op'.phase = .restoringSource ∨
      ∃ request next, effect = .report .proxy request ∧ op.proxy.nextStep = request.step ∧
        proxyNextStep request.step = .ok next ∧ op'.proxy.nextStep = next ∧
        (proxyCondition request op.proxy).1 = "" := by
  cases hmove with
  | enterRestoration => exact .inr (.inr (.inl ⟨rfl, rfl⟩))
  | pause code detail hrec =>
    rw [hrec.pause_eq]
    exact .inl ⟨rfl, rfl, rfl⟩
  | @deliver selection =>
    cases hkey : selection.key with
    | engineSlot slot => exact .inl ⟨rfl, rfl, rfl⟩
    | proxy => exact .inr (.inl ⟨rfl, rfl⟩)
  | proxyStep request next hstate hdeadline hincomplete hstep hnext hsuccess =>
    exact .inr (.inr (.inr ⟨request, next, rfl, hstep, hnext, rfl, hsuccess⟩))
  | _ => exact .inl ⟨rfl, rfl, rfl⟩

theorem OpMove.from_restoring (hphase : op.phase = .restoringSource) :
    op'.phase = .restoringSource ∨ op'.phase = .complete := by
  cases hphase' : op'.phase with
  | forward =>
    rw [hmove.phase_forward hphase'] at hphase
    cases hphase
  | restoringSource => exact .inl rfl
  | complete => exact .inr rfl

theorem OpMove.enters_restoration
    (hbefore : op.phase ≠ .restoringSource) (hafter : op'.phase = .restoringSource) :
    ∃ terminal code detail, op' = op.enterRestoration terminal code detail := by
  cases hmove with
  | enterRestoration terminal code detail => exact ⟨terminal, code, detail, rfl⟩
  | pause code detail hrec =>
    rw [hrec.pause_eq] at hafter
    exact absurd hafter hbefore
  | finishRestored | finishCommitted | finishSucceeded => cases hafter
  | @deliver selection =>
    cases hkey : selection.key <;> rw [hkey] at hafter <;> exact absurd hafter hbefore
  | _ => exact absurd hafter hbefore

end

/-- A write on a slot of a restoring operation keeps its step and mark, or its source has been
proven. -/
theorem SlotMove.restoring {t t' : EngineTarget}
    (h : SlotMove db now op op' t t') (hphase : op.phase = .restoringSource)
    (htouched : t.progress.Touched) (hstep : t.progress.nextStep = .restoreSource) :
    t'.progress.nextStep = .restoreSource ∧ t'.progress.Touched ∨
      sourceHostProven db now t (matchingObservation db now op t.engineSlot) = true := by
  cases h with
  | stay hstays =>
    unfold TargetProgress.Touched
    rw [hstays.nextStep, hstays.changed, hstays.ambiguous]
    exact .inl ⟨hstep, htouched⟩
  | deliver => exact .inl ⟨hstep, .inr rfl⟩
  | clear hnot | advance hnot | switch hnot => exact absurd hphase hnot
  | enterRestoration =>
    have hkept : t.progress.enterRestoration.Touched := htouched
    exact .inl ⟨(enterRestoration_step_iff t.progress).2 hkept, hkept⟩
  | resolve => exact .inl ⟨hstep, .inl rfl⟩
  | restored _ _ hproven => exact .inr hproven

theorem OpMove.restoresTouched (hmove : OpMove db now op effect op') (hprogress : op.Progressing)
    (h : op.RestoresTouched) : op'.RestoresTouched := by
  by_cases hphase : op.phase = .restoringSource
  · have hordered := hprogress.ordered (by rw [hphase]; decide)
    constructor
    · intro _ t' ht' hstep
      obtain ⟨t, ht, _, hslotMove⟩ := hmove.slotMove hordered ht'
      cases hslotMove with
      | stay hstays =>
        unfold TargetProgress.Touched
        rw [hstays.changed, hstays.ambiguous]
        exact h.engines hphase t ht (hstays.nextStep.symm.trans hstep)
      | deliver => exact .inr rfl
      | clear hnot | advance hnot | switch hnot => exact absurd hphase hnot
      | enterRestoration => exact (enterRestoration_step_iff t.progress).1 hstep
      | resolve => exact .inl rfl
      | restored => cases hstep
    · intro _ hstep
      rcases hmove.proxy_restoring_cases with ⟨hnext, hchanged, hambiguous⟩ |
        ⟨_, hambiguous⟩ | ⟨hproxy, _⟩ | ⟨request, next, _, hrequest, hnext, hafter, _⟩
      · unfold TargetProgress.Touched
        rw [hchanged, hambiguous]
        exact h.proxy hphase (hnext.symm.trans hstep)
      · exact .inr hambiguous
      · rw [hproxy] at hstep ⊢
        exact (enterRestoration_step_iff op.proxy).1 hstep
      · -- The restored proxy has no step left.
        rcases (hprogress.restoring hphase).proxy with hat | hat
        · rw [← hrequest, hat] at hnext
          cases hnext
          cases hstep.symm.trans hafter
        · rw [← hrequest, hat] at hnext
          cases hnext
  · constructor
    · intro hafter t' ht' hstep
      obtain ⟨terminal, code, detail, rfl⟩ := hmove.enters_restoration hphase hafter
      obtain ⟨t, ht, rfl⟩ := List.mem_map.1 ht'
      exact (enterRestoration_step_iff t.progress).1 hstep
    · intro hafter hstep
      obtain ⟨terminal, code, detail, rfl⟩ := hmove.enters_restoration hphase hafter
      exact (enterRestoration_step_iff op.proxy).1 hstep

theorem reachable_restoresTouched (hreach : Reachable contract nodeId w) :
    ∀ op ∈ w.db.operations, op.RestoresTouched := by
  have hinvariant : ∀ op ∈ w.db.operations,
      (op.Lifecycle ∧ op.Progressing) ∧ op.RestoresTouched := by
    refine operations_invariant ?_ ?_ ?_ hreach
    · intro db now op rollout _ h
      refine ⟨⟨h.lifecycle, h.progressing⟩, ?_, ?_⟩ <;>
      · intro hphase
        obtain ⟨_, _, _, _, hrow⟩ := h.row
        rw [hrow] at hphase
        cases hphase
    · intro db op h
      refine ⟨⟨h.lifecycle, h.progressing⟩, ?_, ?_⟩ <;>
      · intro hphase
        cases h.phase.symm.trans hphase
    · intro db now op effect op' hmove ⟨⟨hlife, hprogress⟩, htouched⟩
      exact ⟨⟨hmove.lifecycle hlife, hmove.progressing hlife hprogress⟩,
        hmove.restoresTouched hprogress htouched⟩
  exact fun op hop => (hinvariant op hop).2

/-- After any calls every operation is as the protocol leaves it, and its receipts agree with it. -/
theorem run_operations_and_receipts (contract : DeploymentContract) (nodeId : String)
    (inputs : List Input) :
    let db := (runAll (World.next contract) (World.initial nodeId) inputs).db
    (∀ op ∈ db.operations, (op.Lifecycle ∧ op.Progressing) ∧ op.RestoresTouched) ∧
      ∀ r ∈ db.receipts, db.Settled r := by
  have hreach : Reachable contract nodeId _ := reach_runAll_any _ inputs
  exact ⟨fun op hop => ⟨reachable_progressing hreach op hop, reachable_restoresTouched hreach op hop⟩,
    reachable_settled hreach⟩

structure Operation.Unrestored (slot : String) (op : Operation) : Prop where
  phase : op.phase = .restoringSource
  present : ∃ t ∈ op.engines, t.engineSlot = slot
  pending : ∀ t ∈ op.engines, t.engineSlot = slot →
    t.progress.nextStep = .restoreSource ∧ t.progress.Touched

structure Operation.ProxyUnrestored (op : Operation) : Prop where
  phase : op.phase = .restoringSource
  step : op.proxy.nextStep = .restoreSource
  touched : op.proxy.Touched

/-- In this call `reconcile` finds the slot's source proven, on the evidence the call leaves
behind. -/
def RestoresSlot (contract : DeploymentContract) (id slot : String) (w : World)
    (input : Input) : Prop :=
  ∃ before ∈ w.db.operations, ∃ op t, before.operationId = id ∧ before.Writes op ∧
    t ∈ op.engines ∧ t.engineSlot = slot ∧
    sourceHostProven (w.next contract input).db input.now t
      (matchingObservation (w.next contract input).db input.now op slot) = true

theorem Db.SameEvidence.sourceHostProven_eq {db' : Db} (h : db.SameEvidence db')
    (now : Time) (op : Operation) (t : EngineTarget) (slot : String) :
    sourceHostProven db now t (matchingObservation db now op slot) =
      sourceHostProven db' now t (matchingObservation db' now op slot) := by
  have hmatching : matchingObservation db now op slot = matchingObservation db' now op slot := by
    unfold matchingObservation Db.snapshotObservations
    rw [h.observations]
  rw [hmatching]
  unfold sourceHostProven exactRegistrationAbsent exactRegistrationCount
  rw [h.engines, h.nodeId]

/-- A restoring operation does not complete before its slots are done. -/
theorem OpMove.unrestored (hmove : OpMove db now op effect op') (hordered : op.Ordered)
    (h : op.Unrestored slot) : op'.Unrestored slot ∨ ∃ t ∈ op.engines, t.engineSlot = slot ∧
      sourceHostProven db now t (matchingObservation db now op slot) = true := by
  by_cases hproven : ∃ t ∈ op.engines, t.engineSlot = slot ∧
      sourceHostProven db now t (matchingObservation db now op slot) = true
  · exact .inr hproven
  left
  obtain ⟨present, hpresent, hname⟩ := h.present
  refine ⟨?_, ?_, ?_⟩
  · refine (hmove.from_restoring h.phase).resolve_right fun hdone => ?_
    obtain ⟨_, hnone, _⟩ := hmove.finished (by rw [h.phase]; decide) hdone
    rw [hordered.reconcileTarget_eq] at hnone
    have hcomplete := List.find?_eq_none.1 hnone present hpresent
    simp [EngineTarget.complete, TargetProgress.complete,
      (h.pending present hpresent hname).1] at hcomplete
  · obtain ⟨t', ht', hsnapshot⟩ := exists_of_column hmove.frame.engines.symm hpresent
    obtain ⟨hslot, -⟩ := snapshot_fields hsnapshot
    exact ⟨t', ht', hslot.trans hname⟩
  · intro t' ht' hslot
    obtain ⟨t, ht, htname, hslotMove⟩ := hmove.slotMove hordered ht'
    have htslot := htname.trans hslot
    obtain ⟨hstep, htouched⟩ := h.pending t ht htslot
    refine (hslotMove.restoring h.phase htouched hstep).resolve_right fun hproof => ?_
    rw [htslot] at hproof
    exact hproven ⟨t, ht, htslot, hproof⟩

theorem Operation.Unrestored.written {read : Db}
    (hwrites : ReflTransGen (ReadingWrite now read) op op')
    (hop : op.Lifecycle ∧ op.Progressing) (h : op.Unrestored slot) :
    op'.Unrestored slot ∨ ∃ mid t, op.Writes mid ∧ t ∈ mid.engines ∧ t.engineSlot = slot ∧
      sourceHostProven read now t (matchingObservation read now mid slot) = true := by
  induction hwrites with
  | refl => exact .inl h
  | @tail mid last hprev hlast ih =>
    obtain ⟨db, effect, hsame, hmove⟩ := hlast
    obtain ⟨_, hprogress⟩ := progressing_of_reading hprev hop
    rcases ih with hstill | hproven
    · have hordered := hprogress.ordered (by rw [hstill.phase]; decide)
      rcases hmove.unrestored hordered hstill with hnext | ⟨t, ht, hslot, hproven⟩
      · exact .inl hnext
      · rw [hsame.sourceHostProven_eq] at hproven
        exact .inr ⟨mid, t, writes_of_reading hprev, ht, hslot, hproven⟩
    · exact .inr hproven

theorem Operation.ProxyUnrestored.callWrites {input : Input}
    (hwrites : CallWrites contract w input op op') (h : op.ProxyUnrestored) : op'.ProxyUnrestored ∨
      AcceptsProxyResult contract op.operationId .restoreSource w input := by
  induction hwrites with
  | refl => exact .inl h
  | @tail mid last hprev hlast ih =>
    obtain ⟨db, effect, _, hmove, htakesIn⟩ := hlast
    rcases ih with hstill | haccepted
    · have hopen : last.phase = .restoringSource := by
        refine (hmove.from_restoring hstill.phase).resolve_right fun hdone => ?_
        obtain ⟨hcomplete, _⟩ := hmove.finished (by rw [hstill.phase]; decide) hdone
        simp [TargetProgress.complete, hstill.step] at hcomplete
      rcases hmove.proxy_restoring_cases with ⟨hnext, hchanged, hambiguous⟩ |
        ⟨hnext, hambiguous⟩ | ⟨hproxy, _⟩ | ⟨request, next, rfl, hrequest, _, _, hsuccess⟩
      · refine .inl ⟨hopen, hnext.trans hstill.step, ?_⟩
        unfold TargetProgress.Touched
        rw [hchanged, hambiguous]
        exact hstill.touched
      · exact .inl ⟨hopen, hnext.trans hstill.step, .inr hambiguous⟩
      · have hkept : mid.proxy.enterRestoration.Touched := hstill.touched
        refine .inl ⟨hopen, ?_, hproxy ▸ hkept⟩
        rw [hproxy]
        exact (enterRestoration_step_iff mid.proxy).2 hkept
      · obtain ⟨target, taken, agent, result, heffect, hcall, hreply, htarget, hleased⟩ :=
          htakesIn rfl
        cases heffect
        have hid : mid.operationId = op.operationId :=
          (writes_of_reading (readingWrites_of_call hprev)).frame.operationId
        refine .inr ⟨request, agent, mid, result, hcall, ?_, ?_, htarget, hleased, hsuccess, hreply⟩
        · rw [← hid]
          exact (leasedOperation?_eq_some hleased).2.2.1.symm
        · rw [← hrequest]
          exact hstill.step
    · exact .inr haccepted

section Runs

variable {later : World} {o' : Operation}

section

variable (hreach : Reachable contract nodeId w)
include hreach

theorem slot_restored_before_end (ho : o ∈ w.db.operations) (hunrestored : o.Unrestored slot)
    (hrun : Reach (World.next contract) (fun _ _ => True) w later)
    (ho' : o' ∈ later.db.operations) (hid : o'.operationId = o.operationId)
    (hdone : o'.phase = .complete) :
    Between (World.next contract) (fun _ _ => True) (RestoresSlot contract o.operationId slot)
      w later := by
  have hlater : Reachable contract nodeId later := hreach.trans hrun
  obtain ⟨last, hlast, hwrites, hstate⟩ := reach_until (P := (·.Unrestored slot))
    (R := RestoresSlot contract o.operationId slot) (reachable_keys hreach) ho hunrestored (by
      intro u input a a' hu ha haw hstill hcall
      have hops := reachable_progressing (hreach.trans hu) a ha
      refine (hstill.written (readingWrites_of_call hcall) hops).imp_right ?_
      rintro ⟨mid, t, hmid, ht, hslot, hproven⟩
      exact ⟨a, ha, mid, t, haw.frame.operationId, hmid, ht, hslot, hproven⟩) hrun
  obtain rfl := eq_of_nodup_key (reachable_keys hlater).operations hlast ho'
    (hwrites.frame.operationId.trans hid.symm)
  refine hstate.resolve_left fun hstill => ?_
  cases hstill.phase.symm.trans hdone

theorem proxy_restored_before_end (ho : o ∈ w.db.operations) (hunrestored : o.ProxyUnrestored)
    (hrun : Reach (World.next contract) (fun _ _ => True) w later)
    (ho' : o' ∈ later.db.operations) (hid : o'.operationId = o.operationId)
    (hdone : o'.phase = .complete) : Between (World.next contract) (fun _ _ => True)
      (AcceptsProxyResult contract o.operationId .restoreSource) w later := by
  have hlater : Reachable contract nodeId later := hreach.trans hrun
  obtain ⟨last, hlast, hwrites, hstate⟩ := reach_until (P := Operation.ProxyUnrestored)
    (R := AcceptsProxyResult contract o.operationId .restoreSource) (reachable_keys hreach) ho
    hunrestored (by
      intro u input a a' _ _ haw hstill hcall
      rw [← haw.frame.operationId]
      exact hstill.callWrites hcall) hrun
  obtain rfl := eq_of_nodup_key (reachable_keys hlater).operations hlast ho'
    (hwrites.frame.operationId.trans hid.symm)
  refine hstate.resolve_left fun hstill => ?_
  cases hstill.phase.symm.trans hdone

theorem next_operations (input : Input) (ho' : o' ∈ (w.next contract input).db.operations) :
    (∃ a ∈ w.db.operations, a.operationId = o'.operationId) ∨
      o'.phase = .forward ∧ o'.committed = false ∨
      o'.phase = .complete ∧ o'.state = .succeeded ∧ o'.committed = true ∧
        o'.targetRevision = w.db.currentRevision := by
  rcases new_operation (reachable_keys hreach) input ho' with
    hold | ⟨rollout, hsubmitted⟩ | hrecorded
  · exact .inl hold
  · obtain ⟨_, _, _, _, hrow⟩ := hsubmitted.row
    refine .inr (.inl ?_)
    rw [hrow]
    exact ⟨rfl, rfl⟩
  · exact .inr (.inr ⟨hrecorded.phase, hrecorded.state, hrecorded.committed, hrecorded.target⟩)

end

/-- The phase fence of operations, for every call in every reachable state: how an operation comes
in, moves on and commits, that it is fenced past its deadline, and that a restoration ends in its
recorded state once every changed or ambiguous target is back. -/
theorem operation_phase_fencing (hreach : Reachable contract nodeId w) (input : Input) :
    (∀ a' ∈ (w.next contract input).db.operations,
      (∃ a ∈ w.db.operations, a.operationId = a'.operationId) ∨
        a'.phase = .forward ∧ a'.committed = false ∨
        a'.phase = .complete ∧ a'.state = .succeeded ∧ a'.committed = true ∧
          a'.targetRevision = w.db.currentRevision) ∧
    (∀ progress : TargetProgress, progress.enterRestoration.nextStep = .restoreSource ↔
      progress.changed = true ∨ progress.effectAmbiguous = true) ∧
    ∀ a ∈ w.db.operations, ∃ a' ∈ (w.next contract input).db.operations,
      a'.operationId = a.operationId ∧ a.phase.rank ≤ a'.phase.rank ∧
      (a.committed = true → a.phase = .complete) ∧ (a.phase = .complete → a' = a) ∧
      (a.committed = false → a'.committed = true → a.phase = .forward ∧ a'.phase = .complete) ∧
      (a.phase = .forward → a.forwardDeadline ≤ input.now → a'.committed = false ∧
        (a'.phase = .forward → a'.proxy = a.proxy ∧ a'.engines = a.engines) ∧
        (∀ instruction, Claims contract w input instruction →
          instruction.operationId = a.operationId → instruction.restoration = true) ∧
        (∀ row, AcceptsObservation contract row w input → row.operationId ≠ a.operationId) ∧
        ∀ request agent result, input.call = .reportStep request agent →
          (step contract w.db input.now input.call).2 = .operation result →
          request.operationId = a.operationId → (w.next contract input).db = w.db) ∧
      (a.phase = .restoringSource → ∀ later last,
        Reach (World.next contract) (fun _ _ => True) w later → last ∈ later.db.operations →
        last.operationId = a.operationId → last.phase = .complete →
        (last.restorationTerminalState = some last.state ∧
          (last.state = .failed ∨ last.state = .cancelled)) ∧
        (∀ t ∈ a.engines, t.progress.nextStep = .restoreSource →
          Between (World.next contract) (fun _ _ => True)
            (RestoresSlot contract a.operationId t.engineSlot) w later) ∧
        (a.proxy.nextStep = .restoreSource → Between (World.next contract) (fun _ _ => True)
            (AcceptsProxyResult contract a.operationId .restoreSource) w later)) := by
  have hkeys := reachable_keys hreach
  refine ⟨fun a' ha' => next_operations hreach input ha', enterRestoration_step_iff, ?_⟩
  intro a ha
  obtain ⟨hlife, hprogress⟩ := reachable_progressing hreach a ha
  obtain ⟨a', ha', hcall⟩ :=
    (step_transaction contract input.now hkeys input.call).writes hkeys ha
  have hreads := readingWrites_of_call hcall
  have hwrites := writes_of_reading hreads
  refine ⟨a', ha', hwrites.frame.operationId, (hwrites.rank_le hlife).2, ?_, ?_, ?_, ?_, ?_⟩
  · exact fun hcommitted => (hlife.committed hcommitted).1
  · intro hcomplete
    apply hwrites.eq_of_inactive
    cases hactive : a.isActive with
    | false => rfl
    | true => exact absurd hcomplete (hlife.active.1 hactive)
  · exact hwrites.commit_forward hlife
  · intro hforward hlate
    obtain ⟨huncommitted, htargets⟩ :=
      past_deadline_writes hreads ⟨hlife, hprogress⟩ hforward hlate
    refine ⟨huncommitted, htargets, ?_, ?_, ?_⟩
    · intro instruction hclaim hid
      cases hrestoration : instruction.restoration with
      | true => rfl
      | false =>
        have hopen := hclaim.beforeDeadline hreach hrestoration ha hid.symm
        exact absurd hopen (not_lt.2 hlate)
    · intro row haccepts hid
      exact absurd (haccepts.beforeDeadline hreach ha hid.symm hforward) (not_lt.2 hlate)
    · intro request agent result hrequest hreply hid
      exact late_result_unchanged hreach hrequest hreply ha hid.symm hforward hlate
  · intro hphase later last hrun hlast hid hdone
    have htouched := reachable_restoresTouched hreach a ha
    have hordered := hprogress.ordered (by rw [hphase]; decide)
    obtain ⟨_, final, hfinal, hchain⟩ := reach_persists hkeys ha hrun
    obtain rfl := eq_of_nodup_key (reachable_keys (hreach.trans hrun)).operations hfinal hlast
      (hchain.frame.operationId.trans hid.symm)
    refine ⟨hchain.restored_end hlife hphase hdone, ?_, ?_⟩
    · intro t ht hstep
      refine slot_restored_before_end hreach ha ⟨hphase, ⟨t, ht, rfl⟩, ?_⟩ hrun hlast hid hdone
      intro s hs hsame
      obtain rfl := eq_of_nodup_key hordered.nodup hs ht hsame
      exact ⟨hstep, htouched.engines hphase s hs hstep⟩
    · intro hstep
      exact proxy_restored_before_end hreach ha ⟨hphase, hstep, htouched.proxy hphase hstep⟩
        hrun hlast hid hdone

end Runs

open Sample

/-- A cancelled deployment of slot `blue`, whose source is proven, completes. -/
theorem cancelled_deployment_restored_before_end :
    let id := "8d7eef43-aa27-83b7-a7ab-2a5f124cae58"
    let w := run (submitted ["blue"] ++ proxyDone id ++
      [claimed 12, reported 13
          (result id 1 .verifyReleaseMetadata (.engineSlot "blue") 1 "" ""),
        claimed 14,
        observed 15 (observation id 1 "blue" 1 "blue-1" "" .exited),
        ⟨seconds 16, .cancel id⟩])
    let later := runAll (World.next Sample.contract) w
      [claimed 17,
        observed 18 (observation id 2 "blue" 0 "blue-1" "" .exited),
        claimed 19,
        reported 20 (result id 2 .restoreSource .proxy 0 "" "")]
    ∃ last ∈ later.db.operations, last.state = .cancelled ∧
      Between (World.next Sample.contract) (fun _ _ => True)
        (RestoresSlot Sample.contract id "blue") w later := by
  intro id w later
  have hbefore : ∃ a ∈ w.db.operations, a.operationId = id ∧ a.phase = .restoringSource ∧
      ∃ t ∈ a.engines, t.engineSlot = "blue" ∧ t.progress.nextStep = .restoreSource := by
    decide +kernel
  have hafter : ∃ last ∈ later.db.operations, last.operationId = id ∧
      last.state = .cancelled ∧ last.phase = .complete := by
    decide +kernel
  obtain ⟨a, ha, hid, hphase, t, ht, hslot, hstep⟩ := hbefore
  obtain ⟨last, hlast, hlastId, hstate, hdone⟩ := hafter
  obtain ⟨_, _, hall⟩ := operation_phase_fencing
    (reachable_run _ : Reachable Sample.contract "node-a" w) (claimed 17)
  obtain ⟨_, _, _, _, _, _, _, _, hrestoring⟩ := hall a ha
  obtain ⟨_, hslots, _⟩ := hrestoring hphase later last (reach_runAll_any _ _) hlast
    (hlastId.trans hid.symm) hdone
  refine ⟨last, hlast, hstate, ?_⟩
  have hrestored := hslots t ht hstep
  rw [hid, hslot] at hrestored
  exact hrestored

/-- A submission of the committed revision records an operation that is committed from the start. -/
theorem resubmitted_revision_recorded_committed :
    let id := "56c3da2c-c839-8b49-8800-4c5248ed3af5"
    let w := run (submitted [] ++ proxyDone id)
    let later := w.next Sample.contract ⟨seconds 13, .submit
      ⟨"node-a", "attempt-2", .deployment, 1, bundle, none, resolved, ""⟩
      "alice" "fresh-operation"⟩
    Reachable Sample.contract "node-a" later ∧
      (∀ a ∈ w.db.operations, a.operationId ≠ "fresh-operation") ∧
      ∃ a ∈ later.db.operations, a.operationId = "fresh-operation" ∧
        a.committed = true ∧ a.phase = .complete := by
  exact ⟨(reachable_run _).step trivial, by decide +kernel, by decide +kernel⟩

end Wruntime.Manager
