import Mathlib.Data.List.TakeWhile
import Wruntime.Manager.Leases
import Wruntime.Manager.Rollout

/-!
Where receipts come from, and what one says about its operation. A receipt is stored in the
transaction that accepts the result. While the lease it was accepted under stays, its step is spent:
the target has moved past it, or stands at it with the result recorded. The key of a receipt does not
tell two deliveries of one step in one epoch apart, so an instruction has its receipts for itself
only where its step was not delivered to its target in the epoch before.
-/

namespace Wruntime.Manager

open Fallible Table Runs

variable {key : TargetKey} {db db' : Db} {now : Time} {r : Receipt} {t : EngineTarget}
  {op op' : Operation} {f : EngineTarget → EngineTarget} {effect : Effect} {slot : String}
variable {target : TargetKey} {request : ReportStepResultRequest}
variable {agent nodeId instanceId : String} {contract : DeploymentContract} {w : World}

/-- The report that answers an instruction names its operation, lease, step and target. -/
structure ReportStepResultRequest.Answers (request : ReportStepResultRequest)
    (instruction : AgentInstruction) : Prop where
  nodeId : request.nodeId = instruction.nodeId
  operationId : request.operationId = instruction.operationId
  leaseEpoch : request.leaseEpoch = instruction.leaseEpoch
  step : request.step = instruction.step
  agentInstanceId : request.agentInstanceId = instruction.agentInstanceId
  target : request.target.map (fun t => (t.kind, t.identity)) =
    some (instruction.target.kind, instruction.target.identity)

instance (request : ReportStepResultRequest) (instruction : AgentInstruction) :
    Decidable (request.Answers instruction) :=
  decidable_of_iff (request.nodeId = instruction.nodeId ∧
      request.operationId = instruction.operationId ∧
      request.leaseEpoch = instruction.leaseEpoch ∧ request.step = instruction.step ∧
      request.agentInstanceId = instruction.agentInstanceId ∧
      request.target.map (fun t => (t.kind, t.identity)) =
        some (instruction.target.kind, instruction.target.identity))
    ⟨fun ⟨h₁, h₂, h₃, h₄, h₅, h₆⟩ => ⟨h₁, h₂, h₃, h₄, h₅, h₆⟩,
      fun h => ⟨h.nodeId, h.operationId, h.leaseEpoch, h.step, h.agentInstanceId, h.target⟩⟩

theorem instructionTargetKey_of_key {target : InstructionTarget}
    (hkind : target.kind = key.kind) (hidentity : target.identity = some key)
    (hvalid : ∀ slot, key = .engineSlot slot → slot ≠ "" ∧ slot ≠ "proxy") :
    instructionTargetKey target = .ok key := by
  unfold instructionTargetKey
  rw [hkind, hidentity]
  cases key with
  | proxy => rfl
  | engineSlot slot => exact if_pos (hvalid slot rfl)

theorem reportStep_of_unreceipted {reportTarget : InstructionTarget}
    (hepoch : request.leaseEpoch ≤ i64Max) (htarget : request.target = some reportTarget)
    (hkey : instructionTargetKey reportTarget = .ok key)
    (hcompatible : targetStepCompatible reportTarget.kind request.step = true)
    (hnone : db.receipt? request key = none) :
    reportStep db now request agent = acceptStep db now request key agent := by
  unfold reportStep
  rw [ensure_bind_of_true hepoch, bind_of_ok (required_eq_ok.2 htarget), bind_of_ok hkey,
    ensure_bind_of_true hcompatible]
  simp only [hnone]

theorem Transaction.receipt_cases {call : Call} {reply : Reply}
    (hkeys : Keys db) (h : Transaction now call db db' reply) (hr : r ∈ db'.receipts) :
    r ∈ db.receipts ∨ ∃ request agent target op f mid, call = .reportStep request agent ∧
        (∃ result, reply = .operation result) ∧ r = request.receipt target agent ∧
        request.target.map (fun t => (t.kind, t.identity)) = some (target.kind, some target) ∧
        db.leasedOperation? now request.nodeId request.operationId request.leaseEpoch agent
          request.agentInstanceId = some op ∧ OpMove db now op (.report target request) (f op) ∧
        Work now (db.write op (.report target request) f) mid ∧
        db' = { mid with receipts := mid.receipts ++ [r] } := by
  cases h with
  | insert hmove hoperations hreceipts | publish hmove hoperations hreceipts =>
    exact .inl (hreceipts ▸ hr)
  | work hwork => exact .inl (hwork.receipts hkeys ▸ hr)
  | @observe receivedAt request agent op result hcall hreply hleased hdeadline hwork =>
    have hfirst : Move now db (db.recordObservation (request.row receivedAt)) := .observe _
    rw [hwork.receipts (hfirst.keys hkeys), recordObservation_eq] at hr
    exact .inl hr
  | @report request agent target op result f mid hcall hreply htarget hnone hleased hmove
      hsteps hwork hdb =>
      have hfirst : Move now db (db.write op (.report target request) f) :=
        .write (leasedOperation?_eq_some hleased).2.1 hmove
      have hmid : mid.receipts = db.receipts :=
        (hwork.receipts (hfirst.keys hkeys)).trans (write_frame _ _ _ _).1
      rw [hdb] at hr
      rcases mem_snoc.1 hr with hold | rfl
      · exact .inl (hmid ▸ hold)
      · exact .inr ⟨request, agent, target, op, f, mid, hcall, ⟨result, hreply⟩, rfl, htarget,
          hleased, hmove, hwork, hdb⟩

def EngineTarget.Spent (t : EngineTarget) (phase : NodeOperationPhase)
    (step : NodeOperationStepKind) : Prop :=
  if phase = .forward then
    step ∈ t.taken ∨ step = t.progress.nextStep ∧ t.progress.effectReported = true
  else t.complete = true ∨ t.progress.effectReported = true

def Operation.Spent (op : Operation) (target : TargetKey) (step : NodeOperationStepKind) :
    Prop :=
  match target with
  | .proxy =>
    if op.phase = .forward then step ∈ proxyPath.takeWhile (· ≠ op.proxy.nextStep)
    else op.proxy.complete = true
  | .engineSlot slot => ∀ t ∈ op.engines, t.engineSlot = slot → t.Spent op.phase step

/-- A receipt is of an epoch that has begun, and while that epoch's lease is held its step is
spent. -/
structure Operation.Settled (op : Operation) (r : Receipt) : Prop where
  epoch : r.leaseEpoch ≤ op.leaseEpoch
  spent : op.state = .running → r.leaseEpoch = op.leaseEpoch → op.Spent r.target r.step

theorem EngineTarget.Spent.of_progress {t' : EngineTarget} {phase : NodeOperationPhase}
    {step : NodeOperationStepKind} (h : t.Spent phase step)
    (htransition : t'.transition = t.transition)
    (hsteps : t'.progress.completedSteps = t.progress.completedSteps)
    (hnext : t'.progress.nextStep = t.progress.nextStep)
    (hreported : t.progress.effectReported = true → t'.progress.effectReported = true) :
    t'.Spent phase step := by
  unfold EngineTarget.Spent EngineTarget.taken EngineTarget.complete TargetProgress.complete
    at h ⊢
  rw [htransition, hsteps, hnext]
  split at h
  next hphase =>
    rw [if_pos hphase]
    exact h.imp_right fun hnow => ⟨hnow.1, hreported hnow.2⟩
  next hphase =>
    rw [if_neg hphase]
    exact h.imp_right hreported

theorem EngineTarget.Spent.of_advance {t' : EngineTarget} {step : NodeOperationStepKind}
    (h : t.Spent .forward step) (honPath : t.OnPath) (hincomplete : t.complete = false)
    (htransition : t'.transition = t.transition)
    (hsteps : t'.progress.completedSteps = t.progress.completedSteps + 1) :
    t'.Spent .forward step := by
  have hstep : stepAt t.transition t.progress.completedSteps ≠ .unspecified := by
    rw [← honPath.next]
    simpa [EngineTarget.complete, TargetProgress.complete] using hincomplete
  have htaken : t'.taken = t.taken ++ [t.progress.nextStep] := by
    unfold EngineTarget.taken
    rw [htransition, hsteps, take_succ_of_stepAt hstep, honPath.next]
  simp only [EngineTarget.Spent, if_true] at h ⊢
  rw [htaken]
  rcases h with hold | ⟨rfl, _⟩
  · exact .inl (List.mem_append_left _ hold)
  · exact .inl (List.mem_append_right _ (List.mem_singleton_self _))

theorem Operation.Spent.modifySlot {step : NodeOperationStepKind} (h : op.Spent target step)
    (slot : String) (hslot : ∀ t, (f t).engineSlot = t.engineSlot)
    (hf : ∀ t ∈ op.engines, t.engineSlot = slot → t.Spent op.phase step →
      (f t).Spent op.phase step) : (op.modifySlot slot f).Spent target step := by
  cases target with
  | proxy => exact h
  | engineSlot key =>
    intro t' ht' hkey
    rcases updated ht' with ⟨t, ht, hin, rfl⟩ | ⟨ht, -⟩
    · rw [hslot t] at hkey
      exact hf t ht (of_decide_eq_true hin) (h t ht hkey)
    · exact h t' ht hkey

theorem Operation.Spent.modifyProgress {step : NodeOperationStepKind} (h : op.Spent target step)
    (slot : String) {f : TargetProgress → TargetProgress}
    (hf : ∀ p, (f p).completedSteps = p.completedSteps ∧ (f p).nextStep = p.nextStep ∧
      (p.effectReported = true → (f p).effectReported = true)) :
    (op.modifyProgress slot f).Spent target step :=
  h.modifySlot slot (fun _ => rfl) fun t _ _ hspent =>
    hspent.of_progress rfl (hf t.progress).1 (hf t.progress).2.1 (hf t.progress).2.2

theorem mem_takeWhile_proxyNextStep {step next spent : NodeOperationStepKind}
    (hstep : step ∈ proxyPath) (hnext : proxyNextStep step = .ok next)
    (h : spent = step ∨ spent ∈ proxyPath.takeWhile (· ≠ step)) :
    spent ∈ proxyPath.takeWhile (· ≠ next) := by
  simp only [proxyPath, List.mem_cons, List.not_mem_nil, or_false] at hstep
  rcases hstep with rfl | rfl | rfl | rfl | rfl | rfl <;> cases hnext <;>
    simp [proxyPath, List.takeWhile] at h ⊢ <;> tauto

theorem OpMove.spent (hmove : OpMove db now op effect op') (hlife : op.Lifecycle)
    (hprogress : op.Progressing) (hrunning : op'.state = .running)
    (hepoch : op'.leaseEpoch = op.leaseEpoch) {step : NodeOperationStepKind}
    (h : op.state = .running → op.Spent target step) : op'.Spent target step := by
  have hactive := hmove.active
  have hopen := hlife.active.1 hactive
  cases hmove with
  | expireLease | fencePolicy | resume | enterRestoration | finishCommitted | finishSucceeded
  | failProxy => cases hrunning
  | takeLease => simp [Operation.takeLease] at hepoch
  | extendLease hstate => exact h hstate
  | setCondition | clearDelivery | resolveAmbiguity | restorePending =>
    exact (h hrunning).modifyProgress _ fun p => ⟨rfl, rfl, id⟩
  | pause code detail hrec =>
    rw [hrec.pause_eq] at hrunning
    cases hrunning
  | @advance slot f hrec hphase hcondition hadvance =>
    have hforward := hlife.forward hactive hphase
    have hpending := mem_of_pendingSlot (hrec.pendingSlot_eq (hprogress.ordered hopen))
    refine (h hrunning).modifySlot _ (fun t => (hadvance.keeps t).1) ?_
    intro t ht hslot hspent
    obtain rfl := eq_of_nodup_key (hprogress.ordered hopen).nodup ht hpending.1 hslot
    rw [hforward] at hspent ⊢
    exact hspent.of_advance ((hprogress.inSequence hforward).onPath t ht) hpending.2
      (congrArg EngineSnapshot.transition (hadvance.snapshot_eq t))
      (Prod.mk.inj (hadvance.completedSteps t)).2
  | @switchAuthority slot hrec hphase hstep =>
    have hforward := hlife.forward hactive hphase
    have hpending := mem_of_pendingSlot (hrec.pendingSlot_eq (hprogress.ordered hopen))
    refine (h hrunning).modifySlot _ (fun t => rfl) ?_
    intro t ht hslot hspent
    obtain rfl := eq_of_nodup_key (hprogress.ordered hopen).nodup ht hpending.1 hslot
    rw [hforward] at hspent ⊢
    exact hspent.of_advance ((hprogress.inSequence hforward).onPath t ht) hpending.2 rfl rfl
  | restored hrec hphase =>
    refine (h hrunning).modifySlot _ (fun t => rfl) fun t _ _ _ => ?_
    rw [hphase]
    exact .inl rfl
  | finishRestored =>
    rcases op.restoredState_cases with hstate | hstate <;>
      simp [Operation.finish, hstate] at hrunning
  | @deliver selection hstate =>
    cases hkey : selection.key with
    | proxy => exact h hstate
    | engineSlot slot =>
      exact (h hstate).modifyProgress slot (f := (·.deliver now)) fun p => ⟨rfl, rfl, id⟩
  | reportSlot request code detail hstate =>
    exact (h hstate).modifyProgress _ fun p => ⟨rfl, rfl, fun _ => rfl⟩
  | proxyStep request next hstate hdeadline hincomplete hstep hnext =>
    have hspent := h hstate
    cases target with
    | engineSlot slot => exact hspent
    | proxy =>
      simp only [Operation.Spent] at hspent ⊢
      split at hspent
      next hphase =>
        rw [if_pos hphase]
        have hpath := hprogress.proxyStep hphase
        rw [hstep] at hpath hspent
        exact mem_takeWhile_proxyNextStep hpath hnext (.inr hspent)
      next => rw [hspent] at hincomplete; cases hincomplete

theorem OpMove.report_spent (hmove : OpMove db now op (.report target request) op')
    (hlife : op.Lifecycle) (hprogress : op.Progressing) (hrunning : op'.state = .running) :
    op'.Spent target request.step := by
  have hactive := hmove.active
  have hopen := hlife.active.1 hactive
  cases hmove with
  | @reportSlot slot request code detail hstate hdeadline hmem hincomplete hstep =>
    intro t' ht' hslot
    obtain ⟨t, ht, rfl⟩ := mem_updateWhere.1 ht'
    by_cases hin : t.engineSlot = slot.engineSlot
    · obtain rfl := eq_of_nodup_key (hprogress.ordered hopen).nodup ht hmem hin
      simp only [decide_true, if_true]
      unfold EngineTarget.Spent
      split
      · exact .inr ⟨hstep.symm, rfl⟩
      · exact .inr rfl
    · simp [hin] at hslot
  | failProxy => cases hrunning
  | proxyStep request next hstate hdeadline hincomplete hstep hnext =>
    simp only [Operation.Spent]
    split
    next hphase =>
      have hpath := hprogress.proxyStep hphase
      rw [hstep] at hpath
      exact mem_takeWhile_proxyNextStep hpath hnext (.inl rfl)
    next hphase =>
      -- The only proxy step left in restoration is its last one.
      have hrestoring := hlife.restoringSource hactive hphase
      have hrestore : request.step = .restoreSource := by
        rw [← hstep]
        refine (hprogress.restoring hrestoring).proxy.resolve_right fun hdone => ?_
        simp [TargetProgress.complete, hdone] at hincomplete
      rw [hrestore] at hnext
      cases hnext
      rfl

theorem OpMove.settled (hmove : OpMove db now op effect op') (hlife : op.Lifecycle)
    (hprogress : op.Progressing) (h : op.Settled r) : op'.Settled r := by
  refine ⟨h.epoch.trans hmove.leaseEpoch_le, fun hrunning hepoch => ?_⟩
  have hsame : op'.leaseEpoch = op.leaseEpoch :=
    le_antisymm (hepoch ▸ h.epoch) hmove.leaseEpoch_le
  apply hmove.spent hlife hprogress hrunning hsame
  intro hwas
  exact h.spent hwas (hepoch.trans hsame)

def Db.Settled (db : Db) (r : Receipt) : Prop :=
  ∃ op ∈ db.operations, op.operationId = r.operationId ∧ op.Settled r

theorem Moves.settled (hkeys : Keys db) (hops : ∀ op ∈ db.operations, op.Lifecycle ∧ op.Progressing)
    (h : db.Settled r) (hmoves : Moves now db db') : db'.Settled r := by
  induction hmoves with
  | refl => exact h
  | @tail mid last hprev hlast ih =>
    obtain ⟨op, hop, hid, hsettled⟩ := ih
    obtain ⟨op', hop', rfl | ⟨effect, hmove⟩⟩ :=
      hlast.persists (Moves.keys hprev hkeys) hop
    · exact ⟨op', hop', hid, hsettled⟩
    · obtain ⟨hlife, hprogress⟩ := Moves.progressing hkeys hops hprev op hop
      exact ⟨op', hop', hmove.frame.operationId.trans hid, hmove.settled hlife hprogress hsettled⟩

theorem reachable_settled (hreach : Reachable contract nodeId w) :
    ∀ r ∈ w.db.receipts, w.db.Settled r := by
  refine Reach.invariant (P := fun w => ∀ r ∈ w.db.receipts, w.db.Settled r) ?_ ?_ hreach
  · intro r hr
    cases hr
  intro w input hw _ hsettled r hr
  have hkeys := reachable_keys hw
  have hops := reachable_progressing hw
  have htransaction := step_transaction contract input.now hkeys input.call
  rcases htransaction.receipt_cases hkeys hr with hold |
    ⟨request, agent, target, op, f, mid, _, _, rfl, _, hleased, hmove, hwork, hdb⟩
  · exact Moves.settled hkeys hops (hsettled r hold) htransaction.moves
  -- The new receipt agrees with its operation once the result is taken in.
  obtain ⟨_, hmem, hid, hlease⟩ := leasedOperation?_eq_some hleased
  obtain ⟨_, hepoch, _⟩ := Operation.leasedTo_eq_true hlease
  obtain ⟨hlife, hprogress⟩ := hops op hmem
  have hwrite : Move input.now w.db (w.db.write op (.report target request) f) :=
    .write hmem hmove
  have hwritten : (w.db.write op (.report target request) f).Settled
      (request.receipt target agent) := by
    refine ⟨f op, (mem_write_operations hkeys hmem).2 (.inl rfl),
      hmove.frame.operationId.trans hid, ?_, fun hrunning _ => ?_⟩
    · change request.leaseEpoch ≤ _
      rw [← hepoch]
      exact hmove.leaseEpoch_le
    · exact hmove.report_spent hlife hprogress hrunning
  have hmid := Moves.settled (hwrite.keys hkeys)
    (Moves.progressing hkeys hops (.single hwrite)) hwritten hwork.moves
  change (step contract w.db input.now input.call).1.Settled _
  rw [hdb]
  exact hmid

theorem Advance.unreported {slot : EngineTarget} (h : Advance db now op slot f) (t : EngineTarget) :
    (f t).progress.effectReported = false := by
  cases h with
  | selected hstep => split <;> rfl
  | _ => rfl

/-- No result is recorded for the pending step of a slot. -/
def Operation.Unreported (op : Operation) (slot : String) : Prop :=
  ∀ t ∈ op.engines, t.engineSlot = slot → t.progress.effectReported = false

theorem Operation.Unreported.modifySlot (h : op.Unreported slot) (key : String)
    (hslot : ∀ t, (f t).engineSlot = t.engineSlot)
    (hf : ∀ t, (f t).progress.effectReported = t.progress.effectReported ∨
      (f t).progress.effectReported = false) : (op.modifySlot key f).Unreported slot := by
  intro t' ht' hname
  rcases updated ht' with ⟨t, ht, -, rfl⟩ | ⟨ht, -⟩
  · rw [hslot t] at hname
    rcases hf t with hsame | hreset
    · rw [hsame]
      exact h t ht hname
    · exact hreset
  · exact h t' ht hname

theorem OpMove.unreported (hmove : OpMove db now op effect op') (hquiet : effect.isReport = false)
    (h : op.Unreported slot) : op'.Unreported slot := by
  cases hmove with
  | enterRestoration =>
    intro t' ht' hname
    obtain ⟨t, ht, rfl⟩ := List.mem_map.1 ht'
    rfl
  | setCondition | clearDelivery | resolveAmbiguity | restorePending =>
    exact h.modifySlot _ (fun _ => rfl) fun _ => .inl rfl
  | @pause key code detail hrec =>
    have hset : (op.setSlotCondition key.engineSlot code detail).Unreported slot :=
      h.modifySlot _ (fun _ => rfl) fun _ => .inl rfl
    rw [hrec.pause_eq]
    exact hset
  | advance hrec hphase hcondition hadvance =>
    exact h.modifySlot _ (fun t => (hadvance.keeps t).1) fun t => .inr (hadvance.unreported t)
  | switchAuthority | restored => exact h.modifySlot _ (fun _ => rfl) fun _ => .inr rfl
  | @deliver selection =>
    cases hkey : selection.key with
    | proxy => exact h
    | engineSlot key => exact h.modifySlot _ (fun _ => rfl) fun _ => .inl rfl
  | reportSlot | failProxy | proxyStep => cases hquiet
  | _ => exact h

theorem Work.unreported (hkeys : Keys db) (id slot : String)
    (h : ∀ op ∈ db.operations, op.operationId = id → op.Unreported slot) (hwork : Work now db db') :
    ∀ op ∈ db'.operations, op.operationId = id → op.Unreported slot := by
  refine (hwork.keeps
    (P := fun db => ∀ op ∈ db.operations, op.operationId = id → op.Unreported slot)
    ?_ hkeys h).2
  intro a b ha hold hquiet op hop hid
  rcases hquiet.mem_operations ha hop with hwas | ⟨old, hmem, effect, hplain, hmove⟩
  · exact hold op hwas hid
  · exact hmove.unreported hplain (hold old hmem (hmove.frame.operationId.symm.trans hid))

/-- Only the verification of the target repeats on a path, and one completed step leads to it only
from the start of the backend. -/
theorem repeated_step {transition : DerivedTransition} {k k' : Nat}
    (hstep : stepAt transition k' ≠ .unspecified)
    (hrepeated : stepAt transition k' ∈ (forwardPath transition).take k')
    (hk : k' = k ∨ k' = k + 1) : .verifyTarget ∈ (forwardPath transition).take k ∧
      (stepAt transition k = .startBackend ∨ stepAt transition k = .verifyTarget) := by
  have hlt : k' < 8 := (lt_length_of_stepAt hstep).trans_le (length_forwardPath_le _)
  have hhere : ∀ k < 8, stepAt transition k ∈ (forwardPath transition).take k →
      stepAt transition k = .verifyTarget := by
    cases transition <;> decide
  have hnext : ∀ k < 8, stepAt transition (k + 1) ≠ .unspecified →
      stepAt transition (k + 1) ∈ (forwardPath transition).take (k + 1) →
      .verifyTarget ∈ (forwardPath transition).take k ∧
        stepAt transition k = .startBackend := by
    cases transition <;> decide
  rcases hk with rfl | rfl
  · have hverify := hhere k' hlt hrepeated
    rw [hverify] at hrepeated
    exact ⟨hrepeated, .inr hverify⟩
  · obtain ⟨htaken, hstart⟩ := hnext k (by omega) hstep hrepeated
    exact ⟨htaken, .inl hstart⟩

/-- The slot holds no result for its pending step, and its second verification
is neither pending nor next. -/
structure EngineTarget.Unanswered (t : EngineTarget) : Prop where
  unreported : t.progress.effectReported = false
  unrepeated : t.progress.pinnedProcessInstanceId = "" ∨
    t.progress.nextStep ≠ .startBackend ∧ t.progress.nextStep ≠ .verifyTarget

theorem slotSelection_instructionStep (h : (op.slotSelection t).instructionStep ≠ .inspectBackend) :
    (op.slotSelection t).instructionStep = t.progress.nextStep := by
  unfold Selection.instructionStep at h ⊢
  split at h
  · exact absurd rfl h
  next hinspection =>
    rw [if_neg hinspection]
    rfl

section Instructions

variable {db₁ : Db} {instruction : AgentInstruction} {base : Operation} {selection : Selection}
  (h : Instructed w.db now instanceId agent db' instruction base db₁ op selection)
include h

theorem Instructed.prior (hkeys : Keys w.db) :
    ∃ prior ∈ w.db.operations, prior.operationId = op.operationId ∧ prior.Writes op := by
  have hwork := h.work hkeys
  obtain ⟨prior, hprior, hid, _⟩ := hwork.steps hkeys h.op_mem
  obtain ⟨later, hlater, hwrites⟩ := Moves.persists hwork.moves hkeys hprior
  obtain rfl := eq_of_nodup_key (Moves.keys hwork.moves hkeys).operations hlater h.op_mem
    (hwrites.frame.operationId.trans hid)
  exact ⟨prior, hprior, hid, hwrites⟩

theorem Instructed.forward (hreach : Reachable contract nodeId w)
    (hforward : instruction.restoration = false) : op.phase = .forward := by
  have hlife := (Moves.progressing (reachable_keys hreach) (reachable_progressing hreach)
    (h.moves (reachable_keys hreach)) op h.op_mem).1
  apply hlife.forward (isActive_of_state (.inr (.inl h.running)))
  intro hrestoring
  obtain ⟨_, hinstruction⟩ := h.instruction
  rw [hinstruction] at hforward
  exact absurd hrestoring (of_decide_eq_false hforward)

/-- A receipt from before the claim with the epoch of its instruction has its step spent at the
selected target, and the operation was running in that epoch. -/
theorem Instructed.spent (hreach : Reachable contract nodeId w) (hr : r ∈ w.db.receipts)
    (hid : r.operationId = op.operationId) (hepoch : r.leaseEpoch = op.leaseEpoch) :
    op.Spent r.target r.step ∧ ∃ prior ∈ w.db.operations,
      prior.operationId = op.operationId ∧ prior.state = .running ∧ prior.Writes op := by
  have hkeys := reachable_keys hreach
  have hmoves := h.moves hkeys
  have hkeys₁ := Moves.keys hmoves hkeys
  have hsettled := reachable_settled hreach r hr
  obtain ⟨found, hfound, hfoundId, hagrees⟩ :=
    Moves.settled hkeys (reachable_progressing hreach) hsettled hmoves
  obtain rfl := eq_of_nodup_key hkeys₁.operations hfound h.op_mem (hfoundId.trans hid)
  refine ⟨hagrees.spent h.running hepoch, ?_⟩
  obtain ⟨prior, hprior, hpriorId, hwrites⟩ := h.prior hkeys
  obtain ⟨owner, howner, hownerId, hownerAgrees⟩ := hsettled
  obtain rfl := eq_of_nodup_key hkeys.operations howner hprior
    (hownerId.trans (hid.trans hpriorId.symm))
  have hsame : found.leaseEpoch = owner.leaseEpoch :=
    le_antisymm (hepoch ▸ hownerAgrees.epoch) hwrites.leaseEpoch_le
  exact ⟨owner, hprior, hpriorId, (hwrites.running h.running hsame).1, hwrites⟩

theorem Instructed.proxy_unspent (hkey : selection.key = .proxy) :
    ¬op.Spent .proxy selection.instructionStep := by
  intro hspent
  obtain ⟨hincomplete, hselection⟩ := selectTarget_proxy h.select hkey
  simp only [Operation.Spent] at hspent
  split at hspent
  next hphase =>
    -- The instruction is the stored step or an inspection, and neither is spent.
    have hne := List.mem_takeWhile_imp hspent
    have hpath := (List.takeWhile_sublist _).subset hspent
    have hcases : selection.instructionStep = .inspectBackend ∨
        selection.instructionStep = op.proxy.nextStep := by
      unfold Selection.instructionStep
      split
      · exact .inl rfl
      · rw [hselection]
        exact .inr rfl
    rcases hcases with hinspect | hnext
    · rw [hinspect] at hpath
      revert hpath
      decide
    · simp [hnext] at hne
  next => rw [hspent] at hincomplete; cases hincomplete

/-- Nor does the instruction of a slot without a result for its step that is not at its second
verification. -/
theorem Instructed.slot_unspent (hreach : Reachable contract nodeId w)
    (hkey : selection.key = .engineSlot slot)
    (hinspect : selection.instructionStep ≠ .inspectBackend) {prior : Operation}
    (hprior : prior ∈ w.db.operations) (hid : prior.operationId = op.operationId)
    (hwrites : prior.Writes op)
    (hunanswered : ∀ t ∈ prior.engines, t.engineSlot = slot → t.Unanswered) :
    ¬op.Spent (.engineSlot slot) selection.instructionStep := by
  intro hspent
  have hkeys := reachable_keys hreach
  have hwork := h.work hkeys
  obtain ⟨t, hpending, rfl, rfl, _⟩ := selectTarget_slot h.select hkey
  obtain ⟨ht, hincomplete⟩ := mem_of_pendingSlot hpending
  obtain ⟨hlife, hprogress⟩ :=
    Moves.progressing hkeys (reachable_progressing hreach) hwork.moves op h.op_mem
  have hunreported : t.progress.effectReported = false := by
    refine hwork.unreported hkeys op.operationId t.engineSlot ?_ op h.op_mem rfl t ht rfl
    intro o ho hoid u hu huslot
    obtain rfl := eq_of_nodup_key hkeys.operations ho hprior (hoid.trans hid.symm)
    exact (hunanswered u hu huslot).unreported
  have hslot := hspent t ht rfl
  rw [slotSelection_instructionStep hinspect] at hslot
  unfold EngineTarget.Spent at hslot
  split at hslot
  next hphase =>
    rcases hslot with htaken | ⟨_, hreported⟩
    · -- The pending step was taken before: it is the second verification.
      have hpriorPhase := hwrites.phase_forward hphase
      obtain ⟨_, hpriorProgress⟩ := reachable_progressing hreach prior hprior
      have hordered := hpriorProgress.ordered (by rw [hpriorPhase]; decide)
      obtain ⟨u, hu, hsnapshot⟩ := hwrites.frame.snapshot_mem ht
      obtain ⟨huslot, hutransition, -⟩ := snapshot_fields hsnapshot
      have honPath := (hprogress.inSequence hphase).onPath t ht
      have huPath := (hpriorProgress.inSequence hpriorPhase).onPath u hu
      obtain ⟨o, ho, hoid, hsteps⟩ := hwork.steps hkeys h.op_mem
      obtain rfl := eq_of_nodup_key hkeys.operations ho hprior (hoid.trans hid.symm)
      have hcount := completedSteps_cases hordered.nodup hsteps hu ht huslot.symm
      rw [honPath.next] at htaken
      have hopen : stepAt t.transition t.progress.completedSteps ≠ .unspecified := by
        rw [← honPath.next]
        simpa [EngineTarget.complete, TargetProgress.complete] using hincomplete
      obtain ⟨hverified, hstep⟩ := repeated_step hopen htaken hcount
      have hanswer := (hunanswered u hu huslot).unrepeated
      rw [← hutransition] at hverified hstep
      rw [← huPath.next] at hstep
      rcases hanswer with hunpinned | ⟨hstart, hverify⟩
      · exact huPath.pinned.2 hverified hunpinned
      · exact hstep.elim hstart hverify
    · cases hunreported.symm.trans hreported
  next =>
    rcases hslot with hdone | hreported
    · cases hincomplete.symm.trans hdone
    · rw [hunreported] at hreported
      cases hreported

end Instructions

theorem reachable_engineKeys (hreach : Reachable contract nodeId w) :
    ∀ op ∈ w.db.operations, op.phase ≠ .complete → validEngineKeys op.engines := by
  have hinvariant : ∀ op ∈ w.db.operations,
      op.Lifecycle ∧ (op.phase ≠ .complete → validEngineKeys op.engines) := by
    refine operations_invariant ?_ ?_ ?_ hreach
    · intro db now op rollout _ h
      exact ⟨h.lifecycle, fun _ => h.keys⟩
    · intro db op h
      exact ⟨h.lifecycle, fun hopen => absurd h.phase hopen⟩
    · intro db now op effect op' hmove ⟨hlife, hkeys⟩
      refine ⟨hmove.lifecycle hlife, fun _ t' ht' => ?_⟩
      obtain ⟨t, ht, hsnapshot⟩ := hmove.frame.snapshot_mem ht'
      obtain ⟨hslot, -⟩ := snapshot_fields hsnapshot
      rw [← hslot]
      exact hkeys (hlife.active.1 hmove.active) t ht
  exact fun op hop => (hinvariant op hop).2

structure Receipt.Under (r : Receipt) (instruction : AgentInstruction) : Prop where
  nodeId : r.nodeId = instruction.nodeId
  operationId : r.operationId = instruction.operationId
  leaseEpoch : r.leaseEpoch = instruction.leaseEpoch
  step : r.step = instruction.step
  agentInstanceId : r.agentInstanceId = instruction.agentInstanceId
  target : instruction.target.identity = some r.target

section Claims

variable {instruction : AgentInstruction}

/-- When a claim finds its slot without a result, no receipt is stored under its instruction's
key. -/
theorem claim_unreceipted (hreach : Reachable contract nodeId w)
    (hclaim : (step contract w.db now (.claim instanceId agent)).2 =
      .instruction (some instruction))
    (hanswered : instruction.step = .inspectBackend → instruction.target.kind = .proxy)
    (hunanswered : ∀ op ∈ w.db.operations, op.operationId = instruction.operationId →
      op.state = .running → ∀ t ∈ op.engines,
        instruction.target.identity = some (.engineSlot t.engineSlot) → t.Unanswered) :
    ∀ r ∈ (w.next contract ⟨now, .claim instanceId agent⟩).db.receipts, ¬r.Under instruction := by
  intro r hr hunder
  have hkeys := reachable_keys hreach
  have hcommitted := claim_of_step hclaim
  obtain ⟨base, db₁, op, selection, hinstructed⟩ := claim_instructed hcommitted
  have hwas : r ∈ w.db.receipts := (claim_work hkeys hcommitted).receipts hkeys ▸ hr
  obtain ⟨digest, rfl⟩ := hinstructed.instruction
  have hstep : r.step = selection.instructionStep := hunder.step
  have htarget : some selection.key = some r.target := hunder.target
  obtain ⟨hspent, prior, hprior, hpriorId, hrunning, hwrites⟩ :=
    hinstructed.spent hreach hwas hunder.operationId hunder.leaseEpoch
  rw [hstep, ← Option.some.inj htarget] at hspent
  cases hkey : selection.key with
  | proxy =>
    rw [hkey] at hspent
    exact hinstructed.proxy_unspent hkey hspent
  | engineSlot slot =>
    rw [hkey] at hspent
    have hinspect : selection.instructionStep ≠ .inspectBackend := by
      intro hinspect
      have hkind : selection.key.kind = .proxy := hanswered hinspect
      rw [hkey] at hkind
      cases hkind
    refine hinstructed.slot_unspent hreach hkey hinspect hprior hpriorId hwrites ?_ hspent
    intro t ht hslot
    apply hunanswered prior hprior hpriorId hrunning t ht
    change some selection.key = _
    rw [hkey, hslot]

theorem answered_key (hreach : Reachable contract nodeId w)
    (hclaim : (step contract w.db now (.claim instanceId agent)).2 =
      .instruction (some instruction)) :
    ∃ key, instruction.target.identity = some key ∧ instruction.target.kind = key.kind ∧
      targetStepCompatible key.kind instruction.step = true ∧
      ∀ request : ReportStepResultRequest, request.Answers instruction →
        ∃ target, request.target = some target ∧ target.kind = key.kind ∧
          instructionTargetKey target = .ok key := by
  have hkeys := reachable_keys hreach
  obtain ⟨base, db₁, op, selection, hinstructed⟩ := claim_instructed (claim_of_step hclaim)
  obtain ⟨digest, rfl⟩ := hinstructed.instruction
  refine ⟨selection.key, rfl, rfl, hinstructed.compatible, fun request hanswers => ?_⟩
  obtain ⟨target, htarget, hnamed⟩ := Option.map_eq_some_iff.1 hanswers.target
  obtain ⟨hkind, hidentity⟩ := Prod.mk.inj hnamed
  refine ⟨target, htarget, hkind, instructionTargetKey_of_key hkind hidentity ?_⟩
  intro slot hslot
  obtain ⟨t, hpending, rfl, _⟩ := selectTarget_slot hinstructed.select hslot
  obtain ⟨prior, hprior, _, hwrites⟩ := hinstructed.prior hkeys
  obtain ⟨u, hu, hsnapshot⟩ := hwrites.frame.snapshot_mem (mem_of_pendingSlot hpending).1
  obtain ⟨huslot, -⟩ := snapshot_fields hsnapshot
  have hactive : prior.isActive = true := by
    by_contra hdone
    have hsame := hwrites.eq_of_inactive (by simpa using hdone)
    rw [← hsame] at hdone
    exact hdone (isActive_of_state (.inr (.inl hinstructed.running)))
  have hlife := reachable_lifecycle hreach prior hprior
  rw [← huslot]
  exact reachable_engineKeys hreach prior hprior (hlife.active.1 hactive) u hu

/-- Between two states of a run the manager accepted an answer to the instruction. -/
def AnsweredBetween (contract : DeploymentContract) (instruction : AgentInstruction)
    (start later : World) : Prop :=
  ∃ mid input request reporter result,
    Reach (World.next contract) (fun _ _ => True) start mid ∧
    Reach (World.next contract) (fun _ _ => True) (mid.next contract input) later ∧
    input.call = .reportStep request reporter ∧ request.Answers instruction ∧
    (step contract mid.db input.now input.call).2 = .operation result

/-- A new receipt under the key of an instruction was stored for an accepted answer. -/
theorem answer_of_receipt {start later : World} (hstart : Reachable contract nodeId start)
    (hidentity : instruction.target.identity = some key)
    (hkind : instruction.target.kind = key.kind)
    (hnone : ∀ r ∈ start.db.receipts, ¬r.Under instruction)
    (hrun : Reach (World.next contract) (fun _ _ => True) start later)
    (hr : r ∈ later.db.receipts) (hunder : r.Under instruction) :
    AnsweredBetween contract instruction start later := by
  obtain ⟨mid, input, hmid, _, hbefore, hafter, hrest⟩ :=
    Reach.crossing (P := fun w => ∀ r ∈ w.db.receipts, ¬r.Under instruction) hnone
      (fun hall => hall r hr hunder) hrun
  have hkeys := reachable_keys (hstart.trans hmid)
  push Not at hafter
  obtain ⟨new, hnew, hnewUnder⟩ := hafter
  rcases (step_transaction contract input.now hkeys input.call).receipt_cases hkeys hnew with
    hwas | ⟨request, reporter, target, op, f, after, hcall, ⟨result, hreply⟩, rfl, htarget, _⟩
  · exact absurd hnewUnder (hbefore new hwas)
  · refine ⟨mid, input, request, reporter, result, hmid, hrest, hcall, ?_, hreply⟩
    have hsame : key = target := Option.mem_unique hidentity hnewUnder.target
    refine ⟨hnewUnder.nodeId, hnewUnder.operationId, hnewUnder.leaseEpoch, hnewUnder.step,
      hnewUnder.agentInstanceId, ?_⟩
    rw [htarget, hidentity, hkind, hsame]

theorem under_of_receipt? (hanswers : request.Answers instruction)
    (hidentity : instruction.target.identity = some key) (h : db.receipt? request key = some r) :
    r ∈ db.receipts ∧ r.Under instruction := by
  obtain ⟨hmem, hid, hnode, hinstance, hepoch, hstep, htarget⟩ := found h
  refine ⟨hmem, hnode.trans hanswers.nodeId,
    hid.trans hanswers.operationId, hepoch.trans hanswers.leaseEpoch,
    hstep.trans hanswers.step, hinstance.trans hanswers.agentInstanceId, ?_⟩
  rw [hidentity, htarget]

/-- The fields by which the receipt of an instruction's result is looked up. -/
def AgentInstruction.receiptKey (i : AgentInstruction) : String × String × String × Nat ×
    NodeOperationStepKind × InstructionTargetKind × Option TargetKey :=
  (i.operationId, i.nodeId, i.agentInstanceId, i.leaseEpoch, i.step, i.target.kind,
    i.target.identity)

/-- The instructions that the claims of a run return, in order. -/
def deliveries (contract : DeploymentContract) : World → List Input → List AgentInstruction
  | _, [] => []
  | w, input :: rest =>
    (match input.call with
      | .claim _ _ => (step contract w.db input.now input.call).2.instruction?.toList
      | _ => []) ++ deliveries contract (w.next contract input) rest

/-- A claim leaves the operation in the epoch of the instruction it returns. -/
theorem claimed_epoch (hreach : Reachable contract nodeId w)
    (hclaim : (step contract w.db now (.claim instanceId agent)).2 =
      .instruction (some instruction)) :
    ∃ prior ∈ w.db.operations, prior.operationId = instruction.operationId ∧
      prior.leaseEpoch ≤ instruction.leaseEpoch ∧
      (prior.leaseEpoch = instruction.leaseEpoch → prior.state = .running) ∧
      ∃ o ∈ (w.next contract ⟨now, .claim instanceId agent⟩).db.operations,
        o.operationId = instruction.operationId ∧ o.leaseEpoch = instruction.leaseEpoch := by
  have hkeys := reachable_keys hreach
  obtain ⟨base, db₁, op, selection, hinstructed⟩ := claim_instructed (claim_of_step hclaim)
  obtain ⟨prior, hprior, hid, hwrites⟩ := hinstructed.prior hkeys
  obtain ⟨digest, rfl⟩ := hinstructed.instruction
  obtain ⟨o, ho, hlater⟩ := next_persists contract hkeys ⟨now, .claim instanceId agent⟩ hprior
  have hoid : o.operationId = op.operationId := hlater.frame.operationId.trans hid
  refine ⟨prior, hprior, hid, hwrites.leaseEpoch_le,
    fun hepoch => (hwrites.running hinstructed.running hepoch.symm).1, o, ho, hoid, ?_⟩
  rw [hinstructed.final hkeys ho hoid]
  split
  · cases selection.key <;> rfl
  · rfl

/-- The epoch of an operation is at least that of every instruction for it. -/
theorem deliveries_epoch (hreach : Reachable contract nodeId w) {inputs : List Input}
    (hdelivered : instruction ∈ deliveries contract w inputs) :
    ∃ o ∈ (runAll (World.next contract) w inputs).db.operations,
      o.operationId = instruction.operationId ∧ instruction.leaseEpoch ≤ o.leaseEpoch := by
  induction inputs generalizing w with
  | nil => cases hdelivered
  | cons input rest ih =>
    have hnext : Reachable contract nodeId (w.next contract input) := hreach.step trivial
    rcases List.mem_append.1 hdelivered with hhead | htail
    · obtain ⟨time, call⟩ := input
      cases call with
      | claim instanceId agent =>
        have hreply := (Option.any_eq_true (· = instruction) _).2
          ⟨instruction, Option.mem_toList.1 hhead, by simp⟩
        obtain ⟨_, hclaim, rfl⟩ := Reply.of_instruction?_any hreply
        obtain ⟨_, _, _, _, _, o, ho, hid, hepoch⟩ := claimed_epoch hreach hclaim
        obtain ⟨_, last, hlast, hwrites⟩ :=
          reach_persists (reachable_keys hnext) ho (reach_runAll_any _ rest)
        exact ⟨last, hlast, hwrites.frame.operationId.trans hid,
          hepoch ▸ hwrites.leaseEpoch_le⟩
      | _ => cases hhead
    · exact ih hnext htail

end Claims

open Sample

end Wruntime.Manager
