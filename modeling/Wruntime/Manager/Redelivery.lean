import Wruntime.Manager.Observations
import Wruntime.Manager.Receipts

/-!
Redelivery of forward mutations. A claim that delivers a mutation marks its target in the same
transaction, and while marked the target is only inspected. A slot loses the mark by advancing, or
by an observation accepted after the delivery that shows no effect; the proxy by an accepted
success.
-/

namespace Wruntime.Manager

open Fallible Table Runs Relation

variable {selection : Selection} {op op' : Operation} {t t' : EngineTarget} {slot : String}
  {now since : Time}

variable {evidence : SlotObservation → Prop} {db read : Db} {kind : NodeOperationStepKind}

def Claims (contract : DeploymentContract) (w : World) (input : Input)
    (instruction : AgentInstruction) : Prop :=
  (∃ instanceId agent, input.call = .claim instanceId agent) ∧
    (step contract w.db input.now input.call).2 = .instruction (some instruction)

theorem claims_of_any {contract : DeploymentContract} {w : World} {input : Input}
    {P : AgentInstruction → Prop} [DecidablePred P]
    (hcall : ∃ instanceId agent, input.call = .claim instanceId agent)
    (h : (step contract w.db input.now input.call).2.instruction?.any (P ·) = true) :
    ∃ instruction, Claims contract w input instruction ∧ P instruction := by
  obtain ⟨instruction, hreply, hp⟩ := Reply.of_instruction?_any h
  exact ⟨instruction, ⟨hcall, hreply⟩, hp⟩

/-- The target is recorded as delivered at `time` and as ambiguous. -/
def Operation.MarkedAt (op : Operation) (key : TargetKey) (time : Time) : Prop :=
  match key with
  | .proxy => op.proxy.effectDeliveredAt = some time ∧ op.proxy.effectAmbiguous = true
  | .engineSlot slot => ∃ t ∈ op.engines, t.engineSlot = slot ∧
      t.progress.effectDeliveredAt = some time ∧ t.progress.effectAmbiguous = true

/-- An instruction to mutate is the selected step, on a target neither delivered nor ambiguous. -/
theorem Selection.mutation (h : selection.instructionStep.isMutating = true) :
    selection.instructionStep = selection.step ∧ selection.step.isMutating = true ∧
      selection.inspection = false := by
  unfold Selection.instructionStep at h ⊢
  split at h
  · cases h
  next hinspection =>
    rw [if_neg hinspection]
    exact ⟨rfl, h, by simpa using hinspection⟩

theorem Selection.inspection_eq_false
    (hmutating : selection.step.isMutating = true) (h : selection.inspection = false) :
    selection.delivered = false ∧ selection.ambiguous = false := by
  simpa [Selection.inspection, hmutating] using h

section Delivery

variable {contract : DeploymentContract} {nodeId : String} {w : World} {input : Input}
  {instruction : AgentInstruction}

/-- A claim answered with a mutation: the state of the selection, and the delivery it records. -/
structure Delivers (contract : DeploymentContract) (w : World) (input : Input)
    (instruction : AgentInstruction) (before op : Operation) (selection : Selection) :
    Prop where
  before_mem : before ∈ w.db.operations
  writes : ReflTransGen (QuietWrite input.now w.db) before op
  select : op.selectTarget = some selection
  running : op.state = .running
  operationId : instruction.operationId = op.operationId
  identity : instruction.target.identity = some selection.key
  leaseEpoch : instruction.leaseEpoch = op.leaseEpoch
  restoration : instruction.restoration = true ↔ op.phase = .restoringSource
  step : instruction.step = selection.step
  mutating : selection.step.isMutating = true
  undelivered : selection.delivered = false
  unambiguous : selection.ambiguous = false
  after_mem : op.deliver selection.key input.now ∈ (w.next contract input).db.operations

theorem Claims.delivers (hreach : Reachable contract nodeId w)
    (hclaim : Claims contract w input instruction)
    (hmutating : instruction.step.isMutating = true) :
    ∃ before op selection, Delivers contract w input instruction before op selection := by
  obtain ⟨⟨instanceId, agent, hcall⟩, hreply⟩ := hclaim
  have hkeys := reachable_keys hreach
  rw [hcall] at hreply
  obtain ⟨base, db₁, op, selection, hinstructed⟩ := claim_instructed (claim_of_step hreply)
  have hwork := hinstructed.work hkeys
  have hkeys₁ := Moves.keys hwork.moves hkeys
  obtain ⟨digest, hinstruction⟩ := hinstructed.instruction
  have hstep : instruction.step = selection.instructionStep := by rw [hinstruction]; rfl
  rw [hstep] at hmutating
  obtain ⟨hsame, hmutation, hinspection⟩ := Selection.mutation hmutating
  obtain ⟨hundelivered, hunambiguous⟩ := Selection.inspection_eq_false hmutation hinspection
  obtain ⟨prior, hprior, hid, _⟩ := hinstructed.prior hkeys
  obtain ⟨_, op', hop', hwrites⟩ := hwork.writes hkeys hprior
  have hframe : op'.operationId = prior.operationId :=
    (writes_of_reading (readingWrites_of_quiet hwrites)).frame.operationId
  obtain rfl := eq_of_nodup_key hkeys₁.operations hop' hinstructed.op_mem (hframe.trans hid)
  refine ⟨prior, op', selection, hprior, hwrites, hinstructed.select, hinstructed.running,
    by rw [hinstruction]; rfl, by rw [hinstruction]; rfl, by rw [hinstruction]; rfl, ?_,
    hstep.trans hsame, hmutation, hundelivered, hunambiguous, ?_⟩
  · rw [hinstruction]
    exact decide_eq_true_iff
  · have hresult := hinstructed.result
    rw [if_pos ⟨hmutation, hinspection⟩] at hresult
    change _ ∈ (Manager.step contract w.db input.now input.call).1.operations
    rw [hcall, hresult]
    exact (mem_write_operations hkeys₁ hinstructed.op_mem).2 (.inl rfl)

theorem Delivers.markedAt {before : Operation}
    (h : Delivers contract w input instruction before op selection) :
    (op.deliver selection.key input.now).MarkedAt selection.key input.now := by
  cases hkey : selection.key with
  | proxy => exact ⟨rfl, rfl⟩
  | engineSlot slot =>
    obtain ⟨t, hpending, rfl, _⟩ := selectTarget_slot h.select hkey
    refine ⟨{ t with progress := t.progress.deliver input.now }, ?_, rfl, rfl, rfl⟩
    exact mem_updateWhere.2 ⟨t, (mem_of_pendingSlot hpending).1, by simp⟩

end Delivery

theorem EngineTarget.OnPath.taken_advance (h : t.OnPath)
    (hincomplete : t.complete = false) (htransition : t'.transition = t.transition)
    (hsteps : t'.progress.completedSteps = t.progress.completedSteps + 1) :
    t'.taken = t.taken ++ [t.progress.nextStep] := by
  have hstep : stepAt t.transition t.progress.completedSteps ≠ .unspecified := by
    rw [← h.next]
    simpa [EngineTarget.complete, TargetProgress.complete] using hincomplete
  unfold EngineTarget.taken
  rw [htransition, hsteps, take_succ_of_stepAt hstep, h.next]

theorem EngineTarget.OnPath.mutation_not_taken (h : t.OnPath)
    (hmutating : t.progress.nextStep.isMutating = true) : t.progress.nextStep ∉ t.taken := by
  intro htaken
  have hopen : stepAt t.transition t.progress.completedSteps ≠ .unspecified := by
    intro hnone
    rw [h.next, hnone] at hmutating
    cases hmutating
  have hlt : t.progress.completedSteps < 8 :=
    (lt_length_of_stepAt hopen).trans_le (length_forwardPath_le _)
  have htable : ∀ k < 8, (stepAt t.transition k).isMutating = true →
      stepAt t.transition k ∉ (forwardPath t.transition).take k := by
    cases t.transition <;> decide
  rw [h.next] at hmutating htaken
  exact htable _ hlt hmutating htaken

/-- After `step` was delivered to a slot at `since`: the step is behind it, the slot is still marked
with this or a later delivery, or there is evidence of no effect. -/
def EngineTarget.Fenced (evidence : SlotObservation → Prop) (step : NodeOperationStepKind)
    (since : Time) (t : EngineTarget) : Prop :=
  step ∈ t.taken ∨ t.progress.nextStep = step ∧
    ((∃ delivered, t.progress.effectDeliveredAt = some delivered ∧ since ≤ delivered) ∨
      ∃ row, evidence row ∧ t.showsNoEffect row)

/-- The slot is fenced as long as the operation goes forward. -/
def Operation.Fenced (evidence : SlotObservation → Prop) (slot : String)
    (step : NodeOperationStepKind) (since : Time) (op : Operation) : Prop :=
  op.phase = .forward → ∀ t ∈ op.engines, t.engineSlot = slot →
    t.Fenced evidence step since

theorem Operation.Fenced.mono {evidence' : SlotObservation → Prop} {step : NodeOperationStepKind}
    (hmono : ∀ row, evidence row → evidence' row) (h : op.Fenced evidence slot step since) :
    op.Fenced evidence' slot step since := by
  intro hphase t ht hslot
  rcases h hphase t ht hslot with htaken | ⟨hnext, hmarked | ⟨row, hrow, hshows⟩⟩
  · exact .inl htaken
  · exact .inr ⟨hnext, .inl hmarked⟩
  · exact .inr ⟨hnext, .inr ⟨row, hmono row hrow, hshows⟩⟩

theorem EngineTarget.showsNoEffect_congr {row : SlotObservation}
    (hsnapshot : t'.snapshot = t.snapshot) (hnext : t'.progress.nextStep = t.progress.nextStep)
    (hpinned : t'.progress.pinnedBackendInstanceId = t.progress.pinnedBackendInstanceId)
    (h : t.showsNoEffect row) : t'.showsNoEffect row := by
  have hsource : t'.progress.sourceRevision = t.progress.sourceRevision ∧
      t'.progress.sourceDigest = t.progress.sourceDigest :=
    ⟨congrArg (·.source.revision) hsnapshot, congrArg (·.source.digest) hsnapshot⟩
  have htarget : t'.progress.targetRevision = t.progress.targetRevision ∧
      t'.progress.targetDigest = t.progress.targetDigest :=
    ⟨congrArg (·.target.revision) hsnapshot, congrArg (·.target.digest) hsnapshot⟩
  unfold EngineTarget.showsNoEffect at h ⊢
  rw [hnext, hpinned, hsource.1, hsource.2, htarget.1, htarget.2]
  exact h

/-- A write that keeps a slot's position keeps it fenced, if it keeps the delivery or there is
evidence. -/
theorem EngineTarget.Fenced.stay {step : NodeOperationStepKind} (h : t.Fenced evidence step since)
    (hsnapshot : t'.snapshot = t.snapshot)
    (hsteps : t'.progress.completedSteps = t.progress.completedSteps)
    (hnext : t'.progress.nextStep = t.progress.nextStep)
    (hpinned : t'.progress.pinnedBackendInstanceId = t.progress.pinnedBackendInstanceId)
    (hmark : ∀ delivered, t.progress.effectDeliveredAt = some delivered → since ≤ delivered →
      t'.progress.effectDeliveredAt = some delivered ∨
        ∃ row, evidence row ∧ t.showsNoEffect row) : t'.Fenced evidence step since := by
  obtain ⟨-, htransition, -⟩ := snapshot_fields hsnapshot
  have htaken : t'.taken = t.taken := by
    unfold EngineTarget.taken
    rw [htransition, hsteps]
  have hshows : ∀ row, t.showsNoEffect row → t'.showsNoEffect row := fun row =>
    EngineTarget.showsNoEffect_congr hsnapshot hnext hpinned
  rcases h with hpast | ⟨hstep, ⟨delivered, hdelivered, hsince⟩ | ⟨row, hrow, hnone⟩⟩
  · exact .inl (htaken ▸ hpast)
  · rcases hmark delivered hdelivered hsince with hkept | ⟨row, hrow, hnone⟩
    · exact .inr ⟨hnext.trans hstep, .inl ⟨delivered, hkept, hsince⟩⟩
    · exact .inr ⟨hnext.trans hstep, .inr ⟨row, hrow, hshows row hnone⟩⟩
  · exact .inr ⟨hnext.trans hstep, .inr ⟨row, hrow, hshows row hnone⟩⟩

theorem EngineTarget.Fenced.advance {step : NodeOperationStepKind}
    (h : t.Fenced evidence step since) (htaken : t'.taken = t.taken ++ [t.progress.nextStep]) :
    t'.Fenced evidence step since := by
  left
  rw [htaken]
  rcases h with hpast | ⟨rfl, _⟩
  · exact List.mem_append_left _ hpast
  · exact List.mem_append_right _ (List.mem_singleton_self _)

/-- Every write keeps a slot fenced, when the rows it reads stamped after the delivery are
evidence. -/
theorem OpMove.fenced {effect : Effect} (hmove : OpMove db now op effect op')
    (hprogress : op.Progressing) {step : NodeOperationStepKind}
    (hrows : ∀ row ∈ db.observations, row.operationId = op.operationId →
      row.engineSlot = slot → since < row.observedAt → evidence row)
    (h : op.Fenced evidence slot step since) : op'.Fenced evidence slot step since := by
  intro hphase t' ht' hslot
  have hforward := hmove.phase_forward hphase
  have hordered := hprogress.ordered (by rw [hforward]; decide)
  obtain ⟨t, ht, hname, hslotMove⟩ := hmove.slotMove hordered ht'
  have hpath := (hprogress.inSequence hforward).onPath t ht
  have hfenced := h hforward t ht (hname.trans hslot)
  cases hslotMove with
  | stay hstays =>
    refine hfenced.stay hstays.snapshot hstays.completedSteps hstays.nextStep hstays.pinned ?_
    intro delivered hdelivered _
    exact .inl (hstays.delivered.trans hdelivered)
  | deliver hmutating hdelivered hambiguous =>
    refine hfenced.stay rfl rfl rfl rfl fun delivered hmarked _ => ?_
    cases hdelivered.symm.trans hmarked
  | @clear observation delivered hnot hdelivered hobservation hafter hshows =>
    refine hfenced.stay rfl rfl rfl rfl fun marked hmarked hsince => ?_
    obtain rfl := Option.mem_unique hdelivered hmarked
    obtain ⟨row, hrow, rfl, hrowSlot, hrowId, _⟩ := matchingObservation_eq_some hobservation
    refine .inr ⟨row, ?_, EngineTarget.showsNoEffect_of_fromClient hshows⟩
    exact hrows row hrow hrowId (hrowSlot.trans (hname.trans hslot))
      (hsince.trans_lt hafter)
  | advance hnot hincomplete hadvance =>
    exact hfenced.advance (hpath.taken_advance hincomplete
      (congrArg EngineSnapshot.transition (hadvance.snapshot_eq t))
      (Prod.mk.inj (hadvance.completedSteps t)).2)
  | switch hnot hincomplete =>
    exact hfenced.advance (hpath.taken_advance hincomplete rfl rfl)
  | enterRestoration hrestoring =>
    cases hphase.symm.trans hrestoring
  | resolve hrestoring | restored hrestoring =>
    cases hforward.symm.trans hrestoring

theorem Operation.Fenced.written (hwrites : ReflTransGen (ReadingWrite now read) op op')
    (hop : op.Lifecycle ∧ op.Progressing) {step : NodeOperationStepKind}
    (hrows : ∀ row ∈ read.observations, row.operationId = op.operationId →
      row.engineSlot = slot → since < row.observedAt → evidence row)
    (h : op.Fenced evidence slot step since) : op'.Fenced evidence slot step since := by
  induction hwrites with
  | refl => exact h
  | @tail mid last hprev hlast ih =>
    obtain ⟨db, effect, hsame, hmove⟩ := hlast
    obtain ⟨_, hprogress⟩ := progressing_of_reading hprev hop
    apply hmove.fenced hprogress ?_ ih
    rw [(writes_of_reading hprev).frame.operationId, hsame.observations]
    exact hrows

/-- What a write does to the proxy of a forward operation: nothing to step and mark, a delivery to
an unmarked one, or an accepted success. -/
theorem OpMove.proxy_cases {effect : Effect} (hmove : OpMove db now op effect op')
    (hphase : op'.phase = .forward) : (op'.proxy.nextStep = op.proxy.nextStep ∧
        op'.proxy.effectAmbiguous = op.proxy.effectAmbiguous) ∨ op.proxy.effectAmbiguous = false ∨
      ∃ request, effect = .report .proxy request ∧ op.proxy.nextStep = request.step ∧
        (proxyCondition request op.proxy).1 = "" := by
  cases hmove with
  | enterRestoration => cases hphase
  | pause code detail hrec =>
    rw [hrec.pause_eq]
    exact .inl ⟨rfl, rfl⟩
  | @deliver selection hstate hdeadline hselect hmutating hinspection =>
    cases hkey : selection.key with
    | engineSlot slot => exact .inl ⟨rfl, rfl⟩
    | proxy =>
      obtain ⟨_, rfl⟩ := selectTarget_proxy hselect hkey
      exact .inr (.inl (Selection.inspection_eq_false hmutating hinspection).2)
  | proxyStep request next hstate hdeadline hincomplete hstep hnext hsuccess =>
    exact .inr (.inr ⟨request, rfl, hstep, hsuccess⟩)
  | _ => exact .inl ⟨rfl, rfl⟩

/-- A successful result of `kind` for the proxy of operation `id` that the manager accepts. -/
def AcceptsProxyResult (contract : DeploymentContract) (id : String)
    (kind : NodeOperationStepKind) (w : World) (input : Input) : Prop :=
  ∃ request agent op result,
    input.call = .reportStep request agent ∧ request.operationId = id ∧
    request.step = kind ∧
    request.target.map (fun t => (t.kind, t.identity)) =
      some (TargetKey.proxy.kind, some .proxy) ∧
    w.db.leasedOperation? input.now request.nodeId request.operationId request.leaseEpoch
      agent request.agentInstanceId = some op ∧
    (proxyCondition request op.proxy).1 = "" ∧
    (Manager.step contract w.db input.now input.call).2 = .operation result

def Operation.ProxyMarked (kind : NodeOperationStepKind) (op : Operation) : Prop :=
  op.proxy.nextStep = kind ∧ op.proxy.effectAmbiguous = true

/-- A call on a forward operation keeps the proxy marked, unless it is an accepted success. -/
theorem Operation.ProxyMarked.callWrites {contract : DeploymentContract} {w : World} {input : Input}
    (hwrites : CallWrites contract w input op op') (hphase : op'.phase = .forward)
    (h : op.ProxyMarked kind) :
    op'.ProxyMarked kind ∨ AcceptsProxyResult contract op.operationId kind w input := by
  induction hwrites with
  | refl => exact .inl h
  | @tail mid last hprev hlast ih =>
    obtain ⟨db, effect, _, hmove, htakesIn⟩ := hlast
    rcases ih (hmove.phase_forward hphase) with ⟨hstep, hmarked⟩ | haccepted
    · rcases hmove.proxy_cases hphase with ⟨hnext, hsame⟩ | hclear |
        ⟨request, rfl, hrequest, hsuccess⟩
      · exact .inl ⟨hnext.trans hstep, hsame.trans hmarked⟩
      · cases hmarked.symm.trans hclear
      · obtain ⟨target, taken, agent, result, heffect, hcall, hreply, htarget, hleased⟩ :=
          htakesIn rfl
        cases heffect
        have hid : mid.operationId = op.operationId :=
          (writes_of_reading (readingWrites_of_call hprev)).frame.operationId
        refine .inr ⟨request, agent, mid, result, hcall, ?_, hrequest.symm.trans hstep,
          htarget, hleased, hsuccess, hreply⟩
        rw [← hid]
        exact (leasedOperation?_eq_some hleased).2.2.1.symm
    · exact .inr haccepted

theorem Operation.ProxyMarked.quietWrites (hwrites : ReflTransGen (QuietWrite now read) op op')
    (hphase : op'.phase = .forward) (h : op.ProxyMarked kind) : op'.ProxyMarked kind := by
  induction hwrites with
  | refl => exact h
  | @tail mid last hprev hlast ih =>
    obtain ⟨db, effect, _, hquiet, hmove⟩ := hlast
    obtain ⟨hstep, hmarked⟩ := ih (hmove.phase_forward hphase)
    rcases hmove.proxy_cases hphase with ⟨hnext, hsame⟩ | hclear | ⟨request, rfl, _⟩
    · exact ⟨hnext.trans hstep, hsame.trans hmarked⟩
    · cases hmarked.symm.trans hclear
    · cases hquiet

section Runs

variable {contract : DeploymentContract} {nodeId : String} {w later : World} {first second : Input}
  {delivered redelivered : AgentInstruction} {before before₂ op₂ : Operation}
  {selection₂ : Selection}

/-- An observation of the slot accepted between two states of a run and stamped after `since`. -/
def FreshEvidence (contract : DeploymentContract) (id slot : String) (since : Time)
    (start later : World) (row : SlotObservation) : Prop :=
  Between (World.next contract) InOrder (AcceptsObservation contract row) start later ∧
    row.operationId = id ∧ row.engineSlot = slot ∧ since < row.observedAt

/-- After an in-order claim, every stored row that is stamped after it was
accepted after it. -/
theorem freshEvidence_of_stored (hreach : Reach (World.next contract) InOrder
      (World.initial nodeId) w) (horder : InOrder w first)
    (hrun : Reach (World.next contract) InOrder (w.next contract first) later) {id : String} :
    ∀ row ∈ later.db.observations, row.operationId = id → row.engineSlot = slot →
      first.now < row.observedAt →
      FreshEvidence contract id slot first.now (w.next contract first) later row := by
  intro row hrow hid hslot hstamp
  have hclaimed := hreach.step horder
  have hkeys := reachable_keys (hclaimed.mono fun _ _ _ => trivial)
  refine ⟨accepted_of_stored hkeys hrun (fun hold => ?_) hrow, hid, hslot, hstamp⟩
  have hle : row.observedAt ≤ first.now := observedAt_le_clock hclaimed row hold
  exact absurd hstamp (not_lt.2 hle)

section Delivered

variable (hreach : Reachable contract nodeId w)
  (h : Delivers contract w first delivered before op selection)
include hreach h

omit hreach in
theorem Delivers.after_id :
    (op.deliver selection.key first.now).operationId = delivered.operationId := by
  rw [h.operationId]
  cases selection.key <;> rfl

omit hreach in
theorem Delivers.before_id : before.operationId = delivered.operationId := by
  rw [h.operationId]
  exact (writes_of_reading (readingWrites_of_quiet h.writes)).frame.operationId.symm

theorem Delivers.progressing : op.Lifecycle ∧ op.Progressing :=
  progressing_of_reading (readingWrites_of_quiet h.writes)
    (reachable_progressing hreach before h.before_mem)

theorem Delivers.forward (hforward : delivered.restoration = false) : op.phase = .forward := by
  have hactive : op.isActive = true := isActive_of_state (.inr (.inl h.running))
  apply (h.progressing hreach).1.forward hactive
  intro hrestoring
  rw [h.restoration.2 hrestoring] at hforward
  cases hforward

theorem Delivers.fenced (hkey : selection.key = .engineSlot slot) (evidence : SlotObservation → Prop) :
    (op.deliver selection.key first.now).Fenced evidence slot delivered.step first.now := by
  intro hphase t' ht' hslot
  rw [hkey] at hphase ht'
  change op.phase = .forward at hphase
  obtain ⟨t, hpending, rfl, hselection, _⟩ := selectTarget_slot h.select hkey
  have hordered := (h.progressing hreach).2.ordered (by rw [hphase]; decide)
  rcases (mem_modifySlot hordered.nodup (mem_of_pendingSlot hpending).1).1 ht' with
    rfl | ⟨_, hne⟩
  · refine .inr ⟨?_, .inl ⟨first.now, rfl, le_rfl⟩⟩
    rw [h.step, hselection]
    rfl
  · exact absurd hslot hne

end Delivered

theorem slot_redelivery_evidence
    (hreach : Reach (World.next contract) InOrder (World.initial nodeId) w)
    (horder : InOrder w first) (h : Delivers contract w first delivered before op selection)
    (hrun : Reach (World.next contract) InOrder (w.next contract first) later)
    (h₂ : Delivers contract later second redelivered before₂ op₂ selection₂)
    (hforward : redelivered.restoration = false)
    (hid : redelivered.operationId = delivered.operationId)
    (hkey : selection.key = .engineSlot slot) (hkey₂ : selection₂.key = .engineSlot slot)
    (hstep : redelivered.step = delivered.step) :
    ∃ row, FreshEvidence contract delivered.operationId slot first.now
        (w.next contract first) later row ∧
      ∃ t ∈ op₂.engines, t.engineSlot = slot ∧ t.progress.nextStep = redelivered.step ∧
        t.showsNoEffect row := by
  have hclaimed := hreach.step horder
  have hany : Reachable contract nodeId w := hreach.mono fun _ _ _ => trivial
  have hclaimedAny : Reachable contract nodeId (w.next contract first) :=
    hclaimed.mono fun _ _ _ => trivial
  have hlater : Reachable contract nodeId later :=
    (hclaimed.trans hrun).mono fun _ _ _ => trivial
  have hkeys := reachable_keys hlater
  have hafterId := h.after_id
  obtain ⟨o, ho, hwrites, hfenced⟩ := reach_follows (P := fun u o => o.Fenced
      (FreshEvidence contract delivered.operationId slot first.now (w.next contract first) u)
      slot delivered.step first.now) (reachable_keys hclaimedAny) h.after_mem
    (h.fenced hany hkey _) (by
      intro u input o o' hu hok ho hwrites hfenced hcall
      have huAny : Reachable contract nodeId u :=
        (hclaimed.trans hu).mono fun _ _ _ => trivial
      refine Operation.Fenced.written (readingWrites_of_call hcall)
        (reachable_progressing huAny o ho) ?_ ?_
      · rw [hwrites.frame.operationId, hafterId]
        exact freshEvidence_of_stored hreach horder (hu.step hok)
      · exact hfenced.mono fun row ⟨hbetween, hrow⟩ =>
          ⟨hbetween.extend (.single hok), hrow⟩) hrun
  -- The operation that the second claim selects from is the fenced one.
  have hbefore := h₂.before_id.trans hid
  obtain rfl := eq_of_nodup_key hkeys.operations ho h₂.before_mem
    ((hwrites.frame.operationId.trans hafterId).trans hbefore.symm)
  have hselected : op₂.Fenced (FreshEvidence contract delivered.operationId slot first.now
      (w.next contract first) later) slot delivered.step first.now := by
    refine Operation.Fenced.written (readingWrites_of_quiet h₂.writes)
      (reachable_progressing hlater o ho) ?_ hfenced
    rw [hbefore]
    exact freshEvidence_of_stored hreach horder hrun
  have hphase := h₂.forward hlater hforward
  obtain ⟨t, hpending, htslot, hselection, _⟩ := selectTarget_slot h₂.select hkey₂
  obtain ⟨ht, _⟩ := mem_of_pendingSlot hpending
  have hnext : t.progress.nextStep = redelivered.step := by
    rw [h₂.step, hselection]
    rfl
  have hpath := ((h₂.progressing hlater).2.inSequence hphase).onPath t ht
  rcases hselected hphase t ht htslot with htaken | ⟨_, ⟨time, hmarked, _⟩ | ⟨row, hrow, hshows⟩⟩
  · rw [← hstep, ← hnext] at htaken
    refine absurd htaken (hpath.mutation_not_taken ?_)
    rw [hnext, h₂.step]
    exact h₂.mutating
  · have hundelivered := h₂.undelivered
    rw [hselection] at hundelivered
    change t.progress.effectDeliveredAt.isSome = false at hundelivered
    rw [hmarked] at hundelivered
    cases hundelivered
  · exact ⟨row, hrow, t, ht, htslot, hnext, hshows⟩

theorem proxy_redelivery_result (hreach : Reachable contract nodeId w) {ok : World → Input → Prop}
    (h : Delivers contract w first delivered before op selection)
    (hrun : Reach (World.next contract) ok (w.next contract first) later)
    (h₂ : Delivers contract later second redelivered before₂ op₂ selection₂)
    (hforward : redelivered.restoration = false)
    (hid : redelivered.operationId = delivered.operationId) (hkey : selection.key = .proxy)
    (hkey₂ : selection₂.key = .proxy) : Between (World.next contract) ok
      (AcceptsProxyResult contract delivered.operationId delivered.step)
      (w.next contract first) later := by
  have hclaimed : Reachable contract nodeId (w.next contract first) := hreach.step trivial
  have hlater : Reachable contract nodeId later :=
    hclaimed.trans (hrun.mono fun _ _ _ => trivial)
  have hkeys := reachable_keys hlater
  have hafterId := h.after_id
  obtain ⟨o, ho, hsame, hmarked⟩ := reach_until
    (P := fun o => o.phase = .forward → o.ProxyMarked delivered.step)
    (R := AcceptsProxyResult contract delivered.operationId delivered.step)
    (reachable_keys hclaimed) h.after_mem
    (fun _ => ⟨by rw [h.step, (selectTarget_proxy h.select hkey).2]; rfl, by rw [hkey]; rfl⟩) (by
      intro u input o o' _ _ hsame hold hcall
      by_cases hphase : o'.phase = .forward
      · have hwrites := writes_of_reading (readingWrites_of_call hcall)
        rw [← hafterId, ← hsame.frame.operationId]
        exact ((hold (hwrites.phase_forward hphase)).callWrites hcall hphase).imp_left fun h _ => h
      · exact .inl fun h => absurd h hphase) hrun
  obtain rfl := eq_of_nodup_key hkeys.operations ho h₂.before_mem
    ((hsame.frame.operationId.trans hafterId).trans (h₂.before_id.trans hid).symm)
  have hphase := h₂.forward hlater hforward
  have hwrites := writes_of_reading (readingWrites_of_quiet h₂.writes)
  refine hmarked.resolve_left fun hstill => ?_
  replace hstill := hstill (hwrites.phase_forward hphase)
  have hambiguous := (hstill.quietWrites h₂.writes hphase).2
  have hunambiguous := h₂.unambiguous
  rw [(selectTarget_proxy h₂.select hkey₂).2] at hunambiguous
  change op₂.proxy.effectAmbiguous = false at hunambiguous
  cases hambiguous.symm.trans hunambiguous

/-- A forward mutation is redelivered only on fresh proof that it had no effect: for a slot, an
observation accepted in between under the lease and stamped after the first delivery; for the proxy,
a successful result of that delivery. -/
theorem forward_redelivery_needs_proof
    (hreach : Reach (World.next contract) InOrder (World.initial nodeId) w)
    (horder : InOrder w first) (hfirst : Claims contract w first delivered)
    (hmutating : delivered.step.isMutating = true) :
    (∃ o ∈ (w.next contract first).db.operations, o.operationId = delivered.operationId ∧
      ∃ key, delivered.target.identity = some key ∧ o.MarkedAt key first.now) ∧
    ∀ later second redelivered, Reach (World.next contract) InOrder (w.next contract first) later →
      InOrder later second → Claims contract later second redelivered →
      redelivered.step.isMutating = true → redelivered.restoration = false →
      redelivered.operationId = delivered.operationId →
      (∀ slot, delivered.target.identity = some (.engineSlot slot) →
        redelivered.target.identity = some (.engineSlot slot) → redelivered.step = delivered.step →
        ∃ row, Between (World.next contract) InOrder (AcceptsObservation contract row)
            (w.next contract first) later ∧
          row.operationId = delivered.operationId ∧ row.engineSlot = slot ∧
          first.now < row.observedAt ∧ row.backendQueryError = "" ∧
          ∃ o ∈ (later.next contract second).db.operations,
            o.operationId = delivered.operationId ∧ ∃ t ∈ o.engines,
              t.engineSlot = slot ∧ t.progress.nextStep = redelivered.step ∧ t.showsNoEffect row) ∧
      (delivered.target.identity = some .proxy → redelivered.target.identity = some .proxy →
        Between (World.next contract) InOrder
          (AcceptsProxyResult contract delivered.operationId delivered.step)
          (w.next contract first) later) := by
  have hany : Reachable contract nodeId w := hreach.mono fun _ _ _ => trivial
  obtain ⟨before, op, selection, h⟩ := hfirst.delivers hany hmutating
  refine ⟨⟨_, h.after_mem, ?_, selection.key, h.identity, h.markedAt⟩, ?_⟩
  · rw [h.operationId]
    cases selection.key <;> rfl
  intro later second redelivered hrun _ hsecond hmutating₂ hforward hid
  have hlater : Reachable contract nodeId later :=
    ((hreach.step horder).trans hrun).mono fun _ _ _ => trivial
  obtain ⟨before₂, op₂, selection₂, h₂⟩ := hsecond.delivers hlater hmutating₂
  constructor
  · intro slot hslot hslot₂ hstep
    have hkey : selection.key = .engineSlot slot :=
      Option.mem_unique h.identity hslot
    have hkey₂ : selection₂.key = .engineSlot slot :=
      Option.mem_unique h₂.identity hslot₂
    obtain ⟨row, ⟨hbetween, hrowId, hrowSlot, hstamp⟩, t, ht, htslot, hnext, hshows⟩ :=
      slot_redelivery_evidence hreach horder h hrun h₂ hforward hid hkey hkey₂ hstep
    refine ⟨row, hbetween, hrowId, hrowSlot, hstamp, hshows.1, _, h₂.after_mem, ?_,
      { t with progress := t.progress.deliver second.now }, ?_, htslot, hnext,
      EngineTarget.showsNoEffect_congr rfl rfl rfl hshows⟩
    · rw [hkey₂, ← hid, h₂.operationId]
      rfl
    · rw [hkey₂]
      exact mem_updateWhere.2 ⟨t, ht, by simp [htslot]⟩
  · intro hproxy hproxy₂
    exact proxy_redelivery_result hany h hrun h₂ hforward hid
      (Option.mem_unique h.identity hproxy)
      (Option.mem_unique h₂.identity hproxy₂)

end Runs

theorem selection_redelivered_after_observation :
    let id := "8d7eef43-aa27-83b7-a7ab-2a5f124cae58"
    let w := Sample.run (Sample.submitted ["blue"] ++ Sample.proxyDone id ++
      [Sample.claimed 12, Sample.reported 13
        (Sample.result id 1 .verifyReleaseMetadata (.engineSlot "blue") 1 "" "")])
    let claimed := w.next Sample.contract (Sample.claimed 14)
    let later := claimed.next Sample.contract (Sample.observed 16
      (Sample.observation id 1 "blue" 0 "blue-0" "" .exited))
    ∃ delivered redelivered, Claims Sample.contract w (Sample.claimed 14) delivered ∧
      Claims Sample.contract later (Sample.claimed 17) redelivered ∧
      redelivered.step = .selectRelease ∧
      ∃ row, Between (World.next Sample.contract) InOrder
          (AcceptsObservation Sample.contract row) claimed later ∧
        row.engineSlot = "blue" ∧ seconds 14 < row.observedAt := by
  intro id w claimed later
  have hreach : Reach (World.next Sample.contract) InOrder (World.initial "node-a") w :=
    reach_runAll _ (by decide +kernel)
  have hrun : Reach (World.next Sample.contract) InOrder claimed later :=
    .single (by decide +kernel)
  obtain ⟨delivered, hclaim, hstep, hid, hslot⟩ :
      ∃ i, Claims Sample.contract w (Sample.claimed 14) i ∧ i.step = .selectRelease ∧
        i.operationId = id ∧ i.target.identity = some (.engineSlot "blue") :=
    claims_of_any ⟨_, _, rfl⟩ (by decide +kernel)
  obtain ⟨redelivered, hclaim₂, hstep₂, hid₂, hslot₂, hforward⟩ :
      ∃ i, Claims Sample.contract later (Sample.claimed 17) i ∧ i.step = .selectRelease ∧
        i.operationId = id ∧ i.target.identity = some (.engineSlot "blue") ∧
        i.restoration = false :=
    claims_of_any ⟨_, _, rfl⟩ (by decide +kernel)
  obtain ⟨_, hall⟩ := forward_redelivery_needs_proof hreach
    (by decide +kernel : InOrder w (Sample.claimed 14)) hclaim (by rw [hstep]; rfl)
  obtain ⟨row, hbetween, _, hrow, hstamp, _⟩ := (hall later (Sample.claimed 17) redelivered hrun
    (by decide +kernel) hclaim₂ (by rw [hstep₂]; rfl) hforward (hid₂.trans hid.symm)).1 "blue"
    hslot hslot₂ (hstep₂.trans hstep.symm)
  exact ⟨delivered, redelivered, hclaim, hclaim₂, hstep₂, row, hbetween, hrow, hstamp⟩

/-- The manager's clock is 50 ms ahead of the database's. An observation of `blue` that is received
20 ms before the first delivery gets a stamp 30 ms after it, and the next claim redelivers the
selection on it, with nothing in between. -/
theorem selection_redelivered_on_earlier_observation :
    let id := "8d7eef43-aa27-83b7-a7ab-2a5f124cae58"
    let w := Sample.run (Sample.submitted ["blue"] ++ Sample.proxyDone id ++
      [Sample.claimed 12, Sample.reported 13
        (Sample.result id 1 .verifyReleaseMetadata (.engineSlot "blue") 1 "" ""),
        ⟨seconds 14 - 20000, .reportObservation (seconds 14 + 30000)
          (Sample.observation id 1 "blue" 0 "blue-0" "" .exited) "agent-a"⟩])
    let later := w.next Sample.contract (Sample.claimed 14)
    (∃ delivered, Claims Sample.contract w (Sample.claimed 14) delivered ∧
      delivered.step = .selectRelease ∧
      delivered.target.identity = some (.engineSlot "blue")) ∧
    ∃ redelivered, Claims Sample.contract later (Sample.claimed 15) redelivered ∧
      redelivered.step = .selectRelease ∧ redelivered.restoration = false ∧
      redelivered.target.identity = some (.engineSlot "blue") := by
  intro id w later
  exact ⟨claims_of_any ⟨_, _, rfl⟩ (by decide +kernel),
    claims_of_any ⟨_, _, rfl⟩ (by decide +kernel)⟩

end Wruntime.Manager
