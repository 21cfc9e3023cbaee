import Wruntime.Manager.Chains

/-!
What a call read and wrote when it committed, for each call of the manager. The inversion lemmas
take the transactions apart once; everything later is about their conclusions and never unfolds a
transaction.
-/

namespace Wruntime.Manager

open Fallible Table Runs Relation

variable {db db' db₁ : Db} {base o op : Operation} {effect : Effect} {d row : Deployment}
  {actor agent id instanceId nodeId : String} {now : Time} {selection : Selection}
  {instruction : AgentInstruction} {contract : DeploymentContract}

theorem beforeDeadline_of_not_expired
    (h : ¬(op.phase = .forward ∧ op.deadlineExpired now = true)) : op.BeforeDeadline now := by
  intro hphase
  by_contra hlate
  refine h ⟨hphase, ?_⟩
  simp only [Operation.deadlineExpired, decide_eq_true_eq]
  exact .inl ⟨hphase, not_lt.1 hlate⟩

/-- The operation a lease fence lets through is the one the caller holds, unexpired. -/
theorem leasedOperation?_eq_some {epoch : Nat}
    (h : db.leasedOperation? now nodeId id epoch agent instanceId = some op) :
    nodeId = db.nodeId ∧ op ∈ db.operations ∧ op.operationId = id ∧
      op.leasedTo now epoch agent instanceId = true := by
  unfold Db.leasedOperation? at h
  split at h
  next hnode =>
    exact ⟨hnode, found h⟩
  · cases h

theorem Operation.leasedTo_eq_true {epoch : Nat}
    (h : op.leasedTo now epoch agent instanceId = true) :
    op.state = .running ∧ op.leaseEpoch = epoch ∧
      ∃ lease, op.lease = some lease ∧ lease.claimedBy = agent ∧
        lease.agentInstanceId = instanceId ∧ now < lease.expiresAt := by
  simp only [Operation.leasedTo, decide_eq_true_eq] at h
  obtain ⟨hstate, hepoch, hany⟩ := h
  obtain ⟨lease, hlease, hvalue⟩ := Option.any_eq_true _ _ |>.1 hany
  simp only [decide_eq_true_eq] at hvalue
  exact ⟨hstate, hepoch, lease, hlease, hvalue⟩

/-- The split at the deadline that the calls about a leased operation make. -/
theorem fenced_eq_ok {α : Type} {rest : Except Status (Db × α)} {late reply : α}
    (h : (if op.phase = .forward ∧ op.deadlineExpired now = true then do
        let fenced ← fenceDeadline db op.operationId
        return (fenced, late)
      else rest) = .ok (db', reply)) :
    op.phase = .forward ∧ op.deadlineExpired now = true ∧ reply = late ∧
        fenceDeadline db op.operationId = .ok db' ∨
      op.BeforeDeadline now ∧ rest = .ok (db', reply) := by
  split at h
  next hlate =>
    simp only [bind_eq_ok, pure_eq_ok, Prod.mk.injEq] at h
    obtain ⟨fenced, hfence, rfl, rfl⟩ := h
    exact .inl ⟨hlate.1, hlate.2, rfl, hfence⟩
  next hopen => exact .inr ⟨beforeDeadline_of_not_expired hopen, h⟩

section Claim

variable {reply : Option AgentInstruction}

/-- The instruction `issueInstruction` hands out for a selection. -/
def Operation.instructionFor (op : Operation) (nodeId instanceId : String)
    (selection : Selection) (revisionDigest : String) : AgentInstruction where
  operationId := op.operationId
  nodeId := nodeId
  leaseEpoch := op.leaseEpoch
  step := selection.instructionStep
  operationDeadline := if op.phase = .restoringSource then none else some op.forwardDeadline
  agentInstanceId := instanceId
  target :=
    { kind := selection.key.kind
      identity := some selection.key
      revision := selection.release.revision
      bundleDigest := selection.release.digest
      resolvedReleaseDigest := selection.release.resolvedDigest }
  pinnedBackendInstanceId := selection.pinnedBackend
  pinnedProcessInstanceId := selection.pinnedProcess
  restoration := op.phase = .restoringSource
  revisionDigest := revisionDigest

theorem issueInstruction_eq_ok
    (h : issueInstruction db now op instanceId selection = .ok (db', instruction)) :
    (∃ digest, instruction = op.instructionFor db.nodeId instanceId selection digest) ∧
    targetStepCompatible selection.key.kind selection.instructionStep = true ∧
    db' = if selection.step.isMutating = true ∧ selection.inspection = false
      then db.write op .plain (·.deliver selection.key now) else db := by
  simp only [issueInstruction, bind_eq_ok, ensure_eq_ok] at h
  obtain ⟨digest, _, _, hcompatible, h⟩ := h
  split at h
  next hdeliver =>
    have hcond : selection.step.isMutating = true ∧ selection.inspection = false := by
      simpa using hdeliver
    obtain ⟨rfl, rfl⟩ := Prod.mk.inj (pure_eq_ok.1 h)
    refine ⟨⟨digest, rfl⟩, hcompatible, ?_⟩
    rw [if_pos hcond]
    rfl
  next hdeliver =>
    have hcond : ¬(selection.step.isMutating = true ∧ selection.inspection = false) := by
      simpa using hdeliver
    obtain ⟨rfl, rfl⟩ := Prod.mk.inj (pure_eq_ok.1 h)
    refine ⟨⟨digest, rfl⟩, hcompatible, ?_⟩
    rw [if_neg hcond]

/-- A leased claim reconciles, then answers nothing or instructs the selected target of the running
operation. -/
theorem claimLeased_eq_ok (h : claimLeased db now id instanceId = .ok (db', reply)) :
    ∃ db₁ op, reconcile db now id = .ok db₁ ∧ db₁.operation? id = some op ∧
      ((reply = none ∧ db' = db₁) ∨
       ∃ selection instruction, op.state = .running ∧ op.selectTarget = some selection ∧
        reply = some instruction ∧
        issueInstruction db₁ now op instanceId selection = .ok (db', instruction)) := by
  simp only [claimLeased, bind_eq_ok] at h
  obtain ⟨db₁, hreconcile, op, hload, h⟩ := h
  refine ⟨db₁, op, hreconcile, loadOperation_eq_ok hload, ?_⟩
  split at h
  · obtain ⟨rfl, rfl⟩ := Prod.mk.inj (pure_eq_ok.1 h)
    exact .inl ⟨rfl, rfl⟩
  next hrunning =>
  split at h
  · obtain ⟨rfl, rfl⟩ := Prod.mk.inj (pure_eq_ok.1 h)
    exact .inl ⟨rfl, rfl⟩
  next selection hselect =>
    simp only [bind_eq_ok, pure_eq_ok, Prod.mk.injEq] at h
    obtain ⟨⟨db₂, instruction⟩, hissue, rfl, rfl⟩ := h
    exact .inr ⟨selection, instruction, not_not.1 hrunning, hselect, rfl, hissue⟩

/-- The lease of a claim: a new epoch for a queued operation, otherwise the caller's lease
extended. -/
def claimLease (op : Operation) (now : Time) (instanceId agent : String)
    (o : Operation) : Operation :=
  if op.state = .queued then o.takeLease now instanceId agent else o.extendLease now

/-- A claim drops the expired leases first. Then it finds nothing, fences an operation whose
deadline has passed, or takes the lease and goes on with it. -/
theorem claim_eq_ok (h : claim db now instanceId agent = .ok (db', reply)) :
    instanceId ≠ "" ∧ attested db now instanceId agent = true ∧
    ((db' = expireLeases db now ∧ reply = none) ∨
     ∃ op ∈ (expireLeases db now).operations, op.claimable now instanceId = true ∧
      ((op.phase = .forward ∧ op.deadlineExpired now = true ∧ reply = none ∧
          fenceDeadline (expireLeases db now) op.operationId = .ok db') ∨ (op.BeforeDeadline now ∧
          claimLeased ((expireLeases db now).write op .plain
            (claimLease op now instanceId agent)) now op.operationId instanceId =
              .ok (db', reply)))) := by
  simp only [claim, bind_eq_ok, ensure_eq_ok] at h
  obtain ⟨_, hinstance, _, hattested, h⟩ := h
  refine ⟨hinstance, hattested, ?_⟩
  split at h
  · obtain ⟨rfl, rfl⟩ := Prod.mk.inj (pure_eq_ok.1 h)
    exact .inl ⟨rfl, rfl⟩
  next op hfind =>
  have hclaimable := List.find?_some hfind
  refine .inr ⟨op, List.mem_of_find?_eq_some hfind, hclaimable, ?_⟩
  exact fenced_eq_ok h

/-- A claim that returned an instruction: the operation it leased, the database after the
reconciliation, and the target that it selected there. -/
structure Instructed (db : Db) (now : Time) (instanceId agent : String) (db' : Db)
    (instruction : AgentInstruction) (base : Operation) (db₁ : Db) (op : Operation)
    (selection : Selection) : Prop where
  attested : attested db now instanceId agent = true
  base_mem : base ∈ (expireLeases db now).operations
  claimable : base.claimable now instanceId = true
  deadline : base.BeforeDeadline now
  reconcile : reconcile ((expireLeases db now).write base .plain
    (claimLease base now instanceId agent)) now base.operationId = .ok db₁
  op_mem : op ∈ db₁.operations
  op_id : op.operationId = base.operationId
  running : op.state = .running
  select : op.selectTarget = some selection
  instruction : ∃ digest,
    instruction = op.instructionFor db₁.nodeId instanceId selection digest
  compatible : targetStepCompatible selection.key.kind selection.instructionStep = true
  result : db' = if selection.step.isMutating = true ∧ selection.inspection = false
    then db₁.write op .plain (·.deliver selection.key now) else db₁

theorem claim_instructed (h : claim db now instanceId agent = .ok (db', some instruction)) :
    ∃ base db₁ op selection,
      Instructed db now instanceId agent db' instruction base db₁ op selection := by
  obtain ⟨_, hattested, ⟨_, hreply⟩ | ⟨base, hmem, hclaimable, ⟨_, _, hreply, _⟩ |
    ⟨hdeadline, hleased⟩⟩⟩ := claim_eq_ok h
  · cases hreply
  · cases hreply
  obtain ⟨db₁, op, hreconcile, hop, ⟨hreply, _⟩ |
    ⟨selection, issued, hrunning, hselect, hreply, hissue⟩⟩ := claimLeased_eq_ok hleased
  · cases hreply
  obtain rfl := Option.some.inj hreply
  obtain ⟨hopMem, hopId⟩ := mem_of_operation? hop
  obtain ⟨hinstruction, hcompatible, hresult⟩ := issueInstruction_eq_ok hissue
  exact ⟨base, db₁, op, selection, hattested, hmem, hclaimable, hdeadline, hreconcile, hopMem,
    hopId, hrunning, hselect, hinstruction, hcompatible, hresult⟩

end Claim

section Fenced

variable {request : ReportStepResultRequest} {reply : Except Status Operation}

/-- A renewal extends the lease of its holder, or commits the fence of a passed deadline together
with its error. -/
theorem renew_eq_ok {request : RenewOperationLeaseRequest} {reply : Except Status Time}
    (h : renew db now request agent = .ok (db', reply)) :
    ∃ op, db.leasedOperation? now request.nodeId request.operationId request.leaseEpoch
        agent request.agentInstanceId = some op ∧
      ((op.phase = .forward ∧ op.deadlineExpired now = true ∧
          reply = .error deadlineError ∧ fenceDeadline db op.operationId = .ok db') ∨
       (op.BeforeDeadline now ∧ db' = db.write op .plain (·.extendLease now) ∧
          reply = .ok (now + seconds leaseSeconds))) := by
  simp only [renew, bind_eq_ok, ensure_eq_ok, required_eq_ok] at h
  obtain ⟨_, _, op, hop, h⟩ := h
  refine ⟨op, hop, ?_⟩
  refine (fenced_eq_ok h).imp_right (And.imp_right fun h => ?_)
  obtain ⟨rfl, rfl⟩ := Prod.mk.inj (pure_eq_ok.1 h)
  exact ⟨rfl, rfl⟩

theorem reportObservation_eq_ok {receivedAt : Time} {request : ReportNodeObservationRequest}
    (h : reportObservation db now receivedAt request agent = .ok (db', reply)) :
    ∃ op, db.leasedOperation? now request.nodeId request.operationId request.leaseEpoch
        agent request.agentInstanceId = some op ∧
      ((op.phase = .forward ∧ op.deadlineExpired now = true ∧
          reply = .error deadlineError ∧ fenceDeadline db op.operationId = .ok db') ∨
       (op.BeforeDeadline now ∧
          reconcile (db.recordObservation (request.row receivedAt)) now op.operationId = .ok db' ∧
          ∃ result, reply = .ok result ∧ db'.operation? op.operationId = some result)) := by
  simp only [reportObservation, bind_eq_ok, ensure_eq_ok, required_eq_ok] at h
  obtain ⟨_, _, _, _, _, _, op, hop, h⟩ := h
  refine ⟨op, hop, ?_⟩
  refine (fenced_eq_ok h).imp_right (And.imp_right fun h => ?_)
  simp only [bind_eq_ok, ensure_eq_ok, pure_eq_ok, Prod.mk.injEq] at h
  obtain ⟨_, _, reconciled, hreconcile, result, hload, rfl, rfl⟩ := h
  exact ⟨hreconcile, result, rfl, loadOperation_eq_ok hload⟩

/-- The proxy branch: a failed result pauses, a successful one moves the proxy
on and reconciles. -/
theorem reportProxyStep_eq_ok (h : reportProxyStep db now op request = .ok db') :
    op.proxy.complete = false ∧ op.proxy.nextStep = request.step ∧ ((∃ code detail, code ≠ "" ∧
          db' = db.write op .plain (·.failProxy code detail)) ∨
       ∃ next, proxyNextStep request.step = .ok next ∧ (proxyCondition request op.proxy).1 = "" ∧
          reconcile (db.write op .plain fun o =>
            { o with proxy := o.proxy.proxyStep request next }) now op.operationId =
              .ok db') := by
  simp only [reportProxyStep, bind_eq_ok, ensure_eq_ok] at h
  obtain ⟨_, hincomplete, _, hstep, h⟩ := h
  refine ⟨hincomplete, hstep.2, ?_⟩
  split at h
  next hcode =>
    exact .inl ⟨_, _, hcode, (pure_eq_ok.1 h).symm⟩
  next hcode =>
    simp only [bind_eq_ok, ensure_eq_ok] at h
    obtain ⟨next, hnext, _, _, h⟩ := h
    exact .inr ⟨next, hnext, not_not.1 hcode, h⟩

theorem reportSlotStep_eq_ok {key : String} (hstep : request.step ≠ .verifyProxy)
    (h : reportSlotStep db now op key request = .ok db') :
    ∃ slot ∈ op.engines, slot.engineSlot = key ∧ slot.complete = false ∧
      slot.progress.nextStep = request.step ∧
      ∃ code detail, slotCondition request slot op.proxy.pinnedProcessInstanceId = (code, detail) ∧
        reconcile (db.write op .plain
          (·.modifyProgress key (·.recordEffect request code detail))) now op.operationId =
            .ok db' := by
  simp only [reportSlotStep, bind_eq_ok, ensure_eq_ok, required_eq_ok] at h
  obtain ⟨slot, hslot, _, hnext, _, _, h⟩ := h
  obtain ⟨hmem, hkey, hincomplete⟩ := found hslot
  refine ⟨slot, hmem, hkey, hincomplete, hnext,
    (slotCondition request slot op.proxy.pinnedProcessInstanceId).1,
    (slotCondition request slot op.proxy.pinnedProcessInstanceId).2, rfl, ?_⟩
  simpa [hstep, Db.write, Db.applyEffect] using h

/-- A result is accepted under the lease and leaves a receipt, and the operation is reconciled with
it. -/
theorem acceptStep_eq_ok {target : TargetKey}
    (h : acceptStep db now request target agent = .ok (db', reply)) :
    ∃ op, db.leasedOperation? now request.nodeId request.operationId request.leaseEpoch
        agent request.agentInstanceId = some op ∧
      ((op.phase = .forward ∧ op.deadlineExpired now = true ∧
          reply = .error deadlineError ∧ fenceDeadline db op.operationId = .ok db') ∨
       (op.BeforeDeadline now ∧ ∃ reported,
          (match target with
            | .proxy => reportProxyStep db now op request
            | .engineSlot key => reportSlotStep db now op key request) = .ok reported ∧
          db' = { reported with
            receipts := reported.receipts ++ [request.receipt target agent] } ∧
          ∃ result, reply = .ok result ∧ db'.operation? op.operationId = some result)) := by
  simp only [acceptStep, bind_eq_ok, required_eq_ok] at h
  obtain ⟨op, hop, h⟩ := h
  have hid := (leasedOperation?_eq_some hop).2.2.1
  refine ⟨op, hop, ?_⟩
  refine (fenced_eq_ok h).imp_right (And.imp_right fun h => ?_)
  cases target with
  | proxy | engineSlot key =>
    simp only [bind_eq_ok, pure_eq_ok, Prod.mk.injEq] at h
    obtain ⟨reported, hreported, result, hload, rfl, rfl⟩ := h
    exact ⟨reported, hreported, rfl, result, rfl, hid ▸ loadOperation_eq_ok hload⟩

theorem instructionTargetKey_eq_ok {target : InstructionTarget} {key : TargetKey}
    (h : instructionTargetKey target = .ok key) :
    target.kind = key.kind ∧ target.identity = some key := by
  unfold instructionTargetKey at h
  split at h
  next hkind hidentity =>
    cases Except.ok.inj h
    exact ⟨hkind, hidentity⟩
  next hkind hidentity =>
    split at h
    · cases Except.ok.inj h
      exact ⟨hkind, hidentity⟩
    · cases h
  · cases h

/-- A result with a receipt is answered from it, if principal and payload are the same; the others
are accepted afresh. -/
theorem reportStep_eq_ok (h : reportStep db now request agent = .ok (db', reply)) :
    ∃ reportTarget target, request.target = some reportTarget ∧
      instructionTargetKey reportTarget = .ok target ∧
      targetStepCompatible target.kind request.step = true ∧
      ((∃ receipt, db.receipt? request target = some receipt ∧
          receipt.authenticatedPrincipal = agent ∧ receipt.resultPayload = request ∧ db' = db) ∨
       (db.receipt? request target = none ∧
          acceptStep db now request target agent = .ok (db', reply))) := by
  simp only [reportStep, bind_eq_ok, ensure_eq_ok, required_eq_ok] at h
  obtain ⟨_, _, reportTarget, hreport, target, htarget, _, hcompatible, h⟩ := h
  rw [(instructionTargetKey_eq_ok htarget).1] at hcompatible
  refine ⟨reportTarget, target, hreport, htarget, hcompatible, ?_⟩
  split at h
  next receipt hreceipt =>
    simp only [bind_eq_ok, ensure_eq_ok, pure_eq_ok, Prod.mk.injEq] at h
    obtain ⟨_, hsame, result, _, rfl, _⟩ := h
    exact .inl ⟨receipt, hreceipt, hsame.1, hsame.2, rfl⟩
  next hnone => exact .inr ⟨hnone, h⟩

end Fenced

section Operator

theorem canonicalizeInventory_slots {inventory canonical : DeploymentInventory}
    (h : canonicalizeInventory contract inventory = .ok canonical) : canonical.slots.Nodup := by
  simp only [canonicalizeInventory, bind_eq_ok, ensure_eq_ok, pure_eq_ok] at h
  obtain ⟨_, _, _, _, _, hslots, _, _, rfl⟩ := h
  have hperm := (List.perm_insertionSort (fun a b : ExpectedEngine =>
    a.engineSlot ≤ b.engineSlot) (inventory.engines.map fun engine =>
      { engine with
        modules := engine.modules.insertionSort fun a b => a.sortKey ≤ b.sortKey })).map
      ExpectedEngine.engineSlot
  refine hperm.nodup_iff.2 ?_
  rw [List.map_map]
  exact hslots.2

theorem beginDeployment_eq_ok {request : BeginDeploymentRequest}
    (h : beginDeployment contract db request actor = .ok (db', row)) :
    db' = db ∨ Allocation db row ∧ db' = db.allocate row := by
  simp only [beginDeployment, bind_eq_ok, required_eq_ok, mapError_eq_ok] at h
  obtain ⟨requested, _, inventory, hinventory, h⟩ := h
  split at h
  · simp only [bind_eq_ok] at h
    obtain ⟨_, _, h⟩ := h
    exact .inl (Prod.mk.inj (pure_eq_ok.1 h)).1.symm
  next htoken =>
    split at h
    · cases h
    next hstaged =>
      simp only [bind_eq_ok, mapError_eq_ok, ensure_eq_ok] at h
      obtain ⟨digest, _, _, _, h⟩ := h
      obtain ⟨rfl, rfl⟩ := Prod.mk.inj (pure_eq_ok.1 h)
      exact .inr ⟨⟨hstaged, htoken, rfl, rfl, rfl, rfl,
        .inl (canonicalizeInventory_slots hinventory)⟩, rfl⟩

theorem rollbackSource_mem {toRevision : Revision}
    (h : db.rollbackSource toRevision = some d) : d ∈ db.deployments := by
  unfold Db.rollbackSource at h
  split at h
  · refine (List.mem_filter.1 (mem_of_foldl_choice ?_ h)).1
    intro best row
    cases best with
    | none => exact .inl rfl
    | some b =>
      dsimp only
      split
      · exact .inl rfl
      · exact .inr rfl
  · exact (List.mem_filter.1 (List.mem_of_find?_eq_some h)).1

theorem beginRollback_eq_ok {toRevision : Revision} {attemptToken : String}
    (h : beginRollback contract db toRevision attemptToken actor = .ok (db', row)) :
    db' = db ∨ Allocation db row ∧ db' = db.allocate row := by
  simp only [beginRollback, bind_eq_ok, ensure_eq_ok] at h
  obtain ⟨_, _, h⟩ := h
  split at h
  · simp only [bind_eq_ok] at h
    obtain ⟨_, _, h⟩ := h
    exact .inl (Prod.mk.inj (pure_eq_ok.1 h)).1.symm
  next htoken =>
    split at h
    · cases h
    next hstaged =>
      simp only [bind_eq_ok, mapError_eq_ok, ensure_eq_ok, required_eq_ok] at h
      obtain ⟨_, _, selected, hselected, digest, _, _, _, h⟩ := h
      obtain ⟨rfl, rfl⟩ := Prod.mk.inj (pure_eq_ok.1 h)
      exact .inr ⟨⟨hstaged, htoken, rfl, rfl, rfl, rfl,
        .inr ⟨selected, rollbackSource_mem hselected, rfl⟩⟩, rfl⟩

/-- A submission repeats a known request, records one without effect, or inserts an operation. -/
theorem submit_eq_ok {freshId : String} {request : SubmitOperationRequest} {result : Operation}
    (h : submit contract db now actor request freshId = .ok (db', result)) : db' = db ∨
    (∃ op, Recorded db op ∧
      db' = { db with nodePresent := true, operations := db.operations ++ [op] }) ∨
    ∃ op rollout, Submitted db now op rollout ∧ db' = db.insertSubmitted op := by
  unfold submit at h
  split at h
  · simp only [bind_eq_ok] at h
    obtain ⟨_, _, _, _, h⟩ := h
    exact .inl (Prod.mk.inj (pure_eq_ok.1 h)).1.symm
  simp only [bind_eq_ok, ensure_eq_ok] at h
  obtain ⟨_, hspecified, _, _, _, _, ⟨source, sourceSlots⟩, hsource, h⟩ := h
  split at h
  next hsame =>
    simp only [submitNoEffect, bind_eq_ok, ensure_eq_ok, required_eq_ok] at h
    obtain ⟨committed, hcommitted, _, _, _, hfresh, _, _, loaded, _, h⟩ := h
    obtain ⟨hmem, hrow⟩ := found hcommitted
    exact .inr (.inl ⟨_, ⟨hfresh, rfl, rfl, rfl, rfl, rfl, hsame.2, committed, hmem, hrow.1⟩,
      (Prod.mk.inj (pure_eq_ok.1 h)).1.symm⟩)
  next hother =>
  simp only [bind_eq_ok] at h
  obtain ⟨⟨rollout, operationId, digest⟩, hrollout, _, hcheck, inserted, hinsert, loaded, _, h⟩ := h
  simp only [insertOperation, bind_eq_ok, ensure_eq_ok, pure_eq_ok] at hinsert
  obtain ⟨_, hunique, _, hkeys, hinserted⟩ := hinsert
  refine .inr (.inr ⟨_, rollout, ?_, ((Prod.mk.inj (pure_eq_ok.1 h)).1.symm.trans hinserted.symm)⟩)
  simp only [checkRollout, bind_eq_ok, ensure_eq_ok] at hcheck
  obtain ⟨_, hrestart, _⟩ := hcheck
  unfold requestedRollout at hrollout
  split at hrollout
  next hdeployment =>
    simp only [bind_eq_ok, ensure_eq_ok, required_eq_ok, mapError_eq_ok] at hrollout
    obtain ⟨⟨target, targetSlots⟩, htarget, deployment, hopen, _, _, _, _, _, _, _, hfinalized,
      id, _, _, _, hrollout⟩ := hrollout
    have hfields := Prod.mk.inj (pure_eq_ok.1 hrollout)
    obtain rfl := hfields.1.symm
    obtain ⟨hmem, hrevision, hisOpen⟩ := found hopen
    exact
      { fresh := hunique.1
        idle := hunique.2
        keys := hkeys
        row := ⟨actor, request, _, digest, rfl⟩
        action := rfl
        specified := hspecified
        source := hsource
        target := fun _ => ⟨htarget, ⟨deployment, hmem, hrevision, hisOpen⟩,
          fun haction htarget => hother ⟨haction, htarget⟩⟩
        finalized := fun _ => ⟨deployment, hmem, hrevision, hfinalized⟩
        restart := fun haction => by
          change request.action = .restart at haction
          simp [haction, NodeOperationAction.isDeployment] at hdeployment }
  next hdeployment =>
    have hfields := Prod.mk.inj (Except.ok.inj hrollout)
    obtain rfl := hfields.1.symm
    exact
      { fresh := hunique.1
        idle := hunique.2
        keys := hkeys
        row := ⟨actor, request, _, digest, rfl⟩
        action := rfl
        specified := hspecified
        source := hsource
        target := fun haction => absurd haction hdeployment
        finalized := fun haction => absurd haction hdeployment
        restart := fun haction => ⟨request.engineSlot,
          hrestart.resolve_left (fun hne => hne haction), rfl, rfl⟩ }

end Operator

end Wruntime.Manager
