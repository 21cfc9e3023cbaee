import Wruntime.Manager.Receipts

/-!
What becomes of a proxy inspection. A claim that finds the proxy's mutation delivered or ambiguous
has it inspected, but a proxy result must name the stored step, which is never an inspection. So the
answer is refused, in every run.
-/

namespace Wruntime.Manager

open Fallible Table Runs

variable {request : ReportStepResultRequest} {instanceId agent : String}
variable {op : Operation} {now : Time}

theorem Operation.Progressing.proxy_ne_inspect (h : op.Progressing)
    (hopen : op.phase ≠ .complete) : op.proxy.nextStep ≠ .inspectBackend := by
  intro hinspect
  cases hphase : op.phase with
  | forward =>
    have hpath := h.proxyStep hphase
    rw [hinspect] at hpath
    revert hpath
    decide
  | restoringSource =>
    rcases (h.restoring hphase).proxy with hstep | hstep <;>
    · cases hinspect.symm.trans hstep
  | complete => exact hopen hphase

theorem OpMove.proxy_step {db : Db} {op' : Operation}
    (h : OpMove db now op (.report .proxy request) op') : op.proxy.nextStep = request.step := by
  cases h with
  | failProxy code detail hstate hdeadline hincomplete hstep
  | proxyStep request next hstate hdeadline hincomplete hstep => exact hstep

section

variable {contract : DeploymentContract} {nodeId : String} {w : World}

section

variable (hreach : Reachable contract nodeId w)
include hreach

theorem leased_proxy_ne_inspect {node id : String} {epoch : Nat}
    (hleased : w.db.leasedOperation? now node id epoch agent instanceId = some op) :
    op.proxy.nextStep ≠ .inspectBackend := by
  obtain ⟨_, hmem, _, hlease⟩ := leasedOperation?_eq_some hleased
  have hrunning := (Operation.leasedTo_eq_true hlease).1
  obtain ⟨hlife, hprogress⟩ := reachable_progressing hreach op hmem
  apply hprogress.proxy_ne_inspect
  exact hlife.active.1 (isActive_of_state (.inr (.inl hrunning)))

theorem reachable_no_inspection_receipt :
    ∀ r ∈ w.db.receipts, r.target = .proxy → r.step ≠ .inspectBackend := by
  refine Reach.invariant
    (P := fun w => ∀ r ∈ w.db.receipts, r.target = .proxy → r.step ≠ .inspectBackend)
    ?_ ?_ hreach
  · intro r hr
    cases hr
  intro w input hw _ hold r hr htarget
  have hkeys := reachable_keys hw
  rcases (step_transaction contract input.now hkeys input.call).receipt_cases hkeys hr with
    hwas | ⟨request, agent, target, op, f, mid, _, _, rfl, _, hleased, hmove, _, _⟩
  · exact hold r hwas htarget
  · change target = .proxy at htarget
    rw [htarget] at hmove
    change request.step ≠ _
    rw [← hmove.proxy_step]
    exact leased_proxy_ne_inspect hw hleased

theorem reachable_no_inspection_receipt? (hstep : request.step = .inspectBackend) :
    w.db.receipt? request .proxy = none := by
  cases hfind : w.db.receipt? request .proxy with
  | none => rfl
  | some r =>
    obtain ⟨hmem, hkey⟩ := found hfind
    have hne := reachable_no_inspection_receipt hreach r hmem hkey.2.2.2.2.2
    exact absurd (hkey.2.2.2.2.1.trans hstep) hne

theorem instructed_proxy_incomplete {instruction : AgentInstruction}
    (hclaim : (step contract w.db now (.claim instanceId agent)).2 =
      .instruction (some instruction)) (hproxy : instruction.target.kind = .proxy)
    (hop : op ∈ (w.next contract ⟨now, .claim instanceId agent⟩).db.operations)
    (hid : op.operationId = instruction.operationId) : op.proxy.complete = false := by
  obtain ⟨base, db₁, selected, selection, hinstructed⟩ :=
    claim_instructed (claim_of_step hclaim)
  obtain ⟨digest, rfl⟩ := hinstructed.instruction
  have hkey : selection.key = .proxy := by
    cases hkey : selection.key with
    | proxy => rfl
    | engineSlot slot => simp [Operation.instructionFor, hkey, TargetKey.kind] at hproxy
  have hfinal := hinstructed.final (reachable_keys hreach) hop hid
  have hincomplete := (selectTarget_proxy hinstructed.select hkey).1
  rw [hfinal, hkey]
  split <;> exact hincomplete

end

/-- No claimed inspection of the proxy can be answered: the answer is refused as stale right after
the claim and in every later state. -/
theorem proxy_inspection_never_accepted (hreach : Reachable contract nodeId w) {now : Time}
    {instanceId agent : String} {instruction : AgentInstruction}
    (hclaim : (step contract w.db now (.claim instanceId agent)).2 =
      .instruction (some instruction))
    (hstep : instruction.step = .inspectBackend) (hproxy : instruction.target.kind = .proxy)
    {request : ReportStepResultRequest} (hanswers : request.Answers instruction) :
    let claimed := w.next contract ⟨now, .claim instanceId agent⟩
    (∀ time reporter op, request.leaseEpoch ≤ i64Max →
      claimed.db.leasedOperation? time request.nodeId request.operationId request.leaseEpoch
        reporter request.agentInstanceId = some op →
      op.BeforeDeadline time →
        reportStep claimed.db time request reporter =
          .error (staleResult "proxy" op.proxy.nextStep .inspectBackend)) ∧
    ∀ later, Reach (World.next contract) (fun _ _ => True) claimed later →
      ∀ time reporter db' result,
        reportStep later.db time request reporter ≠ .ok (db', .ok result) := by
  intro claimed
  have hclaimed : Reachable contract nodeId claimed := hreach.step trivial
  obtain ⟨key, _, hkeyKind, _, hnames⟩ := answered_key hreach hclaim
  obtain rfl : key = .proxy := by
    rw [hproxy] at hkeyKind
    cases key with
    | proxy => rfl
    | engineSlot slot => cases hkeyKind
  obtain ⟨target, htarget, hkind, hkey⟩ := hnames request hanswers
  have hrequest : request.step = .inspectBackend := hanswers.step.trans hstep
  refine ⟨?_, ?_⟩
  · intro time reporter op hepoch hleased hdeadline
    obtain ⟨_, hmem, hid, hlease⟩ := leasedOperation?_eq_some hleased
    have hincomplete := instructed_proxy_incomplete hreach hclaim hproxy hmem
      (hid.trans hanswers.operationId)
    have hopen : ¬(op.phase = .forward ∧ op.deadlineExpired time = true) := by
      obtain ⟨hlife, _⟩ := reachable_progressing hclaimed op hmem
      exact not_expired_of_beforeDeadline hlife hdeadline
    have hstale : ¬(op.proxy.nextStep ≠ .unspecified ∧ op.proxy.nextStep = request.step) := by
      rw [hrequest]
      exact fun h => leased_proxy_ne_inspect hclaimed hleased h.2
    have hreported : reportProxyStep claimed.db time op request =
        .error (staleResult "proxy" op.proxy.nextStep .inspectBackend) := by
      unfold reportProxyStep
      rw [ensure_bind_of_true hincomplete, ensure_bind_of_false hstale, hrequest]
    have hcompatible : targetStepCompatible target.kind request.step = true := by
      rw [hkind, hrequest]
      rfl
    rw [reportStep_of_unreceipted hepoch htarget hkey hcompatible
      (reachable_no_inspection_receipt? hclaimed hrequest)]
    unfold acceptStep
    rw [bind_of_ok (required_eq_ok.2 hleased), if_neg hopen]
    exact bind_of_error hreported
  · intro later hrun time reporter db' result haccepted
    have hlater : Reachable contract nodeId later := hclaimed.trans hrun
    obtain ⟨reportTarget, key, hreport, htargetKey, _, hcases⟩ := reportStep_eq_ok haccepted
    rw [htarget] at hreport
    obtain rfl := Option.some.inj hreport
    rw [hkey] at htargetKey
    obtain rfl := Except.ok.inj htargetKey
    rcases hcases with ⟨receipt, hreceipt, _⟩ | ⟨_, haccept⟩
    · rw [reachable_no_inspection_receipt? hlater hrequest] at hreceipt
      cases hreceipt
    · obtain ⟨op, hleased, ⟨_, _, hreply, _⟩ | ⟨_, reported, hreported, _⟩⟩ :=
        acceptStep_eq_ok haccept
      · cases hreply
      · obtain ⟨_, hnext, _⟩ := reportProxyStep_eq_ok hreported
        exact leased_proxy_ne_inspect hlater hleased (hnext.trans hrequest)

end

open Sample

/-- The response to the claim that delivers the proxy's release is lost, and the next claim inspects
the proxy. Its conclusive answer in time is refused. -/
theorem proxy_inspection_refused :
    let w := run (submitted [] ++ [claimed 6])
    let claimed := w.next Sample.contract (claimed 7)
    let request := result "56c3da2c-c839-8b49-8800-4c5248ed3af5" 1 .inspectBackend
      .proxy 1 "proxy-1" "process-1"
    Reachable Sample.contract "node-a" claimed ∧
      (∃ instruction, (step Sample.contract w.db (seconds 7)
          (.claim "activation-1" "agent-a")).2 = .instruction (some instruction) ∧
        instruction.step = .inspectBackend ∧ instruction.target.kind = .proxy ∧
        request.Answers instruction) ∧
      (claimed.db.leasedOperation? (seconds 8) "node-a"
        "56c3da2c-c839-8b49-8800-4c5248ed3af5" 1 "agent-a" "activation-1").any
          (fun op => op.phase = .forward ∧ seconds 8 < op.forwardDeadline) = true ∧
      reportStep claimed.db (seconds 8) request "agent-a" = .error (.aborted
        "stale proxy result: expected select_release, received inspect_backend") := by
  intro w claimed request
  exact ⟨(reachable_run _).step trivial, Reply.of_instruction?_any (by decide +kernel),
    by decide +kernel, by decide +kernel⟩

/-- That inspection stays unanswered, whatever follows. -/
theorem proxy_inspection_unanswered_after_lost_response :
    let w := run (submitted [] ++ [claimed 6])
    let request := result "56c3da2c-c839-8b49-8800-4c5248ed3af5" 1 .inspectBackend
      .proxy 1 "proxy-1" "process-1"
    ∀ later, Reach (World.next Sample.contract) (fun _ _ => True)
        (w.next Sample.contract (claimed 7)) later →
      ∀ time reporter db' result,
        reportStep later.db time request reporter ≠ .ok (db', .ok result) := by
  intro w request
  obtain ⟨instruction, hreply, hstep, hkind, hanswers⟩ :
      ∃ i, (step Sample.contract w.db (seconds 7) (.claim "activation-1" "agent-a")).2 =
        .instruction (some i) ∧ i.step = .inspectBackend ∧ i.target.kind = .proxy ∧
        request.Answers i := Reply.of_instruction?_any (by decide +kernel)
  exact (proxy_inspection_never_accepted (reachable_run _) hreply hstep hkind hanswers).2

end Wruntime.Manager
