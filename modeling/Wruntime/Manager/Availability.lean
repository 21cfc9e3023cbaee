import Wruntime.Manager.Redelivery

/-!
Availability at a stop. `reconcile` checks the policy in the transaction that proves and pins the
source of a slot. The stop is returned by whichever claim comes next, and no claim checks again: the
check speaks for the evidence of a stop only when the claim that returns it proved the source.
-/

namespace Wruntime.Manager

open Fallible Table Runs

theorem stopPreservesAvailability_congr {db : Db} {now : Time} {op op' : Operation} {slot : String}
    {policy : RolloutPolicy} (operations : List Operation) (hengines : op'.engines = op.engines) :
    stopPreservesAvailability { db with operations := operations } now op' slot policy =
      stopPreservesAvailability db now op slot policy := by
  have hslots : authoritativeSlots { db with operations := operations } op' =
      authoritativeSlots db op := by
    unfold authoritativeSlots
    rw [hengines]
    rfl
  unfold stopPreservesAvailability
  rw [hslots]
  rfl

theorem stop_follows_verification {transition : DerivedTransition} {k : Nat}
    (h : stepAt transition (k + 1) = .stopBackend) : stepAt transition k = .verifyTarget := by
  have hlt : k + 1 < 8 := by
    refine (lt_length_of_stepAt ?_).trans_le (length_forwardPath_le transition)
    rw [h]
    decide
  have htable : ∀ k < 8, stepAt transition (k + 1) = .stopBackend →
      stepAt transition k = .verifyTarget := by
    cases transition <;> decide
  apply htable k ?_ h
  omega

theorem OpMove.stop_available {db : Db} {now : Time} {op op' : Operation} {effect : Effect}
    (hmove : OpMove db now op effect op') (hlife : op.Lifecycle) (hprogress : op.Progressing)
    (hphase : op'.phase = .forward) {t' : EngineTarget} (ht' : t' ∈ op'.engines)
    (hstop : t'.progress.nextStep = .stopBackend)
    (hbefore : ∀ t ∈ op.engines, t.engineSlot = t'.engineSlot →
      t.progress.nextStep ≠ .stopBackend) :
    stopPreservesAvailability db now op t'.engineSlot op.policy = .ok true := by
  have hforward := hmove.phase_forward hphase
  have hordered := hprogress.ordered (by rw [hforward]; decide)
  have hpath' := ((hmove.progressing hlife hprogress).inSequence hphase).onPath t' ht'
  obtain ⟨t, ht, hname, hslotMove⟩ := hmove.slotMove hordered ht'
  have hpath := (hprogress.inSequence hforward).onPath t ht
  have hverify : t'.transition = t.transition →
      t'.progress.completedSteps = t.progress.completedSteps + 1 →
      t.progress.nextStep = .verifyTarget := by
    intro htransition hsteps
    rw [hpath.next]
    apply stop_follows_verification
    rw [← htransition, ← hsteps, ← hpath'.next]
    exact hstop
  cases hslotMove with
  | stay hstays => exact absurd (hstays.nextStep.symm.trans hstop) (hbefore t ht hname)
  | deliver | clear => exact absurd hstop (hbefore t ht hname)
  | @advance f hnot hincomplete hadvance =>
    have hat := hverify (congrArg EngineSnapshot.transition (hadvance.snapshot_eq t))
      (Prod.mk.inj (hadvance.completedSteps t)).2
    cases hadvance with
    | sourceProven backend process hstep hproving hprocess havailable => exact havailable
    | targetProven backend process hstep hproving hprocess =>
      change storedStep (if _ then some _ else some _) = .stopBackend at hstop
      split at hstop <;> cases hstop
    | releaseVerified hstep =>
      rcases hstep with hstep | hstep <;> rw [hstep] at hat <;> cases hat
    | stopped hstep | selected hstep | started hstep | serving hstep => rw [hstep] at hat; cases hat
  | switch hnot hincomplete hstep =>
    have hat := hverify rfl rfl
    cases hstep.symm.trans hat
  | enterRestoration hrestoring =>
    cases hphase.symm.trans hrestoring
  | resolve hrestoring | restored hrestoring =>
    cases hforward.symm.trans hrestoring

section

variable {contract : DeploymentContract} {nodeId : String} {w : World} {db₁ db' : Db}
  {now : Time} {instanceId agent : String} {instruction : AgentInstruction}
  {base op : Operation} {selection : Selection}

section

variable (h : Instructed w.db now instanceId agent db' instruction base db₁ op selection)
include h

theorem Instructed.base_prior : ∃ prior ∈ w.db.operations, prior.operationId = base.operationId ∧
      (claimLease base now instanceId agent base).engines = prior.engines ∧
      (claimLease base now instanceId agent base).policy = prior.policy := by
  obtain ⟨prior, hprior, hbase⟩ := mem_updateWhere.1 h.base_mem
  have hkept : base.operationId = prior.operationId ∧ base.engines = prior.engines ∧
      base.policy = prior.policy := by
    rw [hbase]
    split <;> exact ⟨rfl, rfl, rfl⟩
  refine ⟨prior, hprior, hkept.1.symm, ?_⟩
  unfold claimLease
  split <;> exact hkept.2

theorem Instructed.reconciled (hkeys : Keys w.db) : op = claimLease base now instanceId agent base ∨
      ∃ effect, OpMove ((expireLeases w.db now).write base .plain
        (claimLease base now instanceId agent)) now
        (claimLease base now instanceId agent base) effect op := by
  obtain ⟨hleasedKeys, hleased⟩ := h.leased hkeys
  obtain ⟨o, ho, hid, _, houtcome⟩ := reconcile_outcome hleasedKeys.operations
    (fun o ho hid => (hleased o ho hid).2) h.reconcile
  obtain ⟨rfl, _⟩ := hleased o ho hid
  rcases houtcome with hsame | ⟨effect, f, _, hmove, hdb⟩
  · have hop := h.op_mem
    rw [hsame] at hop
    exact .inl (hleased op hop h.op_id).1
  · have hop := h.op_mem
    rw [hdb] at hop
    have hopId := h.op_id
    rw [← hid] at hopId
    rw [eq_of_mem_write hleasedKeys ho hop hopId]
    exact .inr ⟨effect, hmove⟩

end

end

/-- A claim that returns a forward stop for a slot that was not at its stop has checked availability
on its own evidence. -/
theorem stop_preserves_availability_when_proven {contract : DeploymentContract}
    {nodeId : String} {w : World} (hreach : Reachable contract nodeId w) {input : Input}
    {instruction : AgentInstruction} (hclaim : Claims contract w input instruction)
    (hstop : instruction.step = .stopBackend) (hforward : instruction.restoration = false)
    {slot : String} (hslot : instruction.target.identity = some (.engineSlot slot))
    (hproven : ∀ o ∈ w.db.operations, o.operationId = instruction.operationId →
      ∀ t ∈ o.engines, t.engineSlot = slot → t.progress.nextStep ≠ .stopBackend) :
    ∃ o ∈ w.db.operations, o.operationId = instruction.operationId ∧
      stopPreservesAvailability w.db input.now o slot o.policy = .ok true := by
  obtain ⟨⟨instanceId, agent, hcall⟩, hreply⟩ := hclaim
  have hkeys := reachable_keys hreach
  rw [hcall] at hreply
  obtain ⟨base, db₁, op, selection, h⟩ := claim_instructed (claim_of_step hreply)
  obtain ⟨digest, hinstruction⟩ := h.instruction
  obtain ⟨prior, hprior, hpriorId, hengines, hpolicy⟩ := h.base_prior
  have hid : prior.operationId = instruction.operationId := by
    rw [hinstruction]
    exact hpriorId.trans h.op_id.symm
  have hkey : selection.key = .engineSlot slot := by
    rw [hinstruction] at hslot
    exact Option.some.inj hslot
  have hselected : selection.instructionStep = .stopBackend := by
    rw [← hstop, hinstruction]
    rfl
  obtain ⟨hsame, _⟩ := Selection.mutation (by rw [hselected]; rfl)
  have hphase := h.forward hreach hforward
  obtain ⟨t, hpending, htslot, hselection, _⟩ := selectTarget_slot h.select hkey
  obtain ⟨ht, _⟩ := mem_of_pendingSlot hpending
  have hnext : t.progress.nextStep = .stopBackend := by
    rw [← hselected, hsame, hselection]
    rfl
  have hbefore : ∀ s ∈ (claimLease base input.now instanceId agent base).engines,
      s.engineSlot = t.engineSlot → s.progress.nextStep ≠ .stopBackend := by
    intro s hs hsslot
    rw [hengines] at hs
    exact hproven prior hprior hid s hs (hsslot.trans htslot)
  refine ⟨prior, hprior, hid, ?_⟩
  rcases h.reconciled hkeys with hunmoved | ⟨effect, hmove⟩
  · rw [hunmoved] at ht
    exact absurd hnext (hbefore t ht rfl)
  · have hleasedMove := claimLease_move (expireLeases w.db input.now) agent h.claimable
      h.deadline
    have hexpire : Move input.now w.db (expireLeases w.db input.now) := expireLeases_calm.move
    obtain ⟨hlife, hprogress⟩ := Moves.progressing hkeys (reachable_progressing hreach)
      (.single hexpire) base h.base_mem
    have havailable := hmove.stop_available (hleasedMove.lifecycle hlife)
      (hleasedMove.progressing hlife hprogress) hphase ht hnext hbefore
    rw [htslot, hpolicy] at havailable
    rw [← havailable]
    exact (stopPreservesAvailability_congr _ hengines).symm

namespace Sample

/-- Slot `slot` of a first deployment added within three seconds, then `engines` registered. -/
def slotAdded (id : String) (n : Nat) (slot : String) (engines : List (String × Revision)) :
    List Input :=
  [claimed n, reported n (result id 1 .verifyReleaseMetadata (.engineSlot slot) 1 "" ""),
    claimed n, observed (n + 1) (observation id 1 slot 1 (slot ++ "-0") "" .exited),
    claimed (n + 1), registered (n + 1) engines,
    observed (n + 2) (observation id 1 slot 1 (slot ++ "-1") (slot ++ "-process-1") .running),
    claimed (n + 2), claimed (n + 2), claimed (n + 2)]

/-- Two slots committed, and a restart of `blue` claimed while `engines` are registered. -/
def restarting (engines : List (String × Revision)) : List Input :=
  let id := "b7846ac1-801e-8127-9a15-d0dbb32719c4"
  submitted ["blue", "green"] ++ proxyDone id ++ slotAdded id 12 "blue" [("blue", 1)] ++
    slotAdded id 15 "green" [("blue", 1), ("green", 1)] ++
    [claimed 18, ⟨seconds 19, .attest "agent-a" ⟨"activation-1", "", "1", agentBinary, [], 0⟩⟩,
      ⟨seconds 20, .submit ⟨"node-a", "restart-1", .restart, 0, "", none, "", "blue"⟩ "alice"
        "restart-op"⟩,
      registered 20 engines, claimed 21,
      observed 22 (observation "restart-op" 1 "blue" 1 "blue-1" "blue-process-1" .running)]

end Sample

open Sample

theorem restart_stop_preserves_availability :
    let w := run (restarting [("green", 1)] ++
      [registered 23 [("blue", 1), ("green", 1)]])
    ∃ instruction, Claims Sample.contract w (claimed 24) instruction ∧
      instruction.step = .stopBackend ∧ ∃ o ∈ w.db.operations,
        o.operationId = "restart-op" ∧
        stopPreservesAvailability w.db (seconds 24) o "blue" o.policy = .ok true := by
  intro w
  obtain ⟨instruction, hclaims, hstep, hid, hforward, hslot⟩ :
      ∃ i, Claims Sample.contract w (claimed 24) i ∧ i.step = .stopBackend ∧
        i.operationId = "restart-op" ∧ i.restoration = false ∧
        i.target.identity = some (.engineSlot "blue") :=
    claims_of_any ⟨_, _, rfl⟩ (by decide +kernel)
  have hslots : ∀ o ∈ w.db.operations, ∀ t ∈ o.engines,
      t.progress.nextStep ≠ .stopBackend := by decide +kernel
  refine ⟨instruction, hclaims, hstep, ?_⟩
  rw [← hid]
  exact stop_preserves_availability_when_proven (reachable_run _) hclaims hstep hforward
    hslot fun o ho _ t ht _ => hslots o ho t ht

/-- The source of `blue` is proven while both slots are healthy; `green` is lost before the next
claim, which stops the last healthy slot. -/
theorem stop_delivered_after_health_lost :
    let w := run (restarting [("blue", 1), ("green", 1)] ++
      [registered 23 [("blue", 1)]])
    Reachable Sample.contract "node-a" w ∧
      (step Sample.contract w.db (seconds 24)
        (.claim "activation-1" "agent-a")).2.instruction?.any (fun instruction =>
          instruction.step = .stopBackend ∧ instruction.operationId = "restart-op" ∧
          instruction.restoration = false ∧
          instruction.target.identity = some (.engineSlot "blue")) = true ∧
      ∀ o ∈ w.db.operations, o.operationId = "restart-op" →
        o.policy.allowDowntime = false ∧
        stopPreservesAvailability w.db (seconds 24) o "blue" o.policy = .ok false := by
  intro w
  exact ⟨reachable_run _, by decide +kernel, by decide +kernel⟩

end Wruntime.Manager
