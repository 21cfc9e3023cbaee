import Wruntime.Manager.Authority
import Wruntime.Manager.Availability

/-!
The lease as a fence between agents. Renewals and reports change an operation only for the principal
and activation on its live lease. A claim changes a queued operation, one whose lease has expired,
or one whose live lease names the caller's activation; it does not compare the principal.
-/

namespace Wruntime.Manager

open Fallible Table Runs

variable {db : Db} {a op : Operation} {now : Time} {agent instanceId : String}

def Call.Entitled (db : Db) (now : Time) (op : Operation) : Call → Prop
  | .claim instanceId agent => attested db now instanceId agent = true ∧
      (op.claimable now instanceId = true ∨
        op.state = .running ∧ op.leaseExpired now = true)
  | .renew request agent => op.operationId = request.operationId ∧
      op.leasedTo now request.leaseEpoch agent request.agentInstanceId = true
  | .reportObservation _ request agent => op.operationId = request.operationId ∧
      op.leasedTo now request.leaseEpoch agent request.agentInstanceId = true
  | .reportStep request agent => op.operationId = request.operationId ∧
      op.leasedTo now request.leaseEpoch agent request.agentInstanceId = true
  | _ => True

theorem settle_changes {α : Type} {reply : α → Reply}
    {result : Except Status (Db × α)} (h : (settle db reply result).1 ≠ db) :
    ∃ value, result = .ok ((settle db reply result).1, value) := by
  cases result with
  | error status => exact absurd rfl h
  | ok value => exact ⟨value.2, rfl⟩

theorem Operation.isActive_of_claimable
    (h : op.claimable now instanceId = true) : op.isActive = true := by
  rcases claimable_cases h with hstate | ⟨hstate, _⟩ <;>
    simp [Operation.isActive, NodeOperationState.isActive, hstate]

/-- What a claim may take has not just lost its lease. -/
theorem mem_of_claimable (hmem : op ∈ (expireLeases db now).operations)
    (hclaimable : op.claimable now instanceId = true) : op ∈ db.operations := by
  rcases updated hmem with ⟨old, -, -, rfl⟩ | ⟨hold, -⟩
  · rcases claimable_cases hclaimable with hstate | ⟨hstate, _⟩ <;> cases hstate
  · exact hold

section Runs

variable {contract : DeploymentContract} {nodeId : String} {w : World}

section

variable (hreach : Reachable contract nodeId w)
include hreach

theorem leased_eq
    (ha : a ∈ w.db.operations) (hactive : a.isActive = true) {node id : String} {epoch : Nat}
    (hop : w.db.leasedOperation? now node id epoch agent instanceId = some op) :
    a.operationId = id ∧ a.leasedTo now epoch agent instanceId = true := by
  obtain ⟨_, hmem, hid, hleased⟩ := leasedOperation?_eq_some hop
  have hrunning := (Operation.leasedTo_eq_true hleased).1
  have hop_active : op.isActive = true := by
    simp [Operation.isActive, NodeOperationState.isActive, hrunning]
  obtain rfl := (reachable_sound hreach).2.staging.single a ha hactive op hmem hop_active
  exact ⟨hid, hleased⟩

theorem claim_changes {a' : Operation}
    (ha : a ∈ w.db.operations) (hactive : a.isActive = true) {db' : Db}
    {reply : Option AgentInstruction} (hclaim : claim w.db now instanceId agent = .ok (db', reply))
    (ha' : a' ∈ db'.operations) (hid : a'.operationId = a.operationId) (hne : a' ≠ a) :
    attested w.db now instanceId agent = true ∧
      (a.claimable now instanceId = true ∨ a.state = .running ∧ a.leaseExpired now = true) := by
  have hkeys := reachable_keys hreach
  obtain ⟨_, hattested, ⟨rfl, _⟩ | ⟨op, hmem, hclaimable, _⟩⟩ := claim_eq_ok hclaim
  · refine ⟨hattested, .inr ?_⟩
    rcases updated ha' with ⟨old, hold, hexpired, rfl⟩ | ⟨hold, -⟩
    · obtain rfl := eq_of_nodup_key hkeys.operations hold ha hid
      exact of_decide_eq_true hexpired
    · exact absurd (eq_of_nodup_key hkeys.operations hold ha hid) hne
  · refine ⟨hattested, .inl ?_⟩
    have hop := mem_of_claimable hmem hclaimable
    obtain rfl := (reachable_sound hreach).2.staging.single a ha hactive op hop
      (Operation.isActive_of_claimable hclaimable)
    exact hclaimable

theorem next_entitled (input : Input) {a' : Operation}
    (ha : a ∈ w.db.operations) (ha' : a' ∈ (w.next contract input).db.operations)
    (hid : a'.operationId = a.operationId) (hne : a' ≠ a) :
    input.call.Entitled w.db input.now a := by
  have hkeys := reachable_keys hreach
  obtain ⟨written, hwritten, hwrites⟩ := next_persists contract hkeys input ha
  have hkeys' : Keys (w.next contract input).db := reachable_keys (hreach.step trivial)
  obtain rfl := eq_of_nodup_key hkeys'.operations hwritten ha'
    (hwrites.frame.operationId.trans hid.symm)
  have hactive : a.isActive = true := by
    cases hactive : a.isActive with
    | true => rfl
    | false => exact absurd (hwrites.eq_of_inactive hactive) hne
  have hchanged : (step contract w.db input.now input.call).1 ≠ w.db := by
    intro hsame
    change written ∈ (step contract w.db input.now input.call).1.operations at hwritten
    rw [hsame] at hwritten
    exact hne (eq_of_nodup_key hkeys.operations hwritten ha hid)
  obtain ⟨now, call⟩ := input
  cases call with
  | claim instanceId agent =>
    obtain ⟨reply, hclaim⟩ := settle_changes hchanged
    exact claim_changes hreach ha hactive hclaim hwritten hid hne
  | renew request agent =>
    obtain ⟨reply, hrenew⟩ := settle_changes hchanged
    obtain ⟨op, hop, _⟩ := renew_eq_ok hrenew
    exact leased_eq hreach ha hactive hop
  | reportObservation receivedAt request agent =>
    obtain ⟨reply, hreport⟩ := settle_changes hchanged
    obtain ⟨op, hop, _⟩ := reportObservation_eq_ok hreport
    exact leased_eq hreach ha hactive hop
  | reportStep request agent =>
    obtain ⟨reply, hreport⟩ := settle_changes hchanged
    obtain ⟨_, target, _, _, _, ⟨_, _, _, _, hsame⟩ | ⟨_, haccept⟩⟩ :=
      reportStep_eq_ok hreport
    · exact absurd hsame hchanged
    · obtain ⟨op, hop, _⟩ := acceptStep_eq_ok haccept
      exact leased_eq hreach ha hactive hop
  | _ => trivial

end

theorem OpMove.live {op' : Operation} {effect : Effect}
    (h : OpMove db now op effect op') (hrunning : op'.state = .running) {lease : Lease}
    (hlease : op.lease = some lease) (hlive : now < lease.expiresAt) :
    ∃ lease', op'.lease = some lease' ∧ now < lease'.expiresAt := by
  have hextended : now < now + seconds leaseSeconds := Nat.lt_add_of_pos_right (by decide)
  cases h with
  | takeLease => exact ⟨_, rfl, hextended⟩
  | extendLease =>
    refine ⟨{ lease with expiresAt := now + seconds leaseSeconds }, ?_, hextended⟩
    simp only [Operation.extendLease, hlease, Option.map_some]
  | pause code detail hrec =>
    rw [hrec.pause_eq] at hrunning
    cases hrunning
  | @deliver selection =>
    cases hkey : selection.key <;> exact ⟨lease, hlease, hlive⟩
  | finishRestored =>
    rcases op.restoredState_cases with hstate | hstate <;>
      simp [Operation.finish, hstate] at hrunning
  | expireLease | fencePolicy | resume | enterRestoration | finishCommitted | finishSucceeded
  | failProxy => cases hrunning
  | _ => exact ⟨lease, hlease, hlive⟩

theorem claimLease_leased (agent : String) (hclaimable : op.claimable now instanceId = true) :
    (claimLease op now instanceId agent op).state = .running ∧
      ∃ lease, (claimLease op now instanceId agent op).lease = some lease ∧
        now < lease.expiresAt ∧ lease.agentInstanceId = instanceId ∧
        (op.state = .queued ∧ lease.claimedBy = agent ∨
          op.state = .running ∧ op.holder = some (lease.claimedBy, instanceId)) := by
  have hextended : now < now + seconds leaseSeconds := Nat.lt_add_of_pos_right (by decide)
  unfold claimLease
  split
  next hqueued =>
    exact ⟨rfl, _, rfl, hextended, rfl, .inl ⟨hqueued, rfl⟩⟩
  next hqueued =>
    obtain ⟨hrunning, lease, hlease, hinstance, _⟩ :=
      (claimable_cases hclaimable).resolve_left hqueued
    refine ⟨hrunning, { lease with expiresAt := now + seconds leaseSeconds }, ?_, hextended,
      hinstance, .inr ⟨hrunning, ?_⟩⟩
    · simp only [Operation.extendLease, hlease, Option.map_some]
    · simp only [Operation.holder, hlease, Option.map_some, hinstance]

theorem Claims.leased (hreach : Reachable contract nodeId w) {input : Input}
    {instruction : AgentInstruction} (hclaim : Claims contract w input instruction)
    (hcall : input.call = .claim instanceId agent) (ha : a ∈ w.db.operations)
    (hid : a.operationId = instruction.operationId) : instruction.agentInstanceId = instanceId ∧
      ∃ a' ∈ (w.next contract input).db.operations, a'.operationId = a.operationId ∧ ∃ principal,
          a'.leasedTo input.now instruction.leaseEpoch principal instanceId = true ∧
          (a.state = .queued ∧ principal = agent ∨
            a.state = .running ∧ a.holder = some (principal, instanceId)) := by
  have hkeys := reachable_keys hreach
  have hreply := hclaim.2
  rw [hcall] at hreply
  obtain ⟨base, db₁, op, selection, hinstructed⟩ := claim_instructed (claim_of_step hreply)
  obtain ⟨digest, hinstruction⟩ := hinstructed.instruction
  have hbase := mem_of_claimable hinstructed.base_mem hinstructed.claimable
  have hop_id : op.operationId = instruction.operationId := by rw [hinstruction]; rfl
  obtain rfl := eq_of_nodup_key hkeys.operations ha hbase
    (hid.trans (hop_id.symm.trans hinstructed.op_id))
  obtain ⟨hrunning, lease, hlease, hlive, hinstance, hprincipal⟩ :=
    claimLease_leased agent hinstructed.claimable
  -- The reconcile keeps the holder and the epoch, and the lease stays live.
  have hreconciled : op.holder = some (lease.claimedBy, instanceId) ∧
      ∃ lease', op.lease = some lease' ∧ input.now < lease'.expiresAt := by
    rcases hinstructed.reconciled hkeys with rfl | ⟨effect, hmove⟩
    · refine ⟨?_, lease, hlease, hlive⟩
      simp only [Operation.holder, hlease, Option.map_some, hinstance]
    · refine ⟨?_, hmove.live hinstructed.running hlease hlive⟩
      rcases hmove.running hinstructed.running with ⟨hqueued, _⟩ | ⟨_, _, _, hholder⟩
      · cases hrunning.symm.trans hqueued
      · rw [hholder]
        simp only [Operation.holder, hlease, Option.map_some, hinstance]
  obtain ⟨hholder, lease', hlease', hlive'⟩ := hreconciled
  have hpair : lease'.claimedBy = lease.claimedBy ∧ lease'.agentInstanceId = instanceId := by
    simpa [Operation.holder, hlease'] using hholder
  have hleased : op.leasedTo input.now instruction.leaseEpoch lease.claimedBy instanceId =
      true := by
    have hepoch : op.leaseEpoch = instruction.leaseEpoch := by rw [hinstruction]; rfl
    simp [Operation.leasedTo, hinstructed.running, hepoch, hlease', hpair, hlive']
  obtain ⟨a', ha', hwrites⟩ := next_persists contract hkeys input ha
  have hfinal := hinstructed.final hkeys (o := a')
    (by rw [← hcall]; exact ha')
    (hwrites.frame.operationId.trans hinstructed.op_id.symm)
  refine ⟨by rw [hinstruction]; rfl, a', ha', hwrites.frame.operationId, lease.claimedBy, ?_,
    hprincipal⟩
  rw [hfinal]
  split
  · cases hkey : selection.key <;> exact hleased
  · exact hleased

/-- The lease as a fence between agents. Over the rest of every run the epoch does not fall, and the
lease stays with its holder unless it rises; only entitled calls change the operation; instructions
are returned under a live lease. -/
theorem operation_lease_fencing (hreach : Reachable contract nodeId w) (input : Input) :
    ∀ a ∈ w.db.operations, (∀ later last, Reach (World.next contract) (fun _ _ => True) w later →
        last ∈ later.db.operations → last.operationId = a.operationId →
        a.leaseEpoch ≤ last.leaseEpoch ∧ (a.state = .running → last.state = .running →
          last.holder = a.holder ∨ a.leaseEpoch < last.leaseEpoch)) ∧
      (∀ a' ∈ (w.next contract input).db.operations, a'.operationId = a.operationId →
        a' ≠ a → input.call.Entitled w.db input.now a) ∧
      ∀ instruction instanceId agent, input.call = .claim instanceId agent →
        Claims contract w input instruction → instruction.operationId = a.operationId →
        instruction.agentInstanceId = instanceId ∧
          ∃ a' ∈ (w.next contract input).db.operations, a'.operationId = a.operationId ∧
            ∃ principal, a'.leasedTo input.now instruction.leaseEpoch principal instanceId = true ∧
              (a.state = .queued ∧ principal = agent ∨
                a.state = .running ∧ a.holder = some (principal, instanceId)) := by
  intro a ha
  have hkeys := reachable_keys hreach
  refine ⟨?_, ?_, ?_⟩
  · intro later last hrun hlast hid
    obtain ⟨hkeys', final, hfinal, hwrites⟩ := reach_persists hkeys ha hrun
    obtain rfl := eq_of_nodup_key hkeys'.operations hfinal hlast
      (hwrites.frame.operationId.trans hid.symm)
    refine ⟨hwrites.leaseEpoch_le, ?_⟩
    intro _ hrunning
    rcases Nat.eq_or_lt_of_le hwrites.leaseEpoch_le with hepoch | hepoch
    · exact .inl (hwrites.running hrunning hepoch.symm).2.2
    · exact .inr hepoch
  · intro a' ha' hid hne
    exact next_entitled hreach input ha ha' hid hne
  · intro instruction instanceId agent hcall hclaim hid
    exact hclaim.leased hreach hcall ha hid.symm

end Runs

namespace Sample

def attestedAs (n : Nat) (principal instanceId : String) : Input :=
  ⟨seconds n, .attest principal ⟨instanceId, "", "1", agentBinary, [], 0⟩⟩

end Sample

open Sample

/-- The first claim of a submitted deployment: it is entitled to the operation, takes the lease, and
the epoch does not fall after it. -/
theorem claimed_instruction_leased :
    let w := run (submitted ["blue"])
    ∃ a ∈ w.db.operations, (claimed 6).call.Entitled w.db (seconds 6) a ∧
      (∃ a' ∈ (w.next Sample.contract (claimed 6)).db.operations,
        a'.leasedTo (seconds 6) 1 "agent-a" "activation-1" = true) ∧
      ∀ later last, Reach (World.next Sample.contract) (fun _ _ => True) w later →
        last ∈ later.db.operations → last.operationId = a.operationId →
        a.leaseEpoch ≤ last.leaseEpoch := by
  intro w
  have hqueued : ∃ a ∈ w.db.operations, a.state = .queued ∧
      a.operationId = "8d7eef43-aa27-83b7-a7ab-2a5f124cae58" := by
    decide +kernel
  obtain ⟨a, ha, hstate, hid⟩ := hqueued
  obtain ⟨instruction, hclaims, hoperation, hepoch⟩ :
      ∃ i, Claims Sample.contract w (claimed 6) i ∧
        i.operationId = "8d7eef43-aa27-83b7-a7ab-2a5f124cae58" ∧ i.leaseEpoch = 1 :=
    claims_of_any ⟨_, _, rfl⟩ (by decide +kernel)
  obtain ⟨hepochs, hentitled, hinstructed⟩ := operation_lease_fencing
    (reachable_run _ : Reachable Sample.contract "node-a" w) (claimed 6) a ha
  obtain ⟨_, a', ha', hid', principal, hleased, ⟨_, rfl⟩ | ⟨hrunning, _⟩⟩ :=
    hinstructed instruction "activation-1" "agent-a" rfl hclaims (hoperation.trans hid.symm)
  · have hne : a' ≠ a := by
      rintro rfl
      simp [Operation.leasedTo, hstate] at hleased
    rw [hepoch] at hleased
    exact ⟨a, ha, hentitled a' ha' hid' hne, ⟨a', ha', hleased⟩,
      fun later last hrun hlast hsame => (hepochs later last hrun hlast hsame).1⟩
  · cases hstate.symm.trans hrunning

/-- A claim of another agent pauses the operation whose lease has expired. -/
theorem expired_lease_dropped_by_other_agent :
    let w := run (submitted ["blue"] ++
      [claimed 6, attestedAs 30 "agent-b" "activation-2"])
    Reachable Sample.contract "node-a" w ∧
      ∃ a ∈ w.db.operations, a.holder = some ("agent-a", "activation-1") ∧
        ∃ a' ∈ (w.next Sample.contract
            ⟨seconds 31, .claim "activation-2" "agent-b"⟩).db.operations,
          a'.operationId = a.operationId ∧ a.state = .running ∧ a'.state = .paused := by
  exact ⟨reachable_run _, by decide +kernel⟩

end Wruntime.Manager
