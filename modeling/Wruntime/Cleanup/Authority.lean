import Wruntime.Cleanup.System

/-!
What an agent may be told to delete. An authority of an earlier pass is trusted by a claim because
the fingerprint of the policy is unchanged. The fingerprint determines the policy, and stored
authorities are filtered by the policy of their fingerprint, so a claim returns a list its own
policy allows.
-/

namespace Wruntime.Cleanup

open Fallible Runs
open Manager (Db Revision Time seconds)

variable {clock : Time} {agentInstanceId principal : String}
variable {policy : CleanupPolicySnapshot}

/-- The rows fit the columns of the schema, with revisions below `2 ^ 56`. -/
structure Fits (db : Db) (deleted : List Revision) : Prop where
  positive : ∀ d ∈ db.deployments, d.revision ≠ 0
  retention : ∀ policy ∈ db.agentPolicy, policy.retentionCount ≤ 2147483647
  small : ∀ policy ∈ db.agentPolicy,
    ∀ r ∈ protectedRevisions db deleted policy.retentionCount, r < 2 ^ 56

instance (db : Db) (deleted : List Revision) : Decidable (Fits db deleted) :=
  decidable_of_iff ((∀ d ∈ db.deployments, d.revision ≠ 0) ∧
      (∀ policy ∈ db.agentPolicy, policy.retentionCount ≤ 2147483647) ∧
      ∀ policy ∈ db.agentPolicy,
        ∀ r ∈ protectedRevisions db deleted policy.retentionCount, r < 2 ^ 56)
    ⟨fun h => ⟨h.1, h.2.1, h.2.2⟩, fun h => ⟨h.positive, h.retention, h.small⟩⟩

def Event.Fits : Event → Prop
  | .reconcile _ _ seen seenDeleted => Cleanup.Fits seen seenDeleted
  | _ => True

instance : (event : Event) → Decidable event.Fits
  | .reconcile _ _ seen seenDeleted => inferInstanceAs (Decidable (Cleanup.Fits seen seenDeleted))
  | .manager _ _ | .claim _ _ _ _ _ | .renew _ _ _ | .report _ _ _ | .retry _ _ => isTrue trivial

theorem delete_eq_of_fingerprint {contract : Contract} (hsha : Function.Injective contract.sha256)
    {db db' : Db} {deleted deleted' : List Revision} {policy' : CleanupPolicySnapshot}
    (hfits : Fits db deleted) (hfits' : Fits db' deleted')
    (hpolicy : managerCleanupPolicy contract db deleted = .ok policy)
    (hpolicy' : managerCleanupPolicy contract db' deleted' = .ok policy')
    (heq : policy.fingerprint = policy'.fingerprint) : policy.delete = policy'.delete := by
  obtain ⟨agent, hagent, -, rfl⟩ := managerCleanupPolicy_eq_ok.mp hpolicy
  obtain ⟨agent', hagent', -, rfl⟩ := managerCleanupPolicy_eq_ok.mp hpolicy'
  have hretention := hfits.retention agent hagent
  have hretention' := hfits'.retention agent' hagent'
  have hknown {db : Db} {deleted : List Revision} (h : Fits db deleted) :
      ∀ r ∈ catalogue db deleted, r.revision ≠ 0 := by
    intro r hr
    obtain ⟨d, hd, -, rfl⟩ := mem_catalogue.mp hr
    exact h.positive d hd
  obtain ⟨-, hprotected, hcatalogue⟩ := fingerprintInput_injective (by omega) (by omega)
    (fun r hr => hfits.small agent hagent r (mem_protectedSet.mp hr))
    (fun r hr => hfits'.small agent' hagent' r (mem_protectedSet.mp hr))
    (hknown hfits) (hknown hfits') (hsha heq)
  simp only [hprotected, hcatalogue]

/-- An authority that can be claimed was filtered by a policy with the fingerprint
of the row. -/
def Row.Tied (contract : Contract) (row : Row) : Prop :=
  row.state = .pending ∨ row.state = .claimed → ∀ authority, row.authority = some authority →
    ∃ seen seenDeleted policy, Fits seen seenDeleted ∧
      managerCleanupPolicy contract seen seenDeleted = .ok policy ∧
      row.protectionFingerprint = policy.fingerprint ∧
      ∀ r ∈ authority.deleteReleases, r ∈ policy.delete

section Tied

variable {contract : Contract} {row : Row}
variable {seenDeleted : List Revision}

theorem Row.Tied.of_withdrawn (h : row.authority = none) : row.Tied contract := by
  intro _ authority hauthority
  cases h.symm.trans hauthority

theorem Row.Tied.of_state (hpending : row.state ≠ .pending) (hclaimed : row.state ≠ .claimed) :
    row.Tied contract := by
  rintro (hstate | hstate)
  · exact absurd hstate hpending
  · exact absurd hstate hclaimed

theorem Row.Tied.of_claim {row' : Row} (h : row.Tied contract)
    (hstate : row.state = .pending ∨ row.state = .claimed)
    (hauthority : row'.authority = row.authority)
    (hfingerprint : row'.protectionFingerprint = row.protectionFingerprint) :
    row'.Tied contract := by
  intro _ authority hsome
  rw [hfingerprint]
  exact h hstate authority (hauthority ▸ hsome)

theorem Row.Tied.materialize {seen : Db} (hfits : Fits seen seenDeleted)
    (hpolicy : managerCleanupPolicy contract seen seenDeleted = .ok policy) (now : Time) :
    (row.materialize contract policy now).Tied contract := by
  unfold Row.materialize
  split
  · exact .of_withdrawn rfl
  · rintro - authority hauthority
    obtain rfl := Option.some.inj hauthority
    refine ⟨seen, seenDeleted, policy, hfits, hpolicy, rfl, ?_⟩
    intro r hr
    exact of_decide_eq_true (List.mem_filter.mp hr).2

theorem Reconciled.tied {seen : Db} {row' : Row} (h : Reconciled contract seen seenDeleted row row')
    (hfits : Fits seen seenDeleted) (hrow : row.Tied contract) : row'.Tied contract := by
  cases h with
  | kept | touched => exact hrow
  | paused => exact .of_state nofun nofun
  | materialized hpolicy => exact .materialize hfits hpolicy _

theorem Row.claimable_state (h : row.claimable clock agentInstanceId principal = true) :
    row.state = .pending ∨ row.state = .claimed := by
  simp only [Row.claimable, Bool.or_eq_true, Bool.and_eq_true, decide_eq_true_eq] at h
  exact h.imp_right (·.1)

theorem Row.heldBy_state {request : RenewNodeCleanupLeaseRequest}
    (h : row.heldBy clock request principal = true) : row.state = .claimed := by
  simp only [Row.heldBy, Bool.and_eq_true, decide_eq_true_eq] at h
  exact h.1.1.2

theorem World.fence_tied {w : World} {now : Time} {passes : Nat}
    (hw : ∀ row ∈ w.cleanup, row.Tied contract) :
    ∀ row ∈ (w.fence now passes).cleanup, row.Tied contract := by
  intro row' hrow'
  obtain ⟨row, hrow, rfl | ⟨generation, -, rfl⟩⟩ := World.fence_cleanup hrow'
  · exact hw _ hrow
  · exact .of_withdrawn rfl

theorem Outcome.tied {w w' : World} {event : Event} (h : Outcome contract w event w')
    (hfits : event.Fits) (hw : ∀ row ∈ w.cleanup, row.Tied contract) :
    ∀ row ∈ w'.cleanup, row.Tied contract := by
  have hsome {row : Row} (hrow : row.Tied contract) : ∀ r ∈ some row, r.Tied contract := by
    rintro r hr
    obtain rfl := Option.some.inj hr
    exact hrow
  cases h with
  | same => exact hw
  | manager | fenced => exact World.fence_tied hw
  | @reconciled _ _ _ _ row row' hrow hreconciled =>
    refine hsome (hreconciled.tied hfits ?_)
    rcases hrow with hrow | ⟨-, rfl⟩
    · exact hw row hrow
    · exact .of_withdrawn rfl
  | claimed hrow hclaimable =>
    exact hsome ((hw _ hrow).of_claim (Row.claimable_state hclaimable) rfl rfl)
  | renewed hrow hheld =>
    exact hsome ((hw _ hrow).of_claim (.inr (Row.heldBy_state hheld)) rfl rfl)
  | cleaned => exact hsome (.of_withdrawn rfl)
  | pausedReport => exact hsome (.of_state nofun nofun)

end Tied

variable {contract : Contract} {nodeId : String} {w : World}

theorem reach_tied (hreach : Reach (World.next contract) (fun _ event => event.Fits)
    (World.initial nodeId) w) : ∀ row ∈ w.cleanup, row.Tied contract := by
  refine hreach.invariant (P := fun w => ∀ row ∈ w.cleanup, row.Tied contract) ?_ ?_
  · rintro row hrow
    cases hrow
  · intro w event _ hfits hw
    exact (next_outcome contract w event).tied hfits hw

theorem claim_of_step {now : Time} {freshClaim : String} {instruction : NodeCleanupInstruction}
    (h : (step contract w (.claim now clock agentInstanceId principal freshClaim)).2 =
      .instruction (some instruction)) : ∃ row policy authority, w.cleanup = some row ∧
      row.claimable clock agentInstanceId principal = true ∧
      managerCleanupPolicy contract w.db w.deleted = .ok policy ∧
      policy.fingerprint = row.protectionFingerprint ∧ row.authority = some authority ∧
      instruction.deleteReleases = authority.deleteReleases := by
  cases hresult : claimNodeCleanup contract w now clock agentInstanceId principal freshClaim with
  | error status =>
    simp only [step, hresult, settle] at h
    cases h
  | ok result =>
    simp only [step, hresult, settle, Reply.instruction.injEq] at h
    obtain ⟨hnone, -⟩ | ⟨row, policy, hrow, hclaimable, hpolicy, hfingerprint, hauthority, -,
      hinstruction⟩ := claimNodeCleanup_eq_ok hresult
    · cases hnone.symm.trans h
    · obtain ⟨authority, hauthority⟩ := Option.isSome_iff_exists.mp hauthority
      refine ⟨row, policy, authority, hrow, hclaimable, hpolicy, hfingerprint, hauthority, ?_⟩
      rw [h] at hinstruction
      simp only [Row.instruction, Row.takeClaim, hauthority] at hinstruction
      rw [Option.some.inj hinstruction]

theorem delete_of_claim (hsha : Function.Injective contract.sha256) {row : Row}
    {authority : Authority} (htied : row.Tied contract)
    (hclaimable : row.claimable clock agentInstanceId principal = true)
    (hfits : Fits w.db w.deleted)
    (hpolicy : managerCleanupPolicy contract w.db w.deleted = .ok policy)
    (hfingerprint : policy.fingerprint = row.protectionFingerprint)
    (hauthority : row.authority = some authority) {r : Release}
    (hr : r ∈ authority.deleteReleases) : r ∈ policy.delete := by
  obtain ⟨seen, seenDeleted, seenPolicy, hseen, hseenPolicy, hstored, hdelete⟩ :=
    htied (Row.claimable_state hclaimable) authority hauthority
  rw [delete_eq_of_fingerprint hsha hfits hseen hpolicy hseenPolicy (hfingerprint.trans hstored)]
  exact hdelete r hr

/-- Every list of deletions that a claim returns names only catalogued releases with their digests,
not deleted and unprotected in the state of the claim. -/
theorem claimed_deletions_are_unprotected (hsha : Function.Injective contract.sha256)
    (hreach : Reach (World.next contract) (fun _ event => event.Fits) (World.initial nodeId) w)
    (hfits : Fits w.db w.deleted) {now clock : Time}
    {agentInstanceId principal freshClaim : String} {instruction : NodeCleanupInstruction}
    (hreply : (step contract w (.claim now clock agentInstanceId principal freshClaim)).2 =
      .instruction (some instruction)) : ∀ r ∈ instruction.deleteReleases,
      (∃ d ∈ w.db.deployments, d.revision ∉ w.deleted ∧ release d = r) ∧
        ¬Protected w.db w.deleted r.revision := by
  intro r hr
  obtain ⟨row, policy, authority, hrow, hclaimable, hpolicy, hfingerprint, hauthority, hdelete⟩ :=
    claim_of_step hreply
  rw [hdelete] at hr
  exact (mem_delete hpolicy).mp (delete_of_claim hsha (reach_tied hreach row hrow) hclaimable
    hfits hpolicy hfingerprint hauthority hr)

open Sample

theorem claimed_deletions_are_unprotected_offered : ∃ instruction,
      (step Sample.contract (run offered)
        (claim 10 (run offered))).2 = .instruction (some instruction) ∧
      instruction.deleteReleases = [entry 1] ∧ ∀ r ∈ instruction.deleteReleases,
        (∃ d ∈ (run offered).db.deployments, d.revision ∉ (run offered).deleted ∧ release d = r) ∧
        ¬Protected (run offered).db (run offered).deleted r.revision := by
  have hreach : Reach (World.next Sample.contract) (fun _ event => event.Fits)
      (World.initial "node-a") (run offered) :=
    reach_runScript _ (by decide +kernel)
  have hreply : ∃ instruction,
      (step Sample.contract (run offered)
        (claim 10 (run offered))).2 = .instruction (some instruction) ∧
      instruction.deleteReleases = [entry 1] := by
    refine ⟨⟨"activation-1", 2, 2, "claim-10", ?_, [entry 1], [entry 1]⟩, ?_, rfl⟩
    · exact Sample.contract.sha256 (Authority.encode ⟨[entry 1], [entry 1]⟩)
    · decide +kernel
  obtain ⟨instruction, hsome, hdelete⟩ := hreply
  exact ⟨instruction, hsome, hdelete, claimed_deletions_are_unprotected
    List.cons_injective hreach (by decide +kernel) hsome⟩

end Wruntime.Cleanup
