import Wruntime.Manager.Invariants

/-!
The life of an operation: its state, phase, lease and commit flag over whole
runs. A write on an operation is classified once by what it does to these
columns, and the phase and deadline fences follow.
-/

namespace Wruntime.Manager

open Fallible Table Runs

variable {db : Db} {now : Time} {op op' : Operation} {effect : Effect}

structure Operation.Lifecycle (op : Operation) : Prop where
  active : op.isActive = true ↔ op.phase ≠ .complete
  leased : op.lease.isSome = true ↔ op.state = .running
  committed : op.committed = true → op.phase = .complete ∧ op.state = .succeeded
  restoring : op.phase = .restoringSource →
    op.restorationTerminalState = some .failed ∨
      op.restorationTerminalState = some .cancelled
  fenced : op.forwardFenced = true → op.phase ≠ .forward
  specified : op.isActive = true → op.action ≠ .unspecified

theorem Submitted.lifecycle {rollout : Rollout}
    (h : Submitted db now op rollout) : op.Lifecycle := by
  have hspecified := h.specified
  obtain ⟨_, _, _, _, hrow⟩ := h.row
  rw [hrow] at hspecified ⊢
  refine ⟨?_, ?_, ?_, ?_, ?_, fun _ => hspecified⟩ <;>
    simp [newOperation, Operation.isActive, NodeOperationState.isActive]

theorem Recorded.lifecycle (h : Recorded db op) : op.Lifecycle := by
  constructor <;>
    simp [Operation.isActive, NodeOperationState.isActive, h.state, h.phase, h.lease]

/-- The phase decides whether an operation is active, for a write between active states that keeps
it. -/
private theorem Operation.Lifecycle.update (h : op.Lifecycle) (haction : op'.action = op.action)
    (hactive : op.isActive = true) (hactive' : op'.isActive = true) (hphase : op'.phase = op.phase)
    (hleased : op'.lease.isSome = true ↔ op'.state = .running)
    (hcommitted : op'.committed = op.committed)
    (hterminal : op'.restorationTerminalState = op.restorationTerminalState)
    (hfenced : op'.forwardFenced = op.forwardFenced) : op'.Lifecycle := by
  have hopen := h.active.1 hactive
  refine ⟨?_, hleased, ?_, ?_, ?_, fun _ => haction ▸ h.specified hactive⟩
  · rw [hphase]
    exact iff_of_true hactive' hopen
  · intro hyes
    rw [hcommitted] at hyes
    exact absurd (h.committed hyes).1 hopen
  · rw [hphase, hterminal]
    exact h.restoring
  · rw [hphase, hfenced]
    exact h.fenced

private theorem Operation.Lifecycle.targets (h : op.Lifecycle) (haction : op'.action = op.action)
    (hstate : op'.state = op.state) (hphase : op'.phase = op.phase) (hlease : op'.lease = op.lease)
    (hcommitted : op'.committed = op.committed)
    (hterminal : op'.restorationTerminalState = op.restorationTerminalState)
    (hfenced : op'.forwardFenced = op.forwardFenced) : op'.Lifecycle := by
  refine ⟨?_, ?_, ?_, ?_, ?_, ?_⟩
  · rw [Operation.isActive, hstate, hphase]
    exact h.active
  · rw [hlease, hstate]
    exact h.leased
  · rw [hcommitted, hphase, hstate]
    exact h.committed
  · rw [hphase, hterminal]
    exact h.restoring
  · rw [hphase, hfenced]
    exact h.fenced
  · rw [Operation.isActive, hstate, haction]
    exact h.specified

private theorem lifecycle_finish {state : NodeOperationState}
    (hstate : state.isActive = false) (hcommitted : op.committed = false) :
    (op.finish state).Lifecycle := by
  have hrunning : state ≠ .running := by
    rintro rfl
    cases hstate
  constructor <;>
    simp [Operation.finish, Operation.isActive, hstate, hcommitted, hrunning]

theorem Operation.restoredState_cases (op : Operation) :
    op.restoredState = .failed ∨ op.restoredState = .cancelled := by
  unfold Operation.restoredState
  split
  · exact .inr rfl
  · exact .inl rfl

theorem isActive_of_state (h : op.state = .queued ∨ op.state = .running ∨ op.state = .paused) :
    op.isActive = true := by
  rcases h with h | h | h <;> simp [Operation.isActive, h, NodeOperationState.isActive]

section

variable (h : op.Lifecycle)
include h

section

variable (hactive : op.isActive = true)
include hactive

theorem Operation.Lifecycle.uncommitted : op.committed = false := by
  cases hcommitted : op.committed with
  | false => rfl
  | true => exact absurd (h.committed hcommitted).1 (h.active.1 hactive)

theorem Operation.Lifecycle.forward
    (hphase : op.phase ≠ .restoringSource) : op.phase = .forward := by
  have hopen := h.active.1 hactive
  cases hp : op.phase with
  | forward => rfl
  | restoringSource => exact absurd hp hphase
  | complete => exact absurd hp hopen

theorem Operation.Lifecycle.restoringSource
    (hphase : op.phase ≠ .forward) : op.phase = .restoringSource := by
  have hopen := h.active.1 hactive
  cases hp : op.phase with
  | forward => exact absurd hp hphase
  | restoringSource => rfl
  | complete => exact absurd hp hopen

end

/-- The deadline check does not fire before the deadline: a fenced operation is not forward. -/
theorem not_expired_of_beforeDeadline (hdeadline : op.BeforeDeadline now) :
    ¬(op.phase = .forward ∧ op.deadlineExpired now = true) := by
  rintro ⟨hphase, hexpired⟩
  simp only [Operation.deadlineExpired, decide_eq_true_eq] at hexpired
  rcases hexpired with ⟨_, hlate⟩ | hfenced
  · exact absurd (hdeadline hphase) (not_lt.2 hlate)
  · exact h.fenced hfenced hphase

end

theorem OpMove.active (h : OpMove db now op effect op') : op.isActive = true := by
  cases h with
  | expireLease hstate | fencePolicy hstate | extendLease hstate | finishRestored hstate
  | finishCommitted hstate | finishSucceeded hstate | deliver hstate | reportSlot _ _ _ hstate
  | failProxy _ _ hstate | proxyStep _ _ hstate => exact isActive_of_state (.inr (.inl hstate))
  | resume hstate => exact isActive_of_state (.inr (.inr hstate))
  | takeLease _ _ hstate => exact isActive_of_state (.inl hstate)
  | enterRestoration _ _ _ hactive => exact hactive
  | setCondition _ _ hrec | pause _ _ hrec | clearDelivery hrec | advance hrec
  | switchAuthority hrec | resolveAmbiguity hrec | restorePending _ _ hrec | restored hrec =>
    exact isActive_of_state (.inr (.inl hrec.state))

theorem OpMove.commit_eq (h : OpMove db now op .commit op') :
    op.commits = true ∧ op' = { op.finish .succeeded with committed := true } := by
  cases h with
  | finishCommitted hstate hdeadline hphase hproxy hslots hcommits => exact ⟨hcommits, rfl⟩

theorem OpMove.finished (h : OpMove db now op effect op') (hopen : op.phase ≠ .complete)
    (hdone : op'.phase = .complete) : op.proxy.complete = true ∧ op.reconcileTarget = none ∧
      (op.phase = .restoringSource ∧ effect = .plain ∧ op' = op.finish op.restoredState ∨
        op.phase ≠ .restoringSource ∧ op.BeforeDeadline now ∧
          (effect = .commit ∧ op.commits = true ∧
              op' = { op.finish .succeeded with committed := true } ∨
            effect = .plain ∧ op.commits = false ∧ op' = op.finish .succeeded)) := by
  cases h with
  | finishRestored hstate hphase hproxy hslots =>
    exact ⟨hproxy, hslots, .inl ⟨hphase, rfl, rfl⟩⟩
  | finishCommitted hstate hdeadline hphase hproxy hslots hcommits =>
    exact ⟨hproxy, hslots, .inr ⟨hphase, hdeadline, .inl ⟨rfl, hcommits, rfl⟩⟩⟩
  | finishSucceeded hstate hdeadline hphase hproxy hslots hcommits =>
    exact ⟨hproxy, hslots, .inr ⟨hphase, hdeadline, .inr ⟨rfl, hcommits, rfl⟩⟩⟩
  | enterRestoration => cases hdone
  | pause code detail hrec =>
    rw [hrec.pause_eq] at hdone
    exact absurd hdone hopen
  | @deliver selection =>
    cases hkey : selection.key <;> rw [hkey] at hdone <;> exact absurd hdone hopen
  | _ => exact absurd hdone hopen

theorem Operation.Lifecycle.isDeployment (h : op.Lifecycle) (hactive : op.isActive = true)
    (hcommits : op.commits = true) : op.action.isDeployment = true := by
  have hspecified := h.specified hactive
  simp only [Operation.commits, decide_eq_true_eq] at hcommits
  cases haction : op.action with
  | deployment | rollback => rfl
  | unspecified => exact absurd haction hspecified
  | restart => exact absurd haction hcommits.1

theorem OpMove.lifecycle
    (hmove : OpMove db now op effect op') (h : op.Lifecycle) : op'.Lifecycle := by
  have hactive := hmove.active
  cases hmove with
  | expireLease hstate =>
    exact h.update rfl hactive rfl rfl (by simp [Operation.expireLease]) rfl rfl rfl
  | fencePolicy hstate =>
    exact h.update rfl hactive rfl rfl (by simp [Operation.fencePolicy]) rfl rfl rfl
  | resume hstate =>
    exact h.update rfl hactive rfl rfl (by simp [Operation.resume]) rfl rfl rfl
  | takeLease _ _ hstate =>
    exact h.update rfl hactive rfl rfl (by simp [Operation.takeLease]) rfl rfl rfl
  | extendLease hstate =>
    refine h.update rfl hactive hactive rfl ?_ rfl rfl rfl
    simpa [Operation.extendLease] using h.leased
  | enterRestoration terminal code detail _ hcommitted hterminal =>
    refine ⟨?_, ?_, ?_, ?_, ?_, fun _ => h.specified hactive⟩ <;>
      simp [Operation.enterRestoration, Operation.isActive, NodeOperationState.isActive,
        hcommitted, hterminal]
  | pause code detail hrec =>
    rw [hrec.pause_eq]
    exact h.update rfl hactive rfl rfl (by simp) rfl rfl rfl
  | finishRestored hstate hphase =>
    refine lifecycle_finish ?_ (h.uncommitted hactive)
    rcases op.restoredState_cases with heq | heq <;> rw [heq] <;> rfl
  | finishCommitted =>
    constructor <;> simp [Operation.finish, Operation.isActive, NodeOperationState.isActive]
  | finishSucceeded => exact lifecycle_finish rfl (h.uncommitted hactive)
  | @deliver selection hstate =>
    cases hkey : selection.key <;> exact h.targets rfl rfl rfl rfl rfl rfl rfl
  | failProxy code detail hstate =>
    exact h.update rfl hactive rfl rfl (by simp [Operation.failProxy]) rfl rfl rfl
  | _ => exact h.targets rfl rfl rfl rfl rfl rfl rfl

theorem OpMove.committed_eq (h : OpMove db now op effect op') (heffect : effect ≠ .commit) :
    op'.committed = op.committed := by
  cases h with
  | pause code detail hrec =>
    rw [hrec.pause_eq]
    rfl
  | @deliver selection => cases hkey : selection.key <;> rfl
  | finishCommitted => exact absurd rfl heffect
  | _ => rfl

theorem Operation.Writes.eq_of_inactive (h : op.Writes op')
    (hdone : op.isActive = false) : op' = op := by
  induction h with
  | refl => rfl
  | tail _ hlast ih =>
    obtain ⟨_, _, _, hmove⟩ := hlast
    rw [ih] at hmove
    cases hmove.active.symm.trans hdone

theorem reachable_lifecycle {contract : DeploymentContract} {nodeId : String} {w : World}
    (hreach : Reachable contract nodeId w) : ∀ op ∈ w.db.operations, op.Lifecycle :=
  operations_invariant (fun _ _ _ _ _ h => h.lifecycle) (fun _ _ h => h.lifecycle)
    (fun _ _ _ _ _ hmove h => hmove.lifecycle h) hreach

end Wruntime.Manager
