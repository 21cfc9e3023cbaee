import Wruntime.Manager.Lifecycle

/-!
The lease of an operation over whole runs. A claim of a queued operation starts a new epoch; every
other write keeps the epoch, and keeps the principal and activation on the lease or drops it. So an
epoch has one holder for its whole life.
-/

namespace Wruntime.Manager

open Fallible Table Runs

variable {op op' : Operation}

def Operation.holder (op : Operation) : Option (String × String) :=
  op.lease.map fun lease => (lease.claimedBy, lease.agentInstanceId)

/-- A running operation has just been leased in a new epoch, or was running in this epoch, phase and
under this holder. -/
theorem OpMove.running {db : Db} {now : Time} {effect : Effect}
    (h : OpMove db now op effect op') (hrunning : op'.state = .running) :
    (op.state = .queued ∧ op'.leaseEpoch = op.leaseEpoch + 1) ∨
      op.state = .running ∧ op'.leaseEpoch = op.leaseEpoch ∧ op'.phase = op.phase ∧
        op'.holder = op.holder := by
  cases h with
  | expireLease | fencePolicy | resume | enterRestoration | finishCommitted | finishSucceeded
  | failProxy => cases hrunning
  | takeLease _ _ hstate => exact .inl ⟨hstate, rfl⟩
  | extendLease hstate =>
    refine .inr ⟨hstate, rfl, rfl, ?_⟩
    simp only [Operation.holder, Operation.extendLease, Option.map_map]
    rfl
  | pause code detail hrec =>
    rw [hrec.pause_eq] at hrunning
    cases hrunning
  | finishRestored =>
    rcases op.restoredState_cases with hstate | hstate <;>
      simp [Operation.finish, hstate] at hrunning
  | @deliver selection hstate =>
    cases hkey : selection.key <;> exact .inr ⟨hstate, rfl, rfl, rfl⟩
  | _ => exact .inr ⟨hrunning, rfl, rfl, rfl⟩

theorem OpMove.leaseEpoch_le {db : Db} {now : Time} {effect : Effect}
    (h : OpMove db now op effect op') : op.leaseEpoch ≤ op'.leaseEpoch := by
  cases h with
  | takeLease => exact Nat.le_succ _
  | pause code detail hrec =>
    rw [hrec.pause_eq]
    exact le_rfl
  | @deliver selection => cases hkey : selection.key <;> exact le_rfl
  | _ => exact le_rfl

theorem Operation.Writes.leaseEpoch_le (h : op.Writes op') : op.leaseEpoch ≤ op'.leaseEpoch := by
  induction h with
  | refl => exact le_rfl
  | tail _ hlast ih =>
    obtain ⟨_, _, _, hmove⟩ := hlast
    exact ih.trans hmove.leaseEpoch_le

/-- An operation running in an epoch has run in it, under one holder, since the epoch began. -/
theorem Operation.Writes.running (h : op.Writes op')
    (hrunning : op'.state = .running) (hepoch : op'.leaseEpoch = op.leaseEpoch) :
    op.state = .running ∧ op'.phase = op.phase ∧ op'.holder = op.holder := by
  induction h with
  | refl => exact ⟨hrunning, rfl, rfl⟩
  | @tail mid last hprev hlast ih =>
    obtain ⟨_, _, _, hmove⟩ := hlast
    have hle := Operation.Writes.leaseEpoch_le hprev
    rcases hmove.running hrunning with ⟨_, hnew⟩ | ⟨hwas, hsame, hphase, hholder⟩
    · omega
    · obtain ⟨hfirst, hphase', hholder'⟩ := ih hwas (hsame.symm.trans hepoch)
      exact ⟨hfirst, hphase.trans hphase', hholder.trans hholder'⟩

end Wruntime.Manager
