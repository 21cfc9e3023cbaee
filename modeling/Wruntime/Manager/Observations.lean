import Wruntime.Manager.Writes

/-!
Where stored observations come from. A row was stored by a call accepted under the lease of the
row's epoch, with the time the manager received it. So a row that a run did not start with was
accepted during the run.
-/

namespace Wruntime.Manager

open Fallible Table Runs Relation

variable {now : Time} {row : SlotObservation}

variable {contract : DeploymentContract}

theorem matchingObservation_eq_some {db : Db} {op : Operation} {slot : String}
    {observation : SlotObservation} (h : matchingObservation db now op slot = some observation) :
    ∃ row ∈ db.observations, observation = row.fromClient now ∧ row.engineSlot = slot ∧
      row.operationId = op.operationId ∧ row.agentInstanceId = op.agentInstanceId ∧
      row.leaseEpoch = op.leaseEpoch := by
  obtain ⟨hmem, hfound⟩ := found h
  obtain ⟨row, hrow, rfl⟩ := List.mem_map.1 hmem
  exact ⟨row, hrow, rfl, hfound.1, hfound.2.1, hfound.2.2.1, hfound.2.2.2.1⟩

theorem SlotObservation.backendState_of_fromClient
    {state : BackendProcessState} (hstate : state ≠ .unspecified)
    (h : (row.fromClient now).backendState = state) : row.backendState = state := by
  simp only [SlotObservation.fromClient] at h
  split at h
  · exact absurd h.symm hstate
  · exact h

theorem EngineTarget.showsNoEffect_of_fromClient {t : EngineTarget}
    (h : t.showsNoEffect (row.fromClient now)) : t.showsNoEffect row := by
  obtain ⟨herror, hshows⟩ := h
  refine ⟨herror, ?_⟩
  revert hshows
  cases t.progress.nextStep with
  | stopBackend =>
    rintro ⟨hstate, hbackend⟩
    exact ⟨SlotObservation.backendState_of_fromClient (by decide) hstate, hbackend⟩
  | selectRelease => exact id
  | startBackend =>
    rintro ⟨hstate, hrelease⟩
    exact ⟨SlotObservation.backendState_of_fromClient (by decide) hstate, hrelease⟩
  | _ => exact False.elim

theorem SlotObservation.conclusive_of_fromClient
    (h : (row.fromClient now).conclusive = true) : row.conclusive = true := by
  simp only [SlotObservation.conclusive, decide_eq_true_eq] at h ⊢
  obtain ⟨herror, hbackend, hstate⟩ := h
  refine ⟨herror, hbackend, ?_⟩
  apply hstate.imp <;>
    exact SlotObservation.backendState_of_fromClient (by decide)

/-- The manager accepts this observation and may store it as `row`: its reporter holds the lease. -/
def AcceptsObservation (contract : DeploymentContract) (row : SlotObservation) (w : World)
    (input : Input) : Prop :=
  ∃ receivedAt request agent op result,
    input.call = .reportObservation receivedAt request agent ∧
    row = request.row receivedAt ∧
    w.db.leasedOperation? input.now request.nodeId request.operationId request.leaseEpoch
      agent request.agentInstanceId = some op ∧
    (step contract w.db input.now input.call).2 = .operation result

theorem mem_recordObservation {db : Db} {new : SlotObservation}
    (h : row ∈ (db.recordObservation new).observations) : row = new ∨ row ∈ db.observations := by
  have hupsert : row ∈ upsertBy SlotObservation.engineSlot new db.observations →
      row = new ∨ row ∈ db.observations := mem_upsertBy
  unfold Db.recordObservation at h
  split at h
  · split at h
    · exact hupsert h
    · exact .inr h
  · exact hupsert h

/-- A row in the new state was there, or this very call was accepted with it. -/
theorem next_observations {w : World} (hkeys : Keys w.db) (input : Input)
    (hrow : row ∈ (w.next contract input).db.observations) :
    row ∈ w.db.observations ∨ AcceptsObservation contract row w input := by
  change row ∈ (step contract w.db input.now input.call).1.observations at hrow
  have htransaction := step_transaction contract input.now hkeys input.call
  cases htransaction with
  | insert hmove hoperations hreceipts hobservations
  | publish hmove hoperations hreceipts hobservations => exact .inl (hobservations ▸ hrow)
  | work hwork => exact .inl (hwork.observations hkeys ▸ hrow)
  | @observe receivedAt request agent op result hcall hreply hleased hdeadline hwork =>
    have hfirst : Move input.now w.db (w.db.recordObservation (request.row receivedAt)) :=
      .observe _
    rw [hwork.observations (hfirst.keys hkeys)] at hrow
    rcases mem_recordObservation hrow with rfl | hold
    · exact .inr ⟨receivedAt, request, agent, op, result, hcall, rfl, hleased, hreply⟩
    · exact .inl hold
  | @report request agent target op result f mid hcall hreply htarget hnone hleased hmove
      hsteps hwork hdb =>
      have hfirst : Move input.now w.db (w.db.write op (.report target request) f) :=
        .write (leasedOperation?_eq_some hleased).2.1 hmove
      rw [hdb] at hrow
      change row ∈ mid.observations at hrow
      rw [hwork.observations (hfirst.keys hkeys), (write_frame _ _ _ _).2.1] at hrow
      exact .inl hrow

theorem accepted_of_stored {ok : World → Input → Prop} {start later : World} (hkeys : Keys start.db)
    (hrun : Reach (World.next contract) ok start later) (hnew : row ∉ start.db.observations)
    (hrow : row ∈ later.db.observations) :
    Between (World.next contract) ok (AcceptsObservation contract row) start later := by
  obtain ⟨mid, input, hmid, hok, hbefore, hafter, hrest⟩ :=
    Reach.crossing (P := fun w => row ∉ w.db.observations) hnew (fun h => h hrow) hrun
  have hkeysMid : Keys mid.db :=
    hmid.invariant (P := fun w => Keys w.db) hkeys fun w input _ _ hw =>
      Moves.keys (next_moves hw input) hw
  refine ⟨mid, input, hmid, hok, ?_, hrest⟩
  exact (next_observations hkeysMid input (not_not.1 hafter)).resolve_left hbefore

theorem observedAt_le_clock {nodeId : String} {w : World}
    (hrun : Reach (World.next contract) InOrder (World.initial nodeId) w) :
    ∀ row ∈ w.db.observations, row.observedAt ≤ w.clock := by
  refine Reach.invariant (P := fun w => ∀ row ∈ w.db.observations, row.observedAt ≤ w.clock)
    ?_ ?_ hrun
  · intro row hrow
    cases hrow
  intro w input hw horder hold row hrow
  have hkeys := reachable_keys (hw.mono fun _ _ _ => trivial)
  change row.observedAt ≤ input.now
  rcases next_observations hkeys input hrow with hwas |
    ⟨receivedAt, request, agent, op, result, hcall, rfl, _⟩
  · exact (hold row hwas).trans horder.1
  · have hreceived := horder.2
    simp only [Input.receivedAt, hcall] at hreceived
    exact hreceived

end Wruntime.Manager
