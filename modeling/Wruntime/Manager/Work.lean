import Wruntime.Manager.Calls

/-!
The shape of a call's transaction: calm moves, which leave the completed steps of all targets alone,
around at most one reconciliation of an operation whose deadline has not passed. A claim has this
shape, and so has what it does before it returns an instruction.
-/

namespace Wruntime.Manager

open Fallible Table Runs Relation

variable {db db' db₁ : Db} {base o op : Operation} {f : Operation → Operation} {effect : Effect}
  {agent id instanceId : String} {now : Time} {selection : Selection}
  {instruction : AgentInstruction} {call : Call}

/-- How far each slot of the operation has come. -/
def Operation.steps (op : Operation) : List (String × Nat) :=
  op.engines.map fun t => (t.engineSlot, t.progress.completedSteps)

def Db.stepTable (db : Db) : List (String × List (String × Nat)) :=
  db.operations.map fun o => (o.operationId, o.steps)

/-- A write that inserts no operation, takes in no result, and leaves receipts, observations and
registrations alone. -/
inductive QuietMove (now : Time) : Db → Db → Prop
  | write {db : Db} {op : Operation} {effect : Effect} {f : Operation → Operation}
      (hmem : op ∈ db.operations) (hmove : OpMove db now op effect (f op))
      (hquiet : effect.isReport = false) :
      QuietMove now db (db.write op effect f)
  | writeAll {db : Db} (p : Operation → Bool) (f : Operation → Operation)
      (hmove : ∀ op ∈ db.operations, p op = true → OpMove db now op .plain (f op)) :
      QuietMove now db { db with operations := updateWhere p f db.operations }
  | other {db db' : Db} (hmove : Move now db db')
      (hoperations : db'.operations = db.operations) (hreceipts : db'.receipts = db.receipts)
      (hobservations : db'.observations = db.observations)
      (hengines : db'.engines = db.engines) (hnode : db'.nodeId = db.nodeId) :
      QuietMove now db db'

/-- A quiet write that completes no step of any slot. -/
structure Calm (now : Time) (db db' : Db) : Prop where
  quiet : QuietMove now db db'
  steps : db'.stepTable = db.stepTable

abbrev Calms (now : Time) : Db → Db → Prop := ReflTransGen (Calm now)

/-- Calm moves around at most one reconciliation, the only one that completes steps. -/
def Work (now : Time) (db db' : Db) : Prop :=
  ∃ before after, Calms now db before ∧
    (after = before ∨ ∃ op ∈ before.operations, ReconcileOutcome before now op after) ∧
    Calms now after db'

/-- A call inserts one operation, publishes registrations, works on operations, stores an
observation and works with it, or takes in a result, works on and leaves a receipt. -/
inductive Transaction (now : Time) (call : Call) (db db' : Db) (reply : Reply) : Prop
  | insert {op : Operation} (hmove : Move now db db')
      (hoperations : db'.operations = db.operations ++ [op])
      (hreceipts : db'.receipts = db.receipts)
      (hobservations : db'.observations = db.observations)
  | publish (hmove : Move now db db') (hoperations : db'.operations = db.operations)
      (hreceipts : db'.receipts = db.receipts)
      (hobservations : db'.observations = db.observations)
  | work (hwork : Work now db db')
  | observe {receivedAt : Time} {request : ReportNodeObservationRequest} {agent : String}
      {op result : Operation} (hcall : call = .reportObservation receivedAt request agent)
      (hreply : reply = .operation result)
      (hleased : db.leasedOperation? now request.nodeId request.operationId
        request.leaseEpoch agent request.agentInstanceId = some op)
      (hdeadline : op.BeforeDeadline now)
      (hwork : Work now (db.recordObservation (request.row receivedAt)) db')
  | report {request : ReportStepResultRequest} {agent : String} {target : TargetKey}
      {op result : Operation} {f : Operation → Operation} {mid : Db}
      (hcall : call = .reportStep request agent) (hreply : reply = .operation result)
      (htarget : request.target.map (fun t => (t.kind, t.identity)) =
        some (target.kind, some target))
      (hnone : db.receipt? request target = none)
      (hleased : db.leasedOperation? now request.nodeId request.operationId
        request.leaseEpoch agent request.agentInstanceId = some op)
      (hmove : OpMove db now op (.report target request) (f op))
      (hsteps : (f op).steps = op.steps)
      (hwork : Work now (db.write op (.report target request) f) mid)
      (hdb : db' = { mid with receipts := mid.receipts ++ [request.receipt target agent] })

theorem QuietMove.move (h : QuietMove now db db') : Move now db db' := by
  cases h with
  | write hmem hmove => exact .write hmem hmove
  | writeAll p f hmove => exact .writeAll p f hmove
  | other hmove => exact hmove

theorem Calm.move (h : Calm now db db') : Move now db db' :=
  h.quiet.move

theorem Calms.moves (h : Calms now db db') : Moves now db db' :=
  ReflTransGen.mono (fun _ _ hcalm => Calm.move hcalm) _ _ h

theorem Work.moves (h : Work now db db') : Moves now db db' := by
  obtain ⟨before, after, hbefore, hreconcile, hafter⟩ := h
  have hmiddle : Moves now before after := by
    obtain rfl | ⟨op, hmem, rfl | ⟨effect, f, _, hmove, rfl⟩⟩ := hreconcile
    · exact .refl
    · exact .refl
    · exact .single (.write hmem hmove)
  exact (hbefore.moves.trans hmiddle).trans hafter.moves

theorem Transaction.moves {reply : Reply} (h : Transaction now call db db' reply) :
    Moves now db db' := by
  cases h with
  | insert hmove | publish hmove => exact .single hmove
  | work hwork => exact hwork.moves
  | observe hcall hreply hleased hdeadline hwork =>
    exact .head (.observe _) hwork.moves
  | report hcall hreply htarget hnone hleased hmove hsteps hwork hdb =>
    have hmem := (leasedOperation?_eq_some hleased).2.1
    rw [hdb]
    exact .head (.write hmem hmove) (hwork.moves.tail (.receipt _))

theorem Calm.work (h : Calm now db db') : Work now db db' :=
  ⟨_, _, .single h, .inl rfl, .refl⟩

theorem Work.refl (now : Time) (db : Db) : Work now db db :=
  ⟨_, _, .refl, .inl rfl, .refl⟩

theorem Work.head {mid : Db} (hfirst : Calm now db mid)
    (h : Work now mid db') : Work now db db' := by
  obtain ⟨before, after, hbefore, hreconcile, hafter⟩ := h
  exact ⟨before, after, .head hfirst hbefore, hreconcile, hafter⟩

theorem Work.tail {mid : Db} (h : Work now db mid)
    (hlast : Calm now mid db') : Work now db db' := by
  obtain ⟨before, after, hbefore, hreconcile, hafter⟩ := h
  exact ⟨before, after, hbefore, hreconcile, hafter.tail hlast⟩

section StepMoves

variable {reply : Option AgentInstruction} {request : ReportStepResultRequest}

theorem calm_write (hkeys : Keys db) (hmem : op ∈ db.operations)
    (hmove : OpMove db now op effect (f op)) (hquiet : effect.isReport = false)
    (hsteps : (f op).steps = op.steps) : Calm now db (db.write op effect f) := by
  refine ⟨.write hmem hmove hquiet, ?_⟩
  simp only [Db.stepTable, write_operations, updateWhere, List.map_map]
  refine List.map_congr_left fun o ho => ?_
  rcases eq_or_key_ne hkeys.operations ho hmem with rfl | hid
  · simp [hmove.frame.operationId, hsteps]
  · simp [hid]

theorem calm_writeAll {p : Operation → Bool}
    (hmove : ∀ op ∈ db.operations, p op = true → OpMove db now op .plain (f op))
    (hsteps : ∀ o, ((f o).operationId, (f o).steps) = (o.operationId, o.steps)) :
    Calm now db { db with operations := updateWhere p f db.operations } :=
  ⟨.writeAll p f hmove, map_updateWhere hsteps db.operations⟩

theorem calm_of_other (hmove : Move now db db') (hoperations : db'.operations = db.operations)
    (hreceipts : db'.receipts = db.receipts) (hobservations : db'.observations = db.observations)
    (hengines : db'.engines = db.engines) (hnode : db'.nodeId = db.nodeId) : Calm now db db' :=
  ⟨.other hmove hoperations hreceipts hobservations hengines hnode,
    by rw [Db.stepTable, Db.stepTable, hoperations]⟩

theorem steps_enterRestoration (op : Operation) (terminal : NodeOperationState)
    (code detail : String) : (op.enterRestoration terminal code detail).steps = op.steps := by
  simp only [Operation.steps, Operation.enterRestoration, List.map_map]
  exact List.map_congr_left fun t _ => rfl

theorem Operation.steps_modifyProgress (op : Operation) (slot : String)
    {f : TargetProgress → TargetProgress} (hf : ∀ p, (f p).completedSteps = p.completedSteps) :
    (op.modifyProgress slot f).steps = op.steps :=
  map_updateWhere (fun t => by simp only [hf t.progress]) op.engines

section

variable (hkeys : Keys db)
include hkeys

/-- A restoration is entered without a step being completed. -/
theorem enterRestoration_calm {terminal : NodeOperationState}
    {code detail : String} (hterminal : terminal = .failed ∨ terminal = .cancelled)
    (h : enterRestoration db id terminal code detail = .ok db') : Calm now db db' := by
  obtain ⟨⟨found, hmem, rfl, hcommitted, hactive⟩, rfl⟩ := enterRestoration_eq_ok h
  have hmove : OpMove db now found .plain (found.enterRestoration terminal code detail) :=
    .enterRestoration terminal code detail hactive hcommitted hterminal
  exact calm_write (f := (·.enterRestoration terminal code detail)) hkeys hmem hmove rfl
    (steps_enterRestoration found terminal code detail)

theorem fenceDeadline_calm (h : fenceDeadline db id = .ok db') : Calm now db db' :=
  enterRestoration_calm hkeys (.inl rfl) h

theorem reconcile_work (hworkable : ∀ o ∈ db.operations, o.operationId = id → o.Workable now)
    (h : reconcile db now id = .ok db') : Work now db db' := by
  obtain ⟨op, hmem, _, _, houtcome⟩ := reconcile_outcome hkeys.operations hworkable h
  exact ⟨_, _, .refl, .inr ⟨op, hmem, houtcome⟩, .refl⟩

theorem eq_of_mem_write (hmem : op ∈ db.operations)
    (ho : o ∈ (db.write op effect f).operations) (hid : o.operationId = op.operationId) :
    o = f op := by
  rcases (mem_write_operations hkeys hmem).1 ho with heq | ⟨_, hne⟩
  · exact heq
  · exact absurd hid hne

end

theorem expireLeases_calm : Calm now db (expireLeases db now) := by
  refine calm_writeAll ?_ fun o => rfl
  intro op _ hp
  simp only [decide_eq_true_eq] at hp
  exact .expireLease hp.1 hp.2

/-- What can be claimed is queued, or running under the unexpired lease of the instance. -/
theorem claimable_cases (h : op.claimable now instanceId = true) :
    op.state = .queued ∨ op.state = .running ∧ ∃ lease, op.lease = some lease ∧
      lease.agentInstanceId = instanceId ∧ now < lease.expiresAt := by
  simp only [Operation.claimable, decide_eq_true_eq] at h
  refine h.imp_right fun hrunning => ⟨hrunning.1, ?_⟩
  obtain ⟨lease, hlease, hvalue⟩ := Option.any_eq_true _ _ |>.1 hrunning.2
  exact ⟨lease, hlease, by simpa using hvalue⟩

theorem claimLease_move (db : Db) (agent : String)
    (hclaimable : op.claimable now instanceId = true) (hdeadline : op.BeforeDeadline now) :
    OpMove db now op .plain (claimLease op now instanceId agent op) := by
  unfold claimLease
  split
  next hqueued => exact .takeLease instanceId agent hqueued hdeadline
  next hqueued =>
    have hrunning := ((claimable_cases hclaimable).resolve_left hqueued).1
    exact .extendLease hrunning hdeadline

theorem claimLease_workable (agent : String) (hclaimable : op.claimable now instanceId = true)
    (hdeadline : op.BeforeDeadline now) : (claimLease op now instanceId agent op).Workable now := by
  unfold claimLease
  split
  · exact ⟨rfl, hdeadline⟩
  next hqueued =>
    exact ⟨((claimable_cases hclaimable).resolve_left hqueued).1, hdeadline⟩

theorem steps_claimLease (op : Operation) (instanceId agent : String) :
    (claimLease op now instanceId agent op).steps = op.steps := by
  unfold claimLease
  split <;> rfl

theorem steps_deliver (op : Operation) (key : TargetKey) :
    (op.deliver key now).steps = op.steps := by
  cases key with
  | proxy => rfl
  | engineSlot slot => exact op.steps_modifyProgress slot fun p => rfl

theorem beforeDeadline_of_reconcile (hkeys : Keys db)
    (hworkable : ∀ o ∈ db.operations, o.operationId = id → o.Workable now)
    (h : reconcile db now id = .ok db') :
    ∀ o ∈ db'.operations, o.operationId = id → o.BeforeDeadline now := by
  obtain ⟨op, hmem, hid, _, rfl | ⟨effect, f, _, hmove, rfl⟩⟩ :=
    reconcile_outcome hkeys.operations hworkable h
  · exact fun o ho hoid => (hworkable o ho hoid).beforeDeadline
  · intro o ho hoid
    rw [eq_of_mem_write hkeys hmem ho (hoid.trans hid.symm)]
    exact hmove.beforeDeadline (hworkable op hmem hid).beforeDeadline

theorem claimLeased_work (hkeys : Keys db)
    (hworkable : ∀ o ∈ db.operations, o.operationId = id → o.Workable now)
    (h : claimLeased db now id instanceId = .ok (db', reply)) : Work now db db' := by
  obtain ⟨db₁, op, hreconcile, hop, ⟨_, rfl⟩ |
    ⟨selection, instruction, hrunning, hselect, _, hissue⟩⟩ := claimLeased_eq_ok h
  · exact reconcile_work hkeys hworkable hreconcile
  obtain ⟨hmem, hid⟩ := mem_of_operation? hop
  have hop_deadline := beforeDeadline_of_reconcile hkeys hworkable hreconcile op hmem hid
  have hreconciled : Work now db db₁ := reconcile_work hkeys hworkable hreconcile
  obtain ⟨_, _, rfl⟩ := issueInstruction_eq_ok hissue
  split
  next hdeliver =>
    exact hreconciled.tail (calm_write (Moves.keys hreconciled.moves hkeys) hmem
      (.deliver hrunning hop_deadline hselect hdeliver.1 hdeliver.2) rfl
      (steps_deliver op selection.key))
  · exact hreconciled

/-- A claim completes at most one step, whether it returns an instruction or not. -/
theorem claim_work (hkeys : Keys db) (h : claim db now instanceId agent = .ok (db', reply)) :
    Work now db db' := by
  have hexpire : Calm now db (expireLeases db now) := expireLeases_calm
  have hexpired := hexpire.move.keys hkeys
  obtain ⟨_, _, ⟨rfl, _⟩ | ⟨op, hmem, hclaimable, ⟨_, _, _, hfence⟩ | ⟨hdeadline, hleased⟩⟩⟩ :=
    claim_eq_ok h
  · exact hexpire.work
  · exact .head hexpire (fenceDeadline_calm hexpired hfence).work
  · have hmove := claimLease_move (expireLeases db now) agent
      hclaimable hdeadline
    have hlease : Calm now (expireLeases db now) _ :=
      calm_write hexpired hmem hmove rfl (steps_claimLease op instanceId agent)
    refine .head hexpire (.head hlease (claimLeased_work (hlease.move.keys hexpired) ?_ hleased))
    intro o ho hid
    rw [eq_of_mem_write hexpired hmem ho hid]
    exact claimLease_workable agent hclaimable hdeadline

section Instructed

variable (hkeys : Keys db)
  (h : Instructed db now instanceId agent db' instruction base db₁ op selection)
include hkeys h

/-- The claimed operation has the lease before the reconciliation, and can be worked on. -/
theorem Instructed.leased :
    Keys ((expireLeases db now).write base .plain (claimLease base now instanceId agent)) ∧
      ∀ o ∈ ((expireLeases db now).write base .plain
        (claimLease base now instanceId agent)).operations,
        o.operationId = base.operationId → o = claimLease base now instanceId agent base ∧
          o.Workable now := by
  have hexpire : Move now db (expireLeases db now) := expireLeases_calm.move
  have hexpired := hexpire.keys hkeys
  have hmove := claimLease_move (expireLeases db now) agent
    h.claimable h.deadline
  refine ⟨(Move.write h.base_mem hmove).keys hexpired, fun o ho hid => ?_⟩
  obtain rfl := eq_of_mem_write hexpired h.base_mem ho hid
  exact ⟨rfl, claimLease_workable agent h.claimable h.deadline⟩

theorem Instructed.work : Work now db db₁ := by
  have hexpire : Calm now db (expireLeases db now) := expireLeases_calm
  have hmove := claimLease_move (expireLeases db now) agent h.claimable h.deadline
  have hlease : Calm now (expireLeases db now) _ :=
    calm_write (hexpire.move.keys hkeys) h.base_mem hmove rfl
      (steps_claimLease base instanceId agent)
  obtain ⟨hleased, hop⟩ := h.leased hkeys
  exact .head hexpire (.head hlease
    (reconcile_work hleased (fun o ho hid => (hop o ho hid).2) h.reconcile))

theorem Instructed.moves : Moves now db db₁ :=
  (h.work hkeys).moves

theorem Instructed.beforeDeadline : op.BeforeDeadline now := by
  obtain ⟨hleased, hop⟩ := h.leased hkeys
  exact beforeDeadline_of_reconcile hleased (fun o ho hid => (hop o ho hid).2) h.reconcile op
    h.op_mem h.op_id

/-- After the claim the operation is the reconciled one, marked as delivered if the instruction
mutates. -/
theorem Instructed.final (ho : o ∈ db'.operations) (hid : o.operationId = op.operationId) :
    o = if selection.step.isMutating = true ∧ selection.inspection = false
      then op.deliver selection.key now else op := by
  have hkeys₁ := Moves.keys (h.moves hkeys) hkeys
  have hresult := h.result
  split at hresult
  next hdeliver =>
    rw [hresult] at ho
    rw [if_pos hdeliver]
    exact eq_of_mem_write hkeys₁ h.op_mem ho hid
  next hdeliver =>
    rw [hresult] at ho
    rw [if_neg hdeliver]
    exact eq_of_nodup_key hkeys₁.operations ho h.op_mem hid

end Instructed

end StepMoves

end Wruntime.Manager
