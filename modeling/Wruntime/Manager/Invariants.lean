import Wruntime.Manager.Work

/-!
Every call is a transaction: `step_transaction` assembles the calls, and all invariants of the
database go through the induction `db_invariant`. What is proved of each move of an operation holds
along every run by `operations_invariant`.
-/

namespace Wruntime.Manager

open Fallible Table Runs Relation

variable {db db' : Db} {o op : Operation} {f : Operation → Operation} {effect : Effect}
  {d row : Deployment} {actor agent id instanceId nodeId : String} {now : Time}
  {instruction : AgentInstruction} {P : Db → Prop} {w : World} {call : Call}
  {contract : DeploymentContract} {reply : Option AgentInstruction}
  {request : ReportStepResultRequest}

section

variable (hkeys : Keys db)
include hkeys

theorem reconcile_written_work (hmem : op ∈ db.operations) (hdeadline : op.BeforeDeadline now)
    (hmove : OpMove db now op effect (f op)) (hrunning : (f op).state = .running)
    (h : reconcile (db.write op effect f) now op.operationId = .ok db') :
    Work now (db.write op effect f) db' := by
  refine reconcile_work ((Move.write hmem hmove).keys hkeys) ?_ h
  intro o ho hid
  rw [eq_of_mem_write hkeys hmem ho hid]
  exact ⟨hrunning, hmove.beforeDeadline hdeadline⟩

theorem renew_work {request : RenewOperationLeaseRequest} {reply : Except Status Time}
    (h : renew db now request agent = .ok (db', reply)) : Work now db db' := by
  obtain ⟨op, hop, ⟨_, _, _, hfence⟩ | ⟨hdeadline, rfl, _⟩⟩ := renew_eq_ok h
  · exact (fenceDeadline_calm hkeys hfence).work
  · obtain ⟨_, hmem, _, hleased⟩ := leasedOperation?_eq_some hop
    have hstate := (Operation.leasedTo_eq_true hleased).1
    exact (calm_write hkeys hmem (.extendLease hstate hdeadline) rfl rfl).work

theorem reportObservation_transaction {receivedAt : Time}
    {request : ReportNodeObservationRequest} {reply : Except Status Operation}
    (h : reportObservation db now receivedAt request agent = .ok (db', reply)) :
    Transaction now (.reportObservation receivedAt request agent) db db'
      (.ofCommitted .operation reply) := by
  obtain ⟨op, hop, ⟨_, _, _, hfence⟩ | ⟨hdeadline, hreconcile, result, rfl, _⟩⟩ :=
    reportObservation_eq_ok h
  · exact .work (fenceDeadline_calm hkeys hfence).work
  refine .observe rfl rfl hop hdeadline ?_
  obtain ⟨_, hmem, _, hleased⟩ := leasedOperation?_eq_some hop
  have hobserve : Move now db (db.recordObservation (request.row receivedAt)) := .observe _
  refine reconcile_work (hobserve.keys hkeys) ?_ hreconcile
  rw [recordObservation_eq]
  intro o ho hid
  obtain rfl := eq_of_nodup_key hkeys.operations ho hmem hid
  exact ⟨(Operation.leasedTo_eq_true hleased).1, hdeadline⟩

theorem reportProxyStep_write (hmem : op ∈ db.operations)
    (hstate : op.state = .running) (hdeadline : op.BeforeDeadline now)
    (h : reportProxyStep db now op request = .ok db') :
    ∃ f, OpMove db now op (.report .proxy request) (f op) ∧ (f op).steps = op.steps ∧
      Work now (db.write op (.report .proxy request) f) db' := by
  obtain ⟨hincomplete, hstep, ⟨code, detail, hcode, rfl⟩ |
    ⟨next, hnext, hsuccess, hreconcile⟩⟩ := reportProxyStep_eq_ok h
  · exact ⟨_, .failProxy code detail hstate hdeadline hincomplete hstep hcode, rfl, .refl _ _⟩
  · have hmove : OpMove db now op (.report .proxy request)
        { op with proxy := op.proxy.proxyStep request next } :=
      .proxyStep request next hstate hdeadline hincomplete hstep hnext hsuccess
    exact ⟨fun o => { o with proxy := o.proxy.proxyStep request next }, hmove, rfl,
      reconcile_written_work hkeys hmem hdeadline hmove hstate hreconcile⟩

/-- A result for a slot records it in one move and completes at most one step in the reconciliation.
-/
theorem reportSlotStep_write (hmem : op ∈ db.operations)
    (hstate : op.state = .running) (hdeadline : op.BeforeDeadline now) {key : String}
    (hverify : request.step ≠ .verifyProxy) (h : reportSlotStep db now op key request = .ok db') :
    ∃ f, OpMove db now op (.report (.engineSlot key) request) (f op) ∧ (f op).steps = op.steps ∧
      Work now (db.write op (.report (.engineSlot key) request) f) db' := by
  obtain ⟨slot, hslot, rfl, hincomplete, hstep, code, detail, _, hreconcile⟩ :=
    reportSlotStep_eq_ok hverify h
  have hmove : OpMove db now op (.report (.engineSlot slot.engineSlot) request)
      (op.modifyProgress slot.engineSlot (·.recordEffect request code detail)) :=
    .reportSlot request code detail hstate hdeadline hslot hincomplete hstep
  exact ⟨(·.modifyProgress slot.engineSlot (·.recordEffect request code detail)), hmove,
    op.steps_modifyProgress _ (f := (·.recordEffect request code detail)) fun p => rfl,
    reconcile_written_work hkeys hmem hdeadline hmove hstate hreconcile⟩

theorem reportStep_transaction {reply : Except Status Operation}
    (h : reportStep db now request agent = .ok (db', reply)) :
    Transaction now (.reportStep request agent) db db' (.ofCommitted .operation reply) := by
  obtain ⟨reportTarget, target, hrequest, htarget, hcompatible,
    ⟨_, _, _, _, rfl⟩ | ⟨hnone, haccept⟩⟩ := reportStep_eq_ok h
  · exact .work (.refl _ _)
  obtain ⟨op, hop, ⟨_, _, _, hfence⟩ | ⟨hdeadline, reported, hreported, hdb, result, rfl, _⟩⟩ :=
    acceptStep_eq_ok haccept
  · exact .work (fenceDeadline_calm hkeys hfence).work
  obtain ⟨_, hmem, _, hleased⟩ := leasedOperation?_eq_some hop
  have hstate := (Operation.leasedTo_eq_true hleased).1
  have hwrite : ∃ f, OpMove db now op (.report target request) (f op) ∧
      (f op).steps = op.steps ∧ Work now (db.write op (.report target request) f) reported := by
    cases target with
    | proxy => exact reportProxyStep_write hkeys hmem hstate hdeadline hreported
    | engineSlot key =>
      have hverify : request.step ≠ .verifyProxy := by
        simpa [TargetKey.kind, targetStepCompatible] using hcompatible
      exact reportSlotStep_write hkeys hmem hstate hdeadline hverify hreported
  obtain ⟨f, hmove, hsteps, hwork⟩ := hwrite
  obtain ⟨hkind, hidentity⟩ := instructionTargetKey_eq_ok htarget
  exact .report rfl rfl (by simp [hrequest, hkind, hidentity]) hnone hop hmove hsteps hwork hdb

theorem resume_work (h : resume db id = .ok (db', op)) : Work now db db' := by
  simp only [resume, bind_eq_ok, required_eq_ok] at h
  obtain ⟨found, hfind, _, _, h⟩ := h
  obtain ⟨hmem, rfl, hpaused⟩ := Table.found hfind
  rw [← (Prod.mk.inj (pure_eq_ok.1 h)).1]
  exact (calm_write hkeys hmem (.resume hpaused) rfl rfl).work

theorem cancel_work (h : cancel db id = .ok (db', op)) : Work now db db' := by
  simp only [cancel, bind_eq_ok] at h
  obtain ⟨cancelled, hcancel, _, _, h⟩ := h
  rw [← (Prod.mk.inj (pure_eq_ok.1 h)).1]
  exact (enterRestoration_calm hkeys (.inr rfl) hcancel).work

end

theorem putAgentPolicy_work {request : PutAgentPolicyRequest} {policy : AgentPolicy}
    (h : putAgentPolicy db request = .ok (db', policy)) : Work now db db' := by
  simp only [putAgentPolicy, bind_eq_ok, ensure_eq_ok, required_eq_ok] at h
  obtain ⟨_, _, _, _, _, _, h⟩ := h
  have hpolicy : ∀ policy, Calm now db
      { db with nodePresent := true, agentPolicy := some policy } :=
    fun policy => calm_of_other (.policy policy) rfl rfl rfl rfl rfl
  split at h
  · rw [← (Prod.mk.inj (pure_eq_ok.1 h)).1]
    refine .head (hpolicy _) (calm_writeAll (f := (·.fencePolicy)) ?_ fun o => rfl).work
    intro op _ hp
    exact .fencePolicy (by simpa using hp)
  · rw [← (Prod.mk.inj (pure_eq_ok.1 h)).1]
    exact (hpolicy _).work

theorem attest_work {principal : String} {attestation : Attestation} {conditions : List Condition}
    (h : attest db now principal attestation = .ok (db', conditions)) : Work now db db' := by
  simp only [attest, bind_eq_ok, ensure_eq_ok] at h
  obtain ⟨_, _, h⟩ := h
  rw [← (Prod.mk.inj (pure_eq_ok.1 h)).1]
  exact (calm_of_other (.attest _) rfl rfl rfl rfl rfl).work

theorem finalizeDeployment_work (hkeys : Keys db) {request : FinalizeDeploymentRequest}
    (h : finalizeDeployment db request actor = .ok (db', row)) : Work now db db' := by
  simp only [finalizeDeployment, bind_eq_ok, ensure_eq_ok, required_eq_ok] at h
  obtain ⟨_, _, stored, hstored, _, _, _, _, _, _, _, _, h⟩ := h
  split at h
  next hempty =>
    simp only [bind_eq_ok, ensure_eq_ok] at h
    obtain ⟨_, hunbound, _, _, h⟩ := h
    rw [← (Prod.mk.inj (pure_eq_ok.1 h)).1]
    refine (calm_of_other (.finalize _ request.resolvedReleaseDigest ?_) rfl rfl rfl rfl rfl).work
    intro d hd hp
    obtain ⟨hmem, hrow⟩ := found hstored
    obtain rfl := eq_of_nodup_key hkeys.revisions hd hmem
      ((of_decide_eq_true hp).2.trans hrow.2.symm)
    exact ⟨hunbound, hempty⟩
  · rw [← (Prod.mk.inj (pure_eq_ok.1 h)).1]
    exact .refl _ _

theorem abandonDeployment_work {attemptToken : String}
    (h : abandonDeployment db attemptToken actor = .ok (db', row)) : Work now db db' := by
  simp only [abandonDeployment, bind_eq_ok, ensure_eq_ok, required_eq_ok] at h
  obtain ⟨stored, hstored, _, _, h⟩ := h
  split at h
  · rw [← (Prod.mk.inj (pure_eq_ok.1 h)).1]
    exact .refl _ _
  · simp only [bind_eq_ok, ensure_eq_ok, required_eq_ok] at h
    obtain ⟨_, hunbound, _, heffect, result, _, h⟩ := h
    rw [← (Prod.mk.inj (pure_eq_ok.1 h)).1]
    exact (calm_of_other (.abandon (List.mem_of_find?_eq_some hstored) hunbound heffect)
      rfl rfl rfl rfl rfl).work

theorem submit_transaction {reply : Reply} {request : SubmitOperationRequest} {freshId : String}
    {result : Operation} (h : submit contract db now actor request freshId = .ok (db', result)) :
    Transaction now call db db' reply := by
  obtain rfl | ⟨op, hrecorded, rfl⟩ | ⟨op, rollout, hsubmitted, rfl⟩ := submit_eq_ok h
  · exact .work (.refl _ _)
  · exact .insert (.record hrecorded) rfl rfl rfl
  · exact .insert (.submit hsubmitted) (insertSubmitted_operations db op)
      (insertSubmitted_frame db op).1 (insertSubmitted_frame db op).2

/-- A call that fails is rolled back, and its transaction is empty. -/
theorem settle_transaction {α : Type} {reply : α → Reply} {result : Except Status (Db × α)}
    (h : ∀ db' value, result = .ok (db', value) → Transaction now call db db' (reply value)) :
    Transaction now call db (settle db reply result).1 (settle db reply result).2 := by
  cases result with
  | error status => exact .work (.refl _ _)
  | ok value => exact h _ _ rfl

/-- Every call is a transaction. -/
theorem step_transaction (contract : DeploymentContract) (now : Time) (hkeys : Keys db)
    (call : Call) :
    Transaction now call db (step contract db now call).1 (step contract db now call).2 := by
  unfold step
  split
  · exact .work (.refl _ _)
  cases call with
  | beginDeployment request actor =>
    refine settle_transaction fun db' row h => ?_
    obtain rfl | ⟨hrow, rfl⟩ := beginDeployment_eq_ok h
    · exact .work (.refl _ _)
    · exact .work (calm_of_other (.allocate hrow) rfl rfl rfl rfl rfl).work
  | beginRollback toRevision attemptToken actor =>
    refine settle_transaction fun db' row h => ?_
    obtain rfl | ⟨hrow, rfl⟩ := beginRollback_eq_ok h
    · exact .work (.refl _ _)
    · exact .work (calm_of_other (.allocate hrow) rfl rfl rfl rfl rfl).work
  | finalizeDeployment request actor =>
    exact settle_transaction fun db' row h => .work <| finalizeDeployment_work hkeys h
  | abandonDeployment attemptToken actor =>
    exact settle_transaction fun db' row h => .work <| abandonDeployment_work h
  | submit request actor freshId =>
    exact settle_transaction fun db' result h => submit_transaction h
  | claim instanceId agent =>
    exact settle_transaction fun db' reply h => .work <| claim_work hkeys h
  | renew request agent =>
    exact settle_transaction fun db' reply h => .work <| renew_work hkeys h
  | reportObservation receivedAt request agent =>
    exact settle_transaction fun db' reply h => reportObservation_transaction hkeys h
  | reportStep request agent =>
    exact settle_transaction fun db' reply h => reportStep_transaction hkeys h
  | resume id => exact settle_transaction fun db' reply h => .work <| resume_work hkeys h
  | cancel id => exact settle_transaction fun db' reply h => .work <| cancel_work hkeys h
  | putAgentPolicy request =>
    exact settle_transaction fun db' reply h => .work <| putAgentPolicy_work h
  | attest principal attestation =>
    exact settle_transaction fun db' reply h => .work <| attest_work h
  | publish evidence =>
    obtain ⟨hoperations, hreceipts, hobservations, -⟩ := publish_frame db evidence
    exact .publish (.publish evidence) hoperations hreceipts hobservations


theorem claim_of_step
    (h : (step contract db now (.claim instanceId agent)).2 = .instruction (some instruction)) :
    claim db now instanceId agent =
      .ok ((step contract db now (.claim instanceId agent)).1, some instruction) := by
  change (settle db .instruction (claim db now instanceId agent)).2 = _ at h
  change claim db now instanceId agent =
    .ok ((settle db .instruction (claim db now instanceId agent)).1, some instruction)
  cases hclaim : claim db now instanceId agent with
  | error status =>
    rw [hclaim] at h
    cases h
  | ok value =>
    rw [hclaim] at h
    obtain ⟨db', reply⟩ := value
    cases h
    rfl

/-- What each move keeps, given unique keys, a chain of moves keeps. -/
theorem Moves.keeps (hmove : ∀ db db', Keys db → P db → Move now db db' → P db')
    (hkeys : Keys db) (hdb : P db) (h : Moves now db db') : P db' := by
  induction h with
  | refl => exact hdb
  | tail hprev hlast ih => exact hmove _ _ (Moves.keys hprev hkeys) ih hlast

section

variable (h : QuietMove now db db')
include h

theorem QuietMove.ids (hkeys : Keys db) :
    db'.operations.map (·.operationId) = db.operations.map (·.operationId) := by
  cases h with
  | write hmem hmove => exact write_ids hkeys hmem hmove
  | writeAll p f hmove => exact writeAll_ids hmove
  | other hmove hoperations => rw [hoperations]

theorem QuietMove.frame : db'.receipts = db.receipts ∧ db'.observations = db.observations ∧
      db'.engines = db.engines ∧ db'.nodeId = db.nodeId := by
  cases h with
  | write => exact write_frame _ _ _ _
  | writeAll => exact ⟨rfl, rfl, rfl, rfl⟩
  | other hmove hoperations hreceipts hobservations hengines hnode =>
    exact ⟨hreceipts, hobservations, hengines, hnode⟩

/-- A quiet move changes an operation by one of its moves that is not a report. -/
theorem QuietMove.mem_operations (hkeys : Keys db) (ho : o ∈ db'.operations) : o ∈ db.operations ∨
      ∃ old ∈ db.operations, ∃ effect, effect.isReport = false ∧ OpMove db now old effect o := by
  cases h with
  | @write op effect f hmem hmove hquiet =>
    rcases (mem_write_operations hkeys hmem).1 ho with rfl | ⟨hold, _⟩
    · exact .inr ⟨op, hmem, effect, hquiet, hmove⟩
    · exact .inl hold
  | writeAll p f hmove =>
    rcases updated ho with ⟨old, hold, hp, rfl⟩ | ⟨hold, -⟩
    · exact .inr ⟨old, hold, .plain, rfl, hmove old hold hp⟩
    · exact .inl hold
  | other hmove hoperations => exact .inl (hoperations ▸ ho)

end

theorem Work.keeps (hmove : ∀ db db', Keys db → P db → QuietMove now db db' → P db')
    (hkeys : Keys db) (hdb : P db) (h : Work now db db') : Keys db' ∧ P db' := by
  have hquiet : ∀ {a b : Db}, Keys a ∧ P a → QuietMove now a b → Keys b ∧ P b :=
    fun ha hab => ⟨hab.move.keys ha.1, hmove _ _ ha.1 ha.2 hab⟩
  have hcalms : ∀ {a b : Db}, Keys a ∧ P a → Calms now a b → Keys b ∧ P b := by
    intro a b ha hcalms
    induction hcalms with
    | refl => exact ha
    | tail _ hlast ih => exact hquiet ih hlast.quiet
  obtain ⟨before, after, hbefore, hreconcile, hafter⟩ := h
  have hfirst := hcalms ⟨hkeys, hdb⟩ hbefore
  have hmiddle : Keys after ∧ P after := by
    obtain rfl | ⟨op, hmem, rfl | ⟨effect, f, hplain, hwrite, rfl⟩⟩ := hreconcile
    · exact hfirst
    · exact hfirst
    · exact hquiet hfirst (.write hmem hwrite hplain)
  exact hcalms hmiddle hafter

theorem Work.receipts (hkeys : Keys db) (h : Work now db db') : db'.receipts = db.receipts :=
  (h.keeps (P := fun mid => mid.receipts = db.receipts)
    (fun _ _ _ hmid hquiet => hquiet.frame.1.trans hmid) hkeys rfl).2

theorem Work.observations (hkeys : Keys db)
    (h : Work now db db') : db'.observations = db.observations :=
  (h.keeps (P := fun mid => mid.observations = db.observations)
    (fun _ _ _ hmid hquiet => hquiet.frame.2.1.trans hmid) hkeys rfl).2

/-- What every move keeps that inserts no operation, a transaction keeps, unless it is one
insertion. -/
theorem Transaction.keeps {reply : Reply} (hmove : ∀ db db', Keys db → P db → Move now db db' →
      db'.operations.map (·.operationId) = db.operations.map (·.operationId) → P db')
    (hkeys : Keys db) (hdb : P db) (h : Transaction now call db db' reply) :
    (∃ op, Move now db db' ∧ db'.operations = db.operations ++ [op]) ∨ P db' := by
  have hwork : ∀ {a b : Db}, Keys a → P a → Work now a b → P b := fun ha hP hab =>
    (hab.keeps (fun _ _ hkeys hP hquiet =>
      hmove _ _ hkeys hP hquiet.move (hquiet.ids hkeys)) ha hP).2
  cases h with
  | insert hinsert hoperations => exact .inl ⟨_, hinsert, hoperations⟩
  | publish hpublish hoperations =>
    exact .inr (hmove _ _ hkeys hdb hpublish (by rw [hoperations]))
  | work hdone => exact .inr (hwork hkeys hdb hdone)
  | @observe receivedAt request agent op result hcall hreply hleased hdeadline hdone =>
    have hfirst : Move now db (db.recordObservation (request.row receivedAt)) := .observe _
    exact .inr (hwork (hfirst.keys hkeys) (hmove _ _ hkeys hdb hfirst
      (by rw [recordObservation_eq])) hdone)
  | @report request agent target op result f mid hcall hreply htarget hnone hleased hreport
      hsteps hdone hdb' =>
      have hmem := (leasedOperation?_eq_some hleased).2.1
      have hfirst : Move now db (db.write op (.report target request) f) :=
        .write hmem hreport
      have hkeys' := hfirst.keys hkeys
      have hmid := hwork hkeys'
        (hmove _ _ hkeys hdb hfirst (write_ids hkeys hmem hreport)) hdone
      rw [hdb']
      exact .inr (hmove _ _ (Moves.keys hdone.moves hkeys') hmid (.receipt _) rfl)

theorem Transaction.ids {reply : Reply} (hkeys : Keys db) (h : Transaction now call db db' reply) :
    (∃ op, Move now db db' ∧ db'.operations = db.operations ++ [op]) ∨
      db'.operations.map (·.operationId) = db.operations.map (·.operationId) :=
  h.keeps (P := fun mid => mid.operations.map (·.operationId) =
    db.operations.map (·.operationId)) (fun _ _ _ hmid _ hids => hids.trans hmid) hkeys rfl

/-- What the empty database has and every move keeps holds in every reachable state. -/
theorem db_invariant (hempty : P (Db.empty nodeId))
    (hmove : ∀ now db db', Keys db → P db → Move now db db' → P db')
    (hreach : Reachable contract nodeId w) : Keys w.db ∧ P w.db := by
  refine Reach.invariant (P := fun w => Keys w.db ∧ P w.db) ?_ ?_ hreach
  · exact ⟨⟨List.nodup_nil, List.nodup_nil⟩, hempty⟩
  · rintro w input _ _ ⟨hkeys, hdb⟩
    have hmoves : Moves input.now w.db (w.next contract input).db :=
      (step_transaction contract input.now hkeys input.call).moves
    exact ⟨Moves.keys hmoves hkeys, Moves.keeps (hmove input.now) hkeys hdb hmoves⟩

theorem reachable_keys (hreach : Reachable contract nodeId w) : Keys w.db :=
  (db_invariant (P := fun _ => True) trivial (fun _ _ _ _ _ _ => trivial) hreach).1

/-- An operation is an old one, newly submitted, or recorded as done. -/
theorem new_operation (hkeys : Keys w.db) (input : Input)
    (ho : o ∈ (w.next contract input).db.operations) :
    (∃ old ∈ w.db.operations, old.operationId = o.operationId) ∨
      (∃ rollout, Submitted w.db input.now o rollout) ∨ Recorded w.db o := by
  rcases (step_transaction contract input.now hkeys input.call).ids hkeys with
    ⟨_, hmove, _⟩ | hids
  · rcases hmove.mem_operations hkeys ho with hold | ⟨old, hold, _, hwrite⟩ | hnew
    · exact .inl ⟨o, hold, rfl⟩
    · exact .inl ⟨old, hold, hwrite.frame.operationId.symm⟩
    · exact .inr hnew
  · exact .inl (exists_of_column hids ho)

/-- An operation as it is rewritten along a run. -/
def Operation.Writes : Operation → Operation → Prop :=
  ReflTransGen fun a b => ∃ db now effect, OpMove db now a effect b

theorem Operation.Writes.frame {op' : Operation} (h : op.Writes op') : Operation.Frame op op' := by
  induction h with
  | refl => exact .refl _
  | tail _ hlast ih =>
    obtain ⟨_, _, _, hmove⟩ := hlast
    exact ih.trans hmove.frame

theorem Operation.Writes.phase_forward {op' : Operation} (h : op.Writes op')
    (hphase : op'.phase = .forward) : op.phase = .forward := by
  induction h with
  | refl => exact hphase
  | tail _ hlast ih =>
    obtain ⟨_, _, _, hmove⟩ := hlast
    exact ih (hmove.phase_forward hphase)

theorem Moves.persists (h : Moves now db db') (hkeys : Keys db) (ho : o ∈ db.operations) :
    ∃ o' ∈ db'.operations, o.Writes o' := by
  induction h with
  | refl => exact ⟨o, ho, .refl⟩
  | tail hprev hlast ih =>
    obtain ⟨mid, hmid, hwrites⟩ := ih
    obtain ⟨o', ho', rfl | ⟨effect, hmove⟩⟩ :=
      hlast.persists (Moves.keys hprev hkeys) hmid
    · exact ⟨o', ho', hwrites⟩
    · exact ⟨o', ho', hwrites.tail ⟨_, _, effect, hmove⟩⟩

theorem next_moves (hkeys : Keys w.db) (input : Input) :
    Moves input.now w.db (w.next contract input).db :=
  (step_transaction contract input.now hkeys input.call).moves

theorem next_persists (contract : DeploymentContract) (hkeys : Keys w.db) (input : Input)
    (ho : o ∈ w.db.operations) : ∃ o' ∈ (w.next contract input).db.operations, o.Writes o' :=
  Moves.persists (next_moves hkeys input) hkeys ho

/-- Along every run an operation stays, rewritten by its moves. -/
theorem reach_persists {ok : World → Input → Prop} {start : World} (hkeys : Keys start.db)
    (ho : o ∈ start.db.operations) (hreach : Reach (World.next contract) ok start w) :
    Keys w.db ∧ ∃ o' ∈ w.db.operations, o.Writes o' := by
  induction hreach with
  | refl => exact ⟨hkeys, o, ho, .refl⟩
  | @step w input _ _ ih =>
    obtain ⟨hkeys, mid, hmid, hwrites⟩ := ih
    obtain ⟨o', ho', hnext⟩ := next_persists contract hkeys input hmid
    exact ⟨Moves.keys (next_moves hkeys input) hkeys, o', ho', hwrites.trans hnext⟩

theorem Moves.operations_keep {P : Operation → Prop}
    (hsubmit : ∀ db op rollout, Keys db → Submitted db now op rollout → P op)
    (hrecord : ∀ db op, Recorded db op → P op)
    (hmove : ∀ db op effect op', OpMove db now op effect op' → P op → P op') (hkeys : Keys db)
    (hdb : ∀ op ∈ db.operations, P op) (h : Moves now db db') : ∀ op ∈ db'.operations, P op := by
  refine Moves.keeps (P := fun db => ∀ op ∈ db.operations, P op) ?_ hkeys hdb h
  intro db db' hkeys hdb hstep op hop
  rcases hstep.mem_operations hkeys hop with
    hold | ⟨old, hold, effect, hwrite⟩ | ⟨rollout, hsubmitted⟩ | hrecorded
  · exact hdb op hold
  · exact hmove db old effect op hwrite (hdb old hold)
  · exact hsubmit db op rollout hkeys hsubmitted
  · exact hrecord db op hrecorded

/-- What holds of new operations and is kept by each of their moves holds of all operations in every
reachable state. -/
theorem operations_invariant {P : Operation → Prop}
    (hsubmit : ∀ db now op rollout, Keys db → Submitted db now op rollout → P op)
    (hrecord : ∀ db op, Recorded db op → P op)
    (hmove : ∀ db now op effect op', OpMove db now op effect op' → P op → P op')
    (hreach : Reachable contract nodeId w) : ∀ op ∈ w.db.operations, P op := by
  refine (db_invariant (P := fun db => ∀ op ∈ db.operations, P op) ?_ ?_ hreach).2
  · intro op hop
    cases hop
  · intro now db db' hkeys hdb hstep
    exact Moves.operations_keep (fun db op rollout => hsubmit db now op rollout) hrecord
      (fun db op effect op' => hmove db now op effect op') hkeys hdb (.single hstep)

end Wruntime.Manager
