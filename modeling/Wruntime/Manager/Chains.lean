import Wruntime.Manager.Moves

/-!
Chains of moves. A move writes one operation with its effect, allocates or settles a deployment, or
stores what was reported; a call will be a chain of them. Moves keep the keys of the tables, and an
operation is written in place: it never leaves the table.
-/

namespace Wruntime.Manager

open Fallible Table Runs Relation

variable {db db' : Db} {o op : Operation} {f : Operation → Operation} {effect : Effect}
  {d row : Deployment} {actor id : String} {now : Time}

/-- A new deployment: pending, under the next revision, while none is staged and its attempt token
is not used. -/
structure Allocation (db : Db) (row : Deployment) : Prop where
  unstaged : db.targetRevision = none
  token : db.deploymentByToken? row.attemptToken = none
  revision : row.revision = db.nextRevision
  state : row.state = .pending
  abandoned : row.abandoned = false
  operationId : row.operationId = none
  slots : row.inventory.slots.Nodup ∨
    ∃ prior ∈ db.deployments, row.inventory = prior.inventory

/-- The rollout a submission derives from the node's inventories. -/
structure Submitted (db : Db) (now : Time) (op : Operation) (rollout : Rollout) : Prop where
  fresh : db.operation? op.operationId = none
  idle : ∀ other ∈ db.operations, other.isActive = false
  keys : validEngineKeys op.engines
  row : ∃ actor request policy digest, op =
    { newOperation op.operationId actor request policy now rollout.source.revision
        (initialProgress rollout.proxyFirst rollout.source
          ⟨request.targetRevision, request.bundleDigest, request.resolvedReleaseDigest⟩)
        rollout.engineTargets with
      targetRevisionDigest := digest }
  action : rollout.action = op.action
  specified : op.action ≠ .unspecified
  source : deploymentInventory db db.currentRevision =
    .ok (rollout.source, rollout.sourceSlots)
  target : op.action.isDeployment = true →
    deploymentInventory db op.targetRevision = .ok (rollout.target, rollout.targetSlots) ∧
    (∃ d ∈ db.deployments, d.revision = op.targetRevision ∧ d.isOpen = true) ∧
    (op.action = .deployment → op.targetRevision ≠ db.currentRevision)
  finalized : op.action.isDeployment = true →
    ∃ d ∈ db.deployments, d.revision = op.targetRevision ∧ d.finalized = true
  restart : op.action = .restart →
    ∃ slot ∈ rollout.sourceSlots, rollout.targetSlots = [slot] ∧
      rollout.target = rollout.source

/-- An operation that has nothing to do is recorded as done when it is submitted. -/
structure Recorded (db : Db) (op : Operation) : Prop where
  fresh : db.operation? op.operationId = none
  state : op.state = .succeeded
  phase : op.phase = .complete
  committed : op.committed = true
  lease : op.lease = none
  epoch : op.leaseEpoch = 0
  target : op.targetRevision = db.currentRevision
  committedRow : ∃ d ∈ db.deployments, d.revision = db.currentRevision

/-- One write of a transaction: of an operation by its moves, or of the other tables. -/
inductive Move (now : Time) : Db → Db → Prop
  | write {db : Db} {op : Operation} {effect : Effect} {f : Operation → Operation}
      (hmem : op ∈ db.operations) (hmove : OpMove db now op effect (f op)) :
      Move now db (db.write op effect f)
  | writeAll {db : Db} (p : Operation → Bool) (f : Operation → Operation)
      (hmove : ∀ op ∈ db.operations, p op = true → OpMove db now op .plain (f op)) :
      Move now db { db with operations := updateWhere p f db.operations }
  | observe {db : Db} (row : SlotObservation) : Move now db (db.recordObservation row)
  | receipt {db : Db} (row : Receipt) :
      Move now db { db with receipts := db.receipts ++ [row] }
  | allocate {db : Db} {row : Deployment} (hrow : Allocation db row) :
      Move now db (db.allocate row)
  | finalize {db : Db} (p : Deployment → Bool) (digest : String)
      (hopen : ∀ d ∈ db.deployments, p d = true → d.operationId = none ∧
        d.resolvedReleaseDigest = "") :
      Move now db { db with
        deployments := updateWhere p (fun d => { d with resolvedReleaseDigest := digest })
          db.deployments }
  | abandon {db : Db} {row : Deployment} (hmem : row ∈ db.deployments)
      (hunbound : row.operationId = none) (heffect : db.hasEffect row.revision = false) :
      Move now db (db.abandon row.revision)
  | submit {db : Db} {op : Operation} {rollout : Rollout}
      (hsubmitted : Submitted db now op rollout) :
      Move now db (db.insertSubmitted op)
  | record {db : Db} {op : Operation} (hrecorded : Recorded db op) :
      Move now db { db with nodePresent := true, operations := db.operations ++ [op] }
  | policy {db : Db} (policy : AgentPolicy) :
      Move now db { db with nodePresent := true, agentPolicy := some policy }
  | attest {db : Db} (attestations : List Attestation) :
      Move now db { db with attestations := attestations }
  | publish {db : Db} (evidence : ClusterEvidence) : Move now db (publish db evidence)

abbrev Moves (now : Time) : Db → Db → Prop := ReflTransGen (Move now)

/-- The primary keys of the operation and deployment tables. -/
structure Keys (db : Db) : Prop where
  operations : (db.operations.map (·.operationId)).Nodup
  revisions : (db.deployments.map (·.revision)).Nodup

@[simp] theorem commit_operations (db : Db) (revision : Revision) :
    (db.commit revision).operations = db.operations := by
  unfold Db.commit
  split <;> rfl

@[simp] theorem applyEffect_operations (db : Db) (op : Operation) (effect : Effect) :
    (db.applyEffect op effect).operations = db.operations := by
  cases effect <;> simp [Db.applyEffect, switchAuthority]

theorem write_operations (db : Db) (op : Operation) (effect : Effect) (f : Operation → Operation) :
    (db.write op effect f).operations =
      updateWhere (fun o => o.operationId = op.operationId) f db.operations := by
  simp [Db.write, Db.modifyOperation]

theorem mem_modifyOperation (hkeys : Keys db) (hmem : op ∈ db.operations) :
    o ∈ (db.modifyOperation op.operationId f).operations ↔
      o = f op ∨ o ∈ db.operations ∧ o.operationId ≠ op.operationId :=
  mem_updateWhere_key hkeys.operations hmem

theorem mem_write_operations (hkeys : Keys db) (hmem : op ∈ db.operations) :
    o ∈ (db.write op effect f).operations ↔
      o = f op ∨ o ∈ db.operations ∧ o.operationId ≠ op.operationId := by
  rw [write_operations]
  exact mem_modifyOperation hkeys hmem

theorem write_frame (db : Db) (op : Operation) (effect : Effect) (f : Operation → Operation) :
    (db.write op effect f).receipts = db.receipts ∧
      (db.write op effect f).observations = db.observations ∧
      (db.write op effect f).engines = db.engines ∧ (db.write op effect f).nodeId = db.nodeId := by
  cases effect with
  | commit =>
    simp only [Db.write, Db.modifyOperation, Db.applyEffect, Db.commit]
    split <;> exact ⟨rfl, rfl, rfl, rfl⟩
  | _ => exact ⟨rfl, rfl, rfl, rfl⟩

theorem foldl_max_ge (revisions : List Revision) (start : Revision) :
    start ≤ revisions.foldl max start ∧ ∀ r ∈ revisions, r ≤ revisions.foldl max start := by
  induction revisions generalizing start with
  | nil => simp
  | cons head tail ih =>
    obtain ⟨hstart, htail⟩ := ih (max start head)
    refine ⟨(le_max_left _ _).trans hstart, ?_⟩
    intro r hr
    rcases List.mem_cons.1 hr with rfl | hr
    · exact (le_max_right _ _).trans hstart
    · exact htail r hr

theorem lt_nextRevision (hd : d ∈ db.deployments) : d.revision < db.nextRevision :=
  Nat.lt_succ_of_le
    ((foldl_max_ge (db.deployments.map (·.revision)) 0).2 _ (List.mem_map_of_mem hd))

section

variable (db : Db)

@[simp] theorem commit_revisions (revision : Revision) :
    (db.commit revision).deployments.map (·.revision) = db.deployments.map (·.revision) := by
  unfold Db.commit
  exact map_updateWhere (f := fun d : Deployment => { d with state := .succeeded })
    (fun _ => rfl) db.deployments

@[simp] theorem applyEffect_revisions (op : Operation) (effect : Effect) :
    (db.applyEffect op effect).deployments.map (·.revision) = db.deployments.map (·.revision) := by
  cases effect <;> simp [Db.applyEffect, switchAuthority]

theorem recordObservation_eq (row : SlotObservation) : db.recordObservation row =
    { db with observations := (db.recordObservation row).observations } := by
  unfold Db.recordObservation
  split
  · split <;> rfl
  · rfl

@[simp] theorem insertSubmitted_operations (op : Operation) :
    (db.insertSubmitted op).operations = db.operations ++ [op] := by
  unfold Db.insertSubmitted
  split <;> rfl

theorem insertSubmitted_frame (op : Operation) : (db.insertSubmitted op).receipts = db.receipts ∧
      (db.insertSubmitted op).observations = db.observations := by
  unfold Db.insertSubmitted
  split <;> exact ⟨rfl, rfl⟩

end

theorem nodup_insertSubmitted_revisions (op : Operation)
    (hnodup : (db.deployments.map (·.revision)).Nodup) :
    ((db.insertSubmitted op).deployments.map (·.revision)).Nodup := by
  unfold Db.insertSubmitted
  simp only
  split
  · exact nodup_updateWhere hnodup fun _ => rfl
  · exact hnodup

theorem write_ids (hkeys : Keys db) (hmem : op ∈ db.operations)
    (hmove : OpMove db now op effect (f op)) :
    (db.write op effect f).operations.map (·.operationId) = db.operations.map (·.operationId) := by
  rw [write_operations]
  simp only [updateWhere, List.map_map]
  refine List.map_congr_left fun o ho => ?_
  rcases eq_or_key_ne hkeys.operations ho hmem with rfl | hid
  · simpa using hmove.frame.operationId
  · simp [hid]

theorem writeAll_ids {p : Operation → Bool}
    (hmove : ∀ op ∈ db.operations, p op = true → OpMove db now op .plain (f op)) :
    (updateWhere p f db.operations).map (·.operationId) = db.operations.map (·.operationId) := by
  simp only [updateWhere, List.map_map]
  refine List.map_congr_left fun o ho => ?_
  by_cases hp : p o = true
  · simpa [hp] using (hmove o ho hp).frame.operationId
  · simp [hp]

/-- Operation ids and revisions stay unique. -/
theorem Move.keys (h : Move now db db') (hkeys : Keys db) : Keys db' := by
  cases h with
  | @write op effect f hmem hmove =>
    refine ⟨?_, ?_⟩
    · rw [write_ids hkeys hmem hmove]
      exact hkeys.operations
    · have hdeployments : (db.write op effect f).deployments.map (·.revision) =
          db.deployments.map (·.revision) := applyEffect_revisions db op effect
      rw [hdeployments]
      exact hkeys.revisions
  | writeAll p f hmove =>
    exact ⟨writeAll_ids hmove ▸ hkeys.operations, hkeys.revisions⟩
  | observe row =>
    rw [recordObservation_eq]
    exact ⟨hkeys.operations, hkeys.revisions⟩
  | @allocate row hrow =>
    refine ⟨hkeys.operations, nodup_snoc hkeys.revisions fun d hd => ?_⟩
    rw [hrow.revision]
    exact Nat.ne_of_lt (lt_nextRevision hd)
  | finalize p digest hopen | abandon hmem hunbound heffect =>
    exact ⟨hkeys.operations, nodup_updateWhere hkeys.revisions fun _ => rfl⟩
  | @submit op rollout hsubmitted =>
    refine ⟨?_, ?_⟩
    · rw [insertSubmitted_operations]
      exact nodup_snoc hkeys.operations fun _ ho hid => not_found hsubmitted.fresh ho hid
    · exact nodup_insertSubmitted_revisions op hkeys.revisions
  | record hrecorded =>
    exact ⟨nodup_snoc hkeys.operations fun _ ho hid => not_found hrecorded.fresh ho hid,
      hkeys.revisions⟩
  | publish evidence =>
    unfold Wruntime.Manager.publish
    split
    · exact ⟨hkeys.operations, nodup_updateWhere hkeys.revisions fun _ => rfl⟩
    · exact hkeys
  | _ => exact ⟨hkeys.operations, hkeys.revisions⟩

theorem Moves.keys (h : Moves now db db') (hkeys : Keys db) : Keys db' := by
  induction h with
  | refl => exact hkeys
  | tail _ hmove ih => exact hmove.keys ih

theorem publish_frame (db : Db) (evidence : ClusterEvidence) :
    (publish db evidence).operations = db.operations ∧
      (publish db evidence).receipts = db.receipts ∧
      (publish db evidence).observations = db.observations ∧
      (publish db evidence).authorities = db.authorities ∧
      (publish db evidence).currentRevision = db.currentRevision := by
  unfold publish
  split <;> exact ⟨rfl, rfl, rfl, rfl, rfl⟩

/-- An operation of the new state was there, was written, or was just inserted. -/
theorem Move.mem_operations (h : Move now db db') (hkeys : Keys db) (ho : o ∈ db'.operations) :
    o ∈ db.operations ∨ (∃ old ∈ db.operations, ∃ effect, OpMove db now old effect o) ∨
      (∃ rollout, Submitted db now o rollout) ∨ Recorded db o := by
  cases h with
  | @write op effect f hmem hmove =>
    rcases (mem_write_operations hkeys hmem).1 ho with rfl | ⟨hold, _⟩
    · exact .inr (.inl ⟨op, hmem, effect, hmove⟩)
    · exact .inl hold
  | writeAll p f hmove =>
    rcases updated ho with ⟨old, hold, hp, rfl⟩ | ⟨hold, -⟩
    · exact .inr (.inl ⟨old, hold, .plain, hmove old hold hp⟩)
    · exact .inl hold
  | observe row =>
    rw [recordObservation_eq] at ho
    exact .inl ho
  | @submit op rollout hsubmitted =>
    rw [insertSubmitted_operations] at ho
    rcases mem_snoc.1 ho with hold | rfl
    · exact .inl hold
    · exact .inr (.inr (.inl ⟨rollout, hsubmitted⟩))
  | record hrecorded =>
    rcases mem_snoc.1 ho with hold | rfl
    · exact .inl hold
    · exact .inr (.inr (.inr hrecorded))
  | publish evidence =>
    rw [(publish_frame db evidence).1] at ho
    exact .inl ho
  | _ => exact .inl ho

/-- An operation stays in the table and is written by its own moves only. -/
theorem Move.persists (h : Move now db db') (hkeys : Keys db) (ho : o ∈ db.operations) :
    ∃ o' ∈ db'.operations, o' = o ∨ ∃ effect, OpMove db now o effect o' := by
  cases h with
  | @write op effect f hmem hmove =>
    rcases eq_or_key_ne hkeys.operations ho hmem with rfl | hid
    · exact ⟨f o, (mem_write_operations hkeys hmem).2 (.inl rfl), .inr ⟨effect, hmove⟩⟩
    · exact ⟨o, (mem_write_operations hkeys hmem).2 (.inr ⟨ho, hid⟩), .inl rfl⟩
  | writeAll p f hmove =>
    refine ⟨_, mem_updateWhere.2 ⟨o, ho, rfl⟩, ?_⟩
    split
    next hp => exact .inr ⟨.plain, hmove o ho hp⟩
    next => exact .inl rfl
  | observe row =>
    rw [recordObservation_eq]
    exact ⟨o, ho, .inl rfl⟩
  | submit hsubmitted =>
    rw [insertSubmitted_operations]
    exact ⟨o, List.mem_append_left _ ho, .inl rfl⟩
  | record hrecorded => exact ⟨o, List.mem_append_left _ ho, .inl rfl⟩
  | publish evidence =>
    rw [(publish_frame db evidence).1]
    exact ⟨o, ho, .inl rfl⟩
  | _ => exact ⟨o, ho, .inl rfl⟩

theorem operation?_of_mem (hkeys : Keys db)
    (hmem : op ∈ db.operations) : db.operation? op.operationId = some op :=
  find?_key_of_mem hkeys.operations hmem

theorem mem_of_operation?
    (h : db.operation? id = some op) : op ∈ db.operations ∧ op.operationId = id :=
  found h

theorem deployment?_of_mem (hkeys : Keys db)
    (hmem : d ∈ db.deployments) : db.deployment? d.revision = some d :=
  find?_key_of_mem hkeys.revisions hmem

theorem mem_of_deployment? {revision : Revision}
    (h : db.deployment? revision = some d) : d ∈ db.deployments ∧ d.revision = revision :=
  found h

end Wruntime.Manager
