import Wruntime.Manager.Authority

/-!
How the deployments of a node succeed each other. A closed row stays closed and stays a success or
not; a success comes only from the commit of the staged row, which becomes the current one; and a
committed row was submitted, as a submitted one was finalized.
-/

namespace Wruntime.Manager

open Fallible Table Runs

structure Staged (db : Db) : Prop where
  committed : ∀ d ∈ db.deployments, d.state = .succeeded → d.operationId.isSome = true
  submitted : ∀ d ∈ db.deployments, d.operationId.isSome = true → d.finalized = true

structure Deployment.Ages (d d' : Deployment) : Prop where
  revision : d'.revision = d.revision
  closed : d.isOpen = false → d'.isOpen = false ∧ (d'.state = .succeeded ↔ d.state = .succeeded)
  opened : d.isOpen = true →
    d'.isOpen = true ∨ d'.abandoned = true ∨ d.operationId.isSome = true
  finalized : d.finalized = true → d'.finalized = true
  abandoned : d.abandoned = true → d'.abandoned = true

structure Succession (db db' : Db) : Prop where
  rows : ∀ d ∈ db.deployments, ∃ d' ∈ db'.deployments, d.Ages d'
  successes : ∀ d' ∈ db'.deployments, d'.state = .succeeded →
    d'.revision ≠ db'.currentRevision →
    ∃ d ∈ db.deployments, d.revision = d'.revision ∧ d.state = .succeeded
  current : db'.currentRevision = db.currentRevision ∨
    db.targetRevision = some db'.currentRevision ∧ ∃ d ∈ db.deployments,
      d.revision = db'.currentRevision ∧ d.isOpen = true ∧ d.operationId.isSome = true

theorem Deployment.Ages.refl (d : Deployment) : d.Ages d :=
  ⟨rfl, fun h => ⟨h, Iff.rfl⟩, .inl, id, id⟩

theorem Deployment.closed_of_succeeded {d : Deployment} (h : d.state = .succeeded) :
    d.isOpen = false := by
  simp [Deployment.isOpen, h]

section Writes

variable {db db' : Db} {now : Time}
variable {p : Deployment → Bool} {f : Deployment → Deployment}

theorem Succession.of_eq (hdeployments : db'.deployments = db.deployments)
    (hcurrent : db'.currentRevision = db.currentRevision) : Succession db db' := by
  refine ⟨?_, ?_, .inl hcurrent⟩
  · intro d hd
    exact ⟨d, hdeployments ▸ hd, .refl d⟩
  · intro d hd hstate _
    exact ⟨d, hdeployments ▸ hd, rfl, hstate⟩

theorem Succession.of_updateWhere (hages : ∀ d ∈ db.deployments, p d = true → d.Ages (f d))
    (hstate : ∀ d ∈ db.deployments, p d = true → (f d).state = .succeeded → d.state = .succeeded)
    (hdeployments : db'.deployments = updateWhere p f db.deployments)
    (hcurrent : db'.currentRevision = db.currentRevision) : Succession db db' := by
  refine ⟨?_, ?_, .inl hcurrent⟩
  · rw [hdeployments]
    exact exists_updated .refl hages
  · intro d' hd' hsucceeded _
    rw [hdeployments] at hd'
    rcases updated hd' with ⟨d, hd, hp, rfl⟩ | ⟨hd, -⟩
    · exact ⟨d, hd, (hages d hd hp).revision.symm, hstate d hd hp hsucceeded⟩
    · exact ⟨d', hd, rfl, hsucceeded⟩

theorem Succession.commit (hstaging : Staging db) {revision : Revision}
    (hstaged : db.targetRevision = some revision) (htargets : db.Targets revision) :
    Succession db (db.commit revision) := by
  have hbound : ∀ d ∈ db.deployments, d.revision = revision → d.operationId.isSome = true := by
    rintro d hd rfl
    exact (hstaging.bound d hd).2 htargets
  rw [Db.commit_of_staged hstaged]
  refine ⟨?_, ?_, .inr ⟨hstaged, ?_⟩⟩
  · refine exists_updated .refl fun d hd hp => ?_
    obtain ⟨hrevision, hopen⟩ := of_decide_eq_true hp
    refine ⟨rfl, ?_, fun _ => .inr (.inr (hbound d hd hrevision)), id, id⟩
    intro hclosed
    cases hopen.symm.trans hclosed
  · intro d' hd' hsucceeded hother
    rcases updated hd' with ⟨d, hd, hp, rfl⟩ | ⟨hd, -⟩
    · exact absurd (of_decide_eq_true hp).1 hother
    · exact ⟨d', hd, rfl, hsucceeded⟩
  · obtain ⟨d, hd, hrevision, hopen⟩ := hstaging.staged revision hstaged
    exact ⟨d, hd, hrevision, hopen, hbound d hd hrevision⟩

theorem Succession.allocate {row : Deployment} (hrow : Allocation db row) :
    Succession db (db.allocate row) := by
  refine ⟨?_, ?_, .inl rfl⟩
  · intro d hd
    exact ⟨d, List.mem_append_left _ hd, .refl d⟩
  · intro d hd hstate _
    rcases mem_snoc.mp hd with hd | rfl
    · exact ⟨d, hd, rfl, hstate⟩
    · cases hrow.state.symm.trans hstate

theorem Succession.abandon (hkeys : Keys db) (hstages : Staged db) {row : Deployment}
    (hmem : row ∈ db.deployments) (hunbound : row.operationId = none) :
    Succession db (db.abandon row.revision) := by
  have hsame {d : Deployment} (hd : d ∈ db.deployments)
      (hp : decide (d.revision = row.revision) = true) : d = row :=
    eq_of_nodup_key hkeys.revisions hd hmem (of_decide_eq_true hp)
  refine .of_updateWhere (p := fun d => d.revision = row.revision)
    (f := fun d => { d with
      state := .failed
      failureDetail := "staged allocation abandoned"
      abandoned := true }) ?_ ?_ rfl rfl
  · intro d hd hp
    refine ⟨rfl, ?_, fun _ => .inr (.inl rfl), id, fun _ => rfl⟩
    intro _
    refine ⟨rfl, ⟨nofun, ?_⟩⟩
    intro hsucceeded
    -- A success was submitted, and this row was not.
    have hbound := hstages.committed d hd hsucceeded
    rw [hsame hd hp, hunbound] at hbound
    cases hbound
  · intro d _ _ hstate
    cases hstate

theorem Succession.submitted (op : Operation) : Succession db (db.insertSubmitted op) := by
  unfold Db.insertSubmitted
  split
  · exact .of_updateWhere (f := fun d => { d with operationId := some op.operationId })
      (fun d _ _ => ⟨rfl, fun h => ⟨h, Iff.rfl⟩, .inl, id, id⟩) (fun _ _ _ h => h) rfl rfl
  · exact .of_eq rfl rfl

theorem Succession.publish (evidence : ClusterEvidence) :
    Succession db (Manager.publish db evidence) := by
  unfold Manager.publish
  split
  · refine .of_updateWhere (f := fun d => { d with state := .active }) ?_ ?_ rfl rfl
    · intro d _ hp
      have hpending : d.state = .pending := (of_decide_eq_true hp).2.1
      refine ⟨rfl, ?_, fun _ => .inl rfl, id, id⟩
      intro hclosed
      simp [Deployment.isOpen, hpending] at hclosed
    · intro d _ _ hstate
      cases hstate
  · exact .of_eq rfl rfl

theorem commit_owned (hstaging : Staging db) {op : Operation} (hlife : op.Lifecycle)
    (hmem : op ∈ db.operations) {op' : Operation} (hmove : OpMove db now op .commit op') :
    db.targetRevision = some op.targetRevision ∧ db.Targets op.targetRevision := by
  have haction := hlife.isDeployment hmove.active hmove.commit_eq.1
  exact ⟨hstaging.owned op hmem hmove.active haction, op, hmem, haction, rfl⟩

theorem Move.succession (hkeys : Keys db) (hstaging : Staging db) (hstages : Staged db)
    (hlife : ∀ op ∈ db.operations, op.Lifecycle) (h : Move now db db') : Succession db db' := by
  cases h with
  | @write op effect f hmem hmove =>
    cases effect with
    | commit =>
      obtain ⟨hstaged, htargets⟩ := commit_owned hstaging (hlife op hmem) hmem hmove
      obtain ⟨hrows, hsuccesses, hcurrent⟩ := Succession.commit hstaging hstaged htargets
      exact ⟨hrows, hsuccesses, hcurrent⟩
    | _ => exact .of_eq rfl rfl
  | observe row =>
    rw [recordObservation_eq]
    exact .of_eq rfl rfl
  | allocate hrow => exact .allocate hrow
  | finalize p digest hopen =>
    refine .of_updateWhere (f := fun d => { d with resolvedReleaseDigest := digest }) ?_
      (fun _ _ _ hstate => hstate) rfl rfl
    intro d hd hp
    refine ⟨rfl, fun h => ⟨h, Iff.rfl⟩, .inl, ?_, id⟩
    intro hfinalized
    simp [Deployment.finalized, (hopen d hd hp).2] at hfinalized
  | abandon hmem hunbound heffect => exact .abandon hkeys hstages hmem hunbound
  | submit hsubmitted => exact .submitted _
  | publish evidence => exact .publish evidence
  | _ => exact .of_eq rfl rfl

theorem Staged.of_eq (h : Staged db) (hdeployments : db'.deployments = db.deployments) :
    Staged db' := by
  refine ⟨?_, ?_⟩
  · intro d hd
    exact h.committed d (hdeployments ▸ hd)
  · intro d hd
    exact h.submitted d (hdeployments ▸ hd)

theorem Staged.of_updateWhere (h : Staged db)
    (hcommitted : ∀ d ∈ db.deployments, p d = true → (f d).state = .succeeded →
      (f d).operationId.isSome = true)
    (hsubmitted : ∀ d ∈ db.deployments, p d = true → (f d).operationId.isSome = true →
      (f d).finalized = true) (hdeployments : db'.deployments = updateWhere p f db.deployments) :
    Staged db' := by
  refine ⟨?_, ?_⟩ <;> rw [hdeployments]
  · exact forall_updateWhere h.committed hcommitted
  · exact forall_updateWhere h.submitted hsubmitted

theorem Move.staged (hkeys : Keys db) (hstaging : Staging db) (hstages : Staged db)
    (hlife : ∀ op ∈ db.operations, op.Lifecycle) (h : Move now db db') : Staged db' := by
  cases h with
  | @write op effect f hmem hmove =>
    cases effect with
    | commit =>
      obtain ⟨-, htargets⟩ := commit_owned hstaging (hlife op hmem) hmem hmove
      refine hstages.of_updateWhere (p := fun d => d.revision = op.targetRevision ∧ d.isOpen)
        (f := fun d => { d with state := .succeeded }) ?_ (fun d hd _ => hstages.submitted d hd) rfl
      intro d hd hp _
      rw [hstaging.bound d hd, (of_decide_eq_true hp).1]
      exact htargets
    | _ => exact hstages.of_eq rfl
  | observe row =>
    rw [recordObservation_eq]
    exact hstages.of_eq rfl
  | @allocate row hrow =>
    refine ⟨?_, ?_⟩ <;> intro d hd <;> rcases mem_snoc.mp hd with hd | rfl
    · exact hstages.committed d hd
    · simp [hrow.state]
    · exact hstages.submitted d hd
    · simp [hrow.operationId]
  | finalize p digest hopen =>
    refine hstages.of_updateWhere (f := fun d => { d with resolvedReleaseDigest := digest })
      (fun d hd _ => hstages.committed d hd) ?_ rfl
    intro d hd hp hbound
    simp [(hopen d hd hp).1] at hbound
  | @abandon row hmem hunbound heffect =>
    refine hstages.of_updateWhere (p := fun d => d.revision = row.revision)
      (f := fun d => { d with
        state := .failed
        failureDetail := "staged allocation abandoned"
        abandoned := true }) ?_ (fun d hd _ => hstages.submitted d hd) rfl
    intro d _ _ hstate
    cases hstate
  | @submit op rollout hsubmitted =>
    unfold Db.insertSubmitted
    split
    next haction =>
      refine hstages.of_updateWhere (p := fun d => d.revision = op.targetRevision)
        (f := fun d => { d with operationId := some op.operationId }) (fun _ _ _ _ => rfl) ?_ rfl
      intro d hd hp _
      obtain ⟨row, hrow, hrevision, hfinalized⟩ := hsubmitted.finalized haction
      rw [eq_of_nodup_key hkeys.revisions hd hrow ((of_decide_eq_true hp).trans hrevision.symm)]
      exact hfinalized
    · exact hstages.of_eq rfl
  | publish evidence =>
    unfold Manager.publish
    split
    · refine hstages.of_updateWhere (f := fun d => { d with state := .active }) ?_
        (fun d hd _ => hstages.submitted d hd) rfl
      intro d _ _ hstate
      cases hstate
    · exact hstages.of_eq rfl
  | _ => exact hstages.of_eq rfl

end Writes

theorem reachable_staged {contract : DeploymentContract} {nodeId : String} {w : World}
    (hreach : Reachable contract nodeId w) : Sound w.db ∧ Staged w.db := by
  refine (db_invariant (P := fun db => Sound db ∧ Staged db) ⟨sound_empty nodeId, nofun, nofun⟩
    ?_ hreach).2
  rintro now db db' hkeys ⟨hsound, hstages⟩ hmove
  exact ⟨hmove.sound hkeys hsound, hmove.staged hkeys hsound.staging hstages
    fun op hop => (hsound.operations op hop).1⟩

/-- Deployments, staging and operations fit together after any calls. -/
theorem run_tables_fit (contract : DeploymentContract) (nodeId : String) (inputs : List Input) :
    let db := (runAll (World.next contract) (World.initial nodeId) inputs).db
    Keys db ∧ Staging db ∧ Staged db := by
  have hreach : Reachable contract nodeId _ := reach_runAll_any _ inputs
  exact ⟨reachable_keys hreach, (reachable_staged hreach).1.staging, (reachable_staged hreach).2⟩

section Outcomes

variable {db db' : Db}

/-- The closed deployments, and which of them succeeded. -/
def Db.outcomes (db : Db) : List (Revision × Bool) :=
  (db.deployments.filter (!·.isOpen)).map fun d => (d.revision, d.state = .succeeded)

theorem Succession.outcomes (h : Succession db db') : db.outcomes ⊆ db'.outcomes := by
  intro outcome houtcome
  obtain ⟨d, hd, rfl⟩ := List.mem_map.1 houtcome
  obtain ⟨hd, hclosed⟩ := List.mem_filter.1 hd
  obtain ⟨d', hd', hages⟩ := h.rows d hd
  obtain ⟨hclosed', hstate⟩ := hages.closed (by simpa using hclosed)
  exact List.mem_map.2 ⟨d', by simp [hd', hclosed'], by simp [hages.revision, hstate]⟩

/-- How a deployment ended is never forgotten and never revised. -/
theorem outcomes_permanent (contract : DeploymentContract) (nodeId : String)
    (inputs later : List Input) :
    (runAll (World.next contract) (World.initial nodeId) inputs).db.outcomes ⊆
      (runAll (World.next contract) (World.initial nodeId) (inputs ++ later)).db.outcomes := by
  have hreach : Reachable contract nodeId _ := reach_runAll_any _ inputs
  rw [runAll_append]
  generalize runAll (World.next contract) (World.initial nodeId) inputs = w at *
  refine (Reach.invariant (P := fun v => Reachable contract nodeId v ∧
    w.db.outcomes ⊆ v.db.outcomes) ⟨hreach, List.Subset.refl _⟩ ?_ (reach_runAll_any w later)).2
  rintro v input _ _ ⟨hv, hsub⟩
  have hkeys := reachable_keys hv
  refine ⟨.step hv trivial, (Moves.keeps
    (P := fun db => (Sound db ∧ Staged db) ∧ w.db.outcomes ⊆ db.outcomes) ?_ hkeys
    ⟨reachable_staged hv, hsub⟩ (step_transaction contract input.now hkeys input.call).moves).2⟩
  rintro db db' hkeys ⟨⟨hsound, hstaged⟩, hsub⟩ hmove
  have hlife := fun op hop => (hsound.operations op hop).1
  exact ⟨⟨hmove.sound hkeys hsound, hmove.staged hkeys hsound.staging hstaged hlife⟩,
    List.Subset.trans hsub (hmove.succession hkeys hsound.staging hstaged hlife).outcomes⟩

end Outcomes

end Wruntime.Manager
