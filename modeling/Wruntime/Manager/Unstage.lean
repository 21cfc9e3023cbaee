import Wruntime.Manager.Authority

/-!
Releasing a staged revision. Only `abandon_deployment` unstages a revision without committing it,
and it refuses a row bound to an operation. An operation that ends failed or cancelled leaves its
revision staged and bound, so nothing can be allocated on the node afterwards.
-/

namespace Wruntime.Manager

open Fallible Table Runs

variable {db : Db} {row : Deployment}

/-- The allocating principal can abandon the row, and then no allocation is refused as staged. -/
def Releasable (contract : DeploymentContract) (db : Db) (row : Deployment) : Prop :=
  ∃ db' result,
    abandonDeployment db row.attemptToken row.allocatedBy = .ok (db', result) ∧
    db'.targetRevision = none ∧
    (∀ request actor nodeId staged,
      beginDeployment contract db' request actor ≠ .error (alreadyStaged nodeId staged)) ∧
    ∀ toRevision attemptToken actor nodeId staged,
      beginRollback contract db' toRevision attemptToken actor ≠
        .error (alreadyStaged nodeId staged)

theorem beginDeployment_unstaged {contract : DeploymentContract}
    (h : db.targetRevision = none) {request : BeginDeploymentRequest} {actor : String}
    {status : Status} (herror : beginDeployment contract db request actor = .error status) :
    status.code ≠ .failedPrecondition := by
  simp only [beginDeployment, h, bind_eq_error, required_eq_error, mapError_eq_error] at herror
  obtain ⟨_, rfl⟩ | ⟨_, _, ⟨_, _, rfl⟩ | ⟨_, _, herror⟩⟩ := herror
  · rintro ⟨⟩
  · rintro ⟨⟩
  split at herror
  all_goals simp only [bind_eq_error, ensure_eq_error, mapError_eq_error] at herror
  · obtain ⟨_, rfl⟩ | ⟨_, _, hdone⟩ := herror
    · rintro ⟨⟩
    · cases hdone
  · obtain ⟨_, _, rfl⟩ | ⟨_, _, ⟨_, rfl⟩ | ⟨_, _, hdone⟩⟩ := herror
    · rintro ⟨⟩
    · rintro ⟨⟩
    · cases hdone

theorem beginRollback_unstaged {contract : DeploymentContract} (h : db.targetRevision = none)
    {toRevision : Revision} {attemptToken actor : String} {status : Status}
    (herror : beginRollback contract db toRevision attemptToken actor = .error status) :
    status.code ≠ .failedPrecondition := by
  simp only [beginRollback, h, bind_eq_error, ensure_eq_error] at herror
  obtain ⟨_, rfl⟩ | ⟨_, _, herror⟩ := herror
  · rintro ⟨⟩
  split at herror
  all_goals
    simp only [bind_eq_error, ensure_eq_error, required_eq_error, mapError_eq_error] at herror
  · obtain ⟨_, rfl⟩ | ⟨_, _, hdone⟩ := herror
    · rintro ⟨⟩
    · cases hdone
  · obtain ⟨_, rfl⟩ | ⟨_, _, ⟨_, rfl⟩ | ⟨_, _, ⟨_, _, rfl⟩ | ⟨_, _, ⟨_, rfl⟩ | ⟨_, _, hdone⟩⟩⟩⟩ :=
      herror
    · rintro ⟨⟩
    · rintro ⟨⟩
    · rintro ⟨⟩
    · rintro ⟨⟩
    · cases hdone

theorem deploymentByToken?_of_mem (h : Staging db)
    (hrow : row ∈ db.deployments) : db.deploymentByToken? row.attemptToken = some row :=
  find?_key_of_mem h.tokens hrow

theorem Sound.hasEffect_of_staged (h : Sound db) (hkeys : Keys db)
    (hidle : ∀ op ∈ db.operations, op.isActive = false)
    (hrow : row ∈ db.deployments) (hopen : row.isOpen = true)
    (hunbound : row.operationId = none) : db.hasEffect row.revision = false := by
  rw [Db.hasEffect, Bool.or_eq_false_iff]
  refine ⟨?_, ?_⟩
  · rw [List.any_eq_false]
    intro engine hengine hregistered
    obtain ⟨m, hm, hmatch⟩ := (Option.any_eq_true _ _).1 hregistered
    simp only [decide_eq_true_eq] at hmatch
    obtain ⟨d, hd, hrevision, hbound⟩ := h.staging.registered engine hengine m hm hmatch.1
    obtain rfl := eq_of_nodup_key hkeys.revisions hd hrow (hrevision.trans hmatch.2)
    simp [hunbound] at hbound
  · rw [List.any_eq_false]
    intro a ha hmatch
    simp only [Db.authoritative, List.mem_filter] at ha
    have hrevision : a.revision = row.revision := by simpa using hmatch
    have hpair : (a.engineSlot, a.revision) ∈ db.authorityPairs := ⟨a, ha.1, ha.2, rfl, rfl⟩
    rw [h.pairs_of_idle hidle] at hpair
    -- Authority is at the current revision, whose row is not open any more.
    rcases h.staging.current with hzero | ⟨d, hd, hcurrent, _, hstate⟩
    · exact h.staging.positive row hrow (hrevision.symm.trans (hpair.1.trans hzero))
    · obtain rfl := eq_of_nodup_key hkeys.revisions hd hrow
        (hcurrent.trans (hpair.1.symm.trans hrevision))
      simp [Deployment.isOpen, hstate] at hopen

theorem abandonDeployment_staged (h : Sound db) (hkeys : Keys db)
    (hidle : ∀ op ∈ db.operations, op.isActive = false) (hrow : row ∈ db.deployments)
    (hopen : row.isOpen = true) (hunbound : row.operationId = none) :
    ∃ result, abandonDeployment db row.attemptToken row.allocatedBy =
      .ok (db.abandon row.revision, result) := by
  have heffect := h.hasEffect_of_staged hkeys hidle hrow hopen hunbound
  have hmove : Move 0 db (db.abandon row.revision) := .abandon hrow hunbound heffect
  obtain ⟨row', hrow', hkeeps⟩ := hmove.rowsKept row hrow
  have hfound := deployment?_of_mem (hmove.keys hkeys) hrow'
  rw [hkeeps.revision] at hfound
  refine ⟨row', ?_⟩
  simp only [abandonDeployment, bind_eq_ok, required_eq_ok, ensure_eq_ok]
  refine ⟨row, deploymentByToken?_of_mem h.staging hrow, ⟨⟩, rfl, ?_⟩
  rw [(h.staging.opened row hrow hopen).2]
  simp only [Bool.false_eq_true, if_false, bind_eq_ok, required_eq_ok, ensure_eq_ok]
  exact ⟨⟨⟩, hunbound, ⟨⟩, heffect, row', hfound, rfl⟩

theorem abandonDeployment_bound (h : Staging db) (hrow : row ∈ db.deployments)
    (hopen : row.isOpen = true) (hbound : row.operationId.isSome = true) :
    abandonDeployment db row.attemptToken row.allocatedBy = .error (.failedPrecondition
      "a submitted allocation must be cancelled through its operation") := by
  obtain ⟨id, hid⟩ := Option.isSome_iff_exists.1 hbound
  simp [abandonDeployment, deploymentByToken?_of_mem h hrow, (h.opened row hrow hopen).2, hid,
    required, ensure, bind, Except.bind]

/-- On an idle node the staged revision can be released by the principal that
allocated it exactly as long as no deployment or rollback to it has been
submitted. -/
theorem staged_releasable_iff_unsubmitted {contract : DeploymentContract} {nodeId : String}
    {w : World} (hreach : Reachable contract nodeId w)
    (hidle : ∀ op ∈ w.db.operations, op.isActive = false) {r : Revision}
    (hstaged : w.db.targetRevision = some r) : ∃ row ∈ w.db.deployments, row.revision = r ∧
      (Releasable contract w.db row ↔
        ∀ op ∈ w.db.operations, op.action.isDeployment = true → op.targetRevision ≠ r) := by
  obtain ⟨hkeys, hsound⟩ := reachable_sound hreach
  obtain ⟨row, hrow, hrevision, hopen⟩ := hsound.staging.staged r hstaged
  refine ⟨row, hrow, hrevision, ?_⟩
  have hbound := hsound.staging.bound row hrow
  rw [hrevision] at hbound
  constructor
  · rintro ⟨db', result, hok, _⟩ op hop haction htarget
    rw [abandonDeployment_bound hsound.staging hrow hopen
      (hbound.2 ⟨op, hop, haction, htarget⟩)] at hok
    cases hok
  · intro hunsubmitted
    have hunbound : row.operationId = none := by
      by_contra hsome
      obtain ⟨op, hop, haction, htarget⟩ := hbound.1 (Option.isSome_iff_ne_none.2 hsome)
      exact hunsubmitted op hop haction htarget
    obtain ⟨result, hok⟩ := abandonDeployment_staged hsound hkeys hidle hrow hopen hunbound
    have hnone : (w.db.abandon row.revision).targetRevision = none := by
      simp [Db.abandon, hstaged, hrevision]
    refine ⟨_, result, hok, hnone, ?_, ?_⟩
    · intro request actor nodeId staged herror
      exact beginDeployment_unstaged hnone herror rfl
    · intro toRevision attemptToken actor nodeId staged herror
      exact beginRollback_unstaged hnone herror rfl

open Sample

theorem staged_releasable_before_submission :
    let w := run ((submitted ["blue"]).take 4)
    w.db.targetRevision = some 1 ∧ ∃ row ∈ w.db.deployments, row.revision = 1 ∧
      Releasable contract w.db row := by
  intro w
  have hfacts : w.db.targetRevision = some 1 ∧ w.db.operations = [] := by decide +kernel
  obtain ⟨row, hrow, hrevision, hiff⟩ := staged_releasable_iff_unsubmitted
    (reachable_run _) (w := w) (by rw [hfacts.2]; simp) hfacts.1
  exact ⟨hfacts.1, row, hrow, hrevision, hiff.2 (by rw [hfacts.2]; simp)⟩

/-- The operation of a staged revision is cancelled before any effect. Its revision can then neither
be abandoned nor replaced. -/
theorem cancelled_deployment_stays_staged :
    let w := run (submitted ["blue"] ++
      [⟨seconds 6, .cancel "8d7eef43-aa27-83b7-a7ab-2a5f124cae58"⟩, claimed 7])
    Reachable contract "node-a" w ∧
      w.db.operations.map (·.state) = [.cancelled] ∧ w.db.targetRevision = some 1 ∧
      (∃ row ∈ w.db.deployments, row.revision = 1 ∧ row.attemptToken = "attempt-1" ∧
        row.allocatedBy = "alice") ∧
      abandonDeployment w.db "attempt-1" "alice" = .error (.failedPrecondition
        "a submitted allocation must be cancelled through its operation") ∧
      beginDeployment contract w.db
          ⟨"node-a", "attempt-2", bundle, some (inventory ["blue"])⟩ "alice" =
        .error (alreadyStaged "node-a" 1) := by
  refine ⟨reachable_run _, ?_⟩
  decide +kernel

end Wruntime.Manager
