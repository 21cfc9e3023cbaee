import Wruntime.Manager.Lifecycle

/-!
The deployments of a node over whole runs. At most one row is open, the staged one; a row is bound
to an operation exactly when one was submitted for its revision, and can then only be committed. The
active operation, if any, owns the staged revision.
-/

namespace Wruntime.Manager

open Fallible Table Runs

variable {db db' : Db} {p : Deployment → Bool} {f : Deployment → Deployment} {now : Time}
  {revision : Revision} {op : Operation} {row : Deployment}

/-- Some deployment or rollback to the revision has been recorded. -/
def Db.Targets (db : Db) (revision : Revision) : Prop :=
  ∃ op ∈ db.operations, op.action.isDeployment = true ∧ op.targetRevision = revision

/-- The deployments, the staged and current revision and the operations of a
node fit together. -/
structure Staging (db : Db) : Prop where
  positive : ∀ d ∈ db.deployments, d.revision ≠ 0
  tokens : (db.deployments.map (·.attemptToken)).Nodup
  staged : ∀ r, db.targetRevision = some r →
    ∃ d ∈ db.deployments, d.revision = r ∧ d.isOpen = true
  opened : ∀ d ∈ db.deployments, d.isOpen = true →
    db.targetRevision = some d.revision ∧ d.abandoned = false
  bound : ∀ d ∈ db.deployments, d.operationId.isSome = true ↔ db.Targets d.revision
  known : ∀ op ∈ db.operations, op.action.isDeployment = true →
    ∃ d ∈ db.deployments, d.revision = op.targetRevision
  current : db.currentRevision = 0 ∨ ∃ d ∈ db.deployments,
    d.revision = db.currentRevision ∧ d.operationId.isSome = true ∧ d.state = .succeeded
  registered : ∀ e ∈ db.engines, ∀ m, e.deployment = some m → m.nodeId = db.nodeId →
    ∃ d ∈ db.deployments, d.revision = m.revision ∧ d.operationId.isSome = true
  owned : ∀ op ∈ db.operations, op.isActive = true → op.action.isDeployment = true →
    db.targetRevision = some op.targetRevision
  single : ∀ a ∈ db.operations, a.isActive = true → ∀ b ∈ db.operations,
    b.isActive = true → a = b

structure Deployment.Keeps (d d' : Deployment) : Prop where
  revision : d'.revision = d.revision
  attemptToken : d'.attemptToken = d.attemptToken
  inventory : d'.inventory = d.inventory
  bound : d.operationId.isSome = true → d'.operationId.isSome = true

theorem Deployment.Keeps.refl (d : Deployment) : d.Keeps d := ⟨rfl, rfl, rfl, id⟩

theorem Deployment.Keeps.trans {a b c : Deployment} (hab : a.Keeps b) (hbc : b.Keeps c) :
    a.Keeps c :=
  ⟨hbc.revision.trans hab.revision, hbc.attemptToken.trans hab.attemptToken,
    hbc.inventory.trans hab.inventory, fun h => hbc.bound (hab.bound h)⟩

def Db.RowsKept (db db' : Db) : Prop :=
  ∀ d ∈ db.deployments, ∃ d' ∈ db'.deployments, d.Keeps d'

theorem Db.RowsKept.of_eq (h : db'.deployments = db.deployments) : db.RowsKept db' :=
  fun d hd => ⟨d, h ▸ hd, .refl d⟩

theorem Db.RowsKept.trans {a b c : Db} (hab : a.RowsKept b) (hbc : b.RowsKept c) :
    a.RowsKept c := by
  intro d hd
  obtain ⟨mid, hmid, hfirst⟩ := hab d hd
  obtain ⟨d', hd', hrest⟩ := hbc mid hmid
  exact ⟨d', hd', hfirst.trans hrest⟩

theorem Db.RowsKept.of_updateWhere (hf : ∀ d : Deployment, d.Keeps (f d))
    (h : db'.deployments = updateWhere p f db.deployments) : db.RowsKept db' := by
  unfold Db.RowsKept
  rw [h]
  exact exists_updated .refl fun d _ _ => hf d

theorem commit_rowsKept (db : Db) (revision : Revision) : db.RowsKept (db.commit revision) :=
  .of_updateWhere (f := fun d => { d with state := .succeeded })
    (fun _ => ⟨rfl, rfl, rfl, id⟩) rfl

theorem applyEffect_rowsKept (db : Db) (op : Operation) (effect : Effect) :
    db.RowsKept (db.applyEffect op effect) := by
  cases effect with
  | commit => exact commit_rowsKept db op.targetRevision
  | _ => exact .of_eq rfl

theorem publish_rowsKept (db : Db) (evidence : ClusterEvidence) :
    db.RowsKept (publish db evidence) := by
  unfold publish
  split
  · exact .of_updateWhere (f := fun d => { d with state := .active })
      (fun _ => ⟨rfl, rfl, rfl, id⟩) rfl
  · exact .of_eq rfl

theorem insertSubmitted_rowsKept (db : Db) (op : Operation) :
    db.RowsKept (db.insertSubmitted op) := by
  unfold Db.insertSubmitted
  split
  · exact .of_updateWhere (f := fun d => { d with operationId := some op.operationId })
      (fun _ => ⟨rfl, rfl, rfl, fun _ => rfl⟩) rfl
  · exact .of_eq rfl

theorem Move.rowsKept (h : Move now db db') : db.RowsKept db' := by
  cases h with
  | @write op effect f hmem hmove => exact applyEffect_rowsKept db op effect
  | observe row =>
    rw [recordObservation_eq]
    exact .of_eq rfl
  | @allocate row hrow =>
    intro d hd
    exact ⟨d, List.mem_append_left _ hd, .refl d⟩
  | finalize p digest hopen =>
    exact .of_updateWhere (f := fun d => { d with resolvedReleaseDigest := digest })
      (fun _ => ⟨rfl, rfl, rfl, id⟩) rfl
  | @abandon row hmem hunbound heffect =>
    exact .of_updateWhere (f := fun d => { d with
        state := .failed
        failureDetail := "staged allocation abandoned"
        abandoned := true }) (fun _ => ⟨rfl, rfl, rfl, id⟩) rfl
  | @submit op rollout hsubmitted => exact insertSubmitted_rowsKept db op
  | publish evidence => exact publish_rowsKept db evidence
  | _ => exact .of_eq rfl

theorem Moves.rowsKept (h : Moves now db db') : db.RowsKept db' := by
  induction h with
  | refl => exact .of_eq rfl
  | tail _ hlast ih => exact ih.trans hlast.rowsKept

theorem Db.RowsKept.known (h : db.RowsKept db')
    (hknown : ∃ d ∈ db.deployments, d.revision = revision) :
    ∃ d ∈ db'.deployments, d.revision = revision := by
  obtain ⟨d, hd, hrevision⟩ := hknown
  obtain ⟨d', hd', hkeeps⟩ := h d hd
  exact ⟨d', hd', hkeeps.revision.trans hrevision⟩

theorem Db.RowsKept.bound (h : db.RowsKept db')
    (hbound : ∃ d ∈ db.deployments, d.revision = revision ∧ d.operationId.isSome = true) :
    ∃ d ∈ db'.deployments, d.revision = revision ∧ d.operationId.isSome = true := by
  obtain ⟨d, hd, hrevision, hsome⟩ := hbound
  obtain ⟨d', hd', hkeeps⟩ := h d hd
  exact ⟨d', hd', hkeeps.revision.trans hrevision, hkeeps.bound hsome⟩

section Writes

section

variable (h : Staging db)
include h

theorem Staging.writes (hkeys : Keys db')
    (hnode : db'.nodeId = db.nodeId) (hdeployments : db'.deployments = db.deployments)
    (htarget : db'.targetRevision = db.targetRevision)
    (hcurrent : db'.currentRevision = db.currentRevision) (hengines : db'.engines = db.engines)
    (hfrom : ∀ o' ∈ db'.operations, ∃ o ∈ db.operations, Operation.Frame o o' ∧
      (o'.isActive = true → o.isActive = true))
    (hkept : ∀ o ∈ db.operations, ∃ o' ∈ db'.operations, Operation.Frame o o') : Staging db' := by
  refine ⟨?_, ?_, ?_, ?_, ?_, ?_, ?_, ?_, ?_, ?_⟩
  · rw [hdeployments]
    exact h.positive
  · rw [hdeployments]
    exact h.tokens
  · rw [hdeployments, htarget]
    exact h.staged
  · rw [hdeployments, htarget]
    exact h.opened
  · rw [hdeployments]
    intro d hd
    rw [h.bound d hd]
    constructor
    · rintro ⟨o, ho, haction, hrevision⟩
      obtain ⟨o', ho', hframe⟩ := hkept o ho
      exact ⟨o', ho', by rw [hframe.action, haction], hframe.targetRevision.trans hrevision⟩
    · rintro ⟨o', ho', haction, hrevision⟩
      obtain ⟨o, ho, hframe, _⟩ := hfrom o' ho'
      exact ⟨o, ho, by rw [← hframe.action, haction], hframe.targetRevision.symm.trans hrevision⟩
  · rw [hdeployments]
    intro o' ho' haction
    obtain ⟨o, ho, hframe, _⟩ := hfrom o' ho'
    rw [hframe.targetRevision]
    exact h.known o ho (by rw [← hframe.action, haction])
  · rw [hdeployments, hcurrent]
    exact h.current
  · rw [hdeployments, hengines, hnode]
    exact h.registered
  · intro o' ho' hactive haction
    obtain ⟨o, ho, hframe, hwas⟩ := hfrom o' ho'
    rw [htarget, hframe.targetRevision]
    exact h.owned o ho (hwas hactive) (by rw [← hframe.action, haction])
  · intro a' ha' haactive b' hb' hbactive
    obtain ⟨a, ha, haframe, hawas⟩ := hfrom a' ha'
    obtain ⟨b, hb, hbframe, hbwas⟩ := hfrom b' hb'
    have hsame := h.single a ha (hawas haactive) b hb (hbwas hbactive)
    refine eq_of_nodup_key hkeys.operations ha' hb' ?_
    rw [haframe.operationId, hbframe.operationId, hsame]

theorem Staging.modifyOperation (hkeys : Keys db) (hmem : op ∈ db.operations)
    {effect : Effect} {f : Operation → Operation} (hmove : OpMove db now op effect (f op)) :
    Staging (db.modifyOperation op.operationId f) := by
  have hplain : ∀ o, o ∈ (db.modifyOperation op.operationId f).operations ↔
      o = f op ∨ o ∈ db.operations ∧ o.operationId ≠ op.operationId := fun o =>
    mem_modifyOperation hkeys hmem
  have hids : Keys (db.modifyOperation op.operationId f) := by
    refine ⟨?_, hkeys.revisions⟩
    have hwrite := ((Move.write hmem hmove).keys hkeys).operations
    rw [write_operations] at hwrite
    exact hwrite
  refine h.writes hids rfl rfl rfl rfl rfl ?_ ?_
  · intro o' ho'
    rcases (hplain o').1 ho' with rfl | ⟨hold, _⟩
    · exact ⟨op, hmem, hmove.frame, fun _ => hmove.active⟩
    · exact ⟨o', hold, .refl _, id⟩
  · intro o ho
    rcases eq_or_key_ne hkeys.operations ho hmem with rfl | hid
    · exact ⟨f o, (hplain _).2 (.inl rfl), hmove.frame⟩
    · exact ⟨o, (hplain _).2 (.inr ⟨ho, hid⟩), .refl _⟩

theorem Staging.other (hnode : db'.nodeId = db.nodeId)
    (hdeployments : db'.deployments = db.deployments)
    (htarget : db'.targetRevision = db.targetRevision)
    (hcurrent : db'.currentRevision = db.currentRevision) (hengines : db'.engines = db.engines)
    (hoperations : db'.operations = db.operations) (hkeys : Keys db') : Staging db' := by
  refine h.writes hkeys hnode hdeployments htarget hcurrent hengines ?_ ?_
  · intro o ho
    exact ⟨o, hoperations ▸ ho, .refl _, id⟩
  · intro o ho
    exact ⟨o, hoperations ▸ ho, .refl _⟩

theorem Staging.tokens_updateWhere (hf : ∀ d : Deployment, d.Keeps (f d)) :
    ((updateWhere p f db.deployments).map (·.attemptToken)).Nodup := by
  rw [map_updateWhere fun d => (hf d).attemptToken]
  exact h.tokens

theorem Staging.positive_updateWhere (hf : ∀ d : Deployment, d.Keeps (f d)) :
    ∀ d ∈ updateWhere p f db.deployments, d.revision ≠ 0 := by
  refine forall_updateWhere h.positive fun d hd _ => ?_
  rw [(hf d).revision]
  exact h.positive d hd

end

theorem Db.commit_of_staged (hstaged : db.targetRevision = some revision) :
    db.commit revision = { db with
      currentRevision := revision
      targetRevision := none
      deployments := updateWhere (fun d => d.revision = revision ∧ d.isOpen)
        (fun d => { d with state := .succeeded }) db.deployments } := by
  simp [Db.commit, hstaged]

section

variable (h : Staging db)
include h

theorem Staging.commit (hidle : ∀ op ∈ db.operations, op.isActive = false)
    (hstaged : db.targetRevision = some revision) (htargets : db.Targets revision) :
    Staging (db.commit revision) := by
  obtain ⟨row, hrow, hrevision, hopen⟩ := h.staged revision hstaged
  have hbound : row.operationId.isSome = true := by
    rw [h.bound row hrow, hrevision]
    exact htargets
  have hkeeps : ∀ d : Deployment, d.Keeps { d with state := .succeeded } :=
    fun _ => ⟨rfl, rfl, rfl, id⟩
  have hkept := commit_rowsKept db revision
  rw [Db.commit_of_staged hstaged] at hkept ⊢
  refine ⟨h.positive_updateWhere hkeeps, h.tokens_updateWhere hkeeps, ?_, ?_, ?_, ?_, ?_, ?_,
    ?_, h.single⟩
  · intro r hr
    cases hr
  · -- The staged row was the only open one.
    intro d' hd' hopen'
    rcases updated hd' with ⟨d, -, -, rfl⟩ | ⟨hd, hp⟩
    · simp [Deployment.isOpen] at hopen'
    · have hsame := (h.opened d' hd hopen').1
      rw [hstaged] at hsame
      exact absurd (decide_eq_true ⟨(Option.some.inj hsame).symm, hopen'⟩) hp
  · exact forall_updateWhere h.bound fun d hd _ => h.bound d hd
  · exact fun op hop haction => hkept.known (h.known op hop haction)
  · refine .inr ⟨{ row with state := .succeeded }, ?_, hrevision, hbound, rfl⟩
    exact mem_updateWhere.2 ⟨row, hrow, by simp [hrevision, hopen]⟩
  · intro e he m hm hnode
    exact hkept.bound (h.registered e he m hm hnode)
  · intro op hop hactive
    rw [hidle op hop] at hactive
    cases hactive

theorem Staging.updateRows (hkeeps : ∀ d : Deployment, d.Keeps (f d))
    (hsame : ∀ d : Deployment, p d = true → (f d).isOpen = d.isOpen ∧
      (f d).abandoned = d.abandoned ∧ (f d).operationId = d.operationId ∧
      (d.state = .succeeded → (f d).state = .succeeded)) (hnode : db'.nodeId = db.nodeId)
    (hdeployments : db'.deployments = updateWhere p f db.deployments)
    (htarget : db'.targetRevision = db.targetRevision)
    (hcurrent : db'.currentRevision = db.currentRevision)
    (hoperations : db'.operations = db.operations)
    (hregistered : ∀ e ∈ db'.engines, ∀ m, e.deployment = some m → m.nodeId = db.nodeId →
      ∃ d ∈ db.deployments, d.revision = m.revision ∧ d.operationId.isSome = true) :
    Staging db' := by
  have hkept : db.RowsKept db' := .of_updateWhere hkeeps hdeployments
  have hrows : ∀ d' ∈ db'.deployments, ∃ d ∈ db.deployments, d.Keeps d' ∧
      d'.isOpen = d.isOpen ∧ d'.abandoned = d.abandoned ∧ d'.operationId = d.operationId := by
    rw [hdeployments]
    intro d' hd'
    rcases updated hd' with ⟨d, hd, hp, rfl⟩ | ⟨hd, -⟩
    · exact ⟨d, hd, hkeeps d, (hsame d hp).1, (hsame d hp).2.1, (hsame d hp).2.2.1⟩
    · exact ⟨d', hd, .refl d', rfl, rfl, rfl⟩
  have htargets : ∀ r, db'.Targets r ↔ db.Targets r := by
    intro r
    rw [Db.Targets, Db.Targets, hoperations]
  refine ⟨?_, ?_, ?_, ?_, ?_, ?_, ?_, ?_, ?_, ?_⟩
  · rw [hdeployments]
    exact h.positive_updateWhere hkeeps
  · rw [hdeployments]
    exact h.tokens_updateWhere hkeeps
  · intro r hr
    obtain ⟨d, hd, hrevision, hopen⟩ := h.staged r (htarget ▸ hr)
    refine ⟨if p d then f d else d, hdeployments ▸ mem_updateWhere.2 ⟨d, hd, rfl⟩, ?_⟩
    split
    next hp =>
      exact ⟨(hkeeps d).revision.trans hrevision, (hsame d hp).1.trans hopen⟩
    next => exact ⟨hrevision, hopen⟩
  · intro d' hd' hopen'
    obtain ⟨d, hd, hkeep, hopen, habandoned, _⟩ := hrows d' hd'
    rw [hopen] at hopen'
    rw [htarget, hkeep.revision, habandoned]
    exact h.opened d hd hopen'
  · intro d' hd'
    obtain ⟨d, hd, hkeep, _, _, hoperation⟩ := hrows d' hd'
    rw [htargets, hkeep.revision, hoperation]
    exact h.bound d hd
  · rw [hoperations]
    exact fun op hop haction => hkept.known (h.known op hop haction)
  · rw [hcurrent]
    refine h.current.imp_right ?_
    rintro ⟨d, hd, hrevision, hbound, hstate⟩
    refine ⟨if p d then f d else d, hdeployments ▸ mem_updateWhere.2 ⟨d, hd, rfl⟩, ?_⟩
    split
    next hp =>
      exact ⟨(hkeeps d).revision.trans hrevision, (hkeeps d).bound hbound,
        (hsame d hp).2.2.2 hstate⟩
    next => exact ⟨hrevision, hbound, hstate⟩
  · intro e he m hm hmnode
    exact hkept.bound (hregistered e he m hm (hmnode.trans hnode))
  · rw [hoperations, htarget]
    exact h.owned
  · rw [hoperations]
    exact h.single

theorem Staging.allocate (hrow : Allocation db row) : Staging (db.allocate row) := by
  have hclosed : ∀ d ∈ db.deployments, d.isOpen = false := by
    intro d hd
    by_contra hopen
    have hstaged := (h.opened d hd (by simpa using hopen)).1
    cases hrow.unstaged.symm.trans hstaged
  -- No operation can name a revision above all rows.
  have hunknown : ¬db.Targets row.revision := by
    rintro ⟨op, hop, haction, hrevision⟩
    obtain ⟨d, hd, hd'⟩ := h.known op hop haction
    have hlt := lt_nextRevision hd
    rw [hd', hrevision, hrow.revision] at hlt
    exact lt_irrefl _ hlt
  refine ⟨?_, ?_, ?_, ?_, ?_, ?_, ?_, ?_, ?_, h.single⟩
  · intro d hd
    rcases mem_snoc.1 hd with hold | rfl
    · exact h.positive d hold
    · rw [hrow.revision]
      exact Nat.succ_ne_zero _
  · exact nodup_snoc h.tokens fun _ hd htoken => not_found hrow.token hd htoken
  · intro r hr
    obtain rfl := Option.some.inj hr
    exact ⟨row, mem_snoc.2 (.inr rfl), rfl, by simp [Deployment.isOpen, hrow.state]⟩
  · intro d hd hopen
    rcases mem_snoc.1 hd with hold | rfl
    · rw [hclosed d hold] at hopen
      cases hopen
    · exact ⟨rfl, hrow.abandoned⟩
  · intro d hd
    rcases mem_snoc.1 hd with hold | rfl
    · exact h.bound d hold
    · rw [hrow.operationId]
      exact iff_of_false (by simp) hunknown
  · intro op hop haction
    obtain ⟨d, hd, hd'⟩ := h.known op hop haction
    exact ⟨d, mem_snoc.2 (.inl hd), hd'⟩
  · refine h.current.imp_right ?_
    rintro ⟨d, hd, hd'⟩
    exact ⟨d, mem_snoc.2 (.inl hd), hd'⟩
  · intro e he m hm hnode
    obtain ⟨d, hd, hd'⟩ := h.registered e he m hm hnode
    exact ⟨d, mem_snoc.2 (.inl hd), hd'⟩
  · intro op hop hactive haction
    have howned := h.owned op hop hactive haction
    cases hrow.unstaged.symm.trans howned

theorem Staging.abandon (hkeys : Keys db) (hmem : row ∈ db.deployments)
    (hunbound : row.operationId = none) : Staging (db.abandon row.revision) := by
  have hkeeps : ∀ d : Deployment, d.Keeps { d with
      state := .failed
      failureDetail := "staged allocation abandoned"
      abandoned := true } := fun _ => ⟨rfl, rfl, rfl, id⟩
  have hkept : db.RowsKept (db.abandon row.revision) := .of_updateWhere hkeeps rfl
  have hrows : ∀ d ∈ (db.abandon row.revision).deployments,
      d.revision = row.revision ∧ d.isOpen = false ∧ d.operationId = row.operationId ∨
        d ∈ db.deployments ∧ d.revision ≠ row.revision := by
    intro d' hd'
    rcases (mem_updateWhere_key hkeys.revisions hmem).1 hd' with rfl | hold
    · exact .inl ⟨rfl, rfl, rfl⟩
    · exact .inr hold
  have hother : ∀ d ∈ db.deployments, d.revision ≠ row.revision →
      d ∈ (db.abandon row.revision).deployments :=
    fun d hd hne => (mem_updateWhere_key hkeys.revisions hmem).2 (.inr ⟨hd, hne⟩)
  have htarget : ∀ r, (db.abandon row.revision).targetRevision = some r ↔
      db.targetRevision = some r ∧ r ≠ row.revision := by
    intro r
    simp only [Db.abandon]
    split
    next hstaged =>
      rw [hstaged]
      simp [eq_comm]
    next hstaged =>
      constructor
      · intro hr
        refine ⟨hr, ?_⟩
        rintro rfl
        exact hstaged hr
      · exact fun hr => hr.1
  have hbound := h.bound row hmem
  rw [hunbound] at hbound
  refine ⟨h.positive_updateWhere hkeeps, h.tokens_updateWhere hkeeps, ?_, ?_, ?_, ?_, ?_, ?_,
    ?_, h.single⟩
  · intro r hr
    obtain ⟨hstaged, hne⟩ := (htarget r).1 hr
    obtain ⟨d, hd, rfl, hopen⟩ := h.staged r hstaged
    exact ⟨d, hother d hd hne, rfl, hopen⟩
  · intro d hd hopen
    rcases hrows d hd with ⟨_, hclosed, _⟩ | ⟨hold, hne⟩
    · cases hclosed.symm.trans hopen
    · obtain ⟨hstaged, habandoned⟩ := h.opened d hold hopen
      exact ⟨(htarget _).2 ⟨hstaged, hne⟩, habandoned⟩
  · intro d hd
    rcases hrows d hd with ⟨hrevision, _, hoperation⟩ | ⟨hold, _⟩
    · rw [hoperation, hrevision, hunbound]
      exact hbound
    · exact h.bound d hold
  · exact fun op hop haction => hkept.known (h.known op hop haction)
  · refine h.current.imp_right ?_
    rintro ⟨d, hd, hrevision, hdbound, hstate⟩
    refine ⟨d, hother d hd ?_, hrevision, hdbound, hstate⟩
    intro hsame
    obtain rfl := eq_of_nodup_key hkeys.revisions hd hmem hsame
    simp [hunbound] at hdbound
  · exact fun e he m hm hnode => hkept.bound (h.registered e he m hm hnode)
  · intro op hop hactive haction
    refine (htarget _).2 ⟨h.owned op hop hactive haction, ?_⟩
    intro hrevision
    have htargets : db.Targets row.revision := ⟨op, hop, haction, hrevision⟩
    simpa using hbound.2 htargets

/-- An inserted operation that leaves the rows alone: a restart, or a request for the current
revision. -/
theorem Staging.append (hbound : op.action.isDeployment = true →
      ∃ d ∈ db.deployments, d.revision = op.targetRevision ∧ d.operationId.isSome = true)
    (hactive : op.isActive = true → op.action.isDeployment = false ∧
      ∀ o ∈ db.operations, o.isActive = false) (hkeys : Keys db) :
    Staging { db with nodePresent := true, operations := db.operations ++ [op] } := by
  refine ⟨h.positive, h.tokens, h.staged, h.opened, ?_, ?_, h.current, h.registered, ?_, ?_⟩
  · intro d hd
    rw [h.bound d hd]
    constructor
    · rintro ⟨o, ho, ho'⟩
      exact ⟨o, mem_snoc.2 (.inl ho), ho'⟩
    · rintro ⟨o, ho, haction, hrevision⟩
      rcases mem_snoc.1 ho with hold | rfl
      · exact ⟨o, hold, haction, hrevision⟩
      · obtain ⟨row, hrow, hsame, hsome⟩ := hbound haction
        obtain rfl := eq_of_nodup_key hkeys.revisions hrow hd (hsame.trans hrevision)
        exact (h.bound row hrow).1 hsome
  · intro o ho haction
    rcases mem_snoc.1 ho with hold | rfl
    · exact h.known o hold haction
    · obtain ⟨row, hrow, hsame, _⟩ := hbound haction
      exact ⟨row, hrow, hsame⟩
  · intro o ho hoactive haction
    rcases mem_snoc.1 ho with hold | rfl
    · exact h.owned o hold hoactive haction
    · rw [(hactive hoactive).1] at haction
      cases haction
  · intro a ha haactive b hb hbactive
    rcases mem_snoc.1 ha with haold | rfl
    · rcases mem_snoc.1 hb with hbold | rfl
      · exact h.single a haold haactive b hbold hbactive
      · rw [(hactive hbactive).2 a haold] at haactive
        cases haactive
    · rcases mem_snoc.1 hb with hbold | rfl
      · rw [(hactive haactive).2 b hbold] at hbactive
        cases hbactive
      · rfl

theorem Staging.submitDeployment (haction : op.action.isDeployment = true)
    (hidle : ∀ o ∈ db.operations, o.isActive = false) (hrow : row ∈ db.deployments)
    (hrevision : row.revision = op.targetRevision) (hopen : row.isOpen = true) :
    Staging (db.insertSubmitted op) := by
  have hstaged : db.targetRevision = some op.targetRevision :=
    hrevision ▸ (h.opened row hrow hopen).1
  have hdb : db.insertSubmitted op = { db with
      nodePresent := true
      operations := db.operations ++ [op]
      targetRevision := some op.targetRevision
      deployments := updateWhere (fun d => d.revision = op.targetRevision)
        (fun d => { d with operationId := some op.operationId }) db.deployments } := by
    simp [Db.insertSubmitted, haction]
  have hkept := insertSubmitted_rowsKept db op
  have hkeeps : ∀ d : Deployment, d.Keeps { d with operationId := some op.operationId } :=
    fun _ => ⟨rfl, rfl, rfl, fun _ => rfl⟩
  have hactive : ∀ o ∈ db.operations ++ [op], o.isActive = true → o = op := by
    intro o ho hoactive
    refine (mem_snoc.1 ho).resolve_left fun hold => ?_
    rw [hidle o hold] at hoactive
    cases hoactive
  rw [hdb] at hkept ⊢
  refine ⟨h.positive_updateWhere hkeeps, h.tokens_updateWhere hkeeps, ?_, ?_, ?_, ?_, ?_, ?_,
    ?_, ?_⟩
  · intro r hr
    obtain ⟨d, hd, hdrevision, hdopen⟩ := h.staged r (hstaged.trans hr)
    refine ⟨_, mem_updateWhere.2 ⟨d, hd, rfl⟩, ?_⟩
    split <;> exact ⟨hdrevision, hdopen⟩
  · intro d' hd' hopen'
    obtain ⟨d, hd, rfl⟩ := mem_updateWhere.1 hd'
    have hold := h.opened d hd (by split at hopen' <;> exact hopen')
    rw [hstaged] at hold
    split <;> exact hold
  · intro d' hd'
    obtain ⟨d, hd, rfl⟩ := mem_updateWhere.1 hd'
    by_cases hsame : d.revision = op.targetRevision
    · rw [if_pos (by simpa using hsame)]
      exact iff_of_true rfl ⟨op, mem_snoc.2 (.inr rfl), haction, hsame.symm⟩
    · rw [if_neg (by simpa using hsame), h.bound d hd]
      constructor
      · rintro ⟨o, ho, ho'⟩
        exact ⟨o, mem_snoc.2 (.inl ho), ho'⟩
      · rintro ⟨o, ho, hoaction, horevision⟩
        rcases mem_snoc.1 ho with hold | rfl
        · exact ⟨o, hold, hoaction, horevision⟩
        · exact absurd horevision.symm hsame
  · intro o ho hoaction
    refine hkept.known ?_
    rcases mem_snoc.1 ho with hold | rfl
    · exact h.known o hold hoaction
    · exact ⟨row, hrow, hrevision⟩
  · refine h.current.imp_right ?_
    rintro ⟨d, hd, hcurrent, hbound, hstate⟩
    refine ⟨_, mem_updateWhere.2 ⟨d, hd, rfl⟩, ?_⟩
    split
    · exact ⟨hcurrent, rfl, hstate⟩
    · exact ⟨hcurrent, hbound, hstate⟩
  · exact fun e he m hm hnode => hkept.bound (h.registered e he m hm hnode)
  · intro o ho hoactive _
    rw [hactive o ho hoactive]
  · intro a ha haactive b hb hbactive
    rw [hactive a ha haactive, hactive b hb hbactive]

theorem Staging.submit (hkeys : Keys db) {rollout : Rollout}
    (hsubmitted : Submitted db now op rollout) : Staging (db.insertSubmitted op) := by
  by_cases haction : op.action.isDeployment = true
  · obtain ⟨_, ⟨row, hrow, hrevision, hopen⟩, _⟩ := hsubmitted.target haction
    exact h.submitDeployment haction hsubmitted.idle hrow hrevision hopen
  · have hdb : db.insertSubmitted op =
        { db with nodePresent := true, operations := db.operations ++ [op] } := by
      simp [Db.insertSubmitted, haction]
    rw [hdb]
    exact h.append (fun hyes => absurd hyes haction)
      (fun _ => ⟨by simpa using haction, hsubmitted.idle⟩) hkeys

theorem Staging.record (hkeys : Keys db) (hrecorded : Recorded db op) :
    Staging { db with nodePresent := true, operations := db.operations ++ [op] } := by
  refine h.append ?_ ?_ hkeys
  · intro _
    obtain ⟨d, hd, hrevision⟩ := hrecorded.committedRow
    rcases h.current with hzero | ⟨row, hrow, hcurrent, hbound, _⟩
    · exact absurd (hrevision.trans hzero) (h.positive d hd)
    · exact ⟨row, hrow, hcurrent.trans hrecorded.target.symm, hbound⟩
  · intro hactive
    simp [Operation.isActive, hrecorded.state, NodeOperationState.isActive] at hactive

end

theorem admitsEngine_eq_true {engine : EngineRecord} (h : db.admitsEngine engine = true)
    {m : DeploymentMetadata} (hm : engine.deployment = some m) (hnode : m.nodeId = db.nodeId) :
    ∃ d ∈ db.deployments, d.revision = m.revision ∧ d.operationId.isSome = true := by
  simpa [Db.admitsEngine, hm, hnode] using h

theorem Staging.publish (h : Staging db) (evidence : ClusterEvidence) :
    Staging (publish db evidence) := by
  unfold Wruntime.Manager.publish
  split
  next hadmitted =>
    refine h.updateRows (f := fun d => { d with state := .active })
      (fun _ => ⟨rfl, rfl, rfl, id⟩) ?_ rfl rfl rfl rfl rfl ?_
    · intro d hp
      simp only [decide_eq_true_eq] at hp
      refine ⟨?_, rfl, rfl, ?_⟩
      · simp [Deployment.isOpen, hp.2.1]
      · intro hstate
        cases hp.2.1.symm.trans hstate
    · intro e he m hm hnode
      exact admitsEngine_eq_true (List.all_eq_true.1 hadmitted e he) hm hnode
  · exact h

end Writes

theorem commit_modifyOperation (db : Db) (revision : Revision) (id : String)
    (f : Operation → Operation) :
    (db.commit revision).modifyOperation id f = (db.modifyOperation id f).commit revision := by
  unfold Db.commit Db.modifyOperation
  simp only
  split <;> rfl

theorem Staging.idle_of_finished (h : Staging db) (hkeys : Keys db) (hmem : op ∈ db.operations)
    (hactive : op.isActive = true) {f : Operation → Operation} (hdone : (f op).isActive = false) :
    ∀ o ∈ (db.modifyOperation op.operationId f).operations, o.isActive = false := by
  intro o ho
  rcases (mem_modifyOperation hkeys hmem).1 ho with rfl | ⟨hold, hid⟩
  · exact hdone
  · by_contra hother
    refine hid ?_
    rw [h.single o hold (by simpa using hother) op hmem hactive]

theorem Staging.write (h : Staging db) (hkeys : Keys db) (hlife : op.Lifecycle)
    (hmem : op ∈ db.operations) {effect : Effect} {f : Operation → Operation}
    (hmove : OpMove db now op effect (f op)) : Staging (db.write op effect f) := by
  have hplain := h.modifyOperation hkeys hmem hmove
  have hkeys' := (Move.write hmem hmove).keys hkeys
  cases effect with
  | plain | report target request => exact hplain
  | authority slot revision => exact hplain.other rfl rfl rfl rfl rfl rfl hkeys'
  | commit =>
    obtain ⟨hcommits, hdone⟩ := hmove.commit_eq
    have haction := hlife.isDeployment hmove.active hcommits
    have hidle := h.idle_of_finished hkeys hmem hmove.active (f := f)
      (by rw [hdone]; rfl)
    change Staging ((db.commit op.targetRevision).modifyOperation op.operationId f)
    rw [commit_modifyOperation]
    refine hplain.commit hidle (h.owned op hmem hmove.active haction) ?_
    refine ⟨f op, (mem_modifyOperation hkeys hmem).2 (.inl rfl), ?_⟩
    rw [hmove.frame.action, hmove.frame.targetRevision]
    exact ⟨haction, rfl⟩

theorem Move.staging (hkeys : Keys db) (hdb : Staging db)
    (hlife : ∀ op ∈ db.operations, op.Lifecycle) (h : Move now db db') : Staging db' := by
  have hkeys' := h.keys hkeys
  cases h with
  | write hmem hmove => exact hdb.write hkeys (hlife _ hmem) hmem hmove
  | writeAll p f hmove =>
    refine hdb.writes hkeys' rfl rfl rfl rfl rfl ?_ ?_
    · intro o' ho'
      rcases updated ho' with ⟨o, ho, hp, rfl⟩ | ⟨ho, -⟩
      · exact ⟨o, ho, (hmove o ho hp).frame, fun _ => (hmove o ho hp).active⟩
      · exact ⟨o', ho, .refl _, id⟩
    · exact exists_updated .refl fun o ho hp => (hmove o ho hp).frame
  | observe row =>
    rw [recordObservation_eq] at hkeys' ⊢
    exact hdb.other rfl rfl rfl rfl rfl rfl hkeys'
  | allocate hrow => exact hdb.allocate hrow
  | finalize p digest hopen =>
    exact hdb.updateRows (f := fun d => { d with resolvedReleaseDigest := digest })
      (fun _ => ⟨rfl, rfl, rfl, id⟩) (fun _ _ => ⟨rfl, rfl, rfl, id⟩) rfl rfl rfl rfl rfl
      hdb.registered
  | abandon hmem hunbound heffect => exact hdb.abandon hkeys hmem hunbound
  | submit hsubmitted => exact hdb.submit hkeys hsubmitted
  | record hrecorded => exact hdb.record hkeys hrecorded
  | publish evidence => exact hdb.publish evidence
  | receipt row | policy policy | attest attestations =>
    exact hdb.other rfl rfl rfl rfl rfl rfl hkeys'

end Wruntime.Manager
