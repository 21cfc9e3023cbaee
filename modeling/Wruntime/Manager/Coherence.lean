import Wruntime.Manager.Underway

/-!
Slot authority over whole runs: in every reachable state the authority table realizes the map of the
current revision, or that of the one operation that is underway.
-/

namespace Wruntime.Manager

open Fallible Table Runs

variable {db db' : Db} {revision : Revision} {effect : Effect} {op : Operation}
  {f : Operation → Operation} {now : Time} {nodeId : String} {w : World} {slot : EngineTarget}
  {contract : DeploymentContract} {serving : String → Revision}

structure Sound (db : Db) : Prop where
  operations : ∀ op ∈ db.operations, op.Lifecycle ∧ op.Progressing
  staging : Staging db
  coherent : ∃ serving, Coherent db serving

section Coherent

theorem Staging.known_current (h : Staging db) :
    db.currentRevision = 0 ∨ ∃ d ∈ db.deployments, d.revision = db.currentRevision := by
  refine h.current.imp_right ?_
  rintro ⟨d, hd, hrevision, _⟩
  exact ⟨d, hd, hrevision⟩

theorem Staging.known_goal (h : Staging db) (hop : op ∈ db.operations)
    (hsource : op.sourceRevision = db.currentRevision) :
    op.goal = 0 ∨ ∃ d ∈ db.deployments, d.revision = op.goal := by
  unfold Operation.goal
  split
  next haction => exact .inr (h.known op hop haction)
  next =>
    rw [hsource]
    exact h.known_current

theorem Staging.target_ne_zero (h : Staging db) (hop : op ∈ db.operations)
    (haction : op.action.isDeployment = true) : op.targetRevision ≠ 0 := by
  obtain ⟨d, hd, hrevision⟩ := h.known op hop haction
  exact hrevision ▸ h.positive d hd

theorem Coherent.other (h : Coherent db serving) (hstaging : Staging db) (hkeys : Keys db)
    (hkeys' : Keys db') (hkept : db.RowsKept db') (hauthorities : db'.authorities = db.authorities)
    (hcurrent : db'.currentRevision = db.currentRevision)
    (hactive : ∀ o, o.isActive = true → (o ∈ db'.operations ↔ o ∈ db.operations)) :
    Coherent db' serving := by
  have hslots := hkept.slotRevision_eq hkeys hkeys' hstaging.known_current
  refine ⟨?_, ?_, ?_⟩
  · intro s r
    rw [hauthorities]
    exact h.realizes s r
  · intro hidle s
    rw [hcurrent, hslots]
    refine h.idle (fun o ho => ?_) s
    by_contra hyes
    have hoactive : o.isActive = true := by simpa using hyes
    exact hyes (hidle o ((hactive o hoactive).2 ho))
  · intro o ho hoactive
    have hold := (hactive o hoactive).1 ho
    have hunderway := h.underway o hold hoactive
    refine hunderway.congr hcurrent hslots ?_
    exact hkept.slotRevision_eq hkeys hkeys' (hstaging.known_goal hold hunderway.source)

theorem write_currentRevision
    (hstaged : effect = .commit → db.targetRevision = some op.targetRevision) :
    (db.write op effect f).currentRevision = effect.current op db.currentRevision := by
  cases effect with
  | commit => simp [Db.write, Db.modifyOperation, Db.applyEffect, Db.commit, Effect.current,
      hstaged rfl]
  | _ => rfl

section

variable (h : Coherent db serving)
include h

theorem Coherent.write (hsound : Sound db) (hkeys : Keys db)
    (hmem : op ∈ db.operations) (hmove : OpMove db now op effect (f op)) :
    Coherent (db.write op effect f) (effect.serving serving) := by
  obtain ⟨hlife, hprogress⟩ := hsound.operations op hmem
  have hstaging := hsound.staging
  have hunderway := h.underway op hmem hmove.active
  have hordered := hprogress.ordered (hlife.active.1 hmove.active)
  refine ⟨?_, ?_, ?_⟩
  · refine h.realizes.applyEffect op fun slot revision heq => ?_
    subst heq
    exact hunderway.row hordered hmove
  · intro hidle s
    have hdone : (f op).isActive = false :=
      hidle _ ((mem_write_operations hkeys hmem).2 (.inl rfl))
    have hpositive := fun haction => hstaging.target_ne_zero hmem haction
    have hcurrent : (db.write op effect f).currentRevision =
        effect.current op db.currentRevision := by
      refine write_currentRevision ?_
      rintro rfl
      exact hstaging.owned op hmem hmove.active
        (hlife.isDeployment hmove.active hmove.commit_eq.1)
    rw [hunderway.finished hlife hprogress hpositive hmove hdone s, hcurrent]
    have hknown : effect.current op db.currentRevision = 0 ∨
        ∃ d ∈ db.deployments, d.revision = effect.current op db.currentRevision := by
      cases effect with
      | commit =>
        exact .inr (hstaging.known op hmem (hlife.isDeployment hmove.active hmove.commit_eq.1))
      | _ => exact hstaging.known_current
    have hwrite : Move now db (db.write op effect f) := .write hmem hmove
    rw [hwrite.rowsKept.slotRevision_eq hkeys (hwrite.keys hkeys) hknown]
  · intro o ho hactive
    rcases (mem_write_operations hkeys hmem).1 ho with rfl | ⟨hold, hid⟩
    · have hnext := hunderway.move hlife hprogress hmove hactive
      cases effect with
      | commit =>
        rw [hmove.commit_eq.2] at hactive
        cases hactive
      | _ => exact hnext.congr rfl rfl rfl
    · exact absurd (congrArg Operation.operationId
        (hstaging.single o hold hactive op hmem hmove.active)) hid

theorem Coherent.writeAll (hsound : Sound db) {p : Operation → Bool}
    (hmove : ∀ op ∈ db.operations, p op = true → OpMove db now op .plain (f op)) :
    Coherent { db with operations := updateWhere p f db.operations } serving := by
  refine ⟨h.realizes, ?_, ?_⟩
  · intro hidle s
    by_cases hwas : ∀ o ∈ db.operations, o.isActive = false
    · exact h.idle hwas s
    · push Not at hwas
      obtain ⟨o, ho, hactive⟩ := hwas
      have hoactive : o.isActive = true := by simpa using hactive
      have hdone := hidle _ (mem_updateWhere.2 ⟨o, ho, rfl⟩)
      split at hdone
      next hp =>
        obtain ⟨hlife, hprogress⟩ := hsound.operations o ho
        refine (h.underway o ho hoactive).finished hlife hprogress ?_ (hmove o ho hp) hdone s
        exact hsound.staging.target_ne_zero ho
      next =>
        cases hoactive.symm.trans hdone
  · intro o' ho' hactive
    rcases updated ho' with ⟨o, ho, hp, rfl⟩ | ⟨ho, -⟩
    · obtain ⟨hlife, hprogress⟩ := hsound.operations o ho
      have hunderway := h.underway o ho (hmove o ho hp).active
      exact (hunderway.move hlife hprogress (hmove o ho hp) hactive).congr rfl rfl rfl
    · exact (h.underway o' ho hactive).congr rfl rfl rfl

theorem Coherent.submit (hstaging : Staging db) (hkeys : Keys db)
    {rollout : Rollout} (hsubmitted : Submitted db now op rollout) :
    Coherent (db.insertSubmitted op) serving := by
  have hmove : Move now db (db.insertSubmitted op) := .submit hsubmitted
  have hfields : (db.insertSubmitted op).authorities = db.authorities ∧
      (db.insertSubmitted op).currentRevision = db.currentRevision := by
    unfold Db.insertSubmitted
    split <;> exact ⟨rfl, rfl⟩
  have hslots : ∀ r, (r = 0 ∨ ∃ d ∈ db.deployments, d.revision = r) →
      (db.insertSubmitted op).slotRevision r = db.slotRevision r := fun _ hknown =>
    hmove.rowsKept.slotRevision_eq hkeys (hmove.keys hkeys) hknown
  have hunderway : Underway db op serving :=
    hsubmitted.underway hstaging (h.idle hsubmitted.idle)
  have hgoal : op.goal = 0 ∨ ∃ d ∈ db.deployments, d.revision = op.goal := by
    unfold Operation.goal
    split
    next haction =>
      obtain ⟨_, ⟨d, hd, hrevision, _⟩, _⟩ := hsubmitted.target haction
      exact .inr ⟨d, hd, hrevision⟩
    next =>
      rw [hunderway.source]
      exact hstaging.known_current
  have hmem : ∀ o ∈ (db.insertSubmitted op).operations, o.isActive = true → o = op := by
    intro o ho hactive
    rw [insertSubmitted_operations] at ho
    rcases mem_snoc.1 ho with hold | hnew
    · rw [hsubmitted.idle o hold] at hactive
      cases hactive
    · exact hnew
  have hactive : op.isActive = true := by
    obtain ⟨_, _, _, _, hrow⟩ := hsubmitted.row
    rw [hrow]
    rfl
  refine ⟨?_, ?_, ?_⟩
  · intro s r
    rw [hfields.1]
    exact h.realizes s r
  · intro hidle
    have hop : op ∈ (db.insertSubmitted op).operations := by
      rw [insertSubmitted_operations]
      simp
    rw [hidle op hop] at hactive
    cases hactive
  · intro o ho hoactive
    rw [hmem o ho hoactive]
    exact hunderway.congr hfields.2 (hslots _ hstaging.known_current) (hslots _ hgoal)

end

theorem Move.coherent (hkeys : Keys db) (hsound : Sound db) (hdb : Coherent db serving)
    (h : Move now db db') : ∃ serving', Coherent db' serving' := by
  have hkeys' := h.keys hkeys
  have hkept := h.rowsKept
  cases h with
  | write hmem hmove => exact ⟨_, hdb.write hsound hkeys hmem hmove⟩
  | writeAll p f hmove => exact ⟨_, hdb.writeAll hsound hmove⟩
  | submit hsubmitted => exact ⟨_, hdb.submit hsound.staging hkeys hsubmitted⟩
  | observe row =>
    rw [recordObservation_eq] at hkeys' hkept ⊢
    exact ⟨_, hdb.other hsound.staging hkeys hkeys' hkept rfl rfl fun _ _ => .rfl⟩
  | record hrecorded =>
    refine ⟨_, hdb.other hsound.staging hkeys hkeys' hkept rfl rfl fun o ho => ?_⟩
    rw [List.mem_append, List.mem_singleton]
    refine or_iff_left ?_
    rintro rfl
    simp [Operation.isActive, hrecorded.state, NodeOperationState.isActive] at ho
  | publish evidence =>
    obtain ⟨hoperations, -, -, hauthorities, hcurrent⟩ := publish_frame db evidence
    refine ⟨_, hdb.other hsound.staging hkeys hkeys' hkept hauthorities hcurrent fun o _ => ?_⟩
    rw [hoperations]
  | _ => exact ⟨_, hdb.other hsound.staging hkeys hkeys' hkept rfl rfl fun _ _ => .rfl⟩

theorem Move.sound (hkeys : Keys db) (hsound : Sound db) (h : Move now db db') : Sound db' := by
  obtain ⟨serving, hserving⟩ := hsound.coherent
  exact ⟨Moves.progressing hkeys hsound.operations (.single h),
    h.staging hkeys hsound.staging fun op hop => (hsound.operations op hop).1,
    h.coherent hkeys hsound hserving⟩

end Coherent

theorem sound_empty (nodeId : String) : Sound (Db.empty nodeId) := by
  have hnone : ∀ {α : Type} {P : α → Prop}, ∀ a ∈ ([] : List α), P a := by
    intro α P a ha
    cases ha
  refine ⟨hnone, ⟨hnone, List.nodup_nil, ?_, hnone, hnone, hnone, .inl rfl, hnone, hnone,
    hnone⟩, fun _ => 0, ?_, ?_, hnone⟩
  · intro r hr
    cases hr
  · intro s r
    refine iff_of_false ?_ ?_
    · rintro ⟨a, ha, _⟩
      cases ha
    · rintro ⟨rfl, hne⟩
      exact hne rfl
  · intro _ s
    rfl

theorem reachable_sound (hreach : Reachable contract nodeId w) : Keys w.db ∧ Sound w.db :=
  db_invariant (sound_empty nodeId) (fun _ _ _ hkeys hsound hmove => hmove.sound hkeys hsound)
    hreach

end Wruntime.Manager
