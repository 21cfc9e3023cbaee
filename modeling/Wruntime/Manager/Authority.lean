import Wruntime.Manager.Coherence

/-!
What a run leaves of the authority. A node without an active operation serves its current revision,
a restored operation leaves the pairs that it has found, and while one operation is active no other
moves a slot.
-/

namespace Wruntime.Manager

open Fallible Table Runs

variable {db db' : Db} {revision : Revision} {effect : Effect} {op op' : Operation}
  {f : Operation → Operation} {now : Time} {nodeId : String} {w : World}
  {contract : DeploymentContract} {serving : String → Revision}

theorem Sound.pairs_of_idle (h : Sound db) (hidle : ∀ op ∈ db.operations, op.isActive = false) :
    db.authorityPairs = {pair | pair.2 = db.currentRevision ∧
      pair.1 ∈ db.inventorySlots db.currentRevision} := by
  obtain ⟨serving, hcoherent⟩ := h.coherent
  ext ⟨s, r⟩
  change Authoritative db.authorities s r ↔ _
  rw [hcoherent.realizes s r, hcoherent.idle hidle s]
  change r = db.slotRevision db.currentRevision s ∧ r ≠ 0 ↔
    r = db.currentRevision ∧ s ∈ db.inventorySlots db.currentRevision
  unfold Db.slotRevision
  split
  next hmem =>
    refine ⟨fun hr => ⟨hr.1, hmem⟩, fun hr => ⟨hr.1, ?_⟩⟩
    obtain ⟨row, hrow⟩ := row_of_mem_inventorySlots hmem
    obtain ⟨hd, hrevision⟩ := mem_of_deployment? hrow
    rw [hr.1, ← hrevision]
    exact h.staging.positive row hd
  next hnot =>
    refine iff_of_false ?_ fun hr => hnot hr.2
    rintro ⟨rfl, hne⟩
    exact hne rfl

/-- The node's other operations are over, and the current revision is what this one leaves so
far. -/
structure Sole (db : Db) (id : String) : Prop where
  others : ∀ o ∈ db.operations, o.operationId ≠ id → o.isActive = false
  current : ∀ o ∈ db.operations, o.operationId = id →
    db.currentRevision = if o.committed then o.targetRevision else o.sourceRevision

theorem Sound.sole (h : Sound db) (hop : op ∈ db.operations)
    (hactive : op.isActive = true) (hkeys : Keys db) : Sole db op.operationId := by
  refine ⟨?_, ?_⟩
  · intro o ho hid
    by_contra hyes
    exact hid (congrArg Operation.operationId
      (h.staging.single o ho (by simpa using hyes) op hop hactive))
  · intro o ho hid
    obtain rfl := eq_of_nodup_key hkeys.operations ho hop hid
    obtain ⟨serving, hcoherent⟩ := h.coherent
    rw [(h.operations o ho).1.uncommitted hactive]
    exact (hcoherent.underway o ho hactive).source.symm

theorem Sole.idle (h : Sole db op.operationId) (hkeys : Keys db) (hop' : op' ∈ db.operations)
    (hid : op'.operationId = op.operationId) (hdone : op'.isActive = false) :
    ∀ o ∈ db.operations, o.isActive = false := by
  intro o ho
  by_cases hsame : o.operationId = op.operationId
  · rw [eq_of_nodup_key hkeys.operations ho hop' (hsame.trans hid.symm)]
    exact hdone
  · exact h.others o ho hsame

theorem Sole.move {id : String} (hkeys : Keys db)
    (hsound : Sound db) (h : Sole db id) (hmove : Move now db db')
    (hids : db'.operations.map (·.operationId) = db.operations.map (·.operationId)) :
    Sole db' id := by
  have hsame : db'.operations = db.operations → db'.currentRevision = db.currentRevision →
      Sole db' id := by
    intro hoperations hcurrent
    refine ⟨hoperations ▸ h.others, ?_⟩
    rw [hoperations, hcurrent]
    exact h.current
  cases hmove with
  | @write op effect f hmem hwrite =>
    have hop : op.operationId = id := by
      by_contra hne
      have hinactive := h.others op hmem hne
      cases hwrite.active.symm.trans hinactive
    obtain ⟨hlife, _⟩ := hsound.operations op hmem
    refine ⟨?_, ?_⟩
    · intro o ho hid
      rcases (mem_write_operations hkeys hmem).1 ho with rfl | ⟨hold, _⟩
      · exact absurd (hwrite.frame.operationId.trans hop) hid
      · exact h.others o hold hid
    · intro o ho hid
      obtain rfl := eq_of_mem_write hkeys hmem ho (hid.trans hop.symm)
      have hcurrent := h.current op hmem hop
      rw [hlife.uncommitted hwrite.active] at hcurrent
      rw [hwrite.frame.targetRevision, hwrite.frame.sourceRevision]
      cases effect with
      | commit =>
        have hstaged := hsound.staging.owned op hmem hwrite.active
          (hlife.isDeployment hwrite.active hwrite.commit_eq.1)
        rw [write_currentRevision fun _ => hstaged, hwrite.commit_eq.2]
        rfl
      | _ =>
        rw [hwrite.committed_eq (by simp), hlife.uncommitted hwrite.active]
        exact hcurrent
  | writeAll p f hwrite =>
    refine ⟨?_, ?_⟩
    · intro o' ho' hid
      rcases updated ho' with ⟨o, ho, hp, rfl⟩ | ⟨ho, -⟩
      · have hinactive := h.others o ho fun heq =>
          hid ((hwrite o ho hp).frame.operationId.trans heq)
        rw [(hwrite o ho hp).active] at hinactive
        cases hinactive
      · exact h.others o' ho hid
    · intro o' ho' hid
      rcases updated ho' with ⟨o, ho, hp, rfl⟩ | ⟨ho, -⟩
      · have hframe := (hwrite o ho hp).frame
        rw [(hwrite o ho hp).committed_eq (by simp), hframe.targetRevision, hframe.sourceRevision]
        exact h.current o ho (hframe.operationId.symm.trans hid)
      · exact h.current o' ho hid
  | observe row =>
    rw [recordObservation_eq] at hsame ⊢
    exact hsame rfl rfl
  | @submit op rollout hsubmitted =>
    rw [insertSubmitted_operations] at hids
    have hlength := congrArg List.length hids
    simp at hlength
  | record hrecorded =>
    have hlength := congrArg List.length hids
    simp at hlength
  | publish evidence =>
    obtain ⟨hoperations, -, -, -, hcurrent⟩ := publish_frame db evidence
    exact hsame hoperations hcurrent
  | _ => exact hsame rfl rfl

/-- A call on an active operation leaves it alone on the node, at the revision its outcome says. -/
theorem next_sole (hreach : Reachable contract nodeId w) (input : Input)
    (hop : op ∈ w.db.operations) (hactive : op.isActive = true)
    (hop' : op' ∈ (w.next contract input).db.operations) (hid : op'.operationId = op.operationId)
    (hdone : op'.isActive = false) : Sole (w.next contract input).db op.operationId := by
  obtain ⟨hkeys, hsound⟩ := reachable_sound hreach
  rcases (step_transaction contract input.now hkeys input.call).keeps
    (P := fun db => Sound db ∧ Sole db op.operationId)
    (fun _ _ hkeys hdb hmove hids =>
      ⟨hmove.sound hkeys hdb.1, hdb.2.move hkeys hdb.1 hmove hids⟩)
    hkeys ⟨hsound, hsound.sole hop hactive hkeys⟩ with ⟨inserted, _, hoperations⟩ | hkept
  · -- An insertion leaves the operation as it is.
    have hmem : op ∈ (w.next contract input).db.operations := by
      change op ∈ (step contract w.db input.now input.call).1.operations
      rw [hoperations]
      exact List.mem_append_left _ hop
    have hkeys' := reachable_keys (hreach.step (i := input) trivial)
    obtain rfl := eq_of_nodup_key hkeys'.operations hop' hmem hid
    cases hactive.symm.trans hdone
  · exact hkept.2

theorem pairs_of_restored {start : World} {first last : Input}
    (hstart : Reachable contract nodeId start)
    (hrun : Reach (World.next contract) (fun _ _ => True) (start.next contract first) w)
    {submitted : Operation} (hsubmitted : submitted ∈ (start.next contract first).db.operations)
    (hnew : ∀ o ∈ start.db.operations, o.operationId ≠ submitted.operationId)
    (hop : op ∈ w.db.operations) (hid : op.operationId = submitted.operationId)
    (hactive : op.isActive = true) (hop' : op' ∈ (w.next contract last).db.operations)
    (hid' : op'.operationId = submitted.operationId)
    (hended : op'.state = .failed ∨ op'.state = .cancelled) :
    (w.next contract last).db.authorityPairs = start.db.authorityPairs := by
  have hnext : Reachable contract nodeId (start.next contract first) := hstart.step trivial
  have hw : Reachable contract nodeId w := hnext.trans hrun
  have hlast : Reachable contract nodeId (w.next contract last) := hw.step trivial
  obtain ⟨hkeys, hsound⟩ := reachable_sound hstart
  obtain ⟨hkeysLast, hsoundLast⟩ := reachable_sound hlast
  have hinactive : op'.isActive = false := by
    rcases hended with h | h <;> simp [Operation.isActive, h, NodeOperationState.isActive]
  -- From the submission on, the operation has only been written.
  obtain ⟨hkeysW, found, hfound, hwrites⟩ :=
    reach_persists (reachable_keys hnext) hsubmitted hrun
  obtain rfl : op = found := eq_of_nodup_key hkeysW.operations hop hfound
    (hid.trans hwrites.frame.operationId.symm)
  obtain ⟨found', hfound', hwrites'⟩ := next_persists contract hkeysW last hop
  obtain rfl : op' = found' := eq_of_nodup_key hkeysLast.operations hop' hfound'
    (hid'.trans (hid.symm.trans hwrites'.frame.operationId.symm))
  -- It was submitted on an idle node, at the node's current revision.
  obtain ⟨hidle, hsource⟩ : (∀ o ∈ start.db.operations, o.isActive = false) ∧
      submitted.sourceRevision = start.db.currentRevision := by
    rcases new_operation hkeys first hsubmitted with
      ⟨o, ho, hsame⟩ | ⟨rollout, hrow⟩ | hrecorded
    · exact absurd hsame (hnew o ho)
    · obtain ⟨serving, hcoherent⟩ := hsound.coherent
      exact ⟨hrow.idle, (hrow.underway hsound.staging (hcoherent.idle hrow.idle)).source⟩
    · have hdone : submitted.isActive = false := by
        simp [Operation.isActive, hrecorded.state, NodeOperationState.isActive]
      rw [hwrites.eq_of_inactive hdone, hdone] at hactive
      cases hactive
  -- It ends on an idle node, at the same revision.
  have hsole := next_sole hw last hop hactive hop' (hid'.trans hid.symm) hinactive
  have hidleLast := hsole.idle hkeysLast hop' (hid'.trans hid.symm) hinactive
  have hcurrent : (w.next contract last).db.currentRevision = start.db.currentRevision := by
    have huncommitted : op'.committed = false := by
      by_contra hyes
      have hlife := (hsoundLast.operations op' hop').1
      have hstate := (hlife.committed (by simpa using hyes)).2
      rcases hended with h | h <;> rw [h] at hstate <;> cases hstate
    have hvalue := hsole.current op' hop' (hid'.trans hid.symm)
    rw [huncommitted] at hvalue
    rw [← hsource, ← hwrites.frame.sourceRevision, ← hwrites'.frame.sourceRevision]
    exact hvalue
  have hkept : start.db.RowsKept (w.next contract last).db := by
    have hfirst : start.db.RowsKept (start.next contract first).db :=
      Moves.rowsKept (next_moves hkeys first)
    have hmiddle : (start.next contract first).db.RowsKept w.db :=
      Reach.related (R := fun a b : World => a.db.RowsKept b.db) (fun _ => .of_eq rfl)
        (fun hab hbc => hab.trans hbc)
        (fun mid input hmid _ =>
          Moves.rowsKept (next_moves (reachable_keys (hnext.trans hmid)) input)) hrun
    exact (hfirst.trans hmiddle).trans (Moves.rowsKept (next_moves hkeysW last))
  obtain ⟨serving, hcoherent⟩ := hsound.coherent
  obtain ⟨servingLast, hcoherentLast⟩ := hsoundLast.coherent
  ext ⟨s, r⟩
  change Authoritative _ s r ↔ Authoritative _ s r
  rw [hcoherent.realizes s r, hcoherentLast.realizes s r, hcoherent.idle hidle s,
    hcoherentLast.idle hidleLast s, hcurrent,
    hkept.slotRevision_eq hkeys hkeysLast hsound.staging.known_current]

theorem idle_of_committed (hreach : Reachable contract nodeId w) (input : Input)
    (hop : op ∈ w.db.operations) (huncommitted : op.committed = false)
    (hop' : op' ∈ (w.next contract input).db.operations) (hid : op'.operationId = op.operationId)
    (hcommitted : op'.committed = true) :
    (∀ o ∈ (w.next contract input).db.operations, o.isActive = false) ∧
      (w.next contract input).db.currentRevision = op'.targetRevision := by
  have hlast : Reachable contract nodeId (w.next contract input) := hreach.step trivial
  obtain ⟨hkeysLast, hsoundLast⟩ := reachable_sound hlast
  obtain ⟨found, hfound, hwrites⟩ := next_persists contract (reachable_keys hreach) input hop
  obtain rfl : op' = found := eq_of_nodup_key hkeysLast.operations hop' hfound
    (hid.trans hwrites.frame.operationId.symm)
  have hactive : op.isActive = true := by
    by_contra hdone
    rw [hwrites.eq_of_inactive (by simpa using hdone), huncommitted] at hcommitted
    cases hcommitted
  have hinactive : op'.isActive = false := by
    have hlife := (hsoundLast.operations op' hop').1
    have hstate := (hlife.committed hcommitted).2
    simp [Operation.isActive, hstate, NodeOperationState.isActive]
  have hsole := next_sole hreach input hop hactive hop' hid hinactive
  refine ⟨hsole.idle hkeysLast hop' hid hinactive, ?_⟩
  have hvalue := hsole.current op' hop' hid
  rw [hcommitted] at hvalue
  exact hvalue

/-- Slot authority over whole runs: that of the current revision while no operation is active, of
the target after a commit, and of the submission after an end without one. -/
theorem slot_authority_coherent (contract : DeploymentContract) (nodeId : String) :
    (∀ w, Reachable contract nodeId w → (∀ op ∈ w.db.operations, op.isActive = false) →
        w.db.authorityPairs = {pair | pair.2 = w.db.currentRevision ∧
          pair.1 ∈ w.db.inventorySlots w.db.currentRevision} ∧
        (w.db.currentRevision = 0 → w.db.authorityPairs = ∅)) ∧
    (∀ w input, Reachable contract nodeId w → ∀ op ∈ w.db.operations, op.committed = false →
      ∀ op' ∈ (w.next contract input).db.operations,
        op'.operationId = op.operationId → op'.committed = true →
        let db := (w.next contract input).db
        db.currentRevision = op'.targetRevision ∧
        (∀ s ∈ db.inventorySlots op'.targetRevision, ∀ r,
          (s, r) ∈ db.authorityPairs ↔ r = op'.targetRevision) ∧
        ∀ s ∉ db.inventorySlots op'.targetRevision, ∀ r, (s, r) ∉ db.authorityPairs) ∧
    (∀ start first w last, Reachable contract nodeId start →
      Reach (World.next contract) (fun _ _ => True) (start.next contract first) w →
      ∀ submitted ∈ (start.next contract first).db.operations,
        (∀ o ∈ start.db.operations, o.operationId ≠ submitted.operationId) →
      ∀ op ∈ w.db.operations, op.operationId = submitted.operationId →
        op.isActive = true →
      ∀ op' ∈ (w.next contract last).db.operations,
        op'.operationId = submitted.operationId →
        op'.state = .failed ∨ op'.state = .cancelled →
        (w.next contract last).db.authorityPairs = start.db.authorityPairs) := by
  refine ⟨?_, ?_, ?_⟩
  · intro w hreach hidle
    have hsound := (reachable_sound hreach).2
    have hpairs := hsound.pairs_of_idle hidle
    refine ⟨hpairs, fun hzero => ?_⟩
    rw [hpairs]
    ext ⟨s, r⟩
    refine iff_of_false ?_ (Set.notMem_empty _)
    rintro ⟨_, hmem⟩
    obtain ⟨row, hrow⟩ := row_of_mem_inventorySlots hmem
    obtain ⟨hd, hrevision⟩ := mem_of_deployment? hrow
    exact hsound.staging.positive row hd (hrevision.trans hzero)
  · intro w input hreach op hop huncommitted op' hop' hid hcommitted db
    obtain ⟨hidle, hcurrent⟩ :=
      idle_of_committed hreach input hop huncommitted hop' hid hcommitted
    have hlast : Reachable contract nodeId (w.next contract input) := hreach.step trivial
    have hpairs := (reachable_sound hlast).2.pairs_of_idle hidle
    rw [hcurrent] at hpairs
    refine ⟨hcurrent, fun s hs r => ?_, fun s hs r => ?_⟩
    · rw [hpairs]
      exact ⟨fun h => h.1, fun h => ⟨h, hs⟩⟩
    · rw [hpairs]
      exact fun h => hs h.2
  · intro start first w last hstart hrun submitted hsubmitted hnew op hop hid hactive op' hop'
      hid' hended
    exact pairs_of_restored hstart hrun hsubmitted hnew hop hid hactive hop' hid' hended

theorem slot_authority_coherent_blue :
    let w := Sample.run (Sample.submitted ["blue"] ++
      Sample.proxyDone "8d7eef43-aa27-83b7-a7ab-2a5f124cae58" ++
      Sample.blueCommitted "8d7eef43-aa27-83b7-a7ab-2a5f124cae58")
    (∀ op ∈ w.db.operations, op.isActive = false ∧ op.committed = true) ∧
      w.db.authorityPairs = {("blue", 1)} := by
  intro w
  have hfacts : (∀ op ∈ w.db.operations, op.isActive = false ∧ op.committed = true) ∧
      w.db.currentRevision = 1 ∧ w.db.inventorySlots 1 = ["blue"] := by
    decide +kernel
  obtain ⟨hdone, hcurrent, hslots⟩ := hfacts
  refine ⟨hdone, ?_⟩
  have hpairs := ((slot_authority_coherent Sample.contract "node-a").1 w
    (Sample.reachable_run _) fun op hop => (hdone op hop).1).1
  rw [hpairs, hcurrent, hslots]
  ext ⟨s, r⟩
  simp [and_comm]

end Wruntime.Manager
