import Wruntime.Manager.Progress
import Wruntime.Manager.Staging

/-!
The serving map. A node maps every slot to the revision it serves, and the authority table realizes
such a map: `switch_authority` updates it at one slot. While an operation is underway the map is
that of its source revision at the slots it has not changed, and of its target at the others.
-/

namespace Wruntime.Manager

open Fallible Table Runs

variable {db db' : Db} {revision : Revision} {effect : Effect} {op op' : Operation}
  {f : Operation → Operation} {now : Time} {slot t : EngineTarget} {identity : ReleaseIdentity}

def Authoritative (rows : List SlotAuthority) (slot : String) (revision : Revision) : Prop :=
  ∃ a ∈ rows, a.authoritative = true ∧ a.engineSlot = slot ∧ a.revision = revision

def Db.authorityPairs (db : Db) : Set (String × Revision) :=
  {pair | Authoritative db.authorities pair.1 pair.2}

def Db.inventorySlots (db : Db) (revision : Revision) : List String :=
  ((db.deployment? revision).map (·.inventory.slots)).getD []

/-- What a slot serves when the node is at `revision`; zero is nothing. -/
def Db.slotRevision (db : Db) (revision : Revision) (slot : String) : Revision :=
  if slot ∈ db.inventorySlots revision then revision else 0

/-- The authority table has one row for each slot that serves something, and no others. -/
def Db.Realizes (db : Db) (serving : String → Revision) : Prop :=
  ∀ slot r, Authoritative db.authorities slot r ↔ r = serving slot ∧ r ≠ 0

def Effect.serving (effect : Effect) (serving : String → Revision) : String → Revision :=
  match effect with
  | .authority slot revision => Function.update serving slot revision
  | .plain | .report _ _ | .commit => serving

def Operation.goal (op : Operation) : Revision :=
  if op.action.isDeployment then op.targetRevision else op.sourceRevision

/-- An operation between source and goal: its slots start and end where the inventories say, nothing
else differs, and the map shows how far they have come. -/
structure Underway (db : Db) (op : Operation) (serving : String → Revision) : Prop where
  source : op.sourceRevision = db.currentRevision
  starts : ∀ t ∈ op.engines,
    t.progress.sourceRevision = db.slotRevision db.currentRevision t.engineSlot
  ends : ∀ t ∈ op.engines,
    t.progress.targetRevision = db.slotRevision op.goal t.engineSlot
  outside : ∀ s ∉ op.engines.map (·.engineSlot),
    serving s = db.slotRevision db.currentRevision s ∧
      db.slotRevision op.goal s = db.slotRevision db.currentRevision s
  forward : op.phase = .forward → ∀ t ∈ op.engines, serving t.engineSlot =
    if t.authoritySwitched then t.progress.targetRevision else t.progress.sourceRevision
  restoring : op.phase = .restoringSource → ∀ t ∈ op.engines,
    t.complete = true ∨ t.progress.changed = false →
      serving t.engineSlot = t.progress.sourceRevision

/-- The table realizes a map that is the current revision's, or on its way. -/
structure Coherent (db : Db) (serving : String → Revision) : Prop where
  realizes : db.Realizes serving
  idle : (∀ op ∈ db.operations, op.isActive = false) →
    ∀ s, serving s = db.slotRevision db.currentRevision s
  underway : ∀ op ∈ db.operations, op.isActive = true → Underway db op serving

variable {serving : String → Revision}

theorem authoritative_withdraw (rows : List SlotAuthority) (slot s : String) (r : Revision) :
    Authoritative (updateWhere (fun a => a.engineSlot = slot ∧ a.authoritative = true)
      (fun a => { a with authoritative := false }) rows) s r ↔
      s ≠ slot ∧ Authoritative rows s r := by
  constructor
  · rintro ⟨a, ha, hyes, hslot, hrevision⟩
    rcases updated ha with ⟨old, -, -, rfl⟩ | ⟨hold, hp⟩
    · cases hyes
    · refine ⟨?_, a, hold, hyes, hslot, hrevision⟩
      rintro rfl
      exact hp (decide_eq_true ⟨hslot, hyes⟩)
  · rintro ⟨hne, a, ha, hyes, rfl, rfl⟩
    exact ⟨a, mem_updateWhere.2 ⟨a, ha, by simp [hne]⟩, hyes, rfl, rfl⟩

theorem authoritative_upsert {rows : List SlotAuthority} {new : SlotAuthority}
    (hnew : new.authoritative = true)
    (hfree : ∀ r, ¬Authoritative rows new.engineSlot r) (s : String) (r : Revision) :
    Authoritative (upsertBy (fun a => (a.engineSlot, a.revision)) new rows) s r ↔
      Authoritative rows s r ∨ s = new.engineSlot ∧ r = new.revision := by
  constructor
  · rintro ⟨a, ha, hyes, rfl, rfl⟩
    rcases mem_upsertBy ha with rfl | hold
    · exact .inr ⟨rfl, rfl⟩
    · exact .inl ⟨a, hold, hyes, rfl, rfl⟩
  · rintro (⟨a, ha, hyes, rfl, rfl⟩ | ⟨rfl, rfl⟩)
    · have hne : a.engineSlot ≠ new.engineSlot := by
        intro hsame
        exact hfree a.revision ⟨a, ha, hyes, hsame, rfl⟩
      refine ⟨a, (mem_upsertBy_of_ne ?_ rows).2 ha, hyes, rfl, rfl⟩
      intro hkey
      exact hne (Prod.mk.inj hkey).1
    · exact ⟨new, mem_upsertBy_self _ _ _, hnew, rfl, rfl⟩

theorem Db.Realizes.switchAuthority (h : db.Realizes serving)
    (slot : String) (hrow : revision = 0 ∨ (db.deployment? revision).isSome = true) :
    (switchAuthority db slot revision).Realizes (Function.update serving slot revision) := by
  have hwithdrawn := fun s r => authoritative_withdraw db.authorities slot s r
  intro s r
  by_cases hzero : revision = 0
  · subst hzero
    change Authoritative (updateWhere _ _ db.authorities) s r ↔ _
    rw [hwithdrawn]
    by_cases hs : s = slot
    · subst hs
      simp
    · simp [hs, h s r]
  · obtain ⟨row, hrow⟩ := Option.isSome_iff_exists.1 (hrow.resolve_left hzero)
    have hrows : (Wruntime.Manager.switchAuthority db slot revision).authorities =
        upsertBy (fun a => (a.engineSlot, a.revision))
          ⟨slot, revision, true, row.resolvedReleaseDigest⟩
          (updateWhere (fun a => a.engineSlot = slot ∧ a.authoritative = true)
            (fun a => { a with authoritative := false }) db.authorities) := by
      simp only [Wruntime.Manager.switchAuthority, hrow]
    rw [hrows, authoritative_upsert rfl, hwithdrawn]
    · by_cases hs : s = slot
      · subst hs
        simp only [ne_eq, not_true, false_and, true_and, false_or, Function.update_self]
        constructor
        · rintro rfl
          exact ⟨rfl, hzero⟩
        · exact fun hr => hr.1
      · simp [hs, h s r]
    · intro r hr
      rw [hwithdrawn] at hr
      exact hr.1 rfl

theorem Db.Realizes.applyEffect (h : db.Realizes serving) (op : Operation)
    (hrow : ∀ slot revision, effect = .authority slot revision →
      revision = 0 ∨ (db.deployment? revision).isSome = true) :
    (db.applyEffect op effect).Realizes (effect.serving serving) := by
  cases effect with
  | plain | report target request => exact h
  | authority slot revision => exact h.switchAuthority slot (hrow slot revision rfl)
  | commit =>
    have hsame : (db.commit op.targetRevision).authorities = db.authorities := by
      unfold Db.commit
      split <;> rfl
    intro s r
    change Authoritative (db.commit op.targetRevision).authorities s r ↔ _
    rw [hsame]
    exact h s r

theorem row_of_mem_inventorySlots {slot : String}
    (h : slot ∈ db.inventorySlots revision) : ∃ row, db.deployment? revision = some row := by
  unfold Db.inventorySlots at h
  cases hrow : db.deployment? revision with
  | none => simp [hrow] at h
  | some row => exact ⟨row, rfl⟩

theorem slotRevision_cases (db : Db) (revision : Revision) (slot : String) :
    db.slotRevision revision slot = 0 ∨
      db.slotRevision revision slot = revision ∧ (db.deployment? revision).isSome = true := by
  unfold Db.slotRevision
  split
  next hmem =>
    obtain ⟨row, hrow⟩ := row_of_mem_inventorySlots hmem
    exact .inr ⟨rfl, by rw [hrow]; rfl⟩
  · exact .inl rfl

theorem slotRevision_row (db : Db) (revision : Revision) (slot : String) :
    db.slotRevision revision slot = 0 ∨
      (db.deployment? (db.slotRevision revision slot)).isSome = true := by
  rcases slotRevision_cases db revision slot with hzero | ⟨hsame, hrow⟩
  · exact .inl hzero
  · rw [hsame]
    exact .inr hrow

theorem Db.RowsKept.slotRevision_eq (h : db.RowsKept db') (hkeys : Keys db) (hkeys' : Keys db')
    (hknown : revision = 0 ∨ ∃ d ∈ db.deployments, d.revision = revision) :
    db'.slotRevision revision = db.slotRevision revision := by
  funext slot
  rcases hknown with rfl | ⟨d, hd, rfl⟩
  · simp [Db.slotRevision]
  · obtain ⟨d', hd', hkeeps⟩ := h d hd
    have hrow := deployment?_of_mem hkeys hd
    have hrow' := deployment?_of_mem hkeys' hd'
    rw [hkeeps.revision] at hrow'
    simp [Db.slotRevision, Db.inventorySlots, hrow, hrow', hkeeps.inventory]

theorem inventorySlots_of_eq_ok (hstaging : Staging db) {slots : List String}
    (h : deploymentInventory db revision = .ok (identity, slots)) :
    db.inventorySlots revision = slots := by
  unfold deploymentInventory at h
  split at h
  next hzero =>
    obtain ⟨_, rfl⟩ := Prod.mk.inj (Except.ok.inj h)
    unfold Db.inventorySlots
    cases hrow : db.deployment? revision with
    | none => rfl
    | some row =>
      obtain ⟨hmem, hrevision⟩ := mem_of_deployment? hrow
      exact absurd (hrevision.trans hzero) (hstaging.positive row hmem)
  next =>
    simp only [bind_eq_ok, required_eq_ok] at h
    obtain ⟨row, hrow, h⟩ := h
    obtain ⟨_, rfl⟩ := Prod.mk.inj (pure_eq_ok.1 h)
    simp [Db.inventorySlots, hrow]

theorem Underway.congr
    (h : Underway db op serving) (hcurrent : db'.currentRevision = db.currentRevision)
    (hsource : db'.slotRevision db.currentRevision = db.slotRevision db.currentRevision)
    (hgoal : db'.slotRevision op.goal = db.slotRevision op.goal) : Underway db' op serving where
  source := by rw [hcurrent]; exact h.source
  starts := by rw [hcurrent, hsource]; exact h.starts
  ends := by rw [hgoal]; exact h.ends
  outside := by rw [hcurrent, hsource, hgoal]; exact h.outside
  forward := h.forward
  restoring := h.restoring

theorem Operation.Frame.goal (h : Operation.Frame op op') : op'.goal = op.goal := by
  simp only [Operation.goal, h.action, h.targetRevision, h.sourceRevision]

theorem Operation.Frame.slots (h : Operation.Frame op op') :
    op'.engines.map (·.engineSlot) = op.engines.map (·.engineSlot) := by
  have hsnapshots := congrArg (List.map EngineSnapshot.engineSlot) h.engines
  simpa [Function.comp_def, EngineTarget.snapshot] using hsnapshots

theorem Underway.frame {serving' : String → Revision}
    (h : Underway db op serving) (hframe : Operation.Frame op op')
    (houtside : ∀ s ∉ op.engines.map (·.engineSlot), serving' s = serving s)
    (hforward : op'.phase = .forward → ∀ t ∈ op'.engines, serving' t.engineSlot =
      if t.authoritySwitched then t.progress.targetRevision else t.progress.sourceRevision)
    (hrestoring : op'.phase = .restoringSource → ∀ t ∈ op'.engines,
      t.complete = true ∨ t.progress.changed = false →
        serving' t.engineSlot = t.progress.sourceRevision) : Underway db op' serving' where
  source := hframe.sourceRevision.trans h.source
  starts := by
    intro t' ht'
    obtain ⟨t, ht, hsnapshot⟩ := hframe.snapshot_mem ht'
    obtain ⟨hslot, -, hsource, -⟩ := snapshot_fields hsnapshot
    rw [← hsource, ← hslot]
    exact h.starts t ht
  ends := by
    intro t' ht'
    obtain ⟨t, ht, hsnapshot⟩ := hframe.snapshot_mem ht'
    obtain ⟨hslot, -, -, htarget⟩ := snapshot_fields hsnapshot
    rw [← htarget, ← hslot, hframe.goal]
    exact h.ends t ht
  outside := by
    intro s hs
    rw [hframe.slots] at hs
    rw [houtside s hs, hframe.goal]
    exact h.outside s hs
  forward := hforward
  restoring := hrestoring

namespace Operation

/-- What a write keeps of the slots' authority. In restoration only slots that are done or unchanged
are spoken for. -/
structure SlotsKept (op op' : Operation) : Prop where
  forward : op'.phase = .forward → ∀ t' ∈ op'.engines, ∃ t ∈ op.engines,
    t.snapshot = t'.snapshot ∧ t.authoritySwitched = t'.authoritySwitched
  restoring : op'.phase = .restoringSource → ∀ t' ∈ op'.engines,
    t'.complete = true ∨ t'.progress.changed = false → ∃ t ∈ op.engines,
      t.snapshot = t'.snapshot ∧
        (op.phase = .restoringSource ∧ (t.complete = true ∨ t.progress.changed = false) ∨
          op.phase ≠ .restoringSource ∧ t.progress.changed = false)

theorem SlotsKept.of_engines
    (hphase : op'.phase = .restoringSource → op.phase = .restoringSource)
    (hengines : op'.engines = op.engines) : SlotsKept op op' where
  forward := fun _ t ht => ⟨t, hengines ▸ ht, rfl, rfl⟩
  restoring := fun hrestoring t ht hdone =>
    ⟨t, hengines ▸ ht, rfl, .inl ⟨hphase hrestoring, hdone⟩⟩

theorem SlotsKept.congr {mid : Operation} (h : SlotsKept op mid)
    (hphase : op'.phase = mid.phase) (hengines : op'.engines = mid.engines) :
    SlotsKept op op' := by
  refine ⟨?_, ?_⟩
  · rw [hphase, hengines]
    exact h.forward
  · rw [hphase, hengines]
    exact h.restoring

theorem SlotsKept.of_modifyProgress (op : Operation) (slot : String)
    {f : TargetProgress → TargetProgress}
    (hf : ∀ p, (f p).source = p.source ∧ (f p).target = p.target ∧
      (f p).nextStep = p.nextStep ∧ ((f p).changed = false → p.changed = false)) :
    SlotsKept op (op.modifyProgress slot f) := by
  have hsnapshot : ∀ t : EngineTarget,
      t.snapshot = { t with progress := f t.progress }.snapshot := by
    intro t
    simp only [EngineTarget.snapshot, (hf t.progress).1, (hf t.progress).2.1]
  refine ⟨fun _ t' ht' => ?_, fun hphase t' ht' hdone => ?_⟩
  · rcases updated ht' with ⟨t, ht, -, rfl⟩ | ⟨ht, -⟩
    · exact ⟨t, ht, hsnapshot t, rfl⟩
    · exact ⟨t', ht, rfl, rfl⟩
  · rcases updated ht' with ⟨t, ht, -, rfl⟩ | ⟨ht, -⟩
    · refine ⟨t, ht, hsnapshot t, .inl ⟨hphase, hdone.imp ?_ (hf t.progress).2.2.2⟩⟩
      intro hcomplete
      simpa [EngineTarget.complete, TargetProgress.complete, (hf t.progress).2.2.1]
        using hcomplete
    · exact ⟨t', ht, rfl, .inl ⟨hphase, hdone⟩⟩

theorem SlotsKept.of_enterRestoration (op : Operation) (terminal : NodeOperationState)
    (code detail : String) : SlotsKept op (op.enterRestoration terminal code detail) := by
  refine ⟨fun hphase => ?_, fun _ t' ht' hdone => ?_⟩
  · cases hphase
  · obtain ⟨t, ht, rfl⟩ := List.mem_map.1 ht'
    have hunchanged : t.progress.changed = false := by
      rcases hdone with hcomplete | hchanged
      · by_contra hyes
        simp [EngineTarget.complete, TargetProgress.complete, EngineTarget.onProgress,
          TargetProgress.enterRestoration, hyes] at hcomplete
      · exact hchanged
    refine ⟨t, ht, rfl, ?_⟩
    by_cases hrestoring : op.phase = .restoringSource
    · exact .inl ⟨hrestoring, .inr hunchanged⟩
    · exact .inr ⟨hrestoring, hunchanged⟩

end Operation

theorem OpMove.slotsKept (h : OpMove db now op effect op')
    (hlocal : effect = .plain ∨ effect.isReport = true) : Operation.SlotsKept op op' := by
  cases h with
  | switchAuthority | restorePending | restored | finishCommitted =>
    simp [Effect.isReport] at hlocal
  | enterRestoration terminal code detail => exact .of_enterRestoration op terminal code detail
  | setCondition code detail | clearDelivery =>
    exact .of_modifyProgress op _ fun p => ⟨rfl, rfl, rfl, id⟩
  | @pause slot code detail hrec =>
    have hcondition : Operation.SlotsKept op
        (op.setSlotCondition slot.engineSlot code detail) :=
      .of_modifyProgress op _ fun p => ⟨rfl, rfl, rfl, id⟩
    rw [hrec.pause_eq]
    exact hcondition.congr rfl rfl
  | advance hrec hphase hcondition hadvance =>
    refine ⟨fun _ t' ht' => ?_, fun hrestoring => absurd hrestoring hphase⟩
    rcases updated ht' with ⟨t, ht, -, rfl⟩ | ⟨ht, -⟩
    · exact ⟨t, ht, (hadvance.snapshot_eq t).symm, (hadvance.authoritySwitched_eq t).symm⟩
    · exact ⟨t', ht, rfl, rfl⟩
  | resolveAmbiguity =>
    exact .of_modifyProgress op _ fun p => ⟨rfl, rfl, rfl, fun h => by cases h⟩
  | finishRestored | finishSucceeded => exact .of_engines (fun h => by cases h) rfl
  | @deliver selection =>
    cases hkey : selection.key with
    | proxy => exact .of_engines id rfl
    | engineSlot slot =>
      exact .of_modifyProgress op slot (f := (·.deliver now)) fun p => ⟨rfl, rfl, rfl, id⟩
  | reportSlot request code detail =>
    exact .of_modifyProgress op _ fun p => ⟨rfl, rfl, rfl, id⟩
  | _ => exact .of_engines id rfl

theorem EngineTarget.OnPath.unswitched (h : t.OnPath) (hchanged : t.progress.changed = false) :
    t.authoritySwitched = false := by
  have hpath : ∀ k ≤ 8, .switchAuthority ∈ (forwardPath t.transition).take k →
      .stopBackend ∈ (forwardPath t.transition).take k ∨
        .selectRelease ∈ (forwardPath t.transition).take k := by
    cases t.transition <;> decide
  by_contra hswitched
  have hmutated := hpath _ (h.bound.trans (length_forwardPath_le _))
    (h.switched.1 (by simpa using hswitched))
  rw [h.changed.2 hmutated] at hchanged
  cases hchanged

theorem EngineTarget.OnPath.settled (h : t.OnPath) (hcomplete : t.complete = true) :
    (if t.authoritySwitched then t.progress.targetRevision else t.progress.sourceRevision) =
      t.progress.targetRevision := by
  have hswitched := h.switched
  rw [h.complete_iff.1 hcomplete] at hswitched
  have hleads := h.leads
  split
  · rfl
  next hno =>
    rw [hswitched] at hno
    cases htransition : t.transition with
    | addition | replacement | removal => simp [htransition, forwardPath] at hno
    | restart =>
      rw [htransition] at hleads
      exact hleads.2
    | unchanged =>
      rw [htransition] at hleads
      exact hleads

end Wruntime.Manager
