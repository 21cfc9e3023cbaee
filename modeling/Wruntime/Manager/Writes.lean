import Wruntime.Manager.Leases
import Wruntime.Manager.Progress

/-!
The writes of a run on one operation and its slots. `CallWrite` is a write of one call, with the
evidence it reads and the result it may take in; `SlotMove` lists what it can do to a slot. A
property of a slot is proved against `SlotMove` and followed through a run by `reach_follows`.
-/

namespace Wruntime.Manager

open Fallible Table Runs Relation

variable {now : Time} {db db' : Db} {o op op' : Operation}

variable {call : Call} {reply : Reply} {evidence : Db}

/-- The databases hold the same observations and the same registrations. -/
structure Db.SameEvidence (db db' : Db) : Prop where
  observations : db.observations = db'.observations
  engines : db.engines = db'.engines
  nodeId : db.nodeId = db'.nodeId

/-- A write that reads the evidence of `evidence` and takes in no result of the
agent. -/
def QuietWrite (now : Time) (evidence : Db) (op op' : Operation) : Prop :=
  ∃ db effect, db.SameEvidence evidence ∧ effect.isReport = false ∧
    OpMove db now op effect op'

/-- The call is an accepted result for the leased operation `op`. -/
def TakesIn (db : Db) (now : Time) (call : Call) (reply : Reply) (op : Operation)
    (effect : Effect) : Prop :=
  ∃ target request agent result, effect = .report target request ∧
    call = .reportStep request agent ∧ reply = .operation result ∧
    request.target.map (fun t => (t.kind, t.identity)) = some (target.kind, some target) ∧
    db.leasedOperation? now request.nodeId request.operationId request.leaseEpoch agent
      request.agentInstanceId = some op

/-- A write of a call reads the evidence the call leaves behind, and takes in no result but the
call's own. -/
def CallWrite (now : Time) (call : Call) (reply : Reply) (db db' : Db)
    (op op' : Operation) : Prop :=
  ∃ mid effect, mid.SameEvidence db' ∧ OpMove mid now op effect op' ∧
    (effect.isReport = true → TakesIn db now call reply op effect)

theorem QuietWrite.callWrite (h : QuietWrite now db' op op') :
    CallWrite now call reply db db' op op' := by
  obtain ⟨mid, effect, hsame, hquiet, hmove⟩ := h
  refine ⟨mid, effect, hsame, hmove, fun hreport => ?_⟩
  cases hquiet.symm.trans hreport

def ReadingWrite (now : Time) (evidence : Db) (op op' : Operation) : Prop :=
  ∃ db effect, db.SameEvidence evidence ∧ OpMove db now op effect op'

theorem readingWrites_of_quiet (h : ReflTransGen (QuietWrite now evidence) op op') :
    ReflTransGen (ReadingWrite now evidence) op op' := by
  refine ReflTransGen.mono ?_ _ _ h
  rintro a b ⟨db, effect, hsame, _, hmove⟩
  exact ⟨db, effect, hsame, hmove⟩

theorem readingWrites_of_call (h : ReflTransGen (CallWrite now call reply db db') op op') :
    ReflTransGen (ReadingWrite now db') op op' := by
  refine ReflTransGen.mono ?_ _ _ h
  rintro a b ⟨mid, effect, hsame, hmove, _⟩
  exact ⟨mid, effect, hsame, hmove⟩

section

variable (h : ReflTransGen (ReadingWrite now evidence) op op')
include h

theorem writes_of_reading : op.Writes op' := by
  refine ReflTransGen.mono ?_ _ _ h
  rintro a b ⟨db, effect, _, hmove⟩
  exact ⟨db, now, effect, hmove⟩

theorem progressing_of_reading
    (hop : op.Lifecycle ∧ op.Progressing) : op'.Lifecycle ∧ op'.Progressing := by
  induction h with
  | refl => exact hop
  | tail _ hlast ih =>
    obtain ⟨db, effect, _, hmove⟩ := hlast
    exact ⟨hmove.lifecycle ih.1, hmove.progressing ih.1 ih.2⟩

end

theorem QuietMove.persists (hkeys : Keys db) (h : QuietMove now db db') (ho : o ∈ db.operations) :
    ∃ o' ∈ db'.operations,
      o' = o ∨ ∃ effect, effect.isReport = false ∧ OpMove db now o effect o' := by
  cases h with
  | @write op effect f hmem hmove hquiet =>
    rcases eq_or_key_ne hkeys.operations ho hmem with rfl | hid
    · exact ⟨f o, (mem_write_operations hkeys hmem).2 (.inl rfl), .inr ⟨effect, hquiet, hmove⟩⟩
    · exact ⟨o, (mem_write_operations hkeys hmem).2 (.inr ⟨ho, hid⟩), .inl rfl⟩
  | writeAll p f hmove =>
    refine ⟨_, mem_updateWhere.2 ⟨o, ho, rfl⟩, ?_⟩
    split
    next hp => exact .inr ⟨.plain, rfl, hmove o ho hp⟩
    next => exact .inl rfl
  | other hmove hoperations => exact ⟨o, hoperations ▸ ho, .inl rfl⟩

theorem Work.writes (hkeys : Keys db) (h : Work now db db') (ho : o ∈ db.operations) :
    db'.SameEvidence db ∧ ∃ o' ∈ db'.operations, ReflTransGen (QuietWrite now db) o o' := by
  refine (h.keeps (P := fun mid => mid.SameEvidence db ∧
    ∃ o' ∈ mid.operations, ReflTransGen (QuietWrite now db) o o')
    ?_ hkeys ⟨⟨rfl, rfl, rfl⟩, o, ho, .refl⟩).2
  rintro a b ha ⟨hsame, mid, hmid, hwrites⟩ hquiet
  refine ⟨⟨hquiet.frame.2.1.trans hsame.observations,
    hquiet.frame.2.2.1.trans hsame.engines, hquiet.frame.2.2.2.trans hsame.nodeId⟩, ?_⟩
  obtain ⟨o', ho', rfl | ⟨effect, hplain, hmove⟩⟩ := hquiet.persists ha hmid
  · exact ⟨o', ho', hwrites⟩
  · exact ⟨o', ho', hwrites.tail ⟨a, effect, hsame, hplain, hmove⟩⟩

theorem Transaction.writes (hkeys : Keys db) (h : Transaction now call db db' reply)
    (ho : o ∈ db.operations) :
    ∃ o' ∈ db'.operations, ReflTransGen (CallWrite now call reply db db') o o' := by
  have hwork : ∀ {a b : Db} {o : Operation}, Keys a → Work now a b → b.SameEvidence db' →
      o ∈ a.operations →
      a.SameEvidence db' ∧
        ∃ o' ∈ b.operations, ReflTransGen (CallWrite now call reply db db') o o' := by
    intro a b o ha hab hb ho
    obtain ⟨hsame, o', ho', hwrites⟩ := hab.writes ha ho
    have hread : a.SameEvidence db' :=
      ⟨hsame.observations.symm.trans hb.observations, hsame.engines.symm.trans hb.engines,
        hsame.nodeId.symm.trans hb.nodeId⟩
    refine ⟨hread, o', ho', ReflTransGen.mono ?_ _ _ hwrites⟩
    rintro x y ⟨mid, effect, hmid, hquiet, hmove⟩
    exact QuietWrite.callWrite ⟨mid, effect, ⟨hmid.observations.trans hread.observations,
      hmid.engines.trans hread.engines, hmid.nodeId.trans hread.nodeId⟩, hquiet, hmove⟩
  cases h with
  | insert hmove hoperations =>
    exact ⟨o, by rw [hoperations]; exact List.mem_append_left _ ho, .refl⟩
  | publish hmove hoperations => exact ⟨o, hoperations ▸ ho, .refl⟩
  | work hdone => exact (hwork hkeys hdone ⟨rfl, rfl, rfl⟩ ho).2
  | @observe receivedAt request agent op result hcall hreply hleased hdeadline hdone =>
    have hfirst : Move now db (db.recordObservation (request.row receivedAt)) := .observe _
    exact (hwork (hfirst.keys hkeys) hdone ⟨rfl, rfl, rfl⟩ (by rw [recordObservation_eq]; exact ho)).2
  | @report request agent target op result f mid hcall hreply htarget hnone hleased hmove
      hsteps hdone hdb =>
      have hmem := (leasedOperation?_eq_some hleased).2.1
      have hfirst : Move now db (db.write op (.report target request) f) := .write hmem hmove
      have hkeys' := hfirst.keys hkeys
      have hmid : mid.SameEvidence db' := by rw [hdb]; exact ⟨rfl, rfl, rfl⟩
      have hback : ∀ {o' : Operation}, o' ∈ mid.operations → o' ∈ db'.operations := by
        intro o' ho'
        rw [hdb]
        exact ho'
      rcases eq_or_key_ne hkeys.operations ho hmem with rfl | hid
      · obtain ⟨hsame, o', ho', hwrites⟩ :=
          hwork hkeys' hdone hmid ((mem_write_operations hkeys hmem).2 (.inl rfl))
        have hread : db.SameEvidence db' :=
          ⟨(write_frame _ _ _ _).2.1.symm.trans hsame.observations,
            (write_frame _ _ _ _).2.2.1.symm.trans hsame.engines,
            (write_frame _ _ _ _).2.2.2.symm.trans hsame.nodeId⟩
        exact ⟨o', hback ho', .head ⟨db, _, hread, hmove, fun _ =>
          ⟨target, request, agent, result, rfl, hcall, hreply, htarget, hleased⟩⟩ hwrites⟩
      · obtain ⟨_, o', ho', hwrites⟩ :=
          hwork hkeys' hdone hmid ((mem_write_operations hkeys hmem).2 (.inr ⟨ho, hid⟩))
        exact ⟨o', hback ho', hwrites⟩

abbrev CallWrites (contract : DeploymentContract) (w : World) (input : Input) :
    Operation → Operation → Prop :=
  ReflTransGen (CallWrite input.now input.call (step contract w.db input.now input.call).2 w.db
    (w.next contract input).db)

section Follow

variable {contract : DeploymentContract} {ok : World → Input → Prop} {start later : World}

/-- What holds of an operation at the start of a run and is kept by every call's writes holds at the
end. -/
theorem reach_follows {P : World → Operation → Prop} (hkeys : Keys start.db)
    (hop : op ∈ start.db.operations) (hstart : P start op)
    (hstep : ∀ w input o o', Reach (World.next contract) ok start w → ok w input →
      o ∈ w.db.operations → op.Writes o → P w o → CallWrites contract w input o o' →
      P (w.next contract input) o') (hrun : Reach (World.next contract) ok start later) :
    ∃ o ∈ later.db.operations, op.Writes o ∧ P later o := by
  have hall : Keys later.db ∧ ∃ o ∈ later.db.operations, op.Writes o ∧ P later o := by
    induction hrun with
    | refl => exact ⟨hkeys, op, hop, .refl, hstart⟩
    | @step w input hprev hok ih =>
      obtain ⟨hkeysW, o, ho, hwrites, hP⟩ := ih
      have htransaction := step_transaction contract input.now hkeysW input.call
      obtain ⟨o', ho', hcall⟩ := htransaction.writes hkeysW ho
      refine ⟨Moves.keys htransaction.moves hkeysW, o', ho', hwrites.trans ?_,
        hstep w input o o' hprev hok ho hwrites hP hcall⟩
      exact writes_of_reading (readingWrites_of_call hcall)
  exact hall.2

theorem reach_until {P : Operation → Prop} {R : World → Input → Prop} (hkeys : Keys start.db)
    (hop : op ∈ start.db.operations) (hstart : P op)
    (hstep : ∀ w input o o', Reach (World.next contract) ok start w → o ∈ w.db.operations →
      op.Writes o → P o → CallWrites contract w input o o' → P o' ∨ R w input)
    (hrun : Reach (World.next contract) ok start later) : ∃ o ∈ later.db.operations, op.Writes o ∧
      (P o ∨ Between (World.next contract) ok R start later) := by
  refine reach_follows (P := fun u o => P o ∨ Between (World.next contract) ok R start u) hkeys
    hop (.inl hstart) ?_ hrun
  intro w input o o' hw hok ho hwrites hstate hcall
  rcases hstate with hP | hbetween
  · exact (hstep w input o o' hw ho hwrites hP hcall).imp_right (.last hw hok)
  · exact .inr (hbetween.extend (.single hok))

end Follow

/-- The slot keeps its position, its marks and its pin. -/
structure EngineTarget.Stays (t t' : EngineTarget) : Prop where
  snapshot : t'.snapshot = t.snapshot
  completedSteps : t'.progress.completedSteps = t.progress.completedSteps
  nextStep : t'.progress.nextStep = t.progress.nextStep
  ambiguous : t'.progress.effectAmbiguous = t.progress.effectAmbiguous
  delivered : t'.progress.effectDeliveredAt = t.progress.effectDeliveredAt
  changed : t'.progress.changed = t.progress.changed
  pinned : t'.progress.pinnedBackendInstanceId = t.progress.pinnedBackendInstanceId

inductive SlotMove (db : Db) (now : Time) (op op' : Operation) (t : EngineTarget) :
    EngineTarget → Prop
  | stay {t' : EngineTarget} (hstays : t.Stays t') : SlotMove db now op op' t t'
  | deliver (hmutating : t.progress.nextStep.isMutating = true)
      (hdelivered : t.progress.effectDeliveredAt = none)
      (hambiguous : t.progress.effectAmbiguous = false) :
      SlotMove db now op op' t { t with progress := t.progress.deliver now }
  | clear {observation : SlotObservation} {delivered : Time}
      (hphase : op.phase ≠ .restoringSource)
      (hdelivered : t.progress.effectDeliveredAt = some delivered)
      (hobservation : matchingObservation db now op t.engineSlot = some observation)
      (hafter : delivered < observation.observedAt) (hshows : t.showsNoEffect observation) :
      SlotMove db now op op' t { t with progress := t.progress.clearDelivery }
  | advance {f : EngineTarget → EngineTarget} (hphase : op.phase ≠ .restoringSource)
      (hincomplete : t.complete = false) (hadvance : Advance db now op t f) :
      SlotMove db now op op' t (f t)
  | switch (hphase : op.phase ≠ .restoringSource) (hincomplete : t.complete = false)
      (hstep : t.progress.nextStep = .switchAuthority) :
      SlotMove db now op op' t (t.markSwitched.advance
        (nextForwardStep t.transition .switchAuthority) t.progress.targetRevision)
  | enterRestoration (hphase : op'.phase = .restoringSource) :
      SlotMove db now op op' t (t.onProgress TargetProgress.enterRestoration)
  | resolve {observation : SlotObservation} (hphase : op.phase = .restoringSource)
      (hrunning : op.state = .running)
      (hobservation : matchingObservation db now op t.engineSlot = some observation)
      (hconclusive : observation.conclusive = true) :
      SlotMove db now op op' t { t with progress := t.progress.resolveAmbiguity }
  | restored (hphase : op.phase = .restoringSource) (hrunning : op.state = .running)
      (hproven : sourceHostProven db now t (matchingObservation db now op t.engineSlot) =
        true) :
      SlotMove db now op op' t (t.advance none t.progress.sourceRevision)

theorem slotMove_of_modifySlot (hordered : op.Ordered) {slot : EngineTarget}
    (hslot : slot ∈ op.engines) {f : EngineTarget → EngineTarget}
    (hname : (f slot).engineSlot = slot.engineSlot) (hmove : SlotMove db now op op' slot (f slot))
    {t' : EngineTarget} (ht' : t' ∈ (op.modifySlot slot.engineSlot f).engines) :
    ∃ t ∈ op.engines, t.engineSlot = t'.engineSlot ∧ SlotMove db now op op' t t' := by
  rcases (mem_modifySlot hordered.nodup hslot).1 ht' with rfl | ⟨hold, _⟩
  · exact ⟨slot, hslot, hname.symm, hmove⟩
  · exact ⟨t', hold, rfl, .stay ⟨rfl, rfl, rfl, rfl, rfl, rfl, rfl⟩⟩

theorem OpMove.slotMove {effect : Effect} (hmove : OpMove db now op effect op')
    (hordered : op.Ordered) {t' : EngineTarget} (ht' : t' ∈ op'.engines) :
    ∃ t ∈ op.engines, t.engineSlot = t'.engineSlot ∧ SlotMove db now op op' t t' := by
  have hpending : ∀ {slot : EngineTarget}, Reconciles now op slot →
      slot ∈ op.engines ∧ slot.complete = false := fun hrec =>
    mem_of_pendingSlot (hrec.pendingSlot_eq hordered)
  have hset : ∀ (code detail : String) {slot : EngineTarget}, Reconciles now op slot →
      t' ∈ (op.setSlotCondition slot.engineSlot code detail).engines →
      ∃ t ∈ op.engines, t.engineSlot = t'.engineSlot ∧ SlotMove db now op op' t t' :=
    fun _ _ _ hrec ht => slotMove_of_modifySlot hordered (hpending hrec).1 rfl
      (.stay ⟨rfl, rfl, rfl, rfl, rfl, rfl, rfl⟩) ht
  cases hmove with
  | enterRestoration =>
    obtain ⟨t, ht, rfl⟩ := List.mem_map.1 ht'
    exact ⟨t, ht, rfl, .enterRestoration rfl⟩
  | setCondition code detail hrec | restorePending code detail hrec =>
    exact hset code detail hrec ht'
  | pause code detail hrec =>
    rw [hrec.pause_eq] at ht'
    exact hset code detail hrec ht'
  | clearDelivery hrec hphase hdelivered hobservation hafter hshows =>
    exact slotMove_of_modifySlot hordered (hpending hrec).1 rfl
      (.clear hphase hdelivered hobservation hafter hshows) ht'
  | @advance slot f hrec hphase hcondition hadvance =>
    exact slotMove_of_modifySlot hordered (hpending hrec).1 (hadvance.keeps slot).1
      (.advance hphase (hpending hrec).2 hadvance) ht'
  | switchAuthority hrec hphase hstep =>
    exact slotMove_of_modifySlot hordered (hpending hrec).1 rfl
      (.switch hphase (hpending hrec).2 hstep) ht'
  | resolveAmbiguity hrec hphase hstep hambiguous hobservation hconclusive =>
    exact slotMove_of_modifySlot hordered (hpending hrec).1 rfl
      (.resolve hphase hrec.state hobservation hconclusive) ht'
  | restored hrec hphase hstep hproven =>
    exact slotMove_of_modifySlot hordered (hpending hrec).1 rfl
      (.restored hphase hrec.state hproven) ht'
  | @deliver selection hstate hdeadline hselect hmutating hinspection =>
    cases hkey : selection.key with
    | proxy =>
      rw [hkey] at ht'
      exact ⟨t', ht', rfl, .stay ⟨rfl, rfl, rfl, rfl, rfl, rfl, rfl⟩⟩
    | engineSlot key =>
      obtain ⟨slot, hslot, rfl, rfl, _⟩ := selectTarget_slot hselect hkey
      simp only [Selection.inspection, Bool.or_eq_false_iff, hmutating,
        Bool.true_and] at hinspection
      refine slotMove_of_modifySlot hordered (mem_of_pendingSlot hslot).1 rfl ?_ ht'
      have hundelivered : slot.progress.effectDeliveredAt = none :=
        Option.isNone_iff_eq_none.1 (Option.isSome_eq_false_iff.1 hinspection.1)
      exact .deliver hmutating hundelivered hinspection.2
  | @reportSlot slot request code detail hstate hdeadline hmem =>
    exact slotMove_of_modifySlot hordered hmem rfl
      (.stay ⟨rfl, rfl, rfl, rfl, rfl, rfl, rfl⟩) ht'
  | _ => exact ⟨t', ht', rfl, .stay ⟨rfl, rfl, rfl, rfl, rfl, rfl, rfl⟩⟩

end Wruntime.Manager
