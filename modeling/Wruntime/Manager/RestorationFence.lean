import Wruntime.Manager.Redelivery

/-!
Redelivery of `restore_source`. Restoration begins with the marks of the forward phase, and a
delivery of `restore_source` marks its slot. A restoring slot only loses its mark on a conclusive
observation accepted under the lease of the time. Times are not compared, so within one epoch an
observation from before the delivery will do.
-/

namespace Wruntime.Manager

open Fallible Table Runs Relation

variable {now : Time} {db : Db} {slot : String} {op : Operation}

variable {observation : SlotObservation} {op' first : Operation}

theorem SlotObservation.conclusive_of_ready {expected : ReadyExpectation}
    (h : observationReady now observation expected = true) : observation.conclusive = true := by
  simp only [observationReady, Bool.and_eq_true, decide_eq_true_eq] at h
  obtain ⟨⟨⟨⟨⟨⟨⟨⟨_, hstate⟩, hbackend⟩, herror⟩, _⟩, _⟩, _⟩, _⟩, _⟩ := h
  simp only [SlotObservation.conclusive, decide_eq_true_eq]
  exact ⟨herror, hbackend, .inl hstate⟩

theorem conclusive_of_sourceHostProven {slot : EngineTarget}
    {found : Option SlotObservation} (h : sourceHostProven db now slot found = true) :
    ∃ observation, found = some observation ∧ observation.conclusive = true := by
  unfold sourceHostProven at h
  split at h
  · obtain ⟨hany, _⟩ := Bool.and_eq_true_iff.1 h
    obtain ⟨observation, hfound, hvalue⟩ := Option.any_eq_true _ _ |>.1 hany
    simp only [Bool.and_eq_true, decide_eq_true_eq] at hvalue
    obtain ⟨⟨⟨⟨hstate, _⟩, _⟩, herror⟩, hbackend⟩ := hvalue
    refine ⟨observation, hfound, ?_⟩
    simp only [SlotObservation.conclusive, decide_eq_true_eq]
    exact ⟨herror, hbackend, .inr hstate⟩
  · obtain ⟨hany, _⟩ := Bool.and_eq_true_iff.1 h
    obtain ⟨observation, hfound, hready⟩ := Option.any_eq_true _ _ |>.1 hany
    exact ⟨observation, hfound, SlotObservation.conclusive_of_ready hready⟩

theorem reachable_observation_epoch {contract : DeploymentContract} {nodeId : String}
    {w : World} (hreach : Reachable contract nodeId w) :
    ∀ row ∈ w.db.observations, ∃ op ∈ w.db.operations,
      op.operationId = row.operationId ∧ row.leaseEpoch ≤ op.leaseEpoch := by
  refine Reach.invariant (P := fun w => ∀ row ∈ w.db.observations, ∃ op ∈ w.db.operations,
    op.operationId = row.operationId ∧ row.leaseEpoch ≤ op.leaseEpoch) ?_ ?_ hreach
  · intro row hrow
    cases hrow
  intro w input hw _ hold row hrow
  have hkeys := reachable_keys hw
  have hprior : ∃ op ∈ w.db.operations,
      op.operationId = row.operationId ∧ row.leaseEpoch ≤ op.leaseEpoch := by
    rcases next_observations hkeys input hrow with hwas |
      ⟨receivedAt, request, agent, op, result, _, rfl, hleased, _⟩
    · exact hold row hwas
    · obtain ⟨_, hmem, hid, hlease⟩ := leasedOperation?_eq_some hleased
      obtain ⟨_, hepoch, _⟩ := Operation.leasedTo_eq_true hlease
      exact ⟨op, hmem, hid, hepoch.ge⟩
  obtain ⟨op, hop, hid, hepoch⟩ := hprior
  obtain ⟨op', hop', hwrites⟩ := next_persists contract hkeys input hop
  exact ⟨op', hop', hwrites.frame.operationId.trans hid, hepoch.trans hwrites.leaseEpoch_le⟩

def Operation.SlotMarked (op : Operation) (slot : String) : Prop :=
  ∀ t ∈ op.engines, t.engineSlot = slot → t.progress.effectAmbiguous = true

structure ConclusiveUnder (observations : List SlotObservation) (op : Operation)
    (slot : String) (row : SlotObservation) : Prop where
  stored : row ∈ observations
  conclusive : row.conclusive = true
  operationId : row.operationId = op.operationId
  engineSlot : row.engineSlot = slot
  agentInstanceId : row.agentInstanceId = op.agentInstanceId
  leaseEpoch : row.leaseEpoch = op.leaseEpoch
  running : op.state = .running

theorem ConclusiveUnder.of_matching (hrunning : op.state = .running)
    (h : matchingObservation db now op slot = some observation)
    (hconclusive : observation.conclusive = true) :
    ∃ row, ConclusiveUnder db.observations op slot row := by
  obtain ⟨row, hrow, rfl, hslot, hid, hinstance, hepoch⟩ := matchingObservation_eq_some h
  exact ⟨row, hrow, SlotObservation.conclusive_of_fromClient hconclusive, hid, hslot,
    hinstance, hepoch, hrunning⟩

/-- A write on a restoring operation keeps the mark, or reads a conclusive observation under the
lease. -/
theorem OpMove.slotMarked {effect : Effect} (hmove : OpMove db now op effect op')
    (hordered : op.Ordered) (hrestoring : op.phase = .restoringSource) (h : op.SlotMarked slot) :
    op'.SlotMarked slot ∨ ∃ row, ConclusiveUnder db.observations op slot row := by
  by_cases hevidence : ∃ row, ConclusiveUnder db.observations op slot row
  · exact .inr hevidence
  left
  intro t' ht' hslot
  obtain ⟨t, ht, hname, hslotMove⟩ := hmove.slotMove hordered ht'
  have hmarked := h t ht (hname.trans hslot)
  cases hslotMove with
  | stay hstays => exact hstays.ambiguous.trans hmarked
  | deliver => rfl
  | clear hphase | advance hphase | switch hphase => exact absurd hrestoring hphase
  | enterRestoration => exact hmarked
  | resolve _ hrunning hobservation hconclusive =>
    rw [hname.trans hslot] at hobservation
    exact absurd (ConclusiveUnder.of_matching hrunning hobservation hconclusive) hevidence
  | restored _ hrunning hproven =>
    obtain ⟨observation, hfound, hconclusive⟩ := conclusive_of_sourceHostProven hproven
    rw [hname.trans hslot] at hfound
    exact absurd (ConclusiveUnder.of_matching hrunning hfound hconclusive) hevidence

/-- What resolves a mark of `op`: a conclusive observation of its epoch or a later one, in which the
operation ran when it was read. -/
structure Resolves (op : Operation) (slot : String) (row : SlotObservation) : Prop where
  conclusive : row.conclusive = true
  operationId : row.operationId = op.operationId
  engineSlot : row.engineSlot = slot
  leaseEpoch : op.leaseEpoch ≤ row.leaseEpoch
  later : op.state ≠ .running → op.leaseEpoch < row.leaseEpoch

theorem ConclusiveUnder.resolves {observations : List SlotObservation} {row : SlotObservation}
    (h : ConclusiveUnder observations op slot row) (hwrites : first.Writes op) :
    Resolves first slot row := by
  refine ⟨h.conclusive, h.operationId.trans hwrites.frame.operationId, h.engineSlot, ?_, ?_⟩
  · rw [h.leaseEpoch]
    exact hwrites.leaseEpoch_le
  · intro hstopped
    rw [h.leaseEpoch]
    refine lt_of_le_of_ne hwrites.leaseEpoch_le fun hsame => ?_
    exact hstopped (hwrites.running h.running hsame.symm).1

theorem Operation.SlotMarked.written {read : Db}
    (hwrites : ReflTransGen (ReadingWrite now read) op op') (hop : op.Lifecycle ∧ op.Progressing)
    (hfirst : first.Writes op) (hphase : op.phase ≠ .forward) (h : op.SlotMarked slot) :
    op'.SlotMarked slot ∨ ∃ row ∈ read.observations, Resolves first slot row := by
  induction hwrites with
  | refl => exact .inl h
  | @tail mid last hprev hlast ih =>
    obtain ⟨db, effect, hsame, hmove⟩ := hlast
    obtain ⟨hlife, hprogress⟩ := progressing_of_reading hprev hop
    have hchain := writes_of_reading hprev
    rcases ih with hmarked | hresolved
    · have hmid : mid.phase = .restoringSource :=
        hlife.restoringSource hmove.active fun hback => hphase (hchain.phase_forward hback)
      have hordered := hprogress.ordered (by rw [hmid]; decide)
      rcases hmove.slotMarked hordered hmid hmarked with hstill | ⟨row, hrow⟩
      · exact .inl hstill
      · exact .inr ⟨row, hsame.observations ▸ hrow.stored, hrow.resolves (hfirst.trans hchain)⟩
    · exact .inr hresolved

section Runs

variable {contract : DeploymentContract} {nodeId : String} {start later : World}
  {input : Input} {instruction : AgentInstruction} {ok : World → Input → Prop}

/-- The observation was accepted in the run, and since `start` when its epoch is
later than the one `op` had there. -/
structure AcceptedFor (contract : DeploymentContract) (nodeId : String) (op : Operation)
    (start later : World) (row : SlotObservation) : Prop where
  accepted : Between (World.next contract) (fun _ _ => True) (AcceptsObservation contract row)
    (World.initial nodeId) later
  since : op.leaseEpoch < row.leaseEpoch → Between (World.next contract) (fun _ _ => True)
    (AcceptsObservation contract row) start later

section

variable (hstart : Reachable contract nodeId start)
include hstart

theorem acceptedFor_of_stored (hrun : Reach (World.next contract) (fun _ _ => True) start later)
    (hop : op ∈ start.db.operations) {row : SlotObservation}
    (hid : row.operationId = op.operationId) (hrow : row ∈ later.db.observations) :
    AcceptedFor contract nodeId op start later row := by
  have hkeys := reachable_keys hstart
  have hinitial : Reachable contract nodeId (World.initial nodeId) := .refl
  refine ⟨accepted_of_stored (reachable_keys hinitial) (hstart.trans hrun) nofun hrow, ?_⟩
  intro hlater
  refine accepted_of_stored hkeys hrun (fun hold => ?_) hrow
  obtain ⟨owner, howner, hownerId, hepoch⟩ := reachable_observation_epoch hstart row hold
  obtain rfl := eq_of_nodup_key hkeys.operations howner hop (hownerId.trans hid)
  exact absurd hlater (not_lt.2 hepoch)

/-- A marked slot of a restoring operation gets `restore_source` only after the mark was
resolved. -/
theorem marked_slot_resolved (hop : op ∈ start.db.operations) (hphase : op.phase = .restoringSource)
    (hmarked : op.SlotMarked slot)
    (hrun : Reach (World.next contract) (fun _ _ => True) start later)
    {before op₂ : Operation} {selection : Selection}
    (h : Delivers contract later input instruction before op₂ selection)
    (hid : instruction.operationId = op.operationId) (hkey : selection.key = .engineSlot slot) :
    ∃ row, Resolves op slot row ∧ AcceptedFor contract nodeId op start later row := by
  have hlater : Reachable contract nodeId later := hstart.trans hrun
  obtain ⟨o, ho, hwrites, hstate⟩ := reach_follows (P := fun u o => o.SlotMarked slot ∨
      ∃ row, Resolves op slot row ∧ AcceptedFor contract nodeId op start u row)
    (reachable_keys hstart) hop (.inl hmarked) (by
      intro u input o o' hu _ ho hwrites hstate hcall
      have hreads := readingWrites_of_call hcall
      have hnext := hu.step (i := input) trivial
      rcases hstate with hstill | ⟨row, hresolves, haccepted⟩
      · have hnotForward : o.phase ≠ .forward := by
          intro hforward
          rw [hwrites.phase_forward hforward] at hphase
          cases hphase
        have hops := reachable_progressing (hstart.trans hu) o ho
        refine (hstill.written hreads hops hwrites hnotForward).imp_right ?_
        rintro ⟨row, hrow, hresolves⟩
        exact ⟨row, hresolves, acceptedFor_of_stored hstart hnext hop hresolves.operationId hrow⟩
      · exact .inr ⟨row, hresolves, haccepted.accepted.extend (.single trivial),
          fun hlt => (haccepted.since hlt).extend (.single trivial)⟩) hrun
  rcases hstate with hstill | hresolved
  · have hreads := readingWrites_of_quiet h.writes
    obtain rfl := eq_of_nodup_key (reachable_keys hlater).operations ho h.before_mem
      (hwrites.frame.operationId.trans (h.before_id.trans hid).symm)
    have hnotForward : o.phase ≠ .forward := by
      intro hforward
      rw [hwrites.phase_forward hforward] at hphase
      cases hphase
    rcases hstill.written hreads (reachable_progressing hlater o ho) hwrites hnotForward with
      hmarked₂ | ⟨row, hrow, hresolves⟩
    · -- The second claim found the slot unmarked.
      obtain ⟨t, hpending, htslot, hselection, _⟩ := selectTarget_slot h.select hkey
      have hambiguous := hmarked₂ t (mem_of_pendingSlot hpending).1 htslot
      have hunambiguous := h.unambiguous
      rw [hselection] at hunambiguous
      change t.progress.effectAmbiguous = false at hunambiguous
      cases hambiguous.symm.trans hunambiguous
    · exact ⟨row, hresolves, acceptedFor_of_stored hstart hrun hop hresolves.operationId hrow⟩
  · exact hresolved

theorem Delivers.slotMarked {before : Operation}
    {selection : Selection} (h : Delivers contract start input instruction before op selection)
    (hkey : selection.key = .engineSlot slot) (hopen : op.phase ≠ .complete) :
    (op.deliver selection.key input.now).SlotMarked slot := by
  intro t' ht' hslot
  rw [hkey] at ht'
  obtain ⟨t, hpending, rfl, _⟩ := selectTarget_slot h.select hkey
  have hordered := (h.progressing hstart).2.ordered hopen
  rcases (mem_modifySlot hordered.nodup (mem_of_pendingSlot hpending).1).1 ht' with
    rfl | ⟨_, hne⟩
  · rfl
  · exact absurd hslot hne

end

/-- The redelivery fence of restoration. A claim that returns `restore_source` marks its slot. If
the slot was marked in a restoring state before, a conclusive observation of it has been accepted:
of a later epoch, or since that state. -/
theorem restoration_redelivery_needs_evidence (hstart : Reachable contract nodeId start) :
    (∀ input instruction slot, Claims contract start input instruction →
      instruction.step = .restoreSource → instruction.restoration = true →
      instruction.target.identity = some (.engineSlot slot) →
      ∃ o ∈ (start.next contract input).db.operations,
        o.operationId = instruction.operationId ∧ o.leaseEpoch = instruction.leaseEpoch ∧
        o.phase = .restoringSource ∧ o.SlotMarked slot) ∧
    (∀ (o : Operation) terminal code detail slot, o.SlotMarked slot →
      (o.enterRestoration terminal code detail).SlotMarked slot) ∧
    ∀ o ∈ start.db.operations, ∀ slot, o.phase = .restoringSource → o.SlotMarked slot →
      ∀ later input instruction, Reach (World.next contract) (fun _ _ => True) start later →
        Claims contract later input instruction → instruction.step = .restoreSource →
        instruction.operationId = o.operationId →
        instruction.target.identity = some (.engineSlot slot) →
        ∃ row, Resolves o slot row ∧ AcceptedFor contract nodeId o start later row := by
  refine ⟨?_, ?_, ?_⟩
  · intro input instruction slot hclaim hstep hrestoring hidentity
    obtain ⟨before, op, selection, h⟩ := hclaim.delivers hstart (by rw [hstep]; rfl)
    have hkey : selection.key = .engineSlot slot :=
      Option.mem_unique h.identity hidentity
    have hphase := h.restoration.1 hrestoring
    refine ⟨_, h.after_mem, ?_, ?_, ?_, h.slotMarked hstart hkey (by rw [hphase]; decide)⟩
    · rw [hkey, h.operationId]
      rfl
    · rw [hkey, h.leaseEpoch]
      rfl
    · rw [hkey]
      exact hphase
  · intro o terminal code detail slot hmarked t' ht' hslot
    obtain ⟨t, ht, rfl⟩ := List.mem_map.1 ht'
    exact hmarked t ht hslot
  · intro o ho slot hphase hmarked later input instruction hrun hclaim hstep hid hidentity
    obtain ⟨before, op₂, selection, h⟩ :=
      hclaim.delivers (hstart.trans hrun) (by rw [hstep]; rfl)
    exact marked_slot_resolved hstart ho hphase hmarked hrun h hid
      (Option.mem_unique h.identity hidentity)

end Runs

open Sample

/-- A first deployment of slot `blue` up to the selection of its release. -/
def blueSelected (id : String) : List Input :=
  submitted ["blue"] ++ proxyDone id ++
    [claimed 12, reported 13
        (result id 1 .verifyReleaseMetadata (.engineSlot "blue") 1 "" ""),
      claimed 14,
      observed 15 (Sample.observation id 1 "blue" 1 "blue-1" "" .exited)]

/-- A cancelled deployment whose slot is told to restore its source, observed and
told again. -/
theorem restoration_redelivered_after_observation :
    let id := "8d7eef43-aa27-83b7-a7ab-2a5f124cae58"
    let start := run (blueSelected id ++
      [⟨seconds 16, .cancel id⟩, claimed 17])
    let later := start.next Sample.contract (observed 18
      (Sample.observation id 2 "blue" 1 "blue-1" "" .exited))
    ∃ o ∈ start.db.operations, ∃ instruction row,
      Claims Sample.contract later (claimed 19) instruction ∧
      instruction.step = .restoreSource ∧ Resolves o "blue" row ∧
      AcceptedFor Sample.contract "node-a" o start later row := by
  intro id start later
  have hstart : Reachable Sample.contract "node-a" start := reachable_run _
  have hop : ∃ o ∈ start.db.operations, o.operationId = id ∧ o.phase = .restoringSource ∧
      ∀ t ∈ o.engines, t.engineSlot = "blue" → t.progress.effectAmbiguous = true := by
    decide +kernel
  obtain ⟨o, ho, hid, hphase, hmarked⟩ := hop
  obtain ⟨instruction, hclaims, hstep, hinstruction, hslot⟩ :
      ∃ i, Claims Sample.contract later (claimed 19) i ∧ i.step = .restoreSource ∧
        i.operationId = id ∧ i.target.identity = some (.engineSlot "blue") :=
    claims_of_any ⟨_, _, rfl⟩ (by decide +kernel)
  obtain ⟨row, hresolves, haccepted⟩ := (restoration_redelivery_needs_evidence hstart).2.2
    o ho "blue" hphase hmarked later (claimed 19) instruction (.single trivial) hclaims
    hstep (hinstruction.trans hid.symm) hslot
  exact ⟨o, ho, instruction, row, hclaims, hstep, hresolves, haccepted⟩

/-- The observations of a run that name a lease epoch. -/
def World.observedIn (w : World) (epoch : Nat) : List Entry :=
  w.log.filter fun entry => match entry.call with
    | .reportObservation _ request _ => request.leaseEpoch = epoch
    | _ => false

/-- A forward mutation proven effective does not mark its slot: after a cancel its source is
restored with no observation under the new lease. -/
theorem proven_mutation_restored_unobserved :
    let id := "8d7eef43-aa27-83b7-a7ab-2a5f124cae58"
    let delivering := run ((blueSelected id).take 13)
    let w := run (blueSelected id ++ [⟨seconds 16, .cancel id⟩])
    Reachable Sample.contract "node-a" w ∧ w.observedIn 2 = [] ∧
      (step Sample.contract delivering.db (seconds 14)
        (.claim "activation-1" "agent-a")).2.instruction?.any (fun instruction =>
          instruction.step = .selectRelease ∧ instruction.restoration = false ∧
          instruction.target.identity = some (.engineSlot "blue")) = true ∧
      (step Sample.contract w.db (seconds 17)
        (.claim "activation-1" "agent-a")).2.instruction?.any (fun instruction =>
          instruction.step = .restoreSource ∧ instruction.restoration = true ∧
          instruction.leaseEpoch = 2 ∧
          instruction.target.identity = some (.engineSlot "blue")) = true := by
  intro id delivering w
  exact ⟨reachable_run _, by decide +kernel, by decide +kernel, by decide +kernel⟩

end Wruntime.Manager
