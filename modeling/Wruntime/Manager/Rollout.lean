import Wruntime.Manager.Progress

/-!
Strict sequential rollout. A call completes at most one step of one slot, so the steps of a run on a
slot can be read off it; they form a prefix of its path. Slots are worked on in the derived order,
one at a time.
-/

namespace Wruntime.Manager

open Fallible Table Runs WorkList

variable {db db' : Db} {now : Time} {op op' : Operation} {t t' : EngineTarget}

def bump (slot : String) (steps : List (String × Nat)) : List (String × Nat) :=
  updateWhere (fun entry => entry.1 = slot) (fun entry => (entry.1, entry.2 + 1)) steps

theorem Operation.steps_modifySlot_bump (op : Operation) (slot : String)
    {f : EngineTarget → EngineTarget} (hf : ∀ t, ((f t).engineSlot, (f t).progress.completedSteps) =
      (t.engineSlot, t.progress.completedSteps + 1)) :
    (op.modifySlot slot f).steps = bump slot op.steps := by
  simp only [Operation.steps, Operation.modifySlot, bump, updateWhere, List.map_map]
  refine List.map_congr_left fun t _ => ?_
  by_cases hslot : t.engineSlot = slot
  · simpa [hslot] using hf t
  · simp [hslot]

theorem Advance.completedSteps {slot : EngineTarget}
    {f : EngineTarget → EngineTarget} (h : Advance db now op slot f) (t : EngineTarget) :
    ((f t).engineSlot, (f t).progress.completedSteps) =
      (t.engineSlot, t.progress.completedSteps + 1) := by
  cases h with
  | selected hstep => split <;> rfl
  | _ => rfl

theorem OpMove.steps {effect : Effect} (h : OpMove db now op effect op') :
    op'.steps = op.steps ∨ ∃ slot, op'.steps = bump slot op.steps := by
  cases h with
  | enterRestoration terminal code detail =>
    exact .inl (steps_enterRestoration op terminal code detail)
  | @pause slot code detail hrec =>
    have hset : (op.setSlotCondition slot.engineSlot code detail).steps = op.steps :=
      op.steps_modifyProgress _ fun p => rfl
    rw [hrec.pause_eq]
    exact .inl hset
  | setCondition | clearDelivery | resolveAmbiguity | restorePending | reportSlot =>
    exact .inl (op.steps_modifyProgress _ fun p => rfl)
  | advance hrec hphase hcondition hadvance =>
    exact .inr ⟨_, op.steps_modifySlot_bump _ hadvance.completedSteps⟩
  | switchAuthority | restored => exact .inr ⟨_, op.steps_modifySlot_bump _ fun t => rfl⟩
  | @deliver selection => exact .inl (steps_deliver op selection.key)
  | _ => exact .inl rfl

theorem Calms.stepTable (h : Calms now db db') : db'.stepTable = db.stepTable := by
  induction h with
  | refl => rfl
  | tail _ hlast ih => exact hlast.steps.trans ih

/-- The counters of an operation after work on it: as before, or one step
further for one slot. -/
theorem Work.steps (h : Work now db db') (hkeys : Keys db) (hop' : op' ∈ db'.operations) :
    ∃ op ∈ db.operations, op.operationId = op'.operationId ∧
      (op'.steps = op.steps ∨ ∃ slot, op'.steps = bump slot op.steps) := by
  obtain ⟨before, after, hbefore, hreconcile, hafter⟩ := h
  have hkeysBefore := Moves.keys hbefore.moves hkeys
  -- The row of `op'` before the calm writes at the end, then before the reconcile.
  obtain ⟨last, hlast, hlastRow⟩ := exists_of_column hafter.stepTable hop'
  obtain ⟨hlastId, hlastSteps⟩ := Prod.mk.inj hlastRow
  have hmid : ∃ mid ∈ before.operations, mid.operationId = last.operationId ∧
      (last.steps = mid.steps ∨ ∃ slot, last.steps = bump slot mid.steps) := by
    obtain rfl | ⟨op, hmem, rfl | ⟨effect, f, _, hmove, rfl⟩⟩ := hreconcile
    · exact ⟨last, hlast, rfl, .inl rfl⟩
    · exact ⟨last, hlast, rfl, .inl rfl⟩
    · rcases (mem_write_operations hkeysBefore hmem).1 hlast with rfl | ⟨hold, _⟩
      · exact ⟨op, hmem, hmove.frame.operationId.symm, hmove.steps⟩
      · exact ⟨last, hold, rfl, .inl rfl⟩
  obtain ⟨mid, hmidMem, hmidId, hmidSteps⟩ := hmid
  obtain ⟨op, hop, hopRow⟩ := exists_of_column hbefore.stepTable hmidMem
  obtain ⟨hopId, hopSteps⟩ := Prod.mk.inj hopRow
  refine ⟨op, hop, hopId.trans (hmidId.trans hlastId), ?_⟩
  rw [hopSteps, ← hlastSteps]
  exact hmidSteps

theorem Transaction.steps {call : Call} {reply : Reply}
    (h : Transaction now call db db' reply) (hkeys : Keys db) :
    (∃ op, db'.operations = db.operations ++ [op]) ∨
      ∀ op' ∈ db'.operations, ∃ op ∈ db.operations, op.operationId = op'.operationId ∧
        (op'.steps = op.steps ∨ ∃ slot, op'.steps = bump slot op.steps) := by
  cases h with
  | insert hmove hoperations => exact .inl ⟨_, hoperations⟩
  | publish hmove hoperations =>
    exact .inr fun op' hop' => ⟨op', hoperations ▸ hop', rfl, .inl rfl⟩
  | work hwork => exact .inr fun op' hop' => hwork.steps hkeys hop'
  | @observe receivedAt request agent op result hcall hreply hleased hdeadline hwork =>
    refine .inr fun op' hop' => ?_
    have hfirst : Move now db (db.recordObservation (request.row receivedAt)) := .observe _
    obtain ⟨mid, hmid, hrest⟩ := hwork.steps (hfirst.keys hkeys) hop'
    rw [recordObservation_eq] at hmid
    exact ⟨mid, hmid, hrest⟩
  | @report request agent target op result f mid hcall hreply htarget hnone hleased hreport
      hsteps hwork hdb =>
      refine .inr fun op' hop' => ?_
      have hmem := (leasedOperation?_eq_some hleased).2.1
      have hfirst : Move now db (db.write op (.report target request) f) :=
        .write hmem hreport
      rw [hdb] at hop'
      obtain ⟨last, hlast, hid, hcases⟩ := hwork.steps (hfirst.keys hkeys) hop'
      rcases (mem_write_operations hkeys hmem).1 hlast with rfl | ⟨hold, _⟩
      · refine ⟨op, hmem, hreport.frame.operationId.symm.trans hid, ?_⟩
        rw [hsteps] at hcases
        exact hcases
      · exact ⟨last, hold, hid, hcases⟩

theorem completedSteps_cases (hnodup : (op.engines.map (·.engineSlot)).Nodup)
    (h : op'.steps = op.steps ∨ ∃ slot, op'.steps = bump slot op.steps)
    (ht : t ∈ op.engines) (ht' : t' ∈ op'.engines) (hslot : t'.engineSlot = t.engineSlot) :
    t'.progress.completedSteps = t.progress.completedSteps ∨
      t'.progress.completedSteps = t.progress.completedSteps + 1 := by
  have hrow' : (t'.engineSlot, t'.progress.completedSteps) ∈ op'.steps :=
    List.mem_map_of_mem ht'
  have hrow : ∀ {k : Nat}, (t.engineSlot, k) ∈ op.steps → k = t.progress.completedSteps := by
    intro k hk
    obtain ⟨u, hu, hukey⟩ := List.mem_map.1 hk
    obtain ⟨huslot, husteps⟩ := Prod.mk.inj hukey
    obtain rfl := eq_of_nodup_key hnodup hu ht huslot
    exact husteps.symm
  rw [hslot] at hrow'
  rcases h with heq | ⟨slot, heq⟩
  · rw [heq] at hrow'
    exact .inl (hrow hrow')
  · rw [heq] at hrow'
    obtain ⟨⟨name, k⟩, hold, hentry⟩ := mem_updateWhere.1 hrow'
    split at hentry
    · obtain ⟨rfl, hk⟩ := Prod.mk.inj hentry
      rw [hk, hrow hold]
      exact .inr rfl
    · obtain ⟨rfl, hk⟩ := Prod.mk.inj hentry
      rw [hk, hrow hold]
      exact .inl rfl

def Db.target? (db : Db) (id slot : String) : Option EngineTarget :=
  (db.operation? id).bind fun op => op.engines.find? fun t => t.engineSlot = slot

def stepTaken (before after : Option EngineTarget) : List NodeOperationStepKind :=
  match before, after with
  | some t, some t' =>
    if t.progress.completedSteps < t'.progress.completedSteps then [t.progress.nextStep]
    else []
  | _, _ => []

def stepsTaken (contract : DeploymentContract) (id slot : String) :
    World → List Input → List NodeOperationStepKind
  | _, [] => []
  | w, input :: inputs =>
    stepTaken (w.db.target? id slot) ((w.next contract input).db.target? id slot) ++
      stepsTaken contract id slot (w.next contract input) inputs

theorem target?_of_mem (hkeys : Keys db) (hop : op ∈ db.operations)
    (hnodup : (op.engines.map (·.engineSlot)).Nodup) (ht : t ∈ op.engines) :
    db.target? op.operationId t.engineSlot = some t := by
  unfold Db.target?
  rw [operation?_of_mem hkeys hop]
  exact find?_key_of_mem hnodup ht

theorem mem_of_target? {id slot : String} (h : db.target? id slot = some t) :
    ∃ op ∈ db.operations, op.operationId = id ∧ t ∈ op.engines ∧ t.engineSlot = slot := by
  obtain ⟨op, hop, hfind⟩ := Option.bind_eq_some_iff.1 h
  obtain ⟨hmem, hid⟩ := mem_of_operation? hop
  exact ⟨op, hmem, hid, found hfind⟩

def stepCount (t : Option EngineTarget) : Nat := (t.map (·.progress.completedSteps)).getD 0

section History

variable {contract : DeploymentContract} {nodeId : String} {w : World}
  (hreach : Reachable contract nodeId w)
include hreach

theorem stepCount_of_inserted (input : Input)
    (hop' : op' ∈ (w.next contract input).db.operations) (hforward : op'.phase = .forward)
    (hnew : ∀ op ∈ w.db.operations, op.operationId ≠ op'.operationId)
    (ht' : t' ∈ op'.engines) : t'.progress.completedSteps = 0 := by
  rcases new_operation (reachable_keys hreach) input hop' with
    ⟨op, hop, hid⟩ | ⟨rollout, hsubmitted⟩ | hrecorded
  · exact absurd hid (hnew op hop)
  · rw [hsubmitted.engines] at ht'
    obtain ⟨_, order, heq⟩ := Rollout.mem_engineTargets ht'
    rw [heq]
    rfl
  · cases hrecorded.phase.symm.trans hforward

theorem runAll_persists (inputs : List Input) {o : Operation} (ho : o ∈ w.db.operations) :
    ∃ o' ∈ (runAll (World.next contract) w inputs).db.operations, o.Writes o' :=
  (reach_persists (reachable_keys hreach) ho (reach_runAll_any w inputs)).2

theorem runAll_keys (inputs : List Input) : Keys (runAll (World.next contract) w inputs).db :=
  reachable_keys (runAll_reachable hreach inputs)

theorem next_steps (input : Input) (hop : op ∈ w.db.operations)
    (hop' : op' ∈ (w.next contract input).db.operations) (hid : op.operationId = op'.operationId) :
    op'.steps = op.steps ∨ ∃ slot, op'.steps = bump slot op.steps := by
  have hkeys := reachable_keys hreach
  have hkeys' := reachable_keys (hreach.step (i := input) trivial)
  rcases (step_transaction contract input.now hkeys input.call).steps hkeys with
    ⟨inserted, hoperations⟩ | hsteps
  · -- An insertion leaves the other operations alone.
    have hmem : op ∈ (w.next contract input).db.operations := by
      change op ∈ (step contract w.db input.now input.call).1.operations
      rw [hoperations]
      exact List.mem_append_left _ hop
    obtain rfl := eq_of_nodup_key hkeys'.operations hmem hop' hid
    exact .inl rfl
  · obtain ⟨prior, hprior, hpriorId, hcases⟩ := hsteps op' hop'
    obtain rfl := eq_of_nodup_key hkeys.operations hprior hop (hpriorId.trans hid.symm)
    exact hcases

theorem earlier_target (inputs : List Input)
    (hop' : op' ∈ (runAll (World.next contract) w inputs).db.operations)
    (hforward : op'.phase = .forward) (ht' : t' ∈ op'.engines)
    (hop : op ∈ w.db.operations) (hid : op.operationId = op'.operationId) :
    op.phase = .forward ∧ ∃ t ∈ op.engines, t.snapshot = t'.snapshot ∧
      w.db.target? op'.operationId t'.engineSlot = some t := by
  obtain ⟨last, hlast, hwrites⟩ := runAll_persists hreach inputs hop
  obtain rfl := eq_of_nodup_key (runAll_keys hreach inputs).operations hlast hop'
    (hwrites.frame.operationId.trans hid)
  have hphase := hwrites.phase_forward hforward
  have hordered := (reachable_progressing hreach op hop).2.ordered (by rw [hphase]; decide)
  obtain ⟨t, ht, hsnapshot⟩ := hwrites.frame.snapshot_mem ht'
  refine ⟨hphase, t, ht, hsnapshot, ?_⟩
  obtain ⟨hslot, -⟩ := snapshot_fields hsnapshot
  rw [← hid, ← hslot]
  exact target?_of_mem (reachable_keys hreach) hop hordered.nodup ht

theorem take_stepTaken (input : Input) (hop' : op' ∈ (w.next contract input).db.operations)
    (hforward : op'.phase = .forward) (ht' : t' ∈ op'.engines) : (forwardPath t'.transition).take
        (stepCount (w.db.target? op'.operationId t'.engineSlot)) ++
      stepTaken (w.db.target? op'.operationId t'.engineSlot)
        ((w.next contract input).db.target? op'.operationId t'.engineSlot) =
      (forwardPath t'.transition).take t'.progress.completedSteps := by
  have hkeys := reachable_keys hreach
  have hreach' : Reachable contract nodeId (w.next contract input) := hreach.step trivial
  have hprogress' := (reachable_progressing hreach' op' hop').2
  have hordered' := hprogress'.ordered (by rw [hforward]; decide)
  rw [target?_of_mem (reachable_keys hreach') hop' hordered'.nodup ht']
  by_cases hexists : ∃ op ∈ w.db.operations, op.operationId = op'.operationId
  · obtain ⟨op, hop, hid⟩ := hexists
    obtain ⟨hphase, t, ht, hsnapshot, htarget⟩ :=
      earlier_target hreach [input] hop' hforward ht' hop hid
    have hprogress := (reachable_progressing hreach op hop).2
    have hordered := hprogress.ordered (by rw [hphase]; decide)
    obtain ⟨hslot, hpath, -⟩ := snapshot_fields hsnapshot
    have hon := (hprogress.inSequence hphase).onPath t ht
    have hon' := (hprogress'.inSequence hforward).onPath t' ht'
    have hsteps := next_steps hreach input hop hop' hid
    rw [htarget]
    change (forwardPath t'.transition).take t.progress.completedSteps ++
      (if t.progress.completedSteps < t'.progress.completedSteps
        then [t.progress.nextStep] else []) = _
    rcases completedSteps_cases hordered.nodup hsteps ht ht' hslot.symm with hsame | hsucc
    · rw [hsame, if_neg (lt_irrefl _), List.append_nil]
    · have hbound := hon'.bound
      rw [hsucc] at hbound
      rw [hsucc, if_pos (Nat.lt_succ_self _), hon.next, hpath]
      exact (take_succ_of_stepAt (stepAt_ne_unspecified hbound)).symm
  · push Not at hexists
    have hnone : w.db.target? op'.operationId t'.engineSlot = none := by
      refine Option.eq_none_iff_forall_ne_some.2 fun t htarget => ?_
      obtain ⟨op, hop, hid, _⟩ := mem_of_target? htarget
      exact hexists op hop hid
    rw [hnone, stepCount_of_inserted hreach input hop' hforward hexists ht']
    rfl

theorem stepsTaken_eq_take (inputs : List Input)
    (hop' : op' ∈ (runAll (World.next contract) w inputs).db.operations)
    (hforward : op'.phase = .forward) (ht' : t' ∈ op'.engines) : (forwardPath t'.transition).take
        (stepCount (w.db.target? op'.operationId t'.engineSlot)) ++
      stepsTaken contract op'.operationId t'.engineSlot w inputs =
      (forwardPath t'.transition).take t'.progress.completedSteps := by
  induction inputs generalizing w with
  | nil =>
    have hordered := (reachable_progressing hreach op' hop').2.ordered
      (by rw [hforward]; decide)
    rw [target?_of_mem (reachable_keys hreach) hop' hordered.nodup ht']
    exact List.append_nil _
  | cons input inputs ih =>
    have hreach' : Reachable contract nodeId (w.next contract input) := hreach.step trivial
    have hrest := ih hreach' hop'
    suffices hstep : (forwardPath t'.transition).take
          (stepCount (w.db.target? op'.operationId t'.engineSlot)) ++
        stepTaken (w.db.target? op'.operationId t'.engineSlot)
          ((w.next contract input).db.target? op'.operationId t'.engineSlot) =
        (forwardPath t'.transition).take
          (stepCount ((w.next contract input).db.target? op'.operationId t'.engineSlot)) by
      rw [stepsTaken, ← List.append_assoc, hstep]
      exact hrest
    cases htarget : (w.next contract input).db.target? op'.operationId t'.engineSlot with
    | none =>
      -- A slot that is missing after the call was missing before it.
      have hnone : w.db.target? op'.operationId t'.engineSlot = none := by
        refine Option.eq_none_iff_forall_ne_some.2 fun t hold => ?_
        obtain ⟨op, hop, hid, _⟩ := mem_of_target? hold
        obtain ⟨op₁, hop₁, hwrites⟩ := next_persists contract (reachable_keys hreach) input hop
        obtain ⟨_, _, _, _, hfound⟩ := earlier_target hreach' inputs hop' hforward ht'
          hop₁ (hwrites.frame.operationId.trans hid)
        cases htarget.symm.trans hfound
      rw [hnone]
      rfl
    | some t₁ =>
      obtain ⟨op₁, hop₁, hid₁, ht₁, hslot₁⟩ := mem_of_target? htarget
      obtain ⟨hphase₁, t₂, ht₂, hsnapshot, hfound⟩ :=
        earlier_target hreach' inputs hop' hforward ht' hop₁ hid₁
      rw [htarget] at hfound
      obtain rfl : t₁ = t₂ := Option.some.inj hfound
      obtain ⟨-, hpath, -⟩ := snapshot_fields hsnapshot
      have hstep := take_stepTaken hreach input hop₁ hphase₁ ht₁
      rw [hid₁, hslot₁, htarget, hpath] at hstep
      exact hstep

end History

theorem Operation.InSequence.converged_before_removal (h : op.InSequence) (hordered : op.Ordered)
    (hpending : op.pendingSlot = some t) (hremoval : t.transition = .removal) {a : EngineTarget}
    (ha : a ∈ op.engines) (hkind : a.transition = .addition ∨ a.transition = .replacement) :
    a.servingConverged = true := by
  have hgroup : a.transition.group < t.transition.group := by
    rw [hremoval]
    rcases hkind with hkind | hkind <;> rw [hkind] <;> decide
  -- By the rollout order `a` stands before the pending slot, so it is complete.
  have hcomplete : a.complete = true := by
    obtain ⟨before, after, hsplit, _, hbefore⟩ := split_of_find? hpending
    have hgrouped := hordered.grouped
    rw [hsplit, List.map_append, List.map_cons, List.pairwise_append,
      List.pairwise_cons] at hgrouped
    rw [hsplit, List.mem_append, List.mem_cons] at ha
    rcases ha with hmem | rfl | hmem
    · simpa using hbefore a hmem
    · exact absurd hgroup (lt_irrefl _)
    · have horder := hgrouped.2.1.1 _ (List.mem_map_of_mem hmem)
      simp only [EngineTarget.snapshot] at horder
      omega
  have honPath := h.onPath a ha
  rw [honPath.converged, honPath.complete_iff.1 hcomplete]
  refine .inl ?_
  rcases hkind with hkind | hkind <;> rw [hkind] <;> decide

theorem Instructed.stop {db₁ : Db} {instanceId agent : String}
    {instruction : AgentInstruction} {base : Operation} {selection : Selection}
    (h : Instructed db now instanceId agent db' instruction base db₁ op selection)
    (hprogress : op.Progressing) (hactive : op.phase ≠ .complete)
    (hstep : instruction.step = .stopBackend) {slot : String}
    (hslot : instruction.target.identity = some (.engineSlot slot)) :
    op.phase = .forward ∧ ∃ t, op.pendingSlot = some t ∧ t.engineSlot = slot ∧
      selection = op.slotSelection t ∧ t.progress.nextStep = .stopBackend ∧
      selection.inspection = false := by
  obtain ⟨digest, rfl⟩ := h.instruction
  change selection.instructionStep = .stopBackend at hstep
  have hkey : selection.key = .engineSlot slot := Option.some.inj hslot
  obtain ⟨t, hpending, hname, rfl, _⟩ := selectTarget_slot h.select hkey
  have hinspection : (op.slotSelection t).inspection = false := by
    unfold Selection.instructionStep at hstep
    split at hstep
    · cases hstep
    next hnot => exact Bool.not_eq_true _ ▸ hnot
  have hnext : t.progress.nextStep = .stopBackend := by
    unfold Selection.instructionStep at hstep
    rw [hinspection] at hstep
    exact hstep
  refine ⟨?_, t, hpending, hname, rfl, hnext, hinspection⟩
  cases hphase : op.phase with
  | forward => rfl
  | complete => exact absurd hphase hactive
  | restoringSource =>
    have hsteps := (hprogress.restoring hphase).engines t (mem_of_pendingSlot hpending).1
    rw [hnext] at hsteps
    simp at hsteps

theorem mem_engines_of_delivered {selection : Selection}
    (h : op' = if selection.step.isMutating = true ∧ selection.inspection = false
      then op.deliver selection.key now else op) (ht : t ∈ op'.engines) :
    ∃ t₀ ∈ op.engines, t₀.engineSlot = t.engineSlot ∧ t₀.transition = t.transition ∧
      t₀.servingConverged = t.servingConverged := by
  subst h
  split at ht
  · cases hkey : selection.key with
    | proxy =>
      rw [hkey] at ht
      exact ⟨t, ht, rfl, rfl, rfl⟩
    | engineSlot slot =>
      rw [hkey] at ht
      obtain ⟨t₀, ht₀, rfl⟩ := mem_updateWhere.1 ht
      refine ⟨t₀, ht₀, ?_⟩
      split <;> exact ⟨rfl, rfl, rfl⟩
  · exact ⟨t, ht, rfl, rfl, rfl⟩

/-- Strict sequential rollout: a forward operation works through its slots in the derived order,
each along its path, one at a time and after the proxy; and no removal is stopped before what stays
serves. -/
theorem rollout_is_sequential (contract : DeploymentContract) (nodeId : String)
    (inputs : List Input) (op : Operation)
    (hop : op ∈ (runAll (World.next contract) (World.initial nodeId) inputs).db.operations)
    (hforward : op.phase = .forward) :
    (op.engines.Pairwise fun a b => a.rolloutOrder < b.rolloutOrder ∧
      (a.transition.group < b.transition.group ∨
        a.transition.group = b.transition.group ∧ a.engineSlot < b.engineSlot)) ∧
    (∃ k : Nat, ∀ (i : Nat) (t : EngineTarget), op.engines[i]? = some t →
      (i < k → t.complete = true) ∧ (k < i → t.Fresh)) ∧
    (op.proxy.complete = false → ∀ t ∈ op.engines, t.Fresh) ∧ (∀ t ∈ op.engines,
      t.progress.nextStep = stepAt t.transition t.progress.completedSteps ∧
      stepsTaken contract op.operationId t.engineSlot (World.initial nodeId) inputs =
        (forwardPath t.transition).take t.progress.completedSteps) ∧
    ∀ (now : Time) (instanceId agent : String) (instruction : AgentInstruction) (slot : String),
      let w := runAll (World.next contract) (World.initial nodeId) inputs
      (step contract w.db now (.claim instanceId agent)).2 = .instruction (some instruction) →
      instruction.operationId = op.operationId → instruction.step = .stopBackend →
      instruction.target.identity = some (.engineSlot slot) →
      ∀ op' ∈ (step contract w.db now (.claim instanceId agent)).1.operations,
        op'.operationId = op.operationId →
        ∀ t ∈ op'.engines, t.engineSlot = slot → t.transition = .removal →
        ∀ a ∈ op'.engines, a.transition = .addition ∨ a.transition = .replacement →
          a.servingConverged = true := by
  have hreach : Reachable contract nodeId
      (runAll (World.next contract) (World.initial nodeId) inputs) :=
    runAll_reachable .refl inputs
  have hprogress := (reachable_progressing hreach op hop).2
  have hordered := hprogress.ordered (by rw [hforward]; decide)
  have hsequence := hprogress.inSequence hforward
  refine ⟨?_, hsequence.sequential.exists_index, hsequence.proxyFirst, ?_, ?_⟩
  · have hsorted := hordered.sorted
    have hgrouped := hordered.grouped
    rw [List.pairwise_map] at hsorted hgrouped
    exact hsorted.and hgrouped
  · intro t ht
    have htaken := stepsTaken_eq_take .refl inputs hop hforward ht
    exact ⟨(hsequence.onPath t ht).next, htaken⟩
  · intro now instanceId agent instruction slot w hreply hinstructed hstep hslot op' hop' hid
      t ht htslot hremoval a ha hkind
    have hkeys := reachable_keys hreach
    obtain ⟨base, db₁, op₁, selection, h⟩ := claim_instructed (claim_of_step hreply)
    obtain ⟨hlife₁, hprogress₁⟩ :=
      Moves.progressing hkeys (reachable_progressing hreach) (h.moves hkeys) op₁ h.op_mem
    have hactive := hlife₁.active.1 (isActive_of_state (.inr (.inl h.running)))
    obtain ⟨hphase, t₁, hpending, hname, _⟩ := h.stop hprogress₁ hactive hstep hslot
    have hid₁ : op₁.operationId = instruction.operationId := by
      obtain ⟨digest, hinstruction⟩ := h.instruction
      rw [hinstruction]
      rfl
    have hfinal := h.final hkeys hop' (hid.trans (hinstructed.symm.trans hid₁.symm))
    obtain ⟨t₂, ht₂, hslot₂, hpath₂, _⟩ := mem_engines_of_delivered hfinal ht
    obtain ⟨a₂, ha₂, _, hkind₂, hconverged₂⟩ := mem_engines_of_delivered hfinal ha
    have hordered₁ := hprogress₁.ordered hactive
    obtain rfl := eq_of_nodup_key hordered₁.nodup (mem_of_pendingSlot hpending).1 ht₂
      (hname.trans (htslot.symm.trans hslot₂.symm))
    rw [← hconverged₂]
    exact (hprogress₁.inSequence hphase).converged_before_removal hordered₁ hpending
      (hpath₂.trans hremoval) ha₂ (by rw [hkind₂]; exact hkind)

open Sample

/-- The first slot of a new deployment is in progress, the second one waits: the slots stand in
their order, one after the other, and each at the step that it has reached on its path. -/
theorem rollout_is_sequential_two_slots : ∃ op ∈ (run (submitted ["blue", "green"] ++
        proxyDone "b7846ac1-801e-8127-9a15-d0dbb32719c4" ++ [claimed 12])).db.operations,
      (op.action.isDeployment = true ∧ op.phase = .forward ∧ op.engines.length = 2) ∧
      (op.engines.Pairwise fun a b => a.rolloutOrder < b.rolloutOrder) ∧
      (∃ k : Nat, ∀ (i : Nat) (t : EngineTarget), op.engines[i]? = some t →
        (i < k → t.complete = true) ∧ (k < i → t.Fresh)) ∧
      ∀ t ∈ op.engines, t.progress.nextStep = stepAt t.transition t.progress.completedSteps := by
  have hexists : ∃ op ∈ (run (submitted ["blue", "green"] ++
      proxyDone "b7846ac1-801e-8127-9a15-d0dbb32719c4" ++
      [claimed 12])).db.operations,
      op.action.isDeployment = true ∧ op.phase = .forward ∧ op.engines.length = 2 := by
    decide +kernel
  obtain ⟨op, hop, hshape⟩ := hexists
  obtain ⟨hordered, hsequential, -, hpaths, -⟩ :=
    rollout_is_sequential Sample.contract "node-a" _ op hop hshape.2.1
  exact ⟨op, hop, hshape, hordered.imp And.left, hsequential, fun t ht => (hpaths t ht).1⟩

end Wruntime.Manager
