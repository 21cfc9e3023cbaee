import Wruntime.Fleet.System

/-!
The guard of manager rollouts. It names the one rollout that is neither terminal nor reset, the
accepted policy moves only when that rollout completes, and a recovery permit lives from the reset
of a failed rollout to the next begin of the same principal.
-/

namespace Wruntime.Fleet

open Fallible Table Runs Sql
open Manager (Time Status)

variable {r rollout : Rollout} {rolloutId : Uuid} {outcomes : List MemberOutcome}
  {principal : String} {expectedPhase nextPhase : Phase} {threshold : Time} {recorded : Store}
variable {contract : Contract} {db db' s t : Store}

/-- The rollout holds the guard: it has not ended, or it failed closed and has not been
reset. -/
def Rollout.live (rollout : Rollout) : Bool :=
  match rollout.phase with
  | .completed | .failedPreClose => false
  | .failedClosed => rollout.reset.isNone
  | _ => true

theorem live_iff (hreset : rollout.reset = none) :
    rollout.live = true ↔ ¬(rollout.phase = .completed ∨ rollout.phase = .failedPreClose) := by
  unfold Rollout.live
  cases rollout.phase <;> simp [hreset]

def Phase.rank : Phase → Nat
  | .unspecified => 0
  | .prepared => 1
  | .staging => 2
  | .closingOld => 3
  | .oldClosed => 4
  | .startingTarget => 5
  | .targetReadyClosed => 6
  | .activatingTarget => 7
  | .completed => 8
  | .failedPreClose => 9
  | .failedClosed => 10

theorem rank_lt {p q : Phase} (h : p.legal q = true) : p.rank < q.rank := by
  revert h
  cases p <;> cases q <;> decide

theorem not_last {p q : Phase} (h : p.legal q = true) :
    p ≠ .completed ∧ p ≠ .failedPreClose ∧ p ≠ .failedClosed := by
  refine ⟨?_, ?_, ?_⟩ <;> rintro rfl <;> cases q <;> cases h

structure Guarded (db : Store) : Prop where
  rolloutIds : (db.rollouts.map Rollout.rolloutId).Nodup
  active : ∀ r ∈ db.rollouts, r.live = true ↔ db.guard.activeRolloutId = some r.rolloutId
  known : ∀ id, db.guard.activeRolloutId = some id → ∃ r ∈ db.rollouts, r.rolloutId = id
  permit : ∀ id, db.guard.activeRolloutId = some id →
    db.guard.recoveryPermitPrincipalUri = none
  newer : ∀ r ∈ db.rollouts, db.guard.activeRolloutId = some r.rolloutId →
    ∀ a, db.guard.accepted = some a →
      a.generation.toUInt64 ≤ r.request.targetGeneration ∧
      (a.generation = r.targetGeneration → a.digest = r.request.targetPolicyDigest)
  resets : ∀ r ∈ db.rollouts, r.reset ≠ none → r.phase = .failedClosed

theorem guarded_empty : Guarded Store.empty := by
  constructor <;> simp [Store.empty]

section Lookup

theorem mem_of_rollout? {id : Uuid} (h : db.rollout? id = some r) :
    r ∈ db.rollouts ∧ r.rolloutId = id :=
  found h

theorem rollout?_of_mem (hids : (db.rollouts.map Rollout.rolloutId).Nodup)
    (hr : r ∈ db.rollouts) : db.rollout? r.rolloutId = some r :=
  find?_key_of_mem hids hr

theorem active?_eq (h : db.active? = some r) :
    db.guard.activeRolloutId = some r.rolloutId ∧ r ∈ db.rollouts := by
  simp only [Store.active?, Option.bind_eq_some_iff] at h
  obtain ⟨id, hid, hr⟩ := h
  obtain ⟨hmem, rfl⟩ := mem_of_rollout? hr
  exact ⟨hid, hmem⟩

end Lookup

section Frames

variable {now : Time}
variable {seen : List (Role × String)}

theorem observe_guard (managerId : String) (policy : Policy) :
    (observeManagerRollout contract db now managerId policy).1.guard = db.guard := by
  unfold observeManagerRollout
  split <;> rfl

theorem observe_rollouts (managerId : String) (policy : Policy) :
    (observeManagerRollout contract db now managerId policy).1.rollouts = db.rollouts := by
  unfold observeManagerRollout
  split <;> rfl

theorem recordOutcome_frame {replay : Bool} {outcome : MemberOutcome}
    (h : recordOutcome contract db rolloutId replay seen outcome = .ok db') :
    db'.guard = db.guard ∧ db'.rollouts = db.rollouts ∧ db'.managers = db.managers := by
  simp only [recordOutcome, bind_eq_ok, required_eq_ok] at h
  obtain ⟨_, _, _, _, member, _, h⟩ := h
  split at h
  · simp only [bind_eq_ok, pure_eq_ok] at h
    obtain ⟨_, _, rfl⟩ := h
    exact ⟨rfl, rfl, rfl⟩
  · simp only [bind_eq_ok, pure_eq_ok] at h
    obtain ⟨_, _, rfl⟩ := h
    exact ⟨rfl, rfl, rfl⟩

theorem recordOutcomes_frame {replay : Bool}
    (h : recordOutcomes contract rolloutId replay seen outcomes db = .ok db') :
    db'.guard = db.guard ∧ db'.rollouts = db.rollouts ∧ db'.managers = db.managers := by
  induction outcomes generalizing db seen with
  | nil =>
    cases h
    exact ⟨rfl, rfl, rfl⟩
  | cons outcome rest ih =>
    simp only [recordOutcomes, bind_eq_ok] at h
    obtain ⟨mid, hmid, hrest⟩ := h
    obtain ⟨hguard, hrollouts, hmanagers⟩ := recordOutcome_frame hmid
    obtain ⟨hguard', hrollouts', hmanagers'⟩ := ih hrest
    exact ⟨hguard'.trans hguard, hrollouts'.trans hrollouts, hmanagers'.trans hmanagers⟩

end Frames

section Steps

variable {now : Time}

theorem Guarded.frame (h : Guarded db) (hguard : db'.guard = db.guard)
    (hrollouts : db'.rollouts = db.rollouts) : Guarded db' := by
  obtain ⟨hids, hactive, hknown, hpermit, hnewer, hresets⟩ := h
  constructor <;> simp only [hguard, hrollouts] <;> assumption

theorem guarded_bootstrap (hactive : db.guard.activeRolloutId = none)
    (hrollouts : db.rollouts = []) (accepted : AcceptedPolicy) :
    Guarded { db with guard := { db.guard with accepted := some accepted } } := by
  constructor <;> simp [hactive, hrollouts]

section

variable (h : Guarded db)
include h

theorem Guarded.begun {request : BeginManagerRolloutRequest} {accepted : AcceptedPolicy}
    (hbegun : Begun contract db now principal request rolloutId db' accepted) : Guarded db' := by
  -- Before the begin no rollout holds the guard.
  have hnone : ∀ r ∈ db.rollouts, r.live ≠ true := by
    intro r hr hlive
    have hsome := (h.active r hr).1 hlive
    cases hbegun.inactive.symm.trans hsome
  rw [hbegun.result]
  constructor
  · exact Table.nodup_snoc h.rolloutIds hbegun.unused
  · intro r hr
    rcases mem_snoc.1 hr with hold | rfl
    · constructor
      · exact fun hlive => absurd hlive (hnone r hold)
      · intro hsome
        exact absurd (Option.some.inj hsome).symm (hbegun.unused r hold)
    · exact ⟨fun _ => rfl, fun _ => rfl⟩
  · intro id hid
    refine ⟨_, List.mem_append_right _ (List.mem_singleton_self _), ?_⟩
    exact Option.some.inj hid
  · exact fun _ _ => rfl
  · intro r hr hsome a ha
    rcases mem_snoc.1 hr with hold | rfl
    · exact absurd (Option.some.inj hsome).symm (hbegun.unused r hold)
    · simp only [Store.create, hbegun.accepted_eq, Option.some.injEq] at ha
      subst ha
      exact ⟨hbegun.newer, hbegun.sameDigest⟩
  · intro r hr hreset
    rcases mem_snoc.1 hr with hold | rfl
    · exact h.resets r hold hreset
    · exact absurd rfl hreset

section

variable (hadvanced : Advanced contract db now rolloutId principal expectedPhase nextPhase outcomes
  threshold db' rollout recorded)
include hadvanced

theorem Advanced.active
    : rollout ∈ db.rollouts ∧ rollout.rolloutId = rolloutId ∧ rollout.reset = none ∧
      db.guard.activeRolloutId = some rollout.rolloutId := by
  obtain ⟨hmem, hid⟩ := mem_of_rollout? hadvanced.rollout_eq
  obtain ⟨hcompleted, hpreClose, hclosed⟩ := not_last hadvanced.legal
  rw [← hadvanced.phase_eq] at hcompleted hpreClose hclosed
  have hreset : rollout.reset = none := by
    by_contra hreset
    exact hclosed (h.resets rollout hmem hreset)
  refine ⟨hmem, hid, hreset, ?_⟩
  rw [← h.active rollout hmem, live_iff hreset]
  exact not_or.2 ⟨hcompleted, hpreClose⟩

theorem Guarded.advanced : Guarded db' := by
  obtain ⟨hmem, rfl, hreset, hactive⟩ := hadvanced.active h
  obtain ⟨hguard, hrollouts, _⟩ := recordOutcomes_frame hadvanced.recorded_eq
  -- The other rollouts are not live, before and after.
  have hothers : ∀ r ∈ db.rollouts, r.rolloutId ≠ rollout.rolloutId → r.live = false := by
    intro r hr hne
    by_contra hlive
    have hsome := (h.active r hr).1 (by simpa using hlive)
    rw [hactive] at hsome
    exact hne (Option.some.inj hsome).symm
  have hentered : db'.guard.activeRolloutId =
      if nextPhase = .completed ∨ nextPhase = .failedPreClose then none
      else some rollout.rolloutId := by
    rw [hadvanced.result]
    simp only [Store.enterPhase, Guard.enter, hguard, hactive, if_true]
    cases nextPhase <;> simp [hactive]
  have hrows : db'.rollouts = updateWhere (fun r => r.rolloutId = rollout.rolloutId)
      (fun r => { r with
        phase := nextPhase
        failure := nextPhase.terminalFailure <|> r.failure }) db.rollouts := by
    rw [hadvanced.result]
    simp only [Store.enterPhase, hrollouts]
  constructor
  · rw [hrows]
    exact nodup_updateWhere h.rolloutIds fun _ => rfl
  · intro r hr
    rw [hrows] at hr
    rw [hentered]
    rcases (mem_updateWhere_key h.rolloutIds hmem).1 hr with rfl | ⟨hold, hne⟩
    · refine Iff.trans (live_iff hreset) ?_
      simp
    · rw [hothers r hold hne]
      constructor
      · exact fun hfalse => by cases hfalse
      · intro hsome
        split at hsome
        · cases hsome
        · exact absurd (Option.some.inj hsome).symm hne
  · intro id hid
    rw [hentered] at hid
    split at hid
    · cases hid
    · obtain rfl := Option.some.inj hid
      rw [hrows]
      exact ⟨_, mem_updateWhere.2 ⟨rollout, hmem, rfl⟩, by split <;> rfl⟩
  · intro id hid
    rw [hadvanced.result]
    have hpermit := h.permit _ hactive
    simp only [Store.enterPhase, Guard.enter, hguard, hactive, if_true]
    cases nextPhase <;> exact hpermit
  · intro r hr hsome a ha
    rw [hentered] at hsome
    split at hsome
    · cases hsome
    next hgoing =>
      have hkept : db'.guard.accepted = db.guard.accepted := by
        rw [hadvanced.result]
        simp only [Store.enterPhase, Guard.enter, hguard, hactive, if_true]
        cases nextPhase <;> simp_all
      rw [hkept] at ha
      rw [hrows] at hr
      rcases (mem_updateWhere_key h.rolloutIds hmem).1 hr with rfl | ⟨-, hne⟩
      · exact h.newer rollout hmem hactive a ha
      · exact absurd (Option.some.inj hsome).symm hne
  · intro r hr hnone
    rw [hrows] at hr
    rcases (mem_updateWhere_key h.rolloutIds hmem).1 hr with rfl | ⟨hold, -⟩
    · exact absurd hreset hnone
    · exact h.resets r hold hnone

end

theorem Guarded.wasReset {request : ResetFailedManagerRolloutRequest} {receipt : ResetReceipt}
    (hreset : WasReset db principal request db' rollout receipt) : Guarded db' := by
  obtain ⟨hmem, hid⟩ := mem_of_rollout? hreset.rollout_eq
  have hactive := hreset.active
  rw [← hid] at hactive
  rw [hreset.result]
  constructor
  · exact nodup_updateWhere h.rolloutIds fun _ => rfl
  · intro r hr
    simp only [Store.resetRollout, reduceCtorEq, iff_false]
    rcases (mem_updateWhere_key h.rolloutIds hmem).1 hr with rfl | ⟨hold, hne⟩
    · simp [Rollout.live, hreset.failed]
    · intro hlive
      have hsome := (h.active r hold).1 hlive
      rw [hactive] at hsome
      exact hne (Option.some.inj hsome).symm
  · intro id hid
    cases hid
  · intro id hid
    cases hid
  · intro r _ hsome
    cases hsome
  · intro r hr hnone
    rcases (mem_updateWhere_key h.rolloutIds hmem).1 hr with rfl | ⟨hold, -⟩
    · exact hreset.failed
    · exact h.resets r hold hnone

end

theorem next_guarded (input : Input) (h : Guarded db) : Guarded (next contract db input) := by
  obtain ⟨now, call⟩ := input
  refine next_elim h fun db' hcommits => ?_
  cases hcommits with
  | managers => exact h.frame rfl rfl
  | bootstrap _ hactive hrollouts _ => exact guarded_bootstrap hactive hrollouts _
  | observe managerId policy =>
    exact h.frame (observe_guard managerId policy) (observe_rollouts managerId policy)
  | beginRollout _ hbegun => exact h.begun hbegun
  | advanceRollout hadvanced => exact h.advanced hadvanced
  | resetRollout _ hreset => exact h.wasReset hreset

end Steps

theorem reachable_guarded (h : Reachable contract db) : Guarded db :=
  h.invariant guarded_empty fun _ input _ _ => next_guarded input

/-- A later row of the rollout: declaration kept, phase not gone back, receipt still there. -/
structure Rollout.Follows (later rollout : Rollout) : Prop where
  rolloutId : later.rolloutId = rollout.rolloutId
  principal : later.deploymentPrincipalUri = rollout.deploymentPrincipalUri
  digest : later.canonicalRequestDigest = rollout.canonicalRequestDigest
  request : later.request = rollout.request
  targetSet : later.expectedTargetSetHash = rollout.expectedTargetSetHash
  rank_le : rollout.phase.rank ≤ later.phase.rank
  reset : ∀ receipt, rollout.reset = some receipt → later.reset = some receipt

theorem Rollout.Follows.refl (rollout : Rollout) : rollout.Follows rollout :=
  ⟨rfl, rfl, rfl, rfl, rfl, le_rfl, fun _ h => h⟩

theorem Rollout.Follows.trans {a b c : Rollout} (hba : b.Follows a) (hcb : c.Follows b) :
    c.Follows a :=
  ⟨hcb.rolloutId.trans hba.rolloutId, hcb.principal.trans hba.principal,
    hcb.digest.trans hba.digest, hcb.request.trans hba.request,
    hcb.targetSet.trans hba.targetSet, hba.rank_le.trans hcb.rank_le,
    fun receipt h => hcb.reset receipt (hba.reset receipt h)⟩

/-- The accepted generation has not fallen, and the same generation has the same digest. -/
def Guard.Follows (later guard : Guard) : Prop :=
  ∀ a, guard.accepted = some a → ∃ b, later.accepted = some b ∧
    a.generation.toUInt64 ≤ b.generation.toUInt64 ∧
    (b.generation = a.generation → b.digest = a.digest)

theorem Guard.Follows.refl (guard : Guard) : guard.Follows guard :=
  fun a ha => ⟨a, ha, UInt64.le_refl _, fun _ => rfl⟩

theorem toUInt64_inj {a b : Int64} (h : a.toUInt64 = b.toUInt64) : a = b := by
  rw [← Int64.toInt64_toUInt64 a, h, Int64.toInt64_toUInt64]

theorem Guard.Follows.trans {a b c : Guard} (hba : b.Follows a) (hcb : c.Follows b) :
    c.Follows a := by
  intro x hx
  obtain ⟨y, hy, hxy, hdigest⟩ := hba x hx
  obtain ⟨z, hz, hyz, hdigest'⟩ := hcb y hy
  refine ⟨z, hz, UInt64.le_trans hxy hyz, fun hsame => ?_⟩
  -- Equal ends squeeze the generation in between.
  rw [hsame] at hyz
  have hmid := toUInt64_inj (UInt64.le_antisymm hxy hyz)
  rw [hdigest' (hsame.trans hmid), hdigest hmid.symm]

structure Store.Follows (later db : Store) : Prop where
  guard : later.guard.Follows db.guard
  rollouts : ∀ r ∈ db.rollouts, ∃ r' ∈ later.rollouts, r'.Follows r

theorem Store.Follows.refl (db : Store) : db.Follows db :=
  ⟨.refl _, fun r hr => ⟨r, hr, .refl r⟩⟩

theorem Store.Follows.trans {a b c : Store} (hba : b.Follows a) (hcb : c.Follows b) :
    c.Follows a := by
  refine ⟨hba.guard.trans hcb.guard, fun r hr => ?_⟩
  obtain ⟨r', hr', hfollows⟩ := hba.rollouts r hr
  obtain ⟨r'', hr'', hfollows'⟩ := hcb.rollouts r' hr'
  exact ⟨r'', hr'', hfollows.trans hfollows'⟩

section Later

variable {now : Time}

theorem Advanced.guard_follows (h : Guarded db)
    (hadvanced : Advanced contract db now rolloutId principal expectedPhase nextPhase outcomes
      threshold db' rollout recorded) : db'.guard.Follows db.guard := by
  obtain ⟨hmem, _, _, hactive⟩ := hadvanced.active h
  obtain ⟨hguard, _, _⟩ := recordOutcomes_frame hadvanced.recorded_eq
  rw [hadvanced.result]
  simp only [Store.enterPhase, Guard.enter, hguard, hactive, if_true]
  intro a ha
  by_cases hcompleted : nextPhase = .completed
  · subst hcompleted
    obtain ⟨hnewer, hdigest⟩ := h.newer rollout hmem hactive a ha
    refine ⟨rollout.target, rfl, ?_, fun hsame => (hdigest hsame.symm).symm⟩
    simpa [Rollout.target, Rollout.targetGeneration] using hnewer
  · refine ⟨a, ?_, UInt64.le_refl _, fun _ => rfl⟩
    cases nextPhase <;> first
      | exact ha
      | exact absurd rfl hcompleted

theorem next_follows (input : Input) (h : Guarded db) : (next contract db input).Follows db := by
  obtain ⟨now, call⟩ := input
  refine next_elim (.refl db) fun db' hcommits => ?_
  cases hcommits with
  | managers => exact ⟨.refl _, fun r hr => ⟨r, hr, .refl r⟩⟩
  | bootstrap haccepted _ _ _ =>
    refine ⟨fun a ha => ?_, fun r hr => ⟨r, hr, .refl r⟩⟩
    cases haccepted.symm.trans ha
  | observe managerId policy =>
    constructor
    · rw [observe_guard]
      exact .refl _
    · rw [observe_rollouts]
      exact fun r hr => ⟨r, hr, .refl r⟩
  | beginRollout _ hbegun =>
    rw [hbegun.result]
    exact ⟨.refl _, fun r hr => ⟨r, List.mem_append_left _ hr, .refl r⟩⟩
  | @advanceRollout rolloutId _ _ nextPhase _ _ _ rollout _ hadvanced =>
    obtain ⟨hmem, hid, _, _⟩ := hadvanced.active h
    obtain ⟨_, hrollouts, _⟩ := recordOutcomes_frame hadvanced.recorded_eq
    refine ⟨hadvanced.guard_follows h, ?_⟩
    rw [hadvanced.result, Store.enterPhase, hrollouts]
    refine exists_updated .refl fun r hr hsame => ?_
    obtain rfl := eq_of_nodup_key h.rolloutIds hr hmem (of_decide_eq_true hsame)
    have hlt := rank_lt hadvanced.legal
    rw [← hadvanced.phase_eq] at hlt
    exact ⟨rfl, rfl, rfl, rfl, rfl, le_of_lt hlt, fun _ h => h⟩
  | @resetRollout _ _ _ _ rollout _ _ hreset =>
    obtain ⟨hmem, _⟩ := mem_of_rollout? hreset.rollout_eq
    rw [hreset.result]
    refine ⟨.refl _, exists_updated .refl fun r hr hsame => ?_⟩
    obtain rfl := eq_of_nodup_key h.rolloutIds hr hmem (of_decide_eq_true hsame)
    refine ⟨rfl, rfl, rfl, rfl, rfl, le_rfl, fun receipt hreceipt => ?_⟩
    cases hreset.fresh.symm.trans hreceipt

theorem follows_of_run (hs : Reachable contract s)
    (hst : Reach (next contract) (fun _ _ => True) s t) : t.Follows s :=
  hst.related (R := fun a b => b.Follows a) .refl (fun hab hbc => hab.trans hbc)
    fun _ input hrun _ => next_follows input (reachable_guarded (hs.trans hrun))

end Later

/-- The same request again. What the manager draws or is configured with, and its gate, may
differ. -/
def Call.Repeats : Call → Call → Prop
  | .beginRollout principal request _ _, .beginRollout principal' request' _ _ =>
    principal' = principal ∧ request' = request
  | .advanceRollout rolloutId principal expectedPhase nextPhase outcomes _,
      .advanceRollout rolloutId' principal' expectedPhase' nextPhase' outcomes' _ =>
      rolloutId' = rolloutId ∧ principal' = principal ∧ expectedPhase' = expectedPhase ∧
        nextPhase' = nextPhase ∧ outcomes' = outcomes
  | .resetRollout principal request, .resetRollout principal' request' =>
    principal' = principal ∧ request' = request
  | _, _ => False

section Replay

variable {now : Time}
variable {request : ResetFailedManagerRolloutRequest}

theorem settle_accepted {α : Type} {result : Except Status α} {store : α → Store}
    {reply : α → Reply} (h : (settle db result store reply).2.accepted = true) :
    ∃ value, result = .ok value ∧ (settle db result store reply).1 = store value := by
  cases result with
  | ok value => exact ⟨value, rfl, rfl⟩
  | error status => cases h

theorem next_begin_stored {request canonical : BeginManagerRolloutRequest}
    {digest : String} {isOpen : Bool}
    (hcanonical : canonicalRolloutRequest contract request = .ok (canonical, digest))
    (hr : r ∈ db.rollouts) (hprincipal : r.deploymentPrincipalUri = principal)
    (hoperation : contract.uuid r.request.clientOperationId =
      contract.uuid canonical.clientOperationId) :
    next contract db ⟨now, .beginRollout principal request isOpen rolloutId⟩ = db := by
  apply settle_fst (P := fun db' => db' = db)
  · rintro ⟨db', view⟩ hok
    obtain ⟨canonical', digest', hcanonical', hcases⟩ := serveBegin_eq_ok hok
    obtain ⟨rfl, rfl⟩ := Prod.mk.inj (Except.ok.inj (hcanonical'.symm.trans hcanonical))
    rcases hcases with ⟨_, _, _, _, _, hsame, _⟩ | ⟨_, hbegun, _⟩
    · exact hsame
    · exact absurd hoperation (hbegun.fresh r hr hprincipal)
  · rfl

theorem next_advance_reached (hr : db.rollout? rolloutId = some r)
    (hreached : nextPhase.rank ≤ r.phase.rank) :
    next contract db ⟨now, .advanceRollout rolloutId principal expectedPhase nextPhase outcomes
      threshold⟩ = db := by
  simp only [next, step]
  apply settle_fst (P := fun db' => db' = db)
  · rintro ⟨db', view⟩ hok
    obtain ⟨hlegal, _, ⟨_, _, _, _, hreplay⟩ | ⟨rollout, recorded, hadvanced⟩⟩ :=
      serveAdvance_eq_ok hok
    · exact recordOutcomes_replay hreplay
    · -- The rollout would still have to be in the earlier phase.
      obtain rfl := Option.mem_unique hr hadvanced.rollout_eq
      have hlt := rank_lt hlegal
      rw [hadvanced.phase_eq] at hreached
      omega
  · rfl

theorem canonicalResetRequest_rolloutId {canonical : ResetFailedManagerRolloutRequest}
    {digests : String × String}
    (h : canonicalResetRequest contract request = .ok (canonical, digests)) :
    canonical.rolloutId = request.rolloutId := by
  simp only [canonicalResetRequest, bind_eq_ok, ensure_eq_ok, pure_eq_ok] at h
  obtain ⟨_, _, _, _, _, _, _, _, hresult⟩ := h
  exact (congrArg (·.rolloutId) (Prod.mk.inj hresult).1).symm

theorem next_reset_stored {receipt : ResetReceipt} (hr : db.rollout? request.rolloutId = some r)
    (hreceipt : r.reset = some receipt) :
    next contract db ⟨now, .resetRollout principal request⟩ = db := by
  simp only [next, step]
  apply settle_fst (P := fun db' => db' = db)
  · rintro ⟨db', response⟩ hok
    obtain ⟨canonical, _, _, hcanonical, ⟨hsame, _⟩ | ⟨rollout, _, hreset, _⟩⟩ :=
      serveReset_eq_ok hok
    · exact hsame
    · have hfound := hreset.rollout_eq
      rw [canonicalResetRequest_rolloutId hcanonical, hr] at hfound
      obtain rfl := Option.some.inj hfound
      cases hreset.fresh.symm.trans hreceipt
  · rfl

/-- An accepted begin, advance or reset leaves a trace that its repetition finds at any later
time. -/
theorem next_repeated (hs : Reachable contract s) {input again : Input}
    (haccepted : (step contract s input).2.accepted = true)
    (hrepeats : input.call.Repeats again.call)
    (hst : Reach (next contract) (fun _ _ => True) (next contract s input) t) :
    next contract t again = t := by
  have hafter : Reachable contract (next contract s input) := .step hs trivial
  have hfollows := follows_of_run hafter hst
  have hids := (reachable_guarded (hafter.trans hst)).rolloutIds
  obtain ⟨now, call⟩ := input
  obtain ⟨now', call'⟩ := again
  cases call with
  | beginRollout principal request isOpen rolloutId =>
    cases call' with
    | beginRollout principal' request' isOpen' rolloutId' =>
      obtain ⟨rfl, rfl⟩ := hrepeats
      obtain ⟨⟨db', view⟩, hok, hsettled⟩ := settle_accepted haccepted
      have hnext : next contract s ⟨now, .beginRollout principal' request' isOpen rolloutId⟩ =
          db' := hsettled
      obtain ⟨canonical, digest, hcanonical, hcases⟩ := serveBegin_eq_ok hok
      have hstored : ∃ r ∈ db'.rollouts, r.deploymentPrincipalUri = principal' ∧
          contract.uuid r.request.clientOperationId =
            contract.uuid canonical.clientOperationId := by
        rcases hcases with ⟨r, hr, hprincipal, hoperation, _, rfl, _⟩ |
          ⟨_, hbegun, _⟩
        · exact ⟨r, hr, hprincipal, hoperation⟩
        · rw [hbegun.result]
          exact ⟨_, List.mem_append_right _ (List.mem_singleton_self _), rfl, rfl⟩
      obtain ⟨r, hr, hprincipal, hoperation⟩ := hstored
      obtain ⟨r', hr', hlater⟩ := hfollows.rollouts r (hnext ▸ hr)
      apply next_begin_stored hcanonical hr' (hlater.principal.trans hprincipal)
      rw [hlater.request]
      exact hoperation
    | _ => cases hrepeats
  | advanceRollout rolloutId principal expectedPhase nextPhase outcomes threshold =>
    cases call' with
    | advanceRollout rolloutId' principal' expectedPhase' nextPhase' outcomes' threshold' =>
      obtain ⟨rfl, rfl, rfl, rfl, rfl⟩ := hrepeats
      obtain ⟨⟨db', view⟩, hok, hsettled⟩ := settle_accepted haccepted
      have hnext : next contract s ⟨now, .advanceRollout rolloutId' principal' expectedPhase'
          nextPhase' outcomes' threshold⟩ =
          db' := hsettled
      obtain ⟨_, _, hcases⟩ := serveAdvance_eq_ok hok
      have hreached : ∃ r ∈ db'.rollouts, r.rolloutId = rolloutId' ∧
          r.phase = nextPhase' := by
        rcases hcases with ⟨r, hr, hphase, _, hreplay⟩ | ⟨r, recorded, hadvanced⟩
        · obtain ⟨hmem, hid⟩ := mem_of_rollout? hr
          rw [recordOutcomes_replay hreplay]
          exact ⟨r, hmem, hid, hphase⟩
        · obtain ⟨hmem, hid⟩ := mem_of_rollout? hadvanced.rollout_eq
          obtain ⟨_, hrollouts, _⟩ := recordOutcomes_frame hadvanced.recorded_eq
          rw [hadvanced.result]
          refine ⟨_, mem_updateWhere.2 ⟨r, hrollouts ▸ hmem, rfl⟩, ?_, ?_⟩
          · simp [hid]
          · simp
      obtain ⟨r, hr, hid, hphase⟩ := hreached
      obtain ⟨r', hr', hlater⟩ := hfollows.rollouts r (hnext ▸ hr)
      have hfound := rollout?_of_mem hids hr'
      rw [hlater.rolloutId, hid] at hfound
      apply next_advance_reached hfound
      rw [← hphase]
      exact hlater.rank_le
    | _ => cases hrepeats
  | resetRollout principal request =>
    cases call' with
    | resetRollout principal' request' =>
      obtain ⟨rfl, rfl⟩ := hrepeats
      obtain ⟨⟨db', response⟩, hok, hsettled⟩ := settle_accepted haccepted
      have hnext : next contract s ⟨now, .resetRollout principal' request'⟩ =
          db' := hsettled
      obtain ⟨canonical, requestDigest, evidenceDigest, hcanonical, hcases⟩ :=
        serveReset_eq_ok hok
      have hid := canonicalResetRequest_rolloutId hcanonical
      have hstored : ∃ r ∈ db'.rollouts, r.rolloutId = request'.rolloutId ∧
          ∃ receipt, r.reset = some receipt := by
        rcases hcases with ⟨rfl, r, receipt, hr, hreceipt, _⟩ | ⟨r, receipt, hreset, _⟩
        · obtain ⟨hmem, hrid⟩ := mem_of_rollout? hr
          exact ⟨r, hmem, hrid.trans hid, receipt, hreceipt⟩
        · obtain ⟨hmem, hrid⟩ := mem_of_rollout? hreset.rollout_eq
          rw [hreset.result]
          refine ⟨_, mem_updateWhere.2 ⟨r, hmem, rfl⟩, ?_, receipt, ?_⟩
          · simp [hrid, hid]
          · simp
      obtain ⟨r, hr, hrid, receipt, hreceipt⟩ := hstored
      obtain ⟨r', hr', hlater⟩ := hfollows.rollouts r (hnext ▸ hr)
      have hfound := rollout?_of_mem hids hr'
      rw [hlater.rolloutId, hrid] at hfound
      exact next_reset_stored hfound (hlater.reset receipt hreceipt)
    | _ => cases hrepeats
  | _ => cases hrepeats

end Replay

section Permit

variable {input : Input}

theorem permit_created (hbefore : db.guard.recoveryPermitPrincipalUri ≠ some principal)
    (hafter : (next contract db input).guard.recoveryPermitPrincipalUri = some principal) :
    ∃ request rollout, input.call = .resetRollout principal request ∧
      rollout ∈ db.rollouts ∧ db.guard.activeRolloutId = some rollout.rolloutId ∧
      rollout.deploymentPrincipalUri = principal ∧ rollout.phase = .failedClosed ∧
      rollout.reset = none := by
  obtain ⟨now, call⟩ := input
  revert hafter
  refine next_elim (absurd · hbefore) fun db' hcommits hafter => ?_
  cases hcommits with
  | managers | bootstrap => exact absurd hafter hbefore
  | observe managerId policy =>
    rw [observe_guard] at hafter
    exact absurd hafter hbefore
  | beginRollout _ hbegun =>
    rw [hbegun.result] at hafter
    cases hafter
  | advanceRollout hadvanced =>
    obtain ⟨hguard, _, _⟩ := recordOutcomes_frame hadvanced.recorded_eq
    rw [hadvanced.result] at hafter
    simp only [Store.enterPhase, Guard.enter, hguard] at hafter
    split at hafter
    · split at hafter <;> exact absurd hafter hbefore
    · exact absurd hafter hbefore
  | @resetRollout principal' request canonical _ rollout _ _ hreset =>
    rw [hreset.result] at hafter
    obtain ⟨hmem, hid⟩ := mem_of_rollout? hreset.rollout_eq
    have howner : rollout.deploymentPrincipalUri = principal := Option.some.inj hafter
    obtain rfl := hreset.owner.symm.trans howner
    exact ⟨request, rollout, rfl, hmem, hid ▸ hreset.active, howner, hreset.failed, hreset.fresh⟩

theorem permit_consumed (h : Guarded db)
    (hbefore : db.guard.recoveryPermitPrincipalUri = some principal) :
    ((next contract db input).guard.recoveryPermitPrincipalUri = some principal ∧
        (next contract db input).guard.activeRolloutId = none) ∨ ∃ request isOpen rolloutId,
        input.call = .beginRollout principal request isOpen rolloutId ∧
        (next contract db input).guard.recoveryPermitPrincipalUri = none ∧
        (next contract db input).guard.activeRolloutId = some rolloutId := by
  have hinactive : db.guard.activeRolloutId = none := by
    cases hactive : db.guard.activeRolloutId with
    | none => rfl
    | some id =>
      rw [h.permit id hactive] at hbefore
      cases hbefore
  obtain ⟨now, call⟩ := input
  refine next_elim (.inl ⟨hbefore, hinactive⟩) fun db' hcommits => ?_
  cases hcommits with
  | managers | bootstrap => exact .inl ⟨hbefore, hinactive⟩
  | observe managerId policy =>
    rw [observe_guard]
    exact .inl ⟨hbefore, hinactive⟩
  | @beginRollout _ request _ isOpen rolloutId _ _ _ hbegun =>
    obtain rfl := hbegun.permit principal hbefore
    rw [hbegun.result]
    exact .inr ⟨request, isOpen, rolloutId, rfl, rfl, rfl⟩
  | advanceRollout hadvanced =>
    obtain ⟨_, _, _, hactive⟩ := hadvanced.active h
    cases hinactive.symm.trans hactive
  | resetRollout _ hreset =>
    have hactive := hreset.active
    cases hinactive.symm.trans hactive

end Permit

/-- The integrity of the guard between two states of a run: generations and digests, the active
rollout, the recovery permit from reset to begin, and the repetition of accepted calls. -/
theorem rollout_guard_integrity {contract : Contract} {s t : Store}
    (hs : Reachable contract s) (hst : Reach (next contract) (fun _ _ => True) s t) :
    (∀ a, s.guard.accepted = some a → ∃ b, t.guard.accepted = some b ∧
      a.generation.toUInt64 ≤ b.generation.toUInt64 ∧
      (b.generation = a.generation → b.digest = a.digest)) ∧
    ((t.rollouts.map Rollout.rolloutId).Nodup ∧
      (∀ r ∈ t.rollouts, r.live = true ↔ t.guard.activeRolloutId = some r.rolloutId) ∧
      ∀ id, t.guard.activeRolloutId = some id → ∃ r ∈ t.rollouts, r.rolloutId = id) ∧
    ((∀ id, t.guard.activeRolloutId = some id → t.guard.recoveryPermitPrincipalUri = none) ∧
      (∀ input principal, t.guard.recoveryPermitPrincipalUri ≠ some principal →
        (next contract t input).guard.recoveryPermitPrincipalUri = some principal →
        ∃ request rollout, input.call = .resetRollout principal request ∧
          rollout ∈ t.rollouts ∧ t.guard.activeRolloutId = some rollout.rolloutId ∧
          rollout.deploymentPrincipalUri = principal ∧ rollout.phase = .failedClosed ∧
          rollout.reset = none) ∧
      ∀ input principal, t.guard.recoveryPermitPrincipalUri = some principal →
        ((next contract t input).guard.recoveryPermitPrincipalUri = some principal ∧
            (next contract t input).guard.activeRolloutId = none) ∨ ∃ request isOpen rolloutId,
            input.call = .beginRollout principal request isOpen rolloutId ∧
            (next contract t input).guard.recoveryPermitPrincipalUri = none ∧
            (next contract t input).guard.activeRolloutId = some rolloutId) ∧
    ∀ input again, (step contract s input).2.accepted = true → input.call.Repeats again.call →
      ∀ u, Reach (next contract) (fun _ _ => True) (next contract s input) u →
        next contract u again = u := by
  have hguarded := reachable_guarded (hs.trans hst)
  refine ⟨(follows_of_run hs hst).guard, ⟨hguarded.rolloutIds, hguarded.active,
    hguarded.known⟩, ⟨hguarded.permit, ?_, ?_⟩, ?_⟩
  · exact fun input principal => permit_created
  · exact fun input principal => permit_consumed hguarded
  · exact fun input again haccepted hrepeats u => next_repeated hs haccepted hrepeats

theorem repeated_begin_keeps_rollout :
    let s := Sample.run Sample.serving
    let begin := Sample.begun 2
      (Sample.request Sample.firstOperation Sample.newPolicy ["manager-a"] ["manager-b"])
    let u := next Sample.contract (next Sample.contract s begin)
      (Sample.advanced 3 Sample.firstOperation .prepared .staging [])
    u.rollouts.map (·.phase) = [.staging] ∧ next Sample.contract u begin = u := by
  intro s begin u
  obtain ⟨_, _, _, hreplay⟩ := rollout_guard_integrity (Sample.reachable_run Sample.serving)
    .refl
  exact ⟨by decide +kernel, hreplay begin begin (by decide +kernel) ⟨rfl, rfl⟩ u (.single trivial)⟩

end Wruntime.Fleet
