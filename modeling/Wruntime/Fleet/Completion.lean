import Wruntime.Fleet.Handoff
import Mathlib.Data.Finset.Order
import Mathlib.Data.Finset.Dedup

/-!
Whether a rollout that was begun can still complete when everybody follows the protocol. It can,
exactly if the target policy validates the request and no source holds the target policy: such a
source observes as a target, so its row never shows that it has closed.
-/

namespace Wruntime.Fleet

open Fallible Table Runs Sql
open Manager (Time Status)

variable {contract : Contract} {rollout : Rollout}

/-- A controller reports `READY_CLOSED` only of a target that has reported so itself. -/
def Truthful (rollout : Rollout) (db : Store) (outcome : MemberOutcome) : Prop :=
  outcome.memberRole = .target → outcome.hostActionOutcome = "READY_CLOSED" →
    ∃ m ∈ db.members, m.key = (rollout.rolloutId, .target, outcome.managerId) ∧
      m.processState = some .ready ∧ m.admissionState = some .closedRollout

/-- The calls of managers and of the rollout's controller that follow the protocol. -/
def Parties.Protocol (parties : Parties) (rollout : Rollout) (db : Store) (input : Input) :
    Prop :=
  parties.Manages rollout db input ∨
    ((∀ row ∈ db.managers, row.lastHeartbeat ≤ input.now) ∧
      ∃ expectedPhase nextPhase outcomes, input.call = .advanceRollout rollout.rolloutId
          rollout.deploymentPrincipalUri expectedPhase nextPhase outcomes parties.threshold ∧
        ∀ outcome ∈ outcomes, Truthful rollout db outcome)

section Finish

variable {parties : Parties} {phase nextPhase : Phase} {db : Store} {now early late : Time}

theorem Fresh.enterPhase (h : Fresh rollout early db) (r : Rollout) (phase : Phase) :
    Fresh rollout early (db.enterPhase r phase) :=
  ⟨h.outcomes, h.clock⟩

theorem Ongoing.reach_enter (h : Ongoing rollout phase db)
    (hlegal : phase.legal nextPhase = true) (hon : nextPhase.rank ≤ 7)
    (hclock : ∀ row ∈ db.managers, row.lastHeartbeat ≤ now)
    (hbarrier : db.remaining now parties.threshold { rollout with phase := phase } nextPhase =
      0) :
    Reach (Fleet.next contract) (parties.Protocol rollout) db
        (db.enterPhase { rollout with phase := phase } nextPhase) ∧
      Ongoing rollout nextPhase (db.enterPhase { rollout with phase := phase } nextPhase) := by
  have hrecorded : recordOutcomes contract rollout.rolloutId false [] [] db = .ok db := rfl
  constructor
  · rw [← h.next_advance hlegal hrecorded hbarrier]
    apply Reach.single
    exact .inr ⟨hclock, phase, nextPhase, [], rfl, by simp⟩
  · exact h.entered hlegal hrecorded hbarrier hon

theorem truthful_handoff (h : Ongoing rollout .startingTarget db)
    (hstarted : Started rollout early late db) :
    ∀ outcome ∈ rollout.handoff, Truthful rollout db outcome := by
  intro outcome houtcome hrole _
  rcases mem_handoff houtcome with ⟨hid, _⟩ | ⟨_, hsource⟩
  · have hkey := (h.staffed.targets _ h.mem outcome.managerId).2 hid
    obtain ⟨m, hm, hkey⟩ := List.mem_map.1 hkey
    obtain ⟨hmid, hrole, _⟩ := Member.key_eq_iff.1 hkey
    have hshown := hstarted.targets m hm hmid hrole
    simp only [Member.observations, report, Prod.mk.injEq] at hshown
    exact ⟨m, hm, hkey, hshown.2.2.1, hshown.2.2.2⟩
  · rw [hsource] at hrole
    cases hrole

theorem Parties.Manages.protocol :
    ∀ s input, parties.Manages rollout s input → parties.Protocol rollout s input :=
  fun _ _ => .inl

/-- A prepared rollout gets to the start of its targets, if no source holds the target policy. -/
theorem reach_startingTarget (h : Ongoing rollout .prepared db) (hfresh : Fresh rollout early db)
    (hheld : ∀ id ∈ rollout.sourceIds, (parties.held id).stored ≠ rollout.target) :
    ∃ t, Reach (next contract) (parties.Protocol rollout) db t ∧
      Ongoing rollout .startingTarget t ∧ Fresh rollout early t := by
  obtain ⟨hstaging, hongoing⟩ := @Ongoing.reach_enter contract _ parties _ .staging _ early h
    rfl (by decide) hfresh.clock rfl
  have hfresh := hfresh.enterPhase { rollout with phase := .prepared } .staging
  obtain ⟨hclosing, hongoing⟩ := @Ongoing.reach_enter contract _ parties _ .closingOld _ early
    hongoing rfl (by decide) hfresh.clock rfl
  have hfresh := hfresh.enterPhase { rollout with phase := .staging } .closingOld
  obtain ⟨closed, hclose, hongoing, hfresh, hbarrier⟩ :=
    @sources_close contract parties rollout _ _ hongoing hfresh hheld
  obtain ⟨holdClosed, hongoing⟩ := @Ongoing.reach_enter contract _ parties _ .oldClosed _ early
    hongoing rfl (by decide) hfresh.clock (hbarrier _ _)
  have hfresh := hfresh.enterPhase { rollout with phase := .closingOld } .oldClosed
  obtain ⟨hstarting, hongoing⟩ := @Ongoing.reach_enter contract _ parties _ .startingTarget _
    early hongoing rfl (by decide) hfresh.clock rfl
  refine ⟨_, ?_, hongoing, hfresh.enterPhase _ _⟩
  exact (((hstaging.trans hclosing).trans (hclose.mono Parties.Manages.protocol)).trans
    holdClosed).trans hstarting

theorem reach_completed (h : Ongoing rollout .startingTarget db)
    (hfresh : Fresh rollout early db) (hcanonical : Canonical contract rollout.request)
    (hmatches : rollout.targetMatches contract parties.target = true) :
    ∃ t, Reach (next contract) (parties.Protocol rollout) db t ∧
      (t.rollout? rollout.rolloutId).map (·.phase) = some .completed := by
  -- The rows of the sources age out before the targets start.
  obtain ⟨started, hstart, hongoing, hstarted⟩ := @targets_start contract parties _ _ _
    (early + parties.threshold) hmatches h hfresh (Nat.le_add_right _ _)
  generalize hlate : early + parties.threshold = late at hstarted hstart
  have hmanagers : ∀ row ∈ started.managers, row.lastHeartbeat ≤ early ∨
      (row.managerId ∈ rollout.targetIds ∧ row.lastHeartbeat ≤ late) := by
    intro row hrow
    exact (hstarted.managers row hrow).imp_right fun ⟨hid, _, hheartbeat⟩ => ⟨hid, hheartbeat⟩
  have hle : early ≤ late := hlate ▸ Nat.le_add_right _ _
  have hclock : ∀ row ∈ started.managers, row.lastHeartbeat ≤ late := by
    intro row hrow
    rcases hmanagers row hrow with hold | ⟨_, hyoung⟩
    · exact Nat.le_trans hold hle
    · exact hyoung
  have hage : early + parties.threshold ≤ late := hlate ▸ Nat.le_refl _
  -- The handoff is reported.
  obtain ⟨recorded, hrecorded, hready⟩ := handoff_ready hongoing hcanonical hstarted hage
  obtain ⟨_, _, hsame⟩ := recordOutcomes_frame hrecorded
  have hhandoff : Reach (next contract) (parties.Protocol rollout) started
      (recorded.enterPhase { rollout with phase := .startingTarget } .targetReadyClosed) := by
    rw [← hongoing.next_advance rfl hrecorded hready]
    apply Reach.single
    exact .inr ⟨hclock, _, _, _, rfl, truthful_handoff hongoing hstarted⟩
  have hongoing := hongoing.entered rfl hrecorded hready (by decide)
  obtain ⟨hactivate, hongoing⟩ := @Ongoing.reach_enter contract _ parties _ .activatingTarget _
    late hongoing rfl (by decide) (hsame ▸ hclock) rfl
  -- The targets open.
  obtain ⟨opened, hopen, hongoing, hclock, hbarrier⟩ := @targets_open contract parties _ _ _ _
    hongoing hle (hsame ▸ hmanagers) hmatches _ hage
  have hnone : recordOutcomes contract rollout.rolloutId false [] [] opened = .ok opened := rfl
  have hcomplete : Reach (next contract) (parties.Protocol rollout) opened
      (opened.enterPhase { rollout with phase := .activatingTarget } .completed) := by
    rw [← hongoing.next_advance rfl hnone hbarrier]
    apply Reach.single
    exact .inr ⟨hclock, _, _, [], rfl, by simp⟩
  refine ⟨_, (((hstart.mono Parties.Manages.protocol).trans hhandoff).trans
    (hactivate.trans (hopen.mono Parties.Manages.protocol))).trans hcomplete, ?_⟩
  rw [rollout?_enterPhase hongoing rfl]
  rfl

end Finish

section Stuck

variable {parties : Parties} {db : Store} {input : Input}
variable {managerId : String} {limit : Nat} {role : Role} {P : Member → Prop}

def Rollout.within (rollout : Rollout) (phase : Phase) (failure : Option String) : Rollout :=
  { rollout with phase := phase, failure := failure }

section

variable (h : parties.Protocol rollout db input)
include h

/-- In a call of the protocol managers move rows of members only, and the controller may enter a
phase. -/
theorem Parties.Protocol.commits : ((next contract db input).rollouts = db.rollouts ∧
        ∃ f : Member → Member, (next contract db input).members = db.members.map f ∧
          ∀ m ∈ db.members, Member.Moves contract db input.call m (f m)) ∨
      ∃ expectedPhase nextPhase outcomes recorded r,
        input.call = .advanceRollout rollout.rolloutId rollout.deploymentPrincipalUri
          expectedPhase nextPhase outcomes parties.threshold ∧
        Advanced contract db input.now rollout.rolloutId rollout.deploymentPrincipalUri
          expectedPhase nextPhase outcomes parties.threshold (next contract db input) r
          recorded := by
  obtain ⟨now, call⟩ := input
  refine next_elim (.inl ⟨rfl, id, by simp, fun m _ => .kept⟩) fun db' hcommits => ?_
  cases hcommits with
  | managers => exact .inl ⟨rfl, id, by simp, fun m _ => .kept⟩
  | observe managerId policy =>
    obtain ⟨f, hmembers, hmoves⟩ := @moves_observe contract db now managerId policy
    exact .inl ⟨observe_rollouts managerId policy, f, hmembers, hmoves⟩
  | advanceRollout hadvanced =>
    rcases h with ⟨_, hfalse⟩ | ⟨_, _, _, _, hcall, _⟩
    · exact hfalse.elim
    · cases hcall
      exact .inr ⟨_, _, _, _, _, rfl, hadvanced⟩
  | bootstrap | beginRollout | resetRollout =>
    rcases h with ⟨_, hfalse⟩ | ⟨_, _, _, _, hcall, _⟩
    · exact hfalse.elim
    · cases hcall

theorem Parties.Protocol.observes {policy : Policy}
    (hcall : input.call = .observe managerId policy) :
    parties.Observes rollout db managerId policy := by
  rcases h with ⟨_, hmanages⟩ | ⟨_, _, _, _, hadvance, _⟩
  · rw [hcall] at hmanages
    exact hmanages
  · cases hcall.symm.trans hadvance

theorem Parties.Protocol.truthful {rolloutId : Uuid}
    {principal : String} {expectedPhase nextPhase : Phase} {outcomes : List MemberOutcome}
    {threshold : Time} (hcall : input.call = .advanceRollout rolloutId principal expectedPhase
      nextPhase outcomes threshold) : ∀ outcome ∈ outcomes, Truthful rollout db outcome := by
  rcases h with ⟨_, hmanages⟩ | ⟨_, _, _, _, hadvance, htruthful⟩
  · rw [hcall] at hmanages
    exact hmanages.elim
  · cases hcall.symm.trans hadvance
    exact htruthful

end

theorem legal_rank {p q : Phase} (h : p.legal q = true) :
    q.rank = p.rank + 1 ∨ q = .failedPreClose ∨ q = .failedClosed := by
  revert h
  cases p <;> cases q <;> decide

structure Blocked (rollout : Rollout) (limit : Nat) (role : Role) (managerId : String)
    (P : Member → Prop) (db : Store) : Prop where
  phase : ∃ phase failure,
    db.rollout? rollout.rolloutId = some (rollout.within phase failure) ∧
      (phase.rank ≤ limit ∨ phase = .failedPreClose ∨ phase = .failedClosed)
  row : ∃ m ∈ db.members, m.key = (rollout.rolloutId, role, managerId) ∧ P m

/-- A member whose row stands against the next barrier, and keeps doing so, blocks the
rollout. -/
theorem Blocked.next (h : Blocked rollout limit role managerId P db) (hstaffed : Staffed db)
    (hprotocol : parties.Protocol rollout db input)
    (hkeep : ∀ m ∈ db.members, m.key = (rollout.rolloutId, role, managerId) → P m →
      ∀ m', Member.Moves contract db input.call m m' → P m')
    (hbarrier : ∀ (recorded : Store) r (nextPhase : Phase), nextPhase.rank = limit + 1 →
      r.rolloutId = rollout.rolloutId →
      (∃ m ∈ recorded.members, m.key = (rollout.rolloutId, role, managerId) ∧ P m) →
      recorded.remaining input.now parties.threshold r nextPhase ≠ 0) :
    Blocked rollout limit role managerId P (Fleet.next contract db input) := by
  obtain ⟨phase, failure, hrollout, hphase⟩ := h.phase
  obtain ⟨m, hm, hkey, hP⟩ := h.row
  rcases @hprotocol.commits contract with ⟨hrollouts, f, hmembers, hmoves⟩ |
    ⟨expectedPhase, nextPhase, outcomes, recorded, r, hcall, hadvanced⟩
  · constructor
    · refine ⟨phase, failure, ?_, hphase⟩
      rw [Store.rollout?, hrollouts]
      exact hrollout
    · refine ⟨f m, ?_, (hmoves m hm).key_eq.trans hkey, hkeep m hm hkey hP _ (hmoves m hm)⟩
      rw [hmembers]
      exact List.mem_map_of_mem hm
  · obtain rfl := Option.mem_unique hadvanced.rollout_eq hrollout
    obtain ⟨_, hrollouts, _⟩ := recordOutcomes_frame hadvanced.recorded_eq
    obtain ⟨_, hmembers⟩ := recordOutcomes_members hstaffed.keys hadvanced.recorded_eq
    have hmove : Member.Moves contract db input.call m
        (m.recorded rollout.rolloutId outcomes) := by
      rw [hcall]
      exact moves_recorded m
    have hrow : ∃ m ∈ recorded.members, m.key = (rollout.rolloutId, role, managerId) ∧ P m := by
      refine ⟨_, ?_, (Member.key_recorded outcomes m).trans hkey, hkeep m hm hkey hP _ hmove⟩
      rw [hmembers]
      exact List.mem_map_of_mem hm
    have hlegal : phase.legal nextPhase = true := by
      have hexpected : phase = expectedPhase := hadvanced.phase_eq
      rw [hexpected]
      exact hadvanced.legal
    rw [hadvanced.result]
    refine ⟨⟨nextPhase, nextPhase.terminalFailure <|> failure, ?_, ?_⟩, hrow⟩
    · simp only [Store.rollout?, Store.enterPhase] at hrollout ⊢
      rw [find?_updateWhere, hrollouts, hrollout]
      · simp [Rollout.within]
      · exact fun _ => rfl
    · rcases legal_rank hlegal with hnext | hfailed
      · rcases hphase with hearly | hfailed
        · by_cases hlast : nextPhase.rank = limit + 1
          · exact absurd hadvanced.barrier (hbarrier recorded _ nextPhase hlast rfl hrow)
          · omega
        · obtain ⟨_, hpreClose, hclosed⟩ := not_last hlegal
          exact absurd hfailed (not_or.2 ⟨hpreClose, hclosed⟩)
      · exact .inr hfailed

theorem rollout?_of_active? {r : Rollout} (h : db.active? = some r) :
    db.rollout? r.rolloutId = some r := by
  obtain ⟨hid, _⟩ := active?_eq h
  rwa [Store.active?, hid, Option.bind_some] at h

theorem Blocked.not_completed (h : Blocked rollout limit role managerId P db) (hlimit : limit ≤ 7) :
    (db.rollout? rollout.rolloutId).map (·.phase) ≠ some .completed := by
  obtain ⟨phase, failure, hrollout, hphase⟩ := h.phase
  rw [hrollout]
  intro hcompleted
  have hphase' : phase = .completed := Option.some.inj hcompleted
  subst hphase'
  rcases hphase with hrank | hfailed | hfailed
  · simp only [Phase.rank] at hrank
    omega
  · cases hfailed
  · cases hfailed

/-- A source under the target policy observes as a target, so its row does not show that it
closed. -/
theorem Blocked.next_source
    (h : Blocked rollout 3 .source managerId (·.admissionState ≠ some .closedRollout) db)
    (hstaffed : Staffed db) (hprotocol : parties.Protocol rollout db input)
    (hid : managerId ∈ rollout.sourceIds) (hheld : (parties.held managerId).stored = rollout.target)
    (htarget : parties.target.stored = rollout.target) :
    Blocked rollout 3 .source managerId (·.admissionState ≠ some .closedRollout)
      (Fleet.next contract db input) := by
  obtain ⟨phase, failure, hrollout, _⟩ := h.phase
  apply h.next hstaffed hprotocol
  · intro m hm hkey hP m' hmove
    obtain ⟨hmid, hmrole, rfl⟩ := Member.key_eq_iff.1 hkey
    cases hmove with
    | kept => exact hP
    | @observed policy r hcall hactive hrid hrole =>
      exfalso
      have hfound := rollout?_of_active? hactive
      rw [← hrid, hmid, hrollout] at hfound
      obtain rfl := Option.some.inj hfound
      have hpolicy : policy.stored = rollout.target := by
        rcases hprotocol.observes hcall with ⟨_, rfl, _⟩ | ⟨_, rfl⟩ | ⟨hother, _⟩
        · exact hheld
        · exact htarget
        · exact absurd hid hother
      have htargetRole : (rollout.within phase failure).roleOf policy = .target :=
        if_pos hpolicy.symm
      rw [hmrole, htargetRole] at hrole
      cases hrole
    | @recorded _ _ _ _ _ outcome =>
      simp only [Member.record, MemberOutcome.admissionOverride]
      split
      · split
        · simp
        · split <;> simp [hP]
      · simpa using hP
  · intro recorded r nextPhase hrank hrid hrow
    obtain ⟨m, hm, hkey, hP⟩ := hrow
    simp only [Member.key, Prod.mk.injEq] at hkey
    have hnext : nextPhase = .oldClosed := by
      revert hrank
      cases nextPhase <;> simp [Phase.rank]
    subst hnext
    rw [Store.remaining, Ne, countWhere_eq_zero]
    intro hnone
    have hclosed := hnone m (mem_membersOf.2 ⟨hm, hkey.1.trans hrid.symm, hkey.2.1⟩)
    simp [sourceNotClosed, hP] at hclosed

abbrev Member.NotReady (m : Member) : Prop :=
  m.admissionState ≠ some .closedRollout ∧ m.hostActionOutcome ≠ some "READY_CLOSED"

theorem Blocked.next_target (h : Blocked rollout 5 .target managerId Member.NotReady db)
    (hstaffed : Staffed db) (hprotocol : parties.Protocol rollout db input)
    (hid : managerId ∈ rollout.targetIds)
    (hheld : ∀ id ∈ rollout.sourceIds, (parties.held id).stored ≠ rollout.target)
    (hmatches : rollout.targetMatches contract parties.target = false) :
    Blocked rollout 5 .target managerId Member.NotReady (Fleet.next contract db input) := by
  obtain ⟨phase, failure, hrollout, _⟩ := h.phase
  apply h.next hstaffed hprotocol
  · intro m hm hkey hP m' hmove
    obtain ⟨hmid, hmrole, rfl⟩ := Member.key_eq_iff.1 hkey
    cases hmove with
    | kept => exact hP
    | @observed policy r hcall hactive hrid hrole =>
      have hfound := rollout?_of_active? hactive
      rw [← hrid, hmid, hrollout] at hfound
      obtain rfl := Option.some.inj hfound
      -- Only the target policy gives the role of a target.
      have hpolicy : policy = parties.target := by
        rcases hprotocol.observes hcall with ⟨hsource, rfl, _⟩ | ⟨_, rfl⟩ | ⟨_, hother⟩
        · have hsourceRole : (rollout.within phase failure).roleOf
              (parties.held m.managerId) = .source := if_neg (hheld _ hsource).symm
          rw [hmrole, hsourceRole] at hrole
          cases hrole
        · rfl
        · exact absurd hid hother
      subst hpolicy
      have hmatches' : (rollout.within phase failure).targetMatches contract
          parties.target = false := hmatches
      refine ⟨?_, hP.2⟩
      simp only [Member.observe, hmrole, hmatches']
      cases (rollout.within phase failure).phase <;> simp [Rollout.stateOf]
    | @recorded _ _ _ outcomes _ outcome hcall houtcome hrole hmanager =>
      have htarget : outcome.memberRole = .target := hrole.symm.trans hmrole
      constructor
      · simpa [Member.record, MemberOutcome.admissionOverride, htarget] using hP.1
      · intro hready
        have hready' : outcome.hostActionOutcome = "READY_CLOSED" := Option.some.inj hready
        obtain ⟨m', hm', hkey', _, hclosed⟩ :=
          hprotocol.truthful hcall outcome houtcome htarget hready'
        have hsame : m' = m := by
          apply eq_of_nodup_key hstaffed.keys hm' hm
          rw [hkey', hkey, hmanager]
        exact hP.1 (hsame ▸ hclosed)
  · intro recorded r nextPhase hrank hrid hrow
    obtain ⟨m, hm, hkey, _, houtcome⟩ := hrow
    simp only [Member.key, Prod.mk.injEq] at hkey
    have hnext : nextPhase = .targetReadyClosed := by
      revert hrank
      cases nextPhase <;> simp [Phase.rank]
    subst hnext
    simp only [Store.remaining, Ne, Nat.add_eq_zero_iff, countWhere_eq_zero]
    intro hnone
    have hready := hnone.1.1 m (mem_membersOf.2 ⟨hm, hkey.1.trans hrid.symm, hkey.2.1⟩)
    simp only [targetNotReady, isTrue_or, isTrue_some, Bool.or_eq_false_iff,
      decide_eq_false_iff_not, not_not] at hready
    apply houtcome
    cases hactual : m.hostActionOutcome with
    | none => simp [hactual] at hready
    | some outcome => simpa [hactual] using hready.2.2.2.2

theorem Ongoing.blocked {phase : Phase} (h : Ongoing rollout phase db) (hrank : phase.rank ≤ limit)
    (hkey : (rollout.rolloutId, role, managerId) ∈ db.members.map Member.key)
    (hP : ∀ m ∈ db.members, m.rolloutId = rollout.rolloutId → m.memberRole = role → P m) :
    Blocked rollout limit role managerId P db := by
  obtain ⟨m, hm, hkey⟩ := List.mem_map.1 hkey
  obtain ⟨hid, hrole, _⟩ := Member.key_eq_iff.1 hkey
  exact ⟨⟨phase, rollout.failure, h.rollout?, .inl hrank⟩, m, hm, hkey, hP m hm hid hrole⟩

theorem not_completed_of_source {t : Store} (hdb : Reachable contract db)
    (h : Ongoing rollout .prepared db)
    (hrows : ∀ m ∈ db.members, m.rolloutId = rollout.rolloutId → m.memberRole = .source →
      m.admissionState ≠ some .closedRollout) (hid : managerId ∈ rollout.sourceIds)
    (hheld : (parties.held managerId).stored = rollout.target)
    (htarget : parties.target.stored = rollout.target)
    (hreach : Reach (next contract) (parties.Protocol rollout) db t) :
    (t.rollout? rollout.rolloutId).map (·.phase) ≠ some .completed := by
  have hstart : Blocked rollout 3 .source managerId
      (·.admissionState ≠ some .closedRollout) db :=
    h.blocked (by decide) ((h.staffed.sources _ h.mem managerId).2 hid) hrows
  have hend := hreach.invariant hstart (by
    intro s input hs hprotocol hblocked
    have hstaffed := reachable_staffed (hdb.trans (hs.mono fun _ _ _ => trivial))
    exact hblocked.next_source hstaffed hprotocol hid hheld htarget)
  exact hend.not_completed (by decide)

theorem not_completed_of_target {t : Store} (hdb : Reachable contract db)
    (h : Ongoing rollout .prepared db)
    (hrows : ∀ m ∈ db.members, m.rolloutId = rollout.rolloutId → m.memberRole = .target →
      m.NotReady)
    (hid : managerId ∈ rollout.targetIds)
    (hheld : ∀ id ∈ rollout.sourceIds, (parties.held id).stored ≠ rollout.target)
    (hmatches : rollout.targetMatches contract parties.target = false)
    (hreach : Reach (next contract) (parties.Protocol rollout) db t) :
    (t.rollout? rollout.rolloutId).map (·.phase) ≠ some .completed := by
  have hstart : Blocked rollout 5 .target managerId Member.NotReady db :=
    h.blocked (by decide) ((h.staffed.targets _ h.mem managerId).2 hid) hrows
  have hend := hreach.invariant hstart (by
    intro s input hs hprotocol hblocked
    have hstaffed := reachable_staffed (hdb.trans (hs.mono fun _ _ _ => trivial))
    exact hblocked.next_target hstaffed hprotocol hid hheld hmatches)
  exact hend.not_completed (by decide)

end Stuck

section Begin

variable {db db' : Store} {now : Time} {principal : String} {request : BeginManagerRolloutRequest}
  {isOpen : Bool} {rolloutId : Uuid} {accepted : AcceptedPolicy}

theorem begun_of_new (hnew : db.rollout? rolloutId = none)
    (hbegun : (next contract db ⟨now, .beginRollout principal request isOpen
      rolloutId⟩).rollout? rolloutId = some rollout) :
    ∃ canonical accepted, Begun contract db now principal canonical rolloutId
        (next contract db ⟨now, .beginRollout principal request isOpen rolloutId⟩) accepted ∧
      rollout = .created contract rolloutId principal canonical
        (contract.requestDigest canonical) := by
  revert hbegun
  refine next_elim (fun hbegun => by cases hnew.symm.trans hbegun) fun db' hcommits hbegun => ?_
  cases hcommits with
  | managers _ hcall => cases hcall
  | @beginRollout _ _ canonical _ _ accepted _ _ hresult =>
    refine ⟨canonical, accepted, hresult, ?_⟩
    obtain ⟨hmem, hid⟩ := mem_of_rollout? hbegun
    rw [hresult.result] at hmem
    rcases mem_snoc.1 hmem with hold | hcreated
    · exact absurd hid (hresult.unused rollout hold)
    · exact hcreated

theorem Begun.mem_newMembers (h : Begun contract db now principal request rolloutId db' accepted)
    (hstaffed : Staffed db) {m : Member} (hm : m ∈ db'.members)
    (hid : m.rolloutId = rolloutId) : m ∈ db.newMembers now request rolloutId := by
  rw [h.members] at hm
  rcases List.mem_append.1 hm with hold | hnew
  · obtain ⟨r, hr, hrid⟩ := hstaffed.owner m hold
    exact absurd (hrid.trans hid) (h.unused r hr)
  · exact hnew

theorem of_mem_newMembers {m : Member} (h : m ∈ db.newMembers now request rolloutId) :
    m.hostActionOutcome = none ∧ (m.memberRole = .source → m.admissionState = some .opened) ∧
      (m.memberRole = .target → m.admissionState = none) := by
  simp only [Store.newMembers, List.mem_append, List.mem_map] at h
  rcases h with ⟨row, hrow, rfl⟩ | ⟨target, _, rfl⟩
  · simp only [Store.liveSources, List.mem_insertionSort, List.mem_filter,
      decide_eq_true_eq] at hrow
    simp [Member.ofSource, hrow.2.1]
  · simp [Member.ofTarget]

theorem new_rollout (hdb : Reachable contract db) (hnew : db.rollout? rolloutId = none)
    (hbegun : (next contract db ⟨now, .beginRollout principal request isOpen
      rolloutId⟩).rollout? rolloutId = some rollout) :
    let db' := next contract db ⟨now, .beginRollout principal request isOpen rolloutId⟩
    Ongoing rollout .prepared db' ∧ Canonical contract rollout.request ∧
      (∃ clock, Fresh rollout clock db') ∧
      ∀ m ∈ db'.members, m.rolloutId = rollout.rolloutId →
        m.admissionState ≠ some .closedRollout ∧ m.hostActionOutcome = none := by
  intro db'
  obtain ⟨canonical, accepted, hresult, rfl⟩ := begun_of_new hnew hbegun
  have hafter : Reachable contract db' := .step hdb trivial
  have hrows : ∀ m ∈ db'.members, m.rolloutId = rolloutId →
      m.admissionState ≠ some .closedRollout ∧ m.hostActionOutcome = none := by
    intro m hm hid
    obtain ⟨houtcome, hsource, htarget⟩ :=
      of_mem_newMembers (hresult.mem_newMembers (reachable_staffed hdb) hm hid)
    refine ⟨?_, houtcome⟩
    cases hrole : m.memberRole with
    | source => simp [hsource hrole]
    | target => simp [htarget hrole]
  have hguarded := reachable_guarded hafter
  refine ⟨⟨hguarded, reachable_staffed hafter, active?_of_mem hguarded ?_ ?_⟩,
    hresult.canonical, ?_, hrows⟩
  · simp only [db', hresult.result]
    exact List.mem_append_right _ (List.mem_singleton_self _)
  · simp only [db', hresult.result]
    rfl
  · obtain ⟨clock, hclock⟩ := (db'.managers.map (·.lastHeartbeat)).toFinset.exists_le
    refine ⟨clock, fun m hm hid => (hrows m hm hid).2, fun row hrow => hclock _ ?_⟩
    exact List.mem_toFinset.2 (List.mem_map_of_mem hrow)

end Begin

theorem targetMatches_iff {policy : Policy} (hstored : policy.stored = rollout.target) :
    rollout.targetMatches contract policy = rollout.receiptMatches contract policy := by
  obtain ⟨hgeneration, hdigest⟩ := AcceptedPolicy.mk.inj hstored
  have hunsigned : policy.generation = rollout.targetGeneration.toUInt64 := by
    rw [← hgeneration, UInt64.toUInt64_toInt64]
  simp only [Rollout.targetMatches, hunsigned, hdigest, true_and]
  simp

/-- Protocol-following parties can take a rollout to `COMPLETED` exactly if the target policy
validates the request and no source holds it. -/
theorem begun_rollout_completes_iff {contract : Contract} {db : Store} {now : Time}
    {principal : String} {request : BeginManagerRolloutRequest} {isOpen : Bool}
    {rolloutId : Uuid} {rollout : Rollout} (parties : Parties) (hdb : Reachable contract db)
    (hnew : db.rollout? rolloutId = none)
    (hbegun : (next contract db ⟨now, .beginRollout principal request isOpen
      rolloutId⟩).rollout? rolloutId = some rollout)
    (htarget : parties.target.stored = rollout.target) :
    (∃ t, Reach (next contract) (parties.Protocol rollout)
        (next contract db ⟨now, .beginRollout principal request isOpen rolloutId⟩) t ∧
      (t.rollout? rolloutId).map (·.phase) = some .completed) ↔
    rollout.receiptMatches contract parties.target = true ∧
      ∀ id ∈ rollout.sourceIds, (parties.held id).stored ≠ rollout.target := by
  obtain ⟨hongoing, hcanonical, ⟨clock, hfresh⟩, hrows⟩ := new_rollout hdb hnew hbegun
  have hafter : Reachable contract
      (next contract db ⟨now, .beginRollout principal request isOpen rolloutId⟩) :=
    .step hdb trivial
  obtain ⟨_, rfl⟩ := mem_of_rollout? hbegun
  rw [← targetMatches_iff htarget]
  constructor
  · rintro ⟨t, hreach, hcompleted⟩
    have hheld : ∀ id ∈ rollout.sourceIds, (parties.held id).stored ≠ rollout.target := by
      intro id hid hholds
      apply not_completed_of_source hafter hongoing _ hid hholds htarget hreach hcompleted
      exact fun m hm hmid _ => (hrows m hm hmid).1
    refine ⟨?_, hheld⟩
    by_contra hmatches
    obtain ⟨target, htargets⟩ := List.exists_mem_of_ne_nil _ hcanonical.targets
    apply not_completed_of_target hafter hongoing _ (List.mem_map_of_mem htargets) hheld
      (Bool.eq_false_iff.2 hmatches) hreach hcompleted
    intro m hm hmid _
    obtain ⟨hstate, houtcome⟩ := hrows m hm hmid
    simp [Member.NotReady, hstate, houtcome]
  · rintro ⟨hmatches, hheld⟩
    obtain ⟨s, hstart, hstarting, hfresh⟩ := @reach_startingTarget contract _ parties _ _
      hongoing hfresh hheld
    obtain ⟨t, hrest, hcompleted⟩ := reach_completed hstarting hfresh hcanonical hmatches
    exact ⟨t, hstart.trans hrest, hcompleted⟩

open Sample

theorem newer_policy_completes :
    let begin := begun 2 (Sample.request firstOperation newPolicy ["manager-a"]
      ["manager-b"])
    let after := next Sample.contract (run serving) begin
    ∃ rollout t, after.rollout? (rolloutOf firstOperation) = some rollout ∧
      Reach (next Sample.contract) ((⟨fun _ => oldPolicy, newPolicy,
        Manager.seconds 30⟩ : Parties).Protocol rollout) after t ∧
      (t.rollout? (rolloutOf firstOperation)).map (·.phase) = some .completed := by
  intro begin after
  obtain ⟨rollout, hrollout, htarget, hreceipt, hother⟩ :
      ∃ r ∈ after.rollout? (rolloutOf firstOperation), r.target = newPolicy.stored ∧
        r.receiptMatches Sample.contract newPolicy = true ∧ r.target ≠ oldPolicy.stored := by
    decide +kernel
  obtain ⟨t, hreach, hcompleted⟩ := (begun_rollout_completes_iff
    ⟨fun _ => oldPolicy, newPolicy, Manager.seconds 30⟩
    (reachable_run serving) (by decide +kernel) hrollout htarget.symm).2
    ⟨hreceipt, fun _ _ => hother.symm⟩
  exact ⟨rollout, t, hrollout, hreach, hcompleted⟩

/-- A rollout of the accepted policy, with a source that holds it, is accepted and never
completes. -/
theorem identical_policy_never_completes :
    let begin := begun 2 (Sample.request secondOperation oldPolicy ["manager-a"]
      ["manager-a"])
    let after := next Sample.contract (run serving) begin
    let parties : Parties := ⟨fun _ => oldPolicy, oldPolicy, Manager.seconds 30⟩
    (step Sample.contract (run serving) begin).2.accepted = true ∧
      ∃ rollout, after.rollout? (rolloutOf secondOperation) = some rollout ∧
        after.guard.accepted = some rollout.target ∧
        rollout.receiptMatches Sample.contract parties.target = true ∧
        ∀ t, Reach (next Sample.contract) (parties.Protocol rollout) after t →
          (t.rollout? (rolloutOf secondOperation)).map (·.phase) ≠ some .completed := by
  intro begin after parties
  refine ⟨by decide +kernel, ?_⟩
  obtain ⟨rollout, hrollout, haccepted, hreceipt, htarget, hsource⟩ :
      ∃ r ∈ after.rollout? (rolloutOf secondOperation), after.guard.accepted = some r.target ∧
        r.receiptMatches Sample.contract oldPolicy = true ∧
        r.target = oldPolicy.stored ∧ "manager-a" ∈ r.sourceIds := by decide +kernel
  refine ⟨rollout, hrollout, haccepted, hreceipt, ?_⟩
  intro t hreach
  have hdb := reachable_run serving
  obtain ⟨hongoing, _, _, hrows⟩ := new_rollout hdb (by decide +kernel) hrollout
  obtain ⟨_, hid⟩ := mem_of_rollout? hrollout
  rw [← hid]
  apply not_completed_of_source (.step hdb trivial) hongoing _ hsource htarget.symm
    htarget.symm hreach
  exact fun m hm hmid _ => (hrows m hm hmid).1

end Wruntime.Fleet
