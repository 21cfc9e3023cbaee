import Wruntime.Lib.Runs
import Wruntime.Fleet.Transactions

/-!
Runs of the fleet tables: the managers' own calls, the bootstrap, and the requests of
rollout controllers, in any order. The inversion lemmas say what a transaction that
commits has read and written.
-/

namespace Wruntime.Fleet

open Fallible Table Runs Sql
open Manager (Time Status)

variable {principal : String} {rolloutId : Uuid}

inductive Call where
  | registerManager (managerId grpcAddress : String)
  | deregisterManager (managerId : String)
  | heartbeatManager (managerId : String)
  | cleanupStaleManagers (threshold : Time)
  | bootstrap (generation : UInt64) (digest : String)
  | initializeState (managerId : String) (generation : UInt64) (digest : String)
  | observe (managerId : String) (policy : Policy)
  | beginRollout (principal : String) (request : BeginManagerRolloutRequest)
      (privilegedAdmissionOpen : Bool) (rolloutId : Uuid)
  | advanceRollout (rolloutId : Uuid) (principal : String) (expectedPhase nextPhase : Phase)
      (memberOutcomes : List MemberOutcome) (livenessThreshold : Time)
  | resetRollout (principal : String) (request : ResetFailedManagerRolloutRequest)

inductive Reply where
  | failed (status : Status)
  | done
  | gate (isOpen : Bool)
  | observed (observation : Observation)
  | rollout (rollout : ManagerRollout)
  | reset (response : ResetResponse)

structure Input where
  now : Time
  call : Call

def settle {α : Type} (db : Store) (result : Except Status α) (store : α → Store)
    (reply : α → Reply) : Store × Reply :=
  match result with
  | .ok value => (store value, reply value)
  | .error status => (db, .failed status)

/-- `BeginManagerRollout`: the canonical request, then the transaction. -/
def serveBegin (contract : Contract) (db : Store) (now : Time) (principal : String)
    (request : BeginManagerRolloutRequest) (privilegedAdmissionOpen : Bool)
    (rolloutId : Uuid) : Except Status (Store × ManagerRollout) := do
  let (canonical, digest) ← canonicalRolloutRequest contract request
  beginManagerRollout contract db now principal canonical digest privilegedAdmissionOpen
    rolloutId

def serveAdvance (contract : Contract) (db : Store) (now : Time) (rolloutId : Uuid)
    (principal : String) (expectedPhase nextPhase : Phase)
    (memberOutcomes : List MemberOutcome) (livenessThreshold : Time) :
    Except Status (Store × ManagerRollout) := do
  let advanced ← advanceManagerRollout contract db now rolloutId principal expectedPhase
    nextPhase memberOutcomes livenessThreshold
  let rollout ← getManagerRollout contract advanced rolloutId
  return (advanced, rollout)

def serveReset (contract : Contract) (db : Store) (principal : String)
    (request : ResetFailedManagerRolloutRequest) : Except Status (Store × ResetResponse) := do
  let (canonical, requestDigest, evidenceDigest) ← canonicalResetRequest contract request
  resetFailedManagerRollout db principal canonical requestDigest evidenceDigest

def step (contract : Contract) (db : Store) (input : Input) : Store × Reply :=
  match input.call with
  | .registerManager managerId grpcAddress =>
    (registerManager db input.now managerId grpcAddress, .done)
  | .deregisterManager managerId => (deregisterManager db managerId, .done)
  | .heartbeatManager managerId => (heartbeatManager db input.now managerId, .done)
  | .cleanupStaleManagers threshold => (cleanupStaleManagers db input.now threshold, .done)
  | .bootstrap generation digest =>
    settle db (bootstrapInitialManagerPolicyState db generation digest) id fun _ => .done
  | .initializeState managerId generation digest =>
    let (initialized, isOpen) := initializeManagerPolicyState db managerId generation digest
    (initialized, .gate isOpen)
  | .observe managerId policy =>
    let (observed, observation) :=
      observeManagerRollout contract db input.now managerId policy
    (observed, .observed observation)
  | .beginRollout principal request privilegedAdmissionOpen rolloutId =>
    settle db (serveBegin contract db input.now principal request privilegedAdmissionOpen
      rolloutId) Prod.fst (.rollout ·.2)
  | .advanceRollout rolloutId principal expectedPhase nextPhase memberOutcomes threshold =>
    settle db (serveAdvance contract db input.now rolloutId principal expectedPhase nextPhase
      memberOutcomes threshold) Prod.fst (.rollout ·.2)
  | .resetRollout principal request =>
    settle db (serveReset contract db principal request) Prod.fst (.reset ·.2)

def next (contract : Contract) (db : Store) (input : Input) : Store :=
  (step contract db input).1

def Reachable (contract : Contract) (db : Store) : Prop :=
  Reach (next contract) (fun _ _ => True) Store.empty db

def Reply.accepted : Reply → Bool
  | .failed _ => false
  | _ => true

section Inversion

variable {contract : Contract} {db db' : Store} {now : Time}

structure Canonical (contract : Contract) (request : BeginManagerRolloutRequest) : Prop where
  targets : request.expectedTargets ≠ []
  sourceIds : ∀ s ∈ request.sourceManagers, contract.managerId s.managerId = .ok ⟨⟩
  targetIds : ∀ t ∈ request.expectedTargets, contract.managerId t.managerId = .ok ⟨⟩
  targetsNodup : (request.expectedTargets.map (·.managerId)).Nodup
  sourcesNodup : (request.sourceManagers.map (·.managerId)).Nodup

theorem checkTargets_eq_ok {seen : List String} {targets : List ManagerRolloutTarget}
    (h : checkTargets contract seen targets = .ok ⟨⟩) :
    (∀ t ∈ targets, contract.managerId t.managerId = .ok ⟨⟩ ∧ t.managerId ∉ seen) ∧
      (targets.map (·.managerId)).Nodup := by
  induction targets generalizing seen with
  | nil => simp
  | cons target rest ih =>
    simp only [checkTargets, bind_eq_ok, mapError_eq_ok, ensure_eq_ok] at h
    obtain ⟨_, hid, _, hfresh, _, _, hrest⟩ := h
    obtain ⟨hids, hnodup⟩ := ih hrest
    constructor
    · intro t ht
      rcases List.mem_cons.1 ht with rfl | ht
      · exact ⟨hid, hfresh⟩
      · obtain ⟨hok, hnew⟩ := hids t ht
        exact ⟨hok, fun hold => hnew (List.mem_cons_of_mem _ hold)⟩
    · rw [List.map_cons, List.nodup_cons]
      refine ⟨?_, hnodup⟩
      intro hmem
      obtain ⟨t, ht, heq⟩ := List.mem_map.1 hmem
      apply (hids t ht).2
      rw [heq]
      exact List.mem_cons_self

theorem checkSources_eq_ok {seen : List String} {sources : List ManagerRolloutSource}
    (h : checkSources contract seen sources = .ok ⟨⟩) :
    (∀ s ∈ sources, contract.managerId s.managerId = .ok ⟨⟩ ∧ s.managerId ∉ seen) ∧
      (sources.map (·.managerId)).Nodup := by
  induction sources generalizing seen with
  | nil => simp
  | cons source rest ih =>
    simp only [checkSources, bind_eq_ok, mapError_eq_ok, ensure_eq_ok] at h
    obtain ⟨_, hid, _, ⟨hfresh, _⟩, hrest⟩ := h
    obtain ⟨hids, hnodup⟩ := ih hrest
    constructor
    · intro s hs
      rcases List.mem_cons.1 hs with rfl | hs
      · exact ⟨hid, hfresh⟩
      · obtain ⟨hok, hnew⟩ := hids s hs
        exact ⟨hok, fun hold => hnew (List.mem_cons_of_mem _ hold)⟩
    · rw [List.map_cons, List.nodup_cons]
      refine ⟨?_, hnodup⟩
      intro hmem
      obtain ⟨s, hs, heq⟩ := List.mem_map.1 hmem
      apply (hids s hs).2
      rw [heq]
      exact List.mem_cons_self

theorem canonicalRolloutRequest_eq_ok {request canonical : BeginManagerRolloutRequest}
    {digest : String} (h : canonicalRolloutRequest contract request = .ok (canonical, digest)) :
    Canonical contract canonical ∧ digest = contract.requestDigest canonical ∧
      canonical = { request with
        sourceManagers :=
          request.sourceManagers.insertionSort fun a b => a.managerId ≤ b.managerId
        expectedTargets :=
          request.expectedTargets.insertionSort fun a b => a.managerId ≤ b.managerId } := by
  simp only [canonicalRolloutRequest, bind_eq_ok, ensure_eq_ok, mapError_eq_ok, pure_eq_ok] at h
  obtain ⟨_, _, _, _, _, _, _, _, _, _, _, _, _, _, _, hnonempty, _, hsources, _, _, _,
    htargets, hresult⟩ := h
  obtain ⟨rfl, rfl⟩ := Prod.mk.inj hresult
  obtain ⟨hsourceIds, hsourcesNodup⟩ := checkSources_eq_ok hsources
  obtain ⟨htargetIds, htargetsNodup⟩ := checkTargets_eq_ok htargets
  refine ⟨⟨?_, ?_, ?_, htargetsNodup, hsourcesNodup⟩, rfl, rfl⟩
  · intro hnil
    apply hnonempty
    have hlength := congrArg List.length hnil
    rw [List.length_insertionSort] at hlength
    exact List.length_eq_zero_iff.1 hlength
  · exact fun s hs => (hsourceIds s hs).1
  · exact fun t ht => (htargetIds t ht).1

structure Begun (contract : Contract) (db : Store) (now : Time) (principal : String)
    (request : BeginManagerRolloutRequest) (rolloutId : Uuid) (db' : Store)
    (accepted : AcceptedPolicy) : Prop where
  canonical : Canonical contract request
  fresh : ∀ r ∈ db.rollouts, r.deploymentPrincipalUri = principal →
    contract.uuid r.request.clientOperationId ≠ contract.uuid request.clientOperationId
  accepted_eq : db.guard.accepted = some accepted
  inactive : db.guard.activeRolloutId = none
  permit : ∀ owner, db.guard.recoveryPermitPrincipalUri = some owner → owner = principal
  sources : request.sourceManagers.map (fun s => (s.managerId, s.endpoint)) =
    (db.liveSources now).map (fun row => (row.managerId, row.grpcAddress))
  newer : accepted.generation.toUInt64 ≤ request.targetGeneration
  sameDigest : accepted.generation = request.targetGeneration.toInt64 →
    accepted.digest = request.targetPolicyDigest
  unused : ∀ r ∈ db.rollouts, r.rolloutId ≠ rolloutId
  positive : 0 < request.targetGeneration.toInt64
  result : db' = db.create now
    (.created contract rolloutId principal request (contract.requestDigest request))

structure Advanced (contract : Contract) (db : Store) (now : Time) (rolloutId : Uuid)
    (principal : String) (expectedPhase nextPhase : Phase) (outcomes : List MemberOutcome)
    (threshold : Time) (db' : Store) (rollout : Rollout) (recorded : Store) : Prop where
  legal : expectedPhase.legal nextPhase = true
  rollout_eq : db.rollout? rolloutId = some rollout
  owner : rollout.deploymentPrincipalUri = principal
  phase_eq : rollout.phase = expectedPhase
  recorded_eq : recordOutcomes contract rolloutId false [] outcomes db = .ok recorded
  barrier : recorded.remaining now threshold rollout nextPhase = 0
  result : db' = recorded.enterPhase rollout nextPhase

structure WasReset (db : Store) (principal : String)
    (request : ResetFailedManagerRolloutRequest) (db' : Store) (rollout : Rollout)
    (receipt : ResetReceipt) : Prop where
  rollout_eq : db.rollout? request.rolloutId = some rollout
  owner : rollout.deploymentPrincipalUri = principal
  digest : rollout.canonicalRequestDigest = request.originalRequestDigest
  fresh : rollout.reset = none
  failed : rollout.phase = .failedClosed
  active : db.guard.activeRolloutId = some request.rolloutId
  result : db' = db.resetRollout rollout receipt

theorem legal_ne {p q : Phase} (h : p.legal q = true) : p ≠ q := by
  rintro rfl
  cases p <;> cases h

theorem checkPermit_eq_ok {guard : Guard} {isOpen : Bool}
    (h : guard.checkPermit principal isOpen = .ok ⟨⟩) :
    ∀ owner, guard.recoveryPermitPrincipalUri = some owner → owner = principal := by
  intro owner howner
  simpa [Guard.checkPermit, howner] using h

theorem serveBegin_eq_ok {request : BeginManagerRolloutRequest}
    {isOpen : Bool} {view : ManagerRollout}
    (h : serveBegin contract db now principal request isOpen rolloutId = .ok (db', view)) :
    ∃ canonical digest, canonicalRolloutRequest contract request = .ok (canonical, digest) ∧
      ((∃ stored ∈ db.rollouts, stored.deploymentPrincipalUri = principal ∧
          contract.uuid stored.request.clientOperationId =
            contract.uuid canonical.clientOperationId ∧
          stored.canonicalRequestDigest = digest ∧ db' = db ∧
          view = managerRolloutFromRow contract stored .prepared) ∨
        ∃ accepted, Begun contract db now principal canonical rolloutId db' accepted ∧
          view = managerRolloutFromRow contract
            (.created contract rolloutId principal canonical digest) .prepared) := by
  simp only [serveBegin, bind_eq_ok] at h
  obtain ⟨⟨canonical, digest⟩, hcanonical, h⟩ := h
  refine ⟨canonical, digest, hcanonical, ?_⟩
  obtain ⟨hform, hdigest, _⟩ := canonicalRolloutRequest_eq_ok hcanonical
  unfold beginManagerRollout at h
  split at h
  next stored hfound =>
    simp only [bind_eq_ok, ensure_eq_ok, pure_eq_ok] at h
    obtain ⟨_, hsame, hresult⟩ := h
    obtain ⟨rfl, rfl⟩ := Prod.mk.inj hresult
    obtain ⟨hmem, hkey⟩ := Table.found hfound
    exact .inl ⟨stored, hmem, hkey.1, hkey.2, hsame, rfl, rfl⟩
  next hnone =>
    simp only [bind_eq_ok, required_eq_ok, ensure_eq_ok, pure_eq_ok] at h
    obtain ⟨accepted, haccepted, _, hinactive, h⟩ := h
    obtain ⟨_, hpermit, _, hsources, _, hnewer, _, hsame, _, ⟨hunused, hpositive, _⟩, hresult⟩ := h
    obtain ⟨rfl, rfl⟩ := Prod.mk.inj hresult
    subst hdigest
    refine .inr ⟨accepted, ⟨hform, ?_, haccepted, hinactive, checkPermit_eq_ok hpermit,
      hsources, hnewer, ?_, ?_, hpositive, rfl⟩, rfl⟩
    · intro r hr hprincipal hoperation
      exact Table.not_found hnone hr ⟨hprincipal, hoperation⟩
    · intro hgeneration
      by_contra hne
      exact hsame ⟨hgeneration, hne⟩
    · intro r hr
      exact of_decide_eq_true (List.all_eq_true.1 hunused r hr)

theorem serveAdvance_eq_ok
    {expectedPhase nextPhase : Phase} {outcomes : List MemberOutcome} {threshold : Time}
    {view : ManagerRollout}
    (h : serveAdvance contract db now rolloutId principal expectedPhase nextPhase outcomes
      threshold = .ok (db', view)) :
    expectedPhase.legal nextPhase = true ∧ getManagerRollout contract db' rolloutId = .ok view ∧
      ((∃ rollout, db.rollout? rolloutId = some rollout ∧ rollout.phase = nextPhase ∧
          rollout.deploymentPrincipalUri = principal ∧
          recordOutcomes contract rolloutId true [] outcomes db = .ok db') ∨
        ∃ rollout recorded, Advanced contract db now rolloutId principal expectedPhase
          nextPhase outcomes threshold db' rollout recorded) := by
  simp only [serveAdvance, advanceManagerRollout, bind_eq_ok, required_eq_ok, ensure_eq_ok,
    pure_eq_ok] at h
  obtain ⟨advanced, ⟨_, hlegal, rollout, hrollout, _, howner, _, hphase, recorded, hrecorded,
    h⟩, found, hfound, hresult⟩ := h
  obtain ⟨rfl, rfl⟩ := Prod.mk.inj hresult
  refine ⟨hlegal, hfound, ?_⟩
  split at h
  next hsame =>
    cases h
    refine .inl ⟨rollout, hrollout, hsame, howner, ?_⟩
    simpa [hsame] using hrecorded
  next hdiffers =>
    simp only [bind_eq_ok, ensure_eq_ok, pure_eq_ok] at h
    obtain ⟨_, hbarrier, hresult⟩ := h
    refine .inr ⟨rollout, recorded, hlegal, hrollout, howner, hphase.resolve_right hdiffers,
      ?_, hbarrier, hresult.symm⟩
    simpa [hdiffers] using hrecorded

theorem serveReset_eq_ok {request : ResetFailedManagerRolloutRequest} {response : ResetResponse}
    (h : serveReset contract db principal request = .ok (db', response)) :
    ∃ canonical requestDigest evidenceDigest,
      canonicalResetRequest contract request = .ok (canonical, requestDigest, evidenceDigest) ∧
      ((db' = db ∧ ∃ rollout receipt, db.rollout? canonical.rolloutId = some rollout ∧
          rollout.reset = some receipt ∧ receipt.requestDigest = requestDigest ∧
          receipt.evidenceDigest = evidenceDigest) ∨
        ∃ rollout receipt, WasReset db principal canonical db' rollout receipt ∧
          receipt.requestDigest = requestDigest ∧ receipt.evidenceDigest = evidenceDigest) := by
  simp only [serveReset, bind_eq_ok] at h
  obtain ⟨⟨canonical, requestDigest, evidenceDigest⟩, hcanonical, h⟩ := h
  refine ⟨canonical, requestDigest, evidenceDigest, hcanonical, ?_⟩
  simp only [resetFailedManagerRollout, bind_eq_ok, required_eq_ok, ensure_eq_ok] at h
  obtain ⟨rollout, hrollout, _, howner, _, hdigest, h⟩ := h
  split at h
  next receipt hreceipt =>
    simp only [bind_eq_ok, ensure_eq_ok, pure_eq_ok] at h
    obtain ⟨_, ⟨hrequest, hevidence⟩, hresult⟩ := h
    obtain ⟨rfl, _⟩ := Prod.mk.inj hresult
    exact .inl ⟨rfl, rollout, receipt, hrollout, hreceipt, hrequest, hevidence⟩
  next hfresh =>
    simp only [bind_eq_ok, required_eq_ok, ensure_eq_ok, pure_eq_ok] at h
    obtain ⟨_, hfailed, _, hactive, _, _, first, _, _, _, _, _, hresult⟩ := h
    obtain ⟨rfl, _⟩ := Prod.mk.inj hresult
    exact .inr ⟨rollout, _, ⟨hrollout, howner, hdigest, hfresh, hfailed, hactive, rfl⟩, rfl, rfl⟩

def Call.managersOnly : Call → Bool
  | .registerManager .. | .deregisterManager .. | .heartbeatManager .. => true
  | .cleanupStaleManagers .. | .initializeState .. => true
  | _ => false

inductive Commits (contract : Contract) (db : Store) (now : Time) : Call → Store → Prop
  | managers {call : Call} (managers : List ManagerRow) (hcall : call.managersOnly = true) :
      Commits contract db now call { db with managers := managers }
  | bootstrap {generation : UInt64} {digest : String} (haccepted : db.guard.accepted = none)
      (hactive : db.guard.activeRolloutId = none) (hrollouts : db.rollouts = [])
      (hpositive : 0 < generation.toInt64) :
      Commits contract db now (.bootstrap generation digest) { db with
        guard := { db.guard with accepted := some ⟨generation.toInt64, digest⟩ } }
  | observe (managerId : String) (policy : Policy) :
      Commits contract db now (.observe managerId policy)
        (observeManagerRollout contract db now managerId policy).1
  | beginRollout {principal : String} {request canonical : BeginManagerRolloutRequest}
      {isOpen : Bool} {rolloutId : Uuid} {accepted : AcceptedPolicy} {db' : Store}
      (hcanonical : canonicalRolloutRequest contract request =
        .ok (canonical, contract.requestDigest canonical))
      (h : Begun contract db now principal canonical rolloutId db' accepted) :
      Commits contract db now (.beginRollout principal request isOpen rolloutId) db'
  | advanceRollout {rolloutId : Uuid} {principal : String} {expectedPhase nextPhase : Phase}
      {outcomes : List MemberOutcome} {threshold : Time} {db' : Store} {rollout : Rollout}
      {recorded : Store}
      (h : Advanced contract db now rolloutId principal expectedPhase nextPhase outcomes
        threshold db' rollout recorded) :
      Commits contract db now
        (.advanceRollout rolloutId principal expectedPhase nextPhase outcomes threshold) db'
  | resetRollout {principal : String} {request canonical : ResetFailedManagerRolloutRequest}
      {db' : Store} {rollout : Rollout} {receipt : ResetReceipt}
      (hcanonical : canonicalResetRequest contract request =
        .ok (canonical, receipt.requestDigest, receipt.evidenceDigest))
      (h : WasReset db principal canonical db' rollout receipt) :
      Commits contract db now (.resetRollout principal request) db'

theorem settle_fst {α : Type} {P : Store → Prop} (result : Except Status α) (store : α → Store)
    (reply : α → Reply) (hok : ∀ value, result = .ok value → P (store value)) (herror : P db) :
    P (settle db result store reply).1 := by
  cases result with
  | ok value => exact hok value rfl
  | error status => exact herror

theorem recordOutcomes_replay {seen : List (Role × String)} {outcomes : List MemberOutcome}
    (h : recordOutcomes contract rolloutId true seen outcomes db = .ok db') : db' = db := by
  induction outcomes generalizing db seen with
  | nil =>
    cases h
    rfl
  | cons outcome rest ih =>
    simp only [recordOutcomes, bind_eq_ok] at h
    obtain ⟨mid, hmid, hrest⟩ := h
    rw [ih hrest]
    simp only [recordOutcome, bind_eq_ok, required_eq_ok] at hmid
    obtain ⟨_, _, _, _, member, _, hmid⟩ := hmid
    split at hmid
    · simp only [bind_eq_ok, pure_eq_ok] at hmid
      obtain ⟨_, _, hsame⟩ := hmid
      exact hsame.symm
    · simp [ensure, bind, Except.bind] at hmid

theorem next_commits (contract : Contract) (db : Store) (input : Input) :
    Commits contract db input.now input.call (next contract db input) ∨
      next contract db input = db := by
  obtain ⟨now, call⟩ := input
  cases call with
  | registerManager managerId grpcAddress =>
    left
    simp only [next, step, registerManager]
    split
    · exact .managers _ rfl
    · exact .managers _ rfl
  | deregisterManager managerId | heartbeatManager managerId | cleanupStaleManagers threshold =>
    exact .inl (.managers _ rfl)
  | initializeState managerId generation digest =>
    left
    simp only [next, step, initializeManagerPolicyState]
    split
    · exact .managers _ rfl
    · exact .managers _ rfl
  | observe managerId policy => exact .inl (.observe managerId policy)
  | bootstrap generation digest =>
    simp only [next, step]
    apply settle_fst (P := fun db' => Commits contract db now _ db' ∨ db' = db)
    · intro value hok
      unfold bootstrapInitialManagerPolicyState at hok
      split at hok
      next hfresh =>
        simp only [bind_eq_ok, ensure_eq_ok, pure_eq_ok] at hok
        obtain ⟨_, hpositive, rfl⟩ := hok
        exact .inl (.bootstrap hfresh.1 hfresh.2.1 hfresh.2.2 hpositive)
      next =>
        cases hok
        exact .inr rfl
    · exact .inr rfl
  | beginRollout principal request isOpen rolloutId =>
    apply settle_fst (P := fun db' => Commits contract db now _ db' ∨ db' = db)
    · rintro ⟨db', view⟩ hok
      obtain ⟨canonical, digest, hcanonical, hcases⟩ := serveBegin_eq_ok hok
      obtain ⟨_, rfl, _⟩ := canonicalRolloutRequest_eq_ok hcanonical
      rcases hcases with ⟨_, _, _, _, _, hsame, _⟩ | ⟨accepted, hbegun, _⟩
      · exact .inr hsame
      · exact .inl (.beginRollout hcanonical hbegun)
    · exact .inr rfl
  | advanceRollout rolloutId principal expectedPhase nextPhase outcomes threshold =>
    simp only [next, step]
    apply settle_fst (P := fun db' => Commits contract db now _ db' ∨ db' = db)
    · rintro ⟨db', view⟩ hok
      obtain ⟨_, _, ⟨_, _, _, _, hreplay⟩ | ⟨rollout, recorded, hadvanced⟩⟩ :=
        serveAdvance_eq_ok hok
      · exact .inr (recordOutcomes_replay hreplay)
      · exact .inl (.advanceRollout hadvanced)
    · exact .inr rfl
  | resetRollout principal request =>
    apply settle_fst (P := fun db' => Commits contract db now _ db' ∨ db' = db)
    · rintro ⟨db', response⟩ hok
      obtain ⟨canonical, requestDigest, evidenceDigest, hcanonical,
        ⟨hsame, _⟩ | ⟨rollout, receipt, hreset, rfl, rfl⟩⟩ := serveReset_eq_ok hok
      · exact .inr hsame
      · exact .inl (.resetRollout hcanonical hreset)
    · exact .inr rfl

@[elab_as_elim]
theorem next_elim {motive : Store → Prop} {contract : Contract} {db : Store} {input : Input}
    (same : motive db)
    (commits : ∀ db', Commits contract db input.now input.call db' → motive db') :
    motive (next contract db input) :=
  (next_commits contract db input).elim (commits _) fun h => by rwa [h]

end Inversion

/-! A sample fleet, for worked runs: `manager-a` serves under the policy of generation
1 and is to be replaced. Identifiers and digests are checked by their form. -/

namespace Sample

def deployer : String := "urn:wruntime:cluster-a:human:deployer"

/-- Digests are cut to one digit, so that the runs evaluate fast. -/
def digest (digit : Char) : String := String.ofList ("sha256:".toList ++ [digit])

def isDigest (text : String) : Bool :=
  text.toList.take 7 = "sha256:".toList ∧
    (text.toList.drop 7).all fun c => c.isDigit || ('a' ≤ c && c ≤ 'f')

def named (text : String) : Except String PUnit :=
  if text ≠ "" ∧ text.toList.all (fun c => c.isLower || c.isDigit || c = '-') = true then .ok ⟨⟩
  else .error "invalid name"

def contract : Contract where
  operationToken text := 16 ≤ text.length ∧ text.length ≤ 128
  uuid text := if (text.toList.splitOn '-').map List.length = [8, 4, 4, 4, 12] then some text
    else none
  clusterId := named
  managerId := named
  principalUri uri :=
    if uri = deployer then .ok ("cluster-a", .human) else .error "invalid principal URI"
  peerHttpsUrl url := url.toList.take 8 = "https://".toList
  bundleDigest := isDigest
  requestDigest request := "request " ++ request.clientOperationId
  resetRequestDigest request := "reset " ++ request.rolloutId
  evidenceDigest evidence := String.join (evidence.map (·.managerId))
  managerSetHash targets := String.join (targets.map (·.managerId))

def endpoint (managerId : String) : String := "https://" ++ managerId ++ ":9443"

/-- A policy that enrolls the managers and lets the deployer roll it out. -/
def policy (generation : UInt64) (digest : String) (managers : List String) : Policy where
  generation := generation
  digest := digest
  clusterId := "cluster-a"
  principals := [(deployer, .human)]
  assignments := [⟨deployer, .infra, none⟩]
  managerTargets := managers.map fun m => ⟨m, endpoint m⟩
  managerSetHash := String.join managers
  revokedLeafFingerprints := []

def source (managerId : String) : ManagerRolloutSource :=
  ⟨managerId, endpoint managerId, digest '0', digest '1'⟩

def target (managerId : String) : ManagerRolloutTarget :=
  ⟨managerId, endpoint managerId, digest '0', digest '2', digest '3', digest '4', digest '5',
    digest '1', digest '6'⟩

def request (operation : String) (policy : Policy) (sources targets : List String) :
    BeginManagerRolloutRequest where
  clientOperationId := operation
  clusterId := "cluster-a"
  targetGeneration := policy.generation
  targetPolicyDigest := policy.digest
  expectedTargets := targets.map target
  targetPolicyValidatorVersion := 1
  targetDeploymentPrincipalUri := deployer
  targetDeploymentLeafFingerprint := digest '7'
  sourceManagers := sources.map source
  manifestDigest := digest '8'
  deploymentCertificate := "deploy"

def oldPolicy : Policy := policy 1 (digest 'a') ["manager-a"]

def newPolicy : Policy := policy 2 (digest 'b') ["manager-b"]

def onTime (n : Nat) (call : Call) : Input := ⟨Manager.seconds n, call⟩

/-- `manager-a` registers, and its policy is the first accepted one. -/
def serving : List Input :=
  [onTime 1 (.registerManager "manager-a" (endpoint "manager-a")),
    onTime 1 (.bootstrap 1 oldPolicy.digest),
    onTime 1 (.initializeState "manager-a" 1 oldPolicy.digest)]

def firstOperation : String := "3f2d9c61-58ab-4e07-9d44-6a1b7c8e2f10"

def secondOperation : String := "b80c5e72-1d3f-4a96-8c25-0e9f47d6a3b1"

/-- The id that is drawn for the rollout of an operation. -/
def rolloutOf (operation : String) : Uuid :=
  if operation = firstOperation then "5c7a1e94-2b60-4d3f-a817-93e0d5f6b248"
  else "e41f0b86-79cd-4532-b6a9-1d8c2e7f3a05"

def begun (n : Nat) (request : BeginManagerRolloutRequest) : Input :=
  onTime n (.beginRollout deployer request true (rolloutOf request.clientOperationId))

def observed (n : Nat) (managerId : String) (policy : Policy) : Input :=
  onTime n (.observe managerId policy)

def advanced (n : Nat) (operation : String) (expectedPhase nextPhase : Phase)
    (outcomes : List MemberOutcome) : Input :=
  onTime n (.advanceRollout (rolloutOf operation) deployer expectedPhase nextPhase outcomes
    (Manager.seconds 30))

def outcome (role : Role) (managerId report : String) : MemberOutcome :=
  ⟨managerId, role, report, ""⟩

def run (inputs : List Input) : Store :=
  runAll (next contract) Store.empty inputs

theorem reachable_run (inputs : List Input) : Reachable contract (run inputs) :=
  reach_runAll_any _ _

end Sample

end Wruntime.Fleet
