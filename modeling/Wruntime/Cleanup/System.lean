import Wruntime.Cleanup.Transactions
import Wruntime.Manager.Authority

/-!
A node and its cleanup as a transition system: the manager's calls, the periodic passes and the
agent's cleanup calls in any order and at any times. `Outcome` says once what an event can do to the
cleanup tables; the node's own database runs as the system of `Manager` does.
-/

namespace Wruntime.Cleanup

open Fallible Runs
open Manager (Db Revision Status Time)

variable {clock now : Time} {principal : String} {event : Event}

/-- `moved` is the number of fences a manager call passes while it moves an operation; `now` is the
database's time, `clock` the manager's. -/
inductive Event where
  | manager (input : Manager.Input) (moved : Nat)
  | reconcile (now clock : Time) (seen : Db) (seenDeleted : List Revision)
  | claim (now clock : Time) (agentInstanceId principal freshClaim : String)
  | renew (now : Time) (request : RenewNodeCleanupLeaseRequest) (principal : String)
  | report (clock : Time) (request : ReportNodeCleanupResultRequest) (principal : String)
  | retry (now : Time) (observedGeneration : Nat)

inductive Reply where
  | failed (status : Status)
  | manager (reply : Manager.Reply)
  | instruction (value : Option NodeCleanupInstruction)
  | lease (expiresAt : Option Time)
  | disposition (value : NodeCleanupResultDisposition)
  | summary (row : Row)
  | done
  deriving DecidableEq

def settle {α : Type} (w : World) (reply : α → Reply) (result : Except Status (World × α)) :
    World × Reply :=
  match result with
  | .ok (w', value) => (w', reply value)
  | .error status => (w, .failed status)

def World.managerStep (contract : Contract) (w : World) (input : Manager.Input) (moved : Nat) :
    World :=
  let db := (Manager.step contract.deployment w.db input.now input.call).1
  { w.fence input.now (fencesOf input.call w.db db moved) with db }

def step (contract : Contract) (w : World) : Event → World × Reply
  | .manager input moved =>
    (w.managerStep contract input moved,
      .manager (Manager.step contract.deployment w.db input.now input.call).2)
  | .reconcile now clock seen seenDeleted =>
    settle w (fun _ : Unit => .done)
      ((reconcileNodeCleanup contract w now clock seen seenDeleted).map (·, ()))
  | .claim now clock agentInstanceId principal freshClaim =>
    settle w .instruction (claimNodeCleanup contract w now clock agentInstanceId principal freshClaim)
  | .renew now request principal => settle w .lease (renewNodeCleanup w now request principal)
  | .report clock request principal =>
    settle w .disposition (reportNodeCleanupResult contract w clock request principal)
  | .retry now observedGeneration => settle w .summary (retryNodeCleanup w now observedGeneration)

def World.next (contract : Contract) (w : World) (event : Event) : World :=
  (step contract w event).1

section Outcomes

variable {contract : Contract} {w w' : World} {row row' : Row}
variable {seenDeleted : List Revision} {request : ReportNodeCleanupResultRequest}

inductive Reconciled (contract : Contract) (seen : Db) (seenDeleted : List Revision) (row : Row) :
    Row → Prop
  | kept : Reconciled contract seen seenDeleted row row
  | paused {detail : String} {next : Option Time} (hclaim : row.claim = none) :
      Reconciled contract seen seenDeleted row { row with
        state := .paused
        diagnosticCode := "POLICY_QUERY_FAILED"
        diagnosticDetail := detail
        nextReconcileAt := next }
  | touched {next : Option Time} :
      Reconciled contract seen seenDeleted row { row with nextReconcileAt := next }
  | materialized {policy : CleanupPolicySnapshot} {now : Time} {from_ : Row}
      (hpolicy : managerCleanupPolicy contract seen seenDeleted = .ok policy)
      (hfrom : from_ = row.supersede ∨
        from_ = row ∧ row.state ≠ .pending ∧ row.state ≠ .claimed) :
      Reconciled contract seen seenDeleted row (from_.materialize contract policy now)

theorem reconcileRow_eq_ok {seen : Db}
    (h : reconcileRow contract row (managerCleanupPolicy contract seen seenDeleted) now clock =
      .ok row') : Reconciled contract seen seenDeleted row row' := by
  unfold reconcileRow at h
  split at h
  next status hpolicy =>
    simp only [bind_eq_ok, ensure_eq_ok, pure_eq_ok] at h
    obtain ⟨_, hclaim, rfl⟩ := h
    exact .paused hclaim
  next policy hpolicy =>
    split at h
    · rw [← pure_eq_ok.mp h]
      exact .materialized hpolicy (.inl rfl)
    · split at h
      · rw [← pure_eq_ok.mp h]
        exact .touched
      next hstate =>
        rw [← pure_eq_ok.mp h]
        exact .materialized hpolicy (.inr ⟨rfl, not_or.mp hstate⟩)

def Canonical (values : List Release) : Prop :=
  (∀ r ∈ values, r.revision ≠ 0 ∧ r.bundleDigest ≠ "" ∧ r.resolvedReleaseDigest ≠ "") ∧
    (values.map (·.revision)).Nodup

theorem canonicalReleases_eq_ok {values result : List Release} :
    canonicalReleases values = .ok result ↔ Canonical values ∧ result = values := by
  simp only [canonicalReleases, bind_eq_ok, ensure_eq_ok, pure_eq_ok]
  constructor
  · rintro ⟨_, hvalid, rfl⟩
    exact ⟨hvalid, rfl⟩
  · rintro ⟨hvalid, rfl⟩
    exact ⟨⟨⟩, hvalid, rfl⟩

/-- A result without condition: the first is compared with the catalogue, later ones with the issued
inventory. -/
theorem checkResult_eq_ok {authority : Authority} :
    checkResult contract w authority request = .ok () ↔
      Canonical request.deletedReleases ∧ Canonical authority.deleteReleases ∧
        sameReleases request.deletedReleases authority.deleteReleases ∧
        Canonical request.resultingInventory ∧ if authority.knownInventory = [] then
          ∃ policy, managerCleanupPolicy contract w.db w.deleted = .ok policy ∧
            Canonical policy.known ∧ ∀ r ∈ request.resultingInventory, r ∈ policy.known else
          Canonical authority.knownInventory ∧
            sameReleases request.resultingInventory (authority.knownInventory.filter fun r =>
              r.revision ∉ authority.deleteReleases.map (·.revision)) := by
  simp only [checkResult, bind_eq_ok, ensure_eq_ok, canonicalReleases_eq_ok]
  constructor
  · rintro ⟨_, ⟨hdeleted, rfl⟩, _, ⟨hissued, rfl⟩, _, hsame, _, ⟨hresulting, rfl⟩, h⟩
    refine ⟨hdeleted, hissued, hsame, hresulting, ?_⟩
    split at h
    next hempty =>
      rw [if_pos hempty]
      simp only [bind_eq_ok, ensure_eq_ok, canonicalReleases_eq_ok] at h
      obtain ⟨policy, hpolicy, _, ⟨hknown, rfl⟩, hsubset⟩ := h
      exact ⟨policy, hpolicy, hknown, hsubset⟩
    next hne =>
      rw [if_neg hne]
      simp only [bind_eq_ok, ensure_eq_ok, canonicalReleases_eq_ok] at h
      obtain ⟨_, ⟨hknown, rfl⟩, hremaining⟩ := h
      exact ⟨hknown, hremaining⟩
  · rintro ⟨hdeleted, hissued, hsame, hresulting, h⟩
    refine ⟨_, ⟨hdeleted, rfl⟩, _, ⟨hissued, rfl⟩, ⟨⟩, hsame, _, ⟨hresulting, rfl⟩, ?_⟩
    split at h
    next hempty =>
      obtain ⟨policy, hpolicy, hknown, hsubset⟩ := h
      rw [if_pos hempty]
      simp only [bind_eq_ok, ensure_eq_ok, canonicalReleases_eq_ok]
      exact ⟨policy, hpolicy, _, ⟨hknown, rfl⟩, hsubset⟩
    next hne =>
      rw [if_neg hne]
      simp only [bind_eq_ok, ensure_eq_ok, canonicalReleases_eq_ok]
      exact ⟨_, ⟨h.1, rfl⟩, h.2⟩

inductive Outcome (contract : Contract) (w : World) : Event → World → Prop
  | same {event : Event} : Outcome contract w event w
  | manager {input : Manager.Input} {moved : Nat} :
      Outcome contract w (.manager input moved) (w.managerStep contract input moved)
  | reconciled {now clock : Time} {seen : Db} {seenDeleted : List Revision} {row row' : Row}
      (hrow : w.cleanup = some row ∨ w.cleanup = none ∧ row = Row.fresh)
      (hreconciled : Reconciled contract seen seenDeleted row row') :
      Outcome contract w (.reconcile now clock seen seenDeleted) { w with cleanup := some row' }
  | fenced {event : Event} {now : Time} : Outcome contract w event (w.fence now 1)
  | claimed {now clock : Time} {agentInstanceId principal freshClaim : String} {row : Row}
      {policy : CleanupPolicySnapshot} (hrow : w.cleanup = some row)
      (hclaimable : row.claimable clock agentInstanceId principal = true)
      (hpolicy : managerCleanupPolicy contract w.db w.deleted = .ok policy)
      (hfingerprint : policy.fingerprint = row.protectionFingerprint)
      (hauthority : row.authority.isSome = true) :
      Outcome contract w (.claim now clock agentInstanceId principal freshClaim)
        { w with cleanup := some (row.takeClaim now agentInstanceId principal freshClaim) }
  | renewed {now : Time} {request : RenewNodeCleanupLeaseRequest} {principal : String}
      {row : Row} {f : Claim → Claim} (hrow : w.cleanup = some row)
      (hheld : row.heldBy now request principal = true) :
      Outcome contract w (.renew now request principal)
        { w with cleanup := some { row with claim := row.claim.map f } }
  | cleaned {clock : Time} {request : ReportNodeCleanupResultRequest} {principal : String}
      {row : Row} {authority : Authority} (hrow : w.cleanup = some row)
      (hheld : row.heldBy clock request.claimRequest principal = true)
      (hauthority : row.authority = some authority)
      (hcheck : checkResult contract w authority request = .ok ()) :
      Outcome contract w (.report clock request principal) { w with
        cleanup := some (row.cleaned request.resultingInventory)
        deletions := recordDeletions w.deletions request.deletedReleases request.generation
        receipts := w.receipts ++ [⟨principal, request⟩] }
  | pausedReport {clock : Time} {request : ReportNodeCleanupResultRequest} {principal : String}
      {row : Row} (hrow : w.cleanup = some row)
      (hheld : row.heldBy clock request.claimRequest principal = true) :
      Outcome contract w (.report clock request principal) { w with
        cleanup := some (row.pause request.conditionCode request.detail)
        receipts := w.receipts ++ [⟨principal, request⟩] }

theorem reconcileNodeCleanup_eq_ok {seen : Db}
    (h : reconcileNodeCleanup contract w now clock seen seenDeleted = .ok w') :
    w' = w ∨ ∃ row row', (w.cleanup = some row ∨ w.cleanup = none ∧ row = Row.fresh) ∧
      Reconciled contract seen seenDeleted row row' ∧ w' = { w with cleanup := some row' } := by
  unfold reconcileNodeCleanup at h
  dsimp only at h
  split at h
  · exact .inl (pure_eq_ok.mp h).symm
  next row hrow =>
    have hcases : w.cleanup = some row ∨ w.cleanup = none ∧ row = Row.fresh := by
      cases hcleanup : w.cleanup with
      | some old => exact .inl (by simpa [hcleanup] using hrow)
      | none =>
        rw [hcleanup, Option.none_or] at hrow
        split at hrow
        · exact .inr ⟨rfl, (Option.some.inj hrow).symm⟩
        · cases hrow
    split at h
    · simp only [bind_eq_ok, pure_eq_ok] at h
      obtain ⟨row', hreconcile, rfl⟩ := h
      exact .inr ⟨row, row', hcases, reconcileRow_eq_ok hreconcile, rfl⟩
    · exact .inr ⟨row, row, hcases, .kept, (pure_eq_ok.mp h).symm⟩

/-- A claim answered with an instruction takes the row and states its authority; others leave or
fence it. -/
theorem claimNodeCleanup_eq_ok {agentInstanceId freshClaim : String}
    {instruction : Option NodeCleanupInstruction}
    (h : claimNodeCleanup contract w now clock agentInstanceId principal freshClaim =
      .ok (w', instruction)) : (instruction = none ∧ (w' = w ∨ w' = w.fence now 1)) ∨
      ∃ row policy, w.cleanup = some row ∧ row.claimable clock agentInstanceId principal = true ∧
        managerCleanupPolicy contract w.db w.deleted = .ok policy ∧
        policy.fingerprint = row.protectionFingerprint ∧ row.authority.isSome = true ∧
        w' = { w with cleanup := some (row.takeClaim now agentInstanceId principal freshClaim) } ∧
        instruction = (row.takeClaim now agentInstanceId principal freshClaim).instruction := by
  simp only [claimNodeCleanup, bind_eq_ok, ensure_eq_ok] at h
  obtain ⟨_, _, _, _, h⟩ := h
  split at h
  · obtain ⟨rfl, rfl⟩ := Prod.mk.inj (pure_eq_ok.mp h)
    exact .inl ⟨rfl, .inl rfl⟩
  next row hrow =>
    split at h
    next hclaimable =>
      simp only [bind_eq_ok] at h
      obtain ⟨policy, hpolicy, h⟩ := h
      split at h
      · obtain ⟨rfl, rfl⟩ := Prod.mk.inj (pure_eq_ok.mp h)
        exact .inl ⟨rfl, .inr rfl⟩
      next hfingerprint =>
        simp only [bind_eq_ok, required_eq_ok] at h
        obtain ⟨authority, hauthority, h⟩ := h
        obtain ⟨rfl, rfl⟩ := Prod.mk.inj (pure_eq_ok.mp h)
        exact .inr ⟨row, policy, hrow, hclaimable, hpolicy, not_not.mp hfingerprint,
          by rw [hauthority]; rfl, rfl, rfl⟩
    · obtain ⟨rfl, rfl⟩ := Prod.mk.inj (pure_eq_ok.mp h)
      exact .inl ⟨rfl, .inl rfl⟩

theorem renewNodeCleanup_outcome {request : RenewNodeCleanupLeaseRequest} {expiresAt : Option Time}
    (h : renewNodeCleanup w now request principal = .ok (w', expiresAt)) :
    Outcome contract w (.renew now request principal) w' := by
  simp only [renewNodeCleanup, bind_eq_ok, ensure_eq_ok] at h
  obtain ⟨_, _, _, _, h⟩ := h
  split at h
  · rw [← (Prod.mk.inj (pure_eq_ok.mp h)).1]
    exact .same
  next row hrow =>
    split at h
    next hheld =>
      rw [← (Prod.mk.inj (pure_eq_ok.mp h)).1]
      exact .renewed hrow hheld
    · rw [← (Prod.mk.inj (pure_eq_ok.mp h)).1]
      exact .same

theorem reportNodeCleanupResult_outcome {disposition : NodeCleanupResultDisposition}
    (h : reportNodeCleanupResult contract w clock request principal = .ok (w', disposition)) :
    Outcome contract w (.report clock request principal) w' := by
  simp only [reportNodeCleanupResult, bind_eq_ok, ensure_eq_ok] at h
  obtain ⟨_, _, _, _, h⟩ := h
  split at h
  · simp only [bind_eq_ok, ensure_eq_ok] at h
    obtain ⟨_, _, _, _, h⟩ := h
    rw [← (Prod.mk.inj (pure_eq_ok.mp h)).1]
    exact .same
  · simp only [bind_eq_ok, required_eq_ok] at h
    obtain ⟨row, hrow, h⟩ := h
    split at h
    next hheld =>
      simp only [bind_eq_ok, ensure_eq_ok, required_eq_ok] at h
      obtain ⟨_, _, authority, hauthority, h⟩ := h
      split at h
      · simp only [bind_eq_ok] at h
        obtain ⟨_, hcheck, h⟩ := h
        rw [← (Prod.mk.inj (pure_eq_ok.mp h)).1]
        exact .cleaned hrow hheld hauthority hcheck
      · rw [← (Prod.mk.inj (pure_eq_ok.mp h)).1]
        exact .pausedReport hrow hheld
    · rw [← (Prod.mk.inj (pure_eq_ok.mp h)).1]
      exact .same

theorem retryNodeCleanup_eq_ok {observedGeneration : Nat}
    (h : retryNodeCleanup w now observedGeneration = .ok (w', row)) : w' = w.fence now 1 := by
  simp only [retryNodeCleanup, bind_eq_ok, ensure_eq_ok, required_eq_ok] at h
  obtain ⟨_, _, old, hold, h⟩ := h
  rw [← (Prod.mk.inj (pure_eq_ok.mp h)).1]
  simp [World.fence, (Option.filter_eq_some_iff.mp hold).1]

theorem settle_outcome {α : Type} {reply : α → Reply} {result : Except Status (World × α)}
    (h : ∀ w' value, result = .ok (w', value) → Outcome contract w event w') :
    Outcome contract w event (settle w reply result).1 := by
  cases result with
  | error status => exact .same
  | ok value => exact h _ _ rfl

theorem next_outcome (contract : Contract) (w : World) (event : Event) :
    Outcome contract w event (w.next contract event) := by
  cases event with
  | manager input moved => exact .manager
  | reconcile now clock seen seenDeleted =>
    refine settle_outcome fun w' _ h => ?_
    cases hresult : reconcileNodeCleanup contract w now clock seen seenDeleted with
    | error status =>
      rw [hresult] at h
      cases h
    | ok result =>
      rw [hresult] at h
      cases h
      obtain rfl | ⟨row, row', hrow, hreconciled, rfl⟩ := reconcileNodeCleanup_eq_ok hresult
      · exact .same
      · exact .reconciled hrow hreconciled
  | claim now clock agentInstanceId principal freshClaim =>
    refine settle_outcome fun w' _ h => ?_
    obtain ⟨_, rfl | rfl⟩ | ⟨row, policy, hrow, hclaimable, hpolicy, hfingerprint,
      hauthority, rfl, _⟩ := claimNodeCleanup_eq_ok h
    · exact .same
    · exact .fenced
    · exact .claimed hrow hclaimable hpolicy hfingerprint hauthority
  | renew now request principal => exact settle_outcome fun _ _ h => renewNodeCleanup_outcome h
  | report clock request principal =>
    exact settle_outcome fun _ _ h => reportNodeCleanupResult_outcome h
  | retry now observedGeneration =>
    refine settle_outcome fun w' _ h => ?_
    rw [retryNodeCleanup_eq_ok h]
    exact .fenced

end Outcomes

theorem mem_recordDeletions {deletions : List Deletion} {releases : List Release}
    {generation : Nat} {revision : Revision} :
    revision ∈ (recordDeletions deletions releases generation).map (·.release.revision) ↔
      revision ∈ deletions.map (·.release.revision) ∨ revision ∈ releases.map (·.revision) := by
  unfold recordDeletions
  induction releases generalizing deletions with
  | nil => simp
  | cons r releases ih =>
    rw [List.foldl_cons, ih, List.map_cons, List.mem_cons]
    split
    next hknown =>
      constructor
      · exact Or.imp_right .inr
      · rintro (h | rfl | h)
        · exact .inl h
        · exact .inl hknown
        · exact .inr h
    · rw [List.map_append, List.mem_append, List.map_singleton, List.mem_singleton, or_assoc]

theorem fence_iterate (row : Row) (now : Time) (passes : Nat) :
    (Row.fence · now)^[passes] row = row ∨ ∃ generation, row.generation < generation ∧
      (Row.fence · now)^[passes] row = { row.fence now with generation } := by
  induction passes with
  | zero => exact .inl rfl
  | succ passes ih =>
    right
    rw [Function.iterate_succ_apply']
    rcases ih with heq | ⟨generation, hlt, heq⟩
    · rw [heq]
      exact ⟨row.generation + 1, Nat.lt_succ_self _, rfl⟩
    · rw [heq]
      exact ⟨generation + 1, Nat.lt_succ_of_lt hlt, rfl⟩

theorem World.fence_cleanup {w : World} {passes : Nat} {row' : Row}
    (h : (w.fence now passes).cleanup = some row') : ∃ row, w.cleanup = some row ∧ (row' = row ∨
      ∃ generation, row.generation < generation ∧ row' = { row.fence now with generation }) := by
  obtain ⟨row, hrow, rfl⟩ := Option.map_eq_some_iff.mp h
  exact ⟨row, hrow, fence_iterate row now passes⟩

section Database

variable {contract : Contract} {nodeId : String} {ok : World → Event → Prop} {w : World}

theorem Outcome.db {w' : World} (h : Outcome contract w event w') :
    w'.db = w.db ∨ ∃ input moved, event = .manager input moved ∧
      w'.db = (Manager.step contract.deployment w.db input.now input.call).1 := by
  cases h with
  | manager => exact .inr ⟨_, _, rfl, rfl⟩
  | _ => exact .inl rfl

section

variable (hreach : Reach (World.next contract) ok (World.initial nodeId) w)
include hreach

theorem reach_manager : ∃ m, Manager.Reachable contract.deployment nodeId m ∧ m.db = w.db := by
  refine hreach.invariant (P := fun w =>
    ∃ m, Manager.Reachable contract.deployment nodeId m ∧ m.db = w.db) ?_ ?_
  · exact ⟨_, .refl, rfl⟩
  · rintro w event _ _ ⟨m, hm, hdb⟩
    obtain hsame | ⟨input, moved, _, hstep⟩ := (next_outcome contract w event).db
    · exact ⟨m, hm, hdb.trans hsame.symm⟩
    · refine ⟨m.next contract.deployment input, hm.step trivial, ?_⟩
      rw [hstep, ← hdb]
      rfl

theorem reach_sound : Manager.Keys w.db ∧ Manager.Sound w.db := by
  obtain ⟨m, hm, hdb⟩ := reach_manager hreach
  rw [← hdb]
  exact Manager.reachable_sound hm

end

theorem Outcome.moves {w' : World} (h : Outcome contract w event w')
    (hkeys : Manager.Keys w.db) : ∃ now, Manager.Moves now w.db w'.db := by
  obtain hsame | ⟨input, moved, _, hstep⟩ := h.db
  · rw [hsame]
    exact ⟨0, .refl⟩
  · rw [hstep]
    exact ⟨_, (Manager.step_transaction contract.deployment input.now hkeys input.call).moves⟩

end Database

/-! A sample node for worked runs: revisions without engine slots, with the
identities that the deployment contract computes for them. Its SHA-256 is any
function without collisions. -/

namespace Sample

open Manager (seconds)
open Manager.Sample (agentBinary bundle inventory resolved)

def revisions : List (Revision × String × String) :=
  [(1, "sha256:c95a4da351906968cbf9db97c93a8f50962d88ba52f3b24712eb88db36433f20",
      "56c3da2c-c839-8b49-8800-4c5248ed3af5"),
    (2, "sha256:85d9f3bb616eae7c1bf7bbb82b9f3e1b99c6dea0749cf18645007008931641bf",
      "b013ef0a-80df-8660-bd96-4167eed086d3"),
    (3, "sha256:a893f2f431f09fa3e27d3e656e1ba4fdb8114d1fa1ee104fedae09bd6156546b",
      "8747c667-f781-8566-b102-8bb16718bc33"),
    (4, "sha256:831e64134cc273061f0495823a5e58fa7c3fdaa3525df1a459a2ce85be354316",
      "0e8b2d95-7b03-89a0-beff-f8696be08ff0")]

def contract : Contract where
  deployment :=
    { checkEntries := fun _ => .ok ⟨⟩
      revisionDigest := fun nodeId revision digest requested =>
        match revisions.find? fun row => nodeId = "node-a" ∧ row.1 = revision ∧
            digest = bundle ∧ requested = inventory [] with
        | some row => .ok row.2.1
        | none => .error "revision and normalized bundle digest are required"
      deploymentOperationId := fun digest =>
        match revisions.find? fun row => row.2.1 = digest with
        | some row => .ok row.2.2
        | none => .error "normalized revision digest is required" }
  sha256 := List.cons 1

def runFrom (w : World) (script : List (World → Event)) : World :=
  runScript (World.next contract) w script

def run (script : List (World → Event)) : World := runFrom (World.initial "node-a") script

def call (n : Nat) (call : Manager.Call) : World → Event :=
  fun _ => .manager ⟨seconds n, call⟩ 1

def retain (n retentionCount : Nat) : World → Event :=
  call n (.putAgentPolicy ⟨"1", agentBinary, [], some retentionCount⟩)

def attest (n : Nat) : World → Event :=
  call n (.attest "agent-a" ⟨"activation-1", "", "1", agentBinary, [], 0⟩)

def token (revision : Revision) : String := "attempt-" ++ toString revision

def begin_ (n : Nat) (revision : Revision) : World → Event :=
  call n (.beginDeployment ⟨"node-a", token revision, bundle, some (inventory [])⟩ "alice")

def finalize (n : Nat) (revision : Revision) : World → Event :=
  call n (.finalizeDeployment ⟨"node-a", revision, token revision, bundle, resolved⟩ "alice")

def abandon (n : Nat) (revision : Revision) : World → Event :=
  call n (.abandonDeployment (token revision) "alice")

def pass (n : Nat) : World → Event :=
  fun w => .reconcile (seconds n) (seconds n) w.db w.deleted

def claim (n : Nat) : World → Event :=
  fun _ => .claim (seconds n) (seconds n) "activation-1" "agent-a" ("claim-" ++ toString n)

def entry (revision : Revision) : Release := ⟨revision, bundle, resolved⟩

def result (w : World) (deleted inventory : List Release) : ReportNodeCleanupResultRequest :=
  let row := w.cleanup.getD Row.fresh
  { agentInstanceId := "activation-1"
    generation := row.generation
    leaseEpoch := row.leaseEpoch
    claimInstance := (row.claim.map (·.claimInstance)).getD ""
    payloadDigest := row.payloadDigest
    deletedReleases := deleted
    resultingInventory := inventory
    conditionCode := ""
    detail := "" }

def report (n : Nat) (deleted inventory : List Release) : World → Event :=
  fun w => .report (seconds n) (result w deleted inventory) "agent-a"

def discovered : List (World → Event) :=
  [retain 1 1, attest 2, begin_ 3 1, finalize 4 1, pass 5, claim 6, report 7 [] [entry 1]]

def offered : List (World → Event) := discovered ++ [abandon 8 1, pass 9]

end Sample

end Wruntime.Cleanup
