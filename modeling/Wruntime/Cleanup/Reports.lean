import Wruntime.Cleanup.Authority

/-!
Results of a cleanup. A result is accepted once, for the claim that is held, and its repetition is
answered from the receipt. The first inventory of a node is compared with its whole catalogue, which
fails the checks of a result while the node has a deployment that was never finalized.
-/

namespace Wruntime.Cleanup

open Fallible Runs
open Manager (Db Deployment Revision Time seconds i64Max Keys Move Moves)

variable {xs ys : List Release} {db db' : Db} {clock now : Time} {principal : String}

/-- The remembered inventory was accepted once, and a claimable row's authority deletes from it. -/
structure Row.Stocked (row : Row) : Prop where
  inventory : ∀ releases ∈ row.knownInventory, Canonical releases
  authority : row.state = .pending ∨ row.state = .claimed →
    ∀ authority, row.authority = some authority →
      Canonical authority.knownInventory ∧
        List.Sublist authority.deleteReleases authority.knownInventory

theorem Canonical.nil : Canonical [] := ⟨nofun, List.nodup_nil⟩

theorem Canonical.sublist (h : Canonical ys) (hsub : xs.Sublist ys) : Canonical xs :=
  ⟨fun r hr => h.1 r (hsub.subset hr), h.2.sublist (hsub.map _)⟩

theorem Canonical.perm (h : Canonical ys) (hperm : xs.Perm ys) : Canonical xs :=
  ⟨fun r hr => h.1 r (hperm.mem_iff.mp hr), (hperm.map _).nodup_iff.mpr h.2⟩

def Row.Outdates (row : Row) (receipt : Receipt) : Prop :=
  receipt.result.leaseEpoch ≤ row.leaseEpoch ∧
    (row.state = .claimed → receipt.result.leaseEpoch < row.leaseEpoch)

def Configured (db : Db) : Prop := db.agentPolicy.isSome = true ∧ db.nodePresent = true

structure Consistent (w : World) : Prop where
  stocked : ∀ row ∈ w.cleanup, row.Stocked
  receipts : ∀ receipt ∈ w.receipts, ∃ row ∈ w.cleanup, row.Outdates receipt
  configured : ∀ row ∈ w.cleanup, row.state = .claimed → Configured w.db

section Invariant

variable {contract : Contract} {w w' : World} {row row' : Row}

theorem Row.Stocked.of_inventory (h : row.Stocked) (hsame : row'.knownInventory = row.knownInventory)
    (hidle : row'.authority = none ∨ row'.state ≠ .pending ∧ row'.state ≠ .claimed) :
    row'.Stocked := by
  refine ⟨hsame ▸ h.inventory, ?_⟩
  intro hstate authority hauthority
  rcases hidle with hnone | ⟨hpending, hclaimed⟩
  · cases hnone.symm.trans hauthority
  · rcases hstate with hstate | hstate
    · exact absurd hstate hpending
    · exact absurd hstate hclaimed

theorem Row.Stocked.of_claim (h : row.Stocked) (hsame : row'.knownInventory = row.knownInventory)
    (hstate : row.state = .pending ∨ row.state = .claimed)
    (hauthority : row'.authority = row.authority) : row'.Stocked := by
  refine ⟨hsame ▸ h.inventory, ?_⟩
  intro _ authority hsome
  exact h.authority hstate authority (hauthority ▸ hsome)

theorem Row.Stocked.materialize (h : row.Stocked) (policy : CleanupPolicySnapshot) (now : Time) :
    (row.materialize contract policy now).Stocked := by
  unfold Row.materialize
  split
  · exact h.of_inventory rfl (.inl rfl)
  · refine ⟨h.inventory, ?_⟩
    rintro - authority hauthority
    obtain rfl := Option.some.inj hauthority
    refine ⟨?_, List.filter_sublist⟩
    change Canonical (row.knownInventory.getD [])
    cases hinventory : row.knownInventory with
    | none => exact .nil
    | some releases => exact h.inventory releases hinventory

theorem Reconciled.stocked {seen : Db} {seenDeleted : List Revision}
    (h : Reconciled contract seen seenDeleted row row') (hrow : row.Stocked) : row'.Stocked := by
  cases h with
  | kept => exact hrow
  | touched => exact ⟨hrow.inventory, hrow.authority⟩
  | paused => exact hrow.of_inventory rfl (.inr ⟨nofun, nofun⟩)
  | materialized hpolicy hfrom =>
    rcases hfrom with rfl | ⟨rfl, -⟩
    · exact (hrow.of_inventory rfl (.inl rfl) : row.supersede.Stocked).materialize _ _
    · exact hrow.materialize _ _

theorem Reconciled.lease {seen : Db} {seenDeleted : List Revision}
    (h : Reconciled contract seen seenDeleted row row') :
    row'.leaseEpoch = row.leaseEpoch ∧ (row'.state = .claimed → row.state = .claimed) := by
  cases h with
  | kept | touched => exact ⟨rfl, id⟩
  | paused => exact ⟨rfl, nofun⟩
  | materialized hpolicy hfrom =>
    have hepoch {from_ : Row} {policy : CleanupPolicySnapshot} {now : Time} :
        (from_.materialize contract policy now).leaseEpoch = from_.leaseEpoch ∧
          (from_.materialize contract policy now).state ≠ .claimed := by
      unfold Row.materialize
      split
      · exact ⟨rfl, nofun⟩
      · exact ⟨rfl, nofun⟩
    refine ⟨hepoch.1.trans ?_, fun hstate => absurd hstate hepoch.2⟩
    rcases hfrom with rfl | ⟨rfl, -⟩
    · rfl
    · rfl

theorem fresh_stocked : Row.fresh.Stocked :=
  ⟨nofun, fun _ _ hauthority => nomatch hauthority⟩

theorem Configured.of_eq (h : Configured db) (hpolicy : db'.agentPolicy = db.agentPolicy)
    (hpresent : db'.nodePresent = db.nodePresent) : Configured db' := by
  unfold Configured
  rw [hpolicy, hpresent]
  exact h

theorem Configured.move (h : Configured db) (hmove : Move now db db') : Configured db' := by
  cases hmove with
  | @write op effect f hmem hmove =>
    cases effect with
    | commit =>
      have hcommit : (db.commit op.targetRevision).agentPolicy = db.agentPolicy ∧
          (db.commit op.targetRevision).nodePresent = db.nodePresent := by
        unfold Db.commit
        split <;> exact ⟨rfl, rfl⟩
      exact h.of_eq hcommit.1 hcommit.2
    | _ => exact h.of_eq rfl rfl
  | observe row =>
    rw [Manager.recordObservation_eq]
    exact h.of_eq rfl rfl
  | policy policy => exact ⟨rfl, rfl⟩
  | allocate hrow | record hrecorded => exact ⟨h.1, rfl⟩
  | submit hsubmitted =>
    unfold Manager.Db.insertSubmitted
    split
    · exact ⟨h.1, rfl⟩
    · exact ⟨h.1, rfl⟩
  | publish evidence =>
    unfold Manager.publish
    split
    · exact h.of_eq rfl rfl
    · exact h
  | _ => exact h.of_eq rfl rfl

theorem Configured.moves (h : Configured db) (hmoves : Moves now db db') : Configured db' := by
  induction hmoves with
  | refl => exact h
  | tail _ hlast ih => exact ih.move hlast

theorem Row.Outdates.takeClaim {receipt : Receipt} (h : row.Outdates receipt) (now : Time)
    (agentInstanceId principal freshClaim : String) :
    (row.takeClaim now agentInstanceId principal freshClaim).Outdates receipt := by
  unfold Row.takeClaim Row.Outdates
  dsimp only
  split
  next hheld => exact ⟨h.1, fun _ => h.2 hheld⟩
  next => exact ⟨Nat.le_succ_of_le h.1, fun _ => Nat.lt_succ_of_le h.1⟩

theorem Row.Outdates.of_epoch {receipt : Receipt} (h : row.Outdates receipt)
    (hepoch : row'.leaseEpoch = row.leaseEpoch)
    (hstate : row'.state = .claimed → row.state = .claimed) : row'.Outdates receipt := by
  unfold Row.Outdates
  rw [hepoch]
  exact ⟨h.1, fun hclaimed => h.2 (hstate hclaimed)⟩

theorem Row.heldBy_epoch {request : RenewNodeCleanupLeaseRequest}
    (h : row.heldBy clock request principal = true) : request.leaseEpoch = row.leaseEpoch := by
  simp only [Row.heldBy, Bool.and_eq_true, decide_eq_true_eq] at h
  exact h.1.2.symm

theorem Consistent.of_row (h : Consistent w)
    (hprior : ∀ receipt ∈ w.receipts, ∀ old ∈ w.cleanup, old.Outdates receipt →
      row.Outdates receipt)
    (hstocked : row.Stocked) (hconfigured : row.state = .claimed → Configured w.db) :
    Consistent { w with cleanup := some row } := by
  refine ⟨?_, ?_, ?_⟩
  · rintro r hr
    obtain rfl := Option.some.inj hr
    exact hstocked
  · intro receipt hreceipt
    obtain ⟨old, hold, houtdates⟩ := h.receipts receipt hreceipt
    exact ⟨row, rfl, hprior receipt hreceipt old hold houtdates⟩
  · rintro r hr
    obtain rfl := Option.some.inj hr
    exact hconfigured

theorem Consistent.of_report (h : Consistent w) {old : Row} (hold : w.cleanup = some old)
      {request : ReportNodeCleanupResultRequest}
    (hheld : old.heldBy clock request.claimRequest principal = true)
    (hstate : row.state ≠ .claimed) (hstocked : row.Stocked)
    (hepoch : row.leaseEpoch = old.leaseEpoch) (deletions : List Deletion) :
    Consistent ⟨w.db, some row, deletions, w.receipts ++ [⟨principal, request⟩]⟩ := by
  refine ⟨?_, ?_, ?_⟩
  · rintro r hr
    obtain rfl := Option.some.inj hr
    exact hstocked
  · intro receipt hreceipt
    refine ⟨row, rfl, ?_, fun hclaimed => absurd hclaimed hstate⟩
    rw [hepoch]
    rcases Table.mem_snoc.mp hreceipt with hreceipt | rfl
    · obtain ⟨r, hr, houtdates⟩ := h.receipts receipt hreceipt
      obtain rfl := Option.mem_unique hold hr
      exact houtdates.1
    · exact (Row.heldBy_epoch hheld).le
  · rintro r hr hclaimed
    obtain rfl := Option.some.inj hr
    exact absurd hclaimed hstate

theorem Consistent.fence (h : Consistent w) {passes : Nat} (hdb : Configured w.db → Configured db) :
    Consistent { w.fence now passes with db } := by
  refine ⟨?_, ?_, ?_⟩
  · intro row hrow
    obtain ⟨old, hold, rfl | ⟨generation, -, rfl⟩⟩ := World.fence_cleanup hrow
    · exact h.stocked _ hold
    · exact (h.stocked old hold).of_inventory rfl (.inl rfl)
  · intro receipt hreceipt
    obtain ⟨old, hold, houtdates⟩ := h.receipts receipt hreceipt
    have hrow : (w.fence now passes).cleanup = some ((Row.fence · now)^[passes] old) := by
      rw [World.fence, hold]
      rfl
    refine ⟨_, hrow, ?_⟩
    rcases fence_iterate old now passes with hsame | ⟨generation, -, hfenced⟩
    · rw [hsame]
      exact houtdates
    · rw [hfenced]
      exact houtdates.of_epoch rfl (by simp [Row.fence, Row.supersede])
  · intro row hrow hclaimed
    obtain ⟨old, hold, rfl | ⟨generation, -, rfl⟩⟩ := World.fence_cleanup hrow
    · exact hdb (h.configured _ hold hclaimed)
    · cases hclaimed

theorem Outcome.consistent {event : Event} (h : Outcome contract w event w') (hkeys : Keys w.db)
    (hw : Consistent w) : Consistent w' := by
  have hmoves := h.moves hkeys
  cases h with
  | same => exact hw
  | manager =>
    obtain ⟨now, hmoves⟩ := hmoves
    exact hw.fence fun hconfigured => hconfigured.moves hmoves
  | fenced => exact hw.fence id
  | @reconciled _ _ _ _ row row' hrow hreconciled =>
    have hlease := hreconciled.lease
    rcases hrow with hrow | ⟨hnone, rfl⟩
    · refine hw.of_row ?_ (hreconciled.stocked (hw.stocked row hrow)) ?_
      · intro receipt _ old hold houtdates
        obtain rfl := Option.mem_unique hrow hold
        exact houtdates.of_epoch hlease.1 hlease.2
      · exact fun hclaimed => hw.configured row hrow (hlease.2 hclaimed)
    · refine hw.of_row ?_ (hreconciled.stocked fresh_stocked) ?_
      · intro receipt _ old hold
        cases hnone.symm.trans hold
      · exact fun hclaimed => nomatch hlease.2 hclaimed
  | @claimed _ _ _ _ _ row policy hrow hclaimable hpolicy =>
    refine hw.of_row ?_ ((hw.stocked row hrow).of_claim rfl (Row.claimable_state hclaimable) rfl) ?_
    · intro receipt _ old hold houtdates
      obtain rfl := Option.mem_unique hrow hold
      exact houtdates.takeClaim _ _ _ _
    · obtain ⟨agent, hagent, hpresent, -⟩ := managerCleanupPolicy_eq_ok.mp hpolicy
      exact fun _ => ⟨by rw [hagent]; rfl, hpresent⟩
  | @renewed _ _ _ row f hrow hheld =>
    have hstate := Row.heldBy_state hheld
    refine hw.of_row ?_ ((hw.stocked row hrow).of_claim rfl (.inr hstate) rfl) ?_
    · intro receipt _ old hold houtdates
      obtain rfl := Option.mem_unique hrow hold
      exact houtdates.of_epoch rfl id
    · exact fun _ => hw.configured row hrow hstate
  | @cleaned _ request _ row authority hrow hheld hauthority hcheck =>
    have hstocked : (row.cleaned request.resultingInventory).Stocked := by
      refine ⟨?_, fun _ _ hsome => nomatch hsome⟩
      intro releases hreleases
      obtain rfl := Option.some.inj hreleases
      exact (checkResult_eq_ok.mp hcheck).2.2.2.1
    have hstate : (row.cleaned request.resultingInventory).state ≠ .claimed := nofun
    exact hw.of_report hrow hheld hstate hstocked rfl _
  | @pausedReport _ request _ row hrow hheld =>
    have hstate : (row.pause request.conditionCode request.detail).state ≠ .claimed := nofun
    have hstocked : (row.pause request.conditionCode request.detail).Stocked :=
      (hw.stocked row hrow).of_inventory rfl (.inr ⟨nofun, hstate⟩)
    exact hw.of_report hrow hheld hstate hstocked rfl _

theorem reach_consistent {nodeId : String} {ok : World → Event → Prop}
    (hreach : Reach (World.next contract) ok (World.initial nodeId) w) : Consistent w := by
  refine hreach.invariant (P := Consistent) ?_ ?_
  · refine ⟨?_, ?_, ?_⟩ <;> intro _ hnone <;> cases hnone
  · intro w event hprev _ hw
    exact (next_outcome contract w event).consistent (reach_sound hprev).1 hw

/-- With its cleanup, a node runs as without, and its cleanup tables agree with each other. -/
theorem cleanup_refines_manager (contract : Contract) (nodeId : String) (events : List Event) :
    let w := runAll (World.next contract) (World.initial nodeId) events
    Consistent w ∧ ∃ m, Manager.Reachable contract.deployment nodeId m ∧ m.db = w.db := by
  have hreach : Reach (World.next contract) (fun _ _ => True) (World.initial nodeId) _ :=
    reach_runAll_any _ events
  exact ⟨reach_consistent hreach, reach_manager hreach⟩

end Invariant

/-- The result of an agent that did what it was told: the instructed deletions and the releases
left. The first inventory is any set of finalized releases that are not deleted. -/
structure Truthful (w : World) (instruction : NodeCleanupInstruction)
    (request : ReportNodeCleanupResultRequest) : Prop where
  claim : request.claimRequest = ⟨instruction.agentInstanceId, instruction.generation,
    instruction.leaseEpoch, instruction.claimInstance⟩
  digest : request.payloadDigest = instruction.payloadDigest
  condition : request.conditionCode = ""
  deleted : request.deletedReleases.Perm instruction.deleteReleases
  discovered : instruction.expectedInventory = [] →
    (request.resultingInventory.map (·.revision)).Nodup ∧
      ∀ r ∈ request.resultingInventory, ∃ d ∈ w.db.deployments,
        d.finalized = true ∧ d.revision ∉ w.deleted ∧ release d = r
  remaining : instruction.expectedInventory ≠ [] →
    request.resultingInventory.Perm (instruction.expectedInventory.filter fun r =>
      r.revision ∉ instruction.deleteReleases.map (·.revision))

instance (w : World) (instruction : NodeCleanupInstruction)
    (request : ReportNodeCleanupResultRequest) : Decidable (Truthful w instruction request) :=
  decidable_of_iff (request.claimRequest = ⟨instruction.agentInstanceId, instruction.generation,
        instruction.leaseEpoch, instruction.claimInstance⟩ ∧
      request.payloadDigest = instruction.payloadDigest ∧ request.conditionCode = "" ∧
      request.deletedReleases.Perm instruction.deleteReleases ∧
      (instruction.expectedInventory = [] →
        (request.resultingInventory.map (·.revision)).Nodup ∧
          ∀ r ∈ request.resultingInventory, ∃ d ∈ w.db.deployments,
            d.finalized = true ∧ d.revision ∉ w.deleted ∧ release d = r) ∧
      (instruction.expectedInventory ≠ [] →
        request.resultingInventory.Perm (instruction.expectedInventory.filter fun r =>
          r.revision ∉ instruction.deleteReleases.map (·.revision))))
    ⟨fun ⟨h₁, h₂, h₃, h₄, h₅, h₆⟩ => ⟨h₁, h₂, h₃, h₄, h₅, h₆⟩,
      fun ⟨h₁, h₂, h₃, h₄, h₅, h₆⟩ => ⟨h₁, h₂, h₃, h₄, h₅, h₆⟩⟩

section Truthful

variable {contract : Contract} {w : World} {row : Row} {authority : Authority}
  {request : ReportNodeCleanupResultRequest}

theorem sameReleases_of_perm (h : xs.Perm ys) : sameReleases xs ys :=
  fun _ => h.mem_iff

theorem report_of_held (contract : Contract) (hgeneration : request.generation ≤ i64Max)
    (hepoch : request.leaseEpoch ≤ i64Max) (hreceipt : w.receipt? request = none)
    (hrow : w.cleanup = some row) (hheld : row.heldBy clock request.claimRequest principal = true)
    (hdigest : row.payloadDigest = request.payloadDigest)
    (hauthority : row.authority = some authority) (hcondition : request.conditionCode = "") :
    reportNodeCleanupResult contract w clock request principal =
      (checkResult contract w authority request >>= fun _ => .ok ({ w with
        cleanup := some (row.cleaned request.resultingInventory)
        deletions := recordDeletions w.deletions request.deletedReleases request.generation
        receipts := w.receipts ++ [⟨principal, request⟩] }, .accepted)) := by
  rw [reportNodeCleanupResult, ensure_bind_of_true hgeneration, ensure_bind_of_true hepoch]
  simp only [hreceipt, hrow, required]
  change (if row.heldBy clock request.claimRequest principal = true then _ else _) = _
  rw [if_pos hheld, ensure_bind_of_true hdigest, hauthority]
  change (if request.conditionCode = "" then _ else _) = _
  rw [if_pos hcondition]
  rfl

theorem report_of_receipt (hgeneration : request.generation ≤ i64Max)
    (hepoch : request.leaseEpoch ≤ i64Max)
    (hreceipt : w.receipt? request = some ⟨principal, request⟩) (hrow : w.cleanup.isSome = true) :
    reportNodeCleanupResult contract w clock request principal = .ok (w, .accepted) := by
  rw [reportNodeCleanupResult, ensure_bind_of_true hgeneration, ensure_bind_of_true hepoch]
  simp only [hreceipt]
  rw [ensure_bind_of_true trivial, ensure_bind_of_true hrow]
  rfl

theorem canonical_catalogue (hkeys : Keys db) {deleted : List Revision}
    (hpositive : ∀ d ∈ db.deployments, d.revision ≠ 0) : Canonical (catalogue db deleted) ↔
      ∀ d ∈ db.deployments, d.revision ∉ deleted → d.bundleDigest ≠ "" ∧ d.finalized = true := by
  have hnodup : ((catalogue db deleted).map (·.revision)).Nodup := by
    have hperm : ((catalogue db deleted).map (·.revision)).Perm
        ((db.deployments.filter fun d => d.revision ∉ deleted).map (·.revision)) := by
      rw [catalogue, List.map_map]
      exact (List.perm_insertionSort _ _).map _
    exact hperm.nodup_iff.mpr (hkeys.revisions.sublist (List.filter_sublist.map _))
  constructor
  · intro h d hd hdeleted
    obtain ⟨-, hbundle, hresolved⟩ := h.1 (release d) (mem_catalogue.mpr ⟨d, hd, hdeleted, rfl⟩)
    exact ⟨hbundle, decide_eq_true hresolved⟩
  · intro h
    refine ⟨?_, hnodup⟩
    intro r hr
    obtain ⟨d, hd, hdeleted, rfl⟩ := mem_catalogue.mp hr
    obtain ⟨hbundle, hfinalized⟩ := h d hd hdeleted
    exact ⟨hpositive d hd, hbundle, of_decide_eq_true hfinalized⟩

theorem Configured.policy (h : Configured db) (contract : Contract) (deleted : List Revision) :
    ∃ policy, managerCleanupPolicy contract db deleted = .ok policy ∧
      policy.known = catalogue db deleted := by
  obtain ⟨agent, hagent⟩ := Option.isSome_iff_exists.mp h.1
  exact ⟨_, managerCleanupPolicy_eq_ok.mpr ⟨agent, hagent, h.2, rfl⟩, rfl⟩

theorem Truthful.checkResult_iff {instruction : NodeCleanupInstruction}
    (h : Truthful w instruction request) (contract : Contract)
    (hdelete : instruction.deleteReleases = authority.deleteReleases)
    (hexpected : instruction.expectedInventory = authority.knownInventory)
    (hcanonical : Canonical authority.knownInventory)
    (hsublist : authority.deleteReleases.Sublist authority.knownInventory) (hkeys : Keys w.db)
    (hpositive : ∀ d ∈ w.db.deployments, d.revision ≠ 0) (hconfigured : Configured w.db) :
    checkResult contract w authority request = .ok () ↔ instruction.expectedInventory ≠ [] ∨
        ∀ d ∈ w.db.deployments, d.revision ∉ w.deleted →
          d.bundleDigest ≠ "" ∧ d.finalized = true := by
  have hissued : Canonical authority.deleteReleases := hcanonical.sublist hsublist
  have hdeleted : request.deletedReleases.Perm authority.deleteReleases := hdelete ▸ h.deleted
  rw [checkResult_eq_ok, hexpected]
  by_cases hempty : authority.knownInventory = []
  · obtain ⟨policy, hpolicy, hcatalogue⟩ := hconfigured.policy contract w.deleted
    rw [if_pos hempty, ← canonical_catalogue hkeys hpositive, ← hcatalogue]
    constructor
    · rintro ⟨-, -, -, -, _, hsome, hknown, -⟩
      rw [hpolicy] at hsome
      rw [Except.ok.inj hsome]
      exact .inr hknown
    · rintro (hne | hknown)
      · exact absurd hempty hne
      obtain ⟨hnodup, hentries⟩ := h.discovered (hexpected.trans hempty)
      have hsubset : ∀ r ∈ request.resultingInventory, r ∈ policy.known := by
        intro r hr
        obtain ⟨d, hd, -, hkept, hrelease⟩ := hentries r hr
        rw [hcatalogue]
        exact mem_catalogue.mpr ⟨d, hd, hkept, hrelease⟩
      exact ⟨hissued.perm hdeleted, hissued, sameReleases_of_perm hdeleted,
        ⟨fun r hr => hknown.1 r (hsubset r hr), hnodup⟩, policy, hpolicy, hknown, hsubset⟩
  · have hremaining := h.remaining (hexpected ▸ hempty)
    rw [hexpected, hdelete] at hremaining
    rw [if_neg hempty]
    refine iff_of_true ?_ (.inl hempty)
    exact ⟨hissued.perm hdeleted, hissued, sameReleases_of_perm hdeleted,
      (hcanonical.sublist List.filter_sublist).perm hremaining, hcanonical,
      sameReleases_of_perm hremaining⟩

theorem Consistent.receipt?_eq_none (h : Consistent w) (hrow : w.cleanup = some row)
    (hclaimed : row.state = .claimed) (hepoch : request.leaseEpoch = row.leaseEpoch) :
    w.receipt? request = none := by
  refine List.find?_eq_none.mpr ?_
  intro receipt hreceipt hsame
  obtain ⟨old, hold, -, houtdated⟩ := h.receipts receipt hreceipt
  obtain rfl := Option.mem_unique hrow hold
  have hlt := houtdated hclaimed
  have hclaim := congrArg RenewNodeCleanupLeaseRequest.leaseEpoch (of_decide_eq_true hsame)
  have heq : receipt.result.leaseEpoch = request.leaseEpoch := hclaim
  omega

theorem receipt?_append (hnone : w.receipt? request = none) (principal : String)
    (cleanup : Option Row) (deletions : List Deletion) :
    World.receipt? ⟨w.db, cleanup, deletions, w.receipts ++ [⟨principal, request⟩]⟩ request =
      some ⟨principal, request⟩ := by
  unfold World.receipt? at hnone ⊢
  rw [List.find?_append, hnone]
  simp

/-- Receipts are only appended, so the one that is found for a result stays the one. -/
theorem Outcome.receipt?_kept {event : Event} {w' : World} {receipt : Receipt}
    (h : Outcome contract w event w')
    (hkept : w.cleanup.isSome = true ∧ w.receipt? request = some receipt) :
    w'.cleanup.isSome = true ∧ w'.receipt? request = some receipt := by
  cases h with
  | same => exact hkept
  | manager | fenced => exact ⟨(Option.isSome_map ..).trans hkept.1, hkept.2⟩
  | reconciled | claimed | renewed => exact ⟨rfl, hkept.2⟩
  | cleaned | pausedReport =>
    refine ⟨rfl, ?_⟩
    have hfound := hkept.2
    unfold World.receipt? at hfound ⊢
    rw [List.find?_append, hfound, Option.some_or]

/-- In every reachable state with a live claim, a truthful result is accepted, leaves the node clean
and can be repeated in every later state, exactly if an inventory was issued or every deployment
left is finalized. -/
theorem truthful_report_is_accepted_iff {nodeId : String} {ok : World → Event → Prop}
    (hreach : Reach (World.next contract) ok (World.initial nodeId) w)
    (hrow : w.cleanup = some row) (hclaimed : row.state = .claimed)
    (hgeneration : row.generation ≤ i64Max) (hepoch : row.leaseEpoch ≤ i64Max)
    {claim : Claim} (hclaim : row.claim = some claim) {clock : Time}
    (hlive : clock < claim.leaseExpiresAt) {instruction : NodeCleanupInstruction}
    (hinstruction : row.instruction = some instruction)
    (htruthful : Truthful w instruction request) :
    (∃ w' row', reportNodeCleanupResult contract w clock request claim.claimedBy =
        .ok (w', .accepted) ∧ w'.cleanup = some row' ∧ row'.state = .clean ∧
        ∀ ok' later, Reach (World.next contract) ok' w' later → ∀ clock',
          reportNodeCleanupResult contract later clock' request claim.claimedBy =
            .ok (later, .accepted)) ↔ instruction.expectedInventory ≠ [] ∨
        ∀ d ∈ w.db.deployments, d.revision ∉ w.deleted →
          d.bundleDigest ≠ "" ∧ d.finalized = true := by
  obtain ⟨hkeys, hsound⟩ := reach_sound hreach
  have hconsistent := reach_consistent hreach
  obtain ⟨authority, hauthority⟩ : ∃ authority, row.authority = some authority := by
    cases hnone : row.authority with
    | none => simp [Row.instruction, hnone] at hinstruction
    | some authority => exact ⟨authority, rfl⟩
  simp only [Row.instruction, hauthority, hclaim, Option.some.injEq] at hinstruction
  obtain rfl := hinstruction
  obtain ⟨hcanonical, hsublist⟩ :=
    (hconsistent.stocked row hrow).authority (.inr hclaimed) authority hauthority
  rw [← htruthful.checkResult_iff contract rfl rfl hcanonical hsublist hkeys
    hsound.staging.positive (hconsistent.configured row hrow hclaimed)]
  -- The result names the claim that is held.
  obtain ⟨hagent, hgen, hlease, hinstance⟩ :
      request.agentInstanceId = claim.agentInstanceId ∧ request.generation = row.generation ∧
        request.leaseEpoch = row.leaseEpoch ∧ request.claimInstance = claim.claimInstance := by
    have hnamed := htruthful.claim
    simp only [ReportNodeCleanupResultRequest.claimRequest,
      RenewNodeCleanupLeaseRequest.mk.injEq] at hnamed
    exact hnamed
  have hheld : row.heldBy clock request.claimRequest claim.claimedBy = true := by
    simp [Row.heldBy, ReportNodeCleanupResultRequest.claimRequest, hclaim, hclaimed, hagent, hgen,
      hlease, hinstance, hlive]
  have hnone := hconsistent.receipt?_eq_none hrow hclaimed hlease
  have hreport := report_of_held contract (hgen ▸ hgeneration) (hlease ▸ hepoch)
    hnone hrow hheld htruthful.digest.symm hauthority htruthful.condition
  rw [hreport]
  constructor
  · rintro ⟨w', row', haccepted, -⟩
    obtain ⟨⟨⟩, hcheck, -⟩ := bind_eq_ok.mp haccepted
    exact hcheck
  · intro hcheck
    refine ⟨_, _, bind_of_ok hcheck, rfl, rfl, fun ok' later hlater clock' => ?_⟩
    obtain ⟨hrow', hreceipt⟩ := hlater.invariant
      (P := fun w' => w'.cleanup.isSome = true ∧
        w'.receipt? request = some ⟨claim.claimedBy, request⟩)
      ⟨rfl, receipt?_append hnone _ _ _⟩
      fun w' event _ _ hkept => (next_outcome contract w' event).receipt?_kept hkept
    exact report_of_receipt (hgen ▸ hgeneration) (hlease ▸ hepoch) hreceipt hrow'

end Truthful

section TruthfulSamples

open Sample

/-- Revision 1 is allocated and never finalized, and the first inventory is asked
for. -/
def Sample.unfinalized : List (World → Event) :=
  [retain 1 1, attest 2, begin_ 3 1, pass 5, claim 6]

theorem truthful_first_report_is_refused :
    ∃ w, Reach (World.next contract) (fun _ event => event.Fits) (World.initial "node-a") w ∧
      ∃ row ∈ w.cleanup, row.state = .claimed ∧
      ∃ claim ∈ row.claim, seconds 7 < claim.leaseExpiresAt ∧ claim.claimedBy = "agent-a" ∧
      ∃ instruction ∈ row.instruction, Truthful w instruction (result w [] []) ∧
      (step contract w (report 7 [] [] w)).2 = .failed invalidIdentity := by
  refine ⟨run unfinalized, reach_runScript _ ?_, ?_⟩ <;> decide +kernel

def Sample.instructed : List (World → Event) := offered ++ [claim 10]

def Sample.instructedResult : ReportNodeCleanupResultRequest :=
  result (run instructed) [entry 1] []

theorem truthful_report_is_accepted_instructed :
    ∃ w' row', reportNodeCleanupResult contract (run instructed) (seconds 11) instructedResult
        "agent-a" = .ok (w', .accepted) ∧ w'.cleanup = some row' ∧ row'.state = .clean ∧
      ∀ ok' later, Reach (World.next contract) ok' w' later → ∀ clock',
        reportNodeCleanupResult contract later clock' instructedResult "agent-a" =
          .ok (later, .accepted) := by
  have hreach : Reach (World.next contract) (fun _ event => event.Fits) (World.initial "node-a")
      (run instructed) :=
    reach_runScript _ (by decide +kernel)
  have hfacts : ∃ row ∈ (run instructed).cleanup, row.state = .claimed ∧
      row.generation ≤ i64Max ∧ row.leaseEpoch ≤ i64Max ∧
      ∃ held ∈ row.claim, seconds 11 < held.leaseExpiresAt ∧ held.claimedBy = "agent-a" ∧
      ∃ instruction ∈ row.instruction, instruction.expectedInventory ≠ [] ∧
        Truthful (run instructed) instruction instructedResult := by
    decide +kernel
  obtain ⟨row, hrow, hclaimed, hgeneration, hepoch, held, hclaim, hlive, hagent, instruction,
    hinstruction, hexpected, htruthful⟩ := hfacts
  have haccepted := (truthful_report_is_accepted_iff hreach hrow hclaimed hgeneration hepoch
    hclaim hlive hinstruction htruthful).mpr (.inl hexpected)
  rw [hagent] at haccepted
  exact haccepted

end TruthfulSamples

end Wruntime.Cleanup
