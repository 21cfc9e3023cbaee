import Wruntime.Routing.System

/-!
Slot generations. The owner of a slot changes only with a greater generation, so a generation names
one owner for good, and the fence of a superseded owner matches no row of any later state.
-/

namespace Wruntime.Routing

open Fallible Table Runs
open Manager (Time Revision Status ModuleIdentity)

def Call.fence? : Call → Option Fence
  | .deregisterEngine _ fence => some fence
  | .publishEngineReadiness _ _ fence => some fence
  | .beginEngineDrain _ fence => some fence
  | _ => none

/-- A later row of the slot: the generation has not fallen, and the same generation has the same
owner. -/
structure SlotOwner.Follows (later row : SlotOwner) : Prop where
  key_eq : later.key = row.key
  generation_le : row.slotGeneration ≤ later.slotGeneration
  owner_eq : later.slotGeneration = row.slotGeneration → later.owner = row.owner

theorem SlotOwner.Follows.refl (row : SlotOwner) : row.Follows row :=
  ⟨rfl, le_rfl, fun _ => rfl⟩

theorem SlotOwner.Follows.trans {a b c : SlotOwner} (hba : b.Follows a)
    (hcb : c.Follows b) : c.Follows a := by
  refine ⟨hcb.key_eq.trans hba.key_eq, hba.generation_le.trans hcb.generation_le, ?_⟩
  intro hsame
  have hle := hba.generation_le
  have hle' := hcb.generation_le
  rw [hcb.owner_eq (by omega), hba.owner_eq (by omega)]

/-- Every slot of one state has a later row in the other. -/
def Cluster.Follows (later c : Cluster) : Prop :=
  ∀ row ∈ c.owners, ∃ row' ∈ later.owners, row'.Follows row

theorem Cluster.Follows.refl (c : Cluster) : c.Follows c :=
  fun row hrow => ⟨row, hrow, .refl row⟩

theorem Cluster.Follows.trans {a b c : Cluster} (hba : b.Follows a) (hcb : c.Follows b) :
    c.Follows a := by
  intro row hrow
  obtain ⟨row', hrow', hfollows⟩ := hba row hrow
  obtain ⟨row'', hrow'', hfollows'⟩ := hcb row' hrow'
  exact ⟨row'', hrow'', hfollows.trans hfollows'⟩

section Steps

variable {contract : Contract} {c c' : Cluster}

theorem follows_of_subset (hsubset : ∀ row ∈ c.owners, row ∈ c'.owners) : c'.Follows c :=
  fun row hrow => ⟨row, hsubset row hrow, .refl row⟩

theorem follows_updateWhere {p : SlotOwner → Bool} {f : SlotOwner → SlotOwner}
    (howners : c'.owners = updateWhere p f c.owners)
    (hf : ∀ row ∈ c.owners, p row = true → (f row).Follows row) : c'.Follows c := by
  unfold Cluster.Follows
  rw [howners]
  exact exists_updated .refl hf

/-- The generation of a registration: the recorded one for a replay, and a greater
one for a new owner. -/
theorem assignedSlotGeneration_eq_ok {current generation : Nat} {replay : Bool}
    (h : assignedSlotGeneration current replay = .ok generation) :
    replay = true ∧ generation = current ∨ replay = false ∧ generation = current + 1 := by
  unfold assignedSlotGeneration at h
  split at h
  next hreplay =>
    cases h
    exact .inl ⟨hreplay, rfl⟩
  next hreplay =>
    split at h
    · cases h
      exact .inr ⟨by simpa using hreplay, rfl⟩
    · cases h

theorem ownerKeys_next (c : Cluster) (input : Input) (h : (c.owners.map SlotOwner.key).Nodup) :
    ((next contract c input).owners.map SlotOwner.key).Nodup := by
  obtain ⟨now, call⟩ := input
  refine next_elim h fun c' hcommits => ?_
  cases hcommits with
  | registerEngine hreg =>
    rw [hreg.owners]
    exact nodup_updateWhere h fun _ => rfl
  | deregisterEngine _ _ _ _ howners _ =>
    rw [howners]
    exact nodup_updateWhere h fun _ => rfl
  | publishReady _ _ _ _ _ _ _ howners _ | publishSuperseded _ _ _ _ howners _
  | beginEngineDrain _ _ _ _ howners _ | updateRouteHealth _ _ _ _ howners _
  | switchAuthority _ _ _ _ howners => exact howners ▸ h
  | planNode _ _ _ hnodup => exact hnodup h
  | upsertRoutingRule | deleteRoutingRule | commitOperation | storeSecrets => exact h

theorem reachable_ownerKeys (h : Reachable contract c) : (c.owners.map SlotOwner.key).Nodup :=
  h.invariant (P := fun c => (c.owners.map SlotOwner.key).Nodup) (by simp [Cluster.empty])
    fun c input _ _ => ownerKeys_next c input

theorem next_follows (input : Input) (hkeys : (c.owners.map SlotOwner.key).Nodup) :
    (next contract c input).Follows c := by
  obtain ⟨now, call⟩ := input
  refine next_elim (.refl c) fun c' hcommits => ?_
  have hkeep : ∀ {d : Cluster}, d.owners = c.owners → d.Follows c :=
    fun h => follows_of_subset fun _ hrow => h ▸ hrow
  cases hcommits with
  | @registerEngine _ _ _ _ _ _ _ _ owner _ hreg =>
    refine follows_updateWhere hreg.owners fun row hrow hslot => ?_
    -- The row that the generation was computed from is the one that is written.
    obtain ⟨hmem, hfound⟩ := found hreg.owner_eq
    have hkey : row.key = owner.key := by
      simp only [SlotOwner.key, hfound, of_decide_eq_true hslot]
    obtain rfl := eq_of_nodup_key hkeys hrow hmem hkey
    rcases assignedSlotGeneration_eq_ok hreg.generation_eq with
      ⟨hreplay, rfl⟩ | ⟨_, rfl⟩
    · exact ⟨rfl, le_rfl, fun _ => (of_decide_eq_true hreplay).symm⟩
    · refine ⟨rfl, Nat.le_succ _, fun hsame => ?_⟩
      exact absurd hsame (Nat.succ_ne_self _)
  | deregisterEngine _ _ _ _ howners _ =>
    exact follows_updateWhere howners fun row _ _ => ⟨rfl, le_rfl, fun _ => rfl⟩
  | publishReady _ _ _ _ _ _ _ howners _ | publishSuperseded _ _ _ _ howners _
  | beginEngineDrain _ _ _ _ howners _ | updateRouteHealth _ _ _ _ howners _
  | switchAuthority _ _ _ _ howners => exact hkeep howners
  | planNode => exact follows_of_subset fun _ hrow => List.mem_append_left _ hrow
  | upsertRoutingRule | deleteRoutingRule | commitOperation | storeSecrets => exact hkeep rfl

theorem registered_fence {input : Input} {fence : Fence}
    (hreply : (step contract c input).2 = .registered fence) :
    ∃ row ∈ (next contract c input).owners, row.key = (fence.nodeId, fence.slot) ∧
      row.slotGeneration = fence.slotGeneration ∧
      ∃ o, row.owner = some o ∧ o.revisionDigest = fence.revisionDigest ∧
        o.activationId = fence.activationId := by
  obtain ⟨now, call⟩ := input
  unfold step at hreply
  cases call with
  | registerEngine reg activationId =>
    cases hresult : registerEngineAndRoutes contract c now reg activationId with
    | error => simp [hresult, settle] at hreply
    | ok value =>
      obtain ⟨c', fence'⟩ := value
      obtain rfl : fence' = fence := by simpa [hresult, settle] using hreply
      obtain ⟨metadata, node, deployment, op, owner, generation, hreg⟩ :=
        registerEngineAndRoutes_eq_ok hresult
      obtain ⟨howner, hkey⟩ := found hreg.owner_eq
      have hnext : next contract c ⟨now, .registerEngine reg activationId⟩ = c' := by
        simp only [next, step, hresult, settle]
      refine ⟨owner.assign (ownershipOf metadata deployment op activationId) reg.engineId
        generation, ?_, ?_, ?_, ?_⟩
      · rw [hnext, hreg.owners]
        refine mem_updateWhere.2 ⟨owner, howner, ?_⟩
        rw [if_pos (decide_eq_true hkey)]
      · rw [hreg.fence_eq]
        simp only [SlotOwner.key, SlotOwner.assign, hkey]
      · rw [hreg.fence_eq]
        rfl
      · rw [hreg.fence_eq]
        exact ⟨_, rfl, rfl, rfl⟩
  | deregisterEngine engineId fence =>
    cases hresult : deregisterEngine c engineId fence <;> simp [hresult, settle] at hreply
  | publishEngineReadiness engineId modules fence =>
    cases hresult : publishEngineReadiness c now engineId modules fence <;>
      simp [hresult, settle] at hreply
  | beginEngineDrain engineId fence =>
    cases hresult : beginEngineDrain c engineId fence <;> simp [hresult, settle] at hreply
  | updateRouteHealth engineTimeout moduleTimeout =>
    cases hresult : updateRouteHealth c now engineTimeout moduleTimeout <;>
      simp [hresult, settle] at hreply
  | upsertRoutingRule rule =>
    cases hresult : upsertRoutingRule c rule <;> simp [hresult, settle] at hreply
  | deleteRoutingRule ruleId expectedNamespace =>
    cases hresult : deleteRoutingRule c ruleId expectedNamespace <;>
      simp [hresult, settle] at hreply
  | switchAuthority nodeId slot revision =>
    cases hresult : switchAuthority c nodeId slot revision <;>
      simp [hresult, settle] at hreply
  | commitOperation | planNode | storeSecrets => cases hreply

theorem next_of_stale_fence (hkeys : (c.owners.map SlotOwner.key).Nodup) {input : Input}
    {fence : Fence} (hfence : input.call.fence? = some fence) {row : SlotOwner}
    (hrow : row ∈ c.owners) (hkey : row.key = (fence.nodeId, fence.slot))
    (hstale : row.slotGeneration ≠ fence.slotGeneration) : next contract c input = c := by
  obtain ⟨now, call⟩ := input
  refine next_elim rfl fun c' hcommits => ?_
  have hnone : ∀ engineId, ¬∃ row ∈ c.owners, fence.matchesOwner engineId row = true := by
    rintro engineId ⟨other, hother, hmatches⟩
    obtain ⟨hnode, hslot, _, _, hgeneration, _⟩ := matchesOwner_eq_true hmatches
    have hsame : other.key = row.key := by
      simp only [SlotOwner.key, hnode, hslot]
      exact hkey.symm
    obtain rfl := eq_of_nodup_key hkeys hother hrow hsame
    exact hstale hgeneration
  cases hcommits with
  | deregisterEngine hmatches | publishReady hmatches | publishSuperseded hmatches
  | beginEngineDrain hmatches =>
    cases hfence
    exact absurd hmatches (hnone _)
  | _ => cases hfence

end Steps

theorem follows_of_run {contract : Contract} {s t : Cluster} (hs : Reachable contract s)
    (hst : Reach (next contract) (fun _ _ => True) s t) : t.Follows s :=
  hst.related (R := fun a b => b.Follows a) .refl (fun hab hbc => hab.trans hbc)
    fun _ input hrun _ => next_follows input (reachable_ownerKeys (hs.trans hrun))

/-- Let `t` come after `s` in any run. A slot's generation has not fallen, has risen if the owner
changed, and names one owner. A call at `t` with an earlier generation changes nothing, also if its
owner has come back since. -/
theorem slot_generation_fencing {contract : Contract} {s t : Cluster}
    (hs : Reachable contract s) (hst : Reach (next contract) (fun _ _ => True) s t) :
    (∀ row ∈ s.owners, ∃ row' ∈ t.owners, row'.key = row.key) ∧
    (∀ row ∈ s.owners, ∀ row' ∈ t.owners, row'.key = row.key →
      row.slotGeneration ≤ row'.slotGeneration ∧
      (row'.owner ≠ row.owner → row.slotGeneration < row'.slotGeneration) ∧
      (row'.slotGeneration = row.slotGeneration → row'.owner = row.owner) ∧
      ∀ input fence, input.call.fence? = some fence →
        (fence.nodeId, fence.slot) = row.key → fence.slotGeneration < row'.slotGeneration →
        next contract t input = t) ∧
    ∀ input fence, (step contract t input).2 = .registered fence →
      ∃ row ∈ (next contract t input).owners, row.key = (fence.nodeId, fence.slot) ∧
        row.slotGeneration = fence.slotGeneration ∧
        ∃ o, row.owner = some o ∧ o.revisionDigest = fence.revisionDigest ∧
          o.activationId = fence.activationId := by
  have hkeys := reachable_ownerKeys (hs.trans hst)
  have hfollows := follows_of_run hs hst
  refine ⟨?_, ?_, fun input fence => registered_fence⟩
  · intro row hrow
    obtain ⟨row', hrow', hlater⟩ := hfollows row hrow
    exact ⟨row', hrow', hlater.key_eq⟩
  intro row hrow row' hrow' hkey
  obtain ⟨later, hlater, hrel⟩ := hfollows row hrow
  obtain rfl := eq_of_nodup_key hkeys hlater hrow' (hrel.key_eq.trans hkey.symm)
  have hrises : later.owner ≠ row.owner → row.slotGeneration < later.slotGeneration := by
    intro hne
    refine lt_of_le_of_ne hrel.generation_le fun hsame => hne (hrel.owner_eq hsame.symm)
  refine ⟨hrel.generation_le, hrises, hrel.owner_eq, ?_⟩
  intro input fence hfence hslot hstale
  exact next_of_stale_fence hkeys hfence hlater (hkey.trans hslot.symm) hstale.ne'

open Sample

/-- A second engine registers for the slot; a late heartbeat with the first one's fence is turned
away. -/
theorem heartbeat_of_superseded_owner :
    let s := run serving
    let t := runAll (next Sample.contract) s
      [registered 5 first "engine-b" otherActivation]
    t.owners.map (·.slotGeneration) = [2] ∧
      next Sample.contract t ⟨Manager.seconds 6, .publishEngineReadiness "engine-a"
        [cart] (fence first activation 1)⟩ = t := by
  intro s t
  obtain ⟨_, hrows, _⟩ := slot_generation_fencing (reachable_run serving)
    (reach_runAll_any s [registered 5 first "engine-b" otherActivation])
  have hchanged : ∃ row ∈ s.owners, ∃ row' ∈ t.owners, row'.key = row.key ∧
      row.key = ("node-a", "blue") ∧ row.slotGeneration = 1 ∧ row'.owner ≠ row.owner := by
    decide +kernel
  obtain ⟨row, hrow, row', hrow', hkey, hslot, hgeneration, hne⟩ := hchanged
  obtain ⟨_, hrises, _, hturned⟩ := hrows row hrow row' hrow' hkey
  exact ⟨by decide +kernel, hturned _ _ rfl hslot.symm (hgeneration ▸ hrises hne)⟩

end Wruntime.Routing
