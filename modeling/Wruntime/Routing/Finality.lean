import Wruntime.Routing.Serving

/-!
Drain and deregistration. An engine that drains or is deregistered stays out of rotation, and a
released slot is not given back to its activation, until a registration names the engine or the
activation again while its operation is live: a replay writes the engine row and the owner row like
any other.
-/

namespace Wruntime.Routing

open Fallible Table Runs
open Manager (Time Revision Status ModuleIdentity)

variable {input : Input}

/-- The call takes the engine out of rotation for good. -/
def Call.retires (call : Call) (engineId : String) (fence : Fence) : Prop :=
  call = .beginEngineDrain engineId fence ∨ call = .deregisterEngine engineId fence

/-- An operation of the node is live for the revision and slot that the registration names. -/
def Cluster.live (c : Cluster) (reg : EngineRegistration) : Bool :=
  reg.deployment.any fun metadata => (c.node? metadata.nodeId).any fun node =>
    (node.liveOperation? metadata metadata.revisionDigest).isSome

/-- The call does not register the engine or activation again under a live operation, and is no
administrator rule for it. -/
def Call.Leaves (c : Cluster) (engineId : String) (activationId : Uuid) : Call → Prop
  | .registerEngine reg activation =>
    c.live reg = true → reg.engineId ≠ engineId ∧ activation ≠ activationId
  | .upsertRoutingRule rule => rule.engineId ≠ engineId
  | _ => True

instance (c : Cluster) (engineId : String) (activationId : Uuid) (call : Call) :
    Decidable (call.Leaves c engineId activationId) := by
  unfold Call.Leaves
  split <;> infer_instance

/-- The engine serves nothing and its row, if there is one, is marked. -/
structure Cluster.Retired (c : Cluster) (engineId : String) : Prop where
  rules : ∀ rule ∈ c.rules, rule.engineId = engineId → rule.healthy = false
  engines : ∀ e ∈ c.engines, e.engineId = engineId → e.draining = true

/-- The slot of the fence gives no authority to the fence's activation. -/
def Cluster.Released (c : Cluster) (fence : Fence) : Prop :=
  ∀ row ∈ c.owners, row.key = (fence.nodeId, fence.slot) →
    (row.owner.any fun o => o.activationId = fence.activationId) = true →
    row.routeAuthority = false ∧ row.lifecycleAuthority = false

section Steps

variable {contract : Contract} {c c' : Cluster} {engineId : String} {fence : Fence}

theorem retired_rules_updateWhere {p : RoutingRule → Bool} {f : RoutingRule → RoutingRule}
    {rules : List RoutingRule} (h : ∀ rule ∈ rules, rule.engineId = engineId → rule.healthy = false)
    (hkeep : ∀ rule, (f rule).engineId = rule.engineId)
    (hf : ∀ rule ∈ rules, p rule = true → rule.engineId = engineId → (f rule).healthy = false) :
    ∀ rule ∈ updateWhere p f rules, rule.engineId = engineId → rule.healthy = false :=
  forall_updateWhere h fun rule hrule hp hid => hf rule hrule hp ((hkeep rule).symm.trans hid)

theorem retired_takeDown (p : RoutingRule → Bool)
    (h : ∀ rule ∈ c.rules, rule.engineId = engineId → rule.healthy = false) :
    ∀ rule ∈ updateWhere p RoutingRule.down c.rules,
      rule.engineId = engineId → rule.healthy = false :=
  retired_rules_updateWhere h (fun _ => rfl) fun _ _ _ _ => rfl

theorem commits_of_retires (hcall : input.call.retires engineId fence)
    (haccepted : ∀ status, (step contract c input).2 ≠ .failed status) :
    Commits contract c input.now input.call (next contract c input) := by
  obtain ⟨now, call⟩ := input
  rcases hcall with rfl | rfl
  · cases hresult : beginEngineDrain c engineId fence with
    | error status => exact absurd (by simp [step, hresult, settle]) (haccepted status)
    | ok value =>
      simp only [next, step, hresult, settle]
      exact beginEngineDrain_commits hresult
  · cases hresult : deregisterEngine c engineId fence with
    | error status => exact absurd (by simp [step, hresult, settle]) (haccepted status)
    | ok value =>
      simp only [next, step, hresult, settle, id]
      exact deregisterEngine_commits hresult

theorem retired_of_call (hcall : input.call.retires engineId fence)
    (hcommits : Commits contract c input.now input.call c') : c'.Retired engineId := by
  have hdown : ∀ rule ∈ updateWhere (RoutingRule.serves engineId) RoutingRule.down c.rules,
      rule.engineId = engineId → rule.healthy = false := by
    intro rule hrule hid
    by_contra hnot
    have hhealthy : rule.healthy = true := by simpa using hnot
    exact serves_eq_false (mem_takeDown hrule hhealthy).2 hhealthy hid
  obtain ⟨now, call⟩ := input
  rcases hcall with rfl | rfl
  · cases hcommits with
    | beginEngineDrain _ _ hrules hengines _ _ =>
      refine ⟨hrules ▸ hdown, ?_⟩
      intro e he hid
      rw [hengines] at he
      rcases updated he with ⟨old, -, -, rfl⟩ | ⟨-, hother⟩
      · rfl
      · exact absurd (decide_eq_true hid) hother
  · cases hcommits with
    | deregisterEngine _ _ hrules hengines _ _ =>
      refine ⟨hrules ▸ hdown, ?_⟩
      intro e he hid
      rw [hengines, List.mem_filter] at he
      exact absurd hid (of_decide_eq_true he.2)

theorem released_of_deregister (hcall : input.call = .deregisterEngine engineId fence)
    (hcommits : Commits contract c input.now input.call c') : c'.Released fence := by
  obtain ⟨now, call⟩ := input
  subst hcall
  cases hcommits with
  | deregisterEngine _ _ _ _ howners _ =>
    intro row hrow hkey _
    rw [howners] at hrow
    rcases updated hrow with ⟨old, -, -, rfl⟩ | ⟨-, hother⟩
    · exact ⟨rfl, rfl⟩
    · obtain ⟨hnode, hslot⟩ := Prod.mk.inj hkey
      exact absurd (decide_eq_true ⟨hnode, hslot⟩) hother

section

variable {now : Time} {reg : EngineRegistration} {activationId : Uuid}
  {metadata : DeploymentMetadata} {node : Node} {deployment : Deployment} {op : Operation}
  {owner : SlotOwner} {generation : Nat} (h : Registered contract c now reg activationId c' fence
    metadata node deployment op owner generation)
include h

/-- A registration is accepted only under a live operation. -/
theorem Registered.live : c.live reg = true := by
  have hdesired := h.desired
  simp only [desiredState, bind_eq_ok, required_eq_ok, ensure_eq_ok] at hdesired
  obtain ⟨_, -, _, -, _, ⟨-, -, hdigest⟩, _, hlive, -⟩ := hdesired
  simp [Cluster.live, h.metadata_eq, h.node_eq, hdigest, hlive]

theorem Registered.rules_of_other
    (hretired : ∀ rule ∈ c.rules, rule.engineId = engineId → rule.healthy = false) :
    ∀ rule ∈ c'.rules, rule.engineId = engineId → rule.healthy = false := by
  intro rule hrule hid
  obtain ⟨p, hbase, _⟩ := registration_base c owner
    (owner.owner = some (ownershipOf metadata deployment op activationId))
  rw [h.rules, hbase, List.mem_filter] at hrule
  rcases mem_foldl_upsertBy hrule.1 with hnew | hold
  · obtain ⟨_, _, rfl⟩ := List.mem_map.1 hnew
    rfl
  · exact retired_takeDown p hretired rule hold hid

end

theorem next_retired (h : c.Retired engineId)
    (hleaves : input.call.Leaves c engineId fence.activationId) :
    (next contract c input).Retired engineId := by
  obtain ⟨now, call⟩ := input
  refine next_elim h fun c' hcommits => ?_
  cases hcommits with
  | registerEngine hreg =>
    refine ⟨hreg.rules_of_other h.rules, ?_⟩
    intro e he hid
    rw [hreg.engines] at he
    rcases mem_upsertBy he with rfl | hold
    · exact absurd hid (hleaves hreg.live).1
    · exact h.engines e hold hid
  | deregisterEngine _ _ hrules hengines _ _ =>
    refine ⟨hrules ▸ retired_takeDown _ h.rules, ?_⟩
    intro e he hid
    rw [hengines] at he
    exact h.engines e (List.mem_of_mem_filter he) hid
  | @publishReady other _ _ _ _ _ hengine hdraining _ _ hrules hengines _ _ =>
    -- An engine that reports readiness has a row that is not marked.
    have hother : other ≠ engineId := by
      rintro rfl
      have hmarked := h.engines _ (found hengine).1 (found hengine).2
      cases hdraining.symm.trans hmarked
    constructor
    · rw [hrules]
      refine retired_rules_updateWhere h.rules (fun _ => rfl) fun rule _ hrecovers hid => ?_
      simp only [RoutingRule.recovers, Bool.and_eq_true, decide_eq_true_eq] at hrecovers
      exact absurd (hrecovers.1.1.symm.trans hid) hother
    · rw [hengines]
      exact forall_updateWhere h.engines fun e he _ => h.engines e he
  | publishSuperseded _ _ hrules hengines _ _ =>
    refine ⟨hrules ▸ retired_takeDown _ h.rules, ?_⟩
    rw [hengines]
    exact forall_updateWhere h.engines fun e he _ => h.engines e he
  | beginEngineDrain _ _ hrules hengines _ _ =>
    refine ⟨hrules ▸ retired_takeDown _ h.rules, ?_⟩
    rw [hengines]
    exact forall_updateWhere h.engines fun e _ _ _ => rfl
  | updateRouteHealth hbacked hrules _ hengines _ _ =>
    refine ⟨?_, hengines ▸ h.engines⟩
    intro rule hrule hid
    by_contra hnot
    obtain ⟨e, he, heid, hdraining, _⟩ :=
      backed_of_updateRouteHealth hbacked hrules hrule (by simpa using hnot)
    rw [h.engines e he (heid.trans hid)] at hdraining
    cases hdraining
  | upsertRoutingRule rule =>
    refine ⟨?_, h.engines⟩
    intro r hr hid
    rcases mem_upsertBy hr with rfl | hold
    · exact absurd hid hleaves
    · exact h.rules r hold hid
  | deleteRoutingRule selected =>
    exact ⟨fun r hr => h.rules r (List.mem_of_mem_filter hr), h.engines⟩
  | switchAuthority _ hrules _ hengines _ =>
    exact ⟨hrules ▸ retired_takeDown _ h.rules, hengines ▸ h.engines⟩
  | commitOperation | planNode | storeSecrets => exact ⟨h.rules, h.engines⟩

theorem next_released (h : c.Released fence)
    (hleaves : input.call.Leaves c engineId fence.activationId) :
    (next contract c input).Released fence := by
  obtain ⟨now, call⟩ := input
  refine next_elim h fun c' hcommits => ?_
  have hkeep : ∀ {d : Cluster}, d.owners = c.owners → d.Released fence := by
    intro d howners row hrow
    exact h row (howners ▸ hrow)
  cases hcommits with
  | registerEngine hreg =>
    unfold Cluster.Released
    rw [hreg.owners]
    apply forall_updateWhere h
    -- The row that is written now has another activation.
    intro row _ _ _ howner
    simp only [SlotOwner.assign, Option.any_some, decide_eq_true_eq] at howner
    exact absurd howner (hleaves hreg.live).2
  | deregisterEngine _ _ _ _ howners _ =>
    unfold Cluster.Released
    rw [howners]
    exact forall_updateWhere h fun _ _ _ _ _ => ⟨rfl, rfl⟩
  | publishReady _ _ _ _ _ _ _ howners _ | publishSuperseded _ _ _ _ howners _
  | beginEngineDrain _ _ _ _ howners _ | updateRouteHealth _ _ _ _ howners _
  | switchAuthority _ _ _ _ howners => exact hkeep howners
  | planNode _ _ hfresh _ =>
    intro row hrow hkey howner
    rcases List.mem_append.1 hrow with hold | hnew
    · exact h row hold hkey howner
    · obtain ⟨_, _, hauthority⟩ := hfresh row hnew
      exact hauthority
  | upsertRoutingRule | deleteRoutingRule | commitOperation | storeSecrets => exact hkeep rfl

end Steps

/-- A drain or deregistration is final in every run without a registration of the engine or
activation under a live operation: rules stay down, the mark stays, no authority comes back. -/
theorem retirement_final {contract : Contract} {s t : Cluster} {input : Input}
    {engineId : String} {fence : Fence} (hcall : input.call.retires engineId fence)
    (haccepted : ∀ status, (step contract s input).2 ≠ .failed status) (hrun : Reach (next contract)
      (fun c later => later.call.Leaves c engineId fence.activationId) (next contract s input) t) :
    (∀ rule ∈ t.rules, rule.engineId = engineId → rule.healthy = false) ∧
    (∀ e ∈ t.engines, e.engineId = engineId → e.draining = true) ∧
    (input.call = .deregisterEngine engineId fence →
      ∀ row ∈ t.owners, row.key = (fence.nodeId, fence.slot) →
        (row.owner.any fun o => o.activationId = fence.activationId) = true →
        row.routeAuthority = false ∧ row.lifecycleAuthority = false) := by
  have hcommits := commits_of_retires hcall haccepted
  have hretired : t.Retired engineId :=
    hrun.invariant (P := fun c => c.Retired engineId) (retired_of_call hcall hcommits)
      fun _ _ _ hleaves h => next_retired h hleaves
  refine ⟨hretired.rules, hretired.engines, ?_⟩
  intro hderegister
  exact hrun.invariant (P := fun c => c.Released fence)
    (released_of_deregister hderegister hcommits) fun _ _ _ hleaves h =>
      next_released h hleaves

open Sample

/-- A late registration comes when the next release is planned, and is refused. -/
theorem heartbeat_after_drain :
    let drain : Input := ⟨Manager.seconds 5, .beginEngineDrain "engine-a"
      (Sample.fence first activation 1)⟩
    let t := runAll (next Sample.contract)
      (next Sample.contract (run serving) drain)
      [⟨Manager.seconds 6, .publishEngineReadiness "engine-a" [cart]
          (Sample.fence first activation 1)⟩,
        ⟨Manager.seconds 7, .updateRouteHealth (Manager.seconds 60) (Manager.seconds 60)⟩,
        ⟨Manager.seconds 8, .commitOperation "node-a" 1⟩, planned 9 emptied,
        registered 10 first "engine-a" activation]
    t.engines.map (·.engineId) = ["engine-a"] ∧
      ∀ rule ∈ t.rules, rule.engineId = "engine-a" → rule.healthy = false := by
  intro drain t
  have hreply : (step Sample.contract (run serving) drain).2 = .version 3 := by
    decide +kernel
  have hrun : Reach (next Sample.contract)
      (fun c later => later.call.Leaves c "engine-a" activation) _ t :=
    reach_runAll _ (by decide +kernel)
  have hfinal := retirement_final (.inl rfl) (fun status h => by cases hreply.symm.trans h)
    hrun
  exact ⟨by decide +kernel, hfinal.1⟩

/-- The registration is delivered again after the drain, and a heartbeat puts the rule back into
rotation; after a deregistration it regains the slot as well. -/
theorem replay_undoes_retirement :
    let fence := Sample.fence first activation 1
    let again : List Input := [registered 6 first "engine-a" activation,
      ⟨Manager.seconds 7, .publishEngineReadiness "engine-a" [cart] fence⟩]
    let drained := run (serving ++
      [⟨Manager.seconds 5, .beginEngineDrain "engine-a" fence⟩])
    let removed := run (serving ++
      [⟨Manager.seconds 5, .deregisterEngine "engine-a" fence⟩])
    Reachable Sample.contract drained ∧ Reachable Sample.contract removed ∧
      drained.rules.map (·.healthy) = [false] ∧
      drained.engines.map (·.draining) = [true] ∧
      removed.rules.map (·.healthy) = [false] ∧
      removed.owners.map (fun row => (row.routeAuthority, row.lifecycleAuthority)) =
        [(false, false)] ∧
      ∀ s ∈ [drained, removed],
        let t := runAll (next Sample.contract) s again
        t.rules.map (·.healthy) = [true] ∧ t.engines.map (·.draining) = [false] ∧
          t.owners.map (fun row => (row.routeAuthority, row.lifecycleAuthority)) =
            [(true, true)] := by
  intro fence again drained removed
  refine ⟨reachable_run _, reachable_run _, ?_⟩
  decide +kernel

end Wruntime.Routing
