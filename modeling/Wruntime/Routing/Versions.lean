import Wruntime.Routing.System

/-!
The routing version as a witness of change. Every transaction but one increments it when it changes
a rule; a registration that publishes and drops no rule does not count the rules it withdraws from
the slot's owner. In runs without such a registration a reader can trust the version.
-/

namespace Wruntime.Routing

open Fallible Table Runs
open Manager (Time Revision Status ModuleIdentity)

variable {p : RoutingRule → Bool} {rules : List RoutingRule}

def Cluster.replays (contract : Contract) (c : Cluster) (reg : EngineRegistration)
    (activationId : Uuid) : Bool :=
  reg.deployment.any fun metadata =>
    (c.owner? metadata.nodeId metadata.engineSlot).any fun owner =>
      (c.node? metadata.nodeId).any fun node =>
        match desiredState contract node metadata with
        | .ok (deployment, op) =>
          owner.owner = some (ownershipOf metadata deployment op activationId)
        | .error _ => false

def Cluster.recordedEngine? (c : Cluster) (reg : EngineRegistration) : Option String :=
  reg.deployment.bind fun metadata =>
    (c.owner? metadata.nodeId metadata.engineSlot).bind (·.engineId)

/-- The registration has no rules to publish or drop, and withdraws those of the engine recorded for
its slot. -/
def Cluster.withdrawsSilently (contract : Contract) (c : Cluster)
    (reg : EngineRegistration) (activationId : Uuid) : Bool :=
  decide (reg.modules = []) && !c.rules.any reg.dropsRule &&
    !c.replays contract reg activationId &&
    (c.recordedEngine? reg).any fun engineId => c.rules.any (RoutingRule.serves engineId)

def Counted (contract : Contract) (c : Cluster) (input : Input) : Prop :=
  match input.call with
  | .registerEngine reg activationId => c.withdrawsSilently contract reg activationId = false
  | _ => True

theorem le_bumped (version : Nat) (changed : Bool) : version ≤ bumped version changed := by
  cases changed with
  | false => exact le_rfl
  | true => exact Nat.le_succ version

theorem bumped_of_updateWhere {version : Nat} {f : RoutingRule → RoutingRule}
    (h : updateWhere p f rules ≠ rules) : version < bumped version (rules.any p) := by
  cases hany : rules.any p with
  | true => exact Nat.lt_succ_self version
  | false => exact absurd (updateWhere_of_any_eq_false hany) h

theorem bumped_of_filter {version : Nat} (h : rules.filter (!p ·) ≠ rules) :
    version < bumped version (rules.any p) := by
  cases hany : rules.any p with
  | true => exact Nat.lt_succ_self version
  | false =>
    refine absurd (List.filter_eq_self.2 ?_) h
    intro rule hrule
    simpa using List.any_eq_false.1 hany rule hrule

section Step

variable {contract : Contract} {c c' : Cluster} {now : Time} {reg : EngineRegistration}
  {activationId : Uuid} {fence : Fence} {metadata : DeploymentMetadata} {node : Node}
  {deployment : Deployment} {op : Operation} {owner : SlotOwner} {generation : Nat}

theorem withdrawOwner_any_dropsRule (c : Cluster) (owner : SlotOwner) (reg : EngineRegistration) :
    (c.withdrawOwner owner).rules.any reg.dropsRule = c.rules.any reg.dropsRule := by
  unfold Cluster.withdrawOwner
  cases owner.engineId with
  | none => rfl
  | some engineId =>
    change (updateWhere (RoutingRule.serves engineId) RoutingRule.down c.rules).any
      reg.dropsRule = _
    rw [updateWhere, List.any_map]
    congr 1
    funext rule
    simp only [Function.comp]
    split <;> rfl

theorem withdrawOwner_changes (hchanged : (c.withdrawOwner owner).rules ≠ c.rules) :
    (owner.engineId.any fun engineId => c.rules.any (RoutingRule.serves engineId)) = true := by
  unfold Cluster.withdrawOwner at hchanged
  cases hengine : owner.engineId with
  | none =>
    rw [hengine] at hchanged
    exact absurd rfl hchanged
  | some engineId =>
    rw [hengine] at hchanged
    cases hany : c.rules.any (RoutingRule.serves engineId) with
    | true => simpa using hany
    | false => exact absurd (updateWhere_of_any_eq_false hany) hchanged

section Registered

variable (h : Registered contract c now reg activationId c' fence metadata node deployment op
  owner generation)
include h

theorem Registered.replays_eq : c.replays contract reg activationId =
      decide (owner.owner = some (ownershipOf metadata deployment op activationId)) := by
  simp only [Cluster.replays, h.metadata_eq, h.owner_eq, h.node_eq, h.desired, Option.any_some]

theorem Registered.recordedEngine_eq : c.recordedEngine? reg = owner.engineId := by
  simp only [Cluster.recordedEngine?, h.metadata_eq, h.owner_eq, Option.bind_some]

theorem Registered.modules_nil (hrules : reg.defaultRules = []) : reg.modules = [] := by
  have hinventory := h.inventory
  simp only [checkInventory, bind_eq_ok] at hinventory
  obtain ⟨_, _, actual, hmodules, _⟩ := hinventory
  cases hcases : reg.modules with
  | nil => rfl
  | cons module rest =>
    -- The first module is refused unless it has a schema, and then has a rule.
    rw [hcases] at hmodules
    simp only [List.foldlM_cons, bind_eq_ok, addModule, List.lookup_nil] at hmodules
    obtain ⟨_, hfirst, _⟩ := hmodules
    have hschema : module.protoSchema ≠ [] := by
      intro hempty
      simp [Contract.schemaDigest, hempty] at hfirst
    have hmem : module.identity ∈
        ((reg.modules.filter (·.protoSchema ≠ [])).map (·.identity)).eraseDups := by
      rw [List.mem_eraseDups, List.mem_map]
      refine ⟨module, ?_, rfl⟩
      simp [hcases, hschema]
    simp only [EngineRegistration.defaultRules, List.map_eq_nil_iff] at hrules
    rw [hrules] at hmem
    cases hmem

theorem Registered.version_lt (hcounted : c.withdrawsSilently contract reg activationId = false)
    (hchanged : c'.rules ≠ c.rules) : c.version < c'.version := by
  rw [h.version]
  by_cases hrules : reg.defaultRules = []
  case neg =>
    simp only [hrules, ne_eq, not_false_eq_true, decide_true, Bool.true_or]
    exact Nat.lt_succ_self _
  have hpublish : ∀ rules, reg.publishRules rules = rules := by
    intro rules
    simp only [EngineRegistration.publishRules, hrules, List.foldl_nil]
  have hresult := h.rules
  rw [hpublish] at hresult ⊢
  simp only [hrules, ne_eq, not_true_eq_false, decide_false, Bool.false_or]
  split at hresult
  next hreplay =>
    rw [if_pos hreplay]
    exact bumped_of_filter (hresult ▸ hchanged)
  next hreplay =>
    rw [if_neg hreplay]
    cases hdrops : (c.withdrawOwner owner).rules.any reg.dropsRule with
    | true => exact Nat.lt_succ_self _
    | false =>
      have hkept : c'.rules = (c.withdrawOwner owner).rules := by
        rw [hresult]
        refine List.filter_eq_self.2 fun rule hrule => ?_
        simpa using List.any_eq_false.1 hdrops rule hrule
      have hserves := withdrawOwner_changes (hkept ▸ hchanged)
      rw [withdrawOwner_any_dropsRule] at hdrops
      simp only [Cluster.withdrawsSilently, h.modules_nil hrules, hdrops, h.replays_eq,
        h.recordedEngine_eq, hserves, hreplay] at hcounted
      cases hcounted

theorem Registered.version_le : c.version ≤ c'.version := by
  rw [h.version]
  exact le_bumped _ _

end Registered

/-- The version never falls, and rises with every change of a rule. -/
theorem next_counted (c : Cluster) (input : Input) : c.version ≤ (next contract c input).version ∧
      (Counted contract c input → (next contract c input).rules ≠ c.rules →
        c.version < (next contract c input).version) := by
  obtain ⟨now, call⟩ := input
  refine next_elim ⟨le_rfl, fun _ hne => absurd rfl hne⟩ fun c' hcommits => ?_
  cases hcommits with
  | registerEngine h => exact ⟨h.version_le, h.version_lt⟩
  | deregisterEngine _ hversion hrules | publishReady _ _ _ _ hversion hrules
  | publishSuperseded _ hversion hrules | beginEngineDrain _ hversion hrules
  | switchAuthority hversion hrules =>
    rw [hversion, hrules]
    exact ⟨le_bumped _ _, fun _ => bumped_of_updateWhere⟩
  | @updateRouteHealth _ _ _ backed _ hrules hversion =>
    rw [hversion, hrules]
    refine ⟨le_bumped _ _, fun _ hne => ?_⟩
    -- Without stale rules, it is the recovered ones that changed.
    cases hstale : c.rules.any (RoutingRule.stale backed) with
    | true => exact Nat.lt_succ_self _
    | false =>
      rw [updateWhere_of_any_eq_false hstale] at hne ⊢
      exact bumped_of_updateWhere hne
  | upsertRoutingRule rule => exact ⟨Nat.le_succ _, fun _ _ => Nat.lt_succ_self _⟩
  | deleteRoutingRule selected => exact ⟨le_bumped _ _, fun _ => bumped_of_filter⟩
  | commitOperation | planNode | storeSecrets => exact ⟨le_rfl, fun _ hne => absurd rfl hne⟩

end Step

section Runs

variable {contract : Contract} {s t u : Cluster}

section

variable (hrun : Reach (next contract) (Counted contract) s t)
include hrun

theorem version_le : s.version ≤ t.version :=
  hrun.related (R := fun a b => a.version ≤ b.version) (fun _ => le_rfl)
    (fun hab hbc => hab.trans hbc) (fun c input _ _ => (next_counted c input).1)

theorem rules_of_version_eq (hversion : t.version = s.version) : t.rules = s.rules := by
  induction hrun with
  | refl => rfl
  | @step mid input hprev hok ih =>
    have hle := version_le hprev
    have hstep : mid.version ≤ (next contract mid input).version ∧ _ := next_counted mid input
    have hsame : mid.version = s.version := by omega
    by_contra hne
    rw [← ih hsame] at hne
    have hlt := hstep.2 hok hne
    omega

end

/-- In every run of counted transactions a change of the rules increases the version, and a reader
whose label is still current has the current rules. -/
theorem routing_version_sound (hst : Reach (next contract) (Counted contract) s t)
    (htu : Reach (next contract) (Counted contract) t u) :
    (∀ input, Counted contract u input → (next contract u input).rules ≠ u.rules →
      u.version < (next contract u input).version) ∧
    ∀ known table, getRoutingTable s t known = some table →
      table.version = s.version ∧ table.rules = t.rules ∧
      (∀ input, Counted contract u input → (next contract u input).rules ≠ u.rules →
        table.version < (next contract u input).version) ∧
      ∀ v, getRoutingTable u v table.version = none → u.rules = table.rules := by
  have hstep : ∀ input, Counted contract u input →
      (next contract u input).rules ≠ u.rules →
      u.version < (next contract u input).version := fun input => (next_counted u input).2
  refine ⟨hstep, ?_⟩
  intro known table htable
  simp only [getRoutingTable] at htable
  split at htable
  · cases htable
  next =>
    cases htable
    have hsu := version_le (hst.trans htu)
    refine ⟨rfl, rfl, fun input hok hne => lt_of_le_of_lt hsu (hstep input hok hne), ?_⟩
    intro v hnone
    simp only [getRoutingTable] at hnone
    split at hnone
    next hknown =>
      have hst' := version_le hst
      have htu' := version_le htu
      exact rules_of_version_eq htu (by omega)
    next => cases hnone

end Runs

open Sample

theorem heartbeat_keeps_table :
    let s := run serving
    let u := next Sample.contract s ⟨Manager.seconds 5,
      .publishEngineReadiness "engine-a" [cart]
        (Sample.fence first activation 1)⟩
    u ≠ s ∧ getRoutingTable u u s.version = none ∧ u.rules = s.rules := by
  intro s u
  have hnone : getRoutingTable u u s.version = none := by decide +kernel
  obtain ⟨_, hread⟩ := routing_version_sound
    (.refl : Reach (next Sample.contract) (Counted Sample.contract) s s)
    (.single trivial : Reach _ _ s u)
  obtain ⟨_, _, _, hkeeps⟩ := hread 0 ⟨s.rules, s.version⟩ rfl
  exact ⟨by decide +kernel, hnone, hkeeps u hnone⟩

/-- A registration without modules takes a serving engine's slot: the rule is withdrawn, the version
stays. -/
theorem withdrawal_without_version :
    let s := run (serving ++
      [⟨Manager.seconds 5, .commitOperation "node-a" 1⟩, planned 6 emptied])
    let t := next Sample.contract s
      (registered 7 emptied "engine-b" otherActivation)
    Reachable Sample.contract s ∧ t.rules ≠ s.rules ∧ t.version = s.version := by
  exact ⟨reachable_run _, by decide +kernel, by decide +kernel⟩

end Wruntime.Routing
