import Mathlib.Data.List.Perm.Subperm
import Wruntime.Routing.Transactions

/-!
The services of a status report. The severity of a service compares how often the committed
inventories list the module with how many healthy default routes the authoritative engines have for
it. In a rollout an engine can be authoritative on a slot that its node's committed inventory lacks,
and its route stands in for a missing one. Where every such route leads to a slot of the committed
inventory, and no two to one slot, routes and slots match and the comparison is right.
-/

namespace Wruntime.Routing

open Manager (ModuleIdentity Revision)

inductive StatusSeverity
  | healthy | degraded | unhealthy
  deriving DecidableEq

def Node.current? (node : Node) : Option Deployment :=
  node.deployments.find? (·.revision = node.currentRevision)

def Node.selected? (node : Node) (slot : String) : Option SlotAuthority :=
  node.authorities.find? fun a =>
    a.authoritative && a.engineSlot = slot && node.deployments.any (·.revision = a.revision)

/-- `authoritative_for_desired_revision` of `compose_engines`. -/
def Cluster.authoritativeForDesired (c : Cluster) (metadata : DeploymentMetadata) : Bool :=
  c.nodes.any fun node =>
    node.nodeId = metadata.nodeId &&
    (node.deployments.any fun d =>
      d.revision = metadata.revision && d.bundleDigest = metadata.bundleDigest &&
        d.inventory.any (·.engineSlot = metadata.engineSlot)) &&
    match node.selected? metadata.engineSlot with
    | some authority => authority.revision = metadata.revision
    | none => node.current?.any (·.revision = metadata.revision)

/-- The slot of the authoritative engine that a route leads to. -/
def Cluster.routeSlot (c : Cluster) (rule : RoutingRule) : Option (String × String) :=
  c.engines.findSome? fun engine =>
    if engine.engineId = rule.engineId then
      (engine.deployment.filter c.authoritativeForDesired).map fun m => (m.nodeId, m.engineSlot)
    else none

/-- The slots for which the committed inventories list the module, once for each entry. -/
def Cluster.desiredSlots (c : Cluster) (service : ModuleIdentity) : List (String × String) :=
  c.nodes.flatMap fun node => (node.current?.toList.flatMap (·.inventory)).flatMap fun expected =>
    (expected.modules.filter (·.1 = some service)).map fun _ => (node.nodeId, expected.engineSlot)

/-- A healthy route to the service under the id that registration gives its default route. -/
def RoutingRule.healthyDefault (service : ModuleIdentity) (rule : RoutingRule) : Bool :=
  rule.destination = service && rule.ruleId = defaultRuleId rule.engineId service && rule.healthy

/-- The slots of the healthy default routes of authoritative engines, once for each route. -/
def Cluster.healthySlots (c : Cluster) (service : ModuleIdentity) : List (String × String) :=
  (c.rules.filter (·.healthyDefault service)).filterMap c.routeSlot

/-- The severity of a service in `compose_services`. -/
def Cluster.serviceSeverity (c : Cluster) (service : ModuleIdentity) : StatusSeverity :=
  let desiredRoutes := (c.desiredSlots service).length
  let healthyRoutes := (c.healthySlots service).length
  if desiredRoutes = 0 then .degraded
  else if healthyRoutes = 0 then .unhealthy
  else if healthyRoutes < desiredRoutes then .degraded
  else .healthy

variable (c : Cluster) (service : ModuleIdentity)

theorem serviceSeverity_eq_healthy : c.serviceSeverity service = .healthy ↔
    c.desiredSlots service ≠ [] ∧
      (c.desiredSlots service).length ≤ (c.healthySlots service).length := by
  simp only [Cluster.serviceSeverity, ne_eq, ← List.length_eq_zero_iff]
  split
  · simp_all
  · split
    · simp
      omega
    · split <;> simp_all

theorem healthySlots_of_unhealthy (h : c.serviceSeverity service = .unhealthy) :
    c.healthySlots service = [] := by
  unfold Cluster.serviceSeverity at h
  by_contra hne
  simp only [List.length_eq_zero_iff, hne, if_false] at h
  split at h
  · cases h
  · split at h <;> cases h

/-- The committed inventory of a node lists the service for the slot. -/
def Cluster.Lists (slot : String × String) : Prop :=
  ∃ node ∈ c.nodes, node.nodeId = slot.1 ∧ ∃ d ∈ node.current?, ∃ expected ∈ d.inventory,
    expected.engineSlot = slot.2 ∧ ∃ m ∈ expected.modules, m.1 = some service

/-- An authoritative engine on the slot has a healthy default route for the service. -/
def Cluster.Serves (slot : String × String) : Prop :=
  ∃ rule ∈ c.rules, rule.healthyDefault service = true ∧ c.routeSlot rule = some slot

theorem mem_desiredSlots {slot : String × String} :
    slot ∈ c.desiredSlots service ↔ c.Lists service slot := by
  simp only [Cluster.desiredSlots, Cluster.Lists, List.mem_flatMap, List.mem_map, List.mem_filter,
    Option.mem_toList, decide_eq_true_eq, Prod.ext_iff]
  constructor
  · rintro ⟨node, hnode, expected, ⟨d, hd, hexpected⟩, m, ⟨hm, hservice⟩, hid, hslot⟩
    exact ⟨node, hnode, hid, d, hd, expected, hexpected, hslot, m, hm, hservice⟩
  · rintro ⟨node, hnode, hid, d, hd, expected, hexpected, hslot, m, hm, hservice⟩
    exact ⟨node, hnode, expected, ⟨d, hd, hexpected⟩, m, ⟨hm, hservice⟩, hid, hslot⟩

theorem mem_healthySlots {slot : String × String} :
    slot ∈ c.healthySlots service ↔ c.Serves service slot := by
  simp only [Cluster.healthySlots, Cluster.Serves, List.mem_filterMap, List.mem_filter, and_assoc]

/-- Routes and slots match: the rule ids are distinct, as the key of their table, every healthy
default route of an authoritative engine leads to a slot that a committed inventory lists for the
service, and no two engines have such a route for one slot. -/
structure Cluster.Matched : Prop where
  keys : (c.rules.map (·.ruleId)).Nodup
  listed : ∀ slot, c.Serves service slot → c.Lists service slot
  single : ∀ rule ∈ c.rules, ∀ other ∈ c.rules, rule.healthyDefault service = true →
    other.healthyDefault service = true → ∀ slot, c.routeSlot rule = some slot →
      c.routeSlot other = some slot → rule.engineId = other.engineId

variable {c service}

theorem ruleId_of_healthyDefault {rule : RoutingRule} (h : rule.healthyDefault service = true) :
    rule.ruleId = defaultRuleId rule.engineId service := by
  simp only [RoutingRule.healthyDefault, Bool.and_eq_true, decide_eq_true_eq] at h
  exact h.1.2

/-- Two routes to one slot would be of one engine, and so one rule. -/
theorem Cluster.Matched.nodup_healthySlots (h : c.Matched service) :
    (c.healthySlots service).Nodup := by
  have hkeys : (c.rules.filter (·.healthyDefault service)).Pairwise (·.ruleId ≠ ·.ruleId) :=
    (List.pairwise_map.1 h.keys).filter _
  rw [Cluster.healthySlots, List.Nodup, List.pairwise_filterMap]
  refine hkeys.imp_of_mem fun {rule other} hrule hother hids slot hslot slot' hslot' => ?_
  rintro rfl
  rw [List.mem_filter] at hrule hother
  have hengine := h.single rule hrule.1 other hother.1 hrule.2 hother.2 slot hslot hslot'
  apply hids
  rw [ruleId_of_healthyDefault hrule.2, ruleId_of_healthyDefault hother.2, hengine]

/-- Distinct slots inside the desired ones, and as many, are all of them. -/
theorem Cluster.Matched.desired_subset (h : c.Matched service)
    (hcount : (c.desiredSlots service).length ≤ (c.healthySlots service).length) :
    c.desiredSlots service ⊆ c.healthySlots service := by
  have hsubset : c.healthySlots service ⊆ c.desiredSlots service := fun slot hslot =>
    (mem_desiredSlots c service).2 (h.listed slot ((mem_healthySlots c service).1 hslot))
  have hsubperm := List.subperm_of_subset h.nodup_healthySlots hsubset
  exact (hsubperm.perm_of_length_le hcount).symm.subset

variable (c service)

/-- Where routes and slots match, a healthy service is available on every slot that a committed
inventory lists it for, and an unhealthy one on none. The second part needs no match. -/
theorem service_verdict_of_matched (hmatched : c.Matched service) :
    (c.serviceSeverity service = .healthy →
      ∀ slot, c.Lists service slot → c.Serves service slot) ∧
    (c.serviceSeverity service = .unhealthy → ∀ slot, ¬ c.Serves service slot) := by
  constructor
  · intro hhealthy slot hlists
    obtain ⟨_, hcount⟩ := (serviceSeverity_eq_healthy c service).1 hhealthy
    rw [← mem_healthySlots]
    exact hmatched.desired_subset hcount ((mem_desiredSlots c service).2 hlists)
  · intro hunhealthy slot hserves
    have hnone := healthySlots_of_unhealthy c service hunhealthy
    have hmem := (mem_healthySlots c service).2 hserves
    rw [hnone] at hmem
    cases hmem

namespace Sample

def cartModule : ModuleIdentity := ⟨"shop", "cart", "1.0.0"⟩

def cartRelease (revision : Revision) (slots : List String) : Deployment :=
  ⟨revision, "", "", .active, none, slots.map (⟨·, [(some cartModule, "")], [], [], "", ""⟩)⟩

def cartEngine (id slot : String) (revision : Revision) : EngineRow :=
  ⟨⟨id, "", "", "", [], [], [], some ⟨"node-a", revision, "", slot, "", ""⟩, "", ""⟩,
    "", "", "", 1, 0, false⟩

def cartRoute (id : String) : RoutingRule :=
  ⟨defaultRuleId id cartModule, "", "", cartModule, id, "", "", true⟩

/-- A rollout from revision 1 to 2 that has moved the slot `green` already. -/
def rollingOut (committed : List String) (engines : List EngineRow) : Cluster :=
  { Cluster.empty with
    nodes := [⟨"node-a", 1, some 2, [cartRelease 2 ["blue", "green"], cartRelease 1 committed], [],
      [⟨"green", 2, true⟩]⟩]
    engines
    rules := engines.map (cartRoute ·.engineId) }

/-- The rollout replaces both slots: `blue` still has its old engine. -/
def replacing : Cluster :=
  rollingOut ["blue", "green"] [cartEngine "engine-a" "blue" 1, cartEngine "engine-b" "green" 2]

theorem matched_replacing : replacing.Matched cartModule := by
  refine ⟨by decide +kernel, fun slot hserves => ?_, by decide +kernel⟩
  have hsubset : replacing.healthySlots cartModule ⊆ replacing.desiredSlots cartModule := by
    decide +kernel
  exact (mem_desiredSlots _ _).1 (hsubset ((mem_healthySlots _ _).2 hserves))

end Sample

section

open Sample

theorem replaced_slots_available :
    replacing.Serves cartModule ("node-a", "blue") ∧
      replacing.Serves cartModule ("node-a", "green") := by
  have hall :=
    (service_verdict_of_matched replacing cartModule matched_replacing).1 (by decide +kernel)
  constructor
  · exact hall _ ((mem_desiredSlots _ _).1 (by decide +kernel))
  · exact hall _ ((mem_desiredSlots _ _).1 (by decide +kernel))

/-- The rollout adds the slot `green`, whose engine serves; `blue` has no engine. -/
theorem added_slot_covers_missing :
    let c := rollingOut ["blue"] [cartEngine "engine-b" "green" 2]
    c.serviceSeverity cartModule = .healthy ∧ c.desiredSlots cartModule = [("node-a", "blue")] ∧
      c.healthySlots cartModule = [("node-a", "green")] := by
  decide +kernel

end

end Wruntime.Routing
