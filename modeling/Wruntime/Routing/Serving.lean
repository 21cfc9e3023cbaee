import Wruntime.Routing.Versions

/-!
Which engine serves a slot. A rule goes into rotation only for the owner of its slot at the admitted
revision, and a transaction that takes one of these away withdraws the rules that relied on it, but
for two: a replayed registration that names another engine, and a commit while a slot without
authority is served at the old revision.
-/

namespace Wruntime.Routing

open Fallible Table Runs
open Manager (Time Revision Status ModuleIdentity)
open RoutingRule (serves down returns stale)

variable {c c' : Cluster} {metadata : DeploymentMetadata} {engineId nodeId slot : String}
  {p : RoutingRule → Bool} {revision : Revision}
variable {rule : RoutingRule}

def RoutingRule.isDefault (rule : RoutingRule) : Bool :=
  (enginePrefix rule.engineId).toList.isPrefixOf rule.ruleId.toList

/-- The engine belongs to a deployment row of its node. -/
def EngineRow.Placed (c : Cluster) (engine : EngineRow) : Prop :=
  ∃ metadata, engine.deployment = some metadata ∧
    ∃ node, c.node? metadata.nodeId = some node ∧
      ∃ d ∈ node.deployments, d.revision = metadata.revision

/-- The rule is in rotation for an engine that may serve. -/
def RoutingRule.Backed (c : Cluster) (rule : RoutingRule) : Prop :=
  ∃ engine ∈ c.engines, engine.engineId = rule.engineId ∧ engine.draining = false ∧
    c.authoritative engine = true

structure Sound (c : Cluster) : Prop where
  ruleIds : (c.rules.map RoutingRule.ruleId).Nodup
  engineIds : (c.engines.map EngineRow.engineId).Nodup
  ownerKeys : (c.owners.map SlotOwner.key).Nodup
  positive : ∀ node ∈ c.nodes, ∀ d ∈ node.deployments, 0 < d.revision
  placed : ∀ engine ∈ c.engines, engine.Placed c
  defaults : ∀ rule ∈ c.rules, rule.isDefault = true
  backed : ∀ rule ∈ c.rules, rule.healthy = true → rule.Backed c

theorem sound_empty : Sound Cluster.empty := by
  constructor <;> simp [Cluster.empty]

theorem authoritative_iff {engine : EngineRow} (hmetadata : engine.deployment = some metadata) :
    c.authoritative engine = true ↔
      c.owns engine.engineId metadata.nodeId metadata.engineSlot = true ∧
      ∃ node, c.node? metadata.nodeId = some node ∧
        node.admits metadata.engineSlot metadata.revision = true := by
  simp only [Cluster.authoritative, hmetadata, Bool.and_eq_true, Option.any_eq_true]

theorem owns_iff : c.owns engineId nodeId slot = true ↔ ∃ row ∈ c.owners, row.nodeId = nodeId ∧
      row.engineSlot = slot ∧ row.engineId = some engineId ∧ row.routeAuthority = true := by
  simp [Cluster.owns]

theorem node?_updateWhere {f : Node → Node}
    (hnodes : c'.nodes = updateWhere (fun node => node.nodeId = nodeId) f c.nodes)
    (hkeep : ∀ node, (f node).nodeId = node.nodeId) (other : String) :
    c'.node? other = (c.node? other).map fun node =>
      if node.nodeId = nodeId then f node else node := by
  unfold Cluster.node?
  rw [hnodes, find?_updateWhere (fun node => by rw [hkeep])]
  simp

theorem Cluster.node?_id {node : Node} (h : c.node? nodeId = some node) : node.nodeId = nodeId :=
  (found h).2

/-- A write on nodes that keeps what an engine of theirs may rely on. -/
structure Node.Keeps (node node' : Node) : Prop where
  nodeId : node'.nodeId = node.nodeId
  revisions : ∀ d ∈ node.deployments, ∃ d' ∈ node'.deployments, d'.revision = d.revision
  positive : (∀ d ∈ node.deployments, 0 < d.revision) →
    ∀ d ∈ node'.deployments, 0 < d.revision

theorem Node.Keeps.refl (node : Node) : node.Keeps node :=
  ⟨rfl, fun d hd => ⟨d, hd, rfl⟩, fun h => h⟩

theorem keeps_updateWhere {node node' : Node} {p : Deployment → Bool}
    {f : Deployment → Deployment} (hid : node'.nodeId = node.nodeId)
    (hrows : node'.deployments = updateWhere p f node.deployments)
    (hkeep : ∀ d, (f d).revision = d.revision) : node.Keeps node' := by
  refine ⟨hid, ?_, ?_⟩
  · rw [hrows]
    exact exists_updated (fun _ => rfl) fun d _ _ => hkeep d
  · intro hpositive d hd
    rw [hrows] at hd
    exact forall_updateWhere hpositive (fun row hrow _ => hkeep row ▸ hpositive row hrow) d hd

theorem Node.keeps_activate (node : Node) (metadata : DeploymentMetadata) :
    node.Keeps (node.activate metadata) :=
  keeps_updateWhere rfl rfl fun _ => rfl

theorem Node.keeps_commit (node : Node) (revision : Revision) : node.Keeps (node.commit revision) :=
  keeps_updateWhere rfl rfl fun _ => rfl

theorem Node.keeps_switch (node : Node) (slot : String) (revision : Revision) :
    node.Keeps (node.switch slot revision) :=
  ⟨rfl, fun d hd => ⟨d, hd, rfl⟩, fun h => h⟩

theorem exists_revision_upsertBy (new : Deployment) {rows : List Deployment} {d : Deployment}
    (hd : d ∈ rows) : ∃ d' ∈ upsertBy (·.revision) new rows, d'.revision = d.revision := by
  by_cases hkey : d.revision = new.revision
  · exact ⟨new, mem_upsertBy_self _ _ _, hkey.symm⟩
  · exact ⟨d, (mem_upsertBy_of_ne hkey rows).2 hd, rfl⟩

theorem exists_revision_foldl (new : List Deployment) {rows : List Deployment}
    {d : Deployment} (hd : d ∈ rows) :
    ∃ d' ∈ new.foldl (fun rows d => upsertBy (·.revision) d rows) rows,
      d'.revision = d.revision := by
  induction new generalizing rows d with
  | nil => exact ⟨d, hd, rfl⟩
  | cons head new ih =>
    obtain ⟨mid, hmid, hrevision⟩ := exists_revision_upsertBy head hd
    obtain ⟨d', hd', hrevision'⟩ := ih hmid
    exact ⟨d', hd', hrevision'.trans hrevision⟩

theorem Node.keeps_plan (node : Node) {plan : Plan}
    (hplan : ∀ d ∈ plan.deployments, 0 < d.revision) : node.Keeps (node.plan plan) := by
  refine ⟨rfl, fun d hd => exists_revision_foldl plan.deployments hd, ?_⟩
  intro hpositive d hd
  rcases mem_foldl_upsertBy hd with hnew | hold
  · exact hplan d hnew
  · exact hpositive d hold

theorem EngineRow.Placed.mono {engine : EngineRow} (h : engine.Placed c)
    (hnodes : ∀ nodeId node, c.node? nodeId = some node →
      ∃ node', c'.node? nodeId = some node' ∧ node.Keeps node') : engine.Placed c' := by
  obtain ⟨metadata, hmetadata, node, hnode, d, hd, hrevision⟩ := h
  obtain ⟨node', hnode', hkeeps⟩ := hnodes _ node hnode
  obtain ⟨d', hd', hrevision'⟩ := hkeeps.revisions d hd
  exact ⟨metadata, hmetadata, node', hnode', d', hd', hrevision'.trans hrevision⟩

theorem node?_keeps {f : Node → Node} (hkeep : ∀ node : Node, node.Keeps (f node))
    (hnodes : c'.nodes = updateWhere (fun node => node.nodeId = nodeId) f c.nodes)
    (other : String) (node : Node) (hnode : c.node? other = some node) :
    ∃ node', c'.node? other = some node' ∧ node.Keeps node' := by
  rw [node?_updateWhere hnodes (fun node => (hkeep node).nodeId), hnode]
  refine ⟨if node.nodeId = nodeId then f node else node, rfl, ?_⟩
  split
  · exact hkeep node
  · exact .refl node

/-- A rule stays backed when its engine and owner row stay, on a node that still admits the
revision. -/
theorem RoutingRule.Backed.mono (h : rule.Backed c)
    (hplaced : ∀ engine ∈ c.engines, engine.Placed c)
    (hengines : ∀ e ∈ c.engines, e.engineId = rule.engineId → e.draining = false →
      ∃ e' ∈ c'.engines, e'.registration = e.registration ∧ e'.draining = false)
    (howns : ∀ nodeId slot, c.owns rule.engineId nodeId slot = true →
      c'.owns rule.engineId nodeId slot = true)
    (hadmits : ∀ e ∈ c.engines, e.engineId = rule.engineId → ∀ metadata,
      e.deployment = some metadata → ∀ node, c.node? metadata.nodeId = some node →
      node.admits metadata.engineSlot metadata.revision = true →
      ∃ node', c'.node? metadata.nodeId = some node' ∧
        node'.admits metadata.engineSlot metadata.revision = true) : rule.Backed c' := by
  obtain ⟨engine, hengine, hid, hdraining, hauthoritative⟩ := h
  obtain ⟨metadata, hmetadata, _⟩ := hplaced engine hengine
  obtain ⟨howned, node, hnode, hadmit⟩ := (authoritative_iff hmetadata).1 hauthoritative
  obtain ⟨engine', hengine', hregistration, hdraining'⟩ := hengines engine hengine hid hdraining
  have hid' : engine'.engineId = engine.engineId := congrArg (·.engineId) hregistration
  have hmetadata' : engine'.deployment = some metadata :=
    (congrArg (·.deployment) hregistration).trans hmetadata
  refine ⟨engine', hengine', hid'.trans hid, hdraining', (authoritative_iff hmetadata').2 ?_⟩
  rw [hid', hid]
  rw [hid] at howned
  exact ⟨howns _ _ howned, hadmits engine hengine hid metadata hmetadata node hnode hadmit⟩

theorem mem_takeDown {rules : List RoutingRule}
    (hrule : rule ∈ updateWhere p down rules) (hhealthy : rule.healthy = true) :
    rule ∈ rules ∧ p rule = false := by
  rcases updated hrule with ⟨old, -, -, rfl⟩ | ⟨hold, hp⟩
  · cases hhealthy
  · exact ⟨hold, by simpa using hp⟩

theorem serves_eq_false (h : serves engineId rule = false)
    (hhealthy : rule.healthy = true) : rule.engineId ≠ engineId := by
  intro hid
  simp [serves, hid, hhealthy] at h

/-- The commit moves the current revision away from an engine that serves a slot
without authority. -/
def Cluster.strandsFallback (c : Cluster) (nodeId : String) (revision : Revision) : Bool :=
  (c.node? nodeId).any fun node => decide (node.targetRevision = some revision) &&
    c.engines.any fun e => c.rules.any (serves e.engineId) &&
      e.deployment.any fun m => decide (m.nodeId = nodeId) &&
        !node.hasAuthority m.engineSlot && decide (m.revision ≠ revision)

/-- A replay names another engine than the recorded one, whose rules are up: the slot passes on and
nothing is withdrawn. -/
def Cluster.replaysForOther (contract : Contract) (c : Cluster) (reg : EngineRegistration)
    (activationId : Uuid) : Bool :=
  c.replays contract reg activationId &&
    (c.recordedEngine? reg).any fun engineId =>
      decide (engineId ≠ reg.engineId) && c.rules.any (serves engineId)

/-- No administrator rule, no replay for another engine, and no commit that strands
an engine. -/
def Orderly (contract : Contract) (c : Cluster) (input : Input) : Prop :=
  match input.call with
  | .registerEngine reg activationId => c.replaysForOther contract reg activationId = false
  | .commitOperation nodeId revision => c.strandsFallback nodeId revision = false
  | .upsertRoutingRule _ => False
  | _ => True

instance (contract : Contract) (c : Cluster) (input : Input) :
    Decidable (Orderly contract c input) := by
  unfold Orderly
  split <;> infer_instance

section Steps

variable {contract : Contract} {now : Time}
variable {f : RoutingRule → RoutingRule} {fence : Fence} {g : EngineRow → EngineRow}
  {engineTimeout moduleTimeout : Time} {backed : RoutingRule → Bool} {reg : EngineRegistration}
  {node : Node} {deployment : Deployment}

theorem placed_updateWhere {p : EngineRow → Bool} {f : EngineRow → EngineRow}
    (hkeep : ∀ e, (f e).registration = e.registration) (h : Sound c)
    (hengines : c'.engines = updateWhere p f c.engines)
    (hnodes : c'.nodes = c.nodes) : ∀ engine ∈ c'.engines, engine.Placed c' := by
  intro engine hengine
  rw [hengines] at hengine
  obtain ⟨old, hold, rfl⟩ := mem_updateWhere.1 hengine
  obtain ⟨metadata, hmetadata, node, hnode, hrevision⟩ := h.placed old hold
  refine ⟨metadata, ?_, node, ?_, hrevision⟩
  · split
    · exact (congrArg (·.deployment) (hkeep old)).trans hmetadata
    · exact hmetadata
  · unfold Cluster.node?
    rw [hnodes]
    exact hnode

theorem defaults_updateWhere {rules : List RoutingRule} {r : RoutingRule}
    (hr : r ∈ updateWhere p f rules) (h : ∀ r ∈ rules, r.isDefault = true)
    (hkeep : ∀ r, (f r).isDefault = r.isDefault) : r.isDefault = true :=
  forall_updateWhere h (fun r hr _ => (hkeep r).trans (h r hr)) r hr

theorem node?_eq (hnodes : c'.nodes = c.nodes) (nodeId : String) :
    c'.node? nodeId = c.node? nodeId := by
  unfold Cluster.node?
  rw [hnodes]

theorem owns_eq (howners : c'.owners = c.owners) (engineId nodeId slot : String) :
    c'.owns engineId nodeId slot = c.owns engineId nodeId slot := by
  unfold Cluster.owns
  rw [howners]

theorem authoritative_eq (howners : c'.owners = c.owners) (hnodes : c'.nodes = c.nodes)
    (engine : EngineRow) : c'.authoritative engine = c.authoritative engine := by
  unfold Cluster.authoritative
  simp only [owns_eq howners, node?_eq hnodes]

/-- Deregistration: the fence names the recorded engine, whose rules go down. -/
theorem Sound.deregister (h : Sound c)
    (hcommits : Commits contract c now (.deregisterEngine engineId fence) c') : Sound c' := by
  have .deregisterEngine hfence _ hrules hengines howners hnodes := hcommits
  refine ⟨?_, ?_, ?_, ?_, ?_, ?_, ?_⟩
  · rw [hrules]
    exact nodup_updateWhere h.ruleIds fun _ => rfl
  · rw [hengines]
    exact h.engineIds.sublist (List.filter_sublist.map _)
  · rw [howners]
    exact nodup_updateWhere h.ownerKeys fun _ => rfl
  · rw [hnodes]
    exact h.positive
  · intro engine hengine
    rw [hengines] at hengine
    refine (h.placed engine (List.mem_filter.1 hengine).1).mono fun nodeId node hnode => ?_
    exact ⟨node, (node?_eq hnodes nodeId).trans hnode, .refl node⟩
  · intro rule hrule
    rw [hrules] at hrule
    exact defaults_updateWhere hrule h.defaults fun _ => rfl
  · intro rule hrule hhealthy
    rw [hrules] at hrule
    obtain ⟨hold, hserves⟩ := mem_takeDown hrule hhealthy
    have hother := serves_eq_false hserves hhealthy
    refine (h.backed rule hold hhealthy).mono h.placed ?_ ?_ ?_
    · intro e he hid hdraining
      refine ⟨e, ?_, rfl, hdraining⟩
      rw [hengines]
      simpa [he, hid] using hother
    · intro nodeId slot howns
      obtain ⟨row, hrow, hnode, hslot, hengine, hroute⟩ := owns_iff.1 howns
      obtain ⟨recorded, hrecorded, hmatches⟩ := hfence
      obtain ⟨hrnode, hrslot, _, hrengine, _⟩ := matchesOwner_eq_true hmatches
      refine owns_iff.2 ⟨row, ?_, hnode, hslot, hengine, hroute⟩
      rw [howners]
      refine mem_updateWhere.2 ⟨row, hrow, ?_⟩
      split
      next hsame =>
        -- The row of the fence records the deregistered engine, not this one.
        simp only [decide_eq_true_eq] at hsame
        have hkey : row.key = recorded.key := by
          simp only [SlotOwner.key, hsame, hrnode, hrslot]
        obtain rfl := eq_of_nodup_key h.ownerKeys hrow hrecorded hkey
        rw [hengine] at hrengine
        exact absurd (Option.some.inj hrengine) hother
      next => rfl
    · intro e _ _ metadata _ node hnode hadmit
      exact ⟨node, (node?_eq hnodes _).trans hnode, hadmit⟩

/-- Writes on rows and rules of one engine, after which its rules are down or it may serve. -/
theorem Sound.update (h : Sound c) (hrules : c'.rules = updateWhere p f c.rules)
    (hengines : c'.engines = updateWhere (fun e => e.engineId = engineId) g c.engines)
    (howners : c'.owners = c.owners) (hnodes : c'.nodes = c.nodes)
    (hruleId : ∀ r, (f r).ruleId = r.ruleId) (hruleEngine : ∀ r, (f r).engineId = r.engineId)
    (hregistration : ∀ e, (g e).registration = e.registration)
    (hown : ∀ rule ∈ c'.rules, rule.healthy = true → rule.engineId = engineId → rule.Backed c')
    (hother : ∀ rule ∈ c'.rules, rule.healthy = true → rule.engineId ≠ engineId → rule ∈ c.rules) :
    Sound c' := by
  refine ⟨?_, ?_, ?_, ?_, ?_, ?_, ?_⟩
  · rw [hrules]
    exact nodup_updateWhere h.ruleIds hruleId
  · rw [hengines]
    exact nodup_updateWhere h.engineIds fun e => congrArg (·.engineId) (hregistration e)
  · rw [howners]
    exact h.ownerKeys
  · rw [hnodes]
    exact h.positive
  · exact placed_updateWhere hregistration h hengines hnodes
  · intro rule hrule
    rw [hrules] at hrule
    apply defaults_updateWhere hrule h.defaults
    intro r
    simp only [RoutingRule.isDefault, hruleId, hruleEngine]
  · intro rule hrule hhealthy
    by_cases hid : rule.engineId = engineId
    · exact hown rule hrule hhealthy hid
    refine (h.backed rule (hother rule hrule hhealthy hid) hhealthy).mono h.placed ?_ ?_ ?_
    · intro e he heid hdraining
      refine ⟨e, ?_, rfl, hdraining⟩
      rw [hengines]
      refine mem_updateWhere.2 ⟨e, he, ?_⟩
      rw [if_neg]
      simpa [heid] using hid
    · intro nodeId slot howns
      rw [owns_eq howners]
      exact howns
    · intro e _ _ metadata _ node hnode hadmit
      exact ⟨node, (node?_eq hnodes _).trans hnode, hadmit⟩

theorem Sound.publishReady (h : Sound c) {modules : List ModuleIdentity}
    {engine : EngineRow} (hengine : c.engine? engineId = some engine)
    (hdraining : engine.draining = false) (hauthoritative : c.authoritative engine = true)
    (hrules : c'.rules = updateWhere (RoutingRule.recovers engineId modules) RoutingRule.up c.rules)
    (hengines : c'.engines = updateWhere (fun e => e.engineId = engineId)
      (fun e => { e with lastHeartbeat := now }) c.engines)
    (howners : c'.owners = c.owners) (hnodes : c'.nodes = c.nodes) : Sound c' := by
  refine h.update hrules hengines howners hnodes (fun _ => rfl) (fun _ => rfl) (fun _ => rfl)
    ?_ ?_
  · intro rule _ _ hid
    obtain ⟨hmem, hfound⟩ := found hengine
    refine ⟨{ engine with lastHeartbeat := now }, ?_, hfound.trans hid.symm, hdraining, ?_⟩
    · rw [hengines]
      refine mem_updateWhere.2 ⟨engine, hmem, ?_⟩
      rw [if_pos (by simpa using hfound)]
    · rw [authoritative_eq howners hnodes]
      exact hauthoritative
  · intro rule hrule _ hid
    rw [hrules] at hrule
    rcases updated hrule with ⟨old, -, hrecovers, rfl⟩ | ⟨hold, -⟩
    · simp only [RoutingRule.recovers, Bool.and_eq_true, decide_eq_true_eq] at hrecovers
      exact absurd hrecovers.1.1 hid
    · exact hold

theorem Sound.takeDown (h : Sound c)
    (hrules : c'.rules = updateWhere (serves engineId) down c.rules)
    (hengines : c'.engines = updateWhere (fun e => e.engineId = engineId) g c.engines)
    (hregistration : ∀ e, (g e).registration = e.registration) (howners : c'.owners = c.owners)
    (hnodes : c'.nodes = c.nodes) : Sound c' := by
  refine h.update hrules hengines howners hnodes (fun _ => rfl) (fun _ => rfl) hregistration
    ?_ ?_
  · intro rule hrule hhealthy hid
    rw [hrules] at hrule
    have hserves := (mem_takeDown hrule hhealthy).2
    exact absurd hid (serves_eq_false hserves hhealthy)
  · intro rule hrule hhealthy _
    rw [hrules] at hrule
    exact (mem_takeDown hrule hhealthy).1

section

variable (hbacked : backed = c.backed now engineTimeout moduleTimeout)
include hbacked

/-- A health update leaves up only backed rules: of an engine with authority that is not
draining. -/
theorem backed_of_updateRouteHealth
    (hrules : c'.rules = updateWhere (returns backed) RoutingRule.up
      (updateWhere (stale backed) down c.rules)) (hrule : rule ∈ c'.rules)
    (hhealthy : rule.healthy = true) :
    ∃ engine ∈ c.engines, engine.engineId = rule.engineId ∧ engine.draining = false ∧
      c.authoritative engine = true := by
  have hfound : backed rule = true := by
    have hup : ∀ r : RoutingRule, backed r.up = backed r := by
      intro r
      rw [hbacked]
      rfl
    rw [hrules] at hrule
    rcases updated hrule with ⟨mid, -, hreturns, rfl⟩ | ⟨hmid, -⟩
    · simp only [returns, Bool.and_eq_true] at hreturns
      rw [hup mid]
      exact hreturns.2
    · obtain ⟨_, hstale⟩ := mem_takeDown hmid hhealthy
      simpa [stale, hhealthy] using hstale
  rw [hbacked] at hfound
  obtain ⟨engine, hengine, hvalue⟩ := List.any_eq_true.1 hfound
  simp only [decide_eq_true_eq] at hvalue
  obtain ⟨hid, hdraining, hauthoritative, _⟩ := hvalue
  exact ⟨engine, hengine, hid, hdraining, hauthoritative⟩

theorem Sound.updateRouteHealth (h : Sound c)
    (hrules : c'.rules = updateWhere (returns backed) RoutingRule.up
      (updateWhere (stale backed) down c.rules))
    (hengines : c'.engines = c.engines) (howners : c'.owners = c.owners)
    (hnodes : c'.nodes = c.nodes) : Sound c' := by
  refine ⟨?_, ?_, ?_, ?_, ?_, ?_, ?_⟩
  · rw [hrules]
    exact nodup_updateWhere (nodup_updateWhere h.ruleIds fun _ => rfl) fun _ => rfl
  · rw [hengines]
    exact h.engineIds
  · rw [howners]
    exact h.ownerKeys
  · rw [hnodes]
    exact h.positive
  · intro engine hengine
    rw [hengines] at hengine
    refine (h.placed engine hengine).mono fun nodeId node hnode => ?_
    exact ⟨node, (node?_eq hnodes nodeId).trans hnode, .refl node⟩
  · intro rule hrule
    rw [hrules] at hrule
    apply defaults_updateWhere hrule
    · intro r hr
      exact defaults_updateWhere hr h.defaults fun _ => rfl
    · exact fun _ => rfl
  · intro rule hrule hhealthy
    obtain ⟨engine, hengine, hid, hdraining, hauthoritative⟩ :=
      backed_of_updateRouteHealth hbacked hrules hrule hhealthy
    refine ⟨engine, hengines ▸ hengine, hid, hdraining, ?_⟩
    rw [authoritative_eq howners hnodes]
    exact hauthoritative

end

theorem withdrawOwner_rules (c : Cluster) (owner : SlotOwner) :
    ∃ p, (c.withdrawOwner owner).rules = updateWhere p down c.rules ∧
      ∀ engineId, owner.engineId = some engineId → p = serves engineId := by
  unfold Cluster.withdrawOwner
  cases owner.engineId with
  | none =>
    refine ⟨fun _ => false, ?_, by simp⟩
    exact (updateWhere_of_any_eq_false (by simp)).symm
  | some engineId =>
    refine ⟨serves engineId, rfl, ?_⟩
    rintro _ ⟨⟩
    rfl

theorem registration_base (c : Cluster) (owner : SlotOwner) (replay : Prop) [Decidable replay] :
    ∃ p, (if replay then c else c.withdrawOwner owner).rules =
        updateWhere p down c.rules ∧
      (¬replay → ∀ engineId, owner.engineId = some engineId → p = serves engineId) := by
  split
  next hreplay =>
    refine ⟨fun _ => false, ?_, fun hnot => absurd hreplay hnot⟩
    exact (updateWhere_of_any_eq_false (by simp)).symm
  next =>
    obtain ⟨p, hrules, hp⟩ := withdrawOwner_rules c owner
    exact ⟨p, hrules, fun _ => hp⟩

theorem Registered.rule_up {activationId : Uuid} {op : Operation} {owner : SlotOwner}
    {generation : Nat} (h : Sound c)
    (hregistered : Registered contract c now reg activationId c' fence metadata node deployment
      op owner generation) (hrule : rule ∈ c'.rules) (hhealthy : rule.healthy = true) :
    rule ∈ c.rules ∧ rule.engineId ≠ reg.engineId ∧
      (owner.owner ≠ some (ownershipOf metadata deployment op activationId) →
        owner.engineId ≠ some rule.engineId) := by
  obtain ⟨p, hbase, hp⟩ := registration_base c owner
    (owner.owner = some (ownershipOf metadata deployment op activationId))
  rw [hregistered.rules, hbase, List.mem_filter] at hrule
  obtain ⟨hpublished, hkept⟩ := hrule
  have hnotDefault : rule ∉ reg.defaultRules := by
    intro hmem
    obtain ⟨_, _, rfl⟩ := List.mem_map.1 hmem
    cases hhealthy
  have hmem := (mem_foldl_upsertBy hpublished).resolve_left hnotDefault
  have hold : rule ∈ c.rules ∧
      (owner.owner ≠ some (ownershipOf metadata deployment op activationId) →
        owner.engineId ≠ some rule.engineId) := by
    obtain ⟨hold, hserves⟩ := mem_takeDown hmem hhealthy
    refine ⟨hold, fun hnew hengine => ?_⟩
    rw [hp hnew _ hengine] at hserves
    exact serves_eq_false hserves hhealthy rfl
  refine ⟨hold.1, ?_, hold.2⟩
  -- A rule of the engine itself is either dropped or one of the new ones.
  intro hid
  have hprefix := h.defaults rule hold.1
  have hlisted : rule.ruleId ∈ reg.defaultRules.map (·.ruleId) := by
    by_contra hnot
    simp only [RoutingRule.isDefault, hid] at hprefix
    simp [EngineRegistration.dropsRule, hid, hprefix, hnot] at hkept
  have hids : ((updateWhere p down c.rules).map RoutingRule.ruleId).Nodup :=
    nodup_updateWhere h.ruleIds fun _ => rfl
  exact hnotDefault (mem_of_mem_foldl_upsertBy hids hpublished hlisted)

theorem Sound.register {activationId : Uuid} {op : Operation} {owner : SlotOwner} {generation : Nat}
    (h : Sound c)
    (hregistered : Registered contract c now reg activationId c' fence metadata node deployment
      op owner generation) (horderly : c.replaysForOther contract reg activationId = false) :
    Sound c' := by
  have hkeeps := node?_keeps (fun n => n.keeps_activate metadata) hregistered.nodes
  obtain ⟨p, hbase, _⟩ := registration_base c owner
    (owner.owner = some (ownershipOf metadata deployment op activationId))
  refine ⟨?_, ?_, ?_, ?_, ?_, ?_, ?_⟩
  · rw [hregistered.rules, hbase]
    apply List.Nodup.sublist (List.filter_sublist.map _)
    exact nodup_foldl_upsertBy _ (nodup_updateWhere h.ruleIds fun _ => rfl)
  · rw [hregistered.engines]
    exact nodup_upsertBy _ h.engineIds
  · rw [hregistered.owners]
    exact nodup_updateWhere h.ownerKeys fun _ => rfl
  · rw [hregistered.nodes]
    exact forall_updateWhere h.positive fun n hn _ =>
      (n.keeps_activate metadata).positive (h.positive n hn)
  · intro engine hengine
    rw [hregistered.engines] at hengine
    rcases mem_upsertBy hengine with rfl | hold
    · obtain ⟨hmem, hrevision, _⟩ := desiredState_eq_ok hregistered.desired
      obtain ⟨node', hnode', hkeep⟩ := hkeeps _ node hregistered.node_eq
      obtain ⟨d', hd', hrevision'⟩ := hkeep.revisions deployment hmem
      exact ⟨metadata, hregistered.metadata_eq, node', hnode', d', hd', hrevision'.trans hrevision⟩
    · exact (h.placed engine hold).mono hkeeps
  · intro rule hrule
    rw [hregistered.rules, hbase] at hrule
    rcases mem_foldl_upsertBy (List.mem_filter.1 hrule).1 with hnew | hold
    · obtain ⟨identity, _, rfl⟩ := List.mem_map.1 hnew
      simp [RoutingRule.isDefault, defaultRuleId, String.toList_append, List.append_assoc]
    · exact defaults_updateWhere hold h.defaults fun _ => rfl
  · intro rule hrule hhealthy
    obtain ⟨hold, hother, hwithdrawn⟩ := hregistered.rule_up h hrule hhealthy
    refine (h.backed rule hold hhealthy).mono h.placed ?_ ?_ ?_
    · intro e he hid hdraining
      refine ⟨e, ?_, rfl, hdraining⟩
      rw [hregistered.engines]
      refine (mem_upsertBy_of_ne ?_ c.engines).2 he
      rw [hid]
      exact hother
    · intro nodeId slot howns
      obtain ⟨row, hrow, hnode, hslot, hengine, hroute⟩ := owns_iff.1 howns
      refine owns_iff.2 ⟨row, ?_, hnode, hslot, hengine, hroute⟩
      rw [hregistered.owners]
      refine mem_updateWhere.2 ⟨row, hrow, ?_⟩
      split
      next hsame =>
        -- The slot has passed to the registered engine; this one was withdrawn.
        exfalso
        obtain ⟨hmem, howner⟩ := found hregistered.owner_eq
        have hkey : row.key = owner.key := by
          simp only [SlotOwner.key, of_decide_eq_true hsame, howner]
        obtain rfl := eq_of_nodup_key h.ownerKeys hrow hmem hkey
        by_cases hreplay : row.owner = some (ownershipOf metadata deployment op activationId)
        · have hup : c.rules.any (serves rule.engineId) = true := by
            rw [List.any_eq_true]
            exact ⟨rule, hold, by simp [serves, hhealthy]⟩
          simp [Cluster.replaysForOther, hregistered.replays_eq, hreplay,
            hregistered.recordedEngine_eq, hengine, hother, hup] at horderly
        · exact hwithdrawn hreplay hengine
      next => rfl
    · intro e _ _ m _ n hn hadmit
      rw [node?_updateWhere hregistered.nodes (fun _ => rfl), hn]
      refine ⟨if n.nodeId = metadata.nodeId then n.activate metadata else n, rfl, ?_⟩
      split
      · exact hadmit
      · exact hadmit

/-- A transaction that puts no rule up and keeps the engine rows and the owners:
the nodes must go on admitting the engines whose rules are up. -/
theorem Sound.keepEngines (h : Sound c) (hengines : c'.engines = c.engines)
    (hruleIds : (c'.rules.map RoutingRule.ruleId).Nodup)
    (hdefaults : ∀ rule ∈ c'.rules, rule.isDefault = true)
    (hup : ∀ rule ∈ c'.rules, rule.healthy = true → rule ∈ c.rules)
    (hownerKeys : (c'.owners.map SlotOwner.key).Nodup) (howners : ∀ row ∈ c.owners, row ∈ c'.owners)
    (hpositive : ∀ node ∈ c'.nodes, ∀ d ∈ node.deployments, 0 < d.revision)
    (hkeeps : ∀ nodeId node, c.node? nodeId = some node →
      ∃ node', c'.node? nodeId = some node' ∧ node.Keeps node')
    (hadmits : ∀ rule ∈ c'.rules, rule.healthy = true → ∀ e ∈ c.engines,
      e.engineId = rule.engineId → ∀ metadata, e.deployment = some metadata → ∀ node,
      c.node? metadata.nodeId = some node →
      node.admits metadata.engineSlot metadata.revision = true →
      ∃ node', c'.node? metadata.nodeId = some node' ∧
        node'.admits metadata.engineSlot metadata.revision = true) : Sound c' := by
  refine ⟨hruleIds, ?_, hownerKeys, hpositive, ?_, hdefaults, ?_⟩
  · rw [hengines]
    exact h.engineIds
  · intro engine hengine
    rw [hengines] at hengine
    exact (h.placed engine hengine).mono hkeeps
  · intro rule hrule hhealthy
    apply (h.backed rule (hup rule hrule hhealthy) hhealthy).mono h.placed
    · intro e he _ hdraining
      exact ⟨e, hengines ▸ he, rfl, hdraining⟩
    · intro nodeId slot howns
      obtain ⟨row, hrow, hrest⟩ := owns_iff.1 howns
      exact owns_iff.2 ⟨row, howners row hrow, hrest⟩
    · exact hadmits rule hrule hhealthy

theorem mem_switch_of_ne {a : SlotAuthority} (hne : a.engineSlot ≠ slot) :
    a ∈ (node.switch slot revision).authorities ↔ a ∈ node.authorities := by
  have hwithdrawn : a ∈ updateWhere (fun a => a.engineSlot = slot ∧ a.authoritative = true)
      (fun a => { a with authoritative := false }) node.authorities ↔
      a ∈ node.authorities := by
    constructor
    · intro ha
      rcases updated ha with ⟨old, -, hslot, rfl⟩ | ⟨hold, -⟩
      · exact absurd (of_decide_eq_true hslot).1 hne
      · exact hold
    · exact fun ha => mem_updateWhere.2 ⟨a, ha, by simp [hne]⟩
  simp only [Node.switch]
  split
  · rw [mem_upsertBy_of_ne, hwithdrawn]
    intro hkey
    exact hne (Prod.mk.inj hkey).1
  · exact hwithdrawn

theorem admits_switch_of_ne {other : String} {r : Revision} (hne : other ≠ slot) :
    (node.switch slot revision).admits other r = node.admits other r := by
  have hrows : ∀ p : SlotAuthority → Bool, (∀ a, p a = true → a.engineSlot = other) →
      (node.switch slot revision).authorities.any p = node.authorities.any p := by
    intro p hp
    rw [Bool.eq_iff_iff, List.any_eq_true, List.any_eq_true]
    constructor
    · rintro ⟨a, ha, hpa⟩
      exact ⟨a, (mem_switch_of_ne (hp a hpa ▸ hne)).1 ha, hpa⟩
    · rintro ⟨a, ha, hpa⟩
      exact ⟨a, (mem_switch_of_ne (hp a hpa ▸ hne)).2 ha, hpa⟩
  simp only [Node.admits, Node.hasAuthority]
  rw [hrows _ (by simp_all), hrows _ (by simp_all)]
  rfl

theorem admits_switch_self (hpositive : 0 < revision)
    (hknown : ∃ d ∈ node.deployments, d.revision = revision) :
    (node.switch slot revision).admits slot revision = true := by
  have hany : (node.deployments.any fun d => d.revision = revision) = true := by
    simpa using hknown
  simp only [Node.admits, Node.switch, hany, hpositive, and_self, if_true, Bool.or_eq_true]
  left
  rw [List.any_eq_true]
  exact ⟨_, mem_upsertBy_self _ _ _, by simp⟩

theorem Sound.switchAuthority (h : Sound c)
    (hcommits : Commits contract c now (.switchAuthority nodeId slot revision) c') :
    Sound c' := by
  have .switchAuthority _ hrules hnodes hengines howners := hcommits
  have hkeep : ∀ node : Node, node.Keeps (node.switch slot revision) :=
    fun node => node.keeps_switch slot revision
  apply h.keepEngines hengines
  · rw [hrules]
    exact nodup_updateWhere h.ruleIds fun _ => rfl
  · intro rule hrule
    rw [hrules] at hrule
    exact defaults_updateWhere hrule h.defaults fun _ => rfl
  · intro rule hrule hhealthy
    rw [hrules] at hrule
    exact (mem_takeDown hrule hhealthy).1
  · rw [howners]
    exact h.ownerKeys
  · rw [howners]
    exact fun _ hrow => hrow
  · rw [hnodes]
    exact forall_updateWhere h.positive fun n hn _ => (hkeep n).positive (h.positive n hn)
  · exact node?_keeps hkeep hnodes
  · intro rule hrule hhealthy e he hid metadata hmetadata node hnode hadmit
    rw [node?_updateWhere hnodes (fun node => (hkeep node).nodeId), hnode]
    refine ⟨if node.nodeId = nodeId then node.switch slot revision else node, rfl, ?_⟩
    split
    case isFalse => exact hadmit
    next hsame =>
    by_cases hslot : metadata.engineSlot = slot
    case neg =>
      rw [admits_switch_of_ne hslot]
      exact hadmit
    -- The rule is up, so its engine has the revision that the slot is switched to.
    rw [hrules] at hrule
    have hnot := (mem_takeDown hrule hhealthy).2
    have hrevision : metadata.revision = revision := by
      by_contra hne
      simp only [Cluster.superseded, hhealthy, Bool.true_and] at hnot
      have hengine := List.any_eq_false.1 hnot e he
      have hid' : metadata.nodeId = nodeId := (Cluster.node?_id hnode).symm.trans hsame
      simp [hid, hmetadata, hid', hslot, hne] at hengine
    obtain ⟨m, hm, placed, hplaced, d, hd, hdrevision⟩ := h.placed e he
    obtain rfl : metadata = m := Option.mem_unique hmetadata hm
    obtain rfl : node = placed := Option.mem_unique hnode hplaced
    have hpositive := h.positive node (List.mem_of_find?_eq_some hnode) d hd
    rw [hslot, hrevision]
    rw [hdrevision, hrevision] at hpositive
    exact admits_switch_self hpositive ⟨d, hd, hdrevision.trans hrevision⟩

theorem Sound.commit (h : Sound c) (horderly : c.strandsFallback nodeId revision = false) :
    Sound (commitOperation c nodeId revision) := by
  have hkeep : ∀ node : Node, node.Keeps (node.commit revision) :=
    fun node => node.keeps_commit revision
  have hnodes : (commitOperation c nodeId revision).nodes =
    updateWhere (fun node => node.nodeId = nodeId) (·.commit revision) c.nodes := rfl
  have hengines : (commitOperation c nodeId revision).engines = c.engines := rfl
  apply h.keepEngines hengines h.ruleIds h.defaults (fun _ hrule _ => hrule) h.ownerKeys
    (fun _ hrow => hrow)
  · exact forall_updateWhere h.positive fun n hn _ => (hkeep n).positive (h.positive n hn)
  · exact node?_keeps hkeep hnodes
  · intro rule hrule hhealthy e he hid metadata hmetadata node hnode hadmit
    rw [node?_updateWhere hnodes (fun node => (hkeep node).nodeId), hnode]
    refine ⟨if node.nodeId = nodeId then node.commit revision else node, rfl, ?_⟩
    split
    case isFalse => exact hadmit
    next hsame =>
    rw [Node.admits, Bool.or_eq_true, Bool.and_eq_true, decide_eq_true_eq] at hadmit ⊢
    rcases hadmit with hrow | ⟨hcurrent, hnone⟩
    · exact .inl hrow
    refine .inr ⟨?_, hnone⟩
    simp only [Node.commit]
    split
    case isFalse => exact hcurrent
    next htarget =>
    -- The slot has no authority and its engine serves, so it has this revision.
    by_contra hne
    have hid' : metadata.nodeId = nodeId := (Cluster.node?_id hnode).symm.trans hsame
    rw [hid'] at hnode
    have hserves : c.rules.any (serves e.engineId) = true := by
      rw [List.any_eq_true]
      exact ⟨rule, hrule, by simp [serves, hid, hhealthy]⟩
    simp only [Cluster.strandsFallback, hnode, Option.any_some, htarget, decide_true,
      Bool.true_and] at horderly
    have hengine := List.any_eq_false.1 horderly e he
    simp [hserves, hmetadata, hid', hne, hnone] at hengine

theorem node?_append {new : Node} (hnode : c.node? nodeId = some node) :
    { c with nodes := c.nodes ++ [new] }.node? nodeId = some node := by
  unfold Cluster.node? at hnode ⊢
  rw [List.find?_append, hnode]
  rfl

theorem Sound.plan (h : Sound c) {plan : Plan} {nodes : List Node} {fresh : List SlotOwner}
    (hpositive : ∀ d ∈ plan.deployments, 0 < d.revision)
    (hnodes : nodes = c.nodes ∨ c.node? plan.nodeId = none ∧
      nodes = c.nodes ++ [Node.fresh plan.nodeId]) (hnodup : (c.owners.map SlotOwner.key).Nodup →
      ((c.owners ++ fresh).map SlotOwner.key).Nodup)
    (hafter : c' = { c with
      nodes := updateWhere (fun node => node.nodeId = plan.nodeId) (·.plan plan) nodes
      owners := c.owners ++ fresh }) : Sound c' := by
  have hkeep : ∀ node : Node, node.Keeps (node.plan plan) :=
    fun node => node.keeps_plan hpositive
  have hfound : ∀ nodeId node, c.node? nodeId = some node →
      c'.node? nodeId = some (if node.nodeId = plan.nodeId then node.plan plan else node) := by
    intro nodeId node hnode
    have hmid : { c with nodes := nodes }.node? nodeId = some node := by
      rcases hnodes with rfl | ⟨_, rfl⟩
      · exact hnode
      · exact node?_append hnode
    rw [node?_updateWhere (c := { c with nodes := nodes }) (by rw [hafter])
      (fun node => (hkeep node).nodeId), hmid]
    rfl
  have hpresent : ∀ node ∈ nodes, ∀ d ∈ node.deployments, 0 < d.revision := by
    intro node hnode d hd
    rcases hnodes with rfl | ⟨_, rfl⟩
    · exact h.positive node hnode d hd
    · rcases mem_snoc.1 hnode with hold | rfl
      · exact h.positive node hold d hd
      · cases hd
  have hrules : c'.rules = c.rules := by rw [hafter]
  have howners : c'.owners = c.owners ++ fresh := by rw [hafter]
  apply h.keepEngines (by rw [hafter])
  · rw [hrules]
    exact h.ruleIds
  · rw [hrules]
    exact h.defaults
  · rw [hrules]
    exact fun _ hrule _ => hrule
  · rw [howners]
    exact hnodup h.ownerKeys
  · rw [howners]
    exact fun _ hrow => List.mem_append_left _ hrow
  · rw [hafter]
    exact forall_updateWhere hpresent fun n hn _ => (hkeep n).positive (hpresent n hn)
  · intro nodeId node hnode
    refine ⟨_, hfound nodeId node hnode, ?_⟩
    split
    · exact hkeep node
    · exact .refl node
  · intro rule _ _ e _ _ metadata _ node hnode hadmit
    refine ⟨_, hfound _ node hnode, ?_⟩
    split
    · exact hadmit
    · exact hadmit

theorem next_sound (h : Sound c) {input : Input} (horderly : Orderly contract c input) :
    Sound (next contract c input) := by
  obtain ⟨now, call⟩ := input
  refine next_elim h fun c' hcommits => ?_
  have hcall := hcommits
  cases hcommits with
  | registerEngine hreg => exact h.register hreg horderly
  | deregisterEngine => exact h.deregister hcall
  | publishReady _ hengine hdraining hauthoritative _ hrules hengines howners hnodes =>
    exact h.publishReady hengine hdraining hauthoritative hrules hengines howners hnodes
  | publishSuperseded _ _ hrules hengines howners hnodes
  | beginEngineDrain _ _ hrules hengines howners hnodes =>
    exact h.takeDown hrules hengines (fun _ => rfl) howners hnodes
  | updateRouteHealth hbacked hrules _ hengines howners hnodes =>
    exact h.updateRouteHealth hbacked hrules hengines howners hnodes
  | upsertRoutingRule rule => exact absurd horderly id
  | deleteRoutingRule selected =>
    exact ⟨h.ruleIds.sublist (List.filter_sublist.map _), h.engineIds, h.ownerKeys,
      h.positive, h.placed, fun r hr => h.defaults r (List.mem_of_mem_filter hr),
      fun r hr => h.backed r (List.mem_of_mem_filter hr)⟩
  | switchAuthority => exact h.switchAuthority hcall
  | commitOperation nodeId revision => exact h.commit horderly
  | planNode hpositive hnodes _ hnodup => exact h.plan hpositive hnodes hnodup rfl
  | storeSecrets secrets =>
    exact ⟨h.ruleIds, h.engineIds, h.ownerKeys, h.positive, h.placed, h.defaults, h.backed⟩

end Steps

theorem sound_of_run {contract : Contract}
    (hrun : Reach (next contract) (Orderly contract) Cluster.empty c) : Sound c :=
  hrun.invariant sound_empty fun _ _ _ horderly h => next_sound h horderly

theorem Sound.owner_unique (h : Sound c) {a b : String}
    (ha : c.owns a nodeId slot = true) (hb : c.owns b nodeId slot = true) : a = b := by
  obtain ⟨row, hrow, hnode, hslot, hengine, _⟩ := owns_iff.1 ha
  obtain ⟨row', hrow', hnode', hslot', hengine', _⟩ := owns_iff.1 hb
  have hkey : row.key = row'.key := by
    simp only [SlotOwner.key, hnode, hslot, hnode', hslot']
  obtain rfl := eq_of_nodup_key h.ownerKeys hrow hrow' hkey
  exact Option.mem_unique hengine hengine'

/-- In every orderly run a rule in rotation belongs to a registered engine that is not
draining, owns its slot with route authority and has an admitted revision; a slot has one
such engine. -/
theorem only_authoritative_owner_serves {contract : Contract} {c : Cluster}
    (hrun : Reach (next contract) (Orderly contract) Cluster.empty c) :
    (∀ rule ∈ c.rules, rule.healthy = true → rule.isDefault = true ∧
      ∃ engine ∈ c.engines, engine.engineId = rule.engineId ∧ engine.draining = false ∧
        ∃ metadata, engine.deployment = some metadata ∧
          (∃ row ∈ c.owners, row.nodeId = metadata.nodeId ∧
            row.engineSlot = metadata.engineSlot ∧ row.engineId = some rule.engineId ∧
            row.routeAuthority = true) ∧ ∃ node, c.node? metadata.nodeId = some node ∧
            node.admits metadata.engineSlot metadata.revision = true) ∧
    ∀ rule ∈ c.rules, rule.healthy = true → ∀ other ∈ c.rules, other.healthy = true →
      ∀ engine ∈ c.engines, engine.engineId = rule.engineId →
      ∀ engine' ∈ c.engines, engine'.engineId = other.engineId →
      engine.deployment.map (fun m => (m.nodeId, m.engineSlot)) =
        engine'.deployment.map (fun m => (m.nodeId, m.engineSlot)) →
      rule.engineId = other.engineId := by
  have h := sound_of_run hrun
  refine ⟨?_, ?_⟩
  · intro rule hrule hhealthy
    obtain ⟨engine, hengine, hid, hdraining, hauthoritative⟩ := h.backed rule hrule hhealthy
    obtain ⟨metadata, hmetadata, _⟩ := h.placed engine hengine
    obtain ⟨howns, hnode⟩ := (authoritative_iff hmetadata).1 hauthoritative
    rw [hid] at howns
    exact ⟨h.defaults rule hrule, engine, hengine, hid, hdraining, metadata, hmetadata,
      owns_iff.1 howns, hnode⟩
  · intro rule hrule hhealthy other hother hhealthy' engine hengine hid engine' hengine' hid'
      hslot
    -- Both engines are the recorded owner of the one slot.
    have howner : ∀ rule ∈ c.rules, rule.healthy = true → ∀ engine ∈ c.engines,
        engine.engineId = rule.engineId → ∃ metadata, engine.deployment = some metadata ∧
          c.owns rule.engineId metadata.nodeId metadata.engineSlot = true := by
      intro rule hrule hhealthy engine hengine hid
      obtain ⟨backing, hbacking, hbid, _, hauthoritative⟩ := h.backed rule hrule hhealthy
      obtain rfl := eq_of_nodup_key h.engineIds hbacking hengine (hbid.trans hid.symm)
      obtain ⟨metadata, hmetadata, _⟩ := h.placed backing hbacking
      exact ⟨metadata, hmetadata, hbid ▸ ((authoritative_iff hmetadata).1 hauthoritative).1⟩
    obtain ⟨m, hm, howns⟩ := howner rule hrule hhealthy engine hengine hid
    obtain ⟨m', hm', howns'⟩ := howner other hother hhealthy' engine' hengine' hid'
    rw [hm, hm', Option.map_some, Option.map_some, Option.some.injEq, Prod.mk.injEq] at hslot
    rw [hslot.1, hslot.2] at howns
    exact h.owner_unique howns howns'

open Sample

theorem serving_engine_owns_slot : ∃ rule ∈ (run serving).rules, rule.healthy = true ∧
      ∃ row ∈ (run serving).owners, row.engineId = some rule.engineId ∧
        row.routeAuthority = true := by
  have hrun : Reach (next Sample.contract) (Orderly Sample.contract) Cluster.empty
      (run serving) := reach_runAll serving (by decide +kernel)
  have hany : ∃ rule ∈ (run serving).rules, rule.healthy = true := by
    decide +kernel
  obtain ⟨rule, hrule, hhealthy⟩ := hany
  obtain ⟨_, _, _, _, _, _, _, ⟨row, hrow, _, _, hengine, hroute⟩, _⟩ :=
    (only_authoritative_owner_serves hrun).1 rule hrule hhealthy
  exact ⟨rule, hrule, hhealthy, row, hrow, hengine, hroute⟩

/-- The registration of `engine-a` is repeated as `engine-b`, which reports readiness: both serve
the slot. -/
theorem replay_for_other_engine_serves_twice :
    let c := run (serving ++
      [registered 5 first "engine-b" activation,
        ⟨Manager.seconds 6, .publishEngineReadiness "engine-b" [cart]
          (Sample.fence first activation 1)⟩])
    Reachable Sample.contract c ∧
      c.rules.map (fun rule => (rule.engineId, rule.healthy)) =
        [("engine-a", true), ("engine-b", true)] ∧
      c.engines.map (fun e => (e.engineId, e.deployment.map fun m =>
        (m.nodeId, m.engineSlot))) =
        [("engine-a", some ("node-a", "blue")), ("engine-b", some ("node-a", "blue"))] ∧
      c.owners.map (fun row => (row.nodeId, row.engineSlot, row.engineId)) =
        [("node-a", "blue", some "engine-b")] := by
  intro c
  exact ⟨reachable_run _, by decide +kernel, by decide +kernel, by decide +kernel⟩

-- A slot that lost its authority comes back with a heartbeat at the current revision,
-- and the commit of the next revision leaves it in rotation.
example :
    let c := run (serving ++
      [⟨Manager.seconds 5, .commitOperation "node-a" 1⟩, planned 6 emptied,
        ⟨Manager.seconds 7, .switchAuthority "node-a" "blue" 0⟩,
        ⟨Manager.seconds 8, .publishEngineReadiness "engine-a" [cart]
          (Sample.fence first activation 1)⟩,
        ⟨Manager.seconds 9, .commitOperation "node-a" 2⟩])
    c.rules.map (·.healthy) = [true] ∧ c.nodes.map (·.currentRevision) = [2] ∧
      c.engines.map (·.deployment.map (·.revision)) = [some 1] := by
  decide +kernel

end Wruntime.Routing
