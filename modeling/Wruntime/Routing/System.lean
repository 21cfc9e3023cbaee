import Wruntime.Lib.Runs
import Wruntime.Routing.Transactions

/-!
Runs of the routing side: any transactions in any order. The inversion lemmas
say what a transaction that commits has read and written, table by table.
-/

namespace Wruntime.Routing

open Fallible Table Runs
open Manager (Time Revision Status ModuleIdentity i64Max)
open RoutingRule (serves down)

inductive Call where
  | registerEngine (reg : EngineRegistration) (activationId : Uuid)
  | deregisterEngine (engineId : String) (fence : Fence)
  | publishEngineReadiness (engineId : String) (modules : List ModuleIdentity) (fence : Fence)
  | beginEngineDrain (engineId : String) (fence : Fence)
  | updateRouteHealth (engineTimeout moduleTimeout : Time)
  | upsertRoutingRule (rule : RoutingRule)
  | deleteRoutingRule (ruleId : String) (expectedNamespace : Option String)
  | switchAuthority (nodeId slot : String) (revision : Revision)
  | commitOperation (nodeId : String) (revision : Revision)
  | planNode (plan : Plan)
  | storeSecrets (secrets : List SecretRequest)

inductive Reply where
  | failed (status : Status)
  | registered (fence : Fence)
  | version (version : Nat)
  | health (stale recovered : List String)
  | deleted (deleted : Bool)
  | done
  deriving DecidableEq

def settle {α : Type} (c : Cluster) (result : Except Status α) (cluster : α → Cluster)
    (reply : α → Reply) : Cluster × Reply :=
  match result with
  | .ok value => (cluster value, reply value)
  | .error status => (c, .failed status)

structure Input where
  now : Time
  call : Call

def step (contract : Contract) (c : Cluster) (input : Input) : Cluster × Reply :=
  match input.call with
  | .registerEngine reg activationId =>
    settle c (registerEngineAndRoutes contract c input.now reg activationId) Prod.fst
      (.registered ·.2)
  | .deregisterEngine engineId fence =>
    settle c (deregisterEngine c engineId fence) id fun _ => .done
  | .publishEngineReadiness engineId modules fence =>
    settle c (publishEngineReadiness c input.now engineId modules fence) Prod.fst
      (.version ·.2)
  | .beginEngineDrain engineId fence =>
    settle c (beginEngineDrain c engineId fence) Prod.fst (.version ·.2)
  | .updateRouteHealth engineTimeout moduleTimeout =>
    settle c (updateRouteHealth c input.now engineTimeout moduleTimeout) Prod.fst
      fun value => .health value.2.1 value.2.2
  | .upsertRoutingRule rule => settle c (upsertRoutingRule c rule) id fun _ => .done
  | .deleteRoutingRule ruleId expectedNamespace =>
    settle c (deleteRoutingRule c ruleId expectedNamespace) Prod.fst (.deleted ·.2)
  | .switchAuthority nodeId slot revision =>
    settle c (switchAuthority c nodeId slot revision) id fun _ => .done
  | .commitOperation nodeId revision => (commitOperation c nodeId revision, .done)
  | .planNode plan => (planNode c plan, .done)
  | .storeSecrets secrets => ({ c with secrets := secrets }, .done)

def next (contract : Contract) (c : Cluster) (input : Input) : Cluster :=
  (step contract c input).1

def Reachable (contract : Contract) (c : Cluster) : Prop :=
  Reach (next contract) (fun _ _ => True) Cluster.empty c

theorem settle_next {α : Type} {c : Cluster} {P : Cluster → Prop} (result : Except Status α)
    (cluster : α → Cluster) (reply : α → Reply)
    (hcommits : ∀ value, result = .ok value → P (cluster value)) :
    P (settle c result cluster reply).1 ∨ (settle c result cluster reply).1 = c := by
  cases result with
  | ok value => exact .inl (hcommits value rfl)
  | error status => exact .inr rfl

/-- The version after a statement that changed rows, or none. -/
def bumped (version : Nat) (changed : Bool) : Nat :=
  if changed then version + 1 else version

section Inversion

variable {c c' : Cluster} {now : Time} {engineId : String} {fence : Fence}

theorem incrementIf_eq_ok {changed : Bool} (h : c.incrementIf changed = .ok c') :
    c' = { c with version := bumped c.version changed } := by
  unfold Cluster.incrementIf at h
  cases changed with
  | false =>
    cases h
    rfl
  | true =>
    simp only [if_true, Cluster.incrementVersion] at h
    split at h
    · cases h
      rfl
    · cases h

theorem requireOwnerFence_eq_ok (h : requireOwnerFence c engineId fence = .ok ⟨⟩) :
    ∃ row ∈ c.owners, fence.matchesOwner engineId row = true := by
  simp only [requireOwnerFence, bind_eq_ok, ensure_eq_ok] at h
  obtain ⟨_, _, hany⟩ := h
  exact List.any_eq_true.1 hany

theorem matchesOwner_eq_true {row : SlotOwner} (h : fence.matchesOwner engineId row = true) :
    row.nodeId = fence.nodeId ∧ row.engineSlot = fence.slot ∧
      (∃ o, row.owner = some o ∧ o.revisionDigest = fence.revisionDigest ∧
        o.activationId = fence.activationId) ∧
      row.engineId = some engineId ∧ row.slotGeneration = fence.slotGeneration ∧
      row.lifecycleAuthority = true := by
  simp only [Fence.matchesOwner, decide_eq_true_eq] at h
  obtain ⟨hnode, hslot, howner, hrest⟩ := h
  obtain ⟨o, ho, hvalue⟩ := Option.any_eq_true _ _ |>.1 howner
  exact ⟨hnode, hslot, ⟨o, ho, by simpa using hvalue⟩, hrest⟩

/-- A registration that committed: the rows it was checked against, and the
tables that it wrote. -/
structure Registered (contract : Contract) (c : Cluster) (now : Time)
    (reg : EngineRegistration) (activationId : Uuid) (c' : Cluster) (fence : Fence)
    (metadata : DeploymentMetadata) (node : Node) (deployment : Deployment)
    (op : Operation) (owner : SlotOwner) (generation : Nat) : Prop where
  metadata_eq : reg.deployment = some metadata
  node_eq : c.node? metadata.nodeId = some node
  desired : desiredState contract node metadata = .ok (deployment, op)
  inventory : checkInventory contract deployment metadata reg = .ok ⟨⟩
  owner_eq : c.owner? metadata.nodeId metadata.engineSlot = some owner
  generation_eq : assignedSlotGeneration owner.slotGeneration
    (owner.owner = some (ownershipOf metadata deployment op activationId)) = .ok generation
  fence_eq : fence = ⟨metadata.nodeId, metadata.engineSlot, deployment.revisionDigest,
    activationId, generation⟩
  rules : c'.rules = (reg.publishRules
    (if owner.owner = some (ownershipOf metadata deployment op activationId) then c
      else c.withdrawOwner owner).rules).filter (!reg.dropsRule ·)
  version : c'.version = bumped c.version (reg.defaultRules ≠ [] ||
    (reg.publishRules
      (if owner.owner = some (ownershipOf metadata deployment op activationId) then c
        else c.withdrawOwner owner).rules).any reg.dropsRule)
  engines : c'.engines = upsertBy EngineRow.engineId
    ⟨reg, op.operationId, deployment.revisionDigest, activationId, generation, now, false⟩
    c.engines
  owners : c'.owners = updateWhere
    (fun row => row.nodeId = metadata.nodeId ∧ row.engineSlot = metadata.engineSlot)
    (·.assign (ownershipOf metadata deployment op activationId) reg.engineId generation)
    c.owners
  nodes : c'.nodes = updateWhere (fun node => node.nodeId = metadata.nodeId)
    (·.activate metadata) c.nodes

theorem withdrawOwner_frame (c : Cluster) (owner : SlotOwner) :
    (c.withdrawOwner owner).version = c.version ∧ (c.withdrawOwner owner).engines = c.engines ∧
      (c.withdrawOwner owner).owners = c.owners ∧ (c.withdrawOwner owner).nodes = c.nodes := by
  unfold Cluster.withdrawOwner
  split <;> exact ⟨rfl, rfl, rfl, rfl⟩

theorem registerEngineAndRoutes_eq_ok {contract : Contract} {reg : EngineRegistration}
    {activationId : Uuid}
    (h : registerEngineAndRoutes contract c now reg activationId = .ok (c', fence)) :
    ∃ metadata node deployment op owner generation,
      Registered contract c now reg activationId c' fence metadata node deployment op owner
        generation := by
  simp only [registerEngineAndRoutes, bind_eq_ok, required_eq_ok, ensure_eq_ok, pure_eq_ok] at h
  obtain ⟨metadata, hmetadata, _, _, node, hnode, ⟨deployment, op⟩, hdesired, _, hinventory,
    owner, howner, generation, hgeneration, _, _, _, _, _, _, versioned, hversioned,
    hresult⟩ := h
  obtain ⟨rfl, rfl⟩ := Prod.mk.inj hresult
  obtain rfl := incrementIf_eq_ok hversioned
  refine ⟨metadata, node, deployment, op, owner, generation, hmetadata, hnode, hdesired,
    hinventory, howner, hgeneration, rfl, ?_, ?_, ?_, ?_, ?_⟩
  all_goals
    simp only [Cluster.modifyOwner, Cluster.modifyNode, Cluster.publishRegistration,
      decide_eq_true_eq]
  all_goals
    obtain ⟨hversion, hengines, howners, hnodes⟩ := withdrawOwner_frame c owner
    split <;> simp only [*]

theorem desiredState_eq_ok {contract : Contract} {node : Node}
    {metadata : DeploymentMetadata} {deployment : Deployment} {op : Operation}
    (h : desiredState contract node metadata = .ok (deployment, op)) :
    deployment ∈ node.deployments ∧ deployment.revision = metadata.revision ∧
      deployment.revisionDigest = metadata.revisionDigest := by
  simp only [desiredState, bind_eq_ok, required_eq_ok, ensure_eq_ok, pure_eq_ok] at h
  obtain ⟨row, hrow, _, _, _, ⟨_, _, hdigest⟩, _, _, _, _, hresult⟩ := h
  obtain ⟨rfl, _⟩ := Prod.mk.inj hresult
  obtain ⟨hmem, hvalue⟩ := found hrow
  exact ⟨hmem, hvalue.1, hdigest.symm⟩

/-- The rules that a publication of readiness puts into rotation. -/
def RoutingRule.recovers (engineId : String) (modules : List ModuleIdentity)
    (rule : RoutingRule) : Bool :=
  decide (rule.engineId = engineId) && !rule.healthy && modules.contains rule.destination

/-- The rules that a health update takes out of rotation. -/
def RoutingRule.stale (backed : RoutingRule → Bool) (rule : RoutingRule) : Bool :=
  rule.healthy && !backed rule

def RoutingRule.returns (backed : RoutingRule → Bool) (rule : RoutingRule) : Bool :=
  !rule.healthy && backed rule

def SlotOwner.key (row : SlotOwner) : String × String := (row.nodeId, row.engineSlot)

/-- What a transaction that commits has done, call by call. -/
inductive Commits (contract : Contract) (c : Cluster) (now : Time) :
    Call → Cluster → Prop
  | registerEngine {reg : EngineRegistration} {activationId : Uuid} {c' : Cluster}
      {fence : Fence} {metadata : DeploymentMetadata} {node : Node} {deployment : Deployment}
      {op : Operation} {owner : SlotOwner} {generation : Nat}
      (h : Registered contract c now reg activationId c' fence metadata node deployment op
        owner generation) :
      Commits contract c now (.registerEngine reg activationId) c'
  | deregisterEngine {engineId : String} {fence : Fence} {c' : Cluster}
      (hfence : ∃ row ∈ c.owners, fence.matchesOwner engineId row = true)
      (hversion : c'.version = bumped c.version (c.rules.any (serves engineId)))
      (hrules : c'.rules = updateWhere (serves engineId) down c.rules)
      (hengines : c'.engines = c.engines.filter (·.engineId ≠ engineId))
      (howners : c'.owners = updateWhere
        (fun row => row.nodeId = fence.nodeId ∧ row.engineSlot = fence.slot)
        (fun row => { row with routeAuthority := false, lifecycleAuthority := false })
        c.owners)
      (hnodes : c'.nodes = c.nodes) :
      Commits contract c now (.deregisterEngine engineId fence) c'
  | publishReady {engineId : String} {modules : List ModuleIdentity} {fence : Fence}
      {c' : Cluster} {engine : EngineRow}
      (hfence : ∃ row ∈ c.owners, fence.matchesOwner engineId row = true)
      (hengine : c.engine? engineId = some engine) (hdraining : engine.draining = false)
      (hauthoritative : c.authoritative engine = true)
      (hversion : c'.version =
        bumped c.version (c.rules.any (RoutingRule.recovers engineId modules)))
      (hrules : c'.rules =
        updateWhere (RoutingRule.recovers engineId modules) RoutingRule.up c.rules)
      (hengines : c'.engines = updateWhere (fun e => e.engineId = engineId)
        (fun e => { e with lastHeartbeat := now }) c.engines)
      (howners : c'.owners = c.owners) (hnodes : c'.nodes = c.nodes) :
      Commits contract c now (.publishEngineReadiness engineId modules fence) c'
  | publishSuperseded {engineId : String} {modules : List ModuleIdentity} {fence : Fence}
      {c' : Cluster}
      (hfence : ∃ row ∈ c.owners, fence.matchesOwner engineId row = true)
      (hversion : c'.version = bumped c.version (c.rules.any (serves engineId)))
      (hrules : c'.rules = updateWhere (serves engineId) down c.rules)
      (hengines : c'.engines = updateWhere (fun e => e.engineId = engineId)
        (fun e => { e with lastHeartbeat := now }) c.engines)
      (howners : c'.owners = c.owners) (hnodes : c'.nodes = c.nodes) :
      Commits contract c now (.publishEngineReadiness engineId modules fence) c'
  | beginEngineDrain {engineId : String} {fence : Fence} {c' : Cluster}
      (hfence : ∃ row ∈ c.owners, fence.matchesOwner engineId row = true)
      (hversion : c'.version = bumped c.version (c.rules.any (serves engineId)))
      (hrules : c'.rules = updateWhere (serves engineId) down c.rules)
      (hengines : c'.engines = updateWhere (fun e => e.engineId = engineId)
        (fun e => { e with draining := true }) c.engines)
      (howners : c'.owners = c.owners) (hnodes : c'.nodes = c.nodes) :
      Commits contract c now (.beginEngineDrain engineId fence) c'
  | updateRouteHealth {engineTimeout moduleTimeout : Time} {c' : Cluster}
      {backed : RoutingRule → Bool}
      (hbacked : backed = c.backed now engineTimeout moduleTimeout)
      (hrules : c'.rules = updateWhere (RoutingRule.returns backed) RoutingRule.up
        (updateWhere (RoutingRule.stale backed) down c.rules))
      (hversion : c'.version = bumped c.version (c.rules.any (RoutingRule.stale backed) ||
        (updateWhere (RoutingRule.stale backed) down c.rules).any
          (RoutingRule.returns backed)))
      (hengines : c'.engines = c.engines) (howners : c'.owners = c.owners)
      (hnodes : c'.nodes = c.nodes) :
      Commits contract c now (.updateRouteHealth engineTimeout moduleTimeout) c'
  | upsertRoutingRule (rule : RoutingRule) :
      Commits contract c now (.upsertRoutingRule rule) { c with
        rules := upsertBy (·.ruleId) rule c.rules, version := c.version + 1 }
  | deleteRoutingRule {ruleId : String} {expectedNamespace : Option String}
      (selected : RoutingRule → Bool) :
      Commits contract c now (.deleteRoutingRule ruleId expectedNamespace) { c with
        rules := c.rules.filter (!selected ·)
        version := bumped c.version (c.rules.any selected) }
  | switchAuthority {nodeId slot : String} {revision : Revision} {c' : Cluster}
      (hversion : c'.version =
        bumped c.version (c.rules.any (c.superseded nodeId slot revision)))
      (hrules : c'.rules =
        updateWhere (c.superseded nodeId slot revision) down c.rules)
      (hnodes : c'.nodes =
        updateWhere (fun node => node.nodeId = nodeId) (·.switch slot revision) c.nodes)
      (hengines : c'.engines = c.engines) (howners : c'.owners = c.owners) :
      Commits contract c now (.switchAuthority nodeId slot revision) c'
  | commitOperation (nodeId : String) (revision : Revision) :
      Commits contract c now (.commitOperation nodeId revision)
        (commitOperation c nodeId revision)
  | planNode {plan : Plan} {nodes : List Node} {fresh : List SlotOwner}
      (hpositive : ∀ d ∈ plan.deployments, 0 < d.revision)
      (hnodes : nodes = c.nodes ∨ c.node? plan.nodeId = none ∧
        nodes = c.nodes ++ [Node.fresh plan.nodeId])
      (hfresh : ∀ row ∈ fresh, row.owner = none ∧ row.engineId = none ∧
        row.routeAuthority = false ∧ row.lifecycleAuthority = false)
      (hnodup : (c.owners.map SlotOwner.key).Nodup →
        ((c.owners ++ fresh).map SlotOwner.key).Nodup) :
      Commits contract c now (.planNode plan) { c with
        nodes := updateWhere (fun node => node.nodeId = plan.nodeId) (·.plan plan) nodes
        owners := c.owners ++ fresh }
  | storeSecrets (secrets : List SecretRequest) :
      Commits contract c now (.storeSecrets secrets) { c with secrets := secrets }

theorem declareSlot_cases (c : Cluster) (nodeId slot : String) :
    c.declareSlot nodeId slot = c ∨ c.owner? nodeId slot = none ∧ c.declareSlot nodeId slot =
        { c with owners := c.owners ++ [.vacant nodeId slot] } := by
  unfold Cluster.declareSlot
  split
  next => exact .inl rfl
  next hnone => exact .inr ⟨Option.not_isSome_iff_eq_none.1 hnone, rfl⟩

theorem declareSlots (nodeId : String) (slots : List String) (c : Cluster) :
    ∃ fresh, slots.foldl (fun c slot => c.declareSlot nodeId slot) c =
        { c with owners := c.owners ++ fresh } ∧
      (∀ row ∈ fresh, row.owner = none ∧ row.engineId = none ∧
        row.routeAuthority = false ∧ row.lifecycleAuthority = false) ∧
      ((c.owners.map SlotOwner.key).Nodup →
        ((c.owners ++ fresh).map SlotOwner.key).Nodup) := by
  induction slots generalizing c with
  | nil => exact ⟨[], by simp, by simp, by simp⟩
  | cons slot slots ih =>
    rw [List.foldl_cons]
    rcases declareSlot_cases c nodeId slot with hsame | ⟨hnone, hdeclared⟩
    · rw [hsame]
      exact ih c
    · rw [hdeclared]
      obtain ⟨fresh, hfold, hfresh, hnodup⟩ := ih
        { c with owners := c.owners ++ [.vacant nodeId slot] }
      refine ⟨.vacant nodeId slot :: fresh, ?_, ?_, ?_⟩
      · rw [hfold]
        simp
      · intro row hrow
        rcases List.mem_cons.1 hrow with rfl | hrow
        · exact ⟨rfl, rfl, rfl, rfl⟩
        · exact hfresh row hrow
      · intro hold
        have hsnoc : ((c.owners ++ [SlotOwner.vacant nodeId slot]).map SlotOwner.key).Nodup :=
          nodup_snoc hold fun row hrow hkey => not_found hnone hrow (Prod.mk.inj hkey)
        simpa using hnodup hsnoc

section

variable {contract : Contract}

theorem deregisterEngine_commits (h : deregisterEngine c engineId fence = .ok c') :
    Commits contract c now (.deregisterEngine engineId fence) c' := by
  simp only [deregisterEngine, bind_eq_ok] at h
  obtain ⟨_, hfence, hversioned⟩ := h
  obtain rfl := incrementIf_eq_ok hversioned
  exact .deregisterEngine (requireOwnerFence_eq_ok hfence) rfl rfl rfl rfl rfl

theorem publishEngineReadiness_commits {modules : List ModuleIdentity} {value : Cluster × Nat}
    (h : publishEngineReadiness c now engineId modules fence = .ok value) :
    Commits contract c now (.publishEngineReadiness engineId modules fence) value.1 := by
  simp only [publishEngineReadiness, bind_eq_ok, required_eq_ok, ensure_eq_ok] at h
  obtain ⟨_, hfence, engine, hengine, _, hdraining, h⟩ := h
  have hrow := requireOwnerFence_eq_ok hfence
  split at h
  next hauthoritative =>
    simp only [bind_eq_ok, pure_eq_ok] at h
    obtain ⟨versioned, hversioned, rfl⟩ := h
    obtain rfl := incrementIf_eq_ok hversioned
    exact .publishReady hrow hengine hdraining hauthoritative rfl rfl rfl rfl rfl
  next =>
    simp only [bind_eq_ok, pure_eq_ok] at h
    obtain ⟨versioned, hversioned, rfl⟩ := h
    obtain rfl := incrementIf_eq_ok hversioned
    exact .publishSuperseded hrow rfl rfl rfl rfl rfl

theorem beginEngineDrain_commits {value : Cluster × Nat}
    (h : beginEngineDrain c engineId fence = .ok value) :
    Commits contract c now (.beginEngineDrain engineId fence) value.1 := by
  simp only [beginEngineDrain, bind_eq_ok, ensure_eq_ok, pure_eq_ok] at h
  obtain ⟨_, hfence, _, _, versioned, hversioned, rfl⟩ := h
  obtain rfl := incrementIf_eq_ok hversioned
  exact .beginEngineDrain (requireOwnerFence_eq_ok hfence) rfl rfl rfl rfl rfl

theorem updateRouteHealth_commits {engineTimeout moduleTimeout : Time}
    {value : Cluster × List String × List String}
    (h : updateRouteHealth c now engineTimeout moduleTimeout = .ok value) :
    Commits contract c now (.updateRouteHealth engineTimeout moduleTimeout) value.1 := by
  simp only [updateRouteHealth, bind_eq_ok, pure_eq_ok] at h
  obtain ⟨versioned, hversioned, rfl⟩ := h
  obtain rfl := incrementIf_eq_ok hversioned
  refine .updateRouteHealth rfl rfl ?_ rfl rfl rfl
  have hany : ∀ (rows : List RoutingRule) (p : RoutingRule → Bool),
      decide ((rows.filter p).map (·.ruleId) ≠ []) = rows.any p := by
    intro rows p
    rw [Bool.eq_iff_iff]
    simp [List.filter_eq_nil_iff]
  rw [hany, hany]
  rfl

theorem upsertRoutingRule_commits {rule : RoutingRule} (h : upsertRoutingRule c rule = .ok c') :
    Commits contract c now (.upsertRoutingRule rule) c' := by
  simp only [upsertRoutingRule, bind_eq_ok, Cluster.incrementVersion] at h
  obtain ⟨_, _, h⟩ := h
  split at h
  · cases h
    exact .upsertRoutingRule rule
  · cases h

theorem deleteRoutingRule_commits {ruleId : String} {expectedNamespace : Option String}
    {value : Cluster × Bool} (h : deleteRoutingRule c ruleId expectedNamespace = .ok value) :
    Commits contract c now (.deleteRoutingRule ruleId expectedNamespace) value.1 := by
  simp only [deleteRoutingRule, bind_eq_ok, pure_eq_ok] at h
  obtain ⟨versioned, hversioned, rfl⟩ := h
  obtain rfl := incrementIf_eq_ok hversioned
  exact .deleteRoutingRule _

theorem switchAuthority_commits {nodeId slot : String} {revision : Revision}
    (h : switchAuthority c nodeId slot revision = .ok c') :
    Commits contract c now (.switchAuthority nodeId slot revision) c' := by
  obtain rfl := incrementIf_eq_ok h
  exact .switchAuthority rfl rfl rfl rfl rfl

theorem planNode_commits (plan : Plan) :
    Commits contract c now (.planNode plan) (planNode c plan) ∨ planNode c plan = c := by
  unfold planNode
  split
  next hpositive =>
    refine .inl ?_
    have hpositive : ∀ d ∈ plan.deployments, 0 < d.revision := by simpa using hpositive
    split
    next =>
      obtain ⟨fresh, hfold, hfresh, hnodup⟩ := declareSlots plan.nodeId plan.slots
        (c.modifyNode plan.nodeId (·.plan plan))
      rw [hfold]
      exact .planNode hpositive (.inl rfl) hfresh hnodup
    next hnone =>
      obtain ⟨fresh, hfold, hfresh, hnodup⟩ := declareSlots plan.nodeId plan.slots
        ({ c with nodes := c.nodes ++ [Node.fresh plan.nodeId] }.modifyNode
          plan.nodeId (·.plan plan))
      rw [hfold]
      exact .planNode hpositive (.inr ⟨Option.not_isSome_iff_eq_none.1 hnone, rfl⟩) hfresh hnodup
  next => exact .inr rfl

end

end Inversion

theorem next_commits (contract : Contract) (c : Cluster) (input : Input) :
    Commits contract c input.now input.call (next contract c input) ∨
      next contract c input = c := by
  obtain ⟨now, call⟩ := input
  cases call with
  | registerEngine reg activationId =>
    refine settle_next (registerEngineAndRoutes contract c now reg activationId) Prod.fst
      (.registered ·.2) ?_
    rintro ⟨c', fence⟩ hok
    obtain ⟨_, _, _, _, _, _, h⟩ := registerEngineAndRoutes_eq_ok hok
    exact .registerEngine h
  | deregisterEngine engineId fence =>
    exact settle_next _ id (fun _ => .done) fun _ => deregisterEngine_commits
  | publishEngineReadiness engineId modules fence =>
    exact settle_next _ Prod.fst (.version ·.2) fun _ => publishEngineReadiness_commits
  | beginEngineDrain engineId fence =>
    exact settle_next _ Prod.fst (.version ·.2) fun _ => beginEngineDrain_commits
  | updateRouteHealth engineTimeout moduleTimeout =>
    exact settle_next _ Prod.fst (fun value => .health value.2.1 value.2.2) fun _ =>
      updateRouteHealth_commits
  | upsertRoutingRule rule =>
    exact settle_next _ id (fun _ => .done) fun _ => upsertRoutingRule_commits
  | deleteRoutingRule ruleId expectedNamespace =>
    exact settle_next _ Prod.fst (.deleted ·.2) fun _ => deleteRoutingRule_commits
  | switchAuthority nodeId slot revision =>
    exact settle_next _ id (fun _ => .done) fun _ => switchAuthority_commits
  | commitOperation nodeId revision => exact .inl (.commitOperation nodeId revision)
  | planNode plan => exact planNode_commits plan
  | storeSecrets secrets => exact .inl (.storeSecrets secrets)

@[elab_as_elim]
theorem next_elim {motive : Cluster → Prop} {contract : Contract} {c : Cluster} {input : Input}
    (same : motive c)
    (commits : ∀ c', Commits contract c input.now input.call c' → motive c') :
    motive (next contract c input) :=
  (next_commits contract c input).elim (commits _) fun h => by rwa [h]

/-! A sample node `node-a` with one slot `blue`, for worked runs, with the SHA-256
identities of its schema and its revisions. -/

namespace Sample

def bundle : String :=
  "sha256:1e6ed65d77d6364eeaed5a745ba5c4985ae2b700dd85d7cf7f027bdf294a33fc"

def cart : ModuleIdentity := ⟨"shop", "cart", "1.0.0"⟩

def schemaSha : String := "102b51b9765a56a3e899f7cf0ee38e5251f9c503b357b330a49183eb7b155604"

/-- A revision of the node: its modules on slot `blue`, digest and operation id. -/
structure Release where
  revision : Revision
  modules : List ModuleIdentity
  digest : String
  operationId : Uuid

def first : Release :=
  ⟨1, [cart], "sha256:5e144b6772c362acb1232098ae2ec644d984a938fbd79cd9949647c635d8ea01",
    "264b4b34-c823-8ea7-8081-51e9cf6b6c87"⟩

/-- A second revision that keeps the slot and drops its module. -/
def emptied : Release :=
  ⟨2, [], "sha256:410af868d7fe5de554305083e95bbeebb37dbc393322854137f7990fe7ebdab8",
    "f51696ac-0df1-82b1-bc67-abb1ce7e6785"⟩

def contract : Contract where
  sha256 bytes := if bytes = [10, 0] then schemaSha else ""
  deploymentOperationId digest :=
    match [first, emptied].find? (·.digest = digest) with
    | some release => .ok release.operationId
    | none => .error "normalized revision digest is required"

/-- The release is staged and its operation is running. -/
def planned (n : Nat) (release : Release) : Input :=
  ⟨Manager.seconds n, .planNode
    { nodeId := "node-a"
      targetRevision := some release.revision
      deployments := [⟨release.revision, bundle, release.digest, .pending,
        some release.operationId,
        [⟨"blue", release.modules.map fun m => (some m, "sha256:" ++ schemaSha), [], [], "",
          ""⟩]⟩]
      operations := [⟨release.operationId, .deployment, .running, .forward,
        release.revision, bundle, some release.digest,
        [⟨"blue", release.revision - 1, bundle, release.revision, bundle⟩]⟩]
      slots := ["blue"] }⟩

def registered (n : Nat) (release : Release) (engineId : String) (activationId : Uuid) :
    Input :=
  ⟨Manager.seconds n, .registerEngine
    { engineId := engineId
      address := "http://127.0.0.1:9000"
      proxyAddress := "http://127.0.0.1:9001"
      peerAddress := "https://node-a:9443"
      modules := release.modules.map fun m => ⟨m, [10, 0]⟩
      secrets := []
      dbNamespaces := []
      deployment := some ⟨"node-a", release.revision, bundle, "blue", release.operationId,
        release.digest⟩
      jobQueueId := ""
      jobAdminAddress := "" } activationId⟩

def fence (release : Release) (activationId : Uuid) (generation : Nat) : Fence :=
  ⟨"node-a", "blue", release.digest, activationId, generation⟩

def activation : Uuid := "0b6a1c52-3f0e-4d4e-9a54-2a6f5b1f7c11"

def otherActivation : Uuid := "7d0f9a3e-55c1-4b1c-8e0a-6c2d9f4b8a22"

/-- The first release registered by `engine-a`, made authoritative and serving. -/
def serving : List Input :=
  [planned 1 first, registered 2 first "engine-a" activation,
    ⟨Manager.seconds 3, .switchAuthority "node-a" "blue" 1⟩,
    ⟨Manager.seconds 4, .publishEngineReadiness "engine-a" [cart]
      (fence first activation 1)⟩]

def run (inputs : List Input) : Cluster :=
  runAll (next contract) Cluster.empty inputs

theorem reachable_run (inputs : List Input) : Reachable contract (run inputs) :=
  reach_runAll_any _ _

end Sample

end Wruntime.Routing
