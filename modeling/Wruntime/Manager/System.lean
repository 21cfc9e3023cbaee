import Wruntime.Lib.Runs
import Wruntime.Manager.Report
import Wruntime.Manager.Submit

/-!
The manager as a transition system. Calls arrive in any order, from any principal, at any database
time, each one transaction on the node's database. The transcript of calls and replies says what was
delivered to an agent or accepted from one.
-/

namespace Wruntime.Manager

open Fallible Table Runs

/-- What the routing side published: registrations, heartbeats and routes, and perhaps the
activation of a submitted revision. -/
structure ClusterEvidence where
  engines : List EngineRecord
  moduleHeartbeats : List ModuleHeartbeat
  routes : List RoutingRule
  routingVersion : Nat
  activated : Option Revision

/-- An engine registers only for a revision of this node with a submitted operation. -/
def Db.admitsEngine (db : Db) (engine : EngineRecord) : Bool :=
  engine.deployment.all fun metadata =>
    metadata.nodeId ≠ db.nodeId || db.deployments.any fun d =>
      d.revision = metadata.revision && d.operationId.isSome

/-- Any evidence that registration, readiness, drain, deregistration and health updates may
leave. -/
def publish (db : Db) (evidence : ClusterEvidence) : Db :=
  if evidence.engines.all db.admitsEngine then
    { db with
      engines := evidence.engines
      moduleHeartbeats := evidence.moduleHeartbeats
      routes := evidence.routes
      routingVersion := evidence.routingVersion
      deployments := updateWhere
        (fun d => evidence.activated = some d.revision ∧ d.state = .pending ∧
          d.operationId.isSome = true)
        (fun d => { d with state := .active }) db.deployments }
  else db

inductive Call where
  | beginDeployment (request : BeginDeploymentRequest) (actor : String)
  | beginRollback (toRevision : Revision) (attemptToken actor : String)
  | finalizeDeployment (request : FinalizeDeploymentRequest) (actor : String)
  | abandonDeployment (attemptToken actor : String)
  | submit (request : SubmitOperationRequest) (actor freshId : String)
  | claim (agentInstanceId agent : String)
  | renew (request : RenewOperationLeaseRequest) (agent : String)
  | reportObservation (receivedAt : Time) (request : ReportNodeObservationRequest)
      (agent : String)
  | reportStep (request : ReportStepResultRequest) (agent : String)
  | resume (operationId : String)
  | cancel (operationId : String)
  | putAgentPolicy (request : PutAgentPolicyRequest)
  | attest (principal : String) (attestation : Attestation)
  | publish (evidence : ClusterEvidence)

inductive Reply where
  | failed (status : Status)
  | deployment (row : Deployment)
  | operation (op : Operation)
  | instruction (instruction : Option AgentInstruction)
  | leaseUntil (expiresAt : Time)
  | policy (policy : AgentPolicy)
  | conditions (conditions : List Condition)
  | done
  deriving DecidableEq

def Reply.instruction? : Reply → Option AgentInstruction
  | .instruction value => value
  | _ => none

theorem Reply.of_instruction?_any {reply : Reply} {P : AgentInstruction → Prop} [DecidablePred P]
    (h : reply.instruction?.any (P ·) = true) :
    ∃ instruction, reply = .instruction (some instruction) ∧ P instruction := by
  obtain ⟨instruction, hsome, hp⟩ := Option.any_eq_true _ _ |>.1 h
  cases reply with
  | instruction value =>
    exact ⟨instruction, congrArg Reply.instruction hsome, of_decide_eq_true hp⟩
  | _ => cases hsome

def settle {α : Type} (db : Db) (reply : α → Reply) (result : Except Status (Db × α)) :
    Db × Reply :=
  match result with
  | .ok (db', value) => (db', reply value)
  | .error status => (db, .failed status)

/-- The reply of a transaction that may commit and still answer an error. -/
def Reply.ofCommitted {α : Type} (reply : α → Reply) : Except Status α → Reply
  | .ok value => reply value
  | .error status => .failed status

/-- The node a call names, where the call itself does not check it against the
operation's row. -/
def Call.nodeId? : Call → Option String
  | .beginDeployment request _ => some request.nodeId
  | .finalizeDeployment request _ => some request.nodeId
  | .submit request _ _ => some request.nodeId
  | _ => none

/-- One call on the node's database. A call that names another node does not
touch these rows. -/
def step (contract : DeploymentContract) (db : Db) (now : Time) (call : Call) : Db × Reply :=
  if call.nodeId?.any (· ≠ db.nodeId) then (db, .done)
  else match call with
    | .beginDeployment request actor =>
      settle db .deployment (beginDeployment contract db request actor)
    | .beginRollback toRevision attemptToken actor =>
      settle db .deployment (beginRollback contract db toRevision attemptToken actor)
    | .finalizeDeployment request actor =>
      settle db .deployment (finalizeDeployment db request actor)
    | .abandonDeployment attemptToken actor =>
      settle db .deployment (abandonDeployment db attemptToken actor)
    | .submit request actor freshId =>
      settle db .operation (submit contract db now actor request freshId)
    | .claim agentInstanceId agent =>
      settle db .instruction (claim db now agentInstanceId agent)
    | .renew request agent =>
      settle db (.ofCommitted .leaseUntil) (renew db now request agent)
    | .reportObservation receivedAt request agent =>
      settle db (.ofCommitted .operation)
        (reportObservation db now receivedAt request agent)
    | .reportStep request agent =>
      settle db (.ofCommitted .operation) (reportStep db now request agent)
    | .resume operationId => settle db .operation (resume db operationId)
    | .cancel operationId => settle db .operation (cancel db operationId)
    | .putAgentPolicy request => settle db .policy (putAgentPolicy db request)
    | .attest principal attestation =>
      settle db .conditions (attest db now principal attestation)
    | .publish evidence => (publish db evidence, .done)

/-- A call with the time of its transaction and the reply it got. -/
structure Entry where
  now : Time
  call : Call
  reply : Reply

structure World where
  db : Db
  log : List Entry

def World.initial (nodeId : String) : World := ⟨Db.empty nodeId, []⟩

def World.clock (w : World) : Time := (w.log.head?.map (·.now)).getD 0

structure Input where
  now : Time
  call : Call

def World.next (contract : DeploymentContract) (w : World) (input : Input) : World :=
  let result := step contract w.db input.now input.call
  ⟨result.1, ⟨input.now, input.call, result.2⟩ :: w.log⟩

/-- Every run from an empty node: any calls, in any order, at any times. -/
def Reachable (contract : DeploymentContract) (nodeId : String) (w : World) : Prop :=
  Reach (World.next contract) (fun _ _ => True) (World.initial nodeId) w

theorem runAll_reachable {contract : DeploymentContract} {nodeId : String} {w : World}
    (hreach : Reachable contract nodeId w) (inputs : List Input) :
    Reachable contract nodeId (runAll (World.next contract) w inputs) :=
  hreach.trans (reach_runAll_any w inputs)

def Input.receivedAt (input : Input) : Time :=
  match input.call with
  | .reportObservation receivedAt _ _ => receivedAt
  | _ => input.now

/-- Transactions commit in the order of their times, and none begins before its call was
received. -/
def InOrder (w : World) (input : Input) : Prop :=
  w.clock ≤ input.now ∧ input.receivedAt ≤ input.now

instance : DecidableRel InOrder := fun w input =>
  inferInstanceAs (Decidable (w.clock ≤ input.now ∧ input.receivedAt ≤ input.now))

/-! A sample node `node-a` for worked runs, with the SHA-256 identities that the
deployment contract computes for its revisions. -/

namespace Sample

def bundle : String :=
  "sha256:1e6ed65d77d6364eeaed5a745ba5c4985ae2b700dd85d7cf7f027bdf294a33fc"

def resolved : String :=
  "sha256:dc676b42859915c826f8bbaef6511998f7aedbd6e332565faeda17fc33ec6320"

def agentBinary : String :=
  "sha256:d4f0bc5a29de06b510f9aa428f1eedba926012b591fef7a518e776a7c9bd1824"

def inventory (slots : List String) : DeploymentInventory :=
  ⟨1, slots.map fun slot => ⟨slot, []⟩⟩

/-- Revision, slots, revision digest and operation id. -/
def revisions : List (Revision × List String × String × String) :=
  [(1, [], "sha256:c95a4da351906968cbf9db97c93a8f50962d88ba52f3b24712eb88db36433f20",
      "56c3da2c-c839-8b49-8800-4c5248ed3af5"),
    (1, ["blue"], "sha256:4df958e1e9eda0b6c005908938f1ebc1f201e3406e3668782a7c3ccfe727492e",
      "8d7eef43-aa27-83b7-a7ab-2a5f124cae58"),
    (1, ["blue", "green"],
      "sha256:46c7bd97305f9671c11e125f0bcbe032c7c7e1455ce30f0666631974fc8a3646",
      "b7846ac1-801e-8127-9a15-d0dbb32719c4"),
    (2, ["blue"], "sha256:410af868d7fe5de554305083e95bbeebb37dbc393322854137f7990fe7ebdab8",
      "f51696ac-0df1-82b1-bc67-abb1ce7e6785")]

def contract : DeploymentContract where
  checkEntries _ := .ok ⟨⟩
  revisionDigest nodeId revision digest requested :=
    match revisions.find? fun row => nodeId = "node-a" ∧ row.1 = revision ∧
        digest = bundle ∧ requested = inventory row.2.1 with
    | some row => .ok row.2.2.1
    | none => .error "revision and normalized bundle digest are required"
  deploymentOperationId digest :=
    match revisions.find? fun row => row.2.2.1 = digest with
    | some row => .ok row.2.2.2
    | none => .error "normalized revision digest is required"

/-- A policy, an attested agent, and one finalized and submitted revision. -/
def submitted (slots : List String) : List Input :=
  [⟨seconds 1, .putAgentPolicy ⟨"1", agentBinary, [], some 3⟩⟩,
    ⟨seconds 2, .attest "agent-a" ⟨"activation-1", "", "1", agentBinary, [], 0⟩⟩,
    ⟨seconds 3, .beginDeployment
      ⟨"node-a", "attempt-1", bundle, some (inventory slots)⟩ "alice"⟩,
    ⟨seconds 4, .finalizeDeployment ⟨"node-a", 1, "attempt-1", bundle, resolved⟩ "alice"⟩,
    ⟨seconds 5, .submit ⟨"node-a", "attempt-1", .deployment, 1, bundle, none, resolved, ""⟩
      "alice" "unused"⟩]

def result (id : String) (epoch : Nat) (step : NodeOperationStepKind) (key : TargetKey)
    (revision : Revision) (backend process : String) : ReportStepResultRequest where
  nodeId := "node-a"
  operationId := id
  leaseEpoch := epoch
  step := step
  conditionCode := ""
  detail := ""
  agentInstanceId := "activation-1"
  observedRevision := revision
  observedDigest := if revision = 0 then "" else bundle
  backendInstanceId := backend
  processInstanceId := process
  backendQueryError := ""
  observedResolvedReleaseDigest := if revision = 0 then "" else resolved
  target := some
    { kind := key.kind
      identity := some key
      revision := revision
      bundleDigest := if revision = 0 then "" else bundle
      resolvedReleaseDigest := if revision = 0 then "" else resolved }
  terminationEvidence := none

def claimed (n : Nat) : Input := ⟨seconds n, .claim "activation-1" "agent-a"⟩

def reported (n : Nat) (request : ReportStepResultRequest) : Input :=
  ⟨seconds n, .reportStep request "agent-a"⟩

/-- The proxy of a first deployment, taken through its three steps. -/
def proxyDone (id : String) : List Input :=
  [claimed 6, reported 7 (result id 1 .selectRelease .proxy 1 "" ""),
    claimed 8, reported 9 (result id 1 .startBackend .proxy 1 "proxy-1" "process-1"),
    claimed 10, reported 11 (result id 1 .verifyProxy .proxy 1 "proxy-1" "process-1")]

/-- An agent's view of a slot: a ready engine when it runs, a cleared or stopped
one otherwise. -/
def observation (id : String) (epoch : Nat) (slot : String) (revision : Revision)
    (backend process : String) (state : BackendProcessState) :
    ReportNodeObservationRequest where
  nodeId := "node-a"
  engineSlot := slot
  lifecycle := if state = .running then some ⟨.ready, .engine, process⟩ else none
  backendState := state
  backendInstanceId := backend
  observedRevision := revision
  observedDigest := if revision = 0 then "" else bundle
  backendQueryError := ""
  operationId := id
  agentInstanceId := "activation-1"
  leaseEpoch := epoch
  observedResolvedReleaseDigest := if revision = 0 then "" else resolved

def observed (n : Nat) (request : ReportNodeObservationRequest) : Input :=
  ⟨seconds n, .reportObservation (seconds n) request "agent-a"⟩

/-- The registrations of engines without modules. -/
def registered (n : Nat) (engines : List (String × Revision)) : Input :=
  ⟨seconds n, .publish
    { engines := engines.map fun (slot, revision) =>
        ⟨slot ++ "-engine", some ⟨"node-a", revision, bundle, slot⟩, [], seconds n⟩
      moduleHeartbeats := []
      routes := []
      routingVersion := 1
      activated := none }⟩

/-- The release of slot `blue` selected and started by a first deployment. -/
def blueStarted (id : String) : List Input :=
  [claimed 12, reported 13 (result id 1 .verifyReleaseMetadata (.engineSlot "blue") 1 "" ""),
    claimed 14, observed 15 (observation id 1 "blue" 1 "blue-0" "" .exited),
    claimed 16, registered 17 [("blue", 1)],
    observed 18 (observation id 1 "blue" 1 "blue-1" "blue-process-1" .running)]

def blueCommitted (id : String) : List Input :=
  blueStarted id ++ [claimed 19, claimed 20, claimed 21, claimed 22]

def run (inputs : List Input) : World :=
  runAll (World.next contract) (World.initial "node-a") inputs

theorem reachable_run (inputs : List Input) : Reachable contract "node-a" (run inputs) :=
  runAll_reachable .refl inputs

end Sample

end Wruntime.Manager
