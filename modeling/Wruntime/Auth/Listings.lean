import Mathlib.Data.Prod.Lex
import Wruntime.Auth.Authorizer
import Wruntime.Routing.Transactions

/-!
The filtered read methods of the cluster service. Each authorizes the call, reads its table and
keeps the rows that the caller's assignments allow. `Listing` gathers the five with their
parameters: the columns read, the rows returned, the resource of a row.
-/

namespace Wruntime.Auth

open Fallible Grants
open Manager (Status Time seconds)
open Routing (Cluster EngineRegistration RoutingRule SecretRequest)

structure ManagerRow where
  managerId : String
  grpcAddress : String
  lastHeartbeat : Time

structure ManagerInfo where
  managerId : String
  grpcAddress : String

/-- A row of `wr_schedules`. -/
structure Schedule where
  scheduleId : String
  workerNamespace : String
  workerName : String
  workerVersion : String
  jobType : String

structure Tables where
  cluster : Cluster
  managers : List ManagerRow
  schedules : List Schedule

def Tables.engines (db : Tables) : List EngineRegistration :=
  db.cluster.engines.map (·.registration)

/-- `NamespaceFilter::from_wire`: the empty text selects all namespaces. -/
def namespaceFilter (value : String) : Except Status (Option String) :=
  if value = "" then return none
  else do
    (validateName value "namespace").mapError Status.invalidArgument
    return some value

def filterResource (value : String) : AuthorizationResource :=
  { namespaceId := if value = "" then none else some value }

/-- `db::list_managers`: the managers with a recent heartbeat. -/
def liveManagers (now : Time) (livenessSecs : Nat) (managers : List ManagerRow) :
    List ManagerRow :=
  select (fun m => decide (now < m.lastHeartbeat + seconds livenessSecs)) (·.managerId) managers

def secretRows (filter : Option String) (secrets : List SecretRequest) : List SecretRequest :=
  match filter with
  | none => select (fun _ => true) (fun s => toLex (s.nspace, s.key)) secrets
  | some nspace => select (fun s => decide (s.nspace = nspace)) (·.key) secrets

def scheduleRows (filter : Option String) (schedules : List Schedule) : List Schedule :=
  match filter with
  | none => select (fun _ => true)
      (fun s => toLex (s.workerNamespace, toLex (s.workerName, s.jobType))) schedules
  | some nspace => select (fun s => decide (s.workerNamespace = nspace))
      (fun s => toLex (s.workerName, s.jobType)) schedules

/-- Keys that start with two underscores are internal. -/
def SecretRequest.listed (secret : SecretRequest) : Bool :=
  !"__".toList.isPrefixOf secret.key.toList

section Methods

variable (policy : PolicySnapshot) (isOpen : Bool) (peer : Peer) (db : Tables)

def AuthorizedCall.allowsEngine (call : AuthorizedCall) (engine : EngineRegistration) : Bool :=
  engine.modules.all fun m =>
    call.allowsCollectionItem (some m.identity.nspace) (engine.deployment.map (·.nodeId)) none none

def listEngines : Except Status (List EngineRegistration) := do
  let call ← authorize policy isOpen peer .listEngines {}
  call.verify .listEngines
  return db.engines.filter call.allowsEngine

/-- The rules of the response, none if it carries no table. -/
def getRoutingTable (knownVersion : Nat) : Except Status (List RoutingRule) := do
  let call ← authorize policy isOpen peer .getRoutingTable {}
  call.verify .getRoutingTable
  let table := Routing.getRoutingTable db.cluster db.cluster knownVersion
  return ((table.map (·.rules)).getD []).filter fun rule =>
    call.allowsCollectionItem (some rule.destination.nspace) none none none

def ManagerRow.info (row : ManagerRow) : ManagerInfo := ⟨row.managerId, row.grpcAddress⟩

def listManagers (now : Time) (livenessSecs : Nat) : Except Status (List ManagerInfo) := do
  let call ← authorize policy isOpen peer .listManagers {}
  call.verify .listManagers
  return ((liveManagers now livenessSecs db.managers).map ManagerRow.info).filter fun manager =>
    call.allowsCollectionItem none none none (some manager.managerId)

def listSecrets (nspace : String) : Except Status (List SecretRequest) := do
  let call ← authorize policy isOpen peer .listSecrets (filterResource nspace)
  call.verify .listSecrets
  let filter ← namespaceFilter nspace
  return ((secretRows filter db.cluster.secrets).filter SecretRequest.listed).filter fun secret =>
    call.allowsCollectionItem (some secret.nspace) none none none

def listSchedules (workerNamespace : String) : Except Status (List Schedule) := do
  let call ← authorize policy isOpen peer .listSchedules (filterResource workerNamespace)
  call.verify .listSchedules
  let filter ← namespaceFilter workerNamespace
  return (scheduleRows filter db.schedules).filter fun schedule =>
    call.allowsCollectionItem (some schedule.workerNamespace) none none none

end Methods

/-- A read method with its parameters; the clock and the liveness threshold are
the manager's. -/
inductive Listing where
  | listEngines
  | getRoutingTable (knownVersion : Nat)
  | listManagers (now : Time) (livenessSecs : Nat)
  | listSecrets (nspace : String)
  | listSchedules (workerNamespace : String)

namespace Listing

def rpc : Listing → Rpc
  | listEngines => .listEngines
  | getRoutingTable _ => .getRoutingTable
  | listManagers _ _ => .listManagers
  | listSecrets _ => .listSecrets
  | listSchedules _ => .listSchedules

def resource : Listing → AuthorizationResource
  | listSecrets nspace | listSchedules nspace => filterResource nspace
  | _ => {}

/-- The columns that the method reads from a row of its table. -/
abbrev Stored : Listing → Type
  | listEngines => EngineRegistration
  | getRoutingTable _ => RoutingRule
  | listManagers _ _ => ManagerRow
  | listSecrets _ => SecretRequest
  | listSchedules _ => Schedule

abbrev Row : Listing → Type
  | listEngines => EngineRegistration
  | getRoutingTable _ => RoutingRule
  | listManagers _ _ => ManagerInfo
  | listSecrets _ => SecretRequest
  | listSchedules _ => Schedule

def table (db : Tables) : (l : Listing) → List l.Stored
  | listEngines => db.engines
  | getRoutingTable _ => db.cluster.rules
  | listManagers _ _ => db.managers
  | listSecrets _ => db.cluster.secrets
  | listSchedules _ => db.schedules

def answer (policy : PolicySnapshot) (isOpen : Bool) (peer : Peer) (db : Tables) :
    (l : Listing) → Except Status (List l.Row)
  | listEngines => Auth.listEngines policy isOpen peer db
  | getRoutingTable knownVersion => Auth.getRoutingTable policy isOpen peer db knownVersion
  | listManagers now livenessSecs => Auth.listManagers policy isOpen peer db now livenessSecs
  | listSecrets nspace => Auth.listSecrets policy isOpen peer db nspace
  | listSchedules workerNamespace => Auth.listSchedules policy isOpen peer db workerNamespace

end Listing

/-- The resource that an engine is: the namespaces of its modules, its node and
its job queue. -/
def engineTuple (engine : EngineRegistration) : Resource Dimension String
  | .nspace => engine.modules.map (·.identity.nspace)
  | .node => (engine.deployment.map (·.nodeId)).toList
  | .jobQueue => if engine.jobQueueId = "" then [] else [engine.jobQueueId]
  | .manager => []

/-- The resource that a row is. A rule, a secret and a schedule lie in one
namespace. -/
def Listing.tuple : (l : Listing) → l.Stored → Resource Dimension String
  | .listEngines, engine => engineTuple engine
  | .getRoutingTable _, rule =>
    AuthorizationResource.values { namespaceId := some rule.destination.nspace }
  | .listManagers _ _, manager => AuthorizationResource.values { managerIds := [manager.managerId] }
  | .listSecrets _, secret => AuthorizationResource.values { namespaceId := some secret.nspace }
  | .listSchedules _, schedule =>
    AuthorizationResource.values { namespaceId := some schedule.workerNamespace }

def Listing.visible (granted : List (Grant Dimension String)) (db : Tables) (l : Listing) :
    List l.Stored :=
  (l.table db).filter fun row => decide (Covered granted (l.tuple row))

def Listing.granted (policy : PolicySnapshot) (uri : PrincipalUri) (l : Listing) :
    List (Grant Dimension String) :=
  grants (policy.admitted l.rpc uri.asStr uri.kind)

end Wruntime.Auth
