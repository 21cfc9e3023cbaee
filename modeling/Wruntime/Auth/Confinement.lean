import Wruntime.Auth.Listings

/-!
What a person or a service account can reach. A call goes through exactly if an admitted assignment
covers its whole resource. The answer of a read method depends only on the rows so covered, unless a
stored engine passes the filter of its modules uncovered, or the caller has the current routing
version.
-/

namespace Wruntime.Auth

open Fallible Grants
open Manager (Status Time)
open Routing (EngineRegistration ModuleDescriptor RoutingRule SecretRequest)
open AuthorizationResource (values)

/-- The answer to a caller who sees the given rows, in a database with no others. -/
def Listing.render : (l : Listing) → List l.Stored → Except Status (List l.Row)
  | .listEngines, rows => return rows
  | .getRoutingTable _, rows => return rows
  | .listManagers now livenessSecs, rows =>
    return (liveManagers now livenessSecs rows).map ManagerRow.info
  | .listSecrets nspace, rows => do
    let filter ← namespaceFilter nspace
    return (secretRows filter rows).filter SecretRequest.listed
  | .listSchedules workerNamespace, rows => do
    let filter ← namespaceFilter workerNamespace
    return scheduleRows filter rows

/-- One module of an engine, as the resource that the filter asks about. -/
def moduleTuple (engine : EngineRegistration) (m : ModuleDescriptor) : Resource Dimension String :=
  values ⟨some m.identity.nspace, engine.deployment.map (·.nodeId), none, []⟩

/-- An engine that no assignment covers whole has a module that none covers. -/
def EngineSealed (granted : List (Grant Dimension String)) (engine : EngineRegistration) : Prop :=
  Covered granted (engineTuple engine) ∨
    ∃ m ∈ engine.modules, ¬Covered granted (moduleTuple engine m)

/-- The states in which the answer shows the visible rows: every engine is sealed, and for rules the
caller's version is not current or there is nothing to see. -/
def Listing.Sealed (granted : List (Grant Dimension String)) (db : Tables) : Listing → Prop
  | .listEngines => ∀ engine ∈ db.engines, EngineSealed granted engine
  | .getRoutingTable knownVersion =>
    knownVersion = 0 ∨ knownVersion ≠ db.cluster.version ∨
      ∀ rule ∈ db.cluster.rules,
        ¬Covered granted (values
          { namespaceId := some rule.destination.nspace })
  | _ => True

section Filters

variable {call : AuthorizedCall} (hassignments : call.assignments ≠ [])

include hassignments

variable {engine : EngineRegistration}

namespace AuthorizedCall

theorem allowsEngine_iff : call.allowsEngine engine = true ↔
      ∀ m ∈ engine.modules, Covered (grants call.assignments) (moduleTuple engine m) := by
  simp only [allowsEngine, List.all_eq_true, call.allowsCollectionItem_iff hassignments,
    moduleTuple, Option.toList_none]

theorem allowsEngine_of_covered
    (hcovered : Covered (grants call.assignments) (engineTuple engine)) :
    call.allowsEngine engine = true := by
  rw [call.allowsEngine_iff hassignments]
  intro m hm
  apply hcovered.mono
  intro d value hvalue
  cases d with
  | nspace =>
    obtain rfl : value = m.identity.nspace := by
      simpa [moduleTuple, values] using hvalue
    exact List.mem_map_of_mem hm
  | node => exact hvalue
  | jobQueue | manager => cases hvalue

theorem allowsEngine_eq_visible :
    call.allowsEngine engine = decide (Covered (grants call.assignments) (engineTuple engine)) ↔
      EngineSealed (grants call.assignments) engine := by
  rw [Bool.eq_iff_iff, decide_eq_true_eq, call.allowsEngine_iff hassignments]
  constructor
  · intro hexact
    by_cases hcovered : Covered (grants call.assignments) (engineTuple engine)
    · exact Or.inl hcovered
    · right
      have hsome : ¬∀ m ∈ engine.modules,
          Covered (grants call.assignments) (moduleTuple engine m) :=
        fun hall => hcovered (hexact.mp hall)
      simpa using hsome
  · rintro (hcovered | ⟨m, hm, huncovered⟩)
    · exact iff_of_true ((call.allowsEngine_iff hassignments).mp
        (call.allowsEngine_of_covered hassignments hcovered)) hcovered
    · have hmodule : ¬∀ m ∈ engine.modules,
          Covered (grants call.assignments) (moduleTuple engine m) :=
        fun hall => huncovered (hall m hm)
      refine iff_of_false hmodule fun hcovered => hmodule ?_
      exact (call.allowsEngine_iff hassignments).mp
        (call.allowsEngine_of_covered hassignments hcovered)

theorem allowsNamespace_eq {nspace : String} :
    call.allowsCollectionItem (some nspace) none none none =
      decide (Covered (grants call.assignments)
        (values { namespaceId := some nspace })) := by
  rw [Bool.eq_iff_iff, decide_eq_true_eq, call.allowsCollectionItem_iff hassignments]
  rfl

theorem allowsManager_eq {managerId : String} :
    call.allowsCollectionItem none none none (some managerId) =
      decide (Covered (grants call.assignments)
        (values { managerIds := [managerId] })) := by
  rw [Bool.eq_iff_iff, decide_eq_true_eq, call.allowsCollectionItem_iff hassignments]
  rfl

end AuthorizedCall

end Filters

theorem filter_secretRows {visible : SecretRequest → Bool} (filter : Option String)
    (rows : List SecretRequest) :
    (secretRows filter rows).filter visible = secretRows filter (rows.filter visible) := by
  cases filter <;> exact filter_select _ _ rows

theorem filter_scheduleRows {visible : Schedule → Bool} (filter : Option String)
    (rows : List Schedule) :
    (scheduleRows filter rows).filter visible = scheduleRows filter (rows.filter visible) := by
  cases filter <;> exact filter_select _ _ rows

section Answers

variable {policy : PolicySnapshot} {isOpen : Bool} {peer : Peer} {call : AuthorizedCall}
variable {db : Tables}

theorem authorized {β : Type} {rpc : Rpc} {resource : AuthorizationResource}
    {rest : AuthorizedCall → Except Status β}
    (hauthorize : authorize policy isOpen peer rpc resource = .ok call) (hrpc : call.rpc = rpc) :
    (do let call ← authorize policy isOpen peer rpc resource
        call.verify rpc
        rest call) = rest call := by
  rw [bind_of_ok hauthorize, AuthorizedCall.verify, ensure_bind_of_true hrpc]

namespace Listing

theorem answer_listEngines
    (hauthorize : authorize policy isOpen peer .listEngines {} = .ok call)
    (hrpc : call.rpc = .listEngines) (hassignments : call.assignments ≠ []) :
    listEngines.answer policy isOpen peer db =
        listEngines.render (listEngines.visible (grants call.assignments) db) ↔
      listEngines.Sealed (grants call.assignments) db := by
  have hanswer : listEngines.answer policy isOpen peer db =
      .ok (db.engines.filter call.allowsEngine) := authorized hauthorize hrpc
  rw [hanswer, Sealed]
  constructor
  · intro hrender
    have hfilter : db.engines.filter call.allowsEngine = db.engines.filter fun engine =>
        decide (Covered (grants call.assignments) (engineTuple engine)) := Except.ok.inj hrender
    intro engine hengine
    apply (call.allowsEngine_eq_visible hassignments).mp
    refine confined_of_filter ?_ hfilter engine hengine
    intro row _ hcovered
    exact call.allowsEngine_of_covered hassignments (of_decide_eq_true hcovered)
  · intro hsealed
    have hfilter := filter_of_confined fun engine hengine =>
      (call.allowsEngine_eq_visible hassignments).mpr (hsealed engine hengine)
    rw [hfilter]
    rfl

theorem answer_getRoutingTable {knownVersion : Nat}
    (hauthorize : authorize policy isOpen peer .getRoutingTable {} = .ok call)
    (hrpc : call.rpc = .getRoutingTable) (hassignments : call.assignments ≠ []) :
    (getRoutingTable knownVersion).answer policy isOpen peer db =
        (getRoutingTable knownVersion).render
          ((getRoutingTable knownVersion).visible (grants call.assignments) db) ↔
      (getRoutingTable knownVersion).Sealed (grants call.assignments) db := by
  have hanswer : (getRoutingTable knownVersion).answer policy isOpen peer db = _ :=
    authorized hauthorize hrpc
  rw [hanswer]
  simp only [call.allowsNamespace_eq hassignments, Routing.getRoutingTable, Sealed]
  by_cases hcurrent : knownVersion ≠ 0 ∧ knownVersion = db.cluster.version
  · -- Without a table the answer shows nothing.
    simp only [if_pos hcurrent, Option.map_none, Option.getD_none, List.filter_nil]
    have hvisible : (pure [] : Except Status (List RoutingRule)) =
          (getRoutingTable knownVersion).render
            ((getRoutingTable knownVersion).visible (grants call.assignments) db) ↔
        (db.cluster.rules.filter fun rule => decide (Covered (grants call.assignments)
          (values { namespaceId := some rule.destination.nspace }))) =
            [] := by
      constructor
      · intro hrender
        exact (Except.ok.inj hrender).symm
      · intro hnone
        exact congrArg Except.ok hnone.symm
    rw [hvisible, List.filter_eq_nil_iff]
    simp [hcurrent.1, ← hcurrent.2]
  · have hopen : knownVersion = 0 ∨ knownVersion ≠ db.cluster.version := by tauto
    simp only [if_neg hcurrent, Option.map_some, Option.getD_some]
    exact iff_of_true rfl (hopen.imp_right Or.inl)

theorem answer_eq_render_iff (l : Listing)
    (hauthorize : authorize policy isOpen peer l.rpc l.resource = .ok call)
    (hrpc : call.rpc = l.rpc) (hassignments : call.assignments ≠ []) :
    l.answer policy isOpen peer db = l.render (l.visible (grants call.assignments) db) ↔
      l.Sealed (grants call.assignments) db := by
  cases l with
  | listEngines => exact answer_listEngines hauthorize hrpc hassignments
  | getRoutingTable knownVersion =>
    exact answer_getRoutingTable hauthorize hrpc hassignments
  | listManagers now livenessSecs =>
    refine iff_of_true (Eq.trans (authorized hauthorize hrpc) ?_) trivial
    simp only [call.allowsManager_eq hassignments, List.filter_map]
    have hselect : (liveManagers now livenessSecs db.managers).filter (fun manager =>
          decide (Covered (grants call.assignments)
            (values { managerIds := [manager.managerId] }))) =
        liveManagers now livenessSecs (db.managers.filter _) := filter_select _ _ _
    exact congrArg (fun rows => Except.ok (rows.map ManagerRow.info)) hselect
  | listSecrets nspace =>
    refine iff_of_true (Eq.trans (authorized hauthorize hrpc) ?_) trivial
    simp only [call.allowsNamespace_eq hassignments, render, visible,
      table, tuple, ← filter_secretRows, List.filter_filter, Bool.and_comm]
    rfl
  | listSchedules workerNamespace =>
    refine iff_of_true (Eq.trans (authorized hauthorize hrpc) ?_) trivial
    simp only [call.allowsNamespace_eq hassignments, render, visible,
      table, tuple, ← filter_scheduleRows]
    rfl

end Listing

end Answers

def Listing.sealedCopy (granted : List (Grant Dimension String)) (db : Tables) : Listing → Tables
  | .listEngines => { db with cluster := { db.cluster with
      engines := db.cluster.engines.filter fun e =>
        decide (Covered granted (engineTuple e.registration)) } }
  | .getRoutingTable knownVersion =>
    { db with cluster := { db.cluster with version := knownVersion + 1 } }
  | _ => db

section

variable (granted : List (Grant Dimension String))

theorem engines_sealedCopy (db : Tables) : (Listing.listEngines.sealedCopy granted db).engines =
      db.engines.filter fun engine => decide (Covered granted (engineTuple engine)) := by
  rw [Tables.engines, Tables.engines, List.filter_map]
  rfl

theorem Listing.sealed_sealedCopy (db : Tables)
    (l : Listing) : l.Sealed granted (l.sealedCopy granted db) := by
  cases l with
  | listEngines =>
    intro engine hengine
    rw [engines_sealedCopy] at hengine
    exact Or.inl (of_decide_eq_true (List.mem_filter.mp hengine).2)
  | getRoutingTable knownVersion => exact Or.inr (Or.inl (Nat.succ_ne_self knownVersion).symm)
  | listManagers now livenessSecs | listSecrets nspace | listSchedules workerNamespace => trivial

theorem Listing.visible_sealedCopy (db : Tables)
    (l : Listing) : l.visible granted (l.sealedCopy granted db) = l.visible granted db := by
  cases l with
  | listEngines =>
    have hengines := engines_sealedCopy granted db
    change List.filter _ (Listing.listEngines.sealedCopy granted db).engines = List.filter _ _
    rw [hengines, List.filter_filter]
    exact List.filter_congr fun engine _ => Bool.and_self _
  | getRoutingTable knownVersion | listManagers now livenessSecs | listSecrets nspace
  | listSchedules workerNamespace => rfl

end

theorem admitted_ne_nil {granted : List RoleAssignment} {resource : Resource Dimension String}
    (hcovered : Covered (grants granted) resource) : granted ≠ [] := by
  rintro rfl
  obtain ⟨grant, hmem, -⟩ := hcovered
  cases hmem

/-- A person or service account is authorized exactly if one admitted assignment covers the
resource, and in the sealed states alone the answer depends only on rows that one such assignment
covers. -/
theorem whole_grants_confine_callers (policy : ValidatedPolicy) (isOpen : Bool)
    (evidence : LeafEvidence) (uri : PrincipalUri) (hprincipal : evidence.principal = some uri)
    (hperson : uri.kind.isAssignable = true) : (∀ rpc resource,
      (∃ call, authorize policy.toPolicySnapshot isOpen (some (.ok evidence)) rpc resource =
          .ok call) ↔ Recognized policy.toPolicySnapshot evidence uri ∧
          (isOpen = true ∨ rpc.allowedWhileClosed = true) ∧
          Covered (grants (policy.admitted rpc uri.asStr uri.kind)) resource.values) ∧
    ∀ l : Listing,
      (∃ call, authorize policy.toPolicySnapshot isOpen (some (.ok evidence)) l.rpc l.resource =
        .ok call) → ∀ db, (l.Sealed (l.granted policy.toPolicySnapshot uri) db ↔
          ∀ db', l.Sealed (l.granted policy.toPolicySnapshot uri) db' →
            l.visible (l.granted policy.toPolicySnapshot uri) db =
              l.visible (l.granted policy.toPolicySnapshot uri) db' →
            l.answer policy.toPolicySnapshot isOpen (some (.ok evidence)) db =
              l.answer policy.toPolicySnapshot isOpen (some (.ok evidence)) db') ∧
        (l.Sealed (l.granted policy.toPolicySnapshot uri) db →
          l.answer policy.toPolicySnapshot isOpen (some (.ok evidence)) db =
            l.render (l.visible (l.granted policy.toPolicySnapshot uri) db)) := by
  constructor
  · intro rpc resource
    constructor
    · rintro ⟨call, hauthorize⟩
      exact (policy.authorize_eq_ok hprincipal hperson hauthorize).1
    · rintro ⟨hrecognized, hopen, hcovered⟩
      exact policy.authorize_of_covered hperson hrecognized hopen hcovered
  · rintro l ⟨call, hauthorize⟩ db
    obtain ⟨⟨-, -, hcovered⟩, hrpc, hassignments⟩ :=
      policy.authorize_eq_ok hprincipal hperson hauthorize
    have hnonempty : call.assignments ≠ [] := by
      rw [hassignments]
      exact admitted_ne_nil hcovered
    have hrender (db : Tables) :
        l.answer policy.toPolicySnapshot isOpen (some (.ok evidence)) db =
            l.render (l.visible (l.granted policy.toPolicySnapshot uri) db) ↔
          l.Sealed (l.granted policy.toPolicySnapshot uri) db := by
      rw [Listing.granted, ← hassignments]
      exact l.answer_eq_render_iff hauthorize hrpc hnonempty
    refine ⟨⟨?_, ?_⟩, (hrender db).mpr⟩
    · intro hsealed db' hsealed' hvisible
      rw [(hrender db).mpr hsealed, (hrender db').mpr hsealed', hvisible]
    · intro hsame
      have hcopy := l.sealed_sealedCopy (l.granted policy.toPolicySnapshot uri) db
      have hvisible := l.visible_sealedCopy (l.granted policy.toPolicySnapshot uri) db
      apply (hrender db).mp
      rw [hsame _ hcopy hvisible.symm, (hrender _).mpr hcopy, hvisible]

namespace Sample

def reader : PrincipalUri := ⟨"cluster-a", .human, "reader"⟩

def policy : ValidatedPolicy where
  generation := 1
  clusterId := "cluster-a"
  principals := [(reader.asStr, .human)]
  assignments := [⟨reader.asStr, .view, ⟨none, some ["node-a"], none, none⟩⟩]
  managerEnrollments := []
  proxyEnrollments := []
  nodeAgentEnrollments := []
  revokedLeafFingerprints := []
  wellFormed := by
    constructor
    · intro a ha
      obtain rfl := List.mem_singleton.mp ha
      exact ⟨.human, by simp, [.nspace, .node], rfl, by decide⟩
    · simp
    · simp

def evidence : LeafEvidence := ⟨.client, some reader, "leaf"⟩

def idleEngine : EngineRegistration where
  engineId := "engine-b"
  address := "http://10.0.0.2:9000"
  proxyAddress := "http://127.0.0.1:9001"
  peerAddress := "https://10.0.0.2:9443"
  modules := []
  secrets := []
  dbNamespaces := []
  deployment := some ⟨"node-b", 1, "sha256:b", "slot", "operation", "sha256:r"⟩
  jobQueueId := ""
  jobAdminAddress := ""

def without : Tables := ⟨Routing.Cluster.empty, [], []⟩

def withIdle : Tables :=
  { without with cluster := { Routing.Cluster.empty with
      engines := [⟨idleEngine, "operation", "sha256:r", "activation", 1, 0, false⟩] } }

def cartEngine (nodeId : String) : EngineRegistration :=
  { idleEngine with
    engineId := "engine-" ++ nodeId
    modules := [⟨⟨"shop", "cart", "1.0.0"⟩, []⟩]
    deployment := some ⟨nodeId, 1, "sha256:b", "slot", "operation", "sha256:r"⟩ }

def twoNodes : Tables :=
  { without with cluster := { Routing.Cluster.empty with
      engines := ["node-a", "node-b"].map fun nodeId =>
        ⟨cartEngine nodeId, "operation", "sha256:r", "activation", 1, 0, false⟩ } }

theorem recognized : Recognized policy.toPolicySnapshot evidence reader :=
  ⟨rfl, rfl, rfl, by simp [policy], by simp [policy, reader]⟩

theorem granted_listEngines : Listing.listEngines.granted policy.toPolicySnapshot reader =
    [AssignmentScope.grant ⟨none, some ["node-a"], none, none⟩] := by
  simp [Listing.granted, PolicySnapshot.admitted, policy, grants, Listing.rpc, rolesForRow,
    Rpc.service, reader]

theorem authorized_listEngines :
    ∃ call, authorize policy.toPolicySnapshot true (some (.ok evidence)) .listEngines {} =
      .ok call := by
  refine policy.authorize_of_covered rfl recognized (Or.inl rfl) ?_
  have hgranted : grants (policy.admitted .listEngines reader.asStr reader.kind) = _ :=
    granted_listEngines
  rw [hgranted]
  decide

end Sample

open Sample

/-- An engine without modules passes the filter: the reader of one node sees the engine of
another. -/
theorem idle_engine_is_shown :
    (∃ call, authorize Sample.policy.toPolicySnapshot true (some (.ok evidence))
      .listEngines {} = .ok call) ∧
    ¬Covered (Listing.listEngines.granted Sample.policy.toPolicySnapshot reader)
      (engineTuple idleEngine) ∧ Listing.listEngines.visible
        (Listing.listEngines.granted Sample.policy.toPolicySnapshot reader) withIdle =
      Listing.listEngines.visible
        (Listing.listEngines.granted Sample.policy.toPolicySnapshot reader) without ∧
    listEngines Sample.policy.toPolicySnapshot true (some (.ok evidence))
      withIdle = .ok [idleEngine] ∧
    listEngines Sample.policy.toPolicySnapshot true (some (.ok evidence)) without = .ok [] := by
  obtain ⟨call, hauthorize⟩ := authorized_listEngines
  have hrpc := (Sample.policy.authorize_eq_ok rfl rfl hauthorize).2.1
  have hanswer (db : Tables) : listEngines Sample.policy.toPolicySnapshot true
      (some (.ok evidence)) db = .ok (db.engines.filter call.allowsEngine) :=
    authorized hauthorize hrpc
  refine ⟨⟨call, hauthorize⟩, ?_, ?_, ?_, ?_⟩
  · rw [granted_listEngines]
    decide
  · rw [granted_listEngines]
    decide
  · rw [hanswer]
    rfl
  · rw [hanswer]
    rfl

/-- Of the engines of two nodes the reader of one is answered with its own. -/
theorem whole_grants_confine_reader :
    (∃ call, authorize Sample.policy.toPolicySnapshot true (some (.ok evidence))
      .listEngines {} = .ok call) ∧
    Listing.listEngines.answer Sample.policy.toPolicySnapshot true (some (.ok evidence)) twoNodes =
      .ok [cartEngine "node-a"] := by
  have hconfined := whole_grants_confine_callers Sample.policy true evidence
    reader rfl rfl
  have hsealed : Listing.listEngines.Sealed
      (Listing.listEngines.granted Sample.policy.toPolicySnapshot reader) twoNodes := by
    rw [granted_listEngines]
    unfold Listing.Sealed EngineSealed
    decide
  have hvisible : Listing.listEngines.visible
      (Listing.listEngines.granted Sample.policy.toPolicySnapshot reader) twoNodes =
        [cartEngine "node-a"] := by
    rw [granted_listEngines]
    decide
  refine ⟨authorized_listEngines, ?_⟩
  rw [(hconfined.2 .listEngines authorized_listEngines twoNodes).2 hsealed, hvisible]
  rfl

end Wruntime.Auth
