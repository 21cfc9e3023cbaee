import Wruntime.Proxy.Selection

/-!
Requests on their way through proxies that have all installed one routing table. A proxy writes the
selected version into the request, and a peer reads it as a caret range over the candidates of all
nodes: it may relay the request on, and select another version.
-/

namespace Wruntime.Proxy

open Fallible Semver

variable {Build : Type}

structure Peer where
  peerAddress : String
  /-- The breakers that are there when the table is installed. -/
  registry : Registry
  egressAllowedDomains : List String

structure Request where
  destination : Option (Option String)
  version : Option String

/-- The internal destination that the header names, if it does. -/
def Request.key (request : Request) : Option RouteKey := do
  let host ← request.destination
  let host ← host.filter (· ≠ "")
  let (namespace_, module) ← splitHost host
  if '.' ∈ module.toList then none
  else
    let _ ← (RouteKey.validate namespace_ module).toOption
    pure ⟨namespace_, module⟩

section Gathering

variable {contract : Contract Build} {gathered : Gathered Build} {rule : RoutingRule}

/-- What holds of every candidate that the rules are turned into. -/
structure PreparedCandidate.Sound (contract : Contract Build)
    (candidate : PreparedCandidate Build) : Prop where
  parsed : contract.parse candidate.version = some candidate.parsedVersion
  valid : RouteKey.validate candidate.key.namespace_ candidate.key.module = .ok ()

theorem Contract.prepare_sound {selfPeerAddress : String}
    (h : ∀ c ∈ gathered.prepared, c.Sound contract) :
    ∀ c ∈ (contract.prepare selfPeerAddress gathered rule).prepared, c.Sound contract := by
  unfold Contract.prepare
  split
  · exact h
  split
  · exact h
  split
  · exact h
  next key hkey =>
    split
    · exact h
    next parsedVersion hparsed =>
      split
      · exact h
      dsimp only
      split
      · exact h
      next registry hresolve =>
        intro c hc
        rcases Table.mem_snoc.1 hc with hc | rfl
        · exact h c hc
        · simp only [RouteKey.parse, bind_eq_ok, pure_eq_ok] at hkey
          obtain ⟨⟨⟩, hvalid, rfl⟩ := hkey
          exact ⟨hparsed, hvalid⟩

theorem Contract.fromProto_sound (contract : Contract Build) (table : RoutingTable)
    (registry : Registry) (selfPeerAddress : String) :
    ∀ c ∈ (contract.fromProto table registry selfPeerAddress).prepared, c.Sound contract := by
  unfold Contract.fromProto
  have hstart : ∀ c ∈ (⟨registry, []⟩ : Gathered Build).prepared, c.Sound contract :=
    nofun
  generalize (⟨registry, []⟩ : Gathered Build) = start at hstart
  induction table.rules generalizing start with
  | nil => exact hstart
  | cons rule rules ih => exact ih _ (Contract.prepare_sound hstart)

end Gathering

theorem externalOr_ne_internal {host : String} {domains : List String} {status : StatusCode}
    {message : String → String} {key : RouteKey} {candidate : Candidate Build} :
    externalOr host domains status message ≠ .internal key candidate := by
  unfold externalOr
  split <;> nofun

variable [LinearOrder Build]

theorem mem_candidates {gathered : Gathered Build} {key : RouteKey} {candidate : Candidate Build} :
    candidate ∈ gathered.candidates key ↔
      ∃ c ∈ gathered.prepared, c.key = key ∧ c.toCandidate = candidate := by
  rw [Gathered.candidates, (List.perm_insertionSort _ _).mem_iff, List.mem_map]
  simp only [List.mem_filter, decide_eq_true_eq, and_assoc]

theorem candidates_sorted (gathered : Gathered Build) (key : RouteKey) :
    (gathered.candidates key).Pairwise higher := by
  have htotal : Std.Total (α := Candidate Build) higher := ⟨fun a b => le_total _ _⟩
  have htrans : IsTrans (Candidate Build) higher := ⟨fun a b c hab hbc => le_trans hbc hab⟩
  exact List.pairwise_insertionSort _ _

section Fleet

variable (contract : Contract Build) (table : RoutingTable)

def Peer.index (peer : Peer) : Gathered Build :=
  contract.fromProto table peer.registry peer.peerAddress

def Peer.candidates (peer : Peer) (key : RouteKey) : List (Candidate Build) :=
  ((contract.get (peer.index contract table) key).map (·.candidates)).getD []

/-- `RoutingService::call` up to the choice of what to do with the request. -/
def Peer.handle (peer : Peer) (request : Request) (decision : Decision) : RouteOutcome Build :=
  match contract.parseRequestedVersion request.version with
  | .error message => .reject .badRequest message
  | .ok requested =>
    contract.routeDestination (peer.index contract table) peer.egressAllowedDomains
      request.destination requested decision

def Peer.Selects (peer : Peer) (request : Request) (decision : Decision)
    (candidate : Candidate Build) : Prop :=
  ∃ key, peer.handle contract table request decision = .internal key candidate

/-- The request as it arrives at a peer: the selected version is in its header. -/
def Request.relayed (request : Request) (candidate : Candidate Build) : Request :=
  { request with version := some candidate.version }

end Fleet

variable {contract : Contract Build} {table : RoutingTable} {peer : Peer} {key : RouteKey}
  {request : Request} {decision : Decision} {candidate other : Candidate Build}
  {destination : Option (Option String)} {text : String} {v : Version Build}

theorem Contract.get_eq_some {index : Gathered Build} {group : RouteGroup Build}
    (h : contract.get index key = some group) :
    group = ⟨key, index.candidates key, versionGroups (index.candidates key)⟩ := by
  simp only [Contract.get] at h
  split at h
  · cases h
  split at h
  · cases h
  exact (Option.some.inj h).symm

/-- An internal outcome is a selection from the group of the module that the request names. -/
theorem routeDestination_eq_internal {index : Gathered Build} {domains : List String}
    {requested : RequestedVersion Build} :
    contract.routeDestination index domains request.destination requested decision =
        .internal key candidate ↔
      request.key = some key ∧ ∃ group, contract.get index key = some group ∧
        selectCandidate group requested decision = some candidate := by
  constructor
  · intro h
    unfold Contract.routeDestination at h
    split at h
    · cases h
    next host hdestination =>
    split at h
    · cases h
    next name hname =>
    split at h
    · exact absurd h externalOr_ne_internal
    next namespace_ module hsplit =>
    split at h
    · exact absurd h externalOr_ne_internal
    next hdot =>
    split at h
    · cases h
    next hvalid =>
    split at h
    · exact absurd h externalOr_ne_internal
    next group hget =>
    split at h
    next selected hselect =>
      rw [Contract.get_eq_some hget] at h
      cases h
      refine ⟨?_, group, hget, hselect⟩
      simp only [Request.key, hdestination, hname, hsplit, hdot, hvalid, Option.bind_eq_bind,
        Option.bind_some, if_false, Except.toOption, Option.pure_def]
    next => cases h
  · rintro ⟨hkey, group, hget, hselect⟩
    simp only [Request.key, Option.bind_eq_bind, Option.bind_eq_some_iff] at hkey
    obtain ⟨host, hdestination, name, hname, ⟨namespace_, module⟩, hsplit, hkey⟩ := hkey
    split at hkey
    · cases hkey
    next hdot =>
    cases hvalid : RouteKey.validate namespace_ module with
    | error error => simp [hvalid, Except.toOption] at hkey
    | ok =>
      obtain rfl : ⟨namespace_, module⟩ = key := by simpa [hvalid, Except.toOption] using hkey
      have hgroup : group.key = ⟨namespace_, module⟩ := by rw [Contract.get_eq_some hget]
      simp only [Contract.routeDestination, hdestination, hname, hsplit, if_neg hdot, hvalid, hget,
        hselect, hgroup]

theorem Peer.Selects.unique (h : peer.Selects contract table request decision candidate)
    (h' : peer.Selects contract table request decision other) : candidate = other := by
  obtain ⟨key, h⟩ := h
  obtain ⟨key', h'⟩ := h'
  rw [h] at h'
  exact (RouteOutcome.internal.inj h').2

theorem Peer.selects_iff : peer.Selects contract table request decision candidate ↔
      ∃ key requested group, request.key = some key ∧
        contract.parseRequestedVersion request.version = .ok requested ∧
        contract.get (peer.index contract table) key = some group ∧
        selectCandidate group requested decision = some candidate := by
  unfold Peer.Selects Peer.handle
  cases hversion : contract.parseRequestedVersion request.version with
  | error message => simp
  | ok requested =>
    simp only [routeDestination_eq_internal, Except.ok.injEq]
    constructor
    · rintro ⟨key, hkey, group, hget, hselect⟩
      exact ⟨key, requested, group, hkey, rfl, hget, hselect⟩
    · rintro ⟨key, _, group, hkey, rfl, hget, hselect⟩
      exact ⟨key, hkey, group, hget, hselect⟩

theorem Peer.candidates_eq {group : RouteGroup Build}
    (h : contract.get (peer.index contract table) key = some group) :
    group = ⟨key, peer.candidates contract table key,
      versionGroups (peer.candidates contract table key)⟩ := by
  have hgroup := Contract.get_eq_some h
  simp only [Peer.candidates, h, Option.map_some, Option.getD_some]
  rw [hgroup]

section

variable (h : candidate ∈ peer.candidates contract table key)
include h

theorem Peer.candidates_of_get : contract.get (peer.index contract table) key =
      some ⟨key, peer.candidates contract table key,
        versionGroups (peer.candidates contract table key)⟩ := by
  cases hget : contract.get (peer.index contract table) key with
  | none => simp [Peer.candidates, hget] at h
  | some group => rw [Peer.candidates_eq hget]

theorem Peer.sound_of_mem : contract.parse candidate.version = some candidate.parsedVersion ∧
      RouteKey.validate key.namespace_ key.module = .ok () := by
  have hgroup := Contract.get_eq_some (Peer.candidates_of_get h)
  have hcandidates := congrArg RouteGroup.candidates hgroup
  simp only at hcandidates
  rw [hcandidates] at h
  obtain ⟨c, hc, rfl, rfl⟩ := mem_candidates.1 h
  have hsound := contract.fromProto_sound table peer.registry peer.peerAddress c hc
  exact ⟨hsound.parsed, hsound.valid⟩

end

theorem Peer.parsed_candidates (peer : Peer) (key : RouteKey) :
    contract.Parsed (peer.candidates contract table key) :=
  fun _ h => (Peer.sound_of_mem h).1

theorem Peer.candidates_sorted (peer : Peer) (key : RouteKey) :
    (peer.candidates contract table key).Pairwise higher := by
  unfold Peer.candidates
  cases hget : contract.get (peer.index contract table) key with
  | none => exact List.Pairwise.nil
  | some group =>
    rw [Contract.get_eq_some hget]
    exact Proxy.candidates_sorted _ key

theorem Peer.Selects.mem (h : peer.Selects contract table request decision candidate) :
    ∃ key, request.key = some key ∧ candidate ∈ peer.candidates contract table key := by
  obtain ⟨key, requested, group, hkey, -, hget, hselect⟩ := Peer.selects_iff.1 h
  refine ⟨key, hkey, ?_⟩
  rw [Peer.candidates_eq hget] at hselect
  cases requested with
  | unpinned => exact mem_of_chooseCandidate hselect
  | requirement selector raw =>
    exact (highest_of_select (peer.candidates_sorted key) (peer.parsed_candidates key) hselect).1

section Complete

variable (hparse : contract.parse text = some v) (hversion : request.version = some text)
  (hkey : request.key = some key)
include hparse hversion hkey

/-- For a complete version, a proxy selects candidates of the highest version in its range. -/
theorem Peer.Selects.highest (h : peer.Selects contract table request decision candidate) :
    Highest (peer.candidates contract table key) v.caret candidate := by
  obtain ⟨key', requested, group, hkey', hrequested, hget, hselect⟩ := Peer.selects_iff.1 h
  obtain rfl : key = key' := Option.mem_unique hkey hkey'
  rw [hversion, Contract.requested_of_parse hparse] at hrequested
  obtain rfl := Except.ok.inj hrequested
  rw [Peer.candidates_eq hget] at hselect
  exact highest_of_select (peer.candidates_sorted key) (peer.parsed_candidates key) hselect

theorem Peer.exists_selects (hmem : candidate ∈ peer.candidates contract table key)
    (hrange : v.caret candidate.parsedVersion = true) (decision : Decision) :
    ∃ selected, peer.Selects contract table request decision selected := by
  obtain ⟨selected, hselected⟩ := select_eq_some (peer.candidates_sorted key)
    (peer.parsed_candidates key) hmem hrange key text decision
  refine ⟨selected, Peer.selects_iff.2 ⟨key, _, _, hkey, ?_, Peer.candidates_of_get hmem, hselected⟩⟩
  rw [hversion, Contract.requested_of_parse hparse]

/-- Each candidate of the highest version in the range is selected under some decision. -/
theorem Peer.selects_of_highest
    (h : Highest (peer.candidates contract table key) v.caret candidate) :
    ∃ decision, peer.Selects contract table request decision candidate := by
  obtain ⟨decision, hselect⟩ := exists_select (peer.candidates_sorted key)
    (peer.parsed_candidates key) h key text
  refine ⟨decision, Peer.selects_iff.2 ⟨key, _, _, hkey, ?_, Peer.candidates_of_get h.1, hselect⟩⟩
  rw [hversion, Contract.requested_of_parse hparse]

end Complete

/-- Over all decisions a requirement is given exactly the candidates of its highest version. -/
theorem requirement_selects_highest (contract : Contract Build) (table : RoutingTable)
    (peer : Peer) (key : RouteKey) (selector : Version Build → Bool) (raw : String)
    (candidate : Candidate Build) :
    (∃ decision, (contract.get (peer.index contract table) key).bind
        (selectCandidate · (.requirement selector raw) decision) = some candidate) ↔
      Highest (peer.candidates contract table key) selector candidate := by
  constructor
  · rintro ⟨decision, h⟩
    obtain ⟨group, hget, hselect⟩ := Option.bind_eq_some_iff.1 h
    rw [Peer.candidates_eq hget] at hselect
    exact highest_of_select (peer.candidates_sorted key) (peer.parsed_candidates key) hselect
  · intro h
    obtain ⟨decision, hselect⟩ := exists_select (peer.candidates_sorted key)
      (peer.parsed_candidates key) h key raw
    exact ⟨decision, Option.bind_eq_some_iff.2 ⟨_, Peer.candidates_of_get h.1, hselect⟩⟩

theorem Peer.selects_of_mem (hversion : request.version = none) (hkey : request.key = some key)
    (h : candidate ∈ peer.candidates contract table key) :
    ∃ decision, peer.Selects contract table request decision candidate := by
  obtain ⟨decision, hchoose⟩ := exists_chooseCandidate h
  refine ⟨decision, Peer.selects_iff.2 ⟨key, .unpinned, _, hkey, ?_, Peer.candidates_of_get h, hchoose⟩⟩
  rw [hversion]
  rfl

theorem dot_not_mem_of_validateName {value kind : String} (h : Auth.validateName value kind = .ok ()) :
    '.' ∉ value.toList := by
  simp only [Auth.validateName, bind_eq_ok, ensure_eq_ok] at h
  obtain ⟨-, -, -, -, -, -, -, -, hall⟩ := h
  intro hdot
  have := List.all_eq_true.1 hall '.' hdot
  revert this
  decide

theorem exists_host (h : RouteKey.validate key.namespace_ key.module = .ok ()) :
    ∃ destination, ∀ version, (Request.mk destination version).key = some key := by
  have hvalid := h
  simp only [RouteKey.validate, bind_eq_ok] at h
  obtain ⟨⟨⟩, hnamespace, hmodule⟩ := h
  have hleft := dot_not_mem_of_validateName hnamespace
  have hright := dot_not_mem_of_validateName hmodule
  refine ⟨some (some (key.namespace_ ++ "." ++ key.module)), fun version => ?_⟩
  have hchars : (key.namespace_ ++ "." ++ key.module).toList =
      key.namespace_.toList ++ '.' :: key.module.toList := by
    simp
  have hne : key.namespace_ ++ "." ++ key.module ≠ "" := by
    intro hempty
    rw [hempty] at hchars
    simp at hchars
  have hsplit : splitHost (key.namespace_ ++ "." ++ key.module) =
      some (key.namespace_, key.module) := by
    have hspan : (key.namespace_.toList ++ '.' :: key.module.toList).span (· ≠ '.') =
        (key.namespace_.toList, '.' :: key.module.toList) := by
      rw [List.span_eq_takeWhile_dropWhile]
      have hall : ∀ c ∈ key.namespace_.toList, decide (c ≠ '.') = true := by
        intro c hc
        exact decide_eq_true fun heq => hleft (heq ▸ hc)
      rw [List.takeWhile_append_of_pos hall, List.dropWhile_append_of_pos hall]
      simp
    simp only [splitHost, hchars, hspan, String.ofList_toList]
  have hfilter : (some (key.namespace_ ++ "." ++ key.module)).filter (· ≠ "") =
      some (key.namespace_ ++ "." ++ key.module) := by
    simp [Option.filter, hne]
  simp only [Request.key, hfilter, hsplit, hright, hvalid, Option.bind_eq_bind, Option.bind_some,
    if_false, Except.toOption]
  rfl

/-- A request with this destination and version can be relayed this many times from the proxy. -/
inductive Relays (contract : Contract Build) (table : RoutingTable) (fleet : List Peer)
    (destination : Option (Option String)) : Peer → Option String → Nat → Prop
  | stop (peer : Peer) (version : Option String) :
      Relays contract table fleet destination peer version 0
  | lost {peer : Peer} {version : Option String} {decision : Decision}
      {candidate : Candidate Build} {address : String}
      (hselects : peer.Selects contract table ⟨destination, version⟩ decision candidate)
      (hremote : candidate.destination = .remoteProxy address) :
      Relays contract table fleet destination peer version 1
  | hop {peer next : Peer} {version : Option String} {decision : Decision}
      {candidate : Candidate Build} {count : Nat}
      (hselects : peer.Selects contract table ⟨destination, version⟩ decision candidate)
      (hremote : candidate.destination = .remoteProxy next.peerAddress) (hnext : next ∈ fleet)
      (hrest : Relays contract table fleet destination next (some candidate.version) count) :
      Relays contract table fleet destination peer version (count + 1)

/-- No request is relayed twice: a peer hands what it is sent to an engine of its own. -/
def SingleHop (contract : Contract Build) (table : RoutingTable) (fleet : List Peer) : Prop :=
  (∀ peer ∈ fleet, ∀ destination version count,
    Relays contract table fleet destination peer version count → count ≤ 1) ∧
  ∀ peer ∈ fleet, ∀ next ∈ fleet, ∀ request decision candidate,
    peer.Selects contract table request decision candidate →
    candidate.destination = .remoteProxy next.peerAddress →
    ∀ decision', ∃ served,
      next.Selects contract table (request.relayed candidate) decision' served ∧
        served.destination.isLocal = true

theorem not_relays_of_local {fleet : List Peer} {version : Option String} {count : Nat}
    (hlocal : ∀ decision, ∃ served,
      peer.Selects contract table ⟨destination, version⟩ decision served ∧
        served.destination.isLocal = true)
    (h : Relays contract table fleet destination peer version count) : count = 0 := by
  have hnone : ∀ decision candidate address,
      peer.Selects contract table ⟨destination, version⟩ decision candidate →
      candidate.destination ≠ .remoteProxy address := by
    intro decision candidate address hselects hremote
    obtain ⟨served, hserved, hislocal⟩ := hlocal decision
    obtain rfl := hselects.unique hserved
    rw [hremote] at hislocal
    cases hislocal
  cases h with
  | stop => rfl
  | lost hselects hremote | hop hselects hremote => exact absurd hremote (hnone _ _ _ hselects)

/-- A fleet relays every request at most once exactly if, wherever a proxy has a candidate on
another node, that node has a candidate in the caret range of its version, and its highest ones
there are its own engines. -/
theorem single_hop_iff (contract : Contract Build) (table : RoutingTable) (fleet : List Peer) :
    SingleHop contract table fleet ↔
      ∀ peer ∈ fleet, ∀ next ∈ fleet, ∀ key, ∀ candidate ∈ peer.candidates contract table key,
        candidate.destination = .remoteProxy next.peerAddress →
        (∃ c ∈ next.candidates contract table key,
          candidate.parsedVersion.caret c.parsedVersion = true) ∧
        ∀ c, Highest (next.candidates contract table key) candidate.parsedVersion.caret c →
          c.destination.isLocal = true := by
  constructor
  · rintro ⟨-, hhanded⟩ peer hpeer next hnext key candidate hmem hremote
    obtain ⟨hparse, hvalid⟩ := Peer.sound_of_mem hmem
    obtain ⟨destination, hkey⟩ := exists_host hvalid
    -- The candidate is selected for an unpinned request and relayed.
    have hunpinned : ∃ decision,
        peer.Selects contract table ⟨destination, none⟩ decision candidate :=
      Peer.selects_of_mem rfl (hkey none) hmem
    obtain ⟨decision, hselects⟩ := hunpinned
    have hall := hhanded peer hpeer next hnext _ decision candidate hselects hremote
    have hkey' : (Request.relayed ⟨destination, none⟩ candidate).key = some key := hkey _
    refine ⟨?_, fun c hhighest => ?_⟩
    · obtain ⟨served, hserved, -⟩ := hall ⟨fun _ => true, 0⟩
      have hhighest := hserved.highest hparse rfl hkey'
      exact ⟨served, hhighest.1, hhighest.2.1⟩
    · obtain ⟨decision', hselects'⟩ := Peer.selects_of_highest hparse rfl hkey' hhighest
      obtain ⟨served, hserved, hlocal⟩ := hall decision'
      exact hselects'.unique hserved ▸ hlocal
  · intro hcondition
    have hhanded : ∀ peer ∈ fleet, ∀ next ∈ fleet, ∀ request decision candidate,
        peer.Selects contract table request decision candidate →
        candidate.destination = .remoteProxy next.peerAddress →
        ∀ decision', ∃ served,
          next.Selects contract table (request.relayed candidate) decision' served ∧
            served.destination.isLocal = true := by
      intro peer hpeer next hnext request decision candidate hselects hremote decision'
      obtain ⟨key, hkey, hmem⟩ := hselects.mem
      obtain ⟨hparse, -⟩ := Peer.sound_of_mem hmem
      have hkey' : (request.relayed candidate).key = some key := hkey
      obtain ⟨⟨c, hc, hrange⟩, hlocal⟩ :=
        hcondition peer hpeer next hnext key candidate hmem hremote
      obtain ⟨served, hserved⟩ := Peer.exists_selects hparse rfl hkey' hc hrange decision'
      exact ⟨served, hserved, hlocal served (hserved.highest hparse rfl hkey')⟩
    refine ⟨?_, hhanded⟩
    intro peer hpeer destination version count hrelays
    cases hrelays with
    | stop => exact Nat.zero_le 1
    | lost => exact le_rfl
    | hop hselects hremote hnext hrest =>
      have hlast := not_relays_of_local
        (hhanded peer hpeer _ hnext _ _ _ hselects hremote) hrest
      omega

namespace Sample

def release (minor : Nat) : Version Unit := ⟨1, minor, 0, ⊤, ()⟩

def parse (text : String) : Option (Version Unit) :=
  if text = "1.2.0" then some (release 2) else if text = "1.3.0" then some (release 3) else none

theorem parse_eq_some {v : Version Unit} (h : parse text = some v) :
    text = "1.2.0" ∧ v = release 2 ∨ text = "1.3.0" ∧ v = release 3 := by
  unfold parse at h
  split at h
  next htext => exact .inl ⟨htext, (Option.some.inj h).symm⟩
  next =>
    split at h
    next htext => exact .inr ⟨htext, (Option.some.inj h).symm⟩
    next => cases h

def releases : Contract Unit where
  parse := parse
  requirement := fun text => (parse text).map Version.caret
  header := fun _ => true
  bare := fun text v h => by rw [h, Option.map_some]
  injective := by
    intro text text' v h h'
    rcases parse_eq_some h with ⟨rfl, rfl⟩ | ⟨rfl, rfl⟩
    · rcases parse_eq_some h' with ⟨rfl, -⟩ | ⟨-, hv⟩
      · rfl
      · exact absurd hv (by decide)
    · rcases parse_eq_some h' with ⟨-, hv⟩ | ⟨rfl, -⟩
      · exact absurd hv (by decide)
      · rfl

def rule (version node : String) : RoutingRule :=
  ⟨"shop", "cart", version, "https://" ++ node ++ ":9150", "https://" ++ node ++ ":9444", true⟩

def node (name : String) : Peer := ⟨"https://" ++ name ++ ":9444", fun _ => none, []⟩

def cart : RouteKey := ⟨"shop", "cart"⟩

def toCart : Option (Option String) := some (some "shop.cart")

def replicated : RoutingTable := ⟨[rule "1.2.0" "b", rule "1.2.0" "c"]⟩

/-- The candidate of version 1.2.0 on the node, as seen from other nodes. -/
def remote (name : String) : Candidate Unit :=
  ⟨"1.2.0", release 2, .remoteProxy ("https://" ++ name ++ ":9444")⟩

theorem first_hop : (node "a").Selects releases replicated ⟨toCart, none⟩ ⟨fun _ => true, 0⟩
    (remote "b") := ⟨cart, by decide +kernel⟩

theorem second_hop : (node "b").Selects releases replicated ⟨toCart, some "1.2.0"⟩
    ⟨fun _ => true, 1⟩ (remote "c") := ⟨cart, by decide +kernel⟩

end Sample

section

open Sample

/-- Node a relays a request to node b, which relays it to node c. -/
theorem replica_relayed_twice :
    Relays releases replicated [node "a", node "b", node "c"] toCart (node "a") none 2 := by
  have hlast : Relays releases replicated [node "a", node "b", node "c"] toCart (node "b")
      (some (remote "b").version) 1 := .lost second_hop rfl
  exact .hop first_hop rfl (by simp) hlast

end

/-- Where a request can be, and with which version, after any number of relays. -/
inductive Travels (contract : Contract Build) (table : RoutingTable) (fleet : List Peer)
    (destination : Option (Option String)) (start : Peer) (version : Option String) :
    Peer → Option String → Prop
  | here : Travels contract table fleet destination start version start version
  | hop {peer next : Peer} {current : Option String} {decision : Decision}
      {candidate : Candidate Build}
      (hprev : Travels contract table fleet destination start version peer current)
      (hselects : peer.Selects contract table ⟨destination, current⟩ decision candidate)
      (hremote : candidate.destination = .remoteProxy next.peerAddress) (hnext : next ∈ fleet) :
      Travels contract table fleet destination start version next (some candidate.version)

structure SubmitJobRequest where
  workerNamespace : String
  workerName : String
  workerVersion : String

/-- The checks of the engine's submit handler against the routed headers. -/
def checkRoutedWorker (routedNamespace routedModule routedVersion : Option String)
    (request : SubmitJobRequest) : Except String Unit :=
  match routedNamespace, routedModule with
  | some namespace_, some module => do
    ensure (request.workerNamespace = namespace_ ∧ request.workerName = module)
      "SubmitJobRequest worker identity does not match routed destination"
    ensure (request.workerVersion = "" ∨ ∀ version ∈ routedVersion, version = request.workerVersion)
      "x-wr-version does not match SubmitJobRequest.worker_version"
  | _, _ => throw "missing routed worker identity headers"

def RoutingTable.Offers (table : RoutingTable) (key : RouteKey) (version : String) : Prop :=
  ∃ rule ∈ table.rules, rule.healthy = true ∧ rule.destinationNamespace = key.namespace_ ∧
    rule.destinationModule = key.module ∧ rule.destinationVersion = version

/-- Wherever relays take the request, the proxy selects an engine of the version, which accepts a
job pinned to it. -/
def Faithful (contract : Contract Build) (table : RoutingTable) (fleet : List Peer)
    (destination : Option (Option String)) (key : RouteKey) (version : String) : Prop :=
  ∀ start ∈ fleet, ∀ peer current,
    Travels contract table fleet destination start (some version) peer current →
    ∀ decision, ∃ served, peer.Selects contract table ⟨destination, current⟩ decision served ∧
      served.version = version ∧
      checkRoutedWorker (some key.namespace_) (some key.module) (some served.version)
        ⟨key.namespace_, key.module, version⟩ = .ok ()

/-- At every proxy the version is indexed and is the highest in its own caret range. -/
def Dominant (contract : Contract Build) (table : RoutingTable) (fleet : List Peer)
    (key : RouteKey) (version : String) (v : Version Build) : Prop :=
  ∀ peer ∈ fleet, (∃ c ∈ peer.candidates contract table key, c.version = version) ∧
    ∀ c ∈ peer.candidates contract table key, v.caret c.parsedVersion = true → c.parsedVersion ≤ v

section Pinned

variable {fleet : List Peer}

theorem Dominant.selects (hparse : contract.parse text = some v)
    (hdominant : Dominant contract table fleet key text v) (hpeer : peer ∈ fleet)
    (hkey : request.key = some key) (hversion : request.version = some text) (decision : Decision) :
    ∃ served, peer.Selects contract table request decision served ∧ served.version = text := by
  obtain ⟨⟨c, hc, rfl⟩, hbound⟩ := hdominant peer hpeer
  obtain rfl : c.parsedVersion = v :=
    Option.some.inj ((peer.parsed_candidates key c hc).symm.trans hparse)
  obtain ⟨served, hserved⟩ :=
    Peer.exists_selects hparse hversion hkey hc (Version.caret_self _) decision
  have hhighest := hserved.highest hparse hversion hkey
  refine ⟨served, hserved, ?_⟩
  -- The served version is not below the requested one, and nothing in the range is above it.
  have hle := hbound served hhighest.1 hhighest.2.1
  have hge := hhighest.2.2 c hc (Version.caret_self _)
  exact ((peer.parsed_candidates key).version_eq_iff hhighest.1 hc).2 (le_antisymm hle hge)

theorem Dominant.travels (hparse : contract.parse text = some v)
    (hdominant : Dominant contract table fleet key text v)
    (hkey : ∀ version, (Request.mk destination version).key = some key) {start : Peer}
    (hstart : start ∈ fleet) {current : Option String}
    (h : Travels contract table fleet destination start (some text) peer current) :
    peer ∈ fleet ∧ current = some text := by
  induction h with
  | here => exact ⟨hstart, rfl⟩
  | @hop peer next current decision candidate hprev hselects hremote hnext ih =>
    obtain ⟨hpeer, rfl⟩ := ih
    obtain ⟨served, hserved, hversion⟩ :=
      hdominant.selects hparse hpeer (hkey (some text)) rfl decision
    obtain rfl := hselects.unique hserved
    exact ⟨hnext, congrArg some hversion⟩

end Pinned

/-- For a complete version, requests are served by it all along their way exactly if every proxy has
it indexed and no higher version in its caret range. -/
theorem exact_version_iff (contract : Contract Build) (table : RoutingTable) (fleet : List Peer)
    (hparse : contract.parse text = some v) (hkey : (Request.mk destination none).key = some key) :
    (table.Offers key text → Faithful contract table fleet destination key text) ↔
      (table.Offers key text → Dominant contract table fleet key text v) := by
  have hkeys : ∀ version, (Request.mk destination version).key = some key := fun _ => hkey
  refine forall_congr' fun _ => ⟨fun hfaithful peer hpeer => ?_, fun hdominant => ?_⟩
  · have hserve := hfaithful peer hpeer peer (some text) .here
    obtain ⟨served, hserved, hversion, -⟩ := hserve ⟨fun _ => true, 0⟩
    have hhighest := hserved.highest hparse rfl (hkeys _)
    have hsame : served.parsedVersion = v := by
      have hparsed := peer.parsed_candidates key served hhighest.1
      rw [hversion, hparse] at hparsed
      exact (Option.some.inj hparsed).symm
    exact ⟨⟨served, hhighest.1, hversion⟩, fun c hc hrange => hsame ▸ hhighest.2.2 c hc hrange⟩
  · intro start hstart peer current htravels decision
    obtain ⟨hpeer, rfl⟩ := hdominant.travels hparse hkeys hstart htravels
    obtain ⟨served, hserved, hversion⟩ := hdominant.selects hparse hpeer (hkeys _) rfl decision
    refine ⟨served, hserved, hversion, ?_⟩
    simp [checkRoutedWorker, hversion]

namespace Sample

def upgraded : RoutingTable := ⟨[rule "1.2.0" "a", rule "1.3.0" "a"]⟩

def settled : RoutingTable := ⟨[rule "1.2.0" "a"]⟩

end Sample

section

open Sample

/-- A request for 1.2.0 goes to the engine of 1.3.0, which refuses the job pinned to 1.2.0. -/
theorem pinned_request_served_by_other_version :
    upgraded.Offers cart "1.2.0" ∧ (Request.mk toCart none).key = some cart ∧
      ∃ served, (node "a").Selects releases upgraded ⟨toCart, some "1.2.0"⟩ ⟨fun _ => true, 0⟩ served ∧
        served.version = "1.3.0" ∧
        checkRoutedWorker (some "shop") (some "cart") (some served.version)
          ⟨"shop", "cart", "1.2.0"⟩ =
            .error "x-wr-version does not match SubmitJobRequest.worker_version" := by
  refine ⟨⟨rule "1.2.0" "a", by simp [upgraded], rfl, rfl, rfl, rfl⟩, by decide +kernel,
    ⟨"1.3.0", release 3, .localEngine "https://a:9150"⟩, ⟨cart, by decide +kernel⟩, rfl, ?_⟩
  decide

/-- Both versions are offered, and the higher one is served through either of two proxies. -/
theorem highest_version_served :
    releases.parse "1.3.0" = some (release 3) ∧ (Request.mk toCart none).key = some cart ∧
      upgraded.Offers cart "1.3.0" ∧
      Faithful releases upgraded [node "a", node "b"] toCart cart "1.3.0" := by
  have hkey : (Request.mk toCart none).key = some cart := by decide +kernel
  have hoffers : upgraded.Offers cart "1.3.0" :=
    ⟨rule "1.3.0" "a", by simp [upgraded], rfl, rfl, rfl, rfl⟩
  have hdominant : Dominant releases upgraded [node "a", node "b"] cart "1.3.0" (release 3) := by
    unfold Dominant
    decide +kernel
  exact ⟨rfl, hkey, hoffers, (exact_version_iff releases upgraded [node "a", node "b"] rfl hkey).2
    (fun _ => hdominant) hoffers⟩

end

end Wruntime.Proxy
