import Wruntime.Auth.Policy
import Wruntime.Lib.Semver

/-!
The request index of a proxy: `IndexedRoutingTable::from_proto` keeps the healthy rules it can use,
tells local engines from peer proxies by the peer address, and groups a module's candidates by
version, highest first. A group holds its candidates where the source holds their positions.
-/

namespace Wruntime.Proxy

open Fallible Semver

structure RoutingRule where
  destinationNamespace : String
  destinationModule : String
  destinationVersion : String
  engineAddress : String
  peerAddress : String
  healthy : Bool

structure RoutingTable where
  rules : List RoutingRule

/-- The semver and header parsers. A bare version is a caret requirement, and version texts are
injective. -/
structure Contract (Build : Type) where
  parse : String → Option (Version Build)
  requirement : String → Option (Version Build → Bool)
  header : String → Bool
  bare : ∀ text v, parse text = some v → requirement text = some v.caret
  injective : ∀ text text' v, parse text = some v → parse text' = some v → text = text'

inductive Destination where
  | localEngine (address : String)
  | remoteProxy (address : String)
  deriving DecidableEq

def Destination.address : Destination → String
  | .localEngine address | .remoteProxy address => address

def Destination.isLocal : Destination → Bool
  | .localEngine _ => true
  | .remoteProxy _ => false

inductive BreakerTargetClass where
  | localEngine
  | remoteProxy
  deriving DecidableEq

def Destination.targetClass : Destination → BreakerTargetClass
  | .localEngine _ => .localEngine
  | .remoteProxy _ => .remoteProxy

/-- The class under which each forwarding address has its breaker. -/
abbrev Registry := String → Option BreakerTargetClass

def Registry.resolve (registry : Registry) (address : String) (targetClass : BreakerTargetClass) :
    Except BreakerTargetClass Registry :=
  match registry address with
  | some existing => if existing = targetClass then .ok registry else .error existing
  | none => .ok (Function.update registry address (some targetClass))

structure RouteKey where
  namespace_ : String
  module : String
  deriving DecidableEq

def RouteKey.validate (namespace_ module : String) : Except String Unit := do
  Auth.validateName namespace_ "namespace"
  Auth.validateName module "module name"

def RouteKey.parse (namespace_ module : String) : Except String RouteKey := do
  RouteKey.validate namespace_ module
  pure ⟨namespace_, module⟩

variable {Build : Type}

structure Candidate (Build : Type) where
  version : String
  parsedVersion : Version Build
  destination : Destination
  deriving DecidableEq

structure PreparedCandidate (Build : Type) extends Candidate Build where
  key : RouteKey

def makeDestination (rule : RoutingRule) (selfPeerAddress : String) : Destination :=
  if rule.peerAddress = selfPeerAddress then .localEngine rule.engineAddress
  else .remoteProxy rule.peerAddress

/-- What `from_proto` has gathered from the rules so far. -/
structure Gathered (Build : Type) where
  registry : Registry
  prepared : List (PreparedCandidate Build)

def Contract.prepare (contract : Contract Build) (selfPeerAddress : String)
    (gathered : Gathered Build) (rule : RoutingRule) : Gathered Build :=
  if rule.healthy = false then gathered
  else if rule.peerAddress = "" then gathered
  else match RouteKey.parse rule.destinationNamespace rule.destinationModule with
    | .error _ => gathered
    | .ok key =>
      match contract.parse rule.destinationVersion with
      | none => gathered
      | some parsedVersion =>
        if contract.header rule.destinationVersion = false then gathered
        else
          let destination := makeDestination rule selfPeerAddress
          match gathered.registry.resolve destination.address destination.targetClass with
          | .error _ => gathered
          | .ok registry =>
            ⟨registry, gathered.prepared ++
              [⟨⟨rule.destinationVersion, parsedVersion, destination⟩, key⟩]⟩

structure VersionGroup (Build : Type) where
  parsedVersion : Version Build
  version : String
  candidates : List (Candidate Build)

def addCandidate (groups : List (VersionGroup Build)) (candidate : Candidate Build) :
    List (VersionGroup Build) :=
  if groups.any (·.version = candidate.version) then
    groups.map fun group =>
      if group.version = candidate.version then
        { group with candidates := group.candidates ++ [candidate] }
      else group
  else groups ++ [⟨candidate.parsedVersion, candidate.version, [candidate]⟩]

def versionGroups (candidates : List (Candidate Build)) : List (VersionGroup Build) :=
  candidates.foldl addCandidate []

structure RouteGroup (Build : Type) where
  key : RouteKey
  candidates : List (Candidate Build)
  versionGroups : List (VersionGroup Build)

section Building

variable [LinearOrder Build]

/-- The sort of a module's candidates, highest version first. -/
def higher (a b : Candidate Build) : Prop := b.parsedVersion ≤ a.parsedVersion

instance (a b : Candidate Build) : Decidable (higher a b) :=
  inferInstanceAs (Decidable (b.parsedVersion ≤ a.parsedVersion))

/-- The candidates of a module in the order of the index. -/
def Gathered.candidates (gathered : Gathered Build) (key : RouteKey) : List (Candidate Build) :=
  ((gathered.prepared.filter (·.key = key)).map (·.toCandidate)).insertionSort higher

def Contract.fromProto (contract : Contract Build) (table : RoutingTable) (registry : Registry)
    (selfPeerAddress : String) : Gathered Build :=
  table.rules.foldl (contract.prepare selfPeerAddress) ⟨registry, []⟩

def Contract.get (contract : Contract Build) (index : Gathered Build) (key : RouteKey) :
    Option (RouteGroup Build) :=
  let candidates := index.candidates key
  if contract.header key.namespace_ = false ∨ contract.header key.module = false then none
  else if candidates = [] then none
  else some ⟨key, candidates, versionGroups candidates⟩

end Building

end Wruntime.Proxy
