import Wruntime.Routing.System

/-!
Module schemas. A registration writes its modules' descriptor bytes over those stored for the same
namespace, module and version. The manager answers `GetSchema` from the stored row, and a proxy
keeps an answer for good. A version's schema is immutable in runs in which no registration brings
other bytes for a stored one.
-/

namespace Wruntime.Schemas

open Fallible Runs Routing
open Manager (ModuleIdentity Status)

abbrev Bytes := List UInt8

/-- `wr_schemas`, by its primary key. -/
abbrev Table := ModuleIdentity → Option Bytes

/-- The rows that a registration upserts, module by module. -/
def storeSchemas (modules : List ModuleDescriptor) (table : Table) : Table :=
  modules.foldl (fun table module =>
    if module.protoSchema = [] then table
    else Function.update table module.identity (some module.protoSchema)) table

def getSchema (table : Table) (identity : ModuleIdentity) : Except Status Bytes := do
  ensure (identity.nspace ≠ "") (.invalidArgument "namespace is required")
  required (table identity) (.notFound ("no schema for " ++ identity.nspace ++ "/" ++
    identity.name ++ "/" ++ identity.version))

/-- The cluster with its schemas, the answers given, and the pool bytes each proxy has cached. -/
structure World where
  cluster : Cluster
  table : Table
  answers : List (ModuleIdentity × Bytes)
  caches : String → Table

def World.initial : World := ⟨.empty, fun _ => none, [], fun _ _ => none⟩

/-- A proxy inserts an answer some time after it was given. -/
inductive Event where
  | transaction (input : Input)
  | getSchema (identity : ModuleIdentity)
  | insert (proxy : String) (identity : ModuleIdentity) (bytes : Bytes)

section Steps

variable (contract : Contract) (decodes : Bytes → Bool)

/-- A registration stores its schemas in its transaction. -/
def World.stored (w : World) (input : Input) : Table :=
  match input.call with
  | .registerEngine reg activationId =>
    match registerEngineAndRoutes contract w.cluster input.now reg activationId with
    | .ok _ => storeSchemas reg.modules w.table
    | .error _ => w.table
  | _ => w.table

def World.next (w : World) : Event → World
  | .transaction input =>
    { w with cluster := Routing.next contract w.cluster input, table := w.stored contract input }
  | .getSchema identity =>
    match Schemas.getSchema w.table identity with
    | .ok bytes => { w with answers := w.answers ++ [(identity, bytes)] }
    | .error _ => w
  | .insert proxy identity bytes =>
    if (identity, bytes) ∈ w.answers ∧ bytes ≠ [] ∧ decodes bytes = true then
      { w with
        caches := Function.update w.caches proxy
          (Function.update (w.caches proxy) identity (some bytes)) }
    else w

end Steps

/-- A registration brings no other bytes for a schema that is stored. -/
def Consistent (w : World) : Event → Prop
  | .transaction ⟨_, .registerEngine reg _⟩ =>
    ∀ module ∈ reg.modules, module.protoSchema ≠ [] →
      ∀ bytes, w.table module.identity = some bytes → bytes = module.protoSchema
  | _ => True

/-- Every answer that was given and every cached schema is the one that is stored. -/
structure World.Sound (w : World) : Prop where
  answers : ∀ answer ∈ w.answers, w.table answer.1 = some answer.2
  caches : ∀ proxy identity bytes, w.caches proxy identity = some bytes →
    w.table identity = some bytes

section Immutable

variable {contract : Contract} {decodes : Bytes → Bool} {w w' : World}
  {identity : ModuleIdentity} {bytes : Bytes} {event : Event}

theorem storeSchemas_keeps {modules : List ModuleDescriptor} {table : Table}
    (hstored : table identity = some bytes)
    (hsame : ∀ module ∈ modules, module.protoSchema ≠ [] → module.identity = identity →
      module.protoSchema = bytes) : storeSchemas modules table identity = some bytes := by
  refine List.foldlRecOn (motive := fun t : Table => t identity = some bytes) modules _ hstored
    fun table hkept module hmodule => ?_
  split
  · exact hkept
  next hschema =>
    by_cases hid : module.identity = identity
    · rw [hid, Function.update_self, hsame module hmodule hschema hid]
    · rw [Function.update_of_ne (Ne.symm hid)]
      exact hkept

theorem table_next (hok : Consistent w event) (hstored : w.table identity = some bytes) :
    (w.next contract decodes event).table identity = some bytes := by
  cases event with
  | transaction input =>
    obtain ⟨now, call⟩ := input
    cases call with
    | registerEngine reg activationId =>
      simp only [World.next, World.stored]
      cases registerEngineAndRoutes contract w.cluster now reg activationId with
      | error => exact hstored
      | ok =>
        refine storeSchemas_keeps hstored fun module hmodule hschema hid => ?_
        exact (hok module hmodule hschema bytes (hid ▸ hstored)).symm
    | _ => exact hstored
  | getSchema | insert =>
    simp only [World.next]
    split <;> exact hstored

theorem World.Sound.next (h : w.Sound) (hok : Consistent w event) :
    (w.next contract decodes event).Sound := by
  have hkept : ∀ {identity bytes}, w.table identity = some bytes →
      (w.next contract decodes event).table identity = some bytes := table_next hok
  cases event with
  | transaction input =>
    exact ⟨fun a ha => hkept (h.answers a ha), fun p i b hb => hkept (h.caches p i b hb)⟩
  | getSchema asked =>
    simp only [World.next]
    split
    next bytes hanswer =>
      refine ⟨fun a ha => ?_, h.caches⟩
      rcases Table.mem_snoc.1 ha with hold | rfl
      · exact h.answers a hold
      · simp only [Schemas.getSchema, bind_eq_ok, required_eq_ok] at hanswer
        obtain ⟨_, _, hstored⟩ := hanswer
        exact hstored
    · exact h
  | insert proxy identity bytes =>
    simp only [World.next]
    split
    next hinsert =>
      refine ⟨h.answers, fun p i b hb => ?_⟩
      by_cases hproxy : p = proxy
      · subst hproxy
        simp only [Function.update_self] at hb
        by_cases hid : i = identity
        · subst hid
          rw [Function.update_self] at hb
          exact hb ▸ h.answers _ hinsert.1
        · rw [Function.update_of_ne hid] at hb
          exact h.caches p i b hb
      · simp only [Function.update_of_ne hproxy] at hb
        exact h.caches p i b hb
    · exact h

/-- In every run of consistent registrations a stored schema is never replaced, and all answers and
caches agree with it. -/
theorem schemas_immutable (hreach : Reach (World.next contract decodes) Consistent World.initial w)
    (hlater : Reach (World.next contract decodes) Consistent w w') :
    (∀ identity bytes, w.table identity = some bytes → w'.table identity = some bytes) ∧
      (∀ answer ∈ w'.answers, w'.table answer.1 = some answer.2) ∧
      ∀ proxy identity bytes, w'.caches proxy identity = some bytes →
        w'.table identity = some bytes := by
  have hsound : w'.Sound := (hreach.trans hlater).invariant (P := World.Sound)
    ⟨by simp [World.initial], by simp [World.initial]⟩ fun _ _ _ hok h => h.next hok
  refine ⟨fun identity bytes hstored => ?_, hsound.answers, hsound.caches⟩
  exact hlater.invariant (P := fun w => w.table identity = some bytes) hstored
    fun _ _ _ hok => table_next hok

end Immutable

namespace Sample

open Routing.Sample

def rebuiltSha : String := "08da7c45cb204377e7e42249cda5713fa865116ddbb4cb5a1949b2e5b438a6ab"

def contract : Contract :=
  { Routing.Sample.contract with
    sha256 := fun bytes => if bytes = [10, 0] then schemaSha else rebuiltSha }

/-- The same with another build of the module under its version. -/
def rebuilt (input : Input) : Event :=
  .transaction ⟨input.now, match input.call with
    | .planNode plan => .planNode { plan with
        deployments := plan.deployments.map fun d => { d with
          inventory := d.inventory.map fun e => { e with
            modules := [(some cart, "sha256:" ++ rebuiltSha)] } } }
    | .registerEngine reg activationId =>
      .registerEngine { reg with modules := [⟨cart, [18, 0]⟩] } activationId
    | call => call⟩

/-- The first release, and a proxy that has fetched the schema of its module. -/
def fetched : List Event :=
  [.transaction (planned 1 first), .transaction (registered 2 first "engine-a" activation),
    .getSchema cart, .insert "proxy-a" cart [10, 0]]

def run (events : List Event) : World :=
  runAll (World.next contract fun _ => true) World.initial events

end Sample

section

open Sample Routing.Sample

/-- The engine registers the same build again, and another proxy fetches the schema after that. -/
theorem fetched_schema_stored :
    let w := runAll (World.next Sample.contract fun _ => true) (run fetched)
      [.transaction (registered 3 first "engine-a" activation), .getSchema cart,
        .insert "proxy-b" cart [10, 0]]
    w.answers = [(cart, [10, 0]), (cart, [10, 0])] ∧ w.caches "proxy-b" cart = some [10, 0] ∧
      w.table cart = some [10, 0] ∧
      ∀ proxy bytes, w.caches proxy cart = some bytes → w.table cart = some bytes := by
  intro w
  have hstored : (run fetched).table cart = some [10, 0] := by decide +kernel
  have hreach : Reach (World.next Sample.contract fun _ => true) Consistent World.initial
      (run fetched) := by
    refine reach_runAll _ ⟨trivial, ?_, trivial, trivial, trivial⟩
    intro module _ _ bytes hstored
    cases (show none = some bytes from hstored)
  have hlater : Reach (World.next Sample.contract fun _ => true) Consistent (run fetched) w := by
    refine reach_runAll _ ⟨?_, trivial, trivial, trivial⟩
    intro module hmodule _ bytes hbytes
    obtain rfl := List.mem_singleton.1 hmodule
    exact (Option.some.inj (hstored.symm.trans hbytes)).symm
  obtain ⟨hkept, -, hcaches⟩ := schemas_immutable hreach hlater
  exact ⟨by decide +kernel, by decide +kernel, hkept _ _ hstored, fun proxy => hcaches proxy cart⟩

/-- The next release registers another build of the version: its schema replaces the stored one, and
two proxies hold different ones. -/
theorem rebuilt_schema_replaced :
    let w := run (fetched ++ [rebuilt (planned 6 emptied),
      rebuilt (registered 7 emptied "engine-b" otherActivation), .getSchema cart,
      .insert "proxy-b" cart [18, 0]])
    w.answers = [(cart, [10, 0]), (cart, [18, 0])] ∧ w.table cart = some [18, 0] ∧
      w.caches "proxy-a" cart = some [10, 0] ∧ w.caches "proxy-b" cart = some [18, 0] := by
  decide +kernel

end

end Wruntime.Schemas
