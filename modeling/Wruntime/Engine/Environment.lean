import Wruntime.Lib.LastWrite

/-!
The environments of guests. `run_service` resolves the env table of every module entry into a map by
namespace and module name, where `load_modules` looks the entries up. Entries of one namespace and
name, such as two versions, therefore all get what the last of them declares.
-/

namespace Wruntime.Environment

open Fallible LastWrite

inductive EnvValue where
  | plain (value : String)
  | secret

structure ModuleConfig where
  namespace_ : String
  name : String
  version : String
  env : List (String × EnvValue)

abbrev ModuleConfig.key (module : ModuleConfig) : String × String :=
  (module.namespace_, module.name)

structure NamespaceSecrets where
  namespace_ : String
  secrets : List (String × String)

abbrev Variables := String → Option String

def secretTable (response : List NamespaceSecrets) : String × String → Option String :=
  response.foldl (fun table item =>
    item.secrets.foldl (fun table (key, value) =>
      Function.update table (item.namespace_, key) (some value)) table) fun _ => none

section Resolving

variable (secrets : String × String → Option String)

def ModuleConfig.resolve (module : ModuleConfig) : String × EnvValue → Except String String
  | (_, .plain value) => pure value
  | (key, .secret) => required (secrets (module.namespace_, key))
      ("secret '" ++ key ++ "' not found for namespace '" ++ module.namespace_ ++ "'")

def ModuleConfig.environment (module : ModuleConfig) : Except String Variables :=
  module.env.foldlM (fun environment entry => do
    let value ← module.resolve secrets entry
    pure (Function.update environment entry.1 (some value))) fun _ => none

def resolvedEnvs (modules : List ModuleConfig) :
    Except String (String × String → Option Variables) :=
  modules.foldlM (fun envs module => do
    let environment ← module.environment secrets
    pure (Function.update envs module.key (some environment))) fun _ => none

def ModuleConfig.declared (module : ModuleConfig) : Variables := fun key =>
  lastAt (fun entry => (module.resolve secrets entry).toOption.map (entry.1, ·)) key module.env

end Resolving

/-- The guests that a start spawns, each with its entry and its environment. -/
def loadModules (response : List NamespaceSecrets) (modules : List ModuleConfig) :
    Except String (List (ModuleConfig × Variables)) := do
  let envs ← resolvedEnvs (secretTable response) modules
  pure (modules.map fun module => (module, (envs module.key).getD fun _ => none))

variable {secrets : String × String → Option String} {modules : List ModuleConfig}

theorem ModuleConfig.environment_eq_ok {module : ModuleConfig} {environment : Variables}
    (h : module.environment secrets = .ok environment) : environment = module.declared secrets := by
  funext key
  simpa [ModuleConfig.declared] using foldlM_update h key

/-- The map holds, for each entry, what the last entry with its key declares. -/
theorem resolvedEnvs_eq_ok {envs : String × String → Option Variables}
    (h : resolvedEnvs secrets modules = .ok envs) {module : ModuleConfig}
    (hmodule : module ∈ modules) :
    ∃ last ∈ modules, last.key = module.key ∧ envs module.key = some (last.declared secrets) := by
  obtain ⟨_, _, hresolved⟩ := exists_of_foldlM h module hmodule
  obtain ⟨environment, henvironment, -⟩ := bind_eq_ok.mp hresolved
  have hwrite : ((module.environment secrets).toOption.map (module.key, ·)) =
      some (module.key, environment) := by
    rw [henvironment]
    rfl
  obtain ⟨left, hleft⟩ := @lastAt_isSome_of_mem _ _ _ _
    (fun m : ModuleConfig => (m.environment secrets).toOption.map (m.key, ·)) _ _ _ _ hmodule hwrite
  have hlast := foldlM_update h module.key
  rw [hleft] at hlast
  obtain ⟨before, last, after, rfl, hitem, -⟩ := lastAt_eq_some.mp hleft
  obtain ⟨own, hown, hpair⟩ := Option.map_eq_some_iff.mp hitem
  obtain ⟨hkey, rfl⟩ := Prod.mk.inj hpair
  rw [last.environment_eq_ok (toOption_eq_some.mp hown)] at hlast
  exact ⟨last, by simp, hkey, hlast⟩

/-- Every guest sees exactly its own entry's variables if and only if entries of one namespace and
name declare the same ones. -/
theorem own_environment_iff {response : List NamespaceSecrets}
    {guests : List (ModuleConfig × Variables)} (h : loadModules response modules = .ok guests) :
    (∀ guest ∈ guests, guest.2 = guest.1.declared (secretTable response)) ↔
      ∀ module ∈ modules, ∀ other ∈ modules, module.key = other.key →
        module.declared (secretTable response) = other.declared (secretTable response) := by
  simp only [loadModules, bind_eq_ok, pure_eq_ok] at h
  obtain ⟨envs, henvs, rfl⟩ := h
  simp only [List.forall_mem_map]
  constructor
  · intro hown module hmodule other hother hkey
    rw [← hown module hmodule, hkey, hown other hother]
  · intro hsame module hmodule
    obtain ⟨last, hmem, hkey, henv⟩ := resolvedEnvs_eq_ok henvs hmodule
    rw [henv]
    exact hsame last hmem module hmodule hkey

namespace Sample

def response : List NamespaceSecrets := [⟨"shop", [("API_KEY", "s3cret")]⟩]

def cart : ModuleConfig := ⟨"shop", "cart", "1.0.0", [("LEVEL", .plain "info")]⟩

def newCart : ModuleConfig := ⟨"shop", "cart", "2.0.0", [("API_KEY", .secret)]⟩

def stock : ModuleConfig := ⟨"shop", "stock", "1.0.0", [("LEVEL", .plain "info")]⟩

end Sample

open Sample in
/-- Two versions of a module that declare the same variables, and another module. -/
theorem own_environment_two_versions :
    ∃ guests, loadModules response [{ newCart with version := "1.0.0" }, newCart, stock] =
        .ok guests ∧
      ∀ guest ∈ guests, guest.2 = guest.1.declared (secretTable response) := by
  have hload : loadModules response [{ newCart with version := "1.0.0" }, newCart, stock] =
    .ok _ := rfl
  refine ⟨_, hload, (own_environment_iff hload).2 fun module hmodule other hother hkey => ?_⟩
  simp only [List.mem_cons, List.not_mem_nil, or_false] at hmodule hother
  rcases hmodule with rfl | rfl | rfl <;> rcases hother with rfl | rfl | rfl <;>
    first | rfl | exact absurd hkey (by decide)

open Sample in
/-- The first version of a module declares no secret and is given the second one's. -/
theorem version_given_other_secret : ∃ guests, loadModules response [cart, newCart] = .ok guests ∧
      guests.map (fun guest => (guest.1.version, guest.2 "LEVEL", guest.2 "API_KEY")) =
        [("1.0.0", none, some "s3cret"), ("2.0.0", none, some "s3cret")] :=
  ⟨_, rfl, rfl⟩

end Wruntime.Environment
