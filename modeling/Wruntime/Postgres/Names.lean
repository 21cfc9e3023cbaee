import Wruntime.Postgres.Manifest

/-!
The storage names of accepted identities: the name with its hyphens turned into underscores. A name
made from one namespace determines the namespace. A schema name determines only the text of
namespace and module joined by two hyphens, which can be split in two ways when a namespace and a
module name have two hyphens in a row themselves.
-/

namespace Wruntime.Postgres

open Fallible
open Auth (validateName)

def blobKeyPrefix (ns : String) : String :=
  String.ofList ("wr/".toList ++ storageComponent ns ++ ['/'])

/-- `ModuleId::parse`, where the version is parsed by a library. -/
def parseModuleId (parseVersion : String → Except String Unit) (ns module version : String) :
    Except String (String × String) := do
  validateName ns "namespace"
  validateName module "module name"
  ensure ((moduleSchema ns module).utf8ByteSize ≤ 63)
    "module identity is too long for a collision-safe PostgreSQL schema name"
  parseVersion version
  return (ns, module)

inductive Derived
  | database | owner | runtimeGroup | maintenanceRole | blobPrefix

def Derived.name (codec : Codec) (ns : String) : Derived → String
  | .database => namespaceDatabase codec ns
  | .owner => namespaceOwner codec ns
  | .runtimeGroup => namespaceRuntimeGroup codec ns
  | .maintenanceRole => namespaceMaintenanceRole codec ns
  | .blobPrefix => blobKeyPrefix ns

def isStable (c : Char) : Bool := c.isLower || c.isDigit || c = '-'

def storageChar (c : Char) : Char := if c = '-' then '_' else c

def restoreChar (c : Char) : Char := if c = '_' then '-' else c

/-- A stable character is one byte, and so is its storage form, which gives it back. -/
def Kept (c : Char) : Prop :=
  (String.utf8EncodeChar c).flatMap storageByte = [storageChar c] ∧
    restoreChar (storageChar c) = c ∧ c.utf8Size = 1 ∧ (storageChar c).utf8Size = 1

theorem kept_of_isStable {c : Char} (h : isStable c = true) : Kept c := by
  have hascii : ∀ n < 128, isStable (Char.ofNat n) = true → Kept (Char.ofNat n) := by
    unfold Kept
    decide
  have hlt : c.toNat < 128 := by
    unfold isStable Char.isLower at h
    simp only [Char.isDigit, Bool.or_eq_true, Bool.and_eq_true, decide_eq_true_eq,
      UInt32.le_iff_toNat_le] at h
    rcases h with (⟨_, hle⟩ | ⟨_, hle⟩) | rfl
    · exact Nat.lt_of_le_of_lt hle (by decide)
    · exact Nat.lt_of_le_of_lt hle (by decide)
    · decide
  have hchar := hascii c.toNat hlt
  rw [Char.ofNat_toNat] at hchar
  exact hchar h

theorem utf8Len_eq_length {l : List Char} (h : ∀ c ∈ l, c.utf8Size = 1) :
    String.utf8Len l = l.length := by
  induction l with
  | nil => rfl
  | cons c l ih =>
    rw [List.forall_mem_cons] at h
    rw [String.utf8Len_cons, h.1, List.length_cons, ih h.2]

theorem storageComponent_ofList {l : List Char} (h : ∀ c ∈ l, Kept c) :
    storageComponent (String.ofList l) = l.map storageChar := by
  rw [storageComponent, String.toByteArray_ofList, List.utf8Encode, List.data_toByteArray,
    List.toList_toArray, List.flatMap_assoc]
  induction l with
  | nil => rfl
  | cons c l ih =>
    rw [List.forall_mem_cons] at h
    rw [List.flatMap_cons, h.1.1, ih h.2]
    rfl

theorem restore_storage {l : List Char} (h : ∀ c ∈ l, Kept c) :
    (l.map storageChar).map restoreChar = l := by
  rw [List.map_map]
  exact (List.map_congr_left fun c hc => (h c hc).2.1).trans (List.map_id l)

theorem storage_inj {a b : String} (ha : ∀ c ∈ a.toList, Kept c) (hb : ∀ c ∈ b.toList, Kept c) :
    a.toList.map storageChar = b.toList.map storageChar ↔ a = b := by
  refine ⟨fun heq => ?_, fun heq => by rw [heq]⟩
  rw [← String.toList_inj, ← restore_storage ha, heq, restore_storage hb]

/-- What the proofs use of an accepted name. -/
structure Stable (value : String) : Prop where
  kept : ∀ c ∈ value.toList, Kept c
  last : value.toList.getLast? ≠ some '-'
  length : value.toList.length ≤ 24
  storage : storageComponent value = value.toList.map storageChar

theorem stable_of_validateName {value kind : String} (h : validateName value kind = .ok ()) :
    Stable value := by
  simp only [validateName, bind_eq_ok, ensure_eq_ok, List.all_eq_true] at h
  obtain ⟨_, _, _, hlength, _, _, _, hlast, hall⟩ := h
  have hkept : ∀ c ∈ value.toList, Kept c := fun c hc => kept_of_isStable (hall c hc)
  have hvalue : value = String.ofList value.toList := String.ofList_toList.symm
  rw [hvalue, String.utf8ByteSize_ofList, utf8Len_eq_length fun c hc => (hkept c hc).2.2.1] at hlength
  refine ⟨hkept, fun hhyphen => ?_, hlength,
    (congrArg storageComponent hvalue).trans (storageComponent_ofList hkept)⟩
  rw [hhyphen] at hlast
  cases hlast

/-- Two hyphens in a row. -/
def DoubleHyphen (name : String) : Prop := "--".toList <:+: name.toList

/-- The text that the first identity joins at its own two hyphens can also be split where the second
does: two hyphens and a text move from the module name to the namespace. -/
def Resplits (id id' : String × String) : Prop :=
  ∃ text, id'.1 = id.1 ++ "--" ++ text ∧ id.2 = text ++ "--" ++ id'.2

theorem Resplits.doubleHyphen {id id' : String × String} (h : Resplits id id') :
    DoubleHyphen id'.1 ∧ DoubleHyphen id.2 := by
  obtain ⟨text, hns, hmodule⟩ := h
  rw [DoubleHyphen, DoubleHyphen, hns, hmodule]
  simp only [String.toList_append]
  exact ⟨List.infix_append _ _ _, List.infix_append _ _ _⟩

theorem Resplits.joined {id id' : String × String} (h : Resplits id id') :
    id.1 ++ "--" ++ id.2 = id'.1 ++ "--" ++ id'.2 := by
  obtain ⟨text, hns, hmodule⟩ := h
  rw [hns, hmodule]
  simp only [String.append_assoc]

theorem Resplits.ne {id id' : String × String} (h : Resplits id id') : id ≠ id' := by
  rintro rfl
  obtain ⟨text, hns, _⟩ := h
  have hsize := congrArg (·.toList.length) hns
  simp only [String.toList_append, List.length_append] at hsize
  have htwo : "--".toList.length = 2 := rfl
  omega

/-- Where one namespace begins with the other and the joined texts agree, the longer one has the
two hyphens of the separator: it does not end in the first of them. -/
theorem resplits_of_append {ns module module' : String} {rest : List Char}
    (hlast : (ns.toList ++ rest).getLast? ≠ some '-') (hne : rest ≠ [])
    (h : '-' :: '-' :: module.toList = rest ++ '-' :: '-' :: module'.toList) :
    Resplits (ns, module) (String.ofList (ns.toList ++ rest), module') := by
  match rest, hne with
  | [c], _ =>
    obtain ⟨rfl, _⟩ := List.cons.inj h
    simp at hlast
  | c :: d :: text, _ =>
    obtain ⟨rfl, htail⟩ := List.cons.inj h
    obtain ⟨rfl, hmodule⟩ := List.cons.inj htail
    refine ⟨String.ofList text, ?_, ?_⟩
    · rw [← String.toList_inj]
      simp
    · rw [← String.toList_inj]
      simpa using hmodule

/-- The joined texts of two stable names agree only for equal pairs or for two splits of one text. -/
theorem joined_eq_iff {ns module ns' module' : String} (h : Stable ns) (h' : Stable ns') :
    ns ++ "--" ++ module = ns' ++ "--" ++ module' ↔ (ns, module) = (ns', module') ∨
      Resplits (ns, module) (ns', module') ∨ Resplits (ns', module') (ns, module) := by
  constructor
  · intro heq
    have hlists := congrArg String.toList heq
    have hhyphens : "--".toList = ['-', '-'] := by simp
    simp only [String.toList_append, List.append_assoc, hhyphens, List.cons_append,
      List.nil_append] at hlists
    rcases List.append_eq_append_iff.1 hlists with ⟨rest, hns, hrest⟩ | ⟨rest, hns, hrest⟩
    · by_cases hempty : rest = []
      · left
        subst hempty
        simp_all [String.toList_inj]
      · right
        left
        have hresplit := resplits_of_append (hns ▸ h'.last) hempty hrest
        rwa [← hns, String.ofList_toList] at hresplit
    · by_cases hempty : rest = []
      · left
        subst hempty
        simp_all [String.toList_inj]
      · right
        right
        have hresplit := resplits_of_append (hns ▸ h.last) hempty hrest
        rwa [← hns, String.ofList_toList] at hresplit
  · rintro (heq | hresplit | hresplit)
    · obtain ⟨rfl, rfl⟩ := Prod.mk.inj heq
      rfl
    · exact hresplit.joined
    · exact hresplit.joined.symm

section Schema

variable {ns module ns' module' : String} (h : Stable ns) (hmodule : Stable module)
include h hmodule

theorem moduleSchema_eq : moduleSchema ns module =
      String.ofList ("wr__".toList ++ (ns ++ "--" ++ module).toList.map storageChar) := by
  have hhyphens : "--".toList.map storageChar = ['_', '_'] := by simp [storageChar]
  unfold moduleSchema
  congr 1
  rw [h.storage, hmodule.storage, String.toList_append, String.toList_append, List.map_append,
    List.map_append, hhyphens, List.append_assoc, List.append_assoc, List.append_assoc]

theorem kept_joined : ∀ c ∈ (ns ++ "--" ++ module).toList, Kept c := by
  intro c hc
  simp only [String.toList_append, List.mem_append] at hc
  rcases hc with (hc | hc) | hc
  · exact h.kept c hc
  · obtain rfl : c = '-' := by simpa using hc
    exact kept_of_isStable rfl
  · exact hmodule.kept c hc

theorem moduleSchema_inj (h' : Stable ns') (hmodule' : Stable module') :
    moduleSchema ns module = moduleSchema ns' module' ↔
      ns ++ "--" ++ module = ns' ++ "--" ++ module' := by
  rw [moduleSchema_eq h hmodule, moduleSchema_eq h' hmodule', String.ofList_inj,
    List.append_cancel_left_eq, storage_inj (kept_joined h hmodule) (kept_joined h' hmodule')]

end Schema

def Derived.frame : Derived → String × String
  | .database => ("wr_db_", "")
  | .owner => ("wr_owner_", "")
  | .runtimeGroup => ("wr_ns_", "")
  | .maintenanceRole => ("wr_maint_", "")
  | .blobPrefix => ("wr/", "/")

theorem Derived.name_eq (codec : Codec) (kind : Derived) {ns : String} (h : Stable ns) :
    kind.name codec ns = String.ofList
      (kind.frame.1.toList ++ ns.toList.map storageChar ++ kind.frame.2.toList) := by
  have hlength := h.length
  cases kind with
  | blobPrefix =>
    unfold name blobKeyPrefix
    simp [frame, h.storage]
  | _ =>
    simp [name, frame, namespaceDatabase, namespaceOwner, namespaceRuntimeGroup,
      namespaceMaintenanceRole, namespaceIdentifier, boundedPostgresIdentifier,
      postgresIdentifierMaxBytes, h.storage, List.intercalate]
    omega

theorem Derived.utf8ByteSize_name (codec : Codec) (kind : Derived) {ns : String} (h : Stable ns) :
    (kind.name codec ns).utf8ByteSize ≤ 63 := by
  have hlength := h.length
  have hframe : (∀ c ∈ kind.frame.1.toList, c.utf8Size = 1) ∧
      ∀ c ∈ kind.frame.2.toList, c.utf8Size = 1 := by
    cases kind <;> simp [frame] <;> decide
  rw [kind.name_eq codec h, String.utf8ByteSize_ofList, utf8Len_eq_length]
  · cases kind <;> simp [frame] <;> omega
  · simp only [List.mem_append, List.mem_map]
    rintro c ((hc | ⟨d, hd, rfl⟩) | hc)
    · exact hframe.1 c hc
    · exact (h.kept d hd).2.2.2
    · exact hframe.2 c hc

theorem Derived.name_inj (codec : Codec) (kind kind' : Derived) {ns ns' : String}
    (h : Stable ns) (h' : Stable ns') (heq : kind.name codec ns = kind'.name codec ns') :
    kind = kind' ∧ ns = ns' := by
  rw [kind.name_eq codec h, kind'.name_eq codec h', String.ofList_inj] at heq
  have hsame : kind = kind' ∧ ns.toList.map storageChar = ns'.toList.map storageChar := by
    cases kind <;> cases kind' <;> simp_all [frame]
  exact ⟨hsame.1, (storage_inj h.kept h'.kept).1 hsame.2⟩

/-- Two accepted identities share a schema name only if they are equal, exactly if neither is the
other one split at another pair of hyphens; so they never do unless one has two hyphens in a row in
its namespace and the other in its module name. The names made from a namespace are at most 63 bytes
long and determine their kind and the namespace. -/
theorem derived_names_collide_iff (codec : Codec) (parseVersion : String → Except String Unit) :
    (∀ ns module version ns' module' version' id id',
      parseModuleId parseVersion ns module version = .ok id →
      parseModuleId parseVersion ns' module' version' = .ok id' →
        ((moduleSchema ns module = moduleSchema ns' module' → id = id') ↔
          ¬ Resplits id id' ∧ ¬ Resplits id' id) ∧
        ((DoubleHyphen id'.1 → ¬ DoubleHyphen id.2) → (DoubleHyphen id.1 → ¬ DoubleHyphen id'.2) →
          moduleSchema ns module = moduleSchema ns' module' → id = id')) ∧
    ∀ ns ns', validateName ns "namespace" = .ok () → validateName ns' "namespace" = .ok () →
      ∀ kind kind' : Derived, (kind.name codec ns).utf8ByteSize ≤ 63 ∧
        (kind.name codec ns = kind'.name codec ns' → kind = kind' ∧ ns = ns') := by
  constructor
  · intro ns module version ns' module' version' id id' hparse hparse'
    simp only [parseModuleId, bind_eq_ok, pure_eq_ok] at hparse hparse'
    obtain ⟨_, hns, _, hmodule, _, _, _, _, rfl⟩ := hparse
    obtain ⟨_, hns', _, hmodule', _, _, _, _, rfl⟩ := hparse'
    have hstable := stable_of_validateName hns
    have hstable' := stable_of_validateName hns'
    rw [moduleSchema_inj hstable (stable_of_validateName hmodule) hstable'
      (stable_of_validateName hmodule'), joined_eq_iff hstable hstable']
    refine ⟨⟨fun h => ⟨fun hresplit => hresplit.ne (h (.inr (.inl hresplit))),
      fun hresplit => hresplit.ne (h (.inr (.inr hresplit))).symm⟩, ?_⟩, ?_⟩
    · rintro ⟨hnot, hnot'⟩ (heq | hresplit | hresplit)
      · exact heq
      · exact absurd hresplit hnot
      · exact absurd hresplit hnot'
    · rintro hfree hfree' (heq | hresplit | hresplit)
      · exact heq
      · exact absurd hresplit.doubleHyphen.2 (hfree hresplit.doubleHyphen.1)
      · exact absurd hresplit.doubleHyphen.2 (hfree' hresplit.doubleHyphen.1)
  · intro ns ns' hns hns' kind kind'
    have hstable := stable_of_validateName hns
    exact ⟨kind.utf8ByteSize_name codec hstable,
      kind.name_inj codec kind' hstable (stable_of_validateName hns')⟩

theorem double_hyphen_schemas_collide :
    parseModuleId (fun _ => .ok ()) "a--b" "c" "1.0.0" = .ok ("a--b", "c") ∧
      parseModuleId (fun _ => .ok ()) "a" "b--c" "1.0.0" = .ok ("a", "b--c") ∧
      moduleSchema "a--b" "c" = moduleSchema "a" "b--c" := by
  decide +kernel

/-- Two hyphens in a namespace alone do no harm. -/
theorem double_hyphen_namespace_differs :
    moduleSchema "a--b" "c-d" = moduleSchema "a" "b-c-d" → ("a--b", "c-d") = ("a", "b-c-d") :=
  ((derived_names_collide_iff ⟨fun _ _ => [], fun _ => "", fun _ => none⟩ fun _ => .ok ()).1
    "a--b" "c-d" "1.0.0" "a" "b-c-d" "1.0.0" _ _ (by decide +kernel) (by decide +kernel)).2
    (fun _ => by unfold DoubleHyphen; decide) (fun _ => by unfold DoubleHyphen; decide)

end Wruntime.Postgres
