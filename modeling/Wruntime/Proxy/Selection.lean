import Wruntime.Proxy.Index

/-!
The choice of a candidate for a request. Breaker permissions and round-robin counters are free at
every decision; over all of them, a version requirement can be given exactly the candidates of the
highest version that meets it.
-/

namespace Wruntime.Proxy

open Fallible Semver

variable {Build : Type}

variable {eligible : List (Candidate Build)} {decision : Decision}
  {candidate : Candidate Build}
variable {contract : Contract Build} {selector : Version Build → Bool}
  {candidates : List (Candidate Build)} {groups : List (VersionGroup Build)}

/-- What a selection finds: which addresses' breakers permit calls, and the counter. -/
structure Decision where
  permitted : String → Bool
  slot : Nat

def chooseCandidate (decision : Decision) (eligible : List (Candidate Build)) :
    Option (Candidate Build) :=
  let allowed := eligible.filter fun candidate => decision.permitted candidate.destination.address
  if allowed = [] then eligible[decision.slot % eligible.length]?
  else allowed[decision.slot % allowed.length]?

inductive RequestedVersion (Build : Type) where
  | unpinned
  | requirement (selector : Version Build → Bool) (raw : String)

/-- The header's text, if there is a header. -/
def Contract.parseRequestedVersion (contract : Contract Build) (value : Option String) :
    Except String (RequestedVersion Build) :=
  match value with
  | none => pure .unpinned
  | some text => do
    let selector ← required (contract.requirement text)
      ("invalid x-wr-version requirement '" ++ text ++ "'")
    pure (.requirement selector text)

def selectCandidate (group : RouteGroup Build) (requested : RequestedVersion Build)
    (decision : Decision) : Option (Candidate Build) :=
  match requested with
  | .unpinned => chooseCandidate decision group.candidates
  | .requirement selector _ => do
    let versionGroup ← group.versionGroups.find? fun version => selector version.parsedVersion
    chooseCandidate decision versionGroup.candidates

def stripSuffix (text suffix : List Char) : Option (List Char) :=
  if suffix.isSuffixOf text then some (text.take (text.length - suffix.length)) else none

def domainMatches (pattern host : String) : Bool :=
  if '*' ∉ pattern.toList then pattern = host
  else match pattern.toList with
    | '*' :: '.' :: suffix =>
      match stripSuffix host.toList suffix with
      | some front =>
        2 ≤ front.length && front.getLast? = some '.' && '.' ∉ front.dropLast
      | none => false
    | _ => false

def asciiLowercase (text : String) : String := text.map Char.toLower

def classifyExternalHost (host : String) (egressAllowedDomains : List String) :
    Except String String := do
  let message := "no route for destination '" ++ host ++ "'"
  ensure (egressAllowedDomains ≠ []) message
  let lowered := asciiLowercase host
  ensure (egressAllowedDomains.any (domainMatches · lowered) = true) message
  pure lowered

inductive StatusCode where
  | badRequest
  | serviceUnavailable
  deriving DecidableEq

inductive RouteOutcome (Build : Type) where
  | internal (key : RouteKey) (selected : Candidate Build)
  | external (host : String)
  | reject (status : StatusCode) (message : String)
  deriving DecidableEq

def splitHost (host : String) : Option (String × String) :=
  match host.toList.span (· ≠ '.') with
  | (namespace_, '.' :: module) => some (String.ofList namespace_, String.ofList module)
  | _ => none

def externalOr (host : String) (egressAllowedDomains : List String) (status : StatusCode)
    (message : String → String) : RouteOutcome Build :=
  match classifyExternalHost host egressAllowedDomains with
  | .ok lowered => .external lowered
  | .error error => .reject status (message error)

theorem getElem?_mod_of_ne_nil {items : List (Candidate Build)} (h : items ≠ []) (slot : Nat) :
    ∃ candidate ∈ items, items[slot % items.length]? = some candidate := by
  have hlt : slot % items.length < items.length :=
    Nat.mod_lt _ (List.length_pos_iff.2 h)
  exact ⟨items[slot % items.length], List.getElem_mem hlt, List.getElem?_eq_getElem hlt⟩

theorem chooseCandidate_eq_some (decision : Decision) (h : eligible ≠ []) :
    ∃ candidate ∈ eligible, chooseCandidate decision eligible = some candidate := by
  simp only [chooseCandidate]
  split
  next => exact getElem?_mod_of_ne_nil h _
  next hallowed =>
    obtain ⟨candidate, hmem, hget⟩ := getElem?_mod_of_ne_nil hallowed decision.slot
    exact ⟨candidate, (List.mem_filter.1 hmem).1, hget⟩

theorem mem_of_chooseCandidate (h : chooseCandidate decision eligible = some candidate) :
    candidate ∈ eligible := by
  simp only [chooseCandidate] at h
  split at h
  next => exact List.mem_of_getElem? h
  next => exact (List.mem_filter.1 (List.mem_of_getElem? h)).1

theorem exists_chooseCandidate (h : candidate ∈ eligible) :
    ∃ decision, chooseCandidate decision eligible = some candidate := by
  obtain ⟨slot, hslot, hget⟩ := List.getElem_of_mem h
  refine ⟨⟨fun _ => true, slot⟩, ?_⟩
  have hall : eligible.filter (fun _ => true) = eligible := List.filter_eq_self.2 fun _ _ => rfl
  simp only [chooseCandidate, hall, if_neg (List.ne_nil_of_mem h), Nat.mod_eq_of_lt hslot]
  rw [List.getElem?_eq_getElem hslot, hget]

theorem Contract.requested_of_parse {text : String} {v : Version Build}
    (h : contract.parse text = some v) :
    contract.parseRequestedVersion (some text) = .ok (.requirement v.caret text) := by
  simp [Contract.parseRequestedVersion, contract.bare text v h]

theorem select_requirement {group : RouteGroup Build} {raw : String} :
    selectCandidate group (.requirement selector raw) decision = some candidate ↔
      ∃ version, group.versionGroups.find? (fun version => selector version.parsedVersion) =
        some version ∧ chooseCandidate decision version.candidates = some candidate := by
  simp only [selectCandidate, Option.bind_eq_bind, Option.bind_eq_some_iff]

/-- Texts and versions of the candidates agree with the parser. -/
def Contract.Parsed (contract : Contract Build) (candidates : List (Candidate Build)) : Prop :=
  ∀ candidate ∈ candidates, contract.parse candidate.version = some candidate.parsedVersion

theorem Contract.Parsed.version_eq_iff {other : Candidate Build} (h : contract.Parsed candidates)
    (hmem : candidate ∈ candidates) (hother : other ∈ candidates) :
    candidate.version = other.version ↔ candidate.parsedVersion = other.parsedVersion := by
  have hparsed := h candidate hmem
  have hparsed' := h other hother
  constructor
  · intro hsame
    rw [hsame, hparsed'] at hparsed
    exact (Option.some.inj hparsed).symm
  · intro hsame
    exact contract.injective _ _ _ hparsed (hsame ▸ hparsed')

variable [LinearOrder Build]

/-- The destination header: `none` when missing or malformed, `some none` when its URI has no
host. -/
def Contract.routeDestination (contract : Contract Build) (index : Gathered Build)
    (egressAllowedDomains : List String) (destination : Option (Option String))
    (requested : RequestedVersion Build) (decision : Decision) : RouteOutcome Build :=
  match destination with
  | none => .reject .badRequest "missing or malformed x-wr-destination header"
  | some host =>
    match host.filter (· ≠ "") with
    | none => .reject .badRequest "x-wr-destination has no host"
    | some host =>
      match splitHost host with
      | none =>
        externalOr host egressAllowedDomains .badRequest fun _ =>
          "destination host '" ++ host ++
            "' is missing a namespace (expected '\x7bnamespace\x7d.\x7bmodule\x7d')"
      | some (namespace_, module) =>
        if '.' ∈ module.toList then
          externalOr host egressAllowedDomains .serviceUnavailable id
        else match RouteKey.validate namespace_ module with
          | .error error =>
            .reject .badRequest ("invalid internal destination '" ++ host ++ "': " ++ error)
          | .ok _ =>
            match contract.get index ⟨namespace_, module⟩ with
            | none => externalOr host egressAllowedDomains .serviceUnavailable id
            | some group =>
              match selectCandidate group requested decision with
              | some selected => .internal group.key selected
              | none =>
                let name := "'" ++ namespace_ ++ "." ++ module ++ "'"
                .reject .serviceUnavailable (match requested with
                  | .requirement _ raw =>
                    "no route for module " ++ name ++ " matching version requirement '" ++ raw ++ "'"
                  | .unpinned => "no route for module " ++ name)

structure Grouped (seen : List (Candidate Build)) (groups : List (VersionGroup Build)) : Prop where
  members : ∀ group ∈ groups, group.candidates = seen.filter (·.version = group.version)
  inhabited : ∀ group ∈ groups, group.candidates ≠ []
  parsed : ∀ group ∈ groups, ∃ candidate ∈ seen, candidate.version = group.version ∧
    candidate.parsedVersion = group.parsedVersion
  covered : ∀ candidate ∈ seen, ∃ group ∈ groups, group.version = candidate.version
  descending : groups.Pairwise fun group group' => group'.parsedVersion ≤ group.parsedVersion

theorem Grouped.add {seen : List (Candidate Build)} (h : Grouped seen groups)
    (hlowest : ∀ c ∈ seen, candidate.parsedVersion ≤ c.parsedVersion) :
    Grouped (seen ++ [candidate]) (addCandidate groups candidate) := by
  unfold addCandidate
  split
  next hany =>
    obtain ⟨own, hown, hversion⟩ := List.any_eq_true.1 hany
    have hversion : own.version = candidate.version := of_decide_eq_true hversion
    -- The group of the candidate grows, the others stay as they are.
    refine ⟨?_, ?_, ?_, ?_, ?_⟩
    · intro group hgroup
      obtain ⟨old, hold, rfl⟩ := List.mem_map.1 hgroup
      by_cases hsame : old.version = candidate.version
      · simp [hsame, h.members old hold]
      · have hother : ¬candidate.version = old.version := fun heq => hsame heq.symm
        simp [hsame, hother, h.members old hold]
    · intro group hgroup
      obtain ⟨old, hold, rfl⟩ := List.mem_map.1 hgroup
      by_cases hsame : old.version = candidate.version
      · simp [hsame]
      · simpa [hsame] using h.inhabited old hold
    · intro group hgroup
      obtain ⟨old, hold, rfl⟩ := List.mem_map.1 hgroup
      obtain ⟨c, hc, hcv, hcp⟩ := h.parsed old hold
      refine ⟨c, List.mem_append_left _ hc, ?_⟩
      by_cases hsame : old.version = candidate.version
      · simpa [hsame] using ⟨hcv.trans hsame, hcp⟩
      · simpa [hsame] using ⟨hcv, hcp⟩
    · intro c hc
      have hkept : ∀ group ∈ groups, ∃ group' ∈ groups.map (fun group =>
          if group.version = candidate.version then
            { group with candidates := group.candidates ++ [candidate] } else group),
          group'.version = group.version := by
        intro group hgroup
        refine ⟨_, List.mem_map_of_mem hgroup, ?_⟩
        split <;> rfl
      rcases Table.mem_snoc.1 hc with hc | rfl
      · obtain ⟨group, hgroup, heq⟩ := h.covered c hc
        obtain ⟨group', hgroup', heq'⟩ := hkept group hgroup
        exact ⟨group', hgroup', heq'.trans heq⟩
      · obtain ⟨group', hgroup', heq'⟩ := hkept own hown
        exact ⟨group', hgroup', heq'.trans hversion⟩
    · rw [List.pairwise_map]
      refine h.descending.imp fun {group group'} hle => ?_
      split <;> split <;> exact hle
  next hany =>
    have hnew : ∀ c ∈ seen, c.version ≠ candidate.version := by
      intro c hc heq
      obtain ⟨group, hgroup, hversion⟩ := h.covered c hc
      exact hany (List.any_eq_true.2 ⟨group, hgroup, decide_eq_true (hversion.trans heq)⟩)
    refine ⟨?_, ?_, ?_, ?_, ?_⟩
    · intro group hgroup
      rcases Table.mem_snoc.1 hgroup with hgroup | rfl
      · have hne : candidate.version ≠ group.version := fun heq =>
          hany (List.any_eq_true.2 ⟨group, hgroup, decide_eq_true heq.symm⟩)
        simp [hne, h.members group hgroup]
      · have hnone : seen.filter (·.version = candidate.version) = [] := by
          simpa [List.filter_eq_nil_iff] using hnew
        simp [hnone]
    · intro group hgroup
      rcases Table.mem_snoc.1 hgroup with hgroup | rfl
      · exact h.inhabited group hgroup
      · simp
    · intro group hgroup
      rcases Table.mem_snoc.1 hgroup with hgroup | rfl
      · obtain ⟨c, hc, heq⟩ := h.parsed group hgroup
        exact ⟨c, List.mem_append_left _ hc, heq⟩
      · exact ⟨candidate, by simp, rfl, rfl⟩
    · intro c hc
      rcases Table.mem_snoc.1 hc with hc | rfl
      · obtain ⟨group, hgroup, heq⟩ := h.covered c hc
        exact ⟨group, List.mem_append_left _ hgroup, heq⟩
      · exact ⟨_, List.mem_append_right _ (List.mem_singleton_self _), rfl⟩
    · rw [List.pairwise_append]
      refine ⟨h.descending, List.pairwise_singleton _ _, ?_⟩
      intro group hgroup last hlast
      obtain rfl := List.mem_singleton.1 hlast
      obtain ⟨c, hc, -, hparsed⟩ := h.parsed group hgroup
      exact hparsed ▸ hlowest c hc

theorem grouped_versionGroups (hsorted : candidates.Pairwise higher) :
    Grouped candidates (versionGroups candidates) := by
  unfold versionGroups
  induction candidates using List.reverseRecOn with
  | nil => exact ⟨nofun, nofun, nofun, nofun, .nil⟩
  | append_singleton candidates last ih =>
    rw [List.pairwise_append] at hsorted
    rw [List.foldl_append]
    exact (ih hsorted.1).add fun c hc => hsorted.2.2 c hc last (List.mem_singleton_self _)

/-- The candidate meets the requirement, and none that does is of a higher version. -/
def Highest (candidates : List (Candidate Build)) (selector : Version Build → Bool)
    (candidate : Candidate Build) : Prop :=
  candidate ∈ candidates ∧ selector candidate.parsedVersion = true ∧
    ∀ other ∈ candidates, selector other.parsedVersion = true →
      other.parsedVersion ≤ candidate.parsedVersion

/-- Of groups in descending order, the first to meet a condition has the highest version that
does. -/
theorem find?_descending {group other : VersionGroup Build}
    (hsorted : groups.Pairwise fun group group' => group'.parsedVersion ≤ group.parsedVersion)
    (hfind : groups.find? (fun version => selector version.parsedVersion) = some group)
    (hother : other ∈ groups) (hmeets : selector other.parsedVersion = true) :
    other.parsedVersion ≤ group.parsedVersion := by
  induction groups with
  | nil => cases hother
  | cons head groups ih =>
    rw [List.pairwise_cons] at hsorted
    cases hhead : selector head.parsedVersion with
    | true =>
      simp only [List.find?_cons, hhead] at hfind
      obtain rfl := Option.some.inj hfind
      rcases List.mem_cons.1 hother with rfl | hother
      · exact le_rfl
      · exact hsorted.1 other hother
    | false =>
      simp only [List.find?_cons, hhead] at hfind
      rcases List.mem_cons.1 hother with rfl | hother
      · cases hhead.symm.trans hmeets
      · exact ih hsorted.2 hfind hother

section Pinned

variable {contract : Contract Build} {candidates : List (Candidate Build)}
  {selector : Version Build → Bool} {key : RouteKey} {raw : String} {candidate : Candidate Build}

theorem Grouped.parsedVersion_eq {group : VersionGroup Build} (h : Grouped candidates groups)
    (hparsed : contract.Parsed candidates) (hgroup : group ∈ groups) (hmem : candidate ∈ candidates)
    (hversion : candidate.version = group.version) :
    candidate.parsedVersion = group.parsedVersion := by
  obtain ⟨first, hfirst, hfirstVersion, hfirstParsed⟩ := h.parsed group hgroup
  have hsame := (hparsed.version_eq_iff hmem hfirst).1 (hversion.trans hfirstVersion.symm)
  exact hsame.trans hfirstParsed

section

variable (hsorted : candidates.Pairwise higher)
include hsorted

section

variable (hparsed : contract.Parsed candidates)
include hparsed

theorem highest_of_select
    (h : selectCandidate ⟨key, candidates, versionGroups candidates⟩ (.requirement selector raw)
      decision = some candidate) : Highest candidates selector candidate := by
  have hgrouped := grouped_versionGroups hsorted
  obtain ⟨group, hfind, hchoose⟩ := select_requirement.1 h
  have hgroup := List.mem_of_find?_eq_some hfind
  have hmem := mem_of_chooseCandidate hchoose
  rw [hgrouped.members group hgroup] at hmem
  obtain ⟨hmem, hversion⟩ := List.mem_filter.1 hmem
  have hsame := hgrouped.parsedVersion_eq hparsed hgroup hmem (of_decide_eq_true hversion)
  have hmeets : selector group.parsedVersion = true := by simpa using List.find?_some hfind
  refine ⟨hmem, hsame ▸ hmeets, ?_⟩
  intro other hother hselects
  obtain ⟨otherGroup, hotherGroup, hotherVersion⟩ := hgrouped.covered other hother
  have hotherParsed := hgrouped.parsedVersion_eq hparsed hotherGroup hother hotherVersion.symm
  rw [hsame, hotherParsed]
  exact find?_descending hgrouped.descending hfind hotherGroup (hotherParsed ▸ hselects)

theorem select_eq_some
    (hmem : candidate ∈ candidates) (hmeets : selector candidate.parsedVersion = true)
    (key : RouteKey) (raw : String) (decision : Decision) :
    ∃ selected, selectCandidate ⟨key, candidates, versionGroups candidates⟩
      (.requirement selector raw) decision = some selected := by
  have hgrouped := grouped_versionGroups hsorted
  obtain ⟨group, hgroup, hversion⟩ := hgrouped.covered candidate hmem
  have hsame := hgrouped.parsedVersion_eq hparsed hgroup hmem hversion.symm
  have hsome : ((versionGroups candidates).find? fun version =>
      selector version.parsedVersion).isSome = true :=
    List.find?_isSome.2 ⟨group, hgroup, hsame ▸ hmeets⟩
  obtain ⟨found, hfound⟩ := Option.isSome_iff_exists.1 hsome
  obtain ⟨selected, -, hchoose⟩ := chooseCandidate_eq_some decision
    (hgrouped.inhabited found (List.mem_of_find?_eq_some hfound))
  exact ⟨selected, select_requirement.2 ⟨found, hfound, hchoose⟩⟩

theorem exists_select (h : Highest candidates selector candidate) (key : RouteKey) (raw : String) :
    ∃ decision, selectCandidate ⟨key, candidates, versionGroups candidates⟩
      (.requirement selector raw) decision = some candidate := by
  have hgrouped := grouped_versionGroups hsorted
  -- Whatever is selected first is of the same version, hence from the same group.
  obtain ⟨selected, hselected⟩ := select_eq_some hsorted hparsed h.1 h.2.1 key raw
    ⟨fun _ => true, 0⟩
  have hhighest := highest_of_select hsorted hparsed hselected
  obtain ⟨group, hfind, hchoose⟩ := select_requirement.1 hselected
  have hgroup := List.mem_of_find?_eq_some hfind
  have hin := mem_of_chooseCandidate hchoose
  have hsame : candidate.version = selected.version :=
    (hparsed.version_eq_iff h.1 hhighest.1).2 (le_antisymm (hhighest.2.2 candidate h.1 h.2.1)
      (h.2.2 selected hhighest.1 hhighest.2.1))
  have hmem : candidate ∈ group.candidates := by
    rw [hgrouped.members group hgroup] at hin ⊢
    have hversion := of_decide_eq_true (List.mem_filter.1 hin).2
    exact List.mem_filter.2 ⟨h.1, decide_eq_true (hsame.trans hversion)⟩
  obtain ⟨decision, hdecision⟩ := exists_chooseCandidate hmem
  exact ⟨decision, select_requirement.2 ⟨group, hfind, hdecision⟩⟩

end

end

end Pinned

end Wruntime.Proxy
