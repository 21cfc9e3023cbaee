import Wruntime.Proxy.Relay

/-!
The routing table that a proxy installs. `replace` builds the index of a newer table with a breaker
registry that outlives the tables, and only then evicts the addresses it does not use. A local
engine's address in the installed table cannot be a peer proxy in the next: its rules are skipped,
unlike on a fresh proxy.
-/

namespace Wruntime.Proxy

open Fallible

variable {Build : Type}

structure VersionedTable extends RoutingTable where
  version : Nat

/-- The installed index, with the registry that the next one is built with. -/
structure CachedRoutingTable (Build : Type) where
  version : Nat
  index : Gathered Build

def CachedRoutingTable.new : CachedRoutingTable Build := ⟨0, ⟨fun _ => none, []⟩⟩

abbrev Candidate.address (c : Candidate Build) : String := c.destination.address

abbrev Candidate.targetClass (c : Candidate Build) : BreakerTargetClass :=
  c.destination.targetClass

def Gathered.activeForwardAddrs (index : Gathered Build) : List String :=
  (index.prepared.map (·.address)).filter (· ≠ "")

def Gathered.evictMissing (index : Gathered Build) : Gathered Build :=
  { index with
    registry := fun address =>
      if address ∈ index.activeForwardAddrs then index.registry address else none }

def Contract.replace (contract : Contract Build) (selfPeerAddress : String)
    (cached : CachedRoutingTable Build) (incoming : VersionedTable) : CachedRoutingTable Build :=
  if incoming.version ≤ cached.version then cached
  else
    ⟨incoming.version, (contract.fromProto incoming.toRoutingTable cached.index.registry
      selfPeerAddress).evictMissing⟩

/-- The candidates that requests for a module are served from. -/
def Contract.held [LinearOrder Build] (contract : Contract Build)
    (cached : CachedRoutingTable Build) (key : RouteKey) : List (Candidate Build) :=
  ((contract.get cached.index key).map (·.candidates)).getD []

/-- The candidate that a healthy, well-formed rule stands for. -/
def Contract.candidate? (contract : Contract Build) (selfPeerAddress : String)
    (rule : RoutingRule) : Option (PreparedCandidate Build) :=
  if rule.healthy = false then none
  else if rule.peerAddress = "" then none
  else match RouteKey.parse rule.destinationNamespace rule.destinationModule with
    | .error _ => none
    | .ok key =>
      match contract.parse rule.destinationVersion with
      | none => none
      | some v =>
        if contract.header rule.destinationVersion = false then none
        else some ⟨⟨rule.destinationVersion, v, makeDestination rule selfPeerAddress⟩, key⟩

def Contract.usable (contract : Contract Build) (selfPeerAddress : String)
    (rules : List RoutingRule) : List (PreparedCandidate Build) :=
  rules.filterMap (contract.candidate? selfPeerAddress)

/-- Whatever its order, the table is held as by a fresh proxy, each usable rule once under its
module. -/
def Contract.Faithful [LinearOrder Build] (contract : Contract Build) (selfPeerAddress : String)
    (cached : CachedRoutingTable Build) (table : VersionedTable) : Prop :=
  ∀ rules : List RoutingRule, rules.Perm table.rules → ∀ key,
    contract.held (contract.replace selfPeerAddress cached ⟨⟨rules⟩, table.version⟩) key =
        contract.held (contract.replace selfPeerAddress .new ⟨⟨rules⟩, table.version⟩) key ∧
      (contract.held (contract.replace selfPeerAddress cached ⟨⟨rules⟩, table.version⟩) key).Perm
        (((contract.usable selfPeerAddress table.rules).filter (·.key = key)).map (·.toCandidate))

/-- The candidates whose addresses the registry keeps for the next build. -/
def Gathered.remembered (index : Gathered Build) : List (PreparedCandidate Build) :=
  index.prepared.filter (·.address ≠ "")

/-- No address of the candidates has another class among those remembered or among
themselves. -/
def Unambiguous (remembered candidates : List (PreparedCandidate Build)) : Prop :=
  ∀ c ∈ candidates, ∀ d ∈ remembered ++ candidates,
    c.address = d.address → c.targetClass = d.targetClass

/-- What `from_proto` does with a candidate: its address must not have the other class. -/
def Gathered.take (gathered : Gathered Build) (c : PreparedCandidate Build) : Gathered Build :=
  match gathered.registry.resolve c.address c.targetClass with
  | .error _ => gathered
  | .ok registry => ⟨registry, gathered.prepared ++ [c]⟩

def Registry.Fits (registry : Registry) (c : PreparedCandidate Build) : Prop :=
  registry c.address = some c.targetClass

instance (registry : Registry) (c : PreparedCandidate Build) : Decidable (registry.Fits c) :=
  inferInstanceAs (Decidable (_ = _))

theorem take_cases (gathered : Gathered Build) (c : PreparedCandidate Build) :
    (∃ other, gathered.registry c.address = some other ∧ other ≠ c.targetClass ∧
        gathered.take c = gathered) ∨
      (∀ other, gathered.registry c.address = some other → other = c.targetClass) ∧
      gathered.take c = ⟨Function.update gathered.registry c.address (some c.targetClass),
        gathered.prepared ++ [c]⟩ := by
  unfold Gathered.take Registry.resolve
  cases hentry : gathered.registry c.address with
  | none => simp
  | some other =>
    by_cases hsame : other = c.targetClass
    · subst hsame
      exact .inr ⟨by simp [eq_comm], by simp [← hentry]⟩
    · simp [hsame]

/-- What a build leaves in the registry, and that it decides which candidates are kept. -/
theorem foldl_take {candidates : List (PreparedCandidate Build)} {gathered final : Gathered Build}
    (h : candidates.foldl Gathered.take gathered = final) :
    final.prepared = gathered.prepared ++ candidates.filter (final.registry.Fits ·) ∧
      (∀ a x, gathered.registry a = some x → final.registry a = some x) ∧
      (∀ c ∈ candidates, ∃ x, final.registry c.address = some x) ∧
      ∀ a x, final.registry a = some x → gathered.registry a = some x ∨
        ∃ d ∈ candidates, d.address = a ∧ d.targetClass = x := by
  induction candidates generalizing gathered with
  | nil => simp [← h]
  | cons c candidates ih =>
    obtain ⟨hprepared, hkept, hsome, hback⟩ := ih h
    rcases take_cases gathered c with ⟨other, hentry, hne, hskip⟩ | ⟨hfits, htake⟩
    · rw [hskip] at hprepared hkept hback
      have hother := hkept _ _ hentry
      have hnot : ¬final.registry.Fits c := fun h => hne (Option.mem_unique hother h)
      refine ⟨?_, hkept, List.forall_mem_cons.2 ⟨⟨other, hother⟩, hsome⟩, fun a x h => ?_⟩
      · rw [List.filter_cons_of_neg (by simpa using hnot)]
        exact hprepared
      · exact (hback a x h).imp_right fun ⟨d, hd, hsame⟩ => ⟨d, by simp [hd], hsame⟩
    · rw [htake] at hprepared hkept hback
      have hclass : final.registry.Fits c := hkept _ _ (Function.update_self ..)
      refine ⟨?_, fun a x h => ?_, List.forall_mem_cons.2 ⟨⟨_, hclass⟩, hsome⟩, fun a x h => ?_⟩
      · rw [List.filter_cons_of_pos (by simpa using hclass), List.append_cons]
        exact hprepared
      · by_cases ha : a = c.address
        · subst ha
          rw [hfits x h]
          exact hclass
        · exact hkept a x ((Function.update_of_ne ha ..).trans h)
      · rcases hback a x h with hold | ⟨d, hd, hsame⟩
        · by_cases ha : a = c.address
          · subst ha
            simp only [Function.update_self, Option.some.injEq] at hold
            exact .inr ⟨c, by simp, rfl, hold⟩
          · exact .inl ((Function.update_of_ne ha ..).symm.trans hold)
        · exact .inr ⟨d, by simp [hd], hsame⟩

/-- The registry of an installed table knows the classes of its addresses. -/
def CachedRoutingTable.Tracks (cached : CachedRoutingTable Build) : Prop :=
  ∀ a x, cached.index.registry a = some x ↔
    ∃ d ∈ cached.index.remembered, d.address = a ∧ d.targetClass = x

theorem tracks_evictMissing {final : Gathered Build} (version : Nat)
    (h : ∀ d ∈ final.prepared, final.registry.Fits d) :
    CachedRoutingTable.Tracks ⟨version, final.evictMissing⟩ := by
  intro a x
  constructor
  · intro hx
    change (if _ then _ else _) = _ at hx
    split at hx
    next hactive =>
      obtain ⟨hmem, hname⟩ := List.mem_filter.1 hactive
      obtain ⟨d, hd, rfl⟩ := List.mem_map.1 hmem
      exact ⟨d, List.mem_filter.2 ⟨hd, hname⟩, rfl, Option.some.inj ((h d hd).symm.trans hx)⟩
    · cases hx
  · rintro ⟨d, hd, rfl, rfl⟩
    obtain ⟨hd, hname⟩ := List.mem_filter.1 hd
    exact (if_pos (List.mem_filter.2 ⟨List.mem_map_of_mem hd, hname⟩)).trans (h d hd)

section Installed

variable {contract : Contract Build} {self : String} {cached : CachedRoutingTable Build}
  {incoming : VersionedTable}

theorem prepare_eq (gathered : Gathered Build) (rule : RoutingRule) :
    contract.prepare self gathered rule =
      match contract.candidate? self rule with
      | some c => gathered.take c
      | none => gathered := by
  unfold Contract.prepare Contract.candidate?
  split
  · rfl
  split
  · rfl
  cases RouteKey.parse rule.destinationNamespace rule.destinationModule with
  | error _ => rfl
  | ok key =>
    cases contract.parse rule.destinationVersion with
    | none => rfl
    | some v =>
      dsimp only
      split <;> rfl

theorem replace_eq (hnewer : cached.version < incoming.version) :
    ∃ final, contract.replace self cached incoming = ⟨incoming.version, final.evictMissing⟩ ∧
      (contract.usable self incoming.rules).foldl Gathered.take ⟨cached.index.registry, []⟩ =
        final := by
  refine ⟨_, if_neg (not_le.2 hnewer), ?_⟩
  unfold Contract.fromProto Contract.usable
  rw [List.foldl_filterMap]
  congr 1
  funext gathered rule
  rw [prepare_eq]
  cases contract.candidate? self rule <;> rfl

theorem tracks_installed (earlier : List VersionedTable) :
    (earlier.foldl (contract.replace self) .new).Tracks := by
  refine List.foldlRecOn earlier _ ?_ fun cached h incoming _ => ?_
  · intro a x
    simp [CachedRoutingTable.new, Gathered.remembered]
  by_cases hnewer : cached.version < incoming.version
  · obtain ⟨final, heq, hfinal⟩ := replace_eq hnewer
    rw [heq]
    refine tracks_evictMissing _ fun d hd => ?_
    rw [(foldl_take hfinal).1] at hd
    simpa using (List.mem_filter.1 hd).2
  · rw [Contract.replace, if_pos (not_lt.1 hnewer)]
    exact h

/-- The rules kept are those whose addresses fit, all of them exactly where no class is
ambiguous. -/
theorem prepared_replace (h : cached.Tracks) (hnewer : cached.version < incoming.version) :
    ∃ registry : Registry, (contract.replace self cached incoming).index.prepared =
        (contract.usable self incoming.rules).filter (registry.Fits ·) ∧
      ((∀ c ∈ contract.usable self incoming.rules, registry.Fits c) ↔
        Unambiguous cached.index.remembered (contract.usable self incoming.rules)) := by
  obtain ⟨final, heq, hfinal⟩ := replace_eq hnewer
  obtain ⟨hprepared, hkept, hsome, hback⟩ := foldl_take hfinal
  refine ⟨final.registry, ?_, ?_, ?_⟩
  · rw [heq]
    exact hprepared
  · intro hall c hc d hd hsame
    have hfits : final.registry.Fits d := by
      rcases List.mem_append.1 hd with hold | hd
      · exact hkept _ _ ((h _ _).2 ⟨d, hold, rfl, rfl⟩)
      · exact hall d hd
    exact Option.some.inj ((hall c hc).symm.trans ((congrArg _ hsame).trans hfits))
  · intro hclear c hc
    obtain ⟨x, hx⟩ := hsome c hc
    obtain ⟨d, hd, haddress, rfl⟩ :
        ∃ d ∈ cached.index.remembered ++ contract.usable self incoming.rules,
          d.address = c.address ∧ d.targetClass = x := by
      rcases hback _ x hx with hold | ⟨d, hd, hsame⟩
      · obtain ⟨d, hd, hsame⟩ := (h _ x).1 hold
        exact ⟨d, List.mem_append_left _ hd, hsame⟩
      · exact ⟨d, List.mem_append_right _ hd, hsame⟩
    rw [Registry.Fits, hx, hclear c hc d hd haddress.symm]

variable (hheader : ∀ name what, Auth.validateName name what = .ok () →
  contract.header name = true)
include hheader

variable [LinearOrder Build]

theorem held_replace (hnewer : cached.version < incoming.version) (key : RouteKey) :
    contract.held (contract.replace self cached incoming) key =
      (contract.replace self cached incoming).index.candidates key := by
  have hsound : ∀ c ∈ (contract.replace self cached incoming).index.prepared,
      c.Sound contract := by
    rw [Contract.replace, if_neg (not_le.2 hnewer)]
    exact contract.fromProto_sound _ _ _
  unfold Contract.held Contract.get
  dsimp only
  split
  next hinvalid =>
    have hnone : (contract.replace self cached incoming).index.prepared.filter
        (·.key = key) = [] := by
      refine List.filter_eq_nil_iff.2 fun c hc hkey => ?_
      obtain rfl : c.key = key := by simpa using hkey
      have hvalid := (hsound c hc).valid
      simp only [RouteKey.validate, bind_eq_ok] at hvalid
      obtain ⟨_, hnamespace, hmodule⟩ := hvalid
      simp [hheader _ _ hnamespace, hheader _ _ hmodule] at hinvalid
    simp [Gathered.candidates, hnone]
  · split
    next hnone => exact hnone.symm
    · rfl

theorem held_of_unambiguous (h : cached.Tracks) (hnewer : cached.version < incoming.version)
    (hclear : Unambiguous cached.index.remembered (contract.usable self incoming.rules))
    (key : RouteKey) : contract.held (contract.replace self cached incoming) key =
      (((contract.usable self incoming.rules).filter (·.key = key)).map
        (·.toCandidate)).insertionSort higher := by
  obtain ⟨registry, hprepared, hiff⟩ := prepared_replace h hnewer
  have hall := List.filter_eq_self.2 fun c hc => decide_eq_true (hiff.2 hclear c hc)
  rw [held_replace hheader hnewer, Gathered.candidates, hprepared, hall]

/-- After any installations, a newer table is held faithfully exactly if none of its
addresses changes its class, from the installed table or within the table. -/
theorem installed_index_faithful_iff (earlier : List VersionedTable) (table : VersionedTable)
    (hnewer : (earlier.foldl (contract.replace self) .new).version < table.version) :
    contract.Faithful self (earlier.foldl (contract.replace self) .new) table ↔
      Unambiguous (earlier.foldl (contract.replace self) .new).index.remembered
        (contract.usable self table.rules) := by
  have htracks := @tracks_installed _ contract self earlier
  generalize earlier.foldl (contract.replace self) .new = cached at hnewer htracks ⊢
  constructor
  · intro hfaithful
    obtain ⟨registry, hprepared, hiff⟩ := @prepared_replace _ contract self _ _ htracks hnewer
    refine hiff.1 fun c hc => ?_
    -- The module of a rule that is left out has a candidate less.
    have hlength := (hfaithful table.rules .rfl c.key).2.length_eq
    rw [held_replace hheader hnewer, Gathered.candidates, hprepared,
      List.length_insertionSort, List.length_map, List.length_map, List.filter_comm] at hlength
    simpa [hc] using List.length_filter_eq_length_iff.1 hlength c
  · intro hclear rules hperm key
    have husable := hperm.filterMap (contract.candidate? self)
    have hrules : Unambiguous cached.index.remembered (contract.usable self rules) := by
      intro c hc d hd
      exact hclear c (husable.mem_iff.1 hc) d ((husable.append_left _).mem_iff.1 hd)
    have hfresh : Unambiguous [] (contract.usable self rules) := fun c hc d hd =>
      hrules c hc d (List.mem_append_right _ hd)
    have hnew := @tracks_installed _ contract self []
    rw [@held_of_unambiguous _ contract self cached ⟨⟨rules⟩, table.version⟩ hheader _ htracks
        hnewer hrules,
      @held_of_unambiguous _ contract self .new ⟨⟨rules⟩, table.version⟩ hheader _ hnew
        (Nat.zero_lt_of_lt hnewer) hfresh]
    exact ⟨rfl, (List.perm_insertionSort _ _).trans ((husable.filter _).map _)⟩

end Installed

section

open Sample

/-- The table that is refreshed gains a second local version and two peers. -/
theorem replicated_table_held :
    let cached := releases.replace "https://a:9444" .new ⟨settled, 1⟩
    let table : VersionedTable := ⟨⟨upgraded.rules ++ replicated.rules⟩, 2⟩
    releases.Faithful "https://a:9444" cached table ∧
      (releases.held (releases.replace "https://a:9444" cached table) cart).length = 4 := by
  refine ⟨(installed_index_faithful_iff (fun _ _ _ => rfl) [⟨settled, 1⟩] _ (by decide)).2 ?_,
    by decide +kernel⟩
  unfold Unambiguous
  decide +kernel

/-- The address of the node's engine becomes that of a peer, whose rule is left out. -/
theorem reused_address_left_out :
    let moved : VersionedTable :=
      ⟨⟨[⟨"shop", "cart", "1.2.0", "https://b:9150", "https://a:9150", true⟩]⟩, 2⟩
    let cached := releases.replace "https://a:9444" .new ⟨settled, 1⟩
    releases.held (releases.replace "https://a:9444" cached moved) cart = [] ∧
      releases.held (releases.replace "https://a:9444" .new moved) cart =
        [⟨"1.2.0", release 2, .remoteProxy "https://a:9150"⟩] := by
  decide +kernel

end

end Wruntime.Proxy
