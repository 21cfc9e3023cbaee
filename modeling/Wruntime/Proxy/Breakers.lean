import Wruntime.Lib.Runs
import Wruntime.Proxy.Install

/-!
The breakers of the addresses that a proxy forwards to, over a sequence of installed tables. The
build of a table finds an address's breaker in the registry or builds one; unused addresses are
evicted afterwards, and the empty address even if used.
-/

namespace Wruntime.Proxy

open Runs

variable {Build : Type}

/-- The registry, and the installed candidates with their breakers. A breaker is its number in the
order built. -/
structure Breakers (Build : Type) where
  built : Nat
  inner : String → Option (BreakerTargetClass × Nat)
  candidates : List (PreparedCandidate Build × Nat)

namespace Breakers

def new : Breakers Build := ⟨0, fun _ => none, []⟩

def addresses (s : Breakers Build) : List String := s.candidates.map (·.1.address)

def resolve (s : Breakers Build) (c : PreparedCandidate Build) : Breakers Build :=
  match s.inner c.address with
  | some (existing, breaker) =>
    if existing = c.targetClass then { s with candidates := s.candidates ++ [(c, breaker)] }
    else s
  | none =>
    ⟨s.built + 1, Function.update s.inner c.address (some (c.targetClass, s.built)),
      s.candidates ++ [(c, s.built)]⟩

def evictMissing (s : Breakers Build) : Breakers Build :=
  { s with
    inner := fun address => if address ∈ s.addresses ∧ address ≠ "" then s.inner address else none }

def install (contract : Contract Build) (self : String) (s : Breakers Build)
    (rules : List RoutingRule) : Breakers Build :=
  ((contract.usable self rules).foldl resolve { s with candidates := [] }).evictMissing

/-- Each address of a table has the class that it has throughout. -/
def Regular (contract : Contract Build) (self : String) (classOf : String → BreakerTargetClass)
    (_ : Breakers Build) (rules : List RoutingRule) : Prop :=
  ∀ c ∈ contract.usable self rules, c.targetClass = classOf c.address

variable {contract : Contract Build} {self : String} {classOf : String → BreakerTargetClass}
  {s t : Breakers Build} {rules : List RoutingRule}

/-- What a build makes of the registry of `s`: entries stay, and new ones have new breakers. -/
structure Built (classOf : String → BreakerTargetClass) (s t : Breakers Build) : Prop where
  built : s.built ≤ t.built
  kept : ∀ a e, s.inner a = some e → t.inner a = some e
  entry : ∀ a k b, t.inner a = some (k, b) →
    k = classOf a ∧ b < t.built ∧ (s.inner a = some (k, b) ∨ s.built ≤ b)
  held : ∀ p ∈ t.candidates, t.inner p.1.address = some (classOf p.1.address, p.2)

theorem Built.resolve (h : Built classOf s t) {c : PreparedCandidate Build}
    (hclass : c.targetClass = classOf c.address) : Built classOf s (t.resolve c) := by
  cases hentry : t.inner c.address with
  | some entry =>
    obtain ⟨existing, breaker⟩ := entry
    obtain ⟨rfl, _⟩ := h.entry _ _ _ hentry
    simp only [Breakers.resolve, hentry, hclass, if_true]
    refine ⟨h.built, h.kept, h.entry, fun p hp => ?_⟩
    rcases Table.mem_snoc.1 hp with hold | rfl
    · exact h.held p hold
    · exact hentry
  | none =>
    have hinner : ∀ a e, Function.update t.inner c.address (some (classOf c.address, t.built)) a =
        some e ↔ t.inner a = some e ∨ a = c.address ∧ e = (classOf a, t.built) := by
      intro a e
      by_cases ha : a = c.address
      · subst ha
        simp [hentry, eq_comm]
      · simp [ha]
    simp only [Breakers.resolve, hentry, hclass]
    refine ⟨h.built.trans (Nat.le_succ _), fun a e he => (hinner a e).2 (.inl (h.kept a e he)),
      fun a k b hab => ?_, fun p hp => ?_⟩
    · rcases (hinner a _).1 hab with hold | ⟨_, heq⟩
      · obtain ⟨hk, hb, hcases⟩ := h.entry a k b hold
        exact ⟨hk, Nat.lt_succ_of_lt hb, hcases⟩
      · cases heq
        exact ⟨rfl, Nat.lt_succ_self _, .inr h.built⟩
    · rcases Table.mem_snoc.1 hp with hold | rfl
      · exact (hinner _ _).2 (.inl (h.held p hold))
      · exact (hinner _ _).2 (.inr ⟨rfl, rfl⟩)

theorem Built.shared (h : Built classOf s t) {p q : PreparedCandidate Build × Nat}
    (hp : p ∈ t.candidates) (hq : q ∈ t.candidates) (hsame : p.1.address = q.1.address) :
    p.2 = q.2 := by
  have hentry := h.held p hp
  rw [hsame, h.held q hq] at hentry
  exact (congrArg Prod.snd (Option.some.inj hentry)).symm

/-- The registry has the breakers of the named addresses of the installed table. -/
structure Sound (classOf : String → BreakerTargetClass) (s : Breakers Build) : Prop where
  entry : ∀ a k b, s.inner a = some (k, b) →
    k = classOf a ∧ b < s.built ∧ a ∈ s.addresses ∧ a ≠ ""
  held : ∀ p ∈ s.candidates, p.2 < s.built ∧
    (p.1.address ≠ "" → s.inner p.1.address = some (classOf p.1.address, p.2))
  shared : ∀ p ∈ s.candidates, ∀ q ∈ s.candidates, p.1.address = q.1.address → p.2 = q.2

theorem Built.evictMissing (h : Built classOf s t) : Sound classOf t.evictMissing := by
  refine ⟨fun a k b hab => ?_, fun p hp => ⟨(h.entry _ _ _ (h.held p hp)).2.1, fun hname => ?_⟩,
    fun p hp q hq => h.shared hp hq⟩
  · change (if _ then _ else _) = _ at hab
    split at hab
    next hactive =>
      obtain ⟨hk, hb, _⟩ := h.entry a k b hab
      exact ⟨hk, hb, hactive⟩
    next => cases hab
  · exact (if_pos ⟨List.mem_map_of_mem hp, hname⟩).trans (h.held p hp)

theorem install_built (hs : Sound classOf s) (hok : Regular contract self classOf s rules) :
    ∃ t, Built classOf s t ∧ s.install contract self rules = t.evictMissing := by
  refine ⟨_, List.foldlRecOn (motive := Built classOf s) (contract.usable self rules)
    Breakers.resolve (b := { s with candidates := [] }) ?_
    fun _ ht c hc => ht.resolve (hok c hc), rfl⟩
  refine ⟨le_rfl, fun _ _ he => he, fun a k b hab => ?_, fun _ hp => absurd hp List.not_mem_nil⟩
  obtain ⟨hk, hb, _⟩ := hs.entry a k b hab
  exact ⟨hk, hb, .inl hab⟩

theorem reach_sound (hs : Sound classOf s)
    (hrun : Reach (install contract self) (Regular contract self classOf) s t) :
    Sound classOf t ∧ s.built ≤ t.built := by
  refine hrun.invariant (P := fun t => Sound classOf t ∧ s.built ≤ t.built) ⟨hs, le_rfl⟩ ?_
  rintro t rules _ hok ⟨ht, hle⟩
  obtain ⟨u, hu, heq⟩ := install_built ht hok
  rw [heq]
  exact ⟨hu.evictMissing, hle.trans hu.built⟩

/-- In every run the candidates of an address share one breaker, and the registry has exactly the
table's named addresses. While the tables have such an address its breaker stays; that of a new or
the empty address is newly built. -/
theorem breakers_follow_addresses (classOf : String → BreakerTargetClass)
    (hs : Reach (install contract self) (Regular contract self classOf) new s) :
    (∀ p ∈ s.candidates, ∀ q ∈ s.candidates, p.1.address = q.1.address → p.2 = q.2) ∧
    (∀ a, (s.inner a).isSome = true ↔ a ∈ s.addresses ∧ a ≠ "") ∧
    (∀ a t, a ≠ "" → Reach (install contract self) (fun u rules =>
        Regular contract self classOf u rules ∧ a ∈ (u.install contract self rules).addresses) s t →
      ∀ p ∈ s.candidates, ∀ q ∈ t.candidates, p.1.address = a → q.1.address = a → p.2 = q.2) ∧
    ∀ t rules, Reach (install contract self) (Regular contract self classOf) s t →
      Regular contract self classOf t rules → ∀ q ∈ (t.install contract self rules).candidates,
        q.1.address ∉ t.addresses ∨ q.1.address = "" →
        t.built ≤ q.2 ∧ ∀ p ∈ s.candidates, p.2 ≠ q.2 := by
  have hnew : Sound classOf (new : Breakers Build) := by constructor <;> simp [new]
  obtain ⟨hsound, _⟩ := reach_sound hnew hs
  refine ⟨hsound.shared, fun a => ⟨fun ha => ?_, fun ⟨ha, hname⟩ => ?_⟩,
    fun a t hname hrun p hp q hq hpa hqa => ?_, fun t rules hrun hok q hq hcomes => ?_⟩
  · obtain ⟨⟨k, b⟩, he⟩ := Option.isSome_iff_exists.1 ha
    exact (hsound.entry a k b he).2.2
  · obtain ⟨p, hp, rfl⟩ := List.mem_map.1 ha
    exact Option.isSome_iff_exists.2 ⟨_, (hsound.held p hp).2 hname⟩
  · -- Each table on the way has a candidate of the address, with the breaker of the one before.
    obtain ⟨ht, r, hr, hra, hbreaker⟩ := hrun.invariant (P := fun t => Sound classOf t ∧
      ∃ r ∈ t.candidates, r.1.address = a ∧ r.2 = p.2) ⟨hsound, p, hp, hpa, rfl⟩ (by
        rintro u rules _ ⟨hok, hkeeps⟩ ⟨hu, r, hr, rfl, hbreaker⟩
        obtain ⟨v, hv, heq⟩ := install_built hu hok
        rw [heq] at hkeeps ⊢
        obtain ⟨r', hr', hra'⟩ := List.mem_map.1 hkeeps
        refine ⟨hv.evictMissing, r', hr', hra', ?_⟩
        have hentry := hv.kept _ _ ((hu.held r hr).2 hname)
        rw [← hra', hv.held r' hr'] at hentry
        exact (congrArg Prod.snd (Option.some.inj hentry)).trans hbreaker)
    rw [← hbreaker]
    exact ht.shared r hr q hq (hra.trans hqa.symm)
  · obtain ⟨ht, hbuilt⟩ := reach_sound hsound hrun
    obtain ⟨v, hv, heq⟩ := install_built ht hok
    rw [heq] at hq
    obtain ⟨_, _, hold | hlater⟩ := hv.entry _ _ _ (hv.held q hq)
    · obtain ⟨_, _, hpresent, hname⟩ := ht.entry _ _ _ hold
      exact (hcomes.elim (absurd hpresent) hname).elim
    · exact ⟨hlater, fun p hp => ((hsound.held p hp).1.trans_le (hbuilt.trans hlater)).ne⟩

end Breakers

section

open Sample

/-- A refresh adds a version at the engine's address, and both versions keep its breaker. -/
theorem settled_table_registered :
    let s := Breakers.install releases "https://a:9444" .new settled.rules
    let t := s.install releases "https://a:9444" upgraded.rules
    (∀ a, (s.inner a).isSome = true ↔ a ∈ s.addresses ∧ a ≠ "") ∧
      (s.candidates.length = 1 ∧ t.candidates.length = 2) ∧
      ∀ p ∈ s.candidates, ∀ q ∈ t.candidates, p.1.address = "https://a:9150" →
        q.1.address = "https://a:9150" → p.2 = q.2 := by
  intro s t
  obtain ⟨_, hregistered, hkept, _⟩ :=
    Breakers.breakers_follow_addresses (fun _ => .localEngine) (s := s) (.single (by
      unfold Breakers.Regular
      decide +kernel))
  refine ⟨hregistered, by decide +kernel, hkept _ t (by decide) (.single ⟨?_, ?_⟩)⟩
  · unfold Breakers.Regular
    decide +kernel
  · decide +kernel

/-- A local engine without an address is not registered, and gets a new breaker with each
table. -/
theorem empty_address_loses_breaker :
    let table : List RoutingRule := [⟨"shop", "cart", "1.2.0", "", "https://a:9444", true⟩]
    let first := Breakers.install releases "https://a:9444" .new table
    let second := first.install releases "https://a:9444" table
    first.candidates.map (·.2) = [0] ∧ first.inner "" = none ∧
      second.candidates.map (·.2) = [1] := by
  decide +kernel

end

end Wruntime.Proxy
