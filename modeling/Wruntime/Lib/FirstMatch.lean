import Mathlib.Data.List.Basic

/-!
Ordered rule lists in which the first rule that matches a request decides it. What holds of every
decision is said rule by rule: a rule decides exactly the requests that it matches and no earlier
rule does.
-/

namespace Wruntime.FirstMatch

variable {ρ κ : Type*}

def decisive (hits : ρ → κ → Bool) (rules : List ρ) (request : κ) : Option ρ :=
  rules.find? (hits · request)

def Taken (hits : ρ → κ → Bool) (earlier : List ρ) (request : κ) : Prop :=
  ∃ rule ∈ earlier, hits rule request = true

variable {hits : ρ → κ → Bool} {rules : List ρ} {request : κ}

theorem decisive_eq_some {rule : ρ} : decisive hits rules request = some rule ↔
      ∃ earlier later, rules = earlier ++ rule :: later ∧ hits rule request = true ∧
        ¬Taken hits earlier request := by
  rw [decisive, List.find?_eq_some_iff_append]
  constructor
  · rintro ⟨hhit, earlier, later, rfl, hnone⟩
    refine ⟨earlier, later, rfl, hhit, ?_⟩
    rintro ⟨other, hother, hhits⟩
    have hmiss := hnone other hother
    rw [hhits] at hmiss
    cases hmiss
  · rintro ⟨earlier, later, rfl, hhit, hfree⟩
    refine ⟨hhit, earlier, later, rfl, ?_⟩
    intro other hother
    rw [Bool.not_eq_true', Bool.eq_false_iff]
    exact fun hhits => hfree ⟨other, hother, hhits⟩

theorem decisive_mem {rule : ρ} (h : decisive hits rules request = some rule) :
    rule ∈ rules ∧ hits rule request = true :=
  ⟨List.mem_of_find?_eq_some h, List.find?_some (p := (hits · request)) h⟩

theorem decisive_isSome : (decisive hits rules request).isSome ↔ Taken hits rules request := by
  rw [decisive, List.find?_isSome]
  rfl

/-- In an ordered list the rule that decides is a given matching one, or comes before it. -/
theorem decisive_eq_or_before {before : ρ → ρ → Prop} {rule deciding : ρ}
    (hordered : rules.Pairwise before) (hmem : rule ∈ rules) (hhit : hits rule request = true)
    (hdecides : decisive hits rules request = some deciding) :
    deciding = rule ∨ before deciding rule := by
  obtain ⟨earlier, later, rfl, _, hfree⟩ := decisive_eq_some.mp hdecides
  rcases List.mem_append.mp hmem with hearlier | hrest
  · exact absurd ⟨rule, hearlier, hhit⟩ hfree
  · rcases List.mem_cons.mp hrest with rfl | hlater
    · exact .inl rfl
    · have hbehind := (List.pairwise_append.mp hordered).2.1
      exact .inr (List.rel_of_pairwise_cons hbehind hlater)

end Wruntime.FirstMatch
