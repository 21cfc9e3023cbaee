import Mathlib.Data.Prod.Lex
import Mathlib.Data.String.Basic
import Mathlib.Data.Sum.Order

/-!
Semantic versions with their total order and caret ranges. A release is above all of its
pre-releases; build metadata are compared last, in an order that is a parameter, and are
no part of a range.
-/

namespace Wruntime.Semver

/-- An identifier of a pre-release: numbers are below texts. -/
abbrev Label := Lex (Nat ⊕ String)

structure Version (Build : Type) where
  major : Nat
  minor : Nat
  patch : Nat
  /-- The top is a release. -/
  pre : WithTop (List Label)
  build : Build
  deriving DecidableEq

variable {Build : Type}

/-- The order of precedence, part by part. -/
def Version.key (v : Version Build) :
    Nat ×ₗ Nat ×ₗ Nat ×ₗ WithTop (List Label) ×ₗ Build :=
  toLex (v.major, toLex (v.minor, toLex (v.patch, toLex (v.pre, v.build))))

theorem Version.key_injective : Function.Injective (@Version.key Build) := by
  rintro ⟨major, minor, patch, pre, build⟩ ⟨major', minor', patch', pre', build'⟩ h
  obtain ⟨rfl, rfl, rfl, rfl, rfl⟩ := h
  rfl

instance [LinearOrder Build] : LinearOrder (Version Build) :=
  LinearOrder.lift' Version.key Version.key_injective

/-- In a caret range the leftmost nonzero part stays, and what follows does not go down. -/
def Version.caretCore (req v : Version Build) : Bool :=
  if v.major ≠ req.major then false
  else if 0 < req.major then
    if v.minor ≠ req.minor then req.minor < v.minor
    else if v.patch ≠ req.patch then req.patch < v.patch
    else req.pre ≤ v.pre
  else if 0 < req.minor then
    if v.minor ≠ req.minor then false
    else if v.patch ≠ req.patch then req.patch < v.patch
    else req.pre ≤ v.pre
  else if v.minor ≠ req.minor ∨ v.patch ≠ req.patch then false
  else req.pre ≤ v.pre

/-- A pre-release is only in the range of a pre-release of the same version. -/
def Version.preCompatible (req v : Version Build) : Bool :=
  v.pre = ⊤ ||
    (req.major = v.major && req.minor = v.minor && req.patch = v.patch && req.pre ≠ ⊤)

def Version.caret (req v : Version Build) : Bool := req.caretCore v && req.preCompatible v

@[simp] theorem Version.caret_self (v : Version Build) : v.caret v = true := by
  unfold Version.caret Version.caretCore Version.preCompatible
  by_cases hpre : v.pre = ⊤ <;> simp [hpre]

end Wruntime.Semver
