import Mathlib.Data.Countable.Basic
import Mathlib.Logic.Equiv.List
import Mathlib.Tactic.DeriveCountable

/-!
Faithful names. Every countable type can be written as text, or as bytes, without
giving two values one name; this is what shows that the assumption of an injective
encoding can be met.
-/

namespace Wruntime.Naming

instance countableUInt8 : Countable UInt8 :=
  Function.Injective.countable (f := UInt8.toNat) fun _ _ h => UInt8.toNat_inj.mp h

instance countableChar : Countable Char :=
  Function.Injective.countable (f := Char.toNat) fun _ _ h => Char.toNat_inj.mp h

instance countableString : Countable String :=
  Function.Injective.countable (f := String.toList) fun _ _ h => String.toList_inj.mp h

variable {α : Type} [Countable α]

theorem exists_injective_bytes : ∃ encode : α → List UInt8, Function.Injective encode := by
  obtain ⟨index, hindex⟩ := Countable.exists_injective_nat α
  refine ⟨fun a => List.replicate (index a) 0, fun a b h => hindex ?_⟩
  simpa using congrArg List.length h

theorem exists_injective_text : ∃ encode : α → String, Function.Injective encode := by
  obtain ⟨index, hindex⟩ := Countable.exists_injective_nat α
  refine ⟨fun a => String.ofList (List.replicate (index a) '0'), fun a b h => hindex ?_⟩
  simpa using congrArg (fun text => text.toList.length) h

end Wruntime.Naming
