import Mathlib.Algebra.Group.Nat.Defs
import Mathlib.Data.List.Basic

/-!
Byte encodings that can be read back from a concatenation: bytes that start with an encoding
determine the value and the rest. Some are readable only in front of certain bytes, and a list
without a count only if the reader can tell an item from what follows.
-/

namespace Wruntime.Wire

variable {F : Bytes → Prop} {m n : Nat}

abbrev Bytes := List UInt8

section Readable

variable {α : Type*}
variable {P : α → Prop} {encode : α → Bytes}

/-- Values that meet `P`, written before bytes that meet `F`, are determined by what is written. -/
def Readable (P : α → Prop) (F : Bytes → Prop) (encode : α → Bytes) : Prop :=
  ∀ ⦃a b : α⦄ ⦃xs ys : Bytes⦄, P a → P b → F xs → F ys →
    encode a ++ xs = encode b ++ ys → a = b ∧ xs = ys

theorem Readable.injective (h : Readable P F encode) (hend : F []) {a b : α} (ha : P a) (hb : P b)
    (heq : encode a = encode b) : a = b :=
  (h ha hb hend hend (congrArg (· ++ []) heq)).1

theorem readable_of_length (n : Nat) (hlength : ∀ a, (encode a).length = n)
    (hinjective : ∀ a b, P a → P b → encode a = encode b → a = b) : Readable P F encode := by
  intro a b xs ys ha hb _ _ heq
  obtain ⟨hencode, hrest⟩ := List.append_inj heq ((hlength a).trans (hlength b).symm)
  exact ⟨hinjective a b ha hb hencode, hrest⟩

/-- Items written one after the other, in front of bytes that no item starts. -/
theorem readable_flatMap {Stop : Bytes → Prop} (h : Readable P F encode)
    (hstop : ∀ xs, Stop xs → F xs) (hitem : ∀ a xs, P a → F (encode a ++ xs))
    (hstart : ∀ a xs, P a → ¬Stop (encode a ++ xs)) :
    Readable (fun items : List α => ∀ a ∈ items, P a) Stop (List.flatMap encode) := by
  have hfollow (items : List α) (xs : Bytes) (hitems : ∀ a ∈ items, P a) (hxs : Stop xs) :
      F (items.flatMap encode ++ xs) := by
    cases items with
    | nil => exact hstop xs hxs
    | cons a items =>
      rw [List.flatMap_cons, List.append_assoc]
      exact hitem a _ (hitems a List.mem_cons_self)
  intro items
  induction items with
  | nil =>
    intro items' xs ys _ hitems' hxs _ heq
    cases items' with
    | nil => exact ⟨rfl, heq⟩
    | cons b items' =>
      rw [List.flatMap_nil, List.nil_append, List.flatMap_cons, List.append_assoc] at heq
      rw [heq] at hxs
      exact absurd hxs (hstart b _ (hitems' b List.mem_cons_self))
  | cons a items ih =>
    intro items' xs ys hitems hitems' hxs hys heq
    have ha := hitems a List.mem_cons_self
    have hrest : ∀ c ∈ items, P c := fun c hc => hitems c (List.mem_cons_of_mem a hc)
    cases items' with
    | nil =>
      rw [List.flatMap_nil, List.nil_append, List.flatMap_cons, List.append_assoc] at heq
      rw [← heq] at hys
      exact absurd hys (hstart a _ ha)
    | cons b items' =>
      have hb := hitems' b List.mem_cons_self
      have hrest' : ∀ c ∈ items', P c := fun c hc => hitems' c (List.mem_cons_of_mem b hc)
      rw [List.flatMap_cons, List.flatMap_cons, List.append_assoc, List.append_assoc] at heq
      obtain ⟨rfl, htail⟩ := h ha hb (hfollow items xs hrest hxs) (hfollow items' ys hrest' hys) heq
      obtain ⟨rfl, hend⟩ := ih hrest hrest' hxs hys htail
      exact ⟨rfl, hend⟩

end Readable

def be64 (n : Nat) : Bytes :=
  [UInt8.ofNat (n / 2 ^ 56), UInt8.ofNat (n / 2 ^ 48), UInt8.ofNat (n / 2 ^ 40),
    UInt8.ofNat (n / 2 ^ 32), UInt8.ofNat (n / 2 ^ 24), UInt8.ofNat (n / 2 ^ 16),
    UInt8.ofNat (n / 2 ^ 8), UInt8.ofNat n]

theorem ofNat_eq_ofNat (h : UInt8.ofNat m = UInt8.ofNat n) : m % 256 = n % 256 := by
  have htoNat := congrArg UInt8.toNat h
  simpa only [UInt8.toNat_ofNat'] using htoNat

theorem be64_injective (hm : m < 2 ^ 64) (hn : n < 2 ^ 64) (h : be64 m = be64 n) : m = n := by
  simp only [be64, List.cons.injEq, and_true] at h
  obtain ⟨h7, h6, h5, h4, h3, h2, h1, h0⟩ := h
  have := ofNat_eq_ofNat h7
  have := ofNat_eq_ofNat h6
  have := ofNat_eq_ofNat h5
  have := ofNat_eq_ofNat h4
  have := ofNat_eq_ofNat h3
  have := ofNat_eq_ofNat h2
  have := ofNat_eq_ofNat h1
  have := ofNat_eq_ofNat h0
  omega

theorem readable_be64 (F : Bytes → Prop) : Readable (· < 2 ^ 64) F be64 :=
  readable_of_length 8 (fun _ => rfl) fun _ _ => be64_injective

/-- A small integer starts with a zero byte. -/
theorem head?_be64 (hn : n < 2 ^ 56) (xs : Bytes) : (be64 n ++ xs).head? = some 0 := by
  have hzero : n / 2 ^ 56 = 0 := by omega
  simp only [be64, hzero, List.cons_append, List.head?_cons]
  rfl

/-- Base-128 digits, least significant first; `fuel` bounds their number. -/
def varintAux : Nat → Nat → Bytes
  | 0, _ => []
  | fuel + 1, n =>
    if n < 128 then [UInt8.ofNat n] else UInt8.ofNat (n % 128 + 128) :: varintAux fuel (n / 128)

def varint (n : Nat) : Bytes := varintAux (n + 1) n

theorem readable_varintAux (fuel fuel' : Nat) {xs ys : Bytes} (hm : m < fuel) (hn : n < fuel')
    (heq : varintAux fuel m ++ xs = varintAux fuel' n ++ ys) : m = n ∧ xs = ys := by
  induction fuel generalizing fuel' m n with
  | zero => omega
  | succ fuel ih =>
    cases fuel' with
    | zero => omega
    | succ fuel' =>
      -- The high bit of the first byte says whether more digits follow.
      rw [varintAux, varintAux] at heq
      split at heq <;> split at heq
      · simp only [List.cons_append, List.nil_append, List.cons.injEq] at heq
        have hdigit := ofNat_eq_ofNat heq.1
        exact ⟨by omega, heq.2⟩
      · simp only [List.cons_append, List.nil_append, List.cons.injEq] at heq
        have hdigit := ofNat_eq_ofNat heq.1
        omega
      · simp only [List.cons_append, List.nil_append, List.cons.injEq] at heq
        have hdigit := ofNat_eq_ofNat heq.1
        omega
      · simp only [List.cons_append, List.cons.injEq] at heq
        have hdigit := ofNat_eq_ofNat heq.1
        obtain ⟨hquotient, hrest⟩ := ih fuel' (m := m / 128) (n := n / 128)
          (by omega) (by omega) heq.2
        exact ⟨by omega, hrest⟩

theorem readable_varint {P : Nat → Prop} : Readable P F varint := by
  intro m n xs ys _ _ _ _ heq
  exact readable_varintAux (m + 1) (n + 1) (by omega) (by omega) heq

def delimited (bytes : Bytes) : Bytes := varint bytes.length ++ bytes

theorem readable_delimited {P : Bytes → Prop} : Readable P F delimited := by
  intro a b xs ys _ _ _ _ heq
  rw [delimited, delimited, List.append_assoc, List.append_assoc] at heq
  obtain ⟨hlength, hrest⟩ :=
    readable_varintAux (a.length + 1) (b.length + 1) (by omega) (by omega) heq
  exact List.append_inj hrest hlength

def bytesField (tag : UInt8) (bytes : Bytes) : Bytes :=
  if bytes = [] then [] else tag :: delimited bytes

theorem head?_bytesField {tag : UInt8} {bytes xs : Bytes} {b : UInt8}
    (h : (bytesField tag bytes ++ xs).head? = some b) : b = tag ∨ xs.head? = some b := by
  unfold bytesField at h
  split at h
  · exact Or.inr h
  · left
    simpa using h.symm

theorem readable_bytesField {P : Bytes → Prop} {tag : UInt8}
    (hfollow : ∀ xs, F xs → xs.head? ≠ some tag) : Readable P F (bytesField tag) := by
  intro a b xs ys ha hb hxs hys heq
  unfold bytesField at heq
  split at heq <;> split at heq
  next hnil hnil' => exact ⟨hnil.trans hnil'.symm, heq⟩
  next hnil hsome =>
    rw [List.nil_append] at heq
    exact absurd (by rw [heq]; rfl) (hfollow xs hxs)
  next hsome hnil =>
    rw [List.nil_append] at heq
    exact absurd (by rw [← heq]; rfl) (hfollow ys hys)
  next hsome hsome' =>
    simp only [List.cons_append, List.cons.injEq, true_and] at heq
    exact readable_delimited ha hb hxs hys heq

def textBytes (text : String) : Bytes := text.toUTF8.data.toList

theorem textBytes_injective : Function.Injective textBytes := by
  intro s t h
  exact String.toByteArray_inj.mp (ByteArray.ext (Array.toList_inj.mp h))

end Wruntime.Wire
