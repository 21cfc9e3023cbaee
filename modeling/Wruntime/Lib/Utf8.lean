import Mathlib.Data.String.Basic

/-!
Reading bytes as UTF-8 where every invalid part is replaced by U+FFFD. The reader is the automaton
over the bytes that the standard tables of well-formed sequences give: a first byte fixes the range
of the second, and the rest are continuation bytes. An unfinished sequence is replaced as a whole,
up to the byte that cannot continue it, and that byte is read afresh. A text is blank if nothing of
it is left when white space is trimmed.
-/

namespace Utf8

def replacement : Char := '\uFFFD'

/-- A started sequence: the bits read so far, the range of the next byte and how many bytes follow
that one. No sequence ends in the zero character, whatever its bytes: either a bit is already set,
or the range of the next byte excludes an overlong form. -/
structure Pending where
  value : Nat
  low : Nat
  high : Nat
  further : Nat
  continues : 0x80 ≤ low
  positive : 0 < value ∨ 0x80 < low

/-- The sequence that a first byte starts, if it starts one of two to four bytes. -/
def Pending.start? (b : Nat) : Option Pending :=
  if h : 0xC2 ≤ b ∧ b ≤ 0xDF then some ⟨b - 0xC0, 0x80, 0xBF, 0, by decide, by omega⟩
  else if b = 0xE0 then some ⟨0, 0xA0, 0xBF, 1, by decide, by decide⟩
  else if b = 0xED then some ⟨0xD, 0x80, 0x9F, 1, by decide, by decide⟩
  else if h : 0xE1 ≤ b ∧ b ≤ 0xEF then some ⟨b - 0xE0, 0x80, 0xBF, 1, by decide, by omega⟩
  else if b = 0xF0 then some ⟨0, 0x90, 0xBF, 2, by decide, by decide⟩
  else if h : 0xF1 ≤ b ∧ b ≤ 0xF3 then some ⟨b - 0xF0, 0x80, 0xBF, 2, by decide, by omega⟩
  else if b = 0xF4 then some ⟨4, 0x80, 0x8F, 2, by decide, by decide⟩
  else none

/-- The bits of a sequence with one more byte. -/
def Pending.bits (p : Pending) (b : Nat) : Nat := p.value * 64 + (b - 0x80)

/-- The character of a complete sequence. The ranges admit neither surrogates nor values above
U+10FFFF, so the second branch is never taken. -/
def scalar (n : Nat) : Char := if n.isValidChar then Char.ofNat n else replacement

/-- What a byte that does not continue a sequence stands for, and the sequence it starts. -/
def first (b : Nat) : List Char × Option Pending :=
  if b < 0x80 then ([Char.ofNat b], none)
  else match Pending.start? b with
    | some p => ([], some p)
    | none => ([replacement], none)

theorem Pending.bits_pos (p : Pending) {b : Nat} (h : p.low ≤ b) : 0 < p.bits b := by
  have hcontinues := p.continues
  have hpositive := p.positive
  unfold bits
  omega

/-- One byte after an unfinished sequence. -/
def Pending.next (p : Pending) (b : Nat) : List Char × Option Pending :=
  if h : p.low ≤ b ∧ b ≤ p.high then
    if p.further = 0 then ([scalar (p.bits b)], none)
    else ([], some ⟨p.bits b, 0x80, 0xBF, p.further - 1, by decide, .inl (p.bits_pos h.1)⟩)
  else (replacement :: (first b).1, (first b).2)

def advance : Option Pending → Nat → List Char × Option Pending
  | none, b => first b
  | some p, b => p.next b

def decodeFrom : Option Pending → List UInt8 → List Char
  | none, [] => []
  | some _, [] => [replacement]
  | pending, b :: rest =>
    (advance pending b.toNat).1 ++ decodeFrom (advance pending b.toNat).2 rest

/-- `String::from_utf8_lossy`. -/
def fromUtf8Lossy (bytes : List UInt8) : String := String.ofList (decodeFrom none bytes)

/-- The bytes that the replacement of an unfinished sequence takes. -/
def owed (pending : Option Pending) : Nat := if pending.isSome then 3 else 0

theorem utf8Size_replacement : replacement.utf8Size = 3 := by
  decide

theorem utf8Size_ofNat {b : Nat} (h : b < 0x80) : (Char.ofNat b).utf8Size = 1 := by
  have hall : ∀ n < 128, (Char.ofNat n).utf8Size = 1 := by decide
  exact hall b h

theorem ofNat_eq_zero_iff {b : Nat} (h : b < 0x80) : '\x00' = Char.ofNat b ↔ b = 0 := by
  have hall : ∀ n < 128, '\x00' = Char.ofNat n ↔ n = 0 := by decide
  exact hall b h

theorem toNat_ofNatAux {n : Nat} (h : n.isValidChar) : (Char.ofNatAux n h).toNat = n := by
  unfold Char.ofNatAux Char.toNat
  simp

theorem scalar_ne_zero {n : Nat} (h : 0 < n) : '\x00' ≠ scalar n := by
  unfold scalar
  split
  next hvalid =>
    intro heq
    have hof : Char.ofNat n = Char.ofNatAux n hvalid := dif_pos hvalid
    have hnat := congrArg Char.toNat (heq.trans hof)
    exact h.ne (hnat.trans (toNat_ofNatAux hvalid))
  next => decide

/-- A byte read afresh gives at most three bytes of text, a started sequence counted as its
replacement. -/
theorem first_size (b : Nat) : String.utf8Len (first b).1 + owed (first b).2 ≤ 3 := by
  unfold first
  split
  next h => simp [utf8Size_ofNat h, owed]
  next => cases Pending.start? b <;> simp [owed, utf8Size_replacement]

/-- Each step gives at most three bytes of text for its byte, what it owes before and after
counted in. -/
theorem advance_size (pending : Option Pending) (b : Nat) :
    String.utf8Len (advance pending b).1 + owed (advance pending b).2 ≤ owed pending + 3 := by
  have hfirst := first_size b
  cases pending with
  | none => exact hfirst
  | some p =>
    change String.utf8Len (p.next b).1 + owed (p.next b).2 ≤ _
    unfold Pending.next
    split
    next =>
      split
      next =>
        have hsize := (scalar (p.bits b)).utf8Size_le_four
        simp [owed]
        omega
      next => simp [owed]
    next =>
      simp only [String.utf8Len_cons, utf8Size_replacement, owed, Option.isSome_some, if_true]
      unfold owed at hfirst
      omega

theorem decodeFrom_size (pending : Option Pending) (bytes : List UInt8) :
    String.utf8Len (decodeFrom pending bytes) ≤ owed pending + 3 * bytes.length := by
  induction bytes generalizing pending with
  | nil => cases pending <;> simp [decodeFrom, owed, utf8Size_replacement]
  | cons b rest ih =>
    have hstep := advance_size pending b.toNat
    have hrest := ih (advance pending b.toNat).2
    have hrun : decodeFrom pending (b :: rest) = (advance pending b.toNat).1 ++
        decodeFrom (advance pending b.toNat).2 rest := by cases pending <;> rfl
    rw [hrun, String.utf8Len_append, List.length_cons]
    omega

theorem first_zero (b : Nat) : '\x00' ∈ (first b).1 ↔ b = 0 := by
  unfold first
  split
  next h => simp [ofNat_eq_zero_iff h]
  next h => cases Pending.start? b <;> simp [replacement] <;> omega

theorem advance_zero (pending : Option Pending) (b : Nat) :
    '\x00' ∈ (advance pending b).1 ↔ b = 0 := by
  cases pending with
  | none => exact first_zero b
  | some p =>
    have hcontinues := p.continues
    change '\x00' ∈ (p.next b).1 ↔ b = 0
    unfold Pending.next
    split
    next h =>
      have hb : b ≠ 0 := by omega
      split
      next => simpa [hb] using scalar_ne_zero (p.bits_pos h.1)
      next => simpa using hb
    next => simp [first_zero, replacement]

theorem decodeFrom_zero (pending : Option Pending) (bytes : List UInt8) :
    '\x00' ∈ decodeFrom pending bytes ↔ 0 ∈ bytes := by
  induction bytes generalizing pending with
  | nil => cases pending <;> simp [decodeFrom, replacement]
  | cons b rest ih =>
    have hrun : decodeFrom pending (b :: rest) = (advance pending b.toNat).1 ++
        decodeFrom (advance pending b.toNat).2 rest := by cases pending <;> rfl
    have hbyte : b.toNat = 0 ↔ 0 = b := by
      rw [← UInt8.toNat_inj]
      exact eq_comm
    rw [hrun, List.mem_append, advance_zero, ih, List.mem_cons, hbyte]

/-- The text has at most three bytes for each byte that is read. -/
theorem fromUtf8Lossy_size (bytes : List UInt8) :
    (fromUtf8Lossy bytes).utf8ByteSize ≤ 3 * bytes.length := by
  have hsize := decodeFrom_size none bytes
  rw [fromUtf8Lossy, String.utf8ByteSize_ofList]
  simpa [owed] using hsize

/-- The text has the zero character exactly if the bytes have the zero byte. -/
theorem fromUtf8Lossy_zero (bytes : List UInt8) :
    '\x00' ∈ (fromUtf8Lossy bytes).toList ↔ 0 ∈ bytes := by
  rw [fromUtf8Lossy, String.toList_ofList]
  exact decodeFrom_zero none bytes

example : decodeFrom none [0x41, 0xE2, 0x82, 0xAC, 0xE2, 0x82, 0x42, 0xFF, 0xC0, 0x80] =
    ['A', '€', replacement, 'B', replacement, replacement, replacement] := by
  decide

/-- The Unicode property `White_Space`. -/
def isWhitespace (c : Char) : Bool :=
  let n := c.toNat
  (9 ≤ n ∧ n ≤ 13) ∨ n = 0x20 ∨ n = 0x85 ∨ n = 0xA0 ∨ n = 0x1680 ∨
    (0x2000 ≤ n ∧ n ≤ 0x200A) ∨ n = 0x2028 ∨ n = 0x2029 ∨ n = 0x202F ∨ n = 0x205F ∨ n = 0x3000

/-- Nothing is left of the text when it is trimmed. -/
def isBlank (text : String) : Bool := text.toList.all isWhitespace

end Utf8
