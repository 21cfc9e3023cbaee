import Wruntime.Postgres.Hba

/-!
Networks as sets of addresses. The first bits of an address are the high ones of its word, and
the mask of a length has just these set.
-/

namespace Wruntime.Postgres

open Fallible

def Ip.word (a : Ip) : BitVec 128 := (ipBits a).1

theorem ipBits_eq (a : Ip) : ipBits a = (a.word, a.width) := by cases a <;> rfl

/-- The word is that of an address of a family. -/
def Fits (word : BitVec 128) (width : Nat) : Prop :=
  width ∈ [32, 128] ∧ ∀ i, width ≤ i → word.getLsbD i = false

theorem Ip.fits (a : Ip) : Fits a.word a.width := by
  cases a with
  | v4 bits =>
    refine ⟨.head _, fun i hi => ?_⟩
    change 32 ≤ i at hi
    simp [word, ipBits, BitVec.getLsbD_setWidth, BitVec.getLsbD_of_ge bits i hi]
  | v6 bits => exact ⟨.tail _ (.head _), fun i hi => BitVec.getLsbD_of_ge bits i hi⟩

theorem getLsbD_prefixMask {length width : Nat} (hwidth : width ∈ [32, 128])
    (hlength : length ≤ width) (i : Nat) :
    (prefixMask length width).getLsbD i = (decide (width - length ≤ i) && decide (i < width)) := by
  unfold prefixMask
  rcases List.mem_pair.1 hwidth with rfl | rfl <;> split
  all_goals
    simp only [BitVec.getLsbD_setWidth, BitVec.getLsbD_shiftLeft, BitVec.getLsbD_allOnes,
      BitVec.getLsbD_zero, BitVec.ofNat_eq_ofNat, if_true, Nat.reduceEqDiff, if_false]
    grind

/-- Words that share no bit with their successor are runs of ones at the low end. -/
theorem and_succ_eq_zero {word : BitVec 128} (h : word &&& (word + 1) = 0) :
    ∃ k ≤ 128, word = BitVec.ofNat 128 (2 ^ k - 1) := by
  have hlt := word.isLt
  by_cases hlast : word.toNat = 2 ^ 128 - 1
  · exact ⟨128, le_rfl, BitVec.eq_of_toNat_eq (by simpa using hlast)⟩
  rw [← BitVec.toNat_inj, BitVec.toNat_and, BitVec.toNat_add] at h
  change word.toNat &&& (word.toNat + 1) % 2 ^ 128 = 0 at h
  rw [Nat.mod_eq_of_lt (by omega), Nat.and_comm] at h
  obtain ⟨k, hk⟩ := (Nat.and_sub_one_eq_zero_iff_isPowerOfTwo (Nat.succ_ne_zero _)).1 h
  refine ⟨k, ?_, BitVec.eq_of_toNat_eq ?_⟩
  · exact (Nat.pow_le_pow_iff_right (by decide : 1 < 2)).1 (by omega)
  · rw [BitVec.toNat_ofNat, Nat.mod_eq_of_lt (by omega)]
    omega

namespace Ip

/-- A run of `length` ones, and zeros after it. -/
def Contiguous (mask : Ip) (length : Nat) : Prop :=
  length ≤ mask.width ∧ mask.word = BitVec.ofNat 128 (2 ^ length - 1) <<< (mask.width - length)

variable {mask : Ip} {length : Nat}

theorem width_le (a : Ip) : a.width ≤ 128 := by cases a <;> simp [width]

/-- The mask of a length, and what the code computes from it. -/
theorem prefixMasks : ∀ width ∈ [32, 128], ∀ length < width + 1,
    contiguousPrefix (prefixMask length width) width = some length ∧
      countOnes (prefixMask length width ^^^ prefixMask width width) + length = width ∧
      prefixMask length width = BitVec.ofNat 128 (2 ^ length - 1) <<< (width - length) := by
  decide +kernel

theorem contiguous_iff : mask.Contiguous length ↔
    length ≤ mask.width ∧ mask.word = prefixMask length mask.width :=
  and_congr_right fun hlength => by rw [(prefixMasks _ mask.fits.1 _ (by omega)).2.2]

theorem relevant_eq (mask : Ip) : (if mask.width = 32 then
    mask.word &&& (BitVec.allOnes 32).setWidth 128 else mask.word) = mask.word := by
  cases mask with
  | v4 bits =>
    change bits.setWidth 128 &&& (BitVec.allOnes 32).setWidth 128 = bits.setWidth 128
    rw [← BitVec.setWidth_and, BitVec.and_allOnes]
  | v6 bits => rfl

theorem contiguousPrefix_eq_some :
    contiguousPrefix mask.word mask.width = some length ↔ mask.Contiguous length := by
  rw [contiguous_iff]
  constructor
  · intro h
    have hdisjoint := h
    simp only [contiguousPrefix, relevant_eq, Option.ite_none_left_eq_some, not_not] at hdisjoint
    obtain ⟨k, hk, hones⟩ := and_succ_eq_zero hdisjoint.1
    have hbit : (mask.word ^^^ prefixMask mask.width mask.width).getLsbD mask.width = false := by
      simp [mask.fits.2, getLsbD_prefixMask mask.fits.1]
    have hmasks : ∀ width ∈ [32, 128], ∀ k < 129,
        (BitVec.ofNat 128 (2 ^ k - 1)).getLsbD width = true ∨
          BitVec.ofNat 128 (2 ^ k - 1) ^^^ prefixMask width width =
            prefixMask (width - k) width := by
      decide +kernel
    have hmask := (hmasks _ mask.fits.1 k (by omega)).resolve_left (by simp [← hones, hbit])
    rw [← hones, BitVec.xor_assoc, BitVec.xor_self, BitVec.xor_zero] at hmask
    rw [hmask, (prefixMasks _ mask.fits.1 _ (by omega)).1] at h
    obtain rfl := Option.some.inj h
    exact ⟨Nat.sub_le _ _, hmask⟩
  · rintro ⟨hlength, hword⟩
    rw [hword]
    exact (prefixMasks _ mask.fits.1 _ (by omega)).1

theorem Contiguous.countOnes (h : mask.Contiguous length) :
    countOnes (mask.word ^^^ prefixMask mask.width mask.width) + length = mask.width := by
  obtain ⟨hlength, hword⟩ := contiguous_iff.1 h
  rw [hword]
  exact (prefixMasks _ mask.fits.1 _ (by omega)).2.1

/-- The addresses are of one family and agree in the first bits. -/
def SharesPrefix (length : Nat) (a x : Ip) : Prop :=
  a.width = x.width ∧
    ∀ i < a.width, a.width - length ≤ i → x.word.getLsbD i = a.word.getLsbD i

theorem sharesPrefix_iff {a x : Ip} (hlength : length ≤ a.width) :
    SharesPrefix length a x ↔ a.width = x.width ∧
      x.word &&& prefixMask length a.width = a.word &&& prefixMask length a.width := by
  refine and_congr_right fun _ => ⟨fun hbits => ?_, fun heq i hi hfirst => ?_⟩
  · refine BitVec.eq_of_getLsbD_eq fun i _ => ?_
    have hbit := hbits i
    simp only [BitVec.getLsbD_and, getLsbD_prefixMask a.fits.1 hlength]
    grind
  · have hbit := congrArg (·.getLsbD i) heq
    simpa [getLsbD_prefixMask a.fits.1 hlength, hi, hfirst] using hbit

end Ip

theorem ipBits_bitsIp {word : BitVec 128} {width : Nat} (h : Fits word width) :
    ipBits (bitsIp word width) = (word, width) := by
  obtain ⟨hwidth, hzero⟩ := h
  rcases List.mem_pair.1 hwidth with rfl | rfl
  · refine Prod.ext (BitVec.eq_of_getLsbD_eq fun i hi => ?_) rfl
    have hhigh := hzero i
    change ((word.setWidth 32).setWidth 128).getLsbD i = _
    rw [BitVec.getLsbD_setWidth, BitVec.getLsbD_setWidth]
    grind
  · rfl

namespace NetworkIdentity

open Ip

/-- What both constructors return. -/
def network (a : Ip) (length : Nat) : NetworkIdentity :=
  ⟨bitsIp (a.word &&& prefixMask length a.width) a.width, length⟩

theorem ipBits_network (a : Ip) (length : Nat) :
    ipBits (network a length).address = (a.word &&& prefixMask length a.width, a.width) :=
  ipBits_bitsIp ⟨a.fits.1, fun i hi => by rw [BitVec.getLsbD_and, a.fits.2 i hi, Bool.false_and]⟩

theorem has_network {a x : Ip} {length : Nat} (hlength : length ≤ a.width) :
    (network a length).Has x ↔ SharesPrefix length a x := by
  simp only [Has, ipBits_network, ipBits_eq x, sharesPrefix_iff hlength]
  rfl

theorem fromPostgres_eq_ok {address netmask : Ip} {n : NetworkIdentity} :
    fromPostgres address netmask = .ok n ↔ address.width = netmask.width ∧
      ∃ length, netmask.Contiguous length ∧ n = network address length := by
  simp only [fromPostgres, ipBits_eq, bind_eq_ok, ensure_eq_ok, required_eq_ok, exists_const]
  refine and_congr_right fun hfamily => exists_congr fun length => ?_
  rw [hfamily, contiguousPrefix_eq_some]
  refine and_congr_right fun hmask => ?_
  rw [network, hfamily, ← (contiguous_iff.1 hmask).2, Except.ok.injEq, eq_comm]

theorem has_fromPostgres {address netmask x : Ip} {n : NetworkIdentity}
    (hn : fromPostgres address netmask = .ok n) : n.Has x ↔ address.width = x.width ∧
      x.word &&& netmask.word = address.word &&& netmask.word := by
  obtain ⟨hfamily, length, hmask, rfl⟩ := fromPostgres_eq_ok.1 hn
  have hlength : length ≤ address.width := hfamily ▸ hmask.1
  rw [has_network hlength, sharesPrefix_iff hlength, hfamily, ← (contiguous_iff.1 hmask).2]

theorem parseCidr_eq_ok {codec : Codec} {value : String} {n : NetworkIdentity} :
    parseCidr codec value = .ok n ↔ ∃ parts, splitSlash value = some parts ∧
      ∃ address, codec.parseIp parts.1 = some address ∧ ∃ length, parseU8 parts.2 = some length ∧
        length ≤ address.width ∧ n = network address length := by
  simp only [parseCidr, fromAddressAndPrefix, ipBits_eq, bind_eq_ok, ensure_eq_ok, required_eq_ok,
    exists_const, Except.ok.injEq, network, eq_comm (a := n)]

section

variable {a b : Ip} {length other : Nat} (hlength : length ≤ a.width) (hother : other ≤ b.width)
include hlength hother

theorem contains_network : (network a length).contains (network b other) = true ↔
    length ≤ other ∧ SharesPrefix length a b := by
  simp only [contains, ipBits_network, Bool.and_eq_true, decide_eq_true_eq]
  change (_ ∧ length ≤ other) ∧ _ &&& prefixMask length a.width = _ ↔ _
  rw [and_comm (a := a.width = _), and_assoc, sharesPrefix_iff hlength]
  refine and_congr_right fun hle => and_congr_right fun hfamily => ?_
  have hmask : prefixMask other b.width &&& prefixMask length a.width =
      prefixMask length a.width := by
    refine BitVec.eq_of_getLsbD_eq fun i _ => ?_
    rw [BitVec.getLsbD_and, getLsbD_prefixMask b.fits.1 hother, getLsbD_prefixMask a.fits.1 hlength]
    grind
  rw [BitVec.and_assoc, hmask]

theorem contains_iff_subset : (network a length).contains (network b other) = true ↔
    ∀ x, (network b other).Has x → (network a length).Has x := by
  simp only [contains_network hlength hother, has_network hlength, has_network hother]
  constructor
  · rintro ⟨hle, hfamily, hbits⟩ x ⟨hsame, hshared⟩
    refine ⟨hfamily.trans hsame, fun i hi hfirst => ?_⟩
    rw [hshared i (by omega) (by omega), hbits i hi hfirst]
  · intro hsubset
    obtain ⟨hfamily, hbits⟩ := hsubset b ⟨rfl, fun _ _ _ => rfl⟩
    refine ⟨?_, hfamily, hbits⟩
    by_contra hlt
    -- The word of `b` with the last bit of the longer prefix flipped.
    have hfits : Fits (b.word ^^^ BitVec.twoPow 128 (b.width - length)) b.width := by
      refine ⟨b.fits.1, fun i hi => ?_⟩
      rw [BitVec.getLsbD_xor, b.fits.2 i hi, BitVec.getLsbD_twoPow]
      grind
    obtain ⟨hword, hwidth⟩ := Prod.mk.inj ((ipBits_eq _).symm.trans (ipBits_bitsIp hfits))
    obtain ⟨_, hshared⟩ := hsubset _ ⟨hwidth.symm, fun i hi hfirst => by
      rw [hword, BitVec.getLsbD_xor, BitVec.getLsbD_twoPow]
      grind⟩
    have hbit := hshared (b.width - length) (by omega) (by omega)
    have hbound := b.width_le
    rw [hword, BitVec.getLsbD_xor, BitVec.getLsbD_twoPow, ← hbits _ (by omega) (by omega)] at hbit
    grind

theorem network_eq_iff : network a length = network b other ↔
    ∀ x, (network a length).Has x ↔ (network b other).Has x := by
  refine ⟨fun heq x => by rw [heq], fun hsets => ?_⟩
  have hab := (contains_iff_subset hlength hother).2 fun x => (hsets x).2
  have hba := (contains_iff_subset hother hlength).2 fun x => (hsets x).1
  obtain ⟨hle, hshared⟩ := (contains_network hlength hother).1 hab
  obtain rfl := Nat.le_antisymm hle ((contains_network hother hlength).1 hba).1
  obtain ⟨hfamily, hbits⟩ := (sharesPrefix_iff hlength).1 hshared
  rw [network, network, ← hbits, hfamily]

end

def Built (codec : Codec) (n : NetworkIdentity) : Prop :=
  (∃ address netmask, fromPostgres address netmask = .ok n) ∨
    ∃ value, parseCidr codec value = .ok n

theorem Built.eq_network {codec : Codec} {n : NetworkIdentity} (h : Built codec n) :
    ∃ a length, length ≤ a.width ∧ n = network a length := by
  rcases h with ⟨address, netmask, h⟩ | ⟨value, h⟩
  · obtain ⟨hfamily, length, hmask, hn⟩ := fromPostgres_eq_ok.1 h
    exact ⟨address, length, hfamily ▸ hmask.1, hn⟩
  · obtain ⟨_, _, address, _, length, _, hn⟩ := parseCidr_eq_ok.1 h
    exact ⟨address, length, hn⟩

example : fromPostgres (.v4 0x0A0102FF#32) (.v4 0xFFFFFF00#32) = .ok ⟨.v4 0x0A010200#32, 24⟩ ∧
    (fromPostgres (.v4 0x0A0102FF#32) (.v4 0xFF00FF00#32)).isOk = false ∧
    parseCidr ⟨fun _ _ => [], fun _ => "", fun _ => some (.v4 0x0A0102FF#32)⟩ "10.1.2.255/24" =
      .ok ⟨.v4 0x0A010200#32, 24⟩ := by
  decide +kernel

end NetworkIdentity

end Wruntime.Postgres
