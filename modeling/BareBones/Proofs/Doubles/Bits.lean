/-
Doubles by their bits.

A double is made of a sign, an exponent and a fraction, and the exponent with the fraction are
its bits below the sign.  Every double is made again from its sign and its size
(`ofSizeBits_sizeBits`), and for finite doubles nothing is lost in the other direction either:
`toBits_ofSizeBits` reads back the bits that `ofSizeBits` was given.  Turning the sign of a double
turns that one bit (`neg_ofSizeBits`).

A double is finite as long as its exponent is not all ones, and then taking it apart and putting
it together again changes nothing (`pack_unpack_components`).
-/
import BareBones.Binary64
import Mathlib

namespace BareBones.Binary64

open Float.Model.UnpackedFloat

/-! ### The three parts of a double -/

/-- Taking a finite double apart and putting it together again changes nothing. -/
theorem pack_unpack_components (s : Sign) {e : BitVec 11} (m : BitVec 52) (he : e ≠ -1#11) :
    pack .binary64 (unpack .binary64 (packComponents .binary64 s e m)) =
      packComponents .binary64 s e m := by
  refine pack_unpack_of_valid ⟨fun hones => ?_⟩
  rw [unpackExponent_packComponents] at hones
  exact absurd hones he

theorem neg_unpack_components (s : Sign) {e : BitVec 11} (m : BitVec 52) (he : e ≠ -1#11) :
    (unpack .binary64 (packComponents .binary64 s e m)).neg =
      unpack .binary64 (packComponents .binary64 (-s) e m) := by
  unfold unpack
  dsimp only
  simp only [unpackSign_packComponents, Sign.ofBitVec_toBitVec, unpackExponent_packComponents,
    unpackMantissa_packComponents]
  rw [if_neg he, if_neg he]
  split
  · split <;> rfl
  · rfl

/-! ### Sign and size -/

/-- The sign as a part of a double. -/
def signOf (negative : Bool) : Sign :=
  if negative then .negative else .positive

theorem signOf_not (negative : Bool) : signOf (!negative) = -signOf negative := by
  cases negative <;> rfl

theorem toNat_components (negative : Bool) (e : BitVec 11) (m : BitVec 52) :
    (packComponents .binary64 (signOf negative) e m).toNat =
      (if negative then signBit else 0) + (e.toNat * stepsPerBinade + m.toNat) := by
  have happend : (packComponents .binary64 (signOf negative) e m).toNat =
      (((signOf negative).toBitVec.toNat <<< 11 ||| e.toNat) <<< 52) ||| m.toNat := by
    unfold packComponents
    rw [BitVec.toNat_append, BitVec.toNat_append]
  rw [happend, ← Nat.shiftLeft_add_eq_or_of_lt e.isLt, ← Nat.shiftLeft_add_eq_or_of_lt m.isLt,
    Nat.shiftLeft_eq, Nat.shiftLeft_eq]
  cases negative
  · show (0 * 2 ^ 11 + e.toNat) * 2 ^ 52 + m.toNat = 0 + (e.toNat * 0x10000000000000 + m.toNat)
    omega
  · show (1 * 2 ^ 11 + e.toNat) * 2 ^ 52 + m.toNat =
      0x8000000000000000 + (e.toNat * 0x10000000000000 + m.toNat)
    omega

/-- The bits of a double, with its sign, are those of three parts.  The exponent of a finite double
is not all ones. -/
theorem exists_parts {bits : Nat} (h : bits < signBit) :
    ∃ (e : BitVec 11) (m : BitVec 52), bits = e.toNat * stepsPerBinade + m.toNat ∧
      (e = -1#11 ↔ infinityBits ≤ bits) ∧ ∀ negative,
      (UInt64.ofNat (if negative then signBit + bits else bits)).toBitVec =
        packComponents .binary64 (signOf negative) e m := by
  have hexponent : bits / stepsPerBinade < 2 ^ 11 := by
    unfold signBit at h
    unfold stepsPerBinade
    omega
  have hfraction : bits % stepsPerBinade < 2 ^ 52 := Nat.mod_lt _ (by decide)
  have hbits : bits = (BitVec.ofNat 11 (bits / stepsPerBinade)).toNat * stepsPerBinade +
      (BitVec.ofNat 52 (bits % stepsPerBinade)).toNat := by
    rw [BitVec.toNat_ofNat, BitVec.toNat_ofNat, Nat.mod_eq_of_lt hexponent,
      Nat.mod_eq_of_lt hfraction, Nat.div_add_mod']
  refine ⟨_, _, hbits, ?_, ?_⟩
  · rw [← BitVec.toNat_inj, BitVec.toNat_ofNat, Nat.mod_eq_of_lt hexponent]
    show bits / 0x10000000000000 = 2047 ↔ 0x7FF0000000000000 ≤ bits
    unfold signBit at h
    omega
  · intro negative
    apply BitVec.eq_of_toNat_eq
    rw [toNat_components, ← hbits]
    show (if negative then signBit + bits else bits) % 2 ^ 64 = _
    unfold signBit at *
    split <;> omega

theorem exists_components {bits : Nat} (h : bits < infinityBits) :
    ∃ (e : BitVec 11) (m : BitVec 52), e ≠ -1#11 ∧ ∀ negative,
      (UInt64.ofNat (if negative then signBit + bits else bits)).toBitVec =
        packComponents .binary64 (signOf negative) e m := by
  obtain ⟨e, m, -, hones, hparts⟩ := exists_parts (h.trans (by decide))
  exact ⟨e, m, fun he => absurd (hones.1 he) (Nat.not_le_of_lt h), hparts⟩

/-- A finite double has the bits that it was made from. -/
theorem toBits_ofSizeBits (negative : Bool) {bits : Nat} (h : bits < infinityBits) :
    (ofSizeBits negative bits).toBits =
      UInt64.ofNat (if negative then signBit + bits else bits) := by
  obtain ⟨e, m, he, hparts⟩ := exists_components h
  have hpack := pack_unpack_components (signOf negative) m he
  rw [← hparts negative] at hpack
  exact UInt64.toBitVec_inj.1 hpack

/-- The bits of a double are its size and its sign. -/
theorem toBits_eq (x : Float) :
    x.toBits = UInt64.ofNat (if isNegative x then signBit + sizeBits x else sizeBits x) := by
  apply UInt64.toNat_inj.1
  rw [UInt64.toNat_ofNat']
  have hlt := x.toBits.toNat_lt
  unfold isNegative sizeBits signBit
  by_cases hsign : 0x8000000000000000 ≤ x.toBits.toNat
  · rw [if_pos (decide_eq_true hsign)]
    omega
  · rw [if_neg (by simpa using hsign)]
    omega

/-- A double is made again from its sign and size. -/
theorem ofSizeBits_sizeBits (x : Float) : ofSizeBits (isNegative x) (sizeBits x) = x := by
  rw [ofSizeBits, ← toBits_eq, Float.ofBits_toBits]

theorem toNat_toBits_ofSizeBits (negative : Bool) {bits : Nat} (h : bits < infinityBits) :
    (ofSizeBits negative bits).toBits.toNat = if negative then signBit + bits else bits := by
  rw [toBits_ofSizeBits negative h, UInt64.toNat_ofNat']
  unfold infinityBits at h
  unfold signBit
  split <;> omega

@[simp] theorem sizeBits_ofSizeBits (negative : Bool) {bits : Nat} (h : bits < infinityBits) :
    sizeBits (ofSizeBits negative bits) = bits := by
  rw [sizeBits, toNat_toBits_ofSizeBits negative h]
  unfold infinityBits at h
  unfold signBit
  split <;> omega

@[simp] theorem isNegative_ofSizeBits (negative : Bool) {bits : Nat} (h : bits < infinityBits) :
    isNegative (ofSizeBits negative bits) = negative := by
  rw [isNegative, toNat_toBits_ofSizeBits negative h]
  unfold infinityBits at h
  unfold signBit
  cases negative
  · simp only [Bool.false_eq_true, if_false, decide_eq_false_iff_not]
    omega
  · simp

@[simp] theorem isFinite_ofSizeBits (negative : Bool) {bits : Nat} (h : bits < infinityBits) :
    isFinite (ofSizeBits negative bits) = true := by
  rw [isFinite, sizeBits_ofSizeBits negative h]
  exact decide_eq_true h

theorem neg_ofSizeBits (negative : Bool) {bits : Nat} (h : bits < infinityBits) :
    -ofSizeBits negative bits = ofSizeBits (!negative) bits := by
  obtain ⟨e, m, he, hparts⟩ := exists_components h
  have hbits := toBits_ofSizeBits negative h
  have hneg : (-ofSizeBits negative bits).toBits.toBitVec = pack .binary64
      (unpack .binary64 (ofSizeBits negative bits).toBits.toBitVec).neg := rfl
  rw [hbits, hparts, neg_unpack_components _ m he, pack_unpack_components _ m he,
    ← signOf_not, ← hparts, ← toBits_ofSizeBits _ h] at hneg
  exact Float.toBits_inj.1 (UInt64.toBitVec_inj.1 hneg)

theorem isNaN_of_isFinite {x : Float} (h : isFinite x = true) : x.isNaN = false := by
  rw [Float.isNaN_eq_decide_eq_nan, decide_eq_false_iff_not]
  rintro rfl
  exact absurd h (by decide +kernel)

end BareBones.Binary64
