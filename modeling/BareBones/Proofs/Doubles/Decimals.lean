/-
Decimals that read back.

A double rounds to itself (`nearest_magnitude`), so its exact expansion reads back as it, and with
that the search for its shortest decimal ends in one that does (`sizeBits_shortest`).  Writing a
decimal out and reading the text again may give another decimal, with the zeros at the end among
its digits, but never another double: `exists_parse?_positional`.
-/
import BareBones.Decimal.Shortest
import BareBones.Proofs.Arithmetic.Lexing
import Mathlib.Tactic.NormNum

namespace BareBones.Binary64

/-! ### Rounding what needs none -/

theorem unitsPerOne_eq : unitsPerOne = 2 ^ 1074 :=
  Nat.pow_eq

theorem unitsPerOne_pos : 0 < unitsPerOne := by
  rw [unitsPerOne_eq]
  exact pow_pos Nat.two_pos 1074

theorem divNearest_mul (q : Nat) {d : Nat} (hd : 0 < d) : divNearest (q * d) d = q := by
  unfold divNearest
  rw [Nat.mul_mod_left, Nat.mul_div_cancel q hd]
  exact if_pos hd

/-- Below 2^52 doubles count in units. -/
theorem magnitude_subnormal {bits : Nat} (h : bits < stepsPerBinade) : magnitude bits = bits := by
  unfold magnitude
  rw [Nat.div_eq_of_lt h, Nat.mod_eq_of_lt h]
  rfl

/-- From 2^52 on each binade doubles the step. -/
theorem magnitude_normal (s : Nat) {q : Nat} (hlow : stepsPerBinade ≤ q)
    (hhigh : q < 2 * stepsPerBinade) : magnitude (s * stepsPerBinade + q) = q * 2 ^ s := by
  have hexponent : (s * stepsPerBinade + q) / stepsPerBinade = s + 1 := by
    rw [Nat.div_eq_iff (by decide)]
    unfold stepsPerBinade at *
    omega
  have hfraction : (s * stepsPerBinade + q) % stepsPerBinade = q - stepsPerBinade := by
    rw [Nat.mul_add_mod_self_right, Nat.mod_eq_sub_mod hlow, Nat.mod_eq_of_lt (by omega)]
  unfold magnitude
  rw [hexponent, hfraction, if_neg (Nat.succ_ne_zero s), Nat.add_sub_of_le hlow]
  rfl

/-- The bits of a double of at least 2^52 units, as its binade and the steps into it. -/
theorem exists_binade {bits : Nat} (h : stepsPerBinade ≤ bits) :
    ∃ s q, bits = s * stepsPerBinade + q ∧ stepsPerBinade ≤ q ∧ q < 2 * stepsPerBinade := by
  refine ⟨bits / stepsPerBinade - 1, stepsPerBinade + bits % stepsPerBinade, ?_, ?_, ?_⟩ <;>
    unfold stepsPerBinade at * <;> omega

theorem magnitude_lt {bits : Nat} (h : bits < infinityBits) : magnitude bits < 2 ^ 2098 := by
  rcases Nat.lt_or_ge bits stepsPerBinade with hsub | hnormal
  · rw [magnitude_subnormal hsub]
    exact hsub.trans (show 2 ^ 52 < 2 ^ 2098 by decide +kernel)
  · obtain ⟨s, q, rfl, hlow, hhigh⟩ := exists_binade hnormal
    have hs : s ≤ 2045 := by
      unfold infinityBits stepsPerBinade at *
      omega
    rw [magnitude_normal s hlow hhigh]
    have hsize : q * 2 ^ s < 2 ^ (53 + s) := by
      rw [Nat.pow_add]
      exact Nat.mul_lt_mul_of_pos_right hhigh (Nat.two_pow_pos s)
    have hpow : 2 ^ (53 + s) ≤ 2 ^ 2098 := pow_le_pow_right₀ (by decide) (by omega)
    exact lt_of_lt_of_le hsize hpow

theorem log2_binade (s : Nat) {q : Nat} (hlow : stepsPerBinade ≤ q)
    (hhigh : q < 2 * stepsPerBinade) : (q * 2 ^ s).log2 = 52 + s := by
  have hq : 0 < q := (show 0 < stepsPerBinade by decide).trans_le hlow
  rw [Nat.log2_eq_iff (Nat.mul_pos hq (Nat.two_pow_pos s)).ne', Nat.pow_add, Nat.add_right_comm,
    Nat.pow_add]
  exact ⟨Nat.mul_le_mul_right _ hlow, Nat.mul_lt_mul_of_pos_right hhigh (Nat.two_pow_pos s)⟩

theorem nearest_of_log2 {n d s : Nat} (hs : (n / d).log2 - 52 = s) :
    nearest n d = min (s * stepsPerBinade + divNearest n (d * 2 ^ s)) infinityBits := by
  subst hs
  rfl

/-- A double rounds to itself. -/
theorem nearest_magnitude {bits k : Nat} (h : bits < infinityBits) (hk : 0 < k) :
    nearest (magnitude bits * k) k = bits := by
  rcases Nat.lt_or_ge bits stepsPerBinade with hsub | hnormal
  · have hs : (bits * k / k).log2 - 52 = 0 := by
      rw [Nat.mul_div_cancel _ hk]
      rcases Nat.eq_zero_or_pos bits with rfl | hpos
      · rfl
      · have := (Nat.log2_lt hpos.ne').2 (show bits < 2 ^ 52 from hsub)
        omega
    rw [magnitude_subnormal hsub, nearest_of_log2 hs, Nat.pow_zero, Nat.mul_one,
      divNearest_mul bits hk, Nat.zero_mul, Nat.zero_add, Nat.min_eq_left h.le]
  · obtain ⟨s, q, rfl, hlow, hhigh⟩ := exists_binade hnormal
    have hs : (q * 2 ^ s * k / k).log2 - 52 = s := by
      rw [Nat.mul_div_cancel _ hk, log2_binade s hlow hhigh, Nat.add_sub_cancel_left]
    have hcut : q * 2 ^ s * k = q * (k * 2 ^ s) := by
      rw [Nat.mul_assoc, Nat.mul_comm k]
    rw [magnitude_normal s hlow hhigh, nearest_of_log2 hs, hcut,
      divNearest_mul q (Nat.mul_pos hk (Nat.two_pow_pos s)), Nat.min_eq_left h.le]

theorem divNearest_le (n d : Nat) : divNearest n d ≤ n / d + 1 := by
  unfold divNearest
  dsimp only
  split_ifs <;> omega

/-- Cutting a number to 53 binary places leaves at most 53. -/
theorem cut_lt (n : Nat) : n / 2 ^ (n.log2 - 52) < 2 * stepsPerBinade := by
  rw [Nat.div_lt_iff_lt_mul (Nat.two_pow_pos _)]
  calc n < 2 ^ (n.log2 + 1) := Nat.lt_log2_self
    _ ≤ 2 ^ (53 + (n.log2 - 52)) := Nat.pow_le_pow_right (by decide) (by omega)
    _ = 2 * stepsPerBinade * 2 ^ (n.log2 - 52) := Nat.pow_add ..

/-- How many binades a number below `2 ^ k` can reach. -/
theorem nearest_le {n k : Nat} (hn : n < 2 ^ k) :
    nearest (n * unitsPerOne) 1 ≤ (k + 1024) * stepsPerBinade := by
  have hunits : n * unitsPerOne < 2 ^ (k + 1074) := by
    rw [pow_add, ← unitsPerOne_eq]
    exact Nat.mul_lt_mul_of_pos_right hn unitsPerOne_pos
  generalize n * unitsPerOne = u at hunits
  have hs : u.log2 - 52 ≤ k + 1022 := by
    rcases Nat.eq_zero_or_pos u with rfl | hpos
    · simp
    · have := (Nat.log2_lt hpos.ne').2 hunits
      omega
  rw [nearest_of_log2 rfl, Nat.div_one, Nat.one_mul]
  calc min ((u.log2 - 52) * stepsPerBinade + divNearest u (2 ^ (u.log2 - 52))) infinityBits
      ≤ (u.log2 - 52) * stepsPerBinade + divNearest u (2 ^ (u.log2 - 52)) := Nat.min_le_left ..
    _ ≤ (k + 1022) * stepsPerBinade + 2 * stepsPerBinade :=
        Nat.add_le_add (Nat.mul_le_mul_right _ hs) ((divNearest_le ..).trans (cut_lt u))
    _ = (k + 1024) * stepsPerBinade := (Nat.add_mul ..).symm

end BareBones.Binary64

namespace BareBones

open Arithmetic (Digits IsNumber breaks_nil breaks_cons span_append_of_breaks)

/-! ### Digits -/

theorem natOfDigits_eq (cs : List Char) : natOfDigits cs = Nat.ofDigitChars 10 cs 0 :=
  Nat.ofDigitChars_eq_foldl.symm

@[simp] theorem natOfDigits_digitsOfNat (n : Nat) : natOfDigits (digitsOfNat n) = n := by
  rw [natOfDigits_eq]
  exact Nat.ofDigitChars_ten_toDigits

theorem natOfDigits_replicate_append (k : Nat) (cs : List Char) :
    natOfDigits (List.replicate k '0' ++ cs) = natOfDigits cs := by
  simp [natOfDigits_eq, Nat.ofDigitChars_append]

theorem natOfDigits_append_replicate (cs : List Char) (k : Nat) :
    natOfDigits (cs ++ List.replicate k '0') = natOfDigits cs * 10 ^ k := by
  rw [natOfDigits_eq, natOfDigits_eq, Nat.ofDigitChars_append, Nat.ofDigitChars_replicate_zero,
    Nat.mul_comm]

theorem digits_digitsOfNat (n : Nat) : Digits (digitsOfNat n) :=
  fun _ => Nat.isDigit_of_mem_toDigits (by decide) (by decide)

theorem digitsOfNat_ne_nil (n : Nat) : digitsOfNat n ≠ [] :=
  Nat.toDigits_ne_nil

theorem length_digitsOfNat_mul {n : Nat} (hn : 0 < n) (k : Nat) :
    (digitsOfNat (n * 10 ^ k)).length = (digitsOfNat n).length + k := by
  induction k with
  | zero => rw [Nat.pow_zero, Nat.mul_one, Nat.add_zero]
  | succ k ih =>
      have hpos : 0 < n * 10 ^ k := Nat.mul_pos hn (Nat.pow_pos (by decide))
      have happend : digitsOfNat (n * 10 ^ k) ++ ['0'] = digitsOfNat (n * 10 ^ (k + 1)) := by
        rw [Nat.pow_succ, ← Nat.mul_assoc, Nat.mul_comm _ 10]
        exact @Nat.toDigits_append_toDigits 10 _ 0 (by decide) hpos (by decide)
      rw [← happend, List.length_append, ih]
      rfl

namespace Decimal

open Binary64

/-! ### The double of a decimal -/

@[simp] theorem sizeBits_zero (e : Int) : sizeBits ⟨0, e⟩ = 0 :=
  rfl

/-- In reach of the doubles the power of ten is worked out. -/
theorem sizeBits_of_reach {n : Nat} {e : Int} (hpos : 0 < n)
    (hlow : -330 ≤ (digitsOfNat n).length + e) (hhigh : (digitsOfNat n).length + e ≤ 311) :
    sizeBits ⟨n, e⟩ =
      if 0 ≤ e then nearest (n * 10 ^ e.toNat * unitsPerOne) 1
      else nearest (n * unitsPerOne) (10 ^ (-e).toNat) := by
  unfold sizeBits
  dsimp only
  rw [if_neg, if_neg (by omega)]
  · rfl
  · rw [Bool.or_eq_true, decide_eq_true_iff, decide_eq_true_iff]
    omega

/-- A whole number of 64 bits, or the next one, is rounded as it is. -/
theorem sizeBits_whole {n : Nat} (hn : n ≤ 2 ^ 64) :
    sizeBits ⟨n, 0⟩ = nearest (n * unitsPerOne) 1 := by
  rcases Nat.eq_zero_or_pos n with rfl | hpos
  · rw [sizeBits_zero, Nat.zero_mul]
    rfl
  · have hlength : (digitsOfNat n).length ≤ 20 :=
      (Nat.length_toDigits_le_iff (by decide) (by decide)).2 (hn.trans_lt (by decide))
    rw [sizeBits_of_reach hpos (by omega) (by omega), if_pos (le_refl _), Int.toNat_zero,
      Nat.pow_zero, Nat.mul_one]

/-- Whole numbers of 64 bits are far from infinity. -/
theorem sizeBits_lt_infinityBits {n : Nat} (hn : n < 2 ^ 64) :
    sizeBits ⟨n, 0⟩ < infinityBits := by
  rw [sizeBits_whole hn.le]
  exact (nearest_le hn).trans_lt (by decide)

/-- Zeros at the end may as well stand among the digits. -/
theorem sizeBits_mul_ten_pow (n k : Nat) : sizeBits ⟨n * 10 ^ k, 0⟩ = sizeBits ⟨n, k⟩ := by
  rcases Nat.eq_zero_or_pos n with rfl | hpos
  · rw [Nat.zero_mul, sizeBits_zero, sizeBits_zero]
  · have hne : n * 10 ^ k ≠ 0 := (Nat.mul_pos hpos (Nat.pow_pos (by decide))).ne'
    unfold sizeBits
    simp only [hne, hpos.ne', length_digitsOfNat_mul hpos, decide_false, Bool.false_or,
      Nat.cast_add, add_zero, Int.natCast_nonneg, le_refl, if_true, Int.toNat_natCast]
    simp

theorem sizeBits_exact {bits : Nat} (h : bits < infinityBits) :
    sizeBits (exact (magnitude bits)) = bits := by
  rcases Nat.eq_zero_or_pos (magnitude bits) with hzero | hpos
  · have hbits := nearest_magnitude h Nat.one_pos
    rw [hzero, Nat.zero_mul] at hbits
    have hexact : exact 0 = ⟨0, -1074⟩ :=
      congrArg (Decimal.mk · (-1074)) (Nat.zero_mul (Nat.pow 5 1074))
    rw [hzero, hexact, sizeBits_zero, ← hbits]
    rfl
  · -- The digits number between 744 and 1385, so the expansion is in reach of the doubles.
    have hlow : ¬ (digitsOfNat (magnitude bits * 5 ^ 1074)).length ≤ 743 := by
      rw [digitsOfNat, Nat.length_toDigits_le_iff (by decide) (by decide), Nat.not_lt]
      calc 10 ^ 743 ≤ 1 * 5 ^ 1074 := by decide +kernel
        _ ≤ magnitude bits * 5 ^ 1074 := Nat.mul_le_mul_right _ hpos
    have hhigh : (digitsOfNat (magnitude bits * 5 ^ 1074)).length ≤ 1385 := by
      rw [digitsOfNat, Nat.length_toDigits_le_iff (by decide) (by decide)]
      have hsize : ∀ f, 0 < f → magnitude bits * f < 2 ^ 2098 * f :=
        fun f hf => Nat.mul_lt_mul_of_pos_right (magnitude_lt h) hf
      exact lt_of_lt_of_le (hsize (5 ^ 1074) (pow_pos (by decide) 1074)) (by decide +kernel)
    have hunits : magnitude bits * 5 ^ 1074 * unitsPerOne = magnitude bits * 10 ^ 1074 := by
      have hpow : ∀ k, magnitude bits * 5 ^ k * 2 ^ k = magnitude bits * 10 ^ k := by
        intro k
        rw [mul_assoc, ← mul_pow, show 5 * 2 = 10 from rfl]
      rw [unitsPerOne_eq, hpow]
    have hexact : exact (magnitude bits) = ⟨magnitude bits * 5 ^ 1074, -1074⟩ := rfl
    rw [hexact, sizeBits_of_reach (Nat.mul_pos hpos (Nat.pow_pos (by decide))) (by omega)
      (by omega), if_neg (by decide), hunits]
    exact nearest_magnitude h (Nat.pow_pos (by decide))

theorem sizeBits_of_gridPoint? {tie : Tie} {bits n : Nat} {e : Int}
    (h : gridPoint? tie bits e = some n) : sizeBits ⟨n, e⟩ = bits := by
  unfold gridPoint? at h
  generalize onGrid (magnitude bits) e = grid at h
  obtain ⟨u, d⟩ := grid
  dsimp only at h
  split at h
  · cases h
  · next hlow _ =>
    cases h
    exact eq_of_beq hlow
  · next _ hnext =>
    cases h
    exact eq_of_beq hnext
  · next hlow hnext =>
    have hpoint : n = u / d ∨ n = u / d + 1 := by
      cases tie <;> grind
    rcases hpoint with rfl | rfl
    · exact eq_of_beq hlow
    · exact eq_of_beq hnext

theorem sizeBits_search (tie : Tie) {bits : Nat} (h : bits < infinityBits) (steps : Nat) :
    ∀ e, sizeBits (search tie bits steps e) = bits := by
  induction steps with
  | zero => exact fun _ => sizeBits_exact h
  | succ steps ih =>
      intro e
      rw [search]
      split
      · next n hn => exact sizeBits_of_gridPoint? hn
      · exact ih _

/-- The shortest decimal of a double reads back as it. -/
theorem sizeBits_shortest (tie : Tie) {bits : Nat} (h : bits < infinityBits) :
    sizeBits (shortest tie bits) = bits :=
  sizeBits_search tie h 24 _

/-! ### Writing out and reading -/

theorem parse?_digits {ds : List Char} (hne : ds ≠ []) (hds : Digits ds) :
    parse? ds = some ⟨natOfDigits ds, 0⟩ := by
  have hspan : ds.span Char.isDigit = (ds, []) := by
    simpa using span_append_of_breaks hds breaks_nil
  unfold parse?
  rw [hspan]
  simp [hne, parseExponent?]

theorem parse?_pointed {ds es : List Char} (hne : ds ≠ []) (hds : Digits ds) (hes : Digits es) :
    parse? (ds ++ '.' :: es) = some ⟨natOfDigits (ds ++ es), -es.length⟩ := by
  have hwhole : (ds ++ '.' :: es).span Char.isDigit = (ds, '.' :: es) :=
    span_append_of_breaks hds (breaks_cons (by decide))
  have hpart : es.span Char.isDigit = (es, []) := by
    simpa using span_append_of_breaks hes breaks_nil
  unfold parse?
  simp only [hwhole, hpart]
  simp [hne, parseExponent?]

/-- The text writes the decimal out: with the zeros of its power of ten at the end, or with a
digit behind the point for every place that the power is below one. -/
inductive WrittenOut : Decimal → List Char → Prop
  | whole {n k : Nat} {ds : List Char} (hne : ds ≠ []) (hds : Digits ds)
      (hvalue : natOfDigits ds = n * 10 ^ k) : WrittenOut ⟨n, k⟩ ds
  | pointed {n : Nat} {e : Int} {ds es : List Char} (hne : ds ≠ []) (hds : Digits ds)
      (hes : Digits es) (hvalue : natOfDigits (ds ++ es) = n) (hplaces : e = -es.length) :
      WrittenOut ⟨n, e⟩ (ds ++ '.' :: es)

theorem digits_replicate_zero (k : Nat) : Digits (List.replicate k '0') := by
  intro c hc
  rw [List.eq_of_mem_replicate hc]
  rfl

theorem digits_append {ds es : List Char} (hds : Digits ds) (hes : Digits es) :
    Digits (ds ++ es) :=
  fun c hc => (List.mem_append.1 hc).elim (hds c) (hes c)

theorem writtenOut_positional (d : Decimal) : d.WrittenOut d.positional := by
  obtain ⟨n, e⟩ := d
  have hdigits := digits_digitsOfNat n
  have hne := digitsOfNat_ne_nil n
  have hvalue := natOfDigits_digitsOfNat n
  unfold positional
  dsimp only
  generalize digitsOfNat n = ds at hdigits hne hvalue
  by_cases he : 0 ≤ e
  · obtain ⟨k, rfl⟩ := Int.eq_ofNat_of_zero_le he
    rw [if_pos he]
    refine .whole (by simp [hne]) (digits_append hdigits (digits_replicate_zero _)) ?_
    rw [natOfDigits_append_replicate, hvalue]
    rfl
  · rw [if_neg he]
    by_cases hplaces : (-e).toNat < ds.length
    · rw [if_pos hplaces]
      refine .pointed ?_ (fun c hc => hdigits c (List.mem_of_mem_take hc))
        (fun c hc => hdigits c (List.mem_of_mem_drop hc)) ?_ ?_
      · rw [← List.length_pos_iff, List.length_take]
        omega
      · rw [List.take_append_drop, hvalue]
      · rw [List.length_drop]
        omega
    · rw [if_neg hplaces]
      refine @WrittenOut.pointed n e ['0'] _ (by simp) (by simp [Digits])
        (digits_append (digits_replicate_zero _) hdigits) ?_ ?_
      · exact (natOfDigits_replicate_append ((-e).toNat - ds.length + 1) ds).trans hvalue
      · rw [List.length_append, List.length_replicate]
        omega

/-- A decimal that is written out is a number of an expression. -/
theorem WrittenOut.isNumber {d : Decimal} {cs : List Char} (h : d.WrittenOut cs) :
    IsNumber cs := by
  rw [← List.append_nil cs]
  cases h with
  | whole hne hds _ => exact .mk (.whole hne hds) .none
  | pointed hne hds hes _ _ => exact .mk (.pointed hne hds hes) .none

/-- Written out and read again, a decimal is the same double. -/
theorem WrittenOut.exists_parse? {d : Decimal} {cs : List Char} (h : d.WrittenOut cs) :
    ∃ d', parse? cs = some d' ∧ d'.sizeBits = d.sizeBits := by
  cases h with
  | @whole n k ds hne hds hvalue =>
      refine ⟨⟨n * 10 ^ k, 0⟩, ?_, sizeBits_mul_ten_pow n k⟩
      rw [parse?_digits hne hds, hvalue]
  | pointed hne hds hes hvalue hplaces =>
      refine ⟨_, parse?_pointed hne hds hes, ?_⟩
      rw [hvalue, hplaces]

end Decimal

end BareBones
