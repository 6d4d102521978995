/-
Whole numbers that stand for doubles.

A finite double is a sign, a mantissa and a power of two, and denotes a rational number
(`rational?`).  Its size in units of 2^-1074 is that number without the sign, so `toNat?` gives the
whole number that a double denotes and nothing else (`toNat?_eq_some_iff_rational?`).

So the whole number that a double is written down as is the number that it denotes, wherever doubles
become values: in the results of arithmetic and in literals that are read as doubles
(`whole_numbers_are_exact`).  There is one exception.  The double 2^64 is past the largest whole
number of 64 bits, and still it is written down as that one (`two_pow_64_is_not_exact`).
-/
import BareBones.Proofs.Arithmetic.Values

namespace BareBones

namespace Binary64

open Float.Model (UnpackedFloat)
open Float.Model.UnpackedFloat

/-- One with the sign. -/
def signed : Sign → ℚ
  | .positive => 1
  | .negative => -1

/-- The rational number that the parts of a double stand for. -/
def rationalOf? : UnpackedFloat → Option ℚ
  | .zero _ => some 0
  | .finite s m e _ => some (signed s * m * 2 ^ e)
  | _ => none

/-- The rational number that a double denotes, if it is finite. -/
def rational? (x : Float) : Option ℚ :=
  rationalOf? (unpack .binary64 x.toBits.toBitVec)

/-- The parts of a finite double stand for its size, in units of 2^-1074, with the sign. -/
theorem rationalOf?_components (s : Sign) {e : BitVec 11} (m : BitVec 52) (he : e ≠ -1#11) :
    rationalOf? (unpack .binary64 (packComponents .binary64 s e m)) =
      some (signed s * magnitude (e.toNat * stepsPerBinade + m.toNat) / 2 ^ 1074) := by
  have hbias : (Float.Model.Format.binary64.exponentBias : ℤ) + (52 : ℕ) = 1075 := by decide
  have hm : m.toNat < stepsPerBinade := m.isLt
  unfold unpack
  dsimp only
  simp only [unpackSign_packComponents, Sign.ofBitVec_toBitVec, unpackExponent_packComponents,
    unpackMantissa_packComponents, hbias]
  rw [if_neg he]
  by_cases hzero : e = 0#11
  · -- Below the first binade the mantissa counts the units.
    have hexponent : e.toNat = 0 := by rw [hzero]; rfl
    have hsize : magnitude (e.toNat * stepsPerBinade + m.toNat) = m.toNat := by
      rw [hexponent, Nat.zero_mul, Nat.zero_add, magnitude_subnormal hm]
    rw [if_pos hzero, hsize]
    by_cases hnone : m = 0#52
    · rw [dif_pos hnone, hnone, BitVec.toNat_zero, Nat.cast_zero, mul_zero, zero_div]
      rfl
    · rw [dif_neg hnone]
      show some (signed s * m.toNat * (2 : ℚ) ^ ((e.toNat : ℤ) - 1075 + 1)) = _
      rw [hexponent, show ((0 : ℕ) : ℤ) - 1075 + 1 = -(1074 : ℕ) by decide, zpow_neg,
        zpow_natCast, div_eq_mul_inv]
  · have hpos : 0 < e.toNat := Nat.pos_of_ne_zero fun h => hzero (BitVec.eq_of_toNat_eq h)
    obtain ⟨k, hk⟩ : ∃ k, e.toNat = k + 1 := ⟨e.toNat - 1, by omega⟩
    have hsize : magnitude (e.toNat * stepsPerBinade + m.toNat) =
        (stepsPerBinade + m.toNat) * 2 ^ k := by
      rw [hk, Nat.succ_mul, Nat.add_assoc]
      exact magnitude_normal k (Nat.le_add_right ..) (by omega)
    have hmantissa : (1#1 ++ m).toNat = stepsPerBinade + m.toNat := by
      rw [BitVec.toNat_append, ← Nat.shiftLeft_add_eq_or_of_lt m.isLt]
      rfl
    have hpower : (2 : ℚ) ^ ((e.toNat : ℤ) - 1075) = 2 ^ k / 2 ^ 1074 := by
      rw [hk, show ((k + 1 : ℕ) : ℤ) - 1075 = (k : ℤ) - (1074 : ℕ) by omega,
        zpow_sub₀ (by norm_num), zpow_natCast, zpow_natCast]
    rw [if_neg hzero, hsize]
    show some (signed s * (1#1 ++ m).toNat * (2 : ℚ) ^ ((e.toNat : ℤ) - 1075)) = _
    rw [hmantissa, hpower, Nat.cast_mul, Nat.cast_pow, Nat.cast_ofNat, ← mul_assoc, mul_div_assoc]

theorem rationalOf?_of_ones (s : Sign) (m : BitVec 52) :
    rationalOf? (unpack .binary64 (packComponents .binary64 s (-1#11) m)) = none := by
  unfold unpack
  dsimp only
  simp only [unpackSign_packComponents, Sign.ofBitVec_toBitVec, unpackExponent_packComponents,
    unpackMantissa_packComponents]
  rw [if_pos trivial]
  split <;> rfl

/-- A double denotes its size in units of 2^-1074 with its sign, and nothing if it is not finite. -/
theorem rational?_eq (x : Float) :
    rational? x = if isFinite x then
      some (signed (signOf (isNegative x)) * magnitude (sizeBits x) / 2 ^ 1074) else none := by
  have hsize : sizeBits x < signBit := Nat.mod_lt _ (by decide)
  obtain ⟨e, m, hbits, hones, hparts⟩ := exists_parts hsize
  have hx : x.toBits.toBitVec = packComponents .binary64 (signOf (isNegative x)) e m := by
    rw [← hparts (isNegative x), ← toBits_eq]
  unfold rational?
  rw [hx]
  by_cases hfinite : isFinite x = true
  · have he : e ≠ -1#11 := by
      rw [Ne, hones]
      exact Nat.not_le_of_lt (of_decide_eq_true hfinite)
    rw [rationalOf?_components _ m he, ← hbits, if_pos hfinite]
  · have he : e = -1#11 := by
      rw [hones]
      exact Nat.le_of_not_lt fun h => hfinite (decide_eq_true h)
    rw [he, rationalOf?_of_ones, if_neg hfinite]

/-- The whole number of a double is the number that the double denotes. -/
theorem toNat?_eq_some_iff_rational? {x : Float} {k : Nat} :
    toNat? x = some k ↔ rational? x = some (k : ℚ) := by
  rw [Value.toNat?_eq_some_iff, rational?_eq]
  by_cases hfinite : isFinite x = true
  · have hunits : (2 : ℚ) ^ 1074 = (unitsPerOne : ℚ) := by
      rw [unitsPerOne_eq, Nat.cast_pow, Nat.cast_ofNat]
    have hpos : (unitsPerOne : ℚ) ≠ 0 := Nat.cast_ne_zero.2 unitsPerOne_pos.ne'
    rw [if_pos hfinite, hunits, Option.some.injEq, div_eq_iff hpos]
    generalize magnitude (sizeBits x) = size
    cases isNegative x with
    | false =>
        show _ ↔ (1 : ℚ) * size = _
        rw [one_mul, ← Nat.cast_mul, Nat.cast_inj]
        simp [hfinite]
    | true =>
        -- Only zero is left, and it is the same number with both signs.
        show _ ↔ (-1 : ℚ) * size = _
        rw [neg_one_mul, neg_eq_iff_add_eq_zero, ← Nat.cast_mul, ← Nat.cast_add, Nat.cast_eq_zero]
        generalize k * unitsPerOne = units
        simp only [hfinite, Bool.true_eq_false, false_or, true_and]
        omega
  · simp [hfinite]

end Binary64

open Binary64

namespace Value

variable {x : Float} {n : UInt64}

/-- The whole number that a double is written down as is the number that the double denotes, unless
this is 2^64. -/
theorem rational?_of_ofFloat (h : ofFloat x = .int n) :
    rational? x = some (n.toNat : ℚ) ↔ rational? x ≠ some (2 ^ 64) := by
  obtain ⟨k, hk, hwhole, hn⟩ := ofFloat_eq_int_iff.1 h
  rw [toNat?_eq_some_iff_rational?] at hwhole
  have hcast : (2 ^ 64 : ℚ) = ((2 ^ 64 : Nat) : ℚ) := by norm_num
  rw [hwhole, hcast, Ne, Option.some.injEq, Option.some.injEq, Nat.cast_inj, Nat.cast_inj, hn]
  omega

theorem ofFloat_of_rational? (h : rational? x = some (n.toNat : ℚ)) : ofFloat x = .int n := by
  have hlt := n.toNat_lt
  refine ofFloat_eq_int_iff.2 ⟨n.toNat, by omega, toNat?_eq_some_iff_rational?.2 h, ?_⟩
  rw [Nat.min_eq_left (by omega)]

/-- A literal that is a whole number was read as one, or as a double. -/
theorem parse_eq_int {s : String} (h : parse s = .int n) :
    Literal.readUInt64? (Literal.unquote s).toList = some n ∨
      ∃ x, Double.read? (Literal.unquote s).toList = some x ∧ ofFloat x = .int n := by
  unfold parse ofText at h
  split at h
  · next m hm =>
    cases h
    exact Or.inl hm
  · split at h
    · next x hx =>
      exact Or.inr ⟨x, (Option.ite_none_right_eq_some.1 hx).2, h⟩
    · split_ifs at h

end Value

/-- The result of `eval` is what stands for the double that was worked out. -/
theorem Machine.evaluate_eq_ok {σ : Type} {host : Host σ} {env : Environment}
    {tokens : List String} {w w' : World σ} {v : Value}
    (h : evaluate host env tokens w = (.ok v, w')) :
    ∃ x, (host.evaluate (" ".intercalate (tokens.map (substitute env))) w.state).1 = .ok x ∧
      v = .ofFloat x := by
  unfold evaluate at h
  split at h
  · cases h
  · dsimp only at h
    split at h
    · next x s hx =>
      cases h
      exact ⟨x, by rw [hx], rfl⟩
    · cases h

/-- A double that denotes a whole number of 64 bits is written down as it, and what a double is
written down as is the number that it denotes, exactly if the double is not 2^64.  The same goes for
the double behind a result of `eval`, and for the one behind a literal that is not read as a whole
number in the first place. -/
theorem whole_numbers_are_exact (n : UInt64) :
    (∀ x : Float, (rational? x = some (n.toNat : ℚ) → Value.ofFloat x = .int n) ∧
      (Value.ofFloat x = .int n →
        (rational? x = some (n.toNat : ℚ) ↔ rational? x ≠ some (2 ^ 64)))) ∧
    (∀ (σ : Type) (host : Host σ) (env : Environment) (tokens : List String) (w w' : World σ),
      Machine.evaluate host env tokens w = (.ok (.int n), w') →
      ∃ x, (host.evaluate (" ".intercalate (tokens.map (substitute env))) w.state).1 = .ok x ∧
        (rational? x = some (n.toNat : ℚ) ↔ rational? x ≠ some (2 ^ 64))) ∧
    ∀ s : String, Value.parse s = .int n →
      Literal.readUInt64? (Literal.unquote s).toList = none →
      ∃ x, Double.read? (Literal.unquote s).toList = some x ∧
        (rational? x = some (n.toNat : ℚ) ↔ rational? x ≠ some (2 ^ 64)) := by
  refine ⟨?_, ?_, ?_⟩
  · intro x
    exact ⟨Value.ofFloat_of_rational?, Value.rational?_of_ofFloat⟩
  · intro σ host env tokens w w' h
    obtain ⟨x, hx, hn⟩ := Machine.evaluate_eq_ok h
    exact ⟨x, hx, Value.rational?_of_ofFloat hn.symm⟩
  · intro s h hnone
    rcases Value.parse_eq_int h with hwhole | ⟨x, hx, hn⟩
    · rw [hnone] at hwhole
      cases hwhole
    · exact ⟨x, hx, Value.rational?_of_ofFloat hn⟩

/-- The text of a finite double alone is an expression that is worth the double. -/
theorem Machine.evaluate_text {γ : Type} [Arithmetic.RandomSource γ] {v : Value} {x : Float}
    {t : String} (h : v.double? = some x) (ht : v.text = t)
    (hplain : " ".intercalate ([t].map (substitute {})) = t) (w : World γ) :
    (Arithmetic.evaluate t w.state).1 = .ok x ∧
      evaluate (.arithmetic {}) {} [t] w = (.ok (.ofFloat x), w) := by
  have heval : Arithmetic.evaluate t w.state = (.ok x, w.state) := by
    rw [← ht]
    exact Arithmetic.evaluate_text h w.state
  have hhost : (Host.arithmetic {} : Host γ).evaluate = Arithmetic.evaluate := rfl
  refine ⟨by rw [heval], ?_⟩
  unfold evaluate
  dsimp only
  rw [hplain, hhost, heval]

/-- The largest double below 2^64, an expression that is worth it and a literal that is read as
it. -/
theorem whole_numbers_are_exact_below_two_pow_64 :
    let x := ofSizeBits false 0x43EFFFFFFFFFFFFF
    let n : UInt64 := 18446744073709549568
    (rational? x = some 18446744073709549568 ∧ Value.ofFloat x = .int n) ∧
      (∀ w : World Arithmetic.Generator,
        Machine.evaluate (.arithmetic {}) {} ["18446744073709550000"] w = (.ok (.int n), w) ∧
        ∃ y, (Arithmetic.evaluate "18446744073709550000" w.state).1 = .ok y ∧
          rational? y = some 18446744073709549568) ∧
      Literal.readUInt64? (Literal.unquote "18446744073709549568.0").toList = none ∧
      Value.parse "18446744073709549568.0" = .int n ∧
      ∃ y, Double.read? (Literal.unquote "18446744073709549568.0").toList = some y ∧
        rational? y = some 18446744073709549568 := by
  intro x n
  have hx : rational? x = some ((18446744073709549568 : Nat) : ℚ) :=
    toNat?_eq_some_iff_rational?.1 (by decide +kernel)
  have hbelow : rational? x ≠ some (2 ^ 64) := by
    rw [hx]
    norm_num
  obtain ⟨hcollapse, heval, hliteral⟩ := whole_numbers_are_exact n
  have hn : Value.ofFloat x = .int n := (hcollapse x).1 hx
  refine ⟨⟨hx, hn⟩, ?_, ?_⟩
  · intro w
    have htext : (Value.float x).text = "18446744073709550000" := by decide +kernel
    have hdouble : (Value.float x).double? = some x := by decide +kernel
    have hplain : " ".intercalate (["18446744073709550000"].map (substitute {}))
        = "18446744073709550000" := by decide +kernel
    obtain ⟨hworth, hresult⟩ := Machine.evaluate_text hdouble htext hplain w
    rw [hn] at hresult
    obtain ⟨y, hy, hexact⟩ := heval _ _ _ _ _ _ hresult
    rw [hplain] at hy
    have hsame : y = x := Except.ok.inj (hy.symm.trans hworth)
    exact ⟨hresult, y, hy, hexact.2 (hsame ▸ hbelow)⟩
  · have hnone : Literal.readUInt64? (Literal.unquote "18446744073709549568.0").toList = none := by
      decide +kernel
    have hparse : Value.parse "18446744073709549568.0" = .int n := by decide +kernel
    have hread : Double.read? (Literal.unquote "18446744073709549568.0").toList = some x := by
      decide +kernel
    obtain ⟨y, hy, hexact⟩ := hliteral _ hparse hnone
    rw [hread] at hy
    obtain rfl := Option.some.inj hy
    exact ⟨hnone, hparse, x, hread, hexact.2 hbelow⟩

/-- The double 2^64, an expression that is worth it and a literal that is read as it all become the
largest whole number, which is one less. -/
theorem two_pow_64_is_not_exact :
    let x := ofSizeBits false 0x43F0000000000000
    let n : UInt64 := 18446744073709551615
    (rational? x = some (2 ^ 64) ∧ Value.ofFloat x = .int n) ∧
      (∀ w : World Arithmetic.Generator,
        (Arithmetic.evaluate "18446744073709552000" w.state).1 = .ok x ∧
        Machine.evaluate (.arithmetic {}) {} ["18446744073709552000"] w = (.ok (.int n), w)) ∧
      Double.read? "18446744073709551616".toList = some x ∧
      Value.parse "18446744073709551616" = .int n := by
  intro x n
  have hx : rational? x = some ((18446744073709551616 : Nat) : ℚ) :=
    toNat?_eq_some_iff_rational?.1 (by decide +kernel)
  have hn : Value.ofFloat x = .int n := by decide +kernel
  have htext : (Value.float x).text = "18446744073709552000" := by decide +kernel
  have hdouble : (Value.float x).double? = some x := by decide +kernel
  refine ⟨⟨?_, hn⟩, ?_, by decide +kernel, by decide +kernel⟩
  · rw [hx]
    norm_num
  · intro w
    rw [← hn]
    exact Machine.evaluate_text hdouble htext (by decide +kernel) w

end BareBones
