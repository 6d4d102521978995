/-
Numbers that come out of arithmetic and go in again.

A variable stands in an expression by the text of its value.  For a finite number that text is a
number of an expression, with a minus in front if the sign is set (`exists_text_eq`), and its value
is the double nearest to the number (`evaluate_text`).  So `eval` of a variable alone hands back
what arithmetic makes of that double.

This is the variable's own value just for the numbers that arithmetic could have given in the
first place.  The others are whole numbers between two doubles, and doubles that arithmetic writes
down as whole numbers (`eval_keeps_results`).
-/
import BareBones.Machine.Resolve
import BareBones.Proofs.Arithmetic.Evaluation
import BareBones.Proofs.Doubles.Bits
import BareBones.Proofs.Doubles.Decimals
import BareBones.Proofs.Names
import BareBones.Proofs.Substitution

namespace BareBones

open Binary64

/-! ### The double of a number -/

/-- The text of a finite double is a decimal that reads back, behind the sign. -/
theorem Double.exists_text_eq {x : Float} (h : isFinite x = true) :
    ∃ d : Decimal, d.sizeBits = sizeBits x ∧
      (text x).toList = if isNegative x then '-' :: d.positional else d.positional := by
  have hbits : sizeBits x < infinityBits := of_decide_eq_true h
  -- Zero is written apart, for it has no shortest decimal of its own.
  obtain ⟨d, hd, hsize⟩ : ∃ d : Decimal, d.sizeBits = sizeBits x ∧
      (if sizeBits x = 0 then "0"
        else String.ofList (Decimal.shortest .up (sizeBits x)).positional) =
        String.ofList d.positional := by
    by_cases hzero : sizeBits x = 0
    · refine ⟨⟨0, 0⟩, hzero.symm, ?_⟩
      rw [if_pos hzero]
      rfl
    · exact ⟨_, Decimal.sizeBits_shortest .up hbits, by rw [if_neg hzero]⟩
  refine ⟨d, hd, ?_⟩
  unfold text
  rw [isNaN_of_isFinite h, h, hsize]
  dsimp only
  cases isNegative x with
  | true =>
      show ("-" ++ String.ofList d.positional).toList = '-' :: d.positional
      simp
  | false => exact String.toList_ofList

namespace Value

/-- The double that arithmetic takes a finite number for: the nearest one to a whole number, and a
double itself. -/
def double? : Value → Option Float
  | .int n => some (Decimal.toFloat false ⟨n.toNat, 0⟩)
  | .float x => if isFinite x then some x else none
  | _ => none

variable {v : Value} {x : Float}

theorem isFinite_of_double? (h : v.double? = some x) : isFinite x = true := by
  cases v with
  | int n =>
      cases h
      exact isFinite_ofSizeBits false (Decimal.sizeBits_lt_infinityBits n.toNat_lt)
  | float y =>
      obtain ⟨hfinite, heq⟩ := Option.ite_none_right_eq_some.1 h
      cases heq
      exact hfinite
  | bool b => cases h
  | str s => cases h

theorem exists_text_eq (h : v.double? = some x) :
    ∃ d : Decimal, d.sizeBits = sizeBits x ∧
      v.text.toList = if isNegative x then '-' :: d.positional else d.positional := by
  cases v with
  | int n =>
      cases h
      have hsize := Decimal.sizeBits_lt_infinityBits n.toNat_lt
      refine ⟨⟨n.toNat, 0⟩, (sizeBits_ofSizeBits false hsize).symm, ?_⟩
      rw [Decimal.toFloat, isNegative_ofSizeBits false hsize, text,
        Nat.toString_eq_ofList_toDigits, String.toList_ofList]
      exact (List.append_nil _).symm
  | float y =>
      obtain ⟨hfinite, heq⟩ := Option.ite_none_right_eq_some.1 h
      cases heq
      exact Double.exists_text_eq hfinite
  | bool b => cases h
  | str s => cases h

/-! ### Back to a value -/

theorem toNat?_eq_some_iff {k : Nat} :
    toNat? x = some k ↔ isFinite x = true ∧ (isNegative x = false ∨ magnitude (sizeBits x) = 0) ∧
      magnitude (sizeBits x) = k * unitsPerOne := by
  have hdiv : magnitude (sizeBits x) = k * unitsPerOne ↔
      magnitude (sizeBits x) % unitsPerOne = 0 ∧ magnitude (sizeBits x) / unitsPerOne = k := by
    constructor
    · intro h
      rw [h]
      exact ⟨Nat.mul_mod_left .., Nat.mul_div_cancel _ unitsPerOne_pos⟩
    · rintro ⟨hmod, rfl⟩
      exact (Nat.div_mul_cancel (Nat.dvd_of_mod_eq_zero hmod)).symm
  unfold toNat?
  dsimp only
  rw [Option.ite_none_right_eq_some, hdiv]
  simp [and_assoc]

theorem ofFloat_eq_int_iff {n : UInt64} :
    ofFloat x = .int n ↔
      ∃ k ≤ 2 ^ 64, toNat? x = some k ∧ n.toNat = min k (2 ^ 64 - 1) := by
  have hword : ∀ (n : UInt64) (k : Nat),
      n = UInt64.ofNat (min k (2 ^ 64 - 1)) ↔ n.toNat = min k (2 ^ 64 - 1) := by
    intro n k
    rw [← UInt64.toNat_inj, UInt64.toNat_ofNat', Nat.mod_eq_of_lt (by omega)]
  unfold ofFloat
  cases hx : toNat? x with
  | none => simp
  | some k =>
      dsimp only
      by_cases hk : k ≤ UInt64.size
      · rw [if_pos hk]
        constructor
        · intro h
          cases h
          exact ⟨k, hk, rfl, (hword _ k).1 rfl⟩
        · rintro ⟨k', -, hk', hn⟩
          cases hk'
          exact congrArg Value.int ((hword n k).2 hn).symm
      · rw [if_neg hk]
        constructor
        · intro h
          cases h
        · rintro ⟨k', hle, hk', -⟩
          cases hk'
          exact absurd hle hk

theorem eq_of_ofFloat_eq_float {y : Float} (h : ofFloat y = .float x) : y = x := by
  unfold ofFloat at h
  split at h
  · split at h
    · cases h
    · cases h
      rfl
  · cases h
    rfl

/-- A double that is written down as a whole number is the one nearest to it.  The largest whole
number stands for its successor as well, and is rounded to it. -/
theorem sizeBits_of_toNat? {k : Nat} (hk : k ≤ 2 ^ 64) (h : toNat? x = some k) :
    Decimal.sizeBits ⟨min k (2 ^ 64 - 1), 0⟩ = sizeBits x := by
  obtain ⟨hfinite, -, hunits⟩ := toNat?_eq_some_iff.1 h
  have hround : Decimal.sizeBits ⟨k, 0⟩ = sizeBits x := by
    have hnearest := nearest_magnitude (of_decide_eq_true hfinite) Nat.one_pos
    rw [Nat.mul_one, hunits] at hnearest
    rw [Decimal.sizeBits_whole hk, hnearest]
  rw [← hround]
  rcases Nat.lt_or_eq_of_le hk with hlt | rfl
  · rw [Nat.min_eq_left (Nat.le_sub_one_of_lt hlt)]
  · decide +kernel

/-- Rounding a number to a double leaves it as it is just if some double is written down as it. -/
theorem ofFloat_double?_eq_iff (h : v.double? = some x) :
    ofFloat x = v ↔ ∃ y, ofFloat y = v := by
  refine ⟨fun heq => ⟨x, heq⟩, ?_⟩
  rintro ⟨y, hy⟩
  cases v with
  | int n =>
      cases h
      obtain ⟨k, hk, hwhole, hn⟩ := ofFloat_eq_int_iff.1 hy
      obtain ⟨-, -, hunits⟩ := toNat?_eq_some_iff.1 hwhole
      have hlt := Decimal.sizeBits_lt_infinityBits n.toNat_lt
      have hsize : sizeBits (Decimal.toFloat false ⟨n.toNat, 0⟩) = sizeBits y := by
        rw [Decimal.toFloat, sizeBits_ofSizeBits false hlt, hn, sizeBits_of_toNat? hk hwhole]
      refine ofFloat_eq_int_iff.2 ⟨k, hk, toNat?_eq_some_iff.2 ⟨?_, Or.inl ?_, ?_⟩, hn⟩
      · exact isFinite_ofSizeBits false hlt
      · exact isNegative_ofSizeBits false hlt
      · rw [hsize, hunits]
  | float z =>
      obtain ⟨-, heq⟩ := Option.ite_none_right_eq_some.1 h
      cases heq
      rw [← hy, eq_of_ofFloat_eq_float hy]
  | bool b => cases h
  | str s => cases h

end Value

namespace Arithmetic

variable {γ : Type} [RandomSource γ] {v : Value} {x : Float}

theorem eval_number {d : Decimal} {cs : List Char} (h : d.WrittenOut cs) (g : γ) :
    (Expr.number (String.ofList cs)).eval g = (.ok (ofSizeBits false d.sizeBits), g) := by
  obtain ⟨d', hparse, hsize⟩ := h.exists_parse?
  rw [Expr.eval, numberValue, String.toList_ofList, hparse]
  dsimp only
  rw [Decimal.toFloat, hsize]

/-- The text of a finite number has the value that arithmetic takes the number for. -/
theorem evaluate_text (h : v.double? = some x) (g : γ) :
    evaluate v.text g = (.ok x, g) := by
  have hfinite := Value.isFinite_of_double? h
  have hbits : sizeBits x < infinityBits := of_decide_eq_true hfinite
  obtain ⟨d, hd, htext⟩ := Value.exists_text_eq h
  have hwritten := d.writtenOut_positional
  have hnumber : Spells d.positional [.number (String.ofList d.positional)] := by
    simpa using Spells.lexeme (.number hwritten.isNumber) .nil
  have hprimary := IsPrimary.number (String.ofList d.positional)
  have hx := ofSizeBits_sizeBits x
  cases hsign : isNegative x with
  | false =>
      rw [hsign, if_neg (by decide)] at htext
      have hsentence : Sentence v.text (.number (String.ofList d.positional)) :=
        ⟨_, htext ▸ hnumber, .product (.signed (.power (.primary hprimary)))⟩
      rw [evaluate_of_sentence hsentence, eval_number hwritten, hd, ← hsign, hx]
  | true =>
      rw [hsign, if_pos rfl] at htext
      have hminus : Spells v.text.toList [.minus, .number (String.ofList d.positional)] := by
        rw [htext]
        exact .lexeme (l := ['-']) .minus hnumber
      have hsentence : Sentence v.text (.negate (.number (String.ofList d.positional))) :=
        ⟨_, hminus, .product (.signed (.minus (.power (.primary hprimary))))⟩
      rw [evaluate_of_sentence hsentence, Expr.eval, eval_number hwritten]
      dsimp only
      rw [hd, neg_ofSizeBits false hbits, Bool.not_false, ← hsign, hx]

end Arithmetic

/-! ### A variable alone -/

theorem Name.isNameChar_of_checkVariable {x : String} (h : checkVariable x = .ok ()) :
    x.toList ≠ [] ∧ ∀ c ∈ x.toList, isNameChar c = true := by
  obtain ⟨-, c, cs, heq, -, hchars⟩ := of_checkVariable h
  rw [heq]
  exact ⟨List.cons_ne_nil c cs, hchars⟩

theorem substitute_variable {env : Environment} {x : String} {v : Value}
    (hx : Name.checkVariable x = .ok ()) (hv : env.get? x = some v) :
    substitute env x = v.text := by
  obtain ⟨hne, hchars⟩ := Name.isNameChar_of_checkVariable hx
  have hpasted : env.pasted? x = some v.text := by
    rw [Environment.pasted?, (Name.not_reserved_of_checkVariable hx).2, hv]
    rfl
  rw [substitute, substituteFrom_run hne hchars, substituteRun_eq, String.ofList_toList, hpasted]
  exact String.ofList_toList

namespace Context

open Arithmetic (RandomSource Generator)

variable {β γ : Type} [RandomSource γ]

/-- `eval` of a variable alone works out the text of its value. -/
theorem resolve_eval_variable (settings : Settings) (run : BodyRunner γ β)
    {c : Context β} {x : String} {v : Value} (hx : Name.checkVariable x = .ok ())
    (hv : c.env.get? x = some v) (w : World γ) :
    c.resolve (.arithmetic settings) run [Keyword.eval.word, x] w =
      match Arithmetic.evaluate v.text w.state with
      | (.ok y, g) => (.ok (.ofFloat y, true), { w with state := g })
      | (.error e, g) => (.raise (.invalidExpression v.text e), { w with state := g }) := by
  have hjoin : " ".intercalate ([x].map (substitute c.env)) = v.text := by
    apply String.toList_inj.1
    rw [String.toList_intercalate, List.map_singleton, substitute_variable hx hv]
    simp
  have hhost : (Host.arithmetic settings : Host γ).evaluate = Arithmetic.evaluate := rfl
  unfold resolve Machine.evaluate
  dsimp only
  rw [if_pos rfl, hjoin, hhost]
  obtain ⟨_ | _, _⟩ := Arithmetic.evaluate v.text w.state <;> rfl

/-- `eval` of a variable that holds a finite number succeeds, with what arithmetic makes of the
double nearest to the number.  That is the number itself just if some double is written down as
it, and so in particular if the number came out of arithmetic. -/
theorem eval_keeps_results (settings : Settings) (run : BodyRunner γ β) (c : Context β)
    (x : String) (v : Value) (y : Float) (w : World γ)
    (hx : Name.checkVariable x = .ok ()) (hv : c.env.get? x = some v) (hy : v.double? = some y) :
    c.resolve (.arithmetic settings) run [Keyword.eval.word, x] w = (.ok (.ofFloat y, true), w) ∧
      (Value.ofFloat y = v ↔ ∃ z, Value.ofFloat z = v) := by
  refine ⟨?_, Value.ofFloat_double?_eq_iff hy⟩
  rw [resolve_eval_variable settings run hx hv, Arithmetic.evaluate_text hy]

/-- The largest whole number is rounded up to 2^64, and is written down for it. -/
theorem eval_keeps_results_at_largest :
    let c : Context Unit := { env := NameMap.ofList [("x", .int 18446744073709551615)] }
    let y := Binary64.ofSizeBits false 0x43F0000000000000
    Name.checkVariable "x" = .ok () ∧ c.env.get? "x" = some (.int 18446744073709551615) ∧
      (Value.int 18446744073709551615).double? = some y ∧
      ∀ w : World Generator,
        c.resolve (.arithmetic {}) (fun _ c w => (.ok true, c, w)) ["eval", "x"] w =
          (.ok (.int 18446744073709551615, true), w) := by
  intro c y
  have hx : Name.checkVariable "x" = .ok () := by decide +kernel
  have hv : c.env.get? "x" = some (.int 18446744073709551615) := by decide +kernel
  have hy : (Value.int 18446744073709551615).double? = some y := by decide +kernel
  have hz : Value.ofFloat y = .int 18446744073709551615 := by decide +kernel
  refine ⟨hx, hv, hy, ?_⟩
  intro w
  obtain ⟨hresolve, hkept⟩ := eval_keeps_results {} (fun _ c w => (.ok true, c, w)) c "x" _ y w
    hx hv hy
  rw [← hkept.2 ⟨y, hz⟩]
  exact hresolve

/-- A whole number between two doubles is rounded to the even one, and a double that is no number
is refused. -/
theorem eval_changes_some_numbers :
    let c : Context Unit :=
      { env := NameMap.ofList [("x", .int 9007199254740993), ("y", .float (0.0 / 0.0))] }
    let run : BodyRunner Generator Unit := fun _ c w => (.ok true, c, w)
    c.env.get? "x" = some (.int 9007199254740993) ∧
      (∀ w, c.resolve (.arithmetic {}) run ["eval", "x"] w =
        (.ok (.int 9007199254740992, true), w)) ∧
      c.env.get? "y" = some (.float (0.0 / 0.0)) ∧
      ∀ w, c.resolve (.arithmetic {}) run ["eval", "y"] w =
        (.raise (.invalidExpression "NaN" (.unknownConstant "NaN")), w) := by
  intro c run
  have hx : c.env.get? "x" = some (.int 9007199254740993) := by decide +kernel
  have hy : c.env.get? "y" = some (.float (0.0 / 0.0)) := by decide +kernel
  refine ⟨hx, ?_, hy, ?_⟩
  · intro w
    have hdouble : (Value.int 9007199254740993).double? =
        some (Binary64.ofSizeBits false 0x4340000000000000) := by decide +kernel
    have hvalue : Value.ofFloat (Binary64.ofSizeBits false 0x4340000000000000) =
        .int 9007199254740992 := by decide +kernel
    have hresolve := resolve_eval_variable {} run (by decide +kernel) hx w
    rw [Arithmetic.evaluate_text hdouble] at hresolve
    dsimp only at hresolve
    rw [hvalue] at hresolve
    exact hresolve
  · intro w
    have htext : (Value.float (0.0 / 0.0)).text = "NaN" := by decide +kernel
    have heval : Arithmetic.evaluate "NaN" w.state =
        (.error (.unknownConstant "NaN"), w.state) := by
      have hparse : Arithmetic.parse "NaN".toList = .ok (.name "NaN") := by
        rw [show "NaN".toList = ['N', 'a', 'N'] from String.toList_ofList]
        rfl
      rw [Arithmetic.evaluate, hparse]
      rfl
    have hresolve := resolve_eval_variable {} run (by decide +kernel) hy w
    rw [htext, heval] at hresolve
    exact hresolve

end Context

end BareBones
