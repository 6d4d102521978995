/-
Whole numbers and their decimals.

The decimal of a number is a text of digits that has the number as its value and does not start
with a zero, unless it is `0`.  Each number has exactly one (`isDecimal_iff`): once the digits read
so far are worth more than nothing, every further digit makes a number one place longer, so none of
them can be lost in the value.

The text of a whole number is its decimal.  A literal may write the same number with zeros and a `+`
in front and with quotes around all of it.  The quotes and the `+` go and the zeros are worth
nothing, so it is the same whole number that is read, up to the largest one.
-/
import BareBones.Proofs.Doubles.Decimals
import BareBones.Proofs.Literals
import Mathlib.Data.Nat.Digits.Defs

namespace BareBones

open Arithmetic (Digits)

/-! ### Decimals -/

/-- The text is the decimal of the number: digits that have it as their value, with no zero in front
unless it is the only one. -/
structure IsDecimal (n : Nat) (cs : List Char) : Prop where
  ne_nil : cs ≠ []
  digits : Digits cs
  value : Nat.ofDigits 10 (cs.reverse.map fun c => c.toNat - '0'.toNat) = n
  leading : cs.head? = some '0' → cs = ['0']

variable {n : Nat} {c : Char} {cs ds : List Char}

/-- Reading from the first digit on gives each digit the weight of its place. -/
theorem natOfDigits_eq_ofDigits (cs : List Char) :
    natOfDigits cs = Nat.ofDigits 10 (cs.reverse.map fun c => c.toNat - '0'.toNat) := by
  rw [natOfDigits, List.foldl_eq_foldr_reverse, Nat.ofDigits_eq_foldr, List.foldr_map]
  congr 1
  funext c m
  exact Nat.add_comm ..

theorem digit_lt_ten (hc : c.isDigit = true) : c.toNat - '0'.toNat < 10 := by
  obtain ⟨-, hnine⟩ := Char.isDigit_iff_toNat.1 hc
  exact Nat.lt_succ_of_le (Nat.sub_le_sub_right hnine _)

theorem digitsOfNat_digit (hc : c.isDigit = true) : digitsOfNat (c.toNat - '0'.toNat) = [c] := by
  obtain ⟨hzero, -⟩ := Char.isDigit_iff_toNat.1 hc
  have hchar : (c.toNat - '0'.toNat).digitChar = c := by
    rw [← Char.toNat_inj, Nat.toNat_digitChar_of_lt_ten (digit_lt_ten hc)]
    exact Nat.add_sub_of_le hzero
  rw [digitsOfNat, Nat.toDigits_of_lt_base (digit_lt_ten hc), hchar]

/-- Digits that are read on from a positive number stand behind its own. -/
theorem digitsOfNat_ofDigitChars (hcs : Digits cs) :
    ∀ m, 0 < m → digitsOfNat (Nat.ofDigitChars 10 cs m) = digitsOfNat m ++ cs := by
  induction cs with
  | nil =>
      intro m _
      exact (List.append_nil _).symm
  | cons c cs ih =>
      intro m hm
      have hc : c.isDigit = true := hcs c List.mem_cons_self
      have hcs : Digits cs := fun d hd => hcs d (List.mem_cons_of_mem c hd)
      have hstep : digitsOfNat (10 * m + (c.toNat - '0'.toNat)) = digitsOfNat m ++ [c] := by
        rw [← digitsOfNat_digit hc]
        exact (Nat.toDigits_append_toDigits (by decide) hm (digit_lt_ten hc)).symm
      rw [Nat.ofDigitChars_cons, ih hcs _ (by omega), hstep, List.append_assoc,
        List.singleton_append]

/-- Digits that do not start with a zero are all the digits of their value. -/
theorem digitsOfNat_natOfDigits (hcs : Digits (c :: cs)) (hc : c ≠ '0') :
    digitsOfNat (natOfDigits (c :: cs)) = c :: cs := by
  have hdigit : c.isDigit = true := hcs c List.mem_cons_self
  have hpos : 0 < c.toNat - '0'.toNat := by
    obtain ⟨hzero, -⟩ := Char.isDigit_iff_toNat.1 hdigit
    have hne : c.toNat ≠ '0'.toNat := fun h => hc (Char.toNat_inj.1 h)
    omega
  rw [natOfDigits_eq, Nat.ofDigitChars_cons, Nat.mul_zero, Nat.zero_add,
    digitsOfNat_ofDigitChars (fun d hd => hcs d (List.mem_cons_of_mem c hd)) _ hpos,
    digitsOfNat_digit hdigit, List.singleton_append]

/-- Only zero is written with a zero in front. -/
theorem eq_zero_of_head?_digitsOfNat : (digitsOfNat n).head? = some '0' → n = 0 := by
  induction n using Nat.strong_induction_on with
  | _ n ih =>
      intro hhead
      unfold digitsOfNat at hhead ih
      rcases Nat.lt_or_ge n 10 with hlt | hge
      · rw [Nat.toDigits_of_lt_base hlt, List.head?_cons, Option.some.injEq] at hhead
        exact Nat.digitChar_eq_zero.1 hhead
      · rw [Nat.toDigits_of_base_le (by decide) hge,
          List.head?_append_of_ne_nil _ Nat.toDigits_ne_nil] at hhead
        have hzero := ih (n / 10) (by omega) hhead
        omega

/-- Every number has one decimal, and it is what is written for the number. -/
theorem isDecimal_iff : IsDecimal n cs ↔ cs = digitsOfNat n := by
  constructor
  · rintro ⟨hne, hcs, hvalue, hleading⟩
    rw [← natOfDigits_eq_ofDigits] at hvalue
    obtain ⟨c, cs, rfl⟩ := List.exists_cons_of_ne_nil hne
    rw [← hvalue]
    by_cases hc : c = '0'
    · rw [hleading (by rw [hc, List.head?_cons])]
      rfl
    · rw [digitsOfNat_natOfDigits hcs hc]
  · rintro rfl
    refine ⟨digitsOfNat_ne_nil n, digits_digitsOfNat n, ?_, ?_⟩
    · rw [← natOfDigits_eq_ofDigits, natOfDigits_digitsOfNat]
    · intro hhead
      rw [eq_zero_of_head?_digitsOfNat hhead]
      rfl

/-! ### Literals -/

namespace Literal

/-- The digits of a number as a literal may have them: with zeros in front, and a `+` before these
or none. -/
def spelled (signed : Bool) (zeros : Nat) (ds : List Char) : List Char :=
  (if signed then ['+'] else []) ++ (List.replicate zeros '0' ++ ds)

theorem readNat?_digits (hne : ds ≠ []) (hds : Digits ds) :
    readNat? ds = some (natOfDigits ds) := by
  have hall : ds.all Char.isDigit = true := List.all_eq_true.2 hds
  unfold readNat?
  split
  · exact absurd (hds '+' List.mem_cons_self) (by decide)
  · simp [hne, hall]

theorem readNat?_plus (hne : ds ≠ []) (hds : Digits ds) :
    readNat? ('+' :: ds) = some (natOfDigits ds) := by
  have hall : ds.all Char.isDigit = true := List.all_eq_true.2 hds
  simp [readNat?, hne, hall]

theorem readUInt64?_spelled {n : UInt64} (h : IsDecimal n.toNat ds) (signed : Bool) (zeros : Nat) :
    readUInt64? (spelled signed zeros ds) = some n := by
  have hne : List.replicate zeros '0' ++ ds ≠ [] := by simp [h.ne_nil]
  have hds : Digits (List.replicate zeros '0' ++ ds) :=
    Decimal.digits_append (Decimal.digits_replicate_zero zeros) h.digits
  have hvalue : natOfDigits (List.replicate zeros '0' ++ ds) = n.toNat := by
    rw [natOfDigits_replicate_append, natOfDigits_eq_ofDigits, h.value]
  have hread : readNat? (spelled signed zeros ds) = some n.toNat := by
    cases signed with
    | false => exact (readNat?_digits hne hds).trans (congrArg some hvalue)
    | true => exact (readNat?_plus hne hds).trans (congrArg some hvalue)
  unfold readUInt64?
  rw [hread]
  simp [n.toNat_lt_size]

theorem unescape_eq_self : ∀ {cs : List Char}, '\\' ∉ cs → unescape cs = cs := by
  intro cs
  induction cs with
  | nil => exact fun _ => rfl
  | cons c cs ih =>
      intro h
      have hc : c ≠ '\\' := fun heq => h (heq ▸ List.mem_cons_self)
      have hcs : '\\' ∉ cs := fun hmem => h (List.mem_cons_of_mem c hmem)
      rw [unescape_cons (fun heq => absurd heq hc), ih hcs]

theorem stripQuotes_eq_self (h : cs.head? ≠ some '"') : stripQuotes cs = cs := by
  unfold stripQuotes
  split
  · exact absurd rfl h
  · rfl

theorem not_mem_spelled (hds : Digits ds) (hplus : c ≠ '+') (hdigit : c.isDigit = false)
    (signed : Bool) (zeros : Nat) : c ∉ spelled signed zeros ds := by
  intro hmem
  rcases List.mem_append.1 hmem with hsign | hrest
  · cases signed with
    | false => cases hsign
    | true => exact hplus (List.mem_singleton.1 hsign)
  · have hc := Decimal.digits_append (Decimal.digits_replicate_zero zeros) hds c hrest
    rw [hdigit] at hc
    cases hc

/-- Quotes around a spelled number go, and without them nothing does. -/
theorem unquote_spelled (hds : Digits ds) (signed : Bool) (zeros : Nat) :
    let body := String.ofList (spelled signed zeros ds)
    unquote body = body ∧ unquote ("\"" ++ body ++ "\"") = body := by
  intro body
  have hslash : '\\' ∉ spelled signed zeros ds := not_mem_spelled hds (by decide) rfl signed zeros
  have hquote : '"' ∉ spelled signed zeros ds := not_mem_spelled hds (by decide) rfl signed zeros
  have htext : ("\"" ++ body ++ "\"").toList = '"' :: (spelled signed zeros ds ++ ['"']) := by
    simp [body]
  constructor
  · have hhead : (spelled signed zeros ds).head? ≠ some '"' :=
      fun h => hquote (List.mem_of_mem_head? h)
    rw [unquote, String.toList_ofList, stripQuotes_eq_self hhead, unescape_eq_self hslash]
  · rw [unquote, htext, stripQuotes_quoted, unescape_eq_self hslash]

end Literal

namespace Value

theorem toList_text_int (n : UInt64) : (int n).text.toList = digitsOfNat n.toNat := by
  rw [text, Nat.toString_eq_ofList_toDigits, String.toList_ofList]
  rfl

/-- A number that is spelled in some way is read as itself. -/
theorem parse_spelled {n : UInt64} (h : IsDecimal n.toNat ds) (signed : Bool) (zeros : Nat) :
    parse (String.ofList (Literal.spelled signed zeros ds)) = .int n ∧
      parse ("\"" ++ String.ofList (Literal.spelled signed zeros ds) ++ "\"") = .int n := by
  obtain ⟨hbare, hquoted⟩ := Literal.unquote_spelled h.digits signed zeros
  have hread : ofText (String.ofList (Literal.spelled signed zeros ds)) = .int n := by
    rw [ofText, String.toList_ofList, Literal.readUInt64?_spelled h signed zeros]
  exact ⟨by rw [parse, hbare, hread], by rw [parse, hquoted, hread]⟩

/-- Each whole number of 64 bits has a decimal, which is its text and no other text is.  A literal is
read as the number if it has the digits of the decimal, with or without zeros in front, a `+` before
these and quotes around it all.  So the text of a whole number is read as the number again. -/
theorem whole_number_literals_round_trip (n : UInt64) :
    (∀ ds, IsDecimal n.toNat ds ↔ (int n).text = String.ofList ds) ∧
    (∀ ds, IsDecimal n.toNat ds → ∀ (signed : Bool) (zeros : Nat),
      parse (String.ofList (Literal.spelled signed zeros ds)) = .int n ∧
      parse ("\"" ++ String.ofList (Literal.spelled signed zeros ds) ++ "\"") = .int n) ∧
    parse (int n).text = .int n := by
  refine ⟨?_, fun ds h => parse_spelled h, ?_⟩
  · intro ds
    rw [isDecimal_iff, ← String.toList_inj, toList_text_int, String.toList_ofList]
    exact eq_comm
  · have hdecimal : IsDecimal n.toNat (int n).text.toList := isDecimal_iff.2 (toList_text_int n)
    have htext : String.ofList (Literal.spelled false 0 (int n).text.toList) = (int n).text :=
      String.ofList_toList
    rw [← htext]
    exact (parse_spelled hdecimal false 0).1

/-- The largest whole number, with a `+`, with three zeros and with quotes. -/
theorem whole_number_literals_round_trip_largest :
    let n : UInt64 := 18446744073709551615
    let ds := "18446744073709551615".toList
    IsDecimal n.toNat ds ∧ (int n).text = "18446744073709551615" ∧
      parse "18446744073709551615" = .int n ∧ parse "+00018446744073709551615" = .int n ∧
      parse "\"+00018446744073709551615\"" = .int n := by
  intro n ds
  obtain ⟨htext, hparse, hback⟩ := whole_number_literals_round_trip n
  have hdecimal : IsDecimal n.toNat ds := by
    refine ⟨by decide, ?_, by decide +kernel, ?_⟩
    · exact List.all_eq_true.1 (by decide +kernel : ds.all Char.isDigit = true)
    · intro hhead
      exact absurd hhead (by decide +kernel)
  obtain ⟨hbare, hquoted⟩ := hparse ds hdecimal true 3
  have hwritten : (int n).text = "18446744073709551615" := (htext ds).1 hdecimal
  exact ⟨hdecimal, hwritten, hwritten ▸ hback, hbare, hquoted⟩

end Value

end BareBones
