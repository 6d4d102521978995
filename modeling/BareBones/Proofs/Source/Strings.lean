/-
Strings that are not closed.

The scanner opens and closes strings by the quotes of the source, one character at a time.  The
grouping of words goes by how a word starts and how it ends, and reports a string that is open behind
the last word of a fragment.

Where the two agree on every word, they agree at the end: a source is refused exactly if it ends
inside a string (`unterminated_iff_open`).  To agree on a word means that it has an odd number of
quotes exactly if it starts with one that it does not close or, inside a string, if it ends with
one.  A word that has quotes elsewhere can set them apart in both directions, and then a source that
ends inside a string is accepted, or one that does not is refused (`strings_set_apart`).
-/
import BareBones.Proofs.Source.Statements
import Mathlib.Algebra.Ring.Parity

namespace BareBones.Source

open BareBones.Text

/-! ### The quotes of a word -/

/-- How many quotes of a text have no backslash right before them, if a backslash stands in front of
the text or not. -/
def quotesFrom (escaped : Bool) : List Char → Nat
  | [] => 0
  | c :: cs => (if c = '"' ∧ escaped = false then 1 else 0) + quotesFrom (c == '\\') cs

/-- How many quotes of a word have no backslash right before them. -/
def quotes (w : List Char) : Nat :=
  quotesFrom false w

/-- Is the word taken for one that opens a string or, where one is open, closes it? -/
def turnsString (opened : Bool) (w : List Char) : Bool :=
  if opened then closesString w else opensString w

/-- Behind `k` quotes, both readers of strings agree on every word: the word has an odd number of
quotes exactly if it is taken to open a string, or to close the one that is open. -/
def ReadAlike (k : Nat) (ws : List (List Char)) : Prop :=
  ∀ i (h : i < ws.length),
    Odd (quotes ws[i]) ↔ turnsString (decide (Odd (k + ((ws.take i).map quotes).sum))) ws[i] = true

instance (k : Nat) (ws : List (List Char)) : Decidable (ReadAlike k ws) :=
  inferInstanceAs (Decidable (∀ i (h : i < ws.length), Odd (quotes ws[i]) ↔
    turnsString (decide (Odd (k + ((ws.take i).map quotes).sum))) ws[i] = true))

theorem ReadAlike.head {k : Nat} {w : List Char} {ws : List (List Char)}
    (h : ReadAlike k (w :: ws)) : Odd (quotes w) ↔ turnsString (decide (Odd k)) w = true := by
  simpa using h 0 (Nat.zero_lt_succ _)

theorem ReadAlike.tail {k : Nat} {w : List Char} {ws : List (List Char)}
    (h : ReadAlike k (w :: ws)) : ReadAlike (k + quotes w) ws := by
  intro i hi
  simpa [Nat.add_assoc] using h (i + 1) (Nat.succ_lt_succ hi)

/-- A string is open behind an odd number of quotes. -/
theorem Quoting.opened_after? : ∀ {cs : List Char} {q q' : Quoting} {k : Nat},
    q.opened = decide (Odd k) → q.after? cs = some q' →
    q'.opened = decide (Odd (k + quotesFrom q.escaped cs)) := by
  intro cs
  induction cs with
  | nil =>
      intro q q' k hq hafter
      obtain rfl := Option.some.inj hafter
      exact hq
  | cons c cs ih =>
      intro q q' k hq hafter
      obtain ⟨q₁, hnext, hrest⟩ := Option.bind_eq_some_iff.1 hafter
      have hescaped := Quoting.escaped_of_next? hnext
      have hopened : q₁.opened
          = decide (Odd (k + if c = '"' ∧ q.escaped = false then 1 else 0)) := by
        unfold Quoting.next? at hnext
        split at hnext
        · cases hnext
        · rw [← Option.some.inj hnext]
          by_cases hc : c = '"' ∧ q.escaped = false
          · rw [if_pos hc, if_pos hc, hq, ← decide_not]
            exact decide_eq_decide.2 Nat.odd_add_one.symm
          · rw [if_neg hc, if_neg hc]
            exact hq
      rw [ih hopened hrest, hescaped, quotesFrom, Nat.add_assoc]

/-- Where the readers agree on every word, words are left ungrouped exactly if a string is open
behind them. -/
theorem group_eq_none_iff : ∀ {ws : List (List Char)} {k : Nat} {pending : Option (List Char)}
    {opened : Bool}, pending.isSome = decide (Odd k) → ReadAlike k ws →
    Quoting.throughWords? ⟨decide (Odd k), false⟩ ws = some opened →
    (group pending ws = none ↔ opened = true) := by
  intro ws
  induction ws with
  | nil =>
      intro k pending opened hpending _ hthrough
      obtain rfl := Option.some.inj hthrough
      show group pending [] = none ↔ decide (Odd k) = true
      rw [← hpending]
      cases pending <;> simp [group]
  | cons w ws ih =>
      intro k pending opened hpending halike hthrough
      obtain ⟨q, hafter, hrest⟩ := Option.bind_eq_some_iff.1 hthrough
      have hopened : q.opened = decide (Odd (k + quotes w)) :=
        Quoting.opened_after? rfl hafter
      rw [hopened] at hrest
      have hhead := halike.head
      -- What the word leaves pending is there exactly if the word leaves a string open.
      have hnext : ∀ {pending' : Option (List Char)},
          pending'.isSome = decide (Odd (k + quotes w)) →
          (group pending' ws = none ↔ opened = true) :=
        fun h => ih h halike.tail hrest
      cases pending with
      | none =>
          have hk : ¬ Odd k := of_decide_eq_false hpending.symm
          rw [decide_eq_false hk] at hhead
          have hturn : Odd (k + quotes w) ↔ opensString w = true := by
            rw [Nat.odd_add, ← Nat.not_odd_iff_even, show Odd (quotes w) ↔ opensString w = true
              from hhead]
            tauto
          by_cases hw : opensString w = true
          · rw [group, if_pos hw]
            exact hnext (decide_eq_true (hturn.2 hw)).symm
          · rw [group, if_neg hw, Option.map_eq_none_iff]
            exact hnext (decide_eq_false (mt hturn.1 hw)).symm
      | some p =>
          have hk : Odd k := of_decide_eq_true hpending.symm
          rw [decide_eq_true hk] at hhead
          have hturn : Odd (k + quotes w) ↔ ¬ closesString w = true := by
            rw [Nat.odd_add, ← Nat.not_odd_iff_even, show Odd (quotes w) ↔ closesString w = true
              from hhead]
            tauto
          by_cases hw : closesString w = true
          · rw [group, if_pos hw, Option.map_eq_none_iff]
            exact hnext (decide_eq_false fun h => hturn.1 h hw).symm
          · rw [group, if_neg hw]
            exact hnext (decide_eq_true (hturn.2 hw)).symm

/-- Where the readers agree on its words, a fragment has no tokens exactly if it ends inside a
string. -/
theorem Fragment.tokens?_eq_none_iff {f : Fragment} {q : Quoting} (hread : IsRead f.text q)
    (halike : ReadAlike 0 (words f.text)) : f.tokens? = none ↔ q.opened = true := by
  have hthrough : Quoting.start.throughWords? (words f.text) = some q.opened := by
    rw [← Quoting.after?_eq_throughWords? (Or.inr rfl), hread.after]
    rfl
  have hgroup : group none (words f.text) = none ↔ q.opened = true :=
    group_eq_none_iff rfl halike hthrough
  rw [tokens?, Option.map_eq_none_iff, hgroup]

/-- Fragments are refused exactly if one of them has no tokens. -/
theorem exists_error_iff : ∀ fs : List Fragment,
    (∃ e, statements fs = .error e) ↔ ∃ f ∈ fs, f.tokens? = none := by
  intro fs
  induction fs with
  | nil => simp [statements]
  | cons f fs ih =>
      have hsplit : (∃ g ∈ f :: fs, g.tokens? = none) ↔
          f.tokens? = none ∨ ∃ e, statements fs = .error e := by
        rw [ih]
        simp
      rw [hsplit]
      simp only [statements]
      cases hf : f.tokens? with
      | none => simp
      | some ts => cases hfs : statements fs <;> simp

/-- If both readers agree on every word of a source, the source is refused for a string that is not
closed exactly if it ends inside a string; that is, if the number of double quotes outside comments
with no backslash right before them is odd. -/
theorem unterminated_iff_open (source : String)
    (h : ∀ f ∈ fragments source.toList, ReadAlike 0 (words f.text)) :
    ((∃ line text, Program.parse source = .error (.unterminatedString line text)) ↔
        (scan source.toList).mode = .quoted) ∧
      ((scan source.toList).mode = .quoted ↔ ¬ Even (liveQuotes source.toList)) := by
  refine ⟨?_, mode_eq_quoted_iff source.toList⟩
  have herror : (∃ line text, Program.parse source = .error (.unterminatedString line text)) ↔
      ∃ f ∈ fragments source.toList, f.tokens? = none := by
    rw [← exists_error_iff]
    unfold Program.parse
    cases statements (fragments source.toList) with
    | error e =>
        obtain ⟨line, text⟩ := e
        simp
    | ok ss => simp
  rw [herror]
  constructor
  · rintro ⟨f, hf, hnone⟩
    by_contra hmode
    obtain ⟨-, q, hread, hclosed⟩ := closed_of_mode_ne hmode f hf
    rw [Fragment.tokens?_eq_none_iff hread (h f hf), hclosed] at hnone
    cases hnone
  · intro hmode
    obtain ⟨fs, f, hfs, -, q, hread, hopened⟩ := open_of_mode_eq hmode
    have hf : f ∈ fragments source.toList := by
      rw [hfs]
      exact List.mem_append_right _ List.mem_cons_self
    exact ⟨f, hf, (Fragment.tokens?_eq_none_iff hread (h f hf)).2 hopened⟩

/-- Both ways: words with quotes inside are fine if these come in pairs. -/
theorem unterminated_iff_open_both_ways :
    let unclosed := "print \"a\"\"b\" x\"y\"z;\n# \"\nprint \"c \\\" d;e"
    let closed := "print \"a\"\"b\" x\"y\"z;\n# \"\nprint \"c \\\" d;e\""
    ((∀ f ∈ fragments unclosed.toList, ReadAlike 0 (words f.text)) ∧
      ∃ line text, Program.parse unclosed = .error (.unterminatedString line text)) ∧
    (∀ f ∈ fragments closed.toList, ReadAlike 0 (words f.text)) ∧
      ¬ ∃ line text, Program.parse closed = .error (.unterminatedString line text) := by
  intro unclosed closed
  have hunclosed : ∀ f ∈ fragments unclosed.toList, ReadAlike 0 (words f.text) := by decide
  have hclosed : ∀ f ∈ fragments closed.toList, ReadAlike 0 (words f.text) := by decide
  refine ⟨⟨hunclosed, ?_⟩, hclosed, ?_⟩
  · exact (unterminated_iff_open unclosed hunclosed).1.2 (by decide)
  · intro herror
    exact absurd ((unterminated_iff_open closed hclosed).1.1 herror) (by decide)

/-- A quote inside a word opens a string for the scanner only, and one that closes a string inside
a word closes it for the scanner only. -/
theorem strings_set_apart :
    ((scan "print a\"b".toList).mode = .quoted ∧
      ¬ ∃ line text, Program.parse "print a\"b" = .error (.unterminatedString line text)) ∧
    (scan "print \"a\"b".toList).mode = .code ∧
      Program.parse "print \"a\"b" = .error (.unterminatedString 1 "print \"a\"b") := by
  have hunclosed : Program.parse "print a\"b" = .ok (Program.ofStatements
      [⟨"print", ["a\"b"], "print a\"b", 1⟩]) := by rfl
  refine ⟨⟨by decide, ?_⟩, by decide, by rfl⟩
  rw [hunclosed]
  rintro ⟨line, text, h⟩
  cases h

end BareBones.Source
