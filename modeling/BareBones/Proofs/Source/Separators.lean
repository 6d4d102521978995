/-
Sources that are joined by a separator.

A `;` outside strings and comments ends a fragment, and behind it the scanner is where it was in
front of the first character: nothing is held back, no string is open and no backslash counts.  What
it still carries is what it has cut off already and the number of the line.  Neither of them bears
on what it does next, so the text behind the `;` is read as if it stood alone, with its lines
numbered from where the text in front of it ends.
-/
import BareBones.Proofs.Source.Lines

namespace BareBones

namespace Source

namespace Scanner

/-- The scanner of a text that stands behind another one: the fragments of the other one are
there before its own, and its lines are numbered from another start. -/
def behind (done : List Fragment) (n : Nat) (s : Scanner) : Scanner :=
  { s with fragments := s.fragments.map (·.renumber (· + n)) ++ done
           start := s.start.map (· + n)
           line := s.line + n }

variable {done : List Fragment} {n : Nat}

theorem act_behind (s : Scanner) (c : Char) (a : Action) :
    (s.behind done n).act c a = (s.act c a).behind done n := by
  cases a with
  | keep mode =>
      have hline : ((s.behind done n).keep c).line = (s.keep c).line + n := by
        show (if c = '\n' then s.line + n + 1 else s.line + n)
          = (if c = '\n' then s.line + 1 else s.line) + n
        split <;> omega
      have hstart : ((s.behind done n).keep c).start = (s.keep c).start.map (· + n) := by
        show (if (s.start.map (· + n)).isNone && !Text.isBlank c then some (s.line + n)
            else s.start.map (· + n))
          = (if s.start.isNone && !Text.isBlank c then some s.line else s.start).map (· + n)
        rw [Option.isNone_map]
        split <;> rfl
      simp only [act, behind, ← hline, ← hstart]
      rfl
  | cut =>
      simp only [act, behind, cut]
      cases s.start <;> rfl
  | comment => rfl
  | skip => rfl

theorem step_behind (s : Scanner) (c : Char) :
    (s.behind done n).step c = (s.step c).behind done n := by
  have haction : (s.behind done n).action c = s.action c := action_congr rfl rfl rfl
  rw [step_eq_act, step_eq_act, haction, act_behind]

theorem foldl_behind : ∀ (cs : List Char) (s : Scanner),
    cs.foldl step (s.behind done n) = (cs.foldl step s).behind done n := by
  intro cs
  induction cs with
  | nil => intro s; rfl
  | cons c cs ih =>
      intro s
      rw [List.foldl_cons, List.foldl_cons, step_behind, ih]

/-- Where a fragment ends, the scanner starts again. -/
theorem cut_eq_behind {s : Scanner} (hmode : s.mode = .code) (hline : s.line = n + 1) :
    s.cut = behind s.cut.fragments n {} := by
  simp [behind, cut, hmode, hline, Nat.add_comm]

end Scanner

/-- The fragments on both sides of a separator. -/
theorem fragments_separated {xs : List Char} (ys : List Char) (h : (scan xs).mode = .code) :
    fragments (xs ++ ';' :: ys)
      = fragments xs ++ (fragments ys).map (·.renumber (· + xs.count '\n')) := by
  have hscan : scan (xs ++ ';' :: ys)
      = (scan ys).behind (scan xs).cut.fragments (xs.count '\n') := by
    unfold scan
    rw [List.foldl_append, List.foldl_cons, ← scan, Scanner.step_separator h,
      Scanner.cut_eq_behind h (line_scan xs), Scanner.foldl_behind]
    rfl
  have hcut : (scan (xs ++ ';' :: ys)).cut
      = (scan ys).cut.behind (scan xs).cut.fragments (xs.count '\n') := by
    rw [hscan]
    exact Scanner.act_behind (scan ys) ';' .cut
  unfold fragments
  rw [hcut]
  simp [Scanner.behind]

/-- The reading of a text with a separator in it, from the readings of its two sides. -/
theorem parse_eq_of_separated {s₁ : String} (s₂ : String) (h : (scan s₁.toList).mode = .code) :
    Program.parse (s₁ ++ ";" ++ s₂)
      = match Program.parse s₁, Program.parse s₂ with
        | .error e, _ => .error e
        | .ok _, .error e => .error (e.renumber (· + s₁.toList.count '\n'))
        | .ok p₁, .ok p₂ => .ok (.ofStatements (p₁.statements.toList ++
            p₂.statements.toList.map (·.renumber (· + s₁.toList.count '\n')))) := by
  have htext : (s₁ ++ ";" ++ s₂).toList = s₁.toList ++ ';' :: s₂.toList := by simp
  unfold Program.parse
  rw [htext, fragments_separated s₂.toList h, statements_append_eq, statements_renumber]
  cases statements (fragments s₁.toList) with
  | error e => rfl
  | ok ss₁ => cases statements (fragments s₂.toList) <;> rfl

/-- Two sources with a `;` between them, the first of which ends outside strings and comments, are
read one after the other.  The statements of the second follow those of the first, as many lines
further down as the first has line breaks, and the first error is the one that is reported. -/
theorem parse_separated (s₁ s₂ : String) (h : (scan s₁.toList).mode = .code) :
    let n := s₁.toList.count '\n'
    let parsed := Program.parse (s₁ ++ ";" ++ s₂)
    ((∃ p, parsed = .ok p) ↔
        (∃ p₁, Program.parse s₁ = .ok p₁) ∧ ∃ p₂, Program.parse s₂ = .ok p₂) ∧
      (∀ p₁ p₂, Program.parse s₁ = .ok p₁ → Program.parse s₂ = .ok p₂ →
        parsed = .ok (.ofStatements
          (p₁.statements.toList ++ p₂.statements.toList.map (·.renumber (· + n))))) ∧
      (∀ e, Program.parse s₁ = .error e → parsed = .error e) ∧
      ∀ p₁ e, Program.parse s₁ = .ok p₁ → Program.parse s₂ = .error e →
        parsed = .error (e.renumber (· + n)) := by
  intro n parsed
  have hparsed : parsed = _ := parse_eq_of_separated s₂ h
  rw [hparsed]
  refine ⟨?_, ?_, ?_, ?_⟩
  · cases Program.parse s₁ <;> cases Program.parse s₂ <;> simp
  · intro p₁ p₂ h₁ h₂
    rw [h₁, h₂]
  · intro e h₁
    rw [h₁]
  · intro p₁ e h₁ h₂
    rw [h₁, h₂]

/-- A comment, a string over two lines with a `;` in it and a backslash at the end stand in front
of the separator.  Behind it stands a quote, which the backslash does not reach, and then a string
that is not closed. -/
theorem parse_separated_behind_backslash :
    let s₁ := "# \"\nprint \"a;\nb\" x\\"
    let s₂ := "\"q\"; \nend"
    (scan s₁.toList).mode = .code ∧
      Program.parse (s₁ ++ ";" ++ s₂) = .ok (.ofStatements
        [⟨"print", ["\"a; b\"", "x\\"], "print \"a; b\" x\\", 2⟩,
         ⟨"\"q\"", [], "\"q\"", 3⟩, ⟨"end", [], "end", 4⟩]) ∧
      Program.parse (s₁ ++ ";" ++ "\nprint \"q")
        = .error (.unterminatedString 4 "print \"q") := by
  dsimp only
  have hmode : (scan "# \"\nprint \"a;\nb\" x\\".toList).mode = .code := by decide
  have h₁ : Program.parse "# \"\nprint \"a;\nb\" x\\" = .ok (.ofStatements
      [⟨"print", ["\"a; b\"", "x\\"], "print \"a; b\" x\\", 2⟩]) := by rfl
  have h₂ : Program.parse "\"q\"; \nend" = .ok (.ofStatements
      [⟨"\"q\"", [], "\"q\"", 1⟩, ⟨"end", [], "end", 2⟩]) := by rfl
  have h₃ : Program.parse "\nprint \"q" = .error (.unterminatedString 2 "print \"q") := by rfl
  have hjoined := (parse_separated _ "\"q\"; \nend" hmode).2.1 _ _ h₁ h₂
  have hfailed := (parse_separated _ "\nprint \"q" hmode).2.2.2 _ _ h₁ h₃
  exact ⟨hmode, hjoined, hfailed⟩

end Source

end BareBones
