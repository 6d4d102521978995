/-
On which lines statements start.

The scanner has four things to do with a character, and which of them it does depends on three
facts: what the character is part of, whether a backslash came before, and whether the line has a
mark yet.  So two scanners that agree on the three do the same thing, whatever else they hold, and
a property of the scanner is kept by every step as soon as the four things keep it.

Line breaks are counted wherever they stand, in strings and comments too (`line_scan`).  A fragment
gets its line when its first mark is read and keeps it when it is cut off.  So the lines of what
was read stay as they are, and what is read behind it starts below (`lines_append`).

Renumbering the lines of fragments renumbers the lines of their statements, and of the fragment
that ends inside a string if there is one (`statements_renumber`).
-/
import BareBones.Proofs.Source.Statements

namespace BareBones

open BareBones.Text

/-- The statement with another number for its line. -/
def Statement.renumber (g : Nat → Nat) (s : Statement) : Statement :=
  { s with line := g s.line }

/-- The error with another number for its line. -/
def ParseError.renumber (g : Nat → Nat) : ParseError → ParseError
  | .unterminatedString line fragment => .unterminatedString (g line) fragment

namespace Source

/-- The fragment with another number for its line. -/
def Fragment.renumber (g : Nat → Nat) (f : Fragment) : Fragment :=
  { f with line := g f.line }

/-! ### The four things that the scanner does -/

/-- What becomes of a character. -/
inductive Action where
  /-- It goes into the fragment, and what comes next is read in the mode. -/
  | keep (mode : Mode)
  /-- It ends the fragment. -/
  | cut
  /-- It starts a comment. -/
  | comment
  /-- It is part of a comment. -/
  | skip

namespace Scanner

/-- What the scanner does with the character. -/
def action (s : Scanner) (c : Char) : Action :=
  match s.mode with
  | .comment => if c = '\n' then .keep .code else .skip
  | .quoted => if c = '"' ∧ s.escaped = false then .keep .code else .keep .quoted
  | .code =>
    if c = '"' ∧ s.escaped = false then .keep .quoted
    else if c = ';' then .cut
    else if c = '#' ∧ s.atLineStart then .comment
    else .keep .code

/-- The scanner once it is done. -/
def act (s : Scanner) (c : Char) : Action → Scanner
  | .keep mode => { s.keep c with mode := mode }
  | .cut => s.cut
  | .comment => { s with mode := .comment }
  | .skip => s

variable {s s' : Scanner} {c : Char}

theorem step_eq_act (s : Scanner) (c : Char) : s.step c = s.act c (s.action c) := by
  cases hmode : s.mode with
  | comment =>
      simp only [step, action, hmode]
      split <;> rfl
  | quoted =>
      simp only [step, action, hmode]
      split <;> simp [act, keep, hmode]
  | code =>
      simp only [step, action, hmode]
      split
      · rfl
      · split
        · rfl
        · split
          · rfl
          · simp [act, keep, hmode]

/-- Scanners that agree on the three facts do the same thing. -/
theorem action_congr (hmode : s'.mode = s.mode) (hescaped : s'.escaped = s.escaped)
    (hline : s'.atLineStart = s.atLineStart) : s'.action c = s.action c := by
  unfold action
  rw [hmode, hescaped, hline]

/-- A line break always goes into the fragment. -/
theorem action_newline (s : Scanner) : ∃ mode, s.action '\n' = .keep mode := by
  unfold action
  cases s.mode with
  | comment => exact ⟨.code, by simp⟩
  | quoted => exact ⟨.quoted, by simp⟩
  | code => exact ⟨.code, by simp⟩

/-! ### Counting line breaks -/

theorem line_step (s : Scanner) (c : Char) :
    (s.step c).line = s.line + if c = '\n' then 1 else 0 := by
  by_cases hc : c = '\n'
  · obtain ⟨mode, haction⟩ := s.action_newline
    rw [step_eq_act, hc, haction]
    rfl
  · rw [step_eq_act, if_neg hc]
    cases s.action c with
    | keep mode => simp [act, keep, hc]
    | cut => rfl
    | comment => rfl
    | skip => rfl

theorem line_foldl : ∀ (cs : List Char) (s : Scanner),
    (cs.foldl step s).line = s.line + cs.count '\n' := by
  intro cs
  induction cs with
  | nil => intro s; rfl
  | cons c cs ih =>
      intro s
      rw [List.foldl_cons, ih, line_step, List.count_cons, Nat.add_assoc, Nat.add_comm (cs.count _)]
      simp

/-- The lines of the fragments, and of the one being read once it has a mark, newest first. -/
def starts (s : Scanner) : List Nat :=
  s.start.toList ++ s.fragments.map Fragment.line

theorem starts_cut (s : Scanner) : s.cut.starts = s.starts := by
  unfold starts cut
  cases s.start <;> rfl

/-- The first mark of a fragment gives it the line that the scanner is on. -/
theorem starts_keep (s : Scanner) (c : Char) (mode : Mode) :
    ({ s.keep c with mode := mode } : Scanner).starts
      = if s.start.isNone && !isBlank c then s.line :: s.starts else s.starts := by
  unfold starts keep
  cases hstart : s.start with
  | some l => simp
  | none =>
      by_cases hc : isBlank c = true
      · simp [hc]
      · simp [hc]

theorem starts_step (s : Scanner) (c : Char) :
    (s.step c).starts = s.starts ∨ (s.step c).starts = s.line :: s.starts := by
  rw [step_eq_act]
  cases s.action c with
  | keep mode =>
      have hkeep := s.starts_keep c mode
      split at hkeep
      · exact Or.inr hkeep
      · exact Or.inl hkeep
  | cut => exact Or.inl s.starts_cut
  | comment => exact Or.inl rfl
  | skip => exact Or.inl rfl

theorem starts_newline (s : Scanner) : (s.step '\n').starts = s.starts := by
  obtain ⟨mode, haction⟩ := s.action_newline
  rw [step_eq_act, haction]
  show ({ s.keep '\n' with mode := mode } : Scanner).starts = _
  rw [starts_keep, show isBlank '\n' = true by decide]
  simp

/-- What is read starts no higher than the line that the scanner is on. -/
theorem starts_foldl : ∀ (cs : List Char) (s : Scanner),
    ∃ ls, (cs.foldl step s).starts = ls ++ s.starts ∧
      ∀ l ∈ ls, s.line ≤ l ∧ l ≤ (cs.foldl step s).line := by
  intro cs
  induction cs with
  | nil => intro s; exact ⟨[], rfl, by simp⟩
  | cons c cs ih =>
      intro s
      obtain ⟨ls, hls, hbounds⟩ := ih (s.step c)
      have hline : s.line ≤ (s.step c).line := by
        rw [line_step]
        omega
      have hend : (s.step c).line ≤ (cs.foldl step (s.step c)).line := by
        rw [line_foldl]
        omega
      have hbounds' : ∀ l ∈ ls, s.line ≤ l ∧ l ≤ (cs.foldl step (s.step c)).line := by
        intro l hl
        exact ⟨Nat.le_trans hline (hbounds l hl).1, (hbounds l hl).2⟩
      rw [List.foldl_cons, hls]
      rcases s.starts_step c with hstep | hstep
      · exact ⟨ls, by rw [hstep], hbounds'⟩
      · refine ⟨ls ++ [s.line], by rw [hstep]; simp, ?_⟩
        intro l hl
        rcases List.mem_append.1 hl with hl | hl
        · exact hbounds' l hl
        · rw [List.mem_singleton.1 hl]
          exact ⟨Nat.le_refl _, Nat.le_trans hline hend⟩

end Scanner

/-- The scanner is one line below the line breaks that it has read. -/
theorem line_scan (cs : List Char) : (scan cs).line = cs.count '\n' + 1 := by
  rw [scan, Scanner.line_foldl, Nat.add_comm]

theorem map_line_fragments (cs : List Char) :
    (fragments cs).map Fragment.line = (scan cs).starts.reverse := by
  rw [← Scanner.starts_cut, fragments, List.map_reverse]
  rfl

/-- The fragments of a text start on its lines. -/
theorem line_le_of_mem {cs : List Char} {l : Nat} (h : l ∈ (fragments cs).map Fragment.line) :
    l ≤ cs.count '\n' + 1 := by
  obtain ⟨ls, hls, hbounds⟩ := Scanner.starts_foldl cs {}
  rw [map_line_fragments, List.mem_reverse, scan, hls] at h
  have hl : l ∈ ls := by simpa [Scanner.starts] using h
  rw [← line_scan]
  exact (hbounds l hl).2

/-- What stands behind a text changes no line of it and starts no higher than its end. -/
theorem lines_append (xs ys : List Char) :
    ∃ ls, (fragments (xs ++ ys)).map Fragment.line = (fragments xs).map Fragment.line ++ ls ∧
      ∀ l ∈ ls, xs.count '\n' < l := by
  obtain ⟨ls, hls, hbounds⟩ := Scanner.starts_foldl ys (scan xs)
  refine ⟨ls.reverse, ?_, ?_⟩
  · rw [map_line_fragments, map_line_fragments, scan, List.foldl_append, ← scan, hls,
      List.reverse_append]
  · intro l hl
    have hline := (hbounds l (List.mem_reverse.1 hl)).1
    rw [line_scan] at hline
    exact hline

/-- A line break at the end of a text starts nothing. -/
theorem lines_append_newline (cs : List Char) :
    (fragments (cs ++ ['\n'])).map Fragment.line = (fragments cs).map Fragment.line := by
  rw [map_line_fragments, map_line_fragments, scan_concat, Scanner.starts_newline]

/-! ### From fragments to statements -/

/-- Other numbers for the lines of fragments are other numbers for the lines of statements. -/
theorem statements_renumber (g : Nat → Nat) : ∀ fs : List Fragment,
    statements (fs.map (·.renumber g))
      = match statements fs with
        | .error e => .error (e.renumber g)
        | .ok ss => .ok (ss.map (·.renumber g)) := by
  intro fs
  induction fs with
  | nil => rfl
  | cons f fs ih =>
      have htokens : (f.renumber g).tokens? = f.tokens? := rfl
      simp only [List.map_cons, statements, htokens, ih]
      cases f.tokens? with
      | none => rfl
      | some ts =>
          cases statements fs with
          | error e => rfl
          | ok ss =>
              show Except.ok _ = Except.ok _
              cases ts with
              | nil => rfl
              | cons operation arguments => rfl

/-- Each statement stands on the line of its fragment. -/
theorem lines_of_statements {fs : List Fragment} {ss : List Statement}
    (h : statements fs = .ok ss) (hmarks : ∀ f ∈ fs, firstMark? f.text ≠ none) :
    ss.map Statement.line = fs.map Fragment.line := by
  obtain ⟨htokens, -⟩ := tokens?_of_statements h hmarks
  have hne : ∀ ts ∈ ss.map Statement.tokens, ts ≠ [] := by
    intro ts hts
    obtain ⟨s, -, rfl⟩ := List.mem_map.1 hts
    simp [Statement.tokens]
  obtain ⟨ss', hss', -, -, hlines⟩ := statements_of_tokens? htokens hne
  rw [h] at hss'
  rw [Except.ok.inj hss']
  exact hlines

end Source

end BareBones
