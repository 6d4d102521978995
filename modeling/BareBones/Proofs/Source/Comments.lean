/-
Comment lines.

A comment line can be put into a source wherever a line starts outside a string, also between two
lines of one statement.  All that it leaves behind is a line break more in the fragment, next to the
one in front of it, and a line more in the count.  From there on the scanner of the source with the
comment and the scanner of the source without it stay in step: the line break that the one has and
the other has not neither makes a word nor puts a mark on a line.

So both sources have the same statements.  The statements that start in front of the comment stay on
their lines, and those that start behind it stand one line further down.
-/
import BareBones.Proofs.Source.Lines

namespace BareBones.Source

open BareBones.Text

/-- The number of a line once another line is put in behind line `n`. -/
def shifted (n l : Nat) : Nat :=
  if l ≤ n then l else l + 1

theorem shifted_of_le {n l : Nat} (h : l ≤ n) : shifted n l = l :=
  if_pos h

theorem shifted_of_lt {n l : Nat} (h : n < l) : shifted n l = l + 1 :=
  if_neg (Nat.not_le_of_lt h)

/-! ### One line break more -/

/-- The second text has one line break more than the first, at its start or next to another line
break, or is the same.  Both are written newest character first. -/
inductive Padded : List Char → List Char → Prop
  | same (cs : List Char) : Padded cs cs
  | first : Padded [] ['\n']
  | doubled (cs : List Char) : Padded ('\n' :: cs) ('\n' :: '\n' :: cs)
  | cons (c : Char) {cs ds : List Char} (h : Padded cs ds) : Padded (c :: cs) (c :: ds)

theorem Padded.words_eq {cs ds : List Char} (h : Padded cs ds) :
    ∀ es, words (ds.reverse ++ es) = words (cs.reverse ++ es) := by
  have hnewline : isBlank '\n' = true := by decide
  induction h with
  | same cs => intro es; rfl
  | first =>
      intro es
      exact words_cons_of_isBlank hnewline es
  | doubled cs =>
      intro es
      simp only [List.reverse_cons, List.append_assoc, List.cons_append, List.nil_append]
      rw [words_append_cons_of_isBlank hnewline, words_append_cons_of_isBlank hnewline,
        words_cons_of_isBlank hnewline]
  | cons c h ih =>
      intro es
      simp only [List.reverse_cons, List.append_assoc, List.cons_append, List.nil_append]
      exact ih (c :: es)

theorem Padded.atLineStart_eq {s t : Scanner} (h : Padded s.buffer t.buffer) :
    t.atLineStart = s.atLineStart := by
  have hline : ∀ {cs ds : List Char}, Padded cs ds →
      ds.takeWhile (· != '\n') = cs.takeWhile (· != '\n') := by
    intro cs ds h
    induction h with
    | same cs => rfl
    | first => rfl
    | doubled cs => rfl
    | cons c h ih => rw [List.takeWhile_cons, List.takeWhile_cons, ih]
  unfold Scanner.atLineStart
  rw [hline h]

/-- What the statement of a fragment depends on. -/
def Fragment.outline (f : Fragment) : List (List Char) × Nat :=
  (words f.text, f.line)

theorem Fragment.tokens?_of_outline {f g : Fragment} (h : f.outline = g.outline) :
    f.tokens? = g.tokens? := by
  have hwords : words f.text = words g.text := congrArg Prod.fst h
  unfold tokens?
  rw [hwords]

/-- Fragments with the same words on the same lines have the same statements. -/
theorem statements_of_outline : ∀ {fs gs : List Fragment},
    fs.map Fragment.outline = gs.map Fragment.outline →
    (statements fs).toOption = (statements gs).toOption := by
  intro fs
  induction fs with
  | nil =>
      intro gs h
      rw [List.map_eq_nil_iff.1 h.symm]
  | cons f fs ih =>
      intro gs h
      cases gs with
      | nil => simp at h
      | cons g gs =>
          simp only [List.map_cons, List.cons.injEq] at h
          have hrest := ih h.2
          have hline : f.line = g.line := congrArg Prod.snd h.1
          simp only [statements, Fragment.tokens?_of_outline h.1, hline]
          cases g.tokens? with
          | none => rfl
          | some ts =>
              cases hfs : statements fs <;> cases hgs : statements gs <;>
                simp_all [Except.toOption]

/-! ### Two scanners in step -/

namespace Scanner

/-- The second scanner has read a comment line more than the first, behind line `n`. -/
structure InStep (n : Nat) (s t : Scanner) : Prop where
  fragments : t.fragments.map Fragment.outline
    = (s.fragments.map (·.renumber (shifted n))).map Fragment.outline
  buffer : Padded s.buffer t.buffer
  start : t.start = s.start.map (shifted n)
  line : t.line = s.line + 1
  /-- Both are behind the comment line. -/
  below : n < s.line
  mode : t.mode = s.mode
  escaped : t.escaped = s.escaped

variable {n : Nat} {s t : Scanner}

theorem InStep.act (h : InStep n s t) (c : Char) (a : Action) :
    InStep n (s.act c a) (t.act c a) := by
  cases a with
  | keep mode =>
      have hline : (t.keep c).line = (s.keep c).line + 1 := by
        show (if c = '\n' then t.line + 1 else t.line) = (if c = '\n' then s.line + 1 else s.line) + 1
        rw [h.line]
        split <;> rfl
      have hbelow : n < (s.keep c).line := by
        show n < if c = '\n' then s.line + 1 else s.line
        have := h.below
        split <;> omega
      have hstart : (t.keep c).start = (s.keep c).start.map (shifted n) := by
        show (if t.start.isNone && !isBlank c then some t.line else t.start)
          = (if s.start.isNone && !isBlank c then some s.line else s.start).map (shifted n)
        rw [h.start, Option.isNone_map, h.line]
        split
        · rw [Option.map_some, shifted_of_lt h.below]
        · rfl
      exact ⟨h.fragments, h.buffer.cons c, hstart, hline, hbelow, rfl, rfl⟩
  | cut =>
      refine ⟨?_, .same [], rfl, h.line, h.below, h.mode, rfl⟩
      show t.cut.fragments.map Fragment.outline
        = (s.cut.fragments.map (·.renumber (shifted n))).map Fragment.outline
      cases hstart : s.start with
      | none =>
          have hstart' : t.start = none := by rw [h.start, hstart]; rfl
          simp only [cut, hstart, hstart']
          exact h.fragments
      | some l =>
          have hstart' : t.start = some (shifted n l) := by rw [h.start, hstart]; rfl
          have hwords : words t.buffer.reverse = words s.buffer.reverse := by
            simpa using h.buffer.words_eq []
          simp only [cut, hstart, hstart', List.map_cons, h.fragments]
          rw [Fragment.outline, hwords]
          rfl
  | comment => exact ⟨h.fragments, h.buffer, h.start, h.line, h.below, rfl, h.escaped⟩
  | skip => exact h

theorem InStep.step (h : InStep n s t) (c : Char) : InStep n (s.step c) (t.step c) := by
  have haction : t.action c = s.action c :=
    action_congr h.mode h.escaped h.buffer.atLineStart_eq
  rw [step_eq_act, step_eq_act, haction]
  exact h.act c _

theorem InStep.foldl_step : ∀ (cs : List Char) {s t : Scanner}, InStep n s t →
    InStep n (cs.foldl Scanner.step s) (cs.foldl Scanner.step t) := by
  intro cs
  induction cs with
  | nil => intro s t h; exact h
  | cons c cs ih => intro s t h; exact ih (h.step c)

/-- The scanner is in front of a line outside strings. -/
structure AtLine (s : Scanner) : Prop where
  mode : s.mode = .code
  escaped : s.escaped = false
  buffer : s.buffer = [] ∨ ∃ cs, s.buffer = '\n' :: cs

theorem foldl_skip : ∀ {cs : List Char}, '\n' ∉ cs → ∀ {s : Scanner}, s.mode = .comment →
    cs.foldl Scanner.step s = s := by
  intro cs
  induction cs with
  | nil => intro _ s _; rfl
  | cons c cs ih =>
      intro hcs s hmode
      have hc : c ≠ '\n' := fun h => hcs (h ▸ List.mem_cons_self)
      have hstep : s.step c = s := by simp [Scanner.step, hmode, hc]
      rw [List.foldl_cons, hstep]
      exact ih (fun h => hcs (List.mem_cons_of_mem c h)) hmode

/-- A comment line leaves the line break at its end and nothing else. -/
theorem AtLine.foldl_comment (hs : s.AtLine) {cs : List Char} (hcs : '\n' ∉ cs) :
    ('#' :: (cs ++ ['\n'])).foldl Scanner.step s = { s.keep '\n' with mode := .code } := by
  have hline : s.atLineStart = true := by
    unfold atLineStart
    rcases hs.buffer with h | ⟨ds, h⟩
    · rw [h]
      rfl
    · rw [h]
      rfl
  have hhash : s.step '#' = { s with mode := .comment } := by
    simp [Scanner.step, hs.mode, hline]
  rw [List.foldl_cons, hhash, List.foldl_append, foldl_skip hcs rfl]
  rfl

/-- Behind a comment line the scanner is in step with the one that did not read it. -/
theorem AtLine.inStep (hs : s.AtLine) (hline : s.line = n + 1) (hstarts : ∀ l ∈ s.starts, l ≤ n) :
    InStep n s { s.keep '\n' with mode := .code } := by
  have hstart : s.start.map (shifted n) = s.start := by
    cases h : s.start with
    | none => rfl
    | some l =>
        have hl : l ≤ n := hstarts l (by simp [starts, h])
        rw [Option.map_some, shifted_of_le hl]
  have hfragments : s.fragments.map (·.renumber (shifted n)) = s.fragments := by
    conv_rhs => rw [← List.map_id s.fragments]
    refine List.map_congr_left ?_
    intro f hf
    have hl : f.line ≤ n :=
      hstarts f.line (List.mem_append_right _ (List.mem_map_of_mem hf))
    show Fragment.mk f.text (shifted n f.line) = f
    rw [shifted_of_le hl]
  have hbuffer : Padded s.buffer ('\n' :: s.buffer) := by
    rcases hs.buffer with h | ⟨cs, h⟩
    · rw [h]
      exact .first
    · rw [h]
      exact .doubled cs
  have hkept : (s.keep '\n').start = s.start.map (shifted n) := by
    rw [hstart]
    show (if s.start.isNone && !isBlank '\n' then some s.line else s.start) = s.start
    rw [show isBlank '\n' = true by decide]
    simp
  refine ⟨?_, hbuffer, hkept, rfl, by omega, hs.mode.symm, hs.escaped.symm⟩
  rw [hfragments]
  rfl

end Scanner

variable {a : List Char}

/-- Behind a line break, and in front of the whole text, a line starts. -/
theorem atLine_scan (ha : a = [] ∨ a.getLast? = some '\n') (hmode : (scan a).mode ≠ .quoted) :
    (scan a).AtLine := by
  rcases ha with rfl | ha
  · exact ⟨rfl, rfl, Or.inl rfl⟩
  · obtain ⟨cs, rfl⟩ := List.getLast?_eq_some_iff.1 ha
    rw [scan_concat] at hmode ⊢
    cases hcs : (scan cs).mode with
    | comment =>
        simp only [Scanner.step, hcs]
        exact ⟨rfl, rfl, Or.inr ⟨_, rfl⟩⟩
    | quoted => simp [Scanner.step, hcs, Scanner.keep] at hmode
    | code =>
        have hstep : (scan cs).step '\n' = (scan cs).keep '\n' := by simp [Scanner.step, hcs]
        rw [hstep]
        exact ⟨hcs, rfl, Or.inr ⟨_, rfl⟩⟩

/-- The statements of a text that ends with a line break start above its end. -/
theorem line_le_count (ha : a = [] ∨ a.getLast? = some '\n') {l : Nat}
    (hl : l ∈ (fragments a).map Fragment.line) : l ≤ a.count '\n' := by
  rcases ha with rfl | ha
  · simp [fragments, scan, Scanner.cut] at hl
  · obtain ⟨cs, rfl⟩ := List.getLast?_eq_some_iff.1 ha
    rw [lines_append_newline] at hl
    rw [List.count_append]
    exact line_le_of_mem hl

/-- With a comment line put in, a text has the same fragments, on the lines that they then have. -/
theorem outline_commented (ha : a = [] ∨ a.getLast? = some '\n')
    (hmode : (scan a).mode ≠ .quoted) {c : List Char} (hc : '\n' ∉ c) (b : List Char) :
    (fragments (a ++ '#' :: (c ++ ['\n']) ++ b)).map Fragment.outline
      = ((fragments (a ++ b)).map (·.renumber (shifted (a.count '\n')))).map Fragment.outline := by
  have hatLine := atLine_scan ha hmode
  have hstarts : ∀ l ∈ (scan a).starts, l ≤ a.count '\n' := by
    intro l hl
    refine line_le_count ha ?_
    rw [map_line_fragments]
    exact List.mem_reverse.2 hl
  have hinStep := (hatLine.inStep (line_scan a) hstarts).foldl_step b
  have hcut := (hinStep.act ';' .cut).fragments
  unfold fragments scan
  rw [List.foldl_append, List.foldl_append, List.foldl_append, ← scan, hatLine.foldl_comment hc,
    List.map_reverse, List.map_reverse, List.map_reverse]
  exact congrArg List.reverse hcut

/-- The statements that start in a text stand on its lines, and those behind it on later ones. -/
theorem split_statements {b : List Char} {ss : List Statement}
    (hss : statements (fragments (a ++ b)) = .ok ss) (ha : a = [] ∨ a.getLast? = some '\n') :
    ∃ ss₁ ss₂, ss = ss₁ ++ ss₂ ∧ ss₁.length = (fragments a).length ∧
      (∀ s ∈ ss₁, s.line ≤ a.count '\n') ∧ ∀ s ∈ ss₂, a.count '\n' < s.line := by
  obtain ⟨ls, hls, hbelow⟩ := lines_append a b
  have hlines := lines_of_statements hss fun f hf => firstMark?_ne_none_of_mem hf
  rw [hls] at hlines
  obtain ⟨ss₁, ss₂, rfl, h₁, h₂⟩ := List.map_eq_append_iff.1 hlines
  refine ⟨ss₁, ss₂, rfl, ?_, ?_, ?_⟩
  · simpa using congrArg List.length h₁
  · intro s hs
    refine line_le_count ha ?_
    rw [← h₁]
    exact List.mem_map_of_mem hs
  · intro s hs
    refine hbelow s.line ?_
    rw [← h₂]
    exact List.mem_map_of_mem hs

/-- A line put in between two runs of statements moves those below it only. -/
theorem map_renumber_shifted {n : Nat} {ss₁ ss₂ : List Statement} (habove : ∀ s ∈ ss₁, s.line ≤ n)
    (hbelow : ∀ s ∈ ss₂, n < s.line) :
    (ss₁ ++ ss₂).map (·.renumber (shifted n)) = ss₁ ++ ss₂.map (·.renumber (· + 1)) := by
  have h₁ : ss₁.map (·.renumber (shifted n)) = ss₁ := by
    conv_rhs => rw [← List.map_id ss₁]
    refine List.map_congr_left ?_
    intro s hs
    show { s with line := shifted n s.line } = s
    rw [shifted_of_le (habove s hs)]
  have h₂ : ss₂.map (·.renumber (shifted n)) = ss₂.map (·.renumber (· + 1)) := by
    refine List.map_congr_left ?_
    intro s hs
    show { s with line := shifted n s.line } = { s with line := s.line + 1 }
    rw [shifted_of_lt (hbelow s hs)]
  rw [List.map_append, h₁, h₂]

/-- With a comment line put in, a source is read as the same program on other lines, or as none if
it was none. -/
theorem toOption_parse_commented {a b c : String}
    (ha : a.toList = [] ∨ a.toList.getLast? = some '\n') (hmode : (scan a.toList).mode ≠ .quoted)
    (hc : '\n' ∉ c.toList) :
    (Program.parse (a ++ "#" ++ c ++ "\n" ++ b)).toOption
      = (Program.parse (a ++ b)).toOption.map fun p => .ofStatements
          (p.statements.toList.map (·.renumber (shifted (a.toList.count '\n')))) := by
  have htext : (a ++ "#" ++ c ++ "\n" ++ b).toList
      = a.toList ++ '#' :: (c.toList ++ ['\n']) ++ b.toList := by simp
  have hoption : ∀ source : String, (Program.parse source).toOption
      = (statements (fragments source.toList)).toOption.map Program.ofStatements := by
    intro source
    unfold Program.parse
    cases statements (fragments source.toList) <;> rfl
  rw [hoption, hoption, htext, String.toList_append,
    statements_of_outline (outline_commented ha hmode hc b.toList), statements_renumber]
  cases statements (fragments (a.toList ++ b.toList)) <;> rfl

/-- A comment line between two texts, the first of which ends with a line break outside strings or
is empty, changes nothing but lines.  The statements that start in the first text are as many as
its fragments and stay where they are, and the others stand one line further down. -/
theorem parse_comment_line (a b c : String) (ha : a = "" ∨ a.toList.getLast? = some '\n')
    (hmode : (scan a.toList).mode ≠ .quoted) (hc : '\n' ∉ c.toList) :
    let n := a.toList.count '\n'
    let plain := Program.parse (a ++ b)
    let commented := Program.parse (a ++ "#" ++ c ++ "\n" ++ b)
    ((∃ q, commented = .ok q) ↔ ∃ p, plain = .ok p) ∧
      ∀ p, plain = .ok p → ∃ ss₁ ss₂, p.statements.toList = ss₁ ++ ss₂ ∧
        ss₁.length = (fragments a.toList).length ∧
        (∀ s ∈ ss₁, s.line ≤ n) ∧ (∀ s ∈ ss₂, n < s.line) ∧
        commented = .ok (.ofStatements (ss₁ ++ ss₂.map (·.renumber (· + 1)))) := by
  intro n plain commented
  have ha' : a.toList = [] ∨ a.toList.getLast? = some '\n' := by
    rcases ha with rfl | ha
    · exact Or.inl rfl
    · exact Or.inr ha
  have hparsed : commented.toOption = plain.toOption.map _ := toOption_parse_commented ha' hmode hc
  refine ⟨?_, ?_⟩
  · cases hplain : plain <;> cases hcommented : commented <;>
      simp_all [Except.toOption]
  · intro p hp
    obtain ⟨ss, hss, rfl⟩ := parse_eq_ok hp
    rw [String.toList_append] at hss
    obtain ⟨ss₁, ss₂, rfl, hlength, habove, hbelow⟩ := split_statements hss ha'
    refine ⟨ss₁, ss₂, rfl, hlength, habove, hbelow, ?_⟩
    rw [hp] at hparsed
    have hok : commented.toOption
        = some (.ofStatements ((ss₁ ++ ss₂).map (·.renumber (shifted n)))) := hparsed
    rw [map_renumber_shifted habove hbelow] at hok
    cases hcommented : commented with
    | error e =>
        rw [hcommented] at hok
        cases hok
    | ok q =>
        rw [hcommented] at hok
        exact congrArg Except.ok (Option.some.inj hok)

/-- A comment full of quotes, separators and backslashes in the middle of a statement, behind a line
that ends with a backslash. -/
theorem parse_comment_line_inside_statement :
    let a := "incr x;print \\\n"
    let b := "\"p\"; end"
    let c := " \";#\\"
    a.toList.getLast? = some '\n' ∧ (scan a.toList).mode ≠ .quoted ∧ '\n' ∉ c.toList ∧
      Program.parse (a ++ b) = .ok (.ofStatements [⟨"incr", ["x"], "incr x", 1⟩,
        ⟨"print", ["\\", "\"p\""], "print \\ \"p\"", 1⟩, ⟨"end", [], "end", 2⟩]) ∧
      Program.parse (a ++ "#" ++ c ++ "\n" ++ b) = .ok (.ofStatements
        [⟨"incr", ["x"], "incr x", 1⟩, ⟨"print", ["\\", "\"p\""], "print \\ \"p\"", 1⟩,
          ⟨"end", [], "end", 3⟩]) := by
  dsimp only
  have ha : "incr x;print \\\n".toList.getLast? = some '\n' := by decide
  have hmode : (scan "incr x;print \\\n".toList).mode ≠ .quoted := by decide
  have hc : '\n' ∉ " \";#\\".toList := by decide
  have hplain : Program.parse ("incr x;print \\\n" ++ "\"p\"; end") = .ok (.ofStatements
      [⟨"incr", ["x"], "incr x", 1⟩, ⟨"print", ["\\", "\"p\""], "print \\ \"p\"", 1⟩,
        ⟨"end", [], "end", 2⟩]) := by rfl
  obtain ⟨ss₁, ss₂, hss, hlength, -, -, hcommented⟩ :=
    (parse_comment_line _ "\"p\"; end" _ (Or.inr ha) hmode hc).2 _ hplain
  -- Two statements start in front of the comment.
  have htwo : (fragments "incr x;print \\\n".toList).length = 2 := by decide
  rw [htwo] at hlength
  obtain ⟨rfl, rfl⟩ := List.append_inj (show [_, _] ++ [_] = ss₁ ++ ss₂ from hss)
    (by rw [hlength]; rfl)
  exact ⟨ha, hmode, hc, hplain, hcommented⟩

end BareBones.Source
