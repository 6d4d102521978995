/-
Strings are printed as they are written.

A string is written as a literal by putting quotes around it and a backslash before each quote in
it.  The literal is read three times: by the scanner, which must not take a `;`, a `#` or a quote
of the string for its own; by the grouping of words, which puts the words of the string together
again; and by `unquote`, which takes the quotes and the backslashes away.  Each of them has its own
way to tell a quote of the string from the one that ends it, and for all of them it is enough that
a backslash stands right before each quote and none before the last one.

A backslash of the string itself does no harm, also where a quote follows it: the backslash that
was put between the two is the one that goes.
-/
import BareBones.Proofs.Snapshots
import BareBones.Proofs.Source.Rendering
import BareBones.Session

namespace BareBones

open BareBones.Text

variable {σ : Type}

namespace Literal

/-! ### Strings as literals -/

/-- Writes a backslash before each quote. -/
def escape : List Char → List Char
  | [] => []
  | c :: cs => if c = '"' then '\\' :: '"' :: escape cs else c :: escape cs

/-- The literal for a string: quotes around it, and a backslash before each quote in it. -/
def quote (s : String) : String :=
  "\"" ++ String.ofList (escape s.toList) ++ "\""

theorem toList_quote (s : String) : (quote s).toList = '"' :: (escape s.toList ++ ['"']) := by
  simp [quote]

theorem mem_of_mem_escape {c : Char} : ∀ {cs : List Char}, c ∈ escape cs → c = '\\' ∨ c ∈ cs := by
  intro cs
  induction cs with
  | nil =>
      intro hc
      cases hc
  | cons d cs ih =>
      intro hc
      unfold escape at hc
      split at hc
      · next hd =>
        rcases List.mem_cons.1 hc with rfl | hc
        · exact Or.inl rfl
        · rcases List.mem_cons.1 hc with rfl | hc
          · exact Or.inr (hd ▸ List.mem_cons_self)
          · exact (ih hc).imp_right (List.mem_cons_of_mem d)
      · rcases List.mem_cons.1 hc with rfl | hc
        · exact Or.inr List.mem_cons_self
        · exact (ih hc).imp_right (List.mem_cons_of_mem d)

/-- What is written starts with a backslash, or as the string does where that is no quote. -/
theorem head?_escape {c : Char} {cs : List Char} (h : (escape cs).head? = some c) :
    c = '\\' ∨ (c ≠ '"' ∧ cs.head? = some c) := by
  cases cs with
  | nil => cases h
  | cons d cs =>
      by_cases hd : d = '"'
      · rw [escape, if_pos hd] at h
        exact Or.inl (Option.some.inj h).symm
      · rw [escape, if_neg hd] at h
        obtain rfl := Option.some.inj h
        exact Or.inr ⟨hd, rfl⟩

theorem getLast?_escape (cs : List Char) : (escape cs).getLast? = cs.getLast? := by
  induction cs with
  | nil => rfl
  | cons c cs ih => by_cases hc : c = '"' <;> simp [escape, hc, List.getLast?_cons, ih]

/-- No two spaces come together that stood apart. -/
theorem spaces_of_escape : ∀ {cs : List Char}, [' ', ' '] <:+: escape cs → [' ', ' '] <:+: cs := by
  intro cs
  induction cs with
  | nil => exact id
  | cons c cs ih =>
      intro h
      by_cases hc : c = '"'
      · simp only [escape, if_pos hc, List.infix_cons_iff, List.cons_prefix_cons] at h
        have hrest : [' ', ' '] <:+: escape cs := by simpa using h
        exact (ih hrest).trans (List.suffix_cons c cs).isInfix
      · simp only [escape, if_neg hc] at h
        rcases List.infix_cons_iff.1 h with hhead | hrest
        · obtain ⟨rfl, hnext⟩ := List.cons_prefix_cons.1 hhead
          have hspace : (escape cs).head? = some ' ' := by
            obtain ⟨rest, hrest⟩ := hnext
            rw [← hrest]
            rfl
          rcases head?_escape hspace with hslash | ⟨-, hspace⟩
          · cases hslash
          · obtain ⟨rest, rfl⟩ := List.head?_eq_some_iff.1 hspace
            exact ⟨[], rest, rfl⟩
        · exact (ih hrest).trans (List.suffix_cons c cs).isInfix

/-- A backslash stands right before every quote. -/
theorem escaped_escape : ∀ {cs u v : List Char}, escape cs = u ++ '"' :: v →
    u.getLast? = some '\\' := by
  intro cs
  induction cs with
  | nil =>
      intro u v h
      simp [escape] at h
  | cons c cs ih =>
      intro u v h
      by_cases hc : c = '"'
      · rw [escape, if_pos hc] at h
        match u, h with
        | [], h => cases (List.cons.inj h).1
        | [d], h => rw [← (List.cons.inj h).1]; rfl
        | d :: e :: u, h =>
            have hlast := ih (List.cons.inj (List.cons.inj h).2).2
            rw [List.getLast?_cons, List.getLast?_cons, hlast]
            rfl
      · rw [escape, if_neg hc] at h
        cases u with
        | nil => exact absurd (List.cons.inj h).1 hc
        | cons d u =>
            have hlast := ih (List.cons.inj h).2
            rw [List.getLast?_cons, hlast]
            rfl

/-- A character stays as it is, unless it is a backslash with a quote behind it. -/
theorem unescape_cons {c : Char} {cs : List Char} (h : c = '\\' → cs.head? ≠ some '"') :
    unescape (c :: cs) = c :: unescape cs := by
  rw [unescape]
  rintro rest rfl rfl
  exact h rfl rfl

theorem unescape_escape (cs : List Char) : unescape (escape cs) = cs := by
  induction cs with
  | nil => rfl
  | cons c cs ih =>
      by_cases hc : c = '"'
      · rw [escape, if_pos hc, unescape, ih, hc]
      · have hnext : (escape cs).head? ≠ some '"' := by
          intro hquote
          rcases head?_escape hquote with hslash | ⟨hne, -⟩
          · cases hslash
          · exact hne rfl
        rw [escape, if_neg hc, unescape_cons (fun _ => hnext), ih]

theorem stripQuotes_quoted (b : List Char) : stripQuotes ('"' :: (b ++ ['"'])) = b := by
  simp [stripQuotes]

/-- A string is what its literal stands for. -/
theorem unquote_quote (s : String) : unquote (quote s) = s := by
  unfold unquote
  rw [toList_quote, stripQuotes_quoted, unescape_escape, String.ofList_toList]

end Literal

/-! ### Programs of one statement -/

namespace Source

/-- The literal of a string is a token, if the only blanks of the string are spaces that stand alone
and it does not end in a backslash. -/
theorem isToken_quote {s : String} (hblank : ∀ c ∈ s.toList, isBlank c = true → c = ' ')
    (hsingle : ¬ [' ', ' '] <:+: s.toList) (hlast : s.toList.getLast? ≠ some '\\') :
    IsToken (Literal.quote s).toList := by
  rw [Literal.toList_quote]
  refine .quoted ⟨?_, ?_, ?_, ?_⟩
  · intro c hc hcblank
    rcases Literal.mem_of_mem_escape hc with rfl | hc
    · exact absurd hcblank (by decide)
    · exact hblank c hc hcblank
  · exact fun hspaces => hsingle (Literal.spaces_of_escape hspaces)
  · exact fun u v h => Literal.escaped_escape h
  · rwa [Literal.getLast?_escape]

/-- A line with a `;` behind it is one fragment. -/
theorem fragments_line {t : List Char} {q : Quoting} (ht : IsLine t q) (hq : q.opened = false) :
    fragments (t ++ [';']) = [⟨t, 1⟩] := by
  have hmode : q.mode = .code := by simp [Quoting.mode, hq]
  unfold fragments scan
  rw [List.foldl_append, Scanner.ready_initial.foldl_step ht, hmode, List.foldl_cons,
    Scanner.step_separator rfl]
  simp [Scanner.cut]

/-- A statement that is written out with a `;` behind it is read back. -/
theorem IsWritable.parse {operation : String} {arguments : List String}
    (h : IsWritable (operation :: arguments)) :
    let text := " ".intercalate (operation :: arguments)
    Program.parse (text ++ ";") = .ok (.ofStatements [⟨operation, arguments, text, 1⟩]) := by
  intro text
  obtain ⟨q, hline, hopened⟩ := h.isLine
  have htext : (text ++ ";").toList
      = unwords ((operation :: arguments).map String.toList) ++ [';'] := by
    rw [String.toList_append, toList_intercalate_space]
    rfl
  refine Program.parse_eq ?_
  have htokens : Fragment.tokens? ⟨unwords ((operation :: arguments).map String.toList), 1⟩
      = some (operation :: arguments) := h.group
  rw [htext, fragments_line hline hopened]
  simp only [statements, htokens]
  rfl

end Source

/-! ### Runs of one statement -/

namespace World

@[simp]
theorem lines_record_line (w : World σ) (text : String) :
    (w.record (.line text)).lines = w.lines ++ [text] := by
  simp [lines, record, Event.line?]

end World

namespace Machine

theorem printParts_quote (h : Host σ) (env : Environment) (s : String) (w : World σ) :
    printParts h env [Literal.quote s] w = (.ok [s], w) := by
  have hhead : (Literal.quote s).toList.head? = some '"' := by
    rw [Literal.toList_quote]
    rfl
  have heval : Literal.quote s ≠ Keyword.eval.word := by
    intro heq
    rw [heq] at hhead
    cases hhead
  simp only [printParts, if_neg heval, if_pos hhead, Literal.unquote_quote]

/-- A `print` of a literal prints the string and goes on. -/
theorem step_print_quote (h : Host σ) (run : Runner σ) {m : Machine} {st : Statement} {s : String}
    (hs : m.next? = some st) (hk : st.keyword? = some .print)
    (hargs : st.arguments = [Literal.quote s]) (w : World σ) :
    step h run m w = (.ok (.continued true), m.goto (m.pc + 1),
      m.publishAfter h m.pc st (w.record (.line s))) := by
  have hprint : Context.print h m.toContext st.arguments w
      = (.ok true, m.toContext, w.record (.line s)) := by
    simp only [Context.print, hargs, printParts_quote]
    rfl
  have hexec : execute h run (m.goto (m.pc + 1)) m.pc st w
      = (.ok true, m.goto (m.pc + 1), w.record (.line s)) := by
    simp only [execute, hk, Context.execute]
    exact congrArg (inContext (m.goto (m.pc + 1))) hprint
  exact step_of_execute hs hexec

end Machine

namespace Session

/-- A program of one `print` with a literal prints the string and ends. -/
theorem run_print_quote (h : Host σ) (n : Nat) {session : Session} {st : Statement} {s : String}
    (hp : session.program = .ofStatements [st]) (hk : st.keyword? = some .print)
    (hargs : st.arguments = [Literal.quote s]) (w : World σ) :
    ∃ w', session.run h (n + 2) w = (.ok true, w') ∧ w'.lines = w.lines ++ [s] ∧
      w'.diagnostics = w.diagnostics := by
  let m := session.machine
  have hsize : m.program.size = 1 := by
    show session.program.size = 1
    rw [hp]
    rfl
  have hnext : m.next? = some st := by
    show session.program.get? 0 = some st
    rw [hp]
    rfl
  let w₁ := m.publishAfter h 0 st ((m.publish h .initial w).record (.line s))
  have hrun : Machine.run h (n + 2) m.program.size m (m.publish h .initial w)
      = (.ok true, m.goto 1, w₁) := by
    rw [hsize]
    show Machine.runFrom h (n + 1 + 1) true 1 m _ = _
    rw [Machine.runFrom_succ, if_pos (show m.pc < 1 from Nat.zero_lt_one),
      Machine.step_print_quote h _ hnext hk hargs]
    show Machine.runFrom h (n + 1) true 1 (m.goto 1) _ = _
    rw [Machine.runFrom_succ, if_neg (show ¬ (m.goto 1).pc < 1 from Nat.lt_irrefl 1)]
    rfl
  refine ⟨m.publish h .final w₁, ?_, ?_, ?_⟩
  · simp only [run, Machine.runUntilDone]
    rw [hrun]
    rfl
  · rw [World.lines_eq_of_muted (Context.muted_publish ..),
      World.lines_eq_of_muted (Context.muted_publishAfter ..), World.lines_record_line,
      World.lines_eq_of_muted (Context.muted_publish ..)]
  · rw [Context.publish_diagnostics, Context.publishAfter_diagnostics,
      World.diagnostics_record_line, Context.publish_diagnostics]

end Session

/-- A string whose only blanks are spaces that stand alone and that does not end in a backslash can
be printed: the source that prints its literal is a program of one statement, and every run of the
program, whatever variables there are, succeeds, reports nothing and prints one line, the string
itself.  Quotes, backslashes, `;` and `#` may stand in the string anywhere, and spaces at its
ends. -/
theorem string_literal_prints_as_written (h : Host σ) (s : String)
    (hblank : ∀ c ∈ s.toList, isBlank c = true → c = ' ') (hsingle : ¬ [' ', ' '] <:+: s.toList)
    (hlast : s.toList.getLast? ≠ some '\\') :
    ∃ p, Program.parse ("print " ++ Literal.quote s ++ ";") = .ok p ∧ p.size = 1 ∧
      ∀ (globals : Environment) (w : World σ) (n : Nat), 2 ≤ n →
        ∃ w', Session.run h n ⟨p, globals⟩ w = (.ok true, w') ∧ w'.lines = w.lines ++ [s] ∧
          w'.diagnostics = w.diagnostics := by
  have hwritable : Source.IsWritable ["print", Literal.quote s] := by
    refine ⟨by simp, ?_, by simp⟩
    intro t ht
    simp only [List.mem_cons, List.not_mem_nil, or_false] at ht
    rcases ht with rfl | rfl
    · exact .bare ⟨by decide, by simp [isBlank]⟩
    · exact Source.isToken_quote hblank hsingle hlast
  let st : Statement := ⟨"print", [Literal.quote s], "print " ++ Literal.quote s, 1⟩
  have hparse : Program.parse ("print " ++ Literal.quote s ++ ";") = .ok (.ofStatements [st]) :=
    hwritable.parse
  have hk : st.keyword? = some .print := Keyword.ofWord?_word .print
  refine ⟨.ofStatements [st], hparse, rfl, ?_⟩
  intro globals w n hn
  obtain ⟨k, rfl⟩ : ∃ k, n = k + 2 := ⟨n - 2, by omega⟩
  exact Session.run_print_quote h k rfl hk rfl w

/-- A string with spaces at its ends, a quote behind a backslash, a `;`, a `#` and a quote behind a
space. -/
theorem string_literal_prints_as_written_with_quotes :
    let s := " \\\"; # \" "
    let h : Host Unit := ⟨{}, fun _ u => (.error (.unknownFunction ""), u)⟩
    (∀ c ∈ s.toList, isBlank c = true → c = ' ') ∧ ¬ [' ', ' '] <:+: s.toList ∧
      s.toList.getLast? ≠ some '\\' ∧ Literal.quote s = "\" \\\\\"; # \\\" \"" ∧
      ∃ p, Program.parse ("print " ++ Literal.quote s ++ ";") = .ok p ∧ p.size = 1 ∧
        ∃ w', Session.run h 2 ⟨p, ∅⟩ { state := () } = (.ok true, w') ∧ w'.lines = [s] ∧
          w'.diagnostics = [] := by
  intro s h
  have hlist : s.toList = [' ', '\\', '"', ';', ' ', '#', ' ', '"', ' '] := by decide
  have hblank : ∀ c ∈ s.toList, isBlank c = true → c = ' ' := by
    simp only [hlist, List.forall_mem_cons, List.not_mem_nil, false_imp_iff, implies_true, and_true]
    decide
  have hsingle : ¬ [' ', ' '] <:+: s.toList := by
    rw [hlist]
    decide
  have hlast : s.toList.getLast? ≠ some '\\' := by
    rw [hlist]
    decide
  have hquote : Literal.quote s = "\" \\\\\"; # \\\" \"" := by
    rw [← String.toList_inj, Literal.toList_quote, hlist]
    decide
  obtain ⟨p, hp, hsize, hrun⟩ := string_literal_prints_as_written h s hblank hsingle hlast
  exact ⟨hblank, hsingle, hlast, hquote, p, hp, hsize, hrun ∅ { state := () } 2 (Nat.le_refl 2)⟩

end BareBones
