/-
How the scanner reads a fragment.

What the scanner does with a character inside a fragment depends on two things: whether a string
is open, and whether the character before was a backslash.  `Quoting` holds these two, and `after?`
follows them through a text without any of the rest of the scanner.

Three facts are drawn from this.  Whether a string is open behind a text depends on the words of
the text only, since a blank neither opens nor closes a string and parts a backslash from a quote.
Texts that are written one a line, each with a `;` behind it, come out as the fragments.  And in
every fragment of a source the strings are closed, but for the last one, where they are closed if
the scanner does not end inside a string.
-/
import BareBones.Proofs.Source.Words
import BareBones.Source.Scanner

namespace BareBones.Source

open BareBones.Text

/-- A place inside a fragment: is a string open, and was the last character a backslash? -/
structure Quoting where
  opened : Bool
  escaped : Bool
  deriving DecidableEq

namespace Quoting

/-- The place where a fragment starts. -/
def start : Quoting := ⟨false, false⟩

/-- The place behind one more character.  A `;` outside a string does not belong to the fragment. -/
def next? (q : Quoting) (c : Char) : Option Quoting :=
  if c = ';' ∧ q.opened = false then none
  else some ⟨if c = '"' ∧ q.escaped = false then !q.opened else q.opened, c == '\\'⟩

/-- The place behind a text. -/
def after? (q : Quoting) : List Char → Option Quoting
  | [] => some q
  | c :: cs => (q.next? c).bind fun q => after? q cs

@[simp]
theorem after?_nil (q : Quoting) : q.after? [] = some q := rfl

@[simp]
theorem after?_cons (q : Quoting) (c : Char) (cs : List Char) :
    q.after? (c :: cs) = (q.next? c).bind fun q => q.after? cs := rfl

theorem after?_append (q : Quoting) (xs ys : List Char) :
    q.after? (xs ++ ys) = (q.after? xs).bind fun q => q.after? ys := by
  induction xs generalizing q with
  | nil => rfl
  | cons c xs ih =>
      simp only [List.cons_append, after?_cons]
      cases q.next? c with
      | none => rfl
      | some q => exact ih q

theorem next?_of_isBlank (q : Quoting) {c : Char} (hc : isBlank c = true) :
    q.next? c = some ⟨q.opened, false⟩ := by
  have hsep : c ≠ ';' := ne_of_isBlank hc (by decide)
  have hquote : c ≠ '"' := ne_of_isBlank hc (by decide)
  have hslash : c ≠ '\\' := ne_of_isBlank hc (by decide)
  simp [next?, hsep, hquote, hslash]

/-- A character that is neither a quote nor a `;` opens and closes nothing. -/
theorem next?_of_plain (q : Quoting) {c : Char} (hquote : c ≠ '"') (hsep : c ≠ ';') :
    q.next? c = some ⟨q.opened, c == '\\'⟩ := by
  simp [next?, hquote, hsep]

theorem escaped_of_next? {q q' : Quoting} {c : Char} (h : q.next? c = some q') :
    q'.escaped = (c == '\\') := by
  unfold next? at h
  split at h
  · cases h
  · rw [← Option.some.inj h]

/-! ### Only words matter -/

/-- Is a string open behind the words, each with a blank behind it? -/
def throughWords? (q : Quoting) : List (List Char) → Option Bool
  | [] => some q.opened
  | w :: ws => (q.after? w).bind fun q => throughWords? ⟨q.opened, false⟩ ws

/-- Through a text as through its words.  A backslash in front of the text counts only if the text
starts with a word. -/
theorem after?_eq_throughWords? : ∀ {cs : List Char} {q : Quoting},
    startsWord cs = true ∨ q.escaped = false →
    (q.after? cs).map opened = q.throughWords? (words cs) := by
  intro cs
  induction cs with
  | nil => intro q _; rfl
  | cons c cs ih =>
      intro q hq
      by_cases hc : isBlank c = true
      · rw [words_cons_of_isBlank hc, after?_cons, next?_of_isBlank q hc]
        have hescaped : q.escaped = false := by
          rcases hq with hq | hq
          · simp [startsWord, hc] at hq
          · exact hq
        have hself : (⟨q.opened, false⟩ : Quoting) = q := by rw [← hescaped]
        rw [hself]
        exact ih (Or.inr hescaped)
      · simp only [words, if_neg hc, after?_cons]
        by_cases hs : startsWord cs = true
        · rw [if_pos hs]
          cases hws : words cs with
          | nil => exact absurd hws (words_ne_nil_of_startsWord hs)
          | cons w ws =>
              simp only [joinFirst, throughWords?, after?_cons]
              cases hnext : q.next? c with
              | none => rfl
              | some q' =>
                  have hrest := ih (q := q') (Or.inl hs)
                  rw [hws] at hrest
                  exact hrest
        · rw [if_neg hs]
          simp only [throughWords?, after?_cons, after?_nil]
          cases hnext : q.next? c with
          | none => rfl
          | some q' =>
              -- A blank comes next or nothing, and so the character before it does not matter.
              have hforget : (q'.after? cs).map opened
                  = ((⟨q'.opened, false⟩ : Quoting).after? cs).map opened := by
                cases cs with
                | nil => rfl
                | cons b cs =>
                    have hb : isBlank b = true := by simpa [startsWord] using hs
                    simp only [after?_cons, next?_of_isBlank _ hb]
              simp only [Option.bind_some]
              rw [hforget]
              exact ih (Or.inr rfl)

/-- Texts with the same words open and close the same strings. -/
theorem opened_eq_of_words_eq {xs ys : List Char} (h : words xs = words ys) :
    (start.after? xs).map opened = (start.after? ys).map opened := by
  rw [after?_eq_throughWords? (Or.inr rfl), after?_eq_throughWords? (Or.inr rfl), h]

/-- What the scanner reads next: more of a string, or code. -/
def mode (q : Quoting) : Mode :=
  if q.opened then .quoted else .code

theorem mode_ne_comment (q : Quoting) : q.mode ≠ .comment := by
  unfold mode
  split <;> simp

end Quoting

namespace Scanner

/-- The place in the fragment that the scanner has come to. -/
def quoting (s : Scanner) : Quoting := ⟨s.mode == .quoted, s.escaped⟩

theorem mode_quoting {s : Scanner} (h : s.mode ≠ .comment) : s.quoting.mode = s.mode := by
  unfold quoting Quoting.mode
  cases hm : s.mode with
  | comment => exact absurd hm h
  | code => rfl
  | quoted => rfl

/-- A character of the fragment that starts no comment is kept. -/
theorem step_of_next? {s : Scanner} {c : Char} {q : Quoting} (hmode : s.mode ≠ .comment)
    (hq : s.quoting.next? c = some q)
    (hhash : c = '#' → s.mode = .code → s.atLineStart = false) :
    s.step c = { s.keep c with mode := q.mode } := by
  unfold quoting Quoting.next? at hq
  cases hm : s.mode with
  | comment => exact absurd hm hmode
  | quoted =>
      simp only [hm, beq_self_eq_true, Bool.true_eq_false, and_false, if_false] at hq
      obtain rfl := Option.some.inj hq
      simp only [step, hm]
      by_cases hc : c = '"' ∧ s.escaped = false
      · simp [if_pos hc, Quoting.mode]
      · simp [if_neg hc, Quoting.mode, keep, hm]
  | code =>
      have hclosed : (s.mode == Mode.quoted) = false := by rw [hm]; rfl
      rw [hclosed] at hq
      by_cases hsep : c = ';'
      · simp [hsep] at hq
      · simp only [hsep, false_and, if_false] at hq
        obtain rfl := Option.some.inj hq
        simp only [step, hm]
        by_cases hc : c = '"' ∧ s.escaped = false
        · simp [if_pos hc, Quoting.mode]
        · have hstart : ¬ (c = '#' ∧ s.atLineStart = true) := by
            rintro ⟨hc', hline⟩
            rw [hhash hc' hm] at hline
            cases hline
          simp [if_neg hc, hsep, if_neg hstart, Quoting.mode, keep, hm]

theorem quoting_eq {s : Scanner} {q : Quoting} (hmode : s.mode = q.mode)
    (hescaped : s.escaped = q.escaped) : s.quoting = q := by
  unfold quoting
  rw [hmode, hescaped]
  cases q with
  | mk opened escaped => cases opened <;> rfl

/-- A `;` outside a string ends the fragment. -/
theorem step_separator {s : Scanner} (hmode : s.mode = .code) : s.step ';' = s.cut := by
  simp [step, hmode]

/-! ### Texts written one a line -/

/-- The scanner with one more character of the line in the fragment. -/
theorem step_in_line {s : Scanner} {c : Char} {q : Quoting} (hmode : s.mode ≠ .comment)
    (hc : c ≠ '\n') (hq : s.quoting.next? c = some q)
    (hhash : c = '#' → s.atLineStart = false) :
    s.step c = { s with buffer := c :: s.buffer
                        start := if s.start.isNone && !isBlank c then some s.line else s.start
                        mode := q.mode
                        escaped := q.escaped } := by
  rw [step_of_next? hmode hq (fun h _ => hhash h), Quoting.escaped_of_next? hq]
  simp [keep, hc]

/-- Does the line still have no mark once the character stands in it? -/
theorem atLineStart_cons {s s' : Scanner} {c : Char} (hs : s'.buffer = c :: s.buffer)
    (hc : c ≠ '\n') : s'.atLineStart = (isBlank c && s.atLineStart) := by
  unfold atLineStart
  simp [hs, hc]

/-- Once the line has a mark, the rest of it goes into the fragment. -/
theorem foldl_step_rest : ∀ {cs : List Char} {s : Scanner} {q : Quoting}, s.mode ≠ .comment →
    s.atLineStart = false → s.start.isNone = false → '\n' ∉ cs → s.quoting.after? cs = some q →
    cs.foldl step s
      = { s with buffer := cs.reverse ++ s.buffer, mode := q.mode, escaped := q.escaped } := by
  intro cs
  induction cs with
  | nil =>
      intro s q hmode _ _ _ hq
      obtain rfl := Option.some.inj hq
      rw [mode_quoting hmode]
      rfl
  | cons c cs ih =>
      intro s q hmode hline hstart hplain hq
      have hc : c ≠ '\n' := fun h => hplain (h ▸ List.mem_cons_self)
      have hplain' : '\n' ∉ cs := fun h => hplain (List.mem_cons_of_mem c h)
      rw [Quoting.after?_cons] at hq
      obtain ⟨q', hnext, hrest⟩ := Option.bind_eq_some_iff.1 hq
      have hstep := step_in_line hmode hc hnext (fun _ => hline)
      rw [hstart, Bool.false_and, if_neg (by simp)] at hstep
      have hline' : (s.step c).atLineStart = false := by
        rw [atLineStart_cons (by rw [hstep]) hc, hline, Bool.and_false]
      have hquoting : (s.step c).quoting = q' := quoting_eq (by rw [hstep]) (by rw [hstep])
      have hmode' : (s.step c).mode ≠ .comment := by
        rw [hstep]
        exact q'.mode_ne_comment
      have hstart' : (s.step c).start.isNone = false := by
        rw [hstep]
        exact hstart
      rw [List.foldl_cons, ih hmode' hline' hstart' hplain' (by rw [hquoting]; exact hrest), hstep]
      simp

/-- The scanner is in front of a fragment. -/
structure Ready (s : Scanner) : Prop where
  mode : s.mode = .code
  escaped : s.escaped = false
  start : s.start = none
  blank : ∀ c ∈ s.buffer, isBlank c = true

theorem ready_initial : Ready {} :=
  ⟨rfl, rfl, rfl, by simp⟩

end Scanner

/-- A text that can stand on a line of its own: it starts with a mark that starts no comment, has
no line break and is read up to the place as one fragment. -/
structure IsLine (t : List Char) (q : Quoting) : Prop where
  head : ∃ c cs, t = c :: cs ∧ isBlank c = false ∧ c ≠ '#'
  plain : '\n' ∉ t
  after : Quoting.start.after? t = some q

/-- The texts, each with a `;` and a line break behind it. -/
def lines (ts : List (List Char)) : List Char :=
  ts.flatMap (· ++ [';', '\n'])

namespace Scanner

variable {s : Scanner} {t : List Char} {q : Quoting}

/-- The text of a line goes into one fragment. -/
theorem Ready.foldl_step (hs : s.Ready) (ht : IsLine t q) :
    t.foldl step s = { s with buffer := t.reverse ++ s.buffer
                              start := some s.line
                              mode := q.mode
                              escaped := q.escaped } := by
  obtain ⟨c, cs, rfl, hblank, hhash⟩ := ht.head
  have hplain := ht.plain
  have hc : c ≠ '\n' := fun h => hplain (h ▸ List.mem_cons_self)
  have hplain' : '\n' ∉ cs := fun h => hplain (List.mem_cons_of_mem c h)
  have hmode : s.mode ≠ .comment := by
    rw [hs.mode]
    simp
  have hready : s.quoting = Quoting.start := quoting_eq (by rw [hs.mode]; rfl) hs.escaped
  have hafter := ht.after
  rw [Quoting.after?_cons] at hafter
  obtain ⟨q', hnext, hrest⟩ := Option.bind_eq_some_iff.1 hafter
  have hstep := step_in_line hmode hc (by rw [hready]; exact hnext) (fun h => absurd h hhash)
  rw [hs.start, hblank] at hstep
  simp only [Option.isNone_none, Bool.not_false, Bool.and_self, if_true] at hstep
  have hline : (s.step c).atLineStart = false := by
    rw [atLineStart_cons (by rw [hstep]) hc, hblank, Bool.false_and]
  have hquoting : (s.step c).quoting = q' := quoting_eq (by rw [hstep]) (by rw [hstep])
  have hmode' : (s.step c).mode ≠ .comment := by
    rw [hstep]
    exact q'.mode_ne_comment
  have hstart : (s.step c).start.isNone = false := by
    rw [hstep]
    rfl
  rw [List.foldl_cons,
    foldl_step_rest hmode' hline hstart hplain' (by rw [hquoting]; exact hrest), hstep]
  simp

/-- A line whose strings are closed is a fragment, and the scanner is in front of the next one. -/
theorem Ready.foldl_line (hs : s.Ready) (ht : IsLine t q) (hq : q.opened = false) :
    (t ++ [';', '\n']).foldl step s =
      { fragments := ⟨s.buffer.reverse ++ t, s.line⟩ :: s.fragments
        buffer := ['\n']
        line := s.line + 1 } := by
  have hmode : q.mode = .code := by simp [Quoting.mode, hq]
  rw [List.foldl_append, hs.foldl_step ht, hmode, List.foldl_cons, step_separator rfl]
  simp [cut, step, keep, atLineStart, isBlank]

/-- A line whose last string is open takes the `;` and the line break for a part of it. -/
theorem Ready.foldl_open_line (hs : s.Ready) (ht : IsLine t q) (hq : q.opened = true) :
    ((t ++ [';', '\n']).foldl step s).cut.fragments
      = ⟨s.buffer.reverse ++ (t ++ [';', '\n']), s.line⟩ :: s.fragments := by
  have hmode : q.mode = .quoted := by simp [Quoting.mode, hq]
  rw [List.foldl_append, hs.foldl_step ht, hmode]
  simp [cut, step, keep]

/-- Lines whose strings are closed are the fragments, in order, each on its line. -/
theorem Ready.foldl_lines : ∀ {ts : List (List Char)} {s : Scanner}, s.Ready →
    (∀ t ∈ ts, ∃ q, IsLine t q ∧ q.opened = false) →
    ∃ fs : List Fragment, ((lines ts).foldl step s).Ready ∧
      ((lines ts).foldl step s).fragments = fs.reverse ++ s.fragments ∧
      fs.map (words ·.text) = ts.map words ∧
      fs.map Fragment.line = List.range' s.line ts.length := by
  intro ts
  induction ts with
  | nil =>
      intro s hs _
      exact ⟨[], hs, rfl, rfl, rfl⟩
  | cons t ts ih =>
      intro s hs hts
      obtain ⟨q, ht, hq⟩ := hts t List.mem_cons_self
      have hline := hs.foldl_line ht hq
      have hready : ((t ++ [';', '\n']).foldl step s).Ready := by
        rw [hline]
        exact ⟨rfl, rfl, rfl, by simp [isBlank]⟩
      obtain ⟨fs, hready', hfs, hwords, hnumbers⟩ :=
        ih hready (fun u hu => hts u (List.mem_cons_of_mem t hu))
      have hcons : lines (t :: ts) = (t ++ [';', '\n']) ++ lines ts := by simp [lines]
      have hblank : ∀ c ∈ s.buffer.reverse, isBlank c = true := by
        intro c hc
        exact hs.blank c (List.mem_reverse.1 hc)
      rw [hcons, List.foldl_append]
      refine ⟨⟨s.buffer.reverse ++ t, s.line⟩ :: fs, hready', ?_, ?_, ?_⟩
      · rw [hfs, hline]
        simp
      · rw [List.map_cons, hwords, words_append_of_blank hblank]
        rfl
      · rw [List.map_cons, hnumbers, hline]
        rfl

theorem Ready.cut_fragments (hs : s.Ready) : s.cut.fragments = s.fragments := by
  simp [cut, hs.start]

end Scanner

/-- The fragments of lines whose strings are closed are the lines, in order. -/
theorem fragments_lines {ts : List (List Char)} (h : ∀ t ∈ ts, ∃ q, IsLine t q ∧ q.opened = false) :
    (fragments (lines ts)).map (words ·.text) = ts.map words ∧
      (fragments (lines ts)).map Fragment.line = List.range' 1 ts.length := by
  obtain ⟨fs, hready, hfs, hwords, hnumbers⟩ := Scanner.ready_initial.foldl_lines h
  have heq : fragments (lines ts) = fs := by
    unfold fragments scan
    rw [hready.cut_fragments, hfs]
    simp
  rw [heq]
  exact ⟨hwords, hnumbers⟩

/-- If a string is open behind the last line, its `;` is a part of the last fragment. -/
theorem fragments_open_lines {ts : List (List Char)} {t : List Char} {q : Quoting}
    (h : ∀ t ∈ ts, ∃ q, IsLine t q ∧ q.opened = false) (ht : IsLine t q) (hq : q.opened = true) :
    ∃ fs g, fragments (lines (ts ++ [t])) = fs ++ [g] ∧
      words g.text = words (t ++ [';', '\n']) := by
  obtain ⟨fs, hready, hfs, -, -⟩ := Scanner.ready_initial.foldl_lines h
  have hsplit : lines (ts ++ [t]) = lines ts ++ (t ++ [';', '\n']) := by simp [lines]
  generalize hs : (lines ts).foldl Scanner.step {} = s at hready hfs
  have hblank : ∀ c ∈ s.buffer.reverse, isBlank c = true := by
    intro c hc
    exact hready.blank c (List.mem_reverse.1 hc)
  refine ⟨fs, ⟨s.buffer.reverse ++ (t ++ [';', '\n']), s.line⟩, ?_,
    words_append_of_blank hblank _⟩
  unfold fragments scan
  rw [hsplit, List.foldl_append, hs, hready.foldl_open_line ht hq, hfs]
  simp

end BareBones.Source
