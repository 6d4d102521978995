/-
What a source is cut into.

Every fragment of a source has a mark, its first mark is no `#`, and no `;` stands outside its
strings.  Its strings are closed, unless the source ends inside a string: then the last fragment
has one that is not.

This is an invariant of the scanner.  What it has taken into the fragment so far is read as
`Quoting` says, comments leave no trace there but a line break, and a fragment is only cut off
where no string is open.

The quotes that open and close strings can be counted in the source itself, and so the parity of
their number tells whether the source ends inside a string.
-/
import BareBones.Proofs.Source.Scanning
import Mathlib.Algebra.Group.Nat.Even
import Mathlib.Data.List.Induction

namespace BareBones.Source

open BareBones.Text

/-- The first character that is not blank. -/
def firstMark? (cs : List Char) : Option Char :=
  cs.find? (!isBlank ·)

theorem firstMark?_eq_none_iff {cs : List Char} :
    firstMark? cs = none ↔ ∀ c ∈ cs, isBlank c = true := by
  simp [firstMark?]

/-- A text that the scanner takes into one fragment, up to the place. -/
structure IsRead (cs : List Char) (q : Quoting) : Prop where
  after : Quoting.start.after? cs = some q
  first : firstMark? cs ≠ some '#'

/-- No string is open before the first mark. -/
theorem IsRead.firstMark?_ne_none {cs : List Char} {q : Quoting} (h : IsRead cs q)
    (hq : q.opened = true) : firstMark? cs ≠ none := by
  intro hnone
  have hwords : words cs = words [] := by
    have := words_append_of_blank (firstMark?_eq_none_iff.1 hnone) []
    rwa [List.append_nil] at this
  have hopened := Quoting.opened_eq_of_words_eq hwords
  rw [h.after] at hopened
  simp [hq, Quoting.start] at hopened

/-- A fragment with a mark whose strings are all closed. -/
def Fragment.Closed (f : Fragment) : Prop :=
  firstMark? f.text ≠ none ∧ ∃ q, IsRead f.text q ∧ q.opened = false

/-- A fragment that ends inside a string. -/
def Fragment.Open (f : Fragment) : Prop :=
  ∃ q, IsRead f.text q ∧ q.opened = true

namespace Scanner

/-- The scanner has read what it holds as `Quoting` says. -/
structure Sound (s : Scanner) : Prop where
  buffer : IsRead s.buffer.reverse s.quoting
  /-- The fragment has a line as soon as it has a mark. -/
  start : s.start = none ↔ firstMark? s.buffer.reverse = none
  done : ∀ f ∈ s.fragments, f.Closed

variable {s : Scanner} {c : Char}

theorem sound_initial : Sound {} := by
  refine ⟨⟨rfl, ?_⟩, ?_, ?_⟩
  · simp [firstMark?]
  · simp [firstMark?]
  · intro f hf
    simp at hf

theorem Sound.keep {q : Quoting} (hs : s.Sound) (hq : s.quoting.next? c = some q)
    (hhash : c = '#' → firstMark? s.buffer.reverse ≠ none) :
    Sound { s.keep c with mode := q.mode } := by
  have hbuffer : ({ s.keep c with mode := q.mode } : Scanner).buffer.reverse
      = s.buffer.reverse ++ [c] := by simp [Scanner.keep]
  have hquoting : ({ s.keep c with mode := q.mode } : Scanner).quoting = q := by
    refine quoting_eq rfl ?_
    rw [Quoting.escaped_of_next? hq]
    rfl
  have hfirst : firstMark? (s.buffer.reverse ++ [c])
      = (firstMark? s.buffer.reverse).or (if isBlank c then none else some c) := by
    unfold firstMark?
    rw [List.find?_append]
    by_cases hc : isBlank c = true <;> simp [hc]
  refine ⟨⟨?_, ?_⟩, ?_, hs.done⟩
  · rw [hbuffer, hquoting, Quoting.after?_append, hs.buffer.after]
    simp [hq]
  · rw [hbuffer, hfirst]
    have hold := hs.buffer.first
    cases hmark : firstMark? s.buffer.reverse with
    | some d =>
        rw [hmark] at hold
        exact hold
    | none =>
        have hc : c ≠ '#' := fun h => hhash h hmark
        by_cases hblank : isBlank c = true <;> simp [hblank, hc]
  · rw [hbuffer, hfirst]
    have hstart := hs.start
    show (if s.start.isNone && !isBlank c then some s.line else s.start) = none ↔ _
    cases hmark : firstMark? s.buffer.reverse with
    | some d =>
        rw [hmark] at hstart
        cases hs' : s.start with
        | none => simp [hs'] at hstart
        | some l => simp
    | none =>
        rw [hmark] at hstart
        rw [hstart.2 rfl]
        by_cases hblank : isBlank c = true <;> simp [hblank]

/-- A fragment is closed when it is cut off outside strings. -/
theorem Sound.closed_of_start (hs : s.Sound) (hopened : s.quoting.opened = false) {l : Nat}
    (hstart : s.start = some l) : Fragment.Closed ⟨s.buffer.reverse, l⟩ := by
  refine ⟨?_, s.quoting, hs.buffer, hopened⟩
  rw [Ne, ← hs.start, hstart]
  simp

theorem Sound.cut (hs : s.Sound) (hmode : s.mode = .code) : s.cut.Sound := by
  refine ⟨⟨?_, ?_⟩, ?_, ?_⟩
  · simp [Scanner.cut, quoting, hmode, Quoting.start]
  · simp [Scanner.cut, firstMark?]
  · simp [Scanner.cut, firstMark?]
  · intro f hf
    cases hstart : s.start with
    | none =>
        simp only [Scanner.cut, hstart] at hf
        exact hs.done f hf
    | some l =>
        simp only [Scanner.cut, hstart] at hf
        rcases List.mem_cons.1 hf with rfl | hf
        · exact hs.closed_of_start (by simp [quoting, hmode]) hstart
        · exact hs.done f hf

theorem Sound.comment (hs : s.Sound) (hmode : s.mode = .code) :
    Sound { s with mode := .comment } := by
  have hquoting : ({ s with mode := .comment } : Scanner).quoting = s.quoting := by
    simp [quoting, hmode]
  refine ⟨?_, hs.start, hs.done⟩
  rw [hquoting]
  exact hs.buffer

/-- A `#` that starts no comment is not the first mark of its fragment. -/
theorem firstMark?_ne_none_of_atLineStart (hline : s.atLineStart = false) :
    firstMark? s.buffer.reverse ≠ none := by
  rw [Ne, firstMark?_eq_none_iff]
  intro hblank
  have hall : s.atLineStart = true := by
    unfold atLineStart
    rw [List.all_eq_true]
    intro c hc
    exact hblank c (List.mem_reverse.2 ((List.takeWhile_sublist _).subset hc))
  rw [hall] at hline
  cases hline

/-- Reading one character keeps the scanner sound. -/
theorem Sound.step (hs : s.Sound) (c : Char) : (s.step c).Sound := by
  cases hmode : s.mode with
  | comment =>
      simp only [Scanner.step, hmode]
      by_cases hc : c = '\n'
      · rw [if_pos hc, hc]
        have hcode : Quoting.mode ⟨s.quoting.opened, false⟩ = .code := by
          simp [quoting, hmode, Quoting.mode]
        have hkept := hs.keep (s.quoting.next?_of_isBlank (c := '\n') (by decide)) (by simp)
        rw [hcode] at hkept
        exact hkept
      · rw [if_neg hc]
        exact hs
  | quoted =>
      have hopened : s.quoting.opened = true := by simp [quoting, hmode]
      have hmark := hs.buffer.firstMark?_ne_none hopened
      cases hnext : s.quoting.next? c with
      | none => simp [Quoting.next?, hopened] at hnext
      | some q =>
          rw [step_of_next? (by simp [hmode]) hnext (by simp [hmode])]
          exact hs.keep hnext fun _ => hmark
  | code =>
      cases hnext : s.quoting.next? c with
      | none =>
          have hc : c = ';' := by
            unfold Quoting.next? at hnext
            split at hnext
            · next h => exact h.1
            · cases hnext
          rw [hc, step_separator hmode]
          exact hs.cut hmode
      | some q =>
          by_cases hc : c = '#' ∧ s.atLineStart = true
          · obtain ⟨rfl, hline⟩ := hc
            have hstep : s.step '#' = { s with mode := .comment } := by
              simp [Scanner.step, hmode, hline]
            rw [hstep]
            exact hs.comment hmode
          · have hline : c = '#' → s.atLineStart = false := by
              intro h
              simpa [h] using hc
            rw [step_of_next? (by simp [hmode]) hnext (fun h _ => hline h)]
            exact hs.keep hnext fun h => firstMark?_ne_none_of_atLineStart (hline h)

theorem Sound.foldl_step : ∀ (cs : List Char) {s : Scanner}, s.Sound →
    (cs.foldl Scanner.step s).Sound := by
  intro cs
  induction cs with
  | nil => intro s hs; exact hs
  | cons c cs ih => intro s hs; exact ih (hs.step c)

end Scanner

theorem sound_scan (cs : List Char) : (scan cs).Sound :=
  Scanner.sound_initial.foldl_step cs

theorem closed_of_mode_ne {cs : List Char} (h : (scan cs).mode ≠ .quoted) :
    ∀ f ∈ fragments cs, f.Closed := by
  intro f hf
  have hs := sound_scan cs
  have hopened : (scan cs).quoting.opened = false := by simpa [Scanner.quoting] using h
  rw [fragments, List.mem_reverse] at hf
  cases hstart : (scan cs).start with
  | none =>
      simp only [Scanner.cut, hstart] at hf
      exact hs.done f hf
  | some l =>
      simp only [Scanner.cut, hstart] at hf
      rcases List.mem_cons.1 hf with rfl | hf
      · exact hs.closed_of_start hopened hstart
      · exact hs.done f hf

theorem open_of_mode_eq {cs : List Char} (h : (scan cs).mode = .quoted) :
    ∃ fs f, fragments cs = fs ++ [f] ∧ (∀ g ∈ fs, g.Closed) ∧ f.Open := by
  have hs := sound_scan cs
  have hopened : (scan cs).quoting.opened = true := by simp [Scanner.quoting, h]
  have hmark := hs.buffer.firstMark?_ne_none hopened
  cases hstart : (scan cs).start with
  | none => exact absurd (hs.start.1 hstart) hmark
  | some l =>
      refine ⟨(scan cs).fragments.reverse, ⟨(scan cs).buffer.reverse, l⟩, ?_, ?_, ?_⟩
      · simp [fragments, Scanner.cut, hstart]
      · intro g hg
        exact hs.done g (List.mem_reverse.1 hg)
      · exact ⟨(scan cs).quoting, hs.buffer, hopened⟩

/-- Only the last fragment of a source may end inside a string. -/
theorem closed_of_mem_dropLast {cs : List Char} {f : Fragment} (hf : f ∈ (fragments cs).dropLast) :
    f.Closed := by
  by_cases h : (scan cs).mode = .quoted
  · obtain ⟨fs, g, heq, hclosed, -⟩ := open_of_mode_eq h
    rw [heq, List.dropLast_concat] at hf
    exact hclosed f hf
  · exact closed_of_mode_ne h f (List.dropLast_subset _ hf)

/-- The fragments of a source have marks. -/
theorem firstMark?_ne_none_of_mem {cs : List Char} {f : Fragment} (hf : f ∈ fragments cs) :
    firstMark? f.text ≠ none := by
  by_cases h : (scan cs).mode = .quoted
  · obtain ⟨fs, g, heq, hclosed, q, hread, hq⟩ := open_of_mode_eq h
    rw [heq] at hf
    rcases List.mem_append.1 hf with hf | hf
    · exact (hclosed f hf).1
    · rw [List.mem_singleton.1 hf]
      exact hread.firstMark?_ne_none hq
  · exact (closed_of_mode_ne h f hf).1

/-! ### Counting quotes -/

/-- Is the character at the place a double quote outside comments, and does no backslash stand
right before it? -/
def isLiveQuote (cs : List Char) (i : Nat) : Bool :=
  cs[i]? == some '"' && (scan (cs.take i)).mode != .comment &&
    (cs.take i).getLast? != some '\\'

/-- The number of these double quotes. -/
def liveQuotes (cs : List Char) : Nat :=
  (List.range cs.length).countP (isLiveQuote cs)

theorem scan_concat (cs : List Char) (c : Char) : scan (cs ++ [c]) = (scan cs).step c := by
  simp [scan]

theorem liveQuotes_concat (cs : List Char) (c : Char) :
    liveQuotes (cs ++ [c]) = liveQuotes cs +
      if c = '"' ∧ (scan cs).mode ≠ .comment ∧ cs.getLast? ≠ some '\\' then 1 else 0 := by
  have hinit : (List.range cs.length).countP (isLiveQuote (cs ++ [c])) = liveQuotes cs := by
    refine List.countP_congr ?_
    intro i hi
    have hlt : i < cs.length := List.mem_range.1 hi
    simp [isLiveQuote, List.getElem?_append_left hlt,
      List.take_append_of_le_length (Nat.le_of_lt hlt)]
  have hlast : isLiveQuote (cs ++ [c]) cs.length = true ↔
      c = '"' ∧ (scan cs).mode ≠ .comment ∧ cs.getLast? ≠ some '\\' := by
    simp [isLiveQuote, and_assoc]
  rw [liveQuotes, List.length_append, List.length_singleton, List.range_succ, List.countP_append,
    hinit, List.countP_singleton]
  simp only [hlast]

/-- Outside comments the scanner remembers whether the last character was a backslash. -/
theorem escaped_scan {cs : List Char} (h : (scan cs).mode ≠ .comment) :
    (scan cs).escaped = (cs.getLast? == some '\\') := by
  induction cs using List.reverseRecOn with
  | nil => rfl
  | append_singleton cs c _ =>
      rw [scan_concat] at h ⊢
      rw [List.getLast?_concat]
      cases hmode : (scan cs).mode with
      | comment =>
          simp only [Scanner.step, hmode] at h ⊢
          by_cases hc : c = '\n'
          · rw [if_pos hc]
            rfl
          · rw [if_neg hc] at h
            exact absurd hmode h
      | quoted =>
          simp only [Scanner.step, hmode]
          split <;> rfl
      | code =>
          simp only [Scanner.step, hmode] at h ⊢
          split
          · rfl
          · split
            · next hc => rw [hc]; rfl
            · split
              · next hc => simp [hc] at h
              · rfl

namespace Scanner

variable {s : Scanner} {c : Char}

/-- A live quote opens a string or closes the one that is open. -/
theorem mode_step_quote (hmode : s.mode ≠ .comment) (hescaped : s.escaped = false) :
    (s.step '"').mode = .quoted ↔ ¬ s.mode = .quoted := by
  cases hm : s.mode with
  | comment => exact absurd hm hmode
  | quoted => simp [step, hm, hescaped]
  | code => simp [step, hm, hescaped]

/-- No other character does. -/
theorem mode_step_other (h : ¬ (c = '"' ∧ s.mode ≠ .comment ∧ s.escaped = false)) :
    (s.step c).mode = .quoted ↔ s.mode = .quoted := by
  cases hm : s.mode with
  | comment =>
      simp only [step, hm]
      by_cases hc : c = '\n' <;> simp [hc, hm]
  | quoted =>
      have hc : ¬ (c = '"' ∧ s.escaped = false) := by simpa [hm] using h
      simp [step, hm, if_neg hc, keep]
  | code =>
      have hc : ¬ (c = '"' ∧ s.escaped = false) := by simpa [hm] using h
      simp only [step, hm, if_neg hc]
      by_cases hsep : c = ';'
      · simp [hsep, cut, hm]
      · by_cases hhash : c = '#' ∧ s.atLineStart = true
        · simp [if_neg hsep, if_pos hhash]
        · simp [if_neg hsep, if_neg hhash, keep, hm]

end Scanner

/-- A source ends inside a string exactly if the number of its live quotes is odd. -/
theorem mode_eq_quoted_iff (cs : List Char) :
    (scan cs).mode = .quoted ↔ ¬ Even (liveQuotes cs) := by
  induction cs using List.reverseRecOn with
  | nil => decide
  | append_singleton cs c ih =>
      rw [scan_concat, liveQuotes_concat]
      by_cases hlive : c = '"' ∧ (scan cs).mode ≠ .comment ∧ cs.getLast? ≠ some '\\'
      · obtain ⟨rfl, hmode, hlast⟩ := hlive
        have hescaped : (scan cs).escaped = false := by
          rw [escaped_scan hmode]
          simpa using hlast
        rw [Scanner.mode_step_quote hmode hescaped, ih, if_pos ⟨rfl, hmode, hlast⟩,
          Nat.even_add_one]
      · have hother : ¬ (c = '"' ∧ (scan cs).mode ≠ .comment ∧ (scan cs).escaped = false) := by
          rintro ⟨hc, hmode, hescaped⟩
          rw [escaped_scan hmode] at hescaped
          exact hlive ⟨hc, hmode, by simpa using hescaped⟩
        rw [Scanner.mode_step_other hother, ih, if_neg hlive, Nat.add_zero]

end BareBones.Source
