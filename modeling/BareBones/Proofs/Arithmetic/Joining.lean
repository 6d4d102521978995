/-
The lexemes of texts that are put together.

Any two texts are cut into lexemes apart, if the second starts with a character that no number or
name could take, such as a sign or a blank.  There is one exception.  A text may end in a number
and the letter of a power of ten: then a sign with digits behind it goes on the number, and the
letter alone would have been a name.  `Unfinished` says that a text ends like this, and
`tokens_lex_append` that nothing else can go wrong.
-/
import BareBones.Proofs.Arithmetic.Lexing

namespace BareBones.Arithmetic

variable {p : Char → Bool} {c : Char} {cs ds m : List Char}

/-! ### The next lexeme -/

theorem takeWhile_append_breaks (h : Breaks p ds) :
    (cs ++ ds).takeWhile p = cs.takeWhile p := by
  induction cs with
  | nil =>
      cases ds with
      | nil => rfl
      | cons d ds => simp [h.head]
  | cons c cs ih => by_cases hc : p c = true <;> simp [hc, ih]

theorem dropWhile_append_breaks (h : Breaks p ds) :
    (cs ++ ds).dropWhile p = cs.dropWhile p ++ ds := by
  induction cs with
  | nil =>
      cases ds with
      | nil => rfl
      | cons d ds => simp [h.head]
  | cons c cs ih => by_cases hc : p c = true <;> simp [hc, ih]

theorem mantissa_append_breaks (h : Breaks continuesDigits ds) :
    mantissa (cs ++ ds) = mantissa cs := by
  unfold mantissa
  rw [List.span_eq_takeWhile_dropWhile, List.span_eq_takeWhile_dropWhile,
    takeWhile_append_breaks h.digit, dropWhile_append_breaks h.digit]
  cases cs.dropWhile Char.isDigit with
  | nil =>
      cases ds with
      | nil => rfl
      | cons d ds =>
          have hpoint : d ≠ '.' := by
            rintro rfl
            exact absurd h.head (by decide)
          cases cs.takeWhile Char.isDigit <;> simp [hpoint]
  | cons d rest =>
      by_cases hpoint : d = '.'
      · subst hpoint
        cases cs.takeWhile Char.isDigit <;> simp [takeWhile_append_breaks h.digit]
      · cases cs.takeWhile Char.isDigit <;> simp [hpoint]

theorem signPart_cons_append (c : Char) (cs ds : List Char) :
    signPart (c :: cs ++ ds) = ((signPart (c :: cs)).1, (signPart (c :: cs)).2 ++ ds) := by
  by_cases hplus : c = '+'
  · subst hplus
    rfl
  · by_cases hminus : c = '-'
    · subst hminus
      rfl
    · simp [signPart, hplus, hminus]

/-- The text goes on a power of ten: it starts with a sign and a digit. -/
def GoesOn (cs : List Char) : Prop :=
  ∃ s d rest, cs = s :: d :: rest ∧ (s = '+' ∨ s = '-') ∧ d.isDigit = true

/-- Without a sign and a digit behind it, the letter of a power of ten is none. -/
theorem exponentPart_letter {e : Char} (h : Breaks continuesWord ds) (hds : ¬ GoesOn ds) :
    exponentPart (e :: ds) = [] := by
  have hdigits : (signPart ds).2.takeWhile Char.isDigit = [] := by
    unfold signPart
    split
    · next rest =>
      cases rest with
      | nil => rfl
      | cons d rest =>
          have hd : d.isDigit = false := by
            by_contra hd
            exact hds ⟨'+', d, rest, rfl, Or.inl rfl, by simpa using hd⟩
          simp [hd]
    · next rest =>
      cases rest with
      | nil => rfl
      | cons d rest =>
          have hd : d.isDigit = false := by
            by_contra hd
            exact hds ⟨'-', d, rest, rfl, Or.inr rfl, by simpa using hd⟩
          simp [hd]
    · have hnone := @takeWhile_append_breaks _ [] _ h.digits.digit
      rwa [List.nil_append] at hnone
  simp only [exponentPart, hdigits]
  split <;> rfl

/-- A power of ten is found as before, unless the text was its letter alone and is gone on. -/
theorem exponentPart_append_breaks (h : Breaks continuesWord ds)
    (hcs : ∀ e, (e = 'e' ∨ e = 'E') → cs = [e] → ¬ GoesOn ds) :
    exponentPart (cs ++ ds) = exponentPart cs := by
  cases cs with
  | nil => exact exponentPart_append .none h
  | cons e cs =>
      rw [List.cons_append]
      by_cases he : (e == 'e' || e == 'E') = true
      · cases cs with
        | nil =>
            have hnil : ¬ GoesOn [] := by
              rintro ⟨s, d, rest, heq, -⟩
              cases heq
            rw [List.nil_append, exponentPart_letter h (hcs e (by simpa using he) rfl),
              exponentPart_letter breaks_nil hnil]
        | cons s cs =>
            simp only [exponentPart, he, if_true, signPart_cons_append,
              takeWhile_append_breaks h.digits.digit]
      · simp only [exponentPart, he]
        rfl

/-- The text is a number and the letter of a power of ten. -/
def IsUnfinished (cs : List Char) : Prop :=
  ∃ m e, IsMantissa m ∧ (e = 'e' ∨ e = 'E') ∧ cs = m ++ [e]

theorem numberPart_append_breaks (h : Breaks continuesWord ds)
    (hcs : IsUnfinished cs → ¬ GoesOn ds) : numberPart (cs ++ ds) = numberPart cs := by
  have hmore : mantissa (cs ++ ds) = mantissa cs := mantissa_append_breaks h.digits
  rcases mantissa_spec cs with hnone | ⟨rest, hcut, hm⟩
  · unfold numberPart
    rw [hmore, hnone]
  · generalize hmantissa : mantissa cs = m at hcut hm hmore
    subst hcut
    have hletter : ∀ e, (e = 'e' ∨ e = 'E') → rest = [e] → ¬ GoesOn ds := by
      rintro e he rfl
      exact hcs ⟨m, e, hm, he, rfl⟩
    rw [List.append_assoc] at hmore ⊢
    rw [numberPart_of_mantissa hmore hm.ne_nil, numberPart_of_mantissa hmantissa hm.ne_nil,
      exponentPart_append_breaks h hletter]

theorem front_append_breaks (h : Breaks continuesWord ds)
    (hcs : IsUnfinished (c :: cs) → ¬ GoesOn ds) : front c (cs ++ ds) = front c cs := by
  unfold front
  rw [takeWhile_append_breaks h.name, ← List.cons_append, numberPart_append_breaks h hcs]

theorem front_le (c : Char) (cs : List Char) : (front c cs).2 ≤ cs.length := by
  unfold front
  split
  · exact (List.takeWhile_prefix _).length_le
  · split
    · next d part hpart =>
      rcases numberPart_spec (c :: cs) with hnil | ⟨rest, hcut, -⟩
      · rw [hnil] at hpart
        cases hpart
      · rw [hpart] at hcut
        cases hcut
        simp
    · exact Nat.zero_le _

/-! ### Whole texts -/

/-- The lexemes end in a number without a power of ten and, right behind it and in front of the
offset where the text stops, the letter of one. -/
def EndsInLetter (stop : Nat) (ls : List Lexeme) : Prop :=
  ∃ m e start, IsMantissa m ∧ (e = 'e' ∨ e = 'E') ∧ start + m.length + 1 = stop ∧
    [⟨.number (String.ofList m), start⟩, ⟨.name (String.ofList [e]), start + m.length⟩] <:+ ls

/-- The text ends in a number and the letter of a power of ten, which a sign and a digit would go
on. -/
def Unfinished (cs : List Char) : Prop :=
  EndsInLetter cs.length (lex cs)

theorem EndsInLetter.append {stop : Nat} {ls : List Lexeme} (h : EndsInLetter stop ls)
    (ks : List Lexeme) : EndsInLetter stop (ks ++ ls) := by
  obtain ⟨m, e, start, hm, he, hstop, hsuffix⟩ := h
  exact ⟨m, e, start, hm, he, hstop, hsuffix.trans (List.suffix_append ks ls)⟩

/-- A number and the letter of a power of ten are two lexemes. -/
theorem lexFrom_unfinished (h : IsUnfinished cs) (offset : Nat) :
    EndsInLetter (offset + cs.length) (lexFrom offset 0 cs) := by
  obtain ⟨m, e, hm, he, rfl⟩ := h
  obtain ⟨c, m, rfl⟩ := List.exists_cons_of_ne_nil hm.ne_nil
  have hblank : isBlank c = false :=
    isBlank_of_continuesWord (continuesWord_of_continuesDigits hm.head)
  have hletter : Breaks continuesDigits [e] := by
    refine breaks_cons ?_
    rcases he with rfl | rfl <;> decide
  have hpart : numberPart (c :: m ++ [e]) = c :: m := by
    rw [numberPart_of_mantissa (mantissa_append hm hletter) hm.ne_nil]
    rcases he with rfl | rfl <;> simp [exponentPart, signPart]
  have hfront : front c (m ++ [e]) = (.number (String.ofList (c :: m)), m.length) := by
    unfold front
    rw [startsName_eq_false hm.head, ← List.cons_append, hpart]
    rfl
  refine ⟨c :: m, e, offset, hm, he, ?_, [], ?_⟩
  · simp [Nat.add_assoc]
  · have hname : lexFrom (offset + 1 + m.length) 0 [e] =
        [⟨.name (String.ofList [e]), offset + (c :: m).length⟩] := by
      rw [List.length_cons, Nat.add_comm m.length, ← Nat.add_assoc]
      rcases he with rfl | rfl <;> rfl
    rw [List.nil_append, List.cons_append, lexFrom_front hblank hfront, hname]

theorem lexFrom_append_breaks (hds : Breaks continuesWord ds) (cs : List Char) :
    ∀ skip offset, skip ≤ cs.length →
      (EndsInLetter (offset + cs.length) (lexFrom offset skip cs) → ¬ GoesOn ds) →
      lexFrom offset skip (cs ++ ds) =
        lexFrom offset skip cs ++ lexFrom (offset + cs.length) 0 ds := by
  induction cs with
  | nil =>
      intro skip offset hskip _
      obtain rfl : skip = 0 := Nat.le_zero.1 hskip
      rfl
  | cons c cs ih =>
      intro skip offset hskip hfinished
      have hlength : offset + (c :: cs).length = offset + 1 + cs.length := by
        rw [List.length_cons]
        omega
      rw [List.cons_append]
      cases skip with
      | succ skip =>
          rw [hlength] at hfinished ⊢
          exact ih skip (offset + 1) (Nat.le_of_succ_le_succ hskip) hfinished
      | zero =>
          have hcs : IsUnfinished (c :: cs) → ¬ GoesOn ds :=
            fun hcs => hfinished (lexFrom_unfinished hcs offset)
          rw [hlength] at hfinished ⊢
          simp only [lexFrom] at hfinished ⊢
          split
          · next hblank =>
            rw [if_pos hblank] at hfinished
            exact ih 0 (offset + 1) (Nat.zero_le _) hfinished
          · next hblank =>
            rw [if_neg hblank] at hfinished
            rw [front_append_breaks hds hcs, List.cons_append,
              ih _ (offset + 1) (front_le c cs) fun hends => hfinished (hends.append [_])]

/-- Where a text starts changes the offsets of its lexemes alone. -/
theorem lexFrom_add (cs : List Char) (k : Nat) : ∀ skip offset,
    lexFrom (k + offset) skip cs = (lexFrom offset skip cs).map fun l => ⟨l.token, k + l.offset⟩ := by
  induction cs with
  | nil =>
      intro skip offset
      cases skip <;> rfl
  | cons c cs ih =>
      intro skip offset
      cases skip with
      | succ skip => exact ih skip (offset + 1)
      | zero =>
          simp only [lexFrom]
          split
          · exact ih 0 (offset + 1)
          · rw [List.map_cons, ← ih _ (offset + 1)]
            rfl

theorem tokens_lexFrom_offset (cs : List Char) (offset : Nat) :
    tokens (lexFrom offset 0 cs) = tokens (lex cs) := by
  have hshift := lexFrom_add cs offset 0 0
  rw [Nat.add_zero] at hshift
  rw [hshift, lex]
  simp [tokens, Function.comp_def]

/-- Texts are cut into lexemes apart, if they do not meet inside a number or name. -/
theorem tokens_lex_append (hds : Breaks continuesWord ds) (hcs : Unfinished cs → ¬ GoesOn ds) :
    tokens (lex (cs ++ ds)) = tokens (lex cs) ++ tokens (lex ds) := by
  have happend := lexFrom_append_breaks hds cs 0 0 (Nat.zero_le _) (by rwa [Nat.zero_add])
  rw [lex, happend, tokens_append, tokens_lexFrom_offset ds]
  rfl

/-- What is unfinished stays so behind another text. -/
theorem Unfinished.append (h : Unfinished ds) (hds : Breaks continuesWord ds)
    (hcs : ¬ Unfinished cs) : Unfinished (cs ++ ds) := by
  have happend := lexFrom_append_breaks hds cs 0 0 (Nat.zero_le _)
    (fun hends => absurd (by rwa [Nat.zero_add] at hends) hcs)
  obtain ⟨m, e, start, hm, he, hstop, hsuffix⟩ := h
  unfold Unfinished
  rw [lex, happend]
  refine EndsInLetter.append ⟨m, e, cs.length + start, hm, he, ?_, ?_⟩ _
  · rw [List.length_append]
    omega
  · have hshift := lexFrom_add ds cs.length 0 0
    rw [Nat.add_zero] at hshift
    have hmap := hsuffix.map fun l => (⟨l.token, cs.length + l.offset⟩ : Lexeme)
    rw [lex, ← hshift] at hmap
    rw [Nat.zero_add]
    simpa [Nat.add_assoc] using hmap

/-- A text whose last lexeme is a number is finished. -/
theorem not_unfinished_of_number {text : String} {ts : List Token}
    (h : tokens (lex cs) = ts ++ [.number text]) : ¬ Unfinished cs := by
  rintro ⟨m, e, start, -, -, -, before, hsuffix⟩
  rw [← hsuffix, tokens_append] at h
  have hlast := congrArg List.getLast? h
  simp [tokens] at hlast

theorem tokens_lex_blank (hc : isBlank c = true) (cs : List Char) :
    tokens (lex (c :: cs)) = tokens (lex cs) := by
  rw [lex, lexFrom_blank hc]
  exact tokens_lexFrom_offset cs 1

theorem tokens_lex_sign {t : Token} (hc : sign? c = some t) (cs : List Char) :
    tokens (lex (c :: cs)) = t :: tokens (lex cs) := by
  have hcut := @lexFrom_front c cs [] t (isBlank_of_sign? hc) (front_of_sign? hc _) 0
  rw [List.nil_append] at hcut
  rw [lex, hcut, tokens_cons, tokens_lexFrom_offset]

end BareBones.Arithmetic
