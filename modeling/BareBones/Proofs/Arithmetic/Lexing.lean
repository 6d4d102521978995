/-
The longest lexemes are the only ones.

The lexer takes the longest lexeme at each place.  The grammar does not ask for that: there a text
may be cut in any way.  But a number or a name can only be cut short if another one follows at
once, and in a sentence none does.  So each cut that makes a sentence is the cut of the lexer.

Every number that the lexer finds can be read as a decimal.
-/
import BareBones.Decimal.Basic
import BareBones.Proofs.Arithmetic.Climbing
import Mathlib.Data.List.TakeDrop
import Mathlib.Data.List.TakeWhile

namespace BareBones.Arithmetic

/-! ### Taking characters while they fit -/

/-- The first of the characters, if there is one, does not fit. -/
def Breaks (p : Char → Bool) (cs : List Char) : Prop :=
  ∀ c ∈ cs.head?, p c = false

variable {p q : Char → Bool} {c : Char} {cs ds es l m x : List Char}

theorem breaks_nil : Breaks p [] := by
  intro c hc
  cases hc

theorem breaks_cons (h : p c = false) : Breaks p (c :: cs) := by
  intro d hd
  cases hd
  exact h

theorem Breaks.head (h : Breaks p (c :: cs)) : p c = false :=
  h c rfl

theorem eq_false_of_imp {a b : Bool} (h : a = true → b = true) (hb : b = false) : a = false := by
  by_contra ha
  rw [h (by simpa using ha)] at hb
  cases hb

theorem Breaks.mono (h : Breaks p cs) (hq : ∀ c, q c = true → p c = true) : Breaks q cs := by
  intro c hc
  exact eq_false_of_imp (hq c) (h c hc)

theorem takeWhile_append_of_breaks (hds : ∀ d ∈ ds, p d = true) (h : Breaks p cs) :
    (ds ++ cs).takeWhile p = ds := by
  rw [List.takeWhile_append_of_pos hds]
  cases cs with
  | nil => simp
  | cons c cs => simp [h.head]

theorem span_append_of_breaks (hds : ∀ d ∈ ds, p d = true) (h : Breaks p cs) :
    (ds ++ cs).span p = (ds, cs) := by
  have hdrop : (ds ++ cs).dropWhile p = cs := by
    rw [List.dropWhile_append_of_pos hds]
    cases cs with
    | nil => rfl
    | cons c cs => simp [h.head]
  rw [List.span_eq_takeWhile_dropWhile, takeWhile_append_of_breaks hds h, hdrop]

theorem digits_takeWhile (cs : List Char) : Digits (cs.takeWhile Char.isDigit) := by
  intro c hc
  exact List.mem_takeWhile_imp hc

/-! ### Numbers -/

/-- Can the character go on the digits of a number? -/
def continuesDigits (c : Char) : Bool :=
  c.isDigit || c == '.'

/-- Can the character go on a number or a name? -/
def continuesWord (c : Char) : Bool :=
  continuesName c || c == '.'

theorem Breaks.digit (h : Breaks continuesDigits cs) : Breaks Char.isDigit cs :=
  h.mono fun c hc => by simp [continuesDigits, hc]

theorem continuesWord_of_continuesDigits (h : continuesDigits c = true) :
    continuesWord c = true := by
  simp only [continuesDigits, Bool.or_eq_true] at h
  rcases h with h | h
  · simp [continuesWord, continuesName, Char.isAlphanum, h]
  · simp [continuesWord, h]

theorem Breaks.digits (h : Breaks continuesWord cs) : Breaks continuesDigits cs :=
  h.mono fun _ => continuesWord_of_continuesDigits

theorem Breaks.name (h : Breaks continuesWord cs) : Breaks continuesName cs :=
  h.mono fun c hc => by simp [continuesWord, hc]

theorem mantissa_append (hm : IsMantissa m) (h : Breaks continuesDigits cs) :
    mantissa (m ++ cs) = m := by
  unfold mantissa
  cases hm with
  | whole hne hds =>
      rw [span_append_of_breaks hds h.digit]
      obtain ⟨d, ds, rfl⟩ := List.exists_cons_of_ne_nil hne
      cases cs with
      | nil => rfl
      | cons c cs =>
          have hpoint : c ≠ '.' := by
            rintro rfl
            exact absurd h.head (by decide)
          simp [hpoint]
  | @pointed ds es hne hds hes =>
      have hpoint : Breaks Char.isDigit ('.' :: es ++ cs) := breaks_cons (by decide)
      rw [List.append_assoc, span_append_of_breaks hds hpoint]
      obtain ⟨d, ds, rfl⟩ := List.exists_cons_of_ne_nil hne
      simp only [List.cons_append]
      rw [takeWhile_append_of_breaks hes h.digit]
  | @part es hne hes =>
      have hpoint : ('.' :: (es ++ cs)).span Char.isDigit = ([], '.' :: (es ++ cs)) := by
        rw [List.span_eq_takeWhile_dropWhile]
        rfl
      rw [List.cons_append, hpoint]
      simp only [takeWhile_append_of_breaks hes h.digit]

theorem mantissa_spec (cs : List Char) :
    mantissa cs = [] ∨ ∃ rest, cs = mantissa cs ++ rest ∧ IsMantissa (mantissa cs) := by
  have hwhole := digits_takeWhile cs
  have hcut : cs.takeWhile Char.isDigit ++ cs.dropWhile Char.isDigit = cs :=
    List.takeWhile_append_dropWhile
  unfold mantissa
  rw [List.span_eq_takeWhile_dropWhile]
  dsimp only
  generalize cs.takeWhile Char.isDigit = whole at hwhole hcut
  generalize cs.dropWhile Char.isDigit = behind at hcut
  subst hcut
  split
  · next rest =>
    have hpart := digits_takeWhile rest
    split
    · exact Or.inl rfl
    · next part hne =>
      refine Or.inr ⟨rest.dropWhile Char.isDigit, ?_, IsMantissa.part hne hpart⟩
      simp
  · exact Or.inl rfl
  · next whole rest hne =>
    refine Or.inr ⟨rest.dropWhile Char.isDigit, ?_, ?_⟩
    · simp
    · exact IsMantissa.pointed hne hwhole (digits_takeWhile rest)
  · next hne _ _ =>
    exact Or.inr ⟨behind, rfl, IsMantissa.whole hne hwhole⟩

theorem ne_sign_of_isDigit (h : c.isDigit = true) : c ≠ '+' ∧ c ≠ '-' := by
  constructor
  · rintro rfl
    exact absurd h (by decide)
  · rintro rfl
    exact absurd h (by decide)

theorem signPart_append {sign : List Char} (hsign : IsSign sign) (hne : ds ≠ [])
    (hds : Digits ds) (cs : List Char) : signPart (sign ++ (ds ++ cs)) = (sign, ds ++ cs) := by
  cases hsign with
  | none =>
      obtain ⟨d, ds, rfl⟩ := List.exists_cons_of_ne_nil hne
      obtain ⟨hplus, hminus⟩ := ne_sign_of_isDigit (hds d List.mem_cons_self)
      simp [signPart, hplus, hminus]
  | plus => rfl
  | minus => rfl

theorem signPart_spec (cs : List Char) :
    IsSign (signPart cs).1 ∧ cs = (signPart cs).1 ++ (signPart cs).2 := by
  unfold signPart
  split
  · exact ⟨IsSign.plus, rfl⟩
  · exact ⟨IsSign.minus, rfl⟩
  · exact ⟨IsSign.none, rfl⟩

theorem exponentPart_append (hx : IsExponent x) (h : Breaks continuesWord cs) :
    exponentPart (x ++ cs) = x := by
  cases hx with
  | none =>
      cases cs with
      | nil => rfl
      | cons c cs =>
          have hlower : c ≠ 'e' := by
            rintro rfl
            exact absurd h.head (by decide)
          have hupper : c ≠ 'E' := by
            rintro rfl
            exact absurd h.head (by decide)
          simp [exponentPart, hlower, hupper]
  | @power e sign ds he hsign hne hds =>
      have he' : (e == 'e' || e == 'E') = true := by
        rcases he with rfl | rfl <;> rfl
      have htake := takeWhile_append_of_breaks hds h.digits.digit
      rw [List.cons_append, List.append_assoc]
      simp only [exponentPart, he', if_true, signPart_append hsign hne hds, htake]

theorem exponentPart_spec (cs : List Char) :
    ∃ rest, cs = exponentPart cs ++ rest ∧ IsExponent (exponentPart cs) := by
  cases cs with
  | nil => exact ⟨[], rfl, IsExponent.none⟩
  | cons e cs =>
      obtain ⟨hsign, hcut⟩ := signPart_spec cs
      simp only [exponentPart]
      split
      · next he =>
        have he' : e = 'e' ∨ e = 'E' := by simpa using he
        split
        · exact ⟨e :: cs, rfl, IsExponent.none⟩
        · next hne =>
          refine ⟨(signPart cs).2.dropWhile Char.isDigit, ?_, ?_⟩
          · rw [List.cons_append, List.append_assoc, List.takeWhile_append_dropWhile, ← hcut]
          · exact IsExponent.power he' hsign hne (digits_takeWhile _)
      · exact ⟨e :: cs, rfl, IsExponent.none⟩

theorem IsMantissa.ne_nil (h : IsMantissa m) : m ≠ [] := by
  cases h with
  | whole hne hds => exact hne
  | pointed hne hds hes => simp
  | part hne hes => simp

theorem IsNumber.ne_nil (h : IsNumber l) : l ≠ [] := by
  cases h with
  | mk hm hx => simp [hm.ne_nil]

theorem IsExponent.breaks (hx : IsExponent x) (h : Breaks continuesWord cs) :
    Breaks continuesDigits (x ++ cs) := by
  cases hx with
  | none => exact h.digits
  | power he hsign hne hds =>
      refine breaks_cons ?_
      rcases he with rfl | rfl <;> decide

theorem numberPart_of_mantissa (hm : mantissa (m ++ cs) = m) (hne : m ≠ []) :
    numberPart (m ++ cs) = m ++ exponentPart cs := by
  obtain ⟨d, ds, rfl⟩ := List.exists_cons_of_ne_nil hne
  unfold numberPart
  rw [hm]
  simp only [List.drop_left]

theorem numberPart_append (hl : IsNumber l) (h : Breaks continuesWord cs) :
    numberPart (l ++ cs) = l := by
  cases hl with
  | @mk m x hm hx =>
      have hmantissa := mantissa_append hm (hx.breaks h)
      rw [List.append_assoc, numberPart_of_mantissa hmantissa hm.ne_nil, exponentPart_append hx h]

theorem numberPart_spec (cs : List Char) :
    numberPart cs = [] ∨ ∃ rest, cs = numberPart cs ++ rest ∧ IsNumber (numberPart cs) := by
  rcases mantissa_spec cs with hnone | ⟨behind, hcut, hm⟩
  · left
    unfold numberPart
    rw [hnone]
  · right
    obtain ⟨rest, hrest, hx⟩ := exponentPart_spec behind
    have hpart : numberPart cs = mantissa cs ++ exponentPart behind := by
      generalize hmantissa : mantissa cs = m at hcut hm
      subst hcut
      exact numberPart_of_mantissa hmantissa hm.ne_nil
    refine ⟨rest, ?_, ?_⟩
    · rw [hpart, List.append_assoc, ← hrest]
      exact hcut
    · rw [hpart]
      exact IsNumber.mk hm hx

/-! ### One lexeme -/

variable {t : Token} {ts : List Token}

theorem IsMantissa.head (h : IsMantissa (c :: m)) : continuesDigits c = true := by
  generalize hl : c :: m = l at h
  cases h with
  | whole hne hds =>
      subst hl
      simp [continuesDigits, hds c List.mem_cons_self]
  | @pointed ds es hne hds hes =>
      obtain ⟨d, ds, rfl⟩ := List.exists_cons_of_ne_nil hne
      cases hl
      simp [continuesDigits, hds c List.mem_cons_self]
  | part hne hes =>
      cases hl
      rfl

theorem IsNumber.head (h : IsNumber (c :: l)) : continuesDigits c = true := by
  generalize hcs : c :: l = cs at h
  cases h with
  | @mk m x hm hx =>
      obtain ⟨d, ds, rfl⟩ := List.exists_cons_of_ne_nil hm.ne_nil
      cases hcs
      exact hm.head

theorem startsName_eq_false (h : continuesDigits c = true) : startsName c = false := by
  simp only [continuesDigits, Bool.or_eq_true, beq_iff_eq] at h
  rcases h with h | rfl
  · have hletter : c.isAlpha = false := by
      delta Char.isDigit at h
      delta Char.isAlpha Char.isUpper Char.isLower
      grind
    have hline : c ≠ '_' := by
      rintro rfl
      exact absurd h (by decide)
    simp [startsName, hletter, hline]
  · decide

theorem continuesWord_of_startsName (h : startsName c = true) : continuesWord c = true := by
  simp only [startsName, Bool.or_eq_true] at h
  rcases h with h | h
  · simp [continuesWord, continuesName, Char.isAlphanum, h]
  · simp [continuesWord, continuesName, h]

theorem continuesWord_of_sign? (h : sign? c = some t) : continuesWord c = false := by
  unfold sign? at h
  split at h
  case h_13 => cases h
  all_goals decide

theorem writes_of_sign? (h : sign? c = some t) : Writes [c] t := by
  unfold sign? at h
  split at h <;> cases h <;> constructor

theorem Writes.sign (h : Writes l t) (ht : t.isWord = false) :
    ∃ c, l = [c] ∧ sign? c = some t := by
  cases h with
  | number h => cases ht
  | name h => cases ht
  | _ => exact ⟨_, rfl, rfl⟩

theorem numberPart_eq_nil (h : continuesDigits c = false) : numberPart (c :: cs) = [] := by
  rcases numberPart_spec (c :: cs) with hnil | ⟨rest, hcut, hnumber⟩
  · exact hnil
  · cases hpart : numberPart (c :: cs) with
    | nil => rfl
    | cons d ds =>
        rw [hpart] at hcut hnumber
        cases hcut
        rw [hnumber.head] at h
        cases h

theorem front_of_sign? (h : sign? c = some t) (cs : List Char) : front c cs = (t, 0) := by
  have hword := continuesWord_of_sign? h
  have hname : startsName c = false := eq_false_of_imp continuesWord_of_startsName hword
  have hdigits : continuesDigits c = false :=
    eq_false_of_imp continuesWord_of_continuesDigits hword
  unfold front
  rw [hname, numberPart_eq_nil hdigits, h]
  rfl

/-- A lexeme is found whole, if no character behind it could go on a number or name. -/
theorem front_append (hl : Writes (c :: l) t)
    (h : t.isWord = true → Breaks continuesWord cs) : front c (l ++ cs) = (t, l.length) := by
  by_cases hw : t.isWord = true
  · unfold front
    cases hl with
    | number hl =>
        rw [startsName_eq_false hl.head, ← List.cons_append, numberPart_append hl (h hw)]
        rfl
    | name hl =>
        cases hl with
        | mk hc hcs =>
            rw [hc, takeWhile_append_of_breaks hcs (h hw).name]
            rfl
    | _ => cases hw
  · obtain ⟨d, heq, hsign⟩ := hl.sign (by simpa using hw)
    cases heq
    exact front_of_sign? hsign cs

/-- What is found at the start of a text is written there, or no lexeme starts so. -/
theorem front_spec (c : Char) (cs : List Char) :
    (front c cs).1 = .stray c ∨
      ∃ l rest, cs = l ++ rest ∧ (front c cs).2 = l.length ∧ Writes (c :: l) (front c cs).1 := by
  by_cases hname : startsName c = true
  · right
    have hfront : front c cs = (.name (String.ofList (c :: cs.takeWhile continuesName)),
        (cs.takeWhile continuesName).length) := by
      simp [front, hname]
    rw [hfront]
    refine ⟨_, cs.dropWhile continuesName, List.takeWhile_append_dropWhile.symm, rfl, ?_⟩
    exact Writes.name (IsName.mk hname fun d hd => List.mem_takeWhile_imp hd)
  · cases hpart : numberPart (c :: cs) with
    | nil =>
        have hfront : front c cs = ((sign? c).getD (.stray c), 0) := by
          simp [front, hname, hpart]
        rw [hfront]
        cases hsign : sign? c with
        | none => exact Or.inl rfl
        | some t => exact Or.inr ⟨[], cs, rfl, rfl, writes_of_sign? hsign⟩
    | cons d ds =>
        have hfront : front c cs = (.number (String.ofList (d :: ds)), ds.length) := by
          simp [front, hname, hpart]
        rcases numberPart_spec (c :: cs) with hnil | ⟨rest, hcut, hnumber⟩
        · rw [hnil] at hpart
          cases hpart
        · rw [hpart] at hcut hnumber
          cases hcut
          rw [hfront]
          exact Or.inr ⟨ds, rest, rfl, rfl, Writes.number hnumber⟩

/-! ### Whole texts -/

theorem lexFrom_append (l cs : List Char) :
    ∀ offset, lexFrom offset l.length (l ++ cs) = lexFrom (offset + l.length) 0 cs := by
  induction l with
  | nil => intro offset; rfl
  | cons c l ih =>
      intro offset
      rw [List.length_cons, List.cons_append, lexFrom, ih, Nat.add_right_comm, Nat.add_assoc]

theorem lexFrom_blank (hc : isBlank c = true) (offset : Nat) (cs : List Char) :
    lexFrom offset 0 (c :: cs) = lexFrom (offset + 1) 0 cs := by
  simp [lexFrom, hc]

theorem lexFrom_front (hc : isBlank c = false) (hfront : front c (l ++ cs) = (t, l.length))
    (offset : Nat) : lexFrom offset 0 (c :: (l ++ cs)) =
      ⟨t, offset⟩ :: lexFrom (offset + 1 + l.length) 0 cs := by
  simp [lexFrom, hc, hfront, lexFrom_append]

/-- The lexemes of a text are written in it, if there are no strays among them. -/
theorem spells_lexFrom (cs : List Char) : ∀ offset,
    (∀ t ∈ tokens (lexFrom offset 0 cs), t.isKnown = true) →
      Spells cs (tokens (lexFrom offset 0 cs)) := by
  -- A lexeme may take many characters, so the induction is on the length.
  induction hn : cs.length using Nat.strong_induction_on generalizing cs with
  | _ n ih =>
      intro offset hknown
      cases cs with
      | nil => exact Spells.nil
      | cons c cs =>
          have hlength : cs.length + 1 = n := hn
          by_cases hc : isBlank c = true
          · rw [lexFrom_blank hc] at hknown ⊢
            exact Spells.blank hc (ih cs.length (by omega) cs rfl _ hknown)
          · rw [Bool.not_eq_true] at hc
            rcases front_spec c cs with hstray | ⟨l, rest, rfl, hl, hwrites⟩
            · exfalso
              have hmem : Token.stray c ∈ tokens (lexFrom offset 0 (c :: cs)) := by
                simp [lexFrom, hc, hstray]
              exact absurd (hknown _ hmem) (by simp [Token.isKnown])
            · rw [List.length_append] at hlength
              rw [lexFrom_front hc (Prod.ext rfl hl), tokens_cons] at hknown ⊢
              rw [← List.cons_append]
              refine Spells.lexeme hwrites (ih rest.length (by omega) rest rfl _ ?_)
              intro t ht
              exact hknown t (List.mem_cons_of_mem _ ht)

theorem continuesWord_of_isBlank (h : isBlank c = true) : continuesWord c = false := by
  simp only [isBlank, Bool.or_eq_true, beq_iff_eq] at h
  rcases h with ((rfl | rfl) | rfl) | rfl <;> decide

theorem sign?_of_isBlank (h : isBlank c = true) : sign? c = none := by
  simp only [isBlank, Bool.or_eq_true, beq_iff_eq] at h
  rcases h with ((rfl | rfl) | rfl) | rfl <;> decide

theorem isBlank_of_continuesWord (h : continuesWord c = true) : isBlank c = false := by
  by_contra hblank
  rw [continuesWord_of_isBlank (by simpa using hblank)] at h
  cases h

theorem isBlank_of_sign? (h : sign? c = some t) : isBlank c = false := by
  by_contra hblank
  rw [sign?_of_isBlank (by simpa using hblank)] at h
  cases h

/-- A lexeme starts with a character, and that is no blank. -/
theorem Writes.head (h : Writes l t) : ∃ c l', l = c :: l' ∧ isBlank c = false := by
  by_cases hw : t.isWord = true
  · cases h with
    | number h =>
        obtain ⟨c, l, rfl⟩ := List.exists_cons_of_ne_nil h.ne_nil
        exact ⟨c, l, rfl, isBlank_of_continuesWord (continuesWord_of_continuesDigits h.head)⟩
    | name h =>
        cases h with
        | mk hc hcs =>
            exact ⟨_, _, rfl, isBlank_of_continuesWord (continuesWord_of_startsName hc)⟩
    | _ => cases hw
  · obtain ⟨c, rfl, hsign⟩ := h.sign (by simpa using hw)
    exact ⟨c, [], rfl, isBlank_of_sign? hsign⟩

/-- Behind a word, a text goes on with a character that no word could take. -/
theorem Spells.breaks (h : Spells cs ts) (hts : ∀ t ∈ ts.head?, t.isWord = false) :
    Breaks continuesWord cs := by
  cases h with
  | nil => exact breaks_nil
  | blank hc h => exact breaks_cons (continuesWord_of_isBlank hc)
  | lexeme hl h =>
      obtain ⟨c, rfl, hsign⟩ := hl.sign (hts _ rfl)
      exact breaks_cons (continuesWord_of_sign? hsign)

/-- Lexemes that are written in a text are its lexemes, if numbers and names stand apart. -/
theorem tokens_lexFrom (h : Spells cs ts) :
    ∀ offset, Tidy ts → tokens (lexFrom offset 0 cs) = ts := by
  induction h with
  | nil => intro offset _; rfl
  | blank hc h ih =>
      intro offset htidy
      rw [lexFrom_blank hc]
      exact ih (offset + 1) htidy
  | lexeme hl h ih =>
      intro offset htidy
      obtain ⟨c, l, rfl, hblank⟩ := hl.head
      have hfront := front_append hl fun ht => h.breaks (htidy.next ht)
      rw [List.cons_append, lexFrom_front hblank hfront, tokens_cons, ih _ htidy.tail]

/-- Sentences are the texts whose lexemes are a sum. -/
theorem sentence_iff {text : String} {e : Expr} :
    Sentence text e ↔ IsSum (tokens (lex text.toList)) e := by
  constructor
  · rintro ⟨ts, hspells, hsum⟩
    have hts : tokens (lex text.toList) = ts := tokens_lexFrom hspells 0 hsum.tidy
    rw [hts]
    exact hsum
  · intro hsum
    exact ⟨_, spells_lexFrom _ 0 hsum.tidy.known, hsum⟩

/-! ### The value of a number -/

theorem isSome_parseExponent? (hx : IsExponent x) : (Decimal.parseExponent? x).isSome = true := by
  cases hx with
  | none => rfl
  | @power e sign ds he hsign hne hds =>
      have he' : (e != 'e' && e != 'E') = false := by
        rcases he with rfl | rfl <;> rfl
      have hall : ds.all Char.isDigit = true := List.all_eq_true.2 hds
      cases hsign with
      | plus => simp [Decimal.parseExponent?, he', hne, hall]
      | minus => simp [Decimal.parseExponent?, he', hne, hall]
      | none =>
          obtain ⟨d, ds, rfl⟩ := List.exists_cons_of_ne_nil hne
          obtain ⟨hplus, hminus⟩ := ne_sign_of_isDigit (hds d List.mem_cons_self)
          simpa [Decimal.parseExponent?, he', hplus, hminus] using hall

/-- Behind the digits before the point and those after it, a decimal goes on with its power. -/
theorem isSome_parse?_pointed (hds : Digits ds) (hes : Digits es) (hne : ds ≠ [] ∨ es ≠ [])
    (hx : IsExponent x) : (Decimal.parse? (ds ++ '.' :: (es ++ x))).isSome = true := by
  have hpoint : Breaks Char.isDigit ('.' :: (es ++ x)) := breaks_cons (by decide)
  have hbehind : Breaks Char.isDigit x := by
    simpa using (hx.breaks breaks_nil).digit
  obtain ⟨n, hn⟩ := Option.isSome_iff_exists.1 (isSome_parseExponent? hx)
  have hcheck : (ds.isEmpty && es.isEmpty) = false := by
    simp only [Bool.and_eq_false_iff, List.isEmpty_eq_false_iff]
    exact hne
  unfold Decimal.parse?
  simp only [span_append_of_breaks hds hpoint, span_append_of_breaks hes hbehind, hcheck, hn]
  rfl

theorem isSome_parse?_whole (hne : ds ≠ []) (hds : Digits ds) (hx : IsExponent x) :
    (Decimal.parse? (ds ++ x)).isSome = true := by
  have hbehind : Breaks continuesDigits x := by
    simpa using hx.breaks breaks_nil
  obtain ⟨n, hn⟩ := Option.isSome_iff_exists.1 (isSome_parseExponent? hx)
  have hcheck : (ds.isEmpty && List.isEmpty ([] : List Char)) = false := by
    simp [hne]
  unfold Decimal.parse?
  rw [span_append_of_breaks hds hbehind.digit]
  dsimp only
  split
  · exact absurd hbehind.head (by decide)
  · simp only [hcheck, hn]
    rfl

theorem isSome_parse? (h : IsNumber l) : (Decimal.parse? l).isSome = true := by
  cases h with
  | @mk m x hm hx =>
      cases hm with
      | whole hne hds => exact isSome_parse?_whole hne hds hx
      | pointed hne hds hes =>
          rw [List.append_assoc, List.cons_append]
          exact isSome_parse?_pointed hds hes (Or.inl hne) hx
      | @part es hne hes =>
          have hds : Digits [] := fun d hd => absurd hd List.not_mem_nil
          exact isSome_parse?_pointed hds hes (Or.inr hne) hx

end BareBones.Arithmetic
