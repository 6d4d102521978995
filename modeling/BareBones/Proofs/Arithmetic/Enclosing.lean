/-
Variables stand for their values as operands.

Values are written into an expression as texts, so nothing ties the text of a value to one operand
but the grammar.  Writing a variable in parentheses first is the way to be sure.  For a variable
that holds a finite number it makes no difference (`variable_stands_for_operand`), with two
exceptions.  A negative number in front of a power gives its digits to the power before its minus.
And behind a text that ends in a number and the letter of a power of ten, which only the value of
another variable can bring about, a sign and the digits of a number go on that power.

`enclose` writes the parentheses.  On the lexemes this is `encloseTokens`, and in a sentence every
name stands where an operand is expected (`IsSum.spaced`), so the lexemes before and after differ
in parentheses around operands alone.  The same is shown of the lexemes of the two texts in which
values are written (`encloses_substituted`), by going through the text from one place of the
variable to the next.
-/
import BareBones.Proofs.Arithmetic.Joining
import BareBones.Proofs.Arithmetic.Parentheses
import BareBones.Proofs.Arithmetic.Pasting
import BareBones.Proofs.Arithmetic.Values

namespace BareBones.Arithmetic

open Name (isNameChar)

/-! ### Writing a name in parentheses -/

/-- Does a parenthesis come next, behind blanks? -/
def isCalled (cs : List Char) : Bool :=
  (cs.dropWhile isBlank).head? == some '('

/-- Writes the name in parentheses wherever it is a lexeme and not called.  The first `skip`
characters belong to the lexeme before and are written already. -/
def encloseFrom (x : String) : Nat → List Char → List Char
  | _, [] => []
  | skip + 1, _ :: cs => encloseFrom x skip cs
  | 0, c :: cs =>
    if isBlank c then c :: encloseFrom x 0 cs
    else
      let (token, more) := front c cs
      let lexeme := c :: cs.take more
      let written :=
        if token = .name x && !isCalled (cs.drop more) then '(' :: (lexeme ++ [')']) else lexeme
      written ++ encloseFrom x more cs

/-- Writes the leaves of an expression that are the name in parentheses. -/
def enclose (x text : String) : String :=
  String.ofList (encloseFrom x 0 text.toList)

example : enclose "x" "x^2 + max(x, xx) - x (1)" = "(x)^2 + max((x), xx) - x (1)" := by
  decide +kernel

/-- The lexemes with parentheses around the name wherever it is not called. -/
def encloseTokens (x : String) : List Token → List Token
  | [] => []
  | t :: ts =>
    if t = .name x ∧ ts.head? ≠ some .leftParen then
      .leftParen :: t :: .rightParen :: encloseTokens x ts
    else t :: encloseTokens x ts

variable {c : Char} {cs l : List Char} {t u : Token} {ts us vs : List Token} {x : String}

theorem encloseFrom_append (x : String) (l cs : List Char) :
    encloseFrom x l.length (l ++ cs) = encloseFrom x 0 cs := by
  induction l with
  | nil => rfl
  | cons c l ih => exact ih

theorem Writes.eq_leftParen_iff (hl : Writes (c :: l) t) : c = '(' ↔ t = .leftParen := by
  have hword : continuesWord c = true → c ≠ '(' := by
    rintro hc rfl
    exact absurd hc (by decide)
  cases hl with
  | number hl => simp [hword (continuesWord_of_continuesDigits hl.head)]
  | name hl =>
      cases hl with
      | mk hc hcs => simp [hword (continuesWord_of_startsName hc)]
  | _ => decide

/-- A name is called in the text just if it is called in the lexemes. -/
theorem Spells.isCalled_iff (h : Spells cs ts) :
    isCalled cs = true ↔ ts.head? = some .leftParen := by
  induction h with
  | nil => decide
  | blank hc h ih => simpa [isCalled, hc] using ih
  | @lexeme l cs t ts hl h ih =>
      obtain ⟨c, l, rfl, hblank⟩ := hl.head
      simp [isCalled, hblank, hl.eq_leftParen_iff]

/-- A lexeme is written as it is, or in parentheses if it is the name and not called. -/
theorem encloseFrom_lexeme (x : String) (hl : Writes l t) (h : Spells cs ts)
    (htidy : Tidy (t :: ts)) :
    encloseFrom x 0 (l ++ cs) =
      if t = .name x ∧ ts.head? ≠ some .leftParen then '(' :: (l ++ ')' :: encloseFrom x 0 cs)
      else l ++ encloseFrom x 0 cs := by
  obtain ⟨c, l, rfl, hblank⟩ := hl.head
  have hfront := front_append hl fun ht => h.breaks (htidy.next ht)
  rw [List.cons_append, encloseFrom, hblank, hfront]
  simp only [List.take_left, List.drop_left, encloseFrom_append]
  have hleaf : (decide (t = .name x) && !isCalled cs) = true ↔
      t = .name x ∧ ts.head? ≠ some .leftParen := by
    simp [← h.isCalled_iff]
  by_cases hx : t = .name x ∧ ts.head? ≠ some .leftParen
  · rw [if_pos hx, if_pos (hleaf.2 hx)]
    simp
  · rw [if_neg hx, if_neg (mt hleaf.1 hx)]
    simp

theorem Spells.enclose (x : String) (h : Spells cs ts) : Tidy ts →
    Spells (encloseFrom x 0 cs) (encloseTokens x ts) := by
  induction h with
  | nil => exact fun _ => .nil
  | @blank c cs ts hc h ih =>
      intro htidy
      rw [encloseFrom, if_pos hc]
      exact .blank hc (ih htidy)
  | @lexeme l cs t ts hl h ih =>
      intro htidy
      have hrest := ih htidy.tail
      rw [encloseFrom_lexeme x hl h htidy, encloseTokens]
      split
      · exact .lexeme .leftParen (.lexeme hl (.lexeme .rightParen hrest))
      · exact .lexeme hl hrest

/-! ### Names stand where operands are expected -/

/-- In front of each number and name stands a lexeme that expects an operand, or nothing. -/
def Spaced (ts : List Token) : Prop :=
  ts.IsChain fun t u => u.isWord = true → t.expectsOperand = true

theorem Spaced.cons (h : Spaced ts) (ht : t.expectsOperand = true) : Spaced (t :: ts) := by
  cases ts with
  | nil => exact List.isChain_singleton t
  | cons u ts => exact List.isChain_cons_cons.2 ⟨fun _ => ht, h⟩

theorem Spaced.append (h : Spaced ts) (h' : Spaced us) (hword : t.isWord = false)
    (ht : us = [] ∨ t.expectsOperand = true) : Spaced (ts ++ t :: us) := by
  have hcons : Spaced (t :: us) := by
    rcases ht with rfl | ht
    · exact List.isChain_singleton t
    · exact h'.cons ht
  refine List.IsChain.append h hcons ?_
  intro u _ v hv hv'
  cases hv
  rw [hword] at hv'
  cases hv'

theorem spaced_nil : Spaced [] :=
  List.IsChain.nil

/-- A call or a group closes with a parenthesis. -/
theorem Spaced.close (h : Spaced ts) : Spaced (.leftParen :: (ts ++ [.rightParen])) :=
  (h.append spaced_nil rfl (Or.inl rfl)).cons rfl

theorem Spaced.call (h : Spaced (.leftParen :: ts)) (f : String) :
    Spaced (.name f :: .leftParen :: ts) :=
  List.isChain_cons_cons.2 ⟨fun hword => absurd hword (by decide), h⟩

theorem IsAdditive.spaced {op : Operator} (h : IsAdditive t op) :
    t.isWord = false ∧ t.expectsOperand = true := by
  cases h <;> exact ⟨rfl, rfl⟩

theorem IsMultiplicative.spaced {op : Operator} (h : IsMultiplicative t op) :
    t.isWord = false ∧ t.expectsOperand = true := by
  cases h <;> exact ⟨rfl, rfl⟩

mutual

theorem IsSum.spaced : ∀ {ts : List Token} {e : Expr}, IsSum ts e → Spaced ts
  | _, _, .product h => h.spaced
  | _, _, .step h ht h' => h.spaced.append h'.spaced ht.spaced.1 (Or.inr ht.spaced.2)

theorem IsProduct.spaced : ∀ {ts : List Token} {e : Expr}, IsProduct ts e → Spaced ts
  | _, _, .signed h => h.spaced
  | _, _, .step h ht h' => h.spaced.append h'.spaced ht.spaced.1 (Or.inr ht.spaced.2)

theorem IsSigned.spaced : ∀ {ts : List Token} {e : Expr}, IsSigned ts e → Spaced ts
  | _, _, .minus h => h.spaced.cons rfl
  | _, _, .plus h => h.spaced.cons rfl
  | _, _, .power h => h.spaced

theorem IsPower.spaced : ∀ {ts : List Token} {e : Expr}, IsPower ts e → Spaced ts
  | _, _, .primary h => h.spaced
  | _, _, .raise h h' => h.spaced.append h'.spaced rfl (Or.inr rfl)

theorem IsPrimary.spaced : ∀ {ts : List Token} {e : Expr}, IsPrimary ts e → Spaced ts
  | _, _, .number _ => List.isChain_singleton _
  | _, _, .name _ => List.isChain_singleton _
  | _, _, .callNone f => spaced_nil.close.call f
  | _, _, .call f h => h.spaced.close.call f
  | _, _, .paren h => h.spaced.close

theorem IsArguments.spaced : ∀ {ts : List Token} {es : List Expr}, IsArguments ts es → Spaced ts
  | _, _, .one h => h.spaced
  | _, _, .more h h' => h.spaced.append h'.spaced rfl (Or.inr rfl)

end

theorem Spaced.expectsOperand (h : Spaced (t :: ts)) (hu : u ∈ ts.head?)
    (hword : u.isWord = true) : t.expectsOperand = true := by
  cases ts with
  | nil => cases hu
  | cons v ts =>
      cases hu
      exact (List.isChain_cons_cons.1 h).1 hword

theorem isWord_of_expectsOperand (h : t.expectsOperand = true) : t.isWord = false := by
  cases t with
  | number text => cases h
  | name x => cases h
  | _ => rfl

/-! ### The lexemes on both sides -/

theorem Encloses.of_false (h : Encloses false us vs) (expected : Bool) :
    Encloses expected us vs := by
  cases h with
  | nil => exact .nil expected
  | keep _ h => exact .keep expected h

/-- The same lexemes in front of both. -/
theorem Encloses.prepend (h : Encloses false us vs) (ws : List Token) :
    ∀ expected, Encloses expected (ws ++ us) (ws ++ vs) := by
  induction ws with
  | nil => exact h.of_false
  | cons w ws ih => exact fun expected => .keep expected (ih w.expectsOperand)

/-- In a sentence the parentheses stand around operands. -/
theorem encloses_encloseTokens (x : String) : ∀ {ts : List Token} (expected : Bool), Spaced ts →
    (ts.head? = some (.name x) → expected = true) →
    Encloses expected ts (encloseTokens x ts) := by
  intro ts
  induction ts with
  | nil => exact fun expected _ _ => .nil expected
  | cons t ts ih =>
      intro expected hspaced hexpected
      have hrest := ih t.expectsOperand hspaced.tail fun hhead => hspaced.expectsOperand hhead rfl
      rw [encloseTokens]
      split
      · next hx =>
        obtain ⟨rfl, hleaf⟩ := hx
        cases hexpected rfl
        exact @Encloses.enclose [.name x] _ _ _ (.name x hleaf) hrest
      · exact .keep expected hrest

theorem isSum_encloseTokens {e : Expr} (x : String) (h : IsSum ts e) :
    IsSum (encloseTokens x ts) e :=
  (encloses_encloseTokens x true h.spaced fun _ => rfl).isSum_iff.1 h

theorem tokens_lex_enclose {text : String} {e : Expr} (x : String) (h : Sentence text e) :
    tokens (lex (enclose x text).toList) = encloseTokens x (tokens (lex text.toList)) := by
  have hsum := sentence_iff.1 h
  have hspells := spells_lexFrom text.toList 0 hsum.tidy.known
  rw [enclose, String.toList_ofList]
  exact tokens_lexFrom (hspells.enclose x hsum.tidy) 0 (isSum_encloseTokens x hsum).tidy

/-- Writing a name in parentheses leaves the tree of a sentence as it is. -/
theorem sentence_enclose {text : String} {e : Expr} (x : String) (h : Sentence text e) :
    Sentence (enclose x text) e := by
  rw [sentence_iff, tokens_lex_enclose x h]
  exact isSum_encloseTokens x (sentence_iff.1 h)

/-! ### Values for variables -/

variable {env : Environment} {v : Value} {y : Float} {pre ds : List Char} {expected : Bool}

theorem Breaks.left {p : Char → Bool} (h : Breaks p (cs ++ ds)) : Breaks p cs := by
  cases cs with
  | nil => exact breaks_nil
  | cons c cs => exact breaks_cons h.head

theorem breaks_substituted (hrun : Breaks isNameChar cs) (hword : Breaks continuesWord cs) :
    Breaks continuesWord (substituteFrom env [] cs) := by
  cases cs with
  | nil => exact breaks_nil
  | cons c cs =>
      rw [substituteFrom_of_not_name hrun.head]
      exact breaks_cons hword.head

/-- A text that starts with a sign starts with it still when values are written. -/
theorem Spells.head?_substituted (h : Spells cs ts) : (∀ t ∈ ts.head?, t.isWord = false) →
    (tokens (lex (substituteFrom env [] cs))).head? = ts.head? := by
  induction h with
  | nil => exact fun _ => rfl
  | blank hc h ih =>
      intro hts
      rw [substituteFrom_of_not_name (isNameChar_of_isBlank hc), tokens_lex_blank hc]
      exact ih hts
  | lexeme hl h ih =>
      intro hts
      obtain ⟨c, rfl, hsign⟩ := hl.sign (hts _ rfl)
      rw [List.singleton_append, substituteFrom_of_not_name (isNameChar_of_sign? hsign),
        tokens_lex_sign hsign]
      rfl

/-- The lexemes of a finite number: one number, behind a minus if the sign is set. -/
theorem tokens_lex_text (h : v.double? = some y) :
    ∃ number, tokens (lex v.text.toList) =
      if Binary64.isNegative y then [.minus, .number number] else [.number number] := by
  obtain ⟨d, -, htext⟩ := Value.exists_text_eq h
  have hspells : Spells d.positional [.number (String.ofList d.positional)] := by
    simpa using Spells.lexeme (.number d.writtenOut_positional.isNumber) .nil
  have hnumber := tokens_lexFrom hspells 0 (IsPrimary.number _).tidy
  refine ⟨String.ofList d.positional, ?_⟩
  rw [htext]
  split
  · rw [tokens_lex_sign (t := .minus) rfl]
    exact congrArg (Token.minus :: ·) hnumber
  · exact hnumber

/-- Behind any text, a finite number leaves no power of ten unfinished. -/
theorem not_unfinished_text (h : v.double? = some y) (ts : List Token)
    (hcs : tokens (lex cs) = ts ++ tokens (lex v.text.toList)) : ¬ Unfinished cs := by
  obtain ⟨number, htokens⟩ := tokens_lex_text h
  rw [htokens] at hcs
  split at hcs
  · exact @not_unfinished_of_number cs number (ts ++ [.minus]) (by simpa using hcs)
  · exact not_unfinished_of_number hcs

theorem tokens_lex_text_append (h : v.double? = some y) (hds : Breaks continuesWord ds) :
    tokens (lex (v.text.toList ++ ds)) = tokens (lex v.text.toList) ++ tokens (lex ds) :=
  tokens_lex_append hds fun hunfinished =>
    absurd hunfinished (not_unfinished_text h [] rfl)

/-- A finite number is an operand, unless it is negative and a power comes next. -/
theorem exists_isOperand_text (h : v.double? = some y)
    (hpower : Binary64.isNegative y = true → us.head? ≠ some .power) :
    ∃ e, IsOperand (tokens (lex v.text.toList)) e us := by
  obtain ⟨number, htokens⟩ := tokens_lex_text h
  rw [htokens]
  split
  · next hnegative => exact ⟨_, .negative number (hpower hnegative)⟩
  · exact ⟨_, .number number us⟩

/-! ### What stands in front -/

/-- Behind the text an operand is expected: it ends in a sign that expects one, or it is empty and
the flag says so.  Blanks do not count. -/
inductive AwaitsOperand : Bool → List Char → Prop
  | start : AwaitsOperand true []
  | sign (expected : Bool) (pre : List Char) {s : Char} {t : Token} (hs : sign? s = some t)
      (ht : t.expectsOperand = true) : AwaitsOperand expected (pre ++ [s])
  | blank {expected : Bool} {pre : List Char} {c : Char} (h : AwaitsOperand expected pre)
      (hc : isBlank c = true) : AwaitsOperand expected (pre ++ [c])

theorem AwaitsOperand.substituteFrom_append (h : AwaitsOperand expected pre) (cs : List Char) :
    substituteFrom env [] (pre ++ cs) = substituteFrom env [] pre ++ substituteFrom env [] cs := by
  have hbreaks : Breaks isNameChar (pre.reverse ++ []) := by
    cases h with
    | start => exact breaks_nil
    | sign _ pre hs ht =>
        rw [List.append_nil, List.reverse_concat]
        exact breaks_cons (isNameChar_of_sign? hs)
    | blank h hc =>
        rw [List.append_nil, List.reverse_concat]
        exact breaks_cons (isNameChar_of_isBlank hc)
  exact BareBones.substituteFrom_append (fun _ hd => absurd hd List.not_mem_nil) (Or.inl hbreaks)

theorem substituteFrom_concat {c : Char} (hc : isNameChar c = false) (pre : List Char) :
    substituteFrom env [] (pre ++ [c]) = substituteFrom env [] pre ++ [c] := by
  rw [substituteFrom_append_of_breaks (breaks_cons hc), substituteFrom_of_not_name hc]
  rfl

/-- With values written, the first text does not end in an unfinished power of ten and a sign that
the second goes on. -/
def MeetsApart (env : Environment) (pre ds : List Char) : Prop :=
  ∀ before s, pre = before ++ [s] → Unfinished (substituteFrom env [] before) →
    ¬ GoesOn (s :: ds)

theorem meetsApart_of_not_digit (env : Environment) (pre ds : List Char)
    (hc : c.isDigit = false) : MeetsApart env pre (c :: ds) := by
  rintro before s - - ⟨s', d, rest, heq, -, hd⟩
  cases heq
  rw [hc] at hd
  cases hd

/-- What stands in front of an operand gives the same lexemes, whatever the operand. -/
theorem AwaitsOperand.exists_tokens (env : Environment) (h : AwaitsOperand expected pre) :
    ∃ ws, (∀ ds, MeetsApart env pre ds →
        tokens (lex (substituteFrom env [] pre ++ ds)) = ws ++ tokens (lex ds)) ∧
      ∀ us vs, Encloses true us vs → Encloses expected (ws ++ us) (ws ++ vs) := by
  induction h with
  | start => exact ⟨[], fun ds _ => rfl, fun us vs h => h⟩
  | @sign expected pre s t hs ht =>
      refine ⟨tokens (lex (substituteFrom env [] pre)) ++ [t], ?_, ?_⟩
      · intro ds hmeet
        rw [substituteFrom_concat (isNameChar_of_sign? hs), List.append_assoc,
          List.singleton_append,
          tokens_lex_append (breaks_cons (continuesWord_of_sign? hs)) (hmeet pre s rfl),
          tokens_lex_sign hs, List.append_assoc, List.singleton_append]
      · intro us vs h
        rw [← ht] at h
        simpa using (Encloses.keep false h).prepend _ expected
  | @blank expected pre c _ hc ih =>
      obtain ⟨ws, htokens, hencloses⟩ := ih
      refine ⟨ws, ?_, hencloses⟩
      intro ds _
      have hdigit : c.isDigit = false :=
        eq_false_of_imp isNameChar_of_isDigit (isNameChar_of_isBlank hc)
      rw [substituteFrom_concat (isNameChar_of_isBlank hc), List.append_assoc,
        List.singleton_append, htokens _ (meetsApart_of_not_digit env pre ds hdigit),
        tokens_lex_blank hc]

/-! ### Both texts at once -/

/-- Where the name follows a sign, the text in front of the sign does not end in an unfinished
power of ten when values are written. -/
def SignsApart (env : Environment) (x : String) (cs : List Char) : Prop :=
  ∀ before s behind, cs = before ++ s :: (x.toList ++ behind) → (s = '+' ∨ s = '-') →
    Breaks isNameChar behind → ¬ Unfinished (substituteFrom env [] before)

theorem meetsApart_text (hy : v.double? = some y) (hcs : Breaks isNameChar cs)
    (hapart : Binary64.isNegative y = false → SignsApart env x (pre ++ (x.toList ++ cs)))
    (ds : List Char) : MeetsApart env pre (v.text.toList ++ ds) := by
  obtain ⟨d, -, htext⟩ := Value.exists_text_eq hy
  rw [htext]
  split
  · exact meetsApart_of_not_digit env pre _ (by decide)
  · next hnegative =>
    rintro before s rfl hunfinished ⟨s', d', rest, heq, hs, -⟩
    obtain ⟨rfl, -⟩ := List.cons.inj heq
    exact hapart (by simpa using hnegative) before s cs (by simp) hs hcs hunfinished

theorem substituteFrom_variable (hx : Name.checkVariable x = .ok ()) (hv : env.get? x = some v)
    (hcs : Breaks isNameChar cs) :
    substituteFrom env [] (x.toList ++ cs) = v.text.toList ++ substituteFrom env [] cs := by
  have hvalue := congrArg String.toList (substitute_variable hx hv)
  rw [substitute, String.toList_ofList] at hvalue
  rw [substituteFrom_append_of_breaks hcs, hvalue]

/-- Behind the variable the signs stand apart as before. -/
theorem signsApart_behind (h : AwaitsOperand expected pre) (hx : Name.checkVariable x = .ok ())
    (hv : env.get? x = some v) (hy : v.double? = some y) (hrun : Breaks isNameChar cs)
    (hword : Breaks continuesWord cs) (hmeet : MeetsApart env pre v.text.toList)
    (hapart : SignsApart env x (pre ++ (x.toList ++ cs))) : SignsApart env x cs := by
  rintro before s behind rfl hs hbehind hunfinished
  refine hapart (pre ++ (x.toList ++ before)) s behind (by simp) hs hbehind ?_
  obtain ⟨ws, htokens, -⟩ := h.exists_tokens env
  rw [h.substituteFrom_append, substituteFrom_variable hx hv hrun.left, ← List.append_assoc]
  exact hunfinished.append (breaks_substituted hrun.left hword.left)
    (not_unfinished_text hy ws (htokens _ hmeet))

/-- Where the variable stands, its value is an operand on one side and in parentheses on the
other. -/
theorem encloses_variable {es : List Char} (h : AwaitsOperand expected pre)
    (hx : Name.checkVariable x = .ok ()) (hv : env.get? x = some v) (hy : v.double? = some y)
    (hcs : Spells cs ts) (hts : ∀ t ∈ ts.head?, t.isWord = false)
    (hpower : Binary64.isNegative y = true → ts.head? ≠ some .power)
    (hmeet : ∀ ds, MeetsApart env pre (v.text.toList ++ ds))
    (hrest : Encloses false (tokens (lex (substituteFrom env [] cs)))
      (tokens (lex (substituteFrom env [] es)))) :
    Encloses expected (tokens (lex (substituteFrom env [] (pre ++ (x.toList ++ cs)))))
      (tokens (lex (substituteFrom env [] (pre ++ '(' :: (x.toList ++ ')' :: es))))) := by
  have hrun := hcs.breaks_run hts
  have hopen : isNameChar '(' = false := isNameChar_of_sign? (t := .leftParen) rfl
  have hclose : isNameChar ')' = false := isNameChar_of_sign? (t := .rightParen) rfl
  obtain ⟨ws, htokens, hencloses⟩ := h.exists_tokens env
  have hbare : tokens (lex (substituteFrom env [] (pre ++ (x.toList ++ cs)))) =
      ws ++ (tokens (lex v.text.toList) ++ tokens (lex (substituteFrom env [] cs))) := by
    rw [h.substituteFrom_append, substituteFrom_variable hx hv hrun, htokens _ (hmeet _),
      tokens_lex_text_append hy (breaks_substituted hrun (hcs.breaks hts))]
  have henclosed : tokens (lex (substituteFrom env [] (pre ++ '(' :: (x.toList ++ ')' :: es)))) =
      ws ++ .leftParen :: (tokens (lex v.text.toList) ++
        .rightParen :: tokens (lex (substituteFrom env [] es))) := by
    rw [h.substituteFrom_append, substituteFrom_of_not_name hopen,
      substituteFrom_variable hx hv (breaks_cons hclose), substituteFrom_of_not_name hclose,
      htokens _ (meetsApart_of_not_digit env pre _ (by decide)),
      tokens_lex_sign (t := .leftParen) rfl,
      tokens_lex_text_append hy (breaks_cons (by decide)),
      tokens_lex_sign (t := .rightParen) rfl]
  have hnext : Binary64.isNegative y = true →
      (tokens (lex (substituteFrom env [] cs))).head? ≠ some .power := by
    rw [hcs.head?_substituted hts]
    exact hpower
  obtain ⟨e, hoperand⟩ := exists_isOperand_text hy hnext
  rw [hbare, henclosed]
  exact hencloses _ _ (.enclose hoperand hrest)

/-- With values written, the text with the parentheses and the one without differ in parentheses
around operands. -/
theorem encloses_substituted (hx : Name.checkVariable x = .ok ()) (hv : env.get? x = some v)
    (hy : v.double? = some y) (h : Spells cs ts) : ∀ (expected : Bool) (pre : List Char),
    Spaced ts → Tidy ts → (Binary64.isNegative y = true → ¬ [.name x, .power] <:+: ts) →
    (Binary64.isNegative y = false → SignsApart env x (pre ++ cs)) →
    (∀ t ∈ ts.head?, t.isWord = true → AwaitsOperand expected pre) →
    Encloses expected (tokens (lex (substituteFrom env [] (pre ++ cs))))
      (tokens (lex (substituteFrom env [] (pre ++ encloseFrom x 0 cs)))) := by
  -- `pre` is the text since the variable stood last.  It is the same on both sides, but with values
  -- written it may end inside a number or name, so it can only be cut together with what follows.
  induction h with
  | nil =>
      intro expected pre _ _ _ _ _
      rw [encloseFrom, ← List.append_nil (tokens _)]
      exact (Encloses.nil false).prepend _ expected
  | @blank c cs ts hc h ih =>
      intro expected pre hspaced htidy hpower hapart hawaits
      rw [encloseFrom, if_pos hc]
      have hrest := ih expected (pre ++ [c]) hspaced htidy hpower (by simpa using hapart)
        fun t ht hword => (hawaits t ht hword).blank hc
      simpa using hrest
  | @lexeme l cs t ts hl h ih =>
      intro expected pre hspaced htidy hpower hapart hawaits
      have hpower' : Binary64.isNegative y = true → ¬ [.name x, .power] <:+: ts :=
        fun hnegative hwithin => hpower hnegative (hwithin.trans (List.suffix_cons t ts).isInfix)
      rw [encloseFrom_lexeme x hl h htidy]
      split
      · next hleaf =>
        obtain ⟨rfl, -⟩ := hleaf
        obtain rfl : l = x.toList := by
          cases hl
          exact String.toList_ofList.symm
        have hts := htidy.next rfl
        have hpre := hawaits _ rfl rfl
        have hmeet : ∀ ds, MeetsApart env pre (v.text.toList ++ ds) :=
          meetsApart_text hy (h.breaks_run hts) hapart
        refine encloses_variable hpre hx hv hy h hts ?_ hmeet ?_
        · intro hnegative hhead
          obtain ⟨us, rfl⟩ := List.head?_eq_some_iff.1 hhead
          exact hpower hnegative ⟨[], us, rfl⟩
        · refine ih false [] hspaced.tail htidy.tail hpower' ?_ ?_
          · intro hnegative
            have hmeet' : MeetsApart env pre v.text.toList := by simpa using hmeet []
            exact signsApart_behind hpre hx hv hy (h.breaks_run hts) (h.breaks hts) hmeet'
              (hapart hnegative)
          · intro u hu hword
            rw [hts u hu] at hword
            cases hword
      · have hawaits' : ∀ u ∈ ts.head?, u.isWord = true → AwaitsOperand expected (pre ++ l) := by
          intro u hu hword
          have ht := hspaced.expectsOperand hu hword
          obtain ⟨c, rfl, hsign⟩ := hl.sign (isWord_of_expectsOperand ht)
          exact .sign expected pre hsign ht
        have hrest := ih expected (pre ++ l) hspaced.tail htidy.tail hpower'
          (by simpa using hapart) hawaits'
        simpa using hrest

/-- A variable that holds a finite number stands in a sentence for its value as one operand: it
makes no difference to the tree, nor to the result, whether each leaf that is the variable is
written in parentheses before values are written for variables.  If the value is negative, no
power may stand behind the variable.  If it is not, the text in front of a sign with the variable
behind it may not end in an unfinished power of ten.  What is no sentence is refused either way,
but at places of its own. -/
theorem variable_stands_for_operand (env : Environment) (text x : String) (e : Expr) (v : Value)
    (y : Float) (htext : Sentence text e) (hx : Name.checkVariable x = .ok ())
    (hv : env.get? x = some v) (hy : v.double? = some y)
    (hpower : Binary64.isNegative y = true → ¬ [.name x, .power] <:+: tokens (lex text.toList))
    (hapart : Binary64.isNegative y = false → SignsApart env x text.toList) :
    tokens (lex (enclose x text).toList) = encloseTokens x (tokens (lex text.toList)) ∧
    Sentence (enclose x text) e ∧
    (∀ e', Sentence (substitute env text) e' ↔ Sentence (substitute env (enclose x text)) e') ∧
    ∀ g, evaluate (substitute env text) g = evaluate (substitute env (enclose x text)) g ∨
      ∃ p q, evaluate (substitute env text) g = (.error (.malformed p), g) ∧
        evaluate (substitute env (enclose x text)) g = (.error (.malformed q), g) := by
  have hsum := sentence_iff.1 htext
  have hspells := spells_lexFrom text.toList 0 hsum.tidy.known
  have hencloses := encloses_substituted hx hv hy hspells true [] hsum.spaced hsum.tidy hpower
    hapart fun _ _ _ => .start
  have htrees : ∀ e', Sentence (substitute env text) e' ↔
      Sentence (substitute env (enclose x text)) e' := by
    intro e'
    rw [sentence_iff, sentence_iff]
    simpa [substitute, enclose] using hencloses.isSum_iff (e := e')
  refine ⟨tokens_lex_enclose x htext, sentence_enclose x htext, htrees, ?_⟩
  intro g
  by_cases hsentence : ∃ e', Sentence (substitute env text) e'
  · obtain ⟨e', h⟩ := hsentence
    left
    rw [evaluate_of_sentence h, evaluate_of_sentence ((htrees e').1 h)]
  · have hsentence' : ¬ ∃ e', Sentence (substitute env (enclose x text)) e' := by
      rintro ⟨e', h⟩
      exact hsentence ⟨e', (htrees e').2 h⟩
    obtain ⟨p, hp⟩ := evaluate_of_not_sentence hsentence g
    obtain ⟨q, hq⟩ := evaluate_of_not_sentence hsentence' g
    exact Or.inr ⟨p, q, hp, hq⟩

/-- A number behind a minus, and a negative one behind a power. -/
theorem variable_stands_for_operand_next_to_signs :
    let env : Environment := NameMap.ofList [("x", .int 3), ("y", .float (-2.5))]
    let e : Expr := .binary .subtract (.number "2") (.binary .power (.name "x") (.name "y"))
    Sentence "2-x^y" e ∧ substitute env "2-x^y" = "2-3^-2.5" ∧
      (∀ e', Sentence "2-3^-2.5" e' ↔ Sentence "2-(3)^-2.5" e') ∧
      ∀ e', Sentence "2-3^-2.5" e' ↔ Sentence "2-3^(-2.5)" e' := by
  intro env e
  have hchars : "2-x^y".toList = ['2', '-', 'x', '^', 'y'] := String.toList_ofList
  have htext : Sentence "2-x^y" e := by
    rw [sentence_iff, hchars]
    exact .step (.product (.signed (.power (.primary (.number "2"))))) .minus
      (.signed (.power (.raise (.name "x") (.power (.primary (.name "y"))))))
  have hsubstituted : substitute env "2-x^y" = "2-3^-2.5" := by decide +kernel
  refine ⟨htext, hsubstituted, ?_, ?_⟩
  · have hy : (Value.int 3).double? = some (Binary64.ofSizeBits false 0x4008000000000000) := by
      decide +kernel
    have hapart : SignsApart env "x" "2-x^y".toList := by
      have hx : "x".toList = ['x'] := String.toList_ofList
      rw [hchars]
      intro before s behind hcut hs _
      rw [hx] at hcut
      rcases before with _ | ⟨a, _ | ⟨b, before⟩⟩
      · cases hcut
      · cases hcut
        exact @not_unfinished_of_number _ "2" [] (by decide +kernel)
      · have hmem : s ∈ ['x', '^', 'y'] := by
          rw [(List.cons.inj (List.cons.inj hcut).2).2]
          simp
        rcases hs with rfl | rfl <;> exact absurd hmem (by decide)
    have henclosed : substitute env (enclose "x" "2-x^y") = "2-(3)^-2.5" := by decide +kernel
    have h := variable_stands_for_operand env "2-x^y" "x" e (.int 3) _ htext (by decide +kernel)
      (by decide +kernel) hy (fun hnegative => absurd hnegative (by decide +kernel)) fun _ => hapart
    rw [hsubstituted, henclosed] at h
    exact h.2.2.1
  · have hy : (Value.float (-2.5)).double? = some (-2.5) := by decide +kernel
    have henclosed : substitute env (enclose "y" "2-x^y") = "2-3^(-2.5)" := by decide +kernel
    have hpower : ¬ [.name "y", .power] <:+: tokens (lex "2-x^y".toList) := by
      rw [hchars]
      decide
    have h := variable_stands_for_operand env "2-x^y" "y" e (.float (-2.5)) _ htext
      (by decide +kernel) (by decide +kernel) hy (fun _ => hpower)
      fun hnegative => absurd hnegative (by decide +kernel)
    rw [hsubstituted, henclosed] at h
    exact h.2.2.1

/-- A power takes the digits of a negative number before its minus does, and behind a string that
is a number and a letter a sign and a number go on it. -/
theorem variable_falls_apart :
    let env : Environment :=
      NameMap.ofList [("x", .float (-2)), ("y", .str "1e"), ("z", .int 3)]
    (Name.checkVariable "x" = .ok () ∧ env.get? "x" = some (.float (-2)) ∧
      (Value.float (-2)).double? = some (-2) ∧
      Sentence "x^2" (.binary .power (.name "x") (.number "2")) ∧
      Sentence (substitute env "x^2") (.negate (.binary .power (.number "2") (.number "2"))) ∧
      Sentence (substitute env (enclose "x" "x^2"))
        (.binary .power (.negate (.number "2")) (.number "2"))) ∧
    Name.checkVariable "z" = .ok () ∧ env.get? "z" = some (.int 3) ∧
      (Value.int 3).double? = some 3 ∧
      Sentence "y+z" (.binary .add (.name "y") (.name "z")) ∧
      Sentence (substitute env "y+z") (.number "1e+3") ∧
      ¬ ∃ e, Sentence (substitute env (enclose "z" "y+z")) e := by
  intro env
  have hnegative : substitute env "x^2" = "-2^2" := by decide +kernel
  have hnegative' : substitute env (enclose "x" "x^2") = "(-2)^2" := by decide +kernel
  have hletter : substitute env "y+z" = "1e+3" := by decide +kernel
  have hletter' : substitute env (enclose "z" "y+z") = "1e+(3)" := by decide +kernel
  have hsentence : ∀ {text : String} {cs : List Char} {e : Expr},
      text = String.ofList cs → parse cs = .ok e → Sentence text e := by
    rintro text cs e rfl h
    rwa [← parse_eq_ok_iff, String.toList_ofList]
  rw [hnegative, hnegative', hletter, hletter']
  refine ⟨⟨by decide +kernel, by decide +kernel, by decide +kernel, ?_, ?_, ?_⟩,
    by decide +kernel, by decide +kernel, by decide +kernel, ?_, ?_, ?_⟩
  · exact @hsentence _ ['x', '^', '2'] _ rfl rfl
  · exact @hsentence _ ['-', '2', '^', '2'] _ rfl rfl
  · exact @hsentence _ ['(', '-', '2', ')', '^', '2'] _ rfl rfl
  · exact @hsentence _ ['y', '+', 'z'] _ rfl rfl
  · exact @hsentence _ ['1', 'e', '+', '3'] _ rfl rfl
  · rintro ⟨e, h⟩
    have hchars : "1e+(3)".toList = ['1', 'e', '+', '(', '3', ')'] := String.toList_ofList
    rw [sentence_iff, hchars] at h
    -- A number and a name side by side are no sentence.
    exact absurd (List.isChain_cons_cons.1 h.tidy.apart).1 (by decide)

end BareBones.Arithmetic
