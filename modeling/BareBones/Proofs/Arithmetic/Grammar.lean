/-
The grammar of expressions.

    sum       ::=  product { (+ | -) product }
    product   ::=  signed { (* | / | %) signed }
    signed    ::=  (- | +) signed  |  power
    power     ::=  primary [ ^ signed ]
    primary   ::=  number  |  name  |  name ( [ sum { , sum } ] )  |  ( sum )

Sums and products lean to the left.  Each rule is given with the tree that it makes.  The grammar
knows nothing of bounds, of reading from left to right or of the longest lexeme: a sentence is any
text that can be cut into lexemes, with blanks between them, so that these make a sum.

No two numbers or names stand side by side in a sentence, and this is why the cut is unique in the
end, though lexemes need no blanks between them.
-/
import BareBones.Arithmetic.Expr
import BareBones.Arithmetic.Lexeme
import Mathlib.Data.List.Chain

namespace BareBones.Arithmetic

/-! ### How lexemes are written -/

/-- All characters are digits. -/
def Digits (cs : List Char) : Prop :=
  ∀ c ∈ cs, c.isDigit = true

/-- Digits with a point behind or among them or none, or a point with digits behind it. -/
inductive IsMantissa : List Char → Prop
  | whole {ds : List Char} (hne : ds ≠ []) (hds : Digits ds) : IsMantissa ds
  | pointed {ds es : List Char} (hne : ds ≠ []) (hds : Digits ds) (hes : Digits es) :
      IsMantissa (ds ++ '.' :: es)
  | part {es : List Char} (hne : es ≠ []) (hes : Digits es) : IsMantissa ('.' :: es)

/-- The sign of a power of ten, or none. -/
inductive IsSign : List Char → Prop
  | none : IsSign []
  | plus : IsSign ['+']
  | minus : IsSign ['-']

/-- A power of ten, or nothing. -/
inductive IsExponent : List Char → Prop
  | none : IsExponent []
  | power {e : Char} {sign ds : List Char} (he : e = 'e' ∨ e = 'E') (hsign : IsSign sign)
      (hne : ds ≠ []) (hds : Digits ds) : IsExponent (e :: (sign ++ ds))

/-- A number as it is written. -/
inductive IsNumber : List Char → Prop
  | mk {m x : List Char} (hm : IsMantissa m) (hx : IsExponent x) : IsNumber (m ++ x)

/-- A name as it is written. -/
inductive IsName : List Char → Prop
  | mk {c : Char} {cs : List Char} (hc : startsName c = true)
      (hcs : ∀ d ∈ cs, continuesName d = true) : IsName (c :: cs)

/-- The characters write the lexeme. -/
inductive Writes : List Char → Token → Prop
  | number {cs : List Char} (h : IsNumber cs) : Writes cs (.number (String.ofList cs))
  | name {cs : List Char} (h : IsName cs) : Writes cs (.name (String.ofList cs))
  | plus : Writes ['+'] .plus
  | minus : Writes ['-'] .minus
  | asterisk : Writes ['*'] .times
  | cross : Writes ['×'] .times
  | dot : Writes ['·'] .times
  | slash : Writes ['/'] .divide
  | obelus : Writes ['÷'] .divide
  | percent : Writes ['%'] .modulo
  | caret : Writes ['^'] .power
  | leftParen : Writes ['('] .leftParen
  | rightParen : Writes [')'] .rightParen
  | comma : Writes [','] .comma

/-- The characters write the lexemes, one behind the other, with blanks anywhere between them. -/
inductive Spells : List Char → List Token → Prop
  | nil : Spells [] []
  | blank {c : Char} {cs : List Char} {ts : List Token} (hc : isBlank c = true)
      (h : Spells cs ts) : Spells (c :: cs) ts
  | lexeme {l cs : List Char} {t : Token} {ts : List Token} (hl : Writes l t)
      (h : Spells cs ts) : Spells (l ++ cs) (t :: ts)

/-! ### The rules -/

/-- The lexeme stands for the operator between the parts of a sum. -/
inductive IsAdditive : Token → Operator → Prop
  | plus : IsAdditive .plus .add
  | minus : IsAdditive .minus .subtract

/-- The lexeme stands for the operator between the parts of a product. -/
inductive IsMultiplicative : Token → Operator → Prop
  | times : IsMultiplicative .times .multiply
  | divide : IsMultiplicative .divide .divide
  | modulo : IsMultiplicative .modulo .modulo

mutual

/-- `sum` -/
inductive IsSum : List Token → Expr → Prop
  | product {ts : List Token} {e : Expr} (h : IsProduct ts e) : IsSum ts e
  | step {ts us : List Token} {t : Token} {op : Operator} {e f : Expr} (h : IsSum ts e)
      (ht : IsAdditive t op) (h' : IsProduct us f) : IsSum (ts ++ t :: us) (.binary op e f)

/-- `product` -/
inductive IsProduct : List Token → Expr → Prop
  | signed {ts : List Token} {e : Expr} (h : IsSigned ts e) : IsProduct ts e
  | step {ts us : List Token} {t : Token} {op : Operator} {e f : Expr} (h : IsProduct ts e)
      (ht : IsMultiplicative t op) (h' : IsSigned us f) :
      IsProduct (ts ++ t :: us) (.binary op e f)

/-- `signed` -/
inductive IsSigned : List Token → Expr → Prop
  | minus {ts : List Token} {e : Expr} (h : IsSigned ts e) : IsSigned (.minus :: ts) (.negate e)
  | plus {ts : List Token} {e : Expr} (h : IsSigned ts e) : IsSigned (.plus :: ts) (.keep e)
  | power {ts : List Token} {e : Expr} (h : IsPower ts e) : IsSigned ts e

/-- `power` -/
inductive IsPower : List Token → Expr → Prop
  | primary {ts : List Token} {e : Expr} (h : IsPrimary ts e) : IsPower ts e
  | raise {ts us : List Token} {e f : Expr} (h : IsPrimary ts e) (h' : IsSigned us f) :
      IsPower (ts ++ .power :: us) (.binary .power e f)

/-- `primary` -/
inductive IsPrimary : List Token → Expr → Prop
  | number (text : String) : IsPrimary [.number text] (.number text)
  | name (x : String) : IsPrimary [.name x] (.name x)
  | callNone (f : String) : IsPrimary [.name f, .leftParen, .rightParen] (.call f [])
  | call {ts : List Token} {es : List Expr} (f : String) (h : IsArguments ts es) :
      IsPrimary (.name f :: .leftParen :: (ts ++ [.rightParen])) (.call f es)
  | paren {ts : List Token} {e : Expr} (h : IsSum ts e) :
      IsPrimary (.leftParen :: (ts ++ [.rightParen])) e

/-- `sum { , sum }` -/
inductive IsArguments : List Token → List Expr → Prop
  | one {ts : List Token} {e : Expr} (h : IsSum ts e) : IsArguments ts [e]
  | more {ts us : List Token} {e : Expr} {es : List Expr} (h : IsSum ts e)
      (h' : IsArguments us es) : IsArguments (ts ++ .comma :: us) (e :: es)

end

/-- The text is a sentence of the grammar, with the tree. -/
def Sentence (text : String) (e : Expr) : Prop :=
  ∃ ts, Spells text.toList ts ∧ IsSum ts e

/-! ### Numbers and names stand apart -/

/-- Is the lexeme a number or a name? -/
def Token.isWord : Token → Bool
  | .number _ | .name _ => true
  | _ => false

/-- Is the lexeme one of those that the grammar knows? -/
def Token.isKnown : Token → Bool
  | .stray _ => false
  | _ => true

/-- No two words stand side by side, and all lexemes are known. -/
structure Tidy (ts : List Token) : Prop where
  apart : ts.IsChain fun t u => t.isWord = false ∨ u.isWord = false
  known : ∀ t ∈ ts, t.isKnown = true

variable {t u : Token} {ts us : List Token}

theorem tidy_nil : Tidy [] :=
  ⟨List.IsChain.nil, fun _ ht => absurd ht List.not_mem_nil⟩

theorem Tidy.cons (h : Tidy ts) (hword : t.isWord = false) (hknown : t.isKnown = true) :
    Tidy (t :: ts) := by
  refine ⟨?_, ?_⟩
  · cases ts with
    | nil => exact List.isChain_singleton t
    | cons u us => exact List.isChain_cons_cons.2 ⟨Or.inl hword, h.apart⟩
  · intro u hu
    rcases List.mem_cons.1 hu with rfl | hu
    · exact hknown
    · exact h.known u hu

/-- A word may stand in front of a lexeme that is none. -/
theorem Tidy.word (h : Tidy (u :: ts)) (hu : u.isWord = false) (hknown : t.isKnown = true) :
    Tidy (t :: u :: ts) := by
  refine ⟨List.isChain_cons_cons.2 ⟨Or.inr hu, h.apart⟩, ?_⟩
  intro v hv
  rcases List.mem_cons.1 hv with rfl | hv
  · exact hknown
  · exact h.known v hv

theorem Tidy.append (h : Tidy ts) (h' : Tidy us) (hword : t.isWord = false)
    (hknown : t.isKnown = true) : Tidy (ts ++ t :: us) := by
  have hcons := h'.cons hword hknown
  refine ⟨List.IsChain.append h.apart hcons.apart ?_, ?_⟩
  · intro x _ y hy
    cases hy
    exact Or.inr hword
  · intro u hu
    rcases List.mem_append.1 hu with hu | hu
    · exact h.known u hu
    · exact hcons.known u hu

theorem Tidy.tail (h : Tidy (t :: ts)) : Tidy ts :=
  ⟨h.apart.tail, fun u hu => h.known u (List.mem_cons_of_mem t hu)⟩

theorem Tidy.next (h : Tidy (t :: ts)) (ht : t.isWord = true) :
    ∀ u ∈ ts.head?, u.isWord = false := by
  intro u hu
  cases ts with
  | nil => cases hu
  | cons v ts =>
      cases hu
      rcases (List.isChain_cons_cons.1 h.apart).1 with hword | hword
      · rw [ht] at hword
        cases hword
      · exact hword

theorem IsAdditive.tidy {op : Operator} (h : IsAdditive t op) :
    t.isWord = false ∧ t.isKnown = true := by
  cases h <;> exact ⟨rfl, rfl⟩

theorem IsMultiplicative.tidy {op : Operator} (h : IsMultiplicative t op) :
    t.isWord = false ∧ t.isKnown = true := by
  cases h <;> exact ⟨rfl, rfl⟩

mutual

theorem IsSum.tidy : ∀ {ts : List Token} {e : Expr}, IsSum ts e → Tidy ts
  | _, _, .product h => h.tidy
  | _, _, .step h ht h' => h.tidy.append h'.tidy ht.tidy.1 ht.tidy.2

theorem IsProduct.tidy : ∀ {ts : List Token} {e : Expr}, IsProduct ts e → Tidy ts
  | _, _, .signed h => h.tidy
  | _, _, .step h ht h' => h.tidy.append h'.tidy ht.tidy.1 ht.tidy.2

theorem IsSigned.tidy : ∀ {ts : List Token} {e : Expr}, IsSigned ts e → Tidy ts
  | _, _, .minus h => h.tidy.cons rfl rfl
  | _, _, .plus h => h.tidy.cons rfl rfl
  | _, _, .power h => h.tidy

theorem IsPower.tidy : ∀ {ts : List Token} {e : Expr}, IsPower ts e → Tidy ts
  | _, _, .primary h => h.tidy
  | _, _, .raise h h' => h.tidy.append h'.tidy rfl rfl

theorem IsPrimary.tidy : ∀ {ts : List Token} {e : Expr}, IsPrimary ts e → Tidy ts
  | _, _, .number text => ⟨List.isChain_singleton _, by simp [Token.isKnown]⟩
  | _, _, .name x => ⟨List.isChain_singleton _, by simp [Token.isKnown]⟩
  | _, _, .callNone f => ((tidy_nil.cons rfl rfl).cons rfl rfl).word rfl rfl
  | _, _, .call f h => ((h.tidy.append tidy_nil rfl rfl).cons rfl rfl).word rfl rfl
  | _, _, .paren h => (h.tidy.append tidy_nil rfl rfl).cons rfl rfl

theorem IsArguments.tidy : ∀ {ts : List Token} {es : List Expr}, IsArguments ts es → Tidy ts
  | _, _, .one h => h.tidy
  | _, _, .more h h' => h.tidy.append h'.tidy rfl rfl

end

end BareBones.Arithmetic
