/-
Climbing finds the tree of the grammar.

The parser knows no sums and no products, only how tightly operators bind.  What it reads with a
bound is a sum if the bound lets all operators through, a product if it stops those of sums, and a
signed expression if it stops those of products as well.  The other way round, a sum is read up to
its end by a bound that lets everything through, and so on for the tighter rules.

Both ways rest on what stands behind.  A bound that stops at some operators leaves one of them, or
no operator at all, as the next lexeme.  So a power is never left behind a sign, nor a product
behind the last part of a sum.
-/
import BareBones.Arithmetic.Parser
import BareBones.Proofs.Arithmetic.Grammar

namespace BareBones.Arithmetic

/-- The kinds of the lexemes. -/
def tokens (ls : List Lexeme) : List Token :=
  ls.map Lexeme.token

@[simp] theorem tokens_nil : tokens [] = [] := rfl

@[simp] theorem tokens_cons (t : Lexeme) (ls : List Lexeme) :
    tokens (t :: ls) = t.token :: tokens ls := rfl

@[simp] theorem tokens_append (ls ks : List Lexeme) :
    tokens (ls ++ ks) = tokens ls ++ tokens ks := by
  simp [tokens]

/-- No operator that binds more tightly than the bound comes next. -/
def Stops (bound : Nat) (ls : List Lexeme) : Prop :=
  ∀ t rest, ls = t :: rest → ∀ op, t.token.operator? = some op → op.precedence ≤ bound

theorem Stops.mono {b b' : Nat} {ls : List Lexeme} (h : Stops b ls) (hb : b ≤ b') :
    Stops b' ls := by
  intro t rest hls op hop
  exact Nat.le_trans (h t rest hls op hop) hb

theorem stops_nil (b : Nat) : Stops b [] := by
  intro t rest hls
  cases hls

theorem Stops.precedence_le {b : Nat} {t : Lexeme} {ls : List Lexeme} {op : Operator}
    (h : Stops b (t :: ls)) (hop : t.token.operator? = some op) : op.precedence ≤ b :=
  h t ls rfl op hop

/-- There is nothing between a product and a power in the table. -/
theorem Stops.tighten {b : Nat} {ls : List Lexeme} (h : Stops b ls) (hb : b < 40) :
    Stops 20 ls := by
  intro t rest hls op hop
  have hle := h t rest hls op hop
  cases op with
  | power =>
      have : Operator.power.precedence = 40 := rfl
      omega
  | _ => simp [Operator.precedence]

/-! ### What is read is in the grammar -/

/-- What was read with the bound. -/
inductive Climbed (bound : Nat) (ts : List Token) (e : Expr) : Prop
  | signed (h : IsSigned ts e)
  | product (hb : bound < 20) (h : IsProduct ts e)
  | sum (hb : bound < 10) (h : IsSum ts e)

/-- What was read so far, where the lexemes come next.  An operator among them that is taken finds
its left side here. -/
inductive Held (bound : Nat) (ls : List Lexeme) (ts : List Token) (e : Expr) : Prop
  | primary (h : IsPrimary ts e)
  | signed (h : IsSigned ts e) (hs : Stops 20 ls)
  | product (hb : bound < 20) (h : IsProduct ts e) (hs : Stops 20 ls)
  | sum (hb : bound < 10) (h : IsSum ts e) (hs : Stops 10 ls)

variable {b n : Nat} {ls rest : List Lexeme} {ts us : List Token} {e f : Expr}

theorem Climbed.isSum (h : Climbed b ts e) : IsSum ts e := by
  cases h with
  | signed h => exact .product (.signed h)
  | product _ h => exact .product h
  | sum _ h => exact h

theorem Climbed.isProduct (h : Climbed b ts e) (hb : 10 ≤ b) : IsProduct ts e := by
  cases h with
  | signed h => exact .signed h
  | product _ h => exact h
  | sum hb' _ => omega

theorem Climbed.isSigned (h : Climbed b ts e) (hb : 20 ≤ b) : IsSigned ts e := by
  cases h with
  | signed h => exact h
  | product hb' _ => omega
  | sum hb' _ => omega

theorem Held.climbed (h : Held b ls ts e) : Climbed b ts e := by
  cases h with
  | primary h => exact .signed (.power (.primary h))
  | signed h _ => exact .signed h
  | product hb h _ => exact .product hb h
  | sum hb h _ => exact .sum hb h

/-- The left side of a power. -/
theorem Held.isPrimary {t : Lexeme} (h : Held b (t :: ls) ts e)
    (ht : t.token.operator? = some .power) : IsPrimary ts e := by
  have hprec : Operator.power.precedence = 40 := rfl
  cases h with
  | primary h => exact h
  | signed _ hs =>
      have := hs.precedence_le ht
      omega
  | product _ _ hs =>
      have := hs.precedence_le ht
      omega
  | sum _ _ hs =>
      have := hs.precedence_le ht
      omega

/-- The left side of a product. -/
theorem Held.isProduct {t : Lexeme} {op : Operator} (h : Held b (t :: ls) ts e)
    (ht : t.token.operator? = some op) (hop : op.precedence = 20) : IsProduct ts e := by
  cases h with
  | primary h => exact .signed (.power (.primary h))
  | signed h _ => exact .signed h
  | product _ h _ => exact h
  | sum _ _ hs =>
      have := hs.precedence_le ht
      omega

/-- An operator with both its sides is held again. -/
theorem Held.step {t : Lexeme} {op : Operator} (h : Held b (t :: ls) ts e)
    (ht : t.token.operator? = some op) (hb : b < op.precedence)
    (hf : Climbed op.rightBound us f) (hs : Stops op.rightBound rest) :
    Held b rest (ts ++ t.token :: us) (.binary op e f) := by
  have hsum : ∀ {t : Token}, IsAdditive t op → op.precedence = 10 → op.rightBound = 10 →
      Held b rest (ts ++ t :: us) (.binary op e f) := by
    intro t hop hprec hbound
    rw [hprec] at hb
    rw [hbound] at hf hs
    exact .sum hb (.step h.climbed.isSum hop (hf.isProduct (Nat.le_refl _))) hs
  have hproduct : ∀ {t' : Token}, IsMultiplicative t' op → op.precedence = 20 →
      op.rightBound = 20 → Held b rest (ts ++ t' :: us) (.binary op e f) := by
    intro t' hop hprec hbound
    rw [hprec] at hb
    rw [hbound] at hf hs
    exact .product hb (.step (h.isProduct ht hprec) hop (hf.isSigned (Nat.le_refl _))) hs
  have hpower : op = .power → Held b rest (ts ++ .power :: us) (.binary op e f) := by
    rintro rfl
    exact .signed (.power (.raise (h.isPrimary ht) (hf.isSigned (by decide))))
      (hs.tighten (by decide))
  cases htoken : t.token <;> rw [htoken] at ht <;> cases ht
  · exact hsum .plus rfl rfl
  · exact hsum .minus rfl rfl
  · exact hproduct .times rfl rfl
  · exact hproduct .divide rfl rfl
  · exact hproduct .modulo rfl rfl
  · exact hpower rfl

/-- With the fuel, all functions of the parser read what the grammar says. -/
structure Sound (n : Nat) : Prop where
  ofClimb : ∀ {b ls e rest}, climb n b ls = .ok (e, rest) →
    ∃ used, ls = used ++ rest ∧ Climbed b (tokens used) e ∧ Stops b rest
  ofClimbOn : ∀ {b ts e ls e' rest}, Held b ls ts e → climbOn n b e ls = .ok (e', rest) →
    ∃ used, ls = used ++ rest ∧ Climbed b (ts ++ tokens used) e' ∧ Stops b rest
  ofOperand : ∀ {ls e rest}, operand n ls = .ok (e, rest) →
    ∃ used, ls = used ++ rest ∧ ∀ b, Held b rest (tokens used) e
  ofArguments : ∀ {ls es rest}, arguments n ls = .ok (es, rest) →
    ∃ used offset, ls = used ++ ⟨.rightParen, offset⟩ :: rest ∧ IsArguments (tokens used) es

theorem Sound.climb_succ (h : Sound n) (hx : climb (n + 1) b ls = .ok (e, rest)) :
    ∃ used, ls = used ++ rest ∧ Climbed b (tokens used) e ∧ Stops b rest := by
  simp only [climb] at hx
  split at hx
  · cases hx
  · next hoperand =>
    obtain ⟨used, rfl, hheld⟩ := h.ofOperand hoperand
    obtain ⟨used', rfl, hclimbed, hstops⟩ := h.ofClimbOn (hheld b) hx
    refine ⟨used ++ used', by rw [List.append_assoc], ?_, hstops⟩
    rw [tokens_append]
    exact hclimbed

theorem Sound.climbOn_succ (h : Sound n) {e' : Expr} (hheld : Held b ls ts e)
    (hx : climbOn (n + 1) b e ls = .ok (e', rest)) :
    ∃ used, ls = used ++ rest ∧ Climbed b (ts ++ tokens used) e' ∧ Stops b rest := by
  have hstop : ∀ {ls}, Held b ls ts e → Stops b ls →
      ∃ used, ls = used ++ ls ∧ Climbed b (ts ++ tokens used) e ∧ Stops b ls := by
    intro ls hheld hstops
    refine ⟨[], rfl, ?_, hstops⟩
    rw [tokens_nil, List.append_nil]
    exact hheld.climbed
  cases ls with
  | nil =>
      rw [climbOn] at hx
      cases hx
      exact hstop hheld (stops_nil b)
  | cons t ls =>
      rw [climbOn] at hx
      cases hop : t.token.operator? with
      | none =>
          simp only [hop] at hx
          cases hx
          refine hstop hheld ?_
          intro t' rest' heq op hop'
          cases heq
          rw [hop] at hop'
          cases hop'
      | some op =>
          simp only [hop] at hx
          split at hx
          · next hlt =>
            split at hx
            · cases hx
            · next hright =>
              obtain ⟨used, rfl, hclimbed, hstops⟩ := h.ofClimb hright
              obtain ⟨used', rfl, hclimbed', hstops'⟩ :=
                h.ofClimbOn (hheld.step hop hlt hclimbed hstops) hx
              refine ⟨t :: (used ++ used'), by simp, ?_, hstops'⟩
              simpa using hclimbed'
          · next hlt =>
            cases hx
            refine hstop hheld ?_
            intro t' rest' heq op' hop'
            cases heq
            rw [hop] at hop'
            cases hop'
            omega

/-- A name is a call if a parenthesis stands behind it. -/
theorem Sound.name_succ (h : Sound n) {x : String} {offset : Nat}
    (hx : operand (n + 1) (⟨.name x, offset⟩ :: ls) = .ok (e, rest)) :
    ∃ used, ls = used ++ rest ∧ IsPrimary (.name x :: tokens used) e := by
  simp only [operand] at hx
  split at hx
  · next o o' _ =>
    cases hx
    exact ⟨[⟨.leftParen, o⟩, ⟨.rightParen, o'⟩], rfl, .callNone x⟩
  · next o _ _ =>
    split at hx
    · cases hx
    · next hargs =>
      cases hx
      obtain ⟨used, o', rfl, hused⟩ := h.ofArguments hargs
      refine ⟨⟨.leftParen, o⟩ :: (used ++ [⟨.rightParen, o'⟩]), by simp, ?_⟩
      simpa using IsPrimary.call x hused
  · cases hx
    exact ⟨[], rfl, .name x⟩

theorem Sound.operand_succ (h : Sound n) (hx : operand (n + 1) ls = .ok (e, rest)) :
    ∃ used, ls = used ++ rest ∧ ∀ b, Held b rest (tokens used) e := by
  -- What a sign stands before leaves no power behind.
  have hsign : ∀ {ls : List Lexeme} {e rest}, climb n (signPrecedence - 1) ls = .ok (e, rest) →
      ∃ used, ls = used ++ rest ∧ IsSigned (tokens used) e ∧ Stops 20 rest := by
    intro ls e rest hclimb
    obtain ⟨used, hls, hclimbed, hstops⟩ := h.ofClimb hclimb
    exact ⟨used, hls, hclimbed.isSigned (by decide), hstops.tighten (by decide)⟩
  cases ls with
  | nil =>
      rw [operand] at hx
      cases hx
  | cons t ls =>
      obtain ⟨token, offset⟩ := t
      cases token
      case name f =>
        obtain ⟨used, rfl, hprimary⟩ := h.name_succ hx
        exact ⟨⟨.name f, offset⟩ :: used, rfl, fun b => .primary hprimary⟩
      all_goals simp only [operand] at hx
      case minus =>
        split at hx
        · cases hx
        · next hclimb =>
          cases hx
          obtain ⟨used, rfl, hsigned, hstops⟩ := hsign hclimb
          exact ⟨⟨.minus, offset⟩ :: used, rfl, fun b => .signed (.minus hsigned) hstops⟩
      case plus =>
        split at hx
        · cases hx
        · next hclimb =>
          cases hx
          obtain ⟨used, rfl, hsigned, hstops⟩ := hsign hclimb
          exact ⟨⟨.plus, offset⟩ :: used, rfl, fun b => .signed (.plus hsigned) hstops⟩
      case number text =>
        cases hx
        exact ⟨[⟨.number text, offset⟩], rfl, fun b => .primary (.number text)⟩
      case leftParen =>
        split at hx
        · cases hx
        · next offset' _ hclimb =>
          cases hx
          obtain ⟨used, rfl, hclimbed, -⟩ := h.ofClimb hclimb
          refine ⟨⟨.leftParen, offset⟩ :: (used ++ [⟨.rightParen, offset'⟩]), by simp, ?_⟩
          intro b
          simpa using Held.primary (.paren hclimbed.isSum)
        · cases hx
      all_goals cases hx

theorem Sound.arguments_succ (h : Sound n) {es : List Expr}
    (hx : arguments (n + 1) ls = .ok (es, rest)) :
    ∃ used offset, ls = used ++ ⟨.rightParen, offset⟩ :: rest ∧ IsArguments (tokens used) es := by
  simp only [arguments] at hx
  split at hx
  · cases hx
  · next hclimb =>
    cases hx
    obtain ⟨used, rfl, hclimbed, -⟩ := h.ofClimb hclimb
    exact ⟨used, _, rfl, .one hclimbed.isSum⟩
  · next offset _ hclimb =>
    split at hx
    · cases hx
    · next hargs =>
      cases hx
      obtain ⟨used, rfl, hclimbed, -⟩ := h.ofClimb hclimb
      obtain ⟨used', offset', rfl, hused⟩ := h.ofArguments hargs
      refine ⟨used ++ ⟨.comma, offset⟩ :: used', offset', by simp, ?_⟩
      simpa using IsArguments.more hclimbed.isSum hused
  · cases hx

theorem sound : ∀ n, Sound n := by
  intro n
  induction n with
  | zero =>
      refine ⟨?_, ?_, ?_, ?_⟩
      · intro b ls e rest hx
        rw [climb] at hx
        cases hx
      · intro b ts e ls e' rest _ hx
        rw [climbOn] at hx
        cases hx
      · intro ls e rest hx
        rw [operand] at hx
        cases hx
      · intro ls es rest hx
        rw [arguments] at hx
        cases hx
  | succ n ih => exact ⟨ih.climb_succ, ih.climbOn_succ, ih.operand_succ, ih.arguments_succ⟩

/-! ### What is in the grammar is read -/

/-- An expression that was read with the bound ends before the lexemes. -/
structure Ends (bound : Nat) (ks : List Lexeme) : Prop where
  stops : Stops bound ks
  noParen : ∀ t rest, ks = t :: rest → t.token ≠ .leftParen

variable {ks : List Lexeme} {fuel : Nat}

theorem Ends.mono {b' : Nat} (h : Ends b ks) (hb : b ≤ b') : Ends b' ks :=
  ⟨h.stops.mono hb, h.noParen⟩

theorem ends_nil (b : Nat) : Ends b [] :=
  ⟨stops_nil b, fun _ _ h => by cases h⟩

theorem ends_operator {t : Lexeme} {op : Operator} (ht : t.token.operator? = some op)
    (hop : op.precedence ≤ b) (ks : List Lexeme) : Ends b (t :: ks) := by
  refine ⟨?_, ?_⟩
  · intro t' rest heq op' hop'
    cases heq
    rw [ht] at hop'
    cases hop'
    exact hop
  · intro t' rest heq hparen
    cases heq
    rw [hparen] at ht
    cases ht

/-- A parenthesis or a comma ends an expression, whatever the bound. -/
theorem ends_closer {t : Lexeme} (ht : t.token = .rightParen ∨ t.token = .comma)
    (ks : List Lexeme) : Ends b (t :: ks) := by
  refine ⟨?_, ?_⟩
  · intro t' rest heq op hop
    cases heq
    rcases ht with ht | ht <;> rw [ht] at hop <;> cases hop
  · intro t' rest heq hparen
    cases heq
    rcases ht with ht | ht <;> rw [ht] at hparen <;> cases hparen

theorem climbOn_of_stops (h : Stops b ks) (hfuel : 0 < fuel) :
    climbOn fuel b e ks = .ok (e, ks) := by
  obtain ⟨n, rfl⟩ : ∃ n, fuel = n + 1 := ⟨fuel - 1, by omega⟩
  cases ks with
  | nil => rw [climbOn]
  | cons t ks =>
      rw [climbOn]
      cases hop : t.token.operator? with
      | none => rfl
      | some op =>
          have hle := h.precedence_le hop
          simp only
          rw [if_neg (by omega)]

/-- An operator with its right side, where the right side is read up to the end. -/
theorem climbOn_operator {t : Lexeme} {op : Operator} (ht : t.token.operator? = some op)
    (hb : b < op.precedence) (hf : climb fuel op.rightBound ls = .ok (f, ks)) :
    climbOn (fuel + 1) b e (t :: ls) = climbOn fuel b (.binary op e f) ks := by
  rw [climbOn]
  simp only [ht, if_pos hb, hf]

theorem climb_of_operand (h : operand fuel ls = .ok (e, ks)) :
    climb (fuel + 1) b ls = climbOn fuel b e ks := by
  rw [climb]
  simp only [h]

theorem operand_name {t : Lexeme} {x : String} (ht : t.token = .name x)
    (h : ∀ u rest, ks = u :: rest → u.token ≠ .leftParen) :
    operand (fuel + 1) (t :: ks) = .ok (.name x, ks) := by
  rw [operand]
  simp only [ht]
  cases ks with
  | nil => rfl
  | cons u ks =>
      obtain ⟨token, offset⟩ := u
      have hne := h _ _ rfl
      cases token with
      | leftParen => exact absurd rfl hne
      | _ => rfl

theorem operand_call {t u : Lexeme} {x : String} {es : List Expr} (ht : t.token = .name x)
    (hu : u.token = .leftParen) (hls : ∀ v rest, ls = v :: rest → v.token ≠ .rightParen)
    (h : arguments fuel ls = .ok (es, ks)) :
    operand (fuel + 1) (t :: u :: ls) = .ok (.call x es, ks) := by
  obtain ⟨token, offset⟩ := u
  cases hu
  rw [operand]
  simp only [ht]
  cases ls with
  | nil => simp only [h]
  | cons v ls =>
      obtain ⟨token, offset'⟩ := v
      have hne := hls _ _ rfl
      cases token with
      | rightParen => exact absurd rfl hne
      | _ => simp only [h]

/-- The lexeme opens an operand. -/
def Token.opensOperand : Token → Bool
  | .minus | .plus | .number _ | .name _ | .leftParen => true
  | _ => false

/-- The first of the lexemes opens an operand. -/
def Opens (ts : List Token) : Prop :=
  ∃ t us, ts = t :: us ∧ t.opensOperand = true

theorem Opens.append {us : List Token} (h : Opens ts) : Opens (ts ++ us) := by
  obtain ⟨t, vs, rfl, ht⟩ := h
  exact ⟨t, vs ++ us, rfl, ht⟩

theorem Opens.ne_nil (h : Opens (tokens ls)) : ls ≠ [] := by
  rintro rfl
  obtain ⟨t, us, heq, -⟩ := h
  cases heq

mutual

theorem IsSum.opens : ∀ {ts : List Token} {e : Expr}, IsSum ts e → Opens ts
  | _, _, .product h => h.opens
  | _, _, .step h _ _ => h.opens.append

theorem IsProduct.opens : ∀ {ts : List Token} {e : Expr}, IsProduct ts e → Opens ts
  | _, _, .signed h => h.opens
  | _, _, .step h _ _ => h.opens.append

theorem IsSigned.opens : ∀ {ts : List Token} {e : Expr}, IsSigned ts e → Opens ts
  | _, _, .minus _ => ⟨_, _, rfl, rfl⟩
  | _, _, .plus _ => ⟨_, _, rfl, rfl⟩
  | _, _, .power h => h.opens

theorem IsPower.opens : ∀ {ts : List Token} {e : Expr}, IsPower ts e → Opens ts
  | _, _, .primary h => h.opens
  | _, _, .raise h _ => h.opens.append

theorem IsPrimary.opens : ∀ {ts : List Token} {e : Expr}, IsPrimary ts e → Opens ts
  | _, _, .number _ => ⟨_, _, rfl, rfl⟩
  | _, _, .name _ => ⟨_, _, rfl, rfl⟩
  | _, _, .callNone _ => ⟨_, _, rfl, rfl⟩
  | _, _, .call _ _ => ⟨_, _, rfl, rfl⟩
  | _, _, .paren _ => ⟨_, _, rfl, rfl⟩

end

theorem IsArguments.opens {es : List Expr} (h : IsArguments ts es) : Opens ts := by
  cases h with
  | one h => exact h.opens
  | more h _ => exact h.opens.append

theorem IsAdditive.operator? {t : Token} {op : Operator} (h : IsAdditive t op) :
    t.operator? = some op ∧ op.precedence = 10 ∧ op.rightBound = 10 := by
  cases h <;> exact ⟨rfl, rfl, rfl⟩

theorem IsMultiplicative.operator? {t : Token} {op : Operator} (h : IsMultiplicative t op) :
    t.operator? = some op ∧ op.precedence = 20 ∧ op.rightBound = 20 := by
  cases h <;> exact ⟨rfl, rfl, rfl⟩

theorem tokens_eq_append_cons {t : Token} (h : tokens ls = ts ++ t :: us) :
    ∃ l₁ l l₂, ls = l₁ ++ l :: l₂ ∧ tokens l₁ = ts ∧ l.token = t ∧ tokens l₂ = us := by
  obtain ⟨l₁, l', rfl, h₁, h₂⟩ := List.map_eq_append_iff.1 h
  obtain ⟨l, l₂, rfl, hl, h₂⟩ := List.map_eq_cons_iff.1 h₂
  exact ⟨l₁, l, l₂, rfl, h₁, hl, h₂⟩

/-- A climb that comes to the end of an expression, with the fuel for what follows.  The lexemes
of the expression take two units each at most. -/
def Arrives (fuel b : Nat) (ls ks : List Lexeme) (e : Expr) : Prop :=
  ∃ left, fuel ≤ left + 2 * ls.length ∧ climb fuel b (ls ++ ks) = climbOn left b e ks

theorem Arrives.ok (h : Arrives fuel b ls ks e) (hfuel : 2 * ls.length < fuel)
    (hs : Stops b ks) : climb fuel b (ls ++ ks) = .ok (e, ks) := by
  obtain ⟨left, hleft, hclimb⟩ := h
  rw [hclimb]
  exact climbOn_of_stops hs (by omega)

/-- Behind an expression come an operator and its right side. -/
theorem Arrives.step {l : Lexeme} {l₁ l₂ : List Lexeme} {op : Operator}
    (h : Arrives fuel b l₁ (l :: l₂ ++ ks) e) (hop : l.token.operator? = some op)
    (hb : b < op.precedence) (hfuel : 2 * (l₁ ++ l :: l₂).length < fuel)
    (hright : ∀ {fuel}, 2 * l₂.length < fuel → climb fuel op.rightBound (l₂ ++ ks) = .ok (f, ks)) :
    Arrives fuel b (l₁ ++ l :: l₂) ks (.binary op e f) := by
  obtain ⟨left, hleft, hclimb⟩ := h
  simp only [List.length_append, List.length_cons] at hfuel
  obtain ⟨n, rfl⟩ : ∃ n, left = n + 1 := ⟨left - 1, by omega⟩
  refine ⟨n, ?_, ?_⟩
  · simp only [List.length_append, List.length_cons]
    omega
  · rw [List.append_assoc, hclimb]
    exact climbOn_operator hop hb (hright (by omega))

/-- An operand, read with any bound. -/
theorem arrives_of_operand (h : ∀ {fuel}, 2 * ls.length ≤ fuel →
    operand fuel (ls ++ ks) = .ok (e, ks)) (hne : ls ≠ []) (hfuel : 2 * ls.length < fuel) :
    Arrives fuel b ls ks e := by
  have hpos : 0 < ls.length := List.length_pos_iff.2 hne
  obtain ⟨n, rfl⟩ : ∃ n, fuel = n + 1 := ⟨fuel - 1, by omega⟩
  exact ⟨n, by omega, climb_of_operand (h (by omega))⟩

/-- An operand behind a sign. -/
theorem operand_sign {t : Lexeme} (g : Expr → Expr)
    (ht : ∀ {fuel ls e rest}, climb fuel (signPrecedence - 1) ls = .ok (e, rest) →
      operand (fuel + 1) (t :: ls) = .ok (g e, rest)) (hends : Ends 20 ks)
    (h : ∀ {fuel}, 2 * ls.length < fuel → Arrives fuel (signPrecedence - 1) ls ks e)
    (hfuel : 2 * (t :: ls).length ≤ fuel) : operand fuel (t :: ls ++ ks) = .ok (g e, ks) := by
  simp only [List.length_cons] at hfuel
  obtain ⟨n, rfl⟩ : ∃ n, fuel = n + 1 := ⟨fuel - 1, by omega⟩
  have hlt : 2 * ls.length < n := by omega
  exact ht ((h hlt).ok hlt (hends.stops.mono (by decide)))

theorem operand_minus {t : Lexeme} (ht : t.token = .minus) {fuel : Nat} {ls : List Lexeme}
    {e : Expr} {rest : List Lexeme} (h : climb fuel (signPrecedence - 1) ls = .ok (e, rest)) :
    operand (fuel + 1) (t :: ls) = .ok (.negate e, rest) := by
  rw [operand]
  simp only [ht, h]

theorem operand_plus {t : Lexeme} (ht : t.token = .plus) {fuel : Nat} {ls : List Lexeme}
    {e : Expr} {rest : List Lexeme} (h : climb fuel (signPrecedence - 1) ls = .ok (e, rest)) :
    operand (fuel + 1) (t :: ls) = .ok (.keep e, rest) := by
  rw [operand]
  simp only [ht, h]

mutual

theorem IsSum.arrives : ∀ {ts : List Token} {e : Expr}, IsSum ts e → ∀ {ls ks : List Lexeme}
    {b fuel : Nat}, tokens ls = ts → b < 10 → Ends 10 ks → 2 * ls.length < fuel →
    Arrives fuel b ls ks e
  | _, _, .product h, ls, ks, b, fuel, hls, hb, hends, hfuel =>
      h.arrives hls (by omega) (hends.mono (by decide)) hfuel
  | _, _, .step h ht h', ls, ks, b, fuel, hls, hb, hends, hfuel => by
      obtain ⟨l₁, l, l₂, rfl, h₁, rfl, h₂⟩ := tokens_eq_append_cons hls
      obtain ⟨hop, hprec, hbound⟩ := ht.operator?
      have hleft : Arrives fuel b l₁ (l :: l₂ ++ ks) _ :=
        h.arrives h₁ hb (ends_operator hop (by omega) _) (by simp at hfuel; omega)
      refine hleft.step hop (by omega) hfuel ?_
      intro fuel' hfuel'
      rw [hbound]
      exact (h'.arrives h₂ (by omega) (hends.mono (by decide)) hfuel').ok hfuel' hends.stops

theorem IsProduct.arrives : ∀ {ts : List Token} {e : Expr}, IsProduct ts e →
    ∀ {ls ks : List Lexeme} {b fuel : Nat}, tokens ls = ts → b < 20 → Ends 20 ks →
    2 * ls.length < fuel → Arrives fuel b ls ks e
  | _, _, .signed h, ls, ks, b, fuel, hls, hb, hends, hfuel =>
      h.arrives hls (by omega) hends hfuel
  | _, _, .step h ht h', ls, ks, b, fuel, hls, hb, hends, hfuel => by
      obtain ⟨l₁, l, l₂, rfl, h₁, rfl, h₂⟩ := tokens_eq_append_cons hls
      obtain ⟨hop, hprec, hbound⟩ := ht.operator?
      have hleft : Arrives fuel b l₁ (l :: l₂ ++ ks) _ :=
        h.arrives h₁ hb (ends_operator hop (by omega) _) (by simp at hfuel; omega)
      refine hleft.step hop (by omega) hfuel ?_
      intro fuel' hfuel'
      rw [hbound]
      exact (h'.arrives h₂ (by omega) hends hfuel').ok hfuel' hends.stops

theorem IsSigned.arrives : ∀ {ts : List Token} {e : Expr}, IsSigned ts e →
    ∀ {ls ks : List Lexeme} {b fuel : Nat}, tokens ls = ts → b < 40 → Ends 20 ks →
    2 * ls.length < fuel → Arrives fuel b ls ks e
  | _, _, .minus h, ls, ks, b, fuel, hls, hb, hends, hfuel => by
      obtain ⟨t, ls, rfl, ht, hls⟩ := List.map_eq_cons_iff.1 hls
      refine arrives_of_operand ?_ (by simp) hfuel
      intro fuel' hfuel'
      exact operand_sign .negate (operand_minus ht) hends
        (fun hlt => h.arrives hls (by decide) hends hlt) hfuel'
  | _, _, .plus h, ls, ks, b, fuel, hls, hb, hends, hfuel => by
      obtain ⟨t, ls, rfl, ht, hls⟩ := List.map_eq_cons_iff.1 hls
      refine arrives_of_operand ?_ (by simp) hfuel
      intro fuel' hfuel'
      exact operand_sign .keep (operand_plus ht) hends
        (fun hlt => h.arrives hls (by decide) hends hlt) hfuel'
  | _, _, .power h, ls, ks, b, fuel, hls, hb, hends, hfuel => h.arrives hls hb hends hfuel

theorem IsPower.arrives : ∀ {ts : List Token} {e : Expr}, IsPower ts e →
    ∀ {ls ks : List Lexeme} {b fuel : Nat}, tokens ls = ts → b < 40 → Ends 20 ks →
    2 * ls.length < fuel → Arrives fuel b ls ks e
  | _, _, .primary h, ls, ks, b, fuel, hls, hb, hends, hfuel => by
      have hne : ls ≠ [] := Opens.ne_nil (by rw [hls]; exact h.opens)
      exact arrives_of_operand (fun hle => h.operand_eq hls hends.noParen hle) hne hfuel
  | _, _, .raise h h', ls, ks, b, fuel, hls, hb, hends, hfuel => by
      obtain ⟨l₁, l, l₂, rfl, h₁, hl, h₂⟩ := tokens_eq_append_cons hls
      have hop : l.token.operator? = some .power := by rw [hl]; rfl
      have hnext : Ends 40 (l :: l₂ ++ ks) := ends_operator hop (by decide) _
      have hne : l₁ ≠ [] := Opens.ne_nil (by rw [h₁]; exact h.opens)
      have hleft : Arrives fuel b l₁ (l :: l₂ ++ ks) _ :=
        arrives_of_operand (fun hle => h.operand_eq h₁ hnext.noParen hle) hne
          (by simp at hfuel; omega)
      refine hleft.step hop hb hfuel ?_
      intro fuel' hfuel'
      exact (h'.arrives h₂ (by decide) hends hfuel').ok hfuel' (hends.stops.mono (by decide))

theorem IsPrimary.operand_eq : ∀ {ts : List Token} {e : Expr}, IsPrimary ts e →
    ∀ {ls ks : List Lexeme} {fuel : Nat}, tokens ls = ts →
    (∀ t rest, ks = t :: rest → t.token ≠ .leftParen) → 2 * ls.length ≤ fuel →
    operand fuel (ls ++ ks) = .ok (e, ks)
  | _, _, .number text, ls, ks, fuel, hls, hends, hfuel => by
      obtain ⟨t, rfl, ht⟩ := List.map_eq_singleton_iff.1 hls
      obtain ⟨n, rfl⟩ : ∃ n, fuel = n + 1 := ⟨fuel - 1, by simp at hfuel; omega⟩
      rw [List.singleton_append, operand]
      simp only [ht]
  | _, _, .name x, ls, ks, fuel, hls, hends, hfuel => by
      obtain ⟨t, rfl, ht⟩ := List.map_eq_singleton_iff.1 hls
      obtain ⟨n, rfl⟩ : ∃ n, fuel = n + 1 := ⟨fuel - 1, by simp at hfuel; omega⟩
      exact operand_name ht hends
  | _, _, .callNone f, ls, ks, fuel, hls, hends, hfuel => by
      obtain ⟨t, ls, rfl, ht, hls⟩ := List.map_eq_cons_iff.1 hls
      obtain ⟨⟨_, _⟩, ls, rfl, hu, hls⟩ := List.map_eq_cons_iff.1 hls
      obtain ⟨⟨_, _⟩, rfl, hv⟩ := List.map_eq_singleton_iff.1 hls
      obtain ⟨n, rfl⟩ : ∃ n, fuel = n + 1 := ⟨fuel - 1, by simp at hfuel; omega⟩
      cases hu
      cases hv
      rw [List.cons_append, operand]
      simp only [ht]
      rfl
  | _, _, .call f h, ls, ks, fuel, hls, hends, hfuel => by
      obtain ⟨t, ls, rfl, ht, hls⟩ := List.map_eq_cons_iff.1 hls
      obtain ⟨u, ls, rfl, hu, hls⟩ := List.map_eq_cons_iff.1 hls
      obtain ⟨l₁, l, l₂, rfl, h₁, hl, h₂⟩ := tokens_eq_append_cons hls
      cases List.map_eq_nil_iff.1 h₂
      simp only [List.length_cons, List.length_append] at hfuel
      obtain ⟨n, rfl⟩ : ∃ n, fuel = n + 1 := ⟨fuel - 1, by omega⟩
      have hargs : arguments n (l₁ ++ l :: ks) = .ok (_, ks) := h.arguments_eq h₁ hl (by omega)
      simp only [List.cons_append, List.append_assoc, List.nil_append]
      refine operand_call ht hu ?_ hargs
      -- The arguments open with an operand, so not with the parenthesis.
      intro v rest heq hv
      obtain ⟨w, us, hts, hw⟩ := h.opens
      rw [← h₁] at hts
      obtain ⟨x, xs, rfl, hx, -⟩ := List.map_eq_cons_iff.1 hts
      cases heq
      rw [← hx, hv] at hw
      cases hw
  | _, _, .paren h, ls, ks, fuel, hls, hends, hfuel => by
      obtain ⟨t, ls, rfl, ht, hls⟩ := List.map_eq_cons_iff.1 hls
      obtain ⟨l₁, ⟨_, offset⟩, l₂, rfl, h₁, hl, h₂⟩ := tokens_eq_append_cons hls
      cases List.map_eq_nil_iff.1 h₂
      simp only [List.length_cons, List.length_append] at hfuel
      obtain ⟨n, rfl⟩ : ∃ n, fuel = n + 1 := ⟨fuel - 1, by omega⟩
      have hlt : 2 * l₁.length < n := by omega
      have hends' : ∀ b, Ends b (⟨_, offset⟩ :: ks) := fun b => ends_closer (Or.inl hl) ks
      have hclimb := (h.arrives h₁ (by decide) (hends' 10) hlt).ok hlt (hends' 0).stops
      cases hl
      simp only [List.cons_append, List.append_assoc, List.nil_append]
      rw [operand]
      simp only [ht, hclimb]

theorem IsArguments.arguments_eq : ∀ {ts : List Token} {es : List Expr}, IsArguments ts es →
    ∀ {ls ks : List Lexeme} {t : Lexeme} {fuel : Nat}, tokens ls = ts → t.token = .rightParen →
    2 * ls.length + 1 < fuel → arguments fuel (ls ++ t :: ks) = .ok (es, ks)
  | _, _, .one h, ls, ks, ⟨_, offset⟩, fuel, hls, ht, hfuel => by
      obtain ⟨n, rfl⟩ : ∃ n, fuel = n + 1 := ⟨fuel - 1, by omega⟩
      have hlt : 2 * ls.length < n := by omega
      have hends : ∀ b, Ends b (⟨_, offset⟩ :: ks) := fun b => ends_closer (Or.inl ht) ks
      have hclimb := (h.arrives hls (by decide) (hends 10) hlt).ok hlt (hends 0).stops
      cases ht
      rw [arguments]
      simp only [hclimb]
  | _, _, .more h h', ls, ks, t, fuel, hls, ht, hfuel => by
      obtain ⟨l₁, ⟨_, offset⟩, l₂, rfl, h₁, hl, h₂⟩ := tokens_eq_append_cons hls
      simp only [List.length_cons, List.length_append] at hfuel
      obtain ⟨n, rfl⟩ : ∃ n, fuel = n + 1 := ⟨fuel - 1, by omega⟩
      have hlt : 2 * l₁.length < n := by omega
      have hends : ∀ b, Ends b (⟨_, offset⟩ :: (l₂ ++ t :: ks)) :=
        fun b => ends_closer (Or.inr hl) _
      have hclimb := (h.arrives h₁ (by decide) (hends 10) hlt).ok hlt (hends 0).stops
      have hargs : arguments n (l₂ ++ t :: ks) = .ok (_, ks) := h'.arguments_eq h₂ ht (by omega)
      cases hl
      rw [List.append_assoc, List.cons_append, arguments]
      simp only [hclimb, hargs]

end

/-- With fuel for all lexemes, the parser reads all of them exactly if they make a sum, and then it
finds the tree. -/
theorem climb_eq_ok_iff : climb (4 * ls.length + 4) 0 ls = .ok (e, []) ↔ IsSum (tokens ls) e := by
  constructor
  · intro hx
    obtain ⟨used, hls, hclimbed, -⟩ := (sound _).ofClimb hx
    rw [hls, List.append_nil]
    exact hclimbed.isSum
  · intro h
    have hlt : 2 * ls.length < 4 * ls.length + 4 := by omega
    have hok := (h.arrives rfl (by decide) (ends_nil 10) hlt).ok hlt (stops_nil 0)
    rw [List.append_nil] at hok
    exact hok

end BareBones.Arithmetic
