/-
Parentheses around an operand leave no trace.

A number, a name that is not called, or a number behind a minus may stand in parentheses wherever
an operand is expected, and the tree stays the same.  Only two things can go wrong with taking
such parentheses away, and both show in the next lexeme: a power takes the number behind a minus
before the minus does, and a parenthesis makes a call of a name.

The parser is followed on both lists of lexemes at once.  `Simulation` says what the two have to
have in common for that: behind an operand they start with the same lexeme, and in front of one
they may differ only in an operand that is read on both sides.  Then whatever the parser reads on
the one side it reads on the other (`Simulation.follows`).  Taken in both directions this is
`Encloses.isSum_iff`.
-/
import BareBones.Proofs.Arithmetic.Climbing

namespace BareBones.Arithmetic

/-- Does an operand come next behind the lexeme? -/
def Token.expectsOperand : Token → Bool
  | .number _ | .name _ | .rightParen | .stray _ => false
  | _ => true

theorem expectsOperand_of_operator? {t : Token} {op : Operator} (h : t.operator? = some op) :
    t.expectsOperand = true := by
  cases t with
  | number text => cases h
  | name x => cases h
  | rightParen => cases h
  | stray c => cases h
  | _ => rfl

/-! ### Following the parser -/

/-- The lists start with the same lexeme and go on alike, or both are empty.  The flag that goes
with the rest says whether an operand is expected there. -/
inductive StartAlike (R : Bool → List Lexeme → List Lexeme → Prop) :
    List Lexeme → List Lexeme → Prop
  | nil : StartAlike R [] []
  | cons {t u : Lexeme} {ls ks : List Lexeme} (ht : u.token = t.token)
      (h : R t.token.expectsOperand ls ks) : StartAlike R (t :: ls) (u :: ks)

/-- The lexemes do not start with a closing parenthesis. -/
def NoCloser (ls : List Lexeme) : Prop :=
  ∀ t rest, ls = t :: rest → t.token ≠ .rightParen

/-- What the parser reads on the left it can be made to read on the right, with so much more
fuel. -/
structure Simulation (extra : Nat) (R : Bool → List Lexeme → List Lexeme → Prop) : Prop where
  behind : ∀ {ls ks}, R false ls ks → StartAlike R ls ks
  expecting : ∀ {ls ks}, R true ls ks → StartAlike R ls ks ∨
    NoCloser ls ∧ NoCloser ks ∧ ∀ {n e rest}, operand n ls = .ok (e, rest) →
      ∃ rest', operand (extra + n) ks = .ok (e, rest') ∧ R false rest rest'

/-- With the fuel, all functions of the parser read the same on both sides. -/
structure Follows (extra : Nat) (R : Bool → List Lexeme → List Lexeme → Prop) (n : Nat) :
    Prop where
  ofClimb : ∀ {b ls ks e rest}, R true ls ks → climb n b ls = .ok (e, rest) →
    ∃ rest', climb (extra + n) b ks = .ok (e, rest') ∧ R false rest rest'
  ofClimbOn : ∀ {b ls ks e e' rest}, R false ls ks → climbOn n b e ls = .ok (e', rest) →
    ∃ rest', climbOn (extra + n) b e ks = .ok (e', rest') ∧ R false rest rest'
  ofOperand : ∀ {ls ks e rest}, R true ls ks → operand n ls = .ok (e, rest) →
    ∃ rest', operand (extra + n) ks = .ok (e, rest') ∧ R false rest rest'
  ofArguments : ∀ {ls ks es rest}, R true ls ks → arguments n ls = .ok (es, rest) →
    ∃ rest', arguments (extra + n) ks = .ok (es, rest') ∧ R false rest rest'

variable {R : Bool → List Lexeme → List Lexeme → Prop} {extra n b : Nat}
  {ls ks rest : List Lexeme} {e : Expr}

theorem Follows.climb_succ (h : Follows extra R n) (hR : R true ls ks)
    (hx : climb (n + 1) b ls = .ok (e, rest)) :
    ∃ rest', climb (extra + (n + 1)) b ks = .ok (e, rest') ∧ R false rest rest' := by
  simp only [climb] at hx
  split at hx
  · cases hx
  · next hoperand =>
    obtain ⟨behind, hright, hbehind⟩ := h.ofOperand hR hoperand
    obtain ⟨rest', hrest, hR'⟩ := h.ofClimbOn hbehind hx
    refine ⟨rest', ?_, hR'⟩
    rw [← Nat.add_assoc, climb_of_operand hright, hrest]

theorem Follows.climbOn_succ (h : Follows extra R n) (hsim : Simulation extra R) {e' : Expr}
    (hR : R false ls ks) (hx : climbOn (n + 1) b e ls = .ok (e', rest)) :
    ∃ rest', climbOn (extra + (n + 1)) b e ks = .ok (e', rest') ∧ R false rest rest' := by
  cases hsim.behind hR with
  | nil =>
      rw [climbOn] at hx
      cases hx
      exact ⟨[], by rw [← Nat.add_assoc, climbOn], hR⟩
  | @cons t u ls ks ht hrest =>
      rw [climbOn] at hx
      rw [← Nat.add_assoc, climbOn, ht]
      cases hop : t.token.operator? with
      | none =>
          simp only [hop] at hx ⊢
          cases hx
          exact ⟨_, rfl, hR⟩
      | some op =>
          simp only [hop] at hx ⊢
          split at hx
          · next hlt =>
            rw [expectsOperand_of_operator? hop] at hrest
            split at hx
            · cases hx
            · next hclimb =>
              obtain ⟨behind, hright, hbehind⟩ := h.ofClimb hrest hclimb
              rw [if_pos hlt, hright]
              exact h.ofClimbOn hbehind hx
          · next hlt =>
            cases hx
            rw [if_neg hlt]
            exact ⟨_, rfl, hR⟩

/-- A parenthesis that closes on the left closes on the right. -/
theorem StartAlike.closer {offset : Nat} (h : StartAlike R (⟨.rightParen, offset⟩ :: rest) ks) :
    ∃ offset' rest', ks = ⟨.rightParen, offset'⟩ :: rest' ∧ R false rest rest' := by
  cases h with
  | @cons _ u _ ks ht hrest =>
      obtain ⟨token, offset'⟩ := u
      cases ht
      exact ⟨offset', ks, rfl, hrest⟩

theorem StartAlike.noCloser (h : StartAlike R ls ks) (hls : NoCloser ls) : NoCloser ks := by
  cases h with
  | nil => exact hls
  | cons ht hrest =>
      intro t rest heq
      cases heq
      rw [ht]
      exact hls _ _ rfl

/-- Where the left side has an argument, the right side has one too. -/
theorem Simulation.noCloser (hsim : Simulation extra R) (hR : R true ls ks)
    (hls : NoCloser ls) : NoCloser ks := by
  rcases hsim.expecting hR with halike | ⟨-, hks, -⟩
  · exact halike.noCloser hls
  · exact hks

theorem Simulation.closer (hsim : Simulation extra R) {offset : Nat}
    (hR : R true (⟨.rightParen, offset⟩ :: rest) ks) :
    ∃ offset' rest', ks = ⟨.rightParen, offset'⟩ :: rest' ∧ R false rest rest' := by
  rcases hsim.expecting hR with halike | ⟨hls, -, -⟩
  · exact halike.closer
  · exact absurd rfl (hls _ _ rfl)

theorem Follows.name_succ (h : Follows extra R n) (hsim : Simulation extra R) {x : String}
    {t u : Lexeme} (ht : t.token = .name x) (hu : u.token = .name x) (hR : R false ls ks)
    (hx : operand (n + 1) (t :: ls) = .ok (e, rest)) :
    ∃ rest', operand (extra + (n + 1)) (u :: ks) = .ok (e, rest') ∧ R false rest rest' := by
  rw [← Nat.add_assoc]
  cases hsim.behind hR with
  | nil =>
      have hnil : ∀ t rest, ([] : List Lexeme) = t :: rest → t.token ≠ .leftParen := by
        intro t rest heq
        cases heq
      rw [operand_name ht hnil] at hx
      cases hx
      exact ⟨[], operand_name hu hnil, hR⟩
  | @cons v w ls ks hvw hrest =>
      by_cases hv : v.token = .leftParen
      · obtain ⟨token, offset⟩ := v
        obtain ⟨token', offset'⟩ := w
        cases hv
        cases hvw
        simp only [operand, ht] at hx
        split at hx
        · next heq =>
          cases heq
          cases hx
          obtain ⟨o, rest', rfl, hR'⟩ := hsim.closer hrest
          exact ⟨rest', by simp only [operand, hu], hR'⟩
        · next hopen heq =>
          cases heq
          split at hx
          · cases hx
          · next hargs =>
            cases hx
            have hls : NoCloser ls := by
              rintro ⟨token, o⟩ behind rfl rfl
              exact hopen _ _ rfl
            obtain ⟨rest', hright, hR'⟩ := h.ofArguments hrest hargs
            exact ⟨rest', operand_call hu rfl (hsim.noCloser hrest hls) hright, hR'⟩
        · next hne => exact absurd rfl (hne _ _)
      · have hhead : ∀ {v' : Lexeme} {ls' : List Lexeme}, v'.token ≠ .leftParen →
            ∀ t rest, v' :: ls' = t :: rest → t.token ≠ .leftParen := by
          intro v' ls' hne t rest heq
          cases heq
          exact hne
        rw [operand_name ht (hhead hv)] at hx
        cases hx
        rw [← hvw] at hv
        exact ⟨_, operand_name hu (hhead hv), hR⟩

theorem Follows.operand_succ (h : Follows extra R n) (hsim : Simulation extra R)
    (hR : R true ls ks) (hx : operand (n + 1) ls = .ok (e, rest)) :
    ∃ rest', operand (extra + (n + 1)) ks = .ok (e, rest') ∧ R false rest rest' := by
  rcases hsim.expecting hR with halike | ⟨-, -, hoperand⟩
  · cases halike with
    | nil =>
        rw [operand] at hx
        cases hx
    | @cons t u ls ks ht hrest =>
        obtain ⟨token, offset⟩ := t
        obtain ⟨token', offset'⟩ := u
        cases ht
        cases token
        case name f => exact h.name_succ hsim rfl rfl hrest hx
        all_goals
          simp only [operand] at hx
          rw [← Nat.add_assoc]
        case minus =>
          split at hx
          · cases hx
          · next hclimb =>
            cases hx
            obtain ⟨rest', hright, hR'⟩ := h.ofClimb hrest hclimb
            exact ⟨rest', operand_minus rfl hright, hR'⟩
        case plus =>
          split at hx
          · cases hx
          · next hclimb =>
            cases hx
            obtain ⟨rest', hright, hR'⟩ := h.ofClimb hrest hclimb
            exact ⟨rest', operand_plus rfl hright, hR'⟩
        case number text =>
          cases hx
          exact ⟨ks, rfl, hrest⟩
        case leftParen =>
          split at hx
          · cases hx
          · next hclimb =>
            cases hx
            obtain ⟨behind, hright, hbehind⟩ := h.ofClimb hrest hclimb
            obtain ⟨offset', rest', rfl, hR'⟩ := (hsim.behind hbehind).closer
            refine ⟨rest', ?_, hR'⟩
            rw [operand]
            simp only [hright]
          · cases hx
        all_goals cases hx
  · exact hoperand hx

theorem Follows.arguments_succ (h : Follows extra R n) (hsim : Simulation extra R)
    {es : List Expr} (hR : R true ls ks) (hx : arguments (n + 1) ls = .ok (es, rest)) :
    ∃ rest', arguments (extra + (n + 1)) ks = .ok (es, rest') ∧ R false rest rest' := by
  rw [← Nat.add_assoc, arguments]
  simp only [arguments] at hx
  split at hx
  · cases hx
  · next hclimb =>
    cases hx
    obtain ⟨behind, hright, hbehind⟩ := h.ofClimb hR hclimb
    obtain ⟨offset', rest', rfl, hR'⟩ := (hsim.behind hbehind).closer
    exact ⟨rest', by simp only [hright], hR'⟩
  · next hclimb =>
    split at hx
    · cases hx
    · next hargs =>
      cases hx
      obtain ⟨behind, hright, hbehind⟩ := h.ofClimb hR hclimb
      cases hsim.behind hbehind with
      | @cons _ u _ ks ht hrest =>
          obtain ⟨token, offset'⟩ := u
          cases ht
          obtain ⟨rest', hmore, hR'⟩ := h.ofArguments hrest hargs
          exact ⟨rest', by simp only [hright, hmore], hR'⟩
  · cases hx

theorem Simulation.follows (hsim : Simulation extra R) (n : Nat) : Follows extra R n := by
  induction n with
  | zero =>
      refine ⟨?_, ?_, ?_, ?_⟩
      · intro b ls ks e rest _ hx
        rw [climb] at hx
        cases hx
      · intro b ls ks e e' rest _ hx
        rw [climbOn] at hx
        cases hx
      · intro ls ks e rest _ hx
        rw [operand] at hx
        cases hx
      · intro ls ks es rest _ hx
        rw [arguments] at hx
        cases hx
  | succ n ih =>
      exact ⟨ih.climb_succ, ih.climbOn_succ hsim, ih.operand_succ hsim, ih.arguments_succ hsim⟩

/-- More fuel reads the same. -/
theorem operand_mono (extra : Nat) (h : operand n ls = .ok (e, rest)) :
    operand (extra + n) ls = .ok (e, rest) := by
  have hsim : Simulation extra fun _ => Eq := by
    have halike : ∀ ls : List Lexeme, StartAlike (fun _ => Eq) ls ls := by
      intro ls
      cases ls with
      | nil => exact .nil
      | cons t ls => exact .cons rfl rfl
    exact ⟨fun h => h ▸ halike _, fun h => Or.inl (h ▸ halike _)⟩
  obtain ⟨rest', hright, rfl⟩ := (hsim.follows n).ofOperand rfl h
  exact hright

/-! ### Operands in parentheses -/

/-- The lexemes are an operand with the tree, and with those behind them it stays one: no power
takes the number away from its minus, and no parenthesis calls the name. -/
inductive IsOperand : List Token → Expr → List Token → Prop
  | number (text : String) (us : List Token) : IsOperand [.number text] (.number text) us
  | negative (text : String) {us : List Token} (h : us.head? ≠ some .power) :
      IsOperand [.minus, .number text] (.negate (.number text)) us
  | name (x : String) {us : List Token} (h : us.head? ≠ some .leftParen) :
      IsOperand [.name x] (.name x) us

/-- The second list has parentheses around some operands of the first, where operands are
expected.  The flag says whether one is expected at the start. -/
inductive Encloses : Bool → List Token → List Token → Prop
  | nil (expected : Bool) : Encloses expected [] []
  | keep (expected : Bool) {t : Token} {us vs : List Token} (h : Encloses t.expectsOperand us vs) :
      Encloses expected (t :: us) (t :: vs)
  | enclose {ws us vs : List Token} {e : Expr} (hw : IsOperand ws e us) (h : Encloses false us vs) :
      Encloses true (ws ++ us) (.leftParen :: (ws ++ .rightParen :: vs))

variable {ws us vs : List Token}

theorem IsOperand.noCloser (hw : IsOperand ws e us) (hls : tokens ls = ws ++ us) :
    NoCloser ls := by
  rintro t rest rfl ht
  rw [tokens_cons, ht] at hls
  cases hw <;> cases hls

/-- In parentheses an operand stays one. -/
theorem IsOperand.closed (hw : IsOperand ws e us) (vs : List Token) :
    IsOperand ws e (.rightParen :: vs) := by
  cases hw with
  | number text => exact .number text _
  | negative text _ => exact .negative text (by simp)
  | name x _ => exact .name x (by simp)

theorem eq_power_of_operator? {t : Token} (h : t.operator? = some .power) : t = .power := by
  cases t with
  | power => rfl
  | _ => cases h

theorem IsOperand.operand_eq (hw : IsOperand ws e us) (hls : tokens ls = ws ++ us) :
    ∃ rest, tokens rest = us ∧ ∀ n, operand (n + 3) ls = .ok (e, rest) := by
  cases hw with
  | number text =>
      obtain ⟨t, rest, rfl, ht, hrest⟩ := List.map_eq_cons_iff.1 hls
      refine ⟨rest, hrest, ?_⟩
      intro n
      rw [operand]
      simp only [ht]
  | negative text h =>
      obtain ⟨t, rest, rfl, ht, hrest⟩ := List.map_eq_cons_iff.1 hls
      obtain ⟨u, rest, rfl, hu, hrest⟩ := List.map_eq_cons_iff.1 hrest
      obtain rfl : tokens rest = us := hrest
      refine ⟨rest, rfl, ?_⟩
      intro n
      -- Only a power binds more tightly than a sign.
      have hstops : Stops (signPrecedence - 1) rest := by
        intro v rest' hv op hop
        subst hv
        cases op with
        | power => exact absurd (congrArg some (eq_power_of_operator? hop)) h
        | _ => decide
      have hnumber : operand (n + 1) (u :: rest) = .ok (.number text, rest) := by
        rw [operand]
        simp only [hu]
      refine operand_minus ht ?_
      rw [climb_of_operand hnumber]
      exact climbOn_of_stops hstops (Nat.succ_pos n)
  | name x h =>
      obtain ⟨t, rest, rfl, ht, hrest⟩ := List.map_eq_cons_iff.1 hls
      obtain rfl : tokens rest = us := hrest
      refine ⟨rest, rfl, ?_⟩
      intro n
      refine operand_name ht ?_
      rintro u rest' rfl hu
      exact h (congrArg some hu)

/-- An operand in parentheses is read as it is without them. -/
theorem IsOperand.operand_enclosed (hw : IsOperand ws e us)
    (hks : tokens ks = .leftParen :: (ws ++ .rightParen :: vs)) :
    ∃ rest, tokens rest = vs ∧ ∀ n, operand (n + 5) ks = .ok (e, rest) := by
  obtain ⟨t, inner, rfl, ht, hinner⟩ := List.map_eq_cons_iff.1 hks
  obtain ⟨behind, hbehind, hoperand⟩ := (hw.closed vs).operand_eq hinner
  obtain ⟨⟨token, offset⟩, rest, rfl, hcloser, hrest⟩ := List.map_eq_cons_iff.1 hbehind
  refine ⟨rest, hrest, ?_⟩
  intro n
  have hclimb : climb (n + 4) 0 inner = .ok (e, ⟨token, offset⟩ :: rest) := by
    rw [climb_of_operand (hoperand n)]
    exact climbOn_of_stops (ends_closer (Or.inl hcloser) rest).stops (Nat.succ_pos _)
  cases hcloser
  rw [operand]
  simp only [ht, hclimb]

/-- Parentheses are around some operands of the lexemes. -/
def Enclosing (expected : Bool) (ls ks : List Lexeme) : Prop :=
  Encloses expected (tokens ls) (tokens ks)

theorem noCloser_of_leftParen (h : tokens ks = .leftParen :: vs) : NoCloser ks := by
  rintro t rest rfl ht
  rw [tokens_cons, ht] at h
  cases h

/-- The lists start alike, seen from either side, or with an operand that both sides read. -/
theorem Enclosing.cases {expected : Bool} (h : Enclosing expected ls ks) :
    (StartAlike Enclosing ls ks ∧ StartAlike (fun b ks ls => Enclosing b ls ks) ks ls) ∨
      expected = true ∧ NoCloser ls ∧ NoCloser ks ∧ ∃ e rest rest', Enclosing false rest rest' ∧
        ∀ n, operand (n + 5) ls = .ok (e, rest) ∧ operand (n + 5) ks = .ok (e, rest') := by
  unfold Enclosing at h
  generalize hls : tokens ls = us at h
  generalize hks : tokens ks = vs at h
  cases h with
  | nil =>
      left
      rw [List.map_eq_nil_iff.1 hls, List.map_eq_nil_iff.1 hks]
      exact ⟨.nil, .nil⟩
  | keep _ hrest =>
      left
      obtain ⟨t, ls, rfl, rfl, rfl⟩ := List.map_eq_cons_iff.1 hls
      obtain ⟨u, ks, rfl, hu, rfl⟩ := List.map_eq_cons_iff.1 hks
      refine ⟨.cons hu hrest, .cons hu.symm ?_⟩
      rw [hu]
      exact hrest
  | @enclose ws us vs e hw hrest =>
      right
      obtain ⟨rest, rfl, hbare⟩ := hw.operand_eq hls
      obtain ⟨rest', rfl, henclosed⟩ := hw.operand_enclosed hks
      exact ⟨rfl, hw.noCloser hls, noCloser_of_leftParen hks, e, rest, rest', hrest,
        fun n => ⟨hbare (n + 2), henclosed n⟩⟩

/-- An operand that is read with enough fuel is the only one. -/
theorem operand_unique {e' : Expr} {rest' : List Lexeme}
    (h : ∀ n, operand (n + extra) ls = .ok (e, rest)) (hx : operand n ls = .ok (e', rest')) :
    e' = e ∧ rest' = rest := by
  have hmore := operand_mono extra hx
  rw [Nat.add_comm, h] at hmore
  cases hmore
  exact ⟨rfl, rfl⟩

theorem simulation_enclosing : Simulation 5 Enclosing := by
  refine ⟨?_, ?_⟩
  · intro ls ks h
    obtain ⟨halike, -⟩ | ⟨hexpected, -⟩ := h.cases
    · exact halike
    · cases hexpected
  · intro ls ks h
    obtain ⟨halike, -⟩ | ⟨-, hls, hks, e, behind, behind', hbehind, hreads⟩ := h.cases
    · exact Or.inl halike
    · refine Or.inr ⟨hls, hks, ?_⟩
      intro n e' rest hx
      obtain ⟨rfl, rfl⟩ := operand_unique (fun n => (hreads n).1) hx
      exact ⟨behind', by rw [Nat.add_comm, (hreads n).2], hbehind⟩

theorem simulation_enclosing_symm : Simulation 5 fun b ks ls => Enclosing b ls ks := by
  refine ⟨?_, ?_⟩
  · intro ks ls h
    obtain ⟨-, halike⟩ | ⟨hexpected, -⟩ := h.cases
    · exact halike
    · cases hexpected
  · intro ks ls h
    obtain ⟨-, halike⟩ | ⟨-, hls, hks, e, behind, behind', hbehind, hreads⟩ := h.cases
    · exact Or.inl halike
    · refine Or.inr ⟨hks, hls, ?_⟩
      intro n e' rest hx
      obtain ⟨rfl, rfl⟩ := operand_unique (fun n => (hreads n).2) hx
      exact ⟨behind, by rw [Nat.add_comm, (hreads n).1], hbehind⟩

/-- What is read to its end on one side of a simulation is a sum on the other. -/
theorem Simulation.isSum (hsim : Simulation extra R) (hnil : ∀ {ks}, R false [] ks → ks = [])
    (hR : R true ls ks) (h : IsSum (tokens ls) e) : IsSum (tokens ks) e := by
  obtain ⟨rest', hright, hrest⟩ := (hsim.follows _).ofClimb hR (climb_eq_ok_iff.2 h)
  obtain rfl := hnil hrest
  obtain ⟨used, rfl, hclimbed, -⟩ := (sound _).ofClimb hright
  rw [List.append_nil]
  exact hclimbed.isSum

theorem Enclosing.isSum_iff (h : Enclosing true ls ks) :
    IsSum (tokens ls) e ↔ IsSum (tokens ks) e := by
  constructor
  · refine simulation_enclosing.isSum ?_ h
    intro ks h
    cases simulation_enclosing.behind h
    rfl
  · refine simulation_enclosing_symm.isSum ?_ h
    intro ls h
    cases simulation_enclosing_symm.behind h
    rfl

/-- Parentheses around operands do not change what is a sum, nor its tree. -/
theorem Encloses.isSum_iff {e : Expr} (h : Encloses true us vs) : IsSum us e ↔ IsSum vs e := by
  have htokens : ∀ ts : List Token, tokens (ts.map (Lexeme.mk · 0)) = ts := by
    intro ts
    simp [tokens, Function.comp_def]
  have henclosing : Enclosing true (us.map (Lexeme.mk · 0)) (vs.map (Lexeme.mk · 0)) := by
    unfold Enclosing
    rw [htokens, htokens]
    exact h
  have hiff := henclosing.isSum_iff (e := e)
  rwa [htokens, htokens] at hiff

end BareBones.Arithmetic
