/-
What evaluation makes of a text.

A tree has a value, or it has faults.  `Yields` says how the value of a tree comes from the values
of its parts, and `Expr.faults` lists all parts that have none although their own parts have
values, or could have them: from left to right, and the arguments of a call before the call.
Neither mentions the evaluator, which gives up at its first error.

The evaluator gives the value, if there are no faults, and else the first of them.  A text has
just one tree if it is a sentence, and only a text that is none is malformed.
-/
import BareBones.Arithmetic.Eval
import BareBones.Arithmetic.Generator
import BareBones.Proofs.Arithmetic.Lexing

namespace BareBones.Arithmetic

variable {γ : Type} [RandomSource γ]

/-! ### Values and faults -/

mutual

/-- The expression has the value, and the source is the second one behind it. -/
inductive Yields : Expr → γ → Float → γ → Prop
  | number {text : String} {d : Decimal} {g : γ}
      (h : Decimal.parse? text.toList = some d) : Yields (.number text) g (d.toFloat false) g
  | name {x : String} {c : Constant} {g : γ} (h : Constant.ofName? x = some c) :
      Yields (.name x) g c.value g
  | call {f : String} {args : List Expr} {xs : List Float} {b : Builtin} {y : Float}
      {g g' g'' : γ} (h : YieldsAll args g xs g') (hf : Builtin.ofName? f = some b)
      (hy : b.call? xs g' = some (y, g'')) : Yields (.call f args) g y g''
  | negate {e : Expr} {x : Float} {g g' : γ} (h : Yields e g x g') :
      Yields (.negate e) g (-x) g'
  | keep {e : Expr} {x : Float} {g g' : γ} (h : Yields e g x g') :
      Yields (.keep e) g x g'
  | binary {op : Operator} {a b : Expr} {x y : Float} {g g' g'' : γ}
      (ha : Yields a g x g') (hb : Yields b g' y g'') :
      Yields (.binary op a b) g (op.apply x y) g''

/-- The expressions have the values, one after the other. -/
inductive YieldsAll : List Expr → γ → List Float → γ → Prop
  | nil {g : γ} : YieldsAll [] g [] g
  | cons {e : Expr} {es : List Expr} {x : Float} {xs : List Float} {g g' g'' : γ}
      (h : Yields e g x g') (hs : YieldsAll es g' xs g'') : YieldsAll (e :: es) g (x :: xs) g''

end

/-- What is wrong with a call of the function with so many arguments. -/
def callFaults (f : String) (count : Nat) : List Error :=
  match Builtin.ofName? f with
  | none => [.unknownFunction f]
  | some b => if count = b.arity then [] else [.arity f b.arity count]

mutual

/-- All faults of an expression, from left to right. -/
def Expr.faults : Expr → List Error
  | .number text => if (Decimal.parse? text.toList).isSome then [] else [.invalidNumber text]
  | .name x => if (Constant.ofName? x).isSome then [] else [.unknownConstant x]
  | .call f args => faultsAll args ++ callFaults f args.length
  | .negate e => e.faults
  | .keep e => e.faults
  | .binary _ a b => a.faults ++ b.faults

/-- All faults of expressions, from left to right. -/
def faultsAll : List Expr → List Error
  | [] => []
  | e :: es => e.faults ++ faultsAll es

end

/-! ### The evaluator gives the value or the first fault -/

variable {α : Type} {e : Expr} {es : List Expr} {g g' : γ} {x : Float} {xs : List Float}

/-- The result is a value that is yielded and there are no faults, or it is the first fault. -/
def Settled {σ : Type} (yields : α → σ → Prop) (faults : List Error) : Except Error α × σ → Prop
  | (.ok x, g) => yields x g ∧ faults = []
  | (.error err, _) => faults.head? = some err

/-- An error is the first fault, whatever comes behind it. -/
theorem Settled.error_append {β σ : Type} {yields : α → σ → Prop} {yields' : β → σ → Prop}
    {faults : List Error} {err : Error} {s : σ} (h : Settled yields faults (.error err, s))
    (more : List Error) : Settled yields' (faults ++ more) (.error err, s) := by
  have hhead : faults.head? = some err := h
  show (faults ++ more).head? = some err
  rw [List.head?_append, hhead]
  rfl

theorem YieldsAll.length_eq : ∀ {es : List Expr} {g : γ} {xs : List Float}
    {g' : γ}, YieldsAll es g xs g' → xs.length = es.length
  | _, _, _, _, .nil => rfl
  | _, _, _, _, .cons _ hs => by rw [List.length_cons, List.length_cons, hs.length_eq]

theorem callValue_settled {f : String} {args : List Expr} (h : YieldsAll args g xs g') :
    Settled (Yields (.call f args) g) (callFaults f args.length) (callValue f xs g') := by
  unfold callFaults callValue
  cases hf : Builtin.ofName? f with
  | none => rfl
  | some b =>
      have harity := b.isSome_call? xs g'
      rw [h.length_eq] at harity
      dsimp only
      cases hy : b.call? xs g' with
      | none =>
          rw [hy] at harity
          have hne : args.length ≠ b.arity := by simpa using harity.symm
          rw [if_neg hne, h.length_eq]
          rfl
      | some r =>
          obtain ⟨y, g''⟩ := r
          rw [hy] at harity
          have heq : args.length = b.arity := by simpa using harity.symm
          exact ⟨Yields.call h hf hy, if_pos heq⟩

mutual

theorem Expr.eval_settled : ∀ (e : Expr) (g : γ),
    Settled (Yields e g) e.faults (e.eval g)
  | .number text, g => by
      unfold Expr.eval Expr.faults numberValue
      cases h : Decimal.parse? text.toList with
      | none => rfl
      | some d => exact ⟨Yields.number h, rfl⟩
  | .name x, g => by
      unfold Expr.eval Expr.faults nameValue
      cases h : Constant.ofName? x with
      | none => rfl
      | some c => exact ⟨Yields.name h, rfl⟩
  | .call f args, g => by
      have hargs := evalAll_settled args g
      unfold Expr.eval Expr.faults
      split
      · next err g' heq =>
        rw [heq] at hargs
        exact hargs.error_append _
      · next xs g' heq =>
        rw [heq] at hargs
        rw [hargs.2, List.nil_append]
        exact callValue_settled hargs.1
  | .negate e, g => by
      have he := e.eval_settled g
      unfold Expr.eval Expr.faults
      split
      · next err g' heq =>
        rw [heq] at he
        exact he
      · next x g' heq =>
        rw [heq] at he
        exact ⟨Yields.negate he.1, he.2⟩
  | .keep e, g => by
      have he := e.eval_settled g
      unfold Expr.eval Expr.faults
      rcases heq : e.eval g with ⟨err | x, g'⟩
      · rw [heq] at he
        exact he
      · rw [heq] at he
        exact ⟨Yields.keep he.1, he.2⟩
  | .binary op a b, g => by
      have ha := a.eval_settled g
      unfold Expr.eval Expr.faults
      split
      · next err g' heq =>
        rw [heq] at ha
        exact ha.error_append _
      · next x g' heq =>
        rw [heq] at ha
        have hb := b.eval_settled g'
        rw [ha.2, List.nil_append]
        split
        · next err g'' heq' =>
          rw [heq'] at hb
          exact hb
        · next y g'' heq' =>
          rw [heq'] at hb
          exact ⟨Yields.binary ha.1 hb.1, hb.2⟩

theorem evalAll_settled : ∀ (es : List Expr) (g : γ),
    Settled (YieldsAll es g) (faultsAll es) (evalAll es g)
  | [], g => ⟨YieldsAll.nil, rfl⟩
  | e :: es, g => by
      have he := e.eval_settled g
      unfold evalAll faultsAll
      split
      · next err g' heq =>
        rw [heq] at he
        exact he.error_append _
      · next x g' heq =>
        rw [heq] at he
        have hes := evalAll_settled es g'
        rw [he.2, List.nil_append]
        split
        · next err g'' heq' =>
          rw [heq'] at hes
          exact hes
        · next ys g'' heq' =>
          rw [heq'] at hes
          exact ⟨YieldsAll.cons he.1 hes.1, hes.2⟩

end

mutual

theorem Yields.eval_eq : ∀ {e : Expr} {g : γ} {x : Float} {g' : γ},
    Yields e g x g' → e.eval g = (.ok x, g')
  | _, _, _, _, .number h => by simp [Expr.eval, numberValue, h]
  | _, _, _, _, .name h => by simp [Expr.eval, nameValue, h]
  | _, _, _, _, .call h hf hy => by simp [Expr.eval, callValue, h.evalAll_eq, hf, hy]
  | _, _, _, _, .negate h => by simp [Expr.eval, h.eval_eq]
  | _, _, _, _, .keep h => by simp [Expr.eval, h.eval_eq]
  | _, _, _, _, .binary ha hb => by simp [Expr.eval, ha.eval_eq, hb.eval_eq]

theorem YieldsAll.evalAll_eq : ∀ {es : List Expr} {g : γ} {xs : List Float}
    {g' : γ}, YieldsAll es g xs g' → evalAll es g = (.ok xs, g')
  | _, _, _, _, .nil => rfl
  | _, _, _, _, .cons h hs => by simp [evalAll, h.eval_eq, hs.evalAll_eq]

end

theorem eval_eq_ok_iff : e.eval g = (.ok x, g') ↔ Yields e g x g' := by
  constructor
  · intro h
    have hsettled := e.eval_settled g
    rw [h] at hsettled
    exact hsettled.1
  · intro h
    exact h.eval_eq

theorem eval_eq_error_iff {err : Error} :
    (e.eval g).1 = .error err ↔ e.faults.head? = some err := by
  have hsettled := e.eval_settled g
  rcases heq : e.eval g with ⟨err' | x, g'⟩
  · rw [heq] at hsettled
    have hhead : e.faults.head? = some err' := hsettled
    rw [hhead]
    simp
  · rw [heq] at hsettled
    rw [hsettled.2]
    simp

/-! ### What the faults of a sentence are about -/

/-- The fault lies in a lexeme: a name, or a number that cannot be read. -/
def Error.LiesIn (ts : List Token) : Error → Prop
  | .malformed _ => False
  | .unknownFunction f => .name f ∈ ts
  | .unknownConstant x => .name x ∈ ts
  | .arity f _ _ => .name f ∈ ts
  | .invalidNumber text => .number text ∈ ts ∧ Decimal.parse? text.toList = none

variable {ts us : List Token} {t : Token} {err : Error}

theorem Error.LiesIn.mono (h : err.LiesIn ts) (hsub : ts ⊆ us) : err.LiesIn us := by
  cases err with
  | malformed p => exact h
  | invalidNumber text => exact ⟨hsub h.1, h.2⟩
  | _ => exact hsub h

theorem Error.LiesIn.append (h : err.LiesIn ts ∨ err.LiesIn us) : err.LiesIn (ts ++ t :: us) := by
  rcases h with h | h
  · exact h.mono fun u hu => List.mem_append_left _ hu
  · exact h.mono fun u hu => List.mem_append_right _ (List.mem_cons_of_mem t hu)

theorem liesIn_of_mem_callFaults {f : String} {count : Nat} (hf : .name f ∈ ts)
    (h : err ∈ callFaults f count) : err.LiesIn ts := by
  unfold callFaults at h
  split at h
  · rw [List.mem_singleton.1 h]
    exact hf
  · split at h
    · cases h
    · rw [List.mem_singleton.1 h]
      exact hf

mutual

theorem IsSum.liesIn : ∀ {ts : List Token} {e : Expr}, IsSum ts e →
    ∀ {err : Error}, err ∈ e.faults → err.LiesIn ts
  | _, _, .product h, _, herr => h.liesIn herr
  | _, _, .step h _ h', _, herr =>
      .append ((List.mem_append.1 herr).imp h.liesIn h'.liesIn)

theorem IsProduct.liesIn : ∀ {ts : List Token} {e : Expr}, IsProduct ts e →
    ∀ {err : Error}, err ∈ e.faults → err.LiesIn ts
  | _, _, .signed h, _, herr => h.liesIn herr
  | _, _, .step h _ h', _, herr =>
      .append ((List.mem_append.1 herr).imp h.liesIn h'.liesIn)

theorem IsSigned.liesIn : ∀ {ts : List Token} {e : Expr}, IsSigned ts e →
    ∀ {err : Error}, err ∈ e.faults → err.LiesIn ts
  | _, _, .minus h, _, herr => (h.liesIn herr).mono (List.subset_cons_self _ _)
  | _, _, .plus h, _, herr => (h.liesIn herr).mono (List.subset_cons_self _ _)
  | _, _, .power h, _, herr => h.liesIn herr

theorem IsPower.liesIn : ∀ {ts : List Token} {e : Expr}, IsPower ts e →
    ∀ {err : Error}, err ∈ e.faults → err.LiesIn ts
  | _, _, .primary h, _, herr => h.liesIn herr
  | _, _, .raise h h', _, herr =>
      .append ((List.mem_append.1 herr).imp h.liesIn h'.liesIn)

theorem IsPrimary.liesIn : ∀ {ts : List Token} {e : Expr}, IsPrimary ts e →
    ∀ {err : Error}, err ∈ e.faults → err.LiesIn ts
  | _, _, .number text, err, herr => by
      unfold Expr.faults at herr
      split at herr
      · cases herr
      · next hnone =>
        rw [List.mem_singleton.1 herr]
        exact ⟨List.mem_singleton_self _, by simpa using hnone⟩
  | _, _, .name x, err, herr => by
      unfold Expr.faults at herr
      split at herr
      · cases herr
      · rw [List.mem_singleton.1 herr]
        exact List.mem_singleton_self _
  | _, _, .callNone f, err, herr => liesIn_of_mem_callFaults List.mem_cons_self herr
  | _, _, .call f h, err, herr => by
      rcases List.mem_append.1 herr with herr | herr
      · refine (h.liesIn herr).mono fun t ht => ?_
        exact List.mem_cons_of_mem _ (List.mem_cons_of_mem _ (List.mem_append_left _ ht))
      · exact liesIn_of_mem_callFaults List.mem_cons_self herr
  | _, _, .paren h, _, herr =>
      (h.liesIn herr).mono fun _ ht => List.mem_cons_of_mem _ (List.mem_append_left _ ht)

theorem IsArguments.liesIn : ∀ {ts : List Token} {es : List Expr}, IsArguments ts es →
    ∀ {err : Error}, err ∈ faultsAll es → err.LiesIn ts
  | _, _, .one h, err, herr => by
      unfold faultsAll faultsAll at herr
      rw [List.append_nil] at herr
      exact h.liesIn herr
  | _, _, .more h h', _, herr =>
      .append ((List.mem_append.1 herr).imp h.liesIn h'.liesIn)

end

theorem Spells.isNumber {cs : List Char} {text : String} (h : Spells cs ts) :
    .number text ∈ ts → IsNumber text.toList := by
  induction h with
  | nil => intro hmem; cases hmem
  | blank hc h ih => exact ih
  | lexeme hl h ih =>
      intro hmem
      rcases List.mem_cons.1 hmem with heq | hmem
      · subst heq
        cases hl with
        | number hnumber =>
            rw [String.toList_ofList]
            exact hnumber
      · exact ih hmem

/-! ### Texts -/

variable {text : String}

theorem parse_eq_ok_iff : parse text.toList = .ok e ↔ Sentence text e := by
  rw [sentence_iff, ← climb_eq_ok_iff]
  unfold parse
  dsimp only
  split
  · next heq => simp [heq]
  · next hne heq =>
    rw [heq]
    constructor
    · intro h
      cases h
    · intro h
      cases h
      exact absurd rfl hne
  · next heq => simp [heq]

theorem evaluate_of_sentence (h : Sentence text e) (g : γ) :
    evaluate text g = e.eval g := by
  unfold evaluate
  rw [parse_eq_ok_iff.2 h]

theorem evaluate_of_not_sentence (h : ¬ ∃ e, Sentence text e) (g : γ) :
    ∃ p, evaluate text g = (.error (.malformed p), g) := by
  unfold evaluate
  cases hparse : parse text.toList with
  | error p => exact ⟨p, rfl⟩
  | ok e => exact absurd ⟨e, parse_eq_ok_iff.1 hparse⟩ h

theorem Sentence.unique {e' : Expr} (h : Sentence text e) (h' : Sentence text e') : e' = e := by
  have hparse := parse_eq_ok_iff.2 h'
  rw [parse_eq_ok_iff.2 h] at hparse
  cases hparse
  rfl

/-- The error of a sentence is about a name. -/
theorem Sentence.fault (h : Sentence text e) (herr : (e.eval g).1 = .error err) :
    (∀ p, err ≠ .malformed p) ∧ ∀ n, err ≠ .invalidNumber n := by
  obtain ⟨ts, hspells, hsum⟩ := h
  have hlies := hsum.liesIn (List.mem_of_head? (eval_eq_error_iff.1 herr))
  constructor
  · rintro p rfl
    exact hlies
  · rintro n rfl
    have hsome := isSome_parse? (hspells.isNumber hlies.1)
    rw [hlies.2] at hsome
    cases hsome

/-- A text is refused as malformed just if it is no sentence of the grammar.  A sentence has one
tree.  Its evaluation gives the value of this tree, or if the tree has faults, the first of them.
A number is never invalid.  This is so wherever random numbers come from. -/
theorem evaluate_agrees_with_grammar (text : String) (g : γ) :
    ((∃ p, (evaluate text g).1 = .error (.malformed p)) ↔ ¬ ∃ e, Sentence text e) ∧
    (∀ e, Sentence text e →
      (∀ e', Sentence text e' → e' = e) ∧
      evaluate text g = e.eval g ∧
      (∀ x g', evaluate text g = (.ok x, g') ↔ Yields e g x g') ∧
      ∀ err, (evaluate text g).1 = .error err ↔ e.faults.head? = some err) ∧
    ∀ n, (evaluate text g).1 ≠ .error (.invalidNumber n) := by
  refine ⟨⟨?_, ?_⟩, ?_, ?_⟩
  · rintro ⟨p, hp⟩ ⟨e, he⟩
    rw [evaluate_of_sentence he] at hp
    exact (he.fault hp).1 p rfl
  · intro hnone
    obtain ⟨p, hp⟩ := evaluate_of_not_sentence hnone g
    exact ⟨p, by rw [hp]⟩
  · intro e he
    rw [evaluate_of_sentence he]
    exact ⟨fun e' he' => he.unique he', rfl, fun x g' => eval_eq_ok_iff,
      fun err => eval_eq_error_iff⟩
  · intro n hn
    by_cases h : ∃ e, Sentence text e
    · obtain ⟨e, he⟩ := h
      rw [evaluate_of_sentence he] at hn
      exact (he.fault hn).2 n rfl
    · obtain ⟨p, hp⟩ := evaluate_of_not_sentence h g
      rw [hp] at hn
      cases hn

/-- An argument without a value comes before the function that nobody knows. -/
theorem evaluate_agrees_with_grammar_arguments_first :
    Sentence "f(x) + y" (.binary .add (.call "f" [.name "x"]) (.name "y")) ∧
    (evaluate "f(x) + y" (⟨0⟩ : Generator)).1 = .error (.unknownConstant "x") := by
  have hx : IsSum [.name "x"] (.name "x") := .product (.signed (.power (.primary (.name "x"))))
  have hcall : IsSum [.name "f", .leftParen, .name "x", .rightParen] (.call "f" [.name "x"]) :=
    .product (.signed (.power (.primary (.call "f" (.one hx)))))
  have hsum : IsSum [.name "f", .leftParen, .name "x", .rightParen, .plus, .name "y"]
      (.binary .add (.call "f" [.name "x"]) (.name "y")) :=
    .step hcall .plus (.signed (.power (.primary (.name "y"))))
  have htext : "f(x) + y".toList = ['f', '(', 'x', ')', ' ', '+', ' ', 'y'] :=
    String.toList_ofList
  have htokens : tokens (lex "f(x) + y".toList) =
      [.name "f", .leftParen, .name "x", .rightParen, .plus, .name "y"] := by
    rw [htext]
    decide
  have hsentence : Sentence "f(x) + y" (.binary .add (.call "f" [.name "x"]) (.name "y")) := by
    rw [sentence_iff, htokens]
    exact hsum
  obtain ⟨-, -, -, herror⟩ := (evaluate_agrees_with_grammar _ (⟨0⟩ : Generator)).2.1 _ hsentence
  exact ⟨hsentence, (herror _).2 (by decide)⟩

end BareBones.Arithmetic
