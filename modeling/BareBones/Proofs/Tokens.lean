/-
A token stands for the same value wherever it stands.

A token is read in three places: to the right of `to` in a `set` and in a `return`, as an argument
of a call, and as an operand of a guard.  Arguments and operands are read alike, a variable before a
literal.  To the right of `to`, truth values and strings come before variables.  This makes no
difference as long as no variable is named like one of them.  A string starts with a quote, and no
name does; so `true` and `false` are the only tokens that can be read in two ways, since both are
names of variables as well.
-/
import BareBones.Proofs.Names

namespace BareBones

variable {σ β : Type}

/-! ### Arguments and operands -/

namespace Machine

variable {env : Environment} {token : String}

theorem argument_of_not_contains (h : env.contains token = false) :
    argument env token = Value.parse token := by
  have hnone : env.get? token = none := by simpa [NameMap.contains] using h
  rw [argument, hnone]
  rfl

end Machine

/-- The value of an operand is the one of an argument. -/
theorem Operand.value?_resolve (token : String) (env : Environment) :
    (resolve token env).value? env = some (Machine.argument env token) := by
  unfold resolve
  split
  · next hin =>
    obtain ⟨v, hv⟩ := Option.isSome_iff_exists.1 hin
    rw [value?, Machine.argument, hv]
    rfl
  · next hnot =>
    rw [Machine.argument_of_not_contains (eq_false_of_ne_true hnot)]
    rfl

/-! ### Tokens to the right of `to` -/

/-- No variable is named like a string. -/
theorem Environment.Named.not_contains_string {env : Environment} (henv : env.Named)
    {token : String} (h : token.toList.head? = some '"') : env.contains token = false := by
  refine eq_false_of_ne_true ?_
  intro hin
  obtain ⟨-, c, cs, heq, hfirst, -⟩ := Name.of_checkVariable (henv token hin)
  rw [heq] at h
  obtain rfl := Option.some.inj h
  exact absurd hfirst (by decide)

namespace Machine

variable {env : Environment} {token : String} {v : Value}

/-- Where no variable is named `true` or `false`, a token that stands alone has the value of an
argument. -/
theorem eq_argument_of_resolveToken (henv : env.Named)
    (htruth : token = "true" ∨ token = "false" → env.contains token = false)
    (h : resolveToken env token = some v) : v = argument env token := by
  unfold resolveToken at h
  split at h
  · next hliteral =>
    have hnot : env.contains token = false := by
      simp only [Bool.or_eq_true, decide_eq_true_eq] at hliteral
      rcases hliteral with htrue | hstring
      · exact htruth htrue
      · exact henv.not_contains_string hstring
    rw [argument_of_not_contains hnot]
    exact (Option.some.inj h).symm
  · split at h
    · next w hw =>
      rw [argument, hw]
      exact (Option.some.inj h).symm
    · next hnone =>
      dsimp only at h
      split at h
      · rw [argument, hnone]
        exact (Option.some.inj h).symm
      · cases h

end Machine

/-- A token that is no call and not `eval` is read as one that stands alone. -/
theorem Context.resolveToken_of_resolve {h : Host σ} {run : BodyRunner σ β} {c : Context β}
    {token : String} {v : Value} {ok : Bool} {w w' : World σ} (heval : token ≠ Keyword.eval.word)
    (hcall : ¬ (c.functions.contains token = true ∧ c.env.contains token = false))
    (hx : c.resolve h run [token] w = (.ok (v, ok), w')) :
    Machine.resolveToken c.env token = some v := by
  have hno : ¬ (c.functions.contains token && !c.env.contains token) = true := by simpa using hcall
  simp only [resolve, if_neg heval, if_neg hno] at hx
  split at hx
  · next hv =>
    cases hx
    exact hv
  · cases hx

/-! ### Arguments of a call -/

namespace Machine

variable {caller : Environment}

theorem bindParams_cons {param arg : String} {rest : List (String × String)}
    {env env' : Environment} (hx : bindParams caller ((param, arg) :: rest) env = .ok env') :
    bindParams caller rest (env.insert param (argument caller arg)) = .ok env' := by
  simp only [bindParams] at hx
  split at hx
  · cases hx
  · next env₁ hbind =>
    unfold Environment.bind at hbind
    split at hbind
    · cases hbind
    · cases hbind
      exact hx

/-- Binding parameters leaves other variables alone. -/
theorem get?_bindParams_of_not_mem {x : String} : ∀ {bindings : List (String × String)}
    {env env' : Environment}, bindParams caller bindings env = .ok env' →
    x ∉ bindings.map Prod.fst → env'.get? x = env.get? x := by
  intro bindings
  induction bindings with
  | nil =>
      intro env env' hx _
      cases hx
      rfl
  | cons binding rest ih =>
      intro env env' hx hnot
      obtain ⟨param, arg⟩ := binding
      rw [List.map_cons, List.mem_cons, not_or] at hnot
      rw [ih (bindParams_cons hx) hnot.2, NameMap.get?_insert, if_neg hnot.1]

/-- A parameter has the value of its argument, if no later one has the same name. -/
theorem get?_bindParams {x arg : String} : ∀ {bindings : List (String × String)}
    {env env' : Environment}, bindParams caller bindings env = .ok env' → ∀ {k : Nat},
    bindings[k]? = some (x, arg) → x ∉ (bindings.drop (k + 1)).map Prod.fst →
    env'.get? x = some (argument caller arg) := by
  intro bindings
  induction bindings with
  | nil =>
      intro env env' _ k hk
      cases hk
  | cons binding rest ih =>
      intro env env' hx k hk hlast
      obtain ⟨param, arg'⟩ := binding
      cases k with
      | zero =>
          cases hk
          rw [get?_bindParams_of_not_mem (bindParams_cons hx) hlast, NameMap.get?_insert,
            if_pos rfl]
      | succ k => exact ih (bindParams_cons hx) hk hlast

end Machine

namespace Context

/-- A call with as many arguments as there are parameters, not too deep, runs the body of the
function.  There every parameter has the value of its argument, or that of a later parameter of the
same name. -/
theorem call_binds {h : Host σ} {run : BodyRunner σ β} {c : Context β} {name : String}
    {f : Function β} {args : List String} (hf : c.functions.get? name = some f)
    (hlength : args.length = f.arity) (hdepth : c.scope.depth < h.settings.maxCallDepth)
    (hparams : ∀ x ∈ f.params, Name.checkVariable x = .ok ()) :
    ∃ env, (∀ w, c.call h run name args w = leaveCall (run f.body (c.forCall f env) w)) ∧
      ∀ k x arg, f.params[k]? = some x → args[k]? = some arg → x ∉ f.params.drop (k + 1) →
        env.get? x = some (Machine.argument c.env arg) := by
  obtain ⟨env, henv⟩ : ∃ env, Machine.bindParams c.env (f.params.zip args) c.env = .ok env :=
    Machine.exists_bindParams args c.env hparams
  have henter : c.enter h name args = .ok (f.body, c.forCall f env) := by
    unfold enter
    simp only [hf, henv, if_neg (not_not_intro hlength), if_neg (Nat.not_le_of_lt hdepth)]
  refine ⟨env, ?_, ?_⟩
  · intro w
    rw [call_eq, henter]
  · intro k x arg hx harg hlast
    have hk : (f.params.zip args)[k]? = some (x, arg) := List.getElem?_zip_eq_some.2 ⟨hx, harg⟩
    refine Machine.get?_bindParams henv hk ?_
    intro hmem
    obtain ⟨⟨y, arg'⟩, hpair, rfl⟩ := List.mem_map.1 hmem
    rw [List.zip_eq_zipWith, List.drop_zipWith, ← List.zip_eq_zipWith] at hpair
    exact hlast (List.of_mem_zip hpair).1

/-- If all variables have names of variables, a token that is neither `eval` nor the name of a
function, other than one that is a variable too, and that is not `true` or `false` where a variable
has that name, stands for one value: the one that it has to the right of `to` is also the one that
it has as an operand of a guard, and the one that a parameter is bound to when a call with the token
as an argument goes through to the body of its function. -/
theorem token_has_one_value (h : Host σ) (run : BodyRunner σ β) (c : Context β)
    (hc : c.env.Named) (t : String) (heval : t ≠ "eval")
    (hcall : ¬ (c.functions.contains t = true ∧ c.env.contains t = false))
    (htruth : t = "true" ∨ t = "false" → c.env.contains t = false) (v : Value) (ok : Bool)
    (w w' : World σ) (hx : c.resolve h run [t] w = (.ok (v, ok), w')) :
    (Operand.resolve t c.env).value? c.env = some v ∧
      ∀ name f args, c.functions.get? name = some f → args.length = f.arity →
        c.scope.depth < h.settings.maxCallDepth →
        (∀ x ∈ f.params, Name.checkVariable x = .ok ()) →
        ∃ env, (∀ w, c.call h run name args w = leaveCall (run f.body (c.forCall f env) w)) ∧
          ∀ k x, f.params[k]? = some x → args[k]? = some t → x ∉ f.params.drop (k + 1) →
            env.get? x = some v := by
  have hv := resolveToken_of_resolve heval hcall hx
  obtain rfl := Machine.eq_argument_of_resolveToken hc htruth hv
  refine ⟨Operand.value?_resolve t c.env, ?_⟩
  intro name f args hf hlength hdepth hparams
  obtain ⟨env, hruns, hbinds⟩ := call_binds hf hlength hdepth hparams
  exact ⟨env, hruns, fun k x hparam harg hlast => hbinds k x t hparam harg hlast⟩

/-- A variable is the second argument of a call. -/
theorem token_has_one_value_as_argument :
    let body := Program.ofStatements [⟨"return", ["b"], "return b", 1⟩]
    let f : Function Program := ⟨"F", ["a", "b"], body, 1, 2, body.sourceText⟩
    let c : Context Program :=
      { env := (∅ : Environment).insert "x" (.int 3), functions := (∅ : NameMap _).insert "F" f }
    let h : Host Unit := ⟨{}, fun _ u => (.error (.unknownFunction ""), u)⟩
    let run := Runner.body (Machine.run h 2)
    c.env.Named ∧ "x" ≠ "eval" ∧ ¬ (c.functions.contains "x" = true ∧ c.env.contains "x" = false) ∧
      c.resolve h run ["x"] { state := () } = (.ok (.int 3, true), { state := () }) ∧
      (Operand.resolve "x" c.env).value? c.env = some (.int 3) ∧
      ∃ env, (∀ w, c.call h run "F" ["1", "x"] w = leaveCall (run f.body (c.forCall f env) w)) ∧
        env.get? "b" = some (.int 3) := by
  intro body f c h run
  have hnamed : c.env.Named :=
    Environment.named_empty.writes ⟨.int 3, rfl, Or.inr (by decide +kernel)⟩
  have hcall : ¬ (c.functions.contains "x" = true ∧ c.env.contains "x" = false) := by decide +kernel
  have hresolve : c.resolve h run ["x"] { state := () } =
      (.ok (.int 3, true), { state := () }) := by
    rfl
  obtain ⟨hguard, hargument⟩ := token_has_one_value h run c hnamed "x" (by decide) hcall
    (by decide) (.int 3) true _ _ hresolve
  obtain ⟨env, hruns, hbinds⟩ := hargument "F" f ["1", "x"] (by rfl) rfl (by decide)
    (by decide +kernel)
  exact ⟨hnamed, by decide, hcall, hresolve, hguard, env, hruns, hbinds 1 "b" rfl rfl (by decide)⟩

/-- A variable can have the name of a truth value.  To the right of `to` the token is the truth
value, but as an argument and as an operand it is the variable. -/
theorem truth_value_hides_variable :
    let body := Program.ofStatements [⟨"return", ["a"], "return a", 1⟩]
    let f : Function Program := ⟨"F", ["a"], body, 1, 2, body.sourceText⟩
    let c : Context Program :=
      { env := (∅ : Environment).insert "true" (.int 5), functions := (∅ : NameMap _).insert "F" f }
    let h : Host Unit := ⟨{}, fun _ u => (.error (.unknownFunction ""), u)⟩
    let run := Runner.body (Machine.run h 2)
    c.env.Named ∧ "true" ≠ "eval" ∧ c.functions.contains "true" = false ∧
      (c.resolve h run ["true"] { state := () }).1 = .ok (.bool true, true) ∧
      (Operand.resolve "true" c.env).value? c.env = some (.int 5) ∧
      (c.call h run "F" ["true"] { state := () }).1 = .ok ⟨some (.int 5), true⟩ := by
  intro body f c h run
  have hnamed : c.env.Named :=
    Environment.named_empty.writes ⟨.int 5, rfl, Or.inr (by decide +kernel)⟩
  exact ⟨hnamed, by decide, by decide +kernel, by decide +kernel, by decide +kernel,
    by decide +kernel⟩

end Context

end BareBones
