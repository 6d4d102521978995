/-
A statement has at most one run inside.

Two kinds of statements run others: an `if` runs a block of its chain, and a call runs the body of a
function.  A call stands alone, or it gives the value of a `set` or a `return`.  In each case the
run can be told before it starts, from the machine and the settings: `nested?` names the machine
it starts with and the address where it stops, together with what the statement makes of the end of
the run.  A statement without such a run is done at once.

So whatever is asked of a statement and of the runs inside it needs two answers only.  An error that
ends the run inside is handed up, and the fuel of a statement is gone only if it is gone inside.
-/
import BareBones.Proofs.Frame

namespace BareBones

variable {σ β : Type}

namespace Context

open Machine

/-! ### Calls -/

/-- The body that a call runs and the context it runs in, or why there is no such call. -/
def enter (h : Host σ) (c : Context β) (name : String) (args : List String) :
    Except RuntimeError (β × Context β) :=
  match c.functions.get? name with
  | none => .error (.unknownOperation name)
  | some f =>
    if args.length ≠ f.arity then .error (.arityMismatch f.name f.arity args.length)
    else if h.settings.maxCallDepth ≤ c.scope.depth then
      .error (.callDepthExceeded h.settings.maxCallDepth)
    else
      match bindParams c.env (f.params.zip args) c.env with
      | .error e => .error e
      | .ok env => .ok (f.body, c.forCall f env)

/-- What a call makes of the end of its body. -/
def leaveCall : Outcome StatementError Bool × Context β × World σ →
    Outcome Failure CallResult × World σ
  | (.ok ok, callee, w) => (.ok ⟨callee.returned, ok⟩, w)
  | (.failed e, _, w) => (.failed (.nested e), w)
  | (.outOfFuel, _, w) => (.outOfFuel, w)

/-- The call that gives the value of tokens, if one does. -/
def valueCall? (c : Context β) : List String → Option (String × List String)
  | [] => none
  | first :: rest =>
    if first = Keyword.eval.word then none
    else if c.functions.contains first && !c.env.contains first then some (first, rest)
    else none

/-- The value that a call gives. -/
def callValue (name : String) : Outcome Failure CallResult × World σ →
    Outcome Failure (Value × Bool) × World σ
  | (.ok ⟨some v, ok⟩, w) => (.ok (v, ok), w)
  | (.ok ⟨none, _⟩, w) => (.raise (.noReturnValue name), w)
  | (.failed e, w) => (.failed e, w)
  | (.outOfFuel, w) => (.outOfFuel, w)

/-- The call that a statement makes, if it makes one. -/
def call? (c : Context β) (s : Statement) : Option (String × List String) :=
  match s.keyword? with
  | some .print | some .incr | some .decr | some .clear | some .init | some .copy => none
  | some .set =>
    match assignmentArguments Keyword.set.word "<variable> to <value>" s.arguments with
    | .error _ => none
    | .ok (name, _) => if c.env.contains name then c.valueCall? (s.arguments.drop 2) else none
  | some .returnValue => if c.scope.isMain then none else c.valueCall? s.arguments
  | _ => some (s.operation, s.arguments)

/-- What a statement makes of the value that its call gives. -/
def takeValue (c : Context β) (s : Statement) : Outcome Failure (Value × Bool) × World σ →
    Outcome Failure Bool × Context β × World σ
  | (.ok (v, ok), w) =>
    if s.keyword? = some .set then
      match c.env.assign (s.arguments.headD "") v with
      | .ok env => (.ok ok, { c with env := env }, w)
      | .error e => (.raise e, c, w)
    else (.ok ok, { c with returned := some v }, w)
  | (.failed e, w) => (.failed e, c, w)
  | (.outOfFuel, w) => (.outOfFuel, c, w)

/-- What a statement makes of the end of its call. -/
def takeCall (c : Context β) (s : Statement) (name : String)
    (x : Outcome Failure CallResult × World σ) : Outcome Failure Bool × Context β × World σ :=
  if s.keyword? = some .set ∨ s.keyword? = some .returnValue then c.takeValue s (callValue name x)
  else
    match x with
    | (.ok result, w) => (.ok result.ok, c, w)
    | (.failed e, w) => (.failed e, c, w)
    | (.outOfFuel, w) => (.outOfFuel, c, w)

variable {h h' : Host σ} {run run' : BodyRunner σ β} {c : Context β} {s : Statement} {w : World σ}
  {name : String} {args tokens : List String}

theorem call_eq : c.call h run name args w =
    match c.enter h name args with
    | .error e => (.raise e, w)
    | .ok (body, callee) => leaveCall (run body callee w) := by
  unfold call enter
  cases c.functions.get? name with
  | none => rfl
  | some f =>
      by_cases hlen : args.length ≠ f.arity
      · simp only [if_pos hlen]
      · by_cases hdepth : h.settings.maxCallDepth ≤ c.scope.depth
        · simp only [if_neg hlen, if_pos hdepth]
        · simp only [if_neg hlen, if_neg hdepth]
          cases bindParams c.env (f.params.zip args) c.env with
          | error e => rfl
          | ok env => rfl

/-- A call that is entered runs the body of a function, one deeper than its caller, with the
parameters bound to the arguments. -/
theorem enter_eq_ok {body : β} {callee : Context β}
    (hc : c.enter h name args = .ok (body, callee)) :
    ∃ f env, c.functions.get? name = some f ∧ c.scope.depth < h.settings.maxCallDepth ∧
      bindParams c.env (f.params.zip args) c.env = .ok env ∧ body = f.body ∧
      callee = c.forCall f env := by
  unfold enter at hc
  split at hc
  · cases hc
  · next f hf =>
    split at hc
    · cases hc
    · split at hc
      · cases hc
      · next hdepth =>
        split at hc
        · cases hc
        · next env henv =>
          cases hc
          exact ⟨f, env, hf, Nat.lt_of_not_le hdepth, henv, rfl, rfl⟩

theorem resolve_of_call (hs : c.valueCall? tokens = some (name, args)) :
    c.resolve h run tokens w = callValue name (c.call h run name args w) := by
  cases tokens with
  | nil => cases hs
  | cons first rest =>
      simp only [valueCall?] at hs
      split at hs
      · cases hs
      · next heval =>
        split at hs
        · next hcall =>
          cases hs
          simp only [resolve, if_neg heval, if_pos hcall]
          rcases c.call h run name args w with ⟨⟨_ | v, ok⟩ | e | _, w'⟩ <;> rfl
        · cases hs

/-- The value of tokens that are no call needs nothing but the evaluator. -/
theorem resolve_of_no_call (run run' : BodyRunner σ β) (w : World σ)
    (heval : h'.evaluate = h.evaluate) (hs : c.valueCall? tokens = none) :
    c.resolve h' run' tokens w = c.resolve h run tokens w ∧
      (c.resolve h run tokens w).1 ≠ .outOfFuel := by
  cases tokens with
  | nil => exact ⟨rfl, by simp [resolve, Outcome.raise]⟩
  | cons first rest =>
      simp only [valueCall?] at hs
      simp only [resolve]
      split at hs
      · next hfirst =>
        simp only [if_pos hfirst, Machine.evaluate, heval]
        refine ⟨trivial, ?_⟩
        split <;> simp [Outcome.raise]
      · next hfirst =>
        split at hs
        · cases hs
        · next hcall =>
          simp only [if_neg hfirst, if_neg hcall]
          refine ⟨trivial, ?_⟩
          split <;> simp [Outcome.raise]

/-- A statement that makes a call goes on from the end of the call. -/
theorem execute_of_call (hs : c.call? s = some (name, args)) :
    c.execute h run s w = c.takeCall s name (c.call h run name args w) := by
  unfold call? at hs
  split at hs
  case h_1 | h_2 | h_3 | h_4 | h_5 | h_6 => cases hs
  · next hk =>
    split at hs
    · cases hs
    · next target literal hargs =>
      split at hs
      · next hin =>
        have htarget : s.arguments.headD "" = target := by
          rw [List.headD_eq_head?_getD, List.head?_eq_getElem?, (assignmentArguments_eq hargs).1]
          rfl
        simp only [execute, hk, set, hargs, if_pos hin, resolve_of_call hs, takeCall, takeValue,
          htarget]
        rcases callValue name (c.call h run name args w) with ⟨⟨v, ok⟩ | e | _, w'⟩
        · rfl
        · rfl
        · rfl
      · cases hs
  · next hk =>
    split at hs
    · cases hs
    · next hmain =>
      have hargs : s.arguments.isEmpty = false := by
        cases hargs : s.arguments with
        | nil =>
            rw [hargs] at hs
            cases hs
        | cons first rest => rfl
      simp only [execute, hk, returnValue, if_neg hmain, hargs, resolve_of_call hs, takeCall,
        takeValue]
      rcases callValue name (c.call h run name args w) with ⟨⟨v, ok⟩ | e | _, w'⟩
      · rfl
      · rfl
      · rfl
  · next hprint hincr hdecr hclear hinit hcopy hset hreturn =>
    cases hs
    have hplain : ¬ (s.keyword? = some .set ∨ s.keyword? = some .returnValue) := by
      rintro (hk | hk)
      · exact hset hk
      · exact hreturn hk
    have hexec : c.execute h run s w = c.callStatement h run s w := by
      simp only [execute]
    rw [hexec]
    rcases hcall : c.call h run s.operation s.arguments w with ⟨result | e | _, w'⟩ <;>
      simp only [callStatement, hcall, takeCall, if_neg hplain]

theorem withEnv_ne_outOfFuel (c : Context β) (w : World σ)
    (change : Except RuntimeError Unit × Environment) : (c.withEnv w change).1 ≠ .outOfFuel := by
  unfold withEnv
  split <;> simp [Outcome.raise]

theorem print_ne_outOfFuel : (c.print h args w).1 ≠ .outOfFuel := by
  unfold print
  split <;> simp [Outcome.raise]

theorem print_congr (heval : h'.evaluate = h.evaluate) :
    c.print h' args w = c.print h args w := by
  have hparts : ∀ args : List String, printParts h' c.env args w = printParts h c.env args w := by
    intro args
    induction args with
    | nil => rfl
    | cons arg args ih => simp only [printParts, Machine.evaluate, heval, ih]
  simp only [print, hparts]

theorem set_of_no_call (heval : h'.evaluate = h.evaluate)
    (hs : ∀ target value, assignmentArguments Keyword.set.word "<variable> to <value>" args
      = .ok (target, value) → c.env.contains target = true → c.valueCall? (args.drop 2) = none) :
    c.set h' run' args w = c.set h run args w ∧ (c.set h run args w).1 ≠ .outOfFuel := by
  simp only [set]
  split
  · exact ⟨rfl, by simp [Outcome.raise]⟩
  · next target value hargs =>
    by_cases hin : c.env.contains target = true
    · obtain ⟨heq, hne⟩ := resolve_of_no_call run run' w heval (hs target value hargs hin)
      simp only [if_pos hin, heq]
      refine ⟨trivial, ?_⟩
      rcases hres : c.resolve h run (args.drop 2) w with ⟨⟨v, ok⟩ | e | _, w'⟩
      · dsimp only
        split <;> simp [Outcome.raise]
      · simp
      · rw [hres] at hne
        exact absurd rfl hne
    · simp only [if_neg hin]
      exact ⟨trivial, by simp [Outcome.raise]⟩

theorem returnValue_of_no_call (heval : h'.evaluate = h.evaluate)
    (hs : c.scope.isMain = false → c.valueCall? args = none) :
    c.returnValue h' run' args w = c.returnValue h run args w ∧
      (c.returnValue h run args w).1 ≠ .outOfFuel := by
  simp only [returnValue]
  by_cases hmain : c.scope.isMain = true
  · simp only [if_pos hmain]
    exact ⟨trivial, by simp [Outcome.raise]⟩
  · by_cases hempty : args.isEmpty = true
    · simp only [if_neg hmain, if_pos hempty]
      exact ⟨trivial, by simp [Outcome.raise]⟩
    · obtain ⟨heq, hne⟩ := resolve_of_no_call run run' w heval (hs (eq_false_of_ne_true hmain))
      simp only [if_neg hmain, if_neg hempty, heq]
      refine ⟨trivial, ?_⟩
      rcases hres : c.resolve h run args w with ⟨⟨v, ok⟩ | e | _, w'⟩
      · simp
      · simp
      · rw [hres] at hne
        exact absurd rfl hne

/-- A statement that makes no call needs nothing but the evaluator. -/
theorem execute_of_no_call (run run' : BodyRunner σ β) (w : World σ)
    (heval : h'.evaluate = h.evaluate) (hs : c.call? s = none) :
    c.execute h' run' s w = c.execute h run s w ∧ (c.execute h run s w).1 ≠ .outOfFuel := by
  unfold call? at hs
  split at hs
  · next hk =>
    simp only [execute, hk]
    exact ⟨print_congr heval, print_ne_outOfFuel⟩
  case h_2 hk | h_3 hk | h_4 hk | h_5 hk | h_6 hk =>
    simp only [execute, hk]
    exact ⟨trivial, withEnv_ne_outOfFuel c w _⟩
  · next hk =>
    simp only [execute, hk]
    refine set_of_no_call heval ?_
    intro target value hargs hin
    simpa only [hargs, if_pos hin] using hs
  · next hk =>
    simp only [execute, hk]
    refine returnValue_of_no_call heval ?_
    intro hmain
    simpa [hmain] using hs
  · cases hs

/-- A failure of the call is the failure of the statement. -/
theorem takeCall_failed (c : Context β) (s : Statement) (name : String) (e : Failure)
    (w : World σ) : c.takeCall s name (.failed e, w) = (.failed e, c, w) := by
  unfold takeCall
  split <;> rfl

theorem takeCall_outOfFuel (c : Context β) (s : Statement) (name : String) (w : World σ) :
    c.takeCall s name (.outOfFuel, w) = (.outOfFuel, c, w) := by
  unfold takeCall
  split <;> rfl

theorem takeCall_ne_outOfFuel {x : Outcome Failure CallResult × World σ} (hx : x.1 ≠ .outOfFuel) :
    (c.takeCall s name x).1 ≠ .outOfFuel := by
  rcases x with ⟨⟨v, ok⟩ | e | _, w⟩
  · unfold takeCall
    split
    · cases v with
      | none => simp [callValue, takeValue, Outcome.raise]
      | some v =>
          simp only [callValue, takeValue]
          split
          · split <;> simp [Outcome.raise]
          · simp
    · simp
  · rw [takeCall_failed]
    simp
  · exact absurd rfl hx

end Context

/-! ### Chains -/

namespace Machine

/-- The block of a chain that runs, if one does: its link, its `end` and the links behind it. -/
def entered? : List Link → Environment → Option (Link × Nat × List Link)
  | [], _ => none
  | l :: rest, env =>
    match l.stop with
    | none => none
    | some stop =>
      match l.taken env with
      | .error _ => none
      | .ok false => entered? rest env
      | .ok true => some (l, stop, rest)

/-- What a chain makes of the end of its block. -/
def leaveBlock (stop : Nat) (rest : List Link) :
    Outcome StatementError Bool × Machine × World σ → Outcome Failure Bool × Machine × World σ
  | (.failed e, m, w) => (.failed (.nested e), m, w)
  | (.outOfFuel, m, w) => (.outOfFuel, m, w)
  | (.ok ok, m, w) =>
    match passOver rest (m.leave stop rest) with
    | (.ok (), m) => (.ok ok, m, w)
    | (.error e, m) => (.raise e, m, w)

variable {h h' : Host σ} {run run' : Runner σ} {m : Machine} {w : World σ} {a stop : Nat}
  {s : Statement} {l : Link} {ls rest : List Link}

theorem mem_of_entered? {env : Environment} : ∀ {ls : List Link},
    entered? ls env = some (l, stop, rest) → l ∈ ls ∧ l.stop = some stop := by
  intro ls
  induction ls with
  | nil =>
      intro hl
      cases hl
  | cons l' ls ih =>
      intro hl
      simp only [entered?] at hl
      split at hl
      · cases hl
      · next hstop =>
        split at hl
        · cases hl
        · obtain ⟨hmem, hend⟩ := ih hl
          exact ⟨List.mem_cons_of_mem l' hmem, hend⟩
        · cases hl
          exact ⟨List.mem_cons_self, hstop⟩

theorem runChain_of_entered : ∀ {ls : List Link} {m : Machine},
    entered? ls m.env = some (l, stop, rest) →
    runChain run ls m w = leaveBlock stop rest (run stop (m.goto (l.opener + 1)) w) := by
  intro ls
  induction ls with
  | nil =>
      intro m hl
      cases hl
  | cons l' ls ih =>
      intro m hl
      cases hstop : l'.stop with
      | none =>
          simp only [entered?, hstop] at hl
          cases hl
      | some stop' =>
          cases htaken : l'.taken m.env with
          | error e =>
              simp only [entered?, hstop, htaken] at hl
              cases hl
          | ok taken =>
              simp only [entered?, hstop, htaken] at hl
              simp only [runChain, hstop, htaken]
              cases taken with
              | false => exact ih (m := m.leave stop' ls) hl
              | true =>
                  cases hl
                  rcases run stop (m.goto (l.opener + 1)) w with ⟨ok | e | _, m', w'⟩ <;> rfl

/-- A chain of which no block runs changes nothing but the address. -/
theorem runChain_of_not_entered : ∀ {ls : List Link} {m : Machine}, entered? ls m.env = none →
    ∃ r a, r ≠ .outOfFuel ∧
      ∀ (run : Runner σ) (w : World σ), runChain run ls m w = (r, m.goto a, w) := by
  intro ls
  induction ls with
  | nil =>
      intro m _
      exact ⟨.ok true, m.pc, by simp, fun _ _ => rfl⟩
  | cons l ls ih =>
      intro m hl
      simp only [entered?] at hl
      split at hl
      · next hstop =>
        refine ⟨.raise (.unmatchedBlock l.statement.operation), m.pc, by simp [Outcome.raise], ?_⟩
        intro run w
        simp only [runChain, hstop]
        rfl
      · next stop hstop =>
        split at hl
        · next e htaken =>
          refine ⟨.raise e, m.pc, by simp [Outcome.raise], ?_⟩
          intro run w
          simp only [runChain, hstop, htaken]
          rfl
        · next htaken =>
          obtain ⟨r, a, hr, hx⟩ := ih (m := m.leave stop ls) hl
          refine ⟨r, a, hr, ?_⟩
          intro run w
          simp only [runChain, hstop, htaken]
          exact hx run w
        · cases hl

/-! ### Statements -/

/-- The run inside a statement. -/
structure Nested (σ : Type) where
  /-- Where the run stops. -/
  stop : Nat
  /-- The machine that it starts with. -/
  machine : Machine
  /-- What the statement makes of its end. -/
  resume : Outcome StatementError Bool × Machine × World σ →
    Outcome Failure Bool × Machine × World σ

/-- The run inside the statement at the address, if there is one. -/
def nested? (h : Host σ) (m : Machine) (address : Nat) (s : Statement) : Option (Nested σ) :=
  match s.keyword? with
  | some .whileLoop | some .endBlock | some .elifBranch | some .elseBranch | some .func => none
  | some .ifBranch =>
    if m.scope.isMain || h.settings.conditionalsInFunctions then
      (entered? (chain m.program address s) m.env).map fun (l, stop, rest) =>
        ⟨stop, m.goto (l.opener + 1), leaveBlock stop rest⟩
    else none
  | _ =>
    match m.call? s with
    | none => none
    | some (name, args) =>
      match m.enter h name args with
      | .error _ => none
      | .ok (body, callee) =>
        some ⟨body.size, { toContext := callee, program := body }, fun (r, callee, w) =>
          m.inContext (m.takeCall s name (Context.leaveCall (r, callee.toContext, w)))⟩

/-- The run inside a statement is that of a block of a chain, or that of the body of a function. -/
theorem nested?_cases {n : Nested σ} (hn : nested? h m a s = some n) :
    (s.keyword? = some .ifBranch ∧ ∃ l stop rest,
        entered? (chain m.program a s) m.env = some (l, stop, rest) ∧
        n = ⟨stop, m.goto (l.opener + 1), leaveBlock stop rest⟩) ∨
      ∃ name args body callee, m.call? s = some (name, args) ∧
        m.enter h name args = .ok (body, callee) ∧
        n = ⟨body.size, { toContext := callee, program := body }, fun (r, callee, w) =>
          m.inContext (m.takeCall s name (Context.leaveCall (r, callee.toContext, w)))⟩ := by
  unfold nested? at hn
  split at hn
  case h_1 | h_2 | h_3 | h_4 | h_5 => cases hn
  · next hk =>
    split at hn
    · obtain ⟨⟨l, stop, rest⟩, hl, rfl⟩ := Option.map_eq_some_iff.1 hn
      exact Or.inl ⟨hk, l, stop, rest, hl, rfl⟩
    · cases hn
  · split at hn
    · cases hn
    · next name args hcall =>
      split at hn
      · cases hn
      · next body callee henter =>
        cases hn
        exact Or.inr ⟨name, args, body, callee, hcall, henter, rfl⟩

/-- A statement with a run inside goes on from the end of that run. -/
theorem execute_of_nested {n : Nested σ} (hn : nested? h m a s = some n) :
    execute h run m a s w = n.resume (run n.stop n.machine w) := by
  unfold nested? at hn
  unfold execute
  split at hn
  case h_1 | h_2 | h_3 | h_4 | h_5 => cases hn
  · next hk =>
    split at hn
    · next hallowed =>
      obtain ⟨⟨l, stop, rest⟩, hl, rfl⟩ := Option.map_eq_some_iff.1 hn
      simp only [hk, branch, if_pos hallowed]
      exact runChain_of_entered hl
    · cases hn
  · split at hn
    · cases hn
    · next name args hcall =>
      split at hn
      · cases hn
      · next body callee henter =>
        cases hn
        simp only [Context.execute_of_call hcall, Context.call_eq, henter, Runner.body]

theorem execute_of_not_block (hopens : s.opensBlock = false) (hcloses : s.closesBlock = false) :
    execute h run m a s w = m.inContext (m.toContext.execute h run.body s w) := by
  unfold Statement.opensBlock at hopens
  unfold Statement.closesBlock at hcloses
  unfold execute
  split
  case h_7 => rfl
  all_goals
    next hk => simp [hk, Keyword.opensBlock] at hopens hcloses

/-- The two hosts work out arithmetic alike, and they treat the statement alike: both let an `if`
run its chain or neither does, and both enter the function that another statement calls or refuse
to. -/
structure AlikeAt (h h' : Host σ) (m : Machine) (s : Statement) : Prop where
  evaluate : h'.evaluate = h.evaluate
  branches : s.keyword? = some .ifBranch →
    (m.scope.isMain || h'.settings.conditionalsInFunctions) =
      (m.scope.isMain || h.settings.conditionalsInFunctions)
  enters : s.opensBlock = false → s.closesBlock = false → ∀ name args,
    m.call? s = some (name, args) → m.enter h' name args = m.enter h name args

theorem AlikeAt.refl (h : Host σ) (m : Machine) (s : Statement) : AlikeAt h h m s :=
  ⟨rfl, fun _ => rfl, fun _ _ _ _ _ => rfl⟩

theorem AlikeAt.nested?_eq (hh : AlikeAt h h' m s) : nested? h' m a s = nested? h m a s := by
  unfold nested?
  split
  case h_1 | h_2 | h_3 | h_4 | h_5 => rfl
  · next hk => rw [hh.branches hk]
  · next hwhile hend helif helse hfunc hif =>
    obtain ⟨hopens, hcloses⟩ := not_block_of_keyword hwhile hend hif helif helse hfunc
    cases hcall : m.call? s with
    | none => rfl
    | some call =>
        obtain ⟨name, args⟩ := call
        simp only [hh.enters hopens hcloses name args hcall]

/-- A statement without a run inside is done at once, and in the same way by any two hosts that
treat it alike. -/
theorem execute_of_not_nested (run run' : Runner σ) (w : World σ) (hh : AlikeAt h h' m s)
    (hn : nested? h m a s = none) :
    execute h' run' m a s w = execute h run m a s w ∧ (execute h run m a s w).1 ≠ .outOfFuel := by
  have hmoved : ∀ x : Except RuntimeError Unit × Machine, (moved w x).1 ≠ .outOfFuel := by
    intro x
    unfold moved
    split <;> simp [Outcome.raise]
  unfold nested? at hn
  unfold execute
  split at hn
  · next hk =>
    simp only [hk]
    exact ⟨trivial, hmoved _⟩
  · next hk =>
    simp only [hk]
    exact ⟨trivial, by simp⟩
  case h_3 hk | h_4 hk =>
    simp only [hk]
    exact ⟨trivial, by simp [Outcome.raise]⟩
  · next hk =>
    simp only [hk]
    exact ⟨trivial, hmoved _⟩
  · next hk =>
    simp only [hk, branch, hh.branches hk]
    split at hn
    · next hallowed =>
      obtain ⟨r, a', hr, hx⟩ := runChain_of_not_entered (σ := σ) (Option.map_eq_none_iff.1 hn)
      rw [if_pos hallowed, if_pos hallowed, hx, hx]
      exact ⟨rfl, hr⟩
    · next hallowed =>
      rw [if_neg hallowed, if_neg hallowed]
      exact ⟨rfl, by simp [Outcome.raise]⟩
  · next hwhile hend helif helse hfunc hif =>
    obtain ⟨hopens, hcloses⟩ := not_block_of_keyword hwhile hend hif helif helse hfunc
    split at hn
    · next hcall =>
      obtain ⟨heq, hne⟩ := Context.execute_of_no_call run.body run'.body w hh.evaluate hcall
      simp only [heq]
      exact ⟨trivial, hne⟩
    · next name args hcall =>
      split at hn
      · next e henter =>
        simp only [Context.execute_of_call hcall, Context.call_eq,
          hh.enters hopens hcloses name args hcall, henter, Outcome.raise, Context.takeCall_failed]
        exact ⟨trivial, by simp [inContext]⟩
      · cases hn

/-- An error that ends the run inside is handed up. -/
theorem resume_failed {n : Nested σ} (hn : nested? h m a s = some n) (e : StatementError)
    (m' : Machine) (w' : World σ) : (n.resume (.failed e, m', w')).1 = .failed (.nested e) := by
  rcases nested?_cases hn with ⟨-, l, stop, rest, -, rfl⟩ | ⟨name, args, body, callee, -, -, rfl⟩
  · rfl
  · simp only [Context.leaveCall, Context.takeCall_failed]
    rfl

theorem resume_outOfFuel {n : Nested σ} (hn : nested? h m a s = some n) (m' : Machine)
    (w' : World σ) : (n.resume (.outOfFuel, m', w')).1 = .outOfFuel := by
  rcases nested?_cases hn with ⟨-, l, stop, rest, -, rfl⟩ | ⟨name, args, body, callee, -, -, rfl⟩
  · rfl
  · simp only [Context.leaveCall, Context.takeCall_outOfFuel]
    rfl

/-- Fuel is gone only if it is gone inside. -/
theorem resume_ne_outOfFuel {n : Nested σ} (hn : nested? h m a s = some n)
    {r : Outcome StatementError Bool} (hr : r ≠ .outOfFuel) (m' : Machine) (w' : World σ) :
    (n.resume (r, m', w')).1 ≠ .outOfFuel := by
  rcases nested?_cases hn with ⟨-, l, stop, rest, -, rfl⟩ | ⟨name, args, body, callee, -, -, rfl⟩
  · cases r with
    | failed e => simp [leaveBlock]
    | outOfFuel => exact absurd rfl hr
    | ok ok =>
        simp only [leaveBlock]
        split <;> simp [Outcome.raise]
  · refine Context.takeCall_ne_outOfFuel ?_
    cases r with
    | outOfFuel => exact absurd rfl hr
    | failed e | ok ok => simp [Context.leaveCall]

/-- A statement is finished if the run inside it is. -/
theorem execute_ne_outOfFuel
    (hrun : ∀ n, nested? h m a s = some n → (run n.stop n.machine w).1 ≠ .outOfFuel) :
    (execute h run m a s w).1 ≠ .outOfFuel := by
  cases hn : nested? h m a s with
  | none => exact (execute_of_not_nested run run w (.refl h m s) hn).2
  | some n =>
      rw [execute_of_nested hn]
      exact resume_ne_outOfFuel hn (hrun n hn) _ _

end Machine

end BareBones
