/-
What statements write in the journal.

Nothing that runs looks at the journal.  A statement with no run inside depends on the world through
the state of the evaluator only, and all it leaves there is a line.  A statement with a run inside
leaves what that run does, and adds nothing of its own.  Diagnostics and snapshots are therefore
written between statements, and never by one.
-/
import BareBones.Proofs.Nested

namespace BareBones

variable {σ β : Type}

/-- The world after lines were printed, with the evaluator in a state. -/
def World.printing (w : World σ) (ls : List String) (u : σ) : World σ where
  journal := w.journal ++ (ls.map Event.line).toArray
  state := u

namespace World

@[simp]
theorem printing_nil (w : World σ) (u : σ) : w.printing [] u = { w with state := u } := by
  simp [printing]

theorem printing_self (w : World σ) : w.printing [] w.state = w := by
  rw [printing_nil]

theorem record_line (w : World σ) (text : String) (u : σ) :
    World.record { w with state := u } (.line text) = w.printing [text] u := by
  simp [record, printing]

end World

/-! ### Values -/

namespace Machine

theorem evaluate_asks (h : Host σ) (env : Environment) (tokens : List String) (u : σ) :
    ∃ r u', ∀ w : World σ, w.state = u → evaluate h env tokens w = (r, { w with state := u' }) := by
  cases tokens with
  | nil =>
      refine ⟨.error (.missingArgument Keyword.eval.word "an arithmetic expression"), u, ?_⟩
      rintro w rfl
      rfl
  | cons token tokens =>
      generalize hexpression : " ".intercalate ((token :: tokens).map (substitute env)) = expression
      rcases hx : h.evaluate expression u with ⟨e | x, u'⟩
      · refine ⟨.error (.invalidExpression expression e), u', ?_⟩
        rintro w rfl
        simp only [evaluate, hexpression, hx]
      · refine ⟨.ok (.ofFloat x), u', ?_⟩
        rintro w rfl
        simp only [evaluate, hexpression, hx]

theorem printParts_asks (h : Host σ) (env : Environment) (args : List String) (u : σ) :
    ∃ r u', ∀ w : World σ, w.state = u → printParts h env args w = (r, { w with state := u' }) := by
  induction args with
  | nil =>
      refine ⟨.ok [], u, ?_⟩
      rintro w rfl
      rfl
  | cons arg args ih =>
      by_cases heval : arg = Keyword.eval.word
      · obtain ⟨r, u', hr⟩ := evaluate_asks h env args u
        cases r with
        | ok v =>
            refine ⟨.ok [v.text], u', ?_⟩
            intro w hw
            simp only [printParts, if_pos heval, hr w hw]
        | error e =>
            refine ⟨.error e, u', ?_⟩
            intro w hw
            simp only [printParts, if_pos heval, hr w hw]
      · cases hpart : (if arg.toList.head? = some '"' then some (Literal.unquote arg)
          else (env.get? arg).map Value.text) with
        | none =>
            refine ⟨.error (.missing arg), u, ?_⟩
            rintro w rfl
            simp only [printParts, if_neg heval, hpart]
        | some part =>
            obtain ⟨r, u', hr⟩ := ih
            cases r with
            | ok parts =>
                refine ⟨.ok (part :: parts), u', ?_⟩
                intro w hw
                simp only [printParts, if_neg heval, hpart, hr w hw]
            | error e =>
                refine ⟨.error e, u', ?_⟩
                intro w hw
                simp only [printParts, if_neg heval, hpart, hr w hw]

end Machine

/-! ### Statements without a call -/

namespace Context

open Machine

variable {h : Host σ} {c : Context β} {s : Statement} {args tokens : List String}

theorem resolve_asks (hs : c.valueCall? tokens = none) (u : σ) :
    ∃ r u', ∀ (run : BodyRunner σ β) (w : World σ), w.state = u →
      c.resolve h run tokens w = (r, { w with state := u' }) := by
  cases tokens with
  | nil =>
      refine ⟨.raise (.missingArgument Keyword.toMark.word "a value"), u, ?_⟩
      rintro run w rfl
      rfl
  | cons first rest =>
      simp only [valueCall?] at hs
      split at hs
      · next heval =>
        obtain ⟨r, u', hr⟩ := evaluate_asks h c.env rest u
        cases r with
        | ok v =>
            refine ⟨.ok (v, true), u', ?_⟩
            intro run w hw
            simp only [resolve, if_pos heval, hr w hw]
        | error e =>
            refine ⟨.raise e, u', ?_⟩
            intro run w hw
            simp only [resolve, if_pos heval, hr w hw]
      · next heval =>
        split at hs
        · cases hs
        · next hcall =>
          refine ⟨(c.resolve h (fun _ c w => (.outOfFuel, c, w)) (first :: rest)
            (World.mk #[] u)).1, u, ?_⟩
          rintro run w rfl
          simp only [resolve, if_neg heval, if_neg hcall]
          split <;> rfl

theorem withEnv_prints (c : Context β) (change : Except RuntimeError Unit × Environment) :
    ∃ r c', ∀ w : World σ, c.withEnv w change = (r, c', w) := by
  rcases change with ⟨⟨⟩ | e, env⟩ <;> exact ⟨_, _, fun _ => rfl⟩

theorem print_prints (h : Host σ) (c : Context β) (args : List String) (u : σ) :
    ∃ r ls u', ∀ w : World σ, w.state = u → c.print h args w = (r, c, w.printing ls u') := by
  obtain ⟨r, u', hr⟩ := printParts_asks h c.env args u
  cases r with
  | ok parts =>
      refine ⟨.ok true, [" ".intercalate parts], u', ?_⟩
      intro w hw
      simp only [print, hr w hw, World.record_line]
  | error e =>
      refine ⟨.raise e, [], u', ?_⟩
      intro w hw
      simp only [print, hr w hw, World.printing_nil]

theorem set_asks (u : σ)
    (hs : ∀ target value, assignmentArguments Keyword.set.word "<variable> to <value>" args
      = .ok (target, value) → c.env.contains target = true → c.valueCall? (args.drop 2) = none) :
    ∃ r c' u', ∀ (run : BodyRunner σ β) (w : World σ), w.state = u →
      c.set h run args w = (r, c', { w with state := u' }) := by
  cases hargs : assignmentArguments Keyword.set.word "<variable> to <value>" args with
  | error e =>
      refine ⟨.raise e, c, u, ?_⟩
      rintro run w rfl
      simp only [set, hargs]
  | ok sides =>
      obtain ⟨target, value⟩ := sides
      by_cases hin : c.env.contains target = true
      · obtain ⟨r, u', hr⟩ := resolve_asks (h := h) (hs target value hargs hin) u
        rcases r with ⟨v, ok⟩ | e | _
        · cases hassign : c.env.assign target v with
          | ok env =>
              refine ⟨.ok ok, { c with env := env }, u', ?_⟩
              intro run w hw
              simp only [set, hargs, if_pos hin, hr run w hw, hassign]
          | error e =>
              refine ⟨.raise e, c, u', ?_⟩
              intro run w hw
              simp only [set, hargs, if_pos hin, hr run w hw, hassign]
        · refine ⟨.failed e, c, u', ?_⟩
          intro run w hw
          simp only [set, hargs, if_pos hin, hr run w hw]
        · refine ⟨.outOfFuel, c, u', ?_⟩
          intro run w hw
          simp only [set, hargs, if_pos hin, hr run w hw]
      · refine ⟨.raise (.undeclared target), c, u, ?_⟩
        rintro run w rfl
        simp only [set, hargs, if_neg hin]

theorem returnValue_asks (u : σ) (hs : c.scope.isMain = false → c.valueCall? args = none) :
    ∃ r c' u', ∀ (run : BodyRunner σ β) (w : World σ), w.state = u →
      c.returnValue h run args w = (r, c', { w with state := u' }) := by
  by_cases hmain : c.scope.isMain = true
  · refine ⟨.raise .returnOutsideFunction, c, u, ?_⟩
    rintro run w rfl
    simp only [returnValue, if_pos hmain]
  · by_cases hempty : args.isEmpty = true
    · refine ⟨.raise (.missingArgument Keyword.returnValue.word "a value"), c, u, ?_⟩
      rintro run w rfl
      simp only [returnValue, if_neg hmain, if_pos hempty]
    · obtain ⟨r, u', hr⟩ := resolve_asks (h := h) (hs (eq_false_of_ne_true hmain)) u
      rcases r with ⟨v, ok⟩ | e | _
      · refine ⟨.ok ok, { c with returned := some v }, u', ?_⟩
        intro run w hw
        simp only [returnValue, if_neg hmain, if_neg hempty, hr run w hw]
      · refine ⟨.failed e, c, u', ?_⟩
        intro run w hw
        simp only [returnValue, if_neg hmain, if_neg hempty, hr run w hw]
      · refine ⟨.outOfFuel, c, u', ?_⟩
        intro run w hw
        simp only [returnValue, if_neg hmain, if_neg hempty, hr run w hw]

/-- A statement that makes no call asks the world for the state of the evaluator only, and prints
lines. -/
theorem execute_prints (hs : c.call? s = none) (u : σ) :
    ∃ r c' ls u', ∀ (run : BodyRunner σ β) (w : World σ), w.state = u →
      c.execute h run s w = (r, c', w.printing ls u') := by
  have hchange : ∀ change, (∀ (run : BodyRunner σ β) (w : World σ),
      c.execute h run s w = c.withEnv w change) →
      ∃ r c' ls u', ∀ (run : BodyRunner σ β) (w : World σ), w.state = u →
        c.execute h run s w = (r, c', w.printing ls u') := by
    intro change hx
    obtain ⟨r, c', hr⟩ := withEnv_prints (σ := σ) c change
    refine ⟨r, c', [], u, ?_⟩
    rintro run w rfl
    rw [hx, hr, World.printing_self]
  unfold call? at hs
  split at hs
  · next hk =>
    obtain ⟨r, ls, u', hr⟩ := print_prints h c s.arguments u
    refine ⟨r, c, ls, u', ?_⟩
    intro run w hw
    simp only [execute, hk, hr w hw]
  · next hk =>
    exact hchange (mutate Keyword.incr.word Value.increment s.arguments c.env) fun run w => by
      simp only [execute, hk]
  · next hk =>
    exact hchange (mutate Keyword.decr.word Value.decrement s.arguments c.env) fun run w => by
      simp only [execute, hk]
  · next hk =>
    exact hchange (clear s.arguments c.env) fun run w => by simp only [execute, hk]
  · next hk =>
    exact hchange (init s.arguments c.env) fun run w => by simp only [execute, hk]
  · next hk =>
    exact hchange (copy s.arguments c.env) fun run w => by simp only [execute, hk]
  · next hk =>
    have hvalue : ∀ target value, assignmentArguments Keyword.set.word "<variable> to <value>"
        s.arguments = .ok (target, value) → c.env.contains target = true →
        c.valueCall? (s.arguments.drop 2) = none := by
      intro target value hargs hin
      simpa only [hargs, if_pos hin] using hs
    obtain ⟨r, c', u', hr⟩ := set_asks (h := h) u hvalue
    refine ⟨r, c', [], u', ?_⟩
    intro run w hw
    simp only [execute, hk, hr run w hw, World.printing_nil]
  · next hk =>
    have hvalue : c.scope.isMain = false → c.valueCall? s.arguments = none := by
      intro hmain
      simpa [hmain] using hs
    obtain ⟨r, c', u', hr⟩ := returnValue_asks (h := h) u hvalue
    refine ⟨r, c', [], u', ?_⟩
    intro run w hw
    simp only [execute, hk, hr run w hw, World.printing_nil]
  · cases hs

/-- What a statement makes of the end of its call leaves the world as it is. -/
theorem takeCall_world (c : Context β) (s : Statement) (name : String)
    (x : Outcome Failure CallResult) :
    ∃ r c', ∀ w : World σ, c.takeCall s name (x, w) = (r, c', w) := by
  refine ⟨(c.takeCall s name (x, (⟨#[], ()⟩ : World Unit))).1,
    (c.takeCall s name (x, (⟨#[], ()⟩ : World Unit))).2.1, ?_⟩
  intro w
  rcases x with ⟨v, ok⟩ | e | _
  · unfold takeCall
    split
    · cases v with
      | none => rfl
      | some v =>
          simp only [callValue, takeValue]
          split
          · split <;> rfl
          · rfl
    · rfl
  · rw [takeCall_failed, takeCall_failed]
  · rw [takeCall_outOfFuel, takeCall_outOfFuel]

end Context

/-! ### Statements with and without a run inside -/

namespace Machine

variable {h : Host σ} {m : Machine} {a : Nat} {s : Statement}

theorem moved_world (x : Except RuntimeError Unit × Machine) :
    ∃ r m', ∀ w : World σ, moved w x = (r, m', w) := by
  rcases x with ⟨⟨⟩ | e, m⟩ <;> exact ⟨_, _, fun _ => rfl⟩

/-- A statement without a run inside asks the world for the state of the evaluator only, and prints
lines. -/
theorem execute_prints (hn : nested? h m a s = none) (u : σ) :
    ∃ r m' ls u', ∀ (run : Runner σ) (w : World σ), w.state = u →
      execute h run m a s w = (r, m', w.printing ls u') := by
  have hstill : ∀ r m', (∀ (run : Runner σ) (w : World σ), execute h run m a s w = (r, m', w)) →
      ∃ r m' ls u', ∀ (run : Runner σ) (w : World σ), w.state = u →
        execute h run m a s w = (r, m', w.printing ls u') := by
    intro r m' hx
    refine ⟨r, m', [], u, ?_⟩
    rintro run w rfl
    rw [hx, World.printing_self]
  unfold nested? at hn
  split at hn
  · next hk =>
    obtain ⟨r, m', hr⟩ := moved_world (σ := σ) (enterLoop m a s.arguments)
    exact hstill r m' fun run w => by simp only [execute, hk, hr]
  · next hk => exact hstill (.ok true) (closeBlock m a) fun run w => by simp only [execute, hk]
  · next hk =>
    exact hstill (.raise (.orphanBranch Keyword.elifBranch.word)) m fun run w => by
      simp only [execute, hk]
  · next hk =>
    exact hstill (.raise (.orphanBranch Keyword.elseBranch.word)) m fun run w => by
      simp only [execute, hk]
  · next hk =>
    obtain ⟨r, m', hr⟩ := moved_world (σ := σ) (defineFunction m a s)
    exact hstill r m' fun run w => by simp only [execute, hk, hr]
  · next hk =>
    split at hn
    · next hallowed =>
      obtain ⟨r, a', -, hr⟩ := runChain_of_not_entered (σ := σ) (Option.map_eq_none_iff.1 hn)
      exact hstill r (m.goto a') fun run w => by
        simp only [execute, hk, branch, if_pos hallowed, hr]
    · next hallowed =>
      exact hstill (.raise .conditionalInFunction) m fun run w => by
        simp only [execute, hk, branch, if_neg hallowed]
  · next hwhile hend helif helse hfunc hif =>
    obtain ⟨hopens, hcloses⟩ := not_block_of_keyword hwhile hend hif helif helse hfunc
    split at hn
    · next hcall =>
      obtain ⟨r, c', ls, u', hr⟩ := Context.execute_prints (h := h) hcall u
      refine ⟨r, { m with toContext := c' }, ls, u', ?_⟩
      intro run w hw
      rw [execute_of_not_block hopens hcloses, hr run.body w hw]
      rfl
    · next name args hcall =>
      split at hn
      · next e henter =>
        refine hstill (.raise e) m fun run w => ?_
        rw [execute_of_not_block hopens hcloses, Context.execute_of_call hcall, Context.call_eq,
          henter]
        simp only [Outcome.raise, Context.takeCall_failed]
        rfl
      · cases hn

/-- What a statement makes of the end of the run inside leaves the world as it is. -/
theorem resume_world {n : Nested σ} (hn : nested? h m a s = some n)
    (r : Outcome StatementError Bool) (m₁ : Machine) :
    ∃ r' m', ∀ w, n.resume (r, m₁, w) = (r', m', w) := by
  rcases nested?_cases hn with ⟨-, l, stop, rest, -, rfl⟩ | ⟨name, args, body, callee, -, -, rfl⟩
  · rcases r with ok | e | _
    · simp only [leaveBlock]
      rcases passOver rest (m₁.leave stop rest) with ⟨rp | rp, m₂⟩
      · exact ⟨_, _, fun _ => rfl⟩
      · exact ⟨_, _, fun _ => rfl⟩
    · exact ⟨_, _, fun _ => rfl⟩
    · exact ⟨_, _, fun _ => rfl⟩
  · have hleave : ∃ x, ∀ w : World σ, Context.leaveCall (r, m₁.toContext, w) = (x, w) := by
      rcases r with ok | e | _
      · exact ⟨_, fun _ => rfl⟩
      · exact ⟨_, fun _ => rfl⟩
      · exact ⟨_, fun _ => rfl⟩
    obtain ⟨x, hx⟩ := hleave
    obtain ⟨r', c', hr⟩ := Context.takeCall_world (σ := σ) m.toContext s name x
    refine ⟨r', { m with toContext := c' }, ?_⟩
    intro w
    simp only [hx, hr]
    rfl

end Machine

end BareBones
