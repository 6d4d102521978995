/-
A statement that fails changes nothing.

Every statement but an `if` checks all it needs before it writes anything.  So whatever the error
is, and however deep in a call it was raised, the machine is as it was before.  Nothing is written
in the journal either, but by the call if there is one.

Only a missing variable can be recovered from.  It is found by `print` or `copy` before they do
anything else, so then even the evaluator was not asked, and a step that goes on after such a
failure adds a diagnostic to the world, and a snapshot where variables are published.
-/
import BareBones.Proofs.Journal

namespace BareBones

variable {σ β : Type}

/-! ### Values -/

namespace Machine

theorem evaluate_not_recoverable {h : Host σ} {env : Environment} {tokens : List String}
    {w w' : World σ} {e : RuntimeError} (hx : evaluate h env tokens w = (.error e, w')) :
    e.isRecoverable = false := by
  unfold evaluate at hx
  split at hx
  · cases hx
    rfl
  · dsimp only at hx
    split at hx
    · cases hx
    · cases hx
      rfl

/-- A missing variable is found before the evaluator is asked. -/
theorem printParts_recoverable {h : Host σ} {env : Environment} {e : RuntimeError} :
    ∀ {args : List String} {w w' : World σ}, printParts h env args w = (.error e, w') →
      e.isRecoverable = true → w' = w := by
  intro args
  induction args with
  | nil =>
      intro w w' hx
      cases hx
  | cons arg args ih =>
      intro w w' hx he
      simp only [printParts] at hx
      split at hx
      · split at hx
        · cases hx
        · next heval =>
          cases hx
          rw [evaluate_not_recoverable heval] at he
          cases he
      · split at hx
        · cases hx
          rfl
        · split at hx
          · cases hx
          · next hparts =>
            cases hx
            exact ih hparts he

theorem bindParams_not_recoverable {caller : Environment} {e : RuntimeError} :
    ∀ {bindings : List (String × String)} {env : Environment},
      bindParams caller bindings env = .error e → e.isRecoverable = false := by
  intro bindings
  induction bindings with
  | nil =>
      intro env hx
      cases hx
  | cons binding rest ih =>
      intro env hx
      obtain ⟨param, arg⟩ := binding
      simp only [bindParams] at hx
      split at hx
      · next hbind =>
        cases hx
        unfold Environment.bind at hbind
        split at hbind
        · cases hbind
          rfl
        · cases hbind
      · exact ih hx

end Machine

/-! ### Statements without a block -/

/-- Running a body writes nothing in the journal. -/
def BodyQuiet (run : BodyRunner σ β) : Prop :=
  ∀ body c w, (run body c w).2.2.journal = w.journal

namespace Context

open Machine

variable {h : Host σ} {run : BodyRunner σ β} {c c' : Context β} {s : Statement} {w w' : World σ}
  {e : Failure} {args tokens : List String} {name : String}

theorem enter_not_recoverable {err : RuntimeError} (hx : c.enter h name args = .error err) :
    err.isRecoverable = false := by
  unfold enter at hx
  split at hx
  · cases hx
    rfl
  · split at hx
    · cases hx
      rfl
    · split at hx
      · cases hx
        rfl
      · split at hx
        · next hbind =>
          cases hx
          exact bindParams_not_recoverable hbind
        · cases hx

theorem call_not_recoverable (hx : c.call h run name args w = (.failed e, w')) :
    e.isRecoverable = false := by
  rw [call_eq] at hx
  split at hx
  · next henter =>
    cases hx
    exact enter_not_recoverable henter
  · next body callee _ =>
    rcases hrun : run body callee w with ⟨ok | err | _, c₁, w₁⟩
    · rw [hrun] at hx
      cases hx
    · rw [hrun] at hx
      cases hx
      rfl
    · rw [hrun] at hx
      cases hx

theorem call_journal (hrun : BodyQuiet run) (name : String) (args : List String) (w : World σ) :
    (c.call h run name args w).2.journal = w.journal := by
  rw [call_eq]
  split
  · rfl
  · next body callee _ =>
    have hquiet := hrun body callee w
    rcases hbody : run body callee w with ⟨ok | err | _, c₁, w₁⟩
    all_goals
      rw [hbody] at hquiet
      exact hquiet

theorem resolve_not_recoverable (hx : c.resolve h run tokens w = (.failed e, w')) :
    e.isRecoverable = false := by
  cases tokens with
  | nil =>
      cases hx
      rfl
  | cons first rest =>
      simp only [resolve] at hx
      split at hx
      · split at hx
        · cases hx
        · next heval =>
          cases hx
          exact evaluate_not_recoverable heval
      · split at hx
        · split at hx
          · cases hx
          · cases hx
            rfl
          · next hcall =>
            cases hx
            exact call_not_recoverable hcall
          · cases hx
        · split at hx
          · cases hx
          · cases hx
            rfl

theorem resolve_journal (hrun : BodyQuiet run) (tokens : List String) (w : World σ) :
    (c.resolve h run tokens w).2.journal = w.journal := by
  cases hs : c.valueCall? tokens with
  | none =>
      obtain ⟨r, u, hr⟩ := resolve_asks (h := h) hs w.state
      rw [hr run w rfl]
  | some call =>
      obtain ⟨name, args⟩ := call
      have hquiet := call_journal (c := c) (h := h) hrun name args w
      rw [resolve_of_call hs]
      rcases hcall : c.call h run name args w with ⟨⟨_ | v, ok⟩ | err | _, w₁⟩
      all_goals
        rw [hcall] at hquiet
        exact hquiet

/-- What a failure leaves behind.  If it can be recovered from, nothing was asked of the world, and
in any case nothing is written in the journal, but by a body that ran. -/
structure Unchanged (run : BodyRunner σ β) (c c' : Context β) (w w' : World σ) (e : Failure) :
    Prop where
  context : c' = c
  recoverable : e.isRecoverable = true → w' = w
  quiet : BodyQuiet run → w'.journal = w.journal

theorem unchanged_refl (run : BodyRunner σ β) (c : Context β) (w : World σ) (e : Failure) :
    Unchanged run c c w w e :=
  ⟨rfl, fun _ => rfl, fun _ => rfl⟩

theorem withEnv_failed {change : Except RuntimeError Unit × Environment}
    {Change : Environment → Prop} (hspec : AllOrNothing c.env Change change)
    (hx : c.withEnv w change = (.failed e, c', w')) : Unchanged run c c' w w' e := by
  cases hspec with
  | done hchange => cases hx
  | failed err =>
      cases hx
      exact unchanged_refl run c w _

theorem print_failed (hx : c.print h args w = (.failed e, c', w')) :
    Unchanged run c c' w w' e := by
  obtain ⟨r, u, hr⟩ := printParts_asks h c.env args w.state
  simp only [print, hr w rfl] at hx
  cases r with
  | ok parts => cases hx
  | error err =>
      cases hx
      exact ⟨rfl, printParts_recoverable (hr w rfl), fun _ => rfl⟩

theorem set_failed (hx : c.set h run args w = (.failed e, c', w')) :
    Unchanged run c c' w w' e := by
  unfold set at hx
  split at hx
  · cases hx
    exact unchanged_refl run c w _
  · split at hx
    · next name value _ hin =>
      have hquiet : BodyQuiet run → _ :=
        fun hrun => resolve_journal (c := c) (h := h) hrun (args.drop 2) w
      rcases hres : c.resolve h run (args.drop 2) w with ⟨⟨v, ok⟩ | err | _, w₁⟩
      · -- The variable is there, so it takes the value.
        simp only [hres, Environment.assign, if_pos hin] at hx
        cases hx
      · rw [hres] at hx hquiet
        cases hx
        refine ⟨rfl, ?_, hquiet⟩
        intro he
        rw [resolve_not_recoverable hres] at he
        cases he
      · rw [hres] at hx
        cases hx
    · cases hx
      exact unchanged_refl run c w _

theorem returnValue_failed (hx : c.returnValue h run args w = (.failed e, c', w')) :
    Unchanged run c c' w w' e := by
  unfold returnValue at hx
  split at hx
  · cases hx
    exact unchanged_refl run c w _
  · split at hx
    · cases hx
      exact unchanged_refl run c w _
    · have hquiet : BodyQuiet run → _ :=
        fun hrun => resolve_journal (c := c) (h := h) hrun args w
      rcases hres : c.resolve h run args w with ⟨⟨v, ok⟩ | err | _, w₁⟩
      · rw [hres] at hx
        cases hx
      · rw [hres] at hx hquiet
        cases hx
        refine ⟨rfl, ?_, hquiet⟩
        intro he
        rw [resolve_not_recoverable hres] at he
        cases he
      · rw [hres] at hx
        cases hx

theorem callStatement_failed (hx : c.callStatement h run s w = (.failed e, c', w')) :
    Unchanged run c c' w w' e := by
  have hquiet : BodyQuiet run → _ :=
    fun hrun => call_journal (c := c) (h := h) hrun s.operation s.arguments w
  unfold callStatement at hx
  rcases hcall : c.call h run s.operation s.arguments w with ⟨result | err | _, w₁⟩
  · rw [hcall] at hx
    cases hx
  · rw [hcall] at hx hquiet
    cases hx
    refine ⟨rfl, ?_, hquiet⟩
    intro he
    rw [call_not_recoverable hcall] at he
    cases he
  · rw [hcall] at hx
    cases hx

theorem execute_failed (hx : c.execute h run s w = (.failed e, c', w')) :
    Unchanged run c c' w w' e := by
  simp only [execute] at hx
  split at hx
  · exact print_failed hx
  · exact withEnv_failed (mutate_spec ..) hx
  · exact withEnv_failed (mutate_spec ..) hx
  · exact withEnv_failed (clear_spec ..) hx
  · exact withEnv_failed (init_spec ..) hx
  · exact withEnv_failed (copy_spec ..) hx
  · exact set_failed hx
  · exact returnValue_failed hx
  · exact callStatement_failed hx

end Context

/-! ### All statements but conditionals -/

namespace Machine

variable {h : Host σ} {run : Runner σ} {m m' : Machine} {a : Nat} {s : Statement}
  {w w' : World σ} {e : Failure}

theorem moved_failed {x : Except RuntimeError Unit × Machine} {Change : Machine → Prop}
    (hspec : AllOrNothing m Change x)
    (hfatal : ∀ err, x = (.error err, m) → err.isRecoverable = false)
    (hx : moved w x = (.failed e, m', w')) :
    m' = m ∧ w' = w ∧ ¬ e.isRecoverable = true := by
  cases hspec with
  | done hchange => cases hx
  | failed err =>
      cases hx
      exact ⟨rfl, rfl, ne_true_of_eq_false (hfatal err rfl)⟩

/-- What the failure of a statement that is no `if` leaves behind.  One that can be recovered from
is that of a statement without a block. -/
theorem execute_failed (hif : s.keyword? ≠ some .ifBranch)
    (hx : execute h run m a s w = (.failed e, m', w')) :
    m' = m ∧ (BodyQuiet run.body → w'.journal = w.journal) ∧
      (e.isRecoverable = true → w' = w ∧ s.opensBlock = false ∧ s.closesBlock = false) := by
  unfold execute at hx
  split at hx
  · -- A block that is not entered is never recovered from, nor is a function that is not defined.
    obtain ⟨rfl, rfl, hfatal⟩ :=
      moved_failed (enterLoop_spec ..) (fun _ => enterLoop_not_recoverable) hx
    exact ⟨rfl, fun _ => rfl, fun he => absurd he hfatal⟩
  · cases hx
  · next hk => exact absurd hk hif
  case h_4 | h_5 =>
    cases hx
    exact ⟨rfl, fun _ => rfl, fun he => absurd he (by decide)⟩
  · obtain ⟨rfl, rfl, hfatal⟩ :=
      moved_failed (defineFunction_spec ..) (fun _ => defineFunction_not_recoverable) hx
    exact ⟨rfl, fun _ => rfl, fun he => absurd he hfatal⟩
  · next hwhile hend hif' helif helse hfunc =>
    rcases hexec : m.toContext.execute h run.body s w with ⟨r, c, w₁⟩
    rw [hexec] at hx
    cases hx
    have hsame := Context.execute_failed hexec
    refine ⟨?_, hsame.quiet, ?_⟩
    · rw [hsame.context]
    · intro he
      exact ⟨hsame.recoverable he, not_block_of_keyword hwhile hend hif' helif helse hfunc⟩

/-- A step that goes on after the failure of a statement that is no `if` adds a diagnostic, and a
snapshot of the variables if they are published. -/
theorem step_recovers {err : RuntimeError} (hs : m.next? = some s)
    (hif : s.keyword? ≠ some .ifBranch)
    (hx : execute h run (m.goto (m.pc + 1)) m.pc s w = (.raise err, m', w'))
    (he : err.isRecoverable = true) :
    step h run m w = (.ok (.continued false), m.goto (m.pc + 1),
      m.publish h (.afterStatement m.pc) (w.record (.diagnostic (m.locate m.pc s err)))) := by
  obtain ⟨rfl, -, hrec⟩ := execute_failed hif hx
  obtain ⟨rfl, hopens, hcloses⟩ := hrec he
  simp only [step, hs, hx, Outcome.raise, Context.settle, he, if_true, Context.publishAfter, hopens,
    hcloses]
  rfl

/-- A statement other than an `if` that fails leaves the machine as it was: the variables, the
functions, the loops, the value of the last `return` and the address.  If no function was entered,
nothing is written in the journal.  So a step that goes on after the failure is at the next address,
and has added nothing to the world but a diagnostic and, where variables are published, a snapshot
of the variables, which are as before. -/
theorem failure_changes_nothing (h : Host σ) (run : Runner σ) (m m' : Machine) (a : Nat)
    (s : Statement) (w w' : World σ) (e : Failure) (hif : s.keyword? ≠ some .ifBranch)
    (hx : execute h run m a s w = (.failed e, m', w')) :
    m' = m ∧
    (nested? h m a s = none → w'.journal = w.journal) ∧
    ∀ m₀ : Machine, m₀.next? = some s → m = m₀.goto (m₀.pc + 1) → a = m₀.pc →
      e.isRecoverable = true →
      ∃ err, e = .raised err ∧
        step h run m₀ w = (.ok (.continued false), m₀.goto (m₀.pc + 1),
          let reported := w.record (.diagnostic (m₀.locate m₀.pc s err))
          if m₀.scope.isMain && h.settings.verbose then
            reported.record (.snapshot (.afterStatement m₀.pc) m₀.env)
          else reported) := by
  refine ⟨(execute_failed hif hx).1, ?_, ?_⟩
  · intro hn
    -- Nothing is run inside, so it could as well be run by something that writes nothing.
    obtain ⟨hany, -⟩ := execute_of_not_nested run (fun _ m w => (.outOfFuel, m, w)) w
      (AlikeAt.refl h m s) hn
    rw [hx] at hany
    exact (execute_failed hif hany).2.1 fun _ _ _ => rfl
  · rintro m₀ hs rfl rfl he
    cases e with
    | nested err => cases he
    | raised err => exact ⟨err, rfl, step_recovers hs hif hx he⟩

/-- The first of two variables is printed by nobody if the second is missing. -/
theorem failure_changes_nothing_missing_part :
    let s : Statement := ⟨"print", ["x", "y"], "print x y", 1⟩
    let m : Machine := { program := .ofStatements [s], env := NameMap.ofList [("x", .int 1)] }
    let h : Host Unit := ⟨{ verbose := true }, fun _ u => (.error (.unknownFunction ""), u)⟩
    let w : World Unit := { state := () }
    execute h (Machine.run h 0) (m.goto 1) 0 s w = (.raise (.missing "y"), m.goto 1, w) ∧
      step h (Machine.run h 0) m w = (.ok (.continued false), m.goto 1,
        (w.record (.diagnostic (m.locate 0 s (.missing "y")))).record
          (.snapshot (.afterStatement 0) m.env)) := by
  intro s m h w
  have hx : execute h (Machine.run h 0) (m.goto 1) 0 s w =
      (.raise (.missing "y"), m.goto 1, w) := by rfl
  obtain ⟨-, -, hstep⟩ := failure_changes_nothing h (Machine.run h 0) (m.goto 1) _ 0 s w _ _
    (by decide) hx
  obtain ⟨err, herr, hstep⟩ := hstep m rfl rfl rfl rfl
  cases herr
  exact ⟨hx, hstep⟩

end Machine

end BareBones
