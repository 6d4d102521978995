/-
Every error that ends a run names the statement that raised it.

An error gets its place once: the address, the text and the line of its statement, and the scope of
the machine that ran the statement.  From there on it is handed up unchanged, through the chains and
calls around the statement.  So the place is right at the top if it was right where it was added,
and if what the scope stands for is still there.  That is so because a function can be defined by
the main program only, and the table of functions does not change while one of them runs.
-/
import BareBones.Proofs.Outside

namespace BareBones

variable {σ : Type}

/-- The program that runs in the scope: the main one, or the body of the function of that name. -/
def Scope.program? (main : Program) (functions : NameMap (Function Program)) :
    Scope → Option Program
  | .main => some main
  | .function name _ => (functions.get? name).map Function.body

/-- The error ends a run, its scope is no deeper than calls may go, and the program that runs in
the scope has the statement that the error names.  That its cause is not another located error is
in the type of causes. -/
structure StatementError.Located (main : Program) (functions : NameMap (Function Program))
    (limit : Nat) (e : StatementError) : Prop where
  fatal : e.error.isRecoverable = false
  depth_le : e.scope.depth ≤ limit
  depth_eq_zero_iff : e.scope.depth = 0 ↔ e.scope = .main
  statement : ∃ p s, e.scope.program? main functions = some p ∧ p.get? e.address = some s ∧
    s.text = e.text ∧ s.line = e.line

/-- If the failure was handed up by a body, then with an error that has its place. -/
def Failure.Located (main : Program) (functions : NameMap (Function Program)) (limit : Nat) :
    Failure → Prop
  | .raised _ => True
  | .nested e => e.Located main functions limit

/-- If it fails, then by such an error. -/
def Outcome.FailsBy {ε α : Type} (P : ε → Prop) : Outcome ε α → Prop
  | .failed e => P e
  | _ => True

variable {main : Program} {limit : Nat}

/-! ### Contexts -/

namespace Context

/-- The program runs in the scope of the context, where functions are kept under their names. -/
structure Homed (main : Program) (limit : Nat) (c : Context Program) (p : Program) : Prop where
  named : ∀ name f, c.functions.get? name = some f → f.name = name
  depth_le : c.scope.depth ≤ limit
  depth_eq_zero_iff : c.scope.depth = 0 ↔ c.scope = .main
  program : c.scope.program? main c.functions = some p

variable {h : Host σ} {run : BodyRunner σ Program} {c c' : Context Program} {p : Program}
  {w w' : World σ}

theorem homed_main (env : Environment) (main : Program) (limit : Nat) :
    Homed main limit { env := env } main := by
  refine ⟨?_, Nat.zero_le limit, by simp [Scope.depth], rfl⟩
  intro name f hf
  cases hf

/-- An error that a statement of the program raises gets its place. -/
theorem Homed.locate (hc : c.Homed main limit p) {a : Nat} {s : Statement} {e : RuntimeError}
    (hs : p.get? a = some s) (he : e.isRecoverable = false) :
    (c.locate a s e).Located main c.functions limit :=
  ⟨he, hc.depth_le, hc.depth_eq_zero_iff, p, s, hc.program, hs, rfl, rfl⟩

/-- What ends the run at a statement of the program has its place, if what was handed up has. -/
theorem Homed.settle (hc : c.Homed main limit p) {a : Nat} {s : Statement}
    {r : Outcome Failure Bool} {e : StatementError} (hs : p.get? a = some s)
    (hr : r.FailsBy (Failure.Located main c.functions limit))
    (hx : c.settle h a s r w = (.failed e, w')) : e.Located main c.functions limit := by
  rcases r with ok | ⟨e' | e'⟩ | _
  · cases hx
  · simp only [Context.settle] at hx
    split at hx
    · cases hx
    · next hrec =>
      cases hx
      exact hc.locate hs (eq_false_of_ne_true hrec)
  · cases hx
    exact hr
  · cases hx

/-- A function is called in a scope that knows its body. -/
theorem Homed.forCall (hc : c.Homed main limit p) {name : String} {f : Function Program}
    (hf : c.functions.get? name = some f) (hdepth : c.scope.depth < limit) (env : Environment) :
    (c.forCall f env).Homed main limit f.body := by
  refine ⟨hc.named, hdepth, by simp [Context.forCall, Scope.depth], ?_⟩
  simp only [Context.forCall, Scope.program?, hc.named name f hf, hf, Option.map_some]

/-- Bodies of functions fail by errors that have their place. -/
def BodyLocates (main : Program) (limit : Nat) (run : BodyRunner σ Program) : Prop :=
  ∀ ⦃b : Program⦄ ⦃c c' : Context Program⦄ ⦃w w' : World σ⦄ ⦃r : Outcome StatementError Bool⦄,
    c.Homed main limit b → c.scope ≠ .main → run b c w = (r, c', w') →
    r.FailsBy (StatementError.Located main c.functions limit)

theorem call_located (hrun : BodyLocates main h.settings.maxCallDepth run)
    (hc : c.Homed main h.settings.maxCallDepth p) {name : String} {args : List String}
    {r : Outcome Failure Machine.CallResult} (hx : c.call h run name args w = (r, w')) :
    r.FailsBy (Failure.Located main c.functions h.settings.maxCallDepth) := by
  unfold call at hx
  split at hx
  · cases hx
    trivial
  · next f hf =>
    split at hx
    · cases hx
      trivial
    · split at hx
      · cases hx
        trivial
      · next hdepth =>
        split at hx
        · cases hx
          trivial
        · next env _ =>
          have hcallee := hc.forCall hf (by omega) env
          split at hx
          · cases hx
            trivial
          · next hbody =>
            cases hx
            exact hrun hcallee (by simp [Context.forCall]) hbody
          · cases hx
            trivial

theorem resolve_located (hrun : BodyLocates main h.settings.maxCallDepth run)
    (hc : c.Homed main h.settings.maxCallDepth p) {tokens : List String}
    {r : Outcome Failure (Value × Bool)} (hx : c.resolve h run tokens w = (r, w')) :
    r.FailsBy (Failure.Located main c.functions h.settings.maxCallDepth) := by
  unfold resolve at hx
  split at hx
  · cases hx
    trivial
  · split at hx
    · split at hx <;> cases hx <;> trivial
    · split at hx
      · split at hx
        · cases hx
          trivial
        · cases hx
          trivial
        · next hcall =>
          cases hx
          exact call_located hrun hc hcall
        · cases hx
          trivial
      · split at hx <;> cases hx <;> trivial

/-- What a statement leaves of its context: the functions and the scope, and no error without its
place but one of its own. -/
structure Leaves (main : Program) (limit : Nat) (c c' : Context Program)
    (r : Outcome Failure Bool) : Prop where
  functions : c'.functions = c.functions
  scope : c'.scope = c.scope
  failure : r.FailsBy (Failure.Located main c.functions limit)

variable {r : Outcome Failure Bool} {args : List String}

theorem withEnv_leaves {change : Except RuntimeError Unit × Environment}
    (hx : c.withEnv w change = (r, c', w')) : c.Leaves main limit c' r := by
  unfold withEnv at hx
  split at hx <;> cases hx <;> exact ⟨rfl, rfl, trivial⟩

theorem print_leaves (hx : c.print h args w = (r, c', w')) : c.Leaves main limit c' r := by
  unfold print at hx
  split at hx <;> cases hx <;> exact ⟨rfl, rfl, trivial⟩

theorem set_leaves (hrun : BodyLocates main h.settings.maxCallDepth run)
    (hc : c.Homed main h.settings.maxCallDepth p) (hx : c.set h run args w = (r, c', w')) :
    c.Leaves main h.settings.maxCallDepth c' r := by
  unfold set at hx
  split at hx
  · cases hx
    exact ⟨rfl, rfl, trivial⟩
  · split at hx
    · split at hx
      · split at hx <;> cases hx <;> exact ⟨rfl, rfl, trivial⟩
      · next hres =>
        cases hx
        exact ⟨rfl, rfl, resolve_located hrun hc hres⟩
      · cases hx
        exact ⟨rfl, rfl, trivial⟩
    · cases hx
      exact ⟨rfl, rfl, trivial⟩

theorem returnValue_leaves (hrun : BodyLocates main h.settings.maxCallDepth run)
    (hc : c.Homed main h.settings.maxCallDepth p)
    (hx : c.returnValue h run args w = (r, c', w')) :
    c.Leaves main h.settings.maxCallDepth c' r := by
  unfold returnValue at hx
  split at hx
  · cases hx
    exact ⟨rfl, rfl, trivial⟩
  · split at hx
    · cases hx
      exact ⟨rfl, rfl, trivial⟩
    · split at hx
      · cases hx
        exact ⟨rfl, rfl, trivial⟩
      · next hres =>
        cases hx
        exact ⟨rfl, rfl, resolve_located hrun hc hres⟩
      · cases hx
        exact ⟨rfl, rfl, trivial⟩

theorem callStatement_leaves (hrun : BodyLocates main h.settings.maxCallDepth run)
    (hc : c.Homed main h.settings.maxCallDepth p) {s : Statement}
    (hx : c.callStatement h run s w = (r, c', w')) :
    c.Leaves main h.settings.maxCallDepth c' r := by
  unfold callStatement at hx
  split at hx
  · cases hx
    exact ⟨rfl, rfl, trivial⟩
  · next hcall =>
    cases hx
    exact ⟨rfl, rfl, call_located hrun hc hcall⟩
  · cases hx
    exact ⟨rfl, rfl, trivial⟩

/-- A statement that belongs to no block defines no function, and hands up only errors that have
their place. -/
theorem execute_leaves (hrun : BodyLocates main h.settings.maxCallDepth run)
    (hc : c.Homed main h.settings.maxCallDepth p) {s : Statement}
    (hx : c.execute h run s w = (r, c', w')) : c.Leaves main h.settings.maxCallDepth c' r := by
  simp only [execute] at hx
  split at hx
  · exact print_leaves hx
  · exact withEnv_leaves hx
  · exact withEnv_leaves hx
  · exact withEnv_leaves hx
  · exact withEnv_leaves hx
  · exact withEnv_leaves hx
  · exact set_leaves hrun hc hx
  · exact returnValue_leaves hrun hc hx
  · exact callStatement_leaves hrun hc hx

end Context

/-! ### Machines -/

namespace Machine

/-- The second machine is one that the first came to: it runs the same program in the same scope.
If that is a function, then no function was defined. -/
structure Stays (main : Program) (limit : Nat) (m m' : Machine) : Prop where
  program : m'.program = m.program
  scope : m'.scope = m.scope
  homed : m'.Homed main limit m'.program
  functions : m.scope ≠ .main → m'.functions = m.functions

variable {h : Host σ} {run : Runner σ} {m m' m'' : Machine} {s : Statement} {w w' : World σ}

theorem Stays.of_eq (hm : m.Homed main limit m.program) (hprogram : m'.program = m.program)
    (hscope : m'.scope = m.scope) (hfunctions : m'.functions = m.functions) :
    Stays main limit m m' := by
  refine ⟨hprogram, hscope, ?_, fun _ => hfunctions⟩
  obtain ⟨hnamed, hdepth, hzero, hhome⟩ := hm
  rw [← hfunctions] at hnamed hhome
  rw [← hscope] at hdepth hzero hhome
  rw [← hprogram] at hhome
  exact ⟨hnamed, hdepth, hzero, hhome⟩

theorem Stays.refl (hm : m.Homed main limit m.program) : Stays main limit m m :=
  .of_eq hm rfl rfl rfl

theorem Stays.trans (h₁ : Stays main limit m m') (h₂ : Stays main limit m' m'') :
    Stays main limit m m'' := by
  refine ⟨h₂.program.trans h₁.program, h₂.scope.trans h₁.scope, h₂.homed, ?_⟩
  intro hscope
  rw [h₂.functions (by rw [h₁.scope]; exact hscope), h₁.functions hscope]

/-- It does not matter at which address the first machine stands. -/
theorem Stays.of_goto {a : Nat} (hx : Stays main limit (m.goto a) m') : Stays main limit m m' :=
  ⟨hx.program, hx.scope, hx.homed, hx.functions⟩

theorem Stays.of_moves (hm : m.Homed main limit m.program) (hmoves : Moves m m') :
    Stays main limit m m' := by
  have hcontext := hmoves.context
  exact .of_eq hm hmoves.program (by rw [hcontext]) (by rw [hcontext])

/-- Running a part of a program stays with the program, and fails by errors that have their
place. -/
def RunnerLocates (main : Program) (limit : Nat) (run : Runner σ) : Prop :=
  ∀ ⦃stop : Nat⦄ ⦃m m' : Machine⦄ ⦃w w' : World σ⦄ ⦃r : Outcome StatementError Bool⦄,
    m.Homed main limit m.program → run stop m w = (r, m', w') →
    Stays main limit m m' ∧ r.FailsBy (StatementError.Located main m'.functions limit)

theorem RunnerLocates.body (hrun : RunnerLocates main limit run) :
    Context.BodyLocates main limit run.body := by
  intro b c c' w w' r hc hscope hx
  rcases hbody : run b.size { toContext := c, program := b } w with ⟨rb, mb, wb⟩
  obtain ⟨hstays, hfailure⟩ := hrun (m := { toContext := c, program := b }) hc hbody
  simp only [Runner.body, hbody] at hx
  cases hx
  rw [hstays.functions hscope] at hfailure
  exact hfailure

theorem runChain_stays (hrun : RunnerLocates main limit run) : ∀ {ls : List Link} {m : Machine}
    {w : World σ} {r : Outcome Failure Bool}, m.Homed main limit m.program →
    runChain run ls m w = (r, m', w') →
    Stays main limit m m' ∧ r.FailsBy (Failure.Located main m'.functions limit) := by
  intro ls
  induction ls with
  | nil =>
      intro m w r hm hx
      cases hx
      exact ⟨.refl hm, trivial⟩
  | cons l ls ih =>
      intro m w r hm hx
      simp only [runChain] at hx
      split at hx
      · cases hx
        exact ⟨.refl hm, trivial⟩
      · next stop _ =>
        split at hx
        · cases hx
          exact ⟨.refl hm, trivial⟩
        · obtain ⟨hstays, hfailure⟩ := ih (m := m.leave stop ls) hm hx
          exact ⟨hstays.of_goto, hfailure⟩
        · split at hx
          · next hbody =>
            cases hx
            obtain ⟨hstays, hfailure⟩ := hrun (m := m.goto (l.opener + 1)) hm hbody
            exact ⟨hstays.of_goto, hfailure⟩
          · next hbody =>
            cases hx
            exact ⟨(hrun (m := m.goto (l.opener + 1)) hm hbody).1.of_goto, trivial⟩
          · next m₂ w₂ hbody =>
            obtain ⟨hstays, -⟩ := hrun (m := m.goto (l.opener + 1)) hm hbody
            have hbehind : Stays main limit (m₂.leave stop ls) (passOver ls (m₂.leave stop ls)).2 :=
              .of_moves hstays.homed (passOver_moves ls _)
            have hpassed := hstays.of_goto.trans hbehind.of_goto
            split at hx
            · next hpass =>
              cases hx
              rw [hpass] at hpassed
              exact ⟨hpassed, trivial⟩
            · next hpass =>
              cases hx
              rw [hpass] at hpassed
              exact ⟨hpassed, trivial⟩

/-- A function is kept under the name that it is defined with. -/
theorem defineFunction_stays {a : Nat} (hm : m.Homed main limit m.program)
    (hx : DefinesFunction m a s m') : Stays main limit m m' := by
  obtain @⟨stop, f, hmain, -, -⟩ := hx
  have hscope : m.scope = .main := by
    cases hs : m.scope with
    | main => rfl
    | function name depth =>
        rw [hs] at hmain
        cases hmain
  refine ⟨rfl, rfl, ⟨?_, hm.depth_le, hm.depth_eq_zero_iff, ?_⟩, fun hne => absurd hscope hne⟩
  · intro name g hg
    simp only [NameMap.get?_insert] at hg
    split at hg
    · next hname =>
      cases hg
      exact hname.symm
    · exact hm.named name g hg
  · have hprogram := hm.program
    rw [hscope] at hprogram
    change m.scope.program? main (m.functions.insert f.name f) = some m.program
    rw [hscope]
    exact hprogram

theorem moved_stays {r : Outcome Failure Bool} {x : Except RuntimeError Unit × Machine}
    {Change : Machine → Prop} (hm : m.Homed main limit m.program)
    (hspec : AllOrNothing m Change x) (hdone : ∀ m', Change m' → Stays main limit m m')
    (hx : moved w x = (r, m', w')) :
    Stays main limit m m' ∧ r.FailsBy (Failure.Located main m'.functions limit) := by
  cases hspec with
  | done hchange =>
      cases hx
      exact ⟨hdone m' hchange, trivial⟩
  | failed e =>
      cases hx
      exact ⟨.refl hm, trivial⟩

/-- A statement stays with its program, and hands up only errors that have their place. -/
theorem execute_stays {a : Nat} {r : Outcome Failure Bool}
    (hrun : RunnerLocates main h.settings.maxCallDepth run)
    (hm : m.Homed main h.settings.maxCallDepth m.program)
    (hx : execute h run m a s w = (r, m', w')) :
    Stays main h.settings.maxCallDepth m m' ∧
      r.FailsBy (Failure.Located main m'.functions h.settings.maxCallDepth) := by
  unfold execute at hx
  split at hx
  · exact moved_stays hm (enterLoop_spec ..) (fun _ hc => .of_moves hm hc.moves) hx
  · cases hx
    exact ⟨.of_moves hm (closeBlock_moves m a), trivial⟩
  · unfold branch at hx
    split at hx
    · exact runChain_stays hrun hm hx
    · cases hx
      exact ⟨.refl hm, trivial⟩
  · cases hx
    exact ⟨.refl hm, trivial⟩
  · cases hx
    exact ⟨.refl hm, trivial⟩
  · exact moved_stays hm (defineFunction_spec ..) (fun _ => defineFunction_stays hm) hx
  · rcases hexec : m.toContext.execute h run.body s w with ⟨r₁, c', w₁⟩
    rw [hexec] at hx
    cases hx
    obtain ⟨hfunctions, hscope, hfailure⟩ := Context.execute_leaves hrun.body hm hexec
    refine ⟨.of_eq hm rfl hscope hfunctions, ?_⟩
    change r.FailsBy (Failure.Located main c'.functions _)
    rw [hfunctions]
    exact hfailure

/-- A step fails by an error that has its place: one that was handed up, or one that its statement
raised. -/
theorem step_located {r : Outcome StatementError Step}
    (hrun : RunnerLocates main h.settings.maxCallDepth run)
    (hm : m.Homed main h.settings.maxCallDepth m.program) (hx : step h run m w = (r, m', w')) :
    Stays main h.settings.maxCallDepth m m' ∧
      r.FailsBy (StatementError.Located main m'.functions h.settings.maxCallDepth) := by
  cases hs : m.next? with
  | none =>
      simp only [step, hs] at hx
      cases hx
      exact ⟨.refl hm, trivial⟩
  | some s =>
      rcases hexec : execute h run (m.goto (m.pc + 1)) m.pc s w with ⟨r₁, m₁, w₁⟩
      obtain ⟨hstays, hfailure⟩ := execute_stays (m := m.goto (m.pc + 1)) hrun hm hexec
      have hstays : Stays main h.settings.maxCallDepth m m₁ := hstays.of_goto
      have hget : m₁.program.get? m.pc = some s := by
        rw [hstays.program]
        exact hs
      simp only [step, hs, hexec] at hx
      split at hx
      · cases hx
        exact ⟨hstays, trivial⟩
      · next e w₂ hsettle =>
        cases hx
        refine ⟨hstays, ?_⟩
        exact hstays.homed.settle hget hfailure hsettle
      · cases hx
        exact ⟨hstays, trivial⟩

/-- A run fails by an error that has its place. -/
theorem runFrom_located : ∀ (n : Nat) {stop : Nat} {ok : Bool} {m m' : Machine} {w w' : World σ}
    {r : Outcome StatementError Bool}, m.Homed main h.settings.maxCallDepth m.program →
    runFrom h n ok stop m w = (r, m', w') →
    Stays main h.settings.maxCallDepth m m' ∧
      r.FailsBy (StatementError.Located main m'.functions h.settings.maxCallDepth) := by
  intro n
  induction n with
  | zero =>
      intro stop ok m m' w w' r hm hx
      cases hx
      exact ⟨.refl hm, trivial⟩
  | succ n ih =>
      intro stop ok m m' w w' r hm hx
      have hrun : RunnerLocates main h.settings.maxCallDepth (Machine.run h n) := by
        intro stop m m' w w' r hm hx
        exact ih hm hx
      rw [runFrom_succ] at hx
      split at hx
      · rcases hstep : step h (Machine.run h n) m w with ⟨rs, m₁, w₁⟩
        obtain ⟨hstays, hfailure⟩ := step_located hrun hm hstep
        rw [hstep] at hx
        rcases rs with (ok' | _) | e | _
        · obtain ⟨hstays', hfailure'⟩ := ih hstays.homed hx
          exact ⟨hstays.trans hstays', hfailure'⟩
        · cases hx
          exact ⟨hstays, trivial⟩
        · cases hx
          exact ⟨hstays, hfailure⟩
        · cases hx
          exact ⟨hstays, trivial⟩
      · cases hx
        exact ⟨.refl hm, trivial⟩

theorem run_locates (h : Host σ) (main : Program) (n : Nat) :
    RunnerLocates main h.settings.maxCallDepth (Machine.run h n) := by
  intro stop m m' w w' r hm hx
  exact runFrom_located n hm hx

/-! ### All states of a machine -/

theorem homed_visits {m₀ : Machine} (hm₀ : m₀.Homed main h.settings.maxCallDepth m₀.program)
    (hm : Visits h m₀ m) : m.Homed main h.settings.maxCallDepth m.program := by
  induction hm with
  | start => exact hm₀
  | @step m _ fuel w ih =>
      rcases hstep : Machine.step h (Machine.run h fuel) m w with ⟨r, m', w'⟩
      exact (step_located (run_locates h main fuel) ih hstep).1.homed
  | enter _ _ _ _ ih => exact ih

/-- Whenever a step of the main program or a run to its end fails, in whatever state, the error
names the statement that raised it, and no run goes on after it.  The scope of the error is the main
program, or a function that is in the table at that moment, no deeper than calls may go. -/
theorem failed_at_its_statement (h : Host σ) (p : Program) (env : Environment) (m : Machine)
    (hm : Visits h { env := env, program := p } m) :
    (∀ n w e m' w', step h (Machine.run h n) m w = (.failed e, m', w') →
        e.Located p m'.functions h.settings.maxCallDepth) ∧
      ∀ n w e m' w', runUntilDone h n m w = (.failed e, m', w') →
        e.Located p m'.functions h.settings.maxCallDepth := by
  have hhome : m.Homed p h.settings.maxCallDepth m.program :=
    homed_visits (Context.homed_main env p _) hm
  refine ⟨?_, ?_⟩
  · intro n w e m' w' hx
    exact (step_located (run_locates h p n) hhome hx).2
  · intro n w e m' w' hx
    simp only [runUntilDone] at hx
    split at hx
    · cases hx
    · next hrun =>
      cases hx
      exact (runFrom_located n hhome hrun).2
    · cases hx

/-- The function is defined anew in a conditional and called there, and fails in a conditional of
its own. -/
theorem failed_at_its_statement_in_call :
    let p := Program.ofStatements [⟨"func", ["F"], "func F", 1⟩, ⟨"end", [], "end", 2⟩,
      ⟨"if", ["x", "is", "5"], "if x is 5", 3⟩, ⟨"func", ["F"], "func F", 4⟩,
      ⟨"if", ["x", "is", "5"], "if x is 5", 5⟩, ⟨"incr", ["y"], "incr y", 6⟩,
      ⟨"end", [], "end", 7⟩, ⟨"end", [], "end", 8⟩, ⟨"F", [], "F", 9⟩, ⟨"end", [], "end", 10⟩]
    let m : Machine := { env := (∅ : Environment).insert "x" (.int 5), program := p }
    let h : Host Unit := ⟨{ maxCallDepth := 1 }, fun _ u => (.error (.unknownFunction ""), u)⟩
    let result := runUntilDone h 9 m { state := () }
    let e : StatementError := ⟨1, 6, .function "F" 1, "incr y", .undeclared "y"⟩
    result.1 = .failed e ∧ e.Located p result.2.1.functions 1 := by
  intro p m h result e
  have hfailed : result.1 = .failed e := by decide
  refine ⟨hfailed, ?_⟩
  have hlocated := (failed_at_its_statement h p m.env m .start).2 9 { state := () } e
  exact hlocated result.2.1 result.2.2 (Prod.ext hfailed rfl)

end Machine

end BareBones
