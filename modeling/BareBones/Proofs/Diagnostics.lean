/-
The flag of a run and its diagnostics say the same.

A run reports an error in two cases only.  A variable that is missing is reported by the statement
that needs it, and the run goes on with a flag that is false.  Any other error ends the run and is
reported once, by the session.  So the flag is true exactly if nothing was reported, no matter how
deep in loops, chains and calls the statement lies that failed.

The lemmas follow the functions of the machine from the inside out.  Each says of one function that
what it hands back accounts for what it reported: a flag that is true for nothing, a flag that is
false for at least one error, and nothing but missing variables before an error that ends the run.
-/
import BareBones.Proofs.Fuel
import BareBones.Session

namespace BareBones

variable {σ β : Type}

/-- The diagnostics so far, the oldest first. -/
def World.diagnostics (w : World σ) : List StatementError :=
  w.journal.toList.filterMap Event.diagnostic?

/-- The error is about a variable that is missing. -/
def StatementError.IsMissing (e : StatementError) : Prop :=
  ∃ name, e.error = .missing name

theorem StatementError.isMissing_iff {e : StatementError} :
    e.IsMissing ↔ e.error.isRecoverable = true := by
  unfold IsMissing
  cases he : e.error <;> simp [RuntimeError.isRecoverable]

namespace World

variable {w w' w'' : World σ} {ds ds' : List StatementError}

@[simp]
theorem diagnostics_record_line (w : World σ) (text : String) :
    (w.record (.line text)).diagnostics = w.diagnostics := by
  simp [diagnostics, record, Event.diagnostic?]

@[simp]
theorem diagnostics_record_snapshot (w : World σ) (moment : Moment) (env : Environment) :
    (w.record (.snapshot moment env)).diagnostics = w.diagnostics := by
  simp [diagnostics, record, Event.diagnostic?]

@[simp]
theorem diagnostics_record_diagnostic (w : World σ) (e : StatementError) :
    (w.record (.diagnostic e)).diagnostics = w.diagnostics ++ [e] := by
  simp [diagnostics, record, Event.diagnostic?]

/-- From the first world to the second the errors were reported, all about missing variables. -/
def Adds (w w' : World σ) (ds : List StatementError) : Prop :=
  w'.diagnostics = w.diagnostics ++ ds ∧ ∀ d ∈ ds, d.IsMissing

theorem Adds.nothing (h : w'.diagnostics = w.diagnostics) : w.Adds w' [] := by
  refine ⟨by rw [h, List.append_nil], ?_⟩
  intro d hd
  exact absurd hd List.not_mem_nil

theorem Adds.trans (h : w.Adds w' ds) (h' : w'.Adds w'' ds') : w.Adds w'' (ds ++ ds') := by
  refine ⟨by rw [h'.1, h.1, List.append_assoc], ?_⟩
  intro d hd
  rcases List.mem_append.1 hd with hd | hd
  · exact h.2 d hd
  · exact h'.2 d hd

end World

namespace Context

theorem publish_diagnostics (c : Context β) (h : Host σ) (moment : Moment) (w : World σ) :
    (c.publish h moment w).diagnostics = w.diagnostics := by
  unfold publish
  split
  · simp
  · rfl

theorem publishAfter_diagnostics (c : Context β) (h : Host σ) (a : Nat) (s : Statement)
    (w : World σ) : (c.publishAfter h a s w).diagnostics = w.diagnostics := by
  unfold publishAfter
  split
  · rfl
  · exact publish_diagnostics c h _ w

end Context

/-! ### Outcomes that account for what was reported -/

/-- The outcome accounts for the errors reported from the first world to the second. -/
def Accounts {ε α : Type} (ends : ε → Prop) (flag : α → Bool) (w w' : World σ) :
    Outcome ε α → Prop
  | .ok a => ∃ ds, w.Adds w' ds ∧ flag a = ds.isEmpty
  | .failed e => ends e ∧ ∃ ds, w.Adds w' ds
  | .outOfFuel => True

/-- The error ends a run. -/
def StatementError.Ends (e : StatementError) : Prop :=
  e.error.isRecoverable = false

/-- If the failure was handed up by a body, then because it ended the run of the body. -/
def Failure.Ends : Failure → Prop
  | .raised _ => True
  | .nested e => e.Ends

variable {ε α : Type} {ends : ε → Prop} {flag : α → Bool} {w w' w'' : World σ}

theorem Accounts.quiet {a : α} (hflag : flag a = true) (hw : w'.diagnostics = w.diagnostics) :
    Accounts ends flag w w' (.ok a) :=
  ⟨[], .nothing hw, hflag⟩

theorem Accounts.raise (e : RuntimeError) (hw : w'.diagnostics = w.diagnostics) :
    Accounts Failure.Ends flag w w' (.raise e) :=
  ⟨trivial, [], .nothing hw⟩

/-- Running the bodies of functions accounts for what they report. -/
def BodyAccounts (run : BodyRunner σ β) : Prop :=
  ∀ ⦃b : β⦄ ⦃c c' : Context β⦄ ⦃w w' : World σ⦄ ⦃r : Outcome StatementError Bool⦄,
    run b c w = (r, c', w') → Accounts StatementError.Ends id w w' r

/-- Running a part of a program accounts for what it reports. -/
def RunnerAccounts (run : Runner σ) : Prop :=
  ∀ ⦃stop : Nat⦄ ⦃m m' : Machine⦄ ⦃w w' : World σ⦄ ⦃r : Outcome StatementError Bool⦄,
    run stop m w = (r, m', w') → Accounts StatementError.Ends id w w' r

/-! ### Values -/

namespace Machine

/-- Arithmetic reports nothing. -/
theorem evaluate_diagnostics {h : Host σ} {env : Environment} {tokens : List String}
    {r : Except RuntimeError Value} (hx : evaluate h env tokens w = (r, w')) :
    w'.diagnostics = w.diagnostics := by
  unfold evaluate at hx
  split at hx
  · cases hx
    rfl
  · dsimp only at hx
    split at hx <;> cases hx <;> rfl

theorem printParts_diagnostics {h : Host σ} {env : Environment} : ∀ {args : List String}
    {w w' : World σ} {r : Except RuntimeError (List String)},
    printParts h env args w = (r, w') → w'.diagnostics = w.diagnostics := by
  intro args
  induction args with
  | nil =>
      intro w w' r hx
      cases hx
      rfl
  | cons arg args ih =>
      intro w w' r hx
      simp only [printParts] at hx
      split at hx
      · split at hx
        · next heval =>
          cases hx
          exact evaluate_diagnostics heval
        · next heval =>
          cases hx
          exact evaluate_diagnostics heval
      · split at hx
        · cases hx
          rfl
        · split at hx
          · next hparts =>
            cases hx
            exact ih hparts
          · next hparts =>
            cases hx
            exact ih hparts

end Machine

namespace Context

variable {h : Host σ} {run : BodyRunner σ β} {c c' : Context β}

/-- A call accounts for what its body reports. -/
theorem call_accounts (hrun : BodyAccounts run) {name : String} {args : List String}
    {r : Outcome Failure Machine.CallResult} (hx : c.call h run name args w = (r, w')) :
    Accounts Failure.Ends Machine.CallResult.ok w w' r := by
  unfold call at hx
  split at hx
  · cases hx
    exact .raise _ rfl
  · split at hx
    · cases hx
      exact .raise _ rfl
    · split at hx
      · cases hx
        exact .raise _ rfl
      · split at hx
        · cases hx
          exact .raise _ rfl
        · split at hx
          · next hbody =>
            cases hx
            exact hrun hbody
          · next hbody =>
            cases hx
            exact hrun hbody
          · cases hx
            trivial

theorem resolve_accounts (hrun : BodyAccounts run) {tokens : List String}
    {r : Outcome Failure (Value × Bool)} (hx : c.resolve h run tokens w = (r, w')) :
    Accounts Failure.Ends Prod.snd w w' r := by
  unfold resolve at hx
  split at hx
  · cases hx
    exact .raise _ rfl
  · split at hx
    · split at hx
      · next heval =>
        cases hx
        exact .quiet rfl (Machine.evaluate_diagnostics heval)
      · next heval =>
        cases hx
        exact .raise _ (Machine.evaluate_diagnostics heval)
    · split at hx
      · split at hx
        · next hcall =>
          cases hx
          exact call_accounts hrun hcall
        · next hcall =>
          cases hx
          obtain ⟨ds, hds, -⟩ := call_accounts hrun hcall
          exact ⟨trivial, ds, hds⟩
        · next hcall =>
          cases hx
          exact call_accounts hrun hcall
        · cases hx
          trivial
      · split at hx
        · cases hx
          exact .quiet rfl rfl
        · cases hx
          exact .raise _ rfl

/-! ### Statements -/

variable {r : Outcome Failure Bool} {args : List String}

theorem withEnv_accounts {change : Except RuntimeError Unit × Environment}
    (hx : c.withEnv w change = (r, c', w')) : Accounts Failure.Ends id w w' r := by
  unfold withEnv at hx
  split at hx
  · cases hx
    exact .quiet rfl rfl
  · next e _ =>
    cases hx
    exact .raise e rfl

theorem print_accounts (hx : c.print h args w = (r, c', w')) :
    Accounts Failure.Ends id w w' r := by
  unfold print at hx
  split at hx
  · next hparts =>
    cases hx
    refine .quiet rfl ?_
    rw [World.diagnostics_record_line]
    exact Machine.printParts_diagnostics hparts
  · next hparts =>
    cases hx
    exact .raise _ (Machine.printParts_diagnostics hparts)

theorem set_accounts (hrun : BodyAccounts run) (hx : c.set h run args w = (r, c', w')) :
    Accounts Failure.Ends id w w' r := by
  unfold set at hx
  split at hx
  · cases hx
    exact .raise _ rfl
  · split at hx
    · split at hx
      · next hres =>
        split at hx
        · cases hx
          exact resolve_accounts hrun hres
        · cases hx
          obtain ⟨ds, hds, -⟩ := resolve_accounts hrun hres
          exact ⟨trivial, ds, hds⟩
      · next hres =>
        cases hx
        exact resolve_accounts hrun hres
      · cases hx
        trivial
    · cases hx
      exact .raise _ rfl

theorem returnValue_accounts (hrun : BodyAccounts run)
    (hx : c.returnValue h run args w = (r, c', w')) : Accounts Failure.Ends id w w' r := by
  unfold returnValue at hx
  split at hx
  · cases hx
    exact .raise _ rfl
  · split at hx
    · cases hx
      exact .raise _ rfl
    · split at hx
      · next hres =>
        cases hx
        exact resolve_accounts hrun hres
      · next hres =>
        cases hx
        exact resolve_accounts hrun hres
      · cases hx
        trivial

theorem callStatement_accounts (hrun : BodyAccounts run) {s : Statement}
    (hx : c.callStatement h run s w = (r, c', w')) : Accounts Failure.Ends id w w' r := by
  unfold callStatement at hx
  split at hx
  · next hcall =>
    cases hx
    exact call_accounts hrun hcall
  · next hcall =>
    cases hx
    exact call_accounts hrun hcall
  · cases hx
    trivial

/-- A statement that belongs to no block accounts for what it reports. -/
theorem execute_accounts (hrun : BodyAccounts run) {s : Statement}
    (hx : c.execute h run s w = (r, c', w')) : Accounts Failure.Ends id w w' r := by
  simp only [execute] at hx
  split at hx
  · exact print_accounts hx
  · exact withEnv_accounts hx
  · exact withEnv_accounts hx
  · exact withEnv_accounts hx
  · exact withEnv_accounts hx
  · exact withEnv_accounts hx
  · exact set_accounts hrun hx
  · exact returnValue_accounts hrun hx
  · exact callStatement_accounts hrun hx

/-- What the outcome of a statement means for the run accounts for what was reported, with the
error that the statement itself raised. -/
theorem settle_accounts {a : Nat} {s : Statement} {r' : Outcome StatementError Bool}
    (hr : Accounts Failure.Ends id w w' r) (hx : c.settle h a s r w' = (r', w'')) :
    Accounts StatementError.Ends id w w'' r' := by
  rcases r with ok | ⟨e | e⟩ | _
  · cases hx
    obtain ⟨ds, hds, hok⟩ := hr
    exact ⟨ds, ⟨by rw [publishAfter_diagnostics, hds.1], hds.2⟩, hok⟩
  · obtain ⟨-, ds, hds⟩ := hr
    simp only [settle] at hx
    split at hx
    · next hrec =>
      cases hx
      have hmissing : (c.locate a s e).IsMissing := StatementError.isMissing_iff.2 hrec
      refine ⟨ds ++ [c.locate a s e], ⟨?_, ?_⟩, by simp⟩
      · rw [publishAfter_diagnostics, World.diagnostics_record_diagnostic, hds.1,
          List.append_assoc]
      · intro d hd
        rcases List.mem_append.1 hd with hd | hd
        · exact hds.2 d hd
        · cases List.mem_singleton.1 hd
          exact hmissing
    · next hrec =>
      cases hx
      have hends : (c.locate a s e).Ends := eq_false_of_ne_true hrec
      exact ⟨hends, ds, hds⟩
  · cases hx
    exact hr
  · cases hx
    trivial

end Context

/-! ### Machines -/

namespace Machine

variable {h : Host σ} {run : Runner σ} {m m' : Machine} {s : Statement}

theorem body_accounts (hrun : RunnerAccounts run) : BodyAccounts run.body := by
  intro b c c' w w' r hx
  simp only [Runner.body] at hx
  rcases hbody : run b.size { toContext := c, program := b } w with ⟨rb, mb, wb⟩
  rw [hbody] at hx
  cases hx
  exact hrun hbody

theorem runChain_accounts (hrun : RunnerAccounts run) : ∀ {ls : List Link} {m : Machine}
    {w : World σ} {r : Outcome Failure Bool}, runChain run ls m w = (r, m', w') →
    Accounts Failure.Ends id w w' r := by
  intro ls
  induction ls with
  | nil =>
      intro m w r hx
      cases hx
      exact .quiet rfl rfl
  | cons l ls ih =>
      intro m w r hx
      simp only [runChain] at hx
      split at hx
      · cases hx
        exact .raise _ rfl
      · split at hx
        · cases hx
          exact .raise _ rfl
        · exact ih hx
        · split at hx
          · next hbody =>
            cases hx
            exact hrun hbody
          · cases hx
            trivial
          · next hbody =>
            split at hx
            · cases hx
              exact hrun hbody
            · cases hx
              obtain ⟨ds, hds, -⟩ := hrun hbody
              exact ⟨trivial, ds, hds⟩

theorem moved_accounts {x : Except RuntimeError Unit × Machine} {r : Outcome Failure Bool}
    (hx : moved w x = (r, m', w')) : Accounts Failure.Ends id w w' r := by
  unfold moved at hx
  split at hx
  · cases hx
    exact .quiet rfl rfl
  · next e _ =>
    cases hx
    exact .raise e rfl

/-- A statement accounts for what it reports. -/
theorem execute_accounts (hrun : RunnerAccounts run) {a : Nat} {r : Outcome Failure Bool}
    (hx : execute h run m a s w = (r, m', w')) : Accounts Failure.Ends id w w' r := by
  unfold execute at hx
  split at hx
  · exact moved_accounts hx
  · cases hx
    exact .quiet rfl rfl
  · unfold branch at hx
    split at hx
    · exact runChain_accounts hrun hx
    · cases hx
      exact .raise _ rfl
  · cases hx
    exact .raise _ rfl
  · cases hx
    exact .raise _ rfl
  · exact moved_accounts hx
  · rcases hexec : m.toContext.execute h run.body s w with ⟨r₁, c', w₁⟩
    rw [hexec] at hx
    cases hx
    exact Context.execute_accounts (body_accounts hrun) hexec

/-- The flag of a step.  At the end of the program there is nothing that could fail. -/
def Step.ok : Step → Bool
  | continued ok => ok
  | done => true

theorem step_accounts (hrun : RunnerAccounts run) {r : Outcome StatementError Step}
    (hx : step h run m w = (r, m', w')) : Accounts StatementError.Ends Step.ok w w' r := by
  cases hs : m.next? with
  | none =>
      simp only [step, hs] at hx
      cases hx
      exact .quiet rfl rfl
  | some s =>
      rcases hexec : execute h run (m.goto (m.pc + 1)) m.pc s w with ⟨r₁, m₁, w₁⟩
      have haccounts := execute_accounts hrun hexec
      simp only [step, hs, hexec] at hx
      split at hx
      · next hsettle =>
        cases hx
        exact Context.settle_accounts haccounts hsettle
      · next hsettle =>
        cases hx
        exact Context.settle_accounts haccounts hsettle
      · cases hx
        trivial

/-- A run accounts for what was reported from some world before it on, if its flag does so at the
start. -/
theorem runFrom_accounts : ∀ (n : Nat) {stop : Nat} {ok : Bool} {m m' : Machine}
    {w₀ w w' : World σ} {r : Outcome StatementError Bool} {ds : List StatementError},
    w₀.Adds w ds → ok = ds.isEmpty → runFrom h n ok stop m w = (r, m', w') →
    Accounts StatementError.Ends id w₀ w' r := by
  intro n
  induction n with
  | zero =>
      intro stop ok m m' w₀ w w' r ds hds hok hx
      cases hx
      trivial
  | succ n ih =>
      intro stop ok m m' w₀ w w' r ds hds hok hx
      have hrun : RunnerAccounts (Machine.run h n) := by
        intro stop m m' w w' r hx
        exact ih (.nothing rfl) rfl hx
      rw [runFrom_succ] at hx
      split at hx
      · rcases hstep : step h (Machine.run h n) m w with ⟨rs, m₁, w₁⟩
        have haccounts := step_accounts hrun hstep
        rw [hstep] at hx
        rcases rs with (ok' | _) | e | _
        · obtain ⟨ds', hds', hok'⟩ := haccounts
          refine ih (hds.trans hds') ?_ hx
          have hflag : ok' = ds'.isEmpty := hok'
          rw [hok, hflag]
          cases ds <;> rfl
        · cases hx
          obtain ⟨ds', hds', hok'⟩ := haccounts
          refine ⟨ds ++ ds', hds.trans hds', ?_⟩
          have hflag : true = ds'.isEmpty := hok'
          rw [List.isEmpty_iff.1 hflag.symm, List.append_nil]
          exact hok
        · cases hx
          obtain ⟨hends, ds', hds'⟩ := haccounts
          exact ⟨hends, ds ++ ds', hds.trans hds'⟩
        · cases hx
          trivial
      · cases hx
        exact ⟨ds, hds, hok⟩

/-- A run to the end of a program accounts for what it reports. -/
theorem runUntilDone_accounts {n : Nat} {r : Outcome StatementError Bool}
    (hx : runUntilDone h n m w = (r, m', w')) : Accounts StatementError.Ends id w w' r := by
  have hstart : w.Adds (m.publish h .initial w) [] := .nothing (Context.publish_diagnostics _ h _ w)
  simp only [runUntilDone] at hx
  split at hx
  · next hrun =>
    cases hx
    obtain ⟨ds, hds, hok⟩ := runFrom_accounts n hstart rfl hrun
    exact ⟨ds, ⟨by rw [Context.publish_diagnostics, hds.1], hds.2⟩, hok⟩
  · next hrun =>
    cases hx
    exact runFrom_accounts n hstart rfl hrun
  · cases hx
    trivial

/-- A failure that can be recovered from is reported at once, and fails its step. -/
theorem step_reports {m₁ : Machine} {w₁ : World σ} {e : RuntimeError} (hs : m.next? = some s)
    (hx : execute h run (m.goto (m.pc + 1)) m.pc s w = (.raise e, m₁, w₁))
    (he : e.isRecoverable = true) :
    ∃ w₂, step h run m w = (.ok (.continued false), m₁, w₂) ∧
      w₂.diagnostics = w₁.diagnostics ++ [m₁.locate m.pc s e] := by
  refine ⟨m₁.publishAfter h m.pc s (w₁.record (.diagnostic (m₁.locate m.pc s e))), ?_, ?_⟩
  · simp only [step, hs, hx, Outcome.raise, Context.settle, he, if_true]
  · rw [Context.publishAfter_diagnostics, World.diagnostics_record_diagnostic]

end Machine

/-! ### Sessions -/

namespace Session

/-- The result of a run that comes to an end agrees with the errors reported in it.  It is a flag
that is true exactly if there are none, a flag that is false if there are some and all are about
missing variables, and otherwise an error, which is the last one reported and comes after missing
variables only.  None of the failures that a run recovers from is lost: wherever a statement fails
so, its step reports it. -/
theorem run_agrees_with_diagnostics (h : Host σ) (n : Nat) (s : Session) (w w' : World σ)
    (r : Outcome StatementError Bool) (hx : s.run h n w = (r, w')) (hr : r ≠ .outOfFuel) :
    (∃ ds, w'.diagnostics = w.diagnostics ++ ds ∧
      (r = .ok true ↔ ds = []) ∧
      (r = .ok false → ds ≠ [] ∧ ∀ d ∈ ds, d.IsMissing) ∧
      ∀ e, r = .failed e → e.error.isRecoverable = false ∧
        ∃ earlier, ds = earlier ++ [e] ∧ e ∉ earlier ∧ ∀ d ∈ earlier, d.IsMissing) ∧
    ∀ (run : Runner σ) (m m₁ : Machine) (st : Statement) (w₀ w₁ : World σ) (e : RuntimeError),
      m.next? = some st →
      Machine.execute h run (m.goto (m.pc + 1)) m.pc st w₀ = (.raise e, m₁, w₁) →
      e.isRecoverable = true →
      ∃ w₂, Machine.step h run m w₀ = (.ok (.continued false), m₁, w₂) ∧
        w₂.diagnostics = w₁.diagnostics ++ [m₁.locate m.pc st e] := by
  refine ⟨?_, fun run m m₁ st w₀ w₁ e hs hexec he => Machine.step_reports hs hexec he⟩
  rcases hdone : s.machine.runUntilDone h n w with ⟨r₁, m₁, w₁⟩
  have haccounts := Machine.runUntilDone_accounts hdone
  simp only [run, hdone] at hx
  cases r₁ with
  | outOfFuel =>
      cases hx
      exact absurd rfl hr
  | ok ok =>
      cases hx
      obtain ⟨ds, hds, hok⟩ := haccounts
      have hflag : ok = ds.isEmpty := hok
      refine ⟨ds, hds.1, ?_, ?_, by simp⟩
      · rw [← List.isEmpty_iff, ← hflag]
        simp
      · intro hfalse
        cases hfalse
        refine ⟨?_, hds.2⟩
        rintro rfl
        cases hflag
  | failed e =>
      cases hx
      obtain ⟨hends, ds, hds⟩ := haccounts
      refine ⟨ds ++ [e], ?_, by simp, by simp, ?_⟩
      · rw [World.diagnostics_record_diagnostic, hds.1, List.append_assoc]
      · intro e' he'
        cases he'
        refine ⟨hends, ds, rfl, ?_, hds.2⟩
        -- The others are recoverable, and this one is not.
        intro hmem
        have hrec := StatementError.isMissing_iff.1 (hds.2 e hmem)
        have hfalse : e.error.isRecoverable = false := hends
        rw [hfalse] at hrec
        cases hrec

/-- A variable that is missing in a function fails the `set` that takes the value of a call. -/
theorem run_agrees_with_diagnostics_in_call :
    let statement operation arguments : Statement := ⟨operation, arguments, operation, 1⟩
    let s : Session := { program := .ofStatements [statement "func" ["F"],
      statement "print" ["a"], statement "return" ["1"], statement "end" [],
      statement "init" ["y", "to", "0"], statement "set" ["y", "to", "F"]] }
    let h : Host Unit := ⟨{}, fun _ u => (.error (.unknownFunction ""), u)⟩
    let w : World Unit := { state := () }
    (s.run h 6 w).1 = .ok false ∧
      ∃ ds, (s.run h 6 w).2.diagnostics = w.diagnostics ++ ds ∧ ds ≠ [] ∧
        ∀ d ∈ ds, d.IsMissing := by
  intro statement s h w
  have hflag : (s.run h 6 w).1 = .ok false := by decide
  refine ⟨hflag, ?_⟩
  have hrun : s.run h 6 w = (.ok false, (s.run h 6 w).2) := Prod.ext hflag rfl
  obtain ⟨⟨ds, hds, -, hfalse, -⟩, -⟩ :=
    run_agrees_with_diagnostics h 6 s w _ _ hrun (by simp)
  exact ⟨ds, hds, hfalse rfl⟩

end Session

end BareBones
