/-
Limits only cut runs short.

Two settings are limits: how many calls may lie inside each other, and whether functions may hold
conditionals.  A statement reads a limit before it runs anything.  Either the limit lets it pass,
and then a higher one does too, or the statement raises an error that ends the run.  No statement
further up takes such an error for anything else, since an error from inside is handed up as it is.
So a run that does not end with an error of this kind has passed every limit that it met.
-/
import BareBones.Proofs.Nested

namespace BareBones

variable {σ : Type}

/-- The second settings differ from the first in their limits only, which are as high or higher. -/
structure Settings.Raises (s s' : Settings) : Prop where
  verbose : s'.verbose = s.verbose
  snapshotFormat : s'.snapshotFormat = s.snapshotFormat
  maxCallDepth : s.maxCallDepth ≤ s'.maxCallDepth
  conditionals : s.conditionalsInFunctions = true → s'.conditionalsInFunctions = true

/-- Is the error that of a limit? -/
def RuntimeError.isLimit : RuntimeError → Bool
  | .callDepthExceeded _ | .conditionalInFunction => true
  | _ => false

theorem RuntimeError.isLimit_eq_false_iff {e : RuntimeError} : e.isLimit = false ↔
    (∀ limit, e ≠ .callDepthExceeded limit) ∧ e ≠ .conditionalInFunction := by
  cases e <;> simp [isLimit]

/-- Is the failure that of a limit, be it here or further inside? -/
def Failure.isLimit : Failure → Bool
  | .raised e => e.isLimit
  | .nested e => e.error.isLimit

theorem RuntimeError.not_recoverable_of_isLimit {e : RuntimeError} (he : e.isLimit = true) :
    e.isRecoverable = false := by
  cases e <;> first | rfl | cases he

/-- Something is finished, and not by one of the errors. -/
def Outcome.EndsWithout {ε α : Type} (bad : ε → Bool) : Outcome ε α → Prop
  | .ok _ => True
  | .failed e => bad e = false
  | .outOfFuel => False

/-- The error of a limit ends the run at the statement that raised it. -/
theorem Context.endsWithout_of_settle {β : Type} {h : Host σ} {c : Context β} {a : Nat}
    {s : Statement} {r : Outcome Failure Bool} {w : World σ}
    (hends : (c.settle h a s r w).1.EndsWithout (·.error.isLimit)) :
    r.EndsWithout Failure.isLimit := by
  rcases r with ok | ⟨e | e⟩ | _
  · trivial
  · show e.isLimit = false
    by_contra hlimit
    have hrec := RuntimeError.not_recoverable_of_isLimit (eq_true_of_ne_false hlimit)
    simp only [Context.settle, hrec] at hends
    exact hlimit hends
  · exact hends
  · exact hends

namespace Machine

/-! ### Statements -/

/-- The second runner comes to the same as the first one, wherever that meets no limit. -/
def Runner.PassesLimits (run run' : Runner σ) : Prop :=
  ∀ stop m w, (run stop m w).1.EndsWithout (·.error.isLimit) → run' stop m w = run stop m w

variable {h h' : Host σ} {run run' : Runner σ} {m : Machine} {s : Statement} {w : World σ}

/-- With a greater depth of calls a function is entered as before, unless the depth was exceeded. -/
theorem enter_of_raises (hlimits : h.settings.Raises h'.settings) (c : Context Program)
    (name : String) (args : List String) :
    c.enter h' name args = c.enter h name args ∨
      c.enter h name args = .error (.callDepthExceeded h.settings.maxCallDepth) := by
  unfold Context.enter
  cases c.functions.get? name with
  | none => exact Or.inl rfl
  | some f =>
      by_cases hlen : args.length ≠ f.arity
      · simp [hlen]
      · by_cases hdepth : h.settings.maxCallDepth ≤ c.scope.depth
        · simp [hlen, hdepth]
        · have hdepth' : ¬ h'.settings.maxCallDepth ≤ c.scope.depth := by
            have hle := hlimits.maxCallDepth
            omega
          refine Or.inl ?_
          simp only [if_neg hlen, if_neg hdepth, if_neg hdepth']

/-- A statement passes all limits, and then it passes higher ones alike, or it fails by one. -/
theorem alikeAt_or_limit (heval : h'.evaluate = h.evaluate)
    (hlimits : h.settings.Raises h'.settings) (run : Runner σ) (m : Machine) (a : Nat)
    (s : Statement) (w : World σ) :
    AlikeAt h h' m s ∨ ∃ e, e.isLimit = true ∧ (execute h run m a s w).1 = .raise e := by
  by_cases hif : s.keyword? = some .ifBranch
  · by_cases hallowed : (m.scope.isMain || h.settings.conditionalsInFunctions) = true
    · refine Or.inl ⟨heval, ?_, ?_⟩
      · intro _
        rw [hallowed]
        rcases Bool.or_eq_true_iff.1 hallowed with hmain | hcond
        · rw [hmain, Bool.true_or]
        · rw [hlimits.conditionals hcond, Bool.or_true]
      · intro hopens
        simp [Statement.opensBlock, hif, Keyword.opensBlock] at hopens
    · refine Or.inr ⟨.conditionalInFunction, rfl, ?_⟩
      simp only [execute, hif, branch, if_neg hallowed]
  · by_cases hplain : s.opensBlock = false ∧ s.closesBlock = false
    · obtain ⟨hopens, hcloses⟩ := hplain
      cases hcall : m.call? s with
      | none => exact Or.inl ⟨heval, fun hk => absurd hk hif, by simp [hcall]⟩
      | some call =>
          obtain ⟨name, args⟩ := call
          rcases enter_of_raises hlimits m.toContext name args with heq | hexceeded
          · refine Or.inl ⟨heval, fun hk => absurd hk hif, ?_⟩
            intro _ _ name' args' hcall'
            rw [hcall] at hcall'
            cases hcall'
            exact heq
          · refine Or.inr ⟨.callDepthExceeded h.settings.maxCallDepth, rfl, ?_⟩
            rw [execute_of_not_block hopens hcloses, Context.execute_of_call hcall,
              Context.call_eq, hexceeded]
            simp only [Outcome.raise, Context.takeCall_failed]
            rfl
    · exact Or.inl ⟨heval, fun hk => absurd hk hif, fun ho hc => absurd ⟨ho, hc⟩ hplain⟩

/-- A statement that fails by no limit does the same under higher limits. -/
theorem execute_of_raises (heval : h'.evaluate = h.evaluate)
    (hlimits : h.settings.Raises h'.settings) (hrun : Runner.PassesLimits run run') {a : Nat}
    (hends : (execute h run m a s w).1.EndsWithout Failure.isLimit) :
    execute h' run' m a s w = execute h run m a s w := by
  rcases alikeAt_or_limit heval hlimits run m a s w with hh | ⟨e, he, hx⟩
  · cases hn : nested? h m a s with
    | none => exact (execute_of_not_nested run run' w hh hn).1
    | some n =>
        rw [execute_of_nested hn] at hends ⊢
        rw [execute_of_nested (hh.nested?_eq.trans hn)]
        -- What ends the run inside ends the statement too.
        have hinside : (run n.stop n.machine w).1.EndsWithout (·.error.isLimit) := by
          rcases hr : run n.stop n.machine w with ⟨ok | e | _, m', w'⟩
          · trivial
          · rw [hr, resume_failed hn] at hends
            exact hends
          · rw [hr, resume_outOfFuel hn] at hends
            exact hends
        rw [hrun n.stop n.machine w hinside]
  · rw [hx] at hends
    have hfalse : e.isLimit = false := hends
    rw [he] at hfalse
    cases hfalse

/-! ### Steps and runs -/

theorem publish_of_raises (hlimits : h.settings.Raises h'.settings) (c : Context Program)
    (moment : Moment) (w : World σ) : c.publish h' moment w = c.publish h moment w := by
  simp only [Context.publish, hlimits.verbose]

theorem settle_of_raises (hlimits : h.settings.Raises h'.settings) (c : Context Program) (a : Nat)
    (s : Statement) (r : Outcome Failure Bool) (w : World σ) :
    c.settle h' a s r w = c.settle h a s r w := by
  have hafter : ∀ w, c.publishAfter h' a s w = c.publishAfter h a s w := by
    intro w
    simp only [Context.publishAfter, publish_of_raises hlimits]
  rcases r with ok | ⟨e | e⟩ | _
  · simp only [Context.settle, hafter]
  · simp only [Context.settle, hafter]
  · rfl
  · rfl

theorem step_of_raises (heval : h'.evaluate = h.evaluate) (hlimits : h.settings.Raises h'.settings)
    (hrun : Runner.PassesLimits run run')
    (hends : (step h run m w).1.EndsWithout (·.error.isLimit)) :
    step h' run' m w = step h run m w := by
  cases hs : m.next? with
  | none => simp only [step, hs]
  | some s =>
      have hexec : (execute h run (m.goto (m.pc + 1)) m.pc s w).1.EndsWithout Failure.isLimit := by
        rcases hx : execute h run (m.goto (m.pc + 1)) m.pc s w with ⟨r, m₁, w₁⟩
        refine Context.endsWithout_of_settle (h := h) (c := m₁.toContext) (a := m.pc) (s := s)
          (w := w₁) ?_
        simp only [step, hs, hx] at hends
        rcases hsettle : m₁.settle h m.pc s r w₁ with ⟨ok | e | _, w₂⟩
        · trivial
        · rw [hsettle] at hends
          exact hends
        · rw [hsettle] at hends
          exact hends
      simp only [step, hs, execute_of_raises heval hlimits hrun hexec, settle_of_raises hlimits]

/-- A run that does not end by a limit is the same under higher limits. -/
theorem runFrom_of_raises (heval : h'.evaluate = h.evaluate)
    (hlimits : h.settings.Raises h'.settings) : ∀ (n : Nat) {ok : Bool} {stop : Nat} {m : Machine}
    {w : World σ}, (runFrom h n ok stop m w).1.EndsWithout (·.error.isLimit) →
    runFrom h' n ok stop m w = runFrom h n ok stop m w := by
  intro n
  induction n with
  | zero =>
      intro ok stop m w hends
      exact hends.elim
  | succ n ih =>
      intro ok stop m w hends
      have hrun : Runner.PassesLimits (Machine.run h n) (Machine.run h' n) := by
        intro stop m w hends
        exact ih hends
      rw [runFrom_succ] at hends
      rw [runFrom_succ, runFrom_succ]
      by_cases hpc : m.pc < stop
      · rw [if_pos hpc] at hends
        rw [if_pos hpc, if_pos hpc]
        have hstep : (step h (Machine.run h n) m w).1.EndsWithout (·.error.isLimit) := by
          rcases hx : step h (Machine.run h n) m w with ⟨did | e | _, m', w'⟩
          · trivial
          · rw [hx] at hends
            exact hends
          · rw [hx] at hends
            exact hends
        rw [step_of_raises heval hlimits hrun hstep]
        rcases hx : step h (Machine.run h n) m w with ⟨(ok' | _) | e | _, m', w'⟩
        · rw [hx] at hends
          exact ih hends
        · rfl
        · rfl
        · rfl
      · rw [if_neg hpc, if_neg hpc]

theorem runUntilDone_of_raises (heval : h'.evaluate = h.evaluate)
    (hlimits : h.settings.Raises h'.settings) {n : Nat}
    (hends : (runUntilDone h n m w).1.EndsWithout (·.error.isLimit)) :
    runUntilDone h' n m w = runUntilDone h n m w := by
  have hrun : run h' n m.program.size m (m.publish h .initial w) =
      run h n m.program.size m (m.publish h .initial w) := by
    refine runFrom_of_raises heval hlimits n ?_
    unfold runUntilDone run at hends
    rcases hx : runFrom h n true m.program.size m (m.publish h .initial w) with ⟨ok | e | _, m', w'⟩
    · trivial
    · rw [hx] at hends
      exact hends
    · rw [hx] at hends
      exact hends
  simp only [runUntilDone, publish_of_raises hlimits, hrun]

/-- A run of a machine that comes to an end, but not by an error of a limit, comes to the same end
under higher limits: with the same result, the same variables and functions, and the same lines,
diagnostics and snapshots in the journal. -/
theorem run_keeps_under_higher_limits (h h' : Host σ) (heval : h'.evaluate = h.evaluate)
    (hlimits : h.settings.Raises h'.settings) (m m' : Machine) (w w' : World σ) (n : Nat)
    (r : Outcome StatementError Bool) (hx : runUntilDone h n m w = (r, m', w'))
    (hfin : r ≠ .outOfFuel)
    (hlimit : ∀ e, r = .failed e → (∀ limit, e.error ≠ .callDepthExceeded limit) ∧
      e.error ≠ .conditionalInFunction) :
    ∀ n', n ≤ n' → runUntilDone h' n' m w = (r, m', w') := by
  have hends : r.EndsWithout (·.error.isLimit) := by
    cases r with
    | ok ok => trivial
    | failed e => exact RuntimeError.isLimit_eq_false_iff.2 (hlimit e rfl)
    | outOfFuel => exact absurd rfl hfin
  have hsame : runUntilDone h' n m w = (r, m', w') := by
    rw [← hx]
    refine runUntilDone_of_raises heval hlimits ?_
    rw [hx]
    exact hends
  intro n' hn
  rw [runUntilDone_mono hn (by rw [hsame]; exact hfin), hsame]

/-- The calls lie inside each other as deep as they may, and conditionals are not allowed in
functions.  The run goes through, and it is the same if more is allowed. -/
theorem run_keeps_under_higher_limits_at_full_depth :
    let statement operation arguments : Statement := ⟨operation, arguments, operation, 1⟩
    let p := Program.ofStatements [statement "func" ["G"], statement "incr" ["x"],
      statement "print" ["x"], statement "end" [], statement "func" ["F"], statement "G" [],
      statement "print" ["y"], statement "end" [], statement "init" ["x", "to", "0"],
      statement "F" [], statement "if" ["x", "is", "0"], statement "print" ["x"],
      statement "end" []]
    let evaluate (_ : String) (u : Unit) : Except Arithmetic.Error Float × Unit :=
      (.error (.unknownFunction ""), u)
    let h : Host Unit := ⟨⟨true, .json, 2, false⟩, evaluate⟩
    let h' : Host Unit := ⟨⟨true, .json, 3, true⟩, evaluate⟩
    ∃ m w, runUntilDone h 11 { program := p } { state := () } = (.ok false, m, w) ∧
      w.journal.toList.filterMap Event.line? = ["1", "0"] ∧
      w.journal.toList.filterMap Event.diagnostic? =
        [⟨1, 1, .function "F" 1, "print", .missing "y"⟩] ∧
      ∀ n', 11 ≤ n' → runUntilDone h' n' { program := p } { state := () } = (.ok false, m, w) := by
  intro statement p evaluate h h'
  have hok : (runUntilDone h 11 { program := p } { state := () }).1 = .ok false := by decide +kernel
  have hlines : List.filterMap Event.line?
      (runUntilDone h 11 { program := p } { state := () }).2.2.journal.toList = ["1", "0"] := by
    decide +kernel
  have hdiagnostics : List.filterMap Event.diagnostic?
      (runUntilDone h 11 { program := p } { state := () }).2.2.journal.toList =
        [⟨1, 1, .function "F" 1, "print", .missing "y"⟩] := by
    decide +kernel
  have hsame := run_keeps_under_higher_limits h h' rfl ⟨rfl, rfl, by decide, by decide⟩
    { program := p }
  rcases hx : runUntilDone h 11 { program := p } { state := () } with ⟨r, m, w⟩
  rw [hx] at hok hlines hdiagnostics
  obtain rfl : r = .ok false := hok
  exact ⟨m, w, rfl, hlines, hdiagnostics, hsame m _ w 11 (.ok false) hx (by simp) (by simp)⟩

end Machine

end BareBones
