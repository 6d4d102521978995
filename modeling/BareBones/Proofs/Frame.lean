/-
A run writes no variables but the targets of its own statements.

Each statement that writes a variable names it: `incr`, `decr`, `clear`, `init` and `set` with their
first argument, `copy` with its third.  A call works on a copy of the variables, so nothing that a
function does to a variable of the same name is seen by its caller, at any depth.  And the machine
never runs the body of a function in place.  So the targets that count are those of the statements
that stand outside of functions.
-/
import BareBones.Proofs.Outside

namespace BareBones

variable {σ β : Type}

/-- The variable is the target of a statement that stands outside of functions. -/
def Program.Targets (p : Program) (x : String) : Prop :=
  ∃ a s, p.get? a = some s ∧ ¬ p.InFunction a ∧ s.target? = some x

/-! ### Statements without blocks -/

/-- A statement that belongs to no block writes its target only, whatever the functions do that it
calls. -/
theorem Context.get?_execute {h : Host σ} {run : BodyRunner σ β} {c c' : Context β}
    {s : Statement} {w w' : World σ} {r : Outcome Failure Bool} {x : String}
    (hne : s.target? ≠ some x) (hx : c.execute h run s w = (r, c', w')) :
    c'.env.get? x = c.env.get? x := by
  cases execute_writes hx with
  | nothing => rfl
  | @target name env htarget henv =>
      obtain ⟨v, rfl, -⟩ := henv
      have hname : x ≠ name := by
        rintro rfl
        exact hne htarget
      exact (NameMap.get?_insert c.env name v x).trans (if_neg hname)
  | returned v => rfl

/-! ### Statements of blocks -/

namespace Machine

variable {h : Host σ} {run : Runner σ} {m m' : Machine} {s : Statement} {w w' : World σ}
  {r : Outcome Failure Bool} {p : Program} {x : String}

theorem DefinesFunction.env_eq {a : Nat} (hx : DefinesFunction m a s m') : m'.env = m.env := by
  cases hx
  rfl

/-- No link of a chain is a function. -/
theorem keyword?_of_mem_links : ∀ (n : Nat) {o : Nat} {s : Statement}, s.keyword? ≠ some .func →
    ∀ l ∈ links p n o s, l.statement.keyword? ≠ some .func := by
  intro n
  induction n with
  | zero =>
      intro o s hs l hl
      exact absurd hl List.not_mem_nil
  | succ n ih =>
      intro o s hs l hl
      rw [links] at hl
      rcases List.mem_cons.1 hl with rfl | hl
      · exact hs
      · split at hl
        · exact absurd hl List.not_mem_nil
        · split at hl
          · exact absurd hl List.not_mem_nil
          · split at hl
            · exact absurd hl List.not_mem_nil
            · next s' _ =>
              split at hl
              · next hcont =>
                refine ih ?_ l hl
                intro hk
                simp [Statement.continuesChain, hk] at hcont
              · exact absurd hl List.not_mem_nil

/-- The runner leaves the variable as it is wherever it starts outside of functions. -/
def RunnerSpares (p : Program) (x : String) (run : Runner σ) : Prop :=
  ∀ ⦃stop : Nat⦄ ⦃m m' : Machine⦄ ⦃w w' : World σ⦄ ⦃r : Outcome StatementError Bool⦄,
    m.program = p → m.Outside → run stop m w = (r, m', w') → m'.env.get? x = m.env.get? x

/-- A link leaves the variable as it is if what comes behind it does. -/
theorem AtLink.get?_runChain_cons {a o e : Nat} {ls : List Link} (hrun : RunnerSpares p x run)
    (hs : p.get? o = some s) (hk : s.keyword? ≠ some .func) (hout : ¬ p.InFunction o)
    (hnext : Machine.runChain run ls (m.leave e ls) w = (r, m', w') →
      m'.env.get? x = m.env.get? x)
    (hm : AtLink p a o m) (hx : Machine.runChain run (⟨o, s, some e⟩ :: ls) m w = (r, m', w')) :
    m'.env.get? x = m.env.get? x := by
  simp only [Machine.runChain] at hx
  split at hx
  · cases hx
    rfl
  · exact hnext hx
  · rcases hbody : run e (m.goto (o + 1)) w with ⟨rb, m₂, w₂⟩
    have hself : m.goto (o + 1) = m := by
      rw [← hm.pc]
      rfl
    rw [hself] at hbody hx
    have houtside : m.Outside := by
      refine ⟨hm.ok, ?_⟩
      rw [hm.program, hm.pc]
      exact Program.not_inFunction_succ hout hs hk
    have hkept := hrun hm.program houtside hbody
    rw [hbody] at hx
    cases rb with
    | failed e =>
        cases hx
        exact hkept
    | outOfFuel =>
        cases hx
        exact hkept
    | ok ok =>
        have hmoves := passOver_moves ls (m₂.leave e ls)
        rcases hpassed : Machine.passOver ls (m₂.leave e ls) with ⟨rp, m₃⟩
        rw [hpassed] at hmoves
        have hkept' : m₃.env.get? x = m.env.get? x := by
          rw [show m₃.toContext = m₂.toContext from hmoves.context]
          exact hkept
        simp only [hpassed] at hx
        cases rp <;> cases hx <;> exact hkept'

/-- A chain leaves the variable as it is, whichever of its blocks runs and however that ends. -/
theorem AtLink.get?_runChain {a o : Nat} {ls : List Link} (hrun : RunnerSpares p x run)
    (hls : IsChain p o ls) : (∀ l ∈ ls, l.statement.keyword? ≠ some .func) → ¬ p.InFunction o →
    ∀ {m : Machine} {w : World σ}, AtLink p a o m → Machine.runChain run ls m w = (r, m', w') →
    m'.env.get? x = m.env.get? x := by
  induction hls with
  | unclosed hs ho hw hstop =>
      intro hfunc hout m w hm hx
      cases hx
      rfl
  | last hs ho hw hstop =>
      intro hfunc hout m w hm hx
      refine hm.get?_runChain_cons hrun hs (hfunc _ List.mem_cons_self) hout ?_ hx
      intro hrest
      cases hrest
      rfl
  | link hs ho hw hstop hrest ih =>
      intro hfunc hout m w hm hx
      refine hm.get?_runChain_cons hrun hs (hfunc _ List.mem_cons_self) hout ?_ hx
      refine ih (fun l hl => hfunc l (List.mem_cons_of_mem _ hl))
        (Program.not_inFunction_behind hout hstop) ?_
      exact (hm.past hs hw hstop).leave_next hm.ok hm.program hm.around hstop hrest

/-! ### Steps and runs -/

/-- A statement outside of functions leaves all variables but its target as they are. -/
theorem Outside.get?_execute (hm : m.Outside) (hrun : RunnerSpares m.program x run)
    (hs : m.next? = some s) (hne : s.target? ≠ some x)
    (hx : execute h run (m.goto (m.pc + 1)) m.pc s w = (r, m', w')) :
    m'.env.get? x = m.env.get? x := by
  unfold execute at hx
  split at hx
  · have henv : m'.env = m.env := by
      refine after_moved (P := fun m₁ => m₁.env = m.env) hx (enterLoop_spec ..) rfl ?_
      intro m₁ hc
      exact congrArg Context.env hc.moves.context
    rw [henv]
  · cases hx
    rw [(closeBlock_moves _ _).context]
    rfl
  · next hk =>
    unfold branch at hx
    split at hx
    · have hfunc : s.keyword? ≠ some .func := by
        rw [hk]
        simp
      have hlink := hm.loops.atLink hs (closesBlock_of_keyword hk (by simp))
      exact hlink.get?_runChain hrun (isChain_chain hs hk) (keyword?_of_mem_links _ hfunc) hm.out hx
    · cases hx
      rfl
  · cases hx
    rfl
  · cases hx
    rfl
  · have henv : m'.env = m.env := by
      refine after_moved (P := fun m₁ => m₁.env = m.env) hx (defineFunction_spec ..) rfl ?_
      intro m₁ hc
      exact hc.env_eq
    rw [henv]
  · rcases hexec : (m.goto (m.pc + 1)).toContext.execute h run.body s w with ⟨r₁, c', w₁⟩
    rw [hexec] at hx
    cases hx
    exact Context.get?_execute hne hexec

/-- A step outside of functions leaves a variable as it is that is no target. -/
theorem Outside.get?_step {r : Outcome StatementError Step} (hm : m.Outside)
    (hrun : RunnerSpares m.program x run) (hfree : ¬ m.program.Targets x)
    (hx : Machine.step h run m w = (r, m', w')) : m'.env.get? x = m.env.get? x := by
  cases hs : m.next? with
  | none =>
      simp only [Machine.step, hs] at hx
      cases hx
      rfl
  | some s =>
      have hne : s.target? ≠ some x := fun ht => hfree ⟨m.pc, s, hs, hm.out, ht⟩
      rcases hexec : Machine.execute h run (m.goto (m.pc + 1)) m.pc s w with ⟨r₁, m₁, w₁⟩
      have hkept := hm.get?_execute hrun hs hne hexec
      simp only [Machine.step, hs, hexec] at hx
      split at hx <;> cases hx <;> exact hkept

/-- A run that starts outside of functions leaves a variable as it is that is no target. -/
theorem get?_runFrom (hfree : ¬ p.Targets x) : ∀ (n : Nat) {stop : Nat} {ok : Bool}
    {m m' : Machine} {w w' : World σ} {r : Outcome StatementError Bool},
    m.program = p → m.Outside → runFrom h n ok stop m w = (r, m', w') →
    m'.env.get? x = m.env.get? x := by
  intro n
  induction n with
  | zero =>
      intro stop ok m m' w w' r hp hm hx
      cases hx
      rfl
  | succ n ih =>
      intro stop ok m m' w w' r hp hm hx
      have hrun : RunnerSpares p x (Machine.run h n) := by
        intro stop m m' w w' r hp hm hx
        exact ih hp hm hx
      rw [runFrom_succ] at hx
      split at hx
      · rcases hstep : step h (Machine.run h n) m w with ⟨rs, m₁, w₁⟩
        subst hp
        have hkept := hm.get?_step hrun hfree hstep
        rw [hstep] at hx
        rcases rs with (ok' | _) | e | _
        · obtain ⟨hprogram, hout⟩ := hm.step (runsKeep h n).runner hstep
          rw [ih hprogram hout hx, hkept]
        · cases hx
          exact hkept
        · cases hx
          exact hkept
        · cases hx
          exact hkept
      · cases hx
        rfl

/-- A variable that is the target of no statement outside of functions is at the end of a run what
it was at the start, or is missing as before, however the run ends and whatever is called.  This is
so of a run to the end of a program, and of the run of a body for one call. -/
theorem run_keeps_untargeted (h : Host σ) (c : Context Program) (p : Program) (x : String)
    (hfree : ¬ p.Targets x) :
    (∀ n w r m w', runUntilDone h n { toContext := c, program := p } w = (r, m, w') →
        m.env.get? x = c.env.get? x) ∧
      ∀ n w r c' w', (Machine.run h n).body p c w = (r, c', w') → c'.env.get? x = c.env.get? x := by
  refine ⟨?_, ?_⟩
  · intro n w r m w' hx
    simp only [runUntilDone] at hx
    split at hx
    all_goals
      next hrun =>
      cases hx
      exact get?_runFrom hfree n rfl (outside_start c p) hrun
  · intro n w r c' w' hx
    rcases hrun : Machine.run h n p.size { toContext := c, program := p } w with ⟨rb, mb, wb⟩
    simp only [Runner.body, hrun] at hx
    cases hx
    exact get?_runFrom hfree n rfl (outside_start c p) hrun

/-- A function counts its variable up and calls itself until the depth is exceeded; the variable of
the caller stays as it is. -/
theorem run_keeps_untargeted_by_calls :
    let statement operation arguments : Statement := ⟨operation, arguments, operation, 1⟩
    let p := Program.ofStatements [statement "func" ["F"], statement "incr" ["x"],
      statement "print" ["x"], statement "F" [], statement "end" [],
      statement "init" ["y", "to", "0"], statement "F" []]
    let c : Context Program := { env := (∅ : Environment).insert "x" (.int 5) }
    let h : Host Unit := ⟨{ maxCallDepth := 2 }, fun _ u => (.error (.unknownFunction ""), u)⟩
    let result := runUntilDone h 9 { toContext := c, program := p } { state := () }
    result.1 = .failed ⟨2, 1, .function "F" 2, "F", .callDepthExceeded 2⟩ ∧
      result.2.2.journal.toList.filterMap Event.line? = ["6", "7"] ∧ ¬ p.Targets "x" ∧
      result.2.1.env.get? "x" = some (.int 5) := by
  intro statement p c h result
  have hfree : ¬ p.Targets "x" := by
    rintro ⟨a, s, hs, hout, ht⟩
    have hin : ∀ a, 0 < a → a ≤ 4 → p.InFunction a := fun a hlt hle =>
      ⟨0, 4, statement "func" ["F"], rfl, by decide, by decide, hlt, hle⟩
    have hlt : a < 7 := Program.get?_lt hs
    have hcases : a = 0 ∨ a = 5 ∨ a = 6 := by
      by_contra hne
      exact hout (hin a (by omega) (by omega))
    rcases hcases with rfl | rfl | rfl
    all_goals
      cases hs
      revert ht
      decide
  refine ⟨by decide, by decide, hfree, ?_⟩
  have hkept := (run_keeps_untargeted h c p "x" hfree).1 9 { state := () } _ _ _ rfl
  rw [show result.2.1.env.get? "x" = c.env.get? "x" from hkept]
  decide

end Machine

end BareBones
