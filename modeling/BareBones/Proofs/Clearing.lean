/-
What `clear` means for guards.

`clear` makes a variable zero, but it keeps its kind: a double becomes the double zero.  Guards
compare kinds too, and the literal `0` is a whole number.  So behind `clear x` the guard `x = 0`
holds just if `x` was no double before: a whole number, or no variable at all.  For such an `x` a
`while` with that guard is passed over, and an `if` with it runs its block.
-/
import BareBones.Proofs.Names
import BareBones.Proofs.Nested

namespace BareBones

variable {σ : Type}

/-! ### The variable after `clear` -/

namespace Machine

/-- A variable that was cleared is the double zero if it was a double, and the whole number zero
otherwise. -/
theorem clear_eq_ok {args : List String} {env env' : Environment} {x : String}
    (hargs : args.head? = some x) (h : clear args env = (.ok (), env')) :
    (env'.get? x = some (.float 0.0) ∧ ∃ y, env.get? x = some (.float y)) ∨
      (env'.get? x = some (.int 0) ∧ ∀ y, env.get? x ≠ some (.float y)) := by
  obtain ⟨rest, rfl⟩ := List.head?_eq_some_iff.1 hargs
  simp only [clear, variableArgument] at h
  split at h
  · next hin =>
    simp only [mutate, variableArgument] at h
    split at h
    · cases h
    · next v hv =>
      cases v with
      | int n =>
          cases h
          refine Or.inr ⟨by simp, ?_⟩
          simp [hv]
      | float y =>
          cases h
          exact Or.inl ⟨by simp, y, hv⟩
      | bool b => cases h
      | str s => cases h
  · next hnot =>
    have hnone : env.get? x = none := by simpa [NameMap.contains] using hnot
    split at h
    · cases h
    · next hdeclare =>
      cases h
      simp only [Environment.declare, if_neg hnot, Environment.bind] at hdeclare
      split at hdeclare <;> cases hdeclare
      refine Or.inr ⟨by simp, ?_⟩
      simp [hnone]

/-- A step that takes a `clear` and succeeds has cleared the variable. -/
theorem clear_of_step {h : Host σ} {run : Runner σ} {m m' : Machine} {s : Statement}
    {w w' : World σ} (hs : m.next? = some s) (hk : s.keyword? = some .clear)
    (hstep : step h run m w = (.ok (.continued true), m', w')) :
    clear s.arguments m.env = (.ok (), m'.env) := by
  have hexec : execute h run (m.goto (m.pc + 1)) m.pc s w
      = (m.goto (m.pc + 1)).inContext
          (Context.withEnv m.toContext w (clear s.arguments m.env)) := by
    simp only [execute, hk, Context.execute]
    rfl
  rcases hclear : clear s.arguments m.env with ⟨e | ⟨⟩, env⟩
  · -- Whether the error is reported or ends the run, the step does not succeed.
    by_cases hrec : e.isRecoverable = true <;>
      simp [step, hs, hexec, hclear, Context.withEnv, inContext, Outcome.raise, Context.settle,
        hrec] at hstep
  · rw [hclear] at hexec
    rw [step_of_execute hs hexec] at hstep
    cases hstep
    rfl

end Machine

/-! ### Guards with a zero -/

/-- A number is no name, so the guard compares a variable with the whole number zero. -/
theorem Guard.resolve_zero {env : Environment} (henv : env.Named) {x word : String} {v : Value}
    (hx : env.get? x = some v) (hword : word ≠ "not") (operation : String) (rest : List String) :
    ∃ g, resolve operation (x :: word :: "0" :: rest) env = .ok g ∧
      g.holds env = v.same (.int 0) := by
  have hzero : env.contains "0" = false := by
    refine eq_false_of_ne_true ?_
    intro hin
    exact absurd (henv "0" hin) (by decide +kernel)
  have hin : env.contains x = true := by
    rw [NameMap.contains, hx]
    rfl
  have hparse : Value.parse "0" = .int 0 := by decide +kernel
  have hpolarity : Polarity.ofWord word = .equals := if_neg hword
  refine ⟨⟨.named x, .literal (.int 0), .equals⟩, ?_, ?_⟩
  · simp only [resolve, Operand.resolve, hin, hzero, hparse, hpolarity]
    rfl
  · simp only [holds, Operand.value?, hx, sameValue]

/-! ### Loops and branches whose guard holds -/

namespace Machine

variable {h : Host σ} {m : Machine} {s : Statement} {g : Guard} {e : Nat}

/-- A loop whose guard holds is passed over. -/
theorem step_loop_skip (run : Runner σ) (w : World σ) (hs : m.next? = some s)
    (hk : s.keyword? = some .whileLoop) (hblock : m.program.blockEnd? m.pc = some e)
    (hg : Guard.resolve Keyword.whileLoop.word s.arguments m.env = .ok g)
    (hholds : g.holds m.env = true) :
    step h run m w = (.ok (.continued true), m.goto (e + 1), w) := by
  have hblock : (m.goto (m.pc + 1)).program.blockEnd? m.pc = some e := hblock
  have hg : Guard.resolve Keyword.whileLoop.word s.arguments (m.goto (m.pc + 1)).env = .ok g := hg
  have hholds : g.holds (m.goto (m.pc + 1)).env = true := hholds
  have hexec : execute h run (m.goto (m.pc + 1)) m.pc s w = (.ok true, m.goto (e + 1), w) := by
    simp only [execute, hk, enterLoop, hblock, hg, hholds]
    rfl
  have hopens : s.opensBlock = true := by simp [Statement.opensBlock, hk, Keyword.opensBlock]
  rw [step_of_execute hs hexec, Context.publishAfter, hopens]
  rfl

/-- An `if` whose guard holds runs its block. -/
theorem execute_if_of_holds (hk : s.keyword? = some .ifBranch)
    (hallowed : (m.scope.isMain || h.settings.conditionalsInFunctions) = true) {a : Nat}
    (hblock : m.program.blockEnd? a = some e)
    (hg : Guard.resolve s.operation s.arguments m.env = .ok g) (hholds : g.holds m.env = true) :
    ∃ rest, ∀ (run : Runner σ) (w : World σ),
      execute h run m a s w = leaveBlock e rest (run e (m.goto (a + 1)) w) := by
  have htaken : Link.taken ⟨a, s, some e⟩ m.env = .ok true := by
    simp [Link.taken, hk, hg, hholds]
  obtain ⟨rest, hchain⟩ : ∃ rest, chain m.program a s = ⟨a, s, some e⟩ :: rest := by
    unfold chain
    rw [links, hblock]
    exact ⟨_, rfl⟩
  have hentered : entered? (chain m.program a s) m.env = some (⟨a, s, some e⟩, e, rest) := by
    simp only [hchain, entered?, htaken]
  refine ⟨rest, ?_⟩
  intro run w
  simp only [execute, hk, branch, if_pos hallowed]
  exact runChain_of_entered hentered

/-- Where all variables have names of variables, `clear x` makes the guard `x = 0` hold just if `x`
was no double.  If it was none, a `while` with that guard that stands next is passed over, and an
`if` with it, where conditionals are allowed, runs its block. -/
theorem clear_means_zero_for_guards (h : Host σ) (run : Runner σ) (m m' : Machine) (w w' : World σ)
    (s : Statement) (x : String) (hm : m.env.Named) (hs : m.next? = some s)
    (hk : s.keyword? = some .clear) (hx : s.arguments.head? = some x)
    (hstep : step h run m w = (.ok (.continued true), m', w')) :
    (∀ operation word rest, word ≠ "not" →
        ∃ g, Guard.resolve operation (x :: word :: "0" :: rest) m'.env = .ok g ∧
          (g.holds m'.env = true ↔ ∀ y, m.env.get? x ≠ some (.float y))) ∧
      ((∀ y, m.env.get? x ≠ some (.float y)) → ∀ s' e word rest, m'.next? = some s' →
        m'.program.blockEnd? m'.pc = some e → word ≠ "not" →
        s'.arguments = x :: word :: "0" :: rest →
        (s'.keyword? = some .whileLoop → ∀ run' : Runner σ,
            step h run' m' w' = (.ok (.continued true), m'.goto (e + 1), w')) ∧
          (s'.keyword? = some .ifBranch →
            (m'.scope.isMain || h.settings.conditionalsInFunctions) = true →
            ∃ ls, ∀ run' : Runner σ, execute h run' (m'.goto (m'.pc + 1)) m'.pc s' w' =
              leaveBlock e ls (run' e (m'.goto (m'.pc + 1)) w'))) := by
  have hclear : clear s.arguments m.env = (.ok (), m'.env) := clear_of_step hs hk hstep
  have hm' : m'.env.Named := by
    obtain ⟨name, -, hwrites⟩ := (clear_spec s.arguments m.env).change hclear
    exact hm.writes hwrites
  have hguard : ∀ operation word rest, word ≠ "not" →
      ∃ g, Guard.resolve operation (x :: word :: "0" :: rest) m'.env = .ok g ∧
        (g.holds m'.env = true ↔ ∀ y, m.env.get? x ≠ some (.float y)) := by
    intro operation word rest hword
    rcases clear_eq_ok hx hclear with ⟨hzero, y, hy⟩ | ⟨hzero, hnot⟩
    · obtain ⟨g, hg, hholds⟩ := Guard.resolve_zero hm' hzero hword operation rest
      refine ⟨g, hg, ?_⟩
      rw [hholds]
      exact iff_of_false Bool.false_ne_true fun hnot => hnot y hy
    · obtain ⟨g, hg, hholds⟩ := Guard.resolve_zero hm' hzero hword operation rest
      refine ⟨g, hg, ?_⟩
      rw [hholds]
      exact iff_of_true (by decide) hnot
  refine ⟨hguard, ?_⟩
  intro hnot s' e word rest hs' hblock hword hargs
  constructor
  · intro hwhile run'
    obtain ⟨g, hg, hholds⟩ := hguard Keyword.whileLoop.word word rest hword
    rw [← hargs] at hg
    exact step_loop_skip run' w' hs' hwhile hblock hg (hholds.2 hnot)
  · intro hif hallowed
    obtain ⟨g, hg, hholds⟩ := hguard s'.operation word rest hword
    rw [← hargs] at hg
    obtain ⟨ls, hexec⟩ := execute_if_of_holds (h := h) (m := m'.goto (m'.pc + 1)) hif hallowed
      hblock hg (hholds.2 hnot)
    exact ⟨ls, fun run' => hexec run' w'⟩

/-- A whole number is cleared, and the loop behind that waits for zero is passed over. -/
theorem clear_means_zero_for_guards_of_int :
    let p := Program.ofStatements [⟨"clear", ["x"], "clear x", 1⟩,
      ⟨"while", ["x", "to", "0"], "while x to 0", 2⟩, ⟨"decr", ["x"], "decr x", 3⟩,
      ⟨"end", [], "end", 4⟩]
    let m : Machine := { program := p, env := (∅ : Environment).insert "x" (.int 7) }
    let h : Host Unit := ⟨{}, fun _ u => (.error (.unknownFunction ""), u)⟩
    let w : World Unit := { state := () }
    m.env.Named ∧ ∃ m', step h (Machine.run h 9) m w = (.ok (.continued true), m', w) ∧
      m'.pc = 1 ∧
      (∃ g, Guard.resolve "if" ["x", "=", "0"] m'.env = .ok g ∧ g.holds m'.env = true) ∧
      step h (Machine.run h 9) m' w = (.ok (.continued true), m'.goto 4, w) := by
  intro p m h w
  have hnamed : m.env.Named :=
    Environment.named_empty.writes ⟨.int 7, rfl, Or.inr (by decide +kernel)⟩
  have hnot : ∀ y, m.env.get? "x" ≠ some (.float y) := by
    intro y hy
    cases hy
  obtain ⟨hguard, hnext⟩ := clear_means_zero_for_guards h (Machine.run h 9) m _ w _
    ⟨"clear", ["x"], "clear x", 1⟩ "x" hnamed rfl rfl rfl rfl
  obtain ⟨g, hg, hholds⟩ := hguard "if" "=" [] (by decide)
  obtain ⟨hskip, -⟩ := hnext hnot ⟨"while", ["x", "to", "0"], "while x to 0", 2⟩ 3 "to" [] rfl rfl
    (by decide) rfl
  exact ⟨hnamed, _, rfl, rfl, ⟨g, hg, hholds.2 hnot⟩, hskip rfl _⟩

/-- A double is cleared, and the loop behind that waits for zero is entered. -/
theorem clear_of_double_does_not_match_zero :
    let p := Program.ofStatements [⟨"clear", ["x"], "clear x", 1⟩,
      ⟨"while", ["x", "to", "0"], "while x to 0", 2⟩, ⟨"decr", ["x"], "decr x", 3⟩,
      ⟨"end", [], "end", 4⟩]
    let m : Machine := { program := p, env := (∅ : Environment).insert "x" (.float 1.5) }
    let h : Host Unit := ⟨{}, fun _ u => (.error (.unknownFunction ""), u)⟩
    let w : World Unit := { state := () }
    m.env.Named ∧ ∃ m', step h (Machine.run h 9) m w = (.ok (.continued true), m', w) ∧
      m'.env.get? "x" = some (.float 0.0) ∧
      (∃ g, Guard.resolve "if" ["x", "=", "0"] m'.env = .ok g ∧ g.holds m'.env = false) ∧
      (step h (Machine.run h 9) m' w).2.1.pc = 2 := by
  intro p m h w
  have hnamed : m.env.Named :=
    Environment.named_empty.writes ⟨.float 1.5, rfl, Or.inr (by decide +kernel)⟩
  exact ⟨hnamed, _, rfl, rfl, ⟨_, rfl, rfl⟩, rfl⟩

end Machine

end BareBones
