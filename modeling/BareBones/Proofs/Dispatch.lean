/-
Which statements a run takes.

A machine takes an `end` in two cases only: it closes the innermost loop that runs, or it closes
nothing.  The `end` of any other block is never taken.  A block of a chain is run up to its `end`
and left from there, and the body of a function is not run in place at all.

Two facts about the blocks around the machine carry the argument.  A loop around the machine is on
the stack, since no jump leads into a loop from outside.  And any other block around the machine
goes at least as far as the run does, since the machine came into it with the run of that block.
Both are about blocks around an address, and they are kept because every move leads to an address
with no new blocks around it.
-/
import BareBones.Proofs.Points

namespace BareBones

variable {σ : Type}

namespace Machine

/-- Every loop around the machine is running, and every other block around it goes as far as the
run does. -/
structure Confined (stop : Nat) (m : Machine) : Prop where
  outside : m.Outside
  running : ∀ o e s, m.program.Encloses o e m.pc → m.program.get? o = some s →
    s.keyword? = some .whileLoop → ∃ f ∈ m.loops, f.start = o
  bounded : ∀ o e s, m.program.Encloses o e m.pc → m.program.get? o = some s →
    s.keyword? ≠ some .whileLoop → stop ≤ e

theorem confined_start (c : Context Program) (p : Program) (stop : Nat) :
    Confined stop { toContext := c, program := p } := by
  refine ⟨outside_start c p, ?_, ?_⟩
  · intro o e s ho _ _
    exact absurd ho.behind (Nat.not_lt_zero o)
  · intro o e s ho _ _
    exact absurd ho.behind (Nat.not_lt_zero o)

variable {h : Host σ} {run : Runner σ} {m m' : Machine} {s : Statement} {w w' : World σ}
  {r : Outcome Failure Bool} {stop : Nat}

/-- A machine stays confined if no new blocks come around it, and the loops around it stay on the
stack. -/
theorem Confined.move (hm : Confined stop m) (hout : m'.Outside) (hp : m'.program = m.program)
    (hback : ∀ o e, m.program.Encloses o e m'.pc → m.program.Encloses o e m.pc)
    (hloops : ∀ f ∈ m.loops, m.program.Encloses f.start f.stop m'.pc →
      ∃ g ∈ m'.loops, g.start = f.start) : Confined stop m' := by
  refine ⟨hout, ?_, ?_⟩
  · intro o e s ho hs hk
    rw [hp] at ho hs
    obtain ⟨f, hf, rfl⟩ := hm.running o e s (hback o e ho) hs hk
    have hblock := hm.outside.loops.block f hf
    have hstop : f.stop = e := by
      rw [ho.block] at hblock
      exact (Option.some.inj hblock).symm
    rw [← hstop] at ho
    exact hloops f hf ho
  · intro o e s ho hs hk
    rw [hp] at ho hs
    exact hm.bounded o e s (hback o e ho) hs hk

/-- Behind a statement that opens no block there are no new blocks around the machine. -/
theorem encloses_of_next {p : Program} {a o e : Nat} (hs : p.get? a = some s)
    (hopens : s.opensBlock = false) (ho : p.Encloses o e (a + 1)) : p.Encloses o e a := by
  refine ho.pred ?_
  rintro rfl
  obtain ⟨s', hs', hopens', -⟩ := Program.blockEnd?_eq_some_iff.1 ho.block
  rw [hs] at hs'
  cases hs'
  rw [hopens] at hopens'
  cases hopens'

theorem opensBlock_of_keyword {k : Keyword} (hk : s.keyword? = some k) :
    s.opensBlock = k.opensBlock := by
  simp [Statement.opensBlock, hk]

/-! ### Loops -/

theorem Confined.enterLoop (hm : Confined stop m) (hs : m.next? = some s)
    (hk : s.keyword? = some .whileLoop) (hout : m'.Outside)
    (hx : EntersLoop (m.goto (m.pc + 1)) m.pc s.arguments m') : Confined stop m' := by
  cases hx with
  | past hblock =>
      exact hm.move hout rfl (fun _ _ ho => ho.of_behind hblock) (fun f hf _ => ⟨f, hf, rfl⟩)
  | @inside e g hblock =>
      -- The loop is new around the machine, and new on the stack.
      refine ⟨hout, ?_, ?_⟩
      · intro o e' s' ho hs' hk'
        by_cases hopener : o = m.pc
        · exact ⟨⟨g, m.pc, e⟩, List.mem_cons_self, hopener.symm⟩
        · obtain ⟨f, hf, hstart⟩ := hm.running o e' s' (ho.pred hopener) hs' hk'
          exact ⟨f, List.mem_cons_of_mem _ hf, hstart⟩
      · intro o e' s' ho hs' hk'
        refine hm.bounded o e' s' (ho.pred ?_) hs' hk'
        rintro rfl
        have heq : some s = some s' := hs.symm.trans hs'
        cases heq
        exact hk' hk

/-- An `end` leads behind it, or it takes the innermost loop off the stack and leads behind it or
to the start of that loop. -/
theorem closeBlock_cases (m : Machine) (a : Nat) :
    closeBlock (m.goto (a + 1)) a = m.goto (a + 1) ∨
      ∃ f loops, m.loops = f :: loops ∧ f.stop = a ∧
        (closeBlock (m.goto (a + 1)) a = { m with loops := loops, pc := a + 1 } ∨
          closeBlock (m.goto (a + 1)) a = { m with loops := loops, pc := f.start }) := by
  unfold closeBlock
  rw [show (m.goto (a + 1)).loops = m.loops from rfl]
  cases m.loops with
  | nil => exact Or.inl rfl
  | cons f loops =>
      by_cases hstop : f.stop = a
      · refine Or.inr ⟨f, loops, rfl, hstop, ?_⟩
        simp only [if_pos hstop]
        split
        · exact Or.inl rfl
        · exact Or.inr rfl
      · left
        simp only [if_neg hstop]

theorem Confined.closeBlock (hm : Confined stop m) (hs : m.next? = some s)
    (hk : s.keyword? = some .endBlock)
    (hout : (Machine.closeBlock (m.goto (m.pc + 1)) m.pc).Outside) :
    Confined stop (Machine.closeBlock (m.goto (m.pc + 1)) m.pc) := by
  have hnext : ∀ o e, m.program.Encloses o e (m.pc + 1) → m.program.Encloses o e m.pc :=
    fun _ _ => encloses_of_next hs (opensBlock_of_keyword hk)
  rcases closeBlock_cases m m.pc with hx | ⟨f, loops, hloops, hstop, hx | hx⟩
  · rw [hx] at hout ⊢
    exact hm.move hout rfl hnext (fun f hf _ => ⟨f, hf, rfl⟩)
  · rw [hx] at hout ⊢
    refine hm.move hout rfl hnext ?_
    intro g hg hgo
    rw [hloops] at hg
    rcases List.mem_cons.1 hg with rfl | hg
    · have hupto : m.pc + 1 ≤ g.stop := hgo.upto
      omega
    · exact ⟨g, hg, rfl⟩
  · rw [hx] at hout ⊢
    have hblock := hm.outside.loops.block f (by rw [hloops]; exact List.mem_cons_self)
    rw [hstop] at hblock
    refine hm.move hout rfl (fun _ _ ho => ho.of_opener hblock) ?_
    intro g hg hgo
    rw [hloops] at hg
    rcases List.mem_cons.1 hg with rfl | hg
    · exact absurd hgo.behind (Nat.lt_irrefl _)
    · exact ⟨g, hg, rfl⟩

/-! ### Chains -/

/-- What the links of a chain are. -/
theorem IsChain.of_mem {p : Program} {o : Nat} {ls : List Link} (hls : IsChain p o ls) :
    ∀ l ∈ ls, p.get? l.opener = some l.statement ∧ l.statement.keyword? ≠ some .whileLoop ∧
      p.blockEnd? l.opener = l.stop := by
  induction hls with
  | unclosed hs ho hw hstop =>
      intro l hl
      cases List.mem_singleton.1 hl
      exact ⟨hs, hw, hstop⟩
  | last hs ho hw hstop =>
      intro l hl
      cases List.mem_singleton.1 hl
      exact ⟨hs, hw, hstop⟩
  | link hs ho hw hstop hrest ih =>
      intro l hl
      rcases List.mem_cons.1 hl with rfl | hl
      · exact ⟨hs, hw, hstop⟩
      · exact ih l hl

/-- What is around a link is around the whole chain. -/
theorem IsChain.encloses_of_mem {p : Program} {a o e : Nat} {l : Link} {ls : List Link}
    (hls : IsChain p a ls) (hl : l ∈ ls) (ho : p.Encloses o e l.opener) : p.Encloses o e a := by
  refine hls.behind_mem (P := fun b => p.Encloses o e b → p.Encloses o e a) ?_ id l hl ho
  intro o' e' hback hstop ho'
  exact hback (ho'.of_behind hstop)

/-- A machine that enters a block of a chain has its stack in order, and the loops that run go on
behind the block. -/
theorem LoopsOK.enterBlock (hm : m.LoopsOK) (hs : m.next? = some s)
    (hk : s.keyword? = some .ifBranch) {l : Link} {e : Nat} (hl : l ∈ chain m.program m.pc s)
    (hstop : l.stop = some e) :
    (m.goto (l.opener + 1)).LoopsOK ∧
      ∀ f ∈ m.loops, m.program.Encloses f.start f.stop l.opener ∧ e < f.stop := by
  have hclose := closesBlock_of_keyword hk (by simp)
  have hchain := isChain_chain hs hk
  obtain ⟨haround, hlt⟩ := hchain.mem_around (.refl _ _) l hl
  have hkeeps : Keeps m.program m.pc (m.goto (l.opener + 1)) :=
    hm.keeps hs hclose rfl rfl (.refl _) haround hlt rfl
  refine ⟨hkeeps.ok, ?_⟩
  intro f hf
  obtain ⟨-, -, hblock⟩ := hchain.of_mem l hl
  rw [hstop] at hblock
  have hfblock := hm.block f hf
  obtain ⟨hstart, hend⟩ := hm.around rfl hs hclose hf
  obtain ⟨hbehind, hupto⟩ := haround f.start f.stop hfblock hstart hend
  have hencloses : m.program.Encloses f.start f.stop l.opener :=
    ⟨hfblock, hbehind, Nat.le_of_lt hupto⟩
  exact ⟨hencloses, hencloses.stop hblock⟩

/-- A machine that enters a block of a chain is confined to the run of the block. -/
theorem Confined.enterBlock (hm : Confined stop m) (hs : m.next? = some s)
    (hk : s.keyword? = some .ifBranch) {l : Link} {e : Nat}
    (hl : l ∈ chain m.program m.pc s) (hstop : l.stop = some e) :
    Confined e (m.goto (l.opener + 1)) := by
  have hchain := isChain_chain hs hk
  obtain ⟨hget, hwhile, hblock⟩ := hchain.of_mem l hl
  rw [hstop] at hblock
  have hfunc : l.statement.keyword? ≠ some .func := by
    refine keyword?_of_mem_links _ ?_ l hl
    rw [hk]
    simp
  have hout : ¬ m.program.InFunction (l.opener + 1) := by
    refine Program.not_inFunction_succ ?_ hget hfunc
    exact hchain.behind_mem (P := fun a => ¬ m.program.InFunction a)
      (fun _ _ => Program.not_inFunction_behind) hm.outside.out l hl
  refine ⟨⟨(hm.outside.loops.enterBlock hs hk hl hstop).1, hout⟩, ?_, ?_⟩
  · intro o' e' s' ho hs' hk'
    have hne : o' ≠ l.opener := by
      rintro rfl
      have heq : some l.statement = some s' := hget.symm.trans hs'
      cases heq
      exact hwhile hk'
    exact hm.running o' e' s' (hchain.encloses_of_mem hl (ho.pred hne)) hs' hk'
  · intro o' e' s' ho hs' hk'
    by_cases hne : o' = l.opener
    · have hblock' := ho.block
      rw [hne] at hblock'
      have heq : some e = some e' := hblock.symm.trans hblock'
      cases heq
      exact Nat.le_refl e
    · exact Nat.le_of_lt ((ho.pred hne).stop hblock)

/-- A run from a confined machine ends with a confined machine, if it goes through. -/
def RunnerConfines (run : Runner σ) : Prop :=
  ∀ ⦃stop : Nat⦄ ⦃m m' : Machine⦄ ⦃w w' : World σ⦄ ⦃ok : Bool⦄,
    Confined stop m → run stop m w = (.ok ok, m', w') → Confined stop m'

/-- The loops around a chain are still on the stack when one of its blocks has run. -/
theorem Confined.runs_block (hm : Confined stop m) (hrun : RunnerKeeps run)
    (hconfines : RunnerConfines run) (hs : m.next? = some s) (hk : s.keyword? = some .ifBranch)
    {l : Link} {e : Nat} {ok : Bool} (hl : l ∈ chain m.program m.pc s) (hstop : l.stop = some e)
    (hx : run e (m.goto (l.opener + 1)) w = (.ok ok, m', w')) {f : LoopFrame}
    (hf : f ∈ m.loops) : ∃ g ∈ m'.loops, g.start = f.start := by
  have hchain := isChain_chain hs hk
  obtain ⟨-, -, hblock⟩ := hchain.of_mem l hl
  rw [hstop] at hblock
  have hlt := Program.blockEnd?_lt hblock
  have henter := hm.enterBlock hs hk hl hstop
  obtain ⟨hp, -, -, -, hdone⟩ := hrun henter.outside.loops hblock (Nat.lt_succ_self _) hlt hx
  obtain ⟨haround, -⟩ := (hm.outside.loops.enterBlock hs hk hl hstop).2 f hf
  obtain ⟨s', hs', hk'⟩ := hm.outside.loops.loop f hf
  refine (hconfines henter hx).running f.start f.stop s' ?_ ?_ hk'
  · rw [hp, hdone ok rfl]
    exact haround.of_opener hblock
  · rw [hp]
    exact hs'

/-- Behind a chain there are the loops that there were before it, or those that one of its blocks
has left. -/
theorem loops_runChain {ls : List Link} (hgo : GoesOn r)
    (hx : Machine.runChain run ls m w = (r, m', w')) :
    m'.loops = m.loops ∨ ∃ l e ok m₁ w₁, l ∈ ls ∧ l.stop = some e ∧
      run e (m.goto (l.opener + 1)) w = (.ok ok, m₁, w₁) ∧ m'.loops = m₁.loops := by
  cases hl : entered? ls m.env with
  | none =>
      obtain ⟨r', a, -, hnone⟩ := runChain_of_not_entered (σ := σ) hl
      rw [hnone] at hx
      cases hx
      exact Or.inl rfl
  | some entered =>
      obtain ⟨l, e, rest⟩ := entered
      obtain ⟨hmem, hstop⟩ := mem_of_entered? hl
      rw [runChain_of_entered hl] at hx
      rcases hbody : run e (m.goto (l.opener + 1)) w with ⟨ok | err | _, m₁, w₁⟩
      · refine Or.inr ⟨l, e, ok, m₁, w₁, hmem, hstop, hbody, ?_⟩
        have hpassed := passOver_goto rest (m₁.leave e rest)
        rw [hbody, leaveBlock] at hx
        rcases hpass : passOver rest (m₁.leave e rest) with ⟨rp, m₂⟩
        rw [hpass] at hpassed hx
        have hloops : m₂.loops = m₁.loops := by
          rw [show m₂ = (m₁.leave e rest).goto m₂.pc from hpassed]
          rfl
        cases rp <;> cases hx <;> exact hloops
      · rw [hbody] at hx
        cases hx
        exact hgo.elim
      · rw [hbody] at hx
        cases hx
        exact hgo.elim

theorem Confined.runChain (hm : Confined stop m) (hrun : RunnerKeeps run)
    (hconfines : RunnerConfines run) (hs : m.next? = some s) (hk : s.keyword? = some .ifBranch)
    (hp : m'.program = m.program) (hout : m'.Outside) (hgo : GoesOn r)
    (hx : Machine.runChain run (chain m.program m.pc s) (m.goto (m.pc + 1)) w = (r, m', w')) :
    Confined stop m' := by
  have hback : ∀ o e, m.program.Encloses o e m'.pc → m.program.Encloses o e m.pc := by
    obtain ⟨o, e, hback, hblock, hpc⟩ := (isChain_chain hs hk).behind_runChain
      (P := fun a => ∀ o' e', m.program.Encloses o' e' a → m.program.Encloses o' e' m.pc)
      (fun _ _ hback hstop o' e' ho => hback o' e' (ho.of_behind hstop)) hgo (fun _ _ ho => ho) hx
    rw [hpc]
    exact fun o' e' ho => hback o' e' (ho.of_behind hblock)
  refine hm.move hout hp hback ?_
  intro f hf _
  rcases loops_runChain hgo hx with hloops | ⟨l, e, ok, m₁, w₁, hl, hstop, hbody, hloops⟩
  · rw [hloops]
    exact ⟨f, hf, rfl⟩
  · rw [hloops]
    exact hm.runs_block hrun hconfines hs hk hl hstop hbody hf

/-! ### Statements, steps and runs -/

theorem Confined.defineFunction (hm : Confined stop m) (hout : m'.Outside)
    (hx : DefinesFunction (m.goto (m.pc + 1)) m.pc s m') : Confined stop m' := by
  obtain ⟨-, hblock, -⟩ := hx
  exact hm.move hout rfl (fun _ _ ho => ho.of_behind hblock) (fun f hf _ => ⟨f, hf, rfl⟩)

/-- A statement that lets the run go on leaves the machine confined. -/
theorem Confined.proceeds (hm : Confined stop m) (hrun : RunnerKeeps run)
    (hconfines : RunnerConfines run) (hs : m.next? = some s)
    (hp : m'.program = m.program) (hout : m'.Outside) (hgo : GoesOn r)
    (hx : Proceeds run m s w r m' w') : Confined stop m' := by
  cases hx with
  | loop hk hx => exact hm.enterLoop hs hk hout hx
  | close hk hx =>
      rw [hx] at hout ⊢
      exact hm.closeBlock hs hk hout
  | chain hk hx => exact hm.runChain hrun hconfines hs hk hp hout hgo hx
  | func hk hx => exact hm.defineFunction hout hx
  | plain hopens hcloses hw hx =>
      subst hx
      exact hm.move hout rfl (fun _ _ => encloses_of_next hs hopens) (fun f hf _ => ⟨f, hf, rfl⟩)

/-- A step after which the run goes on leaves the machine confined. -/
theorem Confined.step {ok : Bool} (hm : Confined stop m) (hrun : RunnerKeeps run)
    (hconfines : RunnerConfines run)
    (hx : Machine.step h run m w = (.ok (.continued ok), m', w')) : Confined stop m' := by
  obtain ⟨hp, hout⟩ := hm.outside.step hrun hx
  obtain ⟨s, r, w₁, hs, hgo, hproceeds⟩ := proceeds_of_step hx
  exact hm.proceeds hrun hconfines hs hp hout hgo hproceeds

theorem confined_runFrom (h : Host σ) : ∀ (n : Nat) {stop : Nat} {ok ok' : Bool} {m m' : Machine}
    {w w' : World σ}, Confined stop m → runFrom h n ok stop m w = (.ok ok', m', w') →
    Confined stop m' := by
  intro n
  induction n with
  | zero =>
      intro stop ok ok' m m' w w' hm hx
      cases hx
  | succ n ih =>
      intro stop ok ok' m m' w w' hm hx
      have hconfines : RunnerConfines (Machine.run h n) := fun _ _ _ _ _ _ hm hx => ih hm hx
      rw [runFrom_succ] at hx
      split at hx
      · rcases hstep : Machine.step h (Machine.run h n) m w with ⟨rs, m₁, w₁⟩
        rw [hstep] at hx
        rcases rs with (ok₁ | _) | e | _
        · exact ih (hm.step (runsKeep h n).runner hconfines hstep) hx
        · cases hs : m.next? with
          | none =>
              simp only [Machine.step, hs] at hstep
              cases hstep
              cases hx
              exact hm
          | some s => exact absurd (by rw [hstep]) (step_ne_done (h := h) (w := w) hs)
        · cases hx
        · cases hx
      · cases hx
        exact hm

theorem run_confines (h : Host σ) (n : Nat) : RunnerConfines (Machine.run h n) :=
  fun _ _ _ _ _ _ hm hx => confined_runFrom h n hm hx

/-- The block that ends where a confined run takes a statement is the innermost loop. -/
theorem Confined.innermost (hm : Confined stop m) (hpc : m.pc < stop) {o : Nat}
    (hblock : m.program.blockEnd? o = some m.pc) :
    ∃ f loops, m.loops = f :: loops ∧ f.start = o ∧ f.stop = m.pc := by
  obtain ⟨t, ht, -, -⟩ := Program.blockEnd?_eq_some_iff.1 hblock
  have henclosed : m.program.Encloses o m.pc m.pc :=
    ⟨hblock, Program.blockEnd?_lt hblock, Nat.le_refl _⟩
  by_cases hk : t.keyword? = some .whileLoop
  · obtain ⟨f, hf, rfl⟩ := hm.running o m.pc t henclosed ht hk
    have hstop : f.stop = m.pc := by
      have hfblock := hm.outside.loops.block f hf
      rw [hblock] at hfblock
      exact (Option.some.inj hfblock).symm
    cases hloops : m.loops with
    | nil =>
        rw [hloops] at hf
        exact absurd hf List.not_mem_nil
    | cons g loops =>
        have hinside := (hm.outside.loops.inside g (by rw [hloops]; exact List.mem_cons_self)).2
        have hnested := hm.outside.loops.nested
        rw [hloops] at hf hnested
        rcases List.mem_cons.1 hf with rfl | hf
        · exact ⟨f, loops, rfl, rfl, hstop⟩
        · -- A loop inside this one would have ended before.
          have hlt := ((List.pairwise_cons.1 hnested).1 f hf).2
          omega
  · have hbound := hm.bounded o m.pc t henclosed ht hk
    omega

end Machine

/-! ### All points of a run -/

namespace Point

open Machine

variable {h : Host σ} {x y : Point σ}

/-- All machines of a run are confined to their runs. -/
theorem Reaches.confined (hxy : Reaches h x y) (hx : Confined x.stop x.machine) :
    Confined y.stop y.machine := by
  refine hxy.invariant (I := fun x => Confined x.stop x.machine) hx ?_
  intro y z hy hyz
  cases hyz with
  | inside hs hn =>
      rcases nested?_cases hn with ⟨hk, l, stop, rest, hl, rfl⟩ | ⟨name, args, p, c, -, -, rfl⟩
      · obtain ⟨hmem, hstop⟩ := mem_of_entered? hl
        exact hy.enterBlock hs.2 hk hmem hstop
      · exact confined_start c p p.size
  | turn hs hstep => exact hy.step (runsKeep h _).runner (run_confines h _) hstep

/-- Every statement that a run takes, be it in the program itself, in a block or in a call, stands
outside of the functions of the program that it is in.  If it is an `end`, then it closes the
innermost loop that runs at that moment, or it closes nothing.  So the `end` of an `if`, `elif`,
`else` or `func` is never taken. -/
theorem dispatches_only_loop_ends (h : Host σ) (c : Context Program) (p : Program) (w : World σ)
    (x : Point σ) (hx : Reaches h (start c p w) x) (s : Statement) (hs : x.Dispatches s) :
    ¬ x.machine.program.InFunction x.machine.pc ∧
    (s.keyword? = some .endBlock →
      (∃ f loops t, x.machine.loops = f :: loops ∧ f.stop = x.machine.pc ∧
        x.machine.program.blockEnd? f.start = some x.machine.pc ∧
        x.machine.program.get? f.start = some t ∧ t.keyword? = some .whileLoop) ∨
      ∀ o, x.machine.program.blockEnd? o ≠ some x.machine.pc) ∧
    ∀ o t, x.machine.program.get? o = some t →
      t.keyword? ∈ [some .ifBranch, some .elifBranch, some .elseBranch, some .func] →
      x.machine.program.blockEnd? o ≠ some x.machine.pc := by
  have hconfined : Confined x.stop x.machine := hx.confined (confined_start c p p.size)
  refine ⟨hconfined.outside.out, ?_, ?_⟩
  · intro _
    by_cases hpaired : ∃ o, x.machine.program.blockEnd? o = some x.machine.pc
    · obtain ⟨o, hblock⟩ := hpaired
      obtain ⟨f, loops, hloops, rfl, hstop⟩ := hconfined.innermost hs.1 hblock
      have hf : f ∈ x.machine.loops := by
        rw [hloops]
        exact List.mem_cons_self
      obtain ⟨t, ht, hk⟩ := hconfined.outside.loops.loop f hf
      exact Or.inl ⟨f, loops, t, hloops, hstop, hblock, ht, hk⟩
    · exact Or.inr (not_exists.1 hpaired)
  · intro o t ht hk hblock
    obtain ⟨f, loops, hloops, rfl, -⟩ := hconfined.innermost hs.1 hblock
    have hf : f ∈ x.machine.loops := by
      rw [hloops]
      exact List.mem_cons_self
    obtain ⟨t', ht', hk'⟩ := hconfined.outside.loops.loop f hf
    rw [ht] at ht'
    cases ht'
    rw [hk'] at hk
    simp at hk

/-- A chain inside a loop has run one of its blocks, and the next statement is the `end` of the
loop. -/
theorem dispatches_only_loop_ends_behind_chain :
    let statement operation arguments : Statement := ⟨operation, arguments, operation, 1⟩
    let p := Program.ofStatements [statement "func" ["F"], statement "end" [],
      statement "while" ["x", "is", "0", "do"], statement "if" ["x", "is", "2"],
      statement "end" [], statement "else" [], statement "decr" ["x"], statement "end" [],
      statement "end" []]
    let c : Context Program := { env := (∅ : Environment).insert "x" (.int 1) }
    let h : Host Unit := ⟨{}, fun _ u => (.error (.unknownFunction ""), u)⟩
    ∃ x : Point Unit, Reaches h (start c p { state := () }) x ∧ x.machine.pc = 8 ∧
      x.Dispatches (statement "end" []) ∧
      ∃ f loops t, x.machine.loops = f :: loops ∧ f.stop = 8 ∧
        x.machine.program.blockEnd? f.start = some 8 ∧
        x.machine.program.get? f.start = some t ∧ t.keyword? = some .whileLoop := by
  intro statement p c h
  have hdefined : Next h (start c p { state := () }) ((start c p { state := () }).after h 1) :=
    .after (s := statement "func" ["F"]) true
      ⟨by decide +kernel, by decide +kernel⟩ (by decide +kernel)
  have hentered : Next h _ (((start c p { state := () }).after h 1).after h 1) :=
    .after (s := statement "while" ["x", "is", "0", "do"]) true
      ⟨by decide +kernel, by decide +kernel⟩ (by decide +kernel)
  have hbranched : Next h _ ((((start c p { state := () }).after h 1).after h 1).after h 2) :=
    .after (s := statement "if" ["x", "is", "2"]) true
      ⟨by decide +kernel, by decide +kernel⟩ (by decide +kernel)
  have hreaches := ((Relation.ReflTransGen.single hdefined).tail hentered).tail hbranched
  have hpc : ((((start c p { state := () }).after h 1).after h 1).after h 2).machine.pc = 8 := by
    decide +kernel
  have hends : ((((start c p { state := () }).after h 1).after h 1).after h 2).Dispatches
      (statement "end" []) := ⟨by decide +kernel, by decide +kernel⟩
  obtain ⟨-, hend, -⟩ := dispatches_only_loop_ends h c p _ _ hreaches _ hends
  rw [hpc] at hend
  refine ⟨_, hreaches, hpc, hends, (hend (by decide)).resolve_right ?_⟩
  intro hunpaired
  exact hunpaired 2 (by decide +kernel)

end Point

end BareBones
