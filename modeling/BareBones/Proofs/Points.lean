/-
All points of a run.

A run stands at a point whenever a turn of it begins.  From there it leads to the first point of the
run inside the statement, if there is one, and to its own next point, if the statement is done and
lets the run go on.  What is reached in this way are the points of the run itself, of the blocks of
chains and of all calls, at any depth, also in a run that never ends.

Much of what is true at all points is about the program and its context only, and not about the
address or the loops.  Such a property is kept by everything that moves the machine, so there is
little to prove of it: that statements without blocks keep it, that definitions keep it, and that
calls start with it.
-/
import BareBones.Proofs.Nested
import Mathlib.Logic.Relation

namespace BareBones

variable {σ : Type}

/-- A run at the beginning of a turn. -/
structure Point (σ : Type) where
  /-- Where the run stops. -/
  stop : Nat
  machine : Machine
  world : World σ

namespace Point

open Machine

/-- Where the run of a program begins. -/
def start (c : Context Program) (p : Program) (w : World σ) : Point σ :=
  ⟨p.size, { toContext := c, program := p }, w⟩

/-- The turn that begins takes the statement. -/
def Dispatches (x : Point σ) (s : Statement) : Prop :=
  x.machine.pc < x.stop ∧ x.machine.next? = some s

/-- What a point leads to at once. -/
inductive Next (h : Host σ) : Point σ → Point σ → Prop
  | inside {x : Point σ} {s : Statement} {n : Nested σ} (hs : x.Dispatches s)
      (hn : nested? h (x.machine.goto (x.machine.pc + 1)) x.machine.pc s = some n) :
      Next h x ⟨n.stop, n.machine, x.world⟩
  | turn {x : Point σ} {s : Statement} {fuel : Nat} {ok : Bool} {m : Machine} {w : World σ}
      (hs : x.Dispatches s)
      (hx : step h (run h fuel) x.machine x.world = (.ok (.continued ok), m, w)) :
      Next h x ⟨x.stop, m, w⟩

/-- The second point is one of the run from the first on, or of a run inside. -/
def Reaches (h : Host σ) : Point σ → Point σ → Prop :=
  Relation.ReflTransGen (Next h)

/-- The point behind the step that a turn takes with some fuel. -/
def after (h : Host σ) (fuel : Nat) (x : Point σ) : Point σ :=
  ⟨x.stop, (step h (run h fuel) x.machine x.world).2.1,
    (step h (run h fuel) x.machine x.world).2.2⟩

/-- The run is at the point behind a step, if the step lets it go on. -/
theorem Next.after {h : Host σ} {x : Point σ} {s : Statement} {fuel : Nat} (ok : Bool)
    (hs : x.Dispatches s)
    (hx : (step h (run h fuel) x.machine x.world).1 = .ok (.continued ok)) :
    Next h x (x.after h fuel) :=
  .turn hs (Prod.ext hx rfl)

/-- The first point of the run inside the statement that a turn takes, if there is one. -/
def inside? (h : Host σ) (x : Point σ) (s : Statement) : Option (Point σ) :=
  (nested? h (x.machine.goto (x.machine.pc + 1)) x.machine.pc s).map fun n =>
    ⟨n.stop, n.machine, x.world⟩

theorem Next.get_inside {h : Host σ} {x : Point σ} {s : Statement} (hs : x.Dispatches s)
    (hx : (x.inside? h s).isSome = true) : Next h x ((x.inside? h s).get hx) := by
  obtain ⟨n, hn⟩ := Option.isSome_iff_exists.1 (Option.isSome_map.symm.trans hx)
  have heq : (x.inside? h s).get hx = ⟨n.stop, n.machine, x.world⟩ := by
    simp [inside?, hn]
  rw [heq]
  exact .inside hs hn

/-- Whatever is true at the start and stays true from each point to the next is true at all
points. -/
theorem Reaches.invariant {h : Host σ} {I : Point σ → Prop} {x y : Point σ} (hxy : Reaches h x y)
    (hx : I x) (hnext : ∀ y z, I y → Next h y z → I z) : I y := by
  induction hxy with
  | refl => exact hx
  | tail _ hyz ih => exact hnext _ _ ih hyz

end Point

/-! ### Properties of programs and their contexts -/

namespace Machine

variable {h : Host σ} {run : Runner σ} {m m' : Machine} {s : Statement} {w w' : World σ}
  {I : Program → Context Program → Prop}

/-- No statement of a program breaks the property. -/
structure Kept (I : Program → Context Program → Prop) : Prop where
  writes : ∀ {p : Program} {c c' : Context Program} {s : Statement},
    I p c → c.Writes s c' → I p c'
  define : ∀ {p : Program} {c : Context Program} {a stop : Nat} {s : Statement}
    {f : Function Program}, I p c → c.scope.isMain = true → p.get? a = some s →
    s.keyword? = some .func → p.blockEnd? a = some stop →
    Function.define s p a stop = .ok f →
    I p { c with functions := c.functions.insert f.name f }

/-- The second machine runs the same program, and the property is true of it. -/
def Keeping (I : Program → Context Program → Prop) (m m' : Machine) : Prop :=
  m'.program = m.program ∧ I m.program m'.toContext

/-- Running a part of a program keeps the property, however it ends. -/
def RunnerKept (I : Program → Context Program → Prop) (run : Runner σ) : Prop :=
  ∀ ⦃stop : Nat⦄ ⦃m m' : Machine⦄ ⦃w w' : World σ⦄ ⦃r : Outcome StatementError Bool⦄,
    I m.program m.toContext → run stop m w = (r, m', w') → Keeping I m m'

theorem Keeping.of_moves (hm : I m.program m.toContext) (hmoves : Moves m m') : Keeping I m m' := by
  refine ⟨hmoves.program, ?_⟩
  rw [hmoves.context]
  exact hm

theorem Keeping.trans {m'' : Machine} (h₁ : Keeping I m m') (h₂ : Keeping I m' m'') :
    Keeping I m m'' := by
  obtain ⟨hp₁, -⟩ := h₁
  obtain ⟨hp₂, hI⟩ := h₂
  rw [hp₁] at hp₂ hI
  exact ⟨hp₂, hI⟩

theorem leaveBlock_kept {stop : Nat} {rest : List Link} {r : Outcome Failure Bool}
    {x : Outcome StatementError Bool × Machine × World σ}
    (hkeeping : Keeping I m x.2.1) (hx : leaveBlock stop rest x = (r, m', w')) :
    Keeping I m m' := by
  obtain ⟨ok | e | _, m₁, w₁⟩ := x
  · have hpassed : Keeping I m₁ (passOver rest (m₁.leave stop rest)).2 := by
      have hmoves := passOver_moves rest (m₁.leave stop rest)
      obtain ⟨hp, hI⟩ := hkeeping
      refine .of_moves ?_ ⟨hmoves.context, hmoves.program⟩
      rw [hp]
      exact hI
    rcases hpass : passOver rest (m₁.leave stop rest) with ⟨rp, m₂⟩
    rw [hpass] at hpassed
    simp only [leaveBlock, hpass] at hx
    cases rp <;> cases hx <;> exact hkeeping.trans hpassed
  · cases hx
    exact hkeeping
  · cases hx
    exact hkeeping

theorem runChain_kept (hrun : RunnerKept I run) {ls : List Link} {r : Outcome Failure Bool}
    (hm : I m.program m.toContext) (hx : runChain run ls m w = (r, m', w')) : Keeping I m m' := by
  cases hl : entered? ls m.env with
  | none =>
      obtain ⟨r₁, a, -, hchain⟩ := runChain_of_not_entered (σ := σ) hl
      rw [hchain] at hx
      cases hx
      exact ⟨rfl, hm⟩
  | some entered =>
      obtain ⟨l, stop, rest⟩ := entered
      rw [runChain_of_entered hl] at hx
      exact leaveBlock_kept (hrun (m := m.goto (l.opener + 1)) hm rfl) hx

theorem defineFunction_kept (hI : Kept I) {a : Nat} (hm : I m.program m.toContext)
    (hs : m.program.get? a = some s) (hk : s.keyword? = some .func)
    (hx : DefinesFunction m a s m') : Keeping I m m' := by
  obtain ⟨hmain, hblock, hf⟩ := hx
  exact ⟨rfl, hI.define hm hmain hs hk hblock hf⟩

/-- A statement of the program keeps the property, however it ends. -/
theorem Kept.execute_kept (hI : Kept I) (hrun : RunnerKept I run) {a : Nat}
    {r : Outcome Failure Bool} (hm : I m.program m.toContext) (hs : m.program.get? a = some s)
    (hx : Machine.execute h run m a s w = (r, m', w')) : Keeping I m m' := by
  unfold Machine.execute at hx
  split at hx
  · exact after_moved hx (enterLoop_spec ..) ⟨rfl, hm⟩ (fun _ hc => .of_moves hm hc.moves)
  · cases hx
    exact .of_moves hm (closeBlock_moves m a)
  · unfold branch at hx
    split at hx
    · exact runChain_kept hrun hm hx
    · cases hx
      exact ⟨rfl, hm⟩
  · cases hx
    exact ⟨rfl, hm⟩
  · cases hx
    exact ⟨rfl, hm⟩
  · next hk =>
    exact after_moved hx (defineFunction_spec ..) ⟨rfl, hm⟩
      (fun _ => defineFunction_kept hI hm hs hk)
  · rcases hexec : m.toContext.execute h run.body s w with ⟨r₁, c', w₁⟩
    rw [hexec] at hx
    cases hx
    exact ⟨rfl, hI.writes hm (Context.execute_writes hexec)⟩

/-- A step keeps the property, however it ends. -/
theorem Kept.step (hI : Kept I) (hrun : RunnerKept I run) {r : Outcome StatementError Step}
    (hm : I m.program m.toContext) (hx : Machine.step h run m w = (r, m', w')) :
    Keeping I m m' := by
  cases hs : m.next? with
  | none =>
      simp only [Machine.step, hs] at hx
      cases hx
      exact ⟨rfl, hm⟩
  | some s =>
      rcases hexec : Machine.execute h run (m.goto (m.pc + 1)) m.pc s w with ⟨r₁, m₁, w₁⟩
      have hkeeping := hI.execute_kept (m := m.goto (m.pc + 1)) hrun hm hs hexec
      simp only [Machine.step, hs, hexec] at hx
      split at hx <;> cases hx <;> exact hkeeping

/-- A run keeps the property, however it ends. -/
theorem Kept.runFrom (hI : Kept I) : ∀ (n : Nat) {ok : Bool} {stop : Nat} {m m' : Machine}
    {w w' : World σ} {r : Outcome StatementError Bool}, I m.program m.toContext →
    Machine.runFrom h n ok stop m w = (r, m', w') → Keeping I m m' := by
  intro n
  induction n with
  | zero =>
      intro ok stop m m' w w' r hm hx
      cases hx
      exact ⟨rfl, hm⟩
  | succ n ih =>
      intro ok stop m m' w w' r hm hx
      rw [runFrom_succ] at hx
      split at hx
      · have hrun : RunnerKept I (Machine.run h n) := fun _ _ _ _ _ _ hm hx => ih hm hx
        rcases hstep : Machine.step h (Machine.run h n) m w with ⟨rs, m₁, w₁⟩
        have hkeeping := hI.step hrun hm hstep
        rw [hstep] at hx
        rcases rs with (ok' | _) | e | _
        · have hm₁ : I m₁.program m₁.toContext := by
            rw [hkeeping.1]
            exact hkeeping.2
          exact hkeeping.trans (ih hm₁ hx)
        · cases hx
          exact hkeeping
        · cases hx
          exact hkeeping
        · cases hx
          exact hkeeping
      · cases hx
        exact ⟨rfl, hm⟩

theorem Kept.runner (hI : Kept I) (n : Nat) : RunnerKept I (Machine.run h n) := by
  intro stop m m' w w' r hm hx
  exact hI.runFrom n hm hx

/-- A property that is kept, and with which calls start, is true at all points. -/
theorem Kept.reaches (hI : Kept I)
    (hcall : ∀ {p : Program} {c : Context Program} {name : String} {args : List String}
      {body : Program} {callee : Context Program},
      I p c → c.enter h name args = .ok (body, callee) → I body callee)
    {x y : Point σ} (hxy : Point.Reaches h x y) (hx : I x.machine.program x.machine.toContext) :
    I y.machine.program y.machine.toContext := by
  refine hxy.invariant (I := fun x => I x.machine.program x.machine.toContext) hx ?_
  intro y z hy hyz
  cases hyz with
  | inside hs hn =>
      rcases nested?_cases hn with ⟨-, l, stop, rest, -, rfl⟩ | ⟨name, args, body, c, -, hc, rfl⟩
      · exact hy
      · exact hcall (c := y.machine.toContext) hy hc
  | turn hs hstep =>
      obtain ⟨hp, hI'⟩ := hI.step (hI.runner _) hy hstep
      rw [← hp] at hI'
      exact hI'

end Machine

end BareBones
