/-
The two checks of a loop.

A guard is asked twice in each iteration.  The `end` asks the guard that the `while` has put on the
stack, in which the operands were fixed when the loop was entered.  If that sends the machine back,
the `while` fixes the operands anew and asks again.  The two agree, unless a token of the guard was
no variable when the loop was entered and has become one since.

What carries this is that a body takes no variable away, whatever it does: a token that stood for a
variable still does.  So the guard that is fixed anew is the one on the stack.

An iteration leads from the point where a run enters the loop to the point where it comes to the
`end`, on a way on which the loop stays on the stack.  Each frame on the stack has come there in
this way, so each `end` that closes a loop ends an iteration.
-/
import BareBones.Proofs.Branches
import BareBones.Proofs.Clearing

namespace BareBones

variable {σ : Type}

/-! ### Guards that are resolved again -/

theorem Environment.Within.trans {env env' env'' : Environment} (h : env.Within env')
    (h' : env'.Within env'') : env.Within env'' :=
  fun name hname => h' name (h name hname)

/-- A token is resolved to the same operand, if it has not become a variable. -/
theorem Operand.resolve_of_within {token : String} {env env' : Environment}
    (henv : env.Within env') (hnew : env.contains token = false → env'.contains token = false) :
    resolve token env' = resolve token env := by
  unfold resolve
  cases hin : env.contains token with
  | true => rw [henv token hin]
  | false => rw [hnew hin]

/-- The tokens that a guard compares. -/
def Guard.tokens : List String → List String
  | subject :: _ :: target :: _ => [subject, target]
  | _ => []

/-- Arguments are resolved to the same guard, if no token of it has become a variable. -/
theorem Guard.resolve_of_within {operation : String} {args : List String} {env env' : Environment}
    (henv : env.Within env')
    (hnew : ∀ token ∈ tokens args, env.contains token = false → env'.contains token = false) :
    resolve operation args env' = resolve operation args env := by
  match args with
  | [] | [_] | [_, _] => rfl
  | subject :: word :: target :: rest =>
      have hsubject := Operand.resolve_of_within henv (hnew subject (by simp [tokens]))
      have htarget := Operand.resolve_of_within henv (hnew target (by simp [tokens]))
      simp only [resolve, hsubject, htarget]

/-! ### Steps at the two ends of a loop -/

namespace Machine

variable {h : Host σ} {m m' : Machine} {s : Statement} {f : LoopFrame} {rest : List LoopFrame}

/-- A loop whose guard does not hold is entered. -/
theorem step_loop_enter (run : Runner σ) (w : World σ) {g : Guard} {e : Nat}
    (hs : m.next? = some s) (hk : s.keyword? = some .whileLoop)
    (hblock : m.program.blockEnd? m.pc = some e)
    (hg : Guard.resolve Keyword.whileLoop.word s.arguments m.env = .ok g)
    (hholds : g.holds m.env = false) :
    step h run m w =
      (.ok (.continued true), { m with loops := ⟨g, m.pc, e⟩ :: m.loops, pc := m.pc + 1 }, w) := by
  have hblock : (m.goto (m.pc + 1)).program.blockEnd? m.pc = some e := hblock
  have hg : Guard.resolve Keyword.whileLoop.word s.arguments (m.goto (m.pc + 1)).env = .ok g := hg
  have hholds : g.holds (m.goto (m.pc + 1)).env = false := hholds
  have hexec : execute h run (m.goto (m.pc + 1)) m.pc s w =
      (.ok true, { m with loops := ⟨g, m.pc, e⟩ :: m.loops, pc := m.pc + 1 }, w) := by
    simp only [execute, hk, enterLoop, hblock, hg, hholds]
    rfl
  rw [step_of_execute hs hexec, Context.publishAfter, opensBlock_of_keyword hk]
  rfl

/-- The `end` of the innermost loop takes it off the stack, and leads behind it or back to its
start. -/
theorem step_loop_end (run : Runner σ) (w : World σ) (hs : m.next? = some s)
    (hk : s.keyword? = some .endBlock) (hloops : m.loops = f :: rest) (hstop : f.stop = m.pc) :
    step h run m w = (.ok (.continued true),
      { m with loops := rest, pc := if f.guard.holds m.env then f.stop + 1 else f.start }, w) := by
  have hexec : execute h run (m.goto (m.pc + 1)) m.pc s w = (.ok true,
      { m with loops := rest, pc := if f.guard.holds m.env then f.stop + 1 else f.start }, w) := by
    have hloops : (m.goto (m.pc + 1)).loops = f :: rest := hloops
    simp only [execute, hk, closeBlock, hloops, hstop]
    cases hholds : f.guard.holds m.env with
    | true => simp [LoopFrame.finished, goto, hholds]
    | false => simp [LoopFrame.finished, goto, hholds]
  have hcloses : s.closesBlock = true := by simp [Statement.closesBlock, hk]
  rw [step_of_execute hs hexec, Context.publishAfter, hcloses, Bool.or_true]
  rfl

/-! ### What a step does to the stack -/

/-- A statement that lets the run go on leaves the stack as it is, or it is a `while` that puts one
loop on it, or it takes the innermost loop off. -/
theorem Confined.loops_step {stop n : Nat} {ok : Bool} {w w' : World σ} (hm : Confined stop m)
    (hx : Machine.step h (Machine.run h n) m w = (.ok (.continued ok), m', w')) :
    m'.loops = m.loops ∨
      (∃ s f, m.next? = some s ∧ s.keyword? = some .whileLoop ∧ m'.loops = f :: m.loops) ∨
      ∃ f, m.loops = f :: m'.loops := by
  obtain ⟨s, r, w₁, hs, hgo, hproceeds⟩ := proceeds_of_step hx
  cases hproceeds with
  | loop hk hx =>
      cases hx with
      | past => exact Or.inl rfl
      | inside => exact Or.inr (Or.inl ⟨s, _, hs, hk, rfl⟩)
  | close hk hx =>
      rcases closeBlock_cases m m.pc with hclosed | ⟨f, loops, hloops, -, hclosed | hclosed⟩
      · rw [hx, hclosed]
        exact Or.inl rfl
      · rw [hx, hclosed]
        exact Or.inr (Or.inr ⟨f, hloops⟩)
      · rw [hx, hclosed]
        exact Or.inr (Or.inr ⟨f, hloops⟩)
  | chain hk hx =>
      left
      rcases loops_runChain hgo hx with hloops | ⟨l, e, ok, m₁, w₁, hl, hstop, hbody, hloops⟩
      · exact hloops
      · rw [hloops]
        exact hm.loops_runs_block hs hk hl hstop hbody
  | func hk hx =>
      cases hx
      exact Or.inl rfl
  | plain hopens hcloses hw hx =>
      rw [hx]
      exact Or.inl rfl

/-- No statement of a program takes a variable away. -/
theorem kept_within (env : Environment) : Kept fun _ c => env.Within c.env := by
  refine ⟨?_, ?_⟩
  · intro p c c' s hc hw
    cases hw with
    | nothing => exact hc
    | target _ henv => exact hc.trans henv.within
    | returned v => exact hc
  · intro p c a stop s f hc _ _ _ _ _
    exact hc

end Machine

/-! ### Iterations -/

namespace Point

open Machine

/-- The run comes from the first point to the second on a way on which the loops that run at the
first one keep running. -/
def During (h : Host σ) (x : Point σ) : Point σ → Prop :=
  Relation.ReflTransGen (fun y z => Next h y z ∧ x.machine.loops <:+ z.machine.loops) x

/-- At the first point the run takes the `while`, and it enters the loop: at the second one, the
frame has been put on the stack. -/
structure Enters (h : Host σ) (s : Statement) (f : LoopFrame) (x y : Point σ) : Prop where
  dispatches : x.Dispatches s
  loop : s.keyword? = some .whileLoop
  next : Next h x y
  pushed : y.machine.loops = f :: x.machine.loops

/-- An iteration of a loop: the run enters the loop at the first point, and at the second one it
comes to the `end`, with the frame of that entry still there and the innermost one. -/
structure Iteration (h : Host σ) (s : Statement) (f : LoopFrame) (x y : Point σ) : Prop where
  body : ∃ z, Enters h s f x z ∧ During h z y
  innermost : y.machine.loops = f :: x.machine.loops
  closes : f.stop = y.machine.pc

variable {h : Host σ} {x y z : Point σ} {s : Statement} {f : LoopFrame}

/-- The way from a point to the next one leaves the stack as it is, puts a loop on it, takes one
off it, or leads into a call, where no loop runs yet. -/
theorem Next.loops_cases (hyz : Next h y z) (hy : Confined y.stop y.machine) :
    z.machine.loops = y.machine.loops ∨
      (∃ s f, Enters h s f y z) ∨ (∃ f, y.machine.loops = f :: z.machine.loops) ∨
      z.machine.loops = [] := by
  cases hyz with
  | inside hs hn =>
      rcases nested?_cases hn with ⟨-, l, stop, rest, -, rfl⟩ | ⟨name, args, p, c, -, -, rfl⟩
      · exact Or.inl rfl
      · exact Or.inr (Or.inr (Or.inr rfl))
  | turn hs hstep =>
      rcases hy.loops_step hstep with hsame | ⟨s, f, hs', hk, hpushed⟩ | hpopped
      · exact Or.inl hsame
      · exact Or.inr (Or.inl ⟨s, f, ⟨hs.1, hs'⟩, hk, .turn hs hstep, hpushed⟩)
      · exact Or.inr (Or.inr (Or.inl hpopped))

/-- Every loop on the stack was entered at some point of the run, with the loops below it on the
stack, and has been running since. -/
theorem Reaches.entered (hxy : Reaches h x y) (hx : Confined x.stop x.machine)
    (hempty : x.machine.loops = []) : ∀ {inner rest : List LoopFrame} {f : LoopFrame},
    y.machine.loops = inner ++ f :: rest →
    ∃ x' s z, Reaches h x x' ∧ Enters h s f x' z ∧ During h z y ∧ x'.machine.loops = rest := by
  induction hxy with
  | refl =>
      intro inner rest f hloops
      rw [hempty] at hloops
      simp at hloops
  | @tail y z hxy hyz ih =>
      intro inner rest f hloops
      -- A loop that was on the stack before has been running on the way as well.
      have hold : (∃ inner', y.machine.loops = inner' ++ f :: rest) →
          ∃ x' s z', Reaches h x x' ∧ Enters h s f x' z' ∧ During h z' z ∧
            x'.machine.loops = rest := by
        rintro ⟨inner', hloops'⟩
        obtain ⟨x', s, z', hx', hentered, hduring, hrest⟩ := ih hloops'
        refine ⟨x', s, z', hx', hentered, hduring.tail ⟨hyz, ?_⟩, hrest⟩
        rw [hentered.pushed, hrest, hloops]
        exact List.suffix_append inner (f :: rest)
      rcases hyz.loops_cases (Reaches.confined hxy hx) with
        hsame | ⟨s, g, hentered⟩ | ⟨g, hpopped⟩ | hnone
      · exact hold ⟨inner, hsame ▸ hloops⟩
      · have hpushed := hentered.pushed
        rw [hloops] at hpushed
        cases inner with
        | nil =>
            obtain ⟨rfl, hrest⟩ := List.cons.inj hpushed
            exact ⟨y, s, z, hxy, hentered, .refl, hrest.symm⟩
        | cons g' inner => exact hold ⟨inner, (List.cons.inj hpushed).2.symm⟩
      · exact hold ⟨g :: inner, by rw [hpopped, hloops]; rfl⟩
      · rw [hnone] at hloops
        simp at hloops

/-- While a loop keeps running, the program stays the same and no variable is taken away. -/
theorem During.keeps (hxy : During h x y) (hne : x.machine.loops ≠ []) :
    y.machine.program = x.machine.program ∧ x.machine.env.Within y.machine.env := by
  induction hxy with
  | refl => exact ⟨rfl, .refl _⟩
  | @tail y z _ hyz ih =>
      obtain ⟨hnext, hloops⟩ := hyz
      obtain ⟨hp, henv⟩ := ih
      cases hnext with
      | inside hs hn =>
          rcases nested?_cases hn with ⟨-, l, stop, rest, -, rfl⟩ | ⟨name, args, p, c, -, -, rfl⟩
          · exact ⟨hp, henv⟩
          · exact absurd (List.suffix_nil.1 hloops) hne
      | turn hs hstep =>
          have hkept := kept_within x.machine.env
          obtain ⟨hp', henv'⟩ := hkept.step (hkept.runner _) henv hstep
          exact ⟨hp'.trans hp, henv'⟩

/-- What a run has on the stack when it has entered a loop. -/
theorem Enters.frame (hxy : Enters h s f x y) : f.start = x.machine.pc ∧
    x.machine.program.blockEnd? f.start = some f.stop ∧
    Guard.resolve Keyword.whileLoop.word s.arguments x.machine.env = .ok f.guard ∧
    y.machine.program = x.machine.program ∧ y.machine.env = x.machine.env := by
  obtain ⟨⟨hpc, hs⟩, hk, hnext, hpushed⟩ := hxy
  cases hnext with
  | inside hs' hn =>
      have heq := hs.symm.trans hs'.2
      cases heq
      simp [nested?, hk] at hn
  | turn hs' hstep =>
      obtain ⟨t, r, w, ht, -, hproceeds⟩ := proceeds_of_step hstep
      have heq := hs.symm.trans ht
      cases heq
      cases hproceeds with
      | loop _ hx =>
          cases hx with
          | past => exact absurd hpushed.symm (List.cons_ne_self f x.machine.loops)
          | inside hblock hguard =>
              obtain ⟨rfl, -⟩ := List.cons.inj hpushed
              exact ⟨rfl, hblock, hguard, rfl, rfl⟩
      | close hk' _ | chain hk' _ | func hk' _ =>
          rw [hk] at hk'
          cases hk'
      | plain hopens _ _ _ =>
          rw [opensBlock_of_keyword hk] at hopens
          cases hopens

/-- A loop that a run comes to the end of was entered at some point of it. -/
theorem Reaches.iteration {c : Context Program} {p : Program} {w : World σ}
    {rest : List LoopFrame} (hy : Reaches h (start c p w) y)
    (hloops : y.machine.loops = f :: rest) (hstop : f.stop = y.machine.pc) :
    ∃ x s, Reaches h (start c p w) x ∧ Iteration h s f x y := by
  have htop : y.machine.loops = [] ++ f :: rest := hloops
  obtain ⟨x, s, z, hx, hentered, hduring, hrest⟩ :=
    hy.entered (confined_start c p p.size) rfl htop
  exact ⟨x, s, hx, ⟨z, hentered, hduring⟩, hrest.symm ▸ hloops, hstop⟩

/-- Whenever a run, be it that of the program itself, of a block or of a call, comes to the `end`
of the innermost loop, it has entered the loop at some point and is at the end of an iteration.  The
guard on the stack is the one resolved at that point.  If no token of the guard has become a
variable since, then the guard on the stack holds just if the one does that the `while` would
resolve now.  So the `end` leads behind the loop just if the `while` would, and where the `end`
leads back, the next step enters the loop again. -/
theorem end_agrees_with_while (h : Host σ) (c : Context Program) (p : Program) (w : World σ)
    (y : Point σ) (hy : Reaches h (start c p w) y) (f : LoopFrame) (rest : List LoopFrame)
    (hloops : y.machine.loops = f :: rest) (hstop : f.stop = y.machine.pc) :
    (∃ x s, Reaches h (start c p w) x ∧ Iteration h s f x y) ∧
    ∀ x s, Iteration h s f x y →
      Guard.resolve Keyword.whileLoop.word s.arguments x.machine.env = .ok f.guard ∧
      ((∀ token ∈ Guard.tokens s.arguments, x.machine.env.contains token = false →
          y.machine.env.contains token = false) →
        ∃ g, Guard.resolve Keyword.whileLoop.word s.arguments y.machine.env = .ok g ∧
          (f.guard.holds y.machine.env = true ↔ g.holds y.machine.env = true) ∧
          let back : Machine := { y.machine with loops := rest, pc := f.start }
          let past : Machine := { y.machine with loops := rest, pc := f.stop + 1 }
          ∀ (run : Runner σ) (w' : World σ),
            step h run y.machine w' = (.ok (.continued true),
              if f.guard.holds y.machine.env then past else back, w') ∧
            step h run back w' = (.ok (.continued true),
              if g.holds y.machine.env then past
              else { back with loops := ⟨g, f.start, f.stop⟩ :: rest, pc := f.start + 1 }, w')) := by
  refine ⟨hy.iteration hloops hstop, ?_⟩
  rintro x s ⟨⟨z, hentered, hduring⟩, hinnermost, -⟩
  obtain ⟨hstart, hblock, hguard, hp, henv⟩ := hentered.frame
  have hne : z.machine.loops ≠ [] := by
    rw [hentered.pushed]
    exact List.cons_ne_nil _ _
  obtain ⟨hp', henv'⟩ := hduring.keeps hne
  rw [hp] at hp'
  rw [henv] at henv'
  refine ⟨hguard, ?_⟩
  intro hnew
  have hresolve : Guard.resolve Keyword.whileLoop.word s.arguments y.machine.env = .ok f.guard :=
    (Guard.resolve_of_within henv' hnew).trans hguard
  refine ⟨f.guard, hresolve, Iff.rfl, ?_⟩
  intro back past run w'
  -- The two ends of the loop are still where they were.
  have hloop : back.next? = some s := by
    show y.machine.program.get? f.start = some s
    rw [hp', hstart]
    exact hentered.dispatches.2
  have hend : y.machine.program.blockEnd? f.start = some f.stop := by
    rw [hp']
    exact hblock
  obtain ⟨t, ht, hcloses⟩ := Program.closes_of_blockEnd? hend
  have hkt : t.keyword? = some .endBlock := by simpa [Statement.closesBlock] using hcloses
  have hclose : y.machine.next? = some t := by
    show y.machine.program.get? y.machine.pc = some t
    rw [← hstop]
    exact ht
  constructor
  · rw [step_loop_end run w' hclose hkt hloops hstop]
    cases f.guard.holds y.machine.env <;> rfl
  · cases hholds : f.guard.holds y.machine.env with
    | true => exact step_loop_skip run w' hloop hentered.loop hend hresolve hholds
    | false => exact step_loop_enter run w' hloop hentered.loop hend hresolve hholds

/-- The body of a loop runs a chain and makes a new variable.  The loop is not finished, so the
`end` leads back, and the `while` enters the loop again. -/
theorem end_agrees_with_while_behind_chain :
    let statement operation arguments : Statement := ⟨operation, arguments, operation, 1⟩
    let loop := statement "while" ["x", "is", "0", "do"]
    let p := Program.ofStatements [loop, statement "if" ["x", "is", "2"], statement "decr" ["x"],
      statement "end" [], statement "copy" ["x", "to", "y"], statement "end" []]
    let c : Context Program := { env := (∅ : Environment).insert "x" (.int 2) }
    let h : Host Unit := ⟨{}, fun _ u => (.error (.unknownFunction ""), u)⟩
    let f : LoopFrame := ⟨⟨.named "x", .literal (.int 0), .equals⟩, 0, 5⟩
    let x : Point Unit := start c p { state := () }
    ∃ y, Reaches h x y ∧ Iteration h loop f x y ∧ x.machine.env.contains "y" = false ∧
      y.machine.env.contains "y" = true ∧ y.machine.env.get? "x" = some (.int 1) ∧
      ∃ g, Guard.resolve Keyword.whileLoop.word loop.arguments y.machine.env = .ok g ∧
        ∀ run w, step h run y.machine w =
            (.ok (.continued true), { y.machine with loops := [], pc := 0 }, w) ∧
          step h run { y.machine with loops := [], pc := 0 } w =
            (.ok (.continued true), { y.machine with loops := [⟨g, 0, 5⟩], pc := 1 }, w) := by
  intro statement loop p c h f x
  obtain ⟨y, hy⟩ : ∃ y, y = ((x.after h 1).after h 2).after h 1 := ⟨_, rfl⟩
  have hloop : x.Dispatches loop := ⟨by decide +kernel, by decide +kernel⟩
  have hentered : Next h x (x.after h 1) := .after true hloop (by decide +kernel)
  have hbranched : Next h (x.after h 1) ((x.after h 1).after h 2) :=
    .after (s := statement "if" ["x", "is", "2"]) true
      ⟨by decide +kernel, by decide +kernel⟩ (by decide +kernel)
  have hcopied : Next h ((x.after h 1).after h 2) y := by
    rw [hy]
    exact .after (s := statement "copy" ["x", "to", "y"]) true
      ⟨by decide +kernel, by decide +kernel⟩ (by decide +kernel)
  have hreaches : Reaches h x y :=
    ((Relation.ReflTransGen.single hentered).tail hbranched).tail hcopied
  have hfacts : y.machine.loops = [f] ∧ y.machine.pc = 5 ∧ y.machine.env.contains "y" = true ∧
      y.machine.env.get? "x" = some (.int 1) ∧ y.machine.env.contains "0" = false ∧
      ¬ f.guard.holds y.machine.env = true := by
    rw [hy]
    decide +kernel
  obtain ⟨hloops, hpc, hnew, hvalue, hzero, hholds⟩ := hfacts
  have hduring : During h (x.after h 1) y := by
    refine (Relation.ReflTransGen.single ⟨hbranched, by decide +kernel⟩).tail ⟨hcopied, ?_⟩
    rw [hloops]
    decide +kernel
  have hiteration : Iteration h loop f x y :=
    ⟨⟨x.after h 1, ⟨hloop, by decide +kernel, hentered, by decide +kernel⟩, hduring⟩, hloops,
      hpc.symm⟩
  obtain ⟨-, hagree⟩ := end_agrees_with_while h c p _ y hreaches f [] hloops hpc.symm
  have htokens : ∀ token ∈ Guard.tokens loop.arguments, x.machine.env.contains token = false →
      y.machine.env.contains token = false := by
    rw [show Guard.tokens loop.arguments = ["x", "0"] from rfl]
    simp only [List.forall_mem_cons, List.not_mem_nil, false_imp_iff, implies_true, and_true]
    exact ⟨fun hx => absurd hx (by decide +kernel), fun _ => hzero⟩
  obtain ⟨g, hg, hsame, hsteps⟩ := (hagree x loop hiteration).2 htokens
  refine ⟨y, hreaches, hiteration, by decide +kernel, hnew, hvalue, g, hg, ?_⟩
  intro run w
  obtain ⟨hend, hwhile⟩ := hsteps run w
  rw [if_neg hholds] at hend
  rw [if_neg (mt hsame.2 hholds)] at hwhile
  exact ⟨hend, hwhile⟩

end Point

end BareBones
