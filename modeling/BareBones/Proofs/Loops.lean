/-
The stack of loops.

The frames on the stack of a machine are `while` blocks, one inside the other, and the machine is
inside all of them.  This is true of every program, also one whose blocks do not match, and stays
true whatever statements do: at a stray `end`, behind an error, and in the middle of a chain that
an error broke off.

All of it rests on one fact about moves.  A block that is around a statement is still around the
machine when the statement is done, or the machine has come to the `end` of the block.  That is so
because blocks are nested or apart.
-/
import BareBones.Proofs.Blocks
import BareBones.Proofs.Fuel
import BareBones.Proofs.Writes

namespace BareBones

variable {σ : Type}

/-! ### Variables are never lost -/

/-- Every variable of the first environment is one of the second. -/
def Environment.Within (env env' : Environment) : Prop :=
  ∀ name, env.contains name = true → env'.contains name = true

theorem Environment.Within.refl (env : Environment) : env.Within env :=
  fun _ h => h

theorem Environment.Writes.within {env env' : Environment} {name : String}
    (hw : env.Writes name env') : env.Within env' := by
  obtain ⟨v, rfl, -⟩ := hw
  intro n hn
  rw [NameMap.contains_insert, hn, Bool.or_true]

/-- A statement may add variables to its context, but it takes none away. -/
theorem Context.within_execute {β : Type} {h : Host σ} {run : BodyRunner σ β} {c c' : Context β}
    {s : Statement} {w w' : World σ} {r : Outcome Failure Bool}
    (hx : c.execute h run s w = (r, c', w')) : c.env.Within c'.env := by
  cases execute_writes hx with
  | nothing => exact .refl c.env
  | target _ henv => exact henv.within
  | returned v => exact .refl c.env

/-! ### Moves among nested blocks -/

namespace Program

/-- Every block around the first address is around the second one. -/
def Around (p : Program) (a b : Nat) : Prop :=
  ∀ o e, p.blockEnd? o = some e → o < a → a < e → o < b ∧ b < e

/-- Every block around the first address is around the second one or ends there. -/
def Reaches (p : Program) (a b : Nat) : Prop :=
  ∀ o e, p.blockEnd? o = some e → o < a → a < e → o < b ∧ b ≤ e

variable {p : Program} {a b e : Nat}

theorem Around.refl (p : Program) (a : Nat) : p.Around a a :=
  fun _ _ _ ho he => ⟨ho, he⟩

theorem Around.reaches_succ (h : p.Around a b) : p.Reaches a (b + 1) := by
  intro o e hblock ho he
  obtain ⟨hob, hbe⟩ := h o e hblock ho he
  exact ⟨by omega, hbe⟩

/-- What is around the opener of a block is around its `end`. -/
theorem Around.stop (h : p.Around a b) (hb : p.blockEnd? b = some e) : p.Around a e := by
  intro o e' hblock ho he
  obtain ⟨hob, hbe⟩ := h o e' hblock ho he
  have hlt := blockEnd?_lt hb
  exact ⟨by omega, blockEnd?_nested hblock hb hob hbe⟩

/-- What is around an address is around the next one, unless a block ends there. -/
theorem Around.succ {s : Statement} (h : p.Around a b) (hs : p.get? (b + 1) = some s)
    (hc : s.closesBlock = false) : p.Around a (b + 1) := by
  intro o e hblock ho he
  obtain ⟨hob, hbe⟩ := h o e hblock ho he
  have hne := ne_of_blockEnd? hblock hs hc
  exact ⟨by omega, by omega⟩

end Program

/-! ### The invariant -/

/-- If the operand is a variable, then one that is there. -/
def Operand.Bound (env : Environment) : Operand → Prop
  | .named name => env.contains name = true
  | .literal _ => True

/-- The variables that the guard names are there. -/
def Guard.Bound (env : Environment) (g : Guard) : Prop :=
  g.subject.Bound env ∧ g.target.Bound env

theorem Operand.bound_resolve (token : String) (env : Environment) :
    (Operand.resolve token env).Bound env := by
  unfold resolve
  split
  · next hin => exact hin
  · trivial

theorem Guard.bound_resolve {operation : String} {args : List String} {env : Environment}
    {g : Guard} (h : Guard.resolve operation args env = .ok g) : g.Bound env := by
  unfold resolve at h
  split at h
  · cases h
    exact ⟨Operand.bound_resolve _ env, Operand.bound_resolve _ env⟩
  · cases h

theorem Operand.Bound.mono {o : Operand} {env env' : Environment} (h : o.Bound env)
    (henv : env.Within env') : o.Bound env' := by
  cases o with
  | named name => exact henv name h
  | literal v => trivial

theorem Guard.Bound.mono {g : Guard} {env env' : Environment} (h : g.Bound env)
    (henv : env.Within env') : g.Bound env' :=
  ⟨h.1.mono henv, h.2.mono henv⟩

/-- The stack of loops fits the program, the address and the variables. -/
structure Machine.LoopsOK (m : Machine) : Prop where
  pc_le : m.pc ≤ m.program.size
  /-- Each frame is about a `while`. -/
  loop : ∀ f ∈ m.loops, ∃ s, m.program.get? f.start = some s ∧ s.keyword? = some .whileLoop
  /-- Each frame knows the `end` of its loop. -/
  block : ∀ f ∈ m.loops, m.program.blockEnd? f.start = some f.stop
  /-- Each frame lies inside all the frames below it. -/
  nested : m.loops.Pairwise fun f g => g.start < f.start ∧ f.stop < g.stop
  /-- The machine is behind the `while` of each frame, and not behind its `end`. -/
  inside : ∀ f ∈ m.loops, f.start < m.pc ∧ m.pc ≤ f.stop
  /-- The variables of each guard are there. -/
  bound : ∀ f ∈ m.loops, f.guard.Bound m.env

namespace Machine

/-- The machine that a run starts with has no loops. -/
theorem loopsOK_start (c : Context Program) (p : Program) :
    LoopsOK { toContext := c, program := p } := by
  refine ⟨Nat.zero_le _, ?_, ?_, List.Pairwise.nil, ?_, ?_⟩
  all_goals
    intro f hf
    exact absurd hf List.not_mem_nil

/-- What is left of a statement at the address: the stack is in order, and the machine is still in
the blocks around the address. -/
structure Keeps (p : Program) (a : Nat) (m' : Machine) : Prop where
  program : m'.program = p
  ok : m'.LoopsOK
  reaches : p.Reaches a m'.pc

variable {m m' : Machine} {s : Statement}

/-- All loops that run are around a statement that is no `end`. -/
theorem LoopsOK.around (hm : m.LoopsOK) {a : Nat} (ha : m.pc = a)
    (hs : m.program.get? a = some s) (hc : s.closesBlock = false) {f : LoopFrame}
    (hf : f ∈ m.loops) : f.start < a ∧ a < f.stop := by
  obtain ⟨hstart, hstop⟩ := hm.inside f hf
  have hne := Program.ne_of_blockEnd? (hm.block f hf) hs hc
  exact ⟨by omega, by omega⟩

/-- The stack stays in order where only the address and the variables change. -/
theorem LoopsOK.move (hm : m.LoopsOK) (hprogram : m'.program = m.program)
    (hloops : m'.loops = m.loops) (henv : m.env.Within m'.env) (hsize : m'.pc ≤ m.program.size)
    (hinside : ∀ f ∈ m.loops, f.start < m'.pc ∧ m'.pc ≤ f.stop) : m'.LoopsOK := by
  refine ⟨by rw [hprogram]; exact hsize, ?_, ?_, ?_, ?_, ?_⟩
  · rw [hprogram, hloops]
    exact hm.loop
  · rw [hprogram, hloops]
    exact hm.block
  · rw [hloops]
    exact hm.nested
  · rw [hloops]
    exact hinside
  · rw [hloops]
    intro f hf
    exact (hm.bound f hf).mono henv

/-- A statement that is no `end` may go behind any address with the same blocks around. -/
theorem LoopsOK.keeps (hm : m.LoopsOK) (hs : m.next? = some s) (hc : s.closesBlock = false)
    (hprogram : m'.program = m.program) (hloops : m'.loops = m.loops)
    (henv : m.env.Within m'.env) {b : Nat} (hb : m.program.Around m.pc b)
    (hlt : b < m.program.size) (hpc : m'.pc = b + 1) : Keeps m.program m.pc m' := by
  refine ⟨hprogram, hm.move hprogram hloops henv (by omega) ?_, ?_⟩
  · intro f hf
    obtain ⟨hstart, hstop⟩ := hm.around rfl hs hc hf
    rw [hpc]
    exact hb.reaches_succ f.start f.stop (hm.block f hf) hstart hstop
  · rw [hpc]
    exact hb.reaches_succ

/-- A statement that is no `end` may leave the machine right behind it. -/
theorem LoopsOK.keeps_next (hm : m.LoopsOK) (hs : m.next? = some s) (hc : s.closesBlock = false)
    (hprogram : m'.program = m.program) (hloops : m'.loops = m.loops)
    (henv : m.env.Within m'.env) (hpc : m'.pc = m.pc + 1) : Keeps m.program m.pc m' :=
  hm.keeps hs hc hprogram hloops henv (.refl _ _) (Program.get?_lt hs) hpc

/-! ### Loops and functions -/

theorem closesBlock_of_keyword {k : Keyword} (hk : s.keyword? = some k) (hne : k ≠ .endBlock) :
    s.closesBlock = false := by
  unfold Statement.closesBlock
  rw [hk]
  simpa using hne

/-- A `while` is passed over, or it becomes the innermost loop. -/
theorem LoopsOK.keeps_enterLoop (hm : m.LoopsOK) (hs : m.next? = some s)
    (hk : s.keyword? = some .whileLoop)
    (hx : EntersLoop (m.goto (m.pc + 1)) m.pc s.arguments m') :
    Keeps m.program m.pc m' := by
  have hc := closesBlock_of_keyword hk (by simp)
  cases hx with
  | past hblock hguard hholds =>
      have haround := (Program.Around.refl m.program m.pc).stop hblock
      exact hm.keeps hs hc rfl rfl (.refl _) haround (Program.blockEnd?_lt_size hblock) rfl
  | inside hblock hguard hholds =>
      have hnext : Keeps m.program m.pc (m.goto (m.pc + 1)) :=
        hm.keeps_next hs hc rfl rfl (.refl _) rfl
      have hlt := Program.blockEnd?_lt hblock
      refine ⟨rfl, ⟨hnext.ok.pc_le, ?_, ?_, ?_, ?_, ?_⟩, hnext.reaches⟩
      · intro f hf
        rcases List.mem_cons.1 hf with rfl | hf
        · exact ⟨s, hs, hk⟩
        · exact hm.loop f hf
      · intro f hf
        rcases List.mem_cons.1 hf with rfl | hf
        · exact hblock
        · exact hm.block f hf
      · refine List.pairwise_cons.2 ⟨?_, hm.nested⟩
        intro f hf
        obtain ⟨hstart, hlt'⟩ := hm.around rfl hs hc hf
        exact ⟨hstart, Program.blockEnd?_nested (hm.block f hf) hblock hstart hlt'⟩
      · intro f hf
        rcases List.mem_cons.1 hf with rfl | hf
        · exact ⟨Nat.lt_succ_self _, hlt⟩
        · exact hnext.ok.inside f hf
      · intro f hf
        rcases List.mem_cons.1 hf with rfl | hf
        · exact Guard.bound_resolve hguard
        · exact hm.bound f hf

theorem LoopsOK.pop {f : LoopFrame} {loops : List LoopFrame} (hm : m.LoopsOK)
    (hloops : m.loops = f :: loops) {b : Nat} (hb : f.start ≤ b) (hbf : b ≤ f.stop + 1) :
    LoopsOK { m with loops := loops, pc := b } := by
  have hmem : ∀ g ∈ loops, g ∈ m.loops := by
    intro g hg
    rw [hloops]
    exact List.mem_cons_of_mem f hg
  have hfmem : f ∈ m.loops := by
    rw [hloops]
    exact List.mem_cons_self
  have hnested := hm.nested
  rw [hloops] at hnested
  obtain ⟨houter, hrest⟩ := List.pairwise_cons.1 hnested
  have hstop := Program.blockEnd?_lt_size (hm.block f hfmem)
  refine ⟨?_, ?_, ?_, hrest, ?_, ?_⟩
  · change b ≤ m.program.size
    omega
  · intro g hg
    exact hm.loop g (hmem g hg)
  · intro g hg
    exact hm.block g (hmem g hg)
  · intro g hg
    obtain ⟨hstart, hlt⟩ := houter g hg
    change g.start < b ∧ b ≤ g.stop
    omega
  · intro g hg
    exact hm.bound g (hmem g hg)

/-- An `end` takes the loop that it closes off the stack, and no other one. -/
theorem LoopsOK.keeps_closeBlock (hm : m.LoopsOK) (hs : m.next? = some s) :
    Keeps m.program m.pc (closeBlock (m.goto (m.pc + 1)) m.pc) := by
  have hlt := Program.get?_lt hs
  have hself := (Program.Around.refl m.program m.pc).reaches_succ
  unfold closeBlock
  rw [show (m.goto (m.pc + 1)).loops = m.loops from rfl]
  cases hloops : m.loops with
  | nil =>
      refine ⟨rfl, hm.move rfl rfl (.refl _) hlt ?_, hself⟩
      intro f hf
      rw [hloops] at hf
      exact absurd hf List.not_mem_nil
  | cons f loops =>
      have hfmem : f ∈ m.loops := by
        rw [hloops]
        exact List.mem_cons_self
      have hblock := hm.block f hfmem
      have hstart := Program.blockEnd?_lt hblock
      dsimp only
      split
      · next hstop =>
        split
        · exact ⟨rfl, hm.pop (b := m.pc + 1) hloops (by omega) (by omega), hself⟩
        · refine ⟨rfl, hm.pop hloops (Nat.le_refl _) (by omega), ?_⟩
          -- A block around the `end` is around the whole loop.
          intro o e ho hoa hae
          change o < f.start ∧ f.start ≤ e
          refine ⟨?_, by omega⟩
          rcases Nat.lt_trichotomy o f.start with hlt' | rfl | hgt
          · exact hlt'
          · rw [hblock] at ho
            cases ho
            omega
          · have hinner := Program.blockEnd?_nested hblock ho hgt (by omega)
            omega
      · next hstop =>
        refine ⟨rfl, hm.move rfl rfl (.refl _) hlt ?_, hself⟩
        intro g hg
        change g.start < m.pc + 1 ∧ m.pc + 1 ≤ g.stop
        obtain ⟨hgs, hge⟩ := hm.inside g hg
        obtain ⟨-, hfe⟩ := hm.inside f hfmem
        have hnested := hm.nested
        rw [hloops] at hg hnested
        rcases List.mem_cons.1 hg with rfl | hg
        · omega
        · obtain ⟨-, hlt'⟩ := (List.pairwise_cons.1 hnested).1 g hg
          omega

/-- A function is defined from behind its block. -/
theorem LoopsOK.keeps_defineFunction (hm : m.LoopsOK) (hs : m.next? = some s)
    (hk : s.keyword? = some .func)
    (hx : DefinesFunction (m.goto (m.pc + 1)) m.pc s m') : Keeps m.program m.pc m' := by
  have hc := closesBlock_of_keyword hk (by simp)
  obtain ⟨-, hblock, -⟩ := hx
  have haround := (Program.Around.refl m.program m.pc).stop hblock
  exact hm.keeps hs hc rfl rfl (.refl _) haround (Program.blockEnd?_lt_size hblock) rfl

/-! ### Chains -/

/-- The links of a chain from an address on: blocks that are no loops, one right behind the other.
The last of them may have no `end`. -/
inductive IsChain (p : Program) : Nat → List Link → Prop
  | unclosed {o : Nat} {s : Statement} (hs : p.get? o = some s) (ho : s.opensBlock = true)
      (hw : s.keyword? ≠ some .whileLoop) (hstop : p.blockEnd? o = none) :
      IsChain p o [⟨o, s, none⟩]
  | last {o e : Nat} {s : Statement} (hs : p.get? o = some s) (ho : s.opensBlock = true)
      (hw : s.keyword? ≠ some .whileLoop) (hstop : p.blockEnd? o = some e) :
      IsChain p o [⟨o, s, some e⟩]
  | link {o e : Nat} {s : Statement} {l : Link} {ls : List Link} (hs : p.get? o = some s)
      (ho : s.opensBlock = true) (hw : s.keyword? ≠ some .whileLoop)
      (hstop : p.blockEnd? o = some e) (hrest : IsChain p (e + 1) (l :: ls)) :
      IsChain p o (⟨o, s, some e⟩ :: l :: ls)

theorem opens_of_continuesChain (hs : s.continuesChain = true) :
    s.opensBlock = true ∧ s.keyword? ≠ some .whileLoop := by
  unfold Statement.continuesChain at hs
  unfold Statement.opensBlock
  cases hk : s.keyword? with
  | none => simp [hk] at hs
  | some k =>
      rw [hk] at hs
      cases k <;> simp_all [Keyword.opensBlock]

theorem isChain_links {p : Program} : ∀ (n : Nat) {o : Nat} {s : Statement},
    p.get? o = some s → s.opensBlock = true → s.keyword? ≠ some .whileLoop →
    IsChain p o (links p (n + 1) o s) := by
  intro n
  induction n with
  | zero =>
      intro o s hs ho hw
      rw [links]
      cases hstop : p.blockEnd? o with
      | none => exact .unclosed hs ho hw hstop
      | some e =>
          simp only [links]
          split
          · exact .last hs ho hw hstop
          · split
            · exact .last hs ho hw hstop
            · split
              · exact .last hs ho hw hstop
              · exact .last hs ho hw hstop
  | succ n ih =>
      intro o s hs ho hw
      rw [links]
      cases hstop : p.blockEnd? o with
      | none => exact .unclosed hs ho hw hstop
      | some e =>
          dsimp only
          split
          · exact .last hs ho hw hstop
          · split
            · exact .last hs ho hw hstop
            · next s' hs' =>
              split
              · next hcont =>
                obtain ⟨ho', hw'⟩ := opens_of_continuesChain hcont
                have hrest := ih hs' ho' hw'
                rw [links] at hrest ⊢
                exact .link hs ho hw hstop hrest
              · exact .last hs ho hw hstop

theorem IsChain.head {p : Program} {o : Nat} {ls : List Link} (hls : IsChain p o ls) :
    ∃ s, p.get? o = some s ∧ s.opensBlock = true := by
  cases hls with
  | unclosed hs ho _ _ => exact ⟨_, hs, ho⟩
  | last hs ho _ _ => exact ⟨_, hs, ho⟩
  | link hs ho _ _ _ => exact ⟨_, hs, ho⟩

/-- What is around one link is around the next. -/
theorem IsChain.around {p : Program} {a o e : Nat} {l : Link} {ls : List Link}
    (hls : IsChain p (e + 1) (l :: ls)) (ha : p.Around a o) (hstop : p.blockEnd? o = some e) :
    p.Around a (e + 1) := by
  obtain ⟨s, hs, ho⟩ := hls.head
  exact (ha.stop hstop).succ hs (Statement.closesBlock_eq_false_of_opensBlock ho)

/-- A machine that stands behind the opener of a link, with the blocks of the chain around. -/
structure AtLink (p : Program) (a o : Nat) (m : Machine) : Prop where
  program : m.program = p
  ok : m.LoopsOK
  around : p.Around a o
  pc : m.pc = o + 1

theorem AtLink.keeps {p : Program} {a o : Nat} (hm : AtLink p a o m) : Keeps p a m := by
  refine ⟨hm.program, hm.ok, ?_⟩
  rw [hm.pc]
  exact hm.around.reaches_succ

/-- The machine is at the `end` of a block that is no loop, so the loops that run are around the
whole block. -/
def Past (m : Machine) (e : Nat) : Prop :=
  ∀ f ∈ m.loops, f.start ≤ e ∧ e < f.stop

theorem AtLink.past {p : Program} {a o e : Nat} (hm : AtLink p a o m)
    (hs : p.get? o = some s) (hw : s.keyword? ≠ some .whileLoop) (hstop : p.blockEnd? o = some e) :
    Past m e := by
  intro f hf
  obtain ⟨hstart, hlt⟩ := hm.ok.inside f hf
  obtain ⟨s', hs', hk⟩ := hm.ok.loop f hf
  have hblock := hm.ok.block f hf
  rw [hm.pc] at hstart hlt
  rw [hm.program] at hs' hblock
  have hne : f.start ≠ o := by
    rintro rfl
    rw [hs] at hs'
    cases hs'
    exact hw hk
  have hoe := Program.blockEnd?_lt hstop
  have hinner := Program.blockEnd?_nested hblock hstop (by omega) (by omega)
  exact ⟨by omega, hinner⟩

/-- Behind the last block, the machine is behind the chain. -/
theorem Past.leave_last {p : Program} {a o e : Nat} (hpast : Past m e) (hm : m.LoopsOK)
    (hp : m.program = p) (ha : p.Around a o) (hstop : p.blockEnd? o = some e) :
    Keeps p a (m.leave e []) := by
  subst hp
  have hlt := Program.blockEnd?_lt_size hstop
  refine ⟨rfl, hm.move rfl rfl (.refl _) hlt ?_, (ha.stop hstop).reaches_succ⟩
  intro f hf
  obtain ⟨hstart, hend⟩ := hpast f hf
  change f.start < e + 1 ∧ e + 1 ≤ f.stop
  omega

/-- Behind any other block, the machine is at the next link. -/
theorem Past.leave_next {p : Program} {a o e : Nat} {l : Link} {ls : List Link}
    (hpast : Past m e) (hm : m.LoopsOK) (hp : m.program = p) (ha : p.Around a o)
    (hstop : p.blockEnd? o = some e) (hls : IsChain p (e + 1) (l :: ls)) :
    AtLink p a (e + 1) (m.leave e (l :: ls)) := by
  subst hp
  obtain ⟨s, hs, ho⟩ := hls.head
  have hsize := Program.get?_lt hs
  refine ⟨rfl, hm.move rfl rfl (.refl _) hsize ?_, hls.around ha hstop, rfl⟩
  intro f hf
  obtain ⟨hstart, hend⟩ := hpast f hf
  have hne := Program.ne_of_blockEnd? (hm.block f hf) hs
    (Statement.closesBlock_eq_false_of_opensBlock ho)
  change f.start < e + 2 ∧ e + 2 ≤ f.stop
  omega

/-- Passing over links keeps the stack in order. -/
theorem AtLink.passOver {p : Program} {a o : Nat} {ls : List Link} (hls : IsChain p o ls) :
    ∀ {m : Machine}, AtLink p a o m → Keeps p a (Machine.passOver ls m).2 := by
  induction hls with
  | unclosed hs ho hw hstop =>
      intro m hm
      exact hm.keeps
  | last hs ho hw hstop =>
      intro m hm
      exact (hm.past hs hw hstop).leave_last hm.ok hm.program hm.around hstop
  | link hs ho hw hstop hrest ih =>
      intro m hm
      exact ih ((hm.past hs hw hstop).leave_next hm.ok hm.program hm.around hstop hrest)

/-- A runner stays inside the block that it runs, and stops at its `end`. -/
def RunnerKeeps (run : Runner σ) : Prop :=
  ∀ ⦃o e : Nat⦄ ⦃m m' : Machine⦄ ⦃w w' : World σ⦄ ⦃r : Outcome StatementError Bool⦄,
    m.LoopsOK → m.program.blockEnd? o = some e → o < m.pc → m.pc ≤ e → run e m w = (r, m', w') →
    m'.program = m.program ∧ m'.LoopsOK ∧ o < m'.pc ∧ m'.pc ≤ e ∧ ∀ ok, r = .ok ok → m'.pc = e

variable {h : Host σ} {run : Runner σ} {w w' : World σ} {r : Outcome Failure Bool}

theorem past_of_stopped {p : Program} {o e : Nat} (hm : m.LoopsOK) (hp : m.program = p)
    (hpc : m.pc = e) (hs : p.get? o = some s) (hw : s.keyword? ≠ some .whileLoop)
    (hstop : p.blockEnd? o = some e) : Past m e := by
  intro f hf
  obtain ⟨hstart, hlt⟩ := hm.inside f hf
  obtain ⟨s', hs', hk⟩ := hm.loop f hf
  have hblock := hm.block f hf
  rw [hp] at hs' hblock
  have hne : f.stop ≠ e := by
    rintro rfl
    cases Program.blockEnd?_inj hblock hstop
    rw [hs] at hs'
    cases hs'
    exact hw hk
  exact ⟨by omega, by omega⟩

/-- A link keeps the stack in order if what comes behind it does. -/
theorem AtLink.runChain_cons {p : Program} {a o e : Nat} {ls : List Link} (hrun : RunnerKeeps run)
    (hs : p.get? o = some s) (hw : s.keyword? ≠ some .whileLoop) (hstop : p.blockEnd? o = some e)
    (hpass : ∀ {m : Machine}, m.LoopsOK → m.program = p → Past m e →
      Keeps p a (Machine.passOver ls (m.leave e ls)).2)
    (hnext : Machine.runChain run ls (m.leave e ls) w = (r, m', w') → Keeps p a m')
    (hm : AtLink p a o m) (hx : Machine.runChain run (⟨o, s, some e⟩ :: ls) m w = (r, m', w')) :
    Keeps p a m' := by
  have hoe := Program.blockEnd?_lt hstop
  simp only [Machine.runChain] at hx
  split at hx
  · cases hx
    exact hm.keeps
  · exact hnext hx
  · rcases hbody : run e (m.goto (o + 1)) w with ⟨rb, m₂, w₂⟩
    have hself : m.goto (o + 1) = m := by
      rw [← hm.pc]
      rfl
    rw [hself] at hbody hx
    have hblock := hstop
    rw [← hm.program] at hblock
    have hpc := hm.pc
    obtain ⟨hprogram, hok, hstart, hend, hdone⟩ :=
      hrun hm.ok hblock (by omega) (by omega) hbody
    rw [hm.program] at hprogram
    -- An error leaves the machine somewhere in the block.
    have hkeeps : Keeps p a m₂ := by
      refine ⟨hprogram, hok, ?_⟩
      intro o' e' ho' hoa hae
      obtain ⟨hbefore, hafter⟩ := hm.around o' e' ho' hoa hae
      have hinner := Program.blockEnd?_nested ho' hstop hbefore hafter
      exact ⟨by omega, by omega⟩
    rw [hbody] at hx
    cases rb with
    | failed e =>
        cases hx
        exact hkeeps
    | outOfFuel =>
        cases hx
        exact hkeeps
    | ok ok =>
        have hkept := hpass hok hprogram (past_of_stopped hok hprogram (hdone ok rfl) hs hw hstop)
        rcases hpassed : Machine.passOver ls (m₂.leave e ls) with ⟨rp, m₃⟩
        rw [hpassed] at hkept
        simp only [hpassed] at hx
        cases rp with
        | ok _ =>
            cases hx
            exact hkept
        | error e =>
            cases hx
            exact hkept

/-- A chain keeps the stack in order, whichever of its blocks runs and however that ends. -/
theorem AtLink.runChain {p : Program} {a o : Nat} {ls : List Link} (hrun : RunnerKeeps run)
    (hls : IsChain p o ls) : ∀ {m : Machine} {w : World σ}, AtLink p a o m →
    Machine.runChain run ls m w = (r, m', w') → Keeps p a m' := by
  induction hls with
  | unclosed hs ho hw hstop =>
      intro m w hm hx
      cases hx
      exact hm.keeps
  | last hs ho hw hstop =>
      intro m w hm hx
      refine hm.runChain_cons hrun hs hw hstop ?_ ?_ hx
      · intro m₂ hok hp hpast
        exact hpast.leave_last hok hp hm.around hstop
      · intro hrest
        cases hrest
        exact (hm.past hs hw hstop).leave_last hm.ok hm.program hm.around hstop
  | link hs ho hw hstop hrest ih =>
      intro m w hm hx
      refine hm.runChain_cons hrun hs hw hstop ?_ ?_ hx
      · intro m₂ hok hp hpast
        exact AtLink.passOver hrest (hpast.leave_next hok hp hm.around hstop hrest)
      · exact ih ((hm.past hs hw hstop).leave_next hm.ok hm.program hm.around hstop hrest)

/-! ### Steps and runs -/

theorem LoopsOK.atLink (hm : m.LoopsOK) (hs : m.next? = some s) (hc : s.closesBlock = false) :
    AtLink m.program m.pc m.pc (m.goto (m.pc + 1)) := by
  have hkeeps : Keeps m.program m.pc (m.goto (m.pc + 1)) :=
    hm.keeps_next hs hc rfl rfl (.refl _) rfl
  exact ⟨rfl, hkeeps.ok, .refl _ _, rfl⟩

/-- The chain that an `if` starts. -/
theorem isChain_chain {p : Program} {a : Nat} (hs : p.get? a = some s)
    (hk : s.keyword? = some .ifBranch) : IsChain p a (chain p a s) := by
  refine isChain_links p.size hs ?_ ?_
  · simp [Statement.opensBlock, hk, Keyword.opensBlock]
  · rw [hk]
    simp

/-- Executing a statement keeps the stack in order. -/
theorem LoopsOK.execute (hrun : RunnerKeeps run) (hm : m.LoopsOK) (hs : m.next? = some s)
    (hx : Machine.execute h run (m.goto (m.pc + 1)) m.pc s w = (r, m', w')) :
    Keeps m.program m.pc m' := by
  unfold Machine.execute at hx
  split at hx
  · next hk =>
    have hc := closesBlock_of_keyword hk (by simp)
    exact after_moved hx (enterLoop_spec ..) (hm.atLink hs hc).keeps
      (fun _ => hm.keeps_enterLoop hs hk)
  · cases hx
    exact hm.keeps_closeBlock hs
  · next hk =>
    have hc := closesBlock_of_keyword hk (by simp)
    unfold branch at hx
    split at hx
    · exact AtLink.runChain hrun (isChain_chain hs hk) (hm.atLink hs hc) hx
    · cases hx
      exact (hm.atLink hs hc).keeps
  · next hk =>
    cases hx
    exact (hm.atLink hs (closesBlock_of_keyword hk (by simp))).keeps
  · next hk =>
    cases hx
    exact (hm.atLink hs (closesBlock_of_keyword hk (by simp))).keeps
  · next hk =>
    have hc := closesBlock_of_keyword hk (by simp)
    exact after_moved hx (defineFunction_spec ..) (hm.atLink hs hc).keeps
      (fun _ => hm.keeps_defineFunction hs hk)
  · next hw he hif helif helse hfunc =>
    have hc : s.closesBlock = false := by
      unfold Statement.closesBlock
      simpa using he
    rcases hexec : (m.goto (m.pc + 1)).toContext.execute h run.body s w with ⟨r₁, c', w₁⟩
    rw [hexec] at hx
    cases hx
    exact hm.keeps_next hs hc rfl rfl (Context.within_execute hexec) rfl

/-- A step keeps the stack in order, whatever comes of it. -/
theorem LoopsOK.step {r : Outcome StatementError Step} (hrun : RunnerKeeps run) (hm : m.LoopsOK)
    (hs : m.next? = some s) (hx : Machine.step h run m w = (r, m', w')) :
    Keeps m.program m.pc m' := by
  rcases hexec : Machine.execute h run (m.goto (m.pc + 1)) m.pc s w with ⟨r₁, m₁, w₁⟩
  have hkeeps := hm.execute hrun hs hexec
  simp only [Machine.step, hs, hexec] at hx
  split at hx <;> cases hx <;> exact hkeeps

theorem step_ne_done (hs : m.next? = some s) : (Machine.step h run m w).1 ≠ .ok .done := by
  rcases hexec : Machine.execute h run (m.goto (m.pc + 1)) m.pc s w with ⟨r₁, m₁, w₁⟩
  simp only [Machine.step, hs, hexec]
  split <;> simp

/-- With the fuel, runs keep the stack in order.  A run that goes through is at its stop or at the
end of the program, and it does not leave a block that reaches up to the stop. -/
def RunsKeep (h : Host σ) (n : Nat) : Prop :=
  ∀ ⦃stop : Nat⦄ ⦃ok : Bool⦄ ⦃m m' : Machine⦄ ⦃w w' : World σ⦄ ⦃r : Outcome StatementError Bool⦄,
    m.LoopsOK → runFrom h n ok stop m w = (r, m', w') →
    m'.program = m.program ∧ m'.LoopsOK ∧
      (∀ ok', r = .ok ok' → stop ≤ m'.pc ∨ m.program.size ≤ m'.pc) ∧
      ∀ o, m.program.blockEnd? o = some stop → o < m.pc → m.pc ≤ stop →
        o < m'.pc ∧ m'.pc ≤ stop

theorem RunsKeep.runner {n : Nat} (hruns : RunsKeep h n) : RunnerKeeps (Machine.run h n) := by
  intro o e m m' w w' r hm hstop ho he hx
  obtain ⟨hp, hok, hdone, hblock⟩ := hruns hm hx
  obtain ⟨ho', he'⟩ := hblock o hstop ho he
  refine ⟨hp, hok, ho', he', ?_⟩
  intro ok hr
  have hsize := Program.blockEnd?_lt_size hstop
  rcases hdone ok hr with hpc | hpc <;> omega

theorem runsKeep (h : Host σ) : ∀ n, RunsKeep h n := by
  intro n
  induction n with
  | zero =>
      intro stop ok m m' w w' r hm hx
      cases hx
      exact ⟨rfl, hm, by simp, fun o _ ho hs => ⟨ho, hs⟩⟩
  | succ n ih =>
      intro stop ok m m' w w' r hm hx
      rw [runFrom_succ] at hx
      split at hx
      · next hlt =>
        rcases hstep : step h (Machine.run h n) m w with ⟨rs, m₁, w₁⟩
        rw [hstep] at hx
        cases hs : m.next? with
        | none =>
            simp only [Machine.step, hs] at hstep
            cases hstep
            cases hx
            refine ⟨rfl, hm, ?_, fun o _ ho hs => ⟨ho, hs⟩⟩
            intro ok' _
            exact Or.inr (Program.get?_eq_none_iff.1 hs)
        | some s =>
            have hkeeps := hm.step ih.runner hs hstep
            have hinside : ∀ o, m.program.blockEnd? o = some stop → o < m.pc → m.pc ≤ stop →
                o < m₁.pc ∧ m₁.pc ≤ stop := fun o hblock ho _ => hkeeps.reaches o stop hblock ho hlt
            cases rs with
            | failed e =>
                cases hx
                exact ⟨hkeeps.program, hkeeps.ok, by simp, hinside⟩
            | outOfFuel =>
                cases hx
                exact ⟨hkeeps.program, hkeeps.ok, by simp, hinside⟩
            | ok did =>
                cases did with
                | done => exact absurd (by rw [hstep]) (step_ne_done (h := h) (w := w) hs)
                | continued ok' =>
                    obtain ⟨hp, hok, hdone, hblock⟩ := ih hkeeps.ok hx
                    rw [hkeeps.program] at hp hdone hblock
                    refine ⟨hp, hok, hdone, ?_⟩
                    intro o hstop ho he
                    obtain ⟨ho', he'⟩ := hinside o hstop ho he
                    exact hblock o hstop ho' he'
      · next hlt =>
        cases hx
        refine ⟨rfl, hm, ?_, fun o _ ho hs => ⟨ho, hs⟩⟩
        intro ok' _
        exact Or.inl (by omega)

/-! ### All states of a machine -/

/-- The states that a machine can come to, step by step.  A step may fail and be followed by
another one, and its fuel may be gone in the middle of a body.  Besides, every link of a chain
that comes next may be entered. -/
inductive Visits (h : Host σ) (m₀ : Machine) : Machine → Prop
  | start : Visits h m₀ m₀
  | step {m : Machine} (hm : Visits h m₀ m) (fuel : Nat) (w : World σ) :
      Visits h m₀ (Machine.step h (Machine.run h fuel) m w).2.1
  | enter {m : Machine} {s : Statement} {l : Link} (hm : Visits h m₀ m) (hs : m.next? = some s)
      (hk : s.keyword? = some .ifBranch) (hl : l ∈ chain m.program m.pc s) :
      Visits h m₀ (m.goto (l.opener + 1))

theorem IsChain.mem_around {p : Program} {a o : Nat} {ls : List Link} (hls : IsChain p o ls) :
    p.Around a o → ∀ l ∈ ls, p.Around a l.opener ∧ l.opener < p.size := by
  induction hls with
  | unclosed hs ho hw hstop =>
      intro ha l hl
      cases List.mem_singleton.1 hl
      exact ⟨ha, Program.get?_lt hs⟩
  | last hs ho hw hstop =>
      intro ha l hl
      cases List.mem_singleton.1 hl
      exact ⟨ha, Program.get?_lt hs⟩
  | link hs ho hw hstop hrest ih =>
      intro ha l hl
      rcases List.mem_cons.1 hl with rfl | hl
      · exact ⟨ha, Program.get?_lt hs⟩
      · exact ih (hrest.around ha hstop) l hl

theorem LoopsOK.visits {m₀ : Machine} (hm₀ : m₀.LoopsOK) (hm : Visits h m₀ m) : m.LoopsOK := by
  induction hm with
  | start => exact hm₀
  | @step m _ fuel w ih =>
      rcases hstep : Machine.step h (Machine.run h fuel) m w with ⟨r, m', w'⟩
      cases hs : m.next? with
      | none =>
          simp only [Machine.step, hs] at hstep
          cases hstep
          exact ih
      | some s => exact (ih.step (runsKeep h fuel).runner hs hstep).ok
  | @enter m s l _ hs hk hl ih =>
      obtain ⟨haround, hlt⟩ := (isChain_chain hs hk).mem_around (.refl _ _) _ hl
      have hc := closesBlock_of_keyword hk (by simp)
      have hkeeps : Keeps m.program m.pc (m.goto (l.opener + 1)) :=
        ih.keeps hs hc rfl rfl (.refl _) haround hlt rfl
      exact hkeeps.ok

theorem LoopsOK.loops_eq_nil (hm : m.LoopsOK) (hpc : m.program.size ≤ m.pc) : m.loops = [] := by
  refine List.eq_nil_iff_forall_not_mem.2 ?_
  intro f hf
  have hsize := Program.blockEnd?_lt_size (hm.block f hf)
  obtain ⟨-, hstop⟩ := hm.inside f hf
  omega

/-- In every state that a new machine can come to, the stack of loops is in order.  So it is empty
when a run has gone through. -/
theorem loops_in_order (h : Host σ) (c : Context Program) (p : Program) :
    (∀ m, Visits h { toContext := c, program := p } m → m.LoopsOK) ∧
      ∀ n w ok m w', runUntilDone h n { toContext := c, program := p } w = (.ok ok, m, w') →
        m.loops = [] := by
  have hstart := loopsOK_start c p
  refine ⟨fun m hm => hstart.visits hm, ?_⟩
  intro n w ok m w' hx
  simp only [runUntilDone] at hx
  split at hx
  · next hrun =>
    cases hx
    obtain ⟨hp, hok, hdone, -⟩ := runsKeep h n hstart hrun
    refine hok.loops_eq_nil ?_
    rw [hp]
    rcases hdone _ rfl with hpc | hpc <;> exact hpc
  · cases hx
  · cases hx

/-- Two loops run, one inside the other. -/
theorem loops_in_order_nested_whiles :
    let statement operation arguments : Statement := ⟨operation, arguments, operation, 1⟩
    let p := Program.ofStatements [statement "while" ["x", "is", "0", "do"],
      statement "while" ["x", "is", "1", "do"], statement "end" [], statement "end" []]
    let c : Context Program := { env := (∅ : Environment).insert "x" (.int 2) }
    let h : Host Unit := ⟨{}, fun _ u => (.error (.unknownFunction ""), u)⟩
    ∃ m, Visits h { toContext := c, program := p } m ∧
      m.loops.map (fun f => (f.start, f.stop)) = [(1, 2), (0, 3)] ∧ m.LoopsOK := by
  refine ⟨_, .step (.step .start 0 { state := () }) 0 { state := () }, by decide, ?_⟩
  exact (loops_in_order _ _ _).1 _ (.step (.step .start 0 _) 0 _)

end Machine

end BareBones
