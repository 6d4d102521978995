/-
Control stays out of the bodies of functions.

The statements between a `func` and its `end` are run by the machine of a call, never by the machine
whose program they stand in.  A machine starts outside of all functions, and no statement leads it
into one: a `func` leads behind its block, a loop lies with all of itself in a function or outside
of it, and the blocks of a chain stand side by side.  An error that is not recovered from may leave
the machine anywhere, but no statement is run after it.
-/
import BareBones.Proofs.Loops
import BareBones.Proofs.Structured.Forward

namespace BareBones

variable {σ : Type}

namespace Program

/-- The block from `o` to `e` is around the address, or ends there. -/
structure Encloses (p : Program) (o e a : Nat) : Prop where
  block : p.blockEnd? o = some e
  behind : o < a
  upto : a ≤ e

/-- The address lies in a function: behind a `func` that is closed, and not behind its `end`. -/
def InFunction (p : Program) (a : Nat) : Prop :=
  ∃ o e s, p.get? o = some s ∧ s.keyword? = some .func ∧ p.blockEnd? o = some e ∧ o < a ∧ a ≤ e

variable {p : Program} {a b o e : Nat} {s : Statement}

/-! ### Blocks around an address -/

/-- What is around the next address is around the address itself, or starts there. -/
theorem Encloses.pred (h : p.Encloses o e (a + 1)) (ho : o ≠ a) : p.Encloses o e a := by
  obtain ⟨hblock, hbehind, hupto⟩ := h
  exact ⟨hblock, by omega, by omega⟩

/-- What is around an opener is around its block. -/
theorem Encloses.stop (h : p.Encloses o e a) (hblock : p.blockEnd? a = some b) : b < e := by
  obtain ⟨s, hs, hopens, -⟩ := blockEnd?_eq_some_iff.1 hblock
  have hne := ne_of_blockEnd? h.block hs (Statement.closesBlock_eq_false_of_opensBlock hopens)
  have hupto := h.upto
  exact blockEnd?_nested h.block hblock h.behind (by omega)

/-- What is around an opener is around its `end`. -/
theorem Encloses.of_opener (h : p.Encloses o e a) (hblock : p.blockEnd? a = some b) :
    p.Encloses o e b := by
  have hlt := blockEnd?_lt hblock
  have hbehind := h.behind
  exact ⟨h.block, by omega, Nat.le_of_lt (h.stop hblock)⟩

/-- What is around the address behind a block is around the block. -/
theorem Encloses.of_behind (h : p.Encloses o e (b + 1)) (hblock : p.blockEnd? a = some b) :
    p.Encloses o e a := by
  obtain ⟨hb, ho, he⟩ := h
  have hlt := blockEnd?_lt hblock
  obtain ⟨s, hs, hopens, -⟩ := blockEnd?_eq_some_iff.1 hb
  have hne := ne_of_blockEnd? hblock hs (Statement.closesBlock_eq_false_of_opensBlock hopens)
  rcases Nat.lt_trichotomy o a with hbefore | rfl | hafter
  · exact ⟨hb, hbefore, by omega⟩
  · rw [hblock] at hb
    cases hb
    omega
  · have hinner := blockEnd?_nested hblock hb hafter (by omega)
    omega

/-! ### Functions around an address -/

theorem not_inFunction_zero (p : Program) : ¬ p.InFunction 0 := by
  rintro ⟨o, e, s, -, -, -, ho, -⟩
  omega

/-- Only a `func` leads into a function. -/
theorem not_inFunction_succ (ha : ¬ p.InFunction a) (hs : p.get? a = some s)
    (hk : s.keyword? ≠ some .func) : ¬ p.InFunction (a + 1) := by
  rintro ⟨o, e, s', hs', hk', hblock, ho, he⟩
  have hne : o ≠ a := by
    rintro rfl
    rw [hs] at hs'
    cases hs'
    exact hk hk'
  obtain ⟨-, ho', he'⟩ := Encloses.pred ⟨hblock, ho, he⟩ hne
  exact ha ⟨o, e, s', hs', hk', hblock, ho', he'⟩

/-- Behind a block that is outside of functions, one is outside of functions. -/
theorem not_inFunction_behind (ho : ¬ p.InFunction o) (hstop : p.blockEnd? o = some e) :
    ¬ p.InFunction (e + 1) := by
  rintro ⟨o', e', s, hs, hk, hblock, ho', he'⟩
  obtain ⟨-, hbehind, hupto⟩ := Encloses.of_behind ⟨hblock, ho', he'⟩ hstop
  exact ho ⟨o', e', s, hs, hk, hblock, hbehind, hupto⟩

/-- If the `end` of a block is outside of functions, so is its opener. -/
theorem not_inFunction_opener (he : ¬ p.InFunction e) (hstop : p.blockEnd? o = some e) :
    ¬ p.InFunction o := by
  rintro ⟨o', e', s, hs, hk, hblock, ho', he'⟩
  obtain ⟨-, hbehind, hupto⟩ := Encloses.of_opener ⟨hblock, ho', he'⟩ hstop
  exact he ⟨o', e', s, hs, hk, hblock, hbehind, hupto⟩

end Program

namespace Machine

/-- The stack of loops is in order, and the next statement is not one of a function. -/
structure Outside (m : Machine) : Prop where
  loops : m.LoopsOK
  out : ¬ m.program.InFunction m.pc

theorem outside_start (c : Context Program) (p : Program) :
    Outside { toContext := c, program := p } :=
  ⟨loopsOK_start c p, Program.not_inFunction_zero p⟩

variable {h : Host σ} {run : Runner σ} {m m' : Machine} {s : Statement} {w w' : World σ}
  {r : Outcome Failure Bool}

theorem not_goesOn_raise {e : RuntimeError} (he : e.isRecoverable = false) :
    ¬ GoesOn (.raise e) := by
  intro hgo
  have hrec : e.isRecoverable = true := hgo
  rw [he] at hrec
  cases hrec

/-! ### Moves -/

/-- The second machine differs from the first in its address and its loops only. -/
structure Moves (m m' : Machine) : Prop where
  context : m'.toContext = m.toContext
  program : m'.program = m.program

theorem EntersLoop.moves {a : Nat} {args : List String} (hx : EntersLoop m a args m') :
    Moves m m' := by
  cases hx <;> exact ⟨rfl, rfl⟩

theorem closeBlock_moves (m : Machine) (a : Nat) : Moves m (closeBlock m a) := by
  unfold closeBlock
  split
  · exact ⟨rfl, rfl⟩
  · split
    · dsimp only
      split <;> exact ⟨rfl, rfl⟩
    · exact ⟨rfl, rfl⟩

/-- Passing over links changes nothing but the address. -/
theorem passOver_goto : ∀ (ls : List Link) (m : Machine),
    (passOver ls m).2 = m.goto (passOver ls m).2.pc := by
  intro ls
  induction ls with
  | nil =>
      intro m
      rfl
  | cons l ls ih =>
      intro m
      rw [passOver]
      cases l.stop with
      | none => rfl
      | some stop => exact ih (m.leave stop ls)

theorem passOver_moves (ls : List Link) (m : Machine) : Moves m (passOver ls m).2 := by
  rw [passOver_goto]
  exact ⟨rfl, rfl⟩

/-! ### Loops and functions -/

/-- A `while` is entered or passed over. -/
theorem Outside.out_enterLoop (hm : m.Outside) (hs : m.next? = some s)
    (hk : s.keyword? = some .whileLoop)
    (hx : EntersLoop (m.goto (m.pc + 1)) m.pc s.arguments m') :
    ¬ m.program.InFunction m'.pc := by
  cases hx with
  | past hblock => exact Program.not_inFunction_behind hm.out hblock
  | inside =>
      refine Program.not_inFunction_succ hm.out hs ?_
      rw [hk]
      simp

theorem enterLoop_not_recoverable {a : Nat} {args : List String} {e : RuntimeError}
    (hx : enterLoop m a args = (.error e, m')) : e.isRecoverable = false := by
  unfold enterLoop at hx
  split at hx
  · cases hx
    rfl
  · split at hx
    · next hg =>
      cases hx
      exact Structured.resolve_not_recoverable hg
    · split at hx <;> cases hx

/-- An `end` leads behind it, or to the start of the loop that it closes. -/
theorem Outside.out_closeBlock (hm : m.Outside) (hs : m.next? = some s)
    (hk : s.keyword? = some .endBlock) :
    ¬ m.program.InFunction (closeBlock (m.goto (m.pc + 1)) m.pc).pc := by
  have hnext : ¬ m.program.InFunction (m.pc + 1) := by
    refine Program.not_inFunction_succ hm.out hs ?_
    rw [hk]
    simp
  unfold closeBlock
  rw [show (m.goto (m.pc + 1)).loops = m.loops from rfl]
  cases hloops : m.loops with
  | nil => exact hnext
  | cons f loops =>
      have hblock := hm.loops.block f (by rw [hloops]; exact List.mem_cons_self)
      dsimp only
      split
      · next hstop =>
        split
        · exact hnext
        · refine Program.not_inFunction_opener ?_ hblock
          rw [hstop]
          exact hm.out
      · exact hnext

/-- A `func` leads behind its block. -/
theorem Outside.out_defineFunction (hm : m.Outside)
    (hx : DefinesFunction (m.goto (m.pc + 1)) m.pc s m') :
    ¬ m.program.InFunction m'.pc := by
  obtain ⟨-, hblock, -⟩ := hx
  exact Program.not_inFunction_behind hm.out hblock

theorem defineFunction_not_recoverable {a : Nat} {e : RuntimeError}
    (hx : defineFunction m a s = (.error e, m')) : e.isRecoverable = false := by
  unfold defineFunction at hx
  split at hx
  · split at hx
    · cases hx
      rfl
    · split at hx
      · next hf =>
        cases hx
        exact Structured.ofHead_not_recoverable hf
      · cases hx
  · cases hx
    rfl

/-- A statement without a result that lets the run go on has made its change. -/
theorem change_of_moved {x : Except RuntimeError Unit × Machine} {Change : Machine → Prop}
    (hspec : AllOrNothing m Change x)
    (herror : ∀ e, x = (.error e, m) → e.isRecoverable = false) (hx : moved w x = (r, m', w'))
    (hgo : GoesOn r) : Change m' := by
  cases hspec with
  | done hchange =>
      cases hx
      exact hchange
  | failed e =>
      cases hx
      exact absurd hgo (not_goesOn_raise (herror e rfl))

/-! ### Chains -/

theorem taken_not_recoverable {l : Link} {env : Environment} {e : RuntimeError}
    (hx : l.taken env = .error e) : e.isRecoverable = false := by
  unfold Link.taken at hx
  split at hx
  · cases hx
  · split at hx
    · next hg =>
      cases hx
      exact Structured.resolve_not_recoverable hg
    · cases hx

theorem passOver_not_recoverable {e : RuntimeError} : ∀ {ls : List Link} {m : Machine},
    passOver ls m = (.error e, m') → e.isRecoverable = false := by
  intro ls
  induction ls with
  | nil =>
      intro m hx
      cases hx
  | cons l ls ih =>
      intro m hx
      simp only [passOver] at hx
      split at hx
      · cases hx
        rfl
      · exact ih hx

section Behind

variable {p : Program} {P : Nat → Prop}

/-- What is true behind each block at whose opener it is true is true at all links of a chain. -/
theorem IsChain.behind_mem (hP : ∀ o e, P o → p.blockEnd? o = some e → P (e + 1)) {o : Nat}
    {ls : List Link} (hls : IsChain p o ls) : P o → ∀ l ∈ ls, P l.opener := by
  induction hls with
  | unclosed hs ho hw hstop =>
      intro hout l hl
      rw [List.mem_singleton.1 hl]
      exact hout
  | last hs ho hw hstop =>
      intro hout l hl
      rw [List.mem_singleton.1 hl]
      exact hout
  | link hs ho hw hstop hrest ih =>
      intro hout l hl
      rcases List.mem_cons.1 hl with rfl | hl
      · exact hout
      · exact ih (hP _ _ hout hstop) l hl

/-- Passing over links leads behind the last of them. -/
theorem IsChain.behind_passOver (hP : ∀ o e, P o → p.blockEnd? o = some e → P (e + 1)) {o : Nat}
    {ls : List Link} (hls : IsChain p o ls) : P o → ∀ {m : Machine},
    passOver ls m = (.ok (), m') → ∃ o e, P o ∧ p.blockEnd? o = some e ∧ m'.pc = e + 1 := by
  induction hls with
  | unclosed hs ho hw hstop =>
      intro hout m hx
      cases hx
  | last hs ho hw hstop =>
      intro hout m hx
      cases hx
      exact ⟨_, _, hout, hstop, rfl⟩
  | link hs ho hw hstop hrest ih =>
      intro hout m hx
      exact ih (hP _ _ hout hstop) hx

/-- A link leads where what comes behind it leads, if the run goes on. -/
theorem behind_runChain_cons {Q : Prop} {o e : Nat} {ls : List Link}
    (hpass : ∀ {m : Machine}, passOver ls (m.leave e ls) = (.ok (), m') → Q)
    (hnext : runChain run ls (m.leave e ls) w = (r, m', w') → Q)
    (hx : runChain run (⟨o, s, some e⟩ :: ls) m w = (r, m', w')) (hgo : GoesOn r) : Q := by
  simp only [runChain] at hx
  split at hx
  · next htaken =>
    cases hx
    exact absurd hgo (not_goesOn_raise (taken_not_recoverable htaken))
  · exact hnext hx
  · split at hx
    · cases hx
      exact hgo.elim
    · cases hx
      exact hgo.elim
    · next m₂ w₂ hbody =>
      split at hx
      · next hpassed =>
        cases hx
        exact hpass hpassed
      · next hpassed =>
        cases hx
        exact absurd hgo (not_goesOn_raise (passOver_not_recoverable hpassed))

/-- A chain leads behind its last link, whichever of its blocks runs. -/
theorem IsChain.behind_runChain (hP : ∀ o e, P o → p.blockEnd? o = some e → P (e + 1)) {o : Nat}
    {ls : List Link} (hls : IsChain p o ls) (hgo : GoesOn r) : P o →
    ∀ {m : Machine} {w : World σ}, runChain run ls m w = (r, m', w') →
    ∃ o e, P o ∧ p.blockEnd? o = some e ∧ m'.pc = e + 1 := by
  induction hls with
  | unclosed hs ho hw hstop =>
      intro hout m w hx
      cases hx
      exact absurd hgo (not_goesOn_raise rfl)
  | last hs ho hw hstop =>
      intro hout m w hx
      refine behind_runChain_cons ?_ ?_ hx hgo
      · intro m₂ hpassed
        cases hpassed
        exact ⟨_, _, hout, hstop, rfl⟩
      · intro hrest
        cases hrest
        exact ⟨_, _, hout, hstop, rfl⟩
  | link hs ho hw hstop hrest ih =>
      intro hout m w hx
      have hbehind := hP _ _ hout hstop
      refine behind_runChain_cons ?_ ?_ hx hgo
      · intro m₂ hpassed
        exact hrest.behind_passOver hP hbehind hpassed
      · exact ih hbehind

end Behind

/-! ### Statements and steps -/

/-- A statement with none of the keywords of blocks neither opens nor closes one. -/
theorem not_block_of_keyword (hwhile : s.keyword? ≠ some .whileLoop)
    (hend : s.keyword? ≠ some .endBlock) (hif : s.keyword? ≠ some .ifBranch)
    (helif : s.keyword? ≠ some .elifBranch) (helse : s.keyword? ≠ some .elseBranch)
    (hfunc : s.keyword? ≠ some .func) : s.opensBlock = false ∧ s.closesBlock = false := by
  unfold Statement.opensBlock Statement.closesBlock
  cases hk : s.keyword? with
  | none => exact ⟨rfl, rfl⟩
  | some k => cases k <;> simp_all [Keyword.opensBlock]

/-- What the next statement has done, if it lets the run go on. -/
inductive Proceeds (run : Runner σ) (m : Machine) (s : Statement) (w : World σ)
    (r : Outcome Failure Bool) (m' : Machine) (w' : World σ) : Prop
  | loop (hk : s.keyword? = some .whileLoop)
      (hx : EntersLoop (m.goto (m.pc + 1)) m.pc s.arguments m')
  | close (hk : s.keyword? = some .endBlock) (hx : m' = closeBlock (m.goto (m.pc + 1)) m.pc)
  | chain (hk : s.keyword? = some .ifBranch)
      (hx : runChain run (chain m.program m.pc s) (m.goto (m.pc + 1)) w = (r, m', w'))
  | func (hk : s.keyword? = some .func) (hx : DefinesFunction (m.goto (m.pc + 1)) m.pc s m')
  | plain {c : Context Program} (hopens : s.opensBlock = false) (hcloses : s.closesBlock = false)
      (hw : m.Writes s c) (hx : m' = { m with toContext := c, pc := m.pc + 1 })

theorem proceeds_of_execute (hgo : GoesOn r)
    (hx : execute h run (m.goto (m.pc + 1)) m.pc s w = (r, m', w')) :
    Proceeds run m s w r m' w' := by
  unfold execute at hx
  split at hx
  · next hk =>
    exact .loop hk (change_of_moved (enterLoop_spec ..) (fun _ => enterLoop_not_recoverable) hx hgo)
  · next hk =>
    cases hx
    exact .close hk rfl
  · next hk =>
    unfold branch at hx
    split at hx
    · exact .chain hk hx
    · cases hx
      exact absurd hgo (not_goesOn_raise rfl)
  · cases hx
    exact absurd hgo (not_goesOn_raise rfl)
  · cases hx
    exact absurd hgo (not_goesOn_raise rfl)
  · next hk =>
    exact .func hk
      (change_of_moved (defineFunction_spec ..) (fun _ => defineFunction_not_recoverable) hx hgo)
  · next hwhile hend hif helif helse hfunc =>
    obtain ⟨hopens, hcloses⟩ := not_block_of_keyword hwhile hend hif helif helse hfunc
    rcases hexec : (m.goto (m.pc + 1)).toContext.execute h run.body s w with ⟨r₁, c', w₁⟩
    rw [hexec] at hx
    cases hx
    exact .plain hopens hcloses (Context.execute_writes hexec) rfl

/-- A step after which the run goes on has executed its statement. -/
theorem proceeds_of_step {ok : Bool}
    (hx : step h run m w = (.ok (.continued ok), m', w')) :
    ∃ s r w₁, m.next? = some s ∧ GoesOn r ∧ Proceeds run m s w r m' w₁ := by
  cases hs : m.next? with
  | none =>
      simp only [step, hs] at hx
      cases hx
  | some s =>
      rcases hexec : execute h run (m.goto (m.pc + 1)) m.pc s w with ⟨r, m₁, w₁⟩
      simp only [step, hs, hexec] at hx
      split at hx
      · next hsettle =>
        cases hx
        have hgo : GoesOn r := Structured.goesOn_of_settle hsettle
        exact ⟨s, r, w₁, rfl, hgo, proceeds_of_execute hgo hexec⟩
      · cases hx
      · cases hx

/-- A statement that lets the run go on leads into no function. -/
theorem Outside.out_proceeds (hm : m.Outside) (hs : m.next? = some s) (hgo : GoesOn r)
    (hx : Proceeds run m s w r m' w') : ¬ m.program.InFunction m'.pc := by
  cases hx with
  | loop hk hx => exact hm.out_enterLoop hs hk hx
  | close hk hx =>
      rw [hx]
      exact hm.out_closeBlock hs hk
  | chain hk hx =>
      have hbehind : ∀ o e, ¬ m.program.InFunction o → m.program.blockEnd? o = some e →
          ¬ m.program.InFunction (e + 1) := fun _ _ => Program.not_inFunction_behind
      obtain ⟨o, e, ho, hblock, hpc⟩ := (isChain_chain hs hk).behind_runChain hbehind hgo hm.out hx
      rw [hpc]
      exact hbehind o e ho hblock
  | func hk hx => exact hm.out_defineFunction hx
  | plain hopens hcloses hw hx =>
      rw [hx]
      refine Program.not_inFunction_succ hm.out hs ?_
      intro hk
      simp [Statement.opensBlock, hk, Keyword.opensBlock] at hopens

/-- A step after which the run goes on leads into no function. -/
theorem Outside.step {ok : Bool} (hrun : RunnerKeeps run) (hm : m.Outside)
    (hx : Machine.step h run m w = (.ok (.continued ok), m', w')) :
    m'.program = m.program ∧ m'.Outside := by
  obtain ⟨s, r, w₁, hs, hgo, hproceeds⟩ := proceeds_of_step hx
  have hkeeps := hm.loops.step hrun hs hx
  refine ⟨hkeeps.program, hkeeps.ok, ?_⟩
  rw [hkeeps.program]
  exact hm.out_proceeds hs hgo hproceeds

end Machine

end BareBones
