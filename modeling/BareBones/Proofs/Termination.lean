/-
Programs without loops come to an end.

Without a `while` a machine never goes back: only the `end` of a loop leads to an earlier address.
A call starts over at the first statement of a body, but it is one deeper than its caller, and the
settings bound the depth.  So there is a number that gets smaller from each point of a run to the
next,

    (calls that may still lie inside each other) * (size + 1) + (statements ahead),

where the size is that of the program, which is more than that of any body.  A number of this kind
bounds the fuel of any run, whatever it is made of.
-/
import BareBones.Proofs.Dispatch

namespace BareBones

variable {σ : Type}

/-! ### A rank bounds the fuel -/

namespace Point

open Machine

variable {h : Host σ}

/-- A number that gets smaller from each point to the next bounds the fuel that a run needs. -/
theorem finishes_of_rank (rank : Point σ → Nat) : ∀ (n : Nat) {x : Point σ} {ok : Bool},
    (∀ y z, Reaches h x y → Next h y z → rank z < rank y) → rank x < n →
    Finishes h x.stop n ok x.machine x.world := by
  intro n
  induction n with
  | zero =>
      intro x ok _ hn
      omega
  | succ n ih =>
      intro x ok hrank hn
      have hnext : ∀ {y : Point σ} {ok : Bool}, Next h x y →
          Finishes h y.stop n ok y.machine y.world := by
        intro y ok hxy
        have hlt := hrank x y .refl hxy
        exact ih (fun y' z hy => hrank y' z (hy.head hxy)) (by omega)
      rw [Finishes, runFrom_succ]
      split
      · next hpc =>
        cases hs : x.machine.next? with
        | none => simp [Machine.step, hs]
        | some s =>
            have hdispatches : x.Dispatches s := ⟨hpc, hs⟩
            have hstep : (Machine.step h (Machine.run h n) x.machine x.world).1 ≠ .outOfFuel :=
              step_ne_outOfFuel hs (execute_ne_outOfFuel fun n' hn' =>
                hnext (.inside hdispatches hn'))
            rcases hx : Machine.step h (Machine.run h n) x.machine x.world
              with ⟨(ok' | _) | e | _, m, w⟩
            · exact hnext (.turn hdispatches hx)
            · simp
            · simp
            · rw [hx] at hstep
              exact absurd rfl hstep
      · simp

end Point

/-! ### Properties of a program and all bodies -/

namespace Machine

variable {h : Host σ} {P : Program → Prop}

/-- The property is true of the program and of the bodies of all functions. -/
def Everywhere (P : Program → Prop) (p : Program) (c : Context Program) : Prop :=
  P p ∧ ∀ name f, c.functions.get? name = some f → P f.body

theorem everywhere_start {p : Program} (hp : P p) (env : Environment) :
    Everywhere P p { env := env } := by
  refine ⟨hp, ?_⟩
  intro name f hf
  cases hf

/-- What the parts of a program inherit stays true everywhere. -/
theorem kept_everywhere (hP : ∀ p a b, P p → P (p.slice a b)) : Kept (Everywhere P) := by
  refine ⟨?_, ?_⟩
  · intro p c c' s ⟨hp, hbodies⟩ hw
    refine ⟨hp, ?_⟩
    rw [hw.functions]
    exact hbodies
  · intro p c a stop s f ⟨hp, hbodies⟩ _ _ _ _ hf
    refine ⟨hp, ?_⟩
    intro name g hg
    rw [NameMap.get?_insert] at hg
    split at hg
    · cases hg
      obtain ⟨name, params, -, -, -, rfl⟩ := Function.define_eq_ok hf
      exact hP p _ _ hp
    · exact hbodies name g hg

theorem Everywhere.enter {p : Program} {c : Context Program} {name : String} {args : List String}
    {body : Program} {callee : Context Program} (hc : Everywhere P p c)
    (hx : c.enter h name args = .ok (body, callee)) : Everywhere P body callee := by
  obtain ⟨f, env, hf, -, -, rfl, rfl⟩ := Context.enter_eq_ok hx
  exact ⟨hc.2 name f hf, hc.2⟩

end Machine

/-! ### Programs without loops -/

namespace Program

/-- No statement of the program is a `while`, be it in a function or not. -/
def LoopFree (p : Program) : Prop :=
  ∀ s ∈ p.statements.toList, s.keyword? ≠ some .whileLoop

instance (p : Program) : Decidable p.LoopFree :=
  inferInstanceAs (Decidable (∀ s ∈ p.statements.toList, s.keyword? ≠ some .whileLoop))

variable {p : Program}

theorem LoopFree.get? (hp : p.LoopFree) {a : Nat} {s : Statement} (hs : p.get? a = some s) :
    s.keyword? ≠ some .whileLoop := by
  refine hp s ?_
  rw [Array.mem_toList_iff]
  exact Array.mem_of_getElem? hs

theorem LoopFree.slice (hp : p.LoopFree) (a b : Nat) : (p.slice a b).LoopFree := by
  intro s hs
  exact hp s (List.mem_of_mem_drop (List.mem_of_mem_take hs))

theorem size_slice_le (p : Program) (a b : Nat) : (p.slice a b).size ≤ p.size := by
  have hsize : (p.slice a b).size = min (b - a) (p.size - a) := by
    simp [Program.slice, ofStatements, size]
  omega

theorem le_behind {a o e : Nat} (ho : a ≤ o) (hblock : p.blockEnd? o = some e) : a ≤ e + 1 := by
  have hlt := blockEnd?_lt hblock
  omega

end Program

namespace Machine

variable {h : Host σ} {run : Runner σ} {m m' : Machine} {s : Statement} {w w' : World σ}
  {r : Outcome Failure Bool}

theorem LoopsOK.loops_eq_nil_of_loopFree (hm : m.LoopsOK) (hfree : m.program.LoopFree) :
    m.loops = [] := by
  refine List.eq_nil_iff_forall_not_mem.2 ?_
  intro f hf
  obtain ⟨s, hs, hk⟩ := hm.loop f hf
  exact hfree.get? hs hk

theorem DefinesFunction.lt_pc {a : Nat} (hx : DefinesFunction m a s m') : a < m'.pc := by
  obtain ⟨-, hblock, -⟩ := hx
  exact Nat.lt_succ_of_lt (Program.blockEnd?_lt hblock)

/-- Without loops, a statement that lets the run go on leads to a later address. -/
theorem LoopsOK.pc_lt_proceeds (hm : m.LoopsOK) (hfree : m.program.LoopFree)
    (hs : m.next? = some s) (hgo : GoesOn r) (hx : Proceeds run m s w r m' w') :
    m.pc < m'.pc := by
  cases hx with
  | loop hk hx => exact absurd hk (hfree.get? hs)
  | close hk hx =>
      rw [hx, closeBlock, show (m.goto (m.pc + 1)).loops = m.loops from rfl,
        hm.loops_eq_nil_of_loopFree hfree]
      exact Nat.lt_succ_self m.pc
  | chain hk hx =>
      obtain ⟨o, e, ho, hblock, hpc⟩ := (isChain_chain hs hk).behind_runChain
        (fun _ _ => Program.le_behind) hgo (Nat.le_refl m.pc) hx
      have hlt := Program.blockEnd?_lt hblock
      omega
  | func hk hx => exact hx.lt_pc
  | plain hopens hcloses hw hx =>
      rw [hx]
      exact Nat.lt_succ_self m.pc

/-- A program runs in one scope. -/
theorem kept_scope (sc : Scope) : Kept fun _ c => c.scope = sc := by
  refine ⟨?_, ?_⟩
  · intro p c c' s hc hw
    rw [hw.scope, hc]
  · intro p c a stop s f hc _ _ _ _ _
    exact hc

end Machine

namespace Point

open Machine

variable {h : Host σ} {x y : Point σ}

/-- How much may still come: the statements ahead, and a program of the size for each call that may
still lie inside. -/
def rank (limit size : Nat) (x : Point σ) : Nat :=
  (limit - x.machine.scope.depth) * (size + 1) + (x.machine.program.size - x.machine.pc)

/-- Without loops, and with no body longer than the size, the rank gets smaller from each point to
the next. -/
theorem Next.rank_lt {size : Nat} (hxy : Next h x y) (hx : Confined x.stop x.machine)
    (hfree : Everywhere (fun p => p.LoopFree ∧ p.size ≤ size) x.machine.program
      x.machine.toContext) :
    y.rank h.settings.maxCallDepth size < x.rank h.settings.maxCallDepth size := by
  cases hxy with
  | @inside s n hs hn =>
      have hpc := Program.get?_lt hs.2
      rcases nested?_cases hn with ⟨hk, l, stop, rest, hl, rfl⟩ | ⟨name, args, p, c, -, hc, rfl⟩
      · obtain ⟨hmem, -⟩ := mem_of_entered? hl
        have hopener : x.machine.pc ≤ l.opener :=
          (isChain_chain hs.2 hk).behind_mem (fun _ _ => Program.le_behind) (Nat.le_refl _) l hmem
        show _ * (size + 1) + (x.machine.program.size - (l.opener + 1)) < _ * (size + 1) + _
        refine Nat.add_lt_add_left ?_ _
        omega
      · obtain ⟨f, env, hf, hdepth, -, rfl, rfl⟩ := Context.enter_eq_ok hc
        obtain ⟨-, hsize⟩ := hfree.2 name f hf
        have hdepth : x.machine.scope.depth < h.settings.maxCallDepth := hdepth
        show (h.settings.maxCallDepth - (x.machine.scope.depth + 1)) * (size + 1) +
          (f.body.size - 0) < (h.settings.maxCallDepth - x.machine.scope.depth) * (size + 1) + _
        rw [show h.settings.maxCallDepth - x.machine.scope.depth =
          h.settings.maxCallDepth - (x.machine.scope.depth + 1) + 1 by omega, Nat.succ_mul]
        omega
  | @turn s n ok m w hs hstep =>
      have hpc := Program.get?_lt hs.2
      obtain ⟨s', r, w₁, hs', hgo, hproceeds⟩ := proceeds_of_step hstep
      have hlt := hx.outside.loops.pc_lt_proceeds hfree.1.1 hs' hgo hproceeds
      obtain ⟨hp, hscope⟩ := (kept_scope x.machine.scope).step ((kept_scope _).runner n) rfl hstep
      show (_ - m.scope.depth) * (size + 1) + (m.program.size - m.pc) < _
      rw [hp, hscope]
      refine Nat.add_lt_add_left ?_ _
      omega

end Point

namespace Machine

/-- At all points of the run of a program without loops there are none, and no body is longer than
the program. -/
theorem loopFree_reaches {h : Host σ} {p : Program} (hp : p.LoopFree) {env : Environment}
    {w : World σ} {y : Point σ} (hy : Point.Reaches h (.start { env := env } p w) y) :
    Everywhere (fun q => q.LoopFree ∧ q.size ≤ p.size) y.machine.program y.machine.toContext := by
  refine (kept_everywhere ?_).reaches (fun hc => hc.enter) hy
    (everywhere_start ⟨hp, Nat.le_refl p.size⟩ env)
  intro q a b ⟨hq, hsize⟩
  exact ⟨hq.slice a b, Nat.le_trans (q.size_slice_le a b) hsize⟩

theorem finishes_of_loopFree (h : Host σ) {p : Program} (hp : p.LoopFree) (env : Environment)
    (w : World σ) : Finishes h p.size ((h.settings.maxCallDepth + 1) * (p.size + 1)) true
      { env := env, program := p } w := by
  have hbound : (h.settings.maxCallDepth - 0) * (p.size + 1) + (p.size - 0) <
      (h.settings.maxCallDepth + 1) * (p.size + 1) := by
    rw [Nat.succ_mul, Nat.sub_zero]
    omega
  refine Point.finishes_of_rank (x := .start { env := env } p w)
    (Point.rank h.settings.maxCallDepth p.size) _ ?_ hbound
  intro y z hy hyz
  exact hyz.rank_lt (hy.confined (confined_start _ p p.size)) (loopFree_reaches hp hy)

/-- A program without loops comes to an end, whatever the variables it starts with, the evaluator,
the limits and the calls its functions make of each other: a fuel that depends on the size of the
program and the depth of calls is enough. -/
theorem loopFree_run_ends (h : Host σ) (p : Program) (hp : p.LoopFree) (env : Environment)
    (w : World σ) : ∃ r m w', r ≠ .outOfFuel ∧
      ∀ n, (h.settings.maxCallDepth + 1) * (p.size + 1) ≤ n →
        runUntilDone h n { env := env, program := p } w = (r, m, w') := by
  have hfin : (runUntilDone h ((h.settings.maxCallDepth + 1) * (p.size + 1))
      { env := env, program := p } w).1 ≠ .outOfFuel := by
    rw [runUntilDone_finishes_iff]
    exact finishes_of_loopFree h hp env _
  exact ⟨_, _, _, hfin, fun n hn => runUntilDone_mono hn hfin⟩

/-- Two functions call each other, one of them in a conditional, until the depth is exceeded. -/
theorem loopFree_run_ends_in_recursion :
    let statement operation arguments : Statement := ⟨operation, arguments, operation, 1⟩
    let p := Program.ofStatements [statement "func" ["F"], statement "if" ["x", "is", "0"],
      statement "G" [], statement "end" [], statement "end" [], statement "func" ["G"],
      statement "clear" ["x"], statement "F" [], statement "end" [], statement "G" []]
    let h : Host Unit := ⟨{ maxCallDepth := 5 }, fun _ u => (.error (.unknownFunction ""), u)⟩
    p.LoopFree ∧ ∃ m w', ∀ n, 66 ≤ n →
      runUntilDone h n { program := p } { state := () } =
        (.failed ⟨1, 1, .function "G" 5, "F", .callDepthExceeded 5⟩, m, w') := by
  intro statement p h
  have hp : p.LoopFree := by decide
  obtain ⟨r, m, w', -, hends⟩ := loopFree_run_ends h p hp ∅ { state := () }
  have hr : (runUntilDone h 66 { program := p } { state := () }).1 =
      .failed ⟨1, 1, .function "G" 5, "F", .callDepthExceeded 5⟩ := by
    decide +kernel
  have hends : ∀ n, 66 ≤ n → runUntilDone h n { program := p } { state := () } = (r, m, w') := hends
  rw [hends 66 (Nat.le_refl 66)] at hr
  refine ⟨hp, m, w', ?_⟩
  intro n hn
  rw [hends n hn, show r = _ from hr]

end Machine

end BareBones
