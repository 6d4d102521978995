/-
The machine follows the tree.

Whatever running a tree comes to, the machine that runs the flattened tree comes to as well.  The
statement that carries the induction is about a tree anywhere inside a program: if its run goes
through, a run of the machine from the first address of the tree is as good as one from the address
behind it, in the context the tree leaves; if it fails, the machine fails in the same way.  The
induction is on the fuel of the tree, and so it covers loops and calls of any depth.
-/
import BareBones.Proofs.Structured.Steps

namespace BareBones.Structured

open Machine

variable {σ : Type} {h : Host σ}

/-- The machine stands at the first of the statements, in a context like that of the tree. -/
structure Placed (m : Machine) (a : Nat) (ss : List Statement) (c : Context Tree) : Prop where
  reads : m.program.Reads a ss
  ends : m.program.ChainEnds (a + ss.length)
  pc : m.pc = a
  alike : Context.Alike Flat c m.toContext

/-- A run of the machine up to `stop` comes to the same as the result and what the machine does
after it, where `base` stands at `next` then. -/
def Tracks (h : Host σ) (stop : Nat) (m : Machine) (w : World σ) (base : Machine) (next : Nat) :
    Result StatementError σ → Prop
  | (.ok ok', c, w') =>
    ∃ d, Context.Alike Flat c d ∧ LeadsTo h stop m w ok' (base.moveTo d next) w'
  | (.failed e, c, w') =>
    ∃ m', Context.Alike Flat c m'.toContext ∧ ∀ ok, Runs h stop ok m w (.failed e, m', w')
  | (.outOfFuel, _, _) => True

variable {stop next mid : Nat} {m m₁ base base₁ : Machine} {w w₁ : World σ} {c : Context Tree}

theorem Tracks.arrived {d : Context Program} (hd : Context.Alike Flat c d) :
    Tracks h stop (base.moveTo d next) w base next (.ok true, c, w) :=
  ⟨d, hd, .refl _ w⟩

theorem Tracks.rebase {d : Context Program} {a : Nat} {x : Result StatementError σ}
    (hx : Tracks h stop m w (base.moveTo d a) next x) : Tracks h stop m w base next x := by
  obtain ⟨r, c, w'⟩ := x
  cases r <;> exact hx

/-- What follows from behind a way without failures follows from its start. -/
theorem Tracks.after {x : Result StatementError σ} (hleads : LeadsTo h stop m w true m₁ w₁)
    (hx : Tracks h stop m₁ w₁ base next x) : Tracks h stop m w base next x := by
  obtain ⟨r, c, w'⟩ := x
  cases r with
  | outOfFuel => trivial
  | ok ok' =>
      obtain ⟨d, hd, hrest⟩ := hx
      refine ⟨d, hd, ?_⟩
      rw [← Bool.true_and ok']
      exact hleads.trans hrest
  | failed e =>
      obtain ⟨m', hm', hruns⟩ := hx
      exact ⟨m', hm', fun ok => hleads.forth ok _ (hruns _)⟩

theorem Tracks.andThen {x : Result StatementError σ}
    {k : Context Tree → World σ → Result StatementError σ} (hx : Tracks h stop m w base₁ mid x)
    (hk : ∀ ok' c' w' d, x = (.ok ok', c', w') → Context.Alike Flat c' d →
      Tracks h stop (base₁.moveTo d mid) w' base next (k c' w')) :
    Tracks h stop m w base next (andThen x k) := by
  obtain ⟨r, c', w'⟩ := x
  cases r with
  | outOfFuel => trivial
  | failed e => exact hx
  | ok ok' =>
      obtain ⟨d, hd, hleads⟩ := hx
      have hrest := hk ok' c' w' d rfl hd
      rcases hkx : k c' w' with ⟨r', c'', w''⟩
      rw [hkx] at hrest
      simp only [Structured.andThen, hkx]
      cases r' with
      | outOfFuel => trivial
      | failed e =>
          obtain ⟨m', hm', hruns⟩ := hrest
          exact ⟨m', hm', fun ok => hleads.forth ok _ (hruns _)⟩
      | ok ok'' =>
          obtain ⟨d', hd', hleads'⟩ := hrest
          exact ⟨d', hd', hleads.trans hleads'⟩

theorem goesOn_of_settle {β : Type} {c : Context β} {a : Nat} {s : Statement}
    {r : Outcome Failure Bool} {ok : Bool} {w' : World σ}
    (hr : c.settle h a s r w = (.ok ok, w')) : GoesOn r := by
  rcases r with ok' | ⟨e | e⟩ | _
  · trivial
  · simp only [Context.settle] at hr
    split at hr
    · next hrec => exact hrec
    · simp at hr
  · simp [Context.settle] at hr
  · simp [Context.settle] at hr

/-- A statement that leaves the machine at `next` whenever the run goes on. -/
theorem Tracks.settled {n : Nat} {s : Statement} {r : Outcome Failure Bool}
    (hs : m.next? = some s) (hpc : m.pc < stop)
    (hx : execute h (Machine.run h n) (m.goto (m.pc + 1)) m.pc s w = (r, m₁, w₁))
    (hc : Context.Alike Flat c m₁.toContext)
    (hgo : GoesOn r → m₁ = base.moveTo m₁.toContext next) :
    Tracks h stop m w base next (Structured.settled h m.pc s (r, c, w₁)) := by
  simp only [Structured.settled, hc.settle]
  rcases hset : m₁.settle h m.pc s r w₁ with ⟨r', w'⟩
  cases r' with
  | outOfFuel => trivial
  | failed e => exact ⟨m₁, hc, fun ok => Runs.fails hpc (step_failed hs hx hset)⟩
  | ok ok' =>
      refine ⟨m₁.toContext, hc, ?_⟩
      rw [← hgo (goesOn_of_settle hset)]
      exact .step hpc (step_continued hs hx hset)

/-! ### One unit of fuel more -/

/-- With the fuel, trees are followed wherever they stand. -/
def ItemsFollowed (h : Host σ) (k : Nat) : Prop :=
  ∀ ⦃a stop : Nat⦄ ⦃t : Tree⦄ ⦃c : Context Tree⦄ ⦃m : Machine⦄ (w : World σ),
    Placed m a (flattenAll t) c → a + (flattenAll t).length ≤ stop →
    Tracks h stop m w m (a + (flattenAll t).length) (runItems h k a t c w)

/-- With the fuel, items are followed wherever they stand. -/
def ItemFollowed (h : Host σ) (k : Nat) : Prop :=
  ∀ ⦃a stop : Nat⦄ ⦃i : Item⦄ ⦃c : Context Tree⦄ ⦃m : Machine⦄ (w : World σ),
    Placed m a i.flatten c → a + i.flatten.length ≤ stop →
    Tracks h stop m w m (a + i.flatten.length) (runItem h k a i c w)

/-- With the fuel, the blocks of a chain are followed. -/
def BranchesFollowed (h : Host σ) (k : Nat) : Prop :=
  ∀ ⦃a : Nat⦄ ⦃s : Statement⦄ ⦃body : Tree⦄ ⦃tail : Headed .endBlock⦄ ⦃rest : Links⦄
    ⦃c c' : Context Tree⦄ ⦃m : Machine⦄ ⦃w w' : World σ⦄ ⦃r : Outcome Failure Bool⦄,
    m.program.Reads a (s :: (flattenAll body ++ tail.statement :: rest.flatten)) →
    s.keyword? ≠ some .elseBranch → Context.Alike Flat c m.toContext →
    runBranches h k a s body rest c w = (r, c', w') → r ≠ .outOfFuel →
    ∃ n m', runChain (Machine.run h n) (⟨a, s, some (a + 1 + (flattenAll body).length)⟩ ::
        rest.list (a + 1 + (flattenAll body).length + 1)) m w = (r, m', w') ∧
      Context.Alike Flat c' m'.toContext ∧
      (GoesOn r → m' = m.moveTo m'.toContext
        (a + 1 + (flattenAll body).length + 1 + rest.flatten.length))

theorem Placed.next? {a : Nat} {s : Statement} {ss : List Statement}
    (hm : Placed m a (s :: ss) c) : m.next? = some s := by
  unfold Machine.next?
  rw [hm.pc]
  exact hm.reads.head

/-- A machine on the flattened tree stands at the tree. -/
theorem placed_program (t : Tree) {d : Context Program} (hcd : Context.Alike Flat c d) :
    Placed { toContext := d, program := t.program } 0 (flattenAll t) c := by
  refine ⟨Program.reads_ofStatements _, ?_, rfl, hcd⟩
  intro s hs
  have hlt := Program.get?_lt hs
  simp [Tree.program, Program.ofStatements, Program.size] at hlt

theorem size_program (t : Tree) : t.program.size = (flattenAll t).length := by
  simp [Tree.program, Program.ofStatements, Program.size]

/-- The bodies of functions are followed, for they are trees that fill their programs. -/
theorem ItemsFollowed.bodies {k : Nat} (hitems : ItemsFollowed h k) :
    Context.Follows Flat (fun body c w => runItems h k 0 body c w)
      (fun n => (Machine.run h n).body) := by
  rintro t _ c d w r c' w' rfl hcd hx hr
  have hsize := size_program t
  have htracks : Tracks h t.program.size _ w _ _ _ := hitems w (placed_program t hcd) (by omega)
  change runItems h k 0 t c w = _ at hx
  rw [hx] at htracks
  cases r with
  | outOfFuel => exact absurd rfl hr
  | ok ok' =>
      obtain ⟨d', hd', hleads⟩ := htracks
      obtain ⟨-, n, hn⟩ := hleads.forth true _ (Runs.reached (by simp [hsize]))
      refine ⟨n, d', ?_, hd'⟩
      simp only [Runner.body, Machine.run, hn, moveTo_toContext, Bool.true_and]
  | failed e =>
      obtain ⟨m', hm', hruns⟩ := htracks
      obtain ⟨-, n, hn⟩ := hruns true
      refine ⟨n, m'.toContext, ?_, hm'⟩
      simp only [Runner.body, Machine.run, hn]

theorem ItemsFollowed.succ {k : Nat} (hitem : ItemFollowed h k) (hitems : ItemsFollowed h k) :
    ItemsFollowed h (k + 1) := by
  intro a stop t c m w hm hstop
  cases t with
  | nil =>
      have harrived : Tracks h stop (m.moveTo m.toContext a) w m a (.ok true, c, w) :=
        .arrived hm.alike
      rw [moveTo_self hm.pc] at harrived
      simpa only [runItems, flattenAll, List.length_nil, Nat.add_zero] using harrived
  | cons i is =>
      simp only [flattenAll, List.length_append] at hm hstop ⊢
      have hreads := hm.reads.right
      have hends := hm.ends
      rw [List.length_append, ← Nat.add_assoc] at hends
      rw [runItems]
      refine Tracks.andThen
        (hitem w ⟨hm.reads.left, hreads.chainEnds hends, hm.pc, hm.alike⟩ (by omega)) ?_
      intro ok' c' w' d _ hd
      have hrest : Placed (m.moveTo d (a + i.flatten.length)) (a + i.flatten.length)
          (flattenAll is) c' := ⟨hreads, hends, rfl, hd⟩
      rw [← Nat.add_assoc]
      exact (hitems w' hrest (by omega)).rebase

theorem plain_followed {k a stop : Nat} {s : Plain} (hitems : ItemsFollowed h k) (w : World σ)
    (hm : Placed m a (Item.plain s).flatten c) (hstop : a + (Item.plain s).flatten.length ≤ stop) :
    Tracks h stop m w m (a + (Item.plain s).flatten.length) (runItem h (k + 1) a (.plain s) c w) := by
  rw [Item.flatten] at hm hstop ⊢
  have hpc := hm.pc
  subst hpc
  simp only [List.length_singleton] at hstop ⊢
  rw [runItem]
  rcases hx : c.execute h (fun body c w => runItems h k 0 body c w) s.statement w with ⟨r, c', w'⟩
  by_cases hr : r = .outOfFuel
  · subst hr
    trivial
  · obtain ⟨n, d', hn, hd'⟩ := Context.execute_follows hitems.bodies hm.alike hx hr
    have hexec : execute h (Machine.run h n) (m.goto (m.pc + 1)) m.pc s.statement w
        = (r, m.moveTo d' (m.pc + 1), w') := by
      rw [execute_plain s.opens s.closes]
      change (m.goto (m.pc + 1)).inContext (m.toContext.execute h _ s.statement w) = _
      rw [hn]
      rfl
    exact Tracks.settled hm.next? (by omega) hexec hd' fun _ => rfl

theorem resolve_not_recoverable {operation : String} {args : List String} {env : Environment}
    {e : RuntimeError} (hg : Guard.resolve operation args env = .error e) :
    e.isRecoverable = false := by
  unfold Guard.resolve at hg
  split at hg
  · cases hg
  · cases hg
    rfl

theorem settle_ok_of_block {β : Type} {c : Context β} {a : Nat} {s : Statement} {ok : Bool}
    (hs : (s.opensBlock || s.closesBlock) = true) :
    c.settle h a s (.ok ok) w = (.ok ok, w) := by
  simp only [Context.settle, Context.publishAfter, if_pos hs]

theorem step_loop_end {start e : Nat} {g : Guard} {tail : Headed .endBlock}
    {d : Context Program} (hreads : m.program.get? e = some tail.statement) :
    Machine.step h (Machine.run h 0) ((m.inLoop ⟨g, start, e⟩).moveTo d e) w
      = (.ok (.continued true), m.moveTo d (if g.holds d.env then e + 1 else start), w) := by
  have hblock : (tail.statement.opensBlock || tail.statement.closesBlock) = true := by
    rw [tail.closes, Bool.or_true]
  have hexec : execute h (Machine.run h 0) ((m.inLoop ⟨g, start, e⟩).moveTo d (e + 1)) e
      tail.statement w = _ := execute_loop_end
  exact step_continued hreads hexec (settle_ok_of_block hblock)

/-- The body of a block stands where its opener says. -/
theorem placed_body {a : Nat} {s : Statement} {body : Tree} {tail : Headed .endBlock}
    {rest : List Statement}
    (hreads : m.program.Reads a (s :: (flattenAll body ++ tail.statement :: rest)))
    (hc : Context.Alike Flat c m.toContext) :
    Placed (m.goto (a + 1)) (a + 1) (flattenAll body) c := by
  refine ⟨hreads.tail.left, ?_, rfl, hc⟩
  intro s' hs'
  have hend : (m.goto (a + 1)).program.get? _ = some tail.statement := hreads.tail.right.head
  rw [hend] at hs'
  cases hs'
  exact tail.continuesChain

theorem Placed.step_loop_enter {a : Nat} {head : Headed .whileLoop} {body : Tree}
    {tail : Headed .endBlock} {g : Guard} (hm : Placed m a (Item.loop head body tail).flatten c)
    (hg : Guard.resolve Keyword.whileLoop.word head.statement.arguments c.env = .ok g)
    (hholds : g.holds c.env = false) :
    Machine.step h (Machine.run h 0) m w = (.ok (.continued true),
      (m.inLoop ⟨g, a, a + 1 + (flattenAll body).length⟩).goto (a + 1), w) := by
  obtain rfl := hm.pc
  rw [Item.flatten] at hm
  rw [hm.alike.env] at hg hholds
  have hexec : execute h (Machine.run h 0) (m.goto (m.pc + 1)) m.pc head.statement w = _ :=
    execute_loop_enter hm.reads hg hholds
  have hblock : (head.statement.opensBlock || head.statement.closesBlock) = true := by
    rw [head.opens]
    rfl
  exact step_continued hm.next? hexec (settle_ok_of_block hblock)

theorem loop_followed {k a stop : Nat} {head : Headed .whileLoop} {body : Tree}
    {tail : Headed .endBlock} (hitems : ItemsFollowed h k) (hitem : ItemFollowed h k) (w : World σ)
    (hm : Placed m a (Item.loop head body tail).flatten c)
    (hstop : a + (Item.loop head body tail).flatten.length ≤ stop) :
    Tracks h stop m w m (a + (Item.loop head body tail).flatten.length)
      (runItem h (k + 1) a (.loop head body tail) c w) := by
  have hagain := hm
  obtain rfl := hm.pc
  rw [Item.flatten] at hm
  have hlen : m.pc + (Item.loop head body tail).flatten.length
      = m.pc + 1 + (flattenAll body).length + 1 := by
    rw [Item.flatten]
    simp only [List.length_cons, List.length_append, List.length_nil]
    omega
  have hreads := hm.reads
  have hblock : (head.statement.opensBlock || head.statement.closesBlock) = true := by
    rw [head.opens]
    rfl
  rw [runItem]
  cases hg : Guard.resolve Keyword.whileLoop.word head.statement.arguments c.env with
  | error e =>
      rw [hm.alike.env] at hg
      have hexec : execute h (Machine.run h 0) (m.goto (m.pc + 1)) m.pc head.statement w = _ :=
        execute_loop_error hreads hg
      refine Tracks.settled hm.next? (by omega) hexec hm.alike ?_
      intro hgo
      have hrec : e.isRecoverable = true := hgo
      rw [resolve_not_recoverable hg] at hrec
      simp at hrec
  | ok g =>
      simp only
      by_cases hholds : g.holds c.env = true
      · rw [if_pos hholds]
        rw [hm.alike.env] at hg hholds
        have hexec : execute h (Machine.run h 0) (m.goto (m.pc + 1)) m.pc head.statement w = _ :=
          execute_loop_skip hreads hg hholds
        rw [hlen]
        have hstep := step_continued hm.next? hexec (settle_ok_of_block hblock)
        refine Tracks.after (.step (by omega) hstep) ?_
        exact Tracks.arrived hm.alike
      · rw [if_neg hholds]
        rw [Bool.not_eq_true] at hholds
        refine Tracks.after (.step (by omega) (hagain.step_loop_enter hg hholds)) ?_
        -- From here on the loop lies on the stack, and the body runs above it.
        have hbody := placed_body (m := m.inLoop ⟨g, m.pc, m.pc + 1 + (flattenAll body).length⟩)
          hreads hm.alike
        refine Tracks.andThen (hitems w hbody (by omega)) ?_
        intro ok' c' w' d _ hd
        have hstep : Machine.step h (Machine.run h 0)
            ((m.inLoop ⟨g, m.pc, m.pc + 1 + (flattenAll body).length⟩).moveTo d
              (m.pc + 1 + (flattenAll body).length)) w' = _ :=
          step_loop_end hreads.tail.right.head
        by_cases hholds' : g.holds c'.env = true
        · rw [if_pos hholds', hlen]
          rw [hd.env] at hholds'
          rw [if_pos hholds'] at hstep
          refine Tracks.after (.step (by rw [moveTo_pc]; omega) hstep) ?_
          exact Tracks.arrived hd
        · rw [if_neg hholds']
          rw [hd.env] at hholds'
          rw [if_neg hholds'] at hstep
          have hplaced : Placed (m.moveTo d m.pc) m.pc (Item.loop head body tail).flatten c' :=
            ⟨hagain.reads, hagain.ends, rfl, hd⟩
          refine Tracks.after (.step (by rw [moveTo_pc]; omega) hstep) ?_
          exact (hitem w' hplaced hstop).rebase

/-! ### Chains -/

/-- The body of a block is run up to the `end` of the block. -/
theorem ItemsFollowed.block {k a : Nat} {s : Statement} {body : Tree} {tail : Headed .endBlock}
    {rest : List Statement} {r : Outcome StatementError Bool} {c' : Context Tree} {w' : World σ}
    (hitems : ItemsFollowed h k)
    (hreads : m.program.Reads a (s :: (flattenAll body ++ tail.statement :: rest)))
    (hc : Context.Alike Flat c m.toContext) (hx : runItems h k (a + 1) body c w = (r, c', w'))
    (hr : r ≠ .outOfFuel) :
    ∃ n m', Machine.run h n (a + 1 + (flattenAll body).length) (m.goto (a + 1)) w = (r, m', w') ∧
      Context.Alike Flat c' m'.toContext ∧
      ∀ ok, r = .ok ok → m' = m.moveTo m'.toContext (a + 1 + (flattenAll body).length) := by
  have htracks := hitems w (placed_body hreads hc) (Nat.le_refl _)
  rw [hx] at htracks
  cases r with
  | outOfFuel => exact absurd rfl hr
  | ok ok' =>
      obtain ⟨d, hd, hleads⟩ := htracks
      obtain ⟨-, n, hn⟩ := hleads.forth true _ (Runs.reached (Nat.le_refl _))
      exact ⟨n, _, hn, hd, fun _ _ => rfl⟩
  | failed e =>
      obtain ⟨m', hm', hruns⟩ := htracks
      obtain ⟨-, n, hn⟩ := hruns true
      exact ⟨n, m', hn, hm', by simp⟩

/-- The link that is taken runs its body, and the links behind it are passed over. -/
theorem ItemsFollowed.take {k a : Nat} {s : Statement} {body : Tree} {tail : Headed .endBlock}
    {rest : Links} {r : Outcome Failure Bool} {c' : Context Tree} {w' : World σ}
    (hitems : ItemsFollowed h k)
    (hreads : m.program.Reads a (s :: (flattenAll body ++ tail.statement :: rest.flatten)))
    (hc : Context.Alike Flat c m.toContext)
    (htaken : Link.taken ⟨a, s, some (a + 1 + (flattenAll body).length)⟩ m.env = .ok true)
    (hx : nested (runItems h k (a + 1) body c w) = (r, c', w')) (hr : r ≠ .outOfFuel) :
    ∃ n m', runChain (Machine.run h n) (⟨a, s, some (a + 1 + (flattenAll body).length)⟩ ::
        rest.list (a + 1 + (flattenAll body).length + 1)) m w = (r, m', w') ∧
      Context.Alike Flat c' m'.toContext ∧
      (GoesOn r → m' = m.moveTo m'.toContext
        (a + 1 + (flattenAll body).length + 1 + rest.flatten.length)) := by
  rcases hbody : runItems h k (a + 1) body c w with ⟨rb, cb, wb⟩
  rw [hbody] at hx
  have hrb : rb ≠ .outOfFuel := by
    rintro rfl
    cases hx
    exact hr rfl
  obtain ⟨n, m', hn, hm', hend⟩ := hitems.block hreads hc hbody hrb
  cases rb with
  | outOfFuel => exact absurd rfl hrb
  | ok ok' =>
      cases hx
      have hchain := runChain_take rest rfl htaken hn
      refine ⟨n, _, hchain, hm', ?_⟩
      intro _
      rw [hend ok' rfl]
      rfl
  | failed e =>
      cases hx
      exact ⟨n, m', runChain_take_failed rfl htaken hn, hm', False.elim⟩

/-- Behind a link that is not taken, the chain goes on as the chain of the links behind. -/
theorem BranchesFollowed.links {k e : Nat} {rest : Links} {r : Outcome Failure Bool}
    {c' : Context Tree} {w' : World σ} (hbranches : BranchesFollowed h k)
    (hitems : ItemsFollowed h k)
    (hx : (match rest with
      | .none => (.ok true, c, w)
      | .elif head body _ rest => runBranches h k (e + 1) head.statement body rest c w
      | .otherwise _ body _ => nested (runItems h k (e + 1 + 1) body c w)) = (r, c', w'))
    (hr : r ≠ .outOfFuel) (hreads : m.program.Reads (e + 1) rest.flatten)
    (hc : Context.Alike Flat c m.toContext) :
    ∃ n m', runChain (Machine.run h n) (rest.list (e + 1)) (m.leave e (rest.list (e + 1))) w
        = (r, m', w') ∧
      Context.Alike Flat c' m'.toContext ∧
      (GoesOn r → m' = m.moveTo m'.toContext (e + 1 + rest.flatten.length)) := by
  cases rest with
  | none =>
      simp only [Prod.mk.injEq] at hx
      obtain ⟨rfl, rfl, rfl⟩ := hx
      rw [Links.list, Links.flatten]
      exact ⟨0, _, rfl, hc, fun _ => rfl⟩
  | elif head body tail rest =>
      rw [Links.flatten] at hreads
      have hkey : head.statement.keyword? ≠ some .elseBranch := by rw [head.keyword]; simp
      obtain ⟨n, m', hn, hm', hend⟩ := hbranches (m := m.leave _ _) hreads hkey hc hx hr
      rw [Links.list, Links.flatten]
      refine ⟨n, m', hn, hm', ?_⟩
      intro hgo
      rw [hend hgo]
      simp only [leave, moveTo_goto, moveTo_toContext, List.length_cons, List.length_append]
      congr 1
      omega
  | otherwise head body tail =>
      rw [Links.flatten, ← Links.flatten] at hreads
      have htaken : Link.taken ⟨e + 1, head.statement,
          some (e + 1 + 1 + (flattenAll body).length)⟩ m.env = .ok true := by
        simp only [Link.taken, head.keyword, if_true]
      obtain ⟨n, m', hn, hm', hend⟩ := hitems.take (m := m.leave _ _) hreads hc htaken hx hr
      rw [Links.list, Links.flatten]
      refine ⟨n, m', hn, hm', ?_⟩
      intro hgo
      rw [hend hgo, Links.flatten]
      simp only [leave, moveTo_goto, moveTo_toContext, List.length_cons, List.length_append,
        List.length_nil]
      congr 1
      omega

theorem BranchesFollowed.succ {k : Nat} (hitems : ItemsFollowed h k)
    (hbranches : BranchesFollowed h k) : BranchesFollowed h (k + 1) := by
  intro a s body tail rest c c' m w w' r hreads hne hc hx hr
  rw [runBranches] at hx
  cases hg : Guard.resolve s.operation s.arguments c.env with
  | error e =>
      simp only [hg, Prod.mk.injEq] at hx
      obtain ⟨rfl, rfl, rfl⟩ := hx
      rw [hc.env] at hg
      refine ⟨0, m, ?_, hc, ?_⟩
      · simp only [runChain, Link.taken, if_neg hne, hg]
      · intro hgo
        have hrec : e.isRecoverable = true := hgo
        rw [resolve_not_recoverable hg] at hrec
        simp at hrec
  | ok g =>
      simp only [hg] at hx
      rw [hc.env] at hg
      have htaken : Link.taken ⟨a, s, some (a + 1 + (flattenAll body).length)⟩ m.env
          = .ok (g.holds m.env) := taken_of_guard hne hg
      rw [← hc.env] at htaken
      split at hx
      · next hholds =>
        rw [hholds, hc.env] at htaken
        exact hitems.take hreads hc htaken hx hr
      · next hholds =>
        rw [Bool.not_eq_true] at hholds
        rw [hholds, hc.env] at htaken
        obtain ⟨n, m', hn, hbehind⟩ :=
          hbranches.links hitems hx hr hreads.tail.right.tail hc
        refine ⟨n, m', ?_, hbehind⟩
        simp only [runChain, htaken]
        exact hn

/-- A chain that is allowed here is run link by link. -/
theorem Placed.execute_chain {a : Nat} {run : Runner σ} {head : Headed .ifBranch} {body : Tree}
    {tail : Headed .endBlock} {rest : Links}
    (hm : Placed m a (Item.chain head body tail rest).flatten c)
    (hallowed : (c.scope.isMain || h.settings.conditionalsInFunctions) = true) :
    execute h run (m.goto (m.pc + 1)) m.pc head.statement w
      = runChain run (⟨a, head.statement, some (a + 1 + (flattenAll body).length)⟩ ::
          rest.list (a + 1 + (flattenAll body).length + 1)) (m.goto (m.pc + 1)) w := by
  obtain rfl := hm.pc
  rw [Item.flatten] at hm
  have hkey : head.statement.keyword? ≠ some .elseBranch := by rw [head.keyword]; simp
  have hlen : (head.statement :: (flattenAll body ++ tail.statement :: rest.flatten)).length
      = 1 + (flattenAll body).length + 1 + rest.flatten.length := by
    simp only [List.length_cons, List.length_append]
    omega
  have hends := hm.ends
  have hbound := hm.reads.bound (by simp)
  rw [hlen] at hends hbound
  simp only [← Nat.add_assoc] at hends
  have hchain : chain m.program m.pc head.statement = _ :=
    hm.reads.links hends head.opens hkey (by omega)
  rw [hm.alike.scope] at hallowed
  have hbranch : branch h run (m.goto (m.pc + 1)) m.pc head.statement w
      = runChain run (chain m.program m.pc head.statement) (m.goto (m.pc + 1)) w :=
    if_pos hallowed
  simp only [execute, head.keyword]
  rw [hbranch, hchain]

theorem chain_followed {k a stop : Nat} {head : Headed .ifBranch} {body : Tree}
    {tail : Headed .endBlock} {rest : Links} (hbranches : BranchesFollowed h k) (w : World σ)
    (hm : Placed m a (Item.chain head body tail rest).flatten c)
    (hstop : a + (Item.chain head body tail rest).flatten.length ≤ stop) :
    Tracks h stop m w m (a + (Item.chain head body tail rest).flatten.length)
      (runItem h (k + 1) a (.chain head body tail rest) c w) := by
  have hlen : a + (Item.chain head body tail rest).flatten.length
      = a + 1 + (flattenAll body).length + 1 + rest.flatten.length := by
    rw [Item.flatten]
    simp only [List.length_cons, List.length_append]
    omega
  have hreads := hm.reads
  rw [Item.flatten] at hreads
  have hnext : m.next? = some head.statement := by
    rw [Item.flatten] at hm
    exact hm.next?
  rw [hlen] at hstop ⊢
  have hpc := hm.pc
  rw [runItem]
  by_cases hallowed : (c.scope.isMain || h.settings.conditionalsInFunctions) = true
  · rw [if_pos hallowed]
    rcases hx : runBranches h k a head.statement body rest c w with ⟨r, c', w'⟩
    by_cases hr : r = .outOfFuel
    · subst hr
      trivial
    · have hkey : head.statement.keyword? ≠ some .elseBranch := by rw [head.keyword]; simp
      obtain ⟨n, m', hn, hm', hend⟩ :=
        hbranches (m := m.goto (m.pc + 1)) hreads hkey hm.alike hx hr
      rw [← hm.execute_chain hallowed] at hn
      subst hpc
      exact Tracks.settled hnext (by omega) hn hm' hend
  · rw [if_neg hallowed]
    subst hpc
    have hexec : execute h (Machine.run h 0) (m.goto (m.pc + 1)) m.pc head.statement w
        = (.raise .conditionalInFunction, m.goto (m.pc + 1), w) := by
      simp only [execute, head.keyword]
      rw [hm.alike.scope] at hallowed
      exact if_neg hallowed
    refine Tracks.settled hnext (by omega) hexec hm.alike ?_
    intro hgo
    exact absurd hgo (by simp [Outcome.raise, GoesOn, RuntimeError.isRecoverable])

theorem func_followed {k a stop : Nat} {head : Headed .func} {body : Tree}
    {tail : Headed .endBlock} (w : World σ) (hm : Placed m a (Item.func head body tail).flatten c)
    (hstop : a + (Item.func head body tail).flatten.length ≤ stop) :
    Tracks h stop m w m (a + (Item.func head body tail).flatten.length)
      (runItem h (k + 1) a (.func head body tail) c w) := by
  obtain rfl := hm.pc
  rw [Item.flatten] at hm hstop ⊢
  have hlen : m.pc + (head.statement :: (flattenAll body ++ [tail.statement])).length
      = m.pc + 1 + (flattenAll body).length + 1 := by
    simp only [List.length_cons, List.length_append, List.length_nil]
    omega
  rw [hlen] at hstop ⊢
  rw [runItem]
  rcases hx : defined m.pc head.statement body c w with ⟨r, c', w'⟩
  obtain ⟨m', hexec, hm', hend⟩ :=
    execute_func (h := h) (m := m.goto (m.pc + 1)) (Machine.run h 0) hm.reads hm.alike hx
  exact Tracks.settled hm.next? (by omega) hexec hm' hend

/-! ### Any fuel -/

/-- Whatever the fuel, the machine follows trees, items and chains. -/
theorem followed (h : Host σ) : ∀ k, ItemsFollowed h k ∧ ItemFollowed h k ∧ BranchesFollowed h k := by
  intro k
  induction k with
  | zero =>
      refine ⟨?_, ?_, ?_⟩
      · intro a stop t c m w _ _
        rw [runItems]
        trivial
      · intro a stop i c m w _ _
        rw [runItem]
        trivial
      · intro a s body tail rest c c' m w w' r _ _ _ hx hr
        rw [runBranches] at hx
        cases hx
        exact absurd rfl hr
  | succ k ih =>
      obtain ⟨hitems, hitem, hbranches⟩ := ih
      refine ⟨hitems.succ hitem, ?_, .succ hitems hbranches⟩
      intro a stop i c m w hm hstop
      cases i with
      | plain s => exact plain_followed hitems w hm hstop
      | loop head body tail => exact loop_followed hitems hitem w hm hstop
      | chain head body tail rest => exact chain_followed hbranches w hm hstop
      | func head body tail => exact func_followed w hm hstop

end BareBones.Structured
