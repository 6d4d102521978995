/-
The tree follows the machine.

If the machine that runs a flattened tree is finished with some fuel, then so is the tree with some
fuel of its own.  What both come to is already known to be the same, so only the end of the run is
at stake here.  The induction is on the fuel of the machine: each item takes at least one step, and
a loop that runs again has less fuel left.

With both directions, a machine on a flattened tree and the tree itself come to the same results.
-/
import BareBones.Proofs.Structured.Forward

namespace BareBones.Structured

open Machine

variable {σ : Type} {h : Host σ} {m : Machine} {w : World σ} {c : Context Tree} {n stop : Nat}
  {ok : Bool}

/-- Where the machine finishes with the fuel, the item that it stands at does. -/
def ItemHalts (h : Host σ) (n : Nat) : Prop :=
  ∀ ⦃a stop : Nat⦄ ⦃i : Item⦄ ⦃c : Context Tree⦄ ⦃m : Machine⦄ ⦃w : World σ⦄ ⦃ok : Bool⦄,
    Placed m a i.flatten c → a + i.flatten.length ≤ stop → Finishes h stop n ok m w →
    ∃ k, (runItem h k a i c w).1 ≠ .outOfFuel

/-- Where the machine finishes with the fuel, the tree that it stands at does. -/
def ItemsHalt (h : Host σ) (n : Nat) : Prop :=
  ∀ ⦃a stop : Nat⦄ ⦃t : Tree⦄ ⦃c : Context Tree⦄ ⦃m : Machine⦄ ⦃w : World σ⦄ ⦃ok : Bool⦄,
    Placed m a (flattenAll t) c → a + (flattenAll t).length ≤ stop → Finishes h stop n ok m w →
    ∃ k, (runItems h k a t c w).1 ≠ .outOfFuel

/-! ### Putting finished parts together -/

/-- The rest is reached by what the first part leaves, whether or not the machine is there yet. -/
theorem Tracks.finishes {base : Machine} {next : Nat} {ok' : Bool} {c' : Context Tree}
    {w' : World σ} (htracks : Tracks h stop m w base next (.ok ok', c', w'))
    (hfin : Finishes h stop n ok m w) :
    ∃ d, Context.Alike Flat c' d ∧ Finishes h stop n (ok && ok') (base.moveTo d next) w' := by
  obtain ⟨d, hd, hleads⟩ := htracks
  exact ⟨d, hd, hleads.back ok n hfin⟩

theorem andThen_ne {x : Result StatementError σ}
    {rest : Context Tree → World σ → Result StatementError σ} (hx : x.1 ≠ .outOfFuel)
    (hrest : ∀ ok c w, x = (.ok ok, c, w) → (rest c w).1 ≠ .outOfFuel) :
    (andThen x rest).1 ≠ .outOfFuel := by
  obtain ⟨r, c, w⟩ := x
  cases r with
  | outOfFuel => exact absurd rfl hx
  | failed e => exact hx
  | ok ok =>
      have hne := hrest ok c w rfl
      rcases hr : rest c w with ⟨r, c', w'⟩
      rw [hr] at hne
      simp only [andThen, hr]
      cases r with
      | outOfFuel => exact absurd rfl hne
      | failed e => simp
      | ok ok' => simp

theorem settled_finishes {a : Nat} {s : Statement} {x : Result Failure σ}
    (hx : x.1 ≠ .outOfFuel) : (settled h a s x).1 ≠ .outOfFuel := by
  obtain ⟨r, c, w⟩ := x
  rcases r with ok | ⟨e | e⟩ | _
  · simp [settled, Context.settle]
  · simp only [settled, Context.settle]
    by_cases hrec : e.isRecoverable = true
    · simp [hrec]
    · simp [hrec]
  · simp [settled, Context.settle]
  · exact absurd rfl hx

/-- A first part and the rest behind it are finished if each is, with fuel of its own. -/
theorem andThen_halts {x : Nat → Result StatementError σ}
    {rest : Nat → Context Tree → World σ → Result StatementError σ}
    (hx : ∀ {k k'}, k ≤ k' → (x k).1 ≠ .outOfFuel → x k' = x k)
    (hrest : ∀ {k k' c w}, k ≤ k' → (rest k c w).1 ≠ .outOfFuel → rest k' c w = rest k c w)
    {k₁ : Nat} (hk₁ : (x k₁).1 ≠ .outOfFuel)
    (hk₂ : ∀ ok c w, x k₁ = (.ok ok, c, w) → ∃ k, (rest k c w).1 ≠ .outOfFuel) :
    ∃ k, (andThen (x k) (rest k)).1 ≠ .outOfFuel := by
  rcases hr : x k₁ with ⟨r, c, w⟩
  cases r with
  | outOfFuel => exact absurd (by rw [hr]) hk₁
  | failed e =>
      refine ⟨k₁, andThen_ne hk₁ ?_⟩
      intro ok c' w' hok
      rw [hr] at hok
      cases hok
  | ok ok =>
      obtain ⟨k₂, hfin⟩ := hk₂ ok c w hr
      have hfirst := hx (Nat.le_max_left k₁ k₂) hk₁
      refine ⟨max k₁ k₂, andThen_ne (by rw [hfirst]; exact hk₁) ?_⟩
      intro ok' c' w' hok
      rw [hfirst, hr] at hok
      cases hok
      rw [hrest (Nat.le_max_right k₁ k₂) hfin]
      exact hfin

/-- A tree halts with the machine if its items do. -/
theorem ItemHalts.items (hitem : ItemHalts h n) : ItemsHalt h n := by
  intro a stop t
  induction t generalizing a with
  | nil =>
      intro c m w ok _ _ _
      exact ⟨1, by simp [runItems]⟩
  | cons i is ih =>
      intro c m w ok hm hstop hfin
      simp only [flattenAll, List.length_append] at hm hstop
      have hreads := hm.reads.right
      have hends := hm.ends
      rw [List.length_append, ← Nat.add_assoc] at hends
      have hfirst : Placed m a i.flatten c :=
        ⟨hm.reads.left, hreads.chainEnds hends, hm.pc, hm.alike⟩
      obtain ⟨k₁, hk₁⟩ := hitem hfirst (by omega) hfin
      have hhalts : ∃ k, (andThen (runItem h k a i c w)
          fun c w => runItems h k (a + i.flatten.length) is c w).1 ≠ .outOfFuel := by
        refine andThen_halts (fun hk => runItem_mono hk) (fun hk => runItems_mono hk) hk₁ ?_
        intro ok' c' w' hok
        have htracks := (followed h k₁).2.1 w hfirst (show _ ≤ stop by omega)
        rw [hok] at htracks
        obtain ⟨d, hd, hfin'⟩ := htracks.finishes hfin
        have hrest : Placed (m.moveTo d (a + i.flatten.length)) (a + i.flatten.length)
            (flattenAll is) c' := ⟨hreads, hends, rfl, hd⟩
        exact ih hrest (by omega) hfin'
      obtain ⟨k, hk⟩ := hhalts
      refine ⟨k + 1, ?_⟩
      rw [runItems]
      exact hk

/-! ### One step more -/

/-- The bodies of functions follow the machines that run them. -/
theorem ItemsHalt.bodies (hitems : ItemsHalt h n) :
    Context.Follows (fun p t => Flat t p) (Machine.run h n).body
      (fun k body c w => runItems h k 0 body c w) := by
  rintro _ t d c w r d' w' rfl hdc hx hr
  have hcd : Context.Alike Flat c d := hdc.flip
  have hfin : Finishes h t.program.size n true { toContext := d, program := t.program } w := by
    intro hout
    apply hr
    have hfirst := congrArg Prod.fst hx
    exact hfirst.symm.trans hout
  obtain ⟨k, hk⟩ := hitems (placed_program t hcd) (by rw [size_program]; omega) hfin
  rcases hres : runItems h k 0 t c w with ⟨r₁, c₁, w₁⟩
  rw [hres] at hk
  obtain ⟨n', d₁, hn', hd₁⟩ := (followed h k).1.bodies rfl hcd hres hk
  change (Machine.run h n').body t.program d w = _ at hn'
  -- Both runs of the machine are finished, so they come to the same.
  have hsame : (r, d', w') = (r₁, d₁, w₁) := by
    rw [← hx, ← hn', ← body_mono (run_le (Nat.le_max_left n n')) _ _ _ (by rw [hx]; exact hr),
      body_mono (run_le (Nat.le_max_right n n')) _ _ _ (by rw [hn']; exact hk)]
  cases hsame
  exact ⟨k, c₁, hres, hd₁.flip⟩

theorem plain_halts {a : Nat} {s : Plain} (hitems : ItemsHalt h n)
    (hm : Placed m a (Item.plain s).flatten c)
    (hstep : (Machine.step h (Machine.run h n) m w).1 ≠ .outOfFuel) :
    ∃ k, (runItem h k a (.plain s) c w).1 ≠ .outOfFuel := by
  rw [Item.flatten] at hm
  have hexec := execute_ne_of_step hm.next? hstep
  rw [execute_plain s.opens s.closes] at hexec
  rcases hx : m.toContext.execute h (Machine.run h n).body s.statement w with ⟨r, d', w'⟩
  have hr : r ≠ .outOfFuel := by
    intro hout
    apply hexec
    change ((m.goto (m.pc + 1)).inContext (m.toContext.execute h _ s.statement w)).1 = _
    rw [hx, hout]
    rfl
  obtain ⟨k, c', hk, -⟩ := Context.execute_follows hitems.bodies hm.alike.flip hx hr
  refine ⟨k + 1, ?_⟩
  rw [runItem, hk]
  exact settled_finishes hr

theorem nested_finishes {x : Result StatementError σ} (hx : x.1 ≠ .outOfFuel) :
    (nested x).1 ≠ .outOfFuel := by
  obtain ⟨r, c, w⟩ := x
  cases r with
  | outOfFuel => exact absurd rfl hx
  | failed e => simp [nested]
  | ok ok => simp [nested]

/-- The link that is taken halts with the machine. -/
theorem ItemsHalt.take {a : Nat} {s : Statement} {body : Tree} {tail : Headed .endBlock}
    {rest : List Statement} {ls : List Link} (hitems : ItemsHalt h n)
    (hreads : m.program.Reads a (s :: (flattenAll body ++ tail.statement :: rest)))
    (hc : Context.Alike Flat c m.toContext)
    (htaken : Link.taken ⟨a, s, some (a + 1 + (flattenAll body).length)⟩ m.env = .ok true)
    (hfin : (runChain (Machine.run h n)
      (⟨a, s, some (a + 1 + (flattenAll body).length)⟩ :: ls) m w).1 ≠ .outOfFuel) :
    ∃ k, (nested (runItems h k (a + 1) body c w)).1 ≠ .outOfFuel := by
  have hbody : Finishes h (a + 1 + (flattenAll body).length) n true (m.goto (a + 1)) w := by
    intro hout
    rcases hr : Machine.run h n (a + 1 + (flattenAll body).length) (m.goto (a + 1)) w
      with ⟨r, m', w'⟩
    have hrun : r = .outOfFuel := by
      rw [← hout]
      exact (congrArg Prod.fst hr).symm
    subst hrun
    simp only [runChain, htaken, hr] at hfin
    exact hfin rfl
  obtain ⟨k, hk⟩ := hitems (placed_body hreads hc) (Nat.le_refl _) hbody
  exact ⟨k, nested_finishes hk⟩

/-- A chain halts with the machine. -/
theorem ItemsHalt.branches (hitems : ItemsHalt h n) : ∀ (rest : Links) {a : Nat} {s : Statement}
    {body : Tree} {tail : Headed .endBlock} {c : Context Tree} {m : Machine} {w : World σ},
    m.program.Reads a (s :: (flattenAll body ++ tail.statement :: rest.flatten)) →
    s.keyword? ≠ some .elseBranch → Context.Alike Flat c m.toContext →
    (runChain (Machine.run h n) (⟨a, s, some (a + 1 + (flattenAll body).length)⟩ ::
      rest.list (a + 1 + (flattenAll body).length + 1)) m w).1 ≠ .outOfFuel →
    ∃ k, (runBranches h k a s body rest c w).1 ≠ .outOfFuel := by
  intro rest a s body tail c m w hreads hne hc hfin
  cases hg : Guard.resolve s.operation s.arguments c.env with
  | error e => exact ⟨1, by simp [runBranches, hg, Outcome.raise]⟩
  | ok g =>
      have htaken : Link.taken ⟨a, s, some (a + 1 + (flattenAll body).length)⟩ m.env
          = .ok (g.holds c.env) := by
        rw [hc.env] at hg ⊢
        exact taken_of_guard hne hg
      by_cases hholds : g.holds c.env = true
      · rw [hholds] at htaken
        obtain ⟨k, hk⟩ := hitems.take hreads hc htaken hfin
        refine ⟨k + 1, ?_⟩
        simp only [runBranches, hg, if_pos hholds]
        exact hk
      · rw [Bool.not_eq_true] at hholds
        rw [hholds] at htaken
        simp only [runChain, htaken] at hfin
        have hbehind := hreads.tail.right.tail
        cases rest with
        | none => exact ⟨1, by simp [runBranches, hg, hholds]⟩
        | elif head body' tail' rest =>
            rw [Links.flatten] at hbehind
            rw [Links.list] at hfin
            have hkey : head.statement.keyword? ≠ some .elseBranch := by rw [head.keyword]; simp
            obtain ⟨k, hk⟩ :=
              hitems.branches rest (m := m.leave _ _) hbehind hkey hc hfin
            refine ⟨k + 1, ?_⟩
            simp only [runBranches, hg, hholds]
            exact hk
        | otherwise head body' tail' =>
            rw [Links.flatten] at hbehind
            rw [Links.list] at hfin
            have htaken' : Link.taken ⟨a + 1 + (flattenAll body).length + 1, head.statement,
                some (a + 1 + (flattenAll body).length + 1 + 1 + (flattenAll body').length)⟩
                m.env = .ok true := by
              simp only [Link.taken, head.keyword, if_true]
            obtain ⟨k, hk⟩ := hitems.take (m := m.leave _ _) hbehind hc htaken' hfin
            refine ⟨k + 1, ?_⟩
            simp only [runBranches, hg, hholds]
            exact hk

theorem chain_halts {a : Nat} {head : Headed .ifBranch} {body : Tree} {tail : Headed .endBlock}
    {rest : Links} (hitems : ItemsHalt h n)
    (hm : Placed m a (Item.chain head body tail rest).flatten c)
    (hstep : (Machine.step h (Machine.run h n) m w).1 ≠ .outOfFuel) :
    ∃ k, (runItem h k a (.chain head body tail rest) c w).1 ≠ .outOfFuel := by
  by_cases hallowed : (c.scope.isMain || h.settings.conditionalsInFunctions) = true
  · have hreads := hm.reads
    have hnext : m.next? = some head.statement := by
      rw [Item.flatten] at hm
      exact hm.next?
    rw [Item.flatten] at hreads
    have hkey : head.statement.keyword? ≠ some .elseBranch := by rw [head.keyword]; simp
    have hexec := execute_ne_of_step hnext hstep
    rw [hm.execute_chain hallowed] at hexec
    obtain ⟨k, hk⟩ := hitems.branches rest (m := m.goto (m.pc + 1)) hreads hkey hm.alike hexec
    refine ⟨k + 1, ?_⟩
    rw [runItem, if_pos hallowed]
    exact settled_finishes hk
  · refine ⟨1, ?_⟩
    rw [runItem, if_neg hallowed]
    exact settled_finishes (by simp [Outcome.raise])

theorem loop_halts {a : Nat} {head : Headed .whileLoop} {body : Tree} {tail : Headed .endBlock}
    (hitem : ItemHalts h n) (hm : Placed m a (Item.loop head body tail).flatten c)
    (hstop : a + (Item.loop head body tail).flatten.length ≤ stop)
    (hfin : Finishes h stop (n + 1) ok m w) :
    ∃ k, (runItem h k a (.loop head body tail) c w).1 ≠ .outOfFuel := by
  cases hg : Guard.resolve Keyword.whileLoop.word head.statement.arguments c.env with
  | error e =>
      refine ⟨1, ?_⟩
      simp only [runItem, hg]
      exact settled_finishes (by simp [Outcome.raise])
  | ok g =>
      by_cases hholds : g.holds c.env = true
      · exact ⟨1, by simp [runItem, hg, hholds]⟩
      · rw [Bool.not_eq_true] at hholds
        have hreads := hm.reads
        have hlen := hstop
        rw [Item.flatten] at hreads hlen
        simp only [List.length_cons, List.length_append, List.length_nil] at hlen
        have hpc := hm.pc
        have hbody := placed_body (m := m.inLoop ⟨g, a, a + 1 + (flattenAll body).length⟩)
          hreads hm.alike
        have hfin' := hfin.next (by omega) (hm.step_loop_enter hg hholds)
        obtain ⟨k₁, hk₁⟩ := hitem.items hbody (by omega) hfin'
        have hhalts : ∃ k, (andThen (runItems h k (a + 1) body c w) fun c w =>
            if g.holds c.env then (.ok true, c, w)
            else runItem h k a (.loop head body tail) c w).1 ≠ .outOfFuel := by
          refine andThen_halts (fun hk => runItems_mono hk) ?_ hk₁ ?_
          · intro k k' c w hk hne
            by_cases hholds' : g.holds c.env = true
            · rw [if_pos hholds', if_pos hholds']
            · rw [if_neg hholds'] at hne ⊢
              rw [if_neg hholds', runItem_mono hk hne]
          · intro ok' c' w' hok
            by_cases hholds' : g.holds c'.env = true
            · exact ⟨0, by simp [hholds']⟩
            · have htracks := (followed h k₁).1 w hbody (show _ ≤ stop by omega)
              rw [hok] at htracks
              obtain ⟨d, hd, hend⟩ := htracks.finishes hfin'
              -- The step of the `end` is paid for with fuel that the next round does not need.
              have hback : Finishes h stop n ((ok && true && ok') && true) (m.moveTo d a) w' := by
                have hstep : Machine.step h (Machine.run h 0)
                    ((m.inLoop ⟨g, a, a + 1 + (flattenAll body).length⟩).moveTo d
                      (a + 1 + (flattenAll body).length)) w' = _ :=
                  step_loop_end hreads.tail.right.head
                rw [hd.env] at hholds'
                rw [if_neg hholds'] at hstep
                exact (LeadsTo.step (by rw [moveTo_pc]; omega) hstep).back _ n hend
              have hplaced : Placed (m.moveTo d a) a (Item.loop head body tail).flatten c' :=
                ⟨hm.reads, hm.ends, rfl, hd⟩
              obtain ⟨k, hk⟩ := hitem hplaced hstop hback
              exact ⟨k, by rw [if_neg hholds']; exact hk⟩
        obtain ⟨k, hk⟩ := hhalts
        refine ⟨k + 1, ?_⟩
        simp only [runItem, hg, hholds]
        exact hk

theorem func_halts {a : Nat} {head : Headed .func} {body : Tree} {tail : Headed .endBlock} :
    ∃ k, (runItem h k a (.func head body tail) c w).1 ≠ .outOfFuel := by
  refine ⟨1, ?_⟩
  rw [runItem]
  refine settled_finishes ?_
  unfold defined
  split
  · split <;> simp [Outcome.raise]
  · simp [Outcome.raise]

/-! ### Any fuel -/

/-- Whatever the fuel of the machine, the items that it is enough for halt. -/
theorem item_halts : ∀ n, ItemHalts h n := by
  intro n
  induction n with
  | zero =>
      intro a stop i c m w ok _ _ hfin
      exact absurd hfin not_finishes_zero
  | succ n ih =>
      intro a stop i c m w ok hm hstop hfin
      have hpc : m.pc < stop := by
        obtain ⟨s, ss, hflat, -⟩ := i.flatten_eq_cons
        rw [hflat, List.length_cons] at hstop
        rw [hm.pc]
        omega
      have hstep := hfin.step hpc
      cases i with
      | plain s => exact plain_halts ih.items hm hstep
      | loop head body tail => exact loop_halts ih hm hstop hfin
      | chain head body tail rest => exact chain_halts ih.items hm hstep
      | func head body tail => exact func_halts

/-! ### The machine and the tree -/

theorem exists_runTree {t : Tree} {c : Context Tree} {w w' : World σ}
    {r : Outcome StatementError Bool} {n : Nat} {m : Machine}
    (hx : runUntilDone h n { toContext := c.flat, program := t.program } w = (r, m, w'))
    (hr : r ≠ .outOfFuel) : ∃ k c', runTree h k t c w = (r, c', w') ∧ c'.flat = m.toContext := by
  have hstart : c.publish h .initial w = c.flat.publish h .initial w :=
    c.alike_flat.publish h .initial w
  simp only [runUntilDone] at hx
  rcases hrun : Machine.run h n t.program.size { toContext := c.flat, program := t.program }
    (c.flat.publish h .initial w) with ⟨r₀, m₀, w₀⟩
  rw [hrun] at hx
  have hbody : (Machine.run h n).body t.program c.flat (c.publish h .initial w)
      = (r₀, m₀.toContext, w₀) := by
    rw [hstart]
    simp only [Runner.body, hrun]
  have hr₀ : r₀ ≠ .outOfFuel := by
    rintro rfl
    cases hx
    exact hr rfl
  obtain ⟨k, c', hk, hc'⟩ := (item_halts n).items.bodies rfl c.alike_flat.flip hbody hr₀
  have hflat : Context.Alike Flat c' m₀.toContext := hc'.flip
  refine ⟨k, c', ?_⟩
  cases r₀ with
  | outOfFuel => exact absurd rfl hr₀
  | ok ok =>
      cases hx
      refine ⟨?_, hflat.eq_flat⟩
      simp only [runTree, hk, hflat.publish]
  | failed e =>
      cases hx
      refine ⟨?_, hflat.eq_flat⟩
      simp only [runTree, hk]

theorem exists_runUntilDone {t : Tree} {c c' : Context Tree} {w w' : World σ}
    {r : Outcome StatementError Bool} {k : Nat} (hx : runTree h k t c w = (r, c', w'))
    (hr : r ≠ .outOfFuel) :
    ∃ n m, runUntilDone h n { toContext := c.flat, program := t.program } w = (r, m, w') ∧
      m.toContext = c'.flat := by
  have hstart : c.publish h .initial w = c.flat.publish h .initial w :=
    c.alike_flat.publish h .initial w
  simp only [runTree] at hx
  rcases hrun : runItems h k 0 t c (c.publish h .initial w) with ⟨r₀, c₀, w₀⟩
  rw [hrun] at hx
  have hr₀ : r₀ ≠ .outOfFuel := by
    rintro rfl
    cases hx
    exact hr rfl
  obtain ⟨n, d₀, hn, hd₀⟩ := (followed h k).1.bodies rfl c.alike_flat hrun hr₀
  rw [hstart] at hn
  rcases hflat : Machine.run h n t.program.size { toContext := c.flat, program := t.program }
    (c.flat.publish h .initial w) with ⟨r₁, m₁, w₁⟩
  simp only [Runner.body, hflat, Prod.mk.injEq] at hn
  obtain ⟨rfl, rfl, rfl⟩ := hn
  refine ⟨n, m₁, ?_⟩
  simp only [runUntilDone]
  rw [hflat]
  cases r₁ with
  | outOfFuel => exact absurd rfl hr₀
  | ok ok =>
      cases hx
      exact ⟨by rw [hd₀.publish], hd₀.eq_flat.symm⟩
  | failed e =>
      cases hx
      exact ⟨rfl, hd₀.eq_flat.symm⟩

/-- A machine on a flattened tree is finished with a result exactly if the tree is: with the same
flag or error, in the same variables and functions, after the same events. -/
theorem runUntilDone_iff_runTree (h : Host σ) (t : Tree) (c : Context Tree) (w : World σ)
    (r : Outcome StatementError Bool) (d : Context Program) (w' : World σ) :
    (r ≠ .outOfFuel ∧ ∃ n m,
      runUntilDone h n { toContext := c.flat, program := t.program } w = (r, m, w') ∧
        m.toContext = d) ↔
    (r ≠ .outOfFuel ∧ ∃ k c', runTree h k t c w = (r, c', w') ∧ c'.flat = d) := by
  refine and_congr_right ?_
  intro hr
  constructor
  · rintro ⟨n, m, hx, rfl⟩
    exact exists_runTree hx hr
  · rintro ⟨k, c', hx, rfl⟩
    exact exists_runUntilDone hx hr

end BareBones.Structured
