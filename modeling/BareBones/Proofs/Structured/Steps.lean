/-
What a machine does at each place of a flattened tree.

The context of the machine and the context of the tree are alike: they differ in the bodies of
functions only, which are programs on one side and trees on the other.  Each lemma here is about
one statement at its address.  None of them needs to know how the rest of the program is run.
-/
import BareBones.Proofs.Structured.Interpret

namespace BareBones

variable {σ : Type}

/-- The program is the flattened tree. -/
def Flat (t : Tree) (p : Program) : Prop :=
  p = t.program

/-- The map with the function applied to its values. -/
def NameMap.map {α β : Type} (f : α → β) (m : NameMap α) : NameMap β :=
  ⟨m.entries.map fun x => (x.1, f x.2), by
    unfold Sorted
    exact List.pairwise_map.2 m.sorted⟩

/-- The function with its body flattened. -/
def Function.flat (f : Function Tree) : Function Program where
  name := f.name
  params := f.params
  body := f.body.program
  start := f.start
  stop := f.stop
  source := f.source

/-- The context with the bodies of its functions flattened. -/
def Context.flat (c : Context Tree) : Context Program where
  env := c.env
  functions := c.functions.map Function.flat
  returned := c.returned
  scope := c.scope

/-- The machine in another context and at another address. -/
def Machine.moveTo (m : Machine) (d : Context Program) (a : Nat) : Machine :=
  { m with toContext := d, pc := a }

/-- The machine with one more loop on its stack. -/
def Machine.inLoop (m : Machine) (f : LoopFrame) : Machine :=
  { m with loops := f :: m.loops }

namespace Machine

variable {m : Machine} {d : Context Program} {a : Nat}

@[simp] theorem inLoop_program (f : LoopFrame) : (m.inLoop f).program = m.program := rfl

@[simp] theorem moveTo_toContext : (m.moveTo d a).toContext = d := rfl

@[simp] theorem moveTo_pc : (m.moveTo d a).pc = a := rfl

@[simp] theorem moveTo_program : (m.moveTo d a).program = m.program := rfl

@[simp] theorem moveTo_loops : (m.moveTo d a).loops = m.loops := rfl

@[simp] theorem moveTo_moveTo (d' : Context Program) (a' : Nat) :
    (m.moveTo d a).moveTo d' a' = m.moveTo d' a' := rfl

@[simp] theorem goto_moveTo (b : Nat) : (m.moveTo d a).goto b = m.moveTo d b := rfl

@[simp] theorem moveTo_goto (b : Nat) : (m.goto b).moveTo d a = m.moveTo d a := rfl

theorem moveTo_self (h : m.pc = a) : m.moveTo m.toContext a = m := by
  subst h
  rfl

variable {h : Host σ} {run : Runner σ} {s : Statement} {w : World σ}

/-! ### One step, seen through the outcome of its statement -/

/-- The outcome lets the run go on: the statement succeeded, or failed in a way that can be
recovered from. -/
def GoesOn : Outcome Failure Bool → Prop
  | .ok _ => True
  | .failed (.raised e) => e.isRecoverable = true
  | _ => False

theorem step_continued {r : Outcome Failure Bool} {m' : Machine} {w' w'' : World σ} {ok : Bool}
    (hs : m.next? = some s) (hx : execute h run (m.goto (m.pc + 1)) m.pc s w = (r, m', w'))
    (hr : m'.settle h m.pc s r w' = (.ok ok, w'')) :
    step h run m w = (.ok (.continued ok), m', w'') := by
  simp only [step, hs, hx, hr]

theorem step_failed {r : Outcome Failure Bool} {m' : Machine} {w' w'' : World σ}
    {e : StatementError} (hs : m.next? = some s)
    (hx : execute h run (m.goto (m.pc + 1)) m.pc s w = (r, m', w'))
    (hr : m'.settle h m.pc s r w' = (.failed e, w'')) :
    step h run m w = (.failed e, m', w'') := by
  simp only [step, hs, hx, hr]

/-- A statement that belongs to no block leaves the machine where it is. -/
theorem execute_plain (ho : s.opensBlock = false) (hc : s.closesBlock = false) (m : Machine)
    (a : Nat) (w : World σ) :
    execute h run m a s w = m.inContext (m.toContext.execute h run.body s w) := by
  unfold Statement.opensBlock at ho
  unfold Statement.closesBlock at hc
  unfold execute
  cases hk : s.keyword? with
  | none => rfl
  | some k =>
      rw [hk] at ho hc
      cases k <;> simp_all [Keyword.opensBlock]

end Machine

namespace Context

variable {β γ : Type} {B : β → γ → Prop} {c : Context β} {d : Context γ}

theorem Alike.publish (hcd : Alike B c d) (h : Host σ) (moment : Moment) (w : World σ) :
    c.publish h moment w = d.publish h moment w := by
  unfold Context.publish
  rw [hcd.scope, hcd.env]

/-- What an outcome means for the run is the same in contexts that are alike. -/
theorem Alike.settle (hcd : Alike B c d) (h : Host σ) (a : Nat) (s : Statement)
    (r : Outcome Failure Bool) (w : World σ) : c.settle h a s r w = d.settle h a s r w := by
  have hpub : ∀ w, c.publishAfter h a s w = d.publishAfter h a s w := by
    intro w
    unfold publishAfter
    rw [hcd.publish]
  have hloc : ∀ e, c.locate a s e = d.locate a s e := by
    intro e
    unfold locate
    rw [hcd.scope]
  rcases r with ok | ⟨e | e⟩ | _
  · simp only [Context.settle, hpub]
  · simp only [Context.settle, hpub, hloc]
  · rfl
  · rfl

theorem Alike.flip (hcd : Alike B c d) : Alike (fun y x => B x y) d c := by
  refine ⟨hcd.env.symm, ?_, hcd.returned.symm, hcd.scope.symm⟩
  refine List.Forall₂.flip (List.Forall₂.imp ?_ hcd.functions)
  rintro x y ⟨hname, hf⟩
  exact ⟨hname.symm, hf.name.symm, hf.params.symm, hf.start.symm, hf.stop.symm, hf.source.symm,
    hf.body⟩

theorem alike_flat (c : Context Tree) : Alike Flat c c.flat := by
  refine ⟨rfl, ?_, rfl, rfl⟩
  refine List.forall₂_map_right_iff.2 (List.forall₂_same.2 ?_)
  intro x _
  exact ⟨rfl, rfl, rfl, rfl, rfl, rfl, rfl⟩

/-- Only the flattened context is like the context. -/
theorem Alike.eq_flat {c : Context Tree} {d : Context Program} (hcd : Alike Flat c d) :
    c.flat = d := by
  have heq : Alike Eq c.flat d := by
    refine ⟨hcd.env, ?_, hcd.returned, hcd.scope⟩
    refine List.forall₂_map_left_iff.2 (List.Forall₂.imp ?_ hcd.functions)
    rintro x y ⟨hname, hf⟩
    exact ⟨hname, hf.name, hf.params, hf.start, hf.stop, hf.source, hf.body.symm⟩
  exact heq.eq

/-- Bodies that are alike make functions that are alike, or none. -/
theorem ofHead_alike {s : Statement} {b : β} {b' : γ} (hb : B b b') (source : String)
    (a stop : Nat) :
    (∃ e, Function.ofHead s b source a stop = .error e ∧
        Function.ofHead s b' source a stop = .error e) ∨
      ∃ f g, Function.ofHead s b source a stop = .ok f ∧
        Function.ofHead s b' source a stop = .ok g ∧ Function.Alike B f g := by
  unfold Function.ofHead
  cases Function.dropDo s.arguments with
  | nil => exact Or.inl ⟨_, rfl, rfl⟩
  | cons name params =>
      dsimp only
      cases Name.checkFunction name with
      | error e => exact Or.inl ⟨_, rfl, rfl⟩
      | ok _ =>
          cases Function.checkParams params with
          | error e => exact Or.inl ⟨_, rfl, rfl⟩
          | ok _ => exact Or.inr ⟨_, _, rfl, rfl, rfl, rfl, rfl, rfl, rfl, hb⟩

end Context

namespace Structured

open Machine

variable {h : Host σ} {run : Runner σ} {m : Machine} {c : Context Tree} {w : World σ} {a : Nat}
  {body : Tree} {tail : Headed .endBlock}

/-! ### Loops -/

/-- A loop whose guard holds is passed over. -/
theorem execute_loop_skip {head : Headed .whileLoop} {rest : List Statement} {g : Guard}
    (hreads : m.program.Reads a (head.statement :: (flattenAll body ++ tail.statement :: rest)))
    (hg : Guard.resolve Keyword.whileLoop.word head.statement.arguments m.env = .ok g)
    (hholds : g.holds m.env = true) :
    execute h run m a head.statement w
      = (.ok true, m.goto (a + 1 + (flattenAll body).length + 1), w) := by
  have hblock := hreads.blockEnd? head.opens tail.closes (balanced_flattenAll body)
  simp [execute, head.keyword, enterLoop, hblock, hg, hholds, moved]

/-- A loop whose guard does not hold is entered. -/
theorem execute_loop_enter {head : Headed .whileLoop} {rest : List Statement} {g : Guard}
    (hreads : m.program.Reads a (head.statement :: (flattenAll body ++ tail.statement :: rest)))
    (hg : Guard.resolve Keyword.whileLoop.word head.statement.arguments m.env = .ok g)
    (hholds : g.holds m.env = false) :
    execute h run m a head.statement w
      = (.ok true, m.inLoop ⟨g, a, a + 1 + (flattenAll body).length⟩, w) := by
  have hblock := hreads.blockEnd? head.opens tail.closes (balanced_flattenAll body)
  simp [execute, head.keyword, enterLoop, hblock, hg, hholds, moved, inLoop]

theorem execute_loop_error {head : Headed .whileLoop} {rest : List Statement} {e : RuntimeError}
    (hreads : m.program.Reads a (head.statement :: (flattenAll body ++ tail.statement :: rest)))
    (hg : Guard.resolve Keyword.whileLoop.word head.statement.arguments m.env = .error e) :
    execute h run m a head.statement w = (.raise e, m, w) := by
  have hblock := hreads.blockEnd? head.opens tail.closes (balanced_flattenAll body)
  simp [execute, head.keyword, enterLoop, hblock, hg, moved]

/-- The `end` of the innermost loop leads behind the loop, or back to its start. -/
theorem execute_loop_end {g : Guard} {start stop : Nat} {d : Context Program} :
    execute h run ((m.inLoop ⟨g, start, stop⟩).moveTo d (stop + 1)) stop tail.statement w
      = (.ok true, m.moveTo d (if g.holds d.env then stop + 1 else start), w) := by
  by_cases hholds : g.holds d.env = true
  · simp [execute, tail.keyword, closeBlock, inLoop, LoopFrame.finished, hholds, moveTo]
  · simp [execute, tail.keyword, closeBlock, inLoop, LoopFrame.finished, hholds, moveTo, goto]

/-! ### Functions -/

theorem ofHead_not_recoverable {β : Type} {s : Statement} {b : β} {source : String} {stop : Nat}
    {e : RuntimeError} (hx : Function.ofHead s b source a stop = .error e) :
    e.isRecoverable = false := by
  unfold Function.ofHead at hx
  split at hx
  · cases hx; rfl
  · split at hx
    · cases hx; rfl
    · split at hx
      · cases hx; rfl
      · cases hx

/-- The definition of a function is left for the statement behind its body. -/
theorem execute_func (run : Runner σ) {head : Headed .func} {rest : List Statement}
    {r : Outcome Failure Bool} {c' : Context Tree} {w' : World σ}
    (hreads : m.program.Reads a (head.statement :: (flattenAll body ++ tail.statement :: rest)))
    (hc : Context.Alike Flat c m.toContext)
    (hx : defined a head.statement body c w = (r, c', w')) :
    ∃ m', execute h run m a head.statement w = (r, m', w') ∧
      Context.Alike Flat c' m'.toContext ∧
      (GoesOn r → m' = m.moveTo m'.toContext (a + 1 + (flattenAll body).length + 1)) := by
  have hblock := hreads.blockEnd? head.opens tail.closes (balanced_flattenAll body)
  have hslice : m.program.slice (a + 1) (a + 1 + (flattenAll body).length) = body.program :=
    hreads.tail.left.slice
  simp only [execute, head.keyword, defineFunction, hblock, Function.define, hslice]
  simp only [defined] at hx
  split at hx
  · next hmain =>
    rw [hc.scope] at hmain
    simp only [if_pos hmain]
    have hflat : Flat body body.program := rfl
    rcases Context.ofHead_alike (s := head.statement) hflat body.program.sourceText a
      (a + 1 + (flattenAll body).length) with
      ⟨e, hf, hg⟩ | ⟨f, g, hf, hg, hfg⟩
    · simp only [hf, Prod.mk.injEq] at hx
      obtain ⟨rfl, rfl, rfl⟩ := hx
      refine ⟨m, by simp only [hg, moved], hc, ?_⟩
      intro hgo
      have hrec : e.isRecoverable = true := hgo
      rw [ofHead_not_recoverable hf] at hrec
      simp at hrec
    · simp only [hf, Prod.mk.injEq] at hx
      obtain ⟨rfl, rfl, rfl⟩ := hx
      refine ⟨{ m with functions := m.functions.insert g.name g,
                       pc := a + 1 + (flattenAll body).length + 1 },
        by simp only [hg, moved], ?_, fun _ => rfl⟩
      refine ⟨hc.env, ?_, hc.returned, hc.scope⟩
      rw [hfg.name]
      exact insertEntry_alike hc.functions hfg g.name
  · next hmain =>
    rw [hc.scope] at hmain
    simp only [if_neg hmain]
    simp only [Prod.mk.injEq] at hx
    obtain ⟨rfl, rfl, rfl⟩ := hx
    refine ⟨m, rfl, hc, ?_⟩
    intro hgo
    exact absurd hgo (by simp [Outcome.raise, GoesOn, RuntimeError.isRecoverable])

/-! ### Chains -/

/-- Behind the block that ran, the other links are passed over. -/
theorem passOver_list : ∀ (rest : Links) (stop : Nat) (m : Machine),
    passOver (rest.list (stop + 1)) (m.leave stop (rest.list (stop + 1)))
      = (.ok (), m.goto (stop + 1 + rest.flatten.length))
  | .none, stop, m => by
      rw [Links.list, Links.flatten]
      rfl
  | .elif head body tail rest, stop, m => by
      rw [Links.list, Links.flatten, passOver]
      have hrest := passOver_list rest (stop + 1 + 1 + (flattenAll body).length)
        (m.goto (stop + 2))
      simp only [leave, List.isEmpty_cons] at hrest ⊢
      rw [show (m.goto (if false = true then stop + 1 else stop + 2)) = m.goto (stop + 2) from rfl]
      rw [hrest]
      simp only [List.length_cons, List.length_append, goto]
      congr 2
      omega
  | .otherwise head body tail, stop, m => by
      rw [Links.list, Links.flatten]
      simp only [passOver, leave, goto, List.isEmpty_nil, if_true, List.length_cons,
        List.length_append, List.length_nil]
      congr 2
      omega

variable {stop : Nat}

theorem runChain_take (rest : Links) {l : Link} {ok : Bool} {m' : Machine} {w' : World σ}
    (hstop : l.stop = some stop) (htaken : l.taken m.env = .ok true)
    (hrun : run stop (m.goto (l.opener + 1)) w = (.ok ok, m', w')) :
    runChain run (l :: rest.list (stop + 1)) m w
      = (.ok ok, m'.goto (stop + 1 + rest.flatten.length), w') := by
  simp only [runChain, hstop, htaken, hrun, passOver_list]

theorem runChain_take_failed {l : Link} {ls : List Link} {e : StatementError} {m' : Machine}
    {w' : World σ} (hstop : l.stop = some stop) (htaken : l.taken m.env = .ok true)
    (hrun : run stop (m.goto (l.opener + 1)) w = (.failed e, m', w')) :
    runChain run (l :: ls) m w = (.failed (.nested e), m', w') := by
  simp only [runChain, hstop, htaken, hrun]

theorem taken_of_guard {l : Link} {env : Environment} {g : Guard}
    (hne : l.statement.keyword? ≠ some .elseBranch)
    (hg : Guard.resolve l.statement.operation l.statement.arguments env = .ok g) :
    l.taken env = .ok (g.holds env) := by
  simp only [Link.taken, if_neg hne, hg]

end Structured

end BareBones
