/-
What a statement writes.

A statement that belongs to no block writes at most one thing: its target, which is a variable that
is there already or has a name that was checked, or the value of the last `return`.  A call works on
a context of its own, so this is all of it whatever the statement calls.  What such statements keep
is read off here, be it about variables, about names or about functions.  A `while` moves the
machine or puts one loop on its stack, and a `func` adds a function, of which all names were
checked.  What fails has done none of this.
-/
import BareBones.Machine.Execute

namespace BareBones

variable {σ β : Type}

/-- The variable that the statement writes, if it writes one. -/
def Statement.target? (s : Statement) : Option String :=
  match s.keyword? with
  | some .incr | some .decr | some .clear | some .init | some .set => s.arguments[0]?
  | some .copy => s.arguments[2]?
  | _ => none

/-- What is left of `a` by something that makes one change to it, or fails and leaves it as it
was. -/
inductive AllOrNothing {α : Type} (a : α) (Change : α → Prop) : Except RuntimeError Unit × α → Prop
  | done {a' : α} (hchange : Change a') : AllOrNothing a Change (.ok (), a')
  | failed (e : RuntimeError) : AllOrNothing a Change (.error e, a)

theorem AllOrNothing.change {α : Type} {a a' : α} {Change : α → Prop}
    {x : Except RuntimeError Unit × α} (h : AllOrNothing a Change x) (hx : x = (.ok (), a')) :
    Change a' := by
  cases h with
  | done hchange =>
      cases hx
      exact hchange
  | failed e => cases hx

/-! ### Variables -/

/-- The second environment is the first one after a write to the variable, which is there already
or has the name of a variable. -/
def Environment.Writes (env : Environment) (name : String) (env' : Environment) : Prop :=
  ∃ v, env' = env.insert name v ∧ (env.contains name = true ∨ Name.checkVariable name = .ok ())

/-- The second environment is the first one after a write to the variable that the argument at `i`
names. -/
def Environment.WritesArgument (env : Environment) (args : List String) (i : Nat)
    (env' : Environment) : Prop :=
  ∃ name, args[i]? = some name ∧ env.Writes name env'

namespace Environment

variable {env env' : Environment} {name : String} {v : Value}

theorem bind_writes (h : env.bind name v = .ok env') : env.Writes name env' := by
  unfold bind at h
  split at h
  · cases h
  · next hname =>
    cases h
    exact ⟨v, rfl, Or.inr hname⟩

theorem declare_writes (h : env.declare name v = .ok env') : env.Writes name env' := by
  unfold declare at h
  split at h
  · cases h
  · exact bind_writes h

theorem assign_writes (h : env.assign name v = .ok env') : env.Writes name env' := by
  unfold assign at h
  split at h
  · next hin =>
    cases h
    exact ⟨v, rfl, Or.inl hin⟩
  · cases h

end Environment

namespace Machine

variable {args : List String} {operation : String}

theorem variableArgument_eq {name : String} (h : variableArgument operation args = .ok name) :
    args[0]? = some name := by
  cases args with
  | nil => cases h
  | cons arg args =>
      cases h
      rfl

theorem assignmentArguments_eq {expected left right : String}
    (h : assignmentArguments operation expected args = .ok (left, right)) :
    args[0]? = some left ∧ args[2]? = some right := by
  unfold assignmentArguments at h
  split at h
  · split at h
    · cases h
      exact ⟨rfl, rfl⟩
    · cases h
  · cases h

theorem mutate_spec (operation : String) (change : Value → Except MutationError Value)
    (args : List String) (env : Environment) :
    AllOrNothing env (env.WritesArgument args 0) (mutate operation change args env) := by
  unfold mutate
  split
  · exact .failed _
  · next name hname =>
    split
    · exact .failed _
    · next v hv =>
      have hin : env.contains name = true := by
        rw [NameMap.contains, hv]
        rfl
      split
      · exact .failed _
      · next v' _ => exact .done ⟨name, variableArgument_eq hname, v', rfl, Or.inl hin⟩

theorem clear_spec (args : List String) (env : Environment) :
    AllOrNothing env (env.WritesArgument args 0) (clear args env) := by
  unfold clear
  split
  · exact .failed _
  · next name hname =>
    split
    · exact mutate_spec _ _ args env
    · split
      · exact .failed _
      · next hdeclare =>
        exact .done ⟨name, variableArgument_eq hname, Environment.declare_writes hdeclare⟩

theorem init_spec (args : List String) (env : Environment) :
    AllOrNothing env (env.WritesArgument args 0) (init args env) := by
  unfold init
  split
  · exact .failed _
  · next hargs =>
    split
    · exact .failed _
    · next hdeclare =>
      exact .done ⟨_, (assignmentArguments_eq hargs).1, Environment.declare_writes hdeclare⟩

theorem copy_spec (args : List String) (env : Environment) :
    AllOrNothing env (env.WritesArgument args 2) (copy args env) := by
  unfold copy
  split
  · exact .failed _
  · next hargs =>
    split
    · exact .failed _
    · split
      · exact .failed _
      · next hbind =>
        exact .done ⟨_, (assignmentArguments_eq hargs).2, Environment.bind_writes hbind⟩

end Machine

/-! ### Contexts -/

namespace Context

/-- The second context is the first one after what the statement writes. -/
inductive Writes (s : Statement) (c : Context β) : Context β → Prop
  | nothing : Writes s c c
  | target {name : String} {env : Environment} (htarget : s.target? = some name)
      (henv : c.env.Writes name env) : Writes s c { c with env := env }
  | returned (v : Value) : Writes s c { c with returned := some v }

variable {h : Host σ} {run : BodyRunner σ β} {c c' : Context β} {s : Statement} {w w' : World σ}
  {r : Outcome Failure Bool}

theorem Writes.functions (hw : c.Writes s c') : c'.functions = c.functions := by
  cases hw <;> rfl

theorem Writes.scope (hw : c.Writes s c') : c'.scope = c.scope := by
  cases hw <;> rfl

theorem withEnv_writes {change : Except RuntimeError Unit × Environment} {i : Nat}
    (htarget : s.target? = s.arguments[i]?)
    (hspec : AllOrNothing c.env (c.env.WritesArgument s.arguments i) change)
    (hx : c.withEnv w change = (r, c', w')) : c.Writes s c' := by
  cases hspec with
  | failed e =>
      cases hx
      exact .nothing
  | done hchange =>
      obtain ⟨name, hname, henv⟩ := hchange
      cases hx
      exact .target (htarget.trans hname) henv

theorem print_writes {args : List String} (hx : c.print h args w = (r, c', w')) :
    c.Writes s c' := by
  unfold print at hx
  split at hx <;> cases hx <;> exact .nothing

theorem set_writes (hk : s.keyword? = some .set) (hx : c.set h run s.arguments w = (r, c', w')) :
    c.Writes s c' := by
  unfold set at hx
  split at hx
  · cases hx
    exact .nothing
  · next name value hargs =>
    have htarget : s.target? = some name := by
      simp only [Statement.target?, hk]
      exact (Machine.assignmentArguments_eq hargs).1
    split at hx
    · split at hx
      · split at hx
        · next hassign =>
          cases hx
          exact .target htarget (Environment.assign_writes hassign)
        · cases hx
          exact .nothing
      · cases hx
        exact .nothing
      · cases hx
        exact .nothing
    · cases hx
      exact .nothing

theorem returnValue_writes {args : List String} (hx : c.returnValue h run args w = (r, c', w')) :
    c.Writes s c' := by
  unfold returnValue at hx
  split at hx
  · cases hx
    exact .nothing
  · split at hx
    · cases hx
      exact .nothing
    · split at hx
      · cases hx
        exact .returned _
      · cases hx
        exact .nothing
      · cases hx
        exact .nothing

theorem callStatement_writes (hx : c.callStatement h run s w = (r, c', w')) : c.Writes s c' := by
  unfold callStatement at hx
  split at hx <;> cases hx <;> exact .nothing

/-- All that a statement can do to its context, however it ends and whatever it calls. -/
theorem execute_writes (hx : c.execute h run s w = (r, c', w')) : c.Writes s c' := by
  simp only [execute] at hx
  split at hx
  · exact print_writes hx
  · next hk =>
    exact withEnv_writes (by simp only [Statement.target?, hk]) (Machine.mutate_spec ..) hx
  · next hk =>
    exact withEnv_writes (by simp only [Statement.target?, hk]) (Machine.mutate_spec ..) hx
  · next hk =>
    exact withEnv_writes (by simp only [Statement.target?, hk]) (Machine.clear_spec ..) hx
  · next hk =>
    exact withEnv_writes (by simp only [Statement.target?, hk]) (Machine.init_spec ..) hx
  · next hk =>
    exact withEnv_writes (by simp only [Statement.target?, hk]) (Machine.copy_spec ..) hx
  · next hk => exact set_writes hk hx
  · exact returnValue_writes hx
  · exact callStatement_writes hx

end Context

/-! ### Functions -/

namespace Function

variable {s : Statement} {p : Program} {a stop : Nat} {f : Function Program}

theorem checkParams_eq_ok : ∀ {params : List String}, checkParams params = .ok () →
    ∀ x ∈ params, Name.checkVariable x = .ok () := by
  intro params
  induction params with
  | nil =>
      intro _ x hx
      exact absurd hx List.not_mem_nil
  | cons p ps ih =>
      intro h x hx
      simp only [checkParams] at h
      split at h
      · cases h
      · next hp =>
        rcases List.mem_cons.1 hx with rfl | hx
        · exact hp
        · exact ih h x hx

/-- A function that is defined has the names that its statement gives, and they were checked. -/
theorem define_eq_ok (h : define s p a stop = .ok f) :
    ∃ name params, dropDo s.arguments = name :: params ∧ Name.checkFunction name = .ok () ∧
      (∀ x ∈ params, Name.checkVariable x = .ok ()) ∧
      f = ⟨name, params, p.slice (a + 1) stop, a + 1, stop, (p.slice (a + 1) stop).sourceText⟩ := by
  unfold define ofHead at h
  split at h
  · cases h
  · next name params hargs =>
    split at h
    · cases h
    · next hname =>
      split at h
      · cases h
      · next hparams =>
        cases h
        exact ⟨name, params, hargs, hname, checkParams_eq_ok hparams, rfl⟩

end Function

/-! ### Machines -/

namespace Machine

/-- What a `while` does: the machine goes past the loop if its guard holds, and into it
otherwise. -/
inductive EntersLoop (m : Machine) (a : Nat) (args : List String) : Machine → Prop
  | past {stop : Nat} {g : Guard} (hblock : m.program.blockEnd? a = some stop)
      (hguard : Guard.resolve Keyword.whileLoop.word args m.env = .ok g)
      (hholds : g.holds m.env = true) : EntersLoop m a args (m.goto (stop + 1))
  | inside {stop : Nat} {g : Guard} (hblock : m.program.blockEnd? a = some stop)
      (hguard : Guard.resolve Keyword.whileLoop.word args m.env = .ok g)
      (hholds : g.holds m.env = false) :
      EntersLoop m a args { m with loops := ⟨g, a, stop⟩ :: m.loops }

/-- What a `func` does in the main scope: it adds the function that it defines, and the machine goes
past the body. -/
inductive DefinesFunction (m : Machine) (a : Nat) (s : Statement) : Machine → Prop
  | defined {stop : Nat} {f : Function Program} (hmain : m.scope.isMain = true)
      (hblock : m.program.blockEnd? a = some stop)
      (hf : Function.define s m.program a stop = .ok f) :
      DefinesFunction m a s
        { m with functions := m.functions.insert f.name f, pc := stop + 1 }

/-- What is true of the machine, and of all that the change can make of it, is true of what the
statement leaves behind. -/
theorem after_moved {m m' : Machine} {x : Except RuntimeError Unit × Machine}
    {Change P : Machine → Prop} {r : Outcome Failure Bool} {w w' : World σ}
    (hx : moved w x = (r, m', w')) (hspec : AllOrNothing m Change x) (hsame : P m)
    (hdone : ∀ m', Change m' → P m') : P m' := by
  cases hspec with
  | done hchange =>
      cases hx
      exact hdone m' hchange
  | failed e =>
      cases hx
      exact hsame

theorem enterLoop_spec (m : Machine) (a : Nat) (args : List String) :
    AllOrNothing m (m.EntersLoop a args) (m.enterLoop a args) := by
  unfold enterLoop
  split
  · exact .failed _
  · next stop hblock =>
    split
    · exact .failed _
    · next g hguard =>
      split
      · next hholds => exact .done (.past hblock hguard hholds)
      · next hholds => exact .done (.inside hblock hguard (by simpa using hholds))

theorem defineFunction_spec (m : Machine) (a : Nat) (s : Statement) :
    AllOrNothing m (m.DefinesFunction a s) (m.defineFunction a s) := by
  unfold defineFunction
  split
  · next hmain =>
    split
    · exact .failed _
    · next stop hblock =>
      split
      · exact .failed _
      · next f hf => exact .done (.defined hmain hblock hf)
  · exact .failed _

end Machine

end BareBones
