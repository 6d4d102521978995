/-
Every name is a valid one.

A name is checked where it may be new: by `init` and `copy`, by `clear` if the variable is missing,
at the definition of a function and of its parameters, and before the run when a variable comes from
outside.  The other ways to write a variable ask that it is there, and then its name was checked
before.  So wherever a run stands, in the program or in a call at any depth, all variables have
names of variables, all functions are kept under their own names, and all parameters can be bound.
-/
import BareBones.Proofs.Points
import BareBones.Session

namespace BareBones

variable {σ β : Type}

/-! ### Variables -/

/-- The name of a variable has no meaning of its own. -/
theorem Name.not_reserved_of_checkVariable {name : String} (h : checkVariable name = .ok ()) :
    Keyword.ofWord? name = none ∧ Arithmetic.isReserved name = false := by
  have hreserved := (of_checkVariable h).1
  simpa [isReserved] using hreserved

/-- All variables have names of variables. -/
def Environment.Named (env : Environment) : Prop :=
  ∀ name, env.contains name = true → Name.checkVariable name = .ok ()

namespace Environment

variable {env env' : Environment} {name : String} {v : Value}

theorem named_empty : (∅ : Environment).Named := by
  intro name hname
  cases hname

theorem Named.writes (henv : env.Named) (hw : env.Writes name env') : env'.Named := by
  obtain ⟨v, rfl, hname⟩ := hw
  intro n hn
  rw [NameMap.contains_insert, Bool.or_eq_true, decide_eq_true_iff] at hn
  rcases hn with rfl | hn
  · rcases hname with hin | hchecked
    · exact henv n hin
    · exact hchecked
  · exact henv n hn

end Environment

namespace Machine

variable {caller : Environment}

theorem named_bindParams : ∀ {bindings : List (String × String)} {env env' : Environment},
    env.Named → bindParams caller bindings env = .ok env' → env'.Named := by
  intro bindings
  induction bindings with
  | nil =>
      intro env env' henv hx
      cases hx
      exact henv
  | cons binding rest ih =>
      intro env env' henv hx
      obtain ⟨param, arg⟩ := binding
      simp only [bindParams] at hx
      split at hx
      · cases hx
      · next hbind => exact ih (henv.writes (Environment.bind_writes hbind)) hx

/-- Parameters with names of variables can be bound to any arguments. -/
theorem exists_bindParams (args : List String) : ∀ {params : List String} (env : Environment),
    (∀ x ∈ params, Name.checkVariable x = .ok ()) →
    ∃ env', bindParams caller (params.zip args) env = .ok env' := by
  induction args with
  | nil =>
      intro params env _
      rw [List.zip_nil_right]
      exact ⟨env, rfl⟩
  | cons arg args ih =>
      intro params env hparams
      cases params with
      | nil => exact ⟨env, rfl⟩
      | cons param params =>
          have hparam := hparams param List.mem_cons_self
          have hrest : ∀ x ∈ params, Name.checkVariable x = .ok () := fun x hx =>
            hparams x (List.mem_cons_of_mem param hx)
          simp only [List.zip_cons_cons, bindParams, Environment.bind, hparam]
          exact ih _ hrest

end Machine

/-! ### Contexts -/

/-- All names that the context holds are valid, and functions are kept under their own. -/
structure Context.Named (c : Context β) : Prop where
  env : c.env.Named
  functions : ∀ name f, c.functions.get? name = some f →
    f.name = name ∧ Name.checkFunction name = .ok () ∧
      ∀ x ∈ f.params, Name.checkVariable x = .ok ()

namespace Machine

variable {h : Host σ}

theorem named_start {env : Environment} (henv : env.Named) :
    Context.Named (β := β) { env := env } := by
  refine ⟨henv, ?_⟩
  intro name f hf
  cases hf

/-- No statement makes a name that is not valid. -/
theorem kept_named : Kept fun _ c => c.Named := by
  refine ⟨?_, ?_⟩
  · intro p c c' s hc hw
    cases hw with
    | nothing => exact hc
    | target _ henv => exact ⟨hc.env.writes henv, hc.functions⟩
    | returned v => exact ⟨hc.env, hc.functions⟩
  · intro p c a stop s f hc _ _ _ _ hf
    obtain ⟨name, params, -, hname, hparams, rfl⟩ := Function.define_eq_ok hf
    refine ⟨hc.env, ?_⟩
    intro n g hg
    rw [NameMap.get?_insert] at hg
    split at hg
    · next heq =>
      cases hg
      subst heq
      exact ⟨rfl, hname, hparams⟩
    · exact hc.functions n g hg

/-- A call starts with valid names: those of its caller and those of the parameters. -/
theorem named_enter {c : Context Program} {name : String} {args : List String} {body : Program}
    {callee : Context Program} (hc : c.Named) (hx : c.enter h name args = .ok (body, callee)) :
    callee.Named := by
  obtain ⟨f, env, -, -, henv, -, rfl⟩ := Context.enter_eq_ok hx
  exact ⟨named_bindParams hc.env henv, hc.functions⟩

end Machine

/-! ### Sessions -/

/-- A variable that is given to a session before it runs. -/
inductive Definition where
  | global (name value : String)
  /-- A text `NAME=VALUE`. -/
  | assignment (text : String)

namespace Session

/-- Adds the variable. -/
def define (s : Session) : Definition → Except SessionError Session
  | .global name value => s.defineGlobal name value
  | .assignment text => s.defineAssignment text

/-- The session after the definitions.  One that fails changes nothing. -/
def defineAll (s : Session) (ds : List Definition) : Session :=
  ds.foldl (fun s d => (s.define d).toOption.getD s) s

variable {s s' : Session}

theorem named_defineGlobal {name value : String} (hs : s.globals.Named)
    (hx : s.defineGlobal name value = .ok s') : s'.globals.Named := by
  unfold defineGlobal at hx
  split at hx
  · next hbind =>
    cases hx
    exact hs.writes (Environment.bind_writes hbind)
  · cases hx

theorem named_define {d : Definition} (hs : s.globals.Named) (hx : s.define d = .ok s') :
    s'.globals.Named := by
  cases d with
  | global name value => exact named_defineGlobal hs hx
  | assignment text =>
      simp only [define, defineAssignment] at hx
      split at hx
      · cases hx
      · exact named_defineGlobal hs hx

theorem named_defineAll : ∀ (ds : List Definition) {s : Session}, s.globals.Named →
    (s.defineAll ds).globals.Named := by
  intro ds
  induction ds with
  | nil =>
      intro s hs
      exact hs
  | cons d ds ih =>
      intro s hs
      refine ih ?_
      show ((s.define d).toOption.getD s).globals.Named
      cases hx : s.define d with
      | ok s' => exact named_define hs hx
      | error e => exact hs

theorem named_ofSource {source : String} (hs : ofSource source = .ok s) : s.globals.Named := by
  unfold ofSource at hs
  split at hs
  · cases hs
    exact Environment.named_empty
  · cases hs

/-- Where a run of the session begins. -/
def start (h : Host σ) (s : Session) (w : World σ) : Point σ :=
  ⟨s.program.size, s.machine, s.machine.publish h .initial w⟩

/-- The context is that of a machine in a run of the session, be it the machine of the program or
that of a call.  The machine is about to take a statement, or it is done with one, however that
ended. -/
def Passes (h : Host σ) (s : Session) (w : World σ) (c : Context Program) : Prop :=
  ∃ x, Point.Reaches h (s.start h w) x ∧
    (c = x.machine.toContext ∨
      ∃ fuel, c = (Machine.step h (Machine.run h fuel) x.machine x.world).2.1.toContext)

/-- A property that is kept, with which calls start and the session starts, is true of all contexts
that a session passes through. -/
theorem Passes.kept {h : Host σ} {w : World σ} {c : Context Program}
    {I : Program → Context Program → Prop} (hc : s.Passes h w c) (hI : Machine.Kept I)
    (hcall : ∀ {p : Program} {c : Context Program} {name : String} {args : List String}
      {body : Program} {callee : Context Program},
      I p c → c.enter h name args = .ok (body, callee) → I body callee)
    (hs : I s.program s.machine.toContext) : ∃ p, I p c := by
  obtain ⟨x, hx, hc⟩ := hc
  have hkept : I x.machine.program x.machine.toContext := hI.reaches hcall hx hs
  rcases hc with rfl | ⟨fuel, rfl⟩
  · exact ⟨_, hkept⟩
  · exact ⟨_, (hI.step (hI.runner fuel) hkept rfl).2⟩

/-- Through whatever contexts a session passes, all names in them are valid. -/
theorem Passes.named {h : Host σ} {w : World σ} {c : Context Program} (hc : s.Passes h w c)
    (hs : s.globals.Named) : c.Named := by
  obtain ⟨-, hnamed⟩ := hc.kept Machine.kept_named (fun hc hx => Machine.named_enter hc hx)
    (Machine.named_start hs)
  exact hnamed

/-- Whatever variables a session is given before it runs, at all times of the run, in the program
and in all calls, every variable has the name of a variable, and so no keyword and no word of
arithmetic; every function is kept under its own name, which is one of a function; and every
parameter has the name of a variable, so that arguments can always be bound to it. -/
theorem run_has_valid_names (h : Host σ) (source : String) (s : Session)
    (hs : ofSource source = .ok s) (ds : List Definition) (w : World σ) (c : Context Program)
    (hc : (s.defineAll ds).Passes h w c) :
    (∀ name, c.env.contains name = true → Name.checkVariable name = .ok () ∧
        Keyword.ofWord? name = none ∧ Arithmetic.isReserved name = false) ∧
      ∀ name f, c.functions.get? name = some f →
        f.name = name ∧ Name.checkFunction name = .ok () ∧
        (∀ x ∈ f.params, Name.checkVariable x = .ok ()) ∧
        ∀ args, ∃ env, Machine.bindParams c.env (f.params.zip args) c.env = .ok env := by
  have hnamed : c.Named := hc.named (named_defineAll ds (named_ofSource hs))
  refine ⟨?_, ?_⟩
  · intro name hname
    have hchecked := hnamed.env name hname
    exact ⟨hchecked, Name.not_reserved_of_checkVariable hchecked⟩
  · intro name f hf
    obtain ⟨hkey, hchecked, hparams⟩ := hnamed.functions name f hf
    exact ⟨hkey, hchecked, hparams, fun args => Machine.exists_bindParams args c.env hparams⟩

/-- Three of the definitions fail.  A function copies its parameter to a new variable, and behind
that the context of the call has valid names only. -/
theorem run_has_valid_names_in_call :
    let p := Program.ofStatements [⟨"func", ["Fn", "a"], "func Fn a", 1⟩,
      ⟨"copy", ["a", "to", "b"], "copy a to b", 1⟩, ⟨"end", [], "end", 1⟩,
      ⟨"Fn", ["x"], "Fn x", 1⟩]
    let ds := [.assignment "novalue", .global "while" "1", .assignment "Up=1", .assignment "x=1"]
    let h : Host Unit := ⟨{}, fun _ u => (.error (.unknownFunction ""), u)⟩
    ofSource "func Fn a; copy a to b; end; Fn x" = .ok { program := p } ∧
      ∃ c, Passes h (defineAll { program := p } ds) { state := () } c ∧
        c.scope = .function "Fn" 1 ∧ c.env.entries.map Prod.fst = ["a", "b", "x"] ∧
        (∀ name, c.env.contains name = true → Keyword.ofWord? name = none) ∧
        ∀ f, c.functions.get? "Fn" = some f → f.name = "Fn" := by
  intro p ds h
  have hsource : ofSource "func Fn a; copy a to b; end; Fn x" = .ok { program := p } := by rfl
  have hdefined : Point.Next h ((defineAll { program := p } ds).start h { state := () })
      (((defineAll { program := p } ds).start h { state := () }).after h 1) :=
    .after (s := ⟨"func", ["Fn", "a"], "func Fn a", 1⟩) true
      ⟨by decide +kernel, by decide +kernel⟩ (by decide +kernel)
  have hcalled : Point.Next h (((defineAll { program := p } ds).start h { state := () }).after h 1)
      _ := .get_inside (s := ⟨"Fn", ["x"], "Fn x", 1⟩) ⟨by decide +kernel, by decide +kernel⟩
        (by decide +kernel)
  have hpasses : Passes h (defineAll { program := p } ds) { state := () } _ :=
    ⟨_, (Relation.ReflTransGen.single hdefined).tail hcalled, Or.inr ⟨0, rfl⟩⟩
  obtain ⟨hvariables, hfunctions⟩ := run_has_valid_names h _ _ hsource ds _ _ hpasses
  refine ⟨hsource, _, hpasses, by decide +kernel, by decide +kernel, ?_, ?_⟩
  · exact fun name hname => (hvariables name hname).2.1
  · exact fun f hf => (hfunctions "Fn" f hf).1

end Session

end BareBones
