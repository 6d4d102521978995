/-
Statements do not look into bodies.

A statement that belongs to no block sees its context and, through a call, what the body of a
function does to a context of its own.  So if two contexts are the same but for the bodies of their
functions, and running one kind of body can be followed by running the other kind, then executing
a statement in the one can be followed by executing it in the other.

"Can be followed" is said of a family of ways to run bodies, one for each amount of fuel, because
two kinds of bodies need not take the same number of steps.  With equal bodies on both sides it
says that more fuel changes nothing that is finished.
-/
import BareBones.Machine.Execute
import Mathlib.Data.List.Forall2

namespace BareBones

variable {σ β γ : Type}

/-- The two functions are the same but for their bodies, which are related by `B`. -/
structure Function.Alike (B : β → γ → Prop) (f : Function β) (g : Function γ) : Prop where
  name : f.name = g.name
  params : f.params = g.params
  start : f.start = g.start
  stop : f.stop = g.stop
  source : f.source = g.source
  body : B f.body g.body

/-- The two entries of function tables are for one name, and their functions are alike. -/
def EntryAlike (B : β → γ → Prop) (x : String × Function β) (y : String × Function γ) : Prop :=
  x.1 = y.1 ∧ Function.Alike B x.2 y.2

/-- The two contexts are the same but for the bodies of their functions. -/
structure Context.Alike (B : β → γ → Prop) (c : Context β) (d : Context γ) : Prop where
  env : c.env = d.env
  functions : List.Forall₂ (EntryAlike B) c.functions.entries d.functions.entries
  returned : c.returned = d.returned
  scope : c.scope = d.scope

/-! ### Function tables that are alike -/

section Tables

variable {B : β → γ → Prop} {xs : List (String × Function β)} {ys : List (String × Function γ)}

/-- A name is free in both tables, or it stands for functions that are alike. -/
theorem lookup?_alike (h : List.Forall₂ (EntryAlike B) xs ys) (name : String) :
    (NameMap.lookup? name xs = none ∧ NameMap.lookup? name ys = none) ∨
      ∃ f g, NameMap.lookup? name xs = some f ∧ NameMap.lookup? name ys = some g ∧
        Function.Alike B f g := by
  induction h with
  | nil => exact Or.inl ⟨rfl, rfl⟩
  | @cons x y xs ys hxy _ ih =>
      obtain ⟨n, f⟩ := x
      obtain ⟨_, g⟩ := y
      obtain ⟨rfl, hfg⟩ := hxy
      simp only [NameMap.lookup?]
      by_cases hname : name = n
      · exact Or.inr ⟨f, g, by simp [hname], by simp [hname], hfg⟩
      · simpa [hname] using ih

theorem insertEntry_alike (h : List.Forall₂ (EntryAlike B) xs ys) {f : Function β} {g : Function γ}
    (hfg : Function.Alike B f g) (name : String) :
    List.Forall₂ (EntryAlike B) (NameMap.insertEntry name f xs) (NameMap.insertEntry name g ys) := by
  induction h with
  | nil => exact List.Forall₂.cons ⟨rfl, hfg⟩ List.Forall₂.nil
  | @cons x y xs ys hxy hrest ih =>
      obtain ⟨n, a⟩ := x
      obtain ⟨_, b⟩ := y
      obtain ⟨rfl, hab⟩ := hxy
      simp only [NameMap.insertEntry]
      split
      · exact List.Forall₂.cons ⟨rfl, hfg⟩ hrest
      · split
        · exact List.Forall₂.cons ⟨rfl, hfg⟩ (List.Forall₂.cons ⟨rfl, hab⟩ hrest)
        · exact List.Forall₂.cons ⟨rfl, hab⟩ ih

end Tables

namespace Context

variable {B : β → γ → Prop} {c : Context β} {d : Context γ}

theorem Alike.contains (hcd : Alike B c d) (name : String) :
    c.functions.contains name = d.functions.contains name := by
  unfold NameMap.contains NameMap.get?
  rcases lookup?_alike hcd.functions name with ⟨hf, hg⟩ | ⟨f, g, hf, hg, -⟩ <;> simp [hf, hg]

theorem Alike.setEnv (hcd : Alike B c d) (env : Environment) :
    Alike B { c with env := env } { d with env := env } :=
  ⟨rfl, hcd.functions, hcd.returned, hcd.scope⟩

theorem Alike.forCall (hcd : Alike B c d) {f : Function β} {g : Function γ}
    (hfg : Function.Alike B f g) (env : Environment) :
    Alike B (c.forCall f env) (d.forCall g env) :=
  ⟨rfl, hcd.functions, rfl, by simp [Context.forCall, hfg.name, hcd.scope]⟩

/-! ### Executing a statement in contexts that are alike -/

/-- Whatever running a body comes to, some member of the family comes to as well. -/
def Follows (B : β → γ → Prop) (run : BodyRunner σ β) (runs : Nat → BodyRunner σ γ) : Prop :=
  ∀ ⦃b : β⦄ ⦃b' : γ⦄ ⦃c : Context β⦄ ⦃d : Context γ⦄ ⦃w : World σ⦄ ⦃r : Outcome StatementError Bool⦄
    ⦃c' : Context β⦄ ⦃w' : World σ⦄, B b b' → Alike B c d → run b c w = (r, c', w') →
    r ≠ .outOfFuel → ∃ n d', runs n b' d w = (r, d', w') ∧ Alike B c' d'

variable {h : Host σ} {run : BodyRunner σ β} {runs : Nat → BodyRunner σ γ}

theorem call_follows (hrun : Follows B run runs) (hcd : Alike B c d) {name : String}
    {args : List String} {w w' : World σ} {r : Outcome Failure Machine.CallResult}
    (hx : c.call h run name args w = (r, w')) (hr : r ≠ .outOfFuel) :
    ∃ n, d.call h (runs n) name args w = (r, w') := by
  unfold call NameMap.get? at *
  rcases lookup?_alike hcd.functions name with ⟨hf, hg⟩ | ⟨f, g, hf, hg, hfg⟩
  · exact ⟨0, by simpa [hf, hg] using hx⟩
  · have harity : f.arity = g.arity := by unfold Function.arity; rw [hfg.params]
    simp only [hf] at hx
    simp only [hg]
    rw [← harity, ← hfg.name, ← hcd.scope, ← hcd.env, ← hfg.params]
    split at hx
    · next hlen => exact ⟨0, by rw [if_pos hlen]; exact hx⟩
    · next hlen =>
      simp only [if_neg hlen]
      split at hx
      · next hdepth => exact ⟨0, by rw [if_pos hdepth]; exact hx⟩
      · next hdepth =>
        simp only [if_neg hdepth]
        cases hbind : Machine.bindParams c.env (f.params.zip args) c.env with
        | error e => exact ⟨0, by simpa [hbind] using hx⟩
        | ok env =>
            simp only [hbind] at hx ⊢
            rcases hbody : run f.body (c.forCall f env) w with ⟨rb, cb, wb⟩
            rw [hbody] at hx
            cases rb with
            | outOfFuel =>
                simp only [Prod.mk.injEq] at hx
                exact absurd hx.1.symm hr
            | ok ok =>
                obtain ⟨n, d', hn, hd'⟩ :=
                  hrun hfg.body (hcd.forCall hfg env) hbody (by simp)
                exact ⟨n, by rw [hn]; simpa [hd'.returned] using hx⟩
            | failed e =>
                obtain ⟨n, d', hn, -⟩ := hrun hfg.body (hcd.forCall hfg env) hbody (by simp)
                exact ⟨n, by rw [hn]; exact hx⟩

theorem resolve_follows (hrun : Follows B run runs) (hcd : Alike B c d) {tokens : List String}
    {w w' : World σ} {r : Outcome Failure (Value × Bool)}
    (hx : c.resolve h run tokens w = (r, w')) (hr : r ≠ .outOfFuel) :
    ∃ n, d.resolve h (runs n) tokens w = (r, w') := by
  cases tokens with
  | nil => exact ⟨0, hx⟩
  | cons first rest =>
      simp only [resolve] at hx ⊢
      rw [← hcd.env, ← hcd.contains first]
      split at hx
      · next heval => exact ⟨0, by rw [if_pos heval]; exact hx⟩
      · next heval =>
        simp only [if_neg heval]
        split at hx
        · next hcall =>
          simp only [if_pos hcall]
          rcases hres : c.call h run first rest w with ⟨rc, wc⟩
          rw [hres] at hx
          have hrc : rc ≠ .outOfFuel := by
            rintro rfl
            simp only [Prod.mk.injEq] at hx
            exact hr hx.1.symm
          obtain ⟨n, hn⟩ := call_follows hrun hcd hres hrc
          exact ⟨n, by rw [hn]; exact hx⟩
        · next hcall => exact ⟨0, by rw [if_neg hcall]; exact hx⟩

variable {s : Statement} {args : List String} {w w' : World σ} {r : Outcome Failure Bool}
  {c' : Context β}

theorem set_follows (hrun : Follows B run runs) (hcd : Alike B c d)
    (hx : c.set h run args w = (r, c', w')) (hr : r ≠ .outOfFuel) :
    ∃ n d', d.set h (runs n) args w = (r, d', w') ∧ Alike B c' d' := by
  simp only [set] at hx ⊢
  rw [← hcd.env]
  cases hargs : Machine.assignmentArguments Keyword.set.word "<variable> to <value>" args with
  | error e =>
      simp only [hargs, Prod.mk.injEq] at hx ⊢
      obtain ⟨rfl, rfl, rfl⟩ := hx
      exact ⟨0, d, ⟨rfl, rfl, rfl⟩, hcd⟩
  | ok target =>
      obtain ⟨name, literal⟩ := target
      simp only [hargs] at hx ⊢
      split at hx
      · next hin =>
        simp only [if_pos hin]
        rcases hres : c.resolve h run (args.drop 2) w with ⟨rv, wv⟩
        rw [hres] at hx
        cases rv with
        | outOfFuel =>
            simp only [Prod.mk.injEq] at hx
            exact absurd hx.1.symm hr
        | failed e =>
            obtain ⟨n, hn⟩ := resolve_follows hrun hcd hres (by simp)
            simp only [Prod.mk.injEq] at hx
            obtain ⟨rfl, rfl, rfl⟩ := hx
            exact ⟨n, d, by rw [hn], hcd⟩
        | ok v =>
            obtain ⟨n, hn⟩ := resolve_follows hrun hcd hres (by simp)
            refine ⟨n, ?_⟩
            rw [hn]
            cases hassign : c.env.assign name v.1 with
            | error e =>
                simp only [hassign, Prod.mk.injEq] at hx ⊢
                obtain ⟨rfl, rfl, rfl⟩ := hx
                exact ⟨d, ⟨rfl, rfl, rfl⟩, hcd⟩
            | ok env =>
                simp only [hassign, Prod.mk.injEq] at hx ⊢
                obtain ⟨rfl, rfl, rfl⟩ := hx
                exact ⟨_, ⟨rfl, rfl, rfl⟩, hcd.setEnv env⟩
      · next hin =>
        simp only [if_neg hin, Prod.mk.injEq] at hx ⊢
        obtain ⟨rfl, rfl, rfl⟩ := hx
        exact ⟨0, d, ⟨rfl, rfl, rfl⟩, hcd⟩

theorem returnValue_follows (hrun : Follows B run runs) (hcd : Alike B c d)
    (hx : c.returnValue h run args w = (r, c', w')) (hr : r ≠ .outOfFuel) :
    ∃ n d', d.returnValue h (runs n) args w = (r, d', w') ∧ Alike B c' d' := by
  simp only [returnValue] at hx ⊢
  rw [← hcd.scope]
  split at hx
  · next hmain =>
    simp only [if_pos hmain, Prod.mk.injEq] at hx ⊢
    obtain ⟨rfl, rfl, rfl⟩ := hx
    exact ⟨0, d, ⟨rfl, rfl, rfl⟩, hcd⟩
  · next hmain =>
    simp only [if_neg hmain]
    split at hx
    · next hempty =>
      simp only [if_pos hempty, Prod.mk.injEq] at hx ⊢
      obtain ⟨rfl, rfl, rfl⟩ := hx
      exact ⟨0, d, ⟨rfl, rfl, rfl⟩, hcd⟩
    · next hempty =>
      simp only [if_neg hempty]
      rcases hres : c.resolve h run args w with ⟨rv, wv⟩
      rw [hres] at hx
      have hrv : rv ≠ .outOfFuel := by
        rintro rfl
        simp only [Prod.mk.injEq] at hx
        exact hr hx.1.symm
      obtain ⟨n, hn⟩ := resolve_follows hrun hcd hres hrv
      refine ⟨n, ?_⟩
      rw [hn]
      cases rv with
      | outOfFuel => exact absurd rfl hrv
      | failed e =>
          simp only [Prod.mk.injEq] at hx ⊢
          obtain ⟨rfl, rfl, rfl⟩ := hx
          exact ⟨d, ⟨rfl, rfl, rfl⟩, hcd⟩
      | ok v =>
          simp only [Prod.mk.injEq] at hx ⊢
          obtain ⟨rfl, rfl, rfl⟩ := hx
          exact ⟨_, ⟨rfl, rfl, rfl⟩, ⟨hcd.env, hcd.functions, rfl, rfl⟩⟩

theorem callStatement_follows (hrun : Follows B run runs) (hcd : Alike B c d)
    (hx : c.callStatement h run s w = (r, c', w')) (hr : r ≠ .outOfFuel) :
    ∃ n d', d.callStatement h (runs n) s w = (r, d', w') ∧ Alike B c' d' := by
  simp only [callStatement] at hx ⊢
  rcases hres : c.call h run s.operation s.arguments w with ⟨rc, wc⟩
  rw [hres] at hx
  have hrc : rc ≠ .outOfFuel := by
    rintro rfl
    simp only [Prod.mk.injEq] at hx
    exact hr hx.1.symm
  obtain ⟨n, hn⟩ := call_follows hrun hcd hres hrc
  refine ⟨n, ?_⟩
  rw [hn]
  cases rc with
  | outOfFuel => exact absurd rfl hrc
  | failed e | ok result =>
      simp only [Prod.mk.injEq] at hx ⊢
      obtain ⟨rfl, rfl, rfl⟩ := hx
      exact ⟨d, ⟨rfl, rfl, rfl⟩, hcd⟩

theorem withEnv_alike (hcd : Alike B c d) {change : Except RuntimeError Unit × Environment}
    (hx : c.withEnv w change = (r, c', w')) :
    ∃ d', d.withEnv w change = (r, d', w') ∧ Alike B c' d' := by
  obtain ⟨result, env⟩ := change
  cases result <;>
  · cases hx
    exact ⟨_, rfl, hcd.setEnv env⟩

theorem print_alike (hcd : Alike B c d) (hx : c.print h args w = (r, c', w')) :
    ∃ d', d.print h args w = (r, d', w') ∧ Alike B c' d' := by
  simp only [print, ← hcd.env] at hx ⊢
  rcases hparts : Machine.printParts h c.env args w with ⟨_ | parts, wp⟩ <;>
  · simp only [hparts, Prod.mk.injEq] at hx ⊢
    obtain ⟨rfl, rfl, rfl⟩ := hx
    exact ⟨d, ⟨rfl, rfl, rfl⟩, hcd⟩

/-- Executing a statement in one of two contexts that are alike can be followed in the other. -/
theorem execute_follows (hrun : Follows B run runs) (hcd : Alike B c d)
    (hx : c.execute h run s w = (r, c', w')) (hr : r ≠ .outOfFuel) :
    ∃ n d', d.execute h (runs n) s w = (r, d', w') ∧ Alike B c' d' := by
  simp only [execute, ← hcd.env] at hx ⊢
  generalize s.keyword? = k at hx ⊢
  split at hx
  · exact ⟨0, print_alike hcd hx⟩
  · exact ⟨0, withEnv_alike hcd hx⟩
  · exact ⟨0, withEnv_alike hcd hx⟩
  · exact ⟨0, withEnv_alike hcd hx⟩
  · exact ⟨0, withEnv_alike hcd hx⟩
  · exact ⟨0, withEnv_alike hcd hx⟩
  · exact set_follows hrun hcd hx hr
  · exact returnValue_follows hrun hcd hx hr
  · next h1 h2 h3 h4 h5 h6 h7 h8 =>
    obtain ⟨n, d', hn, hd'⟩ := callStatement_follows hrun hcd hx hr
    exact ⟨n, d', by simpa using hn, hd'⟩

end Context

end BareBones
