/-
Fuel is nothing but a bound.

A run that is finished with some fuel is finished with any more, and in the same way.  So fuel can
be left out of what is said about finished runs: `Runs` says that some fuel is enough, and it is
put together step by step.

The steps of a machine hand the fuel that is left to the bodies of conditionals and functions.
They are therefore compared for two runners, of which the second finishes whatever the first does.
-/
import BareBones.Machine.Run
import BareBones.Proofs.Contexts

namespace BareBones

variable {σ : Type}

theorem entries_eq_of_alike {β : Type} {xs ys : List (String × Function β)}
    (h : List.Forall₂ (EntryAlike Eq) xs ys) : xs = ys := by
  induction h with
  | nil => rfl
  | @cons x y xs ys hxy _ ih =>
      obtain ⟨n, f⟩ := x
      obtain ⟨_, g⟩ := y
      obtain ⟨rfl, hfg⟩ := hxy
      cases f
      cases g
      cases hfg
      simp_all

theorem Context.Alike.eq {β : Type} {c d : Context β} (h : Context.Alike Eq c d) : c = d := by
  have hfun : c.functions = d.functions := NameMap.ext (entries_eq_of_alike h.functions)
  cases c
  cases d
  cases h
  simp_all

theorem Context.Alike.refl {β : Type} (c : Context β) : Context.Alike Eq c c := by
  refine ⟨rfl, ?_, rfl, rfl⟩
  exact List.forall₂_same.2 fun x _ => ⟨rfl, rfl, rfl, rfl, rfl, rfl, rfl⟩

namespace Context

variable {β : Type} {h : Host σ} {run run' : BodyRunner σ β}

/-- What a statement comes to does not change if bodies that were finished stay as they were. -/
theorem execute_mono (hrun : ∀ b c w, (run b c w).1 ≠ .outOfFuel → run' b c w = run b c w)
    {c : Context β} {s : Statement} {w : World σ} (hfin : (c.execute h run s w).1 ≠ .outOfFuel) :
    c.execute h run' s w = c.execute h run s w := by
  have hfollows : Follows Eq run fun _ => run' := by
    rintro b _ c d w r c' w' rfl hcd hx hr
    have hb := hrun b c w (by rw [hx]; exact hr)
    rw [← hcd.eq]
    exact ⟨0, c', hb.trans hx, .refl c'⟩
  rcases hx : c.execute h run s w with ⟨r, c', w'⟩
  rw [hx] at hfin
  obtain ⟨-, d', hd', hcd⟩ := execute_follows hfollows (.refl c) hx hfin
  rw [hd', ← hcd.eq]

end Context

/-- The second runner finishes whatever the first one does, in the same way. -/
def Runner.Le (run run' : Runner σ) : Prop :=
  ∀ stop m w, (run stop m w).1 ≠ .outOfFuel → run' stop m w = run stop m w

namespace Machine

variable {h : Host σ}

section Runners

variable {run run' : Runner σ}

theorem body_mono (hle : run.Le run') (b : Program) (c : Context Program) (w : World σ)
    (hfin : (run.body b c w).1 ≠ .outOfFuel) : run'.body b c w = run.body b c w := by
  unfold Runner.body at *
  rw [hle]
  exact hfin

theorem runChain_mono (hle : run.Le run') : ∀ (ls : List Link) (m : Machine) (w : World σ),
    (runChain run ls m w).1 ≠ .outOfFuel → runChain run' ls m w = runChain run ls m w := by
  intro ls
  induction ls with
  | nil => intro m w _; rfl
  | cons l rest ih =>
      intro m w hfin
      simp only [runChain] at hfin ⊢
      cases hstop : l.stop with
      | none => rfl
      | some stop =>
          simp only [hstop] at hfin ⊢
          cases htaken : l.taken m.env with
          | error e => rfl
          | ok taken =>
              simp only [htaken] at hfin ⊢
              cases taken with
              | false => exact ih _ w hfin
              | true =>
                  have hbody : (run stop (m.goto (l.opener + 1)) w).1 ≠ .outOfFuel := by
                    intro hout
                    rcases hr : run stop (m.goto (l.opener + 1)) w with ⟨r, m', w'⟩
                    rw [hr] at hout hfin
                    cases hout
                    exact hfin rfl
                  simp only [hle _ _ _ hbody]

theorem execute_mono (hle : run.Le run') {m : Machine} {a : Nat} {s : Statement} {w : World σ}
    (hfin : (execute h run m a s w).1 ≠ .outOfFuel) :
    execute h run' m a s w = execute h run m a s w := by
  unfold execute at *
  split at hfin
  · rfl
  · rfl
  · unfold branch at *
    split at hfin
    · next hallowed =>
      rw [if_pos hallowed, if_pos hallowed]
      exact runChain_mono hle _ m w hfin
    · next hallowed => rw [if_neg hallowed, if_neg hallowed]
  · rfl
  · rfl
  · rfl
  · rw [Context.execute_mono (body_mono hle) hfin]

/-- A step that is finished has executed its statement. -/
theorem execute_ne_of_step {m : Machine} {s : Statement} {w : World σ} (hs : m.next? = some s)
    (hfin : (step h run m w).1 ≠ .outOfFuel) :
    (execute h run (m.goto (m.pc + 1)) m.pc s w).1 ≠ .outOfFuel := by
  intro hout
  rcases hr : execute h run (m.goto (m.pc + 1)) m.pc s w with ⟨r, m', w'⟩
  rw [hr] at hout
  cases hout
  simp only [step, hs, hr] at hfin
  exact hfin rfl

/-- A step is finished if its statement is. -/
theorem step_ne_outOfFuel (hs : m.next? = some s)
    (hexec : (execute h run (m.goto (m.pc + 1)) m.pc s w).1 ≠ .outOfFuel) :
    (step h run m w).1 ≠ .outOfFuel := by
  rcases hx : execute h run (m.goto (m.pc + 1)) m.pc s w with ⟨ok | ⟨e | e⟩ | _, m₁, w₁⟩
  · simp [step, hs, hx, Context.settle]
  · simp only [step, hs, hx, Context.settle]
    by_cases hrec : e.isRecoverable = true
    · simp [hrec]
    · simp [hrec]
  · simp [step, hs, hx, Context.settle]
  · rw [hx] at hexec
    exact absurd rfl hexec

theorem step_mono (hle : run.Le run') {m : Machine} {w : World σ}
    (hfin : (step h run m w).1 ≠ .outOfFuel) : step h run' m w = step h run m w := by
  cases hnext : m.next? with
  | none => simp only [step, hnext]
  | some s =>
      have hexec := execute_ne_of_step hnext hfin
      simp only [step, hnext, execute_mono hle hexec]

end Runners

/-- One turn of a run: a step, with what is left of the fuel for the bodies in it. -/
theorem runFrom_succ (n : Nat) (ok : Bool) (stop : Nat) (m : Machine) (w : World σ) :
    runFrom h (n + 1) ok stop m w =
      if m.pc < stop then
        match step h (run h n) m w with
        | (.ok (.continued ok'), m, w) => runFrom h n (ok && ok') stop m w
        | (.ok .done, m, w) => (.ok ok, m, w)
        | (.failed e, m, w) => (.failed e, m, w)
        | (.outOfFuel, m, w) => (.outOfFuel, m, w)
      else (.ok ok, m, w) := rfl

/-- A statement that goes through makes a step, behind which the variables are published. -/
theorem step_of_execute {run : Runner σ} {m m' : Machine} {s : Statement} {ok : Bool}
    {w w' : World σ} (hs : m.next? = some s)
    (hexec : execute h run (m.goto (m.pc + 1)) m.pc s w = (.ok ok, m', w')) :
    step h run m w = (.ok (.continued ok), m', m'.publishAfter h m.pc s w') := by
  simp only [step, hs, hexec]
  rfl

/-- More fuel does not change a run that is finished. -/
theorem runFrom_mono : ∀ {n n' : Nat}, n ≤ n' → ∀ {ok : Bool} {stop : Nat} {m : Machine}
    {w : World σ}, (runFrom h n ok stop m w).1 ≠ .outOfFuel →
    runFrom h n' ok stop m w = runFrom h n ok stop m w := by
  intro n
  induction n with
  | zero => intro n' _ ok stop m w hfin; exact absurd rfl hfin
  | succ n ih =>
      intro n' hn ok stop m w hfin
      obtain ⟨n', rfl⟩ : ∃ k, n' = k + 1 := ⟨n' - 1, by omega⟩
      have hle : Runner.Le (run h n) (run h n') := fun stop m w hfin => ih (by omega) hfin
      rw [runFrom_succ] at hfin
      rw [runFrom_succ, runFrom_succ]
      split at hfin
      · next hlt =>
        rw [if_pos hlt, if_pos hlt]
        have hstep : (step h (run h n) m w).1 ≠ .outOfFuel := by
          intro hout
          rcases hr : step h (run h n) m w with ⟨r, m', w'⟩
          rw [hr] at hout hfin
          cases hout
          exact hfin rfl
        rw [step_mono hle hstep]
        rcases hr : step h (run h n) m w with ⟨r, m', w'⟩
        rw [hr] at hfin
        cases r with
        | outOfFuel => rfl
        | failed e => rfl
        | ok did =>
            cases did with
            | done => rfl
            | continued ok' => exact ih (by omega) hfin
      · next hlt => rw [if_neg hlt, if_neg hlt]

theorem run_le {n n' : Nat} (hn : n ≤ n') : Runner.Le (run h n) (run h n') :=
  fun _ _ _ hfin => runFrom_mono hn hfin

/-! ### Finished runs, without the fuel -/

/-- With enough fuel the run up to `stop` is finished, and `R` is what it comes to. -/
def Runs (h : Host σ) (stop : Nat) (ok : Bool) (m : Machine) (w : World σ)
    (R : Outcome StatementError Bool × Machine × World σ) : Prop :=
  R.1 ≠ .outOfFuel ∧ ∃ n, runFrom h n ok stop m w = R

variable {stop : Nat} {ok : Bool} {m m' : Machine} {w w' : World σ}

theorem Runs.reached (hpc : stop ≤ m.pc) : Runs h stop ok m w (.ok ok, m, w) := by
  refine ⟨by simp, 1, ?_⟩
  rw [runFrom_succ, if_neg (by omega)]

theorem Runs.next {n : Nat} {ok' : Bool} {R : Outcome StatementError Bool × Machine × World σ}
    (hpc : m.pc < stop) (hstep : step h (run h n) m w = (.ok (.continued ok'), m', w'))
    (hrest : Runs h stop (ok && ok') m' w' R) : Runs h stop ok m w R := by
  obtain ⟨hfin, k, hk⟩ := hrest
  refine ⟨hfin, max n k + 1, ?_⟩
  have hstep' : step h (run h (max n k)) m w = (.ok (.continued ok'), m', w') := by
    rw [step_mono (run_le (Nat.le_max_left n k)) (by rw [hstep]; simp), hstep]
  rw [runFrom_succ, if_pos hpc, hstep']
  exact (runFrom_mono (Nat.le_max_right n k) (by rw [hk]; exact hfin)).trans hk

theorem Runs.fails {n : Nat} {e : StatementError} (hpc : m.pc < stop)
    (hstep : step h (run h n) m w = (.failed e, m', w')) :
    Runs h stop ok m w (.failed e, m', w') := by
  refine ⟨by simp, n + 1, ?_⟩
  rw [runFrom_succ, if_pos hpc, hstep]

/-- The fuel is enough for the run up to `stop`. -/
def Finishes (h : Host σ) (stop n : Nat) (ok : Bool) (m : Machine) (w : World σ) : Prop :=
  (runFrom h n ok stop m w).1 ≠ .outOfFuel

theorem Finishes.mono {n n' : Nat} (hfin : Finishes h stop n ok m w) (hn : n ≤ n') :
    Finishes h stop n' ok m w := by
  unfold Finishes
  rw [runFrom_mono hn hfin]
  exact hfin

theorem not_finishes_zero : ¬ Finishes h stop 0 ok m w :=
  fun hfin => hfin rfl

/-- A run that finishes finishes its first step. -/
theorem Finishes.step {n : Nat} (hfin : Finishes h stop (n + 1) ok m w) (hpc : m.pc < stop) :
    (step h (run h n) m w).1 ≠ .outOfFuel := by
  intro hout
  rcases hr : Machine.step h (run h n) m w with ⟨r, m', w'⟩
  rw [hr] at hout
  cases hout
  rw [Finishes, runFrom_succ, if_pos hpc, hr] at hfin
  exact hfin rfl

/-- With the fuel of a run that finishes, its first step is what it is with any fuel that is enough
for it. -/
theorem Finishes.step_eq {n k : Nat} {ok' : Bool} (hfin : Finishes h stop (n + 1) ok m w)
    (hpc : m.pc < stop) (hstep : Machine.step h (run h k) m w = (.ok (.continued ok'), m', w')) :
    Machine.step h (run h n) m w = (.ok (.continued ok'), m', w') := by
  rw [← step_mono (run_le (Nat.le_max_left n k)) (hfin.step hpc),
    step_mono (run_le (Nat.le_max_right n k)) (by rw [hstep]; simp), hstep]

theorem Finishes.next {n k : Nat} {ok' : Bool} (hfin : Finishes h stop (n + 1) ok m w)
    (hpc : m.pc < stop) (hstep : Machine.step h (run h k) m w = (.ok (.continued ok'), m', w')) :
    Finishes h stop n (ok && ok') m' w' := by
  have hstep' := hfin.step_eq hpc hstep
  rw [Finishes, runFrom_succ, if_pos hpc, hstep'] at hfin
  exact hfin

/-- The run of a program is finished if the fuel is enough for its statements. -/
theorem runUntilDone_finishes_iff {n : Nat} : (runUntilDone h n m w).1 ≠ .outOfFuel ↔
    Finishes h m.program.size n true m (m.publish h .initial w) := by
  unfold runUntilDone Finishes run
  rcases runFrom h n true m.program.size m (m.publish h .initial w) with ⟨ok | e | _, m', w'⟩
  · simp
  · simp
  · simp

theorem runUntilDone_mono {n n' : Nat} (hn : n ≤ n')
    (hfin : (runUntilDone h n m w).1 ≠ .outOfFuel) :
    runUntilDone h n' m w = runUntilDone h n m w := by
  have hrun : run h n' m.program.size m (m.publish h .initial w) =
      run h n m.program.size m (m.publish h .initial w) :=
    runFrom_mono hn (runUntilDone_finishes_iff.1 hfin)
  simp only [runUntilDone, hrun]

/-! ### Runs that are the rest of others -/

/-- To run the first machine is to run the second, with a flag for what lies between. -/
structure LeadsTo (h : Host σ) (stop : Nat) (m : Machine) (w : World σ) (ok' : Bool)
    (m' : Machine) (w' : World σ) : Prop where
  forth : ∀ ok R, Runs h stop (ok && ok') m' w' R → Runs h stop ok m w R
  back : ∀ ok n, Finishes h stop n ok m w → Finishes h stop n (ok && ok') m' w'

theorem LeadsTo.refl (m : Machine) (w : World σ) : LeadsTo h stop m w true m w := by
  refine ⟨?_, ?_⟩
  · intro ok R hR
    rwa [Bool.and_true] at hR
  · intro ok n hfin
    rwa [Bool.and_true]

theorem LeadsTo.step {n : Nat} (hpc : m.pc < stop)
    (hstep : Machine.step h (run h n) m w = (.ok (.continued ok), m', w')) :
    LeadsTo h stop m w ok m' w' := by
  refine ⟨?_, ?_⟩
  · intro ok' R hR
    exact Runs.next hpc hstep hR
  · intro ok' k hfin
    cases k with
    | zero => exact absurd hfin not_finishes_zero
    | succ k => exact (hfin.next hpc hstep).mono (Nat.le_succ k)

theorem LeadsTo.trans {ok' : Bool} {m'' : Machine} {w'' : World σ}
    (h₁ : LeadsTo h stop m w ok m' w') (h₂ : LeadsTo h stop m' w' ok' m'' w'') :
    LeadsTo h stop m w (ok && ok') m'' w'' := by
  refine ⟨?_, ?_⟩
  · intro ok'' R hR
    rw [← Bool.and_assoc] at hR
    exact h₁.forth _ R (h₂.forth _ R hR)
  · intro ok'' n hfin
    rw [← Bool.and_assoc]
    exact h₂.back _ n (h₁.back _ n hfin)

end Machine

end BareBones
