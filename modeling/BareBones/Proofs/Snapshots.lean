/-
Snapshots only observe.

Two runs of a machine, one that publishes its variables and one that does not, are the same but for
the snapshots in the journal.  This is shown by muting, which takes the snapshots out of a world.
What a statement, a step or a run comes to, once muted, depends on the muted world only.

Which snapshots there are is said through the statements that a run dispatches.  They are listed in
the order in which their turns begin, with those of the runs inside, so that the list is the same
whether variables are published or not.  Each statement of the main program that belongs to no block
and did not end the run owes one snapshot.  A statement of a function owes none.
-/
import BareBones.Proofs.Diagnostics
import BareBones.Proofs.Journal
import BareBones.Proofs.Termination

namespace BareBones

variable {σ : Type}

/-- The same host, with the variables published or not. -/
def Host.withVerbose (h : Host σ) (verbose : Bool) : Host σ :=
  { h with settings := { h.settings with verbose := verbose } }

@[simp]
theorem Host.verbose_withVerbose (h : Host σ) (verbose : Bool) :
    (h.withVerbose verbose).settings.verbose = verbose := rfl

namespace World

/-- The printed lines so far, the oldest first. -/
def lines (w : World σ) : List String :=
  w.journal.toList.filterMap Event.line?

/-- The snapshots so far, the oldest first. -/
def snapshots (w : World σ) : List (Moment × Environment) :=
  w.journal.toList.filterMap Event.snapshot?

/-- The world without the snapshots in its journal. -/
def muted (w : World σ) : World σ :=
  { w with journal := w.journal.filter fun e => e.snapshot?.isNone }

theorem state_eq_of_muted {w w' : World σ} (hw : w.muted = w'.muted) : w.state = w'.state := by
  show w.muted.state = w'.muted.state
  rw [hw]

theorem lines_muted (w : World σ) : w.muted.lines = w.lines := by
  unfold lines muted
  rw [Array.toList_filter, List.filterMap_filter]
  refine List.filterMap_congr ?_
  intro e _
  cases e <;> rfl

theorem diagnostics_muted (w : World σ) : w.muted.diagnostics = w.diagnostics := by
  unfold diagnostics muted
  rw [Array.toList_filter, List.filterMap_filter]
  refine List.filterMap_congr ?_
  intro e _
  cases e <;> rfl

theorem lines_eq_of_muted {w w' : World σ} (hw : w.muted = w'.muted) : w.lines = w'.lines := by
  rw [← w.lines_muted, hw, w'.lines_muted]

theorem diagnostics_eq_of_muted {w w' : World σ} (hw : w.muted = w'.muted) :
    w.diagnostics = w'.diagnostics := by
  rw [← w.diagnostics_muted, hw, w'.diagnostics_muted]

@[simp]
theorem muted_record_snapshot (w : World σ) (moment : Moment) (env : Environment) :
    (w.record (.snapshot moment env)).muted = w.muted := by
  simp [muted, record, Event.snapshot?]

@[simp]
theorem muted_record_diagnostic (w : World σ) (e : StatementError) :
    (w.record (.diagnostic e)).muted = w.muted.record (.diagnostic e) := by
  simp [muted, record, Event.snapshot?]

@[simp]
theorem muted_printing (w : World σ) (ls : List String) (u : σ) :
    (w.printing ls u).muted = w.muted.printing ls u := by
  have hlines : (ls.map Event.line).filter (fun e => e.snapshot?.isNone) = ls.map Event.line := by
    simp [List.filter_map, Function.comp_def, Event.snapshot?]
  simp [muted, printing, hlines]

@[simp]
theorem snapshots_record_snapshot (w : World σ) (moment : Moment) (env : Environment) :
    (w.record (.snapshot moment env)).snapshots = w.snapshots ++ [(moment, env)] := by
  simp [snapshots, record, Event.snapshot?]

@[simp]
theorem snapshots_record_diagnostic (w : World σ) (e : StatementError) :
    (w.record (.diagnostic e)).snapshots = w.snapshots := by
  simp [snapshots, record, Event.snapshot?]

@[simp]
theorem snapshots_printing (w : World σ) (ls : List String) (u : σ) :
    (w.printing ls u).snapshots = w.snapshots := by
  simp [snapshots, printing, List.filterMap_map, Function.comp_def, Event.snapshot?]

end World

/-! ### Runs that are the same but for their snapshots -/

/-- What something comes to, less the snapshots. -/
def muted {α : Type} (x : α × Machine × World σ) : α × Machine × World σ :=
  (x.1, x.2.1, x.2.2.muted)

theorem eq_of_muted {α : Type} {x y : α × Machine × World σ} (hxy : muted x = muted y) :
    ∃ r m w w', x = (r, m, w) ∧ y = (r, m, w') ∧ w.muted = w'.muted := by
  obtain ⟨r, m, w⟩ := x
  obtain ⟨r', m', w'⟩ := y
  simp only [muted, Prod.mk.injEq] at hxy
  obtain ⟨rfl, rfl, hw⟩ := hxy
  exact ⟨r, m, w, w', rfl, rfl, hw⟩

namespace Context

@[simp]
theorem muted_publish (c : Context Program) (h : Host σ) (moment : Moment) (w : World σ) :
    (c.publish h moment w).muted = w.muted := by
  unfold publish
  split
  · simp
  · rfl

theorem muted_publishAfter (c : Context Program) (h : Host σ) (a : Nat) (s : Statement)
    (w : World σ) : (c.publishAfter h a s w).muted = w.muted := by
  unfold publishAfter
  split
  · rfl
  · simp

theorem settle_muted (h h' : Host σ) (c : Context Program) (a : Nat) (s : Statement)
    (r : Outcome Failure Bool) {w w' : World σ} (hw : w.muted = w'.muted) :
    (c.settle h a s r w).1 = (c.settle h' a s r w').1 ∧
      (c.settle h a s r w).2.muted = (c.settle h' a s r w').2.muted := by
  rcases r with ok | ⟨e | e⟩ | _
  · simp only [settle, muted_publishAfter]
    exact ⟨trivial, hw⟩
  · simp only [settle]
    split
    · simp only [muted_publishAfter, World.muted_record_diagnostic, hw]
      exact ⟨trivial, trivial⟩
    · exact ⟨rfl, hw⟩
  · exact ⟨rfl, hw⟩
  · exact ⟨rfl, hw⟩

end Context

namespace Machine

/-- The two runners come to the same but for the snapshots. -/
def Runner.Muted (run run' : Runner σ) : Prop :=
  ∀ ⦃stop : Nat⦄ ⦃m : Machine⦄ ⦃w w' : World σ⦄, w.muted = w'.muted →
    muted (run stop m w) = muted (run' stop m w')

variable {h h' : Host σ} {run run' : Runner σ} {m : Machine} {w w' : World σ}

theorem alikeAt_withVerbose (h : Host σ) (v v' : Bool) (m : Machine) (s : Statement) :
    AlikeAt (h.withVerbose v) (h.withVerbose v') m s :=
  ⟨rfl, fun _ => rfl, fun _ _ _ _ _ => rfl⟩

theorem execute_muted {a : Nat} {s : Statement} (hh : AlikeAt h h' m s)
    (hrun : Runner.Muted run run') (hw : w.muted = w'.muted) :
    muted (execute h run m a s w) = muted (execute h' run' m a s w') := by
  cases hn : nested? h m a s with
  | none =>
      obtain ⟨r, m', ls, u, hx⟩ := execute_prints (σ := σ) hn w.state
      rw [(execute_of_not_nested run run' w' hh hn).1, hx run w rfl,
        hx run w' (World.state_eq_of_muted hw).symm]
      simp only [muted, World.muted_printing, hw]
  | some n =>
      rw [execute_of_nested hn, execute_of_nested (hh.nested?_eq.trans hn)]
      have hinside : muted (run n.stop n.machine w) = muted (run' n.stop n.machine w') := hrun hw
      obtain ⟨r, m₁, w₁, w₁', hx, hx', hw₁⟩ := eq_of_muted hinside
      obtain ⟨r', m', hresume⟩ := resume_world hn r m₁
      simp only [hx, hx', hresume, muted, hw₁]

theorem step_muted (hh : ∀ m s, AlikeAt h h' m s) (hrun : Runner.Muted run run')
    (hw : w.muted = w'.muted) : muted (step h run m w) = muted (step h' run' m w') := by
  cases hs : m.next? with
  | none => simp only [step, hs, muted, hw]
  | some s =>
      obtain ⟨r, m₁, w₁, w₁', hx, hx', hw₁⟩ :=
        eq_of_muted (execute_muted (a := m.pc) (hh (m.goto (m.pc + 1)) s) hrun hw)
      have hsettle := Context.settle_muted h h' m₁.toContext m.pc s r hw₁
      simp only [step, hs, hx, hx']
      generalize m₁.settle h m.pc s r w₁ = x, m₁.settle h' m.pc s r w₁' = x' at hsettle ⊢
      obtain ⟨r₂, w₂⟩ := x
      obtain ⟨_, w₂'⟩ := x'
      obtain ⟨rfl, hw₂⟩ := hsettle
      cases r₂ with
      | ok ok => exact congrArg (fun w => (Outcome.ok (Step.continued ok), m₁, w)) hw₂
      | failed e => exact congrArg (fun w => (Outcome.failed e, m₁, w)) hw₂
      | outOfFuel => exact congrArg (fun w => (Outcome.outOfFuel, m₁, w)) hw₂

/-- Two runs of a machine are the same but for the snapshots. -/
theorem runFrom_muted (hh : ∀ m s, AlikeAt h h' m s) : ∀ (n : Nat) {ok : Bool} {stop : Nat}
    {m : Machine} {w w' : World σ}, w.muted = w'.muted →
    muted (runFrom h n ok stop m w) = muted (runFrom h' n ok stop m w') := by
  intro n
  induction n with
  | zero =>
      intro ok stop m w w' hw
      simp only [runFrom, muted, hw]
  | succ n ih =>
      intro ok stop m w w' hw
      have hrun : Runner.Muted (Machine.run h n) (Machine.run h' n) := fun _ _ _ _ hw => ih hw
      rw [runFrom_succ, runFrom_succ]
      by_cases hpc : m.pc < stop
      · rw [if_pos hpc, if_pos hpc]
        obtain ⟨r, m₁, w₁, w₁', hx, hx', hw₁⟩ := eq_of_muted (step_muted (m := m) hh hrun hw)
        rw [hx, hx']
        rcases r with (ok' | _) | e | _
        · exact ih hw₁
        · simp only [muted, hw₁]
        · simp only [muted, hw₁]
        · simp only [muted, hw₁]
      · rw [if_neg hpc, if_neg hpc]
        simp only [muted, hw]

theorem runUntilDone_muted (hh : ∀ m s, AlikeAt h h' m s) {n : Nat} (hw : w.muted = w'.muted) :
    muted (runUntilDone h n m w) = muted (runUntilDone h' n m w') := by
  have hstart : (m.publish h .initial w).muted = (m.publish h' .initial w').muted := by
    rw [Context.muted_publish, Context.muted_publish, hw]
  have hrun : muted (runFrom h n true m.program.size m (m.publish h .initial w)) =
      muted (runFrom h' n true m.program.size m (m.publish h' .initial w')) :=
    runFrom_muted hh n hstart
  obtain ⟨r, m₁, w₁, w₁', hx, hx', hw₁⟩ := eq_of_muted hrun
  simp only [runUntilDone, Machine.run, hx, hx']
  cases r with
  | ok ok => simp only [muted, Context.muted_publish, hw₁]
  | failed e => simp only [muted, hw₁]
  | outOfFuel => simp only [muted, hw₁]

end Machine

/-! ### The statements that a run dispatches -/

/-- A statement that a run dispatched. -/
structure Dispatch where
  /-- Whose statement it is. -/
  scope : Scope
  address : Nat
  statement : Statement
  /-- The variables behind it, unless it ended the run. -/
  after : Option Environment

/-- The snapshot that a statement owes: one if it is a statement of the main program that belongs to
no block, and did not end the run. -/
def Dispatch.snapshot? (d : Dispatch) : Option (Moment × Environment) :=
  if d.scope.isMain && !(d.statement.opensBlock || d.statement.closesBlock) then
    d.after.map fun env => (.afterStatement d.address, env)
  else none

namespace Point

open Machine

variable {h h' : Host σ} {x y : Point σ} {s : Statement}

/-- The next point of the same run, if the step that a turn takes lets the run go on. -/
def turn? (h : Host σ) (fuel : Nat) (x : Point σ) : Option (Point σ) :=
  match (step h (run h fuel) x.machine x.world).1 with
  | .ok _ => some (x.after h fuel)
  | _ => none

/-- The statements that a run dispatches from the point on, each before those of the run inside
it. -/
def dispatches (h : Host σ) : Nat → Point σ → List Dispatch
  | 0, _ => []
  | n + 1, x =>
    if x.machine.pc < x.stop then
      match x.machine.next? with
      | none => []
      | some s =>
        ⟨x.machine.scope, x.machine.pc, s, (x.turn? h n).map (·.machine.env)⟩ ::
          ((x.inside? h s).elim [] (fun y => dispatches h n y) ++
            (x.turn? h n).elim [] (fun y => dispatches h n y))
    else []

theorem dispatches_of_not (n : Nat) (hx : ∀ s, ¬ x.Dispatches s) : x.dispatches h n = [] := by
  cases n with
  | zero => rfl
  | succ n =>
      simp only [dispatches]
      split
      · next hpc =>
        cases hs : x.machine.next? with
        | none => rfl
        | some s => exact absurd ⟨hpc, hs⟩ (hx s)
      · rfl

theorem dispatches_of_dispatches (n : Nat) (hs : x.Dispatches s) : x.dispatches h (n + 1) =
    ⟨x.machine.scope, x.machine.pc, s, (x.turn? h n).map (·.machine.env)⟩ ::
      ((x.inside? h s).elim [] (fun y => y.dispatches h n) ++
        (x.turn? h n).elim [] (fun y => y.dispatches h n)) := by
  obtain ⟨hpc, hs⟩ := hs
  simp only [dispatches, if_pos hpc, hs]

theorem turn?_muted (hh : ∀ m s, AlikeAt h h' m s) (n stop : Nat) (m : Machine) {w w' : World σ}
    (hw : w.muted = w'.muted) :
    (turn? h n ⟨stop, m, w⟩ = none ∧ turn? h' n ⟨stop, m, w'⟩ = none) ∨
      ∃ m₁ w₁ w₁', turn? h n ⟨stop, m, w⟩ = some ⟨stop, m₁, w₁⟩ ∧
        turn? h' n ⟨stop, m, w'⟩ = some ⟨stop, m₁, w₁'⟩ ∧ w₁.muted = w₁'.muted := by
  have hrun : Runner.Muted (Machine.run h n) (Machine.run h' n) :=
    fun _ _ _ _ hw => runFrom_muted hh n hw
  obtain ⟨r, m₁, w₁, w₁', hx, hx', hw₁⟩ := eq_of_muted (step_muted (m := m) hh hrun hw)
  cases r with
  | ok did => exact Or.inr ⟨m₁, w₁, w₁', by simp only [turn?, after, hx],
      by simp only [turn?, after, hx'], hw₁⟩
  | failed e => exact Or.inl ⟨by simp only [turn?, hx], by simp only [turn?, hx']⟩
  | outOfFuel => exact Or.inl ⟨by simp only [turn?, hx], by simp only [turn?, hx']⟩

/-- The statements that a run dispatches are the same whether its variables are published or not. -/
theorem dispatches_muted (hh : ∀ m s, AlikeAt h h' m s) : ∀ (n : Nat) {stop : Nat} {m : Machine}
    {w w' : World σ}, w.muted = w'.muted →
    dispatches h n ⟨stop, m, w⟩ = dispatches h' n ⟨stop, m, w'⟩ := by
  intro n
  induction n with
  | zero =>
      intro stop m w w' _
      rfl
  | succ n ih =>
      intro stop m w w' hw
      by_cases hx : ∃ s, Dispatches ⟨stop, m, w⟩ s
      · obtain ⟨s, hs⟩ := hx
        rw [dispatches_of_dispatches n hs,
          dispatches_of_dispatches n (show Dispatches ⟨stop, m, w'⟩ s from hs)]
        have hinside : (inside? h ⟨stop, m, w⟩ s).elim [] (fun y => y.dispatches h n) =
            (inside? h' ⟨stop, m, w'⟩ s).elim [] (fun y => y.dispatches h' n) := by
          simp only [inside?, (hh _ _).nested?_eq]
          cases nested? h (m.goto (m.pc + 1)) m.pc s with
          | none => simp only [Option.map_none, Option.elim_none]
          | some k => simp only [Option.map_some, Option.elim_some, ih hw]
        rw [hinside]
        rcases turn?_muted hh n stop m hw with ⟨hnone, hnone'⟩ | ⟨m₁, w₁, w₁', hy, hy', hw₁⟩
        · simp only [hnone, hnone', Option.map_none, Option.elim_none]
        · rw [hy, hy']
          simp only [Option.map_some, Option.elim_some, ih hw₁]
      · have hx' : ∀ s, ¬ Dispatches ⟨stop, m, w'⟩ s := not_exists.1 hx
        rw [dispatches_of_not _ (not_exists.1 hx), dispatches_of_not _ hx']

/-! ### The statements dispatched are those of all points -/

theorem next_of_inside? (hs : x.Dispatches s) (hy : x.inside? h s = some y) : Next h x y := by
  obtain ⟨k, hk, rfl⟩ := Option.map_eq_some_iff.1 hy
  exact .inside hs hk

/-- A turn after which the run goes on has taken a step. -/
theorem step_of_turn? {n : Nat} (hs : x.Dispatches s) (hy : x.turn? h n = some y) :
    ∃ ok, step h (run h n) x.machine x.world = (.ok (.continued ok), y.machine, y.world) ∧
      y = ⟨x.stop, y.machine, y.world⟩ := by
  have hdone : (step h (run h n) x.machine x.world).1 ≠ .ok .done := step_ne_done hs.2
  rcases hstep : step h (run h n) x.machine x.world with ⟨(ok | _) | e | _, m, w⟩
  · simp only [turn?, after, hstep, Option.some.injEq] at hy
    cases hy
    exact ⟨ok, rfl, rfl⟩
  · rw [hstep] at hdone
    exact absurd rfl hdone
  · simp only [turn?, hstep] at hy
    cases hy
  · simp only [turn?, hstep] at hy
    cases hy

theorem turn?_of_step {n : Nat} {ok : Bool} {m : Machine} {w : World σ}
    (hstep : step h (run h n) x.machine x.world = (.ok (.continued ok), m, w)) :
    x.turn? h n = some ⟨x.stop, m, w⟩ := by
  simp only [turn?, after, hstep]

theorem next_of_turn? {n : Nat} (hs : x.Dispatches s) (hy : x.turn? h n = some y) : Next h x y := by
  obtain ⟨ok, hstep, hstop⟩ := step_of_turn? hs hy
  rw [hstop]
  exact .turn hs hstep

/-- Each statement dispatched is that of a point. -/
theorem reaches_of_mem_dispatches : ∀ (n : Nat) {x : Point σ} {d : Dispatch},
    d ∈ x.dispatches h n → ∃ y, Reaches h x y ∧ y.Dispatches d.statement ∧
      y.machine.pc = d.address ∧ y.machine.scope = d.scope := by
  intro n
  induction n with
  | zero =>
      intro x d hd
      cases hd
  | succ n ih =>
      intro x d hd
      have hnext : ∀ {y? : Option (Point σ)}, (∀ y, y? = some y → Next h x y) →
          d ∈ y?.elim [] (fun y => y.dispatches h n) → ∃ y, Reaches h x y ∧
            y.Dispatches d.statement ∧ y.machine.pc = d.address ∧ y.machine.scope = d.scope := by
        intro y? hy hd
        cases y? with
        | none => cases hd
        | some y =>
            obtain ⟨z, hz, hpoint⟩ := ih hd
            exact ⟨z, hz.head (hy y rfl), hpoint⟩
      by_cases hx : ∃ s, x.Dispatches s
      · obtain ⟨s, hs⟩ := hx
        rw [dispatches_of_dispatches n hs] at hd
        rcases List.mem_cons.1 hd with rfl | hd
        · exact ⟨x, .refl, hs, rfl, rfl⟩
        · rcases List.mem_append.1 hd with hd | hd
          · exact hnext (fun y => next_of_inside? hs) hd
          · exact hnext (fun y => next_of_turn? hs) hd
      · rw [dispatches_of_not _ (not_exists.1 hx)] at hd
        cases hd

/-- A run that finishes finishes the run inside its first statement. -/
theorem finishes_inside {n : Nat} {ok : Bool} (hs : x.Dispatches s)
    (hfin : Finishes h x.stop (n + 1) ok x.machine x.world) (hy : x.inside? h s = some y) :
    Finishes h y.stop n true y.machine y.world := by
  obtain ⟨k, hk, rfl⟩ := Option.map_eq_some_iff.1 hy
  have hexec := execute_ne_of_step hs.2 (hfin.step hs.1)
  rw [execute_of_nested hk] at hexec
  intro hout
  rcases hr : run h n k.stop k.machine x.world with ⟨r, m, w⟩
  have hr' : r = .outOfFuel := by
    rw [← hout]
    exact (congrArg Prod.fst hr).symm
  rw [hr, hr', resume_outOfFuel hk] at hexec
  exact hexec rfl

/-- If a run finishes, the statement of each point is dispatched. -/
theorem mem_dispatches_of_reaches : ∀ (n : Nat) {x : Point σ} {ok : Bool},
    Finishes h x.stop n ok x.machine x.world → Reaches h x y → y.Dispatches s →
    ∃ d ∈ x.dispatches h n, d.statement = s ∧ d.address = y.machine.pc ∧
      d.scope = y.machine.scope := by
  intro n
  induction n with
  | zero =>
      intro x ok hfin
      exact absurd hfin not_finishes_zero
  | succ n ih =>
      intro x ok hfin hxy hy
      rcases hxy.cases_head with rfl | ⟨z, hxz, hzy⟩
      · rw [dispatches_of_dispatches n hy]
        exact ⟨_, List.mem_cons_self, rfl, rfl, rfl⟩
      · cases hxz with
        | @inside s' k hs' hk =>
            have hz : x.inside? h s' = some ⟨k.stop, k.machine, x.world⟩ := by
              simp only [inside?, hk, Option.map_some]
            obtain ⟨d, hd, hpoint⟩ := ih (finishes_inside hs' hfin hz) hzy hy
            refine ⟨d, ?_, hpoint⟩
            rw [dispatches_of_dispatches n hs', hz]
            exact List.mem_cons_of_mem _ (List.mem_append_left _ hd)
        | @turn s' k ok' m w hs' hstep =>
            obtain ⟨d, hd, hpoint⟩ := ih (x := ⟨x.stop, m, w⟩) (hfin.next hs'.1 hstep) hzy hy
            refine ⟨d, ?_, hpoint⟩
            rw [dispatches_of_dispatches n hs', turn?_of_step (hfin.step_eq hs'.1 hstep)]
            exact List.mem_cons_of_mem _ (List.mem_append_right _ hd)

/-- If a run finishes, the statements dispatched are those of all points. -/
theorem mem_dispatches_iff {n : Nat} {ok : Bool} {sc : Scope} {a : Nat}
    (hfin : Finishes h x.stop n ok x.machine x.world) :
    (∃ d ∈ x.dispatches h n, d.scope = sc ∧ d.address = a ∧ d.statement = s) ↔
      ∃ y, Reaches h x y ∧ y.Dispatches s ∧ y.machine.pc = a ∧ y.machine.scope = sc := by
  constructor
  · rintro ⟨d, hd, rfl, rfl, rfl⟩
    exact reaches_of_mem_dispatches n hd
  · rintro ⟨y, hy, hs, rfl, rfl⟩
    obtain ⟨d, hd, rfl, ha, hsc⟩ := mem_dispatches_of_reaches n hfin hy hs
    exact ⟨d, hd, hsc, ha, rfl⟩

/-- More fuel does not change what a run that is finished dispatches. -/
theorem dispatches_mono : ∀ {n n' : Nat}, n ≤ n' → ∀ {x : Point σ} {ok : Bool},
    Finishes h x.stop n ok x.machine x.world → x.dispatches h n' = x.dispatches h n := by
  intro n
  induction n with
  | zero =>
      intro n' _ x ok hfin
      exact absurd hfin not_finishes_zero
  | succ n ih =>
      intro n' hn x ok hfin
      obtain ⟨n', rfl⟩ : ∃ k, n' = k + 1 := ⟨n' - 1, by omega⟩
      have hle : n ≤ n' := Nat.le_of_succ_le_succ hn
      by_cases hx : ∃ s, x.Dispatches s
      · obtain ⟨s, hs⟩ := hx
        have hturn : x.turn? h n' = x.turn? h n := by
          simp only [turn?, after, step_mono (run_le hle) (hfin.step hs.1)]
        rw [dispatches_of_dispatches n hs, dispatches_of_dispatches n' hs, hturn]
        have hinside : (x.inside? h s).elim [] (fun y => y.dispatches h n') =
            (x.inside? h s).elim [] (fun y => y.dispatches h n) := by
          cases hy : x.inside? h s with
          | none => simp only [Option.elim_none]
          | some y => simp only [Option.elim_some, ih hle (finishes_inside hs hfin hy)]
        have hrest : (x.turn? h n).elim [] (fun y => y.dispatches h n') =
            (x.turn? h n).elim [] (fun y => y.dispatches h n) := by
          cases hy : x.turn? h n with
          | none => simp only [Option.elim_none]
          | some y =>
              obtain ⟨ok', hstep, hstop⟩ := step_of_turn? hs hy
              have hnext := hfin.next hs.1 hstep
              rw [hstop]
              simp only [Option.elim_some, ih hle (x := ⟨x.stop, y.machine, y.world⟩) hnext]
        rw [hinside, hrest]
      · rw [dispatches_of_not _ (not_exists.1 hx), dispatches_of_not _ (not_exists.1 hx)]

end Point

/-! ### Each statement is followed by the snapshot that it owes -/

/-- The snapshots that a host publishes after the statements. -/
def Host.owes (h : Host σ) (ds : List Dispatch) : List (Moment × Environment) :=
  if h.settings.verbose then ds.filterMap Dispatch.snapshot? else []

theorem Host.owes_nil (h : Host σ) : h.owes [] = [] := by
  simp [owes]

theorem Host.owes_append (h : Host σ) (ds ds' : List Dispatch) :
    h.owes (ds ++ ds') = h.owes ds ++ h.owes ds' := by
  unfold owes
  split
  · exact List.filterMap_append
  · rfl

theorem Host.owes_cons (h : Host σ) (d : Dispatch) (ds : List Dispatch) :
    h.owes (d :: ds) = h.owes [d] ++ h.owes ds :=
  h.owes_append [d] ds

namespace Context

theorem publish_snapshots (c : Context Program) (h : Host σ) (moment : Moment) (w : World σ) :
    (c.publish h moment w).snapshots =
      w.snapshots ++ if c.scope.isMain && h.settings.verbose then [(moment, c.env)] else [] := by
  unfold publish
  split
  · simp
  · simp

theorem publishAfter_snapshots (c : Context Program) (h : Host σ) (a : Nat) (s : Statement)
    (w : World σ) : (c.publishAfter h a s w).snapshots =
      w.snapshots ++ h.owes [⟨c.scope, a, s, some c.env⟩] := by
  unfold publishAfter
  rw [Host.owes]
  split
  · next hblock => simp [Dispatch.snapshot?, hblock]
  · next hblock =>
    rw [publish_snapshots]
    by_cases hmain : c.scope.isMain = true
    · simp [Dispatch.snapshot?, hblock, hmain]
    · simp [Dispatch.snapshot?, hmain]

end Context

namespace Point

open Machine

variable {h : Host σ} {x y : Point σ} {s : Statement}

/-- A statement adds no snapshots but those of the run inside. -/
theorem execute_snapshots (n : Nat) :
    (execute h (run h n) (x.machine.goto (x.machine.pc + 1)) x.machine.pc s
      x.world).2.2.snapshots = ((x.inside? h s).elim x.world fun y =>
        (run h n y.stop y.machine y.world).2.2).snapshots := by
  unfold inside?
  cases hk : nested? h (x.machine.goto (x.machine.pc + 1)) x.machine.pc s with
  | none =>
      obtain ⟨r, m, ls, u, hx⟩ := execute_prints (σ := σ) hk x.world.state
      rw [hx (run h n) x.world rfl]
      simp
  | some k =>
      rw [execute_of_nested hk]
      rcases hr : run h n k.stop k.machine x.world with ⟨r, m, w⟩
      obtain ⟨r', m', hresume⟩ := resume_world hk r m
      simp only [hresume, Option.map_some, Option.elim_some, hr]

/-- A step adds the snapshot that its statement owes, behind those of the run inside. -/
theorem after_snapshots (n : Nat) (hs : x.Dispatches s) :
    (x.after h n).world.snapshots = ((x.inside? h s).elim x.world fun y =>
        (run h n y.stop y.machine y.world).2.2).snapshots ++
      h.owes [⟨x.machine.scope, x.machine.pc, s, (x.turn? h n).map (·.machine.env)⟩] := by
  obtain ⟨hpc, hs⟩ := hs
  rw [← execute_snapshots n]
  rcases hx : execute h (run h n) (x.machine.goto (x.machine.pc + 1)) x.machine.pc s x.world
    with ⟨r, m, w⟩
  have hscope : m.scope = x.machine.scope :=
    ((kept_scope x.machine.scope).execute_kept (m := x.machine.goto (x.machine.pc + 1))
      ((kept_scope _).runner n) rfl hs hx).2
  have hnothing : h.owes [⟨x.machine.scope, x.machine.pc, s, none⟩] = [] := by
    simp [Host.owes, Dispatch.snapshot?]
  rcases r with ok | ⟨e | e⟩ | _
  · simp only [turn?, after, step, hs, hx, Context.settle, Context.publishAfter_snapshots, hscope,
      Option.map_some]
  · by_cases hrec : e.isRecoverable = true
    · simp only [turn?, after, step, hs, hx, Context.settle, if_pos hrec,
        Context.publishAfter_snapshots, World.snapshots_record_diagnostic, hscope, Option.map_some]
    · simp only [turn?, after, step, hs, hx, Context.settle, if_neg hrec, Option.map_none, hnothing,
        List.append_nil]
  · simp only [turn?, after, step, hs, hx, Context.settle, Option.map_none, hnothing,
      List.append_nil]
  · simp only [turn?, after, step, hs, hx, Context.settle, Option.map_none, hnothing,
      List.append_nil]

/-- What a run dispatches in a function is dispatched in functions only. -/
theorem Next.in_function (hxy : Next h x y) (hx : x.machine.scope.isMain = false) :
    y.machine.scope.isMain = false := by
  cases hxy with
  | inside hs hk =>
      rcases nested?_cases hk with ⟨-, l, stop, rest, -, rfl⟩ | ⟨name, args, body, c, -, hc, rfl⟩
      · exact hx
      · obtain ⟨f, env, -, -, -, rfl, rfl⟩ := Context.enter_eq_ok hc
        rfl
  | @turn s n ok m w hs hstep =>
      have hscope : m.scope = x.machine.scope :=
        ((kept_scope x.machine.scope).step ((kept_scope _).runner n) rfl hstep).2
      show m.scope.isMain = false
      rw [hscope]
      exact hx

theorem owes_of_function (n : Nat) (hx : x.machine.scope.isMain = false) :
    h.owes (x.dispatches h n) = [] := by
  have hnone : (x.dispatches h n).filterMap Dispatch.snapshot? = [] := by
    refine List.filterMap_eq_nil_iff.2 ?_
    intro d hd
    obtain ⟨y, hxy, -, -, hscope⟩ := reaches_of_mem_dispatches n hd
    have hy := hxy.invariant (I := fun y => y.machine.scope.isMain = false) hx
      fun _ _ hy hyz => hyz.in_function hy
    have hd : d.scope.isMain = false := by
      rw [← hscope]
      exact hy
    simp [Dispatch.snapshot?, hd]
  simp [Host.owes, hnone]

/-- A statement that owes a snapshot is none of a block.  If there is a run inside, it is that of a
function, and owes nothing. -/
theorem owes_inside_or (n : Nat) (s : Statement) (after : Option Environment) :
    h.owes [⟨x.machine.scope, x.machine.pc, s, after⟩] = [] ∨
      h.owes ((x.inside? h s).elim [] fun y => y.dispatches h n) = [] := by
  by_cases hblock : (s.opensBlock || s.closesBlock) = true
  · refine Or.inl ?_
    simp [Host.owes, Dispatch.snapshot?, hblock]
  · refine Or.inr ?_
    cases hy : x.inside? h s with
    | none => exact h.owes_nil
    | some y =>
        obtain ⟨k, hk, rfl⟩ := Option.map_eq_some_iff.1 hy
        rcases nested?_cases hk with ⟨hif, -⟩ | ⟨name, args, body, c, -, hc, rfl⟩
        · simp [Statement.opensBlock, hif, Keyword.opensBlock] at hblock
        · obtain ⟨f, env, -, -, -, rfl, rfl⟩ := Context.enter_eq_ok hc
          exact owes_of_function n rfl

/-- A run publishes the snapshots that the statements it dispatches owe, in their order. -/
theorem runFrom_snapshots : ∀ (n : Nat) {x : Point σ} {ok : Bool},
    (runFrom h n ok x.stop x.machine x.world).2.2.snapshots =
      x.world.snapshots ++ h.owes (x.dispatches h n) := by
  intro n
  induction n with
  | zero =>
      intro x ok
      simp [runFrom, dispatches, Host.owes_nil]
  | succ n ih =>
      intro x ok
      by_cases hx : ∃ s, x.Dispatches s
      · obtain ⟨s, hs⟩ := hx
        have hinside : ((x.inside? h s).elim x.world fun y =>
            (run h n y.stop y.machine y.world).2.2).snapshots =
            x.world.snapshots ++ h.owes ((x.inside? h s).elim [] fun y => y.dispatches h n) := by
          cases hy : x.inside? h s with
          | none => simp [Host.owes_nil]
          | some y =>
              have hworld : y.world = x.world := by
                obtain ⟨k, -, rfl⟩ := Option.map_eq_some_iff.1 hy
                rfl
              simp only [Option.elim_some]
              rw [← hworld]
              exact ih
        have hrest : (runFrom h (n + 1) ok x.stop x.machine x.world).2.2.snapshots =
            (x.after h n).world.snapshots ++
              h.owes ((x.turn? h n).elim [] fun y => y.dispatches h n) := by
          have hdone : (step h (Machine.run h n) x.machine x.world).1 ≠ .ok .done :=
            step_ne_done hs.2
          rw [runFrom_succ, if_pos hs.1]
          rcases hstep : step h (Machine.run h n) x.machine x.world with ⟨(ok' | _) | e | _, m, w⟩
          · rw [turn?_of_step hstep, after, hstep]
            exact ih (x := ⟨x.stop, m, w⟩)
          · rw [hstep] at hdone
            exact absurd rfl hdone
          · simp [turn?, after, hstep, Host.owes_nil]
          · simp [turn?, after, hstep, Host.owes_nil]
        have howes : h.owes (x.dispatches h (n + 1)) =
            h.owes ((x.inside? h s).elim [] fun y => y.dispatches h n) ++
              h.owes [⟨x.machine.scope, x.machine.pc, s, (x.turn? h n).map (·.machine.env)⟩] ++
              h.owes ((x.turn? h n).elim [] fun y => y.dispatches h n) := by
          rw [dispatches_of_dispatches n hs, Host.owes_cons, Host.owes_append, ← List.append_assoc]
          rcases owes_inside_or (h := h) (x := x) n s ((x.turn? h n).map (·.machine.env))
            with hown | hinner
          · rw [hown, List.append_nil, List.nil_append]
          · rw [hinner, List.append_nil, List.nil_append]
        rw [hrest, after_snapshots n hs, hinside, howes, List.append_assoc, List.append_assoc,
          List.append_assoc]
      · rw [dispatches_of_not _ (not_exists.1 hx), Host.owes_nil, List.append_nil, runFrom_succ]
        split
        · next hpc =>
          cases hs : x.machine.next? with
          | none => simp only [step, hs]
          | some s => exact absurd ⟨s, hpc, hs⟩ hx
        · rfl

end Point

namespace Machine

/-- A call adds no snapshots. -/
theorem call_snapshots (h : Host σ) (n : Nat) (m : Machine) (name : String) (args : List String)
    (w : World σ) : (m.call h (run h n) name args w).2.snapshots = w.snapshots := by
  unfold call
  rw [Context.call_eq]
  cases hc : m.enter h name args with
  | error e => rfl
  | ok entered =>
      obtain ⟨body, callee⟩ := entered
      obtain ⟨f, env, -, -, -, rfl, rfl⟩ := Context.enter_eq_ok hc
      let start : Point σ := ⟨f.body.size, { toContext := m.forCall f env, program := f.body }, w⟩
      have hrun : (run h n start.stop start.machine start.world).2.2.snapshots = w.snapshots := by
        have howes : h.owes (start.dispatches h n) = [] := Point.owes_of_function n rfl
        rw [run, Point.runFrom_snapshots, howes, List.append_nil]
      simp only [Runner.body]
      rcases hx : run h n f.body.size { toContext := m.forCall f env, program := f.body } w
        with ⟨r, m', w'⟩
      have hw' : w'.snapshots = w.snapshots := by
        rw [← hrun]
        simp only [start, hx]
      cases r <;> exact hw'

/-- The variables published at the end of a run, if it has a result. -/
def finalSnapshot (x : Outcome StatementError Bool × Machine × World σ) :
    List (Moment × Environment) :=
  match x.1 with
  | .ok _ => [(.final, x.2.1.env)]
  | _ => []

/-- A run of a machine publishes the variables that it starts with, what its statements owe, and the
variables that it ends with, if there is a result. -/
theorem runUntilDone_snapshots (h : Host σ) (n : Nat) (m : Machine) (w : World σ) :
    (runUntilDone h n m w).2.2.snapshots = w.snapshots ++
      if m.scope.isMain && h.settings.verbose then
        (.initial, m.env) ::
          (Point.dispatches h n ⟨m.program.size, m, m.publish h .initial w⟩).filterMap
            Dispatch.snapshot? ++ finalSnapshot (runUntilDone h n m w)
      else [] := by
  let start : Point σ := ⟨m.program.size, m, m.publish h .initial w⟩
  have hrun : (runFrom h n true start.stop start.machine start.world).2.2.snapshots =
      start.world.snapshots ++ h.owes (start.dispatches h n) :=
    Point.runFrom_snapshots n
  rcases hx : runFrom h n true m.program.size m (m.publish h .initial w) with ⟨r, m', w'⟩
  have hscope : m'.scope = m.scope := ((kept_scope m.scope).runFrom n rfl hx).2
  simp only [start, hx, Context.publish_snapshots] at hrun
  by_cases hpublish : (m.scope.isMain && h.settings.verbose) = true
  · obtain ⟨hmain, hverbose⟩ := Bool.and_eq_true_iff.1 hpublish
    simp only [Host.owes, hmain, hverbose, Bool.and_self, if_true] at hrun
    cases r with
    | ok ok =>
        simp [runUntilDone, Machine.run, hx, finalSnapshot, Context.publish_snapshots, hscope,
          hmain, hverbose, hrun]
    | failed e => simp [runUntilDone, Machine.run, hx, finalSnapshot, hmain, hverbose, hrun]
    | outOfFuel => simp [runUntilDone, Machine.run, hx, finalSnapshot, hmain, hverbose, hrun]
  · have howes : h.owes (start.dispatches h n) = [] := by
      by_cases hverbose : h.settings.verbose = true
      · refine Point.owes_of_function n ?_
        show m.scope.isMain = false
        simpa [hverbose] using hpublish
      · simp [Host.owes, hverbose]
    simp only [start] at howes
    simp only [howes, if_neg hpublish, List.append_nil] at hrun
    cases r with
    | ok ok =>
        simp only [runUntilDone, Machine.run, hx, Context.publish_snapshots, hscope,
          if_neg hpublish, hrun]
    | failed e => simp only [runUntilDone, Machine.run, hx, if_neg hpublish, hrun, List.append_nil]
    | outOfFuel => simp only [runUntilDone, Machine.run, hx, if_neg hpublish, hrun, List.append_nil]

/-- What the statements owe can be told from the run that publishes nothing. -/
theorem runUntilDone_snapshots_of_silent (h : Host σ) (n : Nat) (m : Machine) (w : World σ) :
    (runUntilDone (h.withVerbose true) n m w).2.2.snapshots = w.snapshots ++
      if m.scope.isMain then
        (.initial, m.env) ::
          (Point.dispatches (h.withVerbose false) n ⟨m.program.size, m, w⟩).filterMap
            Dispatch.snapshot? ++ finalSnapshot (runUntilDone (h.withVerbose true) n m w)
      else [] := by
  have hdispatched : Point.dispatches (h.withVerbose true) n
      ⟨m.program.size, m, m.publish (h.withVerbose true) .initial w⟩ =
      Point.dispatches (h.withVerbose false) n ⟨m.program.size, m, w⟩ :=
    Point.dispatches_muted (alikeAt_withVerbose h true false) n (Context.muted_publish _ _ _ w)
  rw [← hdispatched, runUntilDone_snapshots, Host.verbose_withVerbose, Bool.and_true]

/-- Whether the variables are published or not, a run comes to the same: the same result, the same
machine, the same lines and the same diagnostics, and to neither with fuel that is not enough for
the other.  If they are not published, there are no snapshots.  If they are, the main program
publishes the variables that it starts with, then those behind each statement that it dispatches
without an error that ends the run, unless the statement belongs to a block, in the order of these
statements, and then the variables that it ends with, if there is a result.  Functions and calls
publish nothing.

The statements dispatched are those of all points of the run, of blocks and of calls too, as soon as
the fuel is enough, and more fuel adds none. -/
theorem verbose_only_observes (h : Host σ) (n : Nat) (m : Machine) (w : World σ) :
    let on := runUntilDone (h.withVerbose true) n m w
    let off := runUntilDone (h.withVerbose false) n m w
    let start : Point σ := ⟨m.program.size, m, w⟩
    let dispatched := start.dispatches (h.withVerbose false) n
    (on.1 = off.1 ∧ on.2.1 = off.2.1 ∧ on.2.2.lines = off.2.2.lines ∧
      on.2.2.diagnostics = off.2.2.diagnostics) ∧
    off.2.2.snapshots = w.snapshots ∧
    (m.scope.isMain = true → on.2.2.snapshots = w.snapshots ++
      (.initial, m.env) :: dispatched.filterMap Dispatch.snapshot? ++ finalSnapshot on) ∧
    (m.scope.isMain = false → on.2.2.snapshots = w.snapshots) ∧
    (∀ name args,
      (m.call (h.withVerbose true) (run (h.withVerbose true) n) name args w).2.snapshots =
        w.snapshots) ∧
    (off.1 ≠ .outOfFuel →
      (∀ n', n ≤ n' → start.dispatches (h.withVerbose false) n' = dispatched) ∧
      ∀ sc a s, (∃ d ∈ dispatched, d.scope = sc ∧ d.address = a ∧ d.statement = s) ↔
        ∃ x, Point.Reaches (h.withVerbose false) start x ∧ x.Dispatches s ∧
          x.machine.pc = a ∧ x.machine.scope = sc) := by
  intro on off start dispatched
  have hon : on.2.2.snapshots = w.snapshots ++ if m.scope.isMain then
      (.initial, m.env) :: dispatched.filterMap Dispatch.snapshot? ++ finalSnapshot on else [] :=
    runUntilDone_snapshots_of_silent h n m w
  refine ⟨?_, ?_, ?_, ?_, ?_, ?_⟩
  · have hsame : muted on = muted off :=
      runUntilDone_muted (alikeAt_withVerbose h true false) rfl
    obtain ⟨r, m', w₁, w₂, hx, hx', hw⟩ := eq_of_muted hsame
    rw [hx, hx']
    exact ⟨rfl, rfl, World.lines_eq_of_muted hw, World.diagnostics_eq_of_muted hw⟩
  · simp [off, runUntilDone_snapshots]
  · intro hmain
    rw [hon, if_pos hmain, List.append_assoc]
  · intro hmain
    simp [hon, hmain]
  · exact fun name args => call_snapshots _ n m name args w
  · intro hfin
    have hsilent : m.publish (h.withVerbose false) .initial w = w := by
      simp [Context.publish]
    have hfinishes := runUntilDone_finishes_iff.1 hfin
    rw [hsilent] at hfinishes
    refine ⟨fun n' hn => Point.dispatches_mono hn (x := start) hfinishes, ?_⟩
    intro sc a s
    exact Point.mem_dispatches_iff (x := start) hfinishes

/-- In a loop, the block of a chain publishes each time that it runs, the call in it once for itself
and nothing for its body, and so does the statement that needs a missing variable. -/
example :
    let statement operation arguments : Statement := ⟨operation, arguments, operation, 1⟩
    let p := Program.ofStatements [statement "func" ["F"], statement "clear" ["x"],
      statement "end" [], statement "init" ["x", "to", "2"],
      statement "while" ["x", "is", "0", "do"], statement "if" ["x", "is", "1"],
      statement "F" [], statement "print" ["y"], statement "end" [], statement "decr" ["x"],
      statement "end" []]
    let h : Host Unit := ⟨⟨true, .json, 2, true⟩, fun _ u => (.error (.unknownFunction ""), u)⟩
    let w : World Unit := { state := () }
    (runUntilDone h 15 { program := p } w).2.2.snapshots.map Prod.fst =
      [.initial, .afterStatement 3, .afterStatement 9, .afterStatement 6, .afterStatement 7,
        .afterStatement 9, .final] := by
  decide +kernel

end Machine

end BareBones
