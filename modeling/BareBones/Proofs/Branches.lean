/-
Which block of a chain runs.

A chain that is gone through has run one of its blocks or none: the first whose guard holds, the
`else` block if there is no such block before it, and none if there is no `else` either.  The guards
are asked with the variables as they are when the chain is entered, and those behind the block that
runs are not asked at all.

Two things follow from how blocks are nested.  The machine goes on behind the last link, since the
links are known from the program and not from where the block leaves the machine.  And the loops
that run are the same as before: a block takes no loop off the stack that goes on behind it, and a
loop that it leaves on the stack would be one around the whole chain, which was there before.
-/
import BareBones.Proofs.Dispatch

namespace BareBones

variable {σ : Type}

namespace Machine

/-! ### The statements of a block -/

/-- The run goes through up to the stop, and the flags are those of the statements it takes. -/
inductive Through (h : Host σ) (stop : Nat) :
    Machine → World σ → List Bool → Machine → World σ → Prop
  | stopped {m : Machine} {w : World σ} (hpc : stop ≤ m.pc) : Through h stop m w [] m w
  | step {n : Nat} {ok : Bool} {oks : List Bool} {m m₁ m' : Machine} {w w₁ w' : World σ}
      (hpc : m.pc < stop)
      (hstep : Machine.step h (run h n) m w = (.ok (.continued ok), m₁, w₁))
      (hrest : Through h stop m₁ w₁ oks m' w') : Through h stop m w (ok :: oks) m' w'

variable {h : Host σ} {stop : Nat}

/-- The flag of a run is true if those of all its statements are. -/
theorem Through.runs {oks : List Bool} {m m' : Machine} {w w' : World σ}
    (hx : Through h stop m w oks m' w') : ∀ ok : Bool,
    Runs h stop ok m w (.ok (ok && oks.all id), m', w') := by
  induction hx with
  | stopped hpc =>
      intro ok
      rw [List.all_nil, Bool.and_true]
      exact .reached hpc
  | @step n ok' oks m m₁ m' w w₁ w' hpc hstep hrest ih =>
      intro ok
      rw [List.all_cons, ← Bool.and_assoc]
      exact .next hpc hstep (ih (ok && ok'))

theorem through_of_runFrom : ∀ (n : Nat) {ok b : Bool} {m m' : Machine} {w w' : World σ},
    m.LoopsOK → stop ≤ m.program.size → runFrom h n ok stop m w = (.ok b, m', w') →
    ∃ oks : List Bool, Through h stop m w oks m' w' ∧ b = (ok && oks.all id) := by
  intro n
  induction n with
  | zero =>
      intro ok b m m' w w' _ _ hx
      cases hx
  | succ n ih =>
      intro ok b m m' w w' hm hsize hx
      rw [runFrom_succ] at hx
      split at hx
      · next hpc =>
        obtain ⟨s, hs⟩ : ∃ s, m.next? = some s := by
          cases hs : m.next? with
          | none =>
              have hend := Program.get?_eq_none_iff.1 hs
              omega
          | some s => exact ⟨s, rfl⟩
        rcases hstep : Machine.step h (Machine.run h n) m w with ⟨(ok' | _) | e | _, m₁, w₁⟩
        · rw [hstep] at hx
          have hkeeps := hm.step (runsKeep h n).runner hs hstep
          have hsize' : stop ≤ m₁.program.size := by
            rw [hkeeps.program]
            exact hsize
          obtain ⟨oks, hthrough, hb⟩ := ih hkeeps.ok hsize' hx
          refine ⟨ok' :: oks, .step hpc hstep hthrough, ?_⟩
          rw [hb, List.all_cons, Bool.and_assoc]
          rfl
        · exact absurd (by rw [hstep]) (step_ne_done (h := h) (w := w) hs)
        · rw [hstep] at hx
          cases hx
        · rw [hstep] at hx
          cases hx
      · next hpc =>
        cases hx
        exact ⟨[], .stopped (Nat.le_of_not_lt hpc), by simp⟩

/-! ### Chains all of whose blocks are closed -/

/-- The links of a chain from an address on, all of them closed, with the `end` of the last one.
Behind each link but the last there is an `elif` or an `else`.  Behind the last one there is none,
or it is an `else` itself. -/
inductive ClosedChain (p : Program) : Nat → List Link → Nat → Prop
  | last {o e : Nat} {s : Statement} (hs : p.get? o = some s) (hstop : p.blockEnd? o = some e)
      (hend : s.keyword? = some .elseBranch ∨
        ∀ t, p.get? (e + 1) = some t → t.continuesChain = false) :
      ClosedChain p o [⟨o, s, some e⟩] e
  | link {o e last : Nat} {s t : Statement} {ls : List Link} (hs : p.get? o = some s)
      (hstop : p.blockEnd? o = some e) (helse : s.keyword? ≠ some .elseBranch)
      (ht : p.get? (e + 1) = some t) (hcont : t.continuesChain = true)
      (hrest : ClosedChain p (e + 1) ls last) : ClosedChain p o (⟨o, s, some e⟩ :: ls) last

variable {p : Program} {o last : Nat} {s : Statement} {ls : List Link}

/-- A closed chain is what the program has there. -/
theorem ClosedChain.links_eq (hls : ClosedChain p o ls last) : ∀ {n : Nat} {s : Statement},
    p.get? o = some s → p.size < n + o → links p n o s = ls := by
  induction hls with
  | @last o e s hs hstop hend =>
      intro n s' hs' hn
      rw [hs] at hs'
      cases hs'
      have hlt := Program.get?_lt hs
      obtain ⟨n, rfl⟩ : ∃ k, n = k + 1 := ⟨n - 1, by omega⟩
      rw [links, hstop]
      rcases hend with helse | hnone
      · simp only [if_pos helse]
      · by_cases helse : s.keyword? = some .elseBranch
        · simp only [if_pos helse]
        · simp only [if_neg helse]
          cases ht : p.get? (e + 1) with
          | none => rfl
          | some t => simp [hnone t ht]
  | @link o e last s t ls hs hstop helse ht hcont hrest ih =>
      intro n s' hs' hn
      rw [hs] at hs'
      cases hs'
      have hlt := Program.get?_lt hs
      have hstop' := Program.blockEnd?_lt hstop
      obtain ⟨n, rfl⟩ : ∃ k, n = k + 1 := ⟨n - 1, by omega⟩
      rw [links, hstop]
      simp only [if_neg helse, ht, hcont, if_true]
      rw [ih ht (by omega)]

theorem ClosedChain.chain_eq (hls : ClosedChain p o ls last) (hs : p.get? o = some s) :
    chain p o s = ls :=
  hls.links_eq hs (by omega)

theorem ClosedChain.mem_chain (hls : ClosedChain p o ls last) (hs : p.get? o = some s) {l : Link}
    {before rest : List Link} (heq : ls = before ++ l :: rest) : l ∈ chain p o s := by
  rw [hls.chain_eq hs, heq]
  exact List.mem_append_right before List.mem_cons_self

/-- A chain all of whose blocks have an `end` is closed. -/
theorem closedChain_links : ∀ (n : Nat) {o : Nat} {s : Statement}, p.get? o = some s →
    p.size < n + o → (∀ l ∈ links p n o s, l.stop ≠ none) →
    ∃ last, ClosedChain p o (links p n o s) last := by
  intro n
  induction n with
  | zero =>
      intro o s hs hn
      have hlt := Program.get?_lt hs
      omega
  | succ n ih =>
      intro o s hs hn hclosed
      rw [links] at hclosed ⊢
      cases hstop : p.blockEnd? o with
      | none => exact absurd hstop (hclosed _ List.mem_cons_self)
      | some e =>
          have hlt := Program.blockEnd?_lt hstop
          simp only [hstop] at hclosed ⊢
          by_cases helse : s.keyword? = some .elseBranch
          · rw [if_pos helse]
            exact ⟨e, .last hs hstop (Or.inl helse)⟩
          · simp only [if_neg helse] at hclosed ⊢
            cases ht : p.get? (e + 1) with
            | none => exact ⟨e, .last hs hstop (Or.inr (by simp [ht]))⟩
            | some t =>
                simp only [ht] at hclosed ⊢
                by_cases hcont : t.continuesChain = true
                · simp only [if_pos hcont] at hclosed ⊢
                  obtain ⟨last, hrest⟩ := ih ht (by omega)
                    fun l hl => hclosed l (List.mem_cons_of_mem _ hl)
                  exact ⟨last, .link hs hstop helse ht hcont hrest⟩
                · simp only [if_neg hcont]
                  refine ⟨e, .last hs hstop (Or.inr ?_)⟩
                  intro t' ht'
                  rw [ht] at ht'
                  cases ht'
                  exact eq_false_of_ne_true hcont

theorem ClosedChain.stop_ne_none (hls : ClosedChain p o ls last) : ∀ l ∈ ls, l.stop ≠ none := by
  induction hls with
  | last hs hstop hend => simp
  | link hs hstop helse ht hcont hrest ih =>
      intro l hl
      rcases List.mem_cons.1 hl with rfl | hl
      · simp
      · exact ih l hl

/-! ### The block that runs -/

/-- The guard of the link holds. -/
def Link.Holds (l : Link) (env : Environment) : Prop :=
  ∃ g, Guard.resolve l.statement.operation l.statement.arguments env = .ok g ∧ g.holds env = true

/-- The link has a guard, and it does not hold. -/
def Link.Fails (l : Link) (env : Environment) : Prop :=
  l.statement.keyword? ≠ some .elseBranch ∧
    ∃ g, Guard.resolve l.statement.operation l.statement.arguments env = .ok g ∧
      g.holds env = false

theorem Link.taken_eq_true_iff {l : Link} {env : Environment} : l.taken env = .ok true ↔
    l.statement.keyword? = some .elseBranch ∨ l.Holds env := by
  unfold taken Holds
  by_cases helse : l.statement.keyword? = some .elseBranch
  · simp [helse]
  · rw [if_neg helse]
    cases Guard.resolve l.statement.operation l.statement.arguments env with
    | error e => simp [helse]
    | ok g => simp [helse]

theorem Link.taken_eq_false_iff {l : Link} {env : Environment} : l.taken env = .ok false ↔
    l.Fails env := by
  unfold taken Fails
  by_cases helse : l.statement.keyword? = some .elseBranch
  · simp [helse]
  · rw [if_neg helse]
    cases Guard.resolve l.statement.operation l.statement.arguments env with
    | error e => simp [helse]
    | ok g => simp [helse]

/-- The block that runs is the first whose guard holds. -/
theorem entered?_eq_some_iff {l : Link} {e : Nat} {rest : List Link} {env : Environment} :
    ∀ {ls : List Link}, entered? ls env = some (l, e, rest) ↔
      ∃ before, ls = before ++ l :: rest ∧ (∀ k ∈ before, k.stop ≠ none ∧ k.taken env = .ok false) ∧
        l.taken env = .ok true ∧ l.stop = some e := by
  intro ls
  induction ls with
  | nil => simp [entered?]
  | cons k ls ih =>
      constructor
      · intro hl
        simp only [entered?] at hl
        split at hl
        · cases hl
        · next stop hstop =>
          split at hl
          · cases hl
          · next htaken =>
            obtain ⟨before, rfl, hbefore, hrest⟩ := ih.1 hl
            refine ⟨k :: before, rfl, ?_, hrest⟩
            intro k' hk'
            rcases List.mem_cons.1 hk' with rfl | hk'
            · exact ⟨by simp [hstop], htaken⟩
            · exact hbefore k' hk'
          · next htaken =>
            cases hl
            exact ⟨[], rfl, by simp, htaken, hstop⟩
      · rintro ⟨before, hls, hbefore, htaken, hstop⟩
        cases before with
        | nil =>
            cases hls
            simp only [entered?, hstop, htaken]
        | cons k' before =>
            cases hls
            obtain ⟨hclosed, hfails⟩ := hbefore k List.mem_cons_self
            obtain ⟨stop, hstop'⟩ := Option.ne_none_iff_exists'.1 hclosed
            simp only [entered?, hstop', hfails]
            exact ih.2 ⟨before, rfl, fun k' hk' => hbefore k' (List.mem_cons_of_mem _ hk'), htaken,
              hstop⟩

/-- Passing over the links behind a block of a closed chain leads behind the last one. -/
theorem ClosedChain.passOver_eq (hls : ClosedChain p o ls last) : ∀ (before : List Link) {l : Link}
    {rest : List Link} {e : Nat} {m : Machine}, ls = before ++ l :: rest → l.stop = some e →
    passOver rest (m.leave e rest) = (.ok (), m.goto (last + 1)) := by
  induction hls with
  | @last o e' s hs hstop hend =>
      intro before l rest e m heq hl
      cases before with
      | nil =>
          cases heq
          cases hl
          rfl
      | cons k before => simp at heq
  | @link o e' last s t ls hs hstop helse ht hcont hrest ih =>
      intro before l rest e m heq hl
      cases before with
      | nil =>
          cases heq
          cases hl
          cases hrest with
          | last hs' hstop' hend' => rfl
          | @link _ e₁ _ s₁ _ ls₁ hs' hstop' helse' ht' hcont' hrest' =>
              have hpassed := ih [] (l := ⟨e' + 1, s₁, some e₁⟩)
                (m := m.leave e' (⟨e' + 1, s₁, some e₁⟩ :: ls₁)) rfl rfl
              exact hpassed
      | cons k before =>
          cases heq
          exact ih before rfl hl

/-- A chain that is gone through is closed. -/
theorem stop_ne_none_of_passOver : ∀ {ls : List Link} {m m' : Machine},
    passOver ls m = (.ok (), m') → ∀ l ∈ ls, l.stop ≠ none := by
  intro ls
  induction ls with
  | nil =>
      intro m m' _ l hl
      cases hl
  | cons k ls ih =>
      intro m m' hx l hl
      simp only [passOver] at hx
      split at hx
      · cases hx
      · next stop hstop =>
        rcases List.mem_cons.1 hl with rfl | hl
        · simp [hstop]
        · exact ih hx l hl

theorem stop_ne_none_of_runChain {run : Runner σ} {b : Bool} {m' : Machine} {w w' : World σ} :
    ∀ {ls : List Link} {m : Machine}, runChain run ls m w = (.ok b, m', w') →
    ∀ l ∈ ls, l.stop ≠ none := by
  intro ls
  induction ls with
  | nil =>
      intro m _ l hl
      cases hl
  | cons k ls ih =>
      intro m hx l hl
      simp only [runChain] at hx
      split at hx
      · cases hx
      · next stop hstop =>
        have hrest : ∀ l ∈ ls, l.stop ≠ none := by
          split at hx
          · cases hx
          · exact ih hx
          · split at hx
            · cases hx
            · cases hx
            · split at hx
              · next hpassed => exact stop_ne_none_of_passOver hpassed
              · cases hx
        rcases List.mem_cons.1 hl with rfl | hl
        · simp [hstop]
        · exact hrest l hl

/-- A closed chain all of whose guards fail is passed by. -/
theorem ClosedChain.runChain_of_fails {run : Runner σ} {w : World σ}
    (hls : ClosedChain p o ls last) : ∀ {m : Machine}, (∀ k ∈ ls, k.taken m.env = .ok false) →
    runChain run ls m w = (.ok true, m.goto (last + 1), w) := by
  induction hls with
  | @last o e s hs hstop hend =>
      intro m hfails
      simp only [runChain, hfails _ List.mem_cons_self]
      rfl
  | @link o e last s t ls hs hstop helse ht hcont hrest ih =>
      intro m hfails
      simp only [runChain, hfails _ List.mem_cons_self]
      exact ih (m := m.leave e ls) fun k hk => hfails k (List.mem_cons_of_mem _ hk)

/-- A chain that goes through without a block has found all its guards to fail. -/
theorem fails_of_not_entered {run : Runner σ} {b : Bool} {m' : Machine} {w w' : World σ} :
    ∀ {ls : List Link} {m : Machine}, entered? ls m.env = none →
    runChain run ls m w = (.ok b, m', w') → ∀ k ∈ ls, k.taken m.env = .ok false := by
  intro ls
  induction ls with
  | nil =>
      intro m _ _ k hk
      cases hk
  | cons l ls ih =>
      intro m hl hx k hk
      simp only [entered?] at hl
      simp only [runChain] at hx
      split at hl
      · next hstop =>
        rw [hstop] at hx
        cases hx
      · next stop hstop =>
        rw [hstop] at hx
        dsimp only at hx
        split at hl
        · next htaken =>
          rw [htaken] at hx
          cases hx
        · next htaken =>
          rw [htaken] at hx
          rcases List.mem_cons.1 hk with rfl | hk
          · exact htaken
          · exact ih (m := m.leave stop ls) hl hx k hk
        · cases hl

/-- A closed chain is gone through in two ways: its first block whose guard holds goes through, or
there is no such block. -/
theorem ClosedChain.runChain_eq_ok_iff {run : Runner σ} {b : Bool} {m m' : Machine}
    {w w' : World σ} (hls : ClosedChain p o ls last) : runChain run ls m w = (.ok b, m', w') ↔
    (∃ before l rest e m₁, ls = before ++ l :: rest ∧ (∀ k ∈ before, k.Fails m.env) ∧
      (l.statement.keyword? = some .elseBranch ∨ l.Holds m.env) ∧ l.stop = some e ∧
      run e (m.goto (l.opener + 1)) w = (.ok b, m₁, w') ∧ m' = m₁.goto (last + 1)) ∨
    ((∀ k ∈ ls, k.Fails m.env) ∧ b = true ∧ m' = m.goto (last + 1) ∧ w' = w) := by
  constructor
  · intro hx
    cases hl : entered? ls m.env with
    | none =>
        have hfails := fails_of_not_entered hl hx
        rw [hls.runChain_of_fails hfails] at hx
        cases hx
        exact Or.inr ⟨fun k hk => Link.taken_eq_false_iff.1 (hfails k hk), rfl, rfl, rfl⟩
    | some entered =>
        obtain ⟨l, e, rest⟩ := entered
        obtain ⟨before, heq, hbefore, htaken, hstop⟩ := entered?_eq_some_iff.1 hl
        rw [runChain_of_entered hl] at hx
        rcases hbody : run e (m.goto (l.opener + 1)) w with ⟨ok | err | _, m₁, w₁⟩
        · rw [hbody, leaveBlock, hls.passOver_eq before heq hstop] at hx
          cases hx
          exact Or.inl ⟨before, l, rest, e, m₁, heq,
            fun k hk => Link.taken_eq_false_iff.1 (hbefore k hk).2, Link.taken_eq_true_iff.1 htaken,
            hstop, hbody, rfl⟩
        · rw [hbody] at hx
          cases hx
        · rw [hbody] at hx
          cases hx
  · rintro (⟨before, l, rest, e, m₁, heq, hbefore, hl, hstop, hbody, rfl⟩ | ⟨hfails, rfl, rfl, rfl⟩)
    · have hentered : entered? ls m.env = some (l, e, rest) := by
        refine entered?_eq_some_iff.2 ⟨before, heq, ?_, Link.taken_eq_true_iff.2 hl, hstop⟩
        intro k hk
        refine ⟨hls.stop_ne_none k ?_, Link.taken_eq_false_iff.2 (hbefore k hk)⟩
        rw [heq]
        exact List.mem_append_left _ hk
      rw [runChain_of_entered hentered, hbody, leaveBlock, hls.passOver_eq before heq hstop]
    · exact hls.runChain_of_fails fun k hk => Link.taken_eq_false_iff.2 (hfails k hk)

/-! ### The loops behind a block -/

/-- A runner takes no loop off the stack that goes at least as far as the run does, and none below
it. -/
def RunnerStacks (run : Runner σ) : Prop :=
  ∀ ⦃stop : Nat⦄ ⦃m m' : Machine⦄ ⦃w w' : World σ⦄ ⦃ok : Bool⦄ ⦃base : List LoopFrame⦄,
    m.LoopsOK → base <:+ m.loops → (∀ f ∈ base, stop ≤ f.stop) →
    run stop m w = (.ok ok, m', w') → base <:+ m'.loops

variable {run : Runner σ} {m m' : Machine} {w w' : World σ} {r : Outcome Failure Bool}
  {base : List LoopFrame}

theorem LoopsOK.stack_runChain (hm : m.LoopsOK) (hrun : RunnerStacks run) (hs : m.next? = some s)
    (hk : s.keyword? = some .ifBranch) (hbase : base <:+ m.loops) (hgo : GoesOn r)
    (hx : runChain run (chain m.program m.pc s) (m.goto (m.pc + 1)) w = (r, m', w')) :
    base <:+ m'.loops := by
  rcases loops_runChain hgo hx with hloops | ⟨l, e, ok, m₁, w₁, hl, hstop, hbody, hloops⟩
  · rw [hloops]
    exact hbase
  · obtain ⟨hok, hbound⟩ := hm.enterBlock hs hk hl hstop
    rw [hloops]
    exact hrun hok hbase (fun f hf => Nat.le_of_lt (hbound f (hbase.subset hf)).2) hbody

/-- A statement before the stop takes off the stack a loop that ends before the stop, if any. -/
theorem LoopsOK.stack_proceeds (hm : m.LoopsOK) (hrun : RunnerStacks run) (hpc : m.pc < stop)
    (hs : m.next? = some s) (hbase : base <:+ m.loops) (hstop : ∀ f ∈ base, stop ≤ f.stop)
    (hgo : GoesOn r) (hx : Proceeds run m s w r m' w') : base <:+ m'.loops := by
  cases hx with
  | loop hk hx =>
      cases hx with
      | past => exact hbase
      | inside => exact hbase.trans (List.suffix_cons _ _)
  | close hk hx =>
      have hpop : ∀ f loops, m.loops = f :: loops → f.stop = m.pc → base <:+ loops := by
        intro f loops hloops hend
        rw [hloops] at hbase
        rcases List.suffix_cons_iff.1 hbase with rfl | hbase
        · have hle := hstop f List.mem_cons_self
          omega
        · exact hbase
      rcases closeBlock_cases m m.pc with hclosed | ⟨f, loops, hloops, hend, hclosed | hclosed⟩
      · rw [hx, hclosed]
        exact hbase
      · rw [hx, hclosed]
        exact hpop f loops hloops hend
      · rw [hx, hclosed]
        exact hpop f loops hloops hend
  | chain hk hx => exact hm.stack_runChain hrun hs hk hbase hgo hx
  | func hk hx =>
      cases hx
      exact hbase
  | plain hopens hcloses hw hx =>
      rw [hx]
      exact hbase

theorem stack_runFrom (h : Host σ) : ∀ (n : Nat) {stop : Nat} {ok ok' : Bool} {m m' : Machine}
    {w w' : World σ} {base : List LoopFrame}, m.LoopsOK → base <:+ m.loops →
    (∀ f ∈ base, stop ≤ f.stop) → runFrom h n ok stop m w = (.ok ok', m', w') →
    base <:+ m'.loops := by
  intro n
  induction n with
  | zero =>
      intro stop ok ok' m m' w w' base _ _ _ hx
      cases hx
  | succ n ih =>
      intro stop ok ok' m m' w w' base hm hbase hstop hx
      have hrun : RunnerStacks (Machine.run h n) :=
        fun _ _ _ _ _ _ _ hm hbase hstop hx => ih hm hbase hstop hx
      rw [runFrom_succ] at hx
      split at hx
      · next hpc =>
        rcases hstep : Machine.step h (Machine.run h n) m w with ⟨(ok₁ | _) | e | _, m₁, w₁⟩
        · rw [hstep] at hx
          obtain ⟨s, r, w₂, hs, hgo, hproceeds⟩ := proceeds_of_step hstep
          have hkeeps := hm.step (runsKeep h n).runner hs hstep
          exact ih hkeeps.ok (hm.stack_proceeds hrun hpc hs hbase hstop hgo hproceeds) hstop hx
        · rw [hstep] at hx
          cases hs : m.next? with
          | none =>
              simp only [Machine.step, hs] at hstep
              cases hstep
              cases hx
              exact hbase
          | some s => exact absurd (by rw [hstep]) (step_ne_done (h := h) (w := w) hs)
        · rw [hstep] at hx
          cases hx
        · rw [hstep] at hx
          cases hx
      · cases hx
        exact hbase

/-- The loops behind a block of a chain are those before the chain. -/
theorem Confined.loops_runs_block {n : Nat} {ok : Bool} (hm : Confined stop m)
    (hs : m.next? = some s) (hk : s.keyword? = some .ifBranch) {l : Link} {e : Nat}
    (hl : l ∈ chain m.program m.pc s) (hstop : l.stop = some e)
    (hx : Machine.run h n e (m.goto (l.opener + 1)) w = (.ok ok, m', w')) :
    m'.loops = m.loops := by
  have hchain := isChain_chain hs hk
  obtain ⟨hget, hwhile, hblock⟩ := hchain.of_mem l hl
  rw [hstop] at hblock
  have hlt := Program.blockEnd?_lt hblock
  obtain ⟨hok, hbound⟩ := hm.outside.loops.enterBlock hs hk hl hstop
  obtain ⟨hp, hok', -, -, hdone⟩ := (runsKeep h n).runner hok hblock (Nat.lt_succ_self _) hlt hx
  obtain ⟨new, hnew⟩ := stack_runFrom h n hok (List.suffix_refl m.loops)
    (fun f hf => Nat.le_of_lt (hbound f hf).2) hx
  have hp' : m'.program = m.program := hp
  -- A loop that is new on the stack would be around the chain, and so it was there before.
  have hnil : new = [] := by
    refine List.eq_nil_iff_forall_not_mem.2 ?_
    intro g hg
    have hgmem : g ∈ m'.loops := by
      rw [← hnew]
      exact List.mem_append_left _ hg
    obtain ⟨t, ht, hkt⟩ := hok'.loop g hgmem
    have hgblock := hok'.block g hgmem
    obtain ⟨hstart, hend⟩ := hok'.inside g hgmem
    rw [hdone ok rfl] at hstart hend
    rw [hp'] at ht hgblock
    have hbefore : g.start < l.opener := by
      rcases Nat.lt_trichotomy g.start l.opener with hlt' | heq | hgt
      · exact hlt'
      · rw [heq, hget] at ht
        cases ht
        exact absurd hkt hwhile
      · have hinner := Program.blockEnd?_nested hblock hgblock hgt hstart
        omega
    have hencloses : m.program.Encloses g.start g.stop m.pc :=
      hchain.encloses_of_mem hl ⟨hgblock, hbefore, by omega⟩
    obtain ⟨f, hf, hfstart⟩ := hm.running g.start g.stop t hencloses ht hkt
    have hnested := hok'.nested
    rw [← hnew] at hnested
    have hinside := ((List.pairwise_append.1 hnested).2.2 g hg f hf).1
    omega
  rw [← hnew, hnil]
  rfl

/-- A block of a chain that goes through takes its statements one by one. -/
theorem Confined.through_runs_block {n : Nat} {b : Bool} (hm : Confined stop m)
    (hs : m.next? = some s) (hk : s.keyword? = some .ifBranch) {l : Link} {e : Nat}
    (hl : l ∈ chain m.program m.pc s) (hstop : l.stop = some e)
    (hx : Machine.run h n e (m.goto (l.opener + 1)) w = (.ok b, m', w')) :
    ∃ oks : List Bool, Through h e (m.goto (l.opener + 1)) w oks m' w' ∧ b = oks.all id := by
  obtain ⟨-, -, hblock⟩ := (isChain_chain hs hk).of_mem l hl
  rw [hstop] at hblock
  have hsize := Program.blockEnd?_lt_size hblock
  have hok := (hm.outside.loops.enterBlock hs hk hl hstop).1
  exact through_of_runFrom n hok (Nat.le_of_lt hsize) hx

/-- An `if` that goes through has gone through a closed chain. -/
theorem execute_if_eq_ok_iff {b : Bool} (hs : m.next? = some s)
    (hk : s.keyword? = some .ifBranch) :
    execute h run (m.goto (m.pc + 1)) m.pc s w = (.ok b, m', w') ↔
      (m.scope.isMain || h.settings.conditionalsInFunctions) = true ∧
        ∃ ls last, ClosedChain m.program m.pc ls last ∧
          runChain run ls (m.goto (m.pc + 1)) w = (.ok b, m', w') := by
  have hexec : execute h run (m.goto (m.pc + 1)) m.pc s w =
      if m.scope.isMain || h.settings.conditionalsInFunctions then
        runChain run (chain m.program m.pc s) (m.goto (m.pc + 1)) w
      else (.raise .conditionalInFunction, m.goto (m.pc + 1), w) := by
    simp only [execute, hk, branch]
    rfl
  rw [hexec]
  constructor
  · intro hx
    split at hx
    · next hallowed =>
      obtain ⟨last, hls⟩ := closedChain_links _ hs (by omega) (stop_ne_none_of_runChain hx)
      exact ⟨hallowed, _, last, hls, hx⟩
    · cases hx
  · rintro ⟨hallowed, ls, last, hls, hx⟩
    rw [if_pos hallowed, hls.chain_eq hs]
    exact hx

end Machine

namespace Point

open Machine

/-- At every point of a run, in the program itself, in a block or in a call, an `if` goes through in
two ways only.  If there is a link whose guard holds, or an `else`, then the first such link is the
one whose block runs: the guards before it fail with the variables as they are when the chain is
entered, and those behind it do not matter, whatever the block does to the variables.  The flag is
true if those of all statements of the block are.  If there is no such link, nothing runs and the
flag is true.  Either way the machine goes on right behind the `end` of the last link, with the same
loops as before the chain. -/
theorem chain_runs_first_match (h : Host σ) (c : Context Program) (p : Program) (w : World σ)
    (x : Point σ) (hx : Reaches h (start c p w) x) (s : Statement) (hs : x.Dispatches s)
    (hk : s.keyword? = some .ifBranch) (b : Bool) (m' : Machine) (w' : World σ) :
    ((∃ n, execute h (run h n) (x.machine.goto (x.machine.pc + 1)) x.machine.pc s x.world =
        (.ok b, m', w')) ↔
      (x.machine.scope.isMain || h.settings.conditionalsInFunctions) = true ∧
      ∃ ls last, ClosedChain x.machine.program x.machine.pc ls last ∧
        ((∃ before l rest e oks m₁, ls = before ++ l :: rest ∧
            (∀ k ∈ before, k.Fails x.machine.env) ∧
            (l.statement.keyword? = some .elseBranch ∨ l.Holds x.machine.env) ∧ l.stop = some e ∧
            Through h e (x.machine.goto (l.opener + 1)) x.world oks m₁ w' ∧ b = oks.all id ∧
            m' = m₁.goto (last + 1)) ∨
          ((∀ k ∈ ls, k.Fails x.machine.env) ∧ b = true ∧ m' = x.machine.goto (last + 1) ∧
            w' = x.world))) ∧
    ∀ n, execute h (run h n) (x.machine.goto (x.machine.pc + 1)) x.machine.pc s x.world =
      (.ok b, m', w') → m'.loops = x.machine.loops := by
  have hconfined : Confined x.stop x.machine := hx.confined (confined_start c p p.size)
  refine ⟨⟨?_, ?_⟩, ?_⟩
  · rintro ⟨n, hexec⟩
    obtain ⟨hallowed, ls, last, hls, hchain⟩ := (execute_if_eq_ok_iff hs.2 hk).1 hexec
    refine ⟨hallowed, ls, last, hls, ?_⟩
    rcases hls.runChain_eq_ok_iff.1 hchain with
      ⟨before, l, rest, e, m₁, heq, hbefore, hl, hstop, hbody, hm'⟩ | hnone
    · obtain ⟨oks, hthrough, hb⟩ :=
        hconfined.through_runs_block hs.2 hk (hls.mem_chain hs.2 heq) hstop hbody
      exact Or.inl ⟨before, l, rest, e, oks, m₁, heq, hbefore, hl, hstop, hthrough, hb, hm'⟩
    · exact Or.inr hnone
  · rintro ⟨hallowed, ls, last, hls,
      ⟨before, l, rest, e, oks, m₁, heq, hbefore, hl, hstop, hthrough, rfl, hm'⟩ | hnone⟩
    · obtain ⟨-, n, hbody⟩ := hthrough.runs true
      refine ⟨n, (execute_if_eq_ok_iff hs.2 hk).2 ⟨hallowed, ls, last, hls, ?_⟩⟩
      exact hls.runChain_eq_ok_iff.2
        (Or.inl ⟨before, l, rest, e, m₁, heq, hbefore, hl, hstop, hbody, hm'⟩)
    · refine ⟨0, (execute_if_eq_ok_iff hs.2 hk).2 ⟨hallowed, ls, last, hls, ?_⟩⟩
      exact hls.runChain_eq_ok_iff.2 (Or.inr hnone)
  · intro n hexec
    obtain ⟨-, ls, last, hls, hchain⟩ := (execute_if_eq_ok_iff hs.2 hk).1 hexec
    rcases hls.runChain_eq_ok_iff.1 hchain with
      ⟨before, l, rest, e, m₁, heq, -, -, hstop, hbody, rfl⟩ | ⟨-, -, rfl, -⟩
    · show m₁.loops = x.machine.loops
      exact hconfined.loops_runs_block hs.2 hk (hls.mem_chain hs.2 heq) hstop hbody
    · rfl

/-- In a loop, the block of an `if` makes the guard of the next link hold, and the guard of the last
link is malformed.  Neither is asked. -/
theorem chain_runs_first_match_in_loop :
    let statement operation arguments : Statement := ⟨operation, arguments, operation, 1⟩
    let p := Program.ofStatements [statement "while" ["x", "is", "0", "do"],
      statement "if" ["x", "is", "1"], statement "decr" ["x"], statement "end" [],
      statement "elif" ["x", "is", "0"], statement "incr" ["x"], statement "end" [],
      statement "elif" [], statement "end" [], statement "end" []]
    let c : Context Program := { env := (∅ : Environment).insert "x" (.int 1) }
    let h : Host Unit := ⟨{}, fun _ u => (.error (.unknownFunction ""), u)⟩
    let x : Point Unit := (start c p { state := () }).after h 1
    x.Dispatches (statement "if" ["x", "is", "1"]) ∧ x.machine.loops.length = 1 ∧
      ∃ m' w', execute h (run h 2) (x.machine.goto (x.machine.pc + 1)) x.machine.pc
          (statement "if" ["x", "is", "1"]) x.world = (.ok true, m', w') ∧
        m'.env.get? "x" = some (.int 0) ∧ m'.pc = 9 ∧ m'.loops = x.machine.loops ∧
        ∃ before l rest last e oks m₁,
          ClosedChain x.machine.program x.machine.pc (before ++ l :: rest) last ∧
          l.stop = some e ∧ Through h e (x.machine.goto (l.opener + 1)) x.world oks m₁ w' ∧
          true = oks.all id ∧ m' = m₁.goto (last + 1) := by
  intro statement p c h x
  have hreaches : Reaches h (start c p { state := () }) x :=
    .single (.after (s := statement "while" ["x", "is", "0", "do"]) true
      ⟨by decide +kernel, by decide +kernel⟩ (by decide +kernel))
  have hs : x.Dispatches (statement "if" ["x", "is", "1"]) :=
    ⟨by decide +kernel, by decide +kernel⟩
  refine ⟨hs, by decide +kernel, ?_⟩
  have hok : (execute h (run h 2) (x.machine.goto (x.machine.pc + 1)) x.machine.pc
      (statement "if" ["x", "is", "1"]) x.world).1 = .ok true := by
    decide +kernel
  have hvalue : (execute h (run h 2) (x.machine.goto (x.machine.pc + 1)) x.machine.pc
      (statement "if" ["x", "is", "1"]) x.world).2.1.env.get? "x" = some (.int 0) := by
    decide +kernel
  have hpc : (execute h (run h 2) (x.machine.goto (x.machine.pc + 1)) x.machine.pc
      (statement "if" ["x", "is", "1"]) x.world).2.1.pc = 9 := by
    decide +kernel
  rcases hexec : execute h (run h 2) (x.machine.goto (x.machine.pc + 1)) x.machine.pc
    (statement "if" ["x", "is", "1"]) x.world with ⟨r, m', w'⟩
  rw [hexec] at hok hvalue hpc
  obtain rfl : r = .ok true := hok
  obtain ⟨hruns, hloops⟩ :=
    chain_runs_first_match h c p _ x hreaches _ hs (by decide +kernel) true m' w'
  refine ⟨m', w', rfl, hvalue, hpc, hloops 2 hexec, ?_⟩
  obtain ⟨-, ls, last, hls, hblock | hnone⟩ := hruns.1 ⟨2, hexec⟩
  · obtain ⟨before, l, rest, e, oks, m₁, rfl, -, -, hstop, hthrough, hoks, hm'⟩ := hblock
    exact ⟨before, l, rest, last, e, oks, m₁, hls, hstop, hthrough, hoks, hm'⟩
  · -- If no block had run, the variable would be as before.
    obtain ⟨-, -, rfl, -⟩ := hnone
    have hbefore : x.machine.env.get? "x" = some (.int 1) := by decide +kernel
    have hsame : x.machine.env.get? "x" = some (.int 0) := hvalue
    rw [hbefore] at hsame
    cases hsame

end Point

end BareBones
