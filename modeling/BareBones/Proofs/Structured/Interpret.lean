/-
Running a structured program by recursion on its items.

There is no program counter and no stack of loops here.  Items run in order up to the first error.
A loop is passed over if its guard holds; otherwise its body runs, and then the guard as it was
resolved at the start is looked at once more: if it does not hold, the whole loop runs again.  A
chain runs the first block whose guard holds, or the last one if that needs no guard.  The
definition of a function puts its body, as a tree, into the table.  A call runs that tree.

Addresses are kept for one reason only: errors name the address of the statement they come from,
and functions the addresses of their bodies.
-/
import BareBones.Proofs.Fuel
import BareBones.Proofs.Structured.Tree

namespace BareBones.Structured

variable {σ : Type}

/-- What running a part of a structured program comes to. -/
abbrev Result (ε σ : Type) := Outcome ε Bool × Context Tree × World σ

/-- Goes on with the rest behind what ran through.  The flag is that of both. -/
def andThen (x : Result StatementError σ)
    (rest : Context Tree → World σ → Result StatementError σ) : Result StatementError σ :=
  match x with
  | (.ok ok, c, w) =>
    match rest c w with
    | (.ok ok', c, w) => (.ok (ok && ok'), c, w)
    | x => x
  | x => x

/-- The outcome of a body to the statement that it belongs to. -/
def nested : Result StatementError σ → Result Failure σ
  | (.ok ok, c, w) => (.ok ok, c, w)
  | (.failed e, c, w) => (.failed (.nested e), c, w)
  | (.outOfFuel, c, w) => (.outOfFuel, c, w)

/-- What the outcome of the statement at the address means for the run. -/
def settled (h : Host σ) (a : Nat) (s : Statement) : Result Failure σ → Result StatementError σ
  | (r, c, w) =>
    match c.settle h a s r w with
    | (r, w) => (r, c, w)

/-- The definition of a function whose body starts behind the address. -/
def defined (a : Nat) (s : Statement) (body : Tree) (c : Context Tree) (w : World σ) :
    Result Failure σ :=
  if c.scope.isMain then
    match Function.ofHead s body body.program.sourceText a (a + 1 + (flattenAll body).length) with
    | .error e => (.raise e, c, w)
    | .ok f => (.ok true, { c with functions := c.functions.insert f.name f }, w)
  else (.raise .nestedFunction, c, w)

mutual

/-- Runs items, the first of which starts at the address. -/
def runItems (h : Host σ) : Nat → Nat → Tree → Context Tree → World σ → Result StatementError σ
  | 0, _, _, c, w => (.outOfFuel, c, w)
  | _ + 1, _, [], c, w => (.ok true, c, w)
  | fuel + 1, a, i :: is, c, w =>
    andThen (runItem h fuel a i c w) fun c w => runItems h fuel (a + i.flatten.length) is c w

/-- Runs the item that starts at the address. -/
def runItem (h : Host σ) : Nat → Nat → Item → Context Tree → World σ → Result StatementError σ
  | 0, _, _, c, w => (.outOfFuel, c, w)
  | fuel + 1, a, .plain s, c, w =>
    settled h a s.statement
      (c.execute h (fun body c w => runItems h fuel 0 body c w) s.statement w)
  | fuel + 1, a, .loop head body tail, c, w =>
    match Guard.resolve Keyword.whileLoop.word head.statement.arguments c.env with
    | .error e => settled h a head.statement (.raise e, c, w)
    | .ok g =>
      if g.holds c.env then (.ok true, c, w)
      else
        andThen (runItems h fuel (a + 1) body c w) fun c w =>
          if g.holds c.env then (.ok true, c, w)
          else runItem h fuel a (.loop head body tail) c w
  | fuel + 1, a, .chain head body _ rest, c, w =>
    settled h a head.statement
      (if c.scope.isMain || h.settings.conditionalsInFunctions then
        runBranches h fuel a head.statement body rest c w
      else (.raise .conditionalInFunction, c, w))
  | _ + 1, a, .func head body _, c, w =>
    settled h a head.statement (defined a head.statement body c w)

/-- Runs the chain whose first block is opened by the statement at the address. -/
def runBranches (h : Host σ) : Nat → Nat → Statement → Tree → Links → Context Tree → World σ →
    Result Failure σ
  | 0, _, _, _, _, c, w => (.outOfFuel, c, w)
  | fuel + 1, a, s, body, rest, c, w =>
    match Guard.resolve s.operation s.arguments c.env with
    | .error e => (.raise e, c, w)
    | .ok g =>
      if g.holds c.env then nested (runItems h fuel (a + 1) body c w)
      else
        -- The next link stands right behind the `end` of this one.
        let a := a + 1 + (flattenAll body).length + 1
        match rest with
        | .none => (.ok true, c, w)
        | .elif head body _ rest => runBranches h fuel a head.statement body rest c w
        | .otherwise _ body _ => nested (runItems h fuel (a + 1) body c w)

end

/-- Runs a whole structured program. -/
def runTree (h : Host σ) (fuel : Nat) (t : Tree) (c : Context Tree) (w : World σ) :
    Result StatementError σ :=
  match runItems h fuel 0 t c (c.publish h .initial w) with
  | (.ok ok, c, w) => (.ok ok, c, c.publish h .final w)
  | x => x

/-! ### More fuel changes nothing that is finished -/

variable {h : Host σ}

theorem andThen_mono {x x' : Result StatementError σ}
    {k k' : Context Tree → World σ → Result StatementError σ} (hx : x.1 ≠ .outOfFuel → x' = x)
    (hk : ∀ c w, (k c w).1 ≠ .outOfFuel → k' c w = k c w) (hfin : (andThen x k).1 ≠ .outOfFuel) :
    andThen x' k' = andThen x k := by
  obtain ⟨r, c, w⟩ := x
  cases r with
  | outOfFuel => exact absurd rfl hfin
  | failed e => rw [hx (by simp)]; rfl
  | ok ok =>
      rw [hx (by simp)]
      have hrest : (k c w).1 ≠ .outOfFuel := by
        intro hout
        rcases hr : k c w with ⟨r, c', w'⟩
        simp only [andThen, hr] at hfin
        rw [hr] at hout
        cases hout
        exact hfin rfl
      simp only [andThen, hk c w hrest]

theorem nested_ne {x : Result StatementError σ} (hfin : (nested x).1 ≠ .outOfFuel) :
    x.1 ≠ .outOfFuel := by
  obtain ⟨r, c, w⟩ := x
  rintro rfl
  exact hfin rfl

theorem settled_ne {a : Nat} {s : Statement} {x : Result Failure σ}
    (hfin : (settled h a s x).1 ≠ .outOfFuel) : x.1 ≠ .outOfFuel := by
  obtain ⟨r, c, w⟩ := x
  rintro rfl
  exact hfin rfl

/-- The larger fuel does not change what is finished, for items, an item and a chain alike. -/
structure Agrees (h : Host σ) (n n' : Nat) : Prop where
  items : ∀ a t c w, (runItems h n a t c w).1 ≠ .outOfFuel →
    runItems h n' a t c w = runItems h n a t c w
  item : ∀ a i c w, (runItem h n a i c w).1 ≠ .outOfFuel →
    runItem h n' a i c w = runItem h n a i c w
  branches : ∀ a s body rest c w, (runBranches h n a s body rest c w).1 ≠ .outOfFuel →
    runBranches h n' a s body rest c w = runBranches h n a s body rest c w

variable {n n' a : Nat} {c : Context Tree} {w : World σ}

theorem Agrees.items_succ (ih : Agrees h n n') {t : Tree}
    (hfin : (runItems h (n + 1) a t c w).1 ≠ .outOfFuel) :
    runItems h (n' + 1) a t c w = runItems h (n + 1) a t c w := by
  cases t with
  | nil => simp only [runItems]
  | cons i is =>
      simp only [runItems] at hfin ⊢
      exact andThen_mono (ih.item a i c w) (fun c w => ih.items _ is c w) hfin

theorem Agrees.loop_succ (ih : Agrees h n n') {head : Headed .whileLoop} {body : Tree}
    {tail : Headed .endBlock}
    (hfin : (runItem h (n + 1) a (.loop head body tail) c w).1 ≠ .outOfFuel) :
    runItem h (n' + 1) a (.loop head body tail) c w
      = runItem h (n + 1) a (.loop head body tail) c w := by
  simp only [runItem] at hfin ⊢
  cases hg : Guard.resolve Keyword.whileLoop.word head.statement.arguments c.env with
  | error e => rfl
  | ok g =>
      simp only [hg] at hfin ⊢
      split at hfin
      · next hholds => rw [if_pos hholds, if_pos hholds]
      · next hholds =>
        rw [if_neg hholds, if_neg hholds]
        refine andThen_mono (ih.items (a + 1) body c w) ?_ hfin
        intro c w hrest
        split at hrest
        · next hholds => rw [if_pos hholds, if_pos hholds]
        · next hholds =>
          rw [if_neg hholds, if_neg hholds]
          exact ih.item a _ c w hrest

theorem Agrees.item_succ (ih : Agrees h n n') {i : Item}
    (hfin : (runItem h (n + 1) a i c w).1 ≠ .outOfFuel) :
    runItem h (n' + 1) a i c w = runItem h (n + 1) a i c w := by
  cases i with
  | plain s =>
      simp only [runItem] at hfin ⊢
      rw [Context.execute_mono (fun b c w => ih.items 0 b c w) (settled_ne hfin)]
  | loop head body tail => exact ih.loop_succ hfin
  | chain head body tail rest =>
      simp only [runItem] at hfin ⊢
      have hne := settled_ne hfin
      split at hne
      · next hallowed =>
        rw [if_pos hallowed, if_pos hallowed, ih.branches _ _ _ _ _ _ hne]
      · next hallowed => rw [if_neg hallowed, if_neg hallowed]
  | func head body tail => simp only [runItem]

theorem Agrees.branches_succ (ih : Agrees h n n') {s : Statement} {body : Tree} {rest : Links}
    (hfin : (runBranches h (n + 1) a s body rest c w).1 ≠ .outOfFuel) :
    runBranches h (n' + 1) a s body rest c w = runBranches h (n + 1) a s body rest c w := by
  simp only [runBranches] at hfin ⊢
  cases hg : Guard.resolve s.operation s.arguments c.env with
  | error e => rfl
  | ok g =>
      simp only [hg] at hfin ⊢
      split at hfin
      · next hholds =>
        rw [if_pos hholds, if_pos hholds, ih.items _ _ _ _ (nested_ne hfin)]
      · next hholds =>
        rw [if_neg hholds, if_neg hholds]
        cases rest with
        | none => rfl
        | elif head body' tail rest => exact ih.branches _ _ _ _ _ _ hfin
        | otherwise head body' tail =>
            simp only at hfin ⊢
            rw [ih.items _ _ _ _ (nested_ne hfin)]

theorem agrees_of_le (h : Host σ) : ∀ {n n' : Nat}, n ≤ n' → Agrees h n n' := by
  intro n
  induction n with
  | zero =>
      intro n' _
      refine ⟨?_, ?_, ?_⟩
      · intro a t c w hfin; rw [runItems] at hfin; exact absurd rfl hfin
      · intro a i c w hfin; rw [runItem] at hfin; exact absurd rfl hfin
      · intro a s body rest c w hfin; rw [runBranches] at hfin; exact absurd rfl hfin
  | succ n ih =>
      intro n' hn
      obtain ⟨n', rfl⟩ : ∃ k, n' = k + 1 := ⟨n' - 1, by omega⟩
      have hagrees := ih (show n ≤ n' by omega)
      exact ⟨fun _ _ _ _ => hagrees.items_succ, fun _ _ _ _ => hagrees.item_succ,
        fun _ _ _ _ _ _ => hagrees.branches_succ⟩

theorem runItems_mono (hn : n ≤ n') {t : Tree} (hfin : (runItems h n a t c w).1 ≠ .outOfFuel) :
    runItems h n' a t c w = runItems h n a t c w :=
  (agrees_of_le h hn).items a t c w hfin

theorem runItem_mono (hn : n ≤ n') {i : Item} (hfin : (runItem h n a i c w).1 ≠ .outOfFuel) :
    runItem h n' a i c w = runItem h n a i c w :=
  (agrees_of_le h hn).item a i c w hfin

end BareBones.Structured
