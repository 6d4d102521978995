/-
Blocks are found by counting.

The block table is made in one pass from right to left, with the `end`s that are still free at hand.
To look up one block there is a plainer way: read on from its opener and count.  The block ends at
the first place where the statements that were read have one `end` more than openers.

The two agree in every list of statements, also where an `end` is stray or a block is never closed.
The reason is a fact about free `end`s alone: the first of them is where the count comes to one, the
second where it comes to two, and so on.
-/
import BareBones.Proofs.Blocks
import Mathlib.Order.Bounds.Basic

namespace BareBones

theorem Keyword.ofWord?_eq_some_iff {w : String} {k : Keyword} :
    ofWord? w = some k ↔ k.word = w := by
  refine ⟨word_of_ofWord?, ?_⟩
  rintro rfl
  exact ofWord?_word k

namespace Statement

variable {s : Statement}

/-- Five words open a block. -/
theorem opensBlock_iff :
    s.opensBlock = true ↔ s.operation ∈ ["while", "if", "elif", "else", "func"] := by
  unfold opensBlock keyword?
  rw [Option.any_eq_true]
  constructor
  · rintro ⟨k, hk, hopens⟩
    rw [← Keyword.word_of_ofWord? hk]
    revert hopens
    cases k <;> decide
  · intro hword
    simp only [List.mem_cons, List.not_mem_nil, or_false] at hword
    rcases hword with hword | hword | hword | hword | hword
    · exact ⟨.whileLoop, Keyword.ofWord?_eq_some_iff.2 hword.symm, rfl⟩
    · exact ⟨.ifBranch, Keyword.ofWord?_eq_some_iff.2 hword.symm, rfl⟩
    · exact ⟨.elifBranch, Keyword.ofWord?_eq_some_iff.2 hword.symm, rfl⟩
    · exact ⟨.elseBranch, Keyword.ofWord?_eq_some_iff.2 hword.symm, rfl⟩
    · exact ⟨.func, Keyword.ofWord?_eq_some_iff.2 hword.symm, rfl⟩

/-- One word closes a block. -/
theorem closesBlock_iff : s.closesBlock = true ↔ s.operation = "end" := by
  unfold closesBlock keyword?
  rw [beq_iff_eq, Keyword.ofWord?_eq_some_iff]
  exact eq_comm

end Statement

/-! ### Counting -/

/-- How many statements open a block. -/
def openers (ss : List Statement) : Nat :=
  ss.countP (·.operation ∈ ["while", "if", "elif", "else", "func"])

/-- How many statements are an `end`. -/
def closers (ss : List Statement) : Nat :=
  ss.countP (·.operation = "end")

theorem openers_cons (s : Statement) (ss : List Statement) :
    openers (s :: ss) = openers ss + if s.opensBlock = true then 1 else 0 := by
  unfold openers
  rw [List.countP_cons]
  simp only [decide_eq_true_eq, Statement.opensBlock_iff]

theorem closers_cons (s : Statement) (ss : List Statement) :
    closers (s :: ss) = closers ss + if s.closesBlock = true then 1 else 0 := by
  unfold closers
  rw [List.countP_cons]
  simp only [decide_eq_true_eq, Statement.closesBlock_iff]

/-- The first `k + 1` statements have `n + 1` more `end`s than openers. -/
def Surplus (ss : List Statement) (n k : Nat) : Prop :=
  closers (ss.take (k + 1)) = openers (ss.take (k + 1)) + (n + 1)

theorem not_surplus_nil (n k : Nat) : ¬ Surplus [] n k := by
  unfold Surplus
  simp [closers, openers]

variable {s : Statement} {ss : List Statement} {n : Nat}

theorem surplus_zero : Surplus (s :: ss) n 0 ↔ s.closesBlock = true ∧ n = 0 := by
  unfold Surplus
  rw [List.take_succ_cons, List.take_zero, closers_cons, openers_cons]
  by_cases hc : s.closesBlock = true
  · by_cases ho : s.opensBlock = true
    · rw [Statement.closesBlock_eq_false_of_opensBlock ho] at hc
      cases hc
    · simp [hc, ho, closers, openers, eq_comm]
  · simp [hc, closers, openers]

theorem surplus_succ_of_closes (hc : s.closesBlock = true) (k : Nat) :
    Surplus (s :: ss) (n + 1) (k + 1) ↔ Surplus ss n k := by
  have ho : ¬ s.opensBlock = true := by
    intro ho
    rw [Statement.closesBlock_eq_false_of_opensBlock ho] at hc
    cases hc
  unfold Surplus
  rw [List.take_succ_cons, closers_cons, openers_cons, if_pos hc, if_neg ho]
  omega

theorem surplus_succ_of_opens (ho : s.opensBlock = true) (k : Nat) :
    Surplus (s :: ss) n (k + 1) ↔ Surplus ss (n + 1) k := by
  have hc : ¬ s.closesBlock = true := by
    rw [Statement.closesBlock_eq_false_of_opensBlock ho]
    simp
  unfold Surplus
  rw [List.take_succ_cons, closers_cons, openers_cons, if_pos ho, if_neg hc]
  omega

theorem surplus_succ_of_plain (hc : s.closesBlock = false) (ho : s.opensBlock = false) (k : Nat) :
    Surplus (s :: ss) n (k + 1) ↔ Surplus ss n k := by
  unfold Surplus
  rw [List.take_succ_cons, closers_cons, openers_cons, hc, ho]
  simp

/-- What does not hold at zero holds first one behind where the rest holds first. -/
theorem isLeast_succ {P Q : Nat → Prop} (hzero : ¬ P 0) (hsucc : ∀ k, P (k + 1) ↔ Q k) {j : Nat} :
    IsLeast {k | P k} j ↔ ∃ k, j = k + 1 ∧ IsLeast {k | Q k} k := by
  constructor
  · rintro ⟨hj, hleast⟩
    cases j with
    | zero => exact absurd hj hzero
    | succ k =>
        refine ⟨k, rfl, (hsucc k).1 hj, ?_⟩
        intro i hi
        exact Nat.le_of_succ_le_succ (hleast ((hsucc i).2 hi))
  · rintro ⟨k, rfl, hk, hleast⟩
    refine ⟨(hsucc k).2 hk, ?_⟩
    intro i hi
    cases i with
    | zero => exact absurd hi hzero
    | succ i => exact Nat.succ_le_succ (hleast ((hsucc i).1 hi))

/-- The free `end` with number `n` is the first place where the count comes to `n + 1`. -/
theorem getElem?_freeEnds : ∀ (ss : List Statement) (a n e : Nat),
    (freeEnds a ss)[n]? = some e ↔ ∃ k, e = a + k ∧ IsLeast {k | Surplus ss n k} k := by
  intro ss
  induction ss with
  | nil =>
      intro a n e
      constructor
      · intro h
        cases h
      · rintro ⟨k, -, hk, -⟩
        exact absurd hk (not_surplus_nil n k)
  | cons s ss ih =>
      intro a n e
      -- Where the first statement is not yet the place, the count goes on behind it.
      have hnext : ∀ {n' : Nat}, ¬ Surplus (s :: ss) n 0 →
          (∀ k, Surplus (s :: ss) n (k + 1) ↔ Surplus ss n' k) →
          ((freeEnds (a + 1) ss)[n']? = some e ↔
            ∃ k, e = a + k ∧ IsLeast {k | Surplus (s :: ss) n k} k) := by
        intro n' hzero hsucc
        rw [ih]
        constructor
        · rintro ⟨k, rfl, hk⟩
          exact ⟨k + 1, by omega, (isLeast_succ hzero hsucc).2 ⟨k, rfl, hk⟩⟩
        · rintro ⟨j, rfl, hj⟩
          obtain ⟨k, rfl, hk⟩ := (isLeast_succ hzero hsucc).1 hj
          exact ⟨k, by omega, hk⟩
      by_cases hc : s.closesBlock = true
      · rw [freeEnds_cons_of_closes hc]
        cases n with
        | zero =>
            have hhere : IsLeast {k | Surplus (s :: ss) 0 k} 0 :=
              ⟨surplus_zero.2 ⟨hc, rfl⟩, fun k _ => Nat.zero_le k⟩
            constructor
            · intro h
              cases h
              exact ⟨0, rfl, hhere⟩
            · rintro ⟨k, rfl, hk⟩
              rw [hk.unique hhere]
              rfl
        | succ n =>
            rw [List.getElem?_cons_succ]
            refine hnext ?_ (surplus_succ_of_closes hc)
            rw [surplus_zero]
            rintro ⟨-, hn⟩
            cases hn
      · have hzero : ¬ Surplus (s :: ss) n 0 := fun h => hc (surplus_zero.1 h).1
        by_cases ho : s.opensBlock = true
        · rw [freeEnds_cons_of_opens ho, List.getElem?_tail]
          exact hnext hzero (surplus_succ_of_opens ho)
        · have hc : s.closesBlock = false := eq_false_of_ne_true hc
          have ho : s.opensBlock = false := eq_false_of_ne_true ho
          rw [freeEnds_cons_of_plain hc ho]
          exact hnext hzero (surplus_succ_of_plain hc ho)

/-! ### Blocks of a program -/

namespace Program

variable {p : Program}

/-- The statements behind the first address, up to and with the second. -/
def behind (p : Program) (a e : Nat) : List Statement :=
  (p.statements.toList.drop (a + 1)).take (e - a)

/-- The place where the count behind an opener first comes to one. -/
theorem isLeast_behind_iff {a e : Nat} :
    IsLeast {e | a < e ∧ closers (p.behind a e) = openers (p.behind a e) + 1} e ↔
      ∃ k, e = a + 1 + k ∧ IsLeast {k | Surplus (p.statements.toList.drop (a + 1)) 0 k} k := by
  have hplace : ∀ k, closers (p.behind a (a + 1 + k)) = openers (p.behind a (a + 1 + k)) + 1 ↔
      Surplus (p.statements.toList.drop (a + 1)) 0 k := by
    intro k
    unfold behind Surplus
    rw [show a + 1 + k - a = k + 1 by omega]
  constructor
  · rintro ⟨⟨hlt, hcount⟩, hleast⟩
    obtain ⟨k, rfl⟩ : ∃ k, e = a + 1 + k := ⟨e - (a + 1), by omega⟩
    refine ⟨k, rfl, (hplace k).1 hcount, ?_⟩
    intro i hi
    have hle := hleast ⟨by omega, (hplace i).2 hi⟩
    omega
  · rintro ⟨k, rfl, hk, hleast⟩
    refine ⟨⟨by omega, (hplace k).2 hk⟩, ?_⟩
    rintro e ⟨hlt, hcount⟩
    obtain ⟨i, rfl⟩ : ∃ i, e = a + 1 + i := ⟨e - (a + 1), by omega⟩
    have hle := hleast ((hplace i).1 hcount)
    omega

/-- Two blocks lie apart or one inside the other. -/
theorem blockEnd?_apart_or_nested {a b e f : Nat} (hae : p.blockEnd? a = some e)
    (hbf : p.blockEnd? b = some f) (hab : a < b) : e < b ∨ f < e := by
  obtain ⟨s, hs, ho, -⟩ := blockEnd?_eq_some_iff.1 hbf
  have hne := ne_of_blockEnd? hae hs (Statement.closesBlock_eq_false_of_opensBlock ho)
  rcases Nat.lt_or_ge e b with hlt | hge
  · exact Or.inl hlt
  · exact Or.inr (blockEnd?_nested hae hbf hab (by omega))

/-- In every list of statements, a block is opened at an address by one of five words, and it ends
at the first address behind it up to which there is one `end` more than there are openers; where
there is no such address, there is no block.  So a block ends behind its opener and in the program,
no two blocks share an `end`, and any two of them lie apart or one inside the other. -/
theorem block_ends_where_count_is_one (p : Program) :
    (∀ a e, p.blockEnd? a = some e ↔
      (∃ s, p.get? a = some s ∧ s.operation ∈ ["while", "if", "elif", "else", "func"]) ∧
        IsLeast {e | a < e ∧ closers (p.behind a e) = openers (p.behind a e) + 1} e) ∧
    (∀ a e, p.blockEnd? a = some e → a < e ∧ e < p.size) ∧
    (∀ a b e, p.blockEnd? a = some e → p.blockEnd? b = some e → a = b) ∧
    ∀ a b e f, p.blockEnd? a = some e → p.blockEnd? b = some f → a ≠ b →
      e < b ∨ f < a ∨ (a < b ∧ f < e) ∨ (b < a ∧ e < f) := by
  refine ⟨?_, ?_, ?_, ?_⟩
  · intro a e
    rw [blockEnd?_eq_some_iff, isLeast_behind_iff, ← getElem?_freeEnds, ← List.head?_eq_getElem?]
    simp only [Statement.opensBlock_iff]
    constructor
    · rintro ⟨s, hs, ho, hfree⟩
      exact ⟨⟨s, hs, ho⟩, hfree⟩
    · rintro ⟨⟨s, hs, ho⟩, hfree⟩
      exact ⟨s, hs, ho, hfree⟩
  · intro a e hae
    exact ⟨blockEnd?_lt hae, blockEnd?_lt_size hae⟩
  · intro a b e ha hb
    exact blockEnd?_inj ha hb
  · intro a b e f hae hbf hne
    rcases Nat.lt_or_gt_of_ne hne with hab | hba
    · rcases blockEnd?_apart_or_nested hae hbf hab with hlt | hlt
      · exact Or.inl hlt
      · exact Or.inr (Or.inr (Or.inl ⟨hab, hlt⟩))
    · rcases blockEnd?_apart_or_nested hbf hae hba with hlt | hlt
      · exact Or.inr (Or.inl hlt)
      · exact Or.inr (Or.inr (Or.inr ⟨hba, hlt⟩))

/-- A stray `end` and a loop that is never closed do not disturb the blocks between them. -/
example :
    let statement operation : Statement := ⟨operation, [], operation, 1⟩
    let p := ofStatements
      (["end", "while", "if", "func", "end", "end", "else", "end"].map statement)
    (List.range 8).map p.blockEnd? = [none, none, some 5, some 4, none, none, some 7, none] := by
  decide

end Program

end BareBones
