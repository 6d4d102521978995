/-
What the block table says.

The pass that makes the table goes from left to right, and what it does at an `end` depends on all
openers before it.  The same table can be made from right to left, and then it rests at each address
on one thing only: the `end`s from there on that close no block opened from there on.  An opener is
closed by the first of the `end`s that are free behind it.  `matchBlocks_eq` says that the two
tables are the same, and all that follows reads the second one, in which `freeFrom` names the free
`end`s.

Two facts are drawn from this.  Blocks are nested or apart, and no two of them share an `end`,
whether or not all blocks of the program are closed.  And a stretch of statements in which every
block is closed and every `end` closes one leaves the list as it is, so such a stretch can be
passed over as a whole.
-/
import BareBones.Program

namespace BareBones

/-- The block table of the statements from address `a` on, made from right to left, and the
addresses of the `end`s that close none of them. -/
def blockTable (a : Nat) : List Statement → List (Option Nat) × List Nat
  | [] => ([], [])
  | s :: ss =>
    let (table, free) := blockTable (a + 1) ss
    if s.closesBlock then (none :: table, a :: free)
    else if s.opensBlock then
      match free with
      | [] => (none :: table, [])
      | e :: free => (some e :: table, free)
    else (none :: table, free)

/-- The addresses of the `end`s that close none of the blocks of the statements from `a` on. -/
def freeEnds (a : Nat) (ss : List Statement) : List Nat :=
  (blockTable a ss).2

@[simp]
theorem freeEnds_nil (a : Nat) : freeEnds a [] = [] := rfl

theorem freeEnds_cons_of_closes {a : Nat} {s : Statement} {ss : List Statement}
    (h : s.closesBlock = true) : freeEnds a (s :: ss) = a :: freeEnds (a + 1) ss := by
  simp [freeEnds, blockTable, h]

theorem freeEnds_cons_of_opens {a : Nat} {s : Statement} {ss : List Statement}
    (h : s.opensBlock = true) : freeEnds a (s :: ss) = (freeEnds (a + 1) ss).tail := by
  have hc : s.closesBlock = false := Statement.closesBlock_eq_false_of_opensBlock h
  unfold freeEnds
  rw [blockTable]
  cases hfree : (blockTable (a + 1) ss).2 with
  | nil => simp [hc, h, hfree]
  | cons e free => simp [hc, h, hfree]

theorem freeEnds_cons_of_plain {a : Nat} {s : Statement} {ss : List Statement}
    (hc : s.closesBlock = false) (ho : s.opensBlock = false) :
    freeEnds a (s :: ss) = freeEnds (a + 1) ss := by
  simp [freeEnds, blockTable, hc, ho]

/-- A free `end` is free of an earlier statement, or that statement is it. -/
theorem mem_freeEnds_cons {a x : Nat} {s : Statement} {ss : List Statement}
    (h : x ∈ freeEnds a (s :: ss)) :
    (x = a ∧ s.closesBlock = true) ∨ x ∈ freeEnds (a + 1) ss := by
  by_cases hc : s.closesBlock = true
  · rw [freeEnds_cons_of_closes hc] at h
    rcases List.mem_cons.1 h with h | h
    · exact Or.inl ⟨h, hc⟩
    · exact Or.inr h
  · by_cases ho : s.opensBlock = true
    · rw [freeEnds_cons_of_opens ho] at h
      exact Or.inr (List.mem_of_mem_tail h)
    · rw [freeEnds_cons_of_plain (by simpa using hc) (by simpa using ho)] at h
      exact Or.inr h

theorem mem_freeEnds {x : Nat} : ∀ {ss : List Statement} {a : Nat}, x ∈ freeEnds a ss →
    a ≤ x ∧ ∃ s, ss[x - a]? = some s ∧ s.closesBlock = true := by
  intro ss
  induction ss with
  | nil => intro a h; simp at h
  | cons s ss ih =>
      intro a h
      rcases mem_freeEnds_cons h with ⟨rfl, hc⟩ | h
      · exact ⟨Nat.le_refl _, s, by simp, hc⟩
      · obtain ⟨hle, t, ht, hc⟩ := ih h
        refine ⟨by omega, t, ?_, hc⟩
        rw [show x - a = (x - (a + 1)) + 1 by omega, List.getElem?_cons_succ]
        exact ht

/-- Free `end`s stand in the order of their addresses. -/
theorem pairwise_freeEnds : ∀ (ss : List Statement) (a : Nat),
    (freeEnds a ss).Pairwise (· < ·) := by
  intro ss
  induction ss with
  | nil => intro a; simp
  | cons s ss ih =>
      intro a
      by_cases hc : s.closesBlock = true
      · rw [freeEnds_cons_of_closes hc]
        refine List.pairwise_cons.2 ⟨?_, ih (a + 1)⟩
        intro x hx
        exact (mem_freeEnds hx).1
      · by_cases ho : s.opensBlock = true
        · rw [freeEnds_cons_of_opens ho]
          exact (ih (a + 1)).tail
        · rw [freeEnds_cons_of_plain (by simpa using hc) (by simpa using ho)]
          exact ih (a + 1)

/-- An opener is closed by the first `end` that is free behind it, and nothing else is closed. -/
theorem blockTable_cons (a : Nat) (s : Statement) (ss : List Statement) :
    (blockTable a (s :: ss)).1 =
      (if s.opensBlock = true then (freeEnds (a + 1) ss).head? else none) ::
        (blockTable (a + 1) ss).1 := by
  unfold freeEnds
  rw [blockTable]
  by_cases ho : s.opensBlock = true
  · have hc : s.closesBlock = false := Statement.closesBlock_eq_false_of_opensBlock ho
    cases hfree : (blockTable (a + 1) ss).2 <;> simp [hc, ho, hfree]
  · by_cases hc : s.closesBlock = true <;> simp [hc, ho]

/-- The table of the statements behind the first `k` is what is left of the table. -/
theorem drop_blockTable : ∀ (k a : Nat) (ss : List Statement),
    (blockTable a ss).1.drop k = (blockTable (a + k) (ss.drop k)).1 := by
  intro k
  induction k with
  | zero => intro a ss; simp
  | succ k ih =>
      intro a ss
      cases ss with
      | nil => simp [blockTable]
      | cons s ss =>
          rw [blockTable_cons, List.drop_succ_cons, ih, List.drop_succ_cons,
            show a + 1 + k = a + (k + 1) by omega]

/-! ### One pass and the table -/

/-- The table in which the open blocks, the innermost first, are closed by the `end`s in order. -/
def closeOpened : List Nat → List Nat → List (Option Nat) → List (Option Nat)
  | opener :: opened, e :: free, table => closeOpened opened free (table.set opener (some e))
  | _, _, table => table

theorem closeOpened_nil_right (opened : List Nat) (table : List (Option Nat)) :
    closeOpened opened [] table = table := by
  cases opened <;> rfl

theorem closeOpened_append {rest : List (Option Nat)} : ∀ (opened free : List Nat)
    {table : List (Option Nat)}, (∀ o ∈ opened, o < table.length) →
    closeOpened opened free (table ++ rest) = closeOpened opened free table ++ rest := by
  intro opened
  induction opened with
  | nil =>
      intro free table _
      rfl
  | cons o opened ih =>
      intro free table hlt
      cases free with
      | nil => rfl
      | cons e free =>
          rw [closeOpened, closeOpened, List.set_append_left _ _ (hlt o List.mem_cons_self)]
          refine ih free ?_
          intro o' ho'
          rw [List.length_set]
          exact hlt o' (List.mem_cons_of_mem o ho')

/-- A block that is opened last is closed by the first `end`, and the others by those behind it. -/
theorem closeOpened_cons {opened free : List Nat} {table : List (Option Nat)}
    (hlt : ∀ o ∈ opened, o < table.length) :
    closeOpened (table.length :: opened) free (table ++ [none])
      = closeOpened opened free.tail table ++ [free.head?] := by
  cases free with
  | nil => rw [closeOpened_nil_right, List.tail_nil, closeOpened_nil_right, List.head?_nil]
  | cons e free =>
      have hset : (table ++ [none]).set table.length (some e) = table ++ [some e] := by simp
      rw [closeOpened, hset, closeOpened_append _ _ hlt]
      rfl

/-- What the pass adds to a table of the statements before: the open blocks are closed by the `end`s
that are free, and the other blocks are closed as in the table made from right to left. -/
theorem closeBlocks_eq : ∀ (ss : List Statement) {a : Nat} {opened : List Nat}
    {ends : Array (Option Nat)} {table : List (Option Nat)},
    ends.toList = table ++ List.replicate ss.length none → table.length = a →
    (∀ o ∈ opened, o < a) →
    (closeBlocks a opened ends ss).toList
      = closeOpened opened (freeEnds a ss) table ++ (blockTable a ss).1 := by
  intro ss
  induction ss with
  | nil =>
      intro a opened ends table hends _ _
      simpa [closeBlocks, closeOpened_nil_right, blockTable] using hends
  | cons s ss ih =>
      intro a opened ends table hends hlength hlt
      -- The table grows by the place of this statement, in which nothing stands so far.
      rw [List.length_cons, List.replicate_succ, List.append_cons] at hends
      have hgrown : ∀ {opened' : List Nat} {ends' : Array (Option Nat)}
          {table' : List (Option Nat)},
          ends'.toList = table' ++ [none] ++ List.replicate ss.length none → table'.length = a →
          (∀ o ∈ opened', o < a) →
          (closeBlocks (a + 1) opened' ends' ss).toList
            = closeOpened opened' (freeEnds (a + 1) ss) table' ++
                none :: (blockTable (a + 1) ss).1 := by
        intro opened' ends' table' hends' hlength' hlt'
        rw [ih hends' (by simp [hlength']) (fun o ho => Nat.lt_succ_of_lt (hlt' o ho)),
          closeOpened_append _ _ (hlength' ▸ hlt'), List.append_assoc, List.singleton_append]
      rw [closeBlocks, blockTable_cons]
      by_cases ho : s.opensBlock = true
      · have hopened : ∀ o ∈ a :: opened, o < a + 1 :=
          List.forall_mem_cons.2
            ⟨Nat.lt_succ_self a, fun o ho => Nat.lt_succ_of_lt (hlt o ho)⟩
        rw [if_pos ho, if_pos ho, freeEnds_cons_of_opens ho, ih hends (by simp [hlength]) hopened]
        subst hlength
        rw [closeOpened_cons hlt, List.append_assoc, List.singleton_append]
      · rw [if_neg ho, if_neg ho]
        by_cases hc : s.closesBlock = true
        · rw [if_pos hc, freeEnds_cons_of_closes hc]
          cases opened with
          | nil => exact hgrown hends hlength hlt
          | cons o opened =>
              have ho : o < table.length := hlength ▸ hlt o List.mem_cons_self
              have hset : (ends.setIfInBounds o (some a)).toList
                  = table.set o (some a) ++ [none] ++ List.replicate ss.length none := by
                rw [Array.toList_setIfInBounds, hends, List.append_assoc,
                  List.set_append_left _ _ ho, List.append_assoc]
              refine hgrown hset (by rw [List.length_set, hlength]) ?_
              exact fun o' ho' => hlt o' (List.mem_cons_of_mem o ho')
        · rw [if_neg hc, freeEnds_cons_of_plain (by simpa using hc) (by simpa using ho)]
          exact hgrown hends hlength hlt

/-- The pass from left to right and the one from right to left make the same table. -/
theorem matchBlocks_eq (ss : List Statement) : matchBlocks ss = (blockTable 0 ss).1.toArray := by
  have htable := @closeBlocks_eq ss 0 [] (Array.replicate ss.length none) [] (by simp) rfl (by simp)
  rw [← Array.toList_inj, matchBlocks, htable]
  rfl

namespace Program

variable {p : Program}

/-- The addresses of the `end`s from `a` on that close no block opened from `a` on. -/
def freeFrom (p : Program) (a : Nat) : List Nat :=
  freeEnds a (p.statements.toList.drop a)

theorem drop_eq_cons {a : Nat} {s : Statement} (h : p.get? a = some s) :
    p.statements.toList.drop a = s :: p.statements.toList.drop (a + 1) := by
  unfold get? at h
  obtain ⟨hlt, hval⟩ := Array.getElem?_eq_some_iff.1 h
  rw [List.drop_eq_getElem_cons (by simpa using hlt)]
  simp [hval]

theorem get?_lt {a : Nat} {s : Statement} (h : p.get? a = some s) : a < p.size := by
  unfold get? at h
  exact (Array.getElem?_eq_some_iff.1 h).1

theorem get?_eq_none_iff {a : Nat} : p.get? a = none ↔ p.size ≤ a := by
  unfold get? size
  exact Array.getElem?_eq_none_iff

/-- An opener is closed by the first `end` that is free behind it; nothing else is closed. -/
theorem blockEnd?_eq {a : Nat} {s : Statement} (h : p.get? a = some s) :
    p.blockEnd? a = if s.opensBlock = true then (p.freeFrom (a + 1)).head? else none := by
  have htable : p.blockEnds[a]? = (blockTable a (p.statements.toList.drop a)).1.head? := by
    rw [p.blockEnds_eq, matchBlocks_eq, List.getElem?_toArray]
    have hdrop := drop_blockTable a 0 p.statements.toList
    rw [Nat.zero_add] at hdrop
    rw [← hdrop, List.head?_drop]
  unfold blockEnd?
  rw [htable, drop_eq_cons h, blockTable_cons]
  rfl

theorem blockEnd?_eq_some_iff {a e : Nat} : p.blockEnd? a = some e ↔
    ∃ s, p.get? a = some s ∧ s.opensBlock = true ∧ (p.freeFrom (a + 1)).head? = some e := by
  cases hs : p.get? a with
  | none =>
      have hle : p.size ≤ a := get?_eq_none_iff.1 hs
      have hnone : p.blockEnds[a]? = none := by
        rw [Array.getElem?_eq_none_iff, p.blockEnds_eq, matchBlocks_eq, List.size_toArray]
        have hdrop := drop_blockTable a 0 p.statements.toList
        have hnil : p.statements.toList.drop a = [] :=
          List.drop_eq_nil_of_le (by simpa [size] using hle)
        rw [hnil] at hdrop
        exact List.drop_eq_nil_iff.1 hdrop
      simp [blockEnd?, hnone]
  | some s =>
      rw [blockEnd?_eq hs]
      by_cases ho : s.opensBlock = true <;> simp [ho]

theorem mem_freeFrom {a x : Nat} (h : x ∈ p.freeFrom a) :
    a ≤ x ∧ ∃ s, p.get? x = some s ∧ s.closesBlock = true := by
  obtain ⟨hle, s, hs, hc⟩ := mem_freeEnds h
  refine ⟨hle, s, ?_, hc⟩
  rw [List.getElem?_drop, show a + (x - a) = x by omega] at hs
  simpa [get?] using hs

/-- What is free from an address on is free from every later address on that it lies behind. -/
theorem mem_freeFrom_of_le {x : Nat} : ∀ (k : Nat) {a : Nat}, x ∈ p.freeFrom a → a + k ≤ x →
    x ∈ p.freeFrom (a + k) := by
  intro k
  induction k with
  | zero => intro a h _; exact h
  | succ k ih =>
      intro a h hle
      cases hs : p.get? a with
      | none =>
          have hsize : p.size ≤ a := get?_eq_none_iff.1 hs
          unfold freeFrom at h
          rw [List.drop_eq_nil_of_le (by simpa [size] using hsize)] at h
          simp at h
      | some s =>
          have hnext : x ∈ p.freeFrom (a + 1) := by
            unfold freeFrom at h
            rw [drop_eq_cons hs] at h
            rcases mem_freeEnds_cons h with ⟨rfl, -⟩ | h
            · omega
            · exact h
          have := ih hnext (by omega)
          rwa [show a + 1 + k = a + (k + 1) by omega] at this

/-! ### Blocks -/

/-- The `end` of a block stands behind its opener. -/
theorem blockEnd?_lt {a e : Nat} (h : p.blockEnd? a = some e) : a < e := by
  obtain ⟨-, -, -, hhead⟩ := blockEnd?_eq_some_iff.1 h
  exact (mem_freeFrom (List.mem_of_mem_head? hhead)).1

theorem closes_of_blockEnd? {a e : Nat} (h : p.blockEnd? a = some e) :
    ∃ s, p.get? e = some s ∧ s.closesBlock = true := by
  obtain ⟨-, -, -, hhead⟩ := blockEnd?_eq_some_iff.1 h
  exact (mem_freeFrom (List.mem_of_mem_head? hhead)).2

theorem blockEnd?_lt_size {a e : Nat} (h : p.blockEnd? a = some e) : e < p.size := by
  obtain ⟨s, hs, -⟩ := closes_of_blockEnd? h
  exact get?_lt hs

/-- A block that starts inside another one ends inside it. -/
theorem blockEnd?_nested {a e b f : Nat} (hae : p.blockEnd? a = some e)
    (hbf : p.blockEnd? b = some f) (hab : a < b) (hbe : b < e) : f < e := by
  obtain ⟨-, -, -, hhead⟩ := blockEnd?_eq_some_iff.1 hae
  obtain ⟨s, hs, ho, hf⟩ := blockEnd?_eq_some_iff.1 hbf
  -- The `end` of the outer block is still free at `b`, where `f` has just been taken.
  have he : e ∈ p.freeFrom b := by
    have := mem_freeFrom_of_le (b - (a + 1)) (List.mem_of_mem_head? hhead) (by omega)
    rwa [show a + 1 + (b - (a + 1)) = b by omega] at this
  unfold freeFrom at he
  rw [drop_eq_cons hs, freeEnds_cons_of_opens ho] at he
  have hsorted := pairwise_freeEnds (p.statements.toList.drop (b + 1)) (b + 1)
  unfold freeFrom at hf
  cases hfree : freeEnds (b + 1) (p.statements.toList.drop (b + 1)) with
  | nil => rw [hfree] at hf; simp at hf
  | cons x free =>
      rw [hfree] at hf he hsorted
      simp only [List.head?_cons, Option.some.injEq] at hf
      rw [← hf]
      exact (List.pairwise_cons.1 hsorted).1 e he

/-- No two blocks share an `end`. -/
theorem blockEnd?_inj {a b e : Nat} (ha : p.blockEnd? a = some e) (hb : p.blockEnd? b = some e) :
    a = b := by
  have hlta := blockEnd?_lt ha
  have hltb := blockEnd?_lt hb
  rcases Nat.lt_trichotomy a b with h | h | h
  · have := blockEnd?_nested ha hb h hltb
    omega
  · exact h
  · have := blockEnd?_nested hb ha h hlta
    omega

/-- An address that opens a block is not the `end` of one. -/
theorem ne_of_blockEnd? {a e : Nat} {s : Statement} (h : p.blockEnd? a = some e) {b : Nat}
    (hs : p.get? b = some s) (hc : s.closesBlock = false) : b ≠ e := by
  rintro rfl
  obtain ⟨s', hs', hc'⟩ := closes_of_blockEnd? h
  rw [hs] at hs'
  simp only [Option.some.injEq] at hs'
  rw [← hs', hc] at hc'
  simp at hc'

end Program

/-! ### Stretches without loose ends -/

/-- Every block of the statements is closed by one of them, and every `end` closes one. -/
def Balanced (ss : List Statement) : Prop :=
  ∀ (a : Nat) (rest : List Statement), freeEnds a (ss ++ rest) = freeEnds (a + ss.length) rest

theorem balanced_nil : Balanced [] := by
  intro a rest
  rfl

theorem balanced_single {s : Statement} (hc : s.closesBlock = false) (ho : s.opensBlock = false) :
    Balanced [s] := by
  intro a rest
  exact freeEnds_cons_of_plain hc ho

theorem Balanced.append {ss ts : List Statement} (hs : Balanced ss) (ht : Balanced ts) :
    Balanced (ss ++ ts) := by
  intro a rest
  rw [List.append_assoc, hs, ht, List.length_append, Nat.add_assoc]

/-- The statements of one block: the opener, the body and the `end`. -/
theorem Balanced.block {opener closer : Statement} {body : List Statement}
    (ho : opener.opensBlock = true) (hc : closer.closesBlock = true) (hb : Balanced body) :
    Balanced (opener :: (body ++ [closer])) := by
  intro a rest
  have hassoc : opener :: (body ++ [closer]) ++ rest = opener :: (body ++ (closer :: rest)) := by
    simp
  rw [hassoc, freeEnds_cons_of_opens ho, hb, freeEnds_cons_of_closes hc, List.tail_cons]
  congr 1
  simp only [List.length_cons, List.length_append, List.length_nil]
  omega

/-- The opener of a block whose body is balanced is closed by the `end` right behind the body. -/
theorem Program.blockEnd?_of_balanced {p : Program} {a : Nat} {opener closer : Statement}
    {body rest : List Statement} (ho : opener.opensBlock = true)
    (hc : closer.closesBlock = true) (hb : Balanced body)
    (h : p.statements.toList.drop a = opener :: (body ++ closer :: rest)) :
    p.blockEnd? a = some (a + 1 + body.length) := by
  have hget : p.get? a = some opener := by
    have hhead := congrArg List.head? h
    rw [List.head?_drop] at hhead
    simpa [get?] using hhead
  have htail : p.statements.toList.drop (a + 1) = body ++ closer :: rest := by
    have := drop_eq_cons hget
    rw [h] at this
    exact (List.cons.inj this).2.symm
  rw [blockEnd?_eq hget, if_pos ho]
  unfold freeFrom
  rw [htail, hb, freeEnds_cons_of_closes hc]
  rfl

end BareBones
