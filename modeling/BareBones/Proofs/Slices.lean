/-
A part of a program has the blocks that lie in it.

The block table of a slice is made from its own statements.  There an opener may have lost its
`end`, and an `end` its opener.  Still the table is the one of the program, as far as it reaches.
An `end` that is free from an address on is free whatever stands in front of it, and where
statements are cut off at the end, the free `end`s are those of all the statements up to the cut: an
opener whose `end` is gone takes none of the others, since they all stand in front of its own.

Between an opener and its `end` nothing is lost.  What is opened there is closed there, so in the
body of a function every block is that of the program.
-/
import BareBones.Proofs.Blocks

namespace BareBones

/-! ### Statements at other addresses -/

/-- Free `end`s move with the statements. -/
theorem freeEnds_add (k : Nat) : ∀ (ss : List Statement) (a : Nat),
    freeEnds (k + a) ss = (freeEnds a ss).map (k + ·) := by
  intro ss
  induction ss with
  | nil => intro a; rfl
  | cons s ss ih =>
      intro a
      have hnext : freeEnds (k + a + 1) ss = (freeEnds (a + 1) ss).map (k + ·) := ih (a + 1)
      by_cases hc : s.closesBlock = true
      · rw [freeEnds_cons_of_closes hc, freeEnds_cons_of_closes hc, hnext, List.map_cons]
      · by_cases ho : s.opensBlock = true
        · rw [freeEnds_cons_of_opens ho, freeEnds_cons_of_opens ho, hnext, List.map_tail]
        · have hc : s.closesBlock = false := eq_false_of_ne_true hc
          have ho : s.opensBlock = false := eq_false_of_ne_true ho
          rw [freeEnds_cons_of_plain hc ho, freeEnds_cons_of_plain hc ho, hnext]

/-! ### Statements that are cut off -/

/-- Of a list in order, the first entry can be dropped before or after it is cut at a bound. -/
theorem tail_takeWhile_lt {n : Nat} {xs : List Nat} (hxs : xs.Pairwise (· < ·)) :
    (xs.takeWhile (· < n)).tail = xs.tail.takeWhile (· < n) := by
  cases xs with
  | nil => rfl
  | cons x xs =>
      by_cases hx : x < n
      · rw [List.takeWhile_cons_of_pos (by simpa using hx)]
        rfl
      · rw [List.takeWhile_cons_of_neg (by simpa using hx), List.tail_nil, List.tail_cons]
        cases xs with
        | nil => rfl
        | cons y ys =>
            have hxy : x < y := (List.pairwise_cons.1 hxs).1 y List.mem_cons_self
            rw [List.takeWhile_cons_of_neg (by simp; omega)]

/-- The free `end`s of the first statements are those of all of them, up to the cut. -/
theorem freeEnds_take : ∀ (n : Nat) (ss : List Statement) (a : Nat),
    freeEnds a (ss.take n) = (freeEnds a ss).takeWhile (· < a + n) := by
  intro n
  induction n with
  | zero =>
      intro ss a
      cases hfree : freeEnds a ss with
      | nil => rfl
      | cons x xs =>
          have hle : a ≤ x := (mem_freeEnds (hfree ▸ List.mem_cons_self)).1
          rw [List.takeWhile_cons_of_neg (by simp; omega)]
          rfl
  | succ n ih =>
      intro ss a
      cases ss with
      | nil => rfl
      | cons s ss =>
          have hnext : freeEnds (a + 1) (ss.take n)
              = (freeEnds (a + 1) ss).takeWhile (· < a + (n + 1)) := by
            rw [ih, show a + 1 + n = a + (n + 1) by omega]
          rw [List.take_succ_cons]
          by_cases hc : s.closesBlock = true
          · rw [freeEnds_cons_of_closes hc, freeEnds_cons_of_closes hc, hnext,
              List.takeWhile_cons_of_pos (by simp)]
          · by_cases ho : s.opensBlock = true
            · -- The opener takes the first free `end` on both sides, or its `end` is cut off.
              rw [freeEnds_cons_of_opens ho, freeEnds_cons_of_opens ho, hnext,
                tail_takeWhile_lt (pairwise_freeEnds ss (a + 1))]
            · have hc : s.closesBlock = false := eq_false_of_ne_true hc
              have ho : s.opensBlock = false := eq_false_of_ne_true ho
              rw [freeEnds_cons_of_plain hc ho, freeEnds_cons_of_plain hc ho, hnext]

/-! ### Slices of a program -/

namespace Program

variable {p : Program} {start stop : Nat}

theorem get?_slice (p : Program) (start stop i : Nat) :
    (p.slice start stop).get? i = if start + i < stop then p.get? (start + i) else none := by
  have hlist : (p.slice start stop).get? i
      = ((p.statements.toList.drop start).take (stop - start))[i]? := by
    simp [slice, ofStatements, get?]
  rw [hlist, List.getElem?_take, List.getElem?_drop]
  by_cases hlt : start + i < stop
  · rw [if_pos hlt, if_pos (by omega)]
    simp [get?]
  · rw [if_neg hlt, if_neg (by omega)]

theorem size_slice (hstop : stop ≤ p.size) : (p.slice start stop).size = stop - start := by
  have hsize : (p.slice start stop).size = min (stop - start) (p.size - start) := by
    simp [slice, ofStatements, size]
  omega

/-- The free `end`s of a slice are those of the program, up to where the slice ends. -/
theorem freeFrom_slice {i : Nat} (hi : start + i ≤ stop) :
    ((p.slice start stop).freeFrom i).map (start + ·)
      = (p.freeFrom (start + i)).takeWhile (· < stop) := by
  have hlist : (p.slice start stop).statements.toList.drop i
      = (p.statements.toList.drop (start + i)).take (stop - (start + i)) := by
    have hslice : (p.slice start stop).statements.toList
        = (p.statements.toList.drop start).take (stop - start) := rfl
    rw [hslice, List.drop_take, List.drop_drop, Nat.sub_sub]
  unfold freeFrom
  rw [hlist, ← freeEnds_add, freeEnds_take, show start + i + (stop - (start + i)) = stop by omega]

/-- The first of them is the first one of the program, if the slice goes on behind it. -/
theorem head?_freeFrom_slice {i j : Nat} (hi : start + i ≤ stop) :
    ((p.slice start stop).freeFrom i).head? = some j ↔
      (p.freeFrom (start + i)).head? = some (start + j) ∧ start + j < stop := by
  have hhead := congrArg List.head? (freeFrom_slice (p := p) hi)
  rw [List.head?_map, List.head?_takeWhile] at hhead
  constructor
  · intro hj
    rw [hj, Option.map_some] at hhead
    simpa using Option.filter_eq_some_iff.1 hhead.symm
  · rintro ⟨hfree, hlt⟩
    rw [hfree, Option.filter_some_pos (by simpa using hlt)] at hhead
    obtain ⟨k, hk, hkj⟩ := Option.map_eq_some_iff.1 hhead
    rw [hk, Nat.add_left_cancel hkj]

theorem get?_slice_eq_some_iff {i : Nat} {s : Statement} :
    (p.slice start stop).get? i = some s ↔ start + i < stop ∧ p.get? (start + i) = some s := by
  rw [get?_slice]
  split
  · next hlt => exact ⟨fun hs => ⟨hlt, hs⟩, And.right⟩
  · next hnot =>
    constructor
    · intro hs
      cases hs
    · rintro ⟨hlt, -⟩
      exact absurd hlt hnot

/-- The blocks of a slice are those of the program that end in the slice. -/
theorem blockEnd?_slice_eq_some_iff {i j : Nat} : (p.slice start stop).blockEnd? i = some j ↔
    p.blockEnd? (start + i) = some (start + j) ∧ start + j < stop := by
  constructor
  · intro hblock
    obtain ⟨s, hs, ho, hfree⟩ := blockEnd?_eq_some_iff.1 hblock
    obtain ⟨hlt, hget⟩ := get?_slice_eq_some_iff.1 hs
    obtain ⟨hfree, hj⟩ := (head?_freeFrom_slice hlt).1 hfree
    exact ⟨blockEnd?_eq_some_iff.2 ⟨s, hget, ho, hfree⟩, hj⟩
  · rintro ⟨hblock, hj⟩
    have hlt := blockEnd?_lt hblock
    obtain ⟨s, hget, ho, hfree⟩ := blockEnd?_eq_some_iff.1 hblock
    have hs := get?_slice_eq_some_iff.2 ⟨Nat.lt_trans hlt hj, hget⟩
    have hi : start + (i + 1) ≤ stop := by omega
    exact blockEnd?_eq_some_iff.2 ⟨s, hs, ho, (head?_freeFrom_slice hi).2 ⟨hfree, hj⟩⟩

/-- What is opened between an opener and its `end` is closed between them. -/
theorem exists_blockEnd?_inside {a e b : Nat} {s : Statement} (hae : p.blockEnd? a = some e)
    (hab : a < b) (hbe : b < e) (hs : p.get? b = some s) (ho : s.opensBlock = true) :
    ∃ f, p.blockEnd? b = some f ∧ f < e := by
  have hfree : e ∈ p.freeFrom b := by
    obtain ⟨-, -, -, hhead⟩ := blockEnd?_eq_some_iff.1 hae
    have hmem := mem_freeFrom_of_le (b - (a + 1)) (List.mem_of_mem_head? hhead) (by omega)
    rwa [show a + 1 + (b - (a + 1)) = b by omega] at hmem
  have htail : e ∈ (p.freeFrom (b + 1)).tail := by
    unfold freeFrom at hfree
    rwa [drop_eq_cons hs, freeEnds_cons_of_opens ho] at hfree
  cases hnext : p.freeFrom (b + 1) with
  | nil =>
      rw [hnext] at htail
      cases htail
  | cons f free =>
      have hbf : p.blockEnd? b = some f := by
        rw [blockEnd?_eq hs, if_pos ho, hnext]
        rfl
      exact ⟨f, hbf, blockEnd?_nested hae hbf hab hbe⟩

/-- Whatever part of a program is cut out, the blocks of the part are those of the program that
start in the part and end in it, at addresses counted from where the part starts.  So in what lies
between an opener and its `end`, such as the body of a function, every opener is closed, by the
`end` that closes it in the program. -/
theorem slice_keeps_blocks (p : Program) :
    (∀ start stop i j, (p.slice start stop).blockEnd? i = some j ↔
      p.blockEnd? (start + i) = some (start + j) ∧ start + j < stop) ∧
    ∀ a e, p.blockEnd? a = some e → ∀ i s, (p.slice (a + 1) e).get? i = some s →
      s.opensBlock = true →
      ∃ j, (p.slice (a + 1) e).blockEnd? i = some j ∧
        p.blockEnd? (a + 1 + i) = some (a + 1 + j) := by
  refine ⟨fun start stop i j => blockEnd?_slice_eq_some_iff, ?_⟩
  intro a e hae i s hs ho
  obtain ⟨hlt, hget⟩ := get?_slice_eq_some_iff.1 hs
  obtain ⟨f, hf, hfe⟩ := exists_blockEnd?_inside hae (by omega) hlt hget ho
  have hbf := blockEnd?_lt hf
  obtain ⟨j, rfl⟩ : ∃ j, f = a + 1 + j := ⟨f - (a + 1), by omega⟩
  exact ⟨j, blockEnd?_slice_eq_some_iff.2 ⟨hf, hfe⟩, hf⟩

/-- A function whose body is a loop around an `if`.  In the body the `if` ends where it ends in the
program, and in a part without the `end` of the loop the loop is not closed. -/
theorem slice_keeps_blocks_of_function :
    let statement operation : Statement := ⟨operation, [], operation, 1⟩
    let p := ofStatements (["func", "while", "if", "end", "end", "end", "end"].map statement)
    p.blockEnd? 0 = some 5 ∧ (p.slice 1 5).get? 1 = some (statement "if") ∧
      (∃ j, (p.slice 1 5).blockEnd? 1 = some j ∧ p.blockEnd? 2 = some (1 + j)) ∧
      p.blockEnd? 1 = some 4 ∧ (p.slice 1 4).blockEnd? 0 = none := by
  intro statement p
  obtain ⟨hparts, hinside⟩ := slice_keeps_blocks p
  have hblock : p.blockEnd? 0 = some 5 := by decide
  have hif : (p.slice 1 5).get? 1 = some (statement "if") := by decide
  have hloop : p.blockEnd? 1 = some 4 := by decide
  refine ⟨hblock, hif, hinside 0 5 hblock 1 _ hif (by decide), hloop, ?_⟩
  cases hcut : (p.slice 1 4).blockEnd? 0 with
  | none => rfl
  | some j =>
      obtain ⟨hend, hlt⟩ := (hparts 1 4 0 j).1 hcut
      have heq : 4 = 1 + j := Option.some.inj (hloop.symm.trans hend)
      omega

end Program

end BareBones
