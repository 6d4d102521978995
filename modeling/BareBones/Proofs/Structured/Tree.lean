/-
Structured programs.

A structured program is a tree: a list of items, each a statement of its own, a loop, a chain of
conditionals or the definition of a function.  `flattenAll` writes it down as a list of statements,
with one `end` for each block.

Every tree is balanced, whatever it holds.  So wherever a program reads like a flattened tree, the
block table has the `end` of each block of the tree, and the links of each chain are those of the
tree.
-/
import BareBones.Machine.Chain
import BareBones.Proofs.Blocks

namespace BareBones

/-- A statement that starts with the keyword. -/
structure Headed (k : Keyword) where
  statement : Statement
  keyword : statement.keyword? = some k

/-- A statement that belongs to no block. -/
structure Plain where
  statement : Statement
  opens : statement.opensBlock = false
  closes : statement.closesBlock = false

mutual

/-- An item of a structured program. -/
inductive Item where
  | plain (s : Plain)
  | loop (head : Headed .whileLoop) (body : List Item) (tail : Headed .endBlock)
  | chain (head : Headed .ifBranch) (body : List Item) (tail : Headed .endBlock) (rest : Links)
  | func (head : Headed .func) (body : List Item) (tail : Headed .endBlock)

/-- What follows the first block of a chain. -/
inductive Links where
  | none
  | elif (head : Headed .elifBranch) (body : List Item) (tail : Headed .endBlock) (rest : Links)
  | otherwise (head : Headed .elseBranch) (body : List Item) (tail : Headed .endBlock)

end

/-- A structured program. -/
abbrev Tree := List Item

mutual

/-- The statements of an item. -/
def Item.flatten : Item → List Statement
  | .plain s => [s.statement]
  | .loop head body tail => head.statement :: (flattenAll body ++ [tail.statement])
  | .chain head body tail rest =>
    head.statement :: (flattenAll body ++ tail.statement :: rest.flatten)
  | .func head body tail => head.statement :: (flattenAll body ++ [tail.statement])

/-- The statements of the links behind the first. -/
def Links.flatten : Links → List Statement
  | .none => []
  | .elif head body tail rest =>
    head.statement :: (flattenAll body ++ tail.statement :: rest.flatten)
  | .otherwise head body tail => head.statement :: (flattenAll body ++ [tail.statement])

/-- The statements of a structured program. -/
def flattenAll : List Item → List Statement
  | [] => []
  | i :: is => i.flatten ++ flattenAll is

end

/-- The structured program as a flat one. -/
def Tree.program (t : Tree) : Program :=
  .ofStatements (flattenAll t)

namespace Headed

variable {k : Keyword}

theorem opens (s : Headed k) : s.statement.opensBlock = k.opensBlock := by
  simp [Statement.opensBlock, s.keyword]

theorem closes (s : Headed .endBlock) : s.statement.closesBlock = true := by
  simp [Statement.closesBlock, s.keyword]

end Headed

/-! ### Trees are balanced -/

/-- A block, and what is balanced behind it. -/
theorem Balanced.block_append {opener closer : Statement} {body rest : List Statement}
    (ho : opener.opensBlock = true) (hc : closer.closesBlock = true) (hb : Balanced body)
    (hr : Balanced rest) : Balanced (opener :: (body ++ closer :: rest)) := by
  have := (Balanced.block ho hc hb).append hr
  simpa using this

mutual

theorem Item.balanced_flatten : ∀ i : Item, Balanced i.flatten
  | .plain s => by
      rw [Item.flatten]
      exact balanced_single s.closes s.opens
  | .loop head body tail => by
      rw [Item.flatten]
      exact .block head.opens tail.closes (balanced_flattenAll body)
  | .chain head body tail rest => by
      rw [Item.flatten]
      exact .block_append head.opens tail.closes (balanced_flattenAll body) rest.balanced_flatten
  | .func head body tail => by
      rw [Item.flatten]
      exact .block head.opens tail.closes (balanced_flattenAll body)

theorem Links.balanced_flatten : ∀ ls : Links, Balanced ls.flatten
  | .none => by
      rw [Links.flatten]
      exact balanced_nil
  | .elif head body tail rest => by
      rw [Links.flatten]
      exact .block_append head.opens tail.closes (balanced_flattenAll body) rest.balanced_flatten
  | .otherwise head body tail => by
      rw [Links.flatten]
      exact .block head.opens tail.closes (balanced_flattenAll body)

theorem balanced_flattenAll : ∀ t : List Item, Balanced (flattenAll t)
  | [] => by
      rw [flattenAll]
      exact balanced_nil
  | i :: is => by
      rw [flattenAll]
      exact i.balanced_flatten.append (balanced_flattenAll is)

end

/-! ### Programs that read like a tree -/

namespace Program

/-- The program has the statements from the address on. -/
def Reads (p : Program) (a : Nat) (ss : List Statement) : Prop :=
  ss <+: p.statements.toList.drop a

/-- What stands at the address, if anything does, carries on no chain. -/
def ChainEnds (p : Program) (a : Nat) : Prop :=
  ∀ s, p.get? a = some s → s.continuesChain = false

variable {p : Program} {a : Nat} {s : Statement} {ss ts : List Statement}

theorem reads_ofStatements (ss : List Statement) : (ofStatements ss).Reads 0 ss := by
  simp [Reads, ofStatements]

theorem Reads.left (h : p.Reads a (ss ++ ts)) : p.Reads a ss :=
  (List.prefix_append ss ts).trans h

theorem Reads.right (h : p.Reads a (ss ++ ts)) : p.Reads (a + ss.length) ts := by
  obtain ⟨rest, hrest⟩ := h
  refine ⟨rest, ?_⟩
  rw [← List.drop_drop, ← hrest, List.append_assoc, List.drop_left]

theorem Reads.head (h : p.Reads a (s :: ss)) : p.get? a = some s := by
  obtain ⟨rest, hrest⟩ := h
  have hhead := congrArg List.head? hrest
  rw [List.head?_drop] at hhead
  simpa [get?] using hhead.symm

theorem Reads.tail (h : p.Reads a (s :: ss)) : p.Reads (a + 1) ss := by
  have happend : p.Reads a ([s] ++ ss) := h
  exact happend.right

theorem Reads.bound (h : p.Reads a ss) (hss : ss ≠ []) : a + ss.length ≤ p.size := by
  have hlen := List.IsPrefix.length_le h
  have hpos : 0 < ss.length := List.length_pos_iff.2 hss
  rw [List.length_drop] at hlen
  simp only [Array.length_toList] at hlen
  unfold size
  omega

/-- The `end` of a block stands right behind its body. -/
theorem Reads.blockEnd? {opener closer : Statement} {body rest : List Statement}
    (h : p.Reads a (opener :: (body ++ closer :: rest))) (ho : opener.opensBlock = true)
    (hc : closer.closesBlock = true) (hb : Balanced body) :
    p.blockEnd? a = some (a + 1 + body.length) := by
  obtain ⟨behind, hbehind⟩ := h
  have hdrop : p.statements.toList.drop a
      = opener :: (body ++ closer :: (rest ++ behind)) := by
    rw [← hbehind]
    simp
  exact blockEnd?_of_balanced ho hc hb hdrop

/-- A slice of what is read is what it holds. -/
theorem Reads.slice (h : p.Reads a ss) : p.slice a (a + ss.length) = ofStatements ss := by
  unfold Program.slice
  rw [Nat.add_sub_cancel_left, List.prefix_iff_eq_take.1 h |>.symm]

end Program

theorem Headed.continuesChain {k : Keyword} (s : Headed k) :
    s.statement.continuesChain = (k == .elifBranch || k == .elseBranch) := by
  simp [Statement.continuesChain, s.keyword]

theorem Plain.continuesChain (s : Plain) : s.statement.continuesChain = false := by
  have hopens := s.opens
  unfold Statement.opensBlock at hopens
  unfold Statement.continuesChain
  cases hk : s.statement.keyword? with
  | none => rfl
  | some k =>
      rw [hk] at hopens
      cases k <;> simp_all [Keyword.opensBlock]

/-- No item starts with a link of a chain. -/
theorem Item.flatten_eq_cons (i : Item) :
    ∃ s ss, i.flatten = s :: ss ∧ s.continuesChain = false := by
  cases i with
  | plain s =>
      rw [Item.flatten]
      exact ⟨_, _, rfl, s.continuesChain⟩
  | loop head body tail =>
      rw [Item.flatten]
      exact ⟨_, _, rfl, head.continuesChain⟩
  | chain head body tail rest =>
      rw [Item.flatten]
      exact ⟨_, _, rfl, head.continuesChain⟩
  | func head body tail =>
      rw [Item.flatten]
      exact ⟨_, _, rfl, head.continuesChain⟩

/-- A chain in front of a tree ends there. -/
theorem Program.Reads.chainEnds {p : Program} {a : Nat} {t : Tree} (h : p.Reads a (flattenAll t))
    (hend : p.ChainEnds (a + (flattenAll t).length)) : p.ChainEnds a := by
  intro s hs
  cases t with
  | nil =>
      rw [flattenAll] at hend
      exact hend s hs
  | cons i is =>
      obtain ⟨head, rest, hflat, hcont⟩ := i.flatten_eq_cons
      rw [flattenAll, hflat] at h
      have hhead := h.head
      rw [hs] at hhead
      cases hhead
      exact hcont

/-! ### The links of a chain -/

/-- The links behind the first, where the first of these opens at the address. -/
def Links.list (a : Nat) : Links → List Machine.Link
  | .none => []
  | .elif head body _ rest =>
    ⟨a, head.statement, some (a + 1 + (flattenAll body).length)⟩ ::
      rest.list (a + 1 + (flattenAll body).length + 1)
  | .otherwise head body _ => [⟨a, head.statement, some (a + 1 + (flattenAll body).length)⟩]

/-- The chain that a program reads like a tree is the chain of that tree. -/
theorem Program.Reads.links {p : Program} : ∀ {rest : Links} {fuel a : Nat} {s : Statement}
    {body : Tree} {tail : Headed .endBlock},
    p.Reads a (s :: (flattenAll body ++ tail.statement :: rest.flatten)) →
    p.ChainEnds (a + 1 + (flattenAll body).length + 1 + rest.flatten.length) →
    s.opensBlock = true → s.keyword? ≠ some .elseBranch → rest.flatten.length < fuel →
    Machine.links p fuel a s = ⟨a, s, some (a + 1 + (flattenAll body).length)⟩ ::
      rest.list (a + 1 + (flattenAll body).length + 1)
  | rest, 0, a, s, body, tail, _, _, _, _, hfuel => by omega
  | .none, fuel + 1, a, s, body, tail, h, hend, ho, hne, _ => by
      rw [Links.flatten] at h hend
      have hblock := h.blockEnd? ho tail.closes (balanced_flattenAll body)
      rw [Machine.links, hblock, Links.list]
      simp only [if_neg hne]
      cases hnext : p.get? (a + 1 + (flattenAll body).length + 1) with
      | none => rfl
      | some s' =>
          have : s'.continuesChain = false := hend s' hnext
          simp [this]
  | .elif head body' tail' rest, fuel + 1, a, s, body, tail, h, hend, ho, hne, hfuel => by
      have hblock := h.blockEnd? ho tail.closes (balanced_flattenAll body)
      have hrest := h.tail.right.tail
      rw [Links.flatten] at hrest hend hfuel
      have hnext := hrest.head
      have hcont : head.statement.continuesChain = true := head.continuesChain
      have hkey : head.statement.keyword? ≠ some .elseBranch := by rw [head.keyword]; simp
      simp only [List.length_cons, List.length_append] at hfuel hend
      rw [show ∀ x y z : Nat, x + (y + (z + 1) + 1) = x + 1 + y + 1 + z by omega] at hend
      have hlinks : Machine.links p fuel _ head.statement = _ :=
        hrest.links hend head.opens hkey (by omega)
      rw [Machine.links, hblock, Links.list]
      simp only [if_neg hne, hnext, hcont, if_true]
      rw [hlinks]
  | .otherwise head body' tail', fuel + 1, a, s, body, tail, h, hend, ho, hne, hfuel => by
      have hblock := h.blockEnd? ho tail.closes (balanced_flattenAll body)
      have hrest := h.tail.right.tail
      rw [Links.flatten] at hrest hfuel
      have hnext := hrest.head
      have hcont : head.statement.continuesChain = true := head.continuesChain
      have hblock' := hrest.blockEnd? head.opens tail'.closes (balanced_flattenAll body')
      simp only [List.length_cons, List.length_append] at hfuel
      obtain ⟨fuel, rfl⟩ : ∃ k, fuel = k + 1 := ⟨fuel - 1, by omega⟩
      rw [Machine.links, hblock, Links.list]
      simp only [if_neg hne, hnext, hcont, if_true]
      rw [Machine.links, hblock']
      simp [head.keyword]

end BareBones
