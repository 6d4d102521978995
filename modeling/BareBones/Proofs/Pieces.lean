/-
Substitution piece by piece.

A text falls apart into pieces: its runs, and the characters between them one by one.  Substitution
goes over the text once, with the run that it is reading in hand.  What comes out is the same as if
the text were cut into its pieces first and each piece were looked at by itself: a run that names a
variable and is no word of arithmetic gives way to the text of the value, and all else stays.

Nothing is looked at across pieces, so two texts can be substituted apart wherever they do not meet
inside a run.  A space is such a place, and so the tokens of an expression may as well be joined
first.
-/
import BareBones.Machine.Resolve
import BareBones.Proofs.Substitution
import Mathlib.Data.List.SplitBy

namespace BareBones

open Arithmetic (Breaks breaks_cons)
open Name (isNameChar)

/-! ### The pieces of a text -/

namespace Text

/-- The text cut between any two characters that are not both name characters: its runs, and every
other character alone. -/
def pieces (cs : List Char) : List (List Char) :=
  cs.splitBy fun c d => isNameChar c && isNameChar d

variable {c : Char} {cs ds r : List Char}

/-- Two texts that do not meet inside a run fall apart by themselves. -/
theorem pieces_append
    (hmeet : ∀ c ∈ cs.getLast?, ∀ d ∈ ds.head?, ¬ (isNameChar c = true ∧ isNameChar d = true)) :
    pieces (cs ++ ds) = pieces cs ++ pieces ds := by
  refine List.splitBy_append ?_
  intro c hc d hd
  simpa using hmeet c hc d hd

theorem pieces_cons_of_not_name (hc : isNameChar c = false) :
    pieces (c :: cs) = [c] :: pieces cs := by
  refine @pieces_append [c] cs ?_
  intro d hd e _
  obtain rfl : c = d := by simpa using hd
  simp [hc]

theorem pieces_run_append (hne : r ≠ []) (hr : ∀ c ∈ r, isNameChar c = true)
    (hcs : Breaks isNameChar cs) : pieces (r ++ cs) = r :: pieces cs := by
  have hrun : pieces r = [r] := by
    refine List.splitBy_of_isChain hne (List.Pairwise.isChain ?_)
    refine List.pairwise_of_forall_mem_list ?_
    intro c hc d hd
    rw [hr c hc, hr d hd]
    rfl
  rw [pieces_append, hrun, List.singleton_append]
  intro c _ d hd
  simp [hcs d hd]

/-- Every piece is a run of the text, or a character alone that can be part of none. -/
theorem hasRun_or_of_mem_pieces (cs : List Char) : ∀ piece ∈ pieces cs,
    HasRun cs piece ∨ ∃ c, piece = [c] ∧ isNameChar c = false := by
  induction cs using runs_induction with
  | nil =>
      intro piece hpiece
      cases hpiece
  | other c cs hc ih =>
      intro piece hpiece
      rw [pieces_cons_of_not_name hc] at hpiece
      rcases List.mem_cons.1 hpiece with rfl | hpiece
      · exact Or.inr ⟨c, rfl, hc⟩
      · exact (ih piece hpiece).imp_left fun hrun => hrun.cons hc
  | run r cs hne hr hcs ih =>
      intro piece hpiece
      rw [pieces_run_append hne hr hcs] at hpiece
      rcases List.mem_cons.1 hpiece with rfl | hpiece
      · exact Or.inl (hasRun_append_of_breaks hne hr hcs)
      · exact (ih piece hpiece).imp_left fun hrun => hrun.append_right (Or.inr hcs)

end Text

/-! ### What stands for a piece -/

open Text (pieces HasRun)

/-- What is written for a piece: the text of the variable that it names, if it is a run that is to
be replaced, and otherwise the piece itself. -/
def Environment.written (env : Environment) (piece : List Char) : List Char :=
  if piece.all isNameChar then
    match env.pasted? (String.ofList piece) with
    | some text => text.toList
    | none => piece
  else piece

variable {env : Environment}

theorem Environment.written_of_not_name {c : Char} (hc : isNameChar c = false) :
    env.written [c] = [c] := by
  simp [written, hc]

theorem Environment.written_of_names {r : List Char} (hr : ∀ c ∈ r, isNameChar c = true) :
    env.written r = substituteRun env r := by
  rw [written, if_pos (List.all_eq_true.2 hr), substituteRun_eq]
  cases env.pasted? (String.ofList r) <;> rfl

/-- Substitution writes for each piece what stands for it. -/
theorem substituteFrom_eq_flatMap (cs : List Char) :
    substituteFrom env [] cs = (pieces cs).flatMap env.written := by
  induction cs using Text.runs_induction with
  | nil => rfl
  | other c cs hc ih =>
      rw [substituteFrom_of_not_name hc, Text.pieces_cons_of_not_name hc, List.flatMap_cons,
        Environment.written_of_not_name hc, ih, List.singleton_append]
  | run r cs hne hr hcs ih =>
      rw [substituteFrom_append_of_breaks hcs, substituteFrom_run hne hr,
        Text.pieces_run_append hne hr hcs, List.flatMap_cons, Environment.written_of_names hr, ih]

theorem toList_substitute (env : Environment) (token : String) :
    (substitute env token).toList = (pieces token.toList).flatMap env.written := by
  rw [substitute, String.toList_ofList, substituteFrom_eq_flatMap]

/-! ### Texts put together -/

theorem substitute_append {a b : String}
    (hmeet : ∀ c ∈ a.toList.getLast?, ∀ d ∈ b.toList.head?,
      ¬ (isNameChar c = true ∧ isNameChar d = true)) :
    substitute env (a ++ b) = substitute env a ++ substitute env b := by
  rw [← String.toList_inj, String.toList_append, toList_substitute, toList_substitute,
    toList_substitute, String.toList_append, Text.pieces_append hmeet, List.flatMap_append]

theorem substitute_space : substitute env " " = " " := by
  have hspace : isNameChar ' ' = false := by decide +kernel
  rw [← String.toList_inj, toList_substitute]
  show (pieces [' ']).flatMap env.written = [' ']
  rw [Text.pieces_cons_of_not_name hspace, List.flatMap_cons,
    Environment.written_of_not_name hspace]
  rfl

/-- A space parts two texts for substitution. -/
theorem substitute_append_space (env : Environment) (a b : String) :
    substitute env (a ++ " " ++ b) = substitute env a ++ " " ++ substitute env b := by
  have hspace : isNameChar ' ' = false := by decide +kernel
  rw [substitute_append, substitute_append, substitute_space]
  · intro c _ d hd
    obtain rfl : ' ' = d := by simpa using hd
    simp [hspace]
  · intro c hc d _
    obtain rfl : ' ' = c := by simpa using hc
    simp [hspace]

theorem intercalate_map_substitute (env : Environment) : ∀ tokens : List String,
    " ".intercalate (tokens.map (substitute env)) = substitute env (" ".intercalate tokens) := by
  intro tokens
  induction tokens with
  | nil => rfl
  | cons token tokens ih =>
      cases tokens with
      | nil => simp
      | cons next tokens =>
          rw [List.map_cons, List.map_cons, String.intercalate_cons_cons,
            String.intercalate_cons_cons, substitute_append_space, ← ih, List.map_cons]

/-- An expression has the same value when its tokens are joined before. -/
theorem Machine.evaluate_joined {σ : Type} (h : Host σ) {tokens : List String} (hne : tokens ≠ [])
    (w : World σ) : evaluate h env tokens w = evaluate h env [" ".intercalate tokens] w := by
  obtain ⟨token, tokens, rfl⟩ := List.exists_cons_of_ne_nil hne
  have hjoin : " ".intercalate ([" ".intercalate (token :: tokens)].map (substitute env)) =
      " ".intercalate ((token :: tokens).map (substitute env)) := by
    rw [List.map_singleton, String.intercalate_singleton, intercalate_map_substitute]
  simp only [evaluate, hjoin]

/-- Whatever names the variables have, substitution cuts a token into its pieces, which are its runs
and single other characters, and writes for each what stands for it.  So it can be done apart on two
texts that do not meet inside a run.  The tokens of an expression may be joined before or after it,
and the expression has the same value. -/
theorem substitute_works_on_pieces {σ : Type} (env : Environment) :
    (∀ token : String, (pieces token.toList).flatten = token.toList ∧
      (∀ piece ∈ pieces token.toList, HasRun token.toList piece ∨
        ∃ c, piece = [c] ∧ isNameChar c = false) ∧
      (substitute env token).toList = (pieces token.toList).flatMap env.written) ∧
    (∀ a b : String, (∀ c ∈ a.toList.getLast?, ∀ d ∈ b.toList.head?,
        ¬ (isNameChar c = true ∧ isNameChar d = true)) →
      substitute env (a ++ b) = substitute env a ++ substitute env b) ∧
    (∀ tokens : List String,
      " ".intercalate (tokens.map (substitute env)) = substitute env (" ".intercalate tokens)) ∧
    ∀ (h : Host σ) (tokens : List String) (w : World σ), tokens ≠ [] →
      Machine.evaluate h env tokens w = Machine.evaluate h env [" ".intercalate tokens] w := by
  refine ⟨?_, ?_, intercalate_map_substitute env, ?_⟩
  · intro token
    exact ⟨List.flatten_splitBy _ _, Text.hasRun_or_of_mem_pieces _, toList_substitute env token⟩
  · intro a b hmeet
    exact substitute_append hmeet
  · intro h tokens w hne
    exact Machine.evaluate_joined h hne w

/-- A sign that is bound like a variable, a name that starts like another one, a word of arithmetic,
and a text that is written and could be looked up again. -/
theorem substitute_works_on_pieces_once :
    let env : Environment :=
      NameMap.ofList [("x", .str "y"), ("y", .int 5), ("+", .int 9), ("max", .int 1)]
    let h : Host Unit := ⟨{}, fun _ u => (.error (.unknownFunction ""), u)⟩
    pieces "x+xy*max".toList = [['x'], ['+'], ['x', 'y'], ['*'], ['m', 'a', 'x']] ∧
      substitute env "x+xy*max" = "y+xy*max" ∧
      substitute env ("y+" ++ "y") = substitute env "y+" ++ substitute env "y" ∧
      substitute env "y+y" = "5+5" ∧
      ∀ w, Machine.evaluate h env ["x", "+y"] w = Machine.evaluate h env ["x +y"] w := by
  intro env h
  obtain ⟨hpieces, happend, -, heval⟩ := @substitute_works_on_pieces Unit env
  have hcut : pieces "x+xy*max".toList = [['x'], ['+'], ['x', 'y'], ['*'], ['m', 'a', 'x']] := by
    decide +kernel
  have hwhole : substitute env "x+xy*max" = "y+xy*max" := by
    obtain ⟨-, -, htoken⟩ := hpieces "x+xy*max"
    rw [← String.toList_inj, htoken, hcut]
    decide +kernel
  have hparts : substitute env ("y+" ++ "y") = substitute env "y+" ++ substitute env "y" := by
    refine happend "y+" "y" ?_
    intro c hc d _ hnames
    obtain rfl : '+' = c := by simpa using hc
    exact absurd hnames.1 (by decide +kernel)
  exact ⟨hcut, hwhole, hparts, by decide +kernel, fun w => heval h ["x", "+y"] w (by simp)⟩

end BareBones
