/-
Substitution works run by run.

A run is a stretch of name characters that is not part of a longer one.  The text is the runs and
the characters between them, in order, and each run is looked at once and by itself.  So two texts
can be substituted apart, if they do not meet inside a run, and a text is left as it is if none of
its runs names a variable.
-/
import BareBones.Proofs.Arithmetic.Lexing
import BareBones.Substitute

namespace BareBones

open Arithmetic (Breaks breaks_nil breaks_cons)
open Name (isNameChar)

/-! ### Runs -/

/-- The characters are a run of the text. -/
structure Text.HasRun (cs r : List Char) : Prop where
  ne_nil : r ≠ []
  names : ∀ c ∈ r, isNameChar c = true
  alone : ∃ before behind, cs = before ++ (r ++ behind) ∧ Breaks isNameChar before.reverse ∧
    Breaks isNameChar behind

namespace Text

variable {c : Char} {cs ds r : List Char}

theorem hasRun_append_of_breaks (hne : r ≠ []) (hr : ∀ c ∈ r, isNameChar c = true)
    (hcs : Breaks isNameChar cs) : HasRun (r ++ cs) r :=
  ⟨hne, hr, [], cs, rfl, breaks_nil, hcs⟩

/-- A run of the second text is one of both, if the texts do not meet inside it. -/
theorem HasRun.append_right (h : HasRun ds r)
    (hmeet : Breaks isNameChar cs.reverse ∨ Breaks isNameChar ds) : HasRun (cs ++ ds) r := by
  obtain ⟨before, behind, rfl, hbefore, hbehind⟩ := h.alone
  refine ⟨h.ne_nil, h.names, cs ++ before, behind, by simp, ?_, hbehind⟩
  rw [List.reverse_append]
  cases hrev : before.reverse with
  | cons d rest =>
      rw [hrev] at hbefore
      exact breaks_cons hbefore.head
  | nil =>
      rcases hmeet with hcs | hds
      · exact hcs
      · -- Then the second text starts with the run, so with a name character.
        obtain rfl : before = [] := by simpa using hrev
        obtain ⟨d, r, rfl⟩ := List.exists_cons_of_ne_nil h.ne_nil
        have hd := h.names d List.mem_cons_self
        rw [hds.head] at hd
        cases hd

theorem HasRun.cons (h : HasRun cs r) (hc : isNameChar c = false) : HasRun (c :: cs) r :=
  @HasRun.append_right [c] cs r h (Or.inl (breaks_cons hc))

/-- What is true of the empty text, and stays true when a character between runs or a whole run is
put in front, is true of all texts. -/
theorem runs_induction {P : List Char → Prop} (nil : P [])
    (other : ∀ c cs, isNameChar c = false → P cs → P (c :: cs))
    (run : ∀ r cs, r ≠ [] → (∀ c ∈ r, isNameChar c = true) → Breaks isNameChar cs → P cs →
      P (r ++ cs)) (cs : List Char) : P cs := by
  induction hn : cs.length using Nat.strong_induction_on generalizing cs with
  | _ n ih =>
      cases cs with
      | nil => exact nil
      | cons c cs =>
          by_cases hc : isNameChar c = true
          · have hcut := List.takeWhile_append_dropWhile (p := isNameChar) (l := c :: cs)
            have hne : (c :: cs).takeWhile isNameChar ≠ [] := by simp [hc]
            have hpos := List.length_pos_iff.2 hne
            have hlength := congrArg List.length hcut
            rw [List.length_append, hn] at hlength
            rw [← hcut]
            refine run _ _ hne (fun d hd => List.mem_takeWhile_imp hd) ?_ ?_
            · intro d hd
              have hdrop := List.head?_dropWhile_not isNameChar (c :: cs)
              rw [Option.mem_def.1 hd] at hdrop
              simpa using hdrop
            · exact ih _ (by omega) _ rfl
          · rw [List.length_cons] at hn
            exact other c cs (by simpa using hc) (ih cs.length (by omega) cs rfl)

end Text

/-! ### Substitution -/

variable {env : Environment} {c : Char} {cs ds r run : List Char}

theorem substituteFrom_of_not_name (hc : isNameChar c = false) :
    substituteFrom env [] (c :: cs) = c :: substituteFrom env [] cs := by
  simp [substituteFrom, hc]

theorem substituteFrom_of_name (hc : isNameChar c = true) :
    substituteFrom env run (c :: cs) = substituteFrom env (c :: run) cs := by
  simp [substituteFrom, hc]

/-- A run that is complete is written before what follows. -/
theorem substituteFrom_flush (hcs : run = [] ∨ Breaks isNameChar cs) :
    substituteFrom env run cs = substituteFrom env run [] ++ substituteFrom env [] cs := by
  rcases hcs with rfl | hcs
  · simp [substituteFrom]
  · cases cs with
    | nil => simp [substituteFrom]
    | cons c cs => simp [substituteFrom, hcs.head]

/-- Two texts that do not meet inside a run are substituted apart. -/
theorem substituteFrom_append : ∀ {cs run : List Char}, (∀ c ∈ run, isNameChar c = true) →
    Breaks isNameChar (cs.reverse ++ run) ∨ Breaks isNameChar ds →
    substituteFrom env run (cs ++ ds) = substituteFrom env run cs ++ substituteFrom env [] ds := by
  intro cs
  induction cs with
  | nil =>
      intro run hrun hmeet
      refine substituteFrom_flush (hmeet.imp_left ?_)
      intro hbreaks
      cases run with
      | nil => rfl
      | cons c run =>
          have hc := hrun c List.mem_cons_self
          rw [hbreaks.head] at hc
          cases hc
  | cons c cs ih =>
      intro run hrun hmeet
      rw [List.reverse_cons, List.append_assoc, List.singleton_append] at hmeet
      rw [List.cons_append]
      by_cases hc : isNameChar c = true
      · rw [substituteFrom_of_name hc, substituteFrom_of_name hc]
        refine ih ?_ hmeet
        intro d hd
        rcases List.mem_cons.1 hd with rfl | hd
        · exact hc
        · exact hrun d hd
      · simp only [substituteFrom, if_neg hc]
        have hmeet' : Breaks isNameChar (cs.reverse ++ []) ∨ Breaks isNameChar ds := by
          refine hmeet.imp_left fun hbreaks => ?_
          rw [List.append_nil]
          cases hrev : cs.reverse with
          | nil => exact breaks_nil
          | cons d rest =>
              rw [hrev] at hbreaks
              exact breaks_cons hbreaks.head
        rw [ih (fun _ hd => absurd hd List.not_mem_nil) hmeet', List.append_assoc,
          List.cons_append]

theorem substituteFrom_append_of_breaks (hds : Breaks isNameChar ds) :
    substituteFrom env [] (cs ++ ds) =
      substituteFrom env [] cs ++ substituteFrom env [] ds :=
  substituteFrom_append (fun _ hd => absurd hd List.not_mem_nil) (Or.inr hds)

theorem substituteFrom_of_names : ∀ {r run : List Char}, (∀ c ∈ r, isNameChar c = true) →
    substituteFrom env run r = substituteFrom env (r.reverse ++ run) [] := by
  intro r
  induction r with
  | nil =>
      intro run _
      rfl
  | cons c r ih =>
      intro run hr
      have hc : isNameChar c = true := hr c List.mem_cons_self
      have hrest : ∀ d ∈ r, isNameChar d = true := fun d hd => hr d (List.mem_cons_of_mem c hd)
      rw [substituteFrom_of_name hc, ih hrest, List.reverse_cons, List.append_assoc,
        List.singleton_append]

/-- A text that is one run is looked up as a whole. -/
theorem substituteFrom_run (hne : r ≠ []) (hr : ∀ c ∈ r, isNameChar c = true) :
    substituteFrom env [] r = substituteRun env r := by
  rw [substituteFrom_of_names hr]
  simp [substituteFrom, hne]

/-- What is written for a name, if it is replaced: the text of its value. -/
def Environment.pasted? (env : Environment) (name : String) : Option String :=
  if Arithmetic.isReserved name then none else (env.get? name).map Value.text

theorem substituteRun_eq (env : Environment) (r : List Char) :
    substituteRun env r = ((env.pasted? (String.ofList r)).map String.toList).getD r := by
  unfold substituteRun Environment.pasted?
  dsimp only
  cases env.get? (String.ofList r) with
  | none => simp
  | some v => by_cases hr : Arithmetic.isReserved (String.ofList r) = true <;> simp [hr]

theorem exists_of_pasted? {name text : String} (h : env.pasted? name = some text) :
    ∃ v, env.get? name = some v ∧ v.text = text := by
  unfold Environment.pasted? at h
  split at h
  · cases h
  · exact Option.map_eq_some_iff.1 h

theorem substituteRun_of_unbound (hr : env.get? (String.ofList r) = none) :
    substituteRun env r = r := by
  simp [substituteRun, hr]

/-- A text of which no run names a variable is left as it is. -/
theorem substituteFrom_eq_self (cs : List Char) :
    (∀ r, Text.HasRun cs r → env.get? (String.ofList r) = none) →
      substituteFrom env [] cs = cs := by
  induction cs using Text.runs_induction with
  | nil =>
      intro _
      rfl
  | other c cs hc ih =>
      intro hfree
      rw [substituteFrom_of_not_name hc, ih fun r hr => hfree r (hr.cons hc)]
  | run r cs hne hr hcs ih =>
      intro hfree
      have hown := hfree r (Text.hasRun_append_of_breaks hne hr hcs)
      rw [substituteFrom_append_of_breaks hcs, substituteFrom_run hne hr,
        substituteRun_of_unbound hown, ih fun r' hr' => hfree r' (hr'.append_right (Or.inr hcs))]

end BareBones
