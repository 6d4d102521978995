/-
From fragments to statements.

The statement of a fragment depends on the words of the fragment only.  Grouping words into tokens
adds and drops nothing, so the text of the statement is the words with spaces between them.
-/
import BareBones.Program
import BareBones.Proofs.Source.Fragments

namespace BareBones

open BareBones.Text

/-- The tokens that the statement is made of. -/
def Statement.tokens (s : Statement) : List String :=
  s.operation :: s.arguments

namespace Source

/-- Tokens are words that were joined with spaces, so with spaces before them they are the same. -/
theorem flatMap_of_group : ∀ {ws : List (List Char)} {pending : Option (List Char)}
    {ts : List (List Char)}, group pending ws = some ts →
    ts.flatMap (' ' :: ·) = (pending.toList ++ ws).flatMap (' ' :: ·) := by
  intro ws
  induction ws with
  | nil =>
      intro pending ts h
      cases pending with
      | none =>
          obtain rfl := Option.some.inj h
          rfl
      | some p => simp [group] at h
  | cons w ws ih =>
      intro pending ts h
      cases pending with
      | none =>
          simp only [group] at h
          split at h
          · exact ih h
          · obtain ⟨ts', hts', rfl⟩ := Option.map_eq_some_iff.1 h
            have hrest := ih hts'
            simp only [Option.toList_none, List.nil_append] at hrest
            simp [hrest]
      | some p =>
          simp only [group] at h
          split at h
          · obtain ⟨ts', hts', rfl⟩ := Option.map_eq_some_iff.1 h
            have hrest := ih hts'
            simp only [Option.toList_none, List.nil_append] at hrest
            simp [hrest]
          · simp [ih h]

theorem unwords_of_group {ws ts : List (List Char)} (h : group none ws = some ts) :
    unwords ts = unwords ws := by
  rw [unwords_eq_tail, unwords_eq_tail, flatMap_of_group h]
  rfl

/-- A fragment with a mark has words. -/
theorem words_ne_nil {cs : List Char} (h : firstMark? cs ≠ none) : words cs ≠ [] := by
  intro hnil
  have hflat := flatten_words cs
  rw [hnil] at hflat
  refine h (List.find?_eq_none.2 ?_)
  intro c hc
  simpa using List.filter_eq_nil_iff.1 hflat.symm c hc

namespace Fragment

variable {f : Fragment} {ts : List String}

/-- Fragments with the same words have the same tokens. -/
theorem map_tokens? (fs : List Fragment) :
    fs.map tokens?
      = (fs.map (words ·.text)).map fun ws => (group none ws).map (·.map String.ofList) := by
  rw [List.map_map]
  rfl

/-- The tokens with spaces between them are the words with spaces between them. -/
theorem toList_intercalate_of_tokens? (h : f.tokens? = some ts) :
    (" ".intercalate ts).toList = unwords (words f.text) := by
  obtain ⟨gs, hgs, rfl⟩ := Option.map_eq_some_iff.1 h
  rw [toList_intercalate_space, List.map_map, ← unwords_of_group hgs]
  congr 1
  exact List.map_id'' (fun _ => String.toList_ofList) gs

/-- A fragment with a mark has tokens. -/
theorem tokens?_ne_nil (h : firstMark? f.text ≠ none) : f.tokens? ≠ some [] := by
  intro hnil
  have htext := toList_intercalate_of_tokens? hnil
  cases hws : words f.text with
  | nil => exact words_ne_nil h hws
  | cons w ws =>
      have hw : IsWord w := isWord_of_mem_words (by rw [hws]; exact List.mem_cons_self)
      cases w with
      | nil => exact hw.1 rfl
      | cons c w =>
          obtain ⟨cs, hcs⟩ := exists_unwords_eq_cons c w ws
          rw [hws, hcs] at htext
          simp at htext

end Fragment

/-- Fragments that all have tokens give statements of these tokens. -/
theorem statements_of_tokens? : ∀ {fs : List Fragment} {tss : List (List String)},
    fs.map Fragment.tokens? = tss.map some → (∀ ts ∈ tss, ts ≠ []) →
    ∃ ss, statements fs = .ok ss ∧ ss.map Statement.tokens = tss ∧
      ss.map Statement.text = tss.map (" ".intercalate ·) ∧
      ss.map Statement.line = fs.map Fragment.line := by
  intro fs
  induction fs with
  | nil =>
      intro tss h _
      cases tss with
      | nil => exact ⟨[], rfl, rfl, rfl, rfl⟩
      | cons ts tss => simp at h
  | cons f fs ih =>
      intro tss h hne
      cases tss with
      | nil => simp at h
      | cons ts tss =>
          simp only [List.map_cons, List.cons.injEq] at h
          obtain ⟨ss, hss, htokens, htexts, hlines⟩ :=
            ih h.2 (fun us hus => hne us (List.mem_cons_of_mem ts hus))
          cases ts with
          | nil => exact absurd rfl (hne [] List.mem_cons_self)
          | cons operation arguments =>
              have hfirst : statements (f :: fs) = .ok (⟨operation, arguments,
                  " ".intercalate (operation :: arguments), f.line⟩ :: ss) := by
                simp only [statements, h.1, hss]
                rfl
              refine ⟨_, hfirst, ?_, ?_, ?_⟩
              · rw [List.map_cons, htokens]
                rfl
              · rw [List.map_cons, htexts]
                rfl
              · rw [List.map_cons, hlines]
                rfl

/-- Fragments are read one after the other, and the first error is the one that counts. -/
theorem statements_append_eq : ∀ fs gs : List Fragment,
    statements (fs ++ gs) = (statements fs).bind fun ss => (statements gs).map (ss ++ ·) := by
  intro fs gs
  induction fs with
  | nil =>
      show statements gs = (statements gs).map ([] ++ ·)
      cases statements gs <;> rfl
  | cons f fs ih =>
      simp only [List.cons_append, statements, ih]
      cases f.tokens? with
      | none => rfl
      | some ts =>
          cases statements fs with
          | error e => rfl
          | ok ss =>
              cases statements gs with
              | error e => rfl
              | ok ss' => exact congrArg Except.ok (List.append_assoc ..).symm

theorem statements_append {fs gs : List Fragment} {ss : List Statement}
    (h : statements (fs ++ gs) = .ok ss) :
    ∃ ss₁ ss₂, statements fs = .ok ss₁ ∧ statements gs = .ok ss₂ ∧ ss = ss₁ ++ ss₂ := by
  rw [statements_append_eq] at h
  cases hfs : statements fs with
  | error e =>
      rw [hfs] at h
      cases h
  | ok ss₁ =>
      cases hgs : statements gs with
      | error e =>
          rw [hfs, hgs] at h
          cases h
      | ok ss₂ =>
          rw [hfs, hgs] at h
          exact ⟨ss₁, ss₂, rfl, rfl, (Except.ok.inj h).symm⟩

/-- The statements of fragments with marks have the tokens of the fragments, one statement for
each fragment. -/
theorem tokens?_of_statements : ∀ {fs : List Fragment} {ss : List Statement},
    statements fs = .ok ss → (∀ f ∈ fs, firstMark? f.text ≠ none) →
    fs.map Fragment.tokens? = (ss.map Statement.tokens).map some ∧
      ss.map Statement.text = (ss.map Statement.tokens).map (" ".intercalate ·) := by
  intro fs
  induction fs with
  | nil =>
      intro ss h _
      cases h
      exact ⟨rfl, rfl⟩
  | cons f fs ih =>
      intro ss h hmarks
      simp only [statements] at h
      cases htokens : f.tokens? with
      | none => simp [htokens] at h
      | some ts =>
          cases hrest : statements fs with
          | error e => simp [htokens, hrest] at h
          | ok ss' =>
              simp only [htokens, hrest, Except.ok.injEq] at h
              obtain ⟨hfs, htexts⟩ := ih hrest (fun g hg => hmarks g (List.mem_cons_of_mem f hg))
              cases ts with
              | nil => exact absurd htokens (Fragment.tokens?_ne_nil (hmarks f List.mem_cons_self))
              | cons operation arguments =>
                  rw [← h]
                  refine ⟨?_, ?_⟩
                  · simp [Statement.ofTokens?, Statement.tokens, htokens, hfs]
                  · simp [Statement.ofTokens?, Statement.tokens, htexts]

theorem length_of_statements {fs : List Fragment} {ss : List Statement}
    (h : statements fs = .ok ss) (hmarks : ∀ f ∈ fs, firstMark? f.text ≠ none) :
    ss.length = fs.length := by
  have hlength := congrArg List.length (tokens?_of_statements h hmarks).1
  simpa using hlength.symm

theorem parse_eq_ok {source : String} {p : Program} (h : Program.parse source = .ok p) :
    ∃ ss, statements (fragments source.toList) = .ok ss ∧ p = Program.ofStatements ss := by
  unfold Program.parse at h
  split at h
  · cases h
  · next ss hss =>
    cases h
    exact ⟨ss, hss, rfl⟩

end Source

theorem Program.parse_eq {source : String} {ss : List Statement}
    (h : Source.statements (Source.fragments source.toList) = .ok ss) :
    Program.parse source = .ok (Program.ofStatements ss) := by
  simp only [parse, h]

end BareBones
