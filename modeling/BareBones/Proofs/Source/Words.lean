/-
A text and its words.

Taking a text apart into words loses the blanks and nothing else, and writing words with a space
between each two of them loses nothing.  So a text that was taken apart and written again has the
words that it had, and the characters that it had but for the blanks.
-/
import BareBones.Text.Words

namespace BareBones.Text

/-- The words with one space between each two. -/
def unwords (ws : List (List Char)) : List Char :=
  [' '].intercalate ws

@[simp]
theorem unwords_nil : unwords [] = [] := rfl

@[simp]
theorem unwords_singleton (w : List Char) : unwords [w] = w := by
  simp [unwords]

@[simp]
theorem unwords_cons_cons (w v : List Char) (ws : List (List Char)) :
    unwords (w :: v :: ws) = w ++ ' ' :: unwords (v :: ws) := by
  simp [unwords]

/-- Joining strings with spaces is `unwords`. -/
theorem toList_intercalate_space (ts : List String) :
    (" ".intercalate ts).toList = unwords (ts.map String.toList) := by
  rw [String.toList_intercalate]
  rfl

/-- The words with a space in front of each, less the first space. -/
theorem unwords_eq_tail : ∀ ws : List (List Char), unwords ws = (ws.flatMap (' ' :: ·)).tail := by
  intro ws
  induction ws with
  | nil => rfl
  | cons w ws ih =>
      cases ws with
      | nil => simp
      | cons v ws =>
          rw [unwords_cons_cons, ih]
          simp

theorem ne_of_isBlank {c d : Char} (hc : isBlank c = true) (hd : isBlank d = false) : c ≠ d := by
  rintro rfl
  rw [hc] at hd
  cases hd

/-- Blanks in front of a text add no words. -/
theorem words_append_of_blank : ∀ {xs : List Char}, (∀ c ∈ xs, isBlank c = true) →
    ∀ ys, words (xs ++ ys) = words ys := by
  intro xs
  induction xs with
  | nil => intro _ ys; rfl
  | cons c xs ih =>
      intro hxs ys
      rw [List.cons_append, words_cons_of_isBlank (hxs c List.mem_cons_self)]
      exact ih (fun d hd => hxs d (List.mem_cons_of_mem c hd)) ys

/-- A word: at least one character, and none of them blank. -/
def IsWord (w : List Char) : Prop :=
  w ≠ [] ∧ ∀ c ∈ w, isBlank c = false

theorem IsWord.words_eq {w : List Char} (hw : IsWord w) : words w = [w] :=
  words_of_forall_not_isBlank hw.1 hw.2

/-- The words of a text are words. -/
theorem isWord_of_mem_words : ∀ {cs w : List Char}, w ∈ words cs → IsWord w := by
  intro cs
  induction cs with
  | nil => intro w hw; simp [words] at hw
  | cons c cs ih =>
      intro w hw
      simp only [words] at hw
      by_cases hc : isBlank c = true
      · rw [if_pos hc] at hw
        exact ih hw
      · have hc' : isBlank c = false := by simpa using hc
        rw [if_neg hc] at hw
        by_cases hs : startsWord cs = true
        · rw [if_pos hs] at hw
          -- The character goes in front of the first word, which is there.
          cases hws : words cs with
          | nil => exact absurd hws (words_ne_nil_of_startsWord hs)
          | cons v vs =>
              rw [hws] at hw ih
              rcases List.mem_cons.1 hw with rfl | hw
              · refine ⟨by simp, ?_⟩
                intro d hd
                rcases List.mem_cons.1 hd with rfl | hd
                · exact hc'
                · exact (ih List.mem_cons_self).2 d hd
              · exact ih (List.mem_cons_of_mem v hw)
        · rw [if_neg hs] at hw
          rcases List.mem_cons.1 hw with rfl | hw
          · exact ⟨by simp, by simpa using hc'⟩
          · exact ih hw

/-- The words of a text hold its characters in order, without the blanks. -/
theorem flatten_words (cs : List Char) : (words cs).flatten = cs.filter (!isBlank ·) := by
  induction cs with
  | nil => rfl
  | cons c cs ih =>
      simp only [words]
      by_cases hc : isBlank c = true
      · simp [hc, ih]
      · have hc' : isBlank c = false := by simpa using hc
        rw [if_neg hc]
        by_cases hs : startsWord cs = true
        · rw [if_pos hs]
          cases hws : words cs with
          | nil => exact absurd hws (words_ne_nil_of_startsWord hs)
          | cons v vs =>
              rw [hws] at ih
              simp only [List.flatten_cons] at ih
              simp [joinFirst, hc', ih]
        · rw [if_neg hs]
          simp [hc', ih]

theorem words_unwords_flatMap : ∀ ws : List (List Char), words (unwords ws) = ws.flatMap words := by
  intro ws
  induction ws with
  | nil => rfl
  | cons w ws ih =>
      cases ws with
      | nil => simp
      | cons v ws =>
          rw [unwords_cons_cons, words_append_cons_of_isBlank (by decide), ih]
          rfl

/-- Words written with spaces between are read back. -/
theorem words_unwords {ws : List (List Char)} (hws : ∀ w ∈ ws, IsWord w) :
    words (unwords ws) = ws := by
  rw [words_unwords_flatMap]
  induction ws with
  | nil => rfl
  | cons w ws ih =>
      have hw : words w = [w] := (hws w List.mem_cons_self).words_eq
      have hrest := ih fun v hv => hws v (List.mem_cons_of_mem w hv)
      rw [List.flatMap_cons, hw, hrest]
      rfl

theorem words_unwords_words (cs : List Char) : words (unwords (words cs)) = words cs :=
  words_unwords fun _ hw => isWord_of_mem_words hw

/-- A character of words written with spaces is one of a word, or a space. -/
theorem mem_unwords {c : Char} : ∀ {ws : List (List Char)}, c ∈ unwords ws →
    c = ' ' ∨ ∃ w ∈ ws, c ∈ w := by
  intro ws
  induction ws with
  | nil => intro hc; simp at hc
  | cons w ws ih =>
      intro hc
      cases ws with
      | nil =>
          rw [unwords_singleton] at hc
          exact Or.inr ⟨w, List.mem_cons_self, hc⟩
      | cons v ws =>
          rw [unwords_cons_cons] at hc
          rcases List.mem_append.1 hc with hc | hc
          · exact Or.inr ⟨w, List.mem_cons_self, hc⟩
          · rcases List.mem_cons.1 hc with rfl | hc
            · exact Or.inl rfl
            · rcases ih hc with hc | ⟨u, hu, hc⟩
              · exact Or.inl hc
              · exact Or.inr ⟨u, List.mem_cons_of_mem w hu, hc⟩

/-- The text starts as its first word does. -/
theorem exists_unwords_eq_cons (c : Char) (w : List Char) (ws : List (List Char)) :
    ∃ cs, unwords ((c :: w) :: ws) = c :: cs := by
  cases ws with
  | nil => exact ⟨w, unwords_singleton _⟩
  | cons v ws => exact ⟨w ++ ' ' :: unwords (v :: ws), unwords_cons_cons _ _ _⟩

end BareBones.Text
