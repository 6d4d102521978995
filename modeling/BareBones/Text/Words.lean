/-
Words of a text.

A word is a maximal run of characters none of which is blank.  Two equations fix the words of every
text: a text without blanks is one word, and a blank parts the words before it from those after it.
-/
import BareBones.Text.Blank

namespace BareBones.Text

/-- Puts a character in front of the first word, or makes it a word of its own. -/
def joinFirst (c : Char) : List (List Char) → List (List Char)
  | [] => [[c]]
  | w :: ws => (c :: w) :: ws

/-- Does the text start with a character of a word? -/
def startsWord : List Char → Bool
  | [] => false
  | c :: _ => !isBlank c

/-- The words of a text, in order. -/
def words : List Char → List (List Char)
  | [] => []
  | c :: cs =>
    if isBlank c then words cs
    else if startsWord cs then joinFirst c (words cs)
    else [c] :: words cs

theorem words_cons_of_isBlank {c : Char} (h : isBlank c = true) (cs : List Char) :
    words (c :: cs) = words cs := by
  simp [words, h]

theorem words_ne_nil_of_startsWord {cs : List Char} (h : startsWord cs = true) :
    words cs ≠ [] := by
  cases cs with
  | nil => simp [startsWord] at h
  | cons c cs =>
    have hc : isBlank c = false := by simpa [startsWord] using h
    simp only [words, hc, Bool.false_eq_true, if_false]
    split
    · cases words cs <;> simp [joinFirst]
    · simp

theorem joinFirst_append {c : Char} {ws : List (List Char)} (h : ws ≠ []) (vs : List (List Char)) :
    joinFirst c (ws ++ vs) = joinFirst c ws ++ vs := by
  cases ws with
  | nil => exact absurd rfl h
  | cons w ws => rfl

/-- A blank parts the words before it from the words after it. -/
theorem words_append_cons_of_isBlank {b : Char} (h : isBlank b = true) (xs ys : List Char) :
    words (xs ++ b :: ys) = words xs ++ words ys := by
  induction xs with
  | nil => simpa [words] using words_cons_of_isBlank h ys
  | cons c cs ih =>
    have hs : startsWord (cs ++ b :: ys) = startsWord cs := by
      cases cs <;> simp [startsWord, h]
    by_cases hc : isBlank c = true
    · simp [words, hc, ih]
    · simp only [List.cons_append, words, hc, hs, ih]
      by_cases hw : startsWord cs = true
      · simp [hw, joinFirst_append (words_ne_nil_of_startsWord hw)]
      · simp [hw]

/-- A text without blanks is one word. -/
theorem words_of_forall_not_isBlank {w : List Char} (hne : w ≠ [])
    (h : ∀ c ∈ w, isBlank c = false) : words w = [w] := by
  induction w with
  | nil => exact absurd rfl hne
  | cons c cs ih =>
    have hc : isBlank c = false := h c (by simp)
    cases cs with
    | nil => simp [words, hc, startsWord]
    | cons d ds =>
      have hd : isBlank d = false := h d (by simp)
      have := ih (by simp) (fun e he => h e (List.mem_cons_of_mem _ he))
      rw [words, if_neg (by simp [hc]), if_pos (by simp [startsWord, hd]), this]
      rfl

end BareBones.Text
