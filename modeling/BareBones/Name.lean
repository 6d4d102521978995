/-
Names of variables and functions.

A name is a letter or `_`, and then letters, numerals and `_`.  Words with a meaning of their own
are no names.  Functions start with a capital; variables do not, except that a single capital
is a variable's name as well.
-/
import BareBones.Arithmetic.Vocabulary
import BareBones.Keyword
import BareBones.Text.Capital
import BareBones.Text.Letter
import BareBones.Text.Numeral

namespace BareBones

open BareBones.Text

/-- Why a text cannot be the name it is to be. -/
inductive NameError where
  | reserved (name : String)
  | functionNamespace (name : String)
  | notCapitalized (name : String)
  | malformed (name : String)
  deriving DecidableEq, Repr

/-- The message for the user. -/
def NameError.message : NameError → String
  | .reserved name => "'" ++ name ++ "' is a reserved word"
  | .functionNamespace name => "'" ++ name ++ "' is reserved for function names"
  | .notCapitalized name => "function name '" ++ name ++ "' must start with a capital letter"
  | .malformed name => "'" ++ name ++ "' is not a valid identifier"

namespace Name

/-- Can the character stand in a name? -/
def isNameChar (c : Char) : Bool :=
  isLetter c || isNumeral c || c == '_'

/-- Does the word have a meaning of its own? -/
def isReserved (name : String) : Bool :=
  (Keyword.ofWord? name).isSome || Arithmetic.isReserved name

/-- Does the name start with a capital? -/
def startsCapital (name : String) : Bool :=
  name.toList.head?.any isCapital

/-- Checks what all names have in common. -/
def checkIdentifier (name : String) : Except NameError Unit :=
  match name.toList with
  | [] => .error (.malformed name)
  | c :: cs =>
    if isReserved name then .error (.reserved name)
    else if (isLetter c || c == '_') && (c :: cs).all isNameChar then .ok ()
    else .error (.malformed name)

/-- Checks the name of a variable or a parameter. -/
def checkVariable (name : String) : Except NameError Unit :=
  match checkIdentifier name with
  | .error e => .error e
  | .ok () =>
    if startsCapital name && 1 < name.toList.length then .error (.functionNamespace name)
    else .ok ()

/-- A name that can be a variable's has no meaning of its own, starts with a letter or `_` and is made
of the characters that can stand in a name. -/
theorem of_checkVariable {name : String} (h : checkVariable name = .ok ()) :
    isReserved name = false ∧ ∃ c cs, name.toList = c :: cs ∧ (isLetter c || c == '_') = true ∧
      ∀ d ∈ c :: cs, isNameChar d = true := by
  unfold checkVariable checkIdentifier at h
  split at h
  · cases h
  · next hid =>
    split at hid
    · cases hid
    · next c cs hcs =>
      split at hid
      · cases hid
      · next hreserved =>
        split at hid
        · next hchars =>
          obtain ⟨hfirst, hall⟩ := Bool.and_eq_true_iff.1 hchars
          exact ⟨eq_false_of_ne_true hreserved, c, cs, hcs, hfirst, List.all_eq_true.1 hall⟩
        · cases hid

/-- Checks the name of a function. -/
def checkFunction (name : String) : Except NameError Unit :=
  if startsCapital name then checkIdentifier name else .error (.notCapitalized name)

end Name

end BareBones
