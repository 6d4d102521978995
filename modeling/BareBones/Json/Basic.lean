/-
JSON documents.

A document keeps what its text says: numbers as they are written, and the members of an object in
order, repeated names included.  What a number is worth is a question for whoever asks.

A string can be well-formed and yet write no text, because it has half of a surrogate pair.  Such a
string is illegible, and so is an object with such a name.  That does no harm as long as nobody
wants to know what it says.
-/

namespace BareBones

/-- A JSON document. -/
inductive Json where
  | null
  | bool (b : Bool)
  | number (text : String)
  | string (s : String)
  | array (items : List Json)
  | object (members : List (String × Json))
  | illegible
  deriving Inhabited

namespace Json

/-- A whole number as a document. -/
def ofNat (n : Nat) : Json :=
  .number (toString n)

/-- The members of that name, in order. -/
def members (name : String) : Json → List Json
  | .object ms => (ms.filter (·.1 == name)).map (·.2)
  | _ => []

/-- The last member of that name. -/
def get? (doc : Json) (name : String) : Option Json :=
  (doc.members name).getLast?

/-- The text of a string. -/
def string? : Json → Option String
  | .string s => some s
  | _ => none

/-- The value of `true` and `false`. -/
def bool? : Json → Option Bool
  | .bool b => some b
  | _ => none

/-- The items of an array. -/
def array? : Json → Option (List Json)
  | .array items => some items
  | _ => none

/-- The members of an object. -/
def object? : Json → Option (List (String × Json))
  | .object ms => some ms
  | _ => none

mutual

/-- How many arrays and objects lie inside each other. -/
def depth : Json → Nat
  | .array items => depthOfItems items + 1
  | .object ms => depthOfMembers ms + 1
  | _ => 0

/-- The depth of the deepest item. -/
def depthOfItems : List Json → Nat
  | [] => 0
  | item :: items => max item.depth (depthOfItems items)

/-- The depth of the deepest member. -/
def depthOfMembers : List (String × Json) → Nat
  | [] => 0
  | (_, item) :: ms => max item.depth (depthOfMembers ms)

end

end Json

end BareBones
