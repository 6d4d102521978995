/-
The nodes of a YAML document and the settings they give.

A scalar without quotes and without a tag is a number, a truth value or nothing if it looks like
one, and a text otherwise.  A node can have an anchor, and a reference further on stands for that
node again.  The names in a mapping are texts or whole numbers, and none is given twice.
-/
import BareBones.Settings.Setting

namespace BareBones.Yaml

/-- What is said about the type of a node. -/
inductive Tag where
  /-- One of the types that every file knows. -/
  | core (name : String)
  | other
  deriving DecidableEq, Repr

/-- A node of a document. -/
inductive Node where
  /-- A text.  `plain` tells that it has no quotes. -/
  | scalar (plain : Bool) (tag : Option Tag) (text : String)
  | sequence (items : List Node)
  | mapping (pairs : List (Node × Node))
  | anchored (name : String) (node : Node)
  /-- The node with that anchor again. -/
  | again (name : String)
  deriving Inhabited

/-- The node that is not there. -/
def Node.empty : Node :=
  .scalar true none "~"

/-- The names of infinity and of what is no number. -/
def specialNumbers : List String :=
  [".inf", ".Inf", ".INF", "+.inf", "+.Inf", "+.INF", "-.inf", "-.Inf", "-.INF", ".nan", "NaN",
    ".NAN"]

/-- Does the text look like a double? -/
def looksDouble (text : String) : Bool :=
  specialNumbers.contains text ||
    (text.toList.any Char.isDigit && (Double.read? text.toList).isSome)

/-- The whole number that a text in base 16 or 8 or with a plus writes. -/
def marked? (text : String) : Option Int :=
  match text.toList with
  | '0' :: 'x' :: cs => Setting.readInt64? 16 cs
  | '0' :: 'o' :: cs => Setting.readInt64? 8 cs
  | '+' :: cs => Setting.readInt64? 10 cs
  | _ => none

/-- The double that a text writes.  The names of infinity look like doubles but write none. -/
def double? (text : String) : Option Setting :=
  (Double.read? text.toList).map .float

/-- The setting that a text without quotes gives. -/
def ofPlain? (text : String) : Option Setting :=
  match (marked? text).orElse fun _ => Setting.readInt64? 10 text.toList with
  | some n => some (.int n)
  | none =>
    match text with
    | "" | "~" | "null" => some .nothing
    | "true" => some (.bool true)
    | "false" => some (.bool false)
    | text => if looksDouble text then double? text else some (.text text)

/-- The setting that a text without quotes gives under a tag.  A text that is not what the tag says
gives nothing. -/
def ofTagged? (tag : Tag) (text : String) : Option Setting :=
  match tag with
  | .core "bool" => some <|
    match text with
    | "true" => .bool true
    | "false" => .bool false
    | _ => .nothing
  | .core "int" => some <|
    match Setting.readInt64? 10 text.toList with
    | some n => .int n
    | none => .nothing
  | .core "float" => if looksDouble text then double? text else some .nothing
  | .core "null" => some .nothing
  | _ => some (.text text)

/-- The setting that a scalar gives. -/
def ofScalar? (plain : Bool) (tag : Option Tag) (text : String) : Option Setting :=
  match plain, tag with
  | true, none => ofPlain? text
  | true, some tag => ofTagged? tag text
  | false, _ => some (.text text)

/-- A name in a mapping: the text of it, and whether it is a number. -/
def nameOf? : Setting → Option (String × Bool)
  | .text s => some (s, false)
  | .int n => some (toString n, true)
  | _ => none

/-- What anchors stand for, the newest first. -/
abbrev Anchors := List (String × Setting)

mutual

/-- The setting that a node gives, and the anchors that are known behind it.  Inside the node of an
anchor, a reference to it gives nothing. -/
def Node.setting? (anchors : Anchors) : Node → Option (Setting × Anchors)
  | .scalar plain tag text => (ofScalar? plain tag text).map (·, anchors)
  | .sequence items => (afterItems? anchors items).map (.list, ·)
  | .mapping pairs =>
    (entries? anchors [] pairs).map fun (es, anchors) =>
      (.ofEntries (es.reverse.map fun e => (e.1.1, e.2)), anchors)
  | .anchored name node =>
    (node.setting? ((name, .nothing) :: anchors)).map fun (s, anchors) =>
      (s, (name, s) :: anchors)
  | .again name => (anchors.lookup name).map (·, anchors)

/-- The anchors that are known behind the items of a sequence. -/
def afterItems? (anchors : Anchors) : List Node → Option Anchors
  | [] => some anchors
  | item :: items =>
    match item.setting? anchors with
    | some (_, anchors) => afterItems? anchors items
    | none => none

/-- The entries that the pairs of a mapping give, the newest first, and the anchors that are known
behind them. -/
def entries? (anchors : Anchors) (done : List ((String × Bool) × Setting)) :
    List (Node × Node) → Option (List ((String × Bool) × Setting) × Anchors)
  | [] => some (done, anchors)
  | (key, value) :: pairs =>
    match key.setting? anchors with
    | none => none
    | some (key, anchors) =>
      match nameOf? key, value.setting? anchors with
      | some name, some (value, anchors) =>
        if done.any (·.1 == name) then none else entries? anchors ((name, value) :: done) pairs
      | _, _ => none

end

end BareBones.Yaml
