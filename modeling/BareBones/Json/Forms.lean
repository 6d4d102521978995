/-
The JSON forms of values, environments, programs and snapshots.

A value is an object with its kind as `t` and its content as `v`; further members do not matter.
The kind is a string, or an object with the kind as its only name and nothing behind it.  Kind and
content may also come as an array, as may the four parts of a statement.  A member that counts may
not be repeated.
-/
import BareBones.Json.Number
import BareBones.Json.Printer
import BareBones.Json.Reader
import BareBones.Machine.Basic

namespace BareBones

/-- The only item of a list. -/
def only? {α : Type} : List α → Option α
  | [a] => some a
  | _ => none

namespace Value

/-- The value as a document. -/
def toJson : Value → Json
  | int n => .object [("t", .string "Int"), ("v", .ofNat n.toNat)]
  | float x => .object [("t", .string "Float"), ("v", .ofFloat x)]
  | bool b => .object [("t", .string "Bool"), ("v", .bool b)]
  | str s => .object [("t", .string "Str"), ("v", .string s)]

/-- The value of the kind with the content. -/
def ofContent? : String → Json → Option Value
  | "Int", .number text => (Json.natural? text).map fun n => int (UInt64.ofNat n)
  | "Float", .number text => (Json.double? text).map float
  | "Bool", .bool b => some (bool b)
  | "Str", .string s => some (str s)
  | _, _ => none

/-- The kind that a document names. -/
def kindName? : Json → Option String
  | .string kind => some kind
  | .object [(kind, .null)] => some kind
  | _ => none

/-- Reads a value. -/
def ofJson? : Json → Option Value
  | .array [kind, content] => (kindName? kind).bind (ofContent? · content)
  | doc =>
    match only? (doc.members "t"), only? (doc.members "v") with
    | some kind, some content => (kindName? kind).bind (ofContent? · content)
    | _, _ => none

end Value

namespace Environment

/-- The environment as a document, in the order of the names. -/
def toJson (env : Environment) : Json :=
  .object (env.entries.map fun (name, v) => (name, v.toJson))

/-- Reads an environment.  Of two variables with one name the later counts. -/
def ofJson? (doc : Json) : Option Environment :=
  match doc.object? with
  | none => none
  | some ms => (ms.mapM fun m => (Value.ofJson? m.2).map (m.1, ·)).map NameMap.ofList

end Environment

namespace Statement

/-- The statement as a document. -/
def toJson (s : Statement) : Json :=
  .object [("operation", .string s.operation),
    ("arguments", .array (s.arguments.map .string)),
    ("text", .string s.text),
    ("line", .ofNat s.line)]

/-- A statement from its four parts. -/
def ofParts? : Json → Json → Json → Json → Option Statement
  | .string operation, .array arguments, .string text, .number line =>
    match arguments.mapM Json.string?, Json.natural? line with
    | some arguments, some line => some ⟨operation, arguments, text, line⟩
    | _, _ => none
  | _, _, _, _ => none

/-- Reads a statement. -/
def ofJson? : Json → Option Statement
  | .array [operation, arguments, text, line] => ofParts? operation arguments text line
  | doc =>
    match only? (doc.members "operation"), only? (doc.members "arguments"),
        only? (doc.members "text"), only? (doc.members "line") with
    | some operation, some arguments, some text, some line =>
      ofParts? operation arguments text line
    | _, _, _, _ => none

end Statement

namespace Program

/-- The program as a document: its statements. -/
def toJson (p : Program) : Json :=
  .array (p.statements.toList.map Statement.toJson)

/-- Reads a program from its statements. -/
def ofJson? (doc : Json) : Option Program :=
  match doc.array? with
  | none => none
  | some items => (items.mapM Statement.ofJson?).map ofStatements

end Program

/-- The moment as a document. -/
def Moment.toJson : Moment → Json
  | initial => .object [("t", .string "Initial")]
  | afterStatement address =>
    .object [("t", .string "AfterStatement"), ("address", .ofNat address)]
  | final => .object [("t", .string "Final")]

/-- The scope as a document. -/
def Scope.toJson : Scope → Json
  | main => .object [("t", .string "Main")]
  | function name depth =>
    .object [("t", .string "Function"), ("name", .string name), ("depth", .ofNat depth)]

end BareBones
