/-
Settings files in YAML.

A file holds one document or none, and the document is a mapping.  Its nodes are read from the
tokens, which have a start and an end for every collection but one: a sequence in a mapping that is
indented no further than the mapping itself ends where no item follows.
-/
import BareBones.Settings.Yaml.Node
import BareBones.Settings.Yaml.Token

namespace BareBones.Yaml

/-- What the handles of tags stand for. -/
abbrev Handles := List (String × String)

/-- What the names of the types that every file knows start with. -/
def coreHandle : String := "tag:yaml.org,2002:"

/-- The tag that a handle and a suffix make.  A handle with a name must be declared. -/
def tagOf? (handles : Handles) (handle suffix : String) : Option Tag :=
  let tagIn (start : String) : Tag := if start == coreHandle then .core suffix else .other
  match handles.lookup handle with
  | some start => some (tagIn start)
  | none =>
    if handle == "!!" then some (tagIn coreHandle)
    else if handle == "" || handle == "!" then some .other
    else none

/-- What stands in front of a node. -/
structure Marks where
  anchor : Option String := none
  tag : Option Tag := none

/-- Reads what stands in front of a node: an anchor and a tag at most, in either order. -/
def readMarks? (handles : Handles) : List Token → Option (Marks × List Token)
  | .anchor name :: .tag handle suffix :: ts =>
    (tagOf? handles handle suffix).map fun tag => (⟨some name, some tag⟩, ts)
  | .tag handle suffix :: .anchor name :: ts =>
    (tagOf? handles handle suffix).map fun tag => (⟨some name, some tag⟩, ts)
  | .anchor name :: ts => some (⟨some name, none⟩, ts)
  | .tag handle suffix :: ts =>
    (tagOf? handles handle suffix).map fun tag => (⟨none, some tag⟩, ts)
  | ts => some ({}, ts)

/-- The node with its anchor. -/
def Marks.on (marks : Marks) (node : Node) : Node :=
  match marks.anchor with
  | some name => .anchored name node
  | none => node

/-- Where a node stands. -/
inductive Place where
  /-- In lines of its own. -/
  | lines
  /-- In lines of its own, as a key or a value. -/
  | pair
  /-- Inside of brackets or braces. -/
  | flow
  deriving DecidableEq, Repr

/-- Does a node not start here?  `ends` are the tokens that say so. -/
def isAt (ends : List Token) (ts : List Token) : Bool :=
  ts.head?.any ends.contains

mutual

/-- Reads a node. -/
def readNode (handles : Handles) : Nat → Place → List Token → Option (Node × List Token)
  | 0, _, _ => none
  | _ + 1, _, .again name :: ts => some (.again name, ts)
  | fuel + 1, place, ts => do
    let (marks, ts) ← readMarks? handles ts
    let found : Option (Node × List Token) := match ts, place with
      | .item :: _, .pair => readItems handles fuel [] ts
      | .scalar plain text :: ts, _ => some (.scalar plain marks.tag text, ts)
      | .flowSequence :: ts, _ => readFlowItems handles fuel true [] ts
      | .flowMapping :: ts, _ => readFlowPairs handles fuel true [] ts
      | .blockSequence :: ts, .lines => readSequence handles fuel [] ts
      | .blockSequence :: ts, .pair => readSequence handles fuel [] ts
      | .blockMapping :: ts, .lines => readPairs handles fuel [] ts
      | .blockMapping :: ts, .pair => readPairs handles fuel [] ts
      | ts, _ =>
        if marks.anchor.isSome || marks.tag.isSome then some (.scalar true marks.tag "", ts)
        else none
    found.map fun (node, ts) => (marks.on node, ts)

/-- Reads a node, or nothing before one of the tokens. -/
def readOptional (handles : Handles) :
    Nat → Place → List Token → List Token → Option (Node × List Token)
  | 0, _, _, _ => none
  | fuel + 1, place, ends, ts =>
    if isAt ends ts then some (.empty, ts) else readNode handles fuel place ts

/-- Reads the items of a sequence that has no end of its own.  `done` holds the newest first. -/
def readItems (handles : Handles) : Nat → List Node → List Token → Option (Node × List Token)
  | 0, _, _ => none
  | fuel + 1, done, .item :: ts =>
    match readOptional handles fuel .lines [.item, .key, .value, .blockEnd] ts with
    | some (item, ts) => readItems handles fuel (item :: done) ts
    | none => none
  | _ + 1, done, ts => some (.sequence done.reverse, ts)

/-- Reads the items of a sequence.  `done` holds the newest first. -/
def readSequence (handles : Handles) : Nat → List Node → List Token → Option (Node × List Token)
  | 0, _, _ => none
  | _ + 1, done, .blockEnd :: ts => some (.sequence done.reverse, ts)
  | fuel + 1, done, .item :: ts =>
    match readOptional handles fuel .lines [.item, .blockEnd] ts with
    | some (item, ts) => readSequence handles fuel (item :: done) ts
    | none => none
  | _ + 1, _, _ => none

/-- Reads the pairs of a mapping.  `done` holds the newest first. -/
def readPairs (handles : Handles) :
    Nat → List (Node × Node) → List Token → Option (Node × List Token)
  | 0, _, _ => none
  | _ + 1, done, .blockEnd :: ts => some (.mapping done.reverse, ts)
  | fuel + 1, done, ts => do
    let ends : List Token := [.key, .value, .blockEnd]
    let (key, ts) ← match ts with
      | .key :: ts => readOptional handles fuel .pair ends ts
      | .value :: _ => some (.empty, ts)
      | _ => none
    let (value, ts) ← match ts with
      | .value :: ts => readOptional handles fuel .pair ends ts
      | _ => some (.empty, ts)
    readPairs handles fuel ((key, value) :: done) ts

/-- Reads the items between brackets.  `done` holds the newest first. -/
def readFlowItems (handles : Handles) :
    Nat → Bool → List Node → List Token → Option (Node × List Token)
  | 0, _, _, _ => none
  | _ + 1, _, done, .flowSequenceEnd :: ts => some (.sequence done.reverse, ts)
  | fuel + 1, first, done, ts => do
    let ts ← match first, ts with
      | true, ts => some ts
      | false, .comma :: ts => some ts
      | false, _ => none
    match ts with
    | .flowSequenceEnd :: ts => some (.sequence done.reverse, ts)
    | .key :: ts =>
      let (key, ts) ←
        if isAt [.value, .comma, .flowSequenceEnd] ts then some (.empty, ts.drop 1)
        else readNode handles fuel .flow ts
      let (value, ts) ← match ts with
        | .value :: ts => readOptional handles fuel .flow [.comma, .flowSequenceEnd] ts
        | ts => some (.empty, ts)
      readFlowItems handles fuel false (.mapping [(key, value)] :: done) ts
    | ts =>
      let (item, ts) ← readNode handles fuel .flow ts
      readFlowItems handles fuel false (item :: done) ts

/-- Reads the pairs between braces.  `done` holds the newest first. -/
def readFlowPairs (handles : Handles) :
    Nat → Bool → List (Node × Node) → List Token → Option (Node × List Token)
  | 0, _, _, _ => none
  | _ + 1, _, done, .flowMappingEnd :: ts => some (.mapping done.reverse, ts)
  | fuel + 1, first, done, ts => do
    let ts ← match first, ts with
      | true, ts => some ts
      | false, .comma :: ts => some ts
      | false, _ => none
    match ts with
    | .flowMappingEnd :: ts => some (.mapping done.reverse, ts)
    | ts =>
      let (key, valued, ts) ← match ts with
        | .key :: ts =>
          (readOptional handles fuel .flow [.value, .comma, .flowMappingEnd] ts).map
            fun (key, ts) => (key, true, ts)
        | .value :: _ => some (.empty, true, ts)
        | ts => (readNode handles fuel .flow ts).map fun (key, ts) => (key, false, ts)
      let (value, ts) ← match valued, ts with
        | true, .value :: ts => readOptional handles fuel .flow [.comma, .flowMappingEnd] ts
        | _, ts => some (.empty, ts)
      readFlowPairs handles fuel false ((key, value) :: done) ts

end

/-- Reads the lines in front of a document that start with a percent sign. -/
def readDirectives? (version : Bool) (handles : Handles) :
    List Token → Option (Handles × List Token)
  | .version :: ts => if version then none else readDirectives? true handles ts
  | .tagHandle handle expansion :: ts =>
    readDirectives? version ((handle, expansion) :: handles) ts
  | ts => some (handles, ts)

/-- Is the token one that stands between documents? -/
def betweenDocuments : Token → Bool
  | .documentStart | .documentEnd | .version | .tagHandle _ _ => true
  | _ => false

/-- The root of the only document, or an empty mapping if there is none. -/
def root? (ts : List Token) : Option Node := do
  let ts := ts.dropWhile (· == .documentEnd)
  let (handles, body) ← readDirectives? false [] ts
  let (body, marked) ← match body with
    | .documentStart :: body => some (body, true)
    | body => if body.length == ts.length then some (body, false) else none
  let (root, rest) ←
    if body.head?.all betweenDocuments then
      some (if marked then Node.empty else .mapping [], body)
    else readNode handles (4 * body.length + 4) .lines body
  if rest.all (· == .documentEnd) then some root else none

/-- Reads the settings of a file. -/
def parse? (text : String) : Option Layer :=
  match ((tokensOf? text).bind root?).bind (Node.setting? []) with
  | some (.table es, _) => some es
  | _ => none

end BareBones.Yaml
