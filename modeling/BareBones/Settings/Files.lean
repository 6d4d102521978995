/-
Files and the paths that lead to them.

A program looks at files through one function from paths to what is there.  `Files.ofList` is that
function for a working directory with the given files.  Of what is outside of it only the
directories around it and those that every system has are known.
-/

namespace BareBones

/-- What a path leads to. -/
inductive FileEntry where
  | file (bytes : ByteArray)
  | directory

/-- What paths lead to. -/
abbrev Files := String → Option FileEntry

/-- The bytes of a file. -/
def FileEntry.bytes? : FileEntry → Option ByteArray
  | file bytes => some bytes
  | directory => none

namespace Path

/-- The parts of a path.  Nothing and a single point lead nowhere else. -/
def parts (path : String) : List String :=
  ((path.toList.splitOn '/').map String.ofList).filter fun part => part != "" && part != "."

/-- Does the path start at the root? -/
def isAbsolute (path : String) : Bool :=
  path.toList.head? == some '/'

/-- Can the path lead to a directory only?  It then ends in a slash, or in a point behind one. -/
def endsInDirectory (path : String) : Bool :=
  match (path.toList.splitOn '/').getLast? with
  | some [] | some ['.'] => true
  | _ => false

/-- The end of a file's name behind its last point.  A point in front of the name does not count. -/
def extension? (path : String) : Option String :=
  match (parts path).getLast? with
  | none | some ".." => none
  | some name =>
    let back := name.toList.reverse
    match back.dropWhile (· != '.') with
    | [] | [_] => none
    | _ => some (String.ofList (back.takeWhile (· != '.')).reverse)

/-- The path with an extension behind it, if it ends in a name. -/
def withExtension? (path extension : String) : Option String :=
  match (parts path).getLast? with
  | none | some ".." => none
  | some _ =>
    let start := if isAbsolute path then "/" else ""
    some (start ++ "/".intercalate (parts path) ++ "." ++ extension)

end Path

namespace Files

/-- The directories that stand at the root of every system. -/
def rootDirectories : List String :=
  ["bin", "boot", "dev", "etc", "home", "lib", "media", "mnt", "opt", "proc", "root", "run", "sbin",
    "srv", "sys", "tmp", "usr", "var"]

/-- The directories below them that every system has. -/
def innerDirectories : List (List String) :=
  [["usr", "bin"], ["usr", "lib"], ["usr", "local"], ["usr", "sbin"], ["usr", "share"],
    ["var", "lib"], ["var", "log"], ["var", "tmp"]]

/-- The files that every system has.  Nothing is said about what they hold. -/
def systemFiles : List (List String) :=
  [["dev", "null"], ["etc", "hosts"], ["etc", "passwd"]]

/-- What a path from the root leads to. -/
def fromRoot (path : String) : Option FileEntry :=
  let climb (done : List String) (part : String) : List String :=
    if part == ".." then done.dropLast else done ++ [part]
  let parts := (Path.parts path).foldl climb []
  if parts.isEmpty || rootDirectories.any (parts == [·]) || innerDirectories.contains parts then
    some .directory
  else if systemFiles.contains parts && !Path.endsInDirectory path then
    some (.file ByteArray.empty)
  else none

/-- Where a path has led so far. -/
inductive Place where
  /-- Below the working directory, or in it. -/
  | inside (parts : List String)
  /-- Around the working directory. -/
  | outside
  deriving DecidableEq, Repr

/-- What is at a place below the working directory. -/
def entryAt (entries : List (String × ByteArray)) (parts : List String) : Option FileEntry :=
  match entries.find? fun e => Path.parts e.1 == parts with
  | some e => some (.file e.2)
  | none =>
    if parts.isEmpty || entries.any fun e => parts.isPrefixOf (Path.parts e.1) then
      some .directory
    else none

/-- Follows one part of a path.  Only directories have something below and above them. -/
def Place.step (entries : List (String × ByteArray)) (place : Place) (part : String) :
    Option Place :=
  match place with
  | .outside => if part == ".." then some .outside else none
  | .inside parts =>
    match entryAt entries parts with
    | some .directory =>
      if part != ".." then some (.inside (parts ++ [part]))
      else if parts.isEmpty then some .outside
      else some (.inside parts.dropLast)
    | _ => none

/-- The files of one directory, seen from there. -/
def ofList (entries : List (String × ByteArray)) : Files := fun path =>
  if path.isEmpty then none
  else if Path.isAbsolute path then fromRoot path
  else
    match (Path.parts path).foldlM (Place.step entries) (.inside []) with
    | none => none
    | some .outside => some .directory
    | some (.inside parts) =>
      match entryAt entries parts with
      | some (.file bytes) => if Path.endsInDirectory path then none else some (.file bytes)
      | entry => entry

end Files

end BareBones
