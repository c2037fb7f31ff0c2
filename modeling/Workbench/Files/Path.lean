/-!
# Paths

A path is a text; what it means are its components. Repeated and trailing slashes mean nothing, and
neither does a single dot, unless the text begins with it. A `Place` is where a file is: the names
of directories and at last its own name, from a root downward.
-/

namespace Workbench.Files

/-! ### Components -/

inductive Component where
  /-- The slash at the start of an absolute path. -/
  | root
  /-- A dot at the start of a relative path. -/
  | current
  /-- Two dots: the directory above. -/
  | above
  | name (text : String)
  deriving DecidableEq, Repr, Inhabited

def Component.text : Component → String
  | root => "/"
  | current => "."
  | above => ".."
  | name text => text

/-- The pieces of a text between slashes. -/
def splitSlashes : List Char → List (List Char)
  | [] => [[]]
  | '/' :: rest => [] :: splitSlashes rest
  | c :: rest =>
      match splitSlashes rest with
      | [] => [[c]]
      | piece :: pieces => (c :: piece) :: pieces

/-- The component of a piece that is not the first; none if it means nothing. -/
def component? (piece : List Char) : Option Component :=
  if piece = [] ∨ piece = ['.'] then none
  else if piece = ['.', '.'] then some .above
  else some (.name (String.ofList piece))

def firstComponent? (piece : List Char) : Option Component :=
  if piece = ['.'] then some .current else component? piece

def components (path : String) : List Component :=
  match path.toList with
  | '/' :: rest => .root :: (splitSlashes rest).filterMap component?
  | chars =>
      match splitSlashes chars with
      | [] => []
      | first :: rest => (firstComponent? first).toList ++ rest.filterMap component?

def isAbsolute (path : String) : Bool :=
  path.toList.head? == some '/'

/-! ### Places -/

/-- Names from a root downward. -/
abbrev Place := List String

def Place.text (place : Place) : String :=
  "/".intercalate place

/-- The names of components; none unless all are names, dots at the start apart. -/
def namesOf? : List Component → Option Place
  | [] => some []
  | .current :: rest => namesOf? rest
  | .name text :: rest => (namesOf? rest).map (text :: ·)
  | .root :: _ | .above :: _ => none

def exactNames? (parts : List Component) : Option Place :=
  parts.mapM fun
    | .name text => some text
    | _ => none

/-- The place below a directory that a path leads to; none if the path is absolute, climbs or leads
nowhere. -/
def confine? (path : String) : Option Place :=
  match namesOf? (components path) with
  | some [] | none => none
  | some place => some place

def isHidden (name : String) : Bool :=
  name.toList.head? == some '.'

/-- A text that is cut at its last dot, unless that is its first character: what stands before and
what stands behind it. -/
def splitExtension (name : String) : String × Option String :=
  let chars := name.toList
  let behind := (chars.reverse.takeWhile (· != '.')).reverse
  let before := chars.take (chars.length - behind.length - 1)
  if name == ".." || before.isEmpty then (name, none)
  else (String.ofList before, some (String.ofList behind))

/-- The name at the end of a path, if it ends in one. -/
def fileName? (path : String) : Option String :=
  match (components path).getLast? with
  | some (.name text) => some text
  | _ => none

/-! ### Paths as texts -/

/-- Pieces without those at the end that mean nothing. The first piece always means something. -/
def trimPieces (pieces : List (List Char)) : List (List Char) :=
  match pieces with
  | [] => []
  | first :: rest =>
      first :: (rest.reverse.dropWhile fun piece => (component? piece).isNone).reverse

def joinPieces (pieces : List (List Char)) : String :=
  "/".intercalate (pieces.map String.ofList)

/-- The path of the directory that a path lies in, which is empty for a name alone; none if there is
no such directory. -/
def parentText? (path : String) : Option String :=
  match components path with
  | [] | [.root] => none
  | _ =>
      match trimPieces (trimPieces (splitSlashes path.toList)).dropLast with
      | [[]] => some (if isAbsolute path then "/" else "")
      | pieces => some (joinPieces pieces)

/-- A path whose last name has another extension. A path without a name at its end stays. -/
def withExtension (path extension : String) : String :=
  match fileName? path with
  | none => path
  | some name =>
      let renamed := (splitExtension name).1 ++ "." ++ extension
      joinPieces ((trimPieces (splitSlashes path.toList)).dropLast ++ [renamed.toList])

/-- A path below a directory, as texts. -/
def joinText (directory path : String) : String :=
  if isAbsolute path then path
  else if directory.isEmpty || directory.toList.getLast? == some '/' then directory ++ path
  else directory ++ "/" ++ path

end Workbench.Files
