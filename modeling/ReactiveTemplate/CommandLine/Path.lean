/-
Paths of files.

A path is a list of names from the root on.

* `pathNames` — the names between the slashes of a text;
* `follow` — one name after the other from a directory on, where `.` stays and `..` goes up;
* `resolvePath` — the path that a text stands for in a directory;
* `locate` — the same, where a name with a tilde in front of it stands for the home of a user;
* `renderPath` — a path as it is written.
-/

set_option relaxedAutoImplicit false
set_option autoImplicit false

namespace ReactiveTemplate.CommandLine

/-- Names from the root on. -/
abbrev Path := List String

/-- The names between the slashes of a text. `word` holds the letters of the name so far, the last
one first. -/
def namesFrom : List Char → List Char → List String
  | word, [] => [String.ofList word.reverse]
  | word, c :: cs =>
    if c == '/' then String.ofList word.reverse :: namesFrom [] cs else namesFrom (c :: word) cs

/-- The names between the slashes of a text; some may be empty. -/
def pathNames (text : String) : List String :=
  namesFrom [] text.toList

/-- One step from a directory. -/
def followName (path : Path) (name : String) : Path :=
  if name = "" ∨ name = "." then path else if name = ".." then path.dropLast else path ++ [name]

/-- Steps from a directory on. -/
def follow (path : Path) (names : List String) : Path :=
  names.foldl followName path

/-- The path that a text stands for in a directory. -/
def resolvePath (directory : Path) (text : String) : Path :=
  follow (if text.toList.head? = some '/' then [] else directory) (pathNames text)

/-- Why a text stands for no path. -/
inductive PathError where
  /-- There is no such user, or the user has no home. -/
  | noHome
  /-- A name holds the character of code zero. -/
  | zeroCharacter
  deriving DecidableEq, Repr

/-- What a message says about a text that stands for no path. -/
def PathError.message : PathError → String
  | noHome => "Could not determine home directory."
  | zeroCharacter => "embedded null byte"

/-- Whether a name holds the character of code zero. -/
def hasZero (name : String) : Bool :=
  name.toList.contains '\x00'

/-- The directory in which the names of a text are followed, and these names. A tilde at the start of
the first name stands for the home of the user that the name goes on with. -/
def startOfPath (home? : String → Option Path) (directory : Path) (text : String) :
    Except PathError (Path × List String) :=
  let names := pathNames text
  if text.toList.head? = some '/' then .ok ([], names)
  else
    match names.filter fun name => name != "" && name != "." with
    | [] => .ok (directory, [])
    | first :: rest =>
      match first.toList with
      | '~' :: user =>
        if hasZero first then .error .zeroCharacter
        else
          match home? (String.ofList user) with
          | some home => .ok (home, rest)
          | none => .error .noHome
      | _ => .ok (directory, names)

/-- The path that a text stands for in a directory, given the homes of users by name. The empty name
is that of the current user. -/
def locate (home? : String → Option Path) (directory : Path) (text : String) :
    Except PathError Path := do
  let (start, names) ← startOfPath home? directory text
  if names.any hasZero then .error .zeroCharacter else .ok (follow start names)

/-- A path as it is written. -/
def renderPath (path : Path) : String :=
  "/" ++ "/".intercalate path

end ReactiveTemplate.CommandLine
