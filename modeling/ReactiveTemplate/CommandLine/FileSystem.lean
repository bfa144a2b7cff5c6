/-
Files that the command line reads and writes.

* `FileSystem` — what the command line needs of files, in any monad;
* `FileTree` — files kept in memory, with `FileTree.read`, `FileTree.write`;
* `FileError` — what can go wrong with them;
* `FileTree.system` — files in memory as a file system.
-/

import ReactiveTemplate.CommandLine.Path
import ReactiveTemplate.Text.Bytes

set_option relaxedAutoImplicit false
set_option autoImplicit false

namespace ReactiveTemplate.CommandLine

/-- What the command line needs of files. Errors are told as texts. -/
structure FileSystem (m : Type → Type) where
  /-- The full path that a text stands for. -/
  resolve : String → m (Except String String)
  /-- Whether there is a file at a path. -/
  isFile : String → m (Except String Bool)
  /-- The text of the file at a path. -/
  read : String → m (Except String String)
  /-- Writes a text to the file at a path; missing directories are made. -/
  write : String → String → m (Except String Unit)

/-! ### Files in memory -/

/-- A file with its path. -/
structure File where
  /-- Its path. -/
  path : Path
  /-- Its bytes. -/
  contents : List UInt8
  deriving DecidableEq, Repr

/-- Files in memory. The directories are those on the way to a file or to the current one. -/
structure FileTree where
  /-- The current directory. -/
  current : Path
  /-- The homes of users, which are directories. The empty name is that of the current user. -/
  homes : List (String × Path)
  /-- The files. -/
  files : List File
  deriving DecidableEq, Repr

/-- What can go wrong with a file. -/
inductive FileError where
  | missing
  /-- It is a directory. -/
  | directory
  /-- A file is on the way to it. -/
  | blocked
  /-- Its bytes are no text. -/
  | notText
  /-- A name on the way to it, or all of them together, are too long. -/
  | tooLong
  deriving DecidableEq, Repr

/-- What a message says about an error. -/
def FileError.message : FileError → String
  | missing => "no such file"
  | directory => "is a directory"
  | blocked => "not a directory"
  | notText => "not a text in UTF-8"
  | tooLong => "file name too long"

/-- Whether a name is longer than a file may have it. -/
def isLongName (name : String) : Bool :=
  255 < name.utf8ByteSize

/-- Whether a path is longer than files are looked up by. -/
def isLongPath (path : Path) : Bool :=
  4096 ≤ (renderPath path).utf8ByteSize

namespace FileTree

/-- The file at a path. -/
def file? (t : FileTree) (path : Path) : Option File :=
  t.files.find? fun f => f.path == path

/-- Whether there is a directory at a path. -/
def isDirectory (t : FileTree) (path : Path) : Bool :=
  path.isPrefixOf t.current || (t.homes.any fun home => path.isPrefixOf home.2) ||
    t.files.any fun f => path.isPrefixOf f.path && f.path != path

/-- Whether a file is on the way to a path. -/
def isBlocked (t : FileTree) (path : Path) : Bool :=
  t.files.any fun f => f.path.isPrefixOf path && f.path != path

/-- Whether a name that is too long comes up when names are followed from a directory on, as far as
there are directories. -/
def meetsLongName (t : FileTree) : Path → List String → Bool
  | _, [] => false
  | at', name :: names =>
    t.isDirectory at' && (isLongName name || t.meetsLongName (at' ++ [name]) names)

/-- Whether there is a file at a path. -/
def isFile (t : FileTree) (path : Path) : Except FileError Bool :=
  if isLongPath path || t.meetsLongName [] path then .error .tooLong
  else .ok (t.file? path).isSome

/-- The text of the file at a path. -/
def read (t : FileTree) (path : Path) : Except FileError String :=
  match t.file? path with
  | none => .error .missing
  | some f =>
    match Text.decode? f.contents with
    | some text => .ok text
    | none => .error .notText

/-- The files with a text written to the file at a path. -/
def write (t : FileTree) (path : Path) (text : String) : Except FileError FileTree :=
  if isLongPath path || path.any isLongName then .error .tooLong
  else if t.isDirectory path then .error .directory
  else if t.isBlocked path then .error .blocked
  else
    let others := t.files.filter fun f => f.path != path
    .ok { t with files := others ++ [⟨path, Text.bytes text.toList⟩] }

/-- An error told as a text. -/
def told {α : Type} (describe : FileError → String) : Except FileError α → Except String α
  | .ok x => .ok x
  | .error e => .error (describe e)

/-- Files in memory as a file system. -/
def system (describe : FileError → String) : FileSystem (StateM FileTree) where
  resolve text := do
    let t ← get
    match locate (fun user => t.homes.lookup user) t.current text with
    | .ok path => return .ok (renderPath path)
    | .error e => return .error e.message
  isFile path := do
    return told describe ((← get).isFile (resolvePath [] path))
  read path := do
    return told describe ((← get).read (resolvePath [] path))
  write path text := do
    match (← get).write (resolvePath [] path) text with
    | .ok t =>
      set t
      return .ok ()
    | .error e => return .error (describe e)

end FileTree

end ReactiveTemplate.CommandLine
