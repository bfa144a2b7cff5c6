/-
The command line program.

* `localFiles` — the files of the machine;
* `main` — runs the program and tells what it reports.
-/

import ReactiveTemplate.CommandLine.Run

set_option relaxedAutoImplicit false
set_option autoImplicit false

namespace ReactiveTemplate.CommandLine

/-- An error told as a text. -/
def telling {α : Type} (action : IO α) : IO (Except String α) := do
  try
    return .ok (← action)
  catch e =>
    return .error (toString e)

/-- The home of a user, by a line of the table of users. -/
def homeOfLine? (line : String) : Option (String × Path) :=
  match line.splitOn ":" with
  | user :: _ :: _ :: _ :: _ :: home :: _ => some (user, resolvePath [] home)
  | _ => none

/-- The homes of users by name; the empty name is that of the current user. -/
def localHomes : IO (List (String × Path)) := do
  let table ← try IO.FS.readFile "/etc/passwd" catch _ => pure ""
  let homes := (table.splitOn "\n").filterMap homeOfLine?
  match ← IO.getEnv "HOME" with
  | some home => return ("", resolvePath [] home) :: homes
  | none => return homes

/-- The full path that a text stands for. -/
def localPath (text : String) : IO (Except String String) := do
  let directory ← IO.currentDir
  let homes ← localHomes
  match locate (fun user => homes.lookup user) (resolvePath [] directory.toString) text with
  | .ok path => return .ok (renderPath path)
  | .error e => return .error e.message

/-- Whether there is a file at a path. -/
def isLocalFile (path : String) : IO Bool := do
  try
    let metadata ← (← IO.FS.realPath path).metadata
    return metadata.type == .file
  catch
    | .noFileOrDirectory .. | .inappropriateType .. => return false
    | e => throw e

/-- The text of the file at a path. -/
def readLocalFile (path : String) : IO String := do
  let bytes ← IO.FS.readBinFile path
  match Text.decode? bytes.toList with
  | some text => return text
  | none => throw (IO.userError FileError.notText.message)

/-- Writes a text to the file at a path. -/
def writeLocalFile (path text : String) : IO Unit := do
  IO.FS.createDirAll (renderPath (resolvePath [] path).dropLast)
  IO.FS.writeFile path text

/-- The files of the machine. -/
def localFiles : FileSystem IO where
  resolve := localPath
  isFile path := telling (isLocalFile path)
  read path := telling (readLocalFile path)
  write path text := telling (writeLocalFile path text)

end ReactiveTemplate.CommandLine

/-- Runs the program and tells what it reports. -/
def main (args : List String) : IO UInt32 := do
  let report ← ReactiveTemplate.CommandLine.run ReactiveTemplate.CommandLine.localFiles args
  for event in report.events do
    IO.eprintln event.render
  IO.print report.output
  return report.exit.toUInt32
