/-
The program behind the command line.

* `Event`, `Report` — what the program tells, and how it ends;
* `normalizeNewlines` — the lines of a template that is read end in a line feed;
* `Run` — a run that tells what happens on the way;
* `runCommand`, `run` — a command, and the whole program.
-/

import ReactiveTemplate.CommandLine.Arguments
import ReactiveTemplate.CommandLine.FileSystem
import ReactiveTemplate.CommandLine.Log

set_option relaxedAutoImplicit false
set_option autoImplicit false

namespace ReactiveTemplate.CommandLine

/-! ### Reports -/

/-- Something that the program tells on the way. -/
inductive Event where
  /-- An entry of the log. -/
  | logged (e : Entry)
  /-- A diagnostic. -/
  | diagnosed (d : Diagnostic)
  /-- A template that cannot be read. -/
  | unreadable (template file : String) (l : Located)
  /-- How the program is used. -/
  | usage

/-- How the program is used. -/
def usageText : String :=
  "usage: weave [-h] [--version] [-v] <command> TEMPLATE [-o FILE]\n" ++
  "\n" ++
  "commands:\n" ++
  "  compile   Compile a template to a JavaScript module.\n" ++
  "            [-f esm|cjs] [--event-prefix TEXT]\n" ++
  "  parse     Dump the markup as JSON.\n" ++
  "  analyze   Dump the dependency analysis as JSON."

/-- An event as it is written. -/
def Event.render : Event → String
  | logged e => e.render
  | diagnosed d => d.render
  | unreadable template file l => (l.diagnose template file).render
  | usage => usageText

/-- How the program ends: its exit code, what it writes to the output, and what it tells. -/
structure Report where
  /-- Zero for success, one for a template that cannot be compiled, two for all else. -/
  exit : Nat
  /-- What it writes to the output. -/
  output : String
  /-- What it tells. -/
  events : List Event

/-- The text of the version. -/
def versionText : String :=
  "weave 0.1.0\n"

/-- The report of a run that arguments stopped. -/
def Stop.report : Stop → Report
  | help => ⟨0, usageText ++ "\n", []⟩
  | version => ⟨0, versionText, []⟩
  | misuse => ⟨2, "", [.usage]⟩

/-! ### Steps -/

/-- A text whose lines end in a line feed, whether they ended in a carriage return, a line feed or
both. -/
def normalizeNewlines : List Char → List Char
  | '\r' :: '\n' :: cs => '\n' :: normalizeNewlines cs
  | '\r' :: cs => '\n' :: normalizeNewlines cs
  | c :: cs => c :: normalizeNewlines cs
  | [] => []

/-- A template that was read, with its full path. -/
structure Template where
  /-- The full path. -/
  path : String
  /-- The text. -/
  text : String

/-- What has been written and told, and whether the run has ended. -/
structure Step (α : Type) where
  /-- What was told. -/
  events : List Event
  /-- The result, or the exit code. -/
  result : Except Nat α

variable {m : Type → Type} [Monad m]

/-- An error that no part of the program expects. -/
def unhandled (message : String) : Entry :=
  .error ("Unhandled exception: " ++ message)

/-- A step at which an error ends the run. -/
def Step.failed {α : Type} (e : Entry) : Step α :=
  ⟨[.logged e], .error 2⟩

/-- Reads the file of a template at its full path. -/
def readFile (fs : FileSystem m) (path : String) : m (Step Template) := do
  match ← fs.isFile path with
  | .error e => return .failed (unhandled e)
  | .ok false => return .failed (.error ("template not found: " ++ path))
  | .ok true =>
    match ← fs.read path with
    | .ok text => return ⟨[], .ok ⟨path, String.ofList (normalizeNewlines text.toList)⟩⟩
    | .error e => return .failed (.error ("cannot read " ++ path ++ ": " ++ e))

/-- Reads a template. -/
def readTemplate (fs : FileSystem m) (name : String) : m (Step Template) := do
  match ← fs.resolve name with
  | .ok path => readFile fs path
  | .error e => return .failed (unhandled e)

/-- Where a text goes to. -/
def isStandardOutput (dest : Option String) : Bool :=
  dest == none || dest == some "-"

/-- Why a text is not written. -/
inductive WriteError where
  /-- There is no path to write to. -/
  | nowhere (message : String)
  /-- The file cannot be written. -/
  | refused (message : String)
  deriving DecidableEq, Repr

/-- What a message says about a text that is not written. -/
def WriteError.message : WriteError → String
  | nowhere message => message
  | refused message => message

/-- Writes a text to a file, or to the output. Gives what is written to the output. -/
def writeText (fs : FileSystem m) (dest : Option String) (text : String) :
    m (Except WriteError String) := do
  match dest with
  | none => return .ok text
  | some name =>
    if name = "-" then return .ok text
    else
      match ← fs.resolve name with
      | .error e => return .error (.nowhere e)
      | .ok path =>
        match ← fs.write path text with
        | .ok () => return .ok ""
        | .error e => return .error (.refused e)

/-- What is told when a template cannot be compiled, and the exit code. -/
def compileFailure (template : Template) : CompileError → Event × Nat
  | .invalidOptions problems => (.logged (.error (optionsMessage problems)), 2)
  | .unreadable l => (.unreadable template.text template.path l, 1)
  | .ungenerated e =>
    match e.diagnostic? with
    | some d => (.diagnosed d, 1)
    | none => (.logged (unhandled "the module cannot be generated"), 2)

/-! ### Commands -/

/-- The options that a command asks for. -/
def Command.options (c : Command) (path : String) : Options :=
  let new : Overrides :=
    { filename := some path, format := c.format, eventPrefix := c.eventPrefix }
  Options.default.override new

/-- Writes the module of a compiled template. -/
def writeModule (fs : FileSystem m) (dest : Option String) (c : Compiled) : m Report := do
  match ← writeText fs dest c.generated.text with
  | .error (.nowhere e) => return ⟨2, "", [.logged (unhandled e)]⟩
  | .error (.refused e) =>
    return ⟨2, "", [.logged (.error ("cannot write " ++ dest.getD "" ++ ": " ++ e))]⟩
  | .ok output =>
    let wrote : Entry :=
      .info ("Wrote " ++ dest.getD "" ++ " (" ++ toString c.generated.bindings.length ++
        " bindings, " ++ toString c.generated.locals.length ++ " variables)")
    return ⟨0, output, if isStandardOutput dest then [] else [.logged wrote]⟩

/-- Compiles a template to a module. -/
def compileCommand (fs : FileSystem m) (c : Command) (template : Template) : m Report := do
  let (said, result) := compileLogged (c.options template.path) template.text
  let events := .logged (.info ("Compiling " ++ template.path)) :: said.map Event.logged
  match result with
  | .error e =>
    let (event, exit) := compileFailure template e
    return ⟨exit, "", events ++ [event]⟩
  | .ok compiled =>
    let report ← writeModule fs c.output compiled
    return { report with events := events ++ report.events }

/-- Writes a value as JSON. -/
def writeJson (fs : FileSystem m) (dest : Option String) (value : Json) : m Report := do
  match ← writeText fs dest (value.pretty ++ "\n") with
  | .error e => return ⟨2, "", [.logged (unhandled e.message)]⟩
  | .ok output => return ⟨0, output, []⟩

/-- Dumps the markup of a template. -/
def parseCommand (fs : FileSystem m) (c : Command) (template : Template) : m Report := do
  match Document.parse template.text template.path with
  | .error l => return ⟨1, "", [.unreadable template.text template.path l]⟩
  | .ok d =>
    let report ← writeJson fs c.output d.json
    return { report with events := .logged (parsedEntry d) :: report.events }

/-- Dumps the analysis of a template, with reactive declarations in running order. -/
def analyzeCommand (fs : FileSystem m) (c : Command) (template : Template) : m Report := do
  let options : Options := { Options.default with filename := template.path }
  let (said, result) := compileLogged options template.text
  let events := said.map Event.logged
  match result with
  | .error e =>
    let (event, exit) := compileFailure template e
    return ⟨exit, "", events ++ [event]⟩
  | .ok compiled =>
    let report ← writeJson fs c.output (compiled.analysis.json compiled.document.program?)
    return { report with events := events ++ report.events }

/-- Runs a command. -/
def runCommand (fs : FileSystem m) (c : Command) : m Report := do
  let step ← readTemplate fs c.template
  match step.result with
  | .error exit => return ⟨exit, "", step.events⟩
  | .ok template =>
    match c.kind with
    | .compile => compileCommand fs c template
    | .parse => parseCommand fs c template
    | .analyze => analyzeCommand fs c template

/-! ### The program -/

/-- Whether an event is told at a verbosity. -/
def Event.shown (verbosity : Nat) : Event → Bool
  | logged e => e.shown verbosity
  | _ => true

/-- The report as it is told at a verbosity. -/
def Report.quieted (verbosity : Nat) (r : Report) : Report :=
  { r with events := r.events.filter (Event.shown verbosity) }

/-- Runs the program on its arguments. -/
def run (fs : FileSystem m) (args : List String) : m Report := do
  match readArguments args with
  | .error stop => return stop.report
  | .ok request =>
    match request.command with
    | none => return Stop.misuse.report
    | some command => return (← runCommand fs command).quieted request.verbosity

end ReactiveTemplate.CommandLine
