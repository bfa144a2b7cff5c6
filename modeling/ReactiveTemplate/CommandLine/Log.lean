/-
What the program says while it works.

* `Level`, `Entry` — an entry of the log, with its level and the part of the program it is from;
* `Entry.shown` — whether an entry is shown at a verbosity;
* `parsedEntry`, `analysisEntries`, `generationEntries` — what is said about each stage;
* `compileLogged` — a compilation with what is said on the way.
-/

import ReactiveTemplate.Compile

set_option relaxedAutoImplicit false
set_option autoImplicit false

namespace ReactiveTemplate.CommandLine

/-- How important an entry is. -/
inductive Level where
  | debug
  | info
  | error
  deriving DecidableEq, Repr

/-- A level as it is written, five letters wide. -/
def Level.name : Level → String
  | debug => "DEBUG"
  | info => "INFO "
  | error => "ERROR"

/-- An entry of the log. -/
structure Entry where
  /-- How important it is. -/
  level : Level
  /-- The part of the program that it is from. -/
  origin : String
  /-- What it says. -/
  message : String
  deriving DecidableEq, Repr

namespace Entry

/-- Whether an entry is shown at a verbosity: errors always, the rest from one or two on. -/
def shown (verbosity : Nat) (e : Entry) : Bool :=
  match e.level with
  | .error => true
  | .info => 1 ≤ verbosity
  | .debug => 2 ≤ verbosity

/-- An entry as it is written. -/
def render (e : Entry) : String :=
  "[" ++ e.level.name ++ "] " ++ e.origin ++ ": " ++ e.message

/-- An error of the command line. -/
def error (message : String) : Entry :=
  ⟨.error, "weave", message⟩

/-- Something that the command line tells. -/
def info (message : String) : Entry :=
  ⟨.info, "weave", message⟩

/-- A detail of a part of the program. -/
def debug (part message : String) : Entry :=
  ⟨.debug, "weave." ++ part, message⟩

end Entry

/-! ### Stages -/

/-- What is said before a template is read. -/
def parsingEntry (options : Options) (template : String) : Entry :=
  .debug "compiler"
    ("parsing " ++ options.filename ++ " (" ++ toString template.length ++ " chars)")

/-- What is said about a document that has been read. -/
def parsedEntry (d : Document) : Entry :=
  .debug "parser"
    ("parsed " ++ d.filename ++ ": " ++ toString d.html.length ++ " top-level fragment(s), script=" ++
      if d.script.isSome then "True" else "False")

/-- What is said about resolved names. -/
def scopesEntry (forest : Forest) (r : Resolution) : Entry :=
  .debug "scope"
    ("scopes: " ++ toString r.size ++ " mapped, " ++ toString (forest.declarations r.root).length ++
      " root names, " ++ toString r.globals.length ++ " globals")

/-- What is said about an analysis: the scopes of the script, if there is one, those of the event
handlers, and a summary. -/
def analysisEntries (script : Bool) (a : Analysis) : List Entry :=
  (if script then [scopesEntry a.forest a.scopes] else []) ++
    a.handlers.map (fun h => scopesEntry a.forest h.resolution) ++
    [.debug "analyzer"
      ("analysis: " ++ toString a.declared.length ++ " variable(s), willChange=" ++
        Text.quoteList (Names.sort a.willChange) ++ ", willUseInTemplate=" ++
        Text.quoteList (Names.sort a.usedInTemplate) ++ ", " ++ toString a.reactive.length ++
        " reactive declaration(s)")]

/-- What is said about the changes that are announced in a script. -/
def announcedEntries (d : Document) (a : Analysis) : List Entry :=
  match d.script with
  | none => []
  | some s =>
    [.debug "codegen"
      ("instrumented " ++ toString (s.announcements a).length ++ " mutation(s)")]

/-- What is said about a component. -/
def generatedEntry (c : Component) : Entry :=
  .debug "codegen"
    ("generated " ++ toString c.locals.length ++ " variable(s), " ++ toString c.update.length ++
      " update block(s), " ++ toString c.reactive.length ++ " reactive block(s)")

/-- What is said about a generation. -/
def generationEntries (options : Options) (d : Document) (a : Analysis)
    (result : Except GenerationError Generated) : List Entry :=
  .debug "compiler" ("generating " ++ options.format ++ " module for " ++ options.filename) ::
    (announcedEntries d a ++
      match result with
      | .ok g => [generatedEntry g.toComponent]
      | .error _ => [])

/-! ### Compilation -/

/-- A compilation with what is said on the way. -/
def compileLogged (options : Options) (template : String) :
    List Entry × Except CompileError Compiled :=
  match options.problems with
  | p :: ps => ([], .error (.invalidOptions (p :: ps)))
  | [] =>
    match Document.parse template options.filename with
    | .error l => ([parsingEntry options template], .error (.unreadable l))
    | .ok d =>
      let (a, kept) := d.analyze options
      let outcome := kept.generate options a
      let said :=
        [parsingEntry options template, parsedEntry d,
          .debug "compiler" ("analysing " ++ options.filename)] ++
          analysisEntries d.script.isSome a ++ generationEntries options kept a outcome.result
      match outcome.result with
      | .error e => (said, .error (.ungenerated e))
      | .ok generated => (said, .ok ⟨generated, outcome.document, outcome.analysis⟩)

/-- Saying something on the way does not change a compilation. -/
theorem compileLogged_snd (options : Options) (template : String) :
    (compileLogged options template).2 = compile options template := by
  unfold compileLogged compile
  cases options.problems with
  | cons p ps => rfl
  | nil =>
    cases Document.parse template options.filename with
    | error l => rfl
    | ok d =>
      dsimp only
      cases ((d.analyze options).2.generate options (d.analyze options).1).result <;> rfl

end ReactiveTemplate.CommandLine
