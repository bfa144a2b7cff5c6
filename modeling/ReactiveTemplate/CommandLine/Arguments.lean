/-
Arguments of the command line.

Arguments are classified before any of them takes effect: an option by its full name, by a start of
a long name that fits no other one, or by a letter with its value or more letters behind it. An
option that is not known is set aside and rejected at the end. The arguments behind the name of a
command are read by the options of the command.

* `OptionAction`, `OptionTable` — what options do, by name;
* `classify` — what an argument is;
* `Chosen`, `scan` — what the arguments say, read one after the other;
* `Request`, `readArguments` — what is asked for, or why reading stops.
-/

import ReactiveTemplate.Options
import ReactiveTemplate.Text.Digit

set_option relaxedAutoImplicit false
set_option autoImplicit false

namespace ReactiveTemplate.CommandLine

/-! ### Options -/

/-- A setting that takes a value. -/
inductive Setting where
  | output
  | format
  | eventPrefix
  deriving DecidableEq, Repr

/-- What an option does. -/
inductive OptionAction where
  /-- Shows how the program is used. -/
  | help
  /-- Shows the version. -/
  | version
  /-- Makes the program say more. -/
  | verbose
  /-- Takes a value, out of the given ones if there are any. -/
  | value (setting : Setting) (choices : Option (List String))
  deriving DecidableEq, Repr

/-- Whether an option takes a value. -/
def OptionAction.takesValue : OptionAction → Bool
  | .value _ _ => true
  | _ => false

/-- Options by name. -/
abbrev OptionTable := List (String × OptionAction)

/-- The options that stand before a command. -/
def generalOptions : OptionTable :=
  [("-h", .help), ("--help", .help), ("--version", .version), ("-v", .verbose),
    ("--verbose", .verbose)]

/-- The options of all commands. -/
def commonOptions : OptionTable :=
  [("-h", .help), ("--help", .help), ("-o", .value .output none), ("--output", .value .output none)]

/-- The commands. -/
inductive CommandKind where
  | compile
  | parse
  | analyze
  deriving DecidableEq, Repr

/-- The command of a name. -/
def CommandKind.ofName? : String → Option CommandKind
  | "compile" => some compile
  | "parse" => some parse
  | "analyze" => some analyze
  | _ => none

/-- The options of a command. -/
def CommandKind.options : CommandKind → OptionTable
  | compile =>
    commonOptions ++
      [("-f", .value .format (some Options.formats)),
        ("--format", .value .format (some Options.formats)),
        ("--event-prefix", .value .eventPrefix none)]
  | parse => commonOptions
  | analyze => commonOptions

/-! ### Classification -/

/-- Why reading stops early. -/
inductive Stop where
  /-- Help was asked for. -/
  | help
  /-- The version was asked for. -/
  | version
  /-- The arguments make no sense. -/
  | misuse
  deriving DecidableEq, Repr

/-- An option in use: its name, and the value that is joined to it. -/
structure OptionUse where
  /-- The full name. -/
  name : List Char
  /-- What it does. -/
  action : OptionAction
  /-- The joined value. -/
  joined : Option (List Char)
  deriving DecidableEq, Repr

/-- What an argument is. -/
inductive Mark where
  /-- A plain argument. -/
  | plain
  /-- Two dashes, behind which all arguments are plain. -/
  | separator
  /-- An option. -/
  | known (use : OptionUse)
  /-- An option that there is not. -/
  | unknown
  deriving DecidableEq, Repr

/-- An argument with its mark. -/
structure Item where
  /-- The argument. -/
  text : String
  /-- Its mark. -/
  mark : Mark
  deriving DecidableEq, Repr

/-- What an option of the given full name does. -/
def OptionTable.action? (table : OptionTable) (name : List Char) : Option OptionAction :=
  table.lookup (String.ofList name)

/-- A text split at its first equals sign. -/
def splitAtEquals (cs : List Char) : List Char × Option (List Char) :=
  match cs.dropWhile (· != '=') with
  | [] => (cs, none)
  | _ :: value => (cs.takeWhile (· != '='), some value)

/-- The options whose long name starts with an argument, or with its part before the equals
sign. -/
def longUses (table : OptionTable) (arg : List Char) : List OptionUse :=
  let (start, joined) := splitAtEquals arg
  table.filterMap fun entry =>
    if start.isPrefixOf entry.1.toList then some ⟨entry.1.toList, entry.2, joined⟩ else none

/-- The options of one letter that an argument starts with, and those whose name starts with the
argument. -/
def shortUses (table : OptionTable) (arg : List Char) : List OptionUse :=
  table.filterMap fun entry =>
    if entry.1.toList = arg.take 2 then some ⟨entry.1.toList, entry.2, some (arg.drop 2)⟩
    else if arg.isPrefixOf entry.1.toList then some ⟨entry.1.toList, entry.2, none⟩
    else none

/-- The options that an argument may stand for when it is no full name. -/
def possibleUses (table : OptionTable) (arg : List Char) : List OptionUse :=
  match arg with
  | _ :: '-' :: _ => longUses table arg
  | _ => shortUses table arg

/-- A text without the line feed at its end, if there is one. -/
def withoutLineFeed (cs : List Char) : List Char :=
  if cs.getLast? = some '\n' then cs.dropLast else cs

/-- Whether a text is made of digits, with a point somewhere before the last of them. A line feed may
follow. -/
def isNumeral (cs : List Char) : Bool :=
  let line := withoutLineFeed cs
  match line.dropWhile Text.isDigit with
  | [] => !line.isEmpty
  | '.' :: fraction => !fraction.isEmpty && fraction.all Text.isDigit
  | _ => false

/-- The option of an argument that is a full name, or a full name with a value behind an equals
sign. -/
def exactUse? (table : OptionTable) (arg : List Char) : Option OptionUse :=
  match table.action? arg with
  | some action => some ⟨arg, action, none⟩
  | none =>
    match splitAtEquals arg with
    | (_, none) => none
    | (name, some value) => (table.action? name).map fun action => ⟨name, action, some value⟩

/-- What an argument that starts with a dash is. Negative numbers and texts with blanks are plain
unless they stand for an option. -/
def classifyDashed (table : OptionTable) (arg : List Char) : Except Stop Mark :=
  match exactUse? table arg with
  | some use => .ok (.known use)
  | none =>
    match possibleUses table arg with
    | [use] => .ok (.known use)
    | _ :: _ :: _ => .error .misuse
    | [] =>
      if isNumeral arg.tail || arg.contains ' ' then .ok .plain else .ok .unknown

/-- What an argument is. -/
def classify (table : OptionTable) (arg : String) : Except Stop Mark :=
  match arg.toList with
  | ['-'] => .ok .plain
  | '-' :: cs => classifyDashed table ('-' :: cs)
  | _ => .ok .plain

/-- Arguments with their marks. -/
def classifyAll (table : OptionTable) : List String → Except Stop (List Item)
  | [] => .ok []
  | arg :: args =>
    if arg = "--" then .ok (⟨arg, .separator⟩ :: args.map fun a => ⟨a, .plain⟩)
    else do
      let mark ← classify table arg
      let items ← classifyAll table args
      return ⟨arg, mark⟩ :: items

/-! ### Effects of options -/

/-- What the arguments have said so far. -/
structure Chosen where
  /-- How often the program was told to say more. -/
  verbosity : Nat
  /-- Where to write to. -/
  output : Option String
  /-- Format of the module. -/
  format : Option String
  /-- Start of the names of event attributes. -/
  eventPrefix : Option String
  /-- The argument that is no option, or all arguments from the name of a command on. -/
  operands : List String
  /-- The arguments that nothing can be made of. -/
  rejected : List String
  deriving DecidableEq, Repr

/-- Nothing has been said. -/
def Chosen.nothing : Chosen :=
  ⟨0, none, none, none, [], []⟩

/-- A setting with a value. -/
def Chosen.set (c : Chosen) (value : String) : Setting → Chosen
  | .output => { c with output := some value }
  | .format => { c with format := some value }
  | .eventPrefix => { c with eventPrefix := some value }

/-- An option takes effect, with its value if it takes one. -/
def Chosen.apply (c : Chosen) (value : String) : OptionAction → Except Stop Chosen
  | .help => .error .help
  | .version => .error .version
  | .verbose => .ok { c with verbosity := c.verbosity + 1 }
  | .value setting none => .ok (c.set value setting)
  | .value setting (some choices) =>
    if value ∈ choices then .ok (c.set value setting) else .error .misuse

/-- Options take effect one after the other. -/
def Chosen.applyAll (c : Chosen) : List (OptionAction × String) → Except Stop Chosen
  | [] => .ok c
  | (action, value) :: rest => do
    let c ← c.apply value action
    c.applyAll rest

/-- The options joined in one argument. The last one may take the next argument as its value. -/
structure Joined where
  /-- The options with their values, the last one apart. -/
  done : List (OptionAction × String)
  /-- The last option, if its value is still to come or it takes none. -/
  last : Option OptionAction
  deriving DecidableEq, Repr

/-- Letters joined behind an option that takes no value are options themselves, until one takes the
rest as its value. -/
def joinedLetters (table : OptionTable) (action : OptionAction) :
    List Char → Except Stop Joined
  | [] => .ok ⟨[], some action⟩
  | c :: cs =>
    if action.takesValue then .ok ⟨[(action, String.ofList (c :: cs))], none⟩
    else
      match table.action? ['-', c] with
      | none => .error .misuse
      | some next => do
        let rest ← joinedLetters table next cs
        return { rest with done := (action, "") :: rest.done }

/-- The options that an option in use stands for. A long option without a value takes none that is
joined to it. -/
def OptionUse.joinedOptions (table : OptionTable) (use : OptionUse) : Except Stop Joined :=
  match use.joined with
  | none => .ok ⟨[], some use.action⟩
  | some value =>
    if use.action.takesValue then .ok ⟨[(use.action, String.ofList value)], none⟩
    else if value.isEmpty || (use.name.drop 1).head? == some '-' then .error .misuse
    else joinedLetters table use.action value

/-- The value that an option takes from the item behind it. -/
def nextValue : List Item → Except Stop String
  | ⟨text, .plain⟩ :: _ => .ok text
  | _ => .error .misuse

/-- An option in use takes effect, given the items behind it. Tells how many of these it takes. -/
def Chosen.use (c : Chosen) (table : OptionTable) (use : OptionUse) (behind : List Item) :
    Except Stop (Chosen × Nat) := do
  let joined ← use.joinedOptions table
  match joined.last with
  | none => return (← c.applyAll joined.done, 0)
  | some action =>
    if action.takesValue then
      let value ← nextValue behind
      return (← c.applyAll (joined.done ++ [(action, value)]), 1)
    else
      return (← c.applyAll (joined.done ++ [(action, "")]), 0)

/-! ### Reading -/

/-- The plain argument that items start with, with or without a separator around it, and how many
items it takes. -/
def operand? : List Item → Option (String × Nat)
  | ⟨_, .separator⟩ :: ⟨text, .plain⟩ :: _ => some (text, 2)
  | ⟨text, .plain⟩ :: ⟨_, .separator⟩ :: _ => some (text, 2)
  | ⟨text, .plain⟩ :: _ => some (text, 1)
  | _ => none

/-- Reads items one after the other, after passing over `skip` of them. With `command`, the first
plain argument takes all that are left along. -/
def scan (table : OptionTable) (command : Bool) :
    Nat → List Item → Chosen → Except Stop Chosen
  | _, [], c => .ok c
  | skip + 1, _ :: items, c => scan table command skip items c
  | 0, item :: items, c =>
    match item.mark with
    | .known use => do
      let (c, taken) ← c.use table use items
      scan table command taken items c
    | .unknown => scan table command 0 items { c with rejected := c.rejected ++ [item.text] }
    | _ =>
      match c.operands, operand? (item :: items) with
      | [], some (text, taken) =>
        if command then .ok { c with operands := (item :: items).map Item.text }
        else scan table command (taken - 1) items { c with operands := [text] }
      | _, _ => scan table command 0 items { c with rejected := c.rejected ++ [item.text] }

/-- A command with what it works on. -/
structure Command where
  /-- The command. -/
  kind : CommandKind
  /-- The template. -/
  template : String
  /-- Where to write to. -/
  output : Option String
  /-- Format of the module. -/
  format : Option String
  /-- Start of the names of event attributes. -/
  eventPrefix : Option String
  deriving DecidableEq, Repr

/-- What is asked for. -/
structure Request where
  /-- How much the program says. -/
  verbosity : Nat
  /-- What it does; nothing if there is no command. -/
  command : Option Command
  deriving DecidableEq, Repr

/-- The command of its name and the arguments behind it. -/
def readCommand (name : String) (args : List String) : Except Stop (Command × List String) :=
  match CommandKind.ofName? name with
  | none => .error .misuse
  | some kind => do
    let items ← classifyAll kind.options args
    let c ← scan kind.options false 0 items .nothing
    match c.operands with
    | [] => .error .misuse
    | template :: _ => return (⟨kind, template, c.output, c.format, c.eventPrefix⟩, c.rejected)

/-- What the arguments ask for. -/
def readArguments (args : List String) : Except Stop Request := do
  let items ← classifyAll generalOptions args
  let c ← scan generalOptions true 0 items .nothing
  match c.operands with
  | [] => if c.rejected.isEmpty then return ⟨c.verbosity, none⟩ else .error .misuse
  | name :: rest =>
    let (command, rejected) ← readCommand name rest
    if c.rejected.isEmpty && rejected.isEmpty then return ⟨c.verbosity, some command⟩
    else .error .misuse

end ReactiveTemplate.CommandLine
