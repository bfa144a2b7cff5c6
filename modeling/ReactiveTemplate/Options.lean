/-
Options of a compilation.

* `Options` — the options, with their defaults in `Options.default`;
* `Options.problems` — what is wrong with options, if anything;
* `Overrides`, `Options.override` — options changed where a new value is given.
-/

import ReactiveTemplate.Text.Blank
import ReactiveTemplate.Text.Quoted

set_option relaxedAutoImplicit false
set_option autoImplicit false

namespace ReactiveTemplate

/-- Options of a compilation. -/
structure Options where
  /-- Name of the template in diagnostics. -/
  filename : String
  /-- Format of the generated module. -/
  format : String
  /-- What the names of event attributes start with. -/
  eventPrefix : String
  /-- Label that marks reactive declarations. -/
  reactiveLabel : String
  /-- Text that one level of indentation is made of. -/
  indent : String
  deriving DecidableEq, Repr

namespace Options

/-- The options in use when nothing is said. -/
def default : Options :=
  ⟨"<template>", "esm", "on:", "$", "    "⟩

/-- The formats that a module can be generated in. -/
def formats : List String :=
  ["esm", "cjs"]

/-- What a label may start with. -/
def isLabelStart (c : Char) : Bool :=
  ('a' ≤ c && c ≤ 'z') || ('A' ≤ c && c ≤ 'Z') || c == '_' || c == '$'

/-- What a label may go on with. -/
def isLabelPart (c : Char) : Bool :=
  isLabelStart c || ('0' ≤ c && c ≤ '9')

/-- A text without one line feed at its end. -/
def dropFinalNewline (cs : List Char) : List Char :=
  if cs.getLast? = some '\n' then cs.dropLast else cs

/-- Whether a text is a label; one line feed behind it is overlooked. -/
def isLabel (s : String) : Bool :=
  match dropFinalNewline s.toList with
  | c :: cs => isLabelStart c && cs.all isLabelPart
  | [] => false

/-- What is wrong with options; empty when nothing is. -/
def problems (o : Options) : List String :=
  (if o.format ∈ formats then []
    else ["format must be one of " ++ ", ".intercalate formats ++ ", got " ++ Text.quote o.format]) ++
  (if o.eventPrefix = "" then ["event_prefix must not be empty"] else []) ++
  (if isLabel o.reactiveLabel then []
    else ["reactive_label must be a JavaScript label, got " ++ Text.quote o.reactiveLabel]) ++
  (if Text.allBlank o.indent.toList then [] else ["indent must contain only whitespace"])

end Options

/-- New values for some of the options. -/
structure Overrides where
  /-- New name of the template. -/
  filename : Option String := none
  /-- New format of the module. -/
  format : Option String := none
  /-- New start of the names of event attributes. -/
  eventPrefix : Option String := none
  /-- New label of reactive declarations. -/
  reactiveLabel : Option String := none
  /-- New text of one level of indentation. -/
  indent : Option String := none

/-- Options with new values where they are given. -/
def Options.override (o : Options) (new : Overrides) : Options :=
  ⟨new.filename.getD o.filename, new.format.getD o.format, new.eventPrefix.getD o.eventPrefix,
    new.reactiveLabel.getD o.reactiveLabel, new.indent.getD o.indent⟩

end ReactiveTemplate
