/-
Names of generated variables.

* `identifierOf` — a name made fit to stand in the generated script;
* `NameCounter`, `NameCounter.fresh` — names that end in a running number.
-/

set_option relaxedAutoImplicit false
set_option autoImplicit false

namespace ReactiveTemplate

/-! ### Identifiers -/

/-- Words that no generated variable is called: those that the generated script reserves, and some
more. -/
def avoidedWords : List String :=
  ["break", "case", "catch", "class", "const", "continue", "debugger", "default", "delete", "do",
    "else", "enum", "export", "extends", "false", "finally", "for", "function", "if", "implements",
    "import", "in", "instanceof", "interface", "let", "new", "null", "package", "private",
    "protected", "public", "return", "static", "super", "switch", "this", "throw", "true", "try",
    "typeof", "var", "void", "while", "with", "yield", "await",
    "False", "None", "True", "and", "as", "assert", "async", "def", "del", "elif", "except", "from",
    "global", "is", "lambda", "nonlocal", "not", "or", "pass", "raise"]

/-- Whether a character separates the parts of a name. -/
def isNameSeparator (c : Char) : Bool :=
  c == '-' || c == ':' || c == '.'

/-- Whether a character may stand in a generated name. -/
def isIdentifierChar (c : Char) : Bool :=
  ('a' ≤ c && c ≤ 'z') || ('A' ≤ c && c ≤ 'Z') || ('0' ≤ c && c ≤ '9') || c == '_' || c == '$'

/-- The characters of a name that may stand in a generated one, separators as underscores. -/
def identifierChars (cs : List Char) : List Char :=
  (cs.map fun c => if isNameSeparator c then '_' else c).filter isIdentifierChar

/-- An underscore in front if a digit comes first. -/
def guardDigit : List Char → List Char
  | [] => []
  | c :: cs => if '0' ≤ c && c ≤ '9' then '_' :: c :: cs else c :: cs

/-- A name made fit to stand in the generated script. -/
def identifierOf (name : String) : String :=
  let word := String.ofList (guardDigit (identifierChars name.toList))
  if word ∈ avoidedWords then word ++ "_" else if word = "" then "_unnamed" else word

/-! ### Fresh names -/

/-- A source of names that end in a running number. -/
structure NameCounter where
  /-- The next number. -/
  next : Int
  deriving DecidableEq, Repr

namespace NameCounter

/-- The source that starts with one. -/
def first : NameCounter :=
  ⟨1⟩

/-- A name with the next number, and the source behind it. -/
def fresh (c : NameCounter) (stem : String) : String × NameCounter :=
  (stem ++ "_" ++ toString c.next, ⟨c.next + 1⟩)

/-- Names with the given stems, one after the other. -/
def freshAll : NameCounter → List String → List String
  | _, [] => []
  | c, stem :: stems => (c.fresh stem).1 :: freshAll (c.fresh stem).2 stems

end NameCounter

end ReactiveTemplate
