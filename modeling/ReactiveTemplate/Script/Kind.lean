/-
The kinds of nodes in a syntax tree of the script, and the roles of children in their parents.

* `Kind` — what a node is, with the name it is reported under (`Kind.name`);
* `Role` — what a child is to its parent (its name, its body, its left side, …);
* the families of kinds that the analysis distinguishes: references, assignments, mutations,
  functions, accesses.
-/

set_option relaxedAutoImplicit false
set_option autoImplicit false

namespace ReactiveTemplate.Script

/-- What a node of the syntax tree is. -/
inductive Kind where
  | program | exportStatement | exportClause | exportSpecifier | namespaceExport
  | importStatement | importClause | importSpecifier | namedImports | namespaceImport
  | importAttribute | expressionStatement | variableDeclaration | lexicalDeclaration
  | variableDeclarator | statementBlock | emptyStatement | ifStatement | elseClause
  | switchStatement | switchBody | switchCase | switchDefault | forStatement | forInStatement
  | whileStatement | doStatement | tryStatement | catchClause | finallyClause | withStatement
  | breakStatement | continueStatement | debuggerStatement | returnStatement | throwStatement
  | labeledStatement | statementIdentifier | functionDeclaration | generatorFunctionDeclaration
  | functionExpression | generatorFunction | arrowFunction | methodDefinition | formalParameters
  | classDeclaration | classExpression | classHeritage | classBody | classStaticBlock
  | fieldDefinition | identifier | propertyIdentifier | privatePropertyIdentifier
  | shorthandPropertyIdentifier | shorthandPropertyIdentifierPattern | computedPropertyName
  | object | array | pair | spreadElement | objectPattern | arrayPattern | pairPattern
  | restPattern | assignmentPattern | objectAssignmentPattern | parenthesizedExpression
  | sequenceExpression | assignmentExpression | augmentedAssignmentExpression | awaitExpression
  | unaryExpression | binaryExpression | ternaryExpression | updateExpression | newExpression
  | yieldExpression | memberExpression | subscriptExpression | callExpression | arguments
  | optionalChain | metaProperty | importCall | thisValue | superValue | nullValue | trueValue
  | falseValue | undefinedValue | number | string | stringFragment | escapeSequence
  | templateString | templateSubstitution | regex | regexPattern | regexFlags
  deriving DecidableEq, Repr

/-- What a child is to its parent. -/
inductive Role where
  /-- A child that its parent has no special word for. -/
  | plain
  /-- The name that is declared, or the local name of an import. -/
  | name
  /-- The second name of an import or export. -/
  | newName
  /-- The label of a statement. -/
  | label
  /-- The value of a declarator, property, field or case. -/
  | value
  /-- The name of a property. -/
  | key
  /-- The side that is assigned to. -/
  | left
  /-- The pattern that a loop head binds with `var`. -/
  | varHead
  /-- The pattern that a loop head binds with `let` or `const`. -/
  | lexicalHead
  /-- The side that is read. -/
  | right
  /-- The body of a function, loop, clause or class. -/
  | body
  /-- The one parameter of an arrow function without parentheses, or of a catch clause. -/
  | parameter
  /-- The list of parameters. -/
  | parameters
  /-- The callee of a call. -/
  | function
  /-- The arguments of a call. -/
  | arguments
  /-- The object that is accessed. -/
  | object
  /-- The property that is accessed or defined. -/
  | property
  /-- The index of an access in brackets. -/
  | index
  /-- The operand of an operator. -/
  | argument
  /-- A condition. -/
  | condition
  /-- What follows a condition that holds. -/
  | consequence
  /-- What follows a condition that fails. -/
  | alternative
  /-- What a loop does first. -/
  | initializer
  /-- What a loop does after each round. -/
  | increment
  /-- The constructor of a `new` expression. -/
  | callee
  /-- What an export statement declares. -/
  | declaration
  /-- The module an import or export names. -/
  | source
  deriving DecidableEq, Repr

namespace Kind

/-- The name a kind is reported under. -/
def name : Kind → String
  | .program => "program"
  | .exportStatement => "export_statement"
  | .exportClause => "export_clause"
  | .exportSpecifier => "export_specifier"
  | .namespaceExport => "namespace_export"
  | .importStatement => "import_statement"
  | .importClause => "import_clause"
  | .importSpecifier => "import_specifier"
  | .namedImports => "named_imports"
  | .namespaceImport => "namespace_import"
  | .importAttribute => "import_attribute"
  | .expressionStatement => "expression_statement"
  | .variableDeclaration => "variable_declaration"
  | .lexicalDeclaration => "lexical_declaration"
  | .variableDeclarator => "variable_declarator"
  | .statementBlock => "statement_block"
  | .emptyStatement => "empty_statement"
  | .ifStatement => "if_statement"
  | .elseClause => "else_clause"
  | .switchStatement => "switch_statement"
  | .switchBody => "switch_body"
  | .switchCase => "switch_case"
  | .switchDefault => "switch_default"
  | .forStatement => "for_statement"
  | .forInStatement => "for_in_statement"
  | .whileStatement => "while_statement"
  | .doStatement => "do_statement"
  | .tryStatement => "try_statement"
  | .catchClause => "catch_clause"
  | .finallyClause => "finally_clause"
  | .withStatement => "with_statement"
  | .breakStatement => "break_statement"
  | .continueStatement => "continue_statement"
  | .debuggerStatement => "debugger_statement"
  | .returnStatement => "return_statement"
  | .throwStatement => "throw_statement"
  | .labeledStatement => "labeled_statement"
  | .statementIdentifier => "statement_identifier"
  | .functionDeclaration => "function_declaration"
  | .generatorFunctionDeclaration => "generator_function_declaration"
  | .functionExpression => "function_expression"
  | .generatorFunction => "generator_function"
  | .arrowFunction => "arrow_function"
  | .methodDefinition => "method_definition"
  | .formalParameters => "formal_parameters"
  | .classDeclaration => "class_declaration"
  | .classExpression => "class"
  | .classHeritage => "class_heritage"
  | .classBody => "class_body"
  | .classStaticBlock => "class_static_block"
  | .fieldDefinition => "field_definition"
  | .identifier => "identifier"
  | .propertyIdentifier => "property_identifier"
  | .privatePropertyIdentifier => "private_property_identifier"
  | .shorthandPropertyIdentifier => "shorthand_property_identifier"
  | .shorthandPropertyIdentifierPattern => "shorthand_property_identifier_pattern"
  | .computedPropertyName => "computed_property_name"
  | .object => "object"
  | .array => "array"
  | .pair => "pair"
  | .spreadElement => "spread_element"
  | .objectPattern => "object_pattern"
  | .arrayPattern => "array_pattern"
  | .pairPattern => "pair_pattern"
  | .restPattern => "rest_pattern"
  | .assignmentPattern => "assignment_pattern"
  | .objectAssignmentPattern => "object_assignment_pattern"
  | .parenthesizedExpression => "parenthesized_expression"
  | .sequenceExpression => "sequence_expression"
  | .assignmentExpression => "assignment_expression"
  | .augmentedAssignmentExpression => "augmented_assignment_expression"
  | .awaitExpression => "await_expression"
  | .unaryExpression => "unary_expression"
  | .binaryExpression => "binary_expression"
  | .ternaryExpression => "ternary_expression"
  | .updateExpression => "update_expression"
  | .newExpression => "new_expression"
  | .yieldExpression => "yield_expression"
  | .memberExpression => "member_expression"
  | .subscriptExpression => "subscript_expression"
  | .callExpression => "call_expression"
  | .arguments => "arguments"
  | .optionalChain => "optional_chain"
  | .metaProperty => "meta_property"
  | .importCall => "import"
  | .thisValue => "this"
  | .superValue => "super"
  | .nullValue => "null"
  | .trueValue => "true"
  | .falseValue => "false"
  | .undefinedValue => "undefined"
  | .number => "number"
  | .string => "string"
  | .stringFragment => "string_fragment"
  | .escapeSequence => "escape_sequence"
  | .templateString => "template_string"
  | .templateSubstitution => "template_substitution"
  | .regex => "regex"
  | .regexPattern => "regex_pattern"
  | .regexFlags => "regex_flags"

/-- Leaves that read a binding. -/
def isReference : Kind → Bool
  | .identifier | .shorthandPropertyIdentifier => true
  | _ => false

/-- Assignments, plain and compound. -/
def isAssignment : Kind → Bool
  | .assignmentExpression | .augmentedAssignmentExpression => true
  | _ => false

/-- Expressions that write to their target. -/
def isMutation : Kind → Bool
  | .updateExpression => true
  | k => k.isAssignment

/-- Declarations that bind their name to a function. -/
def isFunctionDeclaration : Kind → Bool
  | .functionDeclaration | .generatorFunctionDeclaration => true
  | _ => false

/-- Function expressions that may carry a name of their own. -/
def isFunctionExpression : Kind → Bool
  | .functionExpression | .generatorFunction => true
  | _ => false

/-- Everything with parameters and a body. -/
def isFunction : Kind → Bool
  | .arrowFunction | .methodDefinition => true
  | k => k.isFunctionDeclaration || k.isFunctionExpression

/-- Accesses to a property of an object. -/
def isAccess : Kind → Bool
  | .memberExpression | .subscriptExpression => true
  | _ => false

/-- Loops that open a scope of their own. -/
def isForLoop : Kind → Bool
  | .forStatement | .forInStatement => true
  | _ => false

end Kind

end ReactiveTemplate.Script
