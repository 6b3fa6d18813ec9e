set_option autoImplicit false

/-! # Kinds of nodes

The closed set of node kinds that a front-end reports for a source file, with the name that
documents use for each.
-/

namespace SeamLint.Code

/-- What a node of a source tree is. -/
inductive Kind where
  | compilationUnit
  | namespaceDeclaration
  | classDeclaration
  | recordDeclaration
  | structDeclaration
  | interfaceDeclaration
  | method
  | constructor
  | property
  | accessor
  | field
  | variableDeclarator
  | parameter
  | localFunction
  | lambda
  | anonymousMethod
  | block
  | expressionBody
  | statement
  | ifStatement
  | forLoop
  | foreachLoop
  | whileLoop
  | doLoop
  | switchStatement
  | caseLabel
  | defaultLabel
  | tryStatement
  | catchClause
  | finallyClause
  | switchExpression
  | switchArm
  | binary
  | conditional
  | invocation
  | memberAccess
  | identifier
  | objectCreation
  | argument
  | literal
  | expression
deriving DecidableEq, Repr, Inhabited

namespace Kind

/-- The name of a kind in documents and messages. -/
def name : Kind → String
  | compilationUnit => "compilation_unit"
  | namespaceDeclaration => "namespace"
  | classDeclaration => "class"
  | recordDeclaration => "record"
  | structDeclaration => "struct"
  | interfaceDeclaration => "interface"
  | method => "method"
  | constructor => "constructor"
  | property => "property"
  | accessor => "accessor"
  | field => "field"
  | variableDeclarator => "variable_declarator"
  | parameter => "parameter"
  | localFunction => "local_function"
  | lambda => "lambda"
  | anonymousMethod => "anonymous_method"
  | block => "block"
  | expressionBody => "expression_body"
  | statement => "statement"
  | ifStatement => "if"
  | forLoop => "for"
  | foreachLoop => "foreach"
  | whileLoop => "while"
  | doLoop => "do"
  | switchStatement => "switch"
  | caseLabel => "case_label"
  | defaultLabel => "default_label"
  | tryStatement => "try"
  | catchClause => "catch"
  | finallyClause => "finally"
  | switchExpression => "switch_expression"
  | switchArm => "switch_arm"
  | binary => "binary"
  | conditional => "conditional"
  | invocation => "invocation"
  | memberAccess => "member_access"
  | identifier => "identifier"
  | objectCreation => "object_creation"
  | argument => "argument"
  | literal => "literal"
  | expression => "expression"

/-- All kinds. -/
def all : List Kind :=
  [compilationUnit, namespaceDeclaration, classDeclaration, recordDeclaration,
   structDeclaration, interfaceDeclaration, method, constructor, property, accessor, field,
   variableDeclarator, parameter, localFunction, lambda, anonymousMethod, block,
   expressionBody, statement, ifStatement, forLoop, foreachLoop, whileLoop, doLoop,
   switchStatement, caseLabel, defaultLabel, tryStatement, catchClause, finallyClause,
   switchExpression, switchArm, binary, conditional, invocation, memberAccess, identifier,
   objectCreation, argument, literal, expression]

/-- The kind with the given name. -/
def ofName? (text : String) : Option Kind := all.find? fun kind => kind.name == text

/-- The declarations of types. -/
def isTypeDeclaration : Kind → Bool
  | classDeclaration | recordDeclaration | structDeclaration | interfaceDeclaration => true
  | _ => false

/-- The function-like nodes that have a complexity of their own. -/
def isCodeUnit : Kind → Bool
  | method | constructor | accessor | localFunction | lambda | anonymousMethod => true
  | _ => false

/-- The function-like nodes that may stand inside the body of another code unit and are
scored on their own. -/
def isNestedUnit : Kind → Bool
  | lambda | localFunction | anonymousMethod => true
  | _ => false

/-- The two forms of a body. -/
def isBody : Kind → Bool
  | block | expressionBody => true
  | _ => false

end Kind

end SeamLint.Code
