import LoxLang.Token

/-!
# Diagnostics

* `Problem` — what can be wrong with a source text, found while it is scanned, parsed or
  resolved; `Problem.message` is the wording.
* `Diagnostic` — a problem with its place; `Diagnostic.render` is the line that is reported.
* `Report` — the rendered messages so far, and whether a static or a runtime error is among them
  since the last `reset`.
-/

namespace LoxLang

/-- What a function declaration is called in messages about it. -/
inductive Callable where
  | function
  | method
  deriving DecidableEq, Repr

def Callable.noun : Callable → String
  | .function => "function"
  | .method => "method"

/-- What the grammar asks for at a place where something else stands. -/
inductive Expected where
  | expression
  | className
  | superclassName
  | classBody
  | classEnd
  | functionName (what : Callable)
  | parametersStart (what : Callable)
  | parameterName
  | parametersEnd
  | functionBody (what : Callable)
  | variableName
  | variableEnd
  | forStart
  | loopConditionEnd
  | forClausesEnd
  | ifStart
  | ifConditionEnd
  | printEnd
  | returnEnd
  | whileStart
  | whileConditionEnd
  | blockEnd
  | expressionEnd
  | propertyName
  | argumentsEnd
  | superDot
  | superMethodName
  | groupingEnd
  deriving DecidableEq, Repr

def Expected.text : Expected → String
  | .expression => "expression"
  | .className => "class name"
  | .superclassName => "superclass name"
  | .classBody => "'\x7b' before class body"
  | .classEnd => "'\x7d' after class body"
  | .functionName what => what.noun ++ " name"
  | .parametersStart what => "'(' after " ++ what.noun ++ " name"
  | .parameterName => "parameter name"
  | .parametersEnd => "')' after parameters"
  | .functionBody what => "'\x7b' before " ++ what.noun ++ " body"
  | .variableName => "variable name"
  | .variableEnd => "';' after variable declaration"
  | .forStart => "'(' after 'for'"
  | .loopConditionEnd => "';' after loop condition"
  | .forClausesEnd => "')' after for clauses"
  | .ifStart => "'(' after 'if'"
  | .ifConditionEnd => "')' after if condition"
  | .printEnd => "';' after value"
  | .returnEnd => "';' after return value"
  | .whileStart => "'(' after 'while'"
  | .whileConditionEnd => "')' after condition"
  | .blockEnd => "'\x7d' after block"
  | .expressionEnd => "';' after expression"
  | .propertyName => "property name after '.'"
  | .argumentsEnd => "')' after arguments"
  | .superDot => "'.' after 'super'"
  | .superMethodName => "superclass method name"
  | .groupingEnd => "')' after expression"

/-- The most arguments of a call and the most parameters of a function. -/
def maxArguments : Nat := 255

/-- What can be wrong with a source text. -/
inductive Problem where
  | unexpectedCharacter
  | unterminatedString
  | expected (what : Expected)
  | invalidAssignmentTarget
  | tooManyArguments
  | tooManyParameters
  | readInOwnInitializer
  | alreadyDeclared
  | returnAtTopLevel
  | valueFromInitializer
  | thisOutsideClass
  | superOutsideClass
  | superWithoutSuperclass
  | inheritsFromItself
  deriving DecidableEq, Repr

def Problem.message : Problem → String
  | .unexpectedCharacter => "Unexpected character."
  | .unterminatedString => "Unterminated string."
  | .expected what => "Expect " ++ what.text ++ "."
  | .invalidAssignmentTarget => "Invalid assignment target."
  | .tooManyArguments => "Can't have more than " ++ toString maxArguments ++ " arguments."
  | .tooManyParameters => "Can't have more than " ++ toString maxArguments ++ " parameters."
  | .readInOwnInitializer => "Can't read local variable in its own initializer."
  | .alreadyDeclared => "Already a variable with this name in this scope."
  | .returnAtTopLevel => "Can't return from top-level code."
  | .valueFromInitializer => "Can't return a value from an initializer."
  | .thisOutsideClass => "Can't use 'this' outside of a class."
  | .superOutsideClass => "Can't use 'super' outside of a class."
  | .superWithoutSuperclass => "Can't use 'super' in a class with no superclass."
  | .inheritsFromItself => "A class can't inherit from itself."

/-- Where on its line a problem stands. -/
inductive Place where
  | unnamed
  | atEnd
  | atText (lexeme : String)
  deriving DecidableEq, Repr

def Place.text : Place → String
  | .unnamed => ""
  | .atEnd => " at end"
  | .atText lexeme => " at '" ++ lexeme ++ "'"

/-- The place of a token of this class and text. -/
def Place.ofLexeme (kind : TokenKind) (lexeme : String) : Place :=
  if kind = .endOfInput then .atEnd else .atText lexeme

structure Diagnostic where
  line : Nat
  place : Place
  problem : Problem
  deriving DecidableEq, Repr

/-- A problem at a token. -/
def Diagnostic.ofToken (token : Token) (problem : Problem) : Diagnostic :=
  ⟨token.line, Place.ofLexeme token.kind token.lexeme, problem⟩

/-- The text of a static error. -/
def staticErrorText (line : Int) (place message : String) : String :=
  "[line " ++ toString line ++ "] Error" ++ place ++ ": " ++ message

/-- The text of a runtime error. -/
def runtimeErrorText (line : Int) (message : String) : String :=
  message ++ "\n[line " ++ toString line ++ "]"

def Diagnostic.render (d : Diagnostic) : String :=
  staticErrorText d.line d.place.text d.problem.message

/-- The messages since the last reset, and which kinds of error are among them. -/
structure Report where
  messages : List String := []
  hadError : Bool := false
  hadRuntimeError : Bool := false
  deriving DecidableEq, Repr, Inhabited

namespace Report

/-- Adds a message that is no error. -/
def emit (r : Report) (text : String) : Report := { r with messages := r.messages ++ [text] }

/-- Adds a static error. -/
def staticError (r : Report) (line : Int) (place message : String) : Report :=
  { r.emit (staticErrorText line place message) with hadError := true }

/-- Adds a runtime error. -/
def runtimeError (r : Report) (line : Int) (message : String) : Report :=
  { r.emit (runtimeErrorText line message) with hadRuntimeError := true }

/-- Adds a problem of the source text. -/
def add (r : Report) (d : Diagnostic) : Report :=
  r.staticError d.line d.place.text d.problem.message

def addAll (r : Report) (ds : List Diagnostic) : Report := ds.foldl add r

/-- Forgets all messages and errors. -/
def reset (_ : Report) : Report := {}

end Report

end LoxLang
