import LoxLang.Token

/-!
# Syntax trees

Expressions and statements as the grammar reads them.  Every node carries a number of its own, so
that two occurrences of the same text stay apart: what is known about a reference is filed under
the number of its node.
-/

namespace LoxLang

inductive Expr where
  | literal (id : Nat) (value : Literal)
  | grouping (id : Nat) (inner : Expr)
  | unary (id : Nat) (operator : Token) (operand : Expr)
  | binary (id : Nat) (left : Expr) (operator : Token) (right : Expr)
  /-- An operator that may leave its right operand unevaluated. -/
  | logical (id : Nat) (left : Expr) (operator : Token) (right : Expr)
  | var (id : Nat) (name : Token)
  | assign (id : Nat) (name : Token) (value : Expr)
  /-- The token is the parenthesis that closes the arguments. -/
  | call (id : Nat) (callee : Expr) (paren : Token) (args : List Expr)
  | get (id : Nat) (object : Expr) (name : Token)
  | set (id : Nat) (object : Expr) (name : Token) (value : Expr)
  | this (id : Nat) (keyword : Token)
  | super (id : Nat) (keyword : Token) (method : Token)
  deriving Inhabited

/-- A function or method over statements `σ`. -/
structure FunctionDecl (σ : Type) where
  id : Nat
  name : Token
  params : List Token
  body : List σ
  deriving Inhabited

/-- The reference to the superclass in a class declaration. -/
structure Superclass where
  id : Nat
  name : Token

inductive Stmt where
  /-- Stands where a statement with a syntax error was. -/
  | malformed
  | expression (id : Nat) (value : Expr)
  | print (id : Nat) (value : Expr)
  | declare (id : Nat) (name : Token) (value : Option Expr)
  | block (id : Nat) (body : List Stmt)
  | conditional (id : Nat) (cond : Expr) (thenBranch : Stmt) (elseBranch : Option Stmt)
  | loop (id : Nat) (cond : Expr) (body : Stmt)
  | function (decl : FunctionDecl Stmt)
  | ret (id : Nat) (keyword : Token) (value : Option Expr)
  | classDecl (id : Nat) (name : Token) (superclass : Option Superclass)
      (methods : List (FunctionDecl Stmt))
  deriving Inhabited

/-- The declaration of a function or method. -/
abbrev Function := FunctionDecl Stmt

/-- The superclass reference as the expression that is evaluated. -/
def Superclass.toExpr (s : Superclass) : Expr := .var s.id s.name

/-- The method name that makes a method the initializer of its class. -/
def initializerName : String := "init"

end LoxLang
