import Std.Data.TreeMap
import LoxLang.Bindings
import LoxLang.Diagnostic
import LoxLang.Tree

/-!
# Static scopes

Which declaration does a name refer to?  One pass over a program answers this before anything
runs: for every reference to a local name it files, under the number of the node, how many scopes
lie between the reference and the declaration.  References that are not filed are global.

A block, a function with its parameters, and the implicit scopes of `super` and `this` around the
methods of a class are scopes.  The pass also finds the errors that need no execution, and none of
them stops it.
-/

namespace LoxLang

/-- The innermost function around a place. -/
inductive Routine where
  | none
  | function
  | method
  | initializer
  deriving DecidableEq, Repr

/-- The innermost class around a place. -/
inductive ClassContext where
  | none
  | plain
  | subclass
  deriving DecidableEq, Repr

/-- Node numbers of local references with the distance of each. -/
abbrev Distances := Std.TreeMap Nat Nat

/-- The state of the pass. -/
structure Resolution where
  /-- The open scopes, innermost first.  A name is `false` from its declaration until its
  initializer has been passed. -/
  scopes : List (Bindings Bool) := []
  table : Distances := ∅
  routine : Routine := .none
  enclosing : ClassContext := .none
  found : List Diagnostic := []

/-- The count of scopes between the innermost one and the first that has the name. -/
def distance? (name : String) : List (Bindings Bool) → Option Nat
  | [] => none
  | scope :: outer => if scope.contains name then some 0 else (distance? name outer).map (· + 1)

namespace Resolution

def note (r : Resolution) (token : Token) (problem : Problem) : Resolution :=
  { r with found := r.found ++ [.ofToken token problem] }

/-- Opens a scope that declares one name already. -/
def openScopeWith (r : Resolution) (name : String) : Resolution :=
  { r with scopes := Bindings.empty.put name true :: r.scopes }

def openScope (r : Resolution) : Resolution := { r with scopes := .empty :: r.scopes }

def closeScope (r : Resolution) : Resolution := { r with scopes := r.scopes.tail }

/-- Puts a name into the innermost scope, if a scope is open. -/
def mark (r : Resolution) (name : String) (defined : Bool) : Resolution :=
  match r.scopes with
  | [] => r
  | scope :: outer => { r with scopes := scope.put name defined :: outer }

/-- Declares a name.  A scope must not declare a name twice. -/
def declare (r : Resolution) (name : Token) : Resolution :=
  let r := match r.scopes with
    | [] => r
    | scope :: _ => if scope.contains name.lexeme then r.note name .alreadyDeclared else r
  r.mark name.lexeme false

/-- Makes a declared name readable. -/
def define (r : Resolution) (name : Token) : Resolution := r.mark name.lexeme true

/-- Files the distance of a reference, unless it is global. -/
def refer (r : Resolution) (id : Nat) (name : Token) : Resolution :=
  match distance? name.lexeme r.scopes with
  | none => r
  | some d => { r with table := r.table.insert id d }

/-- Whether a name is declared in the innermost scope and its initializer has not been passed. -/
def isPending (r : Resolution) (name : String) : Bool :=
  match r.scopes with
  | [] => false
  | scope :: _ => scope.find? name == some false

/-- A reading reference. -/
def read (r : Resolution) (id : Nat) (name : Token) : Resolution :=
  let r := if r.isPending name.lexeme then r.note name .readInOwnInitializer else r
  r.refer id name

/-- A use of `super`, checked against the class around it. -/
def checkSuper (r : Resolution) (keyword : Token) : Resolution :=
  match r.enclosing with
  | .none => r.note keyword .superOutsideClass
  | .plain => r.note keyword .superWithoutSuperclass
  | .subclass => r

mutual

def expr (r : Resolution) : Expr → Resolution
  | .literal .. => r
  | .grouping _ inner => r.expr inner
  | .unary _ _ operand => r.expr operand
  | .binary _ left _ right => (r.expr left).expr right
  | .logical _ left _ right => (r.expr left).expr right
  | .var id name => r.read id name
  | .assign id name value => (r.expr value).refer id name
  | .call _ callee _ args => (r.expr callee).args args
  | .get _ object _ => r.expr object
  | .set _ object _ value => (r.expr value).expr object
  | .this id keyword =>
    if r.enclosing = .none then r.note keyword .thisOutsideClass else r.refer id keyword
  | .super id keyword _ => (r.checkSuper keyword).refer id keyword

def args (r : Resolution) : List Expr → Resolution
  | [] => r
  | e :: es => (r.expr e).args es

end

def parameters (r : Resolution) (params : List Token) : Resolution :=
  params.foldl (fun r name => (r.declare name).define name) r

/-- Checks a `return`, with or without a value. -/
def checkReturn (r : Resolution) (keyword : Token) (hasValue : Bool) : Resolution :=
  let r := if r.routine = .none then r.note keyword .returnAtTopLevel else r
  if hasValue ∧ r.routine = .initializer then r.note keyword .valueFromInitializer else r

/-- Enters a class up to its methods: the name, the reference to the superclass, and the scopes of
`super` and `this`. -/
def enterClass (r : Resolution) (name : Token) (superclass : Option Superclass) : Resolution :=
  let r := ({ r with enclosing := .plain }.declare name).define name
  let r := match superclass with
    | none => r
    | some s =>
      let r := if s.name.lexeme = name.lexeme then r.note s.name .inheritsFromItself else r
      let r := { r with enclosing := .subclass }
      (r.read s.id s.name).openScopeWith "super"
  r.openScopeWith "this"

/-- Leaves a class: closes its scopes and goes back to the class around it. -/
def leaveClass (r : Resolution) (superclass : Option Superclass) (outer : ClassContext) :
    Resolution :=
  let r := r.closeScope
  let r := if superclass.isSome then r.closeScope else r
  { r with enclosing := outer }

/-- The routine that a method is. -/
def methodRoutine (name : Token) : Routine :=
  if name.lexeme = initializerName then .initializer else .method

mutual

def stmt (r : Resolution) : Stmt → Resolution
  | .malformed => r
  | .expression _ value => r.expr value
  | .print _ value => r.expr value
  | .declare _ name none => (r.declare name).define name
  | .declare _ name (some value) => ((r.declare name).expr value).define name
  | .block _ body => (r.openScope.body body).closeScope
  | .conditional _ cond thenBranch none => (r.expr cond).stmt thenBranch
  | .conditional _ cond thenBranch (some elseBranch) =>
    ((r.expr cond).stmt thenBranch).stmt elseBranch
  | .loop _ cond body => (r.expr cond).stmt body
  | .function decl => ((r.declare decl.name).define decl.name).function .function decl
  | .ret _ keyword none => r.checkReturn keyword false
  | .ret _ keyword (some value) => (r.checkReturn keyword true).expr value
  | .classDecl _ name superclass methods =>
    ((r.enterClass name superclass).methods methods).leaveClass superclass r.enclosing

def body (r : Resolution) : List Stmt → Resolution
  | [] => r
  | s :: ss => (r.stmt s).body ss

/-- The parameters and the body of a function share one scope. -/
def function (r : Resolution) (routine : Routine) : Function → Resolution
  | ⟨_, _, params, body⟩ =>
    let inner := ({ r with routine }.openScope.parameters params).body body
    { inner.closeScope with routine := r.routine }

def methods (r : Resolution) : List Function → Resolution
  | [] => r
  | f :: fs => (r.function (methodRoutine f.name) f).methods fs

end

/-- The resolution of a program. -/
def ofProgram (stmts : List Stmt) : Resolution := ({} : Resolution).body stmts

end Resolution

end LoxLang
