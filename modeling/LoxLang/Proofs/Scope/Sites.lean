import LoxLang.Scope

/-!
# Sites

A site is an occurrence of a name in a program together with what surrounds it while the program is
resolved: the scopes that are open, the constructs that opened them, and the declaration whose
initializer the site belongs to.  `programSites` lists the sites in the order of the pass, with the
states that the pass itself goes through.
-/

namespace LoxLang

/-- What opens a scope, and makes a frame whenever it is activated. -/
inductive Construct where
  | block (id : Nat)
  /-- The parameters and the body of a function or method. -/
  | routine (id : Nat)
  /-- The scope of `this` around the methods of a class. -/
  | receiver (id : Nat) (methods : List Function)
  /-- The scope of `super` around the methods of a class. -/
  | base (id : Nat)

/-- A variable declaration. -/
structure Declared where
  id : Nat
  name : String

/-- What surrounds a site.  The constructs and the scopes are listed from the innermost on. -/
structure Surroundings where
  constructs : List Construct
  scopes : List (Bindings Bool)
  /-- The declaration whose initializer this is a part of. -/
  initializing : Option Declared

/-- What is done with a name. -/
inductive Use where
  | read
  | write
  | this
  | super
  | declare
  | parameter
  | functionName
  | className
  deriving DecidableEq, Repr

/-- Whether a use refers to a declaration, which may lie in a scope further out. -/
def Use.isReference : Use → Bool
  | .read | .write | .this | .super => true
  | _ => false

structure Site where
  use : Use
  /-- The number of the node, for a parameter that of its function. -/
  id : Nat
  name : Token
  around : Surroundings

/-- How many scopes lie between a site and the declaration that it refers to. -/
def Site.distance? (site : Site) : Option Nat :=
  LoxLang.distance? site.name.lexeme site.around.scopes

/-- The construct that holds the declaration which a site refers to. -/
def Site.construct? (site : Site) : Option Construct :=
  site.distance?.bind fun d => site.around.constructs[d]?

mutual

def exprSites (cs : List Construct) (init : Option Declared) (r : Resolution) : Expr → List Site
  | .literal .. => []
  | .grouping _ inner => exprSites cs init r inner
  | .unary _ _ operand => exprSites cs init r operand
  | .binary _ left _ right => exprSites cs init r left ++ exprSites cs init (r.expr left) right
  | .logical _ left _ right => exprSites cs init r left ++ exprSites cs init (r.expr left) right
  | .var id name => [⟨.read, id, name, ⟨cs, r.scopes, init⟩⟩]
  | .assign id name value =>
    exprSites cs init r value ++ [⟨.write, id, name, ⟨cs, (r.expr value).scopes, init⟩⟩]
  | .call _ callee _ args => exprSites cs init r callee ++ argSites cs init (r.expr callee) args
  | .get _ object _ => exprSites cs init r object
  | .set _ object _ value =>
    exprSites cs init r value ++ exprSites cs init (r.expr value) object
  | .this id keyword => [⟨.this, id, keyword, ⟨cs, r.scopes, init⟩⟩]
  | .super id keyword _ => [⟨.super, id, keyword, ⟨cs, r.scopes, init⟩⟩]

def argSites (cs : List Construct) (init : Option Declared) (r : Resolution) :
    List Expr → List Site
  | [] => []
  | e :: es => exprSites cs init r e ++ argSites cs init (r.expr e) es

end

/-- The constructs of a class around its methods. -/
def classConstructs (id : Nat) (superclass : Option Superclass) (methods : List Function) :
    List Construct :=
  .receiver id methods :: if superclass.isSome then [.base id] else []

/-- The reference to the superclass, which the name of the class precedes. -/
def superclassSites (cs : List Construct) (r : Resolution) (name : Token) :
    Option Superclass → List Site
  | none => []
  | some s =>
    [⟨.read, s.id, s.name, ⟨cs, ((r.declare name).define name).scopes, none⟩⟩]

/-- The parameters of a function, each of which the ones before it precede. -/
def parameterSites (cs : List Construct) (id : Nat) (r : Resolution) : List Token → List Site
  | [] => []
  | name :: names =>
    ⟨.parameter, id, name, ⟨cs, r.scopes, none⟩⟩ ::
      parameterSites cs id ((r.declare name).define name) names

mutual

def stmtSites (cs : List Construct) (r : Resolution) : Stmt → List Site
  | .malformed => []
  | .expression _ value => exprSites cs none r value
  | .print _ value => exprSites cs none r value
  | .declare id name none => [⟨.declare, id, name, ⟨cs, r.scopes, none⟩⟩]
  | .declare id name (some value) =>
    ⟨.declare, id, name, ⟨cs, r.scopes, none⟩⟩ ::
      exprSites cs (some ⟨id, name.lexeme⟩) (r.declare name) value
  | .block id body => bodySites (.block id :: cs) r.openScope body
  | .conditional _ cond thenBranch none =>
    exprSites cs none r cond ++ stmtSites cs (r.expr cond) thenBranch
  | .conditional _ cond thenBranch (some elseBranch) =>
    exprSites cs none r cond ++ stmtSites cs (r.expr cond) thenBranch ++
      stmtSites cs ((r.expr cond).stmt thenBranch) elseBranch
  | .loop _ cond body => exprSites cs none r cond ++ stmtSites cs (r.expr cond) body
  | .function decl =>
    ⟨.functionName, decl.id, decl.name, ⟨cs, r.scopes, none⟩⟩ ::
      functionSites cs ((r.declare decl.name).define decl.name) .function decl
  | .ret _ _ none => []
  | .ret _ keyword (some value) => exprSites cs none (r.checkReturn keyword true) value
  | .classDecl id name superclass methods =>
    ⟨.className, id, name, ⟨cs, r.scopes, none⟩⟩ :: (superclassSites cs r name superclass ++
      methodSites (classConstructs id superclass methods ++ cs) (r.enterClass name superclass)
        methods)

def bodySites (cs : List Construct) (r : Resolution) : List Stmt → List Site
  | [] => []
  | s :: ss => stmtSites cs r s ++ bodySites cs (r.stmt s) ss

def functionSites (cs : List Construct) (r : Resolution) (routine : Routine) :
    Function → List Site
  | ⟨id, _, params, body⟩ =>
    parameterSites (.routine id :: cs) id { r with routine }.openScope params ++
      bodySites (.routine id :: cs) ({ r with routine }.openScope.parameters params) body

def methodSites (cs : List Construct) (r : Resolution) : List Function → List Site
  | [] => []
  | f :: fs =>
    functionSites cs r (Resolution.methodRoutine f.name) f ++
      methodSites cs (r.function (Resolution.methodRoutine f.name) f) fs

end

/-- The sites of a program. -/
def programSites (stmts : List Stmt) : List Site := bodySites [] {} stmts

end LoxLang
