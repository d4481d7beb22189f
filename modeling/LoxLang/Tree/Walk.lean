import LoxLang.Tree

/-!
# Walking a tree

`Node.children` lists what a node holds directly, in the order of its parts; `Stmt.walk` lists a
statement with everything below it, each node before what it holds.  Malformed statements are no
nodes.
-/

namespace LoxLang

/-- A node of a tree.  A method counts as the function statement it is written like. -/
inductive Node where
  | expr (e : Expr)
  | stmt (s : Stmt)

def Expr.id : Expr → Nat
  | .literal id _ => id
  | .grouping id _ => id
  | .unary id .. => id
  | .binary id .. => id
  | .logical id .. => id
  | .var id _ => id
  | .assign id .. => id
  | .call id .. => id
  | .get id .. => id
  | .set id .. => id
  | .this id _ => id
  | .super id .. => id

/-- The number of a statement; a malformed one has none. -/
def Stmt.id? : Stmt → Option Nat
  | .malformed => none
  | .expression id _ => some id
  | .print id _ => some id
  | .declare id .. => some id
  | .block id _ => some id
  | .conditional id .. => some id
  | .loop id .. => some id
  | .function decl => some decl.id
  | .ret id .. => some id
  | .classDecl id .. => some id

def Node.id? : Node → Option Nat
  | .expr e => some e.id
  | .stmt s => s.id?

/-- A statement as a list of nodes: itself, or nothing if it is malformed. -/
def Stmt.asNode? : Stmt → Option Node
  | .malformed => none
  | s => some (.stmt s)

def Expr.children : Expr → List Node
  | .literal .. => []
  | .grouping _ inner => [.expr inner]
  | .unary _ _ operand => [.expr operand]
  | .binary _ left _ right => [.expr left, .expr right]
  | .logical _ left _ right => [.expr left, .expr right]
  | .var .. => []
  | .assign _ _ value => [.expr value]
  | .call _ callee _ args => .expr callee :: args.map .expr
  | .get _ object _ => [.expr object]
  | .set _ object _ value => [.expr object, .expr value]
  | .this .. => []
  | .super .. => []

def Stmt.children : Stmt → List Node
  | .malformed => []
  | .expression _ value => [.expr value]
  | .print _ value => [.expr value]
  | .declare _ _ value => value.toList.map .expr
  | .block _ body => body.filterMap Stmt.asNode?
  | .conditional _ cond thenBranch elseBranch =>
    .expr cond :: (thenBranch :: elseBranch.toList).filterMap Stmt.asNode?
  | .loop _ cond body => .expr cond :: [body].filterMap Stmt.asNode?
  | .function decl => decl.body.filterMap Stmt.asNode?
  | .ret _ _ value => value.toList.map .expr
  | .classDecl _ _ superclass methods =>
    superclass.toList.map (fun s => .expr s.toExpr) ++ methods.map fun m => .stmt (.function m)

def Node.children : Node → List Node
  | .expr e => e.children
  | .stmt s => s.children

mutual

/-- An expression and everything below it. -/
def Expr.walk : Expr → List Node
  | e@(.literal ..) => [.expr e]
  | e@(.grouping _ inner) => .expr e :: inner.walk
  | e@(.unary _ _ operand) => .expr e :: operand.walk
  | e@(.binary _ left _ right) => .expr e :: (left.walk ++ right.walk)
  | e@(.logical _ left _ right) => .expr e :: (left.walk ++ right.walk)
  | e@(.var ..) => [.expr e]
  | e@(.assign _ _ value) => .expr e :: value.walk
  | e@(.call _ callee _ args) => .expr e :: (callee.walk ++ walkArgs args)
  | e@(.get _ object _) => .expr e :: object.walk
  | e@(.set _ object _ value) => .expr e :: (object.walk ++ value.walk)
  | e@(.this ..) => [.expr e]
  | e@(.super ..) => [.expr e]

def walkArgs : List Expr → List Node
  | [] => []
  | e :: es => e.walk ++ walkArgs es

end

mutual

/-- A statement and everything below it. -/
def Stmt.walk : Stmt → List Node
  | .malformed => []
  | s@(.expression _ value) => .stmt s :: value.walk
  | s@(.print _ value) => .stmt s :: value.walk
  | s@(.declare _ _ none) => [.stmt s]
  | s@(.declare _ _ (some value)) => .stmt s :: value.walk
  | s@(.block _ body) => .stmt s :: walkBody body
  | s@(.conditional _ cond thenBranch none) => .stmt s :: (cond.walk ++ thenBranch.walk)
  | s@(.conditional _ cond thenBranch (some elseBranch)) =>
    .stmt s :: (cond.walk ++ thenBranch.walk ++ elseBranch.walk)
  | s@(.loop _ cond body) => .stmt s :: (cond.walk ++ body.walk)
  | .function decl => walkFunction decl
  | s@(.ret _ _ none) => [.stmt s]
  | s@(.ret _ _ (some value)) => .stmt s :: value.walk
  | s@(.classDecl _ _ none methods) => .stmt s :: walkMethods methods
  | s@(.classDecl _ _ (some superclass) methods) =>
    .stmt s :: (superclass.toExpr.walk ++ walkMethods methods)

def walkBody : List Stmt → List Node
  | [] => []
  | s :: ss => s.walk ++ walkBody ss

def walkFunction : Function → List Node
  | f@⟨_, _, _, body⟩ => .stmt (.function f) :: walkBody body

def walkMethods : List Function → List Node
  | [] => []
  | f :: fs => walkFunction f ++ walkMethods fs

end

theorem mem_walkFunction_self (f : Function) : .stmt (.function f) ∈ walkFunction f := by
  rw [walkFunction]
  exact List.mem_cons_self

/-- A statement comes first. -/
theorem Stmt.mem_walk_self {s : Stmt} (h : s ≠ .malformed) : .stmt s ∈ s.walk := by
  cases s with
  | malformed => exact absurd rfl h
  | declare _ _ value | ret _ _ value => cases value <;> exact List.mem_cons_self
  | conditional _ _ _ rest => cases rest <;> exact List.mem_cons_self
  | classDecl _ _ superclass _ => cases superclass <;> exact List.mem_cons_self
  | function decl =>
    rw [walk]
    exact mem_walkFunction_self decl
  | _ => exact List.mem_cons_self

/-- The methods of a class are below it. -/
theorem Stmt.walkMethods_subset_walk {id : Nat} {name : Token} {superclass : Option Superclass}
    {methods : List Function} :
    walkMethods methods ⊆ (Stmt.classDecl id name superclass methods).walk := by
  intro node hmem
  cases superclass with
  | none => exact List.mem_cons_of_mem _ hmem
  | some s => exact List.mem_cons_of_mem _ (List.mem_append_right _ hmem)

end LoxLang
