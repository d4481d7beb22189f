import LoxLang.Proofs.Scope.Balance
import LoxLang.Proofs.Tree.Ids

/-!
# Paths into a program

What a name refers to, and what is wrong with its use, as a matter of where it stands.  A `Path`
leads from the top of a program to a node, and everything that scoping depends on is read off it,
with no pass over the program:

* `Path.scopes` — the names that are declared before the node, scope by scope.
* `Path.routine`, `Path.enclosing` — the innermost function and the innermost class around it.
* `Path.initializing?` — the local variable whose initializer it is a part of.

`programOccurrences` lists the nodes of a program with their paths.  `Occurrence.filed?` is what is
to be known about a node that refers to a local name, and `Occurrence.due` are the errors at it.
-/

namespace LoxLang

/-! ## Paths -/

/-- A step from a statement into a part of it. -/
inductive Step where
  /-- Into the initializer of a variable. -/
  | initializer (name : Token)
  /-- Into a block, behind these of its statements. -/
  | block (before : List Stmt)
  /-- Into the second branch of a conditional, behind the first one. -/
  | elseBranch (thenBranch : Stmt)
  /-- Into the body of a function, behind these of its statements. -/
  | function (decl : Function) (before : List Stmt)
  /-- Into the superclass clause of a class. -/
  | superclass (className : Token)
  /-- Among the methods of a class. -/
  | member (className : Token) (superclass : Option Superclass)
  /-- Into the body of a method, behind these of its statements. -/
  | method (decl : Function) (before : List Stmt)

/-- The steps to a node, from the last one on.  The statements of a program are reached with no
step. -/
abbrev Path := List Step

/-- Adds names to the innermost scope.  Where no scope is open the names are global. -/
def addNames (names : List String) : List (List String) → List (List String)
  | [] => []
  | scope :: outer => (scope ++ names) :: outer

/-- Whether the innermost scope declares the name, if a scope is open. -/
def declaresName (name : String) : List (List String) → Bool
  | [] => false
  | scope :: _ => decide (name ∈ scope)

/-- The names that statements declare in the scope around them. -/
def declaredBy (stmts : List Stmt) : List String := stmts.flatMap Stmt.declared

namespace Path

/-- The local scopes around a place with the names that are declared in each before it, from the
innermost scope on.  A variable is declared from its initializer on; a function is declared before
its body, a class before its superclass and its methods. -/
def scopes : Path → List (List String)
  | [] => []
  | .initializer name :: outer => addNames [name.lexeme] (scopes outer)
  | .block before :: outer => declaredBy before :: scopes outer
  | .elseBranch thenBranch :: outer => addNames thenBranch.declared (scopes outer)
  | .function decl before :: outer =>
    (decl.params.map (·.lexeme) ++ declaredBy before) :: addNames [decl.name.lexeme] (scopes outer)
  | .superclass className :: outer => addNames [className.lexeme] (scopes outer)
  | .member className none :: outer => ["this"] :: addNames [className.lexeme] (scopes outer)
  | .member className (some _) :: outer =>
    ["this"] :: ["super"] :: addNames [className.lexeme] (scopes outer)
  | .method decl before :: outer =>
    (decl.params.map (·.lexeme) ++ declaredBy before) :: scopes outer

/-- The innermost function around a place. -/
def routine : Path → Routine
  | [] => .none
  | .function _ _ :: _ => .function
  | .method decl _ :: _ => if decl.name.lexeme = initializerName then .initializer else .method
  | _ :: outer => routine outer

/-- The innermost class around a place. -/
def enclosing : Path → ClassContext
  | [] => .none
  | .superclass _ :: _ => .subclass
  | .member _ superclass :: _ => if superclass.isSome then .subclass else .plain
  | _ :: outer => enclosing outer

/-- The local variable whose initializer the place is in. -/
def initializing? : Path → Option String
  | .initializer name :: outer => if scopes outer = [] then none else some name.lexeme
  | _ => none

/-- Whether the place is that of a method of a class. -/
def isMember : Path → Bool
  | .member _ _ :: _ => true
  | _ => false

/-- The innermost scope that declares the name has `d` scopes inside it. -/
def Binds (p : Path) (name : String) (d : Nat) : Prop :=
  (∃ scope, p.scopes[d]? = some scope ∧ name ∈ scope) ∧
    ∀ k < d, ∀ scope, p.scopes[k]? = some scope → name ∉ scope

/-- How many scopes lie inside the innermost one that declares the name. -/
def distance? (p : Path) (name : String) : Option Nat :=
  p.scopes.findIdx? fun scope => decide (name ∈ scope)

theorem distance?_eq_some {p : Path} {name : String} {d : Nat} :
    p.distance? name = some d ↔ p.Binds name d := by
  unfold distance? Binds
  rw [List.findIdx?_eq_some_iff_getElem]
  constructor
  · rintro ⟨hd, hmem, hleast⟩
    refine ⟨⟨_, List.getElem?_eq_getElem hd, of_decide_eq_true hmem⟩, ?_⟩
    intro k hk scope hscope
    obtain ⟨hlt, rfl⟩ := List.getElem?_eq_some_iff.1 hscope
    exact fun hname => hleast k hk (decide_eq_true hname)
  · rintro ⟨⟨scope, hscope, hmem⟩, hleast⟩
    obtain ⟨hd, rfl⟩ := List.getElem?_eq_some_iff.1 hscope
    refine ⟨hd, decide_eq_true hmem, ?_⟩
    intro k hk hname
    exact hleast k hk _ (List.getElem?_eq_getElem (by omega)) (of_decide_eq_true hname)

end Path

/-! ## Occurrences -/

/-- A node with the path to it. -/
structure Occurrence where
  path : Path
  node : Node

/-- The nodes of an expression.  All of them stand where the expression does. -/
def exprOccurrences (p : Path) (e : Expr) : List Occurrence := e.walk.map (Occurrence.mk p)

mutual

def stmtOccurrences (p : Path) : Stmt → List Occurrence
  | .malformed => []
  | s@(.expression _ value) => ⟨p, .stmt s⟩ :: exprOccurrences p value
  | s@(.print _ value) => ⟨p, .stmt s⟩ :: exprOccurrences p value
  | s@(.declare _ _ none) => [⟨p, .stmt s⟩]
  | s@(.declare _ name (some value)) =>
    ⟨p, .stmt s⟩ :: exprOccurrences (.initializer name :: p) value
  | s@(.block _ body) => ⟨p, .stmt s⟩ :: bodyOccurrences (fun before => .block before :: p) [] body
  | s@(.conditional _ cond thenBranch none) =>
    ⟨p, .stmt s⟩ :: (exprOccurrences p cond ++ stmtOccurrences p thenBranch)
  | s@(.conditional _ cond thenBranch (some elseBranch)) =>
    ⟨p, .stmt s⟩ :: (exprOccurrences p cond ++ stmtOccurrences p thenBranch ++
      stmtOccurrences (.elseBranch thenBranch :: p) elseBranch)
  | s@(.loop _ cond body) => ⟨p, .stmt s⟩ :: (exprOccurrences p cond ++ stmtOccurrences p body)
  | .function decl => functionOccurrences p .function decl
  | s@(.ret _ _ none) => [⟨p, .stmt s⟩]
  | s@(.ret _ _ (some value)) => ⟨p, .stmt s⟩ :: exprOccurrences p value
  | s@(.classDecl _ name none methods) =>
    ⟨p, .stmt s⟩ :: methodOccurrences (.member name none :: p) methods
  | s@(.classDecl _ name (some superclass) methods) =>
    ⟨p, .stmt s⟩ :: (exprOccurrences (.superclass name :: p) superclass.toExpr ++
      methodOccurrences (.member name (some superclass) :: p) methods)

/-- The nodes of statements in a row; `path` is the path to one of them, given those before it. -/
def bodyOccurrences (path : List Stmt → Path) (before : List Stmt) : List Stmt → List Occurrence
  | [] => []
  | s :: ss => stmtOccurrences (path before) s ++ bodyOccurrences path (before ++ [s]) ss

def functionOccurrences (p : Path) (into : Function → List Stmt → Step) :
    Function → List Occurrence
  | f@⟨_, _, _, body⟩ =>
    ⟨p, .stmt (.function f)⟩ :: bodyOccurrences (fun before => into f before :: p) [] body

def methodOccurrences (p : Path) : List Function → List Occurrence
  | [] => []
  | f :: fs => functionOccurrences p .method f ++ methodOccurrences p fs

end

/-- The nodes of a program with their paths. -/
def programOccurrences (stmts : List Stmt) : List Occurrence :=
  bodyOccurrences (fun _ => []) [] stmts

/-! The nodes are those of the walk. -/

@[simp] theorem exprOccurrences_map_node (p : Path) (e : Expr) :
    (exprOccurrences p e).map Occurrence.node = e.walk := by
  rw [exprOccurrences, List.map_map]
  exact List.map_id _

mutual

theorem stmtOccurrences_map_node (p : Path) : ∀ s : Stmt,
    (stmtOccurrences p s).map Occurrence.node = s.walk
  | .malformed => rfl
  | .expression _ value => by simp [stmtOccurrences, Stmt.walk]
  | .print _ value => by simp [stmtOccurrences, Stmt.walk]
  | .declare _ _ none => rfl
  | .declare _ _ (some value) => by simp [stmtOccurrences, Stmt.walk]
  | .block _ body => by simp [stmtOccurrences, Stmt.walk, bodyOccurrences_map_node _ [] body]
  | .conditional _ cond thenBranch none => by
    simp [stmtOccurrences, Stmt.walk, stmtOccurrences_map_node p thenBranch]
  | .conditional _ cond thenBranch (some elseBranch) => by
    simp [stmtOccurrences, Stmt.walk, stmtOccurrences_map_node p thenBranch,
      stmtOccurrences_map_node _ elseBranch]
  | .loop _ cond body => by
    simp [stmtOccurrences, Stmt.walk, stmtOccurrences_map_node p body]
  | .function decl => by
    simp [stmtOccurrences, Stmt.walk, functionOccurrences_map_node p .function decl]
  | .ret _ _ none => rfl
  | .ret _ _ (some value) => by simp [stmtOccurrences, Stmt.walk]
  | .classDecl _ name none methods => by
    simp [stmtOccurrences, Stmt.walk, methodOccurrences_map_node _ methods]
  | .classDecl _ name (some superclass) methods => by
    simp [stmtOccurrences, Stmt.walk, methodOccurrences_map_node _ methods]

theorem bodyOccurrences_map_node (path : List Stmt → Path) : ∀ (before body : List Stmt),
    (bodyOccurrences path before body).map Occurrence.node = walkBody body
  | _, [] => rfl
  | before, s :: ss => by
    simp [bodyOccurrences, walkBody, stmtOccurrences_map_node _ s,
      bodyOccurrences_map_node path _ ss]

theorem functionOccurrences_map_node (p : Path) (into : Function → List Stmt → Step) :
    ∀ f : Function, (functionOccurrences p into f).map Occurrence.node = walkFunction f
  | ⟨_, _, _, body⟩ => by
    simp [functionOccurrences, walkFunction, bodyOccurrences_map_node _ [] body]

theorem methodOccurrences_map_node (p : Path) : ∀ methods : List Function,
    (methodOccurrences p methods).map Occurrence.node = walkMethods methods
  | [] => rfl
  | f :: fs => by
    simp [methodOccurrences, walkMethods, functionOccurrences_map_node p .method f,
      methodOccurrences_map_node p fs]

end

theorem programOccurrences_map_node (stmts : List Stmt) :
    (programOccurrences stmts).map Occurrence.node = walkBody stmts :=
  bodyOccurrences_map_node _ [] stmts

/-! ## What is due at a node -/

/-- The name that an expression refers to, by itself and not through a part of it.  Outside every
class, `this` refers to nothing. -/
def Expr.reference? (p : Path) : Expr → Option Token
  | .var _ name => some name
  | .assign _ name _ => some name
  | .super _ keyword _ => some keyword
  | .this _ keyword => if p.enclosing = .none then none else some keyword
  | _ => none

/-- The parameters that repeat a name, given the names before them. -/
def repeated (seen : List String) : List Token → List Token
  | [] => []
  | name :: names =>
    (if name.lexeme ∈ seen then [name] else []) ++ repeated (seen ++ [name.lexeme]) names

/-- The error of a declaration in a scope that declares its name already. -/
def Path.redeclared (p : Path) (name : Token) : List Diagnostic :=
  if declaresName name.lexeme p.scopes then [.ofToken name .alreadyDeclared] else []

namespace Occurrence

/-- The number of a node that refers to a local name, with the distance of the name. -/
def filed? : Occurrence → Option (Nat × Nat)
  | ⟨p, .expr e⟩ => (e.reference? p).bind fun name =>
    (p.distance? name.lexeme).map fun d => (e.id, d)
  | ⟨_, .stmt _⟩ => none

/-- The errors at a node. -/
def due : Occurrence → List Diagnostic
  | ⟨p, .expr (.var _ name)⟩ =>
    if p.initializing? = some name.lexeme then [.ofToken name .readInOwnInitializer] else []
  | ⟨p, .expr (.this _ keyword)⟩ =>
    if p.enclosing = .none then [.ofToken keyword .thisOutsideClass] else []
  | ⟨p, .expr (.super _ keyword _)⟩ =>
    match p.enclosing with
    | .none => [.ofToken keyword .superOutsideClass]
    | .plain => [.ofToken keyword .superWithoutSuperclass]
    | .subclass => []
  | ⟨p, .stmt (.declare _ name _)⟩ => p.redeclared name
  -- a method is no declaration in the scope around it
  | ⟨p, .stmt (.function decl)⟩ =>
    (if p.isMember then [] else p.redeclared decl.name) ++
      (repeated [] decl.params).map (.ofToken · .alreadyDeclared)
  | ⟨p, .stmt (.classDecl _ name superclass _)⟩ =>
    p.redeclared name ++ match superclass with
      | none => []
      | some s => if s.name.lexeme = name.lexeme then [.ofToken s.name .inheritsFromItself] else []
  | ⟨p, .stmt (.ret _ keyword value)⟩ =>
    (if p.routine = .none then [.ofToken keyword .returnAtTopLevel] else []) ++
      (if value.isSome ∧ p.routine = .initializer then [.ofToken keyword .valueFromInitializer]
        else [])
  | _ => []

end Occurrence

end LoxLang
