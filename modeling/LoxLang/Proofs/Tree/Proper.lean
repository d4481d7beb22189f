import LoxLang.Diagnostic
import LoxLang.Value

/-!
# Proper trees

A tree is proper if it could have been read without a problem: nothing in it is malformed, names
and keywords are tokens of their own classes, operators stand for operations, only blocks and function bodies hold declarations,
and no list of arguments or parameters is too long.  All of its tokens satisfy a predicate of
choice.
-/

namespace LoxLang

/-- Declares a name in the scope around it. -/
def Stmt.isDeclaration : Stmt → Bool
  | .declare .. => true
  | .function _ => true
  | .classDecl .. => true
  | _ => false

/-- A token that satisfies `P` and names something. -/
def ProperName (P : Token → Prop) (name : Token) : Prop := name.kind = .identifier ∧ P name

mutual

def Expr.Proper (P : Token → Prop) : Expr → Prop
  | .literal .. => True
  | .grouping _ inner => inner.Proper P
  | .unary _ operator operand =>
    ((unaryOp? operator.kind).isSome ∧ P operator) ∧ operand.Proper P
  | .binary _ left operator right =>
    left.Proper P ∧ ((binaryOp? operator.kind).isSome ∧ P operator) ∧ right.Proper P
  | .logical _ left operator right => left.Proper P ∧ P operator ∧ right.Proper P
  | .var _ name => ProperName P name
  | .assign _ name value => ProperName P name ∧ value.Proper P
  | .call _ callee paren args =>
    callee.Proper P ∧ P paren ∧ ProperArgs P args ∧ args.length ≤ maxArguments
  | .get _ object name => object.Proper P ∧ ProperName P name
  | .set _ object name value => object.Proper P ∧ ProperName P name ∧ value.Proper P
  | .this _ keyword => keyword.kind = .kwThis ∧ P keyword
  | .super _ keyword method => (keyword.kind = .kwSuper ∧ P keyword) ∧ ProperName P method

def ProperArgs (P : Token → Prop) : List Expr → Prop
  | [] => True
  | e :: es => e.Proper P ∧ ProperArgs P es

end

/-- The parameters of a function. -/
def ProperParams (P : Token → Prop) (params : List Token) : Prop :=
  (∀ name ∈ params, ProperName P name) ∧ params.length ≤ maxArguments

mutual

def Stmt.Proper (P : Token → Prop) : Stmt → Prop
  | .malformed => False
  | .expression _ value => value.Proper P
  | .print _ value => value.Proper P
  | .declare _ name none => ProperName P name
  | .declare _ name (some value) => ProperName P name ∧ value.Proper P
  | .block _ body => ProperBody P body
  | .conditional _ cond thenBranch none =>
    cond.Proper P ∧ thenBranch.Proper P ∧ thenBranch.isDeclaration = false
  | .conditional _ cond thenBranch (some elseBranch) =>
    cond.Proper P ∧ (thenBranch.Proper P ∧ thenBranch.isDeclaration = false) ∧
      elseBranch.Proper P ∧ elseBranch.isDeclaration = false
  | .loop _ cond body => cond.Proper P ∧ body.Proper P ∧ body.isDeclaration = false
  | .function decl => ProperFunction P decl
  | .ret _ keyword none => P keyword
  | .ret _ keyword (some value) => P keyword ∧ value.Proper P
  | .classDecl _ name superclass methods =>
    ProperName P name ∧ (∀ s ∈ superclass, ProperName P s.name) ∧ ProperMethods P methods

def ProperBody (P : Token → Prop) : List Stmt → Prop
  | [] => True
  | s :: ss => s.Proper P ∧ ProperBody P ss

def ProperFunction (P : Token → Prop) : Function → Prop
  | ⟨_, name, params, body⟩ => ProperName P name ∧ ProperParams P params ∧ ProperBody P body

def ProperMethods (P : Token → Prop) : List Function → Prop
  | [] => True
  | f :: fs => ProperFunction P f ∧ ProperMethods P fs

end

end LoxLang
