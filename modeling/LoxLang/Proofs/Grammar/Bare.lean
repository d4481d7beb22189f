import LoxLang.Tree

/-!
# Trees without numbers

`Expr.bare` and `Stmt.bare` give every node the number zero, so that two trees have the same bare
tree if they differ in the numbers of their nodes at most.
-/

namespace LoxLang

mutual

def Expr.bare : Expr → Expr
  | .literal _ value => .literal 0 value
  | .grouping _ inner => .grouping 0 inner.bare
  | .unary _ token operand => .unary 0 token operand.bare
  | .binary _ left token right => .binary 0 left.bare token right.bare
  | .logical _ left token right => .logical 0 left.bare token right.bare
  | .var _ name => .var 0 name
  | .assign _ name value => .assign 0 name value.bare
  | .call _ callee paren args => .call 0 callee.bare paren (bareArgs args)
  | .get _ object name => .get 0 object.bare name
  | .set _ object name value => .set 0 object.bare name value.bare
  | .this _ keyword => .this 0 keyword
  | .super _ keyword method => .super 0 keyword method

def bareArgs : List Expr → List Expr
  | [] => []
  | e :: es => e.bare :: bareArgs es

end

def Superclass.bare (s : Superclass) : Superclass := ⟨0, s.name⟩

mutual

def Stmt.bare : Stmt → Stmt
  | .malformed => .malformed
  | .expression _ value => .expression 0 value.bare
  | .print _ value => .print 0 value.bare
  | .declare _ name none => .declare 0 name none
  | .declare _ name (some value) => .declare 0 name (some value.bare)
  | .block _ body => .block 0 (bareBody body)
  | .conditional _ cond thenBranch none => .conditional 0 cond.bare thenBranch.bare none
  | .conditional _ cond thenBranch (some elseBranch) =>
    .conditional 0 cond.bare thenBranch.bare (some elseBranch.bare)
  | .loop _ cond body => .loop 0 cond.bare body.bare
  | .function decl => .function (bareFunction decl)
  | .ret _ keyword none => .ret 0 keyword none
  | .ret _ keyword (some value) => .ret 0 keyword (some value.bare)
  | .classDecl _ name superclass methods =>
    .classDecl 0 name (superclass.map Superclass.bare) (bareMethods methods)

def bareBody : List Stmt → List Stmt
  | [] => []
  | s :: ss => s.bare :: bareBody ss

def bareFunction : Function → Function
  | ⟨_, name, params, body⟩ => ⟨0, name, params, bareBody body⟩

def bareMethods : List Function → List Function
  | [] => []
  | f :: fs => bareFunction f :: bareMethods fs

end

end LoxLang
