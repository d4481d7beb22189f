import LoxLang.Number.Layout
import LoxLang.Tree

/-!
# Trees as text

The parenthesised form of a tree: an operator or keyword in front of its parts, such as
`(* (- 123) (group 45.67))`.
-/

namespace LoxLang

/-- The text of a literal as the program would print it. -/
def Literal.text : Literal → String
  | .nil => "nil"
  | .bool true => "true"
  | .bool false => "false"
  | .num x => Number.printed.write x
  | .str s => s

/-- A head and parts between parentheses, with single blanks between them. -/
def parenthesize (head : String) (parts : List String) : String :=
  "(" ++ " ".intercalate (head :: parts) ++ ")"

mutual

def Expr.render : Expr → String
  | .literal _ value => value.text
  | .grouping _ inner => parenthesize "group" [inner.render]
  | .unary _ token operand => parenthesize token.lexeme [operand.render]
  | .binary _ left token right => parenthesize token.lexeme [left.render, right.render]
  | .logical _ left token right => parenthesize token.lexeme [left.render, right.render]
  | .var _ name => name.lexeme
  | .assign _ name value => parenthesize ("= " ++ name.lexeme) [value.render]
  | .call _ callee _ args => parenthesize "call" (callee.render :: renderArgs args)
  | .get _ object name => parenthesize "." [object.render, name.lexeme]
  | .set _ object name value => parenthesize ".=" [object.render, name.lexeme, value.render]
  | .this .. => "this"
  | .super _ _ method => parenthesize "super" [method.lexeme]

def renderArgs : List Expr → List String
  | [] => []
  | e :: es => e.render :: renderArgs es

end

mutual

def Stmt.render : Stmt → String
  | .malformed => "<error>"
  | .expression _ value => parenthesize ";" [value.render]
  | .print _ value => parenthesize "print" [value.render]
  | .declare _ name none => parenthesize ("var " ++ name.lexeme) []
  | .declare _ name (some value) => parenthesize ("var " ++ name.lexeme) [value.render]
  | .block _ body => parenthesize "block" (renderBody body)
  | .conditional _ cond thenBranch none => parenthesize "if" [cond.render, thenBranch.render]
  | .conditional _ cond thenBranch (some elseBranch) =>
    parenthesize "if" [cond.render, thenBranch.render, elseBranch.render]
  | .loop _ cond body => parenthesize "while" [cond.render, body.render]
  | .function decl => renderFunction decl
  | .ret _ _ none => parenthesize "return" []
  | .ret _ _ (some value) => parenthesize "return" [value.render]
  | .classDecl _ name none methods =>
    parenthesize ("class " ++ name.lexeme) (renderMethods methods)
  | .classDecl _ name (some superclass) methods =>
    parenthesize ("class " ++ name.lexeme ++ " < " ++ superclass.name.lexeme)
      (renderMethods methods)

def renderBody : List Stmt → List String
  | [] => []
  | s :: ss => s.render :: renderBody ss

def renderFunction : Function → String
  | ⟨_, name, params, body⟩ =>
    let names := " ".intercalate (params.map (·.lexeme))
    parenthesize ("fun " ++ name.lexeme ++ " (" ++ names ++ ")") (renderBody body)

def renderMethods : List Function → List String
  | [] => []
  | f :: fs => renderFunction f :: renderMethods fs

end

end LoxLang
