import LoxLang.Proofs.Tree.Nested

/-!
# What a tree writes down

Nothing that is written down for a tree tells the numbers of its nodes, the lines of its tokens, or
the tokens that only serve as places.  What is left of it otherwise is its outline.

* `Stmt.outline` — the tree without all that.
* `Stmt.nested` — what is written down, with its nesting.

Principal results: `Expr.write_nested`, `Stmt.write_nested`.
-/

namespace LoxLang

/-! ## Outlines -/

/-- A token wherever it stands. -/
def Token.unplaced (t : Token) : Token := { t with line := 0 }

/-- Stands for any token. -/
def Token.any : Token := ⟨.endOfInput, "", .nil, 0⟩

mutual

def Expr.outline : Expr → Expr
  | .literal _ value => .literal 0 value
  | .grouping _ inner => .grouping 0 inner.outline
  | .unary _ token operand => .unary 0 token.unplaced operand.outline
  | .binary _ left token right => .binary 0 left.outline token.unplaced right.outline
  | .logical _ left token right => .logical 0 left.outline token.unplaced right.outline
  | .var _ name => .var 0 name.unplaced
  | .assign _ name value => .assign 0 name.unplaced value.outline
  | .call _ callee _ args => .call 0 callee.outline .any (outlineArgs args)
  | .get _ object name => .get 0 object.outline name.unplaced
  | .set _ object name value => .set 0 object.outline name.unplaced value.outline
  | .this .. => .this 0 .any
  | .super _ _ method => .super 0 .any method.unplaced

def outlineArgs : List Expr → List Expr
  | [] => []
  | e :: es => e.outline :: outlineArgs es

end

mutual

def Stmt.outline : Stmt → Stmt
  | .malformed => .malformed
  | .expression _ value => .expression 0 value.outline
  | .print _ value => .print 0 value.outline
  | .declare _ name none => .declare 0 name.unplaced none
  | .declare _ name (some value) => .declare 0 name.unplaced (some value.outline)
  | .block _ body => .block 0 (outlineBody body)
  | .conditional _ cond thenBranch none => .conditional 0 cond.outline thenBranch.outline none
  | .conditional _ cond thenBranch (some elseBranch) =>
    .conditional 0 cond.outline thenBranch.outline (some elseBranch.outline)
  | .loop _ cond body => .loop 0 cond.outline body.outline
  | .function decl => .function (outlineFunction decl)
  | .ret _ _ none => .ret 0 .any none
  | .ret _ _ (some value) => .ret 0 .any (some value.outline)
  | .classDecl _ name none methods => .classDecl 0 name.unplaced none (outlineMethods methods)
  | .classDecl _ name (some superclass) methods =>
    .classDecl 0 name.unplaced (some ⟨0, superclass.name.unplaced⟩) (outlineMethods methods)

def outlineBody : List Stmt → List Stmt
  | [] => []
  | s :: ss => s.outline :: outlineBody ss

def outlineFunction : Function → Function
  | ⟨_, name, params, body⟩ =>
    ⟨0, name.unplaced, params.map Token.unplaced, outlineBody body⟩

def outlineMethods : List Function → List Function
  | [] => []
  | f :: fs => outlineFunction f :: outlineMethods fs

end

/-! ## What is written down -/

open Nested

mutual

def Expr.nested : Expr → Nested
  | .literal _ value => atom value.text
  | .grouping _ inner => group [atom "group", inner.nested]
  | .unary _ token operand => group [atom token.lexeme, operand.nested]
  | .binary _ left token right => group [atom token.lexeme, left.nested, right.nested]
  | .logical _ left token right => group [atom token.lexeme, left.nested, right.nested]
  | .var _ name => atom name.lexeme
  | .assign _ name value => group [atom "=", atom name.lexeme, value.nested]
  | .call _ callee _ args => group (atom "call" :: callee.nested :: nestedArgs args)
  | .get _ object name => group [atom ".", object.nested, atom name.lexeme]
  | .set _ object name value => group [atom ".=", object.nested, atom name.lexeme, value.nested]
  | .this .. => atom "this"
  | .super _ _ method => group [atom "super", atom method.lexeme]

def nestedArgs : List Expr → List Nested
  | [] => []
  | e :: es => e.nested :: nestedArgs es

end

mutual

def Stmt.nested : Stmt → Nested
  | .malformed => atom "<error>"
  | .expression _ value => group [atom ";", value.nested]
  | .print _ value => group [atom "print", value.nested]
  | .declare _ name none => group [atom "var", atom name.lexeme]
  | .declare _ name (some value) => group [atom "var", atom name.lexeme, value.nested]
  | .block _ body => group (atom "block" :: nestedBody body)
  | .conditional _ cond thenBranch none => group [atom "if", cond.nested, thenBranch.nested]
  | .conditional _ cond thenBranch (some elseBranch) =>
    group [atom "if", cond.nested, thenBranch.nested, elseBranch.nested]
  | .loop _ cond body => group [atom "while", cond.nested, body.nested]
  | .function decl => nestedFunction decl
  | .ret _ _ none => group [atom "return"]
  | .ret _ _ (some value) => group [atom "return", value.nested]
  | .classDecl _ name none methods =>
    group (atom "class" :: atom name.lexeme :: nestedMethods methods)
  | .classDecl _ name (some superclass) methods =>
    group (atom "class" :: atom name.lexeme :: atom "<" :: atom superclass.name.lexeme ::
      nestedMethods methods)

def nestedBody : List Stmt → List Nested
  | [] => []
  | s :: ss => s.nested :: nestedBody ss

def nestedFunction : Function → Nested
  | ⟨_, name, params, body⟩ =>
    group (atom "fun" :: atom name.lexeme :: group (params.map fun p => atom p.lexeme) ::
      nestedBody body)

def nestedMethods : List Function → List Nested
  | [] => []
  | f :: fs => nestedFunction f :: nestedMethods fs

end

namespace Nested

theorem Writes.nil : Writes [] [] := rfl

theorem Writes.cons {part : String} {parts : List String} {x : Nested} {xs : List Nested}
    (h : x.write = part.toList) (h' : Writes parts xs) : Writes (part :: parts) (x :: xs) :=
  congrArg₂ List.cons h.symm h'

end Nested

mutual

theorem Expr.write_nested : ∀ e : Expr, e.nested.write = e.render.toList
  | .literal .. => rfl
  | .grouping _ inner => (parenthesize_writes (.cons inner.write_nested .nil)).symm
  | .unary _ _ operand => (parenthesize_writes (.cons operand.write_nested .nil)).symm
  | .binary _ left _ right =>
    (parenthesize_writes (.cons left.write_nested (.cons right.write_nested .nil))).symm
  | .logical _ left _ right =>
    (parenthesize_writes (.cons left.write_nested (.cons right.write_nested .nil))).symm
  | .var .. => rfl
  | .assign _ name value => by
    rw [Expr.render, show "= " = "=" ++ " " from rfl, parenthesize_two]
    exact (parenthesize_writes (.cons rfl (.cons value.write_nested .nil))).symm
  | .call _ callee _ args =>
    (parenthesize_writes (.cons callee.write_nested (nestedArgs_writes args))).symm
  | .get _ object _ => (parenthesize_writes (.cons object.write_nested (.cons rfl .nil))).symm
  | .set _ object _ value => (parenthesize_writes
      (.cons object.write_nested (.cons rfl (.cons value.write_nested .nil)))).symm
  | .this .. => rfl
  | .super .. => (parenthesize_writes (.cons rfl .nil)).symm

theorem nestedArgs_writes : ∀ es : List Expr, Writes (renderArgs es) (nestedArgs es)
  | [] => .nil
  | e :: es => .cons e.write_nested (nestedArgs_writes es)

end

/-- The parameters of a function, a group without a head. -/
theorem write_params (params : List Token) :
    (group (params.map fun p => atom p.lexeme)).write =
      ("(" ++ " ".intercalate (params.map (·.lexeme)) ++ ")").toList := by
  cases params with
  | nil => simp [write]
  | cons p params =>
    have hparams : Writes (params.map (·.lexeme)) (params.map fun p => atom p.lexeme) := by
      simp [Writes, write]
    exact (parenthesize_writes hparams).symm

mutual

theorem Stmt.write_nested : ∀ s : Stmt, s.nested.write = s.render.toList
  | .malformed => rfl
  | .expression _ value => (parenthesize_writes (.cons value.write_nested .nil)).symm
  | .print _ value => (parenthesize_writes (.cons value.write_nested .nil)).symm
  | .declare _ name none => by
    rw [Stmt.render, show "var " = "var" ++ " " from rfl, parenthesize_two]
    exact (parenthesize_writes (.cons rfl .nil)).symm
  | .declare _ name (some value) => by
    rw [Stmt.render, show "var " = "var" ++ " " from rfl, parenthesize_two]
    exact (parenthesize_writes (.cons rfl (.cons value.write_nested .nil))).symm
  | .block _ body => (parenthesize_writes (nestedBody_writes body)).symm
  | .conditional _ cond thenBranch none =>
    (parenthesize_writes (.cons cond.write_nested (.cons thenBranch.write_nested .nil))).symm
  | .conditional _ cond thenBranch (some elseBranch) => (parenthesize_writes (.cons
      cond.write_nested (.cons thenBranch.write_nested (.cons elseBranch.write_nested .nil)))).symm
  | .loop _ cond body =>
    (parenthesize_writes (.cons cond.write_nested (.cons body.write_nested .nil))).symm
  | .function decl => write_nestedFunction decl
  | .ret _ _ none => (parenthesize_writes .nil).symm
  | .ret _ _ (some value) => (parenthesize_writes (.cons value.write_nested .nil)).symm
  | .classDecl _ name none methods => by
    rw [Stmt.render, show "class " = "class" ++ " " from rfl, parenthesize_two]
    exact (parenthesize_writes (.cons rfl (nestedMethods_writes methods))).symm
  | .classDecl _ name (some superclass) methods => by
    have hhead : "class " ++ name.lexeme ++ " < " ++ superclass.name.lexeme =
        "class" ++ " " ++ name.lexeme ++ " " ++ "<" ++ " " ++ superclass.name.lexeme := by
      rw [show "class " = "class" ++ " " from rfl, show " < " = " " ++ "<" ++ " " from rfl]
      simp only [String.append_assoc]
    rw [Stmt.render, hhead, parenthesize_two, parenthesize_two, parenthesize_two]
    exact (parenthesize_writes (.cons rfl (.cons rfl (.cons rfl
      (nestedMethods_writes methods))))).symm

theorem nestedBody_writes : ∀ ss : List Stmt, Writes (renderBody ss) (nestedBody ss)
  | [] => .nil
  | s :: ss => .cons s.write_nested (nestedBody_writes ss)

theorem write_nestedFunction : ∀ f : Function, (nestedFunction f).write = (renderFunction f).toList
  | ⟨_, name, params, body⟩ => by
    have hhead : "fun " ++ name.lexeme ++ " (" ++ " ".intercalate (params.map (·.lexeme)) ++ ")" =
        "fun" ++ " " ++ name.lexeme ++ " " ++
          ("(" ++ " ".intercalate (params.map (·.lexeme)) ++ ")") := by
      rw [show "fun " = "fun" ++ " " from rfl, show " (" = " " ++ "(" from rfl]
      simp only [String.append_assoc]
    simp only [renderFunction]
    rw [hhead, parenthesize_two, parenthesize_two]
    exact (parenthesize_writes (.cons rfl
      (.cons (write_params params) (nestedBody_writes body)))).symm

theorem nestedMethods_writes : ∀ fs : List Function, Writes (renderMethods fs) (nestedMethods fs)
  | [] => .nil
  | f :: fs => .cons (write_nestedFunction f) (nestedMethods_writes fs)

end

end LoxLang
