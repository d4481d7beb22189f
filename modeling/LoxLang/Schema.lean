/-!
# Schemas of syntax trees

A schema lists families of tree nodes.  Each node has fields, and each field a type, a name and
perhaps a quantifier: `?` for a field that may be missing, `*` for a list.
-/

namespace LoxLang.Schema

inductive Quantifier where
  | optional
  | many
  deriving DecidableEq, Repr

def Quantifier.symbol : Quantifier → String
  | .optional => "?"
  | .many => "*"

structure Field where
  type : String
  name : String
  quantifier : Option Quantifier
  deriving DecidableEq, Repr

structure NodeSpec where
  name : String
  fields : List Field
  deriving DecidableEq, Repr

structure Family where
  name : String
  nodes : List NodeSpec
  deriving DecidableEq, Repr

/-- A field that is always there. -/
def one (type name : String) : Field := ⟨type, name, none⟩

/-- A field that may be missing. -/
def opt (type name : String) : Field := ⟨type, name, some .optional⟩

/-- A field that holds a list. -/
def many (type name : String) : Field := ⟨type, name, some .many⟩

/-- The schema of this language's own trees. -/
def standard : List Family :=
  [⟨"Expr",
    [⟨"Literal", [one "Value" "value"]⟩,
     ⟨"Grouping", [one "Expr" "expr"]⟩,
     ⟨"UnaryOp", [one "Token" "op", one "Expr" "expr"]⟩,
     ⟨"BinOp", [one "Expr" "left", one "Token" "op", one "Expr" "right"]⟩,
     ⟨"Logical", [one "Expr" "left", one "Token" "op", one "Expr" "right"]⟩,
     ⟨"Var", [one "Token" "name"]⟩,
     ⟨"Assign", [one "Token" "name", one "Expr" "value"]⟩,
     ⟨"Call", [one "Expr" "callee", one "Token" "paren", many "Expr" "params"]⟩,
     ⟨"Getattr", [one "Expr" "obj", one "Token" "name"]⟩,
     ⟨"Setattr", [one "Expr" "obj", one "Token" "name", one "Expr" "value"]⟩,
     ⟨"This", [one "Token" "keyword"]⟩,
     ⟨"Super", [one "Token" "keyword", one "Token" "method"]⟩]⟩,
   ⟨"Stmt",
    [⟨"Expression", [one "Expr" "expr"]⟩,
     ⟨"Print", [one "Expr" "expr"]⟩,
     ⟨"VarDef", [one "Token" "name", opt "Expr" "value"]⟩,
     ⟨"Block", [many "Stmt" "stmts"]⟩,
     ⟨"If", [one "Expr" "cond", one "Stmt" "then", opt "Stmt" "orelse"]⟩,
     ⟨"While", [one "Expr" "cond", one "Stmt" "body"]⟩,
     ⟨"Function", [one "Token" "name", many "Token" "params", many "Stmt" "body"]⟩,
     ⟨"Return", [one "Token" "keyword", opt "Expr" "expr"]⟩,
     ⟨"Class", [one "Token" "name", opt "Var" "superclass", many "Function" "methods"]⟩]⟩]

end LoxLang.Schema
