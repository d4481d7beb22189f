import LoxLang.Schema.Grammar

/-!
# Class definitions from a schema

A schema as Python source: an abstract class for each family and a data class for each node.
-/

namespace LoxLang.Schema

/-- The type annotation of a field. -/
def Field.annotation (f : Field) : String :=
  match f.quantifier with
  | some .optional => "Optional[" ++ f.type ++ "]"
  | some .many => "list[" ++ f.type ++ "]"
  | none => f.type

/-- What stands above the classes. -/
def header : String :=
  "\n".intercalate
    ["# Código gerado por lox.codegen. Não edite manualmente.",
     "from __future__ import annotations",
     "",
     "from abc import ABC",
     "from dataclasses import dataclass",
     "from typing import Optional",
     "",
     "from .node import Node",
     "from .tokens import Token"]

def nodeClass (base : String) (node : NodeSpec) : String :=
  "\n".intercalate
    ("@dataclass" :: ("class " ++ node.name ++ "(" ++ base ++ "):") ::
      node.fields.map fun f => "    " ++ f.name ++ ": " ++ f.annotation)

def familyClass (name : String) : String := "class " ++ name ++ "(Node, ABC):\n    pass"

/-- The class of a family and those of its nodes. -/
def familyChunks (family : Family) : List String :=
  familyClass family.name :: family.nodes.map (nodeClass family.name)

/-- The whole source, with two empty lines between its parts. -/
def classes (families : List Family) : String :=
  "\n\n\n".intercalate (header :: families.flatMap familyChunks) ++ "\n"

/-- The classes of the schema that a text describes. -/
def generate (parse : Parser) (text : String) : Except SchemaError String :=
  (parse.read text).map classes

end LoxLang.Schema
