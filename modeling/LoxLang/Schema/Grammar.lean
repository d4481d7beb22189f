import LoxLang.Schema
import LoxLang.Schema.Lexeme

/-!
# The grammar of schemas

    start   → family*
    family  → NAME "{" node* "}"
    node    → NAME ":" field ( "," field )*
    field   → NAME [ QUANTIFIER ] NAME

A parser for texts is generated from this grammar.  It gives a tree with one branch for each rule: the
names and quantifiers of the rule and its inner branches stand there in order, with a mark where an
optional quantifier is missing.  The signs that are written out in a rule are left out.

What is made of a tree goes from its leaves to its root, rule by rule.

* `Expansion`, `Rule.expansion` — the rules.
* `Tree`, `treeOf` — trees, and that of a text that describes a schema.
* `Tree.build?` — what is made of a tree.
* `Parser`, `Parser.read` — reading a schema with a parser.
-/

namespace LoxLang.Schema

/-- A lexeme without its place. -/
structure Symbol where
  kind : LexemeKind
  text : String
  deriving DecidableEq, Repr

inductive Rule where
  | start
  | family
  | node
  | field
  deriving DecidableEq, Repr

/-- The right side of a rule. -/
inductive Expansion where
  | terminal (kind : LexemeKind)
  | rule (r : Rule)
  | seq (first second : Expansion)
  | many (part : Expansion)
  /-- In brackets; only single terminals stand there. -/
  | option (part : Expansion)
  deriving DecidableEq, Repr

def Rule.expansion : Rule → Expansion
  | .start => .many (.rule .family)
  | .family => .seq (.terminal .name)
      (.seq (.terminal .leftBrace) (.seq (.many (.rule .node)) (.terminal .rightBrace)))
  | .node => .seq (.terminal .name)
      (.seq (.terminal .colon)
        (.seq (.rule .field) (.many (.seq (.terminal .comma) (.rule .field)))))
  | .field => .seq (.terminal .name) (.seq (.option (.terminal .quantifier)) (.terminal .name))

/-- The terminals that have a name in the grammar.  The others are written out where they stand. -/
def LexemeKind.isNamed : LexemeKind → Bool
  | .name => true
  | .quantifier => true
  | _ => false

inductive Tree where
  | token (t : Symbol)
  | missing
  | branch (rule : Rule) (children : List Tree)

/-! ## The tree of a schema -/

def nameTree (text : String) : Tree := .token ⟨.name, text⟩

def Field.tree (f : Field) : Tree :=
  .branch .field
    [nameTree f.type,
      match f.quantifier with
      | some q => .token ⟨.quantifier, q.symbol⟩
      | none => .missing,
      nameTree f.name]

def NodeSpec.tree (node : NodeSpec) : Tree :=
  .branch .node (nameTree node.name :: node.fields.map Field.tree)

def Family.tree (family : Family) : Tree :=
  .branch .family (nameTree family.name :: family.nodes.map NodeSpec.tree)

/-- The tree of a text that describes these families. -/
def treeOf (families : List Family) : Tree := .branch .start (families.map Family.tree)

/-! ## What is made of a tree -/

/-- The quantifier that a text stands for. -/
def Quantifier.ofText (text : String) : Quantifier :=
  if text = Quantifier.optional.symbol then .optional else .many

/-- What is made of a tree or of a part of it. -/
inductive Built where
  | text (text : String)
  | token (t : Symbol)
  | missing
  | field (f : Field)
  | node (n : NodeSpec)
  | family (f : Family)
  | schema (families : List Family)

namespace Built

def field? : Built → Option Field
  | .field f => some f
  | _ => none

def node? : Built → Option NodeSpec
  | .node n => some n
  | _ => none

def family? : Built → Option Family
  | .family f => some f
  | _ => none

end Built

/-- A name is its text; any other symbol stays. -/
def Symbol.build (t : Symbol) : Built :=
  if t.kind = .name then .text t.text else .token t

/-- What a rule makes of the parts that its branch has. -/
def Rule.build? : Rule → List Built → Option Built
  | .start, families => (families.mapM Built.family?).map .schema
  | .family, .text name :: nodes => (nodes.mapM Built.node?).map fun nodes => .family ⟨name, nodes⟩
  | .node, .text name :: fields => (fields.mapM Built.field?).map fun fields => .node ⟨name, fields⟩
  | .field, [.text type, .missing, .text name] => some (.field ⟨type, name, none⟩)
  | .field, [.text type, .token q, .text name] =>
    some (.field ⟨type, name, some (.ofText q.text)⟩)
  | _, _ => none

namespace Tree

mutual

def build? : Tree → Option Built
  | .token t => some t.build
  | .missing => some .missing
  | .branch rule children => (buildAll? children).bind rule.build?

def buildAll? : List Tree → Option (List Built)
  | [] => some []
  | tree :: trees => (build? tree).bind fun part => (buildAll? trees).map (part :: ·)

end

/-- The families that a tree describes. -/
def families? (tree : Tree) : Option (List Family) :=
  tree.build?.bind fun
    | .schema families => some families
    | _ => none

end Tree

/-! ## Reading with a parser -/

inductive SchemaError where
  | unexpectedLexeme (kind : LexemeKind) (text : String) (position : Position)
  /-- The text ends too early; the position is that of its last lexeme. -/
  | unexpectedEnd (position : Position)
  | unexpectedCharacter (c : Char) (position : Position)
  /-- The tree of the text is none of the grammar. -/
  | malformed
  deriving DecidableEq, Repr

/-- A parser for texts: what a generator makes of the grammar. -/
def Parser : Type := String → Except SchemaError Tree

/-- Reads a schema text with a parser. -/
def Parser.read (parse : Parser) (text : String) : Except SchemaError (List Family) :=
  match parse text with
  | .ok tree =>
    match tree.families? with
    | some families => .ok families
    | none => .error .malformed
  | .error e => .error e

end LoxLang.Schema
