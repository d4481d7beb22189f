import LoxLang.Schema.Grammar

/-!
# A parser for schemas

The grammar is regular, so an automaton can do what a generated parser does: `State.step` says which
lexemes may follow and what has been read with them.  The first lexeme without a step, the first
stray character, or an end that comes too early is where reading stops.
-/

namespace LoxLang.Schema

/-- A family whose closing brace has not been read: the families before it, its name, and its
complete nodes. -/
structure OpenFamily where
  before : List Family
  name : String
  nodes : List NodeSpec

/-- A node inside an open family: its name and its complete fields. -/
structure OpenNode where
  family : OpenFamily
  name : String
  fields : List Field

/-- How far a schema has been read. -/
inductive State where
  | outside (families : List Family)
  | familyNamed (before : List Family) (name : String)
  | inFamily (family : OpenFamily)
  | nodeNamed (family : OpenFamily) (name : String)
  | fieldDue (node : OpenNode)
  | typeRead (node : OpenNode) (type : String)
  | quantifierRead (node : OpenNode) (type : String) (quantifier : Quantifier)
  | fieldRead (node : OpenNode)

def OpenFamily.close (f : OpenFamily) : List Family := f.before ++ [⟨f.name, f.nodes⟩]

def OpenNode.close (n : OpenNode) : OpenFamily :=
  { n.family with nodes := n.family.nodes ++ [⟨n.name, n.fields⟩] }

def OpenNode.addField (n : OpenNode) (field : Field) : OpenNode :=
  { n with fields := n.fields ++ [field] }

/-- Reads one lexeme, if it may stand here. -/
def State.step : State → LexemeKind → String → Option State
  | .outside families, .name, text => some (.familyNamed families text)
  | .familyNamed before name, .leftBrace, _ => some (.inFamily ⟨before, name, []⟩)
  | .inFamily family, .name, text => some (.nodeNamed family text)
  | .inFamily family, .rightBrace, _ => some (.outside family.close)
  | .nodeNamed family name, .colon, _ => some (.fieldDue ⟨family, name, []⟩)
  | .fieldDue node, .name, text => some (.typeRead node text)
  | .typeRead node type, .quantifier, text => some (.quantifierRead node type (.ofText text))
  | .typeRead node type, .name, text => some (.fieldRead (node.addField ⟨type, text, none⟩))
  | .quantifierRead node type q, .name, text =>
    some (.fieldRead (node.addField ⟨type, text, some q⟩))
  | .fieldRead node, .comma, _ => some (.fieldDue node)
  | .fieldRead node, .name, text => some (.nodeNamed node.close text)
  | .fieldRead node, .rightBrace, _ => some (.outside node.close.close)
  | _, _, _ => none

/-- The tree of what has been read, if a schema may end here. -/
def State.finish : State → Option Tree
  | .outside families => some (treeOf families)
  | _ => none

/-- Reads lexemes in order; `last` is the position of the one before them. -/
def readLexemes (state : State) (last : Position) : List Lexeme → Except SchemaError Tree
  | [] =>
    match state.finish with
    | some tree => .ok tree
    | none => .error (.unexpectedEnd last)
  | .stray c position :: _ => .error (.unexpectedCharacter c position)
  | .token kind text position :: rest =>
    match state.step kind text with
    | some next => readLexemes next position rest
    | none => .error (.unexpectedLexeme kind text position)

/-- Parses a text by the automaton. -/
def parseByStates : Parser := fun text => readLexemes (.outside []) ⟨1, 1⟩ (lexemes text)

end LoxLang.Schema
