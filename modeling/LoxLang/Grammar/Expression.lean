import LoxLang.Grammar.Cursor

/-!
# The grammar of expressions

    assignment  → ( call "." )? NAME "=" assignment | or
    or          → and ( "or" and )*
    and         → equality ( "and" equality )*
    equality    → comparison ( ( "!=" | "==" ) comparison )*
    comparison  → term ( ( ">" | ">=" | "<" | "<=" ) term )*
    term        → factor ( ( "-" | "+" ) factor )*
    factor      → unary ( ( "/" | "*" ) unary )*
    unary       → ( "!" | "-" ) unary | call
    call        → primary ( "(" arguments? ")" | "." NAME )*
    arguments   → assignment ( "," assignment )*
    primary     → NUMBER | STRING | "true" | "false" | "nil" | "this"
                | "(" assignment ")" | NAME | "super" "." NAME

The six rules of binary operators are one rule over a `Tier`.  Every rule takes an allowance of
nested rules; `expression` gives more of it than the tokens at hand can use up.
-/

namespace LoxLang

/-- The binary operators by how tightly they bind, the loosest first. -/
inductive Tier where
  | or
  | and
  | equality
  | comparison
  | term
  | factor
  deriving DecidableEq, Repr

/-- The next tighter tier; the operands of the tightest are unary expressions. -/
def Tier.tighter? : Tier → Option Tier
  | .or => some .and
  | .and => some .equality
  | .equality => some .comparison
  | .comparison => some .term
  | .term => some .factor
  | .factor => none

/-- The class of node that joins two operands. -/
inductive Joiner where
  | logical
  | binary
  deriving DecidableEq, Repr

/-- The operators of a tier, with the nodes that they make. -/
def Tier.joiner? : Tier → TokenKind → Option Joiner
  | .or, .kwOr => some .logical
  | .and, .kwAnd => some .logical
  | .equality, .bangEqual => some .binary
  | .equality, .equalEqual => some .binary
  | .comparison, .greater => some .binary
  | .comparison, .greaterEqual => some .binary
  | .comparison, .less => some .binary
  | .comparison, .lessEqual => some .binary
  | .term, .minus => some .binary
  | .term, .plus => some .binary
  | .factor, .slash => some .binary
  | .factor, .star => some .binary
  | _, _ => none

def Joiner.join (joiner : Joiner) (left : Expr) (operator : Token) (right : Expr) (id : Nat) :
    Expr :=
  match joiner with
  | .logical => .logical id left operator right
  | .binary => .binary id left operator right

/-- Whether a token stands in front of an operand as its operator. -/
def TokenKind.isSign : TokenKind → Bool
  | .bang => true
  | .minus => true
  | _ => false

/-- Turns what was read on the left of `equals` into the target of an assignment.  Anything but a
variable or a property is a problem that does not stop the reading; then the left side stays. -/
def assignTo (target : Expr) (equals : Token) (value : Expr) (c : Cursor) : Reply Expr :=
  match target with
  | .var _ name => c.node fun id => .assign id name value
  | .get _ object name => c.node fun id => .set id object name value
  | _ => .ok target (c.noteAt equals .invalidAssignmentTarget)

mutual

def assignment : Nat → Cursor → Reply Expr
  | 0, _ => .exhausted
  | n + 1, c =>
    (tier n .or c).bind fun target c =>
    match c.accept? .equal with
    | none => .ok target c
    | some (equals, c) =>
      (assignment n c).bind fun value c => assignTo target equals value c

/-- The operands and operators of one tier, folded to the left. -/
def tier : Nat → Tier → Cursor → Reply Expr
  | 0, _, _ => .exhausted
  | n + 1, level, c => (operand n level c).bind fun left c => tierTail n level left c

/-- An operand of a tier. -/
def operand : Nat → Tier → Cursor → Reply Expr
  | 0, _, _ => .exhausted
  | n + 1, level, c =>
    match level.tighter? with
    | some tighter => tier n tighter c
    | none => unary n c

/-- The operators of a tier after a first operand. -/
def tierTail : Nat → Tier → Expr → Cursor → Reply Expr
  | 0, _, _, _ => .exhausted
  | n + 1, level, left, c =>
    match c.rest with
    | [] => .ok left c
    | t :: rest =>
      match level.joiner? t.kind with
      | none => .ok left c
      | some joiner =>
        (operand n level { c with rest }).bind fun right c =>
        (c.node (joiner.join left t right)).bind fun joined c => tierTail n level joined c

def unary : Nat → Cursor → Reply Expr
  | 0, _ => .exhausted
  | n + 1, c =>
    match c.rest with
    | [] => callChain n c
    | t :: rest =>
      if t.kind.isSign then
        (unary n { c with rest }).bind fun inner c => c.node fun id => .unary id t inner
      else callChain n c

def callChain : Nat → Cursor → Reply Expr
  | 0, _ => .exhausted
  | n + 1, c => (primary n c).bind fun e c => callTail n e c

/-- The calls and property reads after a primary expression. -/
def callTail : Nat → Expr → Cursor → Reply Expr
  | 0, _, _ => .exhausted
  | n + 1, e, c =>
    match c.accept? .leftParen with
    | some (_, c) =>
      (arguments n c).bind fun args c =>
      (c.expect .rightParen .argumentsEnd).bind fun paren c =>
      (c.node fun id => .call id e paren args).bind fun e c => callTail n e c
    | none =>
      match c.accept? .dot with
      | some (_, c) =>
        (c.expect .identifier .propertyName).bind fun name c =>
        (c.node fun id => .get id e name).bind fun e c => callTail n e c
      | none => .ok e c

/-- The arguments of a call, possibly none. -/
def arguments : Nat → Cursor → Reply (List Expr)
  | 0, _ => .exhausted
  | n + 1, c => if c.check .rightParen then .ok [] c else argumentList n 0 c

/-- At least one argument, after `count` others. -/
def argumentList : Nat → Nat → Cursor → Reply (List Expr)
  | 0, _, _ => .exhausted
  | n + 1, count, c =>
    let c := if maxArguments ≤ count then c.note .tooManyArguments else c
    (assignment n c).bind fun e c =>
    match c.accept? .comma with
    | none => .ok [e] c
    | some (_, c) => (argumentList n (count + 1) c).bind fun es c => .ok (e :: es) c

def primary : Nat → Cursor → Reply Expr
  | 0, _ => .exhausted
  | n + 1, c =>
    match c.rest with
    | [] => c.missing .expression
    | t :: rest =>
      let after := { c with rest }
      match t.kind with
      | .kwFalse => after.node fun id => .literal id (.bool false)
      | .kwTrue => after.node fun id => .literal id (.bool true)
      | .kwNil => after.node fun id => .literal id .nil
      | .number => after.node fun id => .literal id t.literal
      | .string => after.node fun id => .literal id t.literal
      | .kwSuper =>
        (after.expect .dot .superDot).bind fun _ c =>
        (c.expect .identifier .superMethodName).bind fun method c =>
        c.node fun id => .super id t method
      | .kwThis => after.node fun id => .this id t
      | .identifier => after.node fun id => .var id t
      | .leftParen =>
        (assignment n after).bind fun inner c =>
        (c.expect .rightParen .groupingEnd).bind fun _ c =>
        c.node fun id => .grouping id inner
      | _ => c.missing .expression

end

/-- Enough nested rules for the expressions of `count` tokens. -/
def expressionAllowance (count : Nat) : Nat := 20 * (count + 1)

/-- Reads an expression. -/
def expression (c : Cursor) : Reply Expr := assignment (expressionAllowance c.rest.length) c

end LoxLang
