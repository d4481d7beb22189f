import LoxLang.Grammar.Statement

/-!
# Calls of the rules

A `RuleCall` is a call of a rule of the grammar with everything that it is given.
`RuleCall.calls` lists the calls that a call makes directly, in order and each with the cursor that
it starts from; `RuleCall.Reaches` is the closure of this.  So what is reached from the call for a
program are all the calls that are made while it is read.

* `RuleCall.after?` — where the cursor stands when a call is over.
* `RuleCall.Raises` — where rules fail, in the order in which they do.  A failure ends every rule
  up to the innermost declaration around it, which goes on behind it.
-/

namespace LoxLang

namespace Reply

variable {α β : Type}

/-- The cursor of a reply, whether there is a value or a failure. -/
def cursor? : Reply α → Option Cursor
  | ok _ rest => some rest
  | failed rest => some rest
  | exhausted => none

/-- Lists what follows a value. -/
def andThen (r : Reply α) (f : α → Cursor → List β) : List β :=
  match r with
  | ok value rest => f value rest
  | failed _ => []
  | exhausted => []

end Reply

/-- A rule of the grammar with its allowance and what else it is given besides the cursor. -/
inductive Rule where
  | program (n : Nat)
  | declaration (n : Nat)
  | declarationRule (n : Nat)
  | classRule (n : Nat)
  | methodList (n : Nat)
  | functionRule (n : Nat) (what : Callable)
  | blockRule (n : Nat)
  | blockItems (n : Nat)
  | statement (n : Nat)
  | forRule (n : Nat)
  | ifRule (n : Nat)
  | whileRule (n : Nat)
  | forStart
  | variableDecl
  | expressionStmt
  | optionalExpression (closer : TokenKind)
  | superclassClause
  | parameters
  | parameterList (n count : Nat)
  | assignment (n : Nat)
  | tier (n : Nat) (level : Tier)
  | operand (n : Nat) (level : Tier)
  | tierTail (n : Nat) (level : Tier) (left : Expr)
  | unary (n : Nat)
  | callChain (n : Nat)
  | callTail (n : Nat) (e : Expr)
  | arguments (n : Nat)
  | argumentList (n count : Nat)
  | primary (n : Nat)

/-- A call of a rule, with the cursor where it starts. -/
structure RuleCall where
  rule : Rule
  cursor : Cursor

namespace RuleCall

/-- Where the cursor stands when a call is over.  There is no such place only if an allowance was
used up. -/
def after? : RuleCall → Option Cursor
  | ⟨.program n, c⟩ => (programItems n c).cursor?
  | ⟨.declaration n, c⟩ => (declaration n c).cursor?
  | ⟨.declarationRule n, c⟩ => (declarationRule n c).cursor?
  | ⟨.classRule n, c⟩ => (classRule n c).cursor?
  | ⟨.methodList n, c⟩ => (methodList n c).cursor?
  | ⟨.functionRule n what, c⟩ => (functionRule n what c).cursor?
  | ⟨.blockRule n, c⟩ => (blockRule n c).cursor?
  | ⟨.blockItems n, c⟩ => (blockItems n c).cursor?
  | ⟨.statement n, c⟩ => (statement n c).cursor?
  | ⟨.forRule n, c⟩ => (forRule n c).cursor?
  | ⟨.ifRule n, c⟩ => (ifRule n c).cursor?
  | ⟨.whileRule n, c⟩ => (whileRule n c).cursor?
  | ⟨.forStart, c⟩ => (forStart c).cursor?
  | ⟨.variableDecl, c⟩ => (variableDecl c).cursor?
  | ⟨.expressionStmt, c⟩ => (expressionStmt c).cursor?
  | ⟨.optionalExpression closer, c⟩ => (optionalExpression c closer).cursor?
  | ⟨.superclassClause, c⟩ => (superclassClause c).cursor?
  | ⟨.parameters, c⟩ => (parameters c).cursor?
  | ⟨.parameterList n count, c⟩ => (parameterList n count c).cursor?
  | ⟨.assignment n, c⟩ => (assignment n c).cursor?
  | ⟨.tier n level, c⟩ => (tier n level c).cursor?
  | ⟨.operand n level, c⟩ => (operand n level c).cursor?
  | ⟨.tierTail n level left, c⟩ => (tierTail n level left c).cursor?
  | ⟨.unary n, c⟩ => (unary n c).cursor?
  | ⟨.callChain n, c⟩ => (callChain n c).cursor?
  | ⟨.callTail n e, c⟩ => (callTail n e c).cursor?
  | ⟨.arguments n, c⟩ => (arguments n c).cursor?
  | ⟨.argumentList n count, c⟩ => (argumentList n count c).cursor?
  | ⟨.primary n, c⟩ => (primary n c).cursor?

/-- The call for an expression. -/
def forExpression (c : Cursor) : RuleCall := ⟨.assignment (expressionAllowance c.rest.length), c⟩

/-- The calls that a call makes directly, in order.  Without an allowance there are none. -/
def calls : RuleCall → List RuleCall
  | ⟨.program (n + 1), c⟩ =>
    if c.atEnd then []
    else
      ⟨.declaration (declarationAllowance c.rest.length), c⟩ ::
      (declaration (declarationAllowance c.rest.length) c).andThen fun _ c =>
      [⟨.program n, c⟩]
  | ⟨.declaration (n + 1), c⟩ => [⟨.declarationRule n, c⟩]
  | ⟨.declarationRule (n + 1), c⟩ =>
    match c.accept? .kwClass with
    | some (_, c) => [⟨.classRule n, c⟩]
    | none =>
      match c.accept? .kwFun with
      | some (_, c) => [⟨.functionRule n .function, c⟩]
      | none =>
        match c.accept? .kwVar with
        | some (_, c) => [⟨.variableDecl, c⟩]
        | none => [⟨.statement n, c⟩]
  | ⟨.classRule (n + 1), c⟩ =>
    (c.expect .identifier .className).andThen fun _ c =>
    ⟨.superclassClause, c⟩ :: (superclassClause c).andThen fun _ c =>
    (c.expect .leftBrace .classBody).andThen fun _ c =>
    [⟨.methodList n, c⟩]
  | ⟨.methodList (n + 1), c⟩ =>
    if c.check .rightBrace || c.atEnd then []
    else
      ⟨.functionRule n .method, c⟩ :: (functionRule n .method c).andThen fun _ c =>
      [⟨.methodList n, c⟩]
  | ⟨.functionRule (n + 1) what, c⟩ =>
    (c.expect .identifier (.functionName what)).andThen fun _ c =>
    (c.expect .leftParen (.parametersStart what)).andThen fun _ c =>
    ⟨.parameters, c⟩ :: (parameters c).andThen fun _ c =>
    (c.expect .rightParen .parametersEnd).andThen fun _ c =>
    (c.expect .leftBrace (.functionBody what)).andThen fun _ c =>
    [⟨.blockRule n, c⟩]
  | ⟨.blockRule (n + 1), c⟩ => [⟨.blockItems n, c⟩]
  | ⟨.blockItems (n + 1), c⟩ =>
    if c.check .rightBrace || c.atEnd then []
    else
      ⟨.declaration n, c⟩ :: (declaration n c).andThen fun _ c => [⟨.blockItems n, c⟩]
  | ⟨.statement (n + 1), c⟩ =>
    match c.rest with
    | [] => [⟨.expressionStmt, c⟩]
    | t :: rest =>
      let after := { c with rest }
      match t.kind with
      | .kwFor => [⟨.forRule n, after⟩]
      | .kwIf => [⟨.ifRule n, after⟩]
      | .kwPrint => [forExpression after]
      | .kwReturn => [⟨.optionalExpression .semicolon, after⟩]
      | .kwWhile => [⟨.whileRule n, after⟩]
      | .leftBrace => [⟨.blockRule n, after⟩]
      | _ => [⟨.expressionStmt, c⟩]
  | ⟨.forRule (n + 1), c⟩ =>
    (c.expect .leftParen .forStart).andThen fun _ c =>
    ⟨.forStart, c⟩ :: (forStart c).andThen fun _ c =>
    ⟨.optionalExpression .semicolon, c⟩ :: (optionalExpression c .semicolon).andThen fun _ c =>
    (c.expect .semicolon .loopConditionEnd).andThen fun _ c =>
    ⟨.optionalExpression .rightParen, c⟩ ::
    (optionalExpression c .rightParen).andThen fun _ c =>
    (c.expect .rightParen .forClausesEnd).andThen fun _ c =>
    [⟨.statement n, c⟩]
  | ⟨.ifRule (n + 1), c⟩ =>
    (c.expect .leftParen .ifStart).andThen fun _ c =>
    forExpression c :: (expression c).andThen fun _ c =>
    (c.expect .rightParen .ifConditionEnd).andThen fun _ c =>
    ⟨.statement n, c⟩ :: (statement n c).andThen fun _ c =>
    match c.accept? .kwElse with
    | none => []
    | some (_, c) => [⟨.statement n, c⟩]
  | ⟨.whileRule (n + 1), c⟩ =>
    (c.expect .leftParen .whileStart).andThen fun _ c =>
    forExpression c :: (expression c).andThen fun _ c =>
    (c.expect .rightParen .whileConditionEnd).andThen fun _ c =>
    [⟨.statement n, c⟩]
  | ⟨.forStart, c⟩ =>
    match c.accept? .semicolon with
    | some _ => []
    | none =>
      match c.accept? .kwVar with
      | some (_, c) => [⟨.variableDecl, c⟩]
      | none => [⟨.expressionStmt, c⟩]
  | ⟨.variableDecl, c⟩ =>
    (c.expect .identifier .variableName).andThen fun _ c =>
    match c.accept? .equal with
    | none => []
    | some (_, c) => [forExpression c]
  | ⟨.expressionStmt, c⟩ => [forExpression c]
  | ⟨.optionalExpression closer, c⟩ => if c.check closer then [] else [forExpression c]
  | ⟨.parameters, c⟩ =>
    if c.check .rightParen then [] else [⟨.parameterList (c.rest.length + 1) 0, c⟩]
  | ⟨.parameterList (n + 1) count, c⟩ =>
    let c := if maxArguments ≤ count then c.note .tooManyParameters else c
    (c.expect .identifier .parameterName).andThen fun _ c =>
    match c.accept? .comma with
    | none => []
    | some (_, c) => [⟨.parameterList n (count + 1), c⟩]
  | ⟨.assignment (n + 1), c⟩ =>
    ⟨.tier n .or, c⟩ :: (tier n .or c).andThen fun _ c =>
    match c.accept? .equal with
    | none => []
    | some (_, c) => [⟨.assignment n, c⟩]
  | ⟨.tier (n + 1) level, c⟩ =>
    ⟨.operand n level, c⟩ :: (operand n level c).andThen fun left c => [⟨.tierTail n level left, c⟩]
  | ⟨.operand (n + 1) level, c⟩ =>
    match level.tighter? with
    | some tighter => [⟨.tier n tighter, c⟩]
    | none => [⟨.unary n, c⟩]
  | ⟨.tierTail (n + 1) level left, c⟩ =>
    match c.rest with
    | [] => []
    | t :: rest =>
      match level.joiner? t.kind with
      | none => []
      | some joiner =>
        ⟨.operand n level, { c with rest }⟩ :: (operand n level { c with rest }).andThen
          fun right c => (c.node (joiner.join left t right)).andThen fun joined c =>
          [⟨.tierTail n level joined, c⟩]
  | ⟨.unary (n + 1), c⟩ =>
    match c.rest with
    | [] => [⟨.callChain n, c⟩]
    | t :: rest =>
      if t.kind.isSign then [⟨.unary n, { c with rest }⟩] else [⟨.callChain n, c⟩]
  | ⟨.callChain (n + 1), c⟩ =>
    ⟨.primary n, c⟩ :: (primary n c).andThen fun e c => [⟨.callTail n e, c⟩]
  | ⟨.callTail (n + 1) e, c⟩ =>
    match c.accept? .leftParen with
    | some (_, c) =>
      ⟨.arguments n, c⟩ :: (arguments n c).andThen fun args c =>
      (c.expect .rightParen .argumentsEnd).andThen fun paren c =>
      (c.node fun id => Expr.call id e paren args).andThen fun e c => [⟨.callTail n e, c⟩]
    | none =>
      match c.accept? .dot with
      | some (_, c) =>
        (c.expect .identifier .propertyName).andThen fun name c =>
        (c.node fun id => Expr.get id e name).andThen fun e c => [⟨.callTail n e, c⟩]
      | none => []
  | ⟨.arguments (n + 1), c⟩ => if c.check .rightParen then [] else [⟨.argumentList n 0, c⟩]
  | ⟨.argumentList (n + 1) count, c⟩ =>
    let c := if maxArguments ≤ count then c.note .tooManyArguments else c
    ⟨.assignment n, c⟩ :: (assignment n c).andThen fun _ c =>
    match c.accept? .comma with
    | none => []
    | some (_, c) => [⟨.argumentList n (count + 1), c⟩]
  | ⟨.primary (n + 1), c⟩ =>
    match c.rest with
    | [] => []
    | t :: rest => if t.kind = .leftParen then [⟨.assignment n, { c with rest }⟩] else []
  | _ => []

/-- What a call makes, directly or through other calls. -/
inductive Reaches (call : RuleCall) : RuleCall → Prop where
  | refl : Reaches call call
  | step {call₁ call₂ : RuleCall} : Reaches call call₁ → call₂ ∈ call₁.calls → Reaches call call₂

/-- The failure that a call catches: a declaration goes on where its rule fails. -/
def caught : RuleCall → List Cursor
  | ⟨.declaration (n + 1), c⟩ =>
    match declarationRule n c with
    | .failed c => [c]
    | _ => []
  | _ => []

/-- Where rules fail while these calls are made, in the order in which they do.  There is such a
list only if the calls come to an end. -/
inductive Raises : List RuleCall → List Cursor → Prop where
  | none : Raises [] []
  | call {call : RuleCall} {rest : List RuleCall} {es fs : List Cursor} :
      Raises call.calls es → Raises rest fs → Raises (call :: rest) (es ++ call.caught ++ fs)

namespace Raises

variable {xs ys : List RuleCall} {es fs : List Cursor}

theorem append (h : Raises xs es) (h' : Raises ys fs) : Raises (xs ++ ys) (es ++ fs) := by
  induction h with
  | none => exact h'
  | @call call rest es es' hcalls _ _ ih =>
    rw [List.append_assoc]
    exact .call hcalls ih

/-- A call that catches no failure. -/
theorem single {call : RuleCall} (h : Raises call.calls es) (hcaught : call.caught = []) :
    Raises [call] es := by
  have hcall := Raises.call h .none
  rwa [hcaught, List.append_nil, List.append_nil] at hcall

theorem unique (h : Raises xs es) (h' : Raises xs fs) : es = fs := by
  induction h generalizing fs with
  | none => cases h'; rfl
  | call _ _ ih ih' =>
    cases h' with
    | call hcalls hrest => rw [ih hcalls, ih' hrest]

end Raises

end RuleCall

end LoxLang
