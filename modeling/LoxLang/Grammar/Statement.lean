import LoxLang.Grammar.Expression
import LoxLang.Token.Scan

/-!
# The grammar of statements

    program     → declaration* END
    declaration → "class" class | "fun" function | "var" variable | statement
    class       → NAME ( "<" NAME )? "{" function* "}"
    function    → NAME "(" parameters? ")" block
    parameters  → NAME ( "," NAME )*
    variable    → NAME ( "=" expression )? ";"
    statement   → "for" "(" ( "var" variable | expression ";" | ";" ) expression? ";" expression? ")"
                    statement
                | "if" "(" expression ")" statement ( "else" statement )?
                | "print" expression ";"
                | "return" expression? ";"
                | "while" "(" expression ")" statement
                | block
                | expression ";"
    block       → "{" declaration* "}"

A declaration that fails becomes a malformed statement, and reading goes on after it.  There is no
tree for `for`: it is read as a loop inside blocks.  `Program.read` is the whole of it.
-/

namespace LoxLang

/-- The rest of a variable declaration, after its keyword. -/
def variableDecl (c : Cursor) : Reply Stmt :=
  (c.expect .identifier .variableName).bind fun name c =>
  match c.accept? .equal with
  | none =>
    (c.expect .semicolon .variableEnd).bind fun _ c => c.node fun id => .declare id name none
  | some (_, c) =>
    (expression c).bind fun value c =>
    (c.expect .semicolon .variableEnd).bind fun _ c => c.node fun id => .declare id name (some value)

def expressionStmt (c : Cursor) : Reply Stmt :=
  (expression c).bind fun value c =>
  (c.expect .semicolon .expressionEnd).bind fun _ c => c.node fun id => .expression id value

/-- An expression, unless a token of this class follows at once. -/
def optionalExpression (c : Cursor) (closer : TokenKind) : Reply (Option Expr) :=
  if c.check closer then .ok none c
  else (expression c).bind fun value c => .ok (some value) c

/-- At least one parameter, after `count` others, reading at most `fuel` of them. -/
def parameterList : Nat → Nat → Cursor → Reply (List Token)
  | 0, _, _ => .exhausted
  | n + 1, count, c =>
    let c := if maxArguments ≤ count then c.note .tooManyParameters else c
    (c.expect .identifier .parameterName).bind fun name c =>
    match c.accept? .comma with
    | none => .ok [name] c
    | some (_, c) => (parameterList n (count + 1) c).bind fun names c => .ok (name :: names) c

/-- The parameters of a function, possibly none. -/
def parameters (c : Cursor) : Reply (List Token) :=
  if c.check .rightParen then .ok [] c else parameterList (c.rest.length + 1) 0 c

/-- The reference to a superclass, if there is one. -/
def superclassClause (c : Cursor) : Reply (Option Superclass) :=
  match c.accept? .less with
  | none => .ok none c
  | some (_, c) =>
    (c.expect .identifier .superclassName).bind fun name c => c.node fun id => some ⟨id, name⟩

/-- The first clause of a `for`. -/
def forStart (c : Cursor) : Reply (Option Stmt) :=
  match c.accept? .semicolon with
  | some (_, c) => .ok none c
  | none =>
    match c.accept? .kwVar with
    | some (_, c) => (variableDecl c).bind fun s c => .ok (some s) c
    | none => (expressionStmt c).bind fun s c => .ok (some s) c

/-- The body of a `for` with its increment behind it, in a block of their own. -/
def withIncrement (body : Stmt) (increment : Option Expr) (c : Cursor) : Reply Stmt :=
  match increment with
  | none => .ok body c
  | some value =>
    (c.node fun id => .expression id value).bind fun step c =>
    c.node fun id => .block id [body, step]

/-- The condition of a `for`; a missing one is true. -/
def forCondition (cond : Option Expr) (c : Cursor) : Reply Expr :=
  match cond with
  | none => c.node fun id => .literal id (.bool true)
  | some cond => .ok cond c

/-- The first clause of a `for` in front of its loop, in a block around both. -/
def withStart (start : Option Stmt) (loop : Stmt) (c : Cursor) : Reply Stmt :=
  match start with
  | none => .ok loop c
  | some start => c.node fun id => .block id [start, loop]

/-- The loop that a `for` stands for. -/
def forLoop (start : Option Stmt) (cond : Option Expr) (increment : Option Expr) (body : Stmt)
    (c : Cursor) : Reply Stmt :=
  (withIncrement body increment c).bind fun body c =>
  (forCondition cond c).bind fun cond c =>
  (c.node fun id => .loop id cond body).bind fun loop c => withStart start loop c

mutual

/-- One declaration.  It never fails: a broken one is malformed, and the cursor stands where
reading can go on. -/
def declaration : Nat → Cursor → Reply Stmt
  | 0, _ => .exhausted
  | n + 1, c =>
    match declarationRule n c with
    | .ok s c => .ok s c
    | .failed c => .ok .malformed c.synchronize
    | .exhausted => .exhausted

def declarationRule : Nat → Cursor → Reply Stmt
  | 0, _ => .exhausted
  | n + 1, c =>
    match c.accept? .kwClass with
    | some (_, c) => classRule n c
    | none =>
      match c.accept? .kwFun with
      | some (_, c) => (functionRule n .function c).bind fun f c => .ok (.function f) c
      | none =>
        match c.accept? .kwVar with
        | some (_, c) => variableDecl c
        | none => statement n c

def classRule : Nat → Cursor → Reply Stmt
  | 0, _ => .exhausted
  | n + 1, c =>
    (c.expect .identifier .className).bind fun name c =>
    (superclassClause c).bind fun superclass c =>
    (c.expect .leftBrace .classBody).bind fun _ c =>
    (methodList n c).bind fun methods c =>
    (c.expect .rightBrace .classEnd).bind fun _ c =>
    c.node fun id => .classDecl id name superclass methods

/-- The methods of a class, up to the closing brace or the end. -/
def methodList : Nat → Cursor → Reply (List Function)
  | 0, _ => .exhausted
  | n + 1, c =>
    if c.check .rightBrace || c.atEnd then .ok [] c
    else
      (functionRule n .method c).bind fun f c =>
      (methodList n c).bind fun fs c => .ok (f :: fs) c

def functionRule : Nat → Callable → Cursor → Reply Function
  | 0, _, _ => .exhausted
  | n + 1, what, c =>
    (c.expect .identifier (.functionName what)).bind fun name c =>
    (c.expect .leftParen (.parametersStart what)).bind fun _ c =>
    (parameters c).bind fun params c =>
    (c.expect .rightParen .parametersEnd).bind fun _ c =>
    (c.expect .leftBrace (.functionBody what)).bind fun _ c =>
    (blockRule n c).bind fun body c =>
    c.node fun id => ⟨id, name, params, body⟩

/-- The rest of a block, after its opening brace. -/
def blockRule : Nat → Cursor → Reply (List Stmt)
  | 0, _ => .exhausted
  | n + 1, c =>
    (blockItems n c).bind fun body c =>
    (c.expect .rightBrace .blockEnd).bind fun _ c => .ok body c

/-- The declarations of a block, up to the closing brace or the end. -/
def blockItems : Nat → Cursor → Reply (List Stmt)
  | 0, _ => .exhausted
  | n + 1, c =>
    if c.check .rightBrace || c.atEnd then .ok [] c
    else
      (declaration n c).bind fun s c =>
      (blockItems n c).bind fun ss c => .ok (s :: ss) c

def statement : Nat → Cursor → Reply Stmt
  | 0, _ => .exhausted
  | n + 1, c =>
    match c.rest with
    | [] => expressionStmt c
    | t :: rest =>
      let after := { c with rest }
      match t.kind with
      | .kwFor => forRule n after
      | .kwIf => ifRule n after
      | .kwPrint =>
        (expression after).bind fun value c =>
        (c.expect .semicolon .printEnd).bind fun _ c => c.node fun id => .print id value
      | .kwReturn =>
        (optionalExpression after .semicolon).bind fun value c =>
        (c.expect .semicolon .returnEnd).bind fun _ c => c.node fun id => .ret id t value
      | .kwWhile => whileRule n after
      | .leftBrace => (blockRule n after).bind fun body c => c.node fun id => .block id body
      | _ => expressionStmt c

def forRule : Nat → Cursor → Reply Stmt
  | 0, _ => .exhausted
  | n + 1, c =>
    (c.expect .leftParen .forStart).bind fun _ c =>
    (forStart c).bind fun start c =>
    (optionalExpression c .semicolon).bind fun cond c =>
    (c.expect .semicolon .loopConditionEnd).bind fun _ c =>
    (optionalExpression c .rightParen).bind fun increment c =>
    (c.expect .rightParen .forClausesEnd).bind fun _ c =>
    (statement n c).bind fun body c => forLoop start cond increment body c

def ifRule : Nat → Cursor → Reply Stmt
  | 0, _ => .exhausted
  | n + 1, c =>
    (c.expect .leftParen .ifStart).bind fun _ c =>
    (expression c).bind fun cond c =>
    (c.expect .rightParen .ifConditionEnd).bind fun _ c =>
    (statement n c).bind fun thenBranch c =>
    match c.accept? .kwElse with
    | none => c.node fun id => .conditional id cond thenBranch none
    | some (_, c) =>
      (statement n c).bind fun elseBranch c =>
      c.node fun id => .conditional id cond thenBranch (some elseBranch)

def whileRule : Nat → Cursor → Reply Stmt
  | 0, _ => .exhausted
  | n + 1, c =>
    (c.expect .leftParen .whileStart).bind fun _ c =>
    (expression c).bind fun cond c =>
    (c.expect .rightParen .whileConditionEnd).bind fun _ c =>
    (statement n c).bind fun body c => c.node fun id => .loop id cond body

end

/-- Enough nested rules for the declarations of `count` tokens. -/
def declarationAllowance (count : Nat) : Nat := 10 * (count + 1)

/-- The declarations up to the end of the input. -/
def programItems : Nat → Cursor → Reply (List Stmt)
  | 0, _ => .exhausted
  | n + 1, c =>
    if c.atEnd then .ok [] c
    else
      (declaration (declarationAllowance c.rest.length) c).bind fun s c =>
      (programItems n c).bind fun ss c => .ok (s :: ss) c

/-- A program: its statements, the problems found, and the next free node number. -/
structure Program where
  stmts : List Stmt
  found : List Diagnostic
  nextId : Nat

/-- Reads a program, numbering its nodes from `firstId` on.  Every declaration takes at least one
token, so the allowances are never used up. -/
def Program.read (tokens : List Token) (stop : Token) (firstId : Nat) : Program :=
  match programItems (tokens.length + 1) ⟨tokens, stop, firstId, []⟩ with
  | .ok stmts c => ⟨stmts, c.found, c.nextId⟩
  | .failed c => ⟨[], c.found, c.nextId⟩
  | .exhausted => ⟨[], [], firstId⟩

/-- Scans and reads a source text.  The problems of scanning come first. -/
def Program.ofSource (source : String) (firstId : Nat) : Program :=
  let scanned := scan source
  let program := Program.read scanned.tokens scanned.stop firstId
  { program with found := scanned.found ++ program.found }

end LoxLang
