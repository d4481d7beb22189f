import LoxLang.Grammar.Statement

/-!
# The grammar as a relation

One relation for each rule of the grammar, between the tokens that the rule covers, the tree it
stands for and the problems that reading them brings up, in reading order:

* `Assignment`, `Level`, `Operand`, `Joins`, `Unary`, `Call`, `Links`, `Arguments`,
  `ArgumentList`, `Primary` — expressions;
* `Variable`, `Parameters`, `SuperclassClause`, `Optional`, `ForStart` — parts of statements;
* `Statement`, `Declaration`, `Declarations`, `Block`, `Routine`, `Routines` — statements.

Trees may be numbered in any way: the grammar says nothing about the numbers of nodes.

Two things are wrong without breaking a derivation, an assignment to something that is no target
and an entry too many in a list.  Each of them adds a problem, so a derivation without problems is
a derivation in the plain grammar, all of whose argument and parameter lists have at most
`maxArguments` entries.
-/

namespace LoxLang

/-- What may stand on the left of an assignment. -/
def Expr.isTarget : Expr → Bool
  | .var .. => true
  | .get .. => true
  | _ => false

namespace Grammar

/-- The operators between two operands, by tier. -/
inductive Operator : Tier → TokenKind → Joiner → Prop where
  | or : Operator .or .kwOr .logical
  | and : Operator .and .kwAnd .logical
  | ne : Operator .equality .bangEqual .binary
  | eq : Operator .equality .equalEqual .binary
  | gt : Operator .comparison .greater .binary
  | ge : Operator .comparison .greaterEqual .binary
  | lt : Operator .comparison .less .binary
  | le : Operator .comparison .lessEqual .binary
  | sub : Operator .term .minus .binary
  | add : Operator .term .plus .binary
  | div : Operator .factor .slash .binary
  | mul : Operator .factor .star .binary

/-- The operators in front of an operand. -/
inductive SignOperator : TokenKind → Prop where
  | not : SignOperator .bang
  | negate : SignOperator .minus

/-- The literals, by class of token. -/
inductive Constant : Token → Literal → Prop where
  | false {t : Token} : t.kind = .kwFalse → Constant t (.bool false)
  | true {t : Token} : t.kind = .kwTrue → Constant t (.bool true)
  | nil {t : Token} : t.kind = .kwNil → Constant t .nil
  | number {t : Token} : t.kind = .number → Constant t t.literal
  | string {t : Token} : t.kind = .string → Constant t t.literal

/-- The problem of an entry, which starts at `first`, after `count` others. -/
def excess (problem : Problem) (count : Nat) (first : Token) : List Diagnostic :=
  if maxArguments ≤ count then [.ofToken first problem] else []

mutual

inductive Assignment : List Token → Expr → List Diagnostic → Prop where
  | toName {name equals : Token} {ts : List Token} {id : Nat} {value : Expr}
      {ds : List Diagnostic} :
      name.kind = .identifier → equals.kind = .equal → Assignment ts value ds →
      Assignment (name :: equals :: ts) (.assign id name value) ds
  | toProperty {dot name equals : Token} {ts us : List Token} {id : Nat} {object value : Expr}
      {ds es : List Diagnostic} :
      Call ts object ds → dot.kind = .dot → name.kind = .identifier →
      equals.kind = .equal → Assignment us value es →
      Assignment (ts ++ dot :: name :: equals :: us) (.set id object name value) (ds ++ es)
  | operators {ts : List Token} {e : Expr} {ds : List Diagnostic} :
      Level .or ts e ds → Assignment ts e ds
  | noTarget {equals : Token} {ts us : List Token} {e value : Expr} {ds es : List Diagnostic} :
      Level .or ts e ds → e.isTarget = false → equals.kind = .equal →
      Assignment us value es →
      Assignment (ts ++ equals :: us) e
        (ds ++ es ++ [.ofToken equals .invalidAssignmentTarget])

/-- Operands of a tier with its operators between them. -/
inductive Level : Tier → List Token → Expr → List Diagnostic → Prop where
  | joined {ts us : List Token} {level : Tier} {left e : Expr} {ds es : List Diagnostic} :
      Operand level ts left ds → Joins level left us e es →
      Level level (ts ++ us) e (ds ++ es)

inductive Operand : Tier → List Token → Expr → List Diagnostic → Prop where
  | or {ts : List Token} {e : Expr} {ds : List Diagnostic} :
      Level .and ts e ds → Operand .or ts e ds
  | and {ts : List Token} {e : Expr} {ds : List Diagnostic} :
      Level .equality ts e ds → Operand .and ts e ds
  | equality {ts : List Token} {e : Expr} {ds : List Diagnostic} :
      Level .comparison ts e ds → Operand .equality ts e ds
  | comparison {ts : List Token} {e : Expr} {ds : List Diagnostic} :
      Level .term ts e ds → Operand .comparison ts e ds
  | term {ts : List Token} {e : Expr} {ds : List Diagnostic} :
      Level .factor ts e ds → Operand .term ts e ds
  | factor {ts : List Token} {e : Expr} {ds : List Diagnostic} :
      Unary ts e ds → Operand .factor ts e ds

/-- Operators of a tier with their right operands; the tree grows to the left. -/
inductive Joins : Tier → Expr → List Token → Expr → List Diagnostic → Prop where
  | none {level : Tier} {left : Expr} : Joins level left [] left []
  | more {op : Token} {ts us : List Token} {id : Nat} {level : Tier} {joiner : Joiner}
      {right left e : Expr} {ds es : List Diagnostic} :
      Operator level op.kind joiner → Operand level ts right ds →
      Joins level (joiner.join left op right id) us e es →
      Joins level left (op :: (ts ++ us)) e (ds ++ es)

inductive Unary : List Token → Expr → List Diagnostic → Prop where
  | operator {op : Token} {ts : List Token} {id : Nat} {e : Expr} {ds : List Diagnostic} :
      SignOperator op.kind → Unary ts e ds → Unary (op :: ts) (.unary id op e) ds
  | call {ts : List Token} {e : Expr} {ds : List Diagnostic} : Call ts e ds → Unary ts e ds

inductive Call : List Token → Expr → List Diagnostic → Prop where
  | chain {ts us : List Token} {first e : Expr} {ds es : List Diagnostic} :
      Primary ts first ds → Links first us e es → Call (ts ++ us) e (ds ++ es)

/-- Calls and property reads, each around the tree before it. -/
inductive Links : Expr → List Token → Expr → List Diagnostic → Prop where
  | none {first : Expr} : Links first [] first []
  | call {t paren : Token} {ts us : List Token} {id : Nat} {first e : Expr} {args : List Expr}
      {ds es : List Diagnostic} :
      t.kind = .leftParen → Arguments ts args ds → paren.kind = .rightParen →
      Links (.call id first paren args) us e es →
      Links first (t :: (ts ++ paren :: us)) e (ds ++ es)
  | property {dot name : Token} {us : List Token} {id : Nat} {first e : Expr}
      {es : List Diagnostic} :
      dot.kind = .dot → name.kind = .identifier →
      Links (.get id first name) us e es → Links first (dot :: name :: us) e es

inductive Arguments : List Token → List Expr → List Diagnostic → Prop where
  | none : Arguments [] [] []
  | some {ts : List Token} {args : List Expr} {ds : List Diagnostic} :
      ArgumentList 0 ts args ds → Arguments ts args ds

/-- At least one argument, after `count` others. -/
inductive ArgumentList : Nat → List Token → List Expr → List Diagnostic → Prop where
  | last {t : Token} {ts : List Token} {count : Nat} {e : Expr} {ds : List Diagnostic} :
      Assignment (t :: ts) e ds →
      ArgumentList count (t :: ts) [e] (excess .tooManyArguments count t ++ ds)
  | more {t comma : Token} {ts us : List Token} {count : Nat} {e : Expr} {args : List Expr}
      {ds es : List Diagnostic} :
      Assignment (t :: ts) e ds → comma.kind = .comma →
      ArgumentList (count + 1) us args es →
      ArgumentList count (t :: (ts ++ comma :: us)) (e :: args)
        (excess .tooManyArguments count t ++ (ds ++ es))

inductive Primary : List Token → Expr → List Diagnostic → Prop where
  | constant {t : Token} {id : Nat} {value : Literal} :
      Constant t value → Primary [t] (.literal id value) []
  | this {keyword : Token} {id : Nat} :
      keyword.kind = .kwThis → Primary [keyword] (.this id keyword) []
  | name {name : Token} {id : Nat} : name.kind = .identifier → Primary [name] (.var id name) []
  | super {keyword dot name : Token} {id : Nat} :
      keyword.kind = .kwSuper → dot.kind = .dot → name.kind = .identifier →
      Primary [keyword, dot, name] (.super id keyword name) []
  | grouping {t paren : Token} {ts : List Token} {id : Nat} {e : Expr} {ds : List Diagnostic} :
      t.kind = .leftParen → Assignment ts e ds → paren.kind = .rightParen →
      Primary (t :: (ts ++ [paren])) (.grouping id e) ds

end

/-- A variable declaration after its keyword. -/
inductive Variable : List Token → Stmt → List Diagnostic → Prop where
  | plain {name t : Token} {id : Nat} : name.kind = .identifier → t.kind = .semicolon →
      Variable [name, t] (.declare id name none) []
  | initialized {name equals t : Token} {ts : List Token} {id : Nat} {value : Expr}
      {ds : List Diagnostic} :
      name.kind = .identifier → equals.kind = .equal →
      Assignment ts value ds → t.kind = .semicolon →
      Variable (name :: equals :: (ts ++ [t])) (.declare id name (some value)) ds

/-- At least one parameter, after `count` others. -/
inductive ParameterList : Nat → List Token → List Token → List Diagnostic → Prop where
  | last {name : Token} {count : Nat} : name.kind = .identifier →
      ParameterList count [name] [name] (excess .tooManyParameters count name)
  | more {name comma : Token} {ts params : List Token} {count : Nat} {ds : List Diagnostic} :
      name.kind = .identifier → comma.kind = .comma →
      ParameterList (count + 1) ts params ds →
      ParameterList count (name :: comma :: ts) (name :: params)
        (excess .tooManyParameters count name ++ ds)

inductive Parameters : List Token → List Token → List Diagnostic → Prop where
  | none : Parameters [] [] []
  | some {ts params : List Token} {ds : List Diagnostic} :
      ParameterList 0 ts params ds → Parameters ts params ds

/-- The reference to a superclass, if there is one. -/
inductive SuperclassClause : List Token → Option Superclass → Prop where
  | none : SuperclassClause [] none
  | some {t name : Token} {id : Nat} :
      t.kind = .less → name.kind = .identifier → SuperclassClause [t, name] (some ⟨id, name⟩)

/-- An expression that may be missing. -/
inductive Optional : List Token → Option Expr → List Diagnostic → Prop where
  | none : Optional [] none []
  | some {ts : List Token} {e : Expr} {ds : List Diagnostic} :
      Assignment ts e ds → Optional ts (some e) ds

inductive ExpressionStmt : List Token → Stmt → List Diagnostic → Prop where
  | mk {t : Token} {ts : List Token} {id : Nat} {e : Expr} {ds : List Diagnostic} :
      Assignment ts e ds → t.kind = .semicolon →
      ExpressionStmt (ts ++ [t]) (.expression id e) ds

/-- The first clause of a `for`, with the semicolon that ends it. -/
inductive ForStart : List Token → Option Stmt → List Diagnostic → Prop where
  | none {t : Token} : t.kind = .semicolon → ForStart [t] none []
  | var {keyword : Token} {ts : List Token} {s : Stmt} {ds : List Diagnostic} :
      keyword.kind = .kwVar → Variable ts s ds → ForStart (keyword :: ts) (some s) ds
  | expression {ts : List Token} {s : Stmt} {ds : List Diagnostic} :
      ExpressionStmt ts s ds → ForStart ts (some s) ds

/-- The loop that stands for a `for`, with the numbers of its new nodes. -/
def whileForm (step inner always loop outer : Nat) (start : Option Stmt)
    (cond increment : Option Expr) (body : Stmt) : Stmt :=
  let body := match increment with
    | none => body
    | some value => .block inner [body, .expression step value]
  let cond := cond.getD (.literal always (.bool true))
  match start with
  | none => .loop loop cond body
  | some start => .block outer [start, .loop loop cond body]

mutual

/-- Statements.  One is `dangling` if it ends with an `if` that could still take an `else`. -/
inductive Statement : Bool → List Token → Stmt → List Diagnostic → Prop where
  | expression {ts : List Token} {s : Stmt} {ds : List Diagnostic} :
      ExpressionStmt ts s ds → Statement false ts s ds
  | print {keyword t : Token} {ts : List Token} {id : Nat} {e : Expr} {ds : List Diagnostic} :
      keyword.kind = .kwPrint → Assignment ts e ds → t.kind = .semicolon →
      Statement false (keyword :: (ts ++ [t])) (.print id e) ds
  | ret {keyword t : Token} {ts : List Token} {id : Nat} {e : Option Expr} {ds : List Diagnostic} :
      keyword.kind = .kwReturn → Optional ts e ds → t.kind = .semicolon →
      Statement false (keyword :: (ts ++ [t])) (.ret id keyword e) ds
  | loop {keyword t paren : Token} {ts us : List Token} {id : Nat} {dangling : Bool} {cond : Expr}
      {body : Stmt} {ds es : List Diagnostic} :
      keyword.kind = .kwWhile → t.kind = .leftParen →
      Assignment ts cond ds → paren.kind = .rightParen → Statement dangling us body es →
      Statement dangling (keyword :: t :: (ts ++ paren :: us)) (.loop id cond body) (ds ++ es)
  | ifThen {keyword t paren : Token} {ts us : List Token} {id : Nat} {dangling : Bool} {cond : Expr}
      {s : Stmt} {ds es : List Diagnostic} :
      keyword.kind = .kwIf → t.kind = .leftParen →
      Assignment ts cond ds → paren.kind = .rightParen → Statement dangling us s es →
      Statement true (keyword :: t :: (ts ++ paren :: us)) (.conditional id cond s none) (ds ++ es)
  | ifElse {keyword t paren op : Token} {ts us vs : List Token} {id : Nat} {dangling : Bool}
      {cond : Expr} {s s' : Stmt} {ds es fs : List Diagnostic} :
      keyword.kind = .kwIf → t.kind = .leftParen →
      Assignment ts cond ds → paren.kind = .rightParen → Statement false us s es →
      op.kind = .kwElse → Statement dangling vs s' fs →
      Statement dangling (keyword :: t :: (ts ++ paren :: (us ++ op :: vs)))
        (.conditional id cond s (some s')) (ds ++ es ++ fs)
  | forLoop {keyword t semi paren : Token} {ts us vs ws : List Token}
      {step inner always loop outer : Nat} {dangling : Bool} {cond increment : Option Expr}
      {body : Stmt} {start : Option Stmt} {ds es fs gs : List Diagnostic} :
      keyword.kind = .kwFor → t.kind = .leftParen → ForStart ts start ds →
      Optional us cond es → semi.kind = .semicolon →
      Optional vs increment fs → paren.kind = .rightParen → Statement dangling ws body gs →
      Statement dangling (keyword :: t :: (ts ++ (us ++ semi :: (vs ++ paren :: ws))))
        (whileForm step inner always loop outer start cond increment body)
        (ds ++ es ++ fs ++ gs)
  | block {t : Token} {ts : List Token} {id : Nat} {body : List Stmt} {ds : List Diagnostic} :
      t.kind = .leftBrace → Block ts body ds →
      Statement false (t :: ts) (.block id body) ds

inductive Declaration : List Token → Stmt → List Diagnostic → Prop where
  | classDecl {keyword name t paren : Token} {ts us : List Token} {id : Nat}
      {methods : List Function} {superclass : Option Superclass} {ds : List Diagnostic} :
      keyword.kind = .kwClass → name.kind = .identifier →
      SuperclassClause ts superclass → t.kind = .leftBrace → Routines us methods ds →
      paren.kind = .rightBrace →
      Declaration (keyword :: name :: (ts ++ t :: (us ++ [paren])))
        (.classDecl id name superclass methods) ds
  | function {keyword : Token} {ts : List Token} {decl : Function} {ds : List Diagnostic} :
      keyword.kind = .kwFun → Routine ts decl ds →
      Declaration (keyword :: ts) (.function decl) ds
  | var {keyword : Token} {ts : List Token} {s : Stmt} {ds : List Diagnostic} :
      keyword.kind = .kwVar → Variable ts s ds → Declaration (keyword :: ts) s ds
  | statement {ts : List Token} {dangling : Bool} {s : Stmt} {ds : List Diagnostic} :
      Statement dangling ts s ds → Declaration ts s ds

inductive Declarations : List Token → List Stmt → List Diagnostic → Prop where
  | none : Declarations [] [] []
  | more {ts us : List Token} {s : Stmt} {ss : List Stmt} {ds es : List Diagnostic} :
      Declaration ts s ds → Declarations us ss es →
      Declarations (ts ++ us) (s :: ss) (ds ++ es)

/-- A block after its opening brace. -/
inductive Block : List Token → List Stmt → List Diagnostic → Prop where
  | closed {t : Token} {ts : List Token} {body : List Stmt} {ds : List Diagnostic} :
      Declarations ts body ds → t.kind = .rightBrace → Block (ts ++ [t]) body ds

/-- A function or method after its keyword. -/
inductive Routine : List Token → Function → List Diagnostic → Prop where
  | mk {name t paren brace : Token} {ts params us : List Token} {id : Nat} {body : List Stmt}
      {ds es : List Diagnostic} :
      name.kind = .identifier → t.kind = .leftParen →
      Parameters ts params ds → paren.kind = .rightParen → brace.kind = .leftBrace →
      Block us body es →
      Routine (name :: t :: (ts ++ paren :: brace :: us)) ⟨id, name, params, body⟩ (ds ++ es)

inductive Routines : List Token → List Function → List Diagnostic → Prop where
  | none : Routines [] [] []
  | more {ts us : List Token} {f : Function} {fs : List Function} {ds es : List Diagnostic} :
      Routine ts f ds → Routines us fs es → Routines (ts ++ us) (f :: fs) (ds ++ es)

end

/-- The tokens are a program of the plain grammar, and these statements are its tree. -/
def Derives (tokens : List Token) (stmts : List Stmt) : Prop := Declarations tokens stmts []

/-- Tokens of these classes are a program of the plain grammar. -/
def Derivable (kinds : List TokenKind) : Prop :=
  ∃ tokens stmts, tokens.map Token.kind = kinds ∧ Derives tokens stmts

end Grammar

end LoxLang
