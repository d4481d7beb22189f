import LoxLang.Machine
import LoxLang.Proofs.Scope.Spelling

/-!
# Programs side by side

A `Pairing` puts two runs side by side.  The programs have the same shape and the same numbers, but
the names of some scopes may be spelled differently in the second run.  `AlikeExpr` and `AlikeStmt`
say that two trees are such a pair, and at the same time that the first one is resolved: every
reference is filed under its distance in the scopes around it.

With every name spelled as it is, a program that is resolved is alike to itself.
-/

namespace LoxLang

/-! ## Pairings -/

/-- Two runs side by side. -/
structure Pairing extends Spelling where
  /-- The distances of the first run. -/
  table : Distances
  /-- The distances of the second run. -/
  table' : Distances
  /-- The sites of the first run. -/
  Known : Site → Prop
  /-- The frames that the first run makes for a construct. -/
  Made : Nat → Construct → Prop
  /-- The references that the first run evaluates, with the machine it does so on. -/
  Evaluated : Use → Nat → Token → Machine → Prop

namespace Pairing

variable (K : Pairing)

/-- A reference is filed under its distance in both runs, and spelled like its declaration. -/
structure Refers (site : Site) (name' : Token) : Prop where
  known : K.Known site
  table : K.table[site.id]? = site.distance?
  table' : K.table'[site.id]? = site.distance?
  isName : K.IsName site.name.lexeme
  spelled : name'.lexeme = K.spellIn site.construct? site.name.lexeme
  line : name'.line = site.name.line

/-- A name that is declared in the innermost scope. -/
structure Declares (p : Surroundings) (name name' : Token) : Prop where
  isName : K.IsName name.lexeme
  ne_super : name.lexeme ≠ "super"
  spelled : name'.lexeme = K.spellIn p.constructs.head? name.lexeme

end Pairing

/-- A name that no scope declares, such as that of a property. -/
structure SameName (name name' : Token) : Prop where
  lexeme : name'.lexeme = name.lexeme
  line : name'.line = name.line

/-- Operators on the same line of one class, for which an operation is on record. -/
structure SameOperator (ops : TokenKind → Bool) (t t' : Token) : Prop where
  line : t'.line = t.line
  kind : t'.kind = t.kind
  known : ops t.kind = true

/-! ## Trees -/

mutual

inductive AlikeExpr (K : Pairing) (p : Surroundings) : Expr → Expr → Prop where
  | literal {id : Nat} {value : Literal} :
      AlikeExpr K p (.literal id value) (.literal id value)
  | grouping {id : Nat} {e e' : Expr} :
      AlikeExpr K p e e' → AlikeExpr K p (.grouping id e) (.grouping id e')
  | unary {id : Nat} {t t' : Token} {e e' : Expr} :
      SameOperator (fun kind => (unaryOp? kind).isSome) t t' → AlikeExpr K p e e' →
      AlikeExpr K p (.unary id t e) (.unary id t' e')
  | binary {id : Nat} {t t' : Token} {left left' right right' : Expr} :
      AlikeExpr K p left left' → SameOperator (fun kind => (binaryOp? kind).isSome) t t' →
      AlikeExpr K p right right' →
      AlikeExpr K p (.binary id left t right) (.binary id left' t' right')
  | logical {id : Nat} {t t' : Token} {left left' right right' : Expr} :
      AlikeExpr K p left left' → t'.kind = t.kind → AlikeExpr K p right right' →
      AlikeExpr K p (.logical id left t right) (.logical id left' t' right')
  | var {id : Nat} {name name' : Token} :
      K.Refers ⟨.read, id, name, p⟩ name' → p.Readable name.lexeme →
      AlikeExpr K p (.var id name) (.var id name')
  | assign {id : Nat} {name name' : Token} {value value' : Expr} :
      K.Refers ⟨.write, id, name, p⟩ name' → p.Writable name.lexeme → name.lexeme ≠ "super" →
      AlikeExpr K p value value' → AlikeExpr K p (.assign id name value) (.assign id name' value')
  | call {id : Nat} {callee callee' : Expr} {paren paren' : Token} {args args' : List Expr} :
      AlikeExpr K p callee callee' → paren'.line = paren.line → AlikeArgs K p args args' →
      AlikeExpr K p (.call id callee paren args) (.call id callee' paren' args')
  | get {id : Nat} {object object' : Expr} {name name' : Token} :
      AlikeExpr K p object object' → SameName name name' →
      AlikeExpr K p (.get id object name) (.get id object' name')
  | set {id : Nat} {object object' value value' : Expr} {name name' : Token} :
      AlikeExpr K p object object' → SameName name name' → AlikeExpr K p value value' →
      AlikeExpr K p (.set id object name value) (.set id object' name' value')
  | this {id : Nat} {keyword keyword' : Token} :
      K.Refers ⟨.this, id, keyword, p⟩ keyword' → p.Readable keyword.lexeme →
      AlikeExpr K p (.this id keyword) (.this id keyword')
  | super {id : Nat} {keyword keyword' method method' : Token} :
      K.Refers ⟨.super, id, keyword, p⟩ keyword' → keyword.lexeme = "super" →
      p.InSubclass → SameName method method' →
      AlikeExpr K p (.super id keyword method) (.super id keyword' method')

inductive AlikeArgs (K : Pairing) (p : Surroundings) : List Expr → List Expr → Prop where
  | nil : AlikeArgs K p [] []
  | cons {e e' : Expr} {es es' : List Expr} :
      AlikeExpr K p e e' → AlikeArgs K p es es' → AlikeArgs K p (e :: es) (e' :: es')

end

/-- The references to the superclass of a class, which its name precedes. -/
inductive AlikeSuperclass (K : Pairing) (p : Surroundings) (name : Token) :
    Option Superclass → Option Superclass → Prop where
  | none : AlikeSuperclass K p name none none
  | some {s s' : Superclass} :
      s'.id = s.id → K.Refers ⟨.read, s.id, s.name, p.mark name.lexeme true⟩ s'.name →
      (p.mark name.lexeme true).Readable s.name.lexeme → s.name.lexeme ≠ name.lexeme →
      AlikeSuperclass K p name (some s) (some s')

mutual

inductive AlikeStmt (K : Pairing) : Surroundings → Stmt → Stmt → Prop where
  | expression {p : Surroundings} {id : Nat} {e e' : Expr} :
      AlikeExpr K p e e' → AlikeStmt K p (.expression id e) (.expression id e')
  | print {p : Surroundings} {id : Nat} {e e' : Expr} :
      AlikeExpr K p e e' → AlikeStmt K p (.print id e) (.print id e')
  | declare {p : Surroundings} {id : Nat} {name name' : Token} :
      K.Declares p name name' → AlikeStmt K p (.declare id name none) (.declare id name' none)
  | declareValue {p : Surroundings} {id : Nat} {name name' : Token} {e e' : Expr} :
      K.Declares p name name' → AlikeExpr K (p.initializer id name.lexeme) e e' →
      AlikeStmt K p (.declare id name (some e)) (.declare id name' (some e'))
  | block {p : Surroundings} {id : Nat} {body body' : List Stmt} :
      AlikeBody K (p.enter (.block id)) body body' →
      AlikeStmt K p (.block id body) (.block id body')
  | ifThen {p : Surroundings} {id : Nat} {cond cond' : Expr} {s s' : Stmt} :
      AlikeExpr K p cond cond' → AlikeStmt K p s s' → s.declared = [] →
      AlikeStmt K p (.conditional id cond s none) (.conditional id cond' s' none)
  | ifElse {p : Surroundings} {id : Nat} {cond cond' : Expr} {s s' t t' : Stmt} :
      AlikeExpr K p cond cond' → AlikeStmt K p s s' → s.declared = [] → AlikeStmt K p t t' →
      t.declared = [] →
      AlikeStmt K p (.conditional id cond s (some t)) (.conditional id cond' s' (some t'))
  | loop {p : Surroundings} {id : Nat} {cond cond' : Expr} {s s' : Stmt} :
      AlikeExpr K p cond cond' → AlikeStmt K p s s' → s.declared = [] →
      AlikeStmt K p (.loop id cond s) (.loop id cond' s')
  | function {p : Surroundings} {decl decl' : Function} :
      K.Declares p decl.name decl'.name →
      AlikeFunction K (p.mark decl.name.lexeme true) decl decl' →
      AlikeStmt K p (.function decl) (.function decl')
  | ret {p : Surroundings} {id : Nat} {keyword keyword' : Token} :
      AlikeStmt K p (.ret id keyword none) (.ret id keyword' none)
  | retValue {p : Surroundings} {id : Nat} {keyword keyword' : Token} {e e' : Expr} :
      AlikeExpr K p e e' → AlikeStmt K p (.ret id keyword (some e)) (.ret id keyword' (some e'))
  | classDecl {p : Surroundings} {id : Nat} {name name' : Token}
      {superclass superclass' : Option Superclass} {methods methods' : List Function} :
      K.Declares p name name' → name'.lexeme = name.lexeme →
      AlikeSuperclass K p name superclass superclass' →
      AlikeMethods K ((p.mark name.lexeme true).inClass id superclass methods) methods methods' →
      AlikeStmt K p (.classDecl id name superclass methods)
        (.classDecl id name' superclass' methods')

inductive AlikeBody (K : Pairing) : Surroundings → List Stmt → List Stmt → Prop where
  | nil {p : Surroundings} : AlikeBody K p [] []
  | cons {p : Surroundings} {s s' : Stmt} {ss ss' : List Stmt} :
      AlikeStmt K p s s' → AlikeBody K (p.after s) ss ss' → AlikeBody K p (s :: ss) (s' :: ss')

inductive AlikeFunction (K : Pairing) : Surroundings → Function → Function → Prop where
  | mk {p : Surroundings} {id : Nat} {name name' : Token} {params params' : List Token}
      {body body' : List Stmt} :
      name'.lexeme = name.lexeme → (∀ t ∈ params, K.IsName t.lexeme ∧ t.lexeme ≠ "super") →
      params'.map (·.lexeme) = params.map (fun t => K.spell (.routine id) t.lexeme) →
      AlikeBody K (p.inRoutine id params) body body' →
      AlikeFunction K p ⟨id, name, params, body⟩ ⟨id, name', params', body'⟩

inductive AlikeMethods (K : Pairing) : Surroundings → List Function → List Function → Prop where
  | nil {p : Surroundings} : AlikeMethods K p [] []
  | cons {p : Surroundings} {f f' : Function} {fs fs' : List Function} :
      AlikeFunction K p f f' → AlikeMethods K p fs fs' → AlikeMethods K p (f :: fs) (f' :: fs')

end

end LoxLang
