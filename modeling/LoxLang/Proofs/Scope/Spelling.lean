import LoxLang.Proofs.Scope.Balance
import LoxLang.Proofs.Scope.Sites
import LoxLang.Proofs.Token.Words
import LoxLang.Proofs.Tree.Proper

/-!
# Spelling

A `Spelling` respells the names that some constructs declare and leaves all others alone.  A program
is respelled as a whole: a declaration by the construct that it stands in, a reference by the
construct that holds the declaration which it refers to.  Names that differ stay different,
wherever they are declared.

* `Surroundings` of a part of a program, from those of the whole.
* `Spelling.expr`, `Spelling.stmt` — respelled trees.
-/

namespace LoxLang

/-! ## Surroundings -/

namespace Surroundings

/-- Outside of all scopes. -/
def outermost : Surroundings := ⟨[], [], none⟩

def mark (p : Surroundings) (name : String) (defined : Bool) : Surroundings :=
  { p with scopes := markIn name defined p.scopes }

/-- Behind a statement. -/
def after (p : Surroundings) (s : Stmt) : Surroundings :=
  { p with scopes := markAll s.declared p.scopes }

/-- Inside the initializer of a variable. -/
def initializer (p : Surroundings) (id : Nat) (name : String) : Surroundings :=
  ⟨p.constructs, markIn name false p.scopes, some ⟨id, name⟩⟩

/-- Inside a new scope. -/
def enter (p : Surroundings) (c : Construct) : Surroundings :=
  ⟨c :: p.constructs, .empty :: p.scopes, none⟩

/-- Inside a function, behind its parameters. -/
def inRoutine (p : Surroundings) (id : Nat) (params : List Token) : Surroundings :=
  ⟨.routine id :: p.constructs, markAll (params.map (·.lexeme)) (.empty :: p.scopes), none⟩

/-- Around the methods of a class. -/
def inClass (p : Surroundings) (id : Nat) (superclass : Option Superclass)
    (methods : List Function) : Surroundings :=
  ⟨classConstructs id superclass methods ++ p.constructs,
    Resolution.classScopes superclass ++ p.scopes, none⟩

/-- A name that is declared at its distance has been defined there. -/
def Readable (p : Surroundings) (name : String) : Prop :=
  ∀ d scope, distance? name p.scopes = some d → p.scopes[d]? = some scope →
    scope.find? name = some true

/-- A name that is declared at its distance has been defined there, or this is a part of the
initializer of that very declaration. -/
def Writable (p : Surroundings) (name : String) : Prop :=
  ∀ d scope, distance? name p.scopes = some d → p.scopes[d]? = some scope →
    scope.find? name = some true ∨
      d = 0 ∧ ∃ decl, p.initializing = some decl ∧ decl.name = name

/-- The nearest scope of `super` lies directly around a scope of `this`. -/
def InSubclass (p : Surroundings) : Prop :=
  ∃ d scope id id' methods, distance? "super" p.scopes = some (d + 1) ∧
    p.scopes[d]? = some scope ∧ scope.find? "this" = some true ∧
    p.constructs[d]? = some (.receiver id methods) ∧ p.constructs[d + 1]? = some (.base id')

end Surroundings

/-! ## Spellings -/

/-- How the names that a construct declares are spelled. -/
structure Spelling where
  spell : Construct → String → String
  /-- The names that are respelled. -/
  IsName : String → Prop
  spell_inj : ∀ c c' {a b}, IsName a → IsName b → spell c a = spell c' b → a = b
  spell_global : ∀ c {a b}, IsName a → IsName b → spell c a = b → a = b
  spell_this : ∀ c, spell c "this" = "this"
  spell_super : ∀ c, spell c "super" = "super"
  name_this : IsName "this"
  name_super : IsName "super"

/-- The construct that holds the declaration of a name. -/
def Surroundings.holder? (p : Surroundings) (name : String) : Option Construct :=
  (distance? name p.scopes).bind fun d => p.constructs[d]?

namespace Spelling

variable (σ : Spelling)

/-- The spelling of a name that belongs to a construct, or is global. -/
def spellIn : Option Construct → String → String
  | none, name => name
  | some c, name => σ.spell c name

theorem spellIn_inj {l l' : Option Construct} {a b : String} (ha : σ.IsName a) (hb : σ.IsName b)
    (h : σ.spellIn l a = σ.spellIn l' b) : a = b := by
  cases l with
  | none =>
    cases l' with
    | none => exact h
    | some c => exact (σ.spell_global c hb ha h.symm).symm
  | some c =>
    cases l' with
    | none => exact σ.spell_global c ha hb h
    | some c' => exact σ.spell_inj c c' ha hb h

/-- A name where it is referred to. -/
def reference (p : Surroundings) (name : Token) : Token :=
  { name with lexeme := σ.spellIn (p.holder? name.lexeme) name.lexeme }

/-- A name where it is declared. -/
def declaration (p : Surroundings) (name : Token) : Token :=
  { name with lexeme := σ.spellIn p.constructs.head? name.lexeme }

/-- `this` and `super` are spelled as they are. -/
theorem reference_this (p : Surroundings) {keyword : Token}
    (h : keyword.lexeme = "this") : σ.reference p keyword = keyword := by
  unfold reference
  obtain ⟨kind, lexeme, literal, line⟩ := keyword
  obtain rfl : lexeme = "this" := h
  cases p.holder? "this" with
  | none => rfl
  | some c => simp only [spellIn, σ.spell_this]

theorem reference_super (p : Surroundings) {keyword : Token}
    (h : keyword.lexeme = "super") : σ.reference p keyword = keyword := by
  unfold reference
  obtain ⟨kind, lexeme, literal, line⟩ := keyword
  obtain rfl : lexeme = "super" := h
  cases p.holder? "super" with
  | none => rfl
  | some c => simp only [spellIn, σ.spell_super]

mutual

def expr (p : Surroundings) : Expr → Expr
  | .literal id value => .literal id value
  | .grouping id inner => .grouping id (expr p inner)
  | .unary id token operand => .unary id token (expr p operand)
  | .binary id left token right => .binary id (expr p left) token (expr p right)
  | .logical id left token right => .logical id (expr p left) token (expr p right)
  | .var id name => .var id (σ.reference p name)
  | .assign id name value => .assign id (σ.reference p name) (expr p value)
  | .call id callee paren args => .call id (expr p callee) paren (exprs p args)
  | .get id object name => .get id (expr p object) name
  | .set id object name value => .set id (expr p object) name (expr p value)
  | .this id keyword => .this id keyword
  | .super id keyword method => .super id keyword method

def exprs (p : Surroundings) : List Expr → List Expr
  | [] => []
  | e :: es => expr p e :: exprs p es

end

/-- The reference to a superclass, which the name of the class precedes. -/
def superclass (p : Surroundings) (name : Token) : Option Superclass → Option Superclass
  | none => none
  | some s => some ⟨s.id, σ.reference (p.mark name.lexeme true) s.name⟩

mutual

def stmt (p : Surroundings) : Stmt → Stmt
  | .malformed => .malformed
  | .expression id value => .expression id (σ.expr p value)
  | .print id value => .print id (σ.expr p value)
  | .declare id name none => .declare id (σ.declaration p name) none
  | .declare id name (some value) =>
    .declare id (σ.declaration p name) (some (σ.expr (p.initializer id name.lexeme) value))
  | .block id body => .block id (stmts (p.enter (.block id)) body)
  | .conditional id cond thenBranch none =>
    .conditional id (σ.expr p cond) (stmt p thenBranch) none
  | .conditional id cond thenBranch (some elseBranch) =>
    .conditional id (σ.expr p cond) (stmt p thenBranch) (some (stmt p elseBranch))
  | .loop id cond body => .loop id (σ.expr p cond) (stmt p body)
  | .function decl => .function (function (p.mark decl.name.lexeme true) decl)
  | .ret id keyword none => .ret id keyword none
  | .ret id keyword (some value) => .ret id keyword (some (σ.expr p value))
  | .classDecl id name superclass methods =>
    .classDecl id name (σ.superclass p name superclass)
      (functions ((p.mark name.lexeme true).inClass id superclass methods) methods)

def stmts (p : Surroundings) : List Stmt → List Stmt
  | [] => []
  | s :: ss => stmt p s :: stmts (p.after s) ss

/-- A function keeps its own name, which it is printed with. -/
def function (p : Surroundings) : Function → Function
  | ⟨id, name, params, body⟩ =>
    ⟨id, name, params.map fun t => { t with lexeme := σ.spell (.routine id) t.lexeme },
      stmts (p.inRoutine id params) body⟩

def functions (p : Surroundings) : List Function → List Function
  | [] => []
  | f :: fs => function p f :: functions p fs

end

/-! ## Tokens of a program -/

/-- What has to be known of every token. -/
structure Suits (P : Token → Prop) : Prop where
  isName : ∀ t, P t → σ.IsName t.lexeme
  genuine : ∀ t, P t → t.Genuine

variable {σ} {P : Token → Prop}

theorem Suits.ne_implicit (h : σ.Suits P) {name : Token} (hname : ProperName P name) :
    name.lexeme ≠ "this" ∧ name.lexeme ≠ "super" :=
  (h.genuine name hname.2).identifier hname.1

/-! ## The plain spelling -/

/-- Every name is spelled as it is. -/
def plain : Spelling where
  spell _ name := name
  IsName _ := True
  spell_inj _ _ _ _ _ _ h := h
  spell_global _ _ _ _ _ h := h
  spell_this _ := rfl
  spell_super _ := rfl
  name_this := trivial
  name_super := trivial

theorem plain_spellIn (l : Option Construct) (name : String) : plain.spellIn l name = name := by
  cases l <;> rfl

theorem plain_reference (p : Surroundings) (name : Token) : plain.reference p name = name := by
  simp only [reference, plain_spellIn]

theorem plain_declaration (p : Surroundings) (name : Token) : plain.declaration p name = name := by
  simp only [declaration, plain_spellIn]

mutual

theorem plain_expr (p : Surroundings) : ∀ e : Expr, plain.expr p e = e
  | .literal .. => rfl
  | .grouping _ inner => by simp only [expr, plain_expr p inner]
  | .unary _ _ operand => by simp only [expr, plain_expr p operand]
  | .binary _ left _ right => by simp only [expr, plain_expr p left, plain_expr p right]
  | .logical _ left _ right => by simp only [expr, plain_expr p left, plain_expr p right]
  | .var _ name => by simp only [expr, plain_reference]
  | .assign _ name value => by simp only [expr, plain_reference, plain_expr p value]
  | .call _ callee _ args => by simp only [expr, plain_expr p callee, plain_exprs p args]
  | .get _ object _ => by simp only [expr, plain_expr p object]
  | .set _ object _ value => by simp only [expr, plain_expr p object, plain_expr p value]
  | .this .. => rfl
  | .super .. => rfl

theorem plain_exprs (p : Surroundings) : ∀ es : List Expr, plain.exprs p es = es
  | [] => rfl
  | e :: es => by simp only [exprs, plain_expr p e, plain_exprs p es]

end

theorem plain_superclass (p : Surroundings) (name : Token) (superclass : Option Superclass) :
    plain.superclass p name superclass = superclass := by
  cases superclass with
  | none => rfl
  | some s => simp only [Spelling.superclass, plain_reference]

mutual

theorem plain_stmt : ∀ (p : Surroundings) (s : Stmt), plain.stmt p s = s
  | _, .malformed => rfl
  | p, .expression _ value => by simp only [stmt, plain_expr]
  | p, .print _ value => by simp only [stmt, plain_expr]
  | p, .declare _ name none => by simp only [stmt, plain_declaration]
  | p, .declare _ name (some value) => by simp only [stmt, plain_declaration, plain_expr]
  | p, .block _ body => by simp only [stmt, plain_stmts _ body]
  | p, .conditional _ cond thenBranch none => by
    simp only [stmt, plain_expr, plain_stmt _ thenBranch]
  | p, .conditional _ cond thenBranch (some elseBranch) => by
    simp only [stmt, plain_expr, plain_stmt _ thenBranch, plain_stmt _ elseBranch]
  | p, .loop _ cond body => by simp only [stmt, plain_expr, plain_stmt _ body]
  | p, .function decl => by simp only [stmt, plain_function _ decl]
  | _, .ret _ _ none => rfl
  | p, .ret _ _ (some value) => by simp only [stmt, plain_expr]
  | p, .classDecl _ name superclass methods => by
    simp only [stmt, plain_superclass, plain_functions _ methods]

theorem plain_stmts : ∀ (p : Surroundings) (ss : List Stmt), plain.stmts p ss = ss
  | _, [] => rfl
  | p, s :: ss => by simp only [stmts, plain_stmt _ s, plain_stmts _ ss]

theorem plain_function : ∀ (p : Surroundings) (f : Function), plain.function p f = f
  | p, ⟨id, name, params, body⟩ => by
    have hparams : params.map (fun t => { t with lexeme := plain.spell (.routine id) t.lexeme }) =
        params := List.map_id params
    simp only [function, hparams, plain_stmts _ body]

theorem plain_functions : ∀ (p : Surroundings) (fs : List Function), plain.functions p fs = fs
  | _, [] => rfl
  | p, f :: fs => by simp only [functions, plain_function _ f, plain_functions _ fs]

end

end Spelling

/-! ## Proper statements -/

section Proper

variable {P : Token → Prop}

/-- What is no declaration declares nothing. -/
theorem Stmt.Proper.declared_eq_nil : ∀ {s : Stmt}, s.Proper P → s.isDeclaration = false →
    s.declared = []
  | .malformed, _, _ => rfl
  | .expression .., _, _ => rfl
  | .print .., _, _ => rfl
  | .declare .., _, hd => by cases hd
  | .block .., _, _ => rfl
  | .conditional _ _ thenBranch none, h, _ =>
    show thenBranch.declared = [] from declared_eq_nil h.2.1 h.2.2
  | .conditional _ _ _ (some _), h, _ => by
    simp only [Stmt.declared, declared_eq_nil h.2.1.1 h.2.1.2, declared_eq_nil h.2.2.1 h.2.2.2,
      List.append_nil]
  | .loop _ _ body, h, _ => show body.declared = [] from declared_eq_nil h.2.1 h.2.2
  | .function _, _, hd => by cases hd
  | .ret _ _ none, _, _ => rfl
  | .ret _ _ (some _), _, _ => rfl
  | .classDecl .., _, hd => by cases hd

theorem ProperFunction.name {f : Function} (h : ProperFunction P f) : ProperName P f.name := by
  obtain ⟨_, _, _, _⟩ := f
  exact h.1

/-- What a statement declares are names that stand in it. -/
theorem Stmt.Proper.declared_name {s : Stmt} (h : s.Proper P) :
    ∀ name ∈ s.declared, ∃ token, ProperName P token ∧ token.lexeme = name := by
  intro name hmem
  cases hd : s.isDeclaration with
  | false => rw [h.declared_eq_nil hd] at hmem; cases hmem
  | true =>
    cases s with
    | declare _ token value =>
      obtain rfl := List.mem_singleton.1 hmem
      cases value with
      | none => exact ⟨token, h, rfl⟩
      | some e => exact ⟨token, h.1, rfl⟩
    | function decl =>
      obtain rfl := List.mem_singleton.1 hmem
      exact ⟨decl.name, ProperFunction.name h, rfl⟩
    | classDecl _ token _ _ =>
      obtain rfl := List.mem_singleton.1 hmem
      exact ⟨token, h.1, rfl⟩
    | _ => cases hd

/-- A statement declares no implicit variable. -/
theorem Stmt.Proper.declared_ne {σ : Spelling} (hP : σ.Suits P) {s : Stmt} (h : s.Proper P) :
    ∀ name ∈ s.declared, name ≠ "this" ∧ name ≠ "super" := by
  intro name hmem
  obtain ⟨token, htoken, rfl⟩ := h.declared_name name hmem
  exact hP.ne_implicit htoken

theorem Stmt.Proper.declared_isName {σ : Spelling} (hP : σ.Suits P) {s : Stmt} (h : s.Proper P) :
    ∀ name ∈ s.declared, σ.IsName name := by
  intro name hmem
  obtain ⟨token, htoken, rfl⟩ := h.declared_name name hmem
  exact hP.isName token htoken.2

end Proper

end LoxLang
