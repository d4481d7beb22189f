import LoxLang.Proofs.Grammar.Bare
import LoxLang.Proofs.Tree.Ids
import LoxLang.Tree.Print

/-!
# Copies of a tree

A copy of a tree has the same words, but its nodes may have other numbers and its tokens may stand on
other lines.  Which numbers belong together matters only for references, since everything known about
them is filed under their numbers; how far a token is moved is told by the number of its node.

Principal results: `CopyBody.mono`, `CopyBody.refl`, `CopyBody.of_bare`.
-/

namespace LoxLang

/-! ## Moving a text -/

/-- The token some lines further down. -/
def Token.moved (k : Nat) (t : Token) : Token := { t with line := t.line + k }

@[simp] theorem Token.moved_kind (k : Nat) (t : Token) : (t.moved k).kind = t.kind := rfl

@[simp] theorem Token.moved_lexeme (k : Nat) (t : Token) : (t.moved k).lexeme = t.lexeme := rfl

@[simp] theorem Token.moved_literal (k : Nat) (t : Token) : (t.moved k).literal = t.literal := rfl

@[simp] theorem Token.moved_line (k : Nat) (t : Token) : (t.moved k).line = t.line + k := rfl

@[simp] theorem Token.moved_zero (t : Token) : t.moved 0 = t := rfl

mutual

def Expr.moved (k : Nat) : Expr → Expr
  | .literal id value => .literal id value
  | .grouping id inner => .grouping id (inner.moved k)
  | .unary id token operand => .unary id (token.moved k) (operand.moved k)
  | .binary id left token right => .binary id (left.moved k) (token.moved k) (right.moved k)
  | .logical id left token right => .logical id (left.moved k) (token.moved k) (right.moved k)
  | .var id name => .var id (name.moved k)
  | .assign id name value => .assign id (name.moved k) (value.moved k)
  | .call id callee paren args => .call id (callee.moved k) (paren.moved k) (movedArgs k args)
  | .get id object name => .get id (object.moved k) (name.moved k)
  | .set id object name value => .set id (object.moved k) (name.moved k) (value.moved k)
  | .this id keyword => .this id (keyword.moved k)
  | .super id keyword method => .super id (keyword.moved k) (method.moved k)

def movedArgs (k : Nat) : List Expr → List Expr
  | [] => []
  | e :: es => e.moved k :: movedArgs k es

end

def Superclass.moved (k : Nat) (s : Superclass) : Superclass := ⟨s.id, s.name.moved k⟩

mutual

def Stmt.moved (k : Nat) : Stmt → Stmt
  | .malformed => .malformed
  | .expression id value => .expression id (value.moved k)
  | .print id value => .print id (value.moved k)
  | .declare id name none => .declare id (name.moved k) none
  | .declare id name (some value) => .declare id (name.moved k) (some (value.moved k))
  | .block id body => .block id (movedBody k body)
  | .conditional id cond thenBranch none => .conditional id (cond.moved k) (thenBranch.moved k) none
  | .conditional id cond thenBranch (some elseBranch) =>
    .conditional id (cond.moved k) (thenBranch.moved k) (some (elseBranch.moved k))
  | .loop id cond body => .loop id (cond.moved k) (body.moved k)
  | .function decl => .function (movedFunction k decl)
  | .ret id keyword none => .ret id (keyword.moved k) none
  | .ret id keyword (some value) => .ret id (keyword.moved k) (some (value.moved k))
  | .classDecl id name superclass methods =>
    .classDecl id (name.moved k) (superclass.map (Superclass.moved k)) (movedMethods k methods)

def movedBody (k : Nat) : List Stmt → List Stmt
  | [] => []
  | s :: ss => s.moved k :: movedBody k ss

def movedFunction (k : Nat) : Function → Function
  | ⟨id, name, params, body⟩ =>
    ⟨id, name.moved k, params.map (Token.moved k), movedBody k body⟩

def movedMethods (k : Nat) : List Function → List Function
  | [] => []
  | f :: fs => movedFunction k f :: movedMethods k fs

end

mutual

@[simp] theorem Expr.moved_zero : ∀ e : Expr, e.moved 0 = e
  | .literal .. => rfl
  | .grouping _ e => by rw [Expr.moved, e.moved_zero]
  | .unary _ _ e => by rw [Expr.moved, e.moved_zero, Token.moved_zero]
  | .binary _ a _ b => by rw [Expr.moved, a.moved_zero, b.moved_zero, Token.moved_zero]
  | .logical _ a _ b => by rw [Expr.moved, a.moved_zero, b.moved_zero, Token.moved_zero]
  | .var .. => rfl
  | .assign _ _ e => by rw [Expr.moved, e.moved_zero, Token.moved_zero]
  | .call _ f _ args => by rw [Expr.moved, f.moved_zero, movedArgs_zero args, Token.moved_zero]
  | .get _ e _ => by rw [Expr.moved, e.moved_zero, Token.moved_zero]
  | .set _ e _ v => by rw [Expr.moved, e.moved_zero, v.moved_zero, Token.moved_zero]
  | .this .. => rfl
  | .super .. => rfl

@[simp] theorem movedArgs_zero : ∀ es : List Expr, movedArgs 0 es = es
  | [] => rfl
  | e :: es => by rw [movedArgs, e.moved_zero, movedArgs_zero es]

end

@[simp] theorem Token.map_moved_zero (ts : List Token) : ts.map (Token.moved 0) = ts :=
  List.map_id' ts

theorem Superclass.map_moved_zero (s : Option Superclass) : s.map (Superclass.moved 0) = s := by
  cases s <;> rfl

mutual

@[simp] theorem Stmt.moved_zero : ∀ s : Stmt, s.moved 0 = s
  | .malformed => rfl
  | .expression _ e => by rw [Stmt.moved, e.moved_zero]
  | .print _ e => by rw [Stmt.moved, e.moved_zero]
  | .declare _ _ none => rfl
  | .declare _ _ (some e) => by rw [Stmt.moved, e.moved_zero, Token.moved_zero]
  | .block _ body => by rw [Stmt.moved, movedBody_zero body]
  | .conditional _ c s none => by rw [Stmt.moved, c.moved_zero, s.moved_zero]
  | .conditional _ c s (some t) => by rw [Stmt.moved, c.moved_zero, s.moved_zero, t.moved_zero]
  | .loop _ c s => by rw [Stmt.moved, c.moved_zero, s.moved_zero]
  | .function f => by rw [Stmt.moved, movedFunction_zero f]
  | .ret _ _ none => rfl
  | .ret _ _ (some e) => by rw [Stmt.moved, e.moved_zero, Token.moved_zero]
  | .classDecl _ _ s fs => by
    rw [Stmt.moved, movedMethods_zero fs, Superclass.map_moved_zero, Token.moved_zero]

@[simp] theorem movedBody_zero : ∀ ss : List Stmt, movedBody 0 ss = ss
  | [] => rfl
  | s :: ss => by rw [movedBody, s.moved_zero, movedBody_zero ss]

@[simp] theorem movedFunction_zero : ∀ f : Function, movedFunction 0 f = f
  | ⟨_, _, params, body⟩ => by
    rw [movedFunction, movedBody_zero body, Token.map_moved_zero, Token.moved_zero]

@[simp] theorem movedMethods_zero : ∀ fs : List Function, movedMethods 0 fs = fs
  | [] => rfl
  | f :: fs => by rw [movedMethods, movedFunction_zero f, movedMethods_zero fs]

end

/-! ## Copies -/

/-- What the nodes of a tree and of its copy have to do with each other. -/
structure Copying where
  /-- The numbers of references that belong together. -/
  Id : Nat → Nat → Prop
  /-- How many lines the tokens of a node are moved, by the number of the node. -/
  shift : Nat → Nat

mutual

inductive CopyExpr (K : Copying) : Expr → Expr → Prop where
  | literal {id id' : Nat} {value : Literal} : CopyExpr K (.literal id value) (.literal id' value)
  | grouping {id id' : Nat} {e e' : Expr} :
      CopyExpr K e e' → CopyExpr K (.grouping id e) (.grouping id' e')
  | unary {id id' : Nat} {t : Token} {e e' : Expr} :
      CopyExpr K e e' → CopyExpr K (.unary id t e) (.unary id' (t.moved (K.shift id)) e')
  | binary {id id' : Nat} {t : Token} {left left' right right' : Expr} :
      CopyExpr K left left' → CopyExpr K right right' →
      CopyExpr K (.binary id left t right)
        (.binary id' left' (t.moved (K.shift id)) right')
  | logical {id id' : Nat} {t : Token} {left left' right right' : Expr} :
      CopyExpr K left left' → CopyExpr K right right' →
      CopyExpr K (.logical id left t right)
        (.logical id' left' (t.moved (K.shift id)) right')
  | var {id id' : Nat} {name : Token} :
      K.Id id id' → CopyExpr K (.var id name) (.var id' (name.moved (K.shift id)))
  | assign {id id' : Nat} {name : Token} {value value' : Expr} :
      K.Id id id' → CopyExpr K value value' →
      CopyExpr K (.assign id name value) (.assign id' (name.moved (K.shift id)) value')
  | call {id id' : Nat} {callee callee' : Expr} {paren : Token} {args args' : List Expr} :
      CopyExpr K callee callee' → CopyArgs K args args' →
      CopyExpr K (.call id callee paren args) (.call id' callee' (paren.moved (K.shift id)) args')
  | get {id id' : Nat} {object object' : Expr} {name : Token} :
      CopyExpr K object object' →
      CopyExpr K (.get id object name) (.get id' object' (name.moved (K.shift id)))
  | set {id id' : Nat} {object object' value value' : Expr} {name : Token} :
      CopyExpr K object object' → CopyExpr K value value' →
      CopyExpr K (.set id object name value)
        (.set id' object' (name.moved (K.shift id)) value')
  | this {id id' : Nat} {keyword : Token} :
      K.Id id id' → CopyExpr K (.this id keyword) (.this id' (keyword.moved (K.shift id)))
  | super {id id' : Nat} {keyword method : Token} :
      K.Id id id' → CopyExpr K (.super id keyword method)
        (.super id' (keyword.moved (K.shift id)) (method.moved (K.shift id)))

inductive CopyArgs (K : Copying) : List Expr → List Expr → Prop where
  | nil : CopyArgs K [] []
  | cons {e e' : Expr} {es es' : List Expr} :
      CopyExpr K e e' → CopyArgs K es es' → CopyArgs K (e :: es) (e' :: es')

end

inductive CopySuperclass (K : Copying) : Option Superclass → Option Superclass → Prop where
  | none : CopySuperclass K none none
  | some {id id' : Nat} {name : Token} :
      K.Id id id' → CopySuperclass K (some ⟨id, name⟩) (some ⟨id', name.moved (K.shift id)⟩)

mutual

inductive CopyStmt (K : Copying) : Stmt → Stmt → Prop where
  | malformed : CopyStmt K .malformed .malformed
  | expression {id id' : Nat} {e e' : Expr} :
      CopyExpr K e e' → CopyStmt K (.expression id e) (.expression id' e')
  | print {id id' : Nat} {e e' : Expr} :
      CopyExpr K e e' → CopyStmt K (.print id e) (.print id' e')
  | declare {id id' : Nat} {name : Token} :
      CopyStmt K (.declare id name none) (.declare id' (name.moved (K.shift id)) none)
  | declareValue {id id' : Nat} {name : Token} {e e' : Expr} :
      CopyExpr K e e' →
      CopyStmt K (.declare id name (some e)) (.declare id' (name.moved (K.shift id)) (some e'))
  | block {id id' : Nat} {body body' : List Stmt} :
      CopyBody K body body' → CopyStmt K (.block id body) (.block id' body')
  | ifThen {id id' : Nat} {cond cond' : Expr} {s s' : Stmt} :
      CopyExpr K cond cond' → CopyStmt K s s' →
      CopyStmt K (.conditional id cond s none) (.conditional id' cond' s' none)
  | ifElse {id id' : Nat} {cond cond' : Expr} {s s' t t' : Stmt} :
      CopyExpr K cond cond' → CopyStmt K s s' → CopyStmt K t t' →
      CopyStmt K (.conditional id cond s (some t)) (.conditional id' cond' s' (some t'))
  | loop {id id' : Nat} {cond cond' : Expr} {s s' : Stmt} :
      CopyExpr K cond cond' → CopyStmt K s s' → CopyStmt K (.loop id cond s) (.loop id' cond' s')
  | function {f f' : Function} : CopyFunction K f f' → CopyStmt K (.function f) (.function f')
  | ret {id id' : Nat} {keyword : Token} :
      CopyStmt K (.ret id keyword none) (.ret id' (keyword.moved (K.shift id)) none)
  | retValue {id id' : Nat} {keyword : Token} {e e' : Expr} :
      CopyExpr K e e' →
      CopyStmt K (.ret id keyword (some e)) (.ret id' (keyword.moved (K.shift id)) (some e'))
  | classDecl {id id' : Nat} {name : Token} {base base' : Option Superclass}
      {methods methods' : List Function} :
      CopySuperclass K base base' → CopyMethods K methods methods' →
      CopyStmt K (.classDecl id name base methods)
        (.classDecl id' (name.moved (K.shift id)) base' methods')

inductive CopyBody (K : Copying) : List Stmt → List Stmt → Prop where
  | nil : CopyBody K [] []
  | cons {s s' : Stmt} {ss ss' : List Stmt} :
      CopyStmt K s s' → CopyBody K ss ss' → CopyBody K (s :: ss) (s' :: ss')

inductive CopyFunction (K : Copying) : Function → Function → Prop where
  | mk {id id' : Nat} {name : Token} {params : List Token} {body body' : List Stmt} :
      CopyBody K body body' →
      CopyFunction K ⟨id, name, params, body⟩
        ⟨id', name.moved (K.shift id), params.map (Token.moved (K.shift id)), body'⟩

inductive CopyMethods (K : Copying) : List Function → List Function → Prop where
  | nil : CopyMethods K [] []
  | cons {f f' : Function} {fs fs' : List Function} :
      CopyFunction K f f' → CopyMethods K fs fs' → CopyMethods K (f :: fs) (f' :: fs')

end

theorem CopyFunction.name_lexeme {K : Copying} {f f' : Function} (h : CopyFunction K f f') :
    f'.name.lexeme = f.name.lexeme := by
  cases h
  rfl

/-! ## Printing -/

section Printing

variable {K : Copying}

mutual

theorem CopyExpr.render_eq : ∀ {e e' : Expr}, CopyExpr K e e' → e'.render = e.render
  | _, _, .literal => rfl
  | _, _, .grouping he => by rw [Expr.render, Expr.render, he.render_eq]
  | _, _, .unary he => by rw [Expr.render, Expr.render, he.render_eq, Token.moved_lexeme]
  | _, _, .binary ha hb => by
    rw [Expr.render, Expr.render, ha.render_eq, hb.render_eq, Token.moved_lexeme]
  | _, _, .logical ha hb => by
    rw [Expr.render, Expr.render, ha.render_eq, hb.render_eq, Token.moved_lexeme]
  | _, _, .var _ => rfl
  | _, _, .assign _ he => by rw [Expr.render, Expr.render, he.render_eq, Token.moved_lexeme]
  | _, _, .call hf hargs => by rw [Expr.render, Expr.render, hf.render_eq, hargs.render_eq]
  | _, _, .get he => by rw [Expr.render, Expr.render, he.render_eq, Token.moved_lexeme]
  | _, _, .set he hv => by
    rw [Expr.render, Expr.render, he.render_eq, hv.render_eq, Token.moved_lexeme]
  | _, _, .this _ => rfl
  | _, _, .super _ => rfl

theorem CopyArgs.render_eq : ∀ {es es' : List Expr}, CopyArgs K es es' →
    renderArgs es' = renderArgs es
  | _, _, .nil => rfl
  | _, _, .cons he hes => by rw [renderArgs, renderArgs, he.render_eq, hes.render_eq]

end

theorem Token.map_moved_lexeme (k : Nat) (ts : List Token) :
    (ts.map (Token.moved k)).map (·.lexeme) = ts.map (·.lexeme) := List.map_map ..

mutual

theorem CopyStmt.render_eq : ∀ {s s' : Stmt}, CopyStmt K s s' → s'.render = s.render
  | _, _, .malformed => rfl
  | _, _, .expression he => by rw [Stmt.render, Stmt.render, he.render_eq]
  | _, _, .print he => by rw [Stmt.render, Stmt.render, he.render_eq]
  | _, _, .declare => rfl
  | _, _, .declareValue he => by rw [Stmt.render, Stmt.render, he.render_eq, Token.moved_lexeme]
  | _, _, .block hbody => by rw [Stmt.render, Stmt.render, hbody.render_eq]
  | _, _, .ifThen hc hs => by rw [Stmt.render, Stmt.render, hc.render_eq, hs.render_eq]
  | _, _, .ifElse hc hs ht => by
    rw [Stmt.render, Stmt.render, hc.render_eq, hs.render_eq, ht.render_eq]
  | _, _, .loop hc hs => by rw [Stmt.render, Stmt.render, hc.render_eq, hs.render_eq]
  | _, _, .function hf => by rw [Stmt.render, Stmt.render, hf.render_eq]
  | _, _, .ret => rfl
  | _, _, .retValue he => by rw [Stmt.render, Stmt.render, he.render_eq]
  | _, _, .classDecl hbase hfs => by
    cases hbase with
    | none => rw [Stmt.render, Stmt.render, hfs.render_eq, Token.moved_lexeme]
    | some _ => rw [Stmt.render, Stmt.render, hfs.render_eq, Token.moved_lexeme, Token.moved_lexeme]

theorem CopyBody.render_eq : ∀ {ss ss' : List Stmt}, CopyBody K ss ss' →
    renderBody ss' = renderBody ss
  | _, _, .nil => rfl
  | _, _, .cons hs hss => by rw [renderBody, renderBody, hs.render_eq, hss.render_eq]

theorem CopyFunction.render_eq : ∀ {f f' : Function}, CopyFunction K f f' →
    renderFunction f' = renderFunction f
  | _, _, .mk hbody => by
    rw [renderFunction, renderFunction, hbody.render_eq, Token.map_moved_lexeme,
      Token.moved_lexeme]

theorem CopyMethods.render_eq : ∀ {fs fs' : List Function}, CopyMethods K fs fs' →
    renderMethods fs' = renderMethods fs
  | _, _, .nil => rfl
  | _, _, .cons hf hfs => by rw [renderMethods, renderMethods, hf.render_eq, hfs.render_eq]

end

theorem CopyBody.map_render_eq : ∀ {ss ss' : List Stmt}, CopyBody K ss ss' →
    ss'.map Stmt.render = ss.map Stmt.render
  | _, _, .nil => rfl
  | _, _, .cons hs hss => by rw [List.map_cons, List.map_cons, hs.render_eq, hss.map_render_eq]

theorem CopyBody.length_eq {ss ss' : List Stmt} (h : CopyBody K ss ss') :
    ss'.length = ss.length := by
  simpa only [List.length_map] using congrArg List.length h.map_render_eq

end Printing

/-! ## More numbers that belong together -/

section Mono

variable {K : Copying} {Id : Nat → Nat → Prop}

mutual

theorem CopyExpr.mono (h : ∀ i i', K.Id i i' → Id i i') : ∀ {e e' : Expr}, CopyExpr K e e' →
    CopyExpr { K with Id } e e'
  | _, _, .literal => .literal
  | _, _, .grouping he => .grouping (he.mono h)
  | _, _, .unary he => .unary (he.mono h)
  | _, _, .binary ha hb => .binary (ha.mono h) (hb.mono h)
  | _, _, .logical ha hb => .logical (ha.mono h) (hb.mono h)
  | _, _, .var hid => .var (h _ _ hid)
  | _, _, .assign hid he => .assign (h _ _ hid) (he.mono h)
  | _, _, .call hf hargs => .call (hf.mono h) (hargs.mono h)
  | _, _, .get he => .get (he.mono h)
  | _, _, .set ha hb => .set (ha.mono h) (hb.mono h)
  | _, _, .this hid => .this (h _ _ hid)
  | _, _, .super hid => .super (h _ _ hid)

theorem CopyArgs.mono (h : ∀ i i', K.Id i i' → Id i i') : ∀ {es es' : List Expr},
    CopyArgs K es es' → CopyArgs { K with Id } es es'
  | _, _, .nil => .nil
  | _, _, .cons he hes => .cons (he.mono h) (hes.mono h)

end

theorem CopySuperclass.mono (h : ∀ i i', K.Id i i' → Id i i') {s s' : Option Superclass} :
    CopySuperclass K s s' → CopySuperclass { K with Id } s s'
  | .none => .none
  | .some hid => .some (h _ _ hid)

mutual

theorem CopyStmt.mono (h : ∀ i i', K.Id i i' → Id i i') : ∀ {s s' : Stmt}, CopyStmt K s s' →
    CopyStmt { K with Id } s s'
  | _, _, .malformed => .malformed
  | _, _, .expression he => .expression (he.mono h)
  | _, _, .print he => .print (he.mono h)
  | _, _, .declare => .declare
  | _, _, .declareValue he => .declareValue (he.mono h)
  | _, _, .block hbody => .block (hbody.mono h)
  | _, _, .ifThen hcond hs => .ifThen (hcond.mono h) (hs.mono h)
  | _, _, .ifElse hcond hs ht => .ifElse (hcond.mono h) (hs.mono h) (ht.mono h)
  | _, _, .loop hcond hs => .loop (hcond.mono h) (hs.mono h)
  | _, _, .function hf => .function (hf.mono h)
  | _, _, .ret => .ret
  | _, _, .retValue he => .retValue (he.mono h)
  | _, _, .classDecl hbase hmethods => .classDecl (hbase.mono h) (hmethods.mono h)

theorem CopyBody.mono (h : ∀ i i', K.Id i i' → Id i i') : ∀ {ss ss' : List Stmt},
    CopyBody K ss ss' → CopyBody { K with Id } ss ss'
  | _, _, .nil => .nil
  | _, _, .cons hs hss => .cons (hs.mono h) (hss.mono h)

theorem CopyFunction.mono (h : ∀ i i', K.Id i i' → Id i i') : ∀ {f f' : Function},
    CopyFunction K f f' → CopyFunction { K with Id } f f'
  | _, _, .mk hbody => .mk (hbody.mono h)

theorem CopyMethods.mono (h : ∀ i i', K.Id i i' → Id i i') : ∀ {fs fs' : List Function},
    CopyMethods K fs fs' → CopyMethods { K with Id } fs fs'
  | _, _, .nil => .nil
  | _, _, .cons hf hfs => .cons (hf.mono h) (hfs.mono h)

end

end Mono

/-! ## A tree is a copy of itself -/

section Refl

variable {K : Copying}

/-- A node that belongs to itself and stays on its line. -/
def Copying.Fixes (K : Copying) (id : Nat) : Prop := K.Id id id ∧ K.shift id = 0

mutual

theorem CopyExpr.refl : ∀ {e : Expr}, (∀ id ∈ e.ids, K.Fixes id) → CopyExpr K e e
  | .literal .., _ => .literal
  | .grouping _ e, h => by
    rw [Expr.ids_grouping, List.forall_mem_cons] at h
    exact .grouping (.refl h.2)
  | .unary id t e, h => by
    rw [Expr.ids_unary, List.forall_mem_cons] at h
    have hcopy : CopyExpr K (.unary id t e) (.unary id (t.moved (K.shift id)) e) :=
      .unary (.refl h.2)
    rwa [h.1.2] at hcopy
  | .binary id a t b, h => by
    rw [Expr.ids_binary, List.forall_mem_cons, List.forall_mem_append] at h
    have hcopy : CopyExpr K (.binary id a t b) (.binary id a (t.moved (K.shift id)) b) :=
      .binary (.refl h.2.1) (.refl h.2.2)
    rwa [h.1.2] at hcopy
  | .logical id a t b, h => by
    rw [Expr.ids_logical, List.forall_mem_cons, List.forall_mem_append] at h
    have hcopy : CopyExpr K (.logical id a t b) (.logical id a (t.moved (K.shift id)) b) :=
      .logical (.refl h.2.1) (.refl h.2.2)
    rwa [h.1.2] at hcopy
  | .var id name, h => by
    rw [Expr.ids_var, List.forall_mem_singleton] at h
    have hcopy : CopyExpr K (.var id name) (.var id (name.moved (K.shift id))) := .var h.1
    rwa [h.2] at hcopy
  | .assign id name e, h => by
    rw [Expr.ids_assign, List.forall_mem_cons] at h
    have hcopy : CopyExpr K (.assign id name e) (.assign id (name.moved (K.shift id)) e) :=
      .assign h.1.1 (.refl h.2)
    rwa [h.1.2] at hcopy
  | .call id f paren args, h => by
    rw [Expr.ids_call, List.forall_mem_cons, List.forall_mem_append] at h
    have hcopy : CopyExpr K (.call id f paren args) (.call id f (paren.moved (K.shift id)) args) :=
      .call (.refl h.2.1) (.refl h.2.2)
    rwa [h.1.2] at hcopy
  | .get id e name, h => by
    rw [Expr.ids_get, List.forall_mem_cons] at h
    have hcopy : CopyExpr K (.get id e name) (.get id e (name.moved (K.shift id))) :=
      .get (.refl h.2)
    rwa [h.1.2] at hcopy
  | .set id a name b, h => by
    rw [Expr.ids_set, List.forall_mem_cons, List.forall_mem_append] at h
    have hcopy : CopyExpr K (.set id a name b) (.set id a (name.moved (K.shift id)) b) :=
      .set (.refl h.2.1) (.refl h.2.2)
    rwa [h.1.2] at hcopy
  | .this id keyword, h => by
    rw [Expr.ids_this, List.forall_mem_singleton] at h
    have hcopy : CopyExpr K (.this id keyword) (.this id (keyword.moved (K.shift id))) := .this h.1
    rwa [h.2] at hcopy
  | .super id keyword method, h => by
    rw [Expr.ids_super, List.forall_mem_singleton] at h
    have hcopy : CopyExpr K (.super id keyword method)
      (.super id (keyword.moved (K.shift id)) (method.moved (K.shift id))) := .super h.1
    rwa [h.2] at hcopy

theorem CopyArgs.refl : ∀ {es : List Expr}, (∀ id ∈ argIds es, K.Fixes id) → CopyArgs K es es
  | [], _ => .nil
  | e :: es, h => by
    rw [argIds_cons, List.forall_mem_append] at h
    exact .cons (.refl h.1) (.refl h.2)

end

theorem CopySuperclass.refl : ∀ {s : Option Superclass},
    (∀ id ∈ optionIds (fun s => [s.id]) s, K.Fixes id) → CopySuperclass K s s
  | .none, _ => .none
  | .some ⟨id, name⟩, h => by
    rw [optionIds, List.forall_mem_singleton] at h
    have hcopy : CopySuperclass K (.some ⟨id, name⟩) (.some ⟨id, name.moved (K.shift id)⟩) :=
      .some h.1
    rwa [h.2] at hcopy

mutual

theorem CopyStmt.refl : ∀ {s : Stmt}, (∀ id ∈ s.ids, K.Fixes id) → CopyStmt K s s
  | .malformed, _ => .malformed
  | .expression _ e, h => by
    rw [Stmt.ids_expression, List.forall_mem_cons] at h
    exact .expression (.refl h.2)
  | .print _ e, h => by
    rw [Stmt.ids_print, List.forall_mem_cons] at h
    exact .print (.refl h.2)
  | .declare id name none, h => by
    rw [Stmt.ids_declare, List.forall_mem_cons] at h
    have hcopy : CopyStmt K (.declare id name none) (.declare id (name.moved (K.shift id)) none) :=
      .declare
    rwa [h.1.2] at hcopy
  | .declare id name (some e), h => by
    rw [Stmt.ids_declare, List.forall_mem_cons] at h
    have hcopy : CopyStmt K (.declare id name (some e))
      (.declare id (name.moved (K.shift id)) (some e)) := .declareValue (.refl h.2)
    rwa [h.1.2] at hcopy
  | .block _ body, h => by
    rw [Stmt.ids_block, List.forall_mem_cons] at h
    exact .block (.refl h.2)
  | .conditional _ cond s none, h => by
    rw [Stmt.ids_conditional, List.forall_mem_cons, List.forall_mem_append,
      List.forall_mem_append] at h
    exact .ifThen (.refl h.2.1.1) (.refl h.2.1.2)
  | .conditional _ cond s (some t), h => by
    rw [Stmt.ids_conditional, List.forall_mem_cons, List.forall_mem_append,
      List.forall_mem_append] at h
    exact .ifElse (.refl h.2.1.1) (.refl h.2.1.2) (.refl h.2.2)
  | .loop _ cond s, h => by
    rw [Stmt.ids_loop, List.forall_mem_cons, List.forall_mem_append] at h
    exact .loop (.refl h.2.1) (.refl h.2.2)
  | .function f, h => .function (.refl h)
  | .ret id keyword none, h => by
    rw [Stmt.ids_ret, List.forall_mem_cons] at h
    have hcopy : CopyStmt K (.ret id keyword none) (.ret id (keyword.moved (K.shift id)) none) :=
      .ret
    rwa [h.1.2] at hcopy
  | .ret id keyword (some e), h => by
    rw [Stmt.ids_ret, List.forall_mem_cons] at h
    have hcopy : CopyStmt K (.ret id keyword (some e))
      (.ret id (keyword.moved (K.shift id)) (some e)) := .retValue (.refl h.2)
    rwa [h.1.2] at hcopy
  | .classDecl id name base methods, h => by
    rw [Stmt.ids_classDecl, List.forall_mem_cons, List.forall_mem_append] at h
    have hcopy : CopyStmt K (.classDecl id name base methods)
      (.classDecl id (name.moved (K.shift id)) base methods) :=
      .classDecl (.refl h.2.1) (.refl h.2.2)
    rwa [h.1.2] at hcopy

theorem CopyBody.refl : ∀ {ss : List Stmt}, (∀ id ∈ bodyIds ss, K.Fixes id) → CopyBody K ss ss
  | [], _ => .nil
  | s :: ss, h => by
    rw [bodyIds_cons, List.forall_mem_append] at h
    exact .cons (.refl h.1) (.refl h.2)

theorem CopyFunction.refl : ∀ {f : Function}, (∀ id ∈ functionIds f, K.Fixes id) →
    CopyFunction K f f
  | ⟨id, name, params, body⟩, h => by
    rw [functionIds_mk, List.forall_mem_cons] at h
    have hcopy : CopyFunction K ⟨id, name, params, body⟩
      ⟨id, name.moved (K.shift id), params.map (Token.moved (K.shift id)), body⟩ :=
      .mk (.refl h.2)
    rwa [h.1.2, Token.map_moved_zero] at hcopy

theorem CopyMethods.refl : ∀ {fs : List Function}, (∀ id ∈ methodIds fs, K.Fixes id) →
    CopyMethods K fs fs
  | [], _ => .nil
  | f :: fs, h => by
    rw [methodIds_cons, List.forall_mem_append] at h
    exact .cons (.refl h.1) (.refl h.2)

end

end Refl

/-! ## Trees that differ in their numbers and lines only -/

section Bare

/-- Any numbers may belong together. -/
def Copying.free (shift : Nat → Nat) : Copying := ⟨fun _ _ => True, shift⟩

variable {shift : Nat → Nat} {k : Nat}

mutual

theorem CopyExpr.of_bare : ∀ {e e' : Expr}, e'.bare = (e.moved k).bare →
    (∀ id ∈ e.ids, shift id = k) → CopyExpr (.free shift) e e'
  | .literal .., e', h, _ => by
    cases e' <;> simp [Expr.moved, Expr.bare] at h
    subst h
    exact .literal
  | .grouping _ e, e', h, hk => by
    rw [Expr.ids_grouping, List.forall_mem_cons] at hk
    cases e' <;> simp [Expr.moved, Expr.bare] at h
    exact .grouping (.of_bare h hk.2)
  | .unary id t e, e', h, hk => by
    rw [Expr.ids_unary, List.forall_mem_cons] at hk
    cases e' <;> simp [Expr.moved, Expr.bare] at h
    obtain ⟨rfl, he⟩ := h
    rw [← hk.1]
    exact .unary (.of_bare he hk.2)
  | .binary id a t b, e', h, hk => by
    rw [Expr.ids_binary, List.forall_mem_cons, List.forall_mem_append] at hk
    cases e' <;> simp [Expr.moved, Expr.bare] at h
    obtain ⟨ha, rfl, hb⟩ := h
    rw [← hk.1]
    exact .binary (.of_bare ha hk.2.1) (.of_bare hb hk.2.2)
  | .logical id a t b, e', h, hk => by
    rw [Expr.ids_logical, List.forall_mem_cons, List.forall_mem_append] at hk
    cases e' <;> simp [Expr.moved, Expr.bare] at h
    obtain ⟨ha, rfl, hb⟩ := h
    rw [← hk.1]
    exact .logical (.of_bare ha hk.2.1) (.of_bare hb hk.2.2)
  | .var id name, e', h, hk => by
    rw [Expr.ids_var, List.forall_mem_singleton] at hk
    cases e' <;> simp [Expr.moved, Expr.bare] at h
    rw [h, ← hk]
    exact .var trivial
  | .assign id name e, e', h, hk => by
    rw [Expr.ids_assign, List.forall_mem_cons] at hk
    cases e' <;> simp [Expr.moved, Expr.bare] at h
    obtain ⟨rfl, he⟩ := h
    rw [← hk.1]
    exact .assign trivial (.of_bare he hk.2)
  | .call id f paren args, e', h, hk => by
    rw [Expr.ids_call, List.forall_mem_cons, List.forall_mem_append] at hk
    cases e' <;> simp [Expr.moved, Expr.bare] at h
    obtain ⟨hf, rfl, hargs⟩ := h
    rw [← hk.1]
    exact .call (.of_bare hf hk.2.1) (.of_bare hargs hk.2.2)
  | .get id e name, e', h, hk => by
    rw [Expr.ids_get, List.forall_mem_cons] at hk
    cases e' <;> simp [Expr.moved, Expr.bare] at h
    obtain ⟨he, rfl⟩ := h
    rw [← hk.1]
    exact .get (.of_bare he hk.2)
  | .set id a name b, e', h, hk => by
    rw [Expr.ids_set, List.forall_mem_cons, List.forall_mem_append] at hk
    cases e' <;> simp [Expr.moved, Expr.bare] at h
    obtain ⟨ha, rfl, hb⟩ := h
    rw [← hk.1]
    exact .set (.of_bare ha hk.2.1) (.of_bare hb hk.2.2)
  | .this id keyword, e', h, hk => by
    rw [Expr.ids_this, List.forall_mem_singleton] at hk
    cases e' <;> simp [Expr.moved, Expr.bare] at h
    rw [h, ← hk]
    exact .this trivial
  | .super id keyword method, e', h, hk => by
    rw [Expr.ids_super, List.forall_mem_singleton] at hk
    cases e' <;> simp [Expr.moved, Expr.bare] at h
    rw [h.1, h.2, ← hk]
    exact .super trivial

theorem CopyArgs.of_bare : ∀ {es es' : List Expr}, bareArgs es' = bareArgs (movedArgs k es) →
    (∀ id ∈ argIds es, shift id = k) → CopyArgs (.free shift) es es'
  | [], es', h, _ => by
    cases es' <;> simp [movedArgs, bareArgs] at h
    exact .nil
  | e :: es, es', h, hk => by
    rw [argIds_cons, List.forall_mem_append] at hk
    cases es' <;> simp [movedArgs, bareArgs] at h
    exact .cons (.of_bare h.1 hk.1) (.of_bare h.2 hk.2)

end

theorem CopySuperclass.of_bare : ∀ {s s' : Option Superclass},
    s'.map Superclass.bare = (s.map (Superclass.moved k)).map Superclass.bare →
    (∀ id ∈ optionIds (fun s => [s.id]) s, shift id = k) → CopySuperclass (.free shift) s s'
  | .none, s', h, _ => by
    cases s' <;> simp at h
    exact .none
  | .some ⟨id, name⟩, s', h, hk => by
    rw [optionIds, List.forall_mem_singleton] at hk
    cases s' with
    | none => simp at h
    | some s' =>
      obtain ⟨id', name'⟩ := s'
      simp [Superclass.moved, Superclass.bare] at h
      rw [h, ← hk]
      exact .some trivial

theorem Stmt.bare_declare (id : Nat) (name : Token) (value : Option Expr) :
    (Stmt.declare id name value).bare = .declare 0 name (value.map Expr.bare) := by
  cases value <;> rfl

theorem Stmt.bare_return (id : Nat) (keyword : Token) (value : Option Expr) :
    (Stmt.ret id keyword value).bare = .ret 0 keyword (value.map Expr.bare) := by
  cases value <;> rfl

theorem Stmt.bare_conditional (id : Nat) (cond : Expr) (s : Stmt) (t : Option Stmt) :
    (Stmt.conditional id cond s t).bare = .conditional 0 cond.bare s.bare (t.map Stmt.bare) := by
  cases t <;> rfl

mutual

theorem CopyStmt.of_bare : ∀ {s s' : Stmt}, s'.bare = (s.moved k).bare →
    (∀ id ∈ s.ids, shift id = k) → CopyStmt (.free shift) s s'
  | .malformed, s', h, _ => by
    cases s' <;>
      simp [Stmt.moved, Stmt.bare, Stmt.bare_declare, Stmt.bare_return, Stmt.bare_conditional] at h
    exact .malformed
  | .expression _ e, s', h, hk => by
    rw [Stmt.ids_expression, List.forall_mem_cons] at hk
    cases s' <;>
      simp [Stmt.moved, Stmt.bare, Stmt.bare_declare, Stmt.bare_return, Stmt.bare_conditional] at h
    exact .expression (.of_bare h hk.2)
  | .print _ e, s', h, hk => by
    rw [Stmt.ids_print, List.forall_mem_cons] at hk
    cases s' <;>
      simp [Stmt.moved, Stmt.bare, Stmt.bare_declare, Stmt.bare_return, Stmt.bare_conditional] at h
    exact .print (.of_bare h hk.2)
  | .declare id name none, s', h, hk => by
    rw [Stmt.ids_declare, List.forall_mem_cons] at hk
    cases s' <;>
      simp [Stmt.moved, Stmt.bare, Stmt.bare_declare, Stmt.bare_return, Stmt.bare_conditional] at h
    obtain ⟨rfl, rfl⟩ := h
    rw [← hk.1]
    exact .declare
  | .declare id name (some e), s', h, hk => by
    rw [Stmt.ids_declare, List.forall_mem_cons] at hk
    cases s' <;>
      simp [Stmt.moved, Stmt.bare, Stmt.bare_declare, Stmt.bare_return, Stmt.bare_conditional] at h
    obtain ⟨rfl, e', rfl, he⟩ := h
    rw [← hk.1]
    exact .declareValue (.of_bare he hk.2)
  | .block _ body, s', h, hk => by
    rw [Stmt.ids_block, List.forall_mem_cons] at hk
    cases s' <;>
      simp [Stmt.moved, Stmt.bare, Stmt.bare_declare, Stmt.bare_return, Stmt.bare_conditional] at h
    exact .block (.of_bare h hk.2)
  | .conditional _ cond s none, s', h, hk => by
    rw [Stmt.ids_conditional, List.forall_mem_cons, List.forall_mem_append,
      List.forall_mem_append] at hk
    cases s' <;>
      simp [Stmt.moved, Stmt.bare, Stmt.bare_declare, Stmt.bare_return, Stmt.bare_conditional] at h
    obtain ⟨hcond, hs, rfl⟩ := h
    exact .ifThen (.of_bare hcond hk.2.1.1) (.of_bare hs hk.2.1.2)
  | .conditional _ cond s (some t), s', h, hk => by
    rw [Stmt.ids_conditional, List.forall_mem_cons, List.forall_mem_append,
      List.forall_mem_append] at hk
    cases s' <;>
      simp [Stmt.moved, Stmt.bare, Stmt.bare_declare, Stmt.bare_return, Stmt.bare_conditional] at h
    obtain ⟨hcond, hs, t', rfl, ht⟩ := h
    exact .ifElse (.of_bare hcond hk.2.1.1) (.of_bare hs hk.2.1.2) (.of_bare ht hk.2.2)
  | .loop _ cond s, s', h, hk => by
    rw [Stmt.ids_loop, List.forall_mem_cons, List.forall_mem_append] at hk
    cases s' <;>
      simp [Stmt.moved, Stmt.bare, Stmt.bare_declare, Stmt.bare_return, Stmt.bare_conditional] at h
    exact .loop (.of_bare h.1 hk.2.1) (.of_bare h.2 hk.2.2)
  | .function f, s', h, hk => by
    rw [Stmt.ids_function] at hk
    cases s' <;>
      simp [Stmt.moved, Stmt.bare, Stmt.bare_declare, Stmt.bare_return, Stmt.bare_conditional] at h
    exact .function (.of_bare h hk)
  | .ret id keyword none, s', h, hk => by
    rw [Stmt.ids_ret, List.forall_mem_cons] at hk
    cases s' <;>
      simp [Stmt.moved, Stmt.bare, Stmt.bare_declare, Stmt.bare_return, Stmt.bare_conditional] at h
    obtain ⟨rfl, rfl⟩ := h
    rw [← hk.1]
    exact .ret
  | .ret id keyword (some e), s', h, hk => by
    rw [Stmt.ids_ret, List.forall_mem_cons] at hk
    cases s' <;>
      simp [Stmt.moved, Stmt.bare, Stmt.bare_declare, Stmt.bare_return, Stmt.bare_conditional] at h
    obtain ⟨rfl, e', rfl, he⟩ := h
    rw [← hk.1]
    exact .retValue (.of_bare he hk.2)
  | .classDecl id name base methods, s', h, hk => by
    rw [Stmt.ids_classDecl, List.forall_mem_cons, List.forall_mem_append] at hk
    cases s' <;>
      simp only [Stmt.moved, Stmt.bare, Stmt.bare_declare, Stmt.bare_return, Stmt.bare_conditional,
        Stmt.classDecl.injEq, reduceCtorEq, true_and] at h
    obtain ⟨rfl, hbase, hmethods⟩ := h
    rw [← hk.1]
    exact .classDecl (.of_bare hbase hk.2.1) (.of_bare hmethods hk.2.2)

theorem CopyBody.of_bare : ∀ {ss ss' : List Stmt}, bareBody ss' = bareBody (movedBody k ss) →
    (∀ id ∈ bodyIds ss, shift id = k) → CopyBody (.free shift) ss ss'
  | [], ss', h, _ => by
    cases ss' <;> simp [movedBody, bareBody] at h
    exact .nil
  | s :: ss, ss', h, hk => by
    rw [bodyIds_cons, List.forall_mem_append] at hk
    cases ss' <;> simp [movedBody, bareBody] at h
    exact .cons (.of_bare h.1 hk.1) (.of_bare h.2 hk.2)

theorem CopyFunction.of_bare : ∀ {f f' : Function},
    bareFunction f' = bareFunction (movedFunction k f) → (∀ id ∈ functionIds f, shift id = k) →
    CopyFunction (.free shift) f f'
  | ⟨id, name, params, body⟩, ⟨id', name', params', body'⟩, h, hk => by
    rw [functionIds_mk, List.forall_mem_cons] at hk
    simp only [movedFunction, bareFunction, FunctionDecl.mk.injEq, true_and] at h
    obtain ⟨rfl, rfl, hbody⟩ := h
    rw [← hk.1]
    exact .mk (.of_bare hbody hk.2)

theorem CopyMethods.of_bare : ∀ {fs fs' : List Function},
    bareMethods fs' = bareMethods (movedMethods k fs) → (∀ id ∈ methodIds fs, shift id = k) →
    CopyMethods (.free shift) fs fs'
  | [], fs', h, _ => by
    cases fs' <;> simp [movedMethods, bareMethods] at h
    exact .nil
  | f :: fs, fs', h, hk => by
    rw [methodIds_cons, List.forall_mem_append] at hk
    cases fs' <;> simp [movedMethods, bareMethods] at h
    exact .cons (.of_bare h.1 hk.1) (.of_bare h.2 hk.2)

end

end Bare

end LoxLang
