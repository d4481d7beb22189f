import LoxLang.Proofs.Run.Pairing
import LoxLang.Proofs.Scope.Table
import LoxLang.Proofs.Token.Words
import LoxLang.Proofs.Tree.Proper

/-!
# Resolved programs

A proper program that is resolved without a problem is alike to its respelling, provided that its
references are filed in both tables and that the spelling leaves the names of functions and classes
alone.  The problems that the pass looks for are just what could go wrong: a variable that is read
in its own initializer, `this` and `super` where nothing binds them, a class that extends itself.

Principal results: `alike_expr`, `alike_stmt`, `alike_program`.
-/

namespace LoxLang

/-! ## The shape of surroundings -/

/-- Every scope has its construct, a name that is not defined yet is that of the variable whose
initializer this is, and the methods of a subclass lie inside the scopes of their class. -/
structure Surroundings.Shaped (p : Surroundings) (enclosing : ClassContext) : Prop where
  length : p.constructs.length = p.scopes.length
  pending : ∀ (d : Nat) scope name, p.scopes[d]? = some scope → scope.find? name = some false →
    d = 0 ∧ name ≠ "this" ∧ ∃ decl, p.initializing = some decl ∧ decl.name = name
  subclass : enclosing = .subclass → p.InSubclass

namespace Surroundings

variable {p : Surroundings} {enclosing : ClassContext} {name : String}

theorem InSubclass.mark (h : p.InSubclass) (defined : Bool) (hthis : name ≠ "this")
    (hsuper : name ≠ "super") (init : Option Declared) :
    InSubclass ⟨p.constructs, markIn name defined p.scopes, init⟩ := by
  obtain ⟨d, scope, id, id', methods, hd, hscope, hfind, hreceiver, hbase⟩ := h
  obtain ⟨scope', hscope', hsame⟩ := getElem?_markIn name defined hscope
  refine ⟨d, scope', id, id', methods, ?_, hscope', ?_, hreceiver, hbase⟩
  · rw [← hd]
    exact distance?_markIn_of_ne defined hsuper.symm p.scopes
  · rw [hsame _ hthis.symm]
    exact hfind

theorem InSubclass.enter (h : p.InSubclass) (c : Construct) : (p.enter c).InSubclass := by
  obtain ⟨d, scope, id, id', methods, hd, hscope, hfind, hreceiver, hbase⟩ := h
  refine ⟨d + 1, scope, id, id', methods, ?_, hscope, hfind, hreceiver, hbase⟩
  have hempty : (Bindings.empty : Bindings Bool).contains "super" = false := rfl
  simp only [Surroundings.enter, distance?, hempty, hd]
  rfl

namespace Shaped

theorem outermost : outermost.Shaped .none :=
  ⟨rfl, fun _ _ _ hscope => (by cases hscope), fun h => by cases h⟩

theorem mark (h : p.Shaped enclosing) (hthis : name ≠ "this") (hsuper : name ≠ "super") :
    (p.mark name true).Shaped enclosing where
  length := h.length.trans (markIn_length _ _ _).symm
  pending := by
    intro d scope' other hscope' hother
    cases hscopes : p.scopes with
    | nil => simp [Surroundings.mark, hscopes, markIn] at hscope'
    | cons scope outer =>
      simp only [Surroundings.mark, hscopes, markIn] at hscope'
      cases d with
      | zero =>
        cases hscope'
        rw [Bindings.find?_put] at hother
        split at hother
        · cases hother
        · exact h.pending 0 scope other (by rw [hscopes]; rfl) hother
      | succ d => exact h.pending (d + 1) scope' other (by rw [hscopes]; exact hscope') hother
  subclass henclosing := (h.subclass henclosing).mark true hthis hsuper p.initializing

theorem markAll {names : List String} : ∀ {p : Surroundings}, p.Shaped enclosing →
    (∀ name ∈ names, name ≠ "this" ∧ name ≠ "super") →
    Shaped ⟨p.constructs, LoxLang.markAll names p.scopes, p.initializing⟩ enclosing := by
  induction names with
  | nil => exact fun h _ => h
  | cons name names ih =>
    intro p h hnames
    obtain ⟨⟨hthis, hsuper⟩, hnames⟩ := List.forall_mem_cons.1 hnames
    exact ih (h.mark hthis hsuper) hnames

theorem initializer (h : p.Shaped enclosing) (hinit : p.initializing = none) (id : Nat)
    (hthis : name ≠ "this") (hsuper : name ≠ "super") :
    (p.initializer id name).Shaped enclosing where
  length := h.length.trans (markIn_length _ _ _).symm
  pending := by
    have hnone : ∀ (d : Nat) scope other, p.scopes[d]? = some scope →
        scope.find? other ≠ some false := by
      intro d scope other hscope hother
      obtain ⟨_, _, decl, hdecl, _⟩ := h.pending d scope other hscope hother
      rw [hinit] at hdecl
      cases hdecl
    intro d scope' other hscope' hother
    cases hscopes : p.scopes with
    | nil => simp [Surroundings.initializer, hscopes, markIn] at hscope'
    | cons scope outer =>
      simp only [Surroundings.initializer, hscopes, markIn] at hscope'
      cases d with
      | zero =>
        cases hscope'
        rw [Bindings.find?_put] at hother
        split at hother
        · rename_i heq
          subst heq
          exact ⟨rfl, hthis, _, rfl, rfl⟩
        · exact absurd hother (hnone 0 scope other (by rw [hscopes]; rfl))
      | succ d =>
        exact absurd hother (hnone (d + 1) scope' other (by rw [hscopes]; exact hscope'))
  subclass henclosing := (h.subclass henclosing).mark false hthis hsuper _

/-- A new scope whose names are all defined. -/
theorem push {c : Construct} {scope : Bindings Bool} (h : p.Shaped enclosing)
    (hinit : p.initializing = none) (hscope : ∀ name, scope.find? name ≠ some false)
    {enclosing' : ClassContext}
    (hsubclass : enclosing' = .subclass →
      InSubclass ⟨c :: p.constructs, scope :: p.scopes, none⟩) :
    Shaped ⟨c :: p.constructs, scope :: p.scopes, none⟩ enclosing' where
  length := by simp [h.length]
  pending := by
    intro d scope' name hscope' hname
    cases d with
    | zero =>
      cases hscope'
      exact absurd hname (hscope name)
    | succ d =>
      obtain ⟨_, _, decl, hdecl, _⟩ := h.pending d scope' name hscope' hname
      rw [hinit] at hdecl
      cases hdecl
  subclass := hsubclass

theorem enter (h : p.Shaped enclosing) (hinit : p.initializing = none) (c : Construct) :
    (p.enter c).Shaped enclosing :=
  h.push hinit (fun _ hname => by cases hname) fun hsub => (h.subclass hsub).enter c

theorem inRoutine (h : p.Shaped enclosing) (hinit : p.initializing = none) (id : Nat)
    {params : List Token}
    (hparams : ∀ t ∈ params, t.lexeme ≠ "this" ∧ t.lexeme ≠ "super") :
    (p.inRoutine id params).Shaped enclosing := by
  refine (h.enter hinit (.routine id)).markAll fun name hmem => ?_
  obtain ⟨t, ht, rfl⟩ := List.mem_map.1 hmem
  exact hparams t ht

theorem inClass (h : p.Shaped enclosing) (hinit : p.initializing = none) (id : Nat)
    (superclass : Option Superclass) (methods : List Function) :
    (p.inClass id superclass methods).Shaped
      (if superclass.isSome then .subclass else .plain) := by
  have hthis : ∀ name, (Bindings.empty.put "this" true).find? name ≠ some false := by
    intro name hname
    rw [Bindings.find?_put] at hname
    split at hname <;> cases hname
  cases superclass with
  | none => exact h.push hinit hthis fun hsub => by cases hsub
  | some s =>
    have hbase : Shaped ⟨.base id :: p.constructs, Bindings.empty.put "super" true :: p.scopes,
        none⟩ ClassContext.plain := by
      refine h.push hinit (fun name hname => ?_) fun hsub => by cases hsub
      rw [Bindings.find?_put] at hname
      split at hname <;> cases hname
    refine hbase.push rfl hthis fun _ => ?_
    refine ⟨0, _, id, id, methods, ?_, rfl, by simp, rfl, rfl⟩
    simp [distance?, Bindings.contains]

/-- A name whose initializer is not being passed can be read. -/
theorem readable (h : p.Shaped enclosing) {r : Resolution} (hscopes : r.scopes = p.scopes)
    (hpending : r.isPending name = false) : p.Readable name := by
  intro d scope hd hscope
  obtain ⟨b, hb⟩ := find?_of_distance? hd hscope
  cases b with
  | true => exact hb
  | false =>
    obtain ⟨rfl, _⟩ := h.pending d scope name hscope hb
    unfold Resolution.isPending at hpending
    rw [hscopes] at hpending
    cases hs : p.scopes with
    | nil => rw [hs] at hscope; cases hscope
    | cons first outer =>
      rw [hs] at hscope hpending
      cases hscope
      simp [hb] at hpending

theorem writable (h : p.Shaped enclosing) (name : String) : p.Writable name := by
  intro d scope hd hscope
  obtain ⟨b, hb⟩ := find?_of_distance? hd hscope
  cases b with
  | true => exact .inl hb
  | false =>
    obtain ⟨hzero, _, hdecl⟩ := h.pending d scope name hscope hb
    exact .inr ⟨hzero, hdecl⟩

theorem readable_this (h : p.Shaped enclosing) : p.Readable "this" := by
  intro d scope hd hscope
  obtain ⟨b, hb⟩ := find?_of_distance? hd hscope
  cases b with
  | true => exact hb
  | false => exact absurd rfl (h.pending d scope "this" hscope hb).2.1

end Shaped

end Surroundings

/-! ## Expressions -/

namespace Pairing

variable (K : Pairing)

/-- A reference that is filed in both tables. -/
structure Filed (site : Site) : Prop where
  known : K.Known site
  table : K.table[site.id]? = site.distance?
  table' : K.table'[site.id]? = site.distance?

/-- References are filed, and functions and classes keep their names. -/
def Covers (sites : List Site) : Prop :=
  ∀ site ∈ sites, (site.use.isReference = true → K.Filed site) ∧
    (site.use = .functionName ∨ site.use = .className →
      K.spellIn site.around.constructs.head? site.name.lexeme = site.name.lexeme)

variable {K} {P : Token → Prop}

theorem covers_append {sites sites' : List Site} :
    K.Covers (sites ++ sites') ↔ K.Covers sites ∧ K.Covers sites' :=
  List.forall_mem_append

theorem covers_cons {site : Site} {sites : List Site} :
    K.Covers (site :: sites) ↔ K.Covers [site] ∧ K.Covers sites := by
  rw [← covers_append]
  rfl

theorem Covers.filed {site : Site} (h : K.Covers [site]) (huse : site.use.isReference = true) :
    K.Filed site :=
  (h site (by simp)).1 huse

/-- A reference and its respelling. -/
theorem Filed.refers {use : Use} {id : Nat} {name : Token} {p : Surroundings}
    (h : K.Filed ⟨use, id, name, p⟩) (hname : K.IsName name.lexeme) :
    K.Refers ⟨use, id, name, p⟩ (K.reference p name) :=
  ⟨h.known, h.table, h.table', hname, rfl, rfl⟩

end Pairing

section Resolved

open Resolution

variable {K : Pairing} {P : Token → Prop}

mutual

/-- **A resolved expression is alike to its respelling.** -/
theorem alike_expr (hP : K.Suits P) {p : Surroundings} {r : Resolution}
    (hp : p.Shaped r.enclosing) (hs : r.scopes = p.scopes) : ∀ e : Expr, e.Proper P →
    (r.expr e).found = [] → K.Covers (exprSites p.constructs p.initializing r e) →
    AlikeExpr K p e (K.expr p e)
  | .literal .., _, _, _ => .literal
  | .grouping _ inner, he, hf, hc => .grouping (alike_expr hP hp hs inner he hf hc)
  | .unary _ _ operand, he, hf, hc =>
    .unary ⟨rfl, rfl, he.1.1⟩ (alike_expr hP hp hs operand he.2 hf hc)
  | .binary _ left _ right, he, hf, hc => by
    obtain ⟨hcleft, hcright⟩ := Pairing.covers_append.1 hc
    have hleft := r.expr_passed left
    exact .binary
      (alike_expr hP hp hs left he.1 (found_eq_nil (expr_passed _ right) hf) hcleft)
      ⟨rfl, rfl, he.2.1.1⟩
      (alike_expr hP (hleft.enclosing ▸ hp) (hleft.scopes.trans hs) right he.2.2 hf hcright)
  | .logical _ left _ right, he, hf, hc => by
    obtain ⟨hcleft, hcright⟩ := Pairing.covers_append.1 hc
    have hleft := r.expr_passed left
    exact .logical
      (alike_expr hP hp hs left he.1 (found_eq_nil (expr_passed _ right) hf) hcleft) rfl
      (alike_expr hP (hleft.enclosing ▸ hp) (hleft.scopes.trans hs) right he.2.2 hf hcright)
  | .var id name, he, hf, hc => by
    have hfiled := hc.filed rfl
    rw [hs] at hfiled
    exact .var (hfiled.refers (hP.isName name he.2)) (hp.readable hs (read_found hf))
  | .assign id name value, he, hf, hc => by
    obtain ⟨hcvalue, hcsite⟩ := Pairing.covers_append.1 hc
    have hfiled := hcsite.filed rfl
    rw [expr_scopes, hs] at hfiled
    exact .assign (hfiled.refers (hP.isName name he.1.2)) (hp.writable name.lexeme)
      (hP.ne_implicit he.1).2
      (alike_expr hP hp hs value he.2 (found_eq_nil (refer_passed _ id name) hf) hcvalue)
  | .call _ callee _ args, he, hf, hc => by
    obtain ⟨hccallee, hcargs⟩ := Pairing.covers_append.1 hc
    have hcallee := r.expr_passed callee
    exact .call
      (alike_expr hP hp hs callee he.1 (found_eq_nil (args_passed _ args) hf) hccallee) rfl
      (alike_args hP (hcallee.enclosing ▸ hp) (hcallee.scopes.trans hs) args he.2.2.1 hf hcargs)
  | .get _ object _, he, hf, hc => .get (alike_expr hP hp hs object he.1 hf hc) ⟨rfl, rfl⟩
  | .set _ object _ value, he, hf, hc => by
    obtain ⟨hcvalue, hcobject⟩ := Pairing.covers_append.1 hc
    have hvalue := r.expr_passed value
    exact .set
      (alike_expr hP (hvalue.enclosing ▸ hp) (hvalue.scopes.trans hs) object he.1 hf hcobject)
      ⟨rfl, rfl⟩
      (alike_expr hP hp hs value he.2.2 (found_eq_nil (expr_passed _ object) hf) hcvalue)
  | .this id keyword, he, hf, hc => by
    have hthis := (hP.genuine keyword he.2).this he.1
    have hfiled := hc.filed rfl
    rw [hs] at hfiled
    have hrefers := hfiled.refers (hP.isName keyword he.2)
    rw [K.reference_this p hthis] at hrefers
    refine .this hrefers ?_
    rw [hthis]
    exact hp.readable_this
  | .super id keyword method, he, hf, hc => by
    have hsuper := (hP.genuine keyword he.1.2).super he.1.1
    have hfiled := hc.filed rfl
    rw [hs] at hfiled
    have hrefers := hfiled.refers (hP.isName keyword he.1.2)
    rw [K.reference_super p hsuper] at hrefers
    exact .super hrefers hsuper (hp.subclass (checkSuper_found hf)) ⟨rfl, rfl⟩

theorem alike_args (hP : K.Suits P) {p : Surroundings} {r : Resolution}
    (hp : p.Shaped r.enclosing) (hs : r.scopes = p.scopes) : ∀ args : List Expr,
    ProperArgs P args → (r.args args).found = [] →
    K.Covers (argSites p.constructs p.initializing r args) →
    AlikeArgs K p args (K.exprs p args)
  | [], _, _, _ => .nil
  | e :: es, he, hf, hc => by
    obtain ⟨hce, hces⟩ := Pairing.covers_append.1 hc
    have hpassed := r.expr_passed e
    exact .cons (alike_expr hP hp hs e he.1 (found_eq_nil (args_passed _ es) hf) hce)
      (alike_args hP (hpassed.enclosing ▸ hp) (hpassed.scopes.trans hs) es he.2 hf hces)

end

/-! ## Statements -/

theorem Surroundings.Shaped.after (hP : K.Suits P) {p : Surroundings} {enclosing : ClassContext}
    (h : p.Shaped enclosing) {s : Stmt} (hs : s.Proper P) : (p.after s).Shaped enclosing :=
  h.markAll (hs.declared_ne hP)

/-- A declaration and its respelling. -/
theorem Spelling.Suits.declares (hP : K.Suits P) {name : Token} (hname : ProperName P name)
    (p : Surroundings) : K.Declares p name (K.declaration p name) :=
  ⟨hP.isName name hname.2, (hP.ne_implicit hname).2, rfl⟩

/-- A function or class keeps its name. -/
theorem Pairing.Covers.declares (hP : K.Suits P) {use : Use} {id : Nat} {name : Token}
    {p q : Surroundings} (hc : K.Covers [⟨use, id, name, q⟩]) (hq : q.constructs = p.constructs)
    (huse : use = .functionName ∨ use = .className) (hname : ProperName P name) :
    K.Declares p name name :=
  ⟨hP.isName name hname.2, (hP.ne_implicit hname).2,
    by rw [← hq]; exact ((hc _ (List.mem_singleton.2 rfl)).2 huse).symm⟩

theorem alike_superclass (hP : K.Suits P) {p : Surroundings} {r : Resolution}
    (hp : p.Shaped r.enclosing) (hinit : p.initializing = none) (hs : r.scopes = p.scopes)
    {name : Token} (hname : ProperName P name) : ∀ {superclass : Option Superclass},
    (∀ s ∈ superclass, ProperName P s.name) → (r.enterClass name superclass).found = [] →
    K.Covers (superclassSites p.constructs r name superclass) →
    AlikeSuperclass K p name superclass (K.superclass p name superclass)
  | none, _, _, _ => .none
  | some s, hsuper, hf, hc => by
    obtain ⟨hthis, hsup⟩ := hP.ne_implicit hname
    have hdeclared := { r with enclosing := .plain }.declare_define_passed name
    have hfiled := hc.filed rfl
    rw [(r.declare_define_passed name).scopes, markAll_singleton, hs, ← hinit] at hfiled
    have hne := superclass_ne hf
    rw [enterClass_of_ne rfl hne] at hf
    generalize ({ r with enclosing := .plain }.declare name).define name = r₁ at hdeclared hf
    have hs₁ : r₁.scopes = (p.mark name.lexeme true).scopes := by
      rw [hdeclared.scopes, markAll_singleton]
      simp only [hs]
      rfl
    have hreadable := (hp.mark hthis hsup).readable (r := { r₁ with enclosing := .subclass })
      hs₁ (read_found hf)
    exact .some rfl (hfiled.refers (hP.isName _ (hsuper s rfl).2)) hreadable hne

mutual

/-- **A resolved statement is alike to its respelling.** -/
theorem alike_stmt (hP : K.Suits P) {p : Surroundings} {r : Resolution}
    (hp : p.Shaped r.enclosing) (hinit : p.initializing = none) (hs : r.scopes = p.scopes) :
    ∀ s : Stmt, s.Proper P → (r.stmt s).found = [] → K.Covers (stmtSites p.constructs r s) →
    AlikeStmt K p s (K.stmt p s)
  | .malformed, h, _, _ => h.elim
  | .expression _ value, h, hf, hc =>
    .expression (alike_expr hP hp hs value h hf (hinit ▸ hc))
  | .print _ value, h, hf, hc => .print (alike_expr hP hp hs value h hf (hinit ▸ hc))
  | .declare _ name none, h, _, _ => .declare (hP.declares h p)
  | .declare id name (some value), h, hf, hc => by
    obtain ⟨_, henclosing, _⟩ := r.declare_keeps name
    obtain ⟨_, _, hfound, _⟩ := ((r.declare name).expr value).mark_routine name.lexeme true
    obtain ⟨hthis, hsuper⟩ := hP.ne_implicit h.1
    have hf' : ((r.declare name).expr value).found = [] := hfound ▸ hf
    refine .declareValue (hP.declares h.1 p) (alike_expr hP ?_ ?_ value h.2 hf' ?_)
    · rw [henclosing]
      exact hp.initializer hinit id hthis hsuper
    · rw [declare_scopes, hs]
      rfl
    · exact (Pairing.covers_cons.1 hc).2
  | .block id body, h, hf, hc => by
    refine .block (alike_body (r := r.openScope) hP (hp.enter hinit _) rfl ?_ body h hf hc)
    simp only [openScope, hs]
    rfl
  | .conditional _ cond thenBranch none, h, hf, hc => by
    obtain ⟨hccond, hcthen⟩ := Pairing.covers_append.1 hc
    have hcond := r.expr_passed cond
    exact .ifThen
      (alike_expr hP hp hs cond h.1 (found_eq_nil (stmt_passed _ thenBranch) hf) (hinit ▸ hccond))
      (alike_stmt hP (hcond.enclosing ▸ hp) hinit (hcond.scopes.trans hs) thenBranch h.2.1 hf
        hcthen)
      (h.2.1.declared_eq_nil h.2.2)
  | .conditional _ cond thenBranch (some elseBranch), h, hf, hc => by
    obtain ⟨hc, hcelse⟩ := Pairing.covers_append.1 hc
    obtain ⟨hccond, hcthen⟩ := Pairing.covers_append.1 hc
    have hcond := r.expr_passed cond
    have hthen := (r.expr cond).stmt_passed thenBranch
    have hdeclared := h.2.1.1.declared_eq_nil h.2.1.2
    have hf' := found_eq_nil (stmt_passed _ elseBranch) hf
    rw [hdeclared] at hthen
    refine .ifElse
      (alike_expr hP hp hs cond h.1 (found_eq_nil (stmt_passed _ thenBranch) hf') (hinit ▸ hccond))
      (alike_stmt hP (hcond.enclosing ▸ hp) hinit (hcond.scopes.trans hs) thenBranch h.2.1.1 hf'
        hcthen)
      hdeclared
      (alike_stmt hP ?_ hinit (hthen.scopes.trans (hcond.scopes.trans hs)) elseBranch h.2.2.1 hf
        hcelse)
      (h.2.2.1.declared_eq_nil h.2.2.2)
    rw [hthen.enclosing, hcond.enclosing]
    exact hp
  | .loop _ cond body, h, hf, hc => by
    obtain ⟨hccond, hcbody⟩ := Pairing.covers_append.1 hc
    have hcond := r.expr_passed cond
    exact .loop
      (alike_expr hP hp hs cond h.1 (found_eq_nil (stmt_passed _ body) hf) (hinit ▸ hccond))
      (alike_stmt hP (hcond.enclosing ▸ hp) hinit (hcond.scopes.trans hs) body h.2.1 hf hcbody)
      (h.2.1.declared_eq_nil h.2.2)
  | .function decl, h, hf, hc => by
    obtain ⟨hcname, hcdecl⟩ := Pairing.covers_cons.1 hc
    have hname := ProperFunction.name h
    obtain ⟨hthis, hsuper⟩ := hP.ne_implicit hname
    have hdeclared := r.declare_define_passed decl.name
    obtain ⟨id, name, params, body⟩ := decl
    refine .function (hcname.declares hP rfl (.inl rfl) hname)
      (alike_function (p := p.mark name.lexeme true) hP ?_ hinit ?_ .function _ h hf hcdecl)
    · rw [hdeclared.enclosing]
      exact hp.mark hthis hsuper
    · rw [hdeclared.scopes, hs]
      rfl
  | .ret _ _ none, _, _, _ => .ret
  | .ret _ keyword (some value), h, hf, hc => by
    have hreturn := r.checkReturn_passed keyword true
    exact .retValue (alike_expr hP (hreturn.enclosing ▸ hp) (hreturn.scopes.trans hs) value h.2 hf
      (hinit ▸ hc))
  | .classDecl id name superclass methods, h, hf, hc => by
    obtain ⟨hcname, hc⟩ := Pairing.covers_cons.1 hc
    obtain ⟨hcsuper, hcmethods⟩ := Pairing.covers_append.1 hc
    obtain ⟨hthis, hsup⟩ := hP.ne_implicit h.1
    obtain ⟨_, _, henclosing⟩ := r.enterClass_keeps name superclass
    obtain ⟨_, _, hfound, _⟩ :=
      ((r.enterClass name superclass).methods methods).leaveClass_keeps superclass r.enclosing
    have hf' : ((r.enterClass name superclass).methods methods).found = [] := hfound ▸ hf
    refine .classDecl (hcname.declares hP rfl (.inr rfl) h.1) rfl
      (alike_superclass hP hp hinit hs h.1 h.2.1 (found_eq_nil (methods_passed _ methods) hf') hcsuper)
      (alike_methods hP ?_ rfl ?_ methods h.2.2 hf' hcmethods)
    · rw [henclosing]
      exact (hp.mark hthis hsup).inClass hinit id superclass methods
    · rw [enterClass_scopes, hs]
      rfl

theorem alike_body (hP : K.Suits P) {p : Surroundings} {r : Resolution}
    (hp : p.Shaped r.enclosing) (hinit : p.initializing = none) (hs : r.scopes = p.scopes) :
    ∀ body : List Stmt, ProperBody P body → (r.body body).found = [] →
    K.Covers (bodySites p.constructs r body) → AlikeBody K p body (K.stmts p body)
  | [], _, _, _ => .nil
  | s :: ss, h, hf, hc => by
    obtain ⟨hcs, hcss⟩ := Pairing.covers_append.1 hc
    have hpassed := r.stmt_passed s
    refine .cons (alike_stmt hP hp hinit hs s h.1 (found_eq_nil (body_passed _ ss) hf) hcs)
      (alike_body (p := p.after s) hP ?_ hinit ?_ ss h.2 hf hcss)
    · rw [hpassed.enclosing]
      exact hp.after hP h.1
    · rw [hpassed.scopes, hs]
      rfl

theorem alike_function (hP : K.Suits P) {p : Surroundings} {r : Resolution}
    (hp : p.Shaped r.enclosing) (hinit : p.initializing = none) (hs : r.scopes = p.scopes)
    (routine : Routine) : ∀ f : Function, ProperFunction P f →
    (r.function routine f).found = [] → K.Covers (functionSites p.constructs r routine f) →
    AlikeFunction K p f (K.function p f)
  | ⟨id, name, params, body⟩, h, hf, hc => by
    obtain ⟨_, hcbody⟩ := Pairing.covers_append.1 hc
    obtain ⟨hscopes, henclosing, _⟩ := parameters_keeps params { r with routine }.openScope
    refine .mk rfl (fun t ht => ?_) ?_ (alike_body hP ?_ rfl ?_ body h.2.2 hf hcbody)
    · exact ⟨hP.isName t (h.2.1.1 t ht).2, (hP.ne_implicit (h.2.1.1 t ht)).2⟩
    · rw [List.map_map]
      rfl
    · rw [henclosing]
      exact hp.inRoutine hinit id fun t ht => hP.ne_implicit (h.2.1.1 t ht)
    · rw [hscopes]
      simp only [openScope, hs]
      rfl

theorem alike_methods (hP : K.Suits P) {p : Surroundings} {r : Resolution}
    (hp : p.Shaped r.enclosing) (hinit : p.initializing = none) (hs : r.scopes = p.scopes) :
    ∀ methods : List Function, ProperMethods P methods → (r.methods methods).found = [] →
    K.Covers (methodSites p.constructs r methods) →
    AlikeMethods K p methods (K.functions p methods)
  | [], _, _, _ => .nil
  | f :: fs, h, hf, hc => by
    obtain ⟨hcf, hcfs⟩ := Pairing.covers_append.1 hc
    have hpassed := r.function_passed (methodRoutine f.name) f
    exact .cons
      (alike_function hP hp hinit hs _ f h.1 (found_eq_nil (methods_passed _ fs) hf) hcf)
      (alike_methods hP (hpassed.enclosing ▸ hp) hinit (hpassed.scopes.trans hs) fs h.2 hf hcfs)

end

/-- **A resolved program is alike to its respelling.** -/
theorem alike_program (hP : K.Suits P) {stmts : List Stmt} (h : ProperBody P stmts)
    (hf : (Resolution.ofProgram stmts).found = []) (hc : K.Covers (programSites stmts)) :
    AlikeBody K .outermost stmts (K.stmts .outermost stmts) :=
  alike_body hP .outermost rfl rfl stmts h hf hc

end Resolved

end LoxLang
