import LoxLang.Proofs.Scope.Spelling
import LoxLang.Proofs.Scope.Table
import LoxLang.Tree.Walk

/-!
# The layers around a site

The scopes around a place are layered in one way only: blocks and functions, whose scopes have no
implicit names, and methods, each inside the scope of `this` of its class, which lies directly inside
the scope of `super` if the class extends another one.  In a program without a problem, `this` and
`super` refer to the innermost class around them, and `super` is used in classes that extend another
one only.

Principal results: `Layers.distance_this`, `Layers.distance_super`, `programSites_stands`.
-/

namespace LoxLang

/-- A scope without implicit names. -/
def PlainScope (scope : Bindings Bool) : Prop :=
  scope.contains "this" = false ∧ scope.contains "super" = false

/-- The constructs around a place with their scopes, and the innermost class among them. -/
inductive Layers : ClassContext → List Construct → List (Bindings Bool) → Prop where
  | top : Layers .none [] []
  | block {context : ClassContext} {cs : List Construct} {scope : Bindings Bool}
      {scopes : List (Bindings Bool)} {id : Nat} :
      PlainScope scope → Layers context cs scopes → Layers context (.block id :: cs) (scope :: scopes)
  | function {context : ClassContext} {cs : List Construct} {scope : Bindings Bool}
      {scopes : List (Bindings Bool)} {id : Nat} :
      PlainScope scope → Layers context cs scopes →
      Layers context (.routine id :: cs) (scope :: scopes)
  | method {outer : ClassContext} {cs : List Construct} {scope : Bindings Bool}
      {scopes : List (Bindings Bool)} {id classId : Nat} {methods : List Function} :
      PlainScope scope → Layers outer cs scopes →
      Layers .plain (.routine id :: .receiver classId methods :: cs)
        (scope :: Bindings.empty.put "this" true :: scopes)
  | submethod {outer : ClassContext} {cs : List Construct} {scope : Bindings Bool}
      {scopes : List (Bindings Bool)} {id classId : Nat} {methods : List Function} :
      PlainScope scope → Layers outer cs scopes →
      Layers .subclass (.routine id :: .receiver classId methods :: .base classId :: cs)
        (scope :: Bindings.empty.put "this" true :: Bindings.empty.put "super" true :: scopes)

theorem PlainScope.empty : PlainScope .empty := ⟨rfl, rfl⟩

theorem PlainScope.put {scope : Bindings Bool} (h : PlainScope scope) {name : String}
    (hname : name ≠ "this" ∧ name ≠ "super") (b : Bool) : PlainScope (scope.put name b) := by
  obtain ⟨hthis, hsuper⟩ := h
  unfold Bindings.contains at hthis hsuper
  constructor
  · rw [Bindings.contains, Bindings.find?_put, if_neg hname.1]
    exact hthis
  · rw [Bindings.contains, Bindings.find?_put, if_neg hname.2]
    exact hsuper

namespace Layers

variable {context : ClassContext} {cs : List Construct} {scopes : List (Bindings Bool)}

/-- Names are put into scopes of blocks and functions. -/
theorem markIn (h : Layers context cs scopes) {name : String}
    (hname : name ≠ "this" ∧ name ≠ "super") (b : Bool) :
    Layers context cs (LoxLang.markIn name b scopes) := by
  cases h with
  | top => exact .top
  | block hscope h => exact .block (hscope.put hname b) h
  | function hscope h => exact .function (hscope.put hname b) h
  | method hscope h => exact .method (hscope.put hname b) h
  | submethod hscope h => exact .submethod (hscope.put hname b) h

theorem markAll {names : List String} : ∀ {scopes : List (Bindings Bool)}, Layers context cs scopes →
    (∀ name ∈ names, name ≠ "this" ∧ name ≠ "super") →
    Layers context cs (LoxLang.markAll names scopes) := by
  induction names with
  | nil => exact fun h _ => h
  | cons name names ih =>
    intro scopes h hnames
    obtain ⟨hname, hnames⟩ := List.forall_mem_cons.1 hnames
    exact ih (h.markIn hname true) hnames

theorem distance?_cons_of_plain {scope : Bindings Bool} {name : String}
    (h : scope.contains name = false) (scopes : List (Bindings Bool)) :
    distance? name (scope :: scopes) = (distance? name scopes).map (· + 1) := by
  simp [distance?, h]

/-- The innermost class around a place, whose scope of `this` is `d` scopes up. -/
structure Innermost (cs : List Construct) (d id : Nat) (methods : List Function) : Prop where
  found : cs[d]? = some (.receiver id methods)
  first : ∀ e id' methods', e < d → cs[e]? ≠ some (.receiver id' methods')

theorem Innermost.cons {c : Construct} {d id : Nat} {methods : List Function}
    (h : Innermost cs d id methods) (hc : ∀ id' methods', c ≠ .receiver id' methods') :
    Innermost (c :: cs) (d + 1) id methods := by
  refine ⟨h.found, fun e id' methods' he heq => ?_⟩
  cases e with
  | zero =>
    cases heq
    exact hc id' methods' rfl
  | succ e => exact h.first e id' methods' (by omega) heq

theorem Innermost.method {fid id : Nat} {methods : List Function} :
    Innermost (.routine fid :: .receiver id methods :: cs) 1 id methods := by
  refine ⟨rfl, fun e id' methods' he heq => ?_⟩
  obtain rfl : e = 0 := by omega
  cases heq

/-- **Inside a class, `this` refers to the innermost class.** -/
theorem distance_this (h : Layers context cs scopes) (hcontext : context ≠ .none) :
    ∃ d id methods, distance? "this" scopes = some d ∧ Innermost cs d id methods := by
  induction h with
  | top => exact absurd rfl hcontext
  | block hscope _ ih | function hscope _ ih =>
    obtain ⟨d, id, methods, hd, hin⟩ := ih hcontext
    refine ⟨d + 1, id, methods, ?_, hin.cons fun _ _ heq => by cases heq⟩
    rw [distance?_cons_of_plain hscope.1, hd]
    rfl
  | @method _ cs _ _ _ classId methods hscope _ _ =>
    refine ⟨1, classId, methods, ?_, .method⟩
    rw [distance?_cons_of_plain hscope.1]
    simp [distance?, Bindings.contains]
  | @submethod _ cs _ _ _ classId methods hscope _ _ =>
    refine ⟨1, classId, methods, ?_, .method⟩
    rw [distance?_cons_of_plain hscope.1]
    simp [distance?, Bindings.contains]

/-- **Inside a class that extends another one, `super` refers to the scope directly around that of
`this`**, and both belong to the innermost class. -/
theorem distance_super (h : Layers context cs scopes) (hcontext : context = .subclass) :
    ∃ d id methods, distance? "this" scopes = some d ∧ distance? "super" scopes = some (d + 1) ∧
      Innermost cs d id methods ∧ cs[d + 1]? = some (.base id) := by
  induction h with
  | top => cases hcontext
  | block hscope _ ih | function hscope _ ih =>
    obtain ⟨d, id, methods, hthis, hsuper, hin, hbase⟩ := ih hcontext
    refine ⟨d + 1, id, methods, ?_, ?_, hin.cons (fun _ _ heq => by cases heq), hbase⟩
    · rw [distance?_cons_of_plain hscope.1, hthis]
      rfl
    · rw [distance?_cons_of_plain hscope.2, hsuper]
      rfl
  | method => cases hcontext
  | @submethod _ cs _ _ _ classId methods hscope _ _ =>
    refine ⟨1, classId, methods, ?_, ?_, .method, rfl⟩
    · rw [distance?_cons_of_plain hscope.1]
      simp [distance?, Bindings.contains]
    · rw [distance?_cons_of_plain hscope.2]
      simp [distance?, Bindings.contains]

/-- Where `super` is declared, it is ready. -/
theorem super_ready (h : Layers context cs scopes) : ∀ {d : Nat} {scope : Bindings Bool},
    distance? "super" scopes = some d → scopes[d]? = some scope →
    scope.find? "super" = some true := by
  have hthis : (Bindings.empty.put "this" true : Bindings Bool).contains "super" = false := rfl
  induction h with
  | top => intro d scope hd; cases hd
  | block hscope _ ih | function hscope _ ih =>
    intro d scope hd hget
    rw [distance?_cons_of_plain hscope.2] at hd
    obtain ⟨e, he, rfl⟩ := Option.map_eq_some_iff.1 hd
    exact ih he hget
  | method hscope _ ih =>
    intro d scope hd hget
    rw [distance?_cons_of_plain hscope.2, distance?_cons_of_plain hthis] at hd
    obtain ⟨e, he, rfl⟩ := Option.map_eq_some_iff.1 hd
    obtain ⟨e', he', rfl⟩ := Option.map_eq_some_iff.1 he
    exact ih he' hget
  | submethod hscope _ _ =>
    intro d scope hd hget
    rw [distance?_cons_of_plain hscope.2, distance?_cons_of_plain hthis] at hd
    cases hd
    cases hget
    rfl

end Layers

/-! ## Sites -/

/-- Where a reference stands, in a part of a program with these nodes inside these constructs. -/
structure Site.Stands (cs : List Construct) (nodes : List Node) (site : Site) : Prop where
  node : ∃ node ∈ nodes, node.id? = some site.id
  layers : ∃ context, Layers context site.around.constructs site.around.scopes ∧
    (site.use = .super → context = .subclass) ∧ (site.use = .this → context ≠ .none)
  /-- The classes around it hold it among their methods. -/
  classes : ∃ inner, site.around.constructs = inner ++ cs ∧
    ∀ id methods, .receiver id methods ∈ inner →
      (∃ name superclass, .stmt (.classDecl id name superclass methods) ∈ nodes) ∧
      ∃ node ∈ walkMethods methods, node ∈ nodes ∧ node.id? = some site.id

/-- Where the references of a part of a program stand. -/
def Standing.Sites (cs : List Construct) (nodes : List Node) (sites : List Site) : Prop :=
  ∀ site ∈ sites, site.use.isReference = true → site.Stands cs nodes

namespace Standing.Sites

variable {cs : List Construct} {nodes nodes' : List Node} {sites sites' : List Site}

theorem nil : Standing.Sites cs nodes [] := fun _ h => by cases h

theorem mono (h : Standing.Sites cs nodes sites) (hnodes : ∀ node ∈ nodes, node ∈ nodes') :
    Standing.Sites cs nodes' sites := by
  intro site hmem huse
  obtain ⟨⟨node, hnode, hid⟩, hlayers, inner, hinner, hclasses⟩ := h site hmem huse
  refine ⟨⟨node, hnodes node hnode, hid⟩, hlayers, inner, hinner, fun id methods hin => ?_⟩
  obtain ⟨⟨name, superclass, hclass⟩, node', hmethod, hnode', hid'⟩ := hclasses id methods hin
  exact ⟨⟨name, superclass, hnodes _ hclass⟩, node', hmethod, hnodes _ hnode', hid'⟩

theorem append (h : Standing.Sites cs nodes sites) (h' : Standing.Sites cs nodes sites') :
    Standing.Sites cs nodes (sites ++ sites') := by
  intro site hmem
  obtain hmem | hmem := List.mem_append.1 hmem
  · exact h site hmem
  · exact h' site hmem

/-- A declaration is no reference. -/
theorem cons {site : Site} (hsite : site.use.isReference = false)
    (h : Standing.Sites cs nodes sites) : Standing.Sites cs nodes (site :: sites) := by
  intro site' hmem huse
  obtain rfl | hmem := List.mem_cons.1 hmem
  · rw [hsite] at huse
    cases huse
  · exact h site' hmem huse

/-- A reference with no class between it and the constructs. -/
theorem single {site : Site} {context : ClassContext} {node : Node} (hnode : node ∈ nodes)
    (hid : node.id? = some site.id) (hcs : site.around.constructs = cs)
    (hlayers : Layers context cs site.around.scopes)
    (hsuper : site.use = .super → context = .subclass) (hthis : site.use = .this → context ≠ .none) :
    Standing.Sites cs nodes [site] := by
  intro site' hmem _
  obtain rfl := List.mem_singleton.1 hmem
  refine ⟨⟨node, hnode, hid⟩, ⟨context, ?_, hsuper, hthis⟩, [], hcs, fun _ _ h => by cases h⟩
  rw [hcs]
  exact hlayers

/-- Inside a scope that no class opens. -/
theorem inside {c : Construct} (h : Standing.Sites (c :: cs) nodes sites)
    (hc : ∀ id methods, c ≠ .receiver id methods) : Standing.Sites cs nodes sites := by
  intro site hmem huse
  obtain ⟨hnode, hlayers, inner, hinner, hclasses⟩ := h site hmem huse
  refine ⟨hnode, hlayers, inner ++ [c], by simpa using hinner, fun id methods hin => ?_⟩
  obtain hin | hin := List.mem_append.1 hin
  · exact hclasses id methods hin
  · exact absurd (List.mem_singleton.1 hin).symm (hc id methods)

/-- Among the methods of a class. -/
theorem inClass {id : Nat} {name : Token} {superclass : Option Superclass}
    {methods : List Function}
    (h : Standing.Sites (classConstructs id superclass methods ++ cs) (walkMethods methods) sites)
    (hclass : .stmt (.classDecl id name superclass methods) ∈ nodes)
    (hnodes : ∀ node ∈ walkMethods methods, node ∈ nodes) : Standing.Sites cs nodes sites := by
  intro site hmem huse
  obtain ⟨⟨node, hnode, hid⟩, hlayers, inner, hinner, hclasses⟩ := h site hmem huse
  refine ⟨⟨node, hnodes node hnode, hid⟩, hlayers, inner ++ classConstructs id superclass methods,
    by rw [hinner, List.append_assoc], fun id' methods' hin => ?_⟩
  obtain hin | hin := List.mem_append.1 hin
  · obtain ⟨⟨name', superclass', hclass'⟩, node', hmethod, hnode', hid'⟩ := hclasses id' methods' hin
    exact ⟨⟨name', superclass', hnodes _ hclass'⟩, node', hmethod, hnodes _ hnode', hid'⟩
  · have heq : Construct.receiver id' methods' = .receiver id methods := by
      cases superclass <;> simpa [classConstructs] using hin
    cases heq
    exact ⟨⟨name, superclass, hclass⟩, node, hnode, hnodes node hnode, hid⟩

end Standing.Sites

section

open Resolution

variable {P : Token → Prop}

mutual

theorem exprSites_stands {cs : List Construct} (init : Option Declared) {r : Resolution}
    (hl : Layers r.enclosing cs r.scopes) : ∀ e : Expr, (r.expr e).found = [] →
    Standing.Sites cs e.walk (exprSites cs init r e)
  | .literal .., _ => .nil
  | .grouping _ inner, hf =>
    (exprSites_stands init hl inner hf).mono fun _ => List.mem_cons_of_mem _
  | .unary _ _ operand, hf =>
    (exprSites_stands init hl operand hf).mono fun _ => List.mem_cons_of_mem _
  | .binary _ left _ right, hf => by
    have hleft := r.expr_passed left
    refine .append ((exprSites_stands init hl left (found_eq_nil (expr_passed _ right) hf)).mono ?_)
      ((exprSites_stands (r := r.expr left) init ?_ right hf).mono ?_)
    · simp +contextual [Expr.walk]
    · rw [hleft.enclosing, hleft.scopes]
      exact hl
    · simp +contextual [Expr.walk]
  | .logical _ left _ right, hf => by
    have hleft := r.expr_passed left
    refine .append ((exprSites_stands init hl left (found_eq_nil (expr_passed _ right) hf)).mono ?_)
      ((exprSites_stands (r := r.expr left) init ?_ right hf).mono ?_)
    · simp +contextual [Expr.walk]
    · rw [hleft.enclosing, hleft.scopes]
      exact hl
    · simp +contextual [Expr.walk]
  | .var id name, _ =>
    .single (List.mem_singleton.2 rfl) rfl rfl hl (fun h => by cases h) fun h => by cases h
  | .assign id name value, hf => by
    refine .append ((exprSites_stands init hl value (found_eq_nil (refer_passed _ id name) hf)).mono
      fun _ => List.mem_cons_of_mem _) ?_
    have hl' : Layers r.enclosing cs (r.expr value).scopes := by
      rw [(r.expr_passed value).scopes]
      exact hl
    exact .single (List.mem_cons_self ..) rfl rfl hl' (fun h => by cases h) fun h => by cases h
  | .call _ callee _ args, hf => by
    have hcallee := r.expr_passed callee
    refine .append ((exprSites_stands init hl callee (found_eq_nil (args_passed _ args) hf)).mono ?_)
      ((argSites_stands (r := r.expr callee) init ?_ args hf).mono ?_)
    · simp +contextual [Expr.walk]
    · rw [hcallee.enclosing, hcallee.scopes]
      exact hl
    · simp +contextual [Expr.walk]
  | .get _ object _, hf =>
    (exprSites_stands init hl object hf).mono fun _ => List.mem_cons_of_mem _
  | .set _ object _ value, hf => by
    have hvalue := r.expr_passed value
    refine .append ((exprSites_stands init hl value (found_eq_nil (expr_passed _ object) hf)).mono ?_)
      ((exprSites_stands (r := r.expr value) init ?_ object hf).mono ?_)
    · simp +contextual [Expr.walk]
    · rw [hvalue.enclosing, hvalue.scopes]
      exact hl
    · simp +contextual [Expr.walk]
  | .this id keyword, hf => by
    refine .single (List.mem_singleton.2 rfl) rfl rfl hl (fun h => by cases h) fun _ hnone => ?_
    rw [Resolution.expr, if_pos hnone] at hf
    simp [note] at hf
  | .super id keyword method, hf =>
    .single (List.mem_singleton.2 rfl) rfl rfl hl (fun _ => checkSuper_found hf)
      fun h => by cases h

theorem argSites_stands {cs : List Construct} (init : Option Declared) {r : Resolution}
    (hl : Layers r.enclosing cs r.scopes) : ∀ args : List Expr, (r.args args).found = [] →
    Standing.Sites cs (walkArgs args) (argSites cs init r args)
  | [], _ => .nil
  | e :: es, hf => by
    have hpassed := r.expr_passed e
    refine .append ((exprSites_stands init hl e (found_eq_nil (args_passed _ es) hf)).mono ?_)
      ((argSites_stands (r := r.expr e) init ?_ es hf).mono ?_)
    · simp +contextual [walkArgs]
    · rw [hpassed.enclosing, hpassed.scopes]
      exact hl
    · simp +contextual [walkArgs]

end

theorem parameterSites_stands {cs : List Construct} {nodes : List Node} (id : Nat) :
    ∀ (params : List Token) (r : Resolution),
    Standing.Sites cs nodes (parameterSites cs id r params)
  | [], _ => .nil
  | _ :: names, _ => .cons rfl (parameterSites_stands id names _)

theorem superclassSites_stands {cs : List Construct} {r : Resolution} {nodes : List Node}
    (hl : Layers r.enclosing cs r.scopes) {name : Token}
    (hname : name.lexeme ≠ "this" ∧ name.lexeme ≠ "super") : ∀ superclass : Option Superclass,
    (∀ s ∈ superclass, .expr s.toExpr ∈ nodes) →
    Standing.Sites cs nodes (superclassSites cs r name superclass)
  | none, _ => .nil
  | some s, hnodes => by
    have hl' : Layers r.enclosing cs ((r.declare name).define name).scopes := by
      rw [(r.declare_define_passed name).scopes]
      exact hl.markIn hname true
    exact .single (hnodes s rfl) rfl rfl hl' (fun h => by cases h) fun h => by cases h

mutual

/-- **Where the references of a statement stand.** -/
theorem stmtSites_stands (hP : ∀ t, P t → t.Genuine) {cs : List Construct} {r : Resolution}
    (hl : Layers r.enclosing cs r.scopes) : ∀ s : Stmt, s.Proper P → (r.stmt s).found = [] →
    Standing.Sites cs s.walk (stmtSites cs r s)
  | .malformed, h, _ => h.elim
  | .expression _ value, _, hf =>
    (exprSites_stands none hl value hf).mono fun _ => List.mem_cons_of_mem _
  | .print _ value, _, hf =>
    (exprSites_stands none hl value hf).mono fun _ => List.mem_cons_of_mem _
  | .declare _ name none, _, _ => .cons rfl .nil
  | .declare id name (some value), h, hf => by
    obtain ⟨_, henclosing, _⟩ := r.declare_keeps name
    obtain ⟨_, _, hfound, _⟩ := ((r.declare name).expr value).mark_routine name.lexeme true
    have hf' : ((r.declare name).expr value).found = [] := hfound ▸ hf
    refine .cons rfl ((exprSites_stands (r := r.declare name) (some ⟨id, name.lexeme⟩) ?_ value
      hf').mono fun _ => List.mem_cons_of_mem _)
    rw [henclosing, declare_scopes]
    exact hl.markIn ((hP name h.1.2).identifier h.1.1) false
  | .block id body, h, hf => by
    refine (Standing.Sites.inside (bodySites_stands hP (r := r.openScope) (.block .empty hl) body h
      hf) fun _ _ heq => by cases heq).mono fun _ => List.mem_cons_of_mem _
  | .conditional _ cond thenBranch none, h, hf => by
    have hcond := r.expr_passed cond
    refine .append ((exprSites_stands none hl cond (found_eq_nil (stmt_passed _ thenBranch) hf)).mono
      ?_) ((stmtSites_stands hP (r := r.expr cond) ?_ thenBranch h.2.1 hf).mono ?_)
    · simp +contextual [Stmt.walk]
    · rw [hcond.enclosing, hcond.scopes]
      exact hl
    · simp +contextual [Stmt.walk]
  | .conditional _ cond thenBranch (some elseBranch), h, hf => by
    have hcond := r.expr_passed cond
    have hthen := (r.expr cond).stmt_passed thenBranch
    rw [h.2.1.1.declared_eq_nil h.2.1.2] at hthen
    have hf' := found_eq_nil (stmt_passed _ elseBranch) hf
    have hl₁ : Layers (r.expr cond).enclosing cs (r.expr cond).scopes := by
      rw [hcond.enclosing, hcond.scopes]
      exact hl
    refine .append (.append
      ((exprSites_stands none hl cond (found_eq_nil (stmt_passed _ thenBranch) hf')).mono ?_)
      ((stmtSites_stands hP hl₁ thenBranch h.2.1.1 hf').mono ?_))
      ((stmtSites_stands hP (r := (r.expr cond).stmt thenBranch) ?_ elseBranch h.2.2.1 hf).mono ?_)
    · simp +contextual [Stmt.walk]
    · simp +contextual [Stmt.walk]
    · rw [hthen.enclosing, hthen.scopes]
      exact hl₁
    · simp +contextual [Stmt.walk]
  | .loop _ cond body, h, hf => by
    have hcond := r.expr_passed cond
    refine .append ((exprSites_stands none hl cond (found_eq_nil (stmt_passed _ body) hf)).mono ?_)
      ((stmtSites_stands hP (r := r.expr cond) ?_ body h.2.1 hf).mono ?_)
    · simp +contextual [Stmt.walk]
    · rw [hcond.enclosing, hcond.scopes]
      exact hl
    · simp +contextual [Stmt.walk]
  | .function decl, h, hf => by
    have hdeclared := r.declare_define_passed decl.name
    have hname := (ProperFunction.name h)
    refine .cons rfl (functionSites_stands hP (fun fid scope hscope => ?_) .function decl h hf)
    rw [hdeclared.enclosing, hdeclared.scopes]
    exact .function hscope (hl.markIn ((hP _ hname.2).identifier hname.1) true)
  | .ret _ _ none, _, _ => .nil
  | .ret _ keyword (some value), _, hf => by
    have hreturn := r.checkReturn_passed keyword true
    refine (exprSites_stands (r := r.checkReturn keyword true) none ?_ value hf).mono
      fun _ => List.mem_cons_of_mem _
    rw [hreturn.enclosing, hreturn.scopes]
    exact hl
  | .classDecl id name superclass methods, h, hf => by
    have hname := (hP name h.1.2).identifier h.1.1
    obtain ⟨_, _, henclosing⟩ := r.enterClass_keeps name superclass
    obtain ⟨_, _, hfound, _⟩ :=
      ((r.enterClass name superclass).methods methods).leaveClass_keeps superclass r.enclosing
    have hf' : ((r.enterClass name superclass).methods methods).found = [] := hfound ▸ hf
    have hlayers : ∀ fid scope, PlainScope scope →
        Layers (r.enterClass name superclass).enclosing
          (.routine fid :: (classConstructs id superclass methods ++ cs))
          (scope :: (r.enterClass name superclass).scopes) := by
      intro fid scope hscope
      rw [henclosing, enterClass_scopes]
      cases superclass with
      | none => exact .method hscope (hl.markIn hname true)
      | some s => exact .submethod hscope (hl.markIn hname true)
    have hclass : .stmt (.classDecl id name superclass methods) ∈
        (Stmt.classDecl id name superclass methods).walk := Stmt.mem_walk_self (by simp)
    refine .cons rfl (.append (superclassSites_stands hl hname superclass fun s hs => ?_)
      (Standing.Sites.inClass (methodSites_stands hP hlayers methods h.2.2 hf') hclass ?_))
    · obtain rfl : superclass = some s := hs
      simp [Stmt.walk, Superclass.toExpr, Expr.walk]
    · exact fun node hmem => Stmt.walkMethods_subset_walk hmem

theorem bodySites_stands (hP : ∀ t, P t → t.Genuine) {cs : List Construct} {r : Resolution}
    (hl : Layers r.enclosing cs r.scopes) : ∀ body : List Stmt, ProperBody P body →
    (r.body body).found = [] → Standing.Sites cs (walkBody body) (bodySites cs r body)
  | [], _, _ => .nil
  | s :: ss, h, hf => by
    have hpassed := r.stmt_passed s
    refine .append ((stmtSites_stands hP hl s h.1 (found_eq_nil (body_passed _ ss) hf)).mono ?_)
      ((bodySites_stands hP (r := r.stmt s) ?_ ss h.2 hf).mono ?_)
    · simp +contextual [walkBody]
    · rw [hpassed.enclosing, hpassed.scopes]
      refine hl.markAll fun name hmem => ?_
      obtain ⟨t, hproper, rfl⟩ := h.1.declared_name name hmem
      exact (hP t hproper.2).identifier hproper.1
    · simp +contextual [walkBody]

theorem functionSites_stands (hP : ∀ t, P t → t.Genuine) {cs : List Construct} {r : Resolution}
    (hl : ∀ fid scope, PlainScope scope →
      Layers r.enclosing (.routine fid :: cs) (scope :: r.scopes)) (routine : Routine) :
    ∀ f : Function, ProperFunction P f → (r.function routine f).found = [] →
    Standing.Sites cs (walkFunction f) (functionSites cs r routine f)
  | ⟨id, name, params, body⟩, h, hf => by
    obtain ⟨hscopes, henclosing, _⟩ := parameters_keeps params { r with routine }.openScope
    refine .append (.inside (parameterSites_stands id params _) fun _ _ heq => by cases heq) ?_
    refine (Standing.Sites.inside (bodySites_stands hP ?_ body h.2.2 hf)
      fun _ _ heq => by cases heq).mono fun _ => List.mem_cons_of_mem _
    rw [henclosing, hscopes]
    refine Layers.markAll (hl id .empty .empty) fun param hmem => ?_
    obtain ⟨t, ht, rfl⟩ := List.mem_map.1 hmem
    have hparam := h.2.1.1 t ht
    exact (hP t hparam.2).identifier hparam.1

theorem methodSites_stands (hP : ∀ t, P t → t.Genuine) {cs : List Construct} {r : Resolution}
    (hl : ∀ fid scope, PlainScope scope →
      Layers r.enclosing (.routine fid :: cs) (scope :: r.scopes)) :
    ∀ methods : List Function, ProperMethods P methods → (r.methods methods).found = [] →
    Standing.Sites cs (walkMethods methods) (methodSites cs r methods)
  | [], _, _ => .nil
  | f :: fs, h, hf => by
    have hpassed := r.function_passed (methodRoutine f.name) f
    refine .append ((functionSites_stands hP hl _ f h.1
      (found_eq_nil (methods_passed _ fs) hf)).mono ?_)
      ((methodSites_stands hP (r := r.function (methodRoutine f.name) f) ?_ fs h.2 hf).mono ?_)
    · simp +contextual [walkMethods]
    · rw [hpassed.enclosing, hpassed.scopes]
      exact hl
    · simp +contextual [walkMethods]

end

/-- **Where the references of a program stand.** -/
theorem programSites_stands (hP : ∀ t, P t → t.Genuine) {stmts : List Stmt}
    (h : ProperBody P stmts) (hf : (Resolution.ofProgram stmts).found = []) :
    Standing.Sites [] (walkBody stmts) (programSites stmts) :=
  bodySites_stands hP .top stmts h hf

end

end LoxLang
