import LoxLang.Proofs.Run.Pairing
import LoxLang.Proofs.Scope.Padded

/-!
# The sites of a resolved tree

A tree that is resolved at a place has its references on record.  So the pass over the tree, from a
state with the scopes of that place on, comes by no reference that is not filed under its distance.

Principal results: `AlikeExpr.seen`, `AlikeStmt.seen`, `AlikeStmt.declared_eq_nil`.
-/

namespace LoxLang

/-- A reference in scopes that it is on record with. -/
def Pairing.Sees (K : Pairing) (site : Site) : Prop :=
  site.use.isReference = true → ∃ p name', K.Refers ⟨site.use, site.id, site.name, p⟩ name' ∧
    p.scopes = site.around.scopes ∧ (site.use = .super → site.name.lexeme = "super")

section

variable {K : Pairing} {cs : List Construct}

/-- A reference that is on record with these scopes. -/
theorem Pairing.Refers.seen {p : Surroundings} {use : Use} {id : Nat} {name name' : Token}
    (h : K.Refers ⟨use, id, name, p⟩ name') {scopes : List (Bindings Bool)} (hr : scopes = p.scopes)
    (huse : use = .super → name.lexeme = "super") {init : Option Declared} :
    ∀ site ∈ [(⟨use, id, name, ⟨cs, scopes, init⟩⟩ : Site)], K.Sees site := by
  rw [List.forall_mem_singleton]
  exact fun _ => ⟨p, name', h, hr.symm, huse⟩

mutual

theorem AlikeExpr.seen {p : Surroundings} {init : Option Declared} : ∀ {e e' : Expr},
    AlikeExpr K p e e' → ∀ {r : Resolution}, r.scopes = p.scopes →
    ∀ site ∈ exprSites cs init r e, K.Sees site
  | _, _, .literal, _, _ => fun _ hmem => by cases hmem
  | _, _, .grouping he, _, hr => he.seen hr
  | _, _, .unary _ he, _, hr => he.seen hr
  | _, _, .binary ha _ hb, r, hr => by
    rw [exprSites, List.forall_mem_append]
    exact ⟨ha.seen hr, hb.seen ((r.expr_scopes _).trans hr)⟩
  | _, _, .logical ha _ hb, r, hr => by
    rw [exprSites, List.forall_mem_append]
    exact ⟨ha.seen hr, hb.seen ((r.expr_scopes _).trans hr)⟩
  | _, _, .var hrefers _, _, hr => hrefers.seen hr fun h => by cases h
  | _, _, .assign hrefers _ _ he, r, hr => by
    rw [exprSites, List.forall_mem_append]
    exact ⟨he.seen hr, hrefers.seen ((r.expr_scopes _).trans hr) fun h => by cases h⟩
  | _, _, .call hf _ hargs, r, hr => by
    rw [exprSites, List.forall_mem_append]
    exact ⟨hf.seen hr, hargs.seen ((r.expr_scopes _).trans hr)⟩
  | _, _, .get he _, _, hr => he.seen hr
  | _, _, .set he _ hv, r, hr => by
    rw [exprSites, List.forall_mem_append]
    exact ⟨hv.seen hr, he.seen ((r.expr_scopes _).trans hr)⟩
  | _, _, .this hrefers _, _, hr => hrefers.seen hr fun h => by cases h
  | _, _, .super hrefers hname _ _, _, hr => hrefers.seen hr fun _ => hname

theorem AlikeArgs.seen {p : Surroundings} {init : Option Declared} : ∀ {es es' : List Expr},
    AlikeArgs K p es es' → ∀ {r : Resolution}, r.scopes = p.scopes →
    ∀ site ∈ argSites cs init r es, K.Sees site
  | _, _, .nil, _, _ => fun _ hmem => by cases hmem
  | _, _, .cons he hes, r, hr => by
    rw [argSites, List.forall_mem_append]
    exact ⟨he.seen hr, hes.seen ((r.expr_scopes _).trans hr)⟩

end

/-- A name that only stands in a declaration refers to nothing. -/
theorem Pairing.sees_of_not_reference {site : Site} (h : site.use.isReference = false) :
    K.Sees site := by
  intro huse
  rw [h] at huse
  cases huse

theorem parameterSites_seen {id : Nat} : ∀ (params : List Token) {r : Resolution},
    ∀ site ∈ parameterSites cs id r params, K.Sees site
  | [], _ => fun _ hmem => by cases hmem
  | _ :: params, _ => by
    rw [parameterSites, List.forall_mem_cons]
    exact ⟨Pairing.sees_of_not_reference rfl, parameterSites_seen params⟩

theorem Surroundings.mark_scopes {p : Surroundings} {r : Resolution} (h : r.scopes = p.scopes)
    (name : Token) :
    ((r.declare name).define name).scopes = (p.mark name.lexeme true).scopes := by
  rw [(r.declare_define_passed name).scopes, h]
  rfl

theorem AlikeSuperclass.seen {p : Surroundings} {name : Token} {base base' : Option Superclass}
    (h : AlikeSuperclass K p name base base') {r : Resolution} (hr : r.scopes = p.scopes) :
    ∀ site ∈ superclassSites cs r name base, K.Sees site := by
  cases h with
  | none => exact fun _ hmem => by cases hmem
  | some _ hrefers _ _ => exact hrefers.seen (p.mark_scopes hr name) fun h => by cases h

mutual

theorem AlikeStmt.seen : ∀ {p : Surroundings} {s s' : Stmt}, AlikeStmt K p s s' →
    ∀ {cs : List Construct} {r : Resolution}, r.scopes = p.scopes →
    ∀ site ∈ stmtSites cs r s, K.Sees site
  | _, _, _, .expression he, _, _, hr => he.seen hr
  | _, _, _, .print he, _, _, hr => he.seen hr
  | _, _, _, .declare _, _, _, _ => by
    rw [stmtSites, List.forall_mem_singleton]
    exact Pairing.sees_of_not_reference rfl
  | _, _, _, .declareValue _ he, _, r, hr => by
    rw [stmtSites, List.forall_mem_cons]
    refine ⟨Pairing.sees_of_not_reference rfl, he.seen ?_⟩
    rw [r.declare_scopes, hr]
    rfl
  | p, _, _, .block hbody, _, r, hr => by
    have hopen : r.openScope.scopes = .empty :: p.scopes := by rw [Resolution.openScope, hr]
    exact hbody.seen hopen
  | _, _, _, .ifThen hc hs _, _, r, hr => by
    rw [stmtSites, List.forall_mem_append]
    exact ⟨hc.seen hr, hs.seen ((r.expr_scopes _).trans hr)⟩
  | _, _, _, .ifElse hc hs hthen ht _, _, r, hr => by
    rw [stmtSites, List.forall_mem_append, List.forall_mem_append]
    refine ⟨⟨hc.seen hr, hs.seen ((r.expr_scopes _).trans hr)⟩, ht.seen ?_⟩
    rw [(Resolution.stmt_passed _ _).scopes, hthen, r.expr_scopes]
    exact hr
  | _, _, _, .loop hc hs _, _, r, hr => by
    rw [stmtSites, List.forall_mem_append]
    exact ⟨hc.seen hr, hs.seen ((r.expr_scopes _).trans hr)⟩
  | p, _, _, .function _ hf, _, _, hr => by
    rw [stmtSites, List.forall_mem_cons]
    exact ⟨Pairing.sees_of_not_reference rfl, hf.seen (p.mark_scopes hr _)⟩
  | _, _, _, .ret, _, _, _ => fun _ hmem => by cases hmem
  | _, _, _, .retValue he, _, r, hr => by
    refine he.seen ?_
    rw [(Resolution.checkReturn_passed _ _ _).scopes]
    exact hr
  | p, _, _, @AlikeStmt.classDecl _ _ id name _ base _ methods _ _ _ hbase hfs, _, r, hr => by
    rw [stmtSites, List.forall_mem_cons, List.forall_mem_append]
    refine ⟨Pairing.sees_of_not_reference rfl, hbase.seen hr, hfs.seen ?_⟩
    rw [Resolution.enterClass_scopes, hr]
    rfl

theorem AlikeBody.seen : ∀ {p : Surroundings} {ss ss' : List Stmt}, AlikeBody K p ss ss' →
    ∀ {cs : List Construct} {r : Resolution}, r.scopes = p.scopes →
    ∀ site ∈ bodySites cs r ss, K.Sees site
  | _, _, _, .nil, _, _, _ => fun _ hmem => by cases hmem
  | _, _, _, .cons hs hss, _, r, hr => by
    rw [bodySites, List.forall_mem_append]
    refine ⟨hs.seen hr, hss.seen ?_⟩
    rw [(r.stmt_passed _).scopes, hr]
    rfl

theorem AlikeFunction.seen : ∀ {p : Surroundings} {f f' : Function}, AlikeFunction K p f f' →
    ∀ {cs : List Construct} {r : Resolution} {routine : Routine}, r.scopes = p.scopes →
    ∀ site ∈ functionSites cs r routine f, K.Sees site
  | _, _, _, @AlikeFunction.mk _ _ _ _ _ params _ _ _ _ _ _ hbody, _, r, routine, hr => by
    rw [functionSites, List.forall_mem_append]
    refine ⟨parameterSites_seen params, hbody.seen ?_⟩
    rw [(Resolution.parameters_keeps _ _).1]
    exact congrArg (fun scopes => markAll _ (.empty :: scopes)) hr

theorem AlikeMethods.seen : ∀ {p : Surroundings} {fs fs' : List Function}, AlikeMethods K p fs fs' →
    ∀ {cs : List Construct} {r : Resolution}, r.scopes = p.scopes →
    ∀ site ∈ methodSites cs r fs, K.Sees site
  | _, _, _, .nil, _, _, _ => fun _ hmem => by cases hmem
  | _, _, _, .cons hf hfs, _, r, hr => by
    rw [methodSites, List.forall_mem_append]
    refine ⟨hf.seen hr, hfs.seen ?_⟩
    rw [(r.function_passed _ _).scopes]
    exact hr

end

/-! ## Declarations -/

/-- What is no declaration declares nothing. -/
theorem AlikeStmt.declared_eq_nil {p : Surroundings} {s s' : Stmt} (h : AlikeStmt K p s s')
    (hs : s.isDeclaration = false) : s.declared = [] := by
  cases h with
  | declare | declareValue | function | classDecl => cases hs
  | ifThen _ _ hthen => exact hthen
  | ifElse _ _ hthen _ helse => simp only [Stmt.declared, hthen, helse, List.append_nil]
  | loop _ _ hbody => exact hbody
  | expression | print | block | ret | retValue => rfl

theorem AlikeStmt.super_not_declared {p : Surroundings} {s s' : Stmt} (h : AlikeStmt K p s s') :
    "super" ∉ s.declared := by
  have hname : ∀ {name name' : Token}, K.Declares p name name' → "super" ∉ [name.lexeme] :=
    fun hd hmem => hd.ne_super (List.mem_singleton.1 hmem).symm
  cases hs : s.isDeclaration with
  | false =>
    rw [h.declared_eq_nil hs]
    exact List.not_mem_nil
  | true =>
    cases h with
    | declare hd | declareValue hd _ | function hd _ | classDecl hd _ _ _ => exact hname hd
    | expression | print | block | ifThen | ifElse | loop | ret | retValue => cases hs

end

end LoxLang
