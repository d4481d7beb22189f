import LoxLang.Proofs.Scope.Padding
import LoxLang.Proofs.Scope.Spelling

/-!
# Copies resolved side by side

A tree and its copy, resolved in scopes that differ by blank ones, have references that lead to the
same places, if the tables file the distances of their sites.

Principal results: `CopyExpr.padded`, `CopyStmt.padded`.
-/

namespace LoxLang

/-- A table files the distance of a site, if it refers to something. -/
def Site.ReferredIn (T : Distances) (site : Site) : Prop :=
  site.use.isReference = true → site.FiledIn T

/-- The same, and `super` is spelled like its declaration, which is ready. -/
def Site.Known (T : Distances) (site : Site) : Prop :=
  site.use.isReference = true → site.FiledIn T ∧
    (site.use = .super → site.name.lexeme = "super" ∧ site.around.Readable "super")

/-- The words of a tree on their own lines, whatever the numbers of its nodes are. -/
abbrev Copying.still : Copying := .free fun _ => 0

/-- Copies declare the same names. -/
theorem CopyStmt.declared_eq {K : Copying} : ∀ {s s' : Stmt}, CopyStmt K s s' →
    s'.declared = s.declared
  | _, _, .malformed | _, _, .expression _ | _, _, .print _ | _, _, .declare
  | _, _, .declareValue _ | _, _, .block _ | _, _, .ret | _, _, .retValue _
  | _, _, .classDecl _ _ => rfl
  | _, _, .ifThen _ hs => hs.declared_eq
  | _, _, .ifElse _ hs ht => by simp only [Stmt.declared, hs.declared_eq, ht.declared_eq]
  | _, _, .loop _ hs => hs.declared_eq
  | _, _, .function hf => by simp only [Stmt.declared, hf.name_lexeme]

section

variable {T T' : Distances} {pads : List Pad} {cs cs' : List Construct} {r r' : Resolution}

/-- Two references by the same name. -/
theorem PadScopes.refers (h : PadScopes pads r.scopes r'.scopes) {use use' : Use} {id id' : Nat}
    {name : Token} {init init' : Option Declared} (huse : use.isReference = true)
    (huse' : use'.isReference = true)
    (hk : Site.Known T ⟨use, id, name, ⟨cs, r.scopes, init⟩⟩)
    (hk' : Site.ReferredIn T' ⟨use', id', name, ⟨cs', r'.scopes, init'⟩⟩) :
    PadRefers T T' pads id id' := by
  have hfiled : T[id]? = distance? name.lexeme r.scopes := (hk huse).1
  have hfiled' : T'[id']? = distance? name.lexeme r'.scopes := hk' huse'
  unfold PadRefers
  rw [hfiled, hfiled']
  exact h.distance name.lexeme

theorem PadScopes.refersSuper (h : PadScopes pads r.scopes r'.scopes) {id id' : Nat}
    {keyword : Token} {init init' : Option Declared}
    (hk : Site.Known T ⟨.super, id, keyword, ⟨cs, r.scopes, init⟩⟩)
    (hk' : Site.ReferredIn T' ⟨.super, id', keyword, ⟨cs', r'.scopes, init'⟩⟩) :
    PadSuper T T' pads id id' := by
  obtain ⟨hfiled, hsuper⟩ := hk rfl
  obtain ⟨hname, hready⟩ := hsuper rfl
  have hfiled : T[id]? = distance? keyword.lexeme r.scopes := hfiled
  have hfiled' : T'[id']? = distance? keyword.lexeme r'.scopes := hk' rfl
  have hrel := h.distance "super"
  unfold PadSuper
  rw [hfiled, hfiled', hname]
  -- the declaration is ready in both lists
  have hbelow : ∀ d d', distance? "super" r.scopes = some d →
      distance? "super" r'.scopes = some d' → Coincide pads (d - 1) (d' - 1) := by
    intro d d' hd hd'
    obtain ⟨scope, hscope, _⟩ := distance?_eq_some hd
    refine h.below_super hd hd' ?_
    rw [hscope, Option.bind_some]
    exact hready d scope hd hscope
  generalize distance? "super" r.scopes = d at hrel hbelow
  generalize distance? "super" r'.scopes = d' at hrel hbelow
  cases hrel with
  | none => exact .none
  | some hmeets => exact .some ⟨hmeets, hbelow _ _ rfl rfl⟩

/-! ## States of the pass -/

theorem PadScopes.expr (h : PadScopes pads r.scopes r'.scopes) (e e' : Expr) :
    PadScopes pads (r.expr e).scopes (r'.expr e').scopes := by
  rw [Resolution.expr_scopes, Resolution.expr_scopes]
  exact h

theorem PadScopes.declare (h : PadScopes pads r.scopes r'.scopes) (hopen : Coincide pads 0 0)
    (name : Token) : PadScopes pads (r.declare name).scopes (r'.declare name).scopes := by
  rw [Resolution.declare_scopes, Resolution.declare_scopes]
  exact h.markIn hopen _ false

theorem PadScopes.name (h : PadScopes pads r.scopes r'.scopes) (hopen : Coincide pads 0 0)
    {name name' : Token} (hname : name'.lexeme = name.lexeme) :
    PadScopes pads ((r.declare name).define name).scopes
      ((r'.declare name').define name').scopes := by
  rw [(r.declare_define_passed name).scopes, (r'.declare_define_passed name').scopes, hname]
  exact h.markAll hopen _

/-- A statement leaves the scopes alone, or what it declares goes to both lists. -/
theorem PadScopes.stmt (h : PadScopes pads r.scopes r'.scopes) {s s' : Stmt}
    (hdeclared : s'.declared = s.declared) (hopen : s.declared = [] ∨ Coincide pads 0 0) :
    PadScopes pads (r.stmt s).scopes (r'.stmt s').scopes := by
  rw [(r.stmt_passed s).scopes, (r'.stmt_passed s').scopes, hdeclared]
  obtain hnone | hhere := hopen
  · rw [hnone]
    exact h
  · exact h.markAll hhere _

/-! ## Expressions -/

mutual

theorem CopyExpr.padded : ∀ {e e' : Expr}, CopyExpr .still e e' → ∀ {init init' : Option Declared}
    {r r' : Resolution}, PadScopes pads r.scopes r'.scopes →
    (∀ site ∈ exprSites cs init r e, site.Known T) →
    (∀ site ∈ exprSites cs' init' r' e', site.ReferredIn T') → PadExpr T T' pads e e'
  | _, _, .literal, _, _, _, _, _, _, _ => .literal
  | _, _, .grouping he, _, _, _, _, h, hk, hk' => .grouping (he.padded h hk hk')
  | _, _, .unary he, _, _, _, _, h, hk, hk' => .unary (he.padded h hk hk')
  | _, _, .binary ha hb, _, _, _, _, h, hk, hk' => by
    rw [exprSites, List.forall_mem_append] at hk hk'
    exact .binary (ha.padded h hk.1 hk'.1) (hb.padded (h.expr _ _) hk.2 hk'.2)
  | _, _, .logical ha hb, _, _, _, _, h, hk, hk' => by
    rw [exprSites, List.forall_mem_append] at hk hk'
    exact .logical (ha.padded h hk.1 hk'.1) (hb.padded (h.expr _ _) hk.2 hk'.2)
  | _, _, .var _, _, _, _, _, h, hk, hk' => by
    rw [exprSites, List.forall_mem_singleton] at hk hk'
    exact .var (h.refers rfl rfl hk hk')
  | _, _, .assign _ he, _, _, r, r', h, hk, hk' => by
    rw [exprSites, List.forall_mem_append, List.forall_mem_singleton] at hk hk'
    exact .assign ((h.expr _ _).refers rfl rfl hk.2 hk'.2) (he.padded h hk.1 hk'.1)
  | _, _, .call hf hargs, _, _, _, _, h, hk, hk' => by
    rw [exprSites, List.forall_mem_append] at hk hk'
    exact .call (hf.padded h hk.1 hk'.1) (hargs.padded (h.expr _ _) hk.2 hk'.2)
  | _, _, .get he, _, _, _, _, h, hk, hk' => .get (he.padded h hk hk')
  | _, _, .set he hv, _, _, _, _, h, hk, hk' => by
    rw [exprSites, List.forall_mem_append] at hk hk'
    exact .set (he.padded (h.expr _ _) hk.2 hk'.2) (hv.padded h hk.1 hk'.1)
  | _, _, .this _, _, _, _, _, h, hk, hk' => by
    rw [exprSites, List.forall_mem_singleton] at hk hk'
    exact .this (h.refers rfl rfl hk hk')
  | _, _, .super _, _, _, _, _, h, hk, hk' => by
    rw [exprSites, List.forall_mem_singleton] at hk hk'
    exact .super (h.refersSuper hk hk')

theorem CopyArgs.padded : ∀ {es es' : List Expr}, CopyArgs .still es es' →
    ∀ {init init' : Option Declared} {r r' : Resolution}, PadScopes pads r.scopes r'.scopes →
    (∀ site ∈ argSites cs init r es, site.Known T) →
    (∀ site ∈ argSites cs' init' r' es', site.ReferredIn T') → PadArgs T T' pads es es'
  | _, _, .nil, _, _, _, _, _, _, _ => .nil
  | _, _, .cons he hes, _, _, _, _, h, hk, hk' => by
    rw [argSites, List.forall_mem_append] at hk hk'
    exact .cons (he.padded h hk.1 hk'.1) (hes.padded (h.expr _ _) hk.2 hk'.2)

end

/-! ## Statements -/

theorem CopySuperclass.padded {base base' : Option Superclass}
    (hcopy : CopySuperclass .still base base') {name : Token}
    (h : PadScopes pads r.scopes r'.scopes) (hopen : Coincide pads 0 0)
    (hk : ∀ site ∈ superclassSites cs r name base, site.Known T)
    (hk' : ∀ site ∈ superclassSites cs' r' name base', site.ReferredIn T') :
    PadSuperclass T T' pads base base' := by
  cases hcopy with
  | none => exact .none
  | some _ =>
    rw [superclassSites, List.forall_mem_singleton] at hk hk'
    exact .some ((h.name hopen rfl).refers rfl rfl hk hk')

/-- The scopes of a class around its methods. -/
theorem PadScopes.enterClass (h : PadScopes pads r.scopes r'.scopes) (hopen : Coincide pads 0 0)
    (name : Token) {base base' : Option Superclass} (hbase : base'.isSome = base.isSome) :
    PadScopes (classPads base ++ pads) (r.enterClass name base).scopes
      (r'.enterClass name base').scopes := by
  rw [Resolution.enterClass_scopes, Resolution.enterClass_scopes]
  have hnamed := h.markIn hopen name.lexeme true
  cases base with
  | none =>
    cases base' with
    | none => exact .both hnamed
    | some _ => cases hbase
  | some _ =>
    cases base' with
    | none => cases hbase
    | some _ => exact .both (.both hnamed)

mutual

theorem CopyStmt.padded : ∀ {s s' : Stmt}, CopyStmt .still s s' → ∀ {pads : List Pad}
    {cs cs' : List Construct} {r r' : Resolution}, PadScopes pads r.scopes r'.scopes →
    (s.declared = [] ∨ Coincide pads 0 0) → (∀ site ∈ stmtSites cs r s, site.Known T) →
    (∀ site ∈ stmtSites cs' r' s', site.ReferredIn T') → PadStmt T T' pads s s'
  | _, _, .malformed, _, _, _, _, _, _, _, _, _ => .malformed
  | _, _, .expression he, _, _, _, _, _, h, _, hk, hk' => .expression (he.padded h hk hk')
  | _, _, .print he, _, _, _, _, _, h, _, hk, hk' => .print (he.padded h hk hk')
  | _, _, .declare, _, _, _, _, _, _, hopen, _, _ =>
    .declare (hopen.resolve_left (List.cons_ne_nil _ _))
  | _, _, .declareValue he, _, _, _, r, r', h, hopen, hk, hk' => by
    have hhere := hopen.resolve_left (List.cons_ne_nil _ _)
    rw [stmtSites, List.forall_mem_cons] at hk hk'
    exact .declareValue hhere (he.padded (h.declare hhere _) hk.2 hk'.2)
  | _, _, .block hbody, _, _, _, _, _, h, _, hk, hk' =>
    .block (hbody.padded (.both h) .here hk hk')
  | _, _, .ifThen hc hs, _, _, _, _, _, h, hopen, hk, hk' => by
    rw [stmtSites, List.forall_mem_append] at hk hk'
    exact .ifThen (hc.padded h hk.1 hk'.1) (hs.padded (h.expr _ _) hopen hk.2 hk'.2)
  | _, _, .ifElse hc hs ht, _, _, _, r, r', h, hopen, hk, hk' => by
    rw [stmtSites, List.forall_mem_append, List.forall_mem_append] at hk hk'
    simp only [Stmt.declared, List.append_eq_nil_iff] at hopen
    have hthen := hopen.imp_left And.left
    exact .ifElse (hc.padded h hk.1.1 hk'.1.1) (hs.padded (h.expr _ _) hthen hk.1.2 hk'.1.2)
      (ht.padded ((h.expr _ _).stmt hs.declared_eq hthen) (hopen.imp_left And.right) hk.2 hk'.2)
  | _, _, .loop hc hs, _, _, _, _, _, h, hopen, hk, hk' => by
    rw [stmtSites, List.forall_mem_append] at hk hk'
    exact .loop (hc.padded h hk.1 hk'.1) (hs.padded (h.expr _ _) hopen hk.2 hk'.2)
  | _, _, .function hf, _, _, _, r, r', h, hopen, hk, hk' => by
    have hhere := hopen.resolve_left (List.cons_ne_nil _ _)
    rw [stmtSites, List.forall_mem_cons] at hk hk'
    exact .function hhere (hf.padded (h.name hhere hf.name_lexeme) hk.2 hk'.2)
  | _, _, .ret, _, _, _, _, _, _, _, _, _ => .ret
  | _, _, .retValue he, _, _, _, _, _, h, _, hk, hk' => by
    refine .retValue (he.padded ?_ hk hk')
    rw [(Resolution.checkReturn_passed _ _ _).scopes, (Resolution.checkReturn_passed _ _ _).scopes]
    exact h
  | _, _, .classDecl hbase hfs, _, _, _, r, r', h, hopen, hk, hk' => by
    have hhere := hopen.resolve_left (List.cons_ne_nil _ _)
    rw [stmtSites, List.forall_mem_cons, List.forall_mem_append] at hk hk'
    have hsuperclass := hbase.padded h hhere hk.2.1 hk'.2.1
    exact .classDecl hhere hsuperclass
      (hfs.padded (h.enterClass hhere _ hsuperclass.isSome_eq) hk.2.2 hk'.2.2)

theorem CopyBody.padded : ∀ {ss ss' : List Stmt}, CopyBody .still ss ss' → ∀ {pads : List Pad}
    {cs cs' : List Construct} {r r' : Resolution}, PadScopes pads r.scopes r'.scopes →
    Coincide pads 0 0 → (∀ site ∈ bodySites cs r ss, site.Known T) →
    (∀ site ∈ bodySites cs' r' ss', site.ReferredIn T') → PadBody T T' pads ss ss'
  | _, _, .nil, _, _, _, _, _, _, _, _, _ => .nil
  | _, _, .cons hs hss, _, _, _, r, r', h, hhere, hk, hk' => by
    rw [bodySites, List.forall_mem_append] at hk hk'
    exact .cons (hs.padded h (.inr hhere) hk.1 hk'.1)
      (hss.padded (h.stmt hs.declared_eq (.inr hhere)) hhere hk.2 hk'.2)

theorem CopyFunction.padded : ∀ {f f' : Function}, CopyFunction .still f f' → ∀ {pads : List Pad}
    {cs cs' : List Construct} {r r' : Resolution} {routine routine' : Routine},
    PadScopes pads r.scopes r'.scopes → (∀ site ∈ functionSites cs r routine f, site.Known T) →
    (∀ site ∈ functionSites cs' r' routine' f', site.ReferredIn T') → PadFunction T T' pads f f'
  | _, _, @CopyFunction.mk _ id _ _ params _ _ hbody, _, _, _, r, r', _, _, h, hk, hk' => by
    have hparams : params.map (Token.moved (Copying.still.shift id)) = params :=
      Token.map_moved_zero params
    rw [hparams] at hk' ⊢
    rw [functionSites, List.forall_mem_append] at hk hk'
    refine .mk (hbody.padded ?_ .here hk.2 hk'.2)
    rw [(Resolution.parameters_keeps _ _).1, (Resolution.parameters_keeps _ _).1]
    exact PadScopes.markAll .here _ (.both h)

theorem CopyMethods.padded : ∀ {fs fs' : List Function}, CopyMethods .still fs fs' →
    ∀ {pads : List Pad} {cs cs' : List Construct} {r r' : Resolution},
    PadScopes pads r.scopes r'.scopes → (∀ site ∈ methodSites cs r fs, site.Known T) →
    (∀ site ∈ methodSites cs' r' fs', site.ReferredIn T') → PadMethods T T' pads fs fs'
  | _, _, .nil, _, _, _, _, _, _, _, _ => .nil
  | _, _, .cons hf hfs, _, _, _, r, r', h, hk, hk' => by
    rw [methodSites, List.forall_mem_append] at hk hk'
    refine .cons (hf.padded h hk.1 hk'.1) (hfs.padded ?_ hk.2 hk'.2)
    rw [(Resolution.function_passed _ _ _).scopes, (Resolution.function_passed _ _ _).scopes]
    exact h

end

end

end LoxLang
