import LoxLang.Proofs.Scope.Respelled

/-!
# Renaming a local variable

The occurrences of a local variable are its declaration and the references that the pass finds at
the distance of the scope which declares it.  `renamed` gives all of them another name and leaves the
rest of the program alone.  With a name that the program does not use, this is a respelling: only
the one scope spells the one name differently.

Principal results: `renamed_eq`, `renamed_keeps`.
-/

namespace LoxLang

/-! ## Names of a tree -/

/-- What becomes of a name, by what is done with it and the number of the node. -/
abbrev Naming := Use → Nat → Token → Token

namespace Naming

variable (f : Naming)

mutual

def expr : Expr → Expr
  | .literal id value => .literal id value
  | .grouping id inner => .grouping id (expr inner)
  | .unary id token operand => .unary id token (expr operand)
  | .binary id left token right => .binary id (expr left) token (expr right)
  | .logical id left token right => .logical id (expr left) token (expr right)
  | .var id name => .var id (f .read id name)
  | .assign id name value => .assign id (f .write id name) (expr value)
  | .call id callee paren args => .call id (expr callee) paren (exprs args)
  | .get id object name => .get id (expr object) name
  | .set id object name value => .set id (expr object) name (expr value)
  | .this id keyword => .this id keyword
  | .super id keyword method => .super id keyword method

def exprs : List Expr → List Expr
  | [] => []
  | e :: es => expr e :: exprs es

end

def superclass : Option Superclass → Option Superclass
  | none => none
  | some s => some ⟨s.id, f .read s.id s.name⟩

mutual

/-- Functions and classes keep their names. -/
def stmt : Stmt → Stmt
  | .malformed => .malformed
  | .expression id value => .expression id (f.expr value)
  | .print id value => .print id (f.expr value)
  | .declare id name none => .declare id (f .declare id name) none
  | .declare id name (some value) => .declare id (f .declare id name) (some (f.expr value))
  | .block id body => .block id (stmts body)
  | .conditional id cond thenBranch none => .conditional id (f.expr cond) (stmt thenBranch) none
  | .conditional id cond thenBranch (some elseBranch) =>
    .conditional id (f.expr cond) (stmt thenBranch) (some (stmt elseBranch))
  | .loop id cond body => .loop id (f.expr cond) (stmt body)
  | .function decl => .function (function decl)
  | .ret id keyword none => .ret id keyword none
  | .ret id keyword (some value) => .ret id keyword (some (f.expr value))
  | .classDecl id name superclass methods =>
    .classDecl id name (f.superclass superclass) (functions methods)

def stmts : List Stmt → List Stmt
  | [] => []
  | s :: ss => stmt s :: stmts ss

def function : Function → Function
  | ⟨id, name, params, body⟩ => ⟨id, name, params.map (f .parameter id), stmts body⟩

def functions : List Function → List Function
  | [] => []
  | g :: gs => function g :: functions gs

end

end Naming

/-! ## Occurrences -/

/-- A reference to a declaration: it has the same name, and its distance leads to the scope that the
declaration stands in. -/
def Site.refersTo (site binder : Site) : Bool :=
  site.use.isReference && site.name.lexeme == binder.name.lexeme &&
    site.construct?.map Construct.id == scopeOf binder.around.constructs

/-- A declaration and the references to it. -/
def occurrences (binder : Site) (stmts : List Stmt) : List Site :=
  binder :: (programSites stmts).filter (·.refersTo binder)

/-- What an occurrence is recognized by. -/
def Site.tag (site : Site) : Use × Nat × String := (site.use, site.id, site.name.lexeme)

/-- Gives a new name to all occurrences of a variable. -/
def Site.naming (binder : Site) (new : String) (stmts : List Stmt) : Naming := fun use id name =>
  if (use, id, name.lexeme) ∈ (occurrences binder stmts).map Site.tag then
    { name with lexeme := new }
  else name

/-- A program with a new name for one variable. -/
def renamed (binder : Site) (new : String) (stmts : List Stmt) : List Stmt :=
  (binder.naming new stmts).stmts stmts

/-! ## Namings that follow a spelling -/

/-- A naming does with a site what a spelling does. -/
structure Spelling.Guides (σ : Spelling) (f : Naming) (site : Site) : Prop where
  reference : site.use = .read ∨ site.use = .write →
    f site.use site.id site.name = σ.reference site.around site.name
  declaration : site.use = .declare ∨ site.use = .parameter →
    f site.use site.id site.name = σ.declaration site.around site.name

namespace Spelling

open Resolution

variable {σ : Spelling} {f : Naming} {P : Token → Prop}

theorem Guides.refers {use : Use} {id : Nat} {name : Token} {p q : Surroundings}
    (h : σ.Guides f ⟨use, id, name, q⟩) (huse : use = .read ∨ use = .write)
    (hc : q.constructs = p.constructs) (hs : q.scopes = p.scopes) :
    f use id name = σ.reference p name := by
  refine (h.reference huse).trans ?_
  simp only [Spelling.reference, Surroundings.holder?, hc, hs]

mutual

theorem expr_eq {p : Surroundings} {init : Option Declared} {r : Resolution}
    (hs : r.scopes = p.scopes) : ∀ e : Expr,
    (∀ site ∈ exprSites p.constructs init r e, σ.Guides f site) → f.expr e = σ.expr p e
  | .literal .., _ => rfl
  | .grouping _ inner, h => by rw [Naming.expr, Spelling.expr, expr_eq hs inner h]
  | .unary _ _ operand, h => by rw [Naming.expr, Spelling.expr, expr_eq hs operand h]
  | .binary _ left _ right, h => by
    obtain ⟨hleft, hright⟩ := List.forall_mem_append.1 h
    rw [Naming.expr, Spelling.expr, expr_eq hs left hleft,
      expr_eq ((r.expr_scopes left).trans hs) right hright]
  | .logical _ left _ right, h => by
    obtain ⟨hleft, hright⟩ := List.forall_mem_append.1 h
    rw [Naming.expr, Spelling.expr, expr_eq hs left hleft,
      expr_eq ((r.expr_scopes left).trans hs) right hright]
  | .var id name, h => by
    have hname := (h _ (List.mem_singleton.2 rfl)).refers (p := p) (.inl rfl) rfl hs
    rw [Naming.expr, Spelling.expr, hname]
  | .assign id name value, h => by
    obtain ⟨hvalue, hsite⟩ := List.forall_mem_append.1 h
    have hname := (hsite _ (List.mem_singleton.2 rfl)).refers (p := p) (.inr rfl) rfl
      ((r.expr_scopes value).trans hs)
    rw [Naming.expr, Spelling.expr, expr_eq hs value hvalue, hname]
  | .call _ callee _ args, h => by
    obtain ⟨hcallee, hargs⟩ := List.forall_mem_append.1 h
    rw [Naming.expr, Spelling.expr, expr_eq hs callee hcallee,
      exprs_eq ((r.expr_scopes callee).trans hs) args hargs]
  | .get _ object _, h => by rw [Naming.expr, Spelling.expr, expr_eq hs object h]
  | .set _ object _ value, h => by
    obtain ⟨hvalue, hobject⟩ := List.forall_mem_append.1 h
    rw [Naming.expr, Spelling.expr, expr_eq hs value hvalue,
      expr_eq ((r.expr_scopes value).trans hs) object hobject]
  | .this .., _ => rfl
  | .super .., _ => rfl

theorem exprs_eq {p : Surroundings} {init : Option Declared} {r : Resolution}
    (hs : r.scopes = p.scopes) : ∀ es : List Expr,
    (∀ site ∈ argSites p.constructs init r es, σ.Guides f site) → f.exprs es = σ.exprs p es
  | [], _ => rfl
  | e :: es, h => by
    obtain ⟨hfirst, hrest⟩ := List.forall_mem_append.1 h
    rw [Naming.exprs, Spelling.exprs, expr_eq hs e hfirst,
      exprs_eq ((r.expr_scopes e).trans hs) es hrest]

end

theorem superclass_eq {p : Surroundings} {r : Resolution} (hs : r.scopes = p.scopes)
    (name : Token) : ∀ superclass : Option Superclass,
    (∀ site ∈ superclassSites p.constructs r name superclass, σ.Guides f site) →
    f.superclass superclass = σ.superclass p name superclass
  | none, _ => rfl
  | some s, h => by
    have hs₁ : ((r.declare name).define name).scopes = (p.mark name.lexeme true).scopes := by
      rw [(r.declare_define_passed name).scopes, hs]
      rfl
    have hname := (h _ (List.mem_singleton.2 rfl)).refers (p := p.mark name.lexeme true)
      (.inl rfl) rfl hs₁
    rw [Naming.superclass, Spelling.superclass, hname]

theorem params_eq {p : Surroundings} {id : Nat} : ∀ (params : List Token) (r : Resolution),
    (∀ site ∈ parameterSites (.routine id :: p.constructs) id r params, σ.Guides f site) →
    params.map (f .parameter id) =
      params.map fun t => { t with lexeme := σ.spell (.routine id) t.lexeme }
  | [], _, _ => rfl
  | t :: params, r, h => by
    obtain ⟨hfirst, hrest⟩ := List.forall_mem_cons.1 h
    rw [List.map_cons, List.map_cons, params_eq params _ hrest]
    exact congrArg (· :: _) (hfirst.declaration (.inr rfl))

mutual

theorem stmt_eq {p : Surroundings} {r : Resolution} (hs : r.scopes = p.scopes) : ∀ s : Stmt,
    s.Proper P → (∀ site ∈ stmtSites p.constructs r s, σ.Guides f site) → f.stmt s = σ.stmt p s
  | .malformed, _, _ => rfl
  | .expression _ value, _, h => by rw [Naming.stmt, Spelling.stmt, expr_eq hs value h]
  | .print _ value, _, h => by rw [Naming.stmt, Spelling.stmt, expr_eq hs value h]
  | .declare id name none, _, h => by
    have hname := (h _ (List.mem_singleton.2 rfl)).declaration (.inl rfl)
    rw [Naming.stmt, Spelling.stmt, hname]
    rfl
  | .declare id name (some value), _, h => by
    obtain ⟨hsite, hvalue⟩ := List.forall_mem_cons.1 h
    have hname := hsite.declaration (.inl rfl)
    have hs₁ : (r.declare name).scopes = (p.initializer id name.lexeme).scopes := by
      rw [declare_scopes, hs]
      rfl
    rw [Naming.stmt, Spelling.stmt, hname, expr_eq hs₁ value hvalue]
    rfl
  | .block id body, hd, h => by
    have hs₁ : r.openScope.scopes = (p.enter (.block id)).scopes := by
      simp only [openScope, hs]
      rfl
    rw [Naming.stmt, Spelling.stmt, stmts_eq hs₁ body hd h]
  | .conditional _ cond thenBranch none, hd, h => by
    obtain ⟨hcond, hthen⟩ := List.forall_mem_append.1 h
    rw [Naming.stmt, Spelling.stmt, expr_eq hs cond hcond,
      stmt_eq ((r.expr_scopes cond).trans hs) thenBranch hd.2.1 hthen]
  | .conditional _ cond thenBranch (some elseBranch), hd, h => by
    obtain ⟨h, helse⟩ := List.forall_mem_append.1 h
    obtain ⟨hcond, hthen⟩ := List.forall_mem_append.1 h
    have hs₁ := (r.expr_scopes cond).trans hs
    have hs₂ : ((r.expr cond).stmt thenBranch).scopes = p.scopes := by
      rw [(stmt_passed _ thenBranch).scopes, hd.2.1.1.declared_eq_nil hd.2.1.2]
      exact hs₁
    rw [Naming.stmt, Spelling.stmt, expr_eq hs cond hcond, stmt_eq hs₁ thenBranch hd.2.1.1 hthen,
      stmt_eq hs₂ elseBranch hd.2.2.1 helse]
  | .loop _ cond body, hd, h => by
    obtain ⟨hcond, hbody⟩ := List.forall_mem_append.1 h
    rw [Naming.stmt, Spelling.stmt, expr_eq hs cond hcond,
      stmt_eq ((r.expr_scopes cond).trans hs) body hd.2.1 hbody]
  | .function decl, hd, h => by
    obtain ⟨_, hdecl⟩ := List.forall_mem_cons.1 h
    have hs₁ : ((r.declare decl.name).define decl.name).scopes =
        (p.mark decl.name.lexeme true).scopes := by
      rw [(r.declare_define_passed decl.name).scopes, hs]
      rfl
    rw [Naming.stmt, Spelling.stmt, function_eq hs₁ .function decl hd hdecl]
  | .ret _ _ none, _, _ => rfl
  | .ret _ keyword (some value), _, h => by
    have hs₁ := (r.checkReturn_passed keyword true).scopes.trans hs
    rw [Naming.stmt, Spelling.stmt, expr_eq hs₁ value h]
  | .classDecl id name superclass methods, hd, h => by
    obtain ⟨_, h⟩ := List.forall_mem_cons.1 h
    obtain ⟨hsuper, hmethods⟩ := List.forall_mem_append.1 h
    have hs₁ : (r.enterClass name superclass).scopes =
        ((p.mark name.lexeme true).inClass id superclass methods).scopes := by
      rw [enterClass_scopes, hs]
      rfl
    rw [Naming.stmt, Spelling.stmt, superclass_eq hs name superclass hsuper,
      functions_eq hs₁ methods hd.2.2 hmethods]

theorem stmts_eq {p : Surroundings} {r : Resolution} (hs : r.scopes = p.scopes) :
    ∀ ss : List Stmt, ProperBody P ss → (∀ site ∈ bodySites p.constructs r ss, σ.Guides f site) →
    f.stmts ss = σ.stmts p ss
  | [], _, _ => rfl
  | s :: ss, hd, h => by
    obtain ⟨hfirst, hrest⟩ := List.forall_mem_append.1 h
    have hs₁ : (r.stmt s).scopes = (p.after s).scopes := by
      rw [(r.stmt_passed s).scopes, hs]
      rfl
    rw [Naming.stmts, Spelling.stmts, stmt_eq hs s hd.1 hfirst, stmts_eq hs₁ ss hd.2 hrest]

theorem function_eq {p : Surroundings} {r : Resolution} (hs : r.scopes = p.scopes)
    (routine : Routine) : ∀ g : Function,
    ProperFunction P g → (∀ site ∈ functionSites p.constructs r routine g, σ.Guides f site) →
    f.function g = σ.function p g
  | ⟨id, name, params, body⟩, hd, h => by
    obtain ⟨hparams, hbody⟩ := List.forall_mem_append.1 h
    have hs₁ : ({ r with routine }.openScope.parameters params).scopes =
        (p.inRoutine id params).scopes := by
      rw [(parameters_keeps params _).1]
      simp only [openScope, hs]
      rfl
    rw [Naming.function, Spelling.function, params_eq params _ hparams,
      stmts_eq hs₁ body hd.2.2 hbody]

theorem functions_eq {p : Surroundings} {r : Resolution} (hs : r.scopes = p.scopes) :
    ∀ gs : List Function, ProperMethods P gs → (∀ site ∈ methodSites p.constructs r gs, σ.Guides f site) →
    f.functions gs = σ.functions p gs
  | [], _, _ => rfl
  | g :: gs, hd, h => by
    obtain ⟨hfirst, hrest⟩ := List.forall_mem_append.1 h
    have hs₁ := (r.function_passed (methodRoutine g.name) g).scopes.trans hs
    rw [Naming.functions, Spelling.functions, function_eq hs _ g hd.1 hfirst,
      functions_eq hs₁ gs hd.2 hrest]

end

/-! ## One scope spells one name differently -/

/-- The scope numbered `key` spells `old` as `new`, which is no name otherwise. -/
def inScope (key : Nat) (old new : String) (hold : old ≠ "this" ∧ old ≠ "super")
    (hnew : new ≠ "this" ∧ new ≠ "super") : Spelling where
  spell c name := if c.id = key ∧ name = old then new else name
  IsName name := name ≠ new
  spell_inj c c' a b ha hb h := by
    split at h
    · rename_i ha'
      split at h
      · rename_i hb'
        exact ha'.2.trans hb'.2.symm
      · exact absurd h.symm hb
    · split at h
      · exact absurd h ha
      · exact h
  spell_global c a b ha hb h := by
    split at h
    · exact absurd h.symm hb
    · exact h
  spell_this c := if_neg fun h => hold.1 h.2.symm
  spell_super c := if_neg fun h => hold.2 h.2.symm
  name_this := hnew.1.symm
  name_super := hnew.2.symm

theorem spellIn_inScope {key : Nat} {old new : String} (hold : old ≠ "this" ∧ old ≠ "super")
    (hnew : new ≠ "this" ∧ new ≠ "super") (l : Option Construct) (name : String) :
    (inScope key old new hold hnew).spellIn l name =
      if l.map Construct.id = some key ∧ name = old then new else name := by
  cases l with
  | none => exact (if_neg fun h => by cases h.1).symm
  | some c =>
    have hiff : (some c).map Construct.id = some key ↔ c.id = key :=
      ⟨Option.some.inj, congrArg some⟩
    simp only [hiff]
    rfl

end Spelling

section Binder

variable {P : Token → Prop} {stmts : List Stmt} {binder : Site} {key : Nat} {new : String}

theorem Site.declares?_eq_some {site : Site} (huse : site.use.isReference = false)
    (hscope : scopeOf site.around.constructs = some key) :
    site.declares? = some (key, site.name.lexeme) := by
  unfold Site.declares?
  rw [huse, hscope]
  rfl

/-- The binder is the only declaration of its name in its scope. -/
theorem eq_binder (hids : (bodyIds stmts).Nodup)
    (hfound : (Resolution.ofProgram stmts).found = []) (hbinder : binder ∈ programSites stmts)
    (huse : binder.use = .declare ∨ binder.use = .parameter)
    (hkey : scopeOf binder.around.constructs = some key) {site : Site}
    (hsite : site ∈ programSites stmts) (hdeclares : site.use.isReference = false)
    (hscope : scopeOf site.around.constructs = some key)
    (hname : site.name.lexeme = binder.name.lexeme) : site = binder := by
  have hreference : binder.use.isReference = false := by
    obtain h | h := huse <;> rw [h] <;> rfl
  refine ofProgram_declares_once hids hfound hsite hbinder
    (Site.declares?_eq_some hdeclares hscope) ?_
  rw [hname]
  exact Site.declares?_eq_some hreference hkey

/-- A reference is renamed if it refers to the binder. -/
theorem mem_tags_reference (hproper : ProperBody P stmts) (hids : (bodyIds stmts).Nodup)
    (huse : binder.use = .declare ∨ binder.use = .parameter)
    (hkey : scopeOf binder.around.constructs = some key) {site : Site}
    (hsite : site ∈ programSites stmts) (href : site.use = .read ∨ site.use = .write) :
    site.tag ∈ (occurrences binder stmts).map Site.tag ↔
      site.construct?.map Construct.id = some key ∧ site.name.lexeme = binder.name.lexeme := by
  have hreference : site.use.isReference = true := by
    obtain h | h := href <;> rw [h] <;> rfl
  have hrefers : site.refersTo binder = true ↔
      site.construct?.map Construct.id = some key ∧ site.name.lexeme = binder.name.lexeme := by
    simp only [Site.refersTo, hreference, hkey, Bool.true_and, Bool.and_eq_true, beq_iff_eq]
    exact and_comm
  rw [← hrefers]
  constructor
  · intro h
    obtain ⟨other, hother, htag⟩ := List.mem_map.1 h
    have htaguse : other.use = site.use := congrArg Prod.fst htag
    have htagid : other.id = site.id := congrArg (fun t => t.2.1) htag
    obtain rfl | hother := List.mem_cons.1 hother
    · rw [htaguse] at huse
      obtain h | h := huse <;> rw [h] at href <;> simp at href
    · obtain ⟨hmem, hrefers⟩ := List.mem_filter.1 hother
      have hnode : site.node? = some site.id := by
        refine if_neg fun h => ?_
        rw [h] at href
        simp at href
      have hnode' : other.node? = some site.id := by
        unfold Site.node?
        rw [htaguse, htagid]
        exact hnode
      obtain rfl := programSites_node_once hproper hids hsite hmem hnode hnode'
      exact hrefers
  · intro h
    exact List.mem_map.2 ⟨site, List.mem_cons_of_mem _ (List.mem_filter.2 ⟨hsite, h⟩), rfl⟩

/-- A declaration is renamed if it is the binder. -/
theorem mem_tags_declaration (hproper : ProperBody P stmts) (hids : (bodyIds stmts).Nodup)
    (hfound : (Resolution.ofProgram stmts).found = []) (hbinder : binder ∈ programSites stmts)
    (huse : binder.use = .declare ∨ binder.use = .parameter)
    (hkey : scopeOf binder.around.constructs = some key) {site : Site}
    (hsite : site ∈ programSites stmts) (hdecl : site.use = .declare ∨ site.use = .parameter) :
    site.tag ∈ (occurrences binder stmts).map Site.tag ↔
      scopeOf site.around.constructs = some key ∧ site.name.lexeme = binder.name.lexeme := by
  have hdeclares : site.use.isReference = false := by
    obtain h | h := hdecl <;> rw [h] <;> rfl
  constructor
  · intro h
    obtain ⟨other, hother, htag⟩ := List.mem_map.1 h
    have htaguse : other.use = site.use := congrArg Prod.fst htag
    have htagid : other.id = site.id := congrArg (fun t => t.2.1) htag
    have htagname : other.name.lexeme = site.name.lexeme := congrArg (fun t => t.2.2) htag
    obtain rfl | hother := List.mem_cons.1 hother
    · refine ⟨?_, htagname.symm⟩
      obtain hdecl | hparameter := hdecl
      · have hnode : site.node? = some site.id := by simp [Site.node?, hdecl]
        have hnode' : other.node? = some site.id := by simp [Site.node?, htaguse, hdecl, htagid]
        obtain rfl := programSites_node_once hproper hids hsite hbinder hnode hnode'
        exact hkey
      · have hlabelled := programSites_labelled hproper
        rw [hlabelled.parameter site hsite hparameter, ← htagid,
          ← hlabelled.parameter other hbinder (htaguse.trans hparameter), hkey]
    · obtain ⟨_, hrefers⟩ := List.mem_filter.1 hother
      simp only [Site.refersTo, htaguse, hdeclares, Bool.false_and, Bool.false_eq_true] at hrefers
  · rintro ⟨hscope, hname⟩
    rw [eq_binder hids hfound hbinder huse hkey hsite hdeclares hscope hname]
    exact List.mem_map.2 ⟨binder, List.mem_cons_self, rfl⟩

theorem Site.naming_eq {site : Site} {c : Prop} [Decidable c]
    (h : site.tag ∈ (occurrences binder stmts).map Site.tag ↔ c) :
    binder.naming new stmts site.use site.id site.name =
      { site.name with lexeme := if c then new else site.name.lexeme } := by
  by_cases hc : c
  · rw [if_pos hc]
    exact if_pos (h.2 hc)
  · rw [if_neg hc]
    exact if_neg (mt h.1 hc)

variable (hold : binder.name.lexeme ≠ "this" ∧ binder.name.lexeme ≠ "super")
  (hnew : new ≠ "this" ∧ new ≠ "super")

/-- **Renaming a local variable is respelling its name in its scope.** -/
theorem renamed_eq (hproper : ProperBody P stmts)
    (hids : (bodyIds stmts).Nodup) (hfound : (Resolution.ofProgram stmts).found = [])
    (hbinder : binder ∈ programSites stmts)
    (huse : binder.use = .declare ∨ binder.use = .parameter)
    (hkey : scopeOf binder.around.constructs = some key) :
    renamed binder new stmts =
      (Spelling.inScope key binder.name.lexeme new hold hnew).stmts .outermost stmts := by
  refine Spelling.stmts_eq (r := {}) rfl stmts hproper fun site hsite =>
    ⟨fun href => ?_, fun hdecl => ?_⟩
  · rw [Site.naming_eq (mem_tags_reference hproper hids huse hkey hsite href), Spelling.reference,
      Spelling.spellIn_inScope]
    rfl
  · rw [Site.naming_eq (mem_tags_declaration hproper hids hfound hbinder huse hkey hsite hdecl),
      Spelling.declaration, Spelling.spellIn_inScope]
    rfl

/-- Functions and classes are spelled as they are. -/
theorem renamed_keeps (hids : (bodyIds stmts).Nodup)
    (hfound : (Resolution.ofProgram stmts).found = []) (hbinder : binder ∈ programSites stmts)
    (huse : binder.use = .declare ∨ binder.use = .parameter)
    (hkey : scopeOf binder.around.constructs = some key) :
    (Spelling.inScope key binder.name.lexeme new hold hnew).Keeps (programSites stmts) := by
  intro site hsite hnamed
  have hdeclares : site.use.isReference = false := by
    obtain h | h := hnamed <;> rw [h] <;> rfl
  rw [Spelling.spellIn_inScope]
  refine if_neg fun h => ?_
  obtain rfl := eq_binder hids hfound hbinder huse hkey hsite hdeclares h.1 h.2
  obtain h | h := huse <;> rw [h] at hnamed <;> simp at hnamed

end Binder

end LoxLang
