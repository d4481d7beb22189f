import LoxLang.Proofs.Scope.Sites
import LoxLang.Proofs.Scope.Table
import LoxLang.Proofs.Tree.Proper

/-!
# Sites are told apart

Nodes have numbers of their own, so that a number stands for one site at most.  And in a program
without static errors no block and no function declares a name twice: its number together with a
name stands for one declaration at most, whether of a variable, a parameter, a function or a class.

Principal results: `programSites_node_once`, `Resolution.stmt_apart`, `ofProgram_declares_once`.
-/

namespace LoxLang

/-- The number of the block, function or class that opens a scope. -/
def Construct.id : Construct → Nat
  | .block id => id
  | .routine id => id
  | .receiver id _ => id
  | .base id => id

/-- The number of the innermost scope. -/
def scopeOf (cs : List Construct) : Option Nat := cs.head?.map Construct.id

/-- What is found in a list without duplicates is found once. -/
theorem eq_of_filterMap {α β : Type} {f : α → Option β} {a b : α} {d : β} (ha : f a = some d)
    (hb : f b = some d) : ∀ {l : List α}, (l.filterMap f).Nodup → a ∈ l → b ∈ l → a = b
  | first :: rest, h, hmem, hmem' => by
    have hfirst : ∀ other ∈ rest, f other = some d → f first ≠ some d := by
      intro other hother hothers hfirsts
      rw [List.filterMap_cons_some hfirsts, List.nodup_cons] at h
      exact h.1 (List.mem_filterMap.2 ⟨other, hother, hothers⟩)
    have hrest : (rest.filterMap f).Nodup := ((List.sublist_cons_self _ _).filterMap f).nodup h
    obtain rfl | hin := List.mem_cons.1 hmem
    · obtain rfl | hin' := List.mem_cons.1 hmem'
      · rfl
      · exact absurd ha (hfirst b hin' hb)
    · obtain rfl | hin' := List.mem_cons.1 hmem'
      · exact absurd hb (hfirst a hin ha)
      · exact eq_of_filterMap ha hb hrest hin hin'

/-! ## Numbers -/

/-- The number of the node that a site is.  A parameter is no node. -/
def Site.node? (site : Site) : Option Nat := if site.use = .parameter then none else some site.id

/-- Sites are numbered by the nodes that they are, parameters by the function whose scope they
belong to, and what declares is a name. -/
structure Labelled (P : Token → Prop) (ids : List Nat) (sites : List Site) : Prop where
  count : ∀ i, (sites.filterMap Site.node?).count i ≤ ids.count i
  parameter : ∀ site ∈ sites, site.use = .parameter →
    scopeOf site.around.constructs = some site.id
  named : ∀ site ∈ sites, site.use.isReference = false → ProperName P site.name

namespace Labelled

variable {P : Token → Prop} {ids ids' : List Nat} {sites sites' : List Site}

theorem nil : Labelled P ids [] := ⟨by simp, by simp, by simp⟩

theorem append (h : Labelled P ids sites) (h' : Labelled P ids' sites') :
    Labelled P (ids ++ ids') (sites ++ sites') where
  count i := by
    rw [List.filterMap_append, List.count_append, List.count_append]
    exact Nat.add_le_add (h.count i) (h'.count i)
  parameter := List.forall_mem_append.2 ⟨h.parameter, h'.parameter⟩
  named := List.forall_mem_append.2 ⟨h.named, h'.named⟩

theorem node {use : Use} {id : Nat} {name : Token} {around : Surroundings}
    (huse : use ≠ .parameter) (hname : use.isReference = false → ProperName P name)
    (h : Labelled P ids sites) : Labelled P (id :: ids) (⟨use, id, name, around⟩ :: sites) where
  count i := by
    have hnode : Site.node? ⟨use, id, name, around⟩ = some id := if_neg huse
    rw [List.filterMap_cons_some hnode, List.count_cons, List.count_cons]
    exact Nat.add_le_add_right (h.count i) _
  parameter := List.forall_mem_cons.2 ⟨fun h => absurd h huse, h.parameter⟩
  named := List.forall_mem_cons.2 ⟨hname, h.named⟩

theorem reference {use : Use} {id : Nat} {name : Token} {around : Surroundings}
    (huse : use.isReference = true) : Labelled P [id] [⟨use, id, name, around⟩] := by
  refine .node ?_ (fun h => ?_) .nil
  · rintro rfl
    cases huse
  · rw [huse] at h
    cases h

theorem mono (h : Labelled P ids sites) (hids : ids.Sublist ids') : Labelled P ids' sites :=
  { h with count := fun i => Nat.le_trans (h.count i) (hids.count_le i) }

theorem perm (h : Labelled P ids sites) (hids : ids.Perm ids') : Labelled P ids' sites :=
  { h with count := fun i => hids.count_eq i ▸ h.count i }

/-- Below a node that is no site. -/
theorem under {id : Nat} (h : Labelled P ids sites) : Labelled P (id :: ids) sites :=
  h.mono (List.sublist_cons_self _ _)

end Labelled

section

variable {P : Token → Prop}

mutual

theorem exprSites_labelled (cs : List Construct) (init : Option Declared) (r : Resolution) :
    ∀ e : Expr, Labelled P e.ids (exprSites cs init r e)
  | .literal .. => .nil
  | .grouping _ inner => (exprSites_labelled cs init r inner).under
  | .unary _ _ operand => (exprSites_labelled cs init r operand).under
  | .binary _ left _ right => by
    rw [Expr.ids_binary]
    exact ((exprSites_labelled cs init r left).append
      (exprSites_labelled cs init _ right)).under
  | .logical _ left _ right => by
    rw [Expr.ids_logical]
    exact ((exprSites_labelled cs init r left).append
      (exprSites_labelled cs init _ right)).under
  | .var .. => .reference rfl
  | .assign id _ value => by
    rw [Expr.ids_assign]
    exact ((exprSites_labelled cs init r value).append (.reference rfl)).perm
      List.perm_append_comm
  | .call _ callee _ args => by
    rw [Expr.ids_call]
    exact ((exprSites_labelled cs init r callee).append (argSites_labelled cs init _ args)).under
  | .get _ object _ => (exprSites_labelled cs init r object).under
  | .set _ object _ value => by
    rw [Expr.ids_set]
    exact (((exprSites_labelled cs init r value).append
      (exprSites_labelled cs init _ object)).perm List.perm_append_comm).under
  | .this .. => .reference rfl
  | .super .. => .reference rfl

theorem argSites_labelled (cs : List Construct) (init : Option Declared) (r : Resolution) :
    ∀ args : List Expr, Labelled P (argIds args) (argSites cs init r args)
  | [] => .nil
  | e :: es => by
    rw [argIds_cons]
    exact (exprSites_labelled cs init r e).append (argSites_labelled cs init _ es)

end

theorem superclassSites_labelled (cs : List Construct) (r : Resolution) (name : Token)
    (superclass : Option Superclass) :
    Labelled P (optionIds (fun s => [s.id]) superclass) (superclassSites cs r name superclass) := by
  cases superclass with
  | none => exact .nil
  | some s => exact .reference rfl

theorem parameterSites_labelled (cs : List Construct) (id : Nat) {params : List Token}
    (h : ∀ name ∈ params, ProperName P name) :
    ∀ r, Labelled P [] (parameterSites (.routine id :: cs) id r params) := by
  induction params with
  | nil => exact fun _ => .nil
  | cons name params ih =>
    intro r
    obtain ⟨hname, hparams⟩ := List.forall_mem_cons.1 h
    have hrest := ih hparams ((r.declare name).define name)
    exact ⟨hrest.count, List.forall_mem_cons.2 ⟨fun _ => rfl, hrest.parameter⟩,
      List.forall_mem_cons.2 ⟨fun _ => hname, hrest.named⟩⟩

mutual

theorem stmtSites_labelled (cs : List Construct) (r : Resolution) :
    ∀ s : Stmt, s.Proper P → Labelled P s.ids (stmtSites cs r s)
  | .malformed, _ => .nil
  | .expression _ value, _ => (exprSites_labelled cs none r value).under
  | .print _ value, _ => (exprSites_labelled cs none r value).under
  | .declare _ name none, h => .node (by decide) (fun _ => h) .nil
  | .declare _ name (some value), h =>
    .node (by decide) (fun _ => h.1) (exprSites_labelled cs _ _ value)
  | .block id body, h => (bodySites_labelled (.block id :: cs) _ body h).under
  | .conditional _ cond thenBranch none, h => by
    rw [Stmt.ids_conditional, optionIds, List.append_nil]
    exact ((exprSites_labelled cs none r cond).append
      (stmtSites_labelled cs _ thenBranch h.2.1)).under
  | .conditional _ cond thenBranch (some elseBranch), h => by
    rw [Stmt.ids_conditional]
    exact (((exprSites_labelled cs none r cond).append
      (stmtSites_labelled cs _ thenBranch h.2.1.1)).append
      (stmtSites_labelled cs _ elseBranch h.2.2.1)).under
  | .loop _ cond body, h => by
    rw [Stmt.ids_loop]
    exact ((exprSites_labelled cs none r cond).append (stmtSites_labelled cs _ body h.2.1)).under
  | .function ⟨id, name, params, body⟩, h =>
    .node (by decide) (fun _ => h.1)
      (functionSites_labelled cs _ .function ⟨id, name, params, body⟩ h)
  | .ret _ _ none, _ => .nil
  | .ret _ keyword (some value), _ => (exprSites_labelled cs none _ value).under
  | .classDecl id name superclass methods, h => by
    rw [Stmt.ids_classDecl]
    exact .node (by decide) (fun _ => h.1) ((superclassSites_labelled cs r name superclass).append
      (methodSites_labelled _ _ methods h.2.2))

theorem bodySites_labelled (cs : List Construct) (r : Resolution) :
    ∀ body : List Stmt, ProperBody P body → Labelled P (bodyIds body) (bodySites cs r body)
  | [], _ => .nil
  | s :: ss, h => by
    rw [bodyIds_cons]
    exact (stmtSites_labelled cs r s h.1).append (bodySites_labelled cs _ ss h.2)

theorem functionSites_labelled (cs : List Construct) (r : Resolution) (routine : Routine) :
    ∀ f : Function, ProperFunction P f →
    Labelled P (bodyIds f.body) (functionSites cs r routine f)
  | ⟨id, _, _, body⟩, h =>
    (parameterSites_labelled cs id h.2.1.1 _).append
      (bodySites_labelled (.routine id :: cs) _ body h.2.2)

theorem methodSites_labelled (cs : List Construct) (r : Resolution) :
    ∀ methods : List Function, ProperMethods P methods →
    Labelled P (methodIds methods) (methodSites cs r methods)
  | [], _ => .nil
  | f :: fs, h => by
    rw [methodIds_cons]
    obtain ⟨id, name, params, body⟩ := f
    exact (functionSites_labelled cs r _ ⟨id, name, params, body⟩ h.1).under.append
      (methodSites_labelled cs _ fs h.2)

end

theorem programSites_labelled {stmts : List Stmt} (h : ProperBody P stmts) :
    Labelled P (bodyIds stmts) (programSites stmts) := bodySites_labelled [] {} stmts h

/-- **The number of a node stands for one site.** -/
theorem programSites_node_once {stmts : List Stmt} (h : ProperBody P stmts)
    (hids : (bodyIds stmts).Nodup) {site site' : Site} (hmem : site ∈ programSites stmts)
    (hmem' : site' ∈ programSites stmts) {i : Nat} (hi : site.node? = some i)
    (hi' : site'.node? = some i) : site = site' := by
  refine eq_of_filterMap hi hi' (List.nodup_iff_count.2 fun j => ?_) hmem hmem'
  exact Nat.le_trans ((programSites_labelled h).count j) (List.nodup_iff_count.1 hids j)

end

/-! ## Declarations -/

/-- The scope and the name of a local declaration. -/
def Site.declares? (site : Site) : Option (Nat × String) :=
  if site.use.isReference then none
  else (scopeOf site.around.constructs).map (·, site.name.lexeme)

def declarations (sites : List Site) : List (Nat × String) := sites.filterMap Site.declares?

@[simp] theorem declarations_nil : declarations [] = [] := rfl

@[simp] theorem declarations_append (sites sites' : List Site) :
    declarations (sites ++ sites') = declarations sites ++ declarations sites' :=
  List.filterMap_append

theorem declarations_cons (site : Site) (sites : List Site) :
    declarations (site :: sites) = site.declares?.toList ++ declarations sites := by
  unfold declarations
  rw [List.filterMap_cons]
  cases site.declares? <;> rfl

/-! ## Names in the innermost scope -/

/-- No scope is open, or the innermost one does not have the name. -/
def New (name : String) (scopes : List (Bindings Bool)) : Prop :=
  ∀ scope ∈ scopes.head?, scope.contains name = false

theorem New.of_markAll {name : String} {names : List String} {scopes : List (Bindings Bool)}
    (h : New name (markAll names scopes)) :
    New name scopes ∧ (scopes ≠ [] → name ∉ names) := by
  cases scopes with
  | nil => exact ⟨fun scope hscope => (by cases hscope), fun hne => absurd rfl hne⟩
  | cons scope outer =>
    rw [markAll_cons] at h
    have hfalse := h _ rfl
    rw [Bindings.contains, find?_foldl_put] at hfalse
    by_cases hmem : name ∈ names
    · simp [hmem] at hfalse
    · rw [if_neg hmem] at hfalse
      refine ⟨fun first hfirst => ?_, fun _ => hmem⟩
      cases hfirst
      exact hfalse

/-! ## Parts of a program -/

/-- The declarations of a part of a program: each belongs to the scope around the part, where it is
new, or to a scope with one of the numbers. -/
structure Apart (k : Option Nat) (scopes : List (Bindings Bool)) (names : List String)
    (ids : List Nat) (ds : List (Nat × String)) : Prop where
  nodup : ds.Nodup
  place : ∀ d ∈ ds, d.1 ∈ ids ∨ k = some d.1 ∧ d.2 ∈ names ∧ New d.2 scopes

namespace Apart

variable {k : Option Nat} {scopes : List (Bindings Bool)} {names names' : List String}
  {ids ids' : List Nat} {ds ds' : List (Nat × String)}

theorem nil : Apart k scopes names ids [] := ⟨List.nodup_nil, by simp⟩

theorem mono (h : Apart k scopes names ids ds) (hids : ∀ i ∈ ids, i ∈ ids') :
    Apart k scopes names ids' ds :=
  ⟨h.nodup, fun d hd => (h.place d hd).imp_left (hids _)⟩

/-- A declaration in the scope around. -/
theorem declaration {name : String} (hnew : New name scopes) :
    Apart k scopes [name] [] (k.map (·, name)).toList := by
  cases k with
  | none => exact .nil
  | some i =>
    refine ⟨by simp, fun d hd => .inr ?_⟩
    obtain rfl := List.mem_singleton.1 hd
    exact ⟨rfl, List.mem_singleton.2 rfl, hnew⟩

/-- Two parts, one behind the other. -/
theorem append (h : Apart k scopes names ids ds)
    (h' : Apart k (markAll names scopes) names' ids' ds') (hn : (ids ++ ids').Nodup)
    (hk : ∀ i ∈ k, i ∉ ids ++ ids') (hopen : k ≠ none → scopes ≠ []) :
    Apart k scopes (names ++ names') (ids ++ ids') (ds ++ ds') := by
  refine ⟨List.nodup_append.2 ⟨h.nodup, h'.nodup, ?_⟩, fun d hd => ?_⟩
  · rintro d hd _ hd' rfl
    obtain hin | ⟨hhere, hname, _⟩ := h.place d hd
    · obtain hin' | ⟨hhere', _, _⟩ := h'.place d hd'
      · exact (List.nodup_append.1 hn).2.2 _ hin _ hin' rfl
      · exact hk _ hhere' (List.mem_append_left _ hin)
    · obtain hin' | ⟨_, _, hnew'⟩ := h'.place d hd'
      · exact hk _ hhere (List.mem_append_right _ hin')
      · exact hnew'.of_markAll.2 (hopen (by rw [hhere]; exact Option.some_ne_none _)) hname
  · obtain hd | hd := List.mem_append.1 hd
    · exact (h.place d hd).imp (List.mem_append_left _)
        fun hhere => ⟨hhere.1, List.mem_append_left _ hhere.2.1, hhere.2.2⟩
    · exact (h'.place d hd).imp (List.mem_append_right _)
        fun hhere => ⟨hhere.1, List.mem_append_right _ hhere.2.1, hhere.2.2.of_markAll.1⟩

/-- What a scope of its own declares. -/
theorem enclosed {id : Nat} {scopes' : List (Bindings Bool)}
    (h : Apart (some id) scopes' names' ids ds) : Apart k scopes names (id :: ids) ds := by
  refine ⟨h.nodup, fun d hd => .inl ?_⟩
  obtain hin | ⟨hhere, _⟩ := h.place d hd
  · exact List.mem_cons_of_mem _ hin
  · rw [← Option.some.inj hhere]
    exact List.mem_cons_self

/-- What no scope around declares is the same wherever it stands. -/
theorem inner (h : Apart none scopes names ids ds) (names' : List String)
    {scopes' : List (Bindings Bool)} : Apart k scopes' names' ids ds :=
  ⟨h.nodup, fun d hd => (h.place d hd).imp_right fun hhere => by cases hhere.1⟩

end Apart

namespace Resolution

/-- The sites of an expression are references. -/
theorem declarations_exprSites (cs : List Construct) (init : Option Declared) (r : Resolution)
    (e : Expr) : declarations (exprSites cs init r e) = [] := by
  refine List.filterMap_eq_nil_iff.2 fun site hsite => ?_
  -- no token is a name for this predicate, so that nothing declares
  have hlabelled : Labelled (fun _ => False) e.ids (exprSites cs init r e) :=
    exprSites_labelled cs init r e
  cases huse : site.use.isReference with
  | true => simp only [Site.declares?, huse, if_true]
  | false => exact (hlabelled.named site hsite huse).2.elim

theorem declarations_superclassSites (cs : List Construct) (r : Resolution) (name : Token)
    (superclass : Option Superclass) :
    declarations (superclassSites cs r name superclass) = [] := by
  cases superclass <;> rfl

theorem declare_define_found {r : Resolution} {name : Token}
    (h : ((r.declare name).define name).found = []) : (r.declare name).found = [] :=
  ((r.declare name).mark_routine name.lexeme true).2.2.1 ▸ h

/-- A declaration without a problem is that of a new name. -/
theorem declare_new {r : Resolution} {name : Token} (h : (r.declare name).found = []) :
    New name.lexeme r.scopes := by
  intro scope hscope
  unfold declare at h
  rw [(mark_routine _ _ _).2.2.1] at h
  cases hs : r.scopes with
  | nil => rw [hs] at hscope; cases hscope
  | cons first outer =>
    rw [hs] at hscope h
    cases hscope
    cases hc : scope.contains name.lexeme with
    | false => rfl
    | true =>
      simp only [hc, if_true] at h
      simp [note] at h

theorem enterClass_new {r : Resolution} {name : Token} {superclass : Option Superclass}
    (h : (r.enterClass name superclass).found = []) : New name.lexeme r.scopes := by
  have hdeclared : ∀ r', ({ r with enclosing := .plain }.declare name).define name = r' →
      r'.found = [] := by
    intro r' hr'
    cases superclass with
    | none => exact hr' ▸ h
    | some s =>
      rw [enterClass_of_ne hr' (superclass_ne h)] at h
      exact found_eq_nil (r := { r' with enclosing := .subclass }) (read_passed _ s.id s.name) h
  exact declare_new (r := { r with enclosing := .plain }) (declare_define_found (hdeclared _ rfl))

/-- The parameters of a function are declared in its scope, each once. -/
theorem parameters_apart (cs : List Construct) (id : Nat) :
    ∀ (params : List Token) (r : Resolution), (r.parameters params).found = [] →
    r.scopes ≠ [] → Apart (scopeOf cs) r.scopes (params.map (·.lexeme)) []
      (declarations (parameterSites cs id r params))
  | [], _, _, _ => .nil
  | name :: params, r, hf, hopen => by
    have hdeclared := r.declare_define_passed name
    obtain ⟨_, _, _, hfound⟩ := parameters_keeps params ((r.declare name).define name)
    have hf₁ : ((r.declare name).define name).found = [] := by
      rw [show ((r.declare name).define name).parameters params = r.parameters (name :: params)
        from rfl, hf, List.prefix_nil] at hfound
      exact hfound
    have hopen₁ : ((r.declare name).define name).scopes ≠ [] := by
      rw [hdeclared.scopes]
      cases hs : r.scopes with
      | nil => exact absurd hs hopen
      | cons scope outer => exact List.cons_ne_nil _ _
    have hrest := parameters_apart cs id params ((r.declare name).define name) hf hopen₁
    rw [hdeclared.scopes] at hrest
    rw [parameterSites, declarations_cons]
    exact (Apart.declaration (declare_new (declare_define_found hf₁))).append hrest (by simp)
      (by simp) fun _ => hopen

theorem markAll_ne_nil {names : List String} {scopes : List (Bindings Bool)} (h : scopes ≠ []) :
    markAll names scopes ≠ [] := by
  cases scopes with
  | nil => exact absurd rfl h
  | cons scope outer =>
    rw [markAll_cons]
    exact List.cons_ne_nil _ _

mutual

/-- **The declarations of a statement are apart.** -/
theorem stmt_apart (cs : List Construct) (r : Resolution) : ∀ s : Stmt, s.ids.Nodup →
    (r.stmt s).found = [] → (∀ i ∈ scopeOf cs, i ∉ s.ids) →
    (scopeOf cs ≠ none → r.scopes ≠ []) →
    Apart (scopeOf cs) r.scopes s.declared s.ids (declarations (stmtSites cs r s))
  | .malformed, _, _, _, _ => .nil
  | .expression _ value, _, _, _, _ => by
    rw [stmtSites, declarations_exprSites]
    exact .nil
  | .print _ value, _, _, _, _ => by
    rw [stmtSites, declarations_exprSites]
    exact .nil
  | .declare id name none, _, hf, _, _ => by
    rw [stmtSites, declarations_cons, declarations_nil, List.append_nil]
    exact (Apart.declaration (declare_new (declare_define_found hf))).mono (by simp)
  | .declare id name (some value), _, hf, _, _ => by
    have hf' : ((r.declare name).expr value).found = [] :=
      (mark_routine _ name.lexeme true).2.2.1 ▸ hf
    rw [stmtSites, declarations_cons, declarations_exprSites, List.append_nil]
    exact (Apart.declaration (declare_new (found_eq_nil (expr_passed _ value) hf'))).mono (by simp)
  | .block id body, hn, hf, _, _ => by
    rw [Stmt.ids_block, List.nodup_cons] at hn
    have hbody := body_apart (.block id :: cs) r.openScope body hn.2 hf
      (fun i hi => by cases hi; exact hn.1) fun _ => List.cons_ne_nil _ _
    exact hbody.enclosed
  | .conditional _ cond thenBranch none, hn, hf, hk, hopen => by
    rw [Stmt.ids_conditional, List.nodup_cons, optionIds, List.append_nil] at hn
    have hthen := stmt_apart cs (r.expr cond) thenBranch (List.nodup_append.1 hn.2).2.1 hf
      (fun i hi hmem => hk i hi (by simp [hmem])) (by rwa [expr_scopes])
    rw [expr_scopes] at hthen
    rw [stmtSites, declarations_append, declarations_exprSites, List.nil_append]
    exact hthen.mono fun i hi => by simp [hi]
  | .conditional _ cond thenBranch (some elseBranch), hn, hf, hk, hopen => by
    rw [Stmt.ids_conditional, List.nodup_cons, optionIds, List.append_assoc] at hn
    have hbranches := (List.nodup_append.1 hn.2).2.1
    obtain ⟨hnthen, hnelse, _⟩ := List.nodup_append.1 hbranches
    have hpassed := (r.expr cond).stmt_passed thenBranch
    have hthen := stmt_apart cs (r.expr cond) thenBranch hnthen
      (found_eq_nil (stmt_passed _ elseBranch) hf) (fun i hi hmem => hk i hi (by simp [hmem]))
      (by rwa [expr_scopes])
    have helse := stmt_apart cs ((r.expr cond).stmt thenBranch) elseBranch hnelse hf
      (fun i hi hmem => hk i hi (by simp [optionIds, hmem]))
      (fun hsome => by rw [hpassed.scopes, expr_scopes]; exact markAll_ne_nil (hopen hsome))
    rw [hpassed.scopes, expr_scopes] at helse
    rw [expr_scopes] at hthen
    rw [stmtSites, declarations_append, declarations_append, declarations_exprSites,
      List.nil_append]
    refine (hthen.append helse hbranches (fun i hi hmem => hk i hi ?_) hopen).mono fun i hi => ?_
    · simp_all [optionIds]
    · simp_all [optionIds]
  | .loop _ cond body, hn, hf, hk, hopen => by
    rw [Stmt.ids_loop, List.nodup_cons] at hn
    have hbody := stmt_apart cs (r.expr cond) body (List.nodup_append.1 hn.2).2.1 hf
      (fun i hi hmem => hk i hi (by simp [hmem])) (by rwa [expr_scopes])
    rw [expr_scopes] at hbody
    rw [stmtSites, declarations_append, declarations_exprSites, List.nil_append]
    exact hbody.mono fun i hi => by simp [hi]
  | .function decl, hn, hf, hk, hopen => by
    have hf' := found_eq_nil (function_passed _ .function decl) hf
    have hdecl := function_apart cs _ .function decl hn hf
    rw [stmtSites, declarations_cons]
    exact (Apart.declaration (declare_new (declare_define_found hf'))).append
      (hdecl.inner []) hn hk hopen
  | .ret _ _ none, _, _, _, _ => .nil
  | .ret _ keyword (some value), _, _, _, _ => by
    rw [stmtSites, declarations_exprSites]
    exact .nil
  | .classDecl id name superclass methods, hn, hf, hk, hopen => by
    rw [Stmt.ids_classDecl, List.nodup_cons] at hn
    obtain ⟨_, _, hfound, _⟩ :=
      ((r.enterClass name superclass).methods methods).leaveClass_keeps superclass r.enclosing
    have hf' : ((r.enterClass name superclass).methods methods).found = [] := hfound ▸ hf
    have hnmethods := (List.nodup_append.1 hn.2).2.1
    have hmethods := methods_apart (classConstructs id superclass methods ++ cs) _ methods
      hnmethods hf'
    have hnew := enterClass_new (found_eq_nil (methods_passed _ methods) hf')
    rw [stmtSites, declarations_cons, declarations_append, declarations_superclassSites,
      List.nil_append]
    refine ((Apart.declaration hnew).append (hmethods.inner []) hnmethods
      (fun i hi hmem => hk i hi ?_) hopen).mono fun i hi => ?_
    · simp_all
    · simp_all

theorem body_apart (cs : List Construct) (r : Resolution) : ∀ body : List Stmt,
    (bodyIds body).Nodup → (r.body body).found = [] → (∀ i ∈ scopeOf cs, i ∉ bodyIds body) →
    (scopeOf cs ≠ none → r.scopes ≠ []) →
    Apart (scopeOf cs) r.scopes (body.flatMap Stmt.declared) (bodyIds body)
      (declarations (bodySites cs r body))
  | [], _, _, _, _ => .nil
  | s :: ss, hn, hf, hk, hopen => by
    rw [bodyIds_cons] at hn hk ⊢
    obtain ⟨hns, hnss, _⟩ := List.nodup_append.1 hn
    have hpassed := r.stmt_passed s
    have hfirst := stmt_apart cs r s hns (found_eq_nil (body_passed _ ss) hf)
      (fun i hi hmem => hk i hi (List.mem_append_left _ hmem)) hopen
    have hrest := body_apart cs (r.stmt s) ss hnss hf
      (fun i hi hmem => hk i hi (List.mem_append_right _ hmem))
      (fun hsome => by rw [hpassed.scopes]; exact markAll_ne_nil (hopen hsome))
    rw [hpassed.scopes] at hrest
    rw [bodySites, declarations_append, List.flatMap_cons]
    exact hfirst.append hrest hn hk hopen

theorem function_apart (cs : List Construct) (r : Resolution) (routine : Routine) :
    ∀ f : Function, (functionIds f).Nodup → (r.function routine f).found = [] →
    Apart none [] [] (functionIds f) (declarations (functionSites cs r routine f))
  | ⟨id, _, params, body⟩, hn, hf => by
    rw [functionIds_mk, List.nodup_cons] at hn
    obtain ⟨hscopes, _⟩ := parameters_keeps params { r with routine }.openScope
    have hf' : (({ r with routine }.openScope.parameters params).body body).found = [] := hf
    have hopen : { r with routine }.openScope.scopes ≠ [] := List.cons_ne_nil _ _
    have hparams := parameters_apart (.routine id :: cs) id params { r with routine }.openScope
      (found_eq_nil (body_passed _ body) hf') hopen
    have hbody := body_apart (.routine id :: cs) ({ r with routine }.openScope.parameters params)
      body hn.2 hf' (fun i hi => by cases hi; exact hn.1)
      (fun _ => by rw [hscopes]; exact markAll_ne_nil hopen)
    rw [hscopes] at hbody
    rw [functionSites, declarations_append]
    exact (hparams.append hbody (by simpa using hn.2)
      (fun i hi => by cases hi; exact hn.1) fun _ => hopen).enclosed

theorem methods_apart (cs : List Construct) (r : Resolution) :
    ∀ methods : List Function, (methodIds methods).Nodup → (r.methods methods).found = [] →
    Apart none [] [] (methodIds methods) (declarations (methodSites cs r methods))
  | [], _, _ => .nil
  | f :: fs, hn, hf => by
    rw [methodIds_cons] at hn ⊢
    obtain ⟨hnf, hnfs, _⟩ := List.nodup_append.1 hn
    have hfirst := function_apart cs r (methodRoutine f.name) f hnf
      (found_eq_nil (methods_passed _ fs) hf)
    have hrest := methods_apart cs _ fs hnfs hf
    rw [methodSites, declarations_append]
    exact hfirst.append hrest hn (by simp) (by simp)

end

end Resolution

/-- **In a program without static errors no scope declares a name twice.** -/
theorem ofProgram_declares_once {stmts : List Stmt} (hids : (bodyIds stmts).Nodup)
    (hfound : (Resolution.ofProgram stmts).found = []) {site site' : Site}
    (hmem : site ∈ programSites stmts) (hmem' : site' ∈ programSites stmts) {d : Nat × String}
    (hd : site.declares? = some d) (hd' : site'.declares? = some d) : site = site' :=
  eq_of_filterMap hd hd' (Resolution.body_apart [] {} stmts hids hfound (by simp [scopeOf])
    (by simp [scopeOf])).nodup hmem hmem'

end LoxLang
