import Mathlib.Data.List.Pairwise
import LoxLang.Proofs.Grammar.Numbering
import LoxLang.Proofs.Scope.Standing

/-!
# The pass does what paths say

What the pass over a program files and what it finds, compared with the definitions by paths.  On
its way from one state to another the pass adds the entries and the errors that are due at the
nodes in between; only the order differs where the pass does not go from the left to the right.

Principal results: `static_errors_are_those_due`, `distances_are_those_of_paths`.
-/

namespace LoxLang

/-! ## What is added -/

/-- Files entries in a table, one after the other. -/
def fileAll (table : Distances) (entries : List (Nat × Nat)) : Distances :=
  entries.foldl (fun table entry => table.insert entry.1 entry.2) table

/-- Between two states these entries and these problems are added, in any order. -/
structure Adds (r r' : Resolution) (entries : List (Nat × Nat)) (problems : List Diagnostic) :
    Prop where
  table : ∃ filed, r'.table = fileAll r.table filed ∧ filed.Perm entries
  found : ∃ noted, r'.found = r.found ++ noted ∧ noted.Perm problems

namespace Adds

variable {r r₁ r₂ : Resolution} {es es' : List (Nat × Nat)} {ds ds' : List Diagnostic}

/-- Nothing is added. -/
theorem nothing (htable : r₁.table = r.table) (hfound : r₁.found = r.found) : Adds r r₁ [] [] :=
  ⟨⟨[], htable, .nil⟩, ⟨[], by rw [hfound, List.append_nil], .nil⟩⟩

theorem refl (r : Resolution) : Adds r r [] [] := nothing rfl rfl

theorem trans (h : Adds r r₁ es ds) (h' : Adds r₁ r₂ es' ds') :
    Adds r r₂ (es ++ es') (ds ++ ds') := by
  obtain ⟨filed, htable, hfiled⟩ := h.table
  obtain ⟨filed', htable', hfiled'⟩ := h'.table
  obtain ⟨noted, hfound, hnoted⟩ := h.found
  obtain ⟨noted', hfound', hnoted'⟩ := h'.found
  refine ⟨⟨filed ++ filed', ?_, hfiled.append hfiled'⟩,
    ⟨noted ++ noted', ?_, hnoted.append hnoted'⟩⟩
  · rw [htable', htable]
    unfold fileAll
    rw [List.foldl_append]
  · rw [hfound', hfound, List.append_assoc]

theorem perm (h : Adds r r₁ es ds) (hes : es.Perm es') (hds : ds.Perm ds') : Adds r r₁ es' ds' := by
  obtain ⟨filed, htable, hfiled⟩ := h.table
  obtain ⟨noted, hfound, hnoted⟩ := h.found
  exact ⟨⟨filed, htable, hfiled.trans hes⟩, ⟨noted, hfound, hnoted.trans hds⟩⟩

/-- A step that adds nothing, behind others. -/
theorem andNothing (h : Adds r r₁ es ds) (htable : r₂.table = r₁.table)
    (hfound : r₂.found = r₁.found) : Adds r r₂ es ds := by
  have hboth := h.trans (nothing htable hfound)
  rwa [List.append_nil, List.append_nil] at hboth

/-- A step that adds nothing, in front of others. -/
theorem afterNothing (h : Adds r₁ r₂ es ds) (htable : r₁.table = r.table)
    (hfound : r₁.found = r.found) : Adds r r₂ es ds := (nothing htable hfound).trans h

theorem note (r : Resolution) (t : Token) (problem : Problem) :
    Adds r (r.note t problem) [] [.ofToken t problem] :=
  ⟨⟨[], rfl, .nil⟩, ⟨_, rfl, .refl _⟩⟩

theorem noteIf (r : Resolution) (p : Prop) [Decidable p] (t : Token) (problem : Problem) :
    Adds r (if p then r.note t problem else r) [] (if p then [.ofToken t problem] else []) := by
  split
  · exact note r t problem
  · exact refl r

theorem refer (r : Resolution) (id : Nat) (name : Token) :
    Adds r (r.refer id name) ((distance? name.lexeme r.scopes).map fun d => (id, d)).toList [] := by
  unfold Resolution.refer
  cases distance? name.lexeme r.scopes with
  | none => exact refl r
  | some d => exact ⟨⟨[(id, d)], rfl, .refl _⟩, ⟨[], by simp, .nil⟩⟩

/-- A declaration is an error if its scope has the name. -/
theorem declare {names : List (List String)} (h : HaveNames r.scopes names) (name : Token) :
    Adds r (r.declare name) []
      (if declaresName name.lexeme names then [.ofToken name .alreadyDeclared] else []) := by
  have htable := fun q : Resolution => (q.mark_routine name.lexeme false).2.2.2
  have hfound := fun q : Resolution => (q.mark_routine name.lexeme false).2.2.1
  unfold Resolution.declare
  rw [h.declaresName]
  cases r.scopes with
  | nil => exact (refl r).andNothing (htable _) (hfound _)
  | cons scope outer =>
    exact (noteIf r _ name .alreadyDeclared).andNothing (htable _) (hfound _)

/-- The declaration of a name that can be read at once. -/
theorem declare_define {names : List (List String)} (h : HaveNames r.scopes names) (name : Token) :
    Adds r ((r.declare name).define name) []
      (if declaresName name.lexeme names then [.ofToken name .alreadyDeclared] else []) := by
  obtain ⟨_, _, hfound, htable⟩ := (r.declare name).mark_routine name.lexeme true
  exact (declare h name).andNothing htable hfound

/-- Parameters are errors if they repeat a name of their scope. -/
theorem parameters (params : List Token) : ∀ {r : Resolution} {seen : List String}
    {outer : List (List String)}, HaveNames r.scopes (seen :: outer) →
    Adds r (r.parameters params) [] ((repeated seen params).map (.ofToken · .alreadyDeclared)) := by
  induction params with
  | nil => exact fun _ => refl _
  | cons name params ih =>
    intro r seen outer h
    have hname := declare_define h name
    have hnext : HaveNames ((r.declare name).define name).scopes
        ((seen ++ [name.lexeme]) :: outer) := by
      rw [(r.declare_define_passed name).scopes]
      exact h.markAll [name.lexeme]
    have hboth : Adds r (r.parameters (name :: params)) _ _ := hname.trans (ih hnext)
    rw [repeated, List.map_append]
    by_cases hseen : name.lexeme ∈ seen
    · simpa [declaresName, hseen] using hboth
    · simpa [declaresName, hseen] using hboth

end Adds

/-! ## Expressions -/

/-- What is due at these nodes is added. -/
def Meets (r r' : Resolution) (nodes : List Occurrence) : Prop :=
  Adds r r' (nodes.filterMap Occurrence.filed?) (nodes.flatMap Occurrence.due)

namespace Meets

variable {r r₁ r₂ : Resolution} {xs ys : List Occurrence} {o : Occurrence}

theorem append (h : Meets r r₁ xs) (h' : Meets r₁ r₂ ys) : Meets r r₂ (xs ++ ys) := by
  unfold Meets
  rw [List.filterMap_append, List.flatMap_append]
  exact Adds.trans h h'

theorem perm (h : Meets r r₁ xs) (hperm : xs.Perm ys) : Meets r r₁ ys :=
  Adds.perm h (hperm.filterMap _) (hperm.flatMap_right _)

/-- A node where something is due by itself. -/
theorem single (h : Adds r r₁ o.filed?.toList o.due) : Meets r r₁ [o] := by
  unfold Meets
  rw [List.filterMap_cons, List.flatMap_singleton]
  cases hentry : o.filed? with
  | none => rw [hentry] at h; exact h
  | some entry => rw [hentry] at h; exact h

theorem cons (ho : Adds r r₁ o.filed?.toList o.due) (h : Meets r₁ r₂ xs) : Meets r r₂ (o :: xs) :=
  (single ho).append h

/-- A node where nothing is due. -/
theorem inert (hentry : o.filed? = none) (hdue : o.due = []) (h : Meets r r₁ xs) :
    Meets r r₁ (o :: xs) := by
  refine cons ?_ h
  rw [hentry, hdue]
  exact .refl r

end Meets

/-- The nodes of expressions in a row. -/
def argOccurrences (p : Path) (args : List Expr) : List Occurrence :=
  (walkArgs args).map (Occurrence.mk p)

section

variable {r : Resolution} {p : Path}

/-- A node that refers to a name. -/
theorem refer_adds (h : Standing r p) (e : Expr) {name : Token}
    (hname : e.reference? p = some name) :
    Adds r (r.refer e.id name) (Occurrence.filed? ⟨p, .expr e⟩).toList [] := by
  have hrefer := Adds.refer r e.id name
  rw [h.distance?] at hrefer
  simpa [Occurrence.filed?, hname] using hrefer

theorem read_meets (h : Standing r p) (id : Nat) (name : Token) :
    Meets r (r.read id name) [⟨p, .expr (.var id name)⟩] := by
  have hpending := h.pending name.lexeme
  rw [← r.isPending_eq] at hpending
  have hpassed := r.noteIf_passed (r.isPending name.lexeme = true) name .readInOwnInitializer
  have hnoted := Adds.noteIf r (r.isPending name.lexeme = true) name .readInOwnInitializer
  have hboth := hnoted.trans (refer_adds (h.stays hpassed) (.var id name) rfl)
  rw [List.append_nil] at hboth
  refine .single ?_
  simp only [Occurrence.due, ← hpending]
  exact hboth

theorem checkSuper_adds (h : Standing r p) (id : Nat) (keyword name : Token) :
    Adds r (r.checkSuper keyword) [] (Occurrence.due ⟨p, .expr (.super id keyword name)⟩) := by
  simp only [Resolution.checkSuper, Occurrence.due, h.enclosing]
  cases p.enclosing with
  | none => exact .note r keyword .superOutsideClass
  | plain => exact .note r keyword .superWithoutSuperclass
  | subclass => exact .refl r

theorem this_meets (h : Standing r p) (id : Nat) (keyword : Token) :
    Meets r (r.expr (.this id keyword)) [⟨p, .expr (.this id keyword)⟩] := by
  refine .single ?_
  simp only [Resolution.expr, Occurrence.due, h.enclosing]
  by_cases hclass : p.enclosing = .none
  · simp only [hclass, if_true, Occurrence.filed?, Expr.reference?, Option.bind_none,
      Option.toList_none]
    exact .note r keyword .thisOutsideClass
  · simp only [hclass, if_false]
    exact refer_adds h (.this id keyword) (by simp [Expr.reference?, hclass])

end

mutual

/-- **Passing an expression adds what is due at its nodes.** -/
theorem expr_meets {r : Resolution} {p : Path} (h : Standing r p) : ∀ e : Expr,
    Meets r (r.expr e) (exprOccurrences p e)
  | .literal .. => .inert rfl rfl (.refl r)
  | .grouping _ inner => .inert rfl rfl (expr_meets h inner)
  | .unary _ _ operand => .inert rfl rfl (expr_meets h operand)
  | .binary _ left _ right => by
    rw [exprOccurrences, Expr.walk, List.map_cons, List.map_append]
    exact .inert rfl rfl ((expr_meets h left).append (expr_meets (h.expr left) right))
  | .logical _ left _ right => by
    rw [exprOccurrences, Expr.walk, List.map_cons, List.map_append]
    exact .inert rfl rfl ((expr_meets h left).append (expr_meets (h.expr left) right))
  | .var id name => read_meets h id name
  | .assign id name value => by
    -- the name is looked up after the value has been passed
    have hname : Meets (r.expr value) ((r.expr value).refer id name)
        [⟨p, .expr (.assign id name value)⟩] :=
      .single (refer_adds (h.expr value) (.assign id name value) rfl)
    exact ((expr_meets h value).append hname).perm List.perm_append_comm
  | .call _ callee _ args => by
    rw [exprOccurrences, Expr.walk, List.map_cons, List.map_append]
    exact .inert rfl rfl ((expr_meets h callee).append (args_meets (h.expr callee) args))
  | .get _ object _ => .inert rfl rfl (expr_meets h object)
  | .set _ object _ value => by
    rw [exprOccurrences, Expr.walk, List.map_cons, List.map_append]
    have hparts := (expr_meets h value).append (expr_meets (h.expr value) object)
    exact .inert rfl rfl (hparts.perm List.perm_append_comm)
  | .this id keyword => this_meets h id keyword
  | .super id keyword name => by
    have hcheck := checkSuper_adds h id keyword name
    have hrefer := refer_adds (h.stays (r.checkSuper_passed keyword)) (.super id keyword name) rfl
    have hboth := hcheck.trans hrefer
    rw [List.append_nil] at hboth
    exact .single hboth

theorem args_meets {r : Resolution} {p : Path} (h : Standing r p) : ∀ args : List Expr,
    Meets r (r.args args) (argOccurrences p args)
  | [] => .refl r
  | e :: es => by
    rw [argOccurrences, walkArgs, List.map_append]
    exact (expr_meets h e).append (args_meets (h.expr e) es)

end

/-! ## Statements -/

section

variable {r : Resolution} {p : Path}

theorem checkReturn_meets (h : Standing r p) (id : Nat) (keyword : Token) (value : Option Expr) :
    Meets r (r.checkReturn keyword value.isSome) [⟨p, .stmt (.ret id keyword value)⟩] := by
  refine .single ?_
  have hfirst := Adds.noteIf r (r.routine = .none) keyword .returnAtTopLevel
  have hsame : (if r.routine = .none then r.note keyword .returnAtTopLevel else r).routine =
      r.routine := by
    split <;> rfl
  have hsecond := Adds.noteIf (if r.routine = .none then r.note keyword .returnAtTopLevel else r)
    (value.isSome = true ∧ r.routine = .initializer) keyword .valueFromInitializer
  have hboth := hfirst.trans hsecond
  simp only [Resolution.checkReturn, Occurrence.due, hsame, ← h.routine]
  exact hboth

/-- The declaration of a class up to its methods. -/
theorem enterClass_meets (h : Standing r p) (hp : p.initializing? = none) (id : Nat) (name : Token)
    (superclass : Option Superclass) (methods : List Function) :
    Meets r (r.enterClass name superclass)
      (⟨p, .stmt (.classDecl id name superclass methods)⟩ ::
        superclass.toList.flatMap fun s => exprOccurrences (.superclass name :: p) s.toExpr) := by
  have hname := Adds.declare_define (r := { r with enclosing := .plain }) h.scopes name
  have hpassed := { r with enclosing := .plain }.declare_define_passed name
  unfold Resolution.enterClass
  generalize ({ r with enclosing := .plain }.declare name).define name = r₁ at hname hpassed ⊢
  replace hname := hname.afterNothing (r := r) rfl rfl
  cases superclass with
  | none =>
    refine .single ?_
    simp only [Occurrence.due, List.append_nil]
    exact hname.andNothing rfl rfl
  | some s =>
    have hself := Adds.noteIf r₁ (s.name.lexeme = name.lexeme) s.name .inheritsFromItself
    have hpassed' := r₁.noteIf_passed (s.name.lexeme = name.lexeme) s.name .inheritsFromItself
    simp only
    generalize (if s.name.lexeme = name.lexeme then
        r₁.note s.name .inheritsFromItself else r₁) = r₂ at hself hpassed' ⊢
    have hstanding := h.superclass hp (hpassed.trans hpassed')
    have hclass : Adds r { r₂ with enclosing := .subclass } []
        (Occurrence.due ⟨p, .stmt (.classDecl id name (some s) methods)⟩) :=
      (hname.trans hself).andNothing rfl rfl
    exact .cons hclass (Adds.andNothing (read_meets hstanding s.id s.name) rfl rfl)

/-- A function or method, from its name to its body. -/
theorem function_meets {r₁ : Resolution} {outer : List (List String)} (decl : Function)
    (routine : Routine) {xs : List Occurrence}
    (hname : Adds r r₁ [] (if p.isMember then [] else p.redeclared decl.name))
    (hscopes : HaveNames r₁.scopes outer)
    (hbody : Meets ({ r₁ with routine }.openScope.parameters decl.params)
      (({ r₁ with routine }.openScope.parameters decl.params).body decl.body) xs) :
    Meets r (r₁.function routine decl) (⟨p, .stmt (.function decl)⟩ :: xs) := by
  obtain ⟨id, name, params, body⟩ := decl
  have hparams : Adds r₁ ({ r₁ with routine }.openScope.parameters params) []
      ((repeated [] params).map (.ofToken · .alreadyDeclared)) :=
    Adds.afterNothing (Adds.parameters params hscopes.empty) rfl rfl
  have hnode : Adds r ({ r₁ with routine }.openScope.parameters params) []
      (Occurrence.due ⟨p, .stmt (.function ⟨id, name, params, body⟩)⟩) := hname.trans hparams
  exact Adds.andNothing (Meets.cons hnode hbody) rfl rfl

end

mutual

/-- **Passing a statement adds what is due at its nodes.** -/
theorem stmt_meets {r : Resolution} {p : Path} (h : Standing r p) (hp : p.holdsStmt = true) :
    ∀ s : Stmt, Meets r (r.stmt s) (stmtOccurrences p s)
  | .malformed => .refl r
  | .expression _ value => .inert rfl rfl (expr_meets h value)
  | .print _ value => .inert rfl rfl (expr_meets h value)
  | .declare _ name none => .single (.declare_define h.scopes name)
  | .declare _ name (some value) => by
    have hvalue := expr_meets (h.declare (Path.initializing?_of_holdsStmt hp) name) value
    obtain ⟨_, _, hfound, htable⟩ := ((r.declare name).expr value).mark_routine name.lexeme true
    exact .cons (.declare h.scopes name) (Adds.andNothing hvalue htable hfound)
  | .block _ body => by
    have hopened : Meets r (r.openScope.body body) _ :=
      Adds.afterNothing (body_meets (.block p) body h.block) rfl rfl
    exact .inert rfl rfl (Adds.andNothing hopened rfl rfl)
  | .conditional _ cond thenBranch none =>
    .inert rfl rfl ((expr_meets h cond).append (stmt_meets (h.expr cond) hp thenBranch))
  | .conditional _ cond thenBranch (some elseBranch) => by
    have hthen := (expr_meets h cond).append (stmt_meets (h.expr cond) hp thenBranch)
    have hbehind := (h.expr cond).elseBranch (Path.initializing?_of_holdsStmt hp) thenBranch
    exact .inert rfl rfl (hthen.append (stmt_meets hbehind rfl elseBranch))
  | .loop _ cond body =>
    .inert rfl rfl ((expr_meets h cond).append (stmt_meets (h.expr cond) hp body))
  | .function ⟨id, name, params, body⟩ => by
    have hname : Adds r ((r.declare name).define name) []
        (if p.isMember then [] else p.redeclared name) := by
      rw [Path.isMember_of_holdsStmt hp]
      exact .declare_define h.scopes name
    have hscopes := h.scopes.markAll [name.lexeme]
    rw [← (r.declare_define_passed name).scopes] at hscopes
    have hbody := body_meets (.function ⟨id, name, params, body⟩ p) body (h.function _)
    exact function_meets ⟨id, name, params, body⟩ .function hname hscopes hbody
  | .ret id keyword none => checkReturn_meets h id keyword none
  | .ret id keyword (some value) =>
    (checkReturn_meets h id keyword (some value)).append
      (expr_meets (h.stays (r.checkReturn_passed keyword true)) value)
  | .classDecl id name superclass methods => by
    have hclass := enterClass_meets h (Path.initializing?_of_holdsStmt hp) id name superclass methods
    have hmethods := methods_meets (h.enterClass name superclass) rfl methods
    obtain ⟨_, _, hfound, htable⟩ :=
      ((r.enterClass name superclass).methods methods).leaveClass_keeps superclass r.enclosing
    have hall := Adds.andNothing (hclass.append hmethods) htable hfound
    cases superclass with
    | none => exact hall
    | some s => exact hall

theorem body_meets {r : Resolution} {path : List Stmt → Path} (hpath : Advances path) :
    ∀ (body : List Stmt) {before : List Stmt}, Standing r (path before) →
    Meets r (r.body body) (bodyOccurrences path before body)
  | [], _, _ => .refl r
  | s :: ss, before, h =>
    (stmt_meets h (hpath.holds before) s).append (body_meets hpath ss (hpath.next s h))

theorem methods_meets {r : Resolution} {p : Path} (h : Standing r p) (hp : p.isMember = true) :
    ∀ methods : List Function, Meets r (r.methods methods) (methodOccurrences p methods)
  | [] => .refl r
  | ⟨id, name, params, body⟩ :: fs => by
    have hbody := body_meets (.method ⟨id, name, params, body⟩ p) body (h.method _)
    have hname : Adds r r [] (if p.isMember then [] else p.redeclared name) := by
      rw [hp]
      exact .refl r
    have hfirst := function_meets ⟨id, name, params, body⟩ _ hname h.scopes hbody
    have hpassed := r.function_passed (Resolution.methodRoutine name) ⟨id, name, params, body⟩
    exact hfirst.append (methods_meets (h.stays hpassed) hp fs)

end

/-- **The pass over a program adds what is due at its nodes.** -/
theorem program_meets (stmts : List Stmt) :
    Meets {} (Resolution.ofProgram stmts) (programOccurrences stmts) :=
  body_meets .top stmts .start

/-- **Static errors are reported exactly when they are due.**  The problems that the pass over a
program finds are those that are due at the nodes of its walk by where they stand: one for each
occurrence, and no others. -/
theorem static_errors_are_those_due (stmts : List Stmt) :
    (programOccurrences stmts).map Occurrence.node = walkBody stmts ∧
      (Resolution.ofProgram stmts).found.Perm
        ((programOccurrences stmts).flatMap Occurrence.due) := by
  refine ⟨programOccurrences_map_node stmts, ?_⟩
  obtain ⟨noted, hfound, hnoted⟩ := (program_meets stmts).found
  rw [hfound, List.nil_append]
  exact hnoted

/-! ## The table -/

theorem getElem?_fileAll {es : List (Nat × Nat)} {id d : Nat} : ∀ {table : Distances},
    (es.map Prod.fst).Nodup → ((fileAll table es)[id]? = some d ↔
      (id, d) ∈ es ∨ id ∉ es.map Prod.fst ∧ table[id]? = some d) := by
  induction es with
  | nil => simp [fileAll]
  | cons entry es ih =>
    intro table hkeys
    obtain ⟨key, value⟩ := entry
    obtain ⟨hkey, hrest⟩ := List.nodup_cons.1 hkeys
    rw [show fileAll table ((key, value) :: es) = fileAll (table.insert key value) es from rfl,
      ih hrest, Std.TreeMap.getElem?_insert, List.mem_cons, List.map_cons, List.mem_cons]
    by_cases hid : id = key
    · subst hid
      have hnot : (id, d) ∉ es := fun hmem => hkey (List.mem_map.2 ⟨_, hmem, rfl⟩)
      rw [if_pos (Nat.compare_eq_eq.2 rfl)]
      simp [hnot, hkey, eq_comm]
    · rw [if_neg fun hc => hid (Nat.compare_eq_eq.1 hc).symm]
      simp [hid]

namespace Occurrence

/-- The key of an entry is the number of the node. -/
theorem id?_of_filed? {o : Occurrence} {entry : Nat × Nat} (h : o.filed? = some entry) :
    o.node.id? = some entry.1 := by
  obtain ⟨p, e | s⟩ := o
  · simp only [filed?, Option.bind_eq_some_iff, Option.map_eq_some_iff] at h
    obtain ⟨name, _, d, _, rfl⟩ := h
    rfl
  · cases h

theorem keys_sublist : ∀ os : List Occurrence,
    ((os.filterMap filed?).map Prod.fst).Sublist (os.filterMap (·.node.id?))
  | [] => .slnil
  | o :: os => by
    have ih := keys_sublist os
    rw [List.filterMap_cons, List.filterMap_cons]
    cases hentry : o.filed? with
    | none =>
      cases o.node.id? with
      | none => exact ih
      | some id => exact ih.cons id
    | some entry =>
      rw [id?_of_filed? hentry]
      exact ih.cons_cons entry.1

/-- Distinct numbers tell nodes apart. -/
theorem eq_of_id? {os : List Occurrence} (hids : (os.filterMap (·.node.id?)).Nodup)
    {o o' : Occurrence} {id : Nat} (ho : o ∈ os) (ho' : o' ∈ os) (hid : o.node.id? = some id)
    (hid' : o'.node.id? = some id) : o = o' := by
  by_contra hne
  have hpairs := List.pairwise_filterMap.1 hids
  have hsymm : Std.Symm fun a b : Occurrence =>
      ∀ i, a.node.id? = some i → ∀ j, b.node.id? = some j → i ≠ j :=
    ⟨fun a b h i hi j hj => (h j hj i hi).symm⟩
  exact hpairs.forall ho ho' hne id hid id hid' rfl

theorem filed?_eq_some {o : Occurrence} {id d : Nat} (hid : o.node.id? = some id) :
    o.filed? = some (id, d) ↔ ∃ e name, o.node = .expr e ∧ e.reference? o.path = some name ∧
      o.path.Binds name.lexeme d := by
  obtain ⟨p, e | s⟩ := o
  · cases hid
    simp only [filed?, Option.bind_eq_some_iff, Option.map_eq_some_iff, Path.distance?_eq_some]
    constructor
    · rintro ⟨name, hname, d', hd', heq⟩
      cases heq
      exact ⟨e, name, rfl, hname, hd'⟩
    · rintro ⟨e', name, heq, hname, hd⟩
      cases heq
      exact ⟨name, hname, d, hd, rfl⟩
  · simp [filed?]

end Occurrence

/-- **The table is the one that paths define.**  In a program that was read, node numbers are
distinct.  A node has a distance in the table exactly if it refers to a name which some scope around
it declares before it; the distance is the number of scopes inside the innermost such scope.
Nothing else is in the table. -/
theorem distances_are_those_of_paths (tokens : List Token) (stop : Token) (firstId : Nat) :
    let stmts := (Program.read tokens stop firstId).stmts
    let table := (Resolution.ofProgram stmts).table
    (programOccurrences stmts).map Occurrence.node = walkBody stmts ∧
    ((walkBody stmts).filterMap Node.id?).Nodup ∧
    (∀ o ∈ programOccurrences stmts, ∀ id, o.node.id? = some id → ∀ d, table[id]? = some d ↔
      ∃ e name, o.node = .expr e ∧ e.reference? o.path = some name ∧ o.path.Binds name.lexeme d) ∧
    ∀ id d, table[id]? = some d → ∃ o ∈ programOccurrences stmts, o.node.id? = some id := by
  intro stmts table
  have hnodes := programOccurrences_map_node stmts
  have hids : ((walkBody stmts).filterMap Node.id?).Nodup := (read_numbered tokens stop firstId).2.1
  have hoids : ((programOccurrences stmts).filterMap (·.node.id?)).Nodup := by
    rw [← hnodes, List.filterMap_map] at hids
    exact hids
  obtain ⟨filed, htable, hfiled⟩ := (program_meets stmts).table
  have hkeys : (filed.map Prod.fst).Nodup :=
    (hfiled.map Prod.fst).nodup_iff.2 ((Occurrence.keys_sublist _).nodup hoids)
  -- what is filed is what is due, under keys that occur once
  have hentries : ∀ id d, table[id]? = some d ↔
      ∃ o ∈ programOccurrences stmts, o.filed? = some (id, d) := by
    intro id d
    show (Resolution.ofProgram stmts).table[id]? = some d ↔ _
    rw [htable, getElem?_fileAll hkeys, hfiled.mem_iff, List.mem_filterMap]
    simp
  refine ⟨hnodes, hids, ?_, ?_⟩
  · intro o ho id hid d
    rw [hentries, ← Occurrence.filed?_eq_some hid]
    constructor
    · rintro ⟨o', ho', hentry⟩
      rw [Occurrence.eq_of_id? hoids ho ho' hid (Occurrence.id?_of_filed? hentry)]
      exact hentry
    · exact fun hentry => ⟨o, ho, hentry⟩
  · intro id d hd
    obtain ⟨o, ho, hentry⟩ := (hentries id d).1 hd
    exact ⟨o, ho, Occurrence.id?_of_filed? hentry⟩

end LoxLang
