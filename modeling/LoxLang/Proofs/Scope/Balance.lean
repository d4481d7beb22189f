import LoxLang.Proofs.Bindings
import LoxLang.Scope

/-!
# The pass over a program is balanced

Passing an expression or a statement leaves the routine and the class around it and all scopes but
the innermost as they were.  To the innermost scope it adds the names that the statement declares
there, and problems are only ever added.

Principal results: `Resolution.expr_passed`, `Resolution.stmt_passed`.
-/

namespace LoxLang

/-! ## Scopes -/

/-- Puts a name into the innermost scope. -/
def markIn (name : String) (defined : Bool) : List (Bindings Bool) → List (Bindings Bool)
  | [] => []
  | scope :: outer => scope.put name defined :: outer

/-- Puts readable names into the innermost scope. -/
def markAll (names : List String) (scopes : List (Bindings Bool)) : List (Bindings Bool) :=
  names.foldl (fun scopes name => markIn name true scopes) scopes

@[simp] theorem markIn_markIn (name : String) (a b : Bool) (scopes : List (Bindings Bool)) :
    markIn name b (markIn name a scopes) = markIn name b scopes := by
  cases scopes <;> simp [markIn]

@[simp] theorem markAll_nil (scopes : List (Bindings Bool)) : markAll [] scopes = scopes := rfl

@[simp] theorem markAll_singleton (name : String) (scopes : List (Bindings Bool)) :
    markAll [name] scopes = markIn name true scopes := rfl

theorem markAll_append (names others : List String) (scopes : List (Bindings Bool)) :
    markAll (names ++ others) scopes = markAll others (markAll names scopes) := by
  simp [markAll]

@[simp] theorem markIn_tail (name : String) (b : Bool) (scopes : List (Bindings Bool)) :
    (markIn name b scopes).tail = scopes.tail := by
  cases scopes <;> rfl

@[simp] theorem markAll_tail (names : List String) (scopes : List (Bindings Bool)) :
    (markAll names scopes).tail = scopes.tail := by
  induction names generalizing scopes with
  | nil => rfl
  | cons name names ih => rw [show markAll (name :: names) scopes =
      markAll names (markIn name true scopes) from rfl, ih, markIn_tail]

@[simp] theorem markIn_length (name : String) (b : Bool) (scopes : List (Bindings Bool)) :
    (markIn name b scopes).length = scopes.length := by
  cases scopes <;> rfl

@[simp] theorem markAll_length (names : List String) (scopes : List (Bindings Bool)) :
    (markAll names scopes).length = scopes.length := by
  induction names generalizing scopes with
  | nil => rfl
  | cons name names ih => rw [show markAll (name :: names) scopes =
      markAll names (markIn name true scopes) from rfl, ih, markIn_length]

theorem markAll_cons (names : List String) (outer : List (Bindings Bool)) :
    ∀ scope : Bindings Bool, markAll names (scope :: outer) =
      names.foldl (fun b name => b.put name true) scope :: outer := by
  induction names with
  | nil => exact fun _ => rfl
  | cons name names ih => exact fun scope => ih (scope.put name true)

/-- Names that are put into a scope can be read there, and no other name changes. -/
theorem find?_foldl_put (x : String) : ∀ (names : List String) (scope : Bindings Bool),
    (names.foldl (fun b name => b.put name true) scope).find? x =
      if x ∈ names then some true else scope.find? x
  | [], _ => by simp
  | name :: names, scope => by
    rw [List.foldl_cons, find?_foldl_put x names, Bindings.find?_put]
    by_cases hx : x ∈ names
    · simp [hx]
    · simp [hx, eq_comm]

theorem distance?_eq_some {name : String} : ∀ {scopes : List (Bindings Bool)} {d : Nat},
    distance? name scopes = some d → ∃ scope, scopes[d]? = some scope ∧ scope.contains name = true
  | [], _, h => by cases h
  | scope :: outer, d, h => by
    unfold distance? at h
    split at h
    · rename_i hc
      cases h
      exact ⟨scope, rfl, hc⟩
    · obtain ⟨k, hk, rfl⟩ := Option.map_eq_some_iff.1 h
      obtain ⟨scope', hscope, hc⟩ := distance?_eq_some hk
      exact ⟨scope', hscope, hc⟩

/-- The scope at the distance of a name has the name. -/
theorem find?_of_distance? {name : String} {scopes : List (Bindings Bool)} {d : Nat}
    {scope : Bindings Bool} (hd : distance? name scopes = some d)
    (hscope : scopes[d]? = some scope) : ∃ b, scope.find? name = some b := by
  obtain ⟨scope', hscope', hcontains⟩ := distance?_eq_some hd
  obtain rfl : scope = scope' := Option.some.inj (hscope.symm.trans hscope')
  exact Option.isSome_iff_exists.1 hcontains

theorem distance?_markIn_of_ne {name other : String} (b : Bool) (h : other ≠ name) :
    ∀ scopes : List (Bindings Bool),
    distance? other (markIn name b scopes) = distance? other scopes
  | [] => rfl
  | scope :: outer => by
    have hcontains : (scope.put name b).contains other = scope.contains other := by
      simp [Bindings.contains, h.symm]
    simp only [markIn, distance?, hcontains]

theorem getElem?_markIn (name : String) (b : Bool) {d : Nat} {scope : Bindings Bool} :
    ∀ {scopes : List (Bindings Bool)}, scopes[d]? = some scope →
    ∃ scope', (markIn name b scopes)[d]? = some scope' ∧
      ∀ other, other ≠ name → scope'.find? other = scope.find? other
  | [], h => by cases h
  | first :: outer, h => by
    cases d with
    | zero =>
      cases h
      exact ⟨_, rfl, fun other hne => by rw [Bindings.find?_put, if_neg hne.symm]⟩
    | succ d => exact ⟨scope, h, fun _ _ => rfl⟩

/-- The names that a statement declares in the scope around it. -/
def Stmt.declared : Stmt → List String
  | .declare _ name _ => [name.lexeme]
  | .function decl => [decl.name.lexeme]
  | .classDecl _ name _ _ => [name.lexeme]
  | .conditional _ _ thenBranch none => thenBranch.declared
  | .conditional _ _ thenBranch (some elseBranch) => thenBranch.declared ++ elseBranch.declared
  | .loop _ _ body => body.declared
  | _ => []

namespace Resolution

/-- What passing a part of a program that declares these names keeps and adds. -/
structure Passed (r r' : Resolution) (names : List String) : Prop where
  scopes : r'.scopes = markAll names r.scopes
  routine : r'.routine = r.routine
  enclosing : r'.enclosing = r.enclosing
  found : r.found <+: r'.found

namespace Passed

variable {r r₁ r₂ : Resolution} {names others : List String}

theorem refl (r : Resolution) : Passed r r [] := ⟨rfl, rfl, rfl, List.prefix_refl _⟩

theorem trans (h : Passed r r₁ names) (h' : Passed r₁ r₂ others) :
    Passed r r₂ (names ++ others) :=
  ⟨by rw [h'.scopes, h.scopes, markAll_append], h'.routine.trans h.routine,
    h'.enclosing.trans h.enclosing, h.found.trans h'.found⟩

end Passed

theorem note_passed (r : Resolution) (t : Token) (problem : Problem) :
    Passed r (r.note t problem) [] := ⟨rfl, rfl, rfl, List.prefix_append _ _⟩

theorem noteIf_passed (r : Resolution) (p : Prop) [Decidable p] (t : Token) (problem : Problem) :
    Passed r (if p then r.note t problem else r) [] := by
  split
  · exact r.note_passed t problem
  · exact .refl r

/-- A problem that is noted does not go away. -/
theorem found_ne_nil {r r' : Resolution} {t : Token} {problem : Problem} {names : List String}
    (h : Passed (r.note t problem) r' names) : r'.found ≠ [] := by
  intro hnil
  have hfound := h.found
  rw [hnil, List.prefix_nil] at hfound
  simp [note] at hfound

@[simp] theorem mark_scopes (r : Resolution) (name : String) (b : Bool) :
    (r.mark name b).scopes = markIn name b r.scopes := by
  unfold mark
  cases hs : r.scopes <;> simp [markIn, hs]

theorem mark_routine (r : Resolution) (name : String) (b : Bool) :
    (r.mark name b).routine = r.routine ∧ (r.mark name b).enclosing = r.enclosing ∧
      (r.mark name b).found = r.found ∧ (r.mark name b).table = r.table := by
  unfold mark
  cases r.scopes <;> exact ⟨rfl, rfl, rfl, rfl⟩

@[simp] theorem declare_scopes (r : Resolution) (name : Token) :
    (r.declare name).scopes = markIn name.lexeme false r.scopes := by
  unfold declare
  rw [mark_scopes]
  congr 1
  split
  · rfl
  · split <;> rfl

theorem declare_keeps (r : Resolution) (name : Token) :
    (r.declare name).routine = r.routine ∧ (r.declare name).enclosing = r.enclosing ∧
      r.found <+: (r.declare name).found ∧ (r.declare name).table = r.table := by
  unfold declare
  simp only [mark_routine]
  cases r.scopes with
  | nil => exact ⟨rfl, rfl, List.prefix_refl _, rfl⟩
  | cons scope outer =>
    simp only
    split
    · exact ⟨rfl, rfl, List.prefix_append _ _, rfl⟩
    · exact ⟨rfl, rfl, List.prefix_refl _, rfl⟩

theorem declare_define_passed (r : Resolution) (name : Token) :
    Passed r ((r.declare name).define name) [name.lexeme] := by
  obtain ⟨hroutine, henclosing, hfound, _⟩ := r.declare_keeps name
  obtain ⟨hroutine', henclosing', hfound', _⟩ := (r.declare name).mark_routine name.lexeme true
  exact ⟨by simp [define], hroutine'.trans hroutine, henclosing'.trans henclosing, hfound' ▸ hfound⟩

theorem refer_passed (r : Resolution) (id : Nat) (name : Token) : Passed r (r.refer id name) [] := by
  unfold refer
  split <;> exact ⟨rfl, rfl, rfl, List.prefix_refl _⟩

theorem read_passed (r : Resolution) (id : Nat) (name : Token) : Passed r (r.read id name) [] :=
  (r.noteIf_passed _ name .readInOwnInitializer).trans (refer_passed _ id name)

theorem checkSuper_passed (r : Resolution) (keyword : Token) :
    Passed r (r.checkSuper keyword) [] := by
  unfold checkSuper
  split
  · exact r.note_passed _ _
  · exact r.note_passed _ _
  · exact .refl r

theorem checkReturn_passed (r : Resolution) (keyword : Token) (hasValue : Bool) :
    Passed r (r.checkReturn keyword hasValue) [] :=
  (r.noteIf_passed _ keyword .returnAtTopLevel).trans
    (noteIf_passed _ _ keyword .valueFromInitializer)

/-! ## Expressions -/

mutual

theorem expr_passed (r : Resolution) : ∀ e : Expr, Passed r (r.expr e) []
  | .literal .. => .refl r
  | .grouping _ inner => r.expr_passed inner
  | .unary _ _ operand => r.expr_passed operand
  | .binary _ left _ right => (r.expr_passed left).trans ((r.expr left).expr_passed right)
  | .logical _ left _ right => (r.expr_passed left).trans ((r.expr left).expr_passed right)
  | .var id name => r.read_passed id name
  | .assign id name value => (r.expr_passed value).trans ((r.expr value).refer_passed id name)
  | .call _ callee _ args => (r.expr_passed callee).trans ((r.expr callee).args_passed args)
  | .get _ object _ => r.expr_passed object
  | .set _ object _ value => (r.expr_passed value).trans ((r.expr value).expr_passed object)
  | .this id keyword => by
    unfold expr
    split
    · exact r.note_passed _ _
    · exact r.refer_passed id keyword
  | .super id keyword _ => (r.checkSuper_passed keyword).trans (refer_passed _ id keyword)

theorem args_passed (r : Resolution) : ∀ args : List Expr, Passed r (r.args args) []
  | [] => .refl r
  | e :: es => (r.expr_passed e).trans ((r.expr e).args_passed es)

end

@[simp] theorem expr_scopes (r : Resolution) (e : Expr) : (r.expr e).scopes = r.scopes :=
  (r.expr_passed e).scopes

/-! ## Statements -/

theorem parameters_keeps (params : List Token) (r : Resolution) :
    (r.parameters params).scopes = markAll (params.map (·.lexeme)) r.scopes ∧
      (r.parameters params).enclosing = r.enclosing ∧
      (r.parameters params).routine = r.routine ∧ r.found <+: (r.parameters params).found := by
  unfold parameters
  induction params generalizing r with
  | nil => exact ⟨rfl, rfl, rfl, List.prefix_refl _⟩
  | cons name params ih =>
    have hfirst := r.declare_define_passed name
    obtain ⟨hscopes, henclosing, hroutine, hfound⟩ := ih ((r.declare name).define name)
    refine ⟨?_, henclosing.trans hfirst.enclosing, hroutine.trans hfirst.routine,
      hfirst.found.trans hfound⟩
    rw [List.foldl_cons, hscopes, hfirst.scopes]
    rfl

/-- The scopes of a class around its methods. -/
def classScopes (superclass : Option Superclass) : List (Bindings Bool) :=
  Bindings.empty.put "this" true ::
    if superclass.isSome then [Bindings.empty.put "super" true] else []

theorem enterClass_scopes (r : Resolution) (name : Token) (superclass : Option Superclass) :
    (r.enterClass name superclass).scopes =
      classScopes superclass ++ markIn name.lexeme true r.scopes := by
  have hname := ({ r with enclosing := .plain }.declare_define_passed name).scopes
  simp only [markAll_singleton] at hname
  unfold enterClass classScopes
  cases superclass with
  | none => simp [openScopeWith, hname]
  | some s =>
    simp only [openScopeWith, (read_passed _ _ _).scopes, markAll_nil]
    split <;> simp [note, hname]

theorem enterClass_keeps (r : Resolution) (name : Token) (superclass : Option Superclass) :
    (r.enterClass name superclass).routine = r.routine ∧
      r.found <+: (r.enterClass name superclass).found ∧
      (r.enterClass name superclass).enclosing =
        if superclass.isSome then .subclass else .plain := by
  have hname := { r with enclosing := .plain }.declare_define_passed name
  unfold enterClass
  cases superclass with
  | none => exact ⟨hname.routine, hname.found, hname.enclosing⟩
  | some s =>
    simp only
    generalize hr₁ : ({ r with enclosing := .plain }.declare name).define name = r₁ at hname
    have hself := r₁.noteIf_passed (s.name.lexeme = name.lexeme) s.name .inheritsFromItself
    generalize (if s.name.lexeme = name.lexeme then
        r₁.note s.name .inheritsFromItself else r₁) = r₂ at hself ⊢
    have hread := { r₂ with enclosing := .subclass }.read_passed s.id s.name
    exact ⟨hread.routine.trans (hself.routine.trans hname.routine),
      hname.found.trans (hself.found.trans hread.found), hread.enclosing⟩

theorem leaveClass_scopes (r : Resolution) (superclass : Option Superclass) (outer : ClassContext)
    {scopes : List (Bindings Bool)} (h : r.scopes = classScopes superclass ++ scopes) :
    (r.leaveClass superclass outer).scopes = scopes := by
  unfold leaveClass closeScope
  unfold classScopes at h
  cases superclass <;> simp_all

theorem leaveClass_keeps (r : Resolution) (superclass : Option Superclass) (outer : ClassContext) :
    (r.leaveClass superclass outer).routine = r.routine ∧
      (r.leaveClass superclass outer).enclosing = outer ∧
      (r.leaveClass superclass outer).found = r.found ∧
      (r.leaveClass superclass outer).table = r.table := by
  unfold leaveClass closeScope
  cases superclass <;> exact ⟨rfl, rfl, rfl, rfl⟩

mutual

theorem stmt_passed (r : Resolution) : ∀ s : Stmt, Passed r (r.stmt s) s.declared
  | .malformed => .refl r
  | .expression _ value => r.expr_passed value
  | .print _ value => r.expr_passed value
  | .declare _ name none => r.declare_define_passed name
  | .declare _ name (some value) => by
    obtain ⟨hroutine, henclosing, hfound, _⟩ := r.declare_keeps name
    have hvalue := (r.declare name).expr_passed value
    obtain ⟨hroutine', henclosing', hfound', _⟩ :=
      ((r.declare name).expr value).mark_routine name.lexeme true
    refine ⟨?_, hroutine'.trans (hvalue.routine.trans hroutine),
      henclosing'.trans (hvalue.enclosing.trans henclosing), ?_⟩
    · simp [stmt, define, Stmt.declared]
    · show r.found <+: (mark _ _ _).found
      rw [hfound']
      exact hfound.trans hvalue.found
  | .block _ body => by
    have hbody := r.openScope.body_passed body
    refine ⟨?_, hbody.routine, hbody.enclosing, hbody.found⟩
    show (r.openScope.body body).scopes.tail = r.scopes
    rw [hbody.scopes, markAll_tail]
    rfl
  | .conditional _ cond thenBranch none =>
    (r.expr_passed cond).trans ((r.expr cond).stmt_passed thenBranch)
  | .conditional _ cond thenBranch (some elseBranch) =>
    (r.expr_passed cond).trans (((r.expr cond).stmt_passed thenBranch).trans
      (((r.expr cond).stmt thenBranch).stmt_passed elseBranch))
  | .loop _ cond body => (r.expr_passed cond).trans ((r.expr cond).stmt_passed body)
  | .function decl =>
    (r.declare_define_passed decl.name).trans (function_passed _ .function decl)
  | .ret _ keyword none => r.checkReturn_passed keyword false
  | .ret _ keyword (some value) =>
    (r.checkReturn_passed keyword true).trans (expr_passed _ value)
  | .classDecl _ name superclass methods => by
    have hmethods := (r.enterClass name superclass).methods_passed methods
    obtain ⟨hroutine, hfound, _⟩ := r.enterClass_keeps name superclass
    obtain ⟨hroutine', henclosing', hfound', _⟩ :=
      ((r.enterClass name superclass).methods methods).leaveClass_keeps superclass r.enclosing
    refine ⟨?_, hroutine'.trans (hmethods.routine.trans hroutine), henclosing', ?_⟩
    · exact leaveClass_scopes _ _ _ (hmethods.scopes.trans (r.enterClass_scopes name superclass))
    · show r.found <+: (leaveClass _ _ _).found
      rw [hfound']
      exact hfound.trans hmethods.found

theorem body_passed (r : Resolution) : ∀ body : List Stmt,
    Passed r (r.body body) (body.flatMap Stmt.declared)
  | [] => .refl r
  | s :: ss => by
    rw [List.flatMap_cons]
    exact (r.stmt_passed s).trans ((r.stmt s).body_passed ss)

theorem function_passed (r : Resolution) (routine : Routine) : ∀ f : Function,
    Passed r (r.function routine f) []
  | ⟨_, _, params, body⟩ => by
    obtain ⟨hscopes, henclosing, _, hfound⟩ :=
      parameters_keeps params { r with routine }.openScope
    have hbody := ({ r with routine }.openScope.parameters params).body_passed body
    refine ⟨?_, rfl, hbody.enclosing.trans henclosing, hfound.trans hbody.found⟩
    show (Resolution.body _ body).scopes.tail = r.scopes
    rw [hbody.scopes, markAll_tail, hscopes, markAll_tail]
    rfl

theorem methods_passed (r : Resolution) : ∀ methods : List Function,
    Passed r (r.methods methods) []
  | [] => .refl r
  | f :: fs => (r.function_passed (methodRoutine f.name) f).trans (methods_passed _ fs)

end

end Resolution

end LoxLang
