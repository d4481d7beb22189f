import Mathlib.Data.List.Forall2
import LoxLang.Proofs.Scope.Paths

/-!
# Where the pass stands

The state of the pass at a node corresponds to the path to it: `Standing` ties the open scopes, the
routine and the class that the pass carries along to those of the path.  It is kept from statement
to statement, and by each step into a construct.

Principal results: `Standing.passed` for what lies behind a part of a program, and for what lies in
it `Standing.declare`, `Standing.block`, `Standing.function`, `Standing.enterClass`.
-/

namespace LoxLang

/-! ## Scopes and names -/

/-- The open scopes have the names of these lists, one by one. -/
def HaveNames (scopes : List (Bindings Bool)) (names : List (List String)) : Prop :=
  List.Forall₂ (fun scope declared => ∀ x, scope.contains x = true ↔ x ∈ declared) scopes names

namespace HaveNames

variable {scopes : List (Bindings Bool)} {names : List (List String)}

theorem isEmpty_iff (h : HaveNames scopes names) : scopes = [] ↔ names = [] := by
  cases h <;> simp

theorem distance? (h : HaveNames scopes names) (name : String) :
    LoxLang.distance? name scopes = names.findIdx? fun declared => decide (name ∈ declared) := by
  induction h with
  | nil => rfl
  | @cons scope declared outer rest hfirst _ ih =>
    rw [LoxLang.distance?, List.findIdx?_cons, ih]
    by_cases hname : name ∈ declared
    · simp [(hfirst name).2 hname, hname]
    · simp [mt (hfirst name).1 hname, hname]

theorem declaresName (h : HaveNames scopes names) (name : String) :
    LoxLang.declaresName name names = scopes.head?.any (·.contains name) := by
  cases h with
  | nil => rfl
  | cons hfirst _ =>
    rw [List.head?_cons, Option.any_some, Bool.eq_iff_iff, hfirst name]
    exact decide_eq_true_iff

theorem empty (h : HaveNames scopes names) : HaveNames (.empty :: scopes) ([] :: names) := by
  refine .cons ?_ h
  intro x
  simp [Bindings.contains]

theorem single (h : HaveNames scopes names) (name : String) :
    HaveNames (Bindings.empty.put name true :: scopes) ([name] :: names) := by
  refine .cons ?_ h
  intro x
  rw [Bindings.contains_put, Bool.or_eq_true, decide_eq_true_iff, List.mem_singleton]
  simp [Bindings.contains, eq_comm (a := x)]

theorem markIn (h : HaveNames scopes names) (name : String) (defined : Bool) :
    HaveNames (markIn name defined scopes) (addNames [name] names) := by
  cases h with
  | nil => exact .nil
  | cons hfirst hrest =>
    refine .cons ?_ hrest
    intro x
    rw [Bindings.contains_put, Bool.or_eq_true, decide_eq_true_iff, hfirst x, List.mem_append,
      List.mem_singleton, or_comm, eq_comm]

end HaveNames

@[simp] theorem addNames_nil : ∀ names : List (List String), addNames [] names = names
  | [] => rfl
  | scope :: outer => by simp [addNames]

theorem addNames_append (xs ys : List String) : ∀ names : List (List String),
    addNames (xs ++ ys) names = addNames ys (addNames xs names)
  | [] => rfl
  | scope :: outer => by simp [addNames]

theorem HaveNames.markAll {names : List (List String)} (added : List String) :
    ∀ {scopes : List (Bindings Bool)}, HaveNames scopes names →
    HaveNames (markAll added scopes) (addNames added names) := by
  induction added generalizing names with
  | nil =>
    intro scopes h
    rw [addNames_nil]
    exact h
  | cons name added ih =>
    intro scopes h
    rw [show name :: added = [name] ++ added from rfl, addNames_append]
    exact ih (h.markIn name true)

/-! ## Names whose initializer has not been passed -/

/-- Whether the innermost scope has the name as one that cannot be read yet. -/
def pendingIn (name : String) : List (Bindings Bool) → Bool
  | [] => false
  | scope :: _ => scope.find? name == some false

theorem Resolution.isPending_eq (r : Resolution) (name : String) :
    r.isPending name = pendingIn name r.scopes := by
  unfold isPending pendingIn
  cases r.scopes <;> rfl

theorem pendingIn_markIn (name other : String) (defined : Bool) : ∀ scopes : List (Bindings Bool),
    pendingIn other (markIn name defined scopes) =
      if name = other ∧ scopes ≠ [] then !defined else pendingIn other scopes
  | [] => by simp [markIn, pendingIn]
  | scope :: outer => by
    by_cases h : name = other
    · cases defined <;> simp [markIn, pendingIn, h]
    · simp [markIn, pendingIn, h]

theorem pendingIn_markAll {name : String} (added : List String) :
    ∀ {scopes : List (Bindings Bool)}, pendingIn name scopes = false →
    pendingIn name (markAll added scopes) = false := by
  induction added with
  | nil => exact fun h => h
  | cons first added ih =>
    intro scopes h
    have hfirst : pendingIn name (markIn first true scopes) = false := by
      rw [pendingIn_markIn]
      split
      · rfl
      · exact h
    exact ih hfirst

/-! ## The invariant -/

/-- The pass is at a place with this path. -/
structure Standing (r : Resolution) (p : Path) : Prop where
  scopes : HaveNames r.scopes p.scopes
  pending : ∀ x, pendingIn x r.scopes = true ↔ p.initializing? = some x
  routine : r.routine = p.routine
  enclosing : r.enclosing = p.enclosing

namespace Standing

variable {r r' : Resolution} {p q : Path} {names : List String}

theorem start : Standing {} [] := ⟨.nil, fun x => by simp [pendingIn, Path.initializing?], rfl, rfl⟩

theorem distance? (h : Standing r p) (name : String) :
    LoxLang.distance? name r.scopes = p.distance? name := h.scopes.distance? name

/-- No initializer is being passed where a statement stands. -/
theorem not_pending (h : Standing r p) (hp : p.initializing? = none) (name : String) :
    pendingIn name r.scopes = false := by
  rw [← Bool.not_eq_true, h.pending, hp]
  exact nofun

/-- **Behind a part of a program the names that it declares are in the innermost scope.** -/
theorem passed (h : Standing r p) (hpassed : r.Passed r' names) (hp : p.initializing? = none)
    (hq : q.initializing? = none) (hscopes : q.scopes = addNames names p.scopes)
    (hroutine : q.routine = p.routine) (henclosing : q.enclosing = p.enclosing) :
    Standing r' q := by
  refine ⟨?_, ?_, ?_, ?_⟩
  · rw [hpassed.scopes, hscopes]
    exact h.scopes.markAll names
  · intro x
    rw [hpassed.scopes, pendingIn_markAll names (h.not_pending hp x), hq]
    simp
  · rw [hpassed.routine, hroutine]
    exact h.routine
  · rw [hpassed.enclosing, henclosing]
    exact h.enclosing

/-- What declares nothing leaves the pass where it is. -/
theorem stays (h : Standing r p) (hpassed : r.Passed r' []) : Standing r' p := by
  have hscopes : r'.scopes = r.scopes := hpassed.scopes
  refine ⟨?_, ?_, ?_, ?_⟩
  · rw [hscopes]
    exact h.scopes
  · rw [hscopes]
    exact h.pending
  · rw [hpassed.routine]
    exact h.routine
  · rw [hpassed.enclosing]
    exact h.enclosing

theorem expr (h : Standing r p) (e : Expr) : Standing (r.expr e) p := h.stays (r.expr_passed e)

/-! ### Into a construct -/

/-- The initializer of a variable stands behind the declaration. -/
theorem declare (h : Standing r p) (hp : p.initializing? = none) (name : Token) :
    Standing (r.declare name) (.initializer name :: p) := by
  obtain ⟨hroutine, henclosing, _, _⟩ := r.declare_keeps name
  refine ⟨?_, ?_, hroutine.trans h.routine, henclosing.trans h.enclosing⟩
  · rw [r.declare_scopes]
    exact h.scopes.markIn name.lexeme false
  · intro x
    rw [r.declare_scopes, pendingIn_markIn, h.not_pending hp]
    unfold Path.initializing?
    have hempty := h.scopes.isEmpty_iff
    by_cases hscopes : p.scopes = []
    · simp [hscopes, hempty.2 hscopes]
    · simp [hscopes, mt hempty.1 hscopes]

theorem elseBranch (h : Standing r p) (hp : p.initializing? = none) (thenBranch : Stmt) :
    Standing (r.stmt thenBranch) (.elseBranch thenBranch :: p) :=
  h.passed (r.stmt_passed thenBranch) hp rfl rfl rfl rfl

theorem block (h : Standing r p) : Standing r.openScope (.block [] :: p) :=
  ⟨h.scopes.empty, fun x => by simp [Resolution.openScope, pendingIn, Path.initializing?],
    h.routine, h.enclosing⟩

/-- The parameters of a function or method are in the scope of its body. -/
theorem parameters {outer : List (List String)} (h : HaveNames r.scopes outer)
    {routine : Routine} (params : List Token)
    (hscopes : p.scopes = params.map (·.lexeme) :: outer) (hp : p.initializing? = none)
    (hroutine : p.routine = routine) (henclosing : p.enclosing = r.enclosing) :
    Standing ({ r with routine }.openScope.parameters params) p := by
  obtain ⟨hparams, henclosing', hroutine', _⟩ :=
    Resolution.parameters_keeps params { r with routine }.openScope
  refine ⟨?_, ?_, hroutine'.trans hroutine.symm, henclosing'.trans henclosing.symm⟩
  · rw [hparams, hscopes]
    exact h.empty.markAll (params.map (·.lexeme))
  · intro x
    rw [hparams, hp, pendingIn_markAll]
    · simp
    · rfl

theorem function (h : Standing r p) (decl : Function) :
    Standing ({ (r.declare decl.name).define decl.name with
      routine := .function }.openScope.parameters decl.params) (.function decl [] :: p) := by
  have hname := r.declare_define_passed decl.name
  have hscopes : HaveNames ((r.declare decl.name).define decl.name).scopes
      (addNames [decl.name.lexeme] p.scopes) := by
    rw [hname.scopes]
    exact h.scopes.markAll [decl.name.lexeme]
  refine parameters hscopes decl.params ?_ rfl rfl ?_
  · simp [Path.scopes, declaredBy]
  · exact (hname.enclosing.trans h.enclosing).symm

theorem method (h : Standing r p) (decl : Function) :
    Standing ({ r with routine := Resolution.methodRoutine decl.name }.openScope.parameters
      decl.params) (.method decl [] :: p) := by
  refine parameters h.scopes decl.params ?_ rfl rfl h.enclosing.symm
  simp [Path.scopes, declaredBy]

/-- The superclass of a class is read behind the declaration of the class. -/
theorem superclass (h : Standing r p) (hp : p.initializing? = none) {name : Token}
    (hpassed : { r with enclosing := .plain }.Passed r' [name.lexeme]) :
    Standing { r' with enclosing := .subclass } (.superclass name :: p) := by
  refine ⟨?_, ?_, hpassed.routine.trans h.routine, rfl⟩
  · show HaveNames r'.scopes _
    rw [hpassed.scopes]
    exact h.scopes.markAll [name.lexeme]
  · intro x
    show pendingIn x r'.scopes = true ↔ _
    rw [hpassed.scopes, pendingIn_markAll _ (h.not_pending hp x)]
    simp [Path.initializing?]

theorem enterClass (h : Standing r p) (name : Token) (superclass : Option Superclass) :
    Standing (r.enterClass name superclass) (.member name superclass :: p) := by
  obtain ⟨hroutine, _, henclosing⟩ := r.enterClass_keeps name superclass
  have hscopes := r.enterClass_scopes name superclass
  refine ⟨?_, ?_, hroutine.trans h.routine, henclosing⟩
  · rw [hscopes]
    have hname := h.scopes.markIn name.lexeme true
    cases superclass with
    | none => exact hname.single "this"
    | some s => exact (hname.single "super").single "this"
  · intro x
    rw [hscopes]
    by_cases hthis : "this" = x <;>
      simp [Resolution.classScopes, pendingIn, Path.initializing?, hthis]

end Standing

/-! ## Statements in a row -/

/-- Whether a path leads to a statement. -/
def Path.holdsStmt : Path → Bool
  | .initializer _ :: _ => false
  | .superclass _ :: _ => false
  | .member _ _ :: _ => false
  | _ => true

theorem Path.initializing?_of_holdsStmt {p : Path} (h : p.holdsStmt = true) :
    p.initializing? = none := by
  unfold holdsStmt at h
  split at h <;> simp_all [initializing?]

theorem Path.isMember_of_holdsStmt {p : Path} (h : p.holdsStmt = true) : p.isMember = false := by
  unfold holdsStmt at h
  split at h <;> simp_all [isMember]

/-- The path goes on from each statement of a row to the next one. -/
structure Advances (path : List Stmt → Path) : Prop where
  holds : ∀ before, (path before).holdsStmt = true
  next : ∀ {r : Resolution} {before : List Stmt} (s : Stmt), Standing r (path before) →
    Standing (r.stmt s) (path (before ++ [s]))

namespace Advances

theorem top : Advances fun _ => [] :=
  ⟨fun _ => rfl, fun s h => h.passed (Resolution.stmt_passed _ s) rfl rfl rfl rfl rfl⟩

/-- A scope with some names and then those of the statements before. -/
theorem scope {path : List Stmt → Path} (names : List String) {outer : List (List String)}
    (hpath : ∀ before, (path before).holdsStmt = true)
    (hscopes : ∀ before, (path before).scopes = (names ++ declaredBy before) :: outer)
    (hroutine : ∀ before before', (path before).routine = (path before').routine)
    (henclosing : ∀ before before', (path before).enclosing = (path before').enclosing) :
    Advances path := by
  refine ⟨hpath, ?_⟩
  intro r before s h
  have hnames : (path (before ++ [s])).scopes = addNames s.declared (path before).scopes := by
    rw [hscopes, hscopes]
    simp [addNames, declaredBy]
  exact h.passed (r.stmt_passed s) (Path.initializing?_of_holdsStmt (hpath _))
    (Path.initializing?_of_holdsStmt (hpath _)) hnames (hroutine _ _) (henclosing _ _)

theorem block (p : Path) : Advances fun before => .block before :: p :=
  scope [] (fun _ => rfl) (fun _ => rfl) (fun _ _ => rfl) (fun _ _ => rfl)

theorem function (decl : Function) (p : Path) : Advances fun before => .function decl before :: p :=
  scope (decl.params.map (·.lexeme)) (fun _ => rfl) (fun _ => rfl) (fun _ _ => rfl) (fun _ _ => rfl)

theorem method (decl : Function) (p : Path) : Advances fun before => .method decl before :: p :=
  scope (decl.params.map (·.lexeme)) (fun _ => rfl) (fun _ => rfl) (fun _ _ => rfl) (fun _ _ => rfl)

end Advances

end LoxLang
