import Mathlib.Data.List.Forall2
import LoxLang.Proofs.Scope.Table

/-!
# The effect of the pass

The pass over a program opens and closes scopes and enters and leaves routines and classes by
hand, and no static error stops it.  Behind a part of a program it stands where it stood before,
only that the innermost scope has the names which the part declares there.  What it files and finds
on the way depends on nothing but the place where it starts: the names and flags of the scopes, the
routine and the class.  So a program that is passed again is resolved in the same way.

* `SamePlace` — two states whose scopes have the same names and flags, and which are in the same
  routine and class.
* `Alongside` — two passes from one place, which have filed and found the same.
* `Balanced` — what a step of the pass keeps, and what it adds.

Principal results: `Alongside.stmt`, `resolution_is_balanced`.
-/

namespace LoxLang

/-! ## Places -/

/-- Scopes with the same names and flags, in whatever order. -/
def SameScopes (scopes scopes' : List (Bindings Bool)) : Prop :=
  List.Forall₂ (fun scope scope' => ∀ x, scope'.find? x = scope.find? x) scopes scopes'

namespace SameScopes

variable {scopes scopes' : List (Bindings Bool)}

theorem refl : ∀ scopes : List (Bindings Bool), SameScopes scopes scopes
  | [] => .nil
  | _ :: outer => .cons (fun _ => rfl) (refl outer)

theorem distance? (h : SameScopes scopes scopes') (name : String) :
    LoxLang.distance? name scopes' = LoxLang.distance? name scopes := by
  induction h with
  | nil => rfl
  | @cons scope scope' outer outer' hfirst _ ih =>
    have hcontains : scope'.contains name = scope.contains name := by
      rw [Bindings.contains, Bindings.contains, hfirst]
    rw [LoxLang.distance?, LoxLang.distance?, ih, hcontains]

theorem inside (h : SameScopes scopes scopes') (scope : Bindings Bool) :
    SameScopes (scope :: scopes) (scope :: scopes') := .cons (fun _ => rfl) h

theorem tail (h : SameScopes scopes scopes') : SameScopes scopes.tail scopes'.tail := by
  cases h with
  | nil => exact .nil
  | cons _ hrest => exact hrest

theorem markIn (h : SameScopes scopes scopes') (name : String) (defined : Bool) :
    SameScopes (LoxLang.markIn name defined scopes) (LoxLang.markIn name defined scopes') := by
  cases h with
  | nil => exact .nil
  | cons hfirst hrest =>
    refine .cons (fun x => ?_) hrest
    rw [Bindings.find?_put, Bindings.find?_put, hfirst]

end SameScopes

/-- Two states of the pass at the same place. -/
structure SamePlace (r r' : Resolution) : Prop where
  scopes : SameScopes r.scopes r'.scopes
  routine : r'.routine = r.routine
  enclosing : r'.enclosing = r.enclosing

/-- Two passes that started from `q` and `q'` are at the same place, and have filed and found the
same since. -/
structure Alongside (q q' r r' : Resolution) : Prop extends SamePlace r r' where
  found : ∃ problems, r.found = q.found ++ problems ∧ r'.found = q'.found ++ problems
  table : ∀ i : Nat, (r.table[i]? = q.table[i]? ∧ r'.table[i]? = q'.table[i]?) ∨
    ∃ d, r.table[i]? = some d ∧ r'.table[i]? = some d

namespace Alongside

variable {q q' r r' r₁ r₁' : Resolution}

theorem start (h : SamePlace q q') : Alongside q q' q q' :=
  ⟨h, ⟨[], by simp⟩, fun _ => .inl ⟨rfl, rfl⟩⟩

/-- A step that files and finds nothing. -/
theorem step (h : Alongside q q' r r') (hplace : SamePlace r₁ r₁')
    (htable : r₁.table = r.table) (htable' : r₁'.table = r'.table)
    (hfound : r₁.found = r.found) (hfound' : r₁'.found = r'.found) :
    Alongside q q' r₁ r₁' := by
  refine ⟨hplace, ?_, ?_⟩
  · rw [hfound, hfound']
    exact h.found
  · rw [htable, htable']
    exact h.table

theorem note (h : Alongside q q' r r') (t : Token) (problem : Problem) :
    Alongside q q' (r.note t problem) (r'.note t problem) := by
  obtain ⟨problems, hfound, hfound'⟩ := h.found
  refine ⟨⟨h.scopes, h.routine, h.enclosing⟩, ⟨problems ++ [.ofToken t problem], ?_, ?_⟩, h.table⟩
  · rw [← List.append_assoc, ← hfound]
    rfl
  · rw [← List.append_assoc, ← hfound']
    rfl

/-- A problem that is found on the same condition. -/
theorem noteIf (h : Alongside q q' r r') (p : Prop) [Decidable p] (t : Token) (problem : Problem) :
    Alongside q q' (if p then r.note t problem else r) (if p then r'.note t problem else r') := by
  by_cases hp : p
  · rw [if_pos hp, if_pos hp]
    exact h.note t problem
  · rw [if_neg hp, if_neg hp]
    exact h

theorem mark (h : Alongside q q' r r') (name : String) (b : Bool) :
    Alongside q q' (r.mark name b) (r'.mark name b) := by
  obtain ⟨hroutine, henclosing, hfound, htable⟩ := r.mark_routine name b
  obtain ⟨hroutine', henclosing', hfound', htable'⟩ := r'.mark_routine name b
  refine h.step ⟨?_, ?_, ?_⟩ htable htable' hfound hfound'
  · rw [Resolution.mark_scopes, Resolution.mark_scopes]
    exact h.scopes.markIn name b
  · rw [hroutine, hroutine', h.routine]
  · rw [henclosing, henclosing', h.enclosing]

theorem declare (h : Alongside q q' r r') (name : Token) :
    Alongside q q' (r.declare name) (r'.declare name) := by
  have hscopes := h.scopes
  unfold Resolution.declare
  generalize r.scopes = scopes at hscopes
  generalize r'.scopes = scopes' at hscopes
  cases hscopes with
  | nil => exact h.mark name.lexeme false
  | @cons scope scope' outer outer' hfirst _ =>
    have hcontains : scope'.contains name.lexeme = scope.contains name.lexeme := by
      rw [Bindings.contains, Bindings.contains, hfirst]
    simp only [hcontains]
    exact (h.noteIf (scope.contains name.lexeme = true) name _).mark name.lexeme false

theorem declare_define (h : Alongside q q' r r') (name : Token) :
    Alongside q q' ((r.declare name).define name) ((r'.declare name).define name) :=
  (h.declare name).mark name.lexeme true

theorem refer (h : Alongside q q' r r') (id : Nat) (name : Token) :
    Alongside q q' (r.refer id name) (r'.refer id name) := by
  unfold Resolution.refer
  rw [h.scopes.distance?]
  cases distance? name.lexeme r.scopes with
  | none => exact h
  | some d =>
    refine ⟨⟨h.scopes, h.routine, h.enclosing⟩, h.found, fun i => ?_⟩
    simp only [Std.TreeMap.getElem?_insert]
    split
    · exact .inr ⟨d, rfl, rfl⟩
    · exact h.table i

theorem read (h : Alongside q q' r r') (id : Nat) (name : Token) :
    Alongside q q' (r.read id name) (r'.read id name) := by
  have hpending : r'.isPending name.lexeme = r.isPending name.lexeme := by
    have hscopes := h.scopes
    unfold Resolution.isPending
    generalize r.scopes = scopes at hscopes
    generalize r'.scopes = scopes' at hscopes
    cases hscopes with
    | nil => rfl
    | cons hfirst _ => simp only [hfirst]
  unfold Resolution.read
  rw [hpending]
  exact (h.noteIf (r.isPending name.lexeme = true) name _).refer id name

theorem checkSuper (h : Alongside q q' r r') (keyword : Token) :
    Alongside q q' (r.checkSuper keyword) (r'.checkSuper keyword) := by
  unfold Resolution.checkSuper
  rw [h.enclosing]
  cases r.enclosing with
  | none => exact h.note keyword _
  | plain => exact h.note keyword _
  | subclass => exact h

theorem checkReturn (h : Alongside q q' r r') (keyword : Token) (hasValue : Bool) :
    Alongside q q' (r.checkReturn keyword hasValue) (r'.checkReturn keyword hasValue) := by
  have hfirst := h.noteIf (r.routine = .none) keyword .returnAtTopLevel
  unfold Resolution.checkReturn
  rw [h.routine]
  generalize (if r.routine = .none then r.note keyword .returnAtTopLevel else r) = r₁ at hfirst ⊢
  generalize (if r.routine = .none then r'.note keyword .returnAtTopLevel else r') = r₁' at hfirst ⊢
  simp only [hfirst.routine]
  exact hfirst.noteIf (hasValue = true ∧ r₁.routine = .initializer) keyword _

theorem inScope (h : Alongside q q' r r') (scope : Bindings Bool) :
    Alongside q q' { r with scopes := scope :: r.scopes }
      { r' with scopes := scope :: r'.scopes } :=
  h.step ⟨h.scopes.inside scope, h.routine, h.enclosing⟩ rfl rfl rfl rfl

theorem closeScope (h : Alongside q q' r r') : Alongside q q' r.closeScope r'.closeScope :=
  h.step ⟨h.scopes.tail, h.routine, h.enclosing⟩ rfl rfl rfl rfl

theorem inRoutine (h : Alongside q q' r r') (routine : Routine) :
    Alongside q q' { r with routine } { r' with routine } :=
  h.step ⟨h.scopes, rfl, h.enclosing⟩ rfl rfl rfl rfl

theorem inClass (h : Alongside q q' r r') (enclosing : ClassContext) :
    Alongside q q' { r with enclosing } { r' with enclosing } :=
  h.step ⟨h.scopes, h.routine, rfl⟩ rfl rfl rfl rfl

theorem parameters : ∀ (params : List Token) {r r' : Resolution}, Alongside q q' r r' →
    Alongside q q' (r.parameters params) (r'.parameters params)
  | [], _, _, h => h
  | name :: params, _, _, h => parameters params (h.declare_define name)

theorem enterClass (h : Alongside q q' r r') (name : Token) (superclass : Option Superclass) :
    Alongside q q' (r.enterClass name superclass) (r'.enterClass name superclass) := by
  have hname := (h.inClass .plain).declare_define name
  unfold Resolution.enterClass
  cases superclass with
  | none => exact hname.inScope _
  | some s =>
    have hself := hname.noteIf (s.name.lexeme = name.lexeme) s.name .inheritsFromItself
    exact (((hself.inClass .subclass).read s.id s.name).inScope _).inScope _

theorem leaveClass (h : Alongside q q' r r') (superclass : Option Superclass)
    (outer : ClassContext) :
    Alongside q q' (r.leaveClass superclass outer) (r'.leaveClass superclass outer) := by
  unfold Resolution.leaveClass
  cases superclass with
  | none => exact h.closeScope.inClass outer
  | some s => exact h.closeScope.closeScope.inClass outer

/-! ## Trees -/

mutual

theorem expr {r r' : Resolution} (h : Alongside q q' r r') : ∀ e : Expr,
    Alongside q q' (r.expr e) (r'.expr e)
  | .literal .. => h
  | .grouping _ inner => h.expr inner
  | .unary _ _ operand => h.expr operand
  | .binary _ left _ right => (h.expr left).expr right
  | .logical _ left _ right => (h.expr left).expr right
  | .var id name => h.read id name
  | .assign id name value => (h.expr value).refer id name
  | .call _ callee _ args => (h.expr callee).args args
  | .get _ object _ => h.expr object
  | .set _ object _ value => (h.expr value).expr object
  | .this id keyword => by
    unfold Resolution.expr
    rw [h.enclosing]
    split
    · exact h.note keyword _
    · exact h.refer id keyword
  | .super id keyword _ => (h.checkSuper keyword).refer id keyword

theorem args {r r' : Resolution} (h : Alongside q q' r r') : ∀ es : List Expr,
    Alongside q q' (r.args es) (r'.args es)
  | [] => h
  | e :: es => (h.expr e).args es

end

mutual

/-- **Two passes from one place file and find the same.** -/
theorem stmt {r r' : Resolution} (h : Alongside q q' r r') : ∀ s : Stmt,
    Alongside q q' (r.stmt s) (r'.stmt s)
  | .malformed => h
  | .expression _ value => h.expr value
  | .print _ value => h.expr value
  | .declare _ name none => h.declare_define name
  | .declare _ name (some value) => ((h.declare name).expr value).mark name.lexeme true
  | .block _ body => ((h.inScope .empty).body body).closeScope
  | .conditional _ cond thenBranch none => (h.expr cond).stmt thenBranch
  | .conditional _ cond thenBranch (some elseBranch) =>
    ((h.expr cond).stmt thenBranch).stmt elseBranch
  | .loop _ cond body => (h.expr cond).stmt body
  | .function decl => (h.declare_define decl.name).function .function decl
  | .ret _ keyword none => h.checkReturn keyword false
  | .ret _ keyword (some value) => (h.checkReturn keyword true).expr value
  | .classDecl _ name superclass methods => by
    unfold Resolution.stmt
    rw [h.enclosing]
    exact ((h.enterClass name superclass).methods methods).leaveClass superclass r.enclosing

theorem body {r r' : Resolution} (h : Alongside q q' r r') : ∀ ss : List Stmt,
    Alongside q q' (r.body ss) (r'.body ss)
  | [] => h
  | s :: ss => (h.stmt s).body ss

theorem function {r r' : Resolution} (h : Alongside q q' r r') (routine : Routine) :
    ∀ f : Function, Alongside q q' (r.function routine f) (r'.function routine f)
  | ⟨_, _, params, body⟩ => by
    unfold Resolution.function
    rw [h.routine]
    have hparams := parameters params ((h.inRoutine routine).inScope .empty)
    exact (hparams.body body).closeScope.inRoutine r.routine

theorem methods {r r' : Resolution} (h : Alongside q q' r r') : ∀ fs : List Function,
    Alongside q q' (r.methods fs) (r'.methods fs)
  | [] => h
  | f :: fs => (h.function (Resolution.methodRoutine f.name) f).methods fs

end

end Alongside

/-! ## Balance -/

/-- What a step of the pass does to a state `r`, if it passes a part of a program that declares
these names in the scope around it and has nodes with these numbers. -/
structure Balanced (step : Resolution → Resolution) (names : List String) (ids : List Nat)
    (r : Resolution) : Prop where
  routine : (step r).routine = r.routine
  enclosing : (step r).enclosing = r.enclosing
  count : (step r).scopes.length = r.scopes.length
  outer : (step r).scopes.tail = r.scopes.tail
  innermost : ∀ scope, r.scopes.head? = some scope →
    ∃ scope', (step r).scopes.head? = some scope' ∧
      ∀ x, scope'.find? x = if x ∈ names then some true else scope.find? x
  kept : ∀ i, i ∉ ids → (step r).table[i]? = r.table[i]?
  /-- In all states at the place of `r` the same is filed and the same is found. -/
  emits : ∃ (filed : Distances) (problems : List Diagnostic),
    (∀ i, i ∉ ids → filed[i]? = none) ∧
    ∀ r', SamePlace r r' → (step r').found = r'.found ++ problems ∧
      ∀ i : Nat, (step r').table[i]? = filed[i]?.or r'.table[i]?

/-- A step keeps and adds this much if it passes what declares these names, leaves other numbers
alone, and goes alongside itself from every place. -/
theorem Balanced.of {step : Resolution → Resolution} {names : List String} {ids : List Nat}
    (hpassed : ∀ r : Resolution, r.Passed (step r) names)
    (hkept : ∀ r (i : Nat), i ∉ ids → (step r).table[i]? = r.table[i]?)
    (hstep : ∀ q q', SamePlace q q' → Alongside q q' (step q) (step q')) (r : Resolution) :
    Balanced step names ids r := by
  refine ⟨(hpassed r).routine, (hpassed r).enclosing, ?_, ?_, fun scope hscope => ?_, hkept r, ?_⟩
  · rw [(hpassed r).scopes, markAll_length]
  · rw [(hpassed r).scopes, markAll_tail]
  · obtain ⟨outer, hscopes⟩ := List.head?_eq_some_iff.1 hscope
    refine ⟨_, ?_, fun x => find?_foldl_put x names scope⟩
    rw [(hpassed r).scopes, hscopes, markAll_cons]
    rfl
  · -- what is emitted is what a pass from the same place leaves that starts with nothing
    generalize hbare : ({ r with table := ∅, found := [] } : Resolution) = bare
    refine ⟨(step bare).table, (step bare).found, fun i hi => ?_, fun r' h => ?_⟩
    · rw [hkept bare i hi, ← hbare]
      simp
    · have halong := hstep bare r' (hbare ▸ ⟨h.scopes, h.routine, h.enclosing⟩)
      constructor
      · obtain ⟨problems, hfound, hfound'⟩ := halong.found
        rw [hfound, hfound', ← hbare, List.nil_append]
      · intro i
        obtain ⟨hold, hold'⟩ | ⟨d, hnew, hnew'⟩ := halong.table i
        · rw [hold, hold', ← hbare]
          simp
        · rw [hnew, hnew', Option.some_or]

namespace Resolution

theorem expr_balanced (e : Expr) : ∀ r, Balanced (·.expr e) [] e.ids r :=
  .of (·.expr_passed e) (fun r _ hi => r.expr_table_of_not_mem e hi)
    fun _ _ h => (Alongside.start h).expr e

theorem stmt_balanced (s : Stmt) : ∀ r, Balanced (·.stmt s) s.declared s.ids r :=
  .of (·.stmt_passed s) (fun r _ hi => r.stmt_table_of_not_mem s hi)
    fun _ _ h => (Alongside.start h).stmt s

theorem body_balanced (ss : List Stmt) :
    ∀ r, Balanced (·.body ss) (ss.flatMap Stmt.declared) (bodyIds ss) r :=
  .of (·.body_passed ss) (fun r _ hi => r.body_table_of_not_mem ss hi)
    fun _ _ h => (Alongside.start h).body ss

/-- No scope is open behind a program either. -/
theorem body_scopes_nil {r : Resolution} (h : r.scopes = []) (ss : List Stmt) :
    (r.body ss).scopes = [] := by
  have hcount := (body_balanced ss r).count
  rw [h] at hcount
  exact List.length_eq_zero_iff.1 hcount

/-- **A program that is passed again** finds the same problems again and files what is filed
already. -/
theorem body_again {r : Resolution} (h : r.scopes = []) (ss : List Stmt) :
    (∀ i : Nat, ((r.body ss).body ss).table[i]? = (r.body ss).table[i]?) ∧
    ∃ problems, (r.body ss).found = r.found ++ problems ∧
      ((r.body ss).body ss).found = (r.body ss).found ++ problems := by
  have hbalanced := body_balanced ss r
  have hplace : SamePlace r (r.body ss) := by
    refine ⟨?_, hbalanced.routine, hbalanced.enclosing⟩
    rw [body_scopes_nil h, h]
    exact .nil
  obtain ⟨filed, problems, _, hemits⟩ := hbalanced.emits
  obtain ⟨hfound, htable⟩ := hemits r ⟨.refl _, rfl, rfl⟩
  obtain ⟨hfound', htable'⟩ := hemits (r.body ss) hplace
  refine ⟨fun i => ?_, problems, hfound, hfound'⟩
  rw [htable', htable]
  cases filed[i]? <;> rfl

end Resolution

/-- **The pass is balanced.**  Whatever its state, passing a statement, also a malformed one, or an
expression, with static errors in it or not, leaves the routine and the class, the count of open
scopes and all scopes but the innermost as they were.  The innermost scope, if one is open, has the
names which the statement itself declares there, readable, and else what it had.  Numbers of other
nodes keep their entries.  What is filed and what is found depends only on the names and flags of
the scopes and on the routine and the class.  So a program that is passed twice, with no scope open,
files the same and finds the same problems a second time, and no scope is open then. -/
theorem resolution_is_balanced (r : Resolution) :
    (∀ s : Stmt, Balanced (·.stmt s) s.declared s.ids r) ∧
    (∀ e : Expr, Balanced (·.expr e) [] e.ids r) ∧
    (r.scopes = [] → ∀ program : List Stmt,
      let first := r.body program
      let second := first.body program
      first.scopes = [] ∧ second.scopes = [] ∧
      (∀ i : Nat, second.table[i]? = first.table[i]?) ∧
      ∃ problems, first.found = r.found ++ problems ∧ second.found = first.found ++ problems) := by
  refine ⟨(Resolution.stmt_balanced · r), (Resolution.expr_balanced · r), fun h program => ?_⟩
  have hfirst := Resolution.body_scopes_nil h program
  exact ⟨hfirst, Resolution.body_scopes_nil hfirst program, Resolution.body_again h program⟩

/-! ### An error that is found twice -/

/-- A state with no scope open, and an entry of another program. -/
def otherProgram : Resolution := { table := (∅ : Distances).insert 9 7 }

/-- A block with a variable that is read in its own initializer. -/
def ownValue : Stmt :=
  .block 3 [.declare 2 ⟨.identifier, "a", .nil, 1⟩ (some (.var 1 ⟨.identifier, "a", .nil, 1⟩))]

def ownValueProblem : Diagnostic := ⟨1, .atText "a", .readInOwnInitializer⟩

theorem resolution_is_balanced_with_errors :
    otherProgram.scopes = [] ∧ 9 ∉ ownValue.ids ∧
      (otherProgram.stmt ownValue).table[9]? = some 7 ∧
      (otherProgram.body [ownValue]).found = [ownValueProblem] ∧
      ((otherProgram.body [ownValue]).body [ownValue]).found =
        [ownValueProblem, ownValueProblem] := by
  obtain ⟨hstmt, _, hagain⟩ := resolution_is_balanced otherProgram
  obtain ⟨_, _, _, problems, hfound, hfound'⟩ := hagain rfl [ownValue]
  have hone : (otherProgram.body [ownValue]).found = [ownValueProblem] := by decide
  refine ⟨rfl, by decide, ?_, hone, ?_⟩
  · rw [(hstmt ownValue).kept 9 (by decide)]
    rfl
  · have hproblems : problems = [ownValueProblem] := hfound.symm.trans hone
    rw [hfound', hone, hproblems]
    rfl

end LoxLang
