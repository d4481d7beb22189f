import LoxLang.Proofs.Scope.Table
import LoxLang.Tree.Walk

/-!
# Where a return may stand

The `return` statements of a function are those in its body, but not in the functions and classes
declared there.  A program without static errors has none outside of functions, and those of an
initializer have no value.

* `Stmt.returns` — the `return` statements in a statement.
* `Node.Initializes` — the initializers of a class, if the node declares one, return no value.

Principal result: `ofProgram_returns`.
-/

namespace LoxLang

mutual

/-- The `return` statements in a statement, without those of the functions declared there. -/
def Stmt.returns : Stmt → List Stmt
  | s@(.ret ..) => [s]
  | .block _ body => bodyReturns body
  | .conditional _ _ thenBranch none => thenBranch.returns
  | .conditional _ _ thenBranch (some elseBranch) => thenBranch.returns ++ elseBranch.returns
  | .loop _ _ body => body.returns
  | _ => []

def bodyReturns : List Stmt → List Stmt
  | [] => []
  | s :: ss => s.returns ++ bodyReturns ss

end

/-- A `return` that gives no value. -/
def Stmt.IsBareReturn (s : Stmt) : Prop := ∃ id keyword, s = .ret id keyword none

/-- The initializers among methods return no value. -/
def InitializersReturnNothing (methods : List Function) : Prop :=
  ∀ f ∈ methods, f.name.lexeme = initializerName → ∀ s ∈ bodyReturns f.body, s.IsBareReturn

def Node.Initializes : Node → Prop
  | .stmt (.classDecl _ _ _ methods) => InitializersReturnNothing methods
  | _ => True

/-- The `return` may stand in a routine of this kind. -/
structure Routine.Allows (routine : Routine) (s : Stmt) : Prop where
  inside : routine ≠ .none
  bare : routine = .initializer → s.IsBareReturn

mutual

theorem Expr.walk_initializes : ∀ e : Expr, ∀ node ∈ e.walk, node.Initializes
  | .literal .. | .var .. | .this .. | .super .. => by simp [Expr.walk, Node.Initializes]
  | .grouping _ e | .unary _ _ e | .assign _ _ e | .get _ e _ => by
    rw [Expr.walk, List.forall_mem_cons]
    exact ⟨trivial, e.walk_initializes⟩
  | .binary _ a _ b | .logical _ a _ b | .set _ a _ b => by
    rw [Expr.walk, List.forall_mem_cons, List.forall_mem_append]
    exact ⟨trivial, a.walk_initializes, b.walk_initializes⟩
  | .call _ f _ args => by
    rw [Expr.walk, List.forall_mem_cons, List.forall_mem_append]
    exact ⟨trivial, f.walk_initializes, walkArgs_initializes args⟩

theorem walkArgs_initializes : ∀ es : List Expr, ∀ node ∈ walkArgs es, node.Initializes
  | [] => by simp [walkArgs]
  | e :: es => by
    rw [walkArgs, List.forall_mem_append]
    exact ⟨e.walk_initializes, walkArgs_initializes es⟩

end

/-- The returns of a part of a program may stand there, and its initializers return nothing. -/
structure ReturnsWell (routine : Routine) (returns : List Stmt) (nodes : List Node) : Prop where
  returns : ∀ s ∈ returns, routine.Allows s
  nodes : ∀ node ∈ nodes, node.Initializes

namespace ReturnsWell

variable {routine : Routine} {rs rs' : List Stmt} {ns ns' : List Node}

theorem nil : ReturnsWell routine [] [] := ⟨by simp, by simp⟩

theorem append (h : ReturnsWell routine rs ns) (h' : ReturnsWell routine rs' ns') :
    ReturnsWell routine (rs ++ rs') (ns ++ ns') :=
  ⟨List.forall_mem_append.2 ⟨h.returns, h'.returns⟩, List.forall_mem_append.2 ⟨h.nodes, h'.nodes⟩⟩

/-- A statement around parts of the program. -/
theorem node {node : Node} (h : ReturnsWell routine rs ns) (hnode : node.Initializes) :
    ReturnsWell routine rs (node :: ns) :=
  ⟨h.returns, List.forall_mem_cons.2 ⟨hnode, h.nodes⟩⟩

/-- Behind an expression. -/
theorem expr (e : Expr) (h : ReturnsWell routine rs ns) : ReturnsWell routine rs (e.walk ++ ns) :=
  ⟨h.returns, List.forall_mem_append.2 ⟨e.walk_initializes, h.nodes⟩⟩

/-- An expression alone. -/
theorem value (e : Expr) : ReturnsWell routine [] e.walk := ⟨by simp, e.walk_initializes⟩

end ReturnsWell

namespace Resolution

variable {r : Resolution}

/-- A `return` without a problem may stand where it does. -/
theorem checkReturn_allows {keyword : Token} {hasValue : Bool} {s : Stmt}
    (h : (r.checkReturn keyword hasValue).found = [])
    (hs : hasValue = false → s.IsBareReturn) : r.routine.Allows s := by
  unfold checkReturn at h
  simp only at h
  have hinside : r.routine ≠ .none := by
    intro hnone
    rw [if_pos hnone] at h
    split at h
    · exact found_ne_nil (note_passed _ keyword .valueFromInitializer) h
    · simp [note] at h
  rw [if_neg hinside] at h
  refine ⟨hinside, fun hinit => hs ?_⟩
  cases hasValue with
  | false => rfl
  | true =>
    rw [if_pos ⟨rfl, hinit⟩] at h
    simp [note] at h

mutual

theorem stmt_returnsWell (r : Resolution) : ∀ s : Stmt, (r.stmt s).found = [] →
    ReturnsWell r.routine s.returns s.walk
  | .malformed, _ => .nil
  | .expression _ value, _ => .node (.value value) trivial
  | .print _ value, _ => .node (.value value) trivial
  | .declare _ _ none, _ => .node .nil trivial
  | .declare _ _ (some value), _ => .node (.value value) trivial
  | .block _ body, h => .node (body_returnsWell r.openScope body h) trivial
  | .conditional _ cond thenBranch none, h => by
    have hthen := stmt_returnsWell (r.expr cond) thenBranch h
    rw [(r.expr_passed cond).routine] at hthen
    exact .node (.expr cond hthen) trivial
  | .conditional _ cond thenBranch (some elseBranch), h => by
    have hthen := stmt_returnsWell (r.expr cond) thenBranch
      (found_eq_nil (stmt_passed _ elseBranch) h)
    have helse := stmt_returnsWell ((r.expr cond).stmt thenBranch) elseBranch h
    rw [(stmt_passed _ thenBranch).routine] at helse
    rw [(r.expr_passed cond).routine] at hthen helse
    have hboth := ReturnsWell.expr cond (hthen.append helse)
    rw [← List.append_assoc] at hboth
    exact hboth.node trivial
  | .loop _ cond body, h => by
    have hbody := stmt_returnsWell (r.expr cond) body h
    rw [(r.expr_passed cond).routine] at hbody
    exact .node (.expr cond hbody) trivial
  | .function decl, h => ⟨by simp [Stmt.returns], (function_returnsWell _ .function decl h).2⟩
  | .ret id keyword none, h =>
    ⟨List.forall_mem_singleton.2 (checkReturn_allows h fun _ => ⟨id, keyword, rfl⟩),
      List.forall_mem_singleton.2 trivial⟩
  | .ret id keyword (some value), h =>
    have hfound : (r.checkReturn keyword true).found = [] := found_eq_nil (expr_passed _ value) h
    ⟨List.forall_mem_singleton.2 (checkReturn_allows hfound fun hfalse => by cases hfalse),
      List.forall_mem_cons.2 ⟨trivial, value.walk_initializes⟩⟩
  | .classDecl _ name superclass methods, h => by
    have hfound : ((r.enterClass name superclass).methods methods).found = [] := by
      rw [← (leaveClass_keeps _ superclass r.enclosing).2.2.1]
      exact h
    obtain ⟨hinits, hnodes⟩ := methods_returnWell _ methods hfound
    cases superclass with
    | none => exact ⟨by simp [Stmt.returns], List.forall_mem_cons.2 ⟨hinits, hnodes⟩⟩
    | some s =>
      exact ⟨by simp [Stmt.returns], List.forall_mem_cons.2 ⟨hinits, List.forall_mem_append.2
        ⟨s.toExpr.walk_initializes, hnodes⟩⟩⟩

theorem body_returnsWell (r : Resolution) : ∀ body : List Stmt, (r.body body).found = [] →
    ReturnsWell r.routine (bodyReturns body) (walkBody body)
  | [], _ => .nil
  | s :: ss, h => by
    have hs := stmt_returnsWell r s (found_eq_nil ((r.stmt s).body_passed ss) h)
    have hss := body_returnsWell (r.stmt s) ss h
    rw [(r.stmt_passed s).routine] at hss
    exact hs.append hss

theorem function_returnsWell (r : Resolution) (routine : Routine) : ∀ f : Function,
    (r.function routine f).found = [] →
    (∀ s ∈ bodyReturns f.body, routine.Allows s) ∧ ∀ node ∈ walkFunction f, node.Initializes
  | ⟨_, _, params, body⟩, h => by
    have hfound : (({ r with routine }.openScope.parameters params).body body).found = [] := h
    have hbody := body_returnsWell _ body hfound
    rw [(parameters_keeps params _).2.2.1] at hbody
    exact ⟨hbody.returns, List.forall_mem_cons.2 ⟨trivial, hbody.nodes⟩⟩

theorem methods_returnWell (r : Resolution) : ∀ methods : List Function,
    (r.methods methods).found = [] →
    InitializersReturnNothing methods ∧ ∀ node ∈ walkMethods methods, node.Initializes
  | [], _ => ⟨by simp [InitializersReturnNothing], by simp [walkMethods]⟩
  | f :: fs, h => by
    obtain ⟨hreturns, hnodes⟩ := function_returnsWell r (methodRoutine f.name) f
      (found_eq_nil ((r.function (methodRoutine f.name) f).methods_passed fs) h)
    obtain ⟨hinits, hrest⟩ := methods_returnWell _ fs h
    refine ⟨List.forall_mem_cons.2 ⟨fun hname s hs => ?_, hinits⟩,
      List.forall_mem_append.2 ⟨hnodes, hrest⟩⟩
    exact (hreturns s hs).bare (if_pos hname)

end

end Resolution

/-- **Returns stand where they may.**  A program without static errors has no `return` outside of
functions, and its initializers return no value. -/
theorem ofProgram_returns {stmts : List Stmt} (h : (Resolution.ofProgram stmts).found = []) :
    bodyReturns stmts = [] ∧ ∀ node ∈ walkBody stmts, node.Initializes := by
  have hwell := Resolution.body_returnsWell {} stmts h
  refine ⟨List.eq_nil_iff_forall_not_mem.2 fun s hs => ?_, hwell.nodes⟩
  exact (hwell.returns s hs).inside rfl

end LoxLang
