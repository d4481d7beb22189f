import LoxLang.Tree.Walk

/-!
# What stands below a node

The walk of a tree lists with every node all that stands below it, and every node of a walk has a
number.

Principal results: `Stmt.walk_closed`, `walkBody_closed`.
-/

namespace LoxLang

/-- A node and everything below it. -/
def Node.walk : Node → List Node
  | .expr e => e.walk
  | .stmt s => s.walk

/-- Nodes that have numbers, with everything that stands below one of them. -/
def Closed (nodes : List Node) : Prop :=
  ∀ node ∈ nodes, node.id?.isSome = true ∧ ∀ below ∈ node.walk, below ∈ nodes

namespace Closed

variable {nodes nodes' : List Node} {node : Node}

theorem nil : Closed [] := fun _ h => by cases h

theorem append (h : Closed nodes) (h' : Closed nodes') : Closed (nodes ++ nodes') := by
  intro node hmem
  obtain hmem | hmem := List.mem_append.1 hmem
  · obtain ⟨hid, hbelow⟩ := h node hmem
    exact ⟨hid, fun below hb => List.mem_append_left _ (hbelow below hb)⟩
  · obtain ⟨hid, hbelow⟩ := h' node hmem
    exact ⟨hid, fun below hb => List.mem_append_right _ (hbelow below hb)⟩

/-- A node on top of what is below it. -/
theorem cons (hid : node.id?.isSome = true) (hwalk : node.walk = node :: nodes)
    (h : Closed nodes) : Closed (node :: nodes) := by
  intro other hmem
  obtain rfl | hmem := List.mem_cons.1 hmem
  · exact ⟨hid, fun below hb => hwalk ▸ hb⟩
  · obtain ⟨hid', hbelow⟩ := h other hmem
    exact ⟨hid', fun below hb => List.mem_cons_of_mem _ (hbelow below hb)⟩

end Closed

mutual

theorem Expr.walk_closed : ∀ e : Expr, Closed e.walk
  | .literal .. | .var .. | .this .. | .super .. => .cons rfl rfl .nil
  | .grouping _ inner => .cons rfl rfl inner.walk_closed
  | .unary _ _ operand => .cons rfl rfl operand.walk_closed
  | .binary _ left _ right => .cons rfl rfl (left.walk_closed.append right.walk_closed)
  | .logical _ left _ right => .cons rfl rfl (left.walk_closed.append right.walk_closed)
  | .assign _ _ value => .cons rfl rfl value.walk_closed
  | .call _ callee _ args => .cons rfl rfl (callee.walk_closed.append (walkArgs_closed args))
  | .get _ object _ => .cons rfl rfl object.walk_closed
  | .set _ object _ value => .cons rfl rfl (object.walk_closed.append value.walk_closed)

theorem walkArgs_closed : ∀ args : List Expr, Closed (walkArgs args)
  | [] => .nil
  | e :: es => e.walk_closed.append (walkArgs_closed es)

end

mutual

theorem Stmt.walk_closed : ∀ s : Stmt, Closed s.walk
  | .malformed => .nil
  | .expression _ value => .cons rfl rfl value.walk_closed
  | .print _ value => .cons rfl rfl value.walk_closed
  | .declare _ _ none => .cons rfl rfl .nil
  | .declare _ _ (some value) => .cons rfl rfl value.walk_closed
  | .block _ body => .cons rfl rfl (walkBody_closed body)
  | .conditional _ cond thenBranch none =>
    .cons rfl rfl (cond.walk_closed.append thenBranch.walk_closed)
  | .conditional _ cond thenBranch (some elseBranch) =>
    .cons rfl rfl ((cond.walk_closed.append thenBranch.walk_closed).append elseBranch.walk_closed)
  | .loop _ cond body => .cons rfl rfl (cond.walk_closed.append body.walk_closed)
  | .function decl => walkFunction_closed decl
  | .ret _ _ none => .cons rfl rfl .nil
  | .ret _ _ (some value) => .cons rfl rfl value.walk_closed
  | .classDecl _ _ none methods => .cons rfl rfl (walkMethods_closed methods)
  | .classDecl _ _ (some superclass) methods =>
    .cons rfl rfl (superclass.toExpr.walk_closed.append (walkMethods_closed methods))

theorem walkBody_closed : ∀ body : List Stmt, Closed (walkBody body)
  | [] => .nil
  | s :: ss => s.walk_closed.append (walkBody_closed ss)

theorem walkFunction_closed : ∀ f : Function, Closed (walkFunction f)
  | ⟨_, _, _, body⟩ => .cons rfl rfl (walkBody_closed body)

theorem walkMethods_closed : ∀ methods : List Function, Closed (walkMethods methods)
  | [] => .nil
  | f :: fs => (walkFunction_closed f).append (walkMethods_closed fs)

end

end LoxLang
