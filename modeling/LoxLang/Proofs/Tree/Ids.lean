import LoxLang.Tree.Walk

/-!
# The numbers of a tree

`Expr.ids` and `Stmt.ids` list the numbers of a tree, node by node in the order of the walk, and
`Numbered` says that numbers are distinct and lie in a range.
-/

namespace LoxLang

/-- The numbers of nodes. -/
def nodeIds (nodes : List Node) : List Nat := nodes.filterMap Node.id?

def Expr.ids (e : Expr) : List Nat := nodeIds e.walk

def argIds (args : List Expr) : List Nat := nodeIds (walkArgs args)

def Stmt.ids (s : Stmt) : List Nat := nodeIds s.walk

def bodyIds (body : List Stmt) : List Nat := nodeIds (walkBody body)

def functionIds (f : Function) : List Nat := nodeIds (walkFunction f)

def methodIds (methods : List Function) : List Nat := nodeIds (walkMethods methods)

/-- The numbers of a node that may be missing. -/
def optionIds {α : Type} (ids : α → List Nat) : Option α → List Nat
  | none => []
  | some v => ids v

section

variable (id : Nat)

@[simp] theorem nodeIds_nil : nodeIds [] = [] := rfl

@[simp] theorem nodeIds_cons_expr (e : Expr) (nodes : List Node) :
    nodeIds (.expr e :: nodes) = e.id :: nodeIds nodes := rfl

@[simp] theorem nodeIds_append (xs ys : List Node) :
    nodeIds (xs ++ ys) = nodeIds xs ++ nodeIds ys := List.filterMap_append

@[simp] theorem Expr.ids_literal (value : Literal) : (Expr.literal id value).ids = [id] := rfl

@[simp] theorem Expr.ids_grouping (inner : Expr) :
    (Expr.grouping id inner).ids = id :: inner.ids := rfl

@[simp] theorem Expr.ids_unary (t : Token) (e : Expr) :
    (Expr.unary id t e).ids = id :: e.ids := rfl

@[simp] theorem Expr.ids_binary (left right : Expr) (t : Token) :
    (Expr.binary id left t right).ids = id :: (left.ids ++ right.ids) := by
  simp [Expr.ids, Expr.walk, Expr.id]

@[simp] theorem Expr.ids_logical (left right : Expr) (t : Token) :
    (Expr.logical id left t right).ids = id :: (left.ids ++ right.ids) := by
  simp [Expr.ids, Expr.walk, Expr.id]

@[simp] theorem Expr.ids_var (name : Token) : (Expr.var id name).ids = [id] := rfl

@[simp] theorem Expr.ids_assign (name : Token) (value : Expr) :
    (Expr.assign id name value).ids = id :: value.ids := rfl

@[simp] theorem Expr.ids_call (callee : Expr) (paren : Token) (args : List Expr) :
    (Expr.call id callee paren args).ids = id :: (callee.ids ++ argIds args) := by
  simp [Expr.ids, argIds, Expr.walk, Expr.id]

@[simp] theorem Expr.ids_get (object : Expr) (name : Token) :
    (Expr.get id object name).ids = id :: object.ids := rfl

@[simp] theorem Expr.ids_set (object value : Expr) (name : Token) :
    (Expr.set id object name value).ids = id :: (object.ids ++ value.ids) := by
  simp [Expr.ids, Expr.walk, Expr.id]

@[simp] theorem Expr.ids_this (keyword : Token) : (Expr.this id keyword).ids = [id] := rfl

@[simp] theorem Expr.ids_super (keyword method : Token) :
    (Expr.super id keyword method).ids = [id] := rfl

@[simp] theorem argIds_nil : argIds [] = [] := rfl

@[simp] theorem argIds_cons (e : Expr) (args : List Expr) :
    argIds (e :: args) = e.ids ++ argIds args := by
  simp [argIds, walkArgs, Expr.ids]

@[simp] theorem Stmt.ids_malformed : Stmt.malformed.ids = [] := rfl

@[simp] theorem Stmt.ids_expression (value : Expr) :
    (Stmt.expression id value).ids = id :: value.ids := rfl

@[simp] theorem Stmt.ids_print (value : Expr) : (Stmt.print id value).ids = id :: value.ids := rfl

@[simp] theorem Stmt.ids_declare (name : Token) (value : Option Expr) :
    (Stmt.declare id name value).ids = id :: optionIds Expr.ids value := by
  cases value <;> rfl

@[simp] theorem Stmt.ids_block (body : List Stmt) : (Stmt.block id body).ids = id :: bodyIds body :=
  rfl

@[simp] theorem Stmt.ids_conditional (cond : Expr) (s : Stmt) (s' : Option Stmt) :
    (Stmt.conditional id cond s s').ids = id :: (cond.ids ++ s.ids ++ optionIds Stmt.ids s') := by
  cases s' <;> simp [Stmt.ids, Expr.ids, optionIds, Stmt.walk, nodeIds, Node.id?, Stmt.id?]

@[simp] theorem Stmt.ids_loop (cond : Expr) (body : Stmt) :
    (Stmt.loop id cond body).ids = id :: (cond.ids ++ body.ids) := by
  simp [Stmt.ids, Expr.ids, Stmt.walk, nodeIds, Node.id?, Stmt.id?]

@[simp] theorem Stmt.ids_function (decl : Function) : (Stmt.function decl).ids = functionIds decl :=
  rfl

@[simp] theorem Stmt.ids_ret (keyword : Token) (value : Option Expr) :
    (Stmt.ret id keyword value).ids = id :: optionIds Expr.ids value := by
  cases value <;> rfl

@[simp] theorem Stmt.ids_classDecl (name : Token) (superclass : Option Superclass)
    (methods : List Function) : (Stmt.classDecl id name superclass methods).ids =
      id :: (optionIds (fun s => [s.id]) superclass ++ methodIds methods) := by
  cases superclass <;>
    simp [Stmt.ids, Stmt.walk, nodeIds, Node.id?, Stmt.id?, optionIds, methodIds, Superclass.toExpr,
      Expr.walk, Expr.id]

@[simp] theorem bodyIds_nil : bodyIds [] = [] := rfl

@[simp] theorem bodyIds_cons (s : Stmt) (ss : List Stmt) : bodyIds (s :: ss) = s.ids ++ bodyIds ss := by
  simp [bodyIds, walkBody, Stmt.ids]

@[simp] theorem functionIds_mk (name : Token) (params : List Token) (body : List Stmt) :
    functionIds ⟨id, name, params, body⟩ = id :: bodyIds body := rfl

@[simp] theorem methodIds_nil : methodIds [] = [] := rfl

@[simp] theorem methodIds_cons (f : Function) (fs : List Function) :
    methodIds (f :: fs) = functionIds f ++ methodIds fs := by
  simp [methodIds, walkMethods, functionIds]

end

/-- Distinct numbers from `lo` on, below `hi`. -/
def Numbered (lo hi : Nat) (ids : List Nat) : Prop := ids.Nodup ∧ ∀ i ∈ ids, lo ≤ i ∧ i < hi

namespace Numbered

variable {lo mid hi : Nat} {xs ys : List Nat}

theorem nil : Numbered lo hi [] := ⟨List.nodup_nil, by simp⟩

/-- Numbers of two ranges, one behind the other. -/
theorem append (hx : Numbered lo mid xs) (hy : Numbered mid hi ys) (hlo : lo ≤ mid)
    (hhi : mid ≤ hi) : Numbered lo hi (xs ++ ys) := by
  refine ⟨List.nodup_append.2 ⟨hx.1, hy.1, fun a ha b hb => ?_⟩, fun i hi => ?_⟩
  · have := (hx.2 a ha).2
    have := (hy.2 b hb).1
    omega
  · obtain hi | hi := List.mem_append.1 hi
    · have := hx.2 i hi
      omega
    · have := hy.2 i hi
      omega

/-- A new number on top. -/
theorem cons (h : Numbered lo hi xs) (hlo : lo ≤ hi) : Numbered lo (hi + 1) (hi :: xs) := by
  refine ⟨List.nodup_cons.2 ⟨fun hmem => ?_, h.1⟩, fun i hi => ?_⟩
  · have := (h.2 hi hmem).2
    omega
  · obtain rfl | hi := List.mem_cons.1 hi
    · omega
    · have := h.2 i hi
      omega

theorem mono {lo' hi' : Nat} (h : Numbered lo hi xs) (hlo : lo' ≤ lo) (hhi : hi ≤ hi') :
    Numbered lo' hi' xs := by
  refine ⟨h.1, fun i hi => ?_⟩
  have := h.2 i hi
  omega

theorem perm (h : Numbered lo hi xs) (hp : xs.Perm ys) : Numbered lo hi ys :=
  ⟨hp.nodup h.1, fun i hi => h.2 i (hp.mem_iff.2 hi)⟩

theorem sublist (h : Numbered lo hi xs) (hs : ys.Sublist xs) : Numbered lo hi ys :=
  ⟨hs.nodup h.1, fun i hi => h.2 i (hs.subset hi)⟩

end Numbered

end LoxLang
