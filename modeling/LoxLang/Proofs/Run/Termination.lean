import LoxLang.Proofs.Run.CallDepth

/-!
# Code without loops ends

A text without loops does finitely many steps of its own, so only calls could keep it going.  A call
leaves room for one call less, and what it runs is the body of a function on the heap.  So the
allowance that is needed is at most the height of the text and, for each call that there is room
for, the largest height of a body on the heap.  The initializer that a class runs is part of the
call of the class, and takes no room of its own.

* `Task.Provided` — a task without loops that has the allowance that it may need.

Principal results: `Task.Provided.calls`, `Task.Provided.ends`, `executeProgram_settles`.
-/

namespace LoxLang

mutual

/-- How many steps of an expression are nested in each other, those of calls apart. -/
def Expr.height : Expr → Nat
  | .literal .. => 1
  | .grouping _ inner => inner.height + 1
  | .unary _ _ operand => operand.height + 1
  | .binary _ left _ right => max left.height right.height + 1
  | .logical _ left _ right => max left.height right.height + 1
  | .var .. => 1
  | .assign _ _ value => value.height + 1
  | .call _ callee _ args => max callee.height (argsHeight args) + 1
  | .get _ object _ => object.height + 1
  | .set _ object _ value => max object.height value.height + 1
  | .this .. => 1
  | .super .. => 1

def argsHeight : List Expr → Nat
  | [] => 1
  | e :: es => max e.height (argsHeight es) + 1

end

mutual

/-- How many steps of a statement without loops are nested in each other, those of calls apart. -/
def Stmt.height : Stmt → Nat
  | .malformed => 1
  | .expression _ value => value.height + 1
  | .print _ value => value.height + 1
  | .declare _ _ none => 1
  | .declare _ _ (some value) => value.height + 1
  | .block _ body => bodyHeight body + 2
  | .conditional _ cond thenBranch none => max cond.height thenBranch.height + 1
  | .conditional _ cond thenBranch (some elseBranch) =>
    max cond.height (max thenBranch.height elseBranch.height) + 1
  | .loop .. => 1
  | .function _ => 1
  | .ret _ _ none => 1
  | .ret _ _ (some value) => value.height + 1
  | .classDecl .. => 1

def bodyHeight : List Stmt → Nat
  | [] => 1
  | s :: ss => max s.height (bodyHeight ss) + 1

end

/-- A node that is no loop, and no function with a body higher than `H`. -/
def Node.Calm (H : Nat) : Node → Prop
  | .stmt (.loop ..) => False
  | .stmt (.function decl) => bodyHeight decl.body ≤ H
  | _ => True

theorem Node.Calm.mono {H H' : Nat} (hle : H ≤ H') : ∀ {node : Node}, node.Calm H → node.Calm H'
  | .expr _, _ => trivial
  | .stmt .malformed, _ => trivial
  | .stmt (.expression ..), _ => trivial
  | .stmt (.print ..), _ => trivial
  | .stmt (.declare ..), _ => trivial
  | .stmt (.block ..), _ => trivial
  | .stmt (.conditional ..), _ => trivial
  | .stmt (.function _), h => Nat.le_trans h hle
  | .stmt (.ret ..), _ => trivial
  | .stmt (.classDecl ..), _ => trivial

/-- As many more calls may be active. -/
def Machine.room (m : Machine) : Nat := (m.maxDepth - m.depth).toNat

/-- What all calls together may need, each with a body not higher than `H`. -/
def Machine.reserve (m : Machine) (H : Nat) : Nat := m.room * (H + 4) + 1

section

variable {H : Nat} {m : Machine}

/-- A call that there is room for leaves the allowance for its body. -/
theorem Machine.reserve_beginCall (h : (m.depth : Int) < m.maxDepth) (H : Nat) :
    m.beginCall.reserve H + (H + 4) = m.reserve H := by
  have hroom : m.beginCall.room + 1 = m.room := by
    unfold Machine.room Machine.beginCall
    simp only
    omega
  unfold Machine.reserve
  rw [← hroom, Nat.succ_mul]
  omega

/-- The body of a function on a calm heap is not too high. -/
theorem Store.CodeIs.bodyHeight_le {s : Store} (h : s.CodeIs (Node.Calm H)) {ref : Nat}
    {c : Closure} (hc : s.closures[ref]? = some c) : bodyHeight c.decl.body ≤ H :=
  h ref c hc (.stmt (.function c.decl)) (mem_walkFunction_self c.decl)

end

/-! ## Tasks -/

/-- The allowance of a task. -/
def Task.allowance : Task → Nat
  | .program n .. | .execute n .. | .executeIn n .. | .executeAll n .. | .repeatWhile n ..
  | .evaluate n .. | .evaluateAll n .. | .call n .. | .invoke n .. | .applyClosure n .. => n

/-- What a task without loops may need of its allowance: for its own text, and for calls. -/
def Task.need (H : Nat) : Task → Nat
  | .program _ stmts m => bodyHeight stmts + m.reserve H
  | .execute _ s m => s.height + m.reserve H
  | .executeIn _ body _ _ m => bodyHeight body + 1 + m.reserve H
  | .executeAll _ body m => bodyHeight body + m.reserve H
  | .repeatWhile _ _ _ m => m.reserve H
  | .evaluate _ e m => e.height + m.reserve H
  | .evaluateAll _ es m => argsHeight es + m.reserve H
  | .call _ _ _ _ m => m.reserve H
  | .invoke _ _ _ m => H + 3 + m.reserve H
  | .applyClosure _ _ _ m => H + 2 + m.reserve H

/-- The rounds of a loop are not bounded by its text. -/
def Task.isLoop : Task → Bool
  | .repeatWhile .. => true
  | _ => false

/-- A task without loops that has the allowance that it may need. -/
structure Task.Provided (H : Nat) (t : Task) : Prop where
  code : t.CodeIs (Node.Calm H)
  loopless : t.isLoop = false
  enough : t.need H ≤ t.allowance

namespace Task

section

variable {H : Nat} {t c : Task}

/-- Unless a call is counted, there is as much room for calls as before. -/
theorem Calls.reserve (h : t.Calls c) (hnot : t.isAdmitted = false) (H : Nat) :
    c.machine.reserve H = t.machine.reserve H := by
  obtain ⟨hdepth, hmax, _⟩ := h.depth
  rw [hnot] at hdepth
  unfold Machine.reserve Machine.room
  rw [hmax, hdepth]
  rfl

/-- **What a provided task performs is provided too.** -/
theorem Provided.calls (h : t.Provided H) (hcalls : t.Calls c) : c.Provided H := by
  obtain ⟨hcode, hloop, henough⟩ := h
  have hreserve : t.isAdmitted = false → c.machine.reserve H = t.machine.reserve H :=
    fun hnot => hcalls.reserve hnot H
  suffices hsuffices : c.isLoop = false ∧ c.need H ≤ c.allowance from
    ⟨(hcode.starts hcalls).1, hsuffices.1, hsuffices.2⟩
  cases hcalls with
  | loop =>
    -- a calm statement is no loop
    exact (hcode.text _ List.mem_cons_self).elim
  | loopCondition | loopBody | again => cases hloop
  | invoke harity hdepth =>
    have hroom := Machine.reserve_beginCall hdepth H
    simp only [need, allowance] at henough ⊢
    exact ⟨rfl, by omega⟩
  | @routine n ref args closure m hc =>
    have hheight := hcode.heap.bodyHeight_le hc
    simp only [need, allowance] at henough ⊢
    exact ⟨rfl, by omega⟩
  | @condition n id cond s rest | @thenBranch n id cond s rest =>
    have hsame := hreserve rfl
    refine ⟨rfl, ?_⟩
    simp only [need, allowance, machine] at henough hsame ⊢
    cases rest with
    | none =>
      rw [Stmt.height] at henough
      omega
    | some branch =>
      rw [Stmt.height] at henough
      omega
  | _ =>
    have hsame := hreserve rfl
    simp only [need, allowance, machine, Stmt.height, bodyHeight, Expr.height, argsHeight]
      at henough hsame ⊢
    exact ⟨rfl, by omega⟩

theorem Provided.not_spent (h : t.Provided H) : t.isSpent = false := by
  -- every task is promised more than nothing
  have hpos : ∀ m : Machine, 0 < m.reserve H := fun m => Nat.succ_pos _
  have henough := h.enough
  cases t with
  | program => rfl
  | repeatWhile => cases h.loopless
  | execute n s m | executeIn n body b parent m | executeAll n body m | evaluate n e m
  | evaluateAll n es m | call n callee args paren m | invoke n callee args m
  | applyClosure n ref args m =>
    have hreserve := hpos m
    simp only [need, allowance] at henough
    exact beq_false_of_ne (by omega)

/-- **Every task without loops ends, given the height of its text and the reserve for calls.** -/
theorem Provided.ends (h : t.Provided H) : t.end? ≠ none := by
  induction t using Task.induction with
  | h t ih =>
    intro hnone
    obtain ⟨c, hcalls, hc⟩ := exists_calls_of_end?_eq_none hnone h.not_spent
    exact ih c hcalls (h.calls hcalls) hc

end

end Task

/-- Programs without loops end. -/
theorem executeProgram_settles {H n : Nat} (stmts : List Stmt) (m : Machine)
    (hstmts : ∀ node ∈ walkBody stmts, node.Calm H) (h : m.store.CodeIs (Node.Calm H))
    (hle : bodyHeight stmts + m.reserve H ≤ n) : executeProgram n stmts m ≠ .exhausted := by
  have hprovided : (Task.program n stmts m).Provided H := ⟨⟨hstmts, h⟩, rfl, hle⟩
  intro hexhausted
  exact hprovided.ends (congrArg Outcome.machine? hexhausted)

end LoxLang
