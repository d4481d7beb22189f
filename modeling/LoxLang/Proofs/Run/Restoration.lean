import LoxLang.Proofs.Run.AllCourses
import LoxLang.Tree.Walk

/-!
# What a task leaves behind

However a task ends, with a value, with a `return` on its way out or with an error, it puts the
current frame and the count of active calls back to what they were.  The functions on the heap come
from the text that was run: whatever holds of every node of that text, and held of every node of the
functions before, holds of every node of the functions afterwards.

No change that a task makes itself touches the frame or the count, and what it makes of them for the
tasks that it performs it takes back.

* `Task.text` — the nodes of what a task runs.
* `Task.CodeIs` — all nodes that a task can come to satisfy a predicate.

Principal results: `Task.Does.back`, `Task.CodeIs.back`, `Task.CodeIs.starts`.
-/

namespace LoxLang

/-- Every node of every function on the heap satisfies `N`. -/
def Store.CodeIs (N : Node → Prop) (s : Store) : Prop :=
  ∀ (i : Nat) c, s.closures[i]? = some c → ∀ node ∈ walkFunction c.decl, N node

theorem Store.CodeIs.mono {N N' : Node → Prop} {s : Store} (h : s.CodeIs N)
    (hle : ∀ node, N node → N' node) : s.CodeIs N' :=
  fun i c hc node hmem => hle node (h i c hc node hmem)

/-- A machine that is back where it was, with functions all of whose nodes satisfy `N`. -/
structure Machine.Back (N : Node → Prop) (m m₁ : Machine) : Prop where
  frame : m₁.frame = m.frame
  depth : m₁.depth = m.depth
  maxDepth : m₁.maxDepth = m.maxDepth
  table : m₁.table = m.table
  code : m₁.store.CodeIs N

section

variable {N : Node → Prop} {m m₁ m₂ : Machine}

namespace Machine.Back

theorem refl (h : m.store.CodeIs N) : m.Back N m := ⟨rfl, rfl, rfl, rfl, h⟩

theorem trans (h : m.Back N m₁) (h₁ : m₁.Back N m₂) : m.Back N m₂ :=
  ⟨h₁.frame.trans h.frame, h₁.depth.trans h.depth, h₁.maxDepth.trans h.maxDepth,
    h₁.table.trans h.table, h₁.code⟩

/-- A change of the store that adds no function. -/
theorem store (h : m.store.CodeIs N) {s : Store} (hs : s.closures = m.store.closures) :
    m.Back N { m with store := s } := by
  refine ⟨rfl, rfl, rfl, rfl, ?_⟩
  intro i c hc
  rw [hs] at hc
  exact h i c hc

end Machine.Back

/-! ## Changes -/

theorem Store.CodeIs.addClosure {s : Store} (h : s.CodeIs N) {c : Closure}
    (hc : ∀ node ∈ walkFunction c.decl, N node) : (s.addClosure c).2.CodeIs N := by
  intro i c' hc'
  simp only [Store.addClosure, Array.getElem?_push] at hc'
  split at hc'
  · cases hc'
    exact hc
  · exact h i c' hc'

/-- The body of a function on the heap. -/
theorem Store.CodeIs.body {s : Store} (h : s.CodeIs N) {ref : Nat} {c : Closure}
    (hc : s.closures[ref]? = some c) : ∀ node ∈ walkBody c.decl.body, N node := by
  intro node hmem
  refine h ref c hc node ?_
  rw [walkFunction]
  exact List.mem_cons_of_mem _ hmem

namespace Machine

theorem define_back (h : m.store.CodeIs N) (name : String) (v : Value) :
    m.Back N (m.define name v) :=
  .store h rfl

theorem tick_back (h : m.store.CodeIs N) : m.Back N m.tick := ⟨rfl, rfl, rfl, rfl, h⟩

/-- A method on the heap satisfies what the heap does. -/
theorem method?_code {s : Store} (h : s.CodeIs N) {ref : Nat} {name : String} {c : Closure}
    (hc : s.method? ref name = some c) : ∀ node ∈ walkFunction c.decl, N node := by
  unfold Store.method? at hc
  obtain ⟨i, _, hi⟩ := Option.bind_eq_some_iff.1 hc
  exact h i c hi

theorem bindMethod_back (h : m.store.CodeIs N) {c : Closure}
    (hc : ∀ node ∈ walkFunction c.decl, N node) (receiver : Value) :
    m.Back N (m.bindMethod c receiver).2 := by
  refine ⟨rfl, rfl, rfl, rfl, ?_⟩
  have hpush : (m.store.push (Bindings.empty.put "this" receiver) c.frame).2.CodeIs N := h
  exact hpush.addClosure (c := { c with frame := m.store.frames.size }) hc

theorem declareFunction_back (h : m.store.CodeIs N) {decl : Function}
    (hdecl : ∀ node ∈ walkFunction decl, N node) : m.Back N (m.declareFunction decl) := by
  refine ⟨rfl, rfl, rfl, rfl, ?_⟩
  exact h.addClosure (c := ⟨decl, m.frame, false⟩) hdecl

/-- Making closures for methods, one after the other. -/
theorem addMethods_code (frame : Nat) : ∀ (methods : List Function) (table : Bindings Nat)
    (s : Store), s.CodeIs N → (∀ node ∈ walkMethods methods, N node) →
    (methods.foldl (fun (table, s) decl =>
      let (ref, s) := Store.addClosure s ⟨decl, frame, decl.name.lexeme = initializerName⟩
      (table.put decl.name.lexeme ref, s)) (table, s)).2.CodeIs N
  | [], _, _, h, _ => h
  | f :: fs, table, s, h, hmethods => by
    rw [walkMethods, List.forall_mem_append] at hmethods
    exact addMethods_code frame fs _ _ (h.addClosure hmethods.1) hmethods.2

theorem declareClass_back (h : m.store.CodeIs N) (name : Token) (base : Option Nat)
    {methods : List Function} (hmethods : ∀ node ∈ walkMethods methods, N node) :
    m.Back N (m.declareClass name base methods) := by
  have hframe : ∀ frame, (m.define name.lexeme .nil).methodFrame base = frame →
      frame.2.frame = m.frame ∧ frame.2.depth = m.depth ∧ frame.2.maxDepth = m.maxDepth ∧
        frame.2.table = m.table ∧ frame.2.store.CodeIs N := by
    intro frame heq
    subst heq
    cases base with
    | none => exact ⟨rfl, rfl, rfl, rfl, h⟩
    | some ref => exact ⟨rfl, rfl, rfl, rfl, h⟩
  unfold declareClass
  obtain ⟨hf, hdepth, hmax, htable, hcode⟩ := hframe _ rfl
  refine ⟨hf, hdepth, hmax, htable, ?_⟩
  exact addMethods_code _ methods .empty _ hcode hmethods

end Machine

/-! ## Tasks -/

namespace Task

variable {t c : Task} {K W : Set Value}

/-- The nodes of what a task runs. -/
def text : Task → List Node
  | .program _ stmts _ => walkBody stmts
  | .execute _ s _ => s.walk
  | .executeIn _ body _ _ _ => walkBody body
  | .executeAll _ body _ => walkBody body
  | .repeatWhile _ cond s _ => cond.walk ++ s.walk
  | .evaluate _ e _ => e.walk
  | .evaluateAll _ es _ => walkArgs es
  | .call .. | .invoke .. | .applyClosure .. => []

/-- All nodes that a task can come to satisfy `N`: those of what it runs and those on the heap. -/
structure CodeIs (N : Node → Prop) (t : Task) : Prop where
  text : ∀ node ∈ t.text, N node
  heap : t.machine.store.CodeIs N

/-- What a task performs is a part of its text, or the body of a function on the heap. -/
theorem Calls.text (h : t.Calls c) (ht : ∀ node ∈ t.text, N node)
    (hheap : c.machine.store.CodeIs N) : ∀ node ∈ c.text, N node := by
  cases h with
  | routine hc => exact hheap.body hc
  | @thenBranch n id cond s rest v m m₁ =>
    intro node hmem
    apply ht
    cases rest <;> simp_all [Task.text, Stmt.walk]
  | @condition n id cond s rest m =>
    intro node hmem
    apply ht
    cases rest <;> simp_all [Task.text, Stmt.walk]
  | _ =>
    intro node hmem
    first
    | cases hmem
    | exact ht node (by simp_all [Task.text, Stmt.walk, Expr.walk, walkBody, walkArgs])

/-- **No change that a task makes touches the frame or the count of calls**, and new functions come
from its text. -/
theorem Does.back (h : t.Does K m m₁ W) (ht : ∀ node ∈ t.text, N node) (hm : m.store.CodeIs N) :
    m.Back N m₁ := by
  cases h with
  | computes | reads | readsField => exact .refl hm
  | binds hc => exact m.bindMethod_back hm (Machine.method?_code hm hc) _
  | instantiates | setsField | assigns => exact .store hm rfl
  | declares => exact m.define_back hm _ _
  | declaresFunction heq =>
    subst heq
    rw [Task.text, Stmt.walk] at ht
    exact m.declareFunction_back hm ht
  | @declaresClass n id name superclass methods m₀ base heq =>
    subst heq
    exact m.declareClass_back hm name base fun node hmem =>
      ht node (Stmt.walkMethods_subset_walk hmem)
  | prints => exact ⟨rfl, rfl, rfl, rfl, hm⟩
  | ticks => exact m.tick_back hm

/-- What a task makes of the frame and of the count for others it takes back. -/
theorem closes_back (hm : t.machine.Back N m) (hback : (t.opens m).Back N m₁) :
    t.machine.Back N (t.closes m₁) := by
  cases t with
  | executeIn =>
    exact ⟨rfl, hback.depth.trans hm.depth, hback.maxDepth.trans hm.maxDepth,
      hback.table.trans hm.table, hback.code⟩
  | call =>
    refine ⟨hback.frame.trans hm.frame, ?_, hback.maxDepth.trans hm.maxDepth,
      hback.table.trans hm.table, hback.code⟩
    have hdepth : m₁.depth = m.depth + 1 := hback.depth
    show m₁.depth - 1 = _
    rw [hdepth, ← hm.depth]
    rfl
  | _ => exact hm.trans hback

theorem opens_code (t : Task) (hm : m.store.CodeIs N) : (t.opens m).store.CodeIs N := by
  cases t <;> exact hm

theorem CodeIs.respects (h : t.CodeIs N)
    (hparts : ∀ c, t.Calls c → c.CodeIs N → ∀ e, c.end? = some e → c.machine.Back N e) :
    t.Respects (fun m _ => t.machine.Back N m) fun _ _ => True := by
  refine .of_invariant (fun hm hdoes => hm.trans (hdoes.back h.text hm.code))
    fun {m K c e} hm hcalls hstart _ hend => ?_
  have hheap : c.machine.store.CodeIs N := hstart ▸ t.opens_code hm.code
  exact closes_back hm (hstart ▸ hparts c hcalls ⟨hcalls.text h.text hheap, hheap⟩ e hend)

/-- **A task leaves the machine as it found it**, but for the store, the output and the clock. -/
theorem CodeIs.back {e : Machine} (h : t.CodeIs N) (he : t.end? = some e) : t.machine.Back N e := by
  induction t using Task.induction generalizing e with
  | h t ih =>
    have hrespects := h.respects fun c hcalls hc e he => ih c hcalls hc he
    obtain ⟨_, K, hback, _⟩ := (hrespects.follows (.refl h.heap)).leaves e he
    exact hback

/-- **Whatever a task performs starts from a machine that is as the task found it**, or from what the
task makes of it for others. -/
theorem CodeIs.starts (h : t.CodeIs N) (hcalls : t.Calls c) :
    c.CodeIs N ∧ ∃ m, t.machine.Back N m ∧ c.machine = t.opens m := by
  have hrespects := h.respects fun c _ hc e he => hc.back he
  obtain ⟨_, m, K, hback, hstart, _⟩ := (hrespects.follows (.refl h.heap)).starts c hcalls
  have hheap : c.machine.store.CodeIs N := hstart ▸ t.opens_code hback.code
  exact ⟨⟨hcalls.text h.text hheap, hheap⟩, m, hback, hstart⟩

end Task

end

end LoxLang
