import LoxLang.Proofs.Run.Declarations
import LoxLang.Proofs.Run.Order

/-!
# Frames that stay blank

A frame that binds nothing goes on binding nothing: assignments change variables that are there, and
a declaration binds a name in the current frame.  So only statements that are executed in the frame
itself and declare something could fill it.

`Task.Spares` is what a task needs for this, and every task within it inherits it.

Principal results: `Task.Spares.ends`, `Task.Spares.reaches`, `Task.block_keepsBlank`.
-/

namespace LoxLang

/-- A frame that is there and binds nothing. -/
def Store.Blank (s : Store) (g : Nat) : Prop := g < s.frames.size ∧ s.bindings g = .empty

section

variable {g : Nat} {m m₁ e : Machine} {s s₁ : Store}

/-! ## Changes -/

namespace Store.Blank

theorem congr (h : s.Blank g) (hframes : s₁.frames = s.frames) : s₁.Blank g := by
  unfold Store.Blank Store.bindings at *
  rw [hframes]
  exact h

theorem define (h : s.Blank g) {f : Nat} (hf : f ≠ g) (name : String) (v : Value) :
    (s.define f name v).Blank g := by
  refine ⟨by rw [Store.frames_define_size]; exact h.1, ?_⟩
  by_cases hlt : f < s.frames.size
  · rw [Store.bindings_define _ _ _ hlt, if_neg hf]
    exact h.2
  · have hsame : (s.define f name v).frames = s.frames := by
      simp [Store.define, Array.modify, Array.modifyM, hlt]
    exact (h.congr hsame).2

theorem push (h : s.Blank g) (b : Bindings Value) (parent : Nat) : (s.push b parent).2.Blank g := by
  have hlt := h.1
  refine ⟨by rw [Store.frames_push_size]; omega, ?_⟩
  rw [Store.bindings_push, if_neg (by omega)]
  exact h.2

theorem not_has (h : s.Blank g) (name : String) : s.has g name = false := by
  unfold Store.has
  rw [h.2]
  rfl

end Store.Blank

namespace Machine

theorem bindMethod_blank (h : m.store.Blank g) (c : Closure) (receiver : Value) :
    (m.bindMethod c receiver).2.store.Blank g :=
  (h.push (Bindings.empty.put "this" receiver) c.frame).congr rfl

theorem declareFunction_blank (h : m.store.Blank g) (hframe : m.frame ≠ g) (decl : Function) :
    (m.declareFunction decl).store.Blank g := by
  have hadded : (m.store.addClosure ⟨decl, m.frame, false⟩).2.Blank g := h.congr rfl
  exact hadded.define hframe _ _

/-- Making closures leaves the frames alone. -/
theorem foldl_addMethod_frames (frame : Nat) : ∀ (methods : List Function) (table : Bindings Nat)
    (s : Store), (methods.foldl (addMethod frame) (table, s)).2.frames = s.frames
  | [], _, _ => rfl
  | _ :: fs, _, _ => foldl_addMethod_frames frame fs _ _

theorem declareClass_blank (h : m.store.Blank g) (hframe : m.frame ≠ g) (name : Token)
    (base : Option Nat) (methods : List Function) :
    (m.declareClass name base methods).store.Blank g := by
  have hdefine := h.define hframe name.lexeme .nil
  unfold declareClass
  simp only [addMethods_eq]
  cases base with
  | none =>
    refine Store.Blank.define ?_ hframe _ _
    exact hdefine.congr (foldl_addMethod_frames _ methods .empty _)
  | some ref =>
    refine Store.Blank.define ?_ hframe _ _
    have hpush := hdefine.push (Bindings.empty.put "super" (.classValue ref)) m.frame
    exact hpush.congr (foldl_addMethod_frames _ methods .empty _)

end Machine

/-! ## Tasks -/

namespace Task

variable {t c t' : Task} {K W : Set Value}

/-- The statements that a task executes in the current frame. -/
def statements : Task → List Stmt
  | .program _ stmts _ => stmts
  | .execute _ s _ => [s]
  | .executeAll _ body _ => body
  | .repeatWhile _ _ s _ => [s]
  | _ => []

/-- A task on a machine with a blank frame that it declares nothing in. -/
structure Spares (g : Nat) (t : Task) : Prop where
  blank : t.machine.store.Blank g
  declares : t.machine.frame = g → ∀ s ∈ t.statements, s.declared = []

/-- **A change that a task makes leaves a blank frame blank.** -/
theorem Does.blank (h : t.Does K m m₁ W) (hblank : m.store.Blank g)
    (hdeclares : m.frame = g → ∀ s ∈ t.statements, s.declared = []) : m₁.store.Blank g := by
  -- a statement that declares something is not executed in the blank frame
  have hother : ∀ {n : Nat} {s : Stmt} {m₀ : Machine} {name : String} {names : List String},
      t = .execute n s m₀ → s.declared = name :: names → m.frame ≠ g := by
    intro n s m₀ name names heq hdeclared hframe
    subst heq
    rw [hdeclares hframe s List.mem_cons_self] at hdeclared
    cases hdeclared
  cases h with
  | computes | reads | readsField | prints | ticks => exact hblank
  | binds => exact m.bindMethod_blank hblank _ _
  | instantiates | setsField => exact hblank.congr rfl
  | assigns _ hhas _ =>
    refine hblank.define ?_ _ _
    rintro rfl
    rw [hblank.not_has] at hhas
    cases hhas
  | declares heq => exact hblank.define (hother heq rfl) _ _
  | declaresFunction heq => exact m.declareFunction_blank hblank (hother heq rfl) _
  | declaresClass heq => exact m.declareClass_blank hblank (hother heq rfl) _ _ _

/-- What is performed on a machine that the task has come to finds the frame blank, and declares
nothing in it either. -/
theorem Spares.part (h : t.Spares g) (hm : t.machine.Back (fun _ => True) m)
    (hblank : m.store.Blank g) (hcalls : t.Calls c) (hstart : c.machine = t.opens m) :
    c.Spares g := by
  have hdeclares : m.frame = g → ∀ s ∈ t.statements, s.declared = [] :=
    fun hframe => h.declares (hm.frame.symm.trans hframe)
  constructor
  · rw [hstart]
    cases t with
    | executeIn => exact hblank.push _ _
    | _ => exact hblank
  · rw [hstart]
    cases hcalls with
    | body =>
      -- the frame that is entered is another one
      intro hframe
      exact absurd hframe (Nat.ne_of_gt hblank.1)
    | first | head =>
      exact fun hframe => List.forall_mem_singleton.2 (hdeclares hframe _ List.mem_cons_self)
    | next | tail => exact fun hframe s hs => hdeclares hframe s (List.mem_cons_of_mem _ hs)
    | @thenBranch n id cond s rest =>
      intro hframe
      have hnone := hdeclares hframe _ List.mem_cons_self
      refine List.forall_mem_singleton.2 ?_
      cases rest with
      | none => exact hnone
      | some branch => exact (List.append_eq_nil_iff.1 hnone).1
    | elseBranch =>
      intro hframe
      have hnone := hdeclares hframe _ List.mem_cons_self
      exact List.forall_mem_singleton.2 (List.append_eq_nil_iff.1 hnone).2
    | @loop n id cond s =>
      intro hframe
      exact List.forall_mem_singleton.2 (hdeclares hframe (.loop id cond s) List.mem_cons_self)
    | loopBody | again => exact hdeclares
    | _ => rintro _ s ⟨⟩

theorem Spares.follows (h : t.Spares g) :
    t.Follows (fun m _ => t.machine.Back (fun _ => True) m ∧ m.store.Blank g) (fun _ _ => True)
      t.machine t.Calls t.end? t.results := by
  induction t using Task.induction with
  | h t ih =>
    have hrespects : t.Respects
        (fun m _ => t.machine.Back (fun _ => True) m ∧ m.store.Blank g) fun _ _ => True := by
      refine .of_invariant ?_ ?_
      · rintro m K m₁ W ⟨hm, hblank⟩ hdoes
        exact ⟨hm.trans (hdoes.back (fun _ _ => trivial) hm.code),
          hdoes.blank hblank fun hframe => h.declares (hm.frame.symm.trans hframe)⟩
      · rintro m K c e ⟨hm, hblank⟩ hcalls hstart _ hend
        obtain ⟨_, _, ⟨hback, hlast⟩, _⟩ :=
          (ih c hcalls (h.part hm hblank hcalls hstart)).leaves e hend
        refine ⟨closes_back hm (hstart ▸ hback), ?_⟩
        rw [closes_store]
        exact hlast
    exact hrespects.follows ⟨.refl t.codeIs_true.heap, h.blank⟩

/-- **A blank frame is blank when a task is over.** -/
theorem Spares.ends (h : t.Spares g) (he : t.end? = some e) : e.store.Blank g := by
  obtain ⟨_, _, ⟨_, hblank⟩, _⟩ := h.follows.leaves e he
  exact hblank

/-- **What a task performs finds the frame blank**, and declares nothing in it either. -/
theorem Spares.calls (h : t.Spares g) (hcalls : t.Calls c) : c.Spares g := by
  obtain ⟨_, m, _, ⟨hm, hblank⟩, hstart, _⟩ := h.follows.starts c hcalls
  exact h.part hm hblank hcalls hstart

/-- **At every moment within a task, a blank frame is blank.** -/
theorem Spares.reaches (h : t.Spares g) (hreaches : t.Reaches t') : t'.Spares g := by
  induction hreaches with
  | refl => exact h
  | step _ hcalls ih => exact ih.calls hcalls

/-! ## For ever -/

/-- A frame binds nothing at any moment within a task, and nothing when the task is over. -/
structure KeepsBlank (g : Nat) (t : Task) : Prop where
  within : ∀ t', t.Reaches t' → t'.machine.store.bindings g = .empty
  after : ∀ e, t.end? = some e → e.store.bindings g = .empty

theorem Spares.keepsBlank (h : t.Spares g) : t.KeepsBlank g :=
  ⟨fun _ hreaches => (h.reaches hreaches).blank.2, fun _ he => (h.ends he).2⟩

/-- A frame that is not there yet. -/
theorem bindings_next (s : Store) : s.bindings s.frames.size = .empty := by
  simp [Store.bindings]

/-- **The frame of a block whose statements declare nothing stays blank.** -/
theorem block_keepsBlank {body : List Stmt} (hbody : ∀ s ∈ body, s.declared = []) (n id : Nat)
    (m : Machine) : (Task.execute n (.block id body) m).KeepsBlank m.store.frames.size := by
  have hspares : ∀ k,
      (Task.executeAll k body (m.enter .empty m.frame)).Spares m.store.frames.size := by
    refine fun k => ⟨⟨?_, ?_⟩, fun _ => hbody⟩
    · show _ < (m.store.push .empty m.frame).2.frames.size
      rw [Store.frames_push_size]
      omega
    · show (m.store.push .empty m.frame).2.bindings m.store.frames.size = .empty
      rw [Store.bindings_push, if_pos rfl]
  constructor
  · intro t' hreaches
    obtain rfl | ⟨c, hcalls, hreaches⟩ := hreaches.cases_head
    · exact bindings_next _
    · cases hcalls
      obtain rfl | ⟨c, hcalls, hreaches⟩ := hreaches.cases_head
      · exact bindings_next _
      · cases hcalls
        exact ((hspares _).reaches hreaches).blank.2
  · intro e he
    match n with
    | 0 => cases he
    | 1 => cases he
    | n + 2 =>
      have hstart : (Task.executeIn (n + 1) body .empty m.frame m).end? = some e := he
      rw [end?, LoxLang.executeIn] at hstart
      cases ho : LoxLang.executeAll n body (m.enter .empty m.frame) with
      | exhausted =>
        rw [ho] at hstart
        cases hstart
      | done _ e' | raised _ e' | fault _ e' =>
        rw [ho] at hstart
        cases hstart
        exact ((hspares n).ends (congrArg Outcome.machine? ho)).2

end Task

end

end LoxLang
