import LoxLang.Proofs.Run.Making
import LoxLang.Proofs.Store.Changes

/-!
# Changes during a run

Whatever a run does to the store is a sequence of changes, each made inside frames and of classes that
exist: each change that a task makes itself is one, and a frame that it makes for others is one.

Principal results: `Task.Does.evolves`, `Task.Intact.changes`, `Task.Intact.evolves`.
-/

namespace LoxLang

section

variable {N : Node → Prop} {m m₁ : Machine}

namespace Machine

theorem declareFunction_evolves (m : Machine) (decl : Function) :
    m.store.Evolves N (m.declareFunction decl).store :=
  (Store.Evolves.one (.addClosure ⟨decl, m.frame, false⟩)).step (.define _ _ _)

/-- A class is declared in three steps, or in four if there is a superclass. -/
theorem declareClass_evolves (h : m.frame < m.store.frames.size) {id : Nat} {name : Token}
    {superclass : Option Superclass} {methods : List Function} {base : Option Nat}
    (hnode : N (.stmt (.classDecl id name superclass methods)))
    (hbase : base.isSome = superclass.isSome) :
    m.store.Evolves N (m.declareClass name base methods).store := by
  have hnamed : m.store.Evolves N (m.define name.lexeme .nil).store := .one (.define _ _ _)
  have hframe : m.store.Evolves N ((m.define name.lexeme .nil).methodFrame base).2.store := by
    cases base with
    | none => exact hnamed
    | some ref =>
      refine hnamed.step (.push _ ?_)
      show m.frame < (m.store.define m.frame name.lexeme .nil).frames.size
      rw [Store.frames_define_size]
      exact h
  exact (hframe.step (.declareClass _ hnode hbase)).step (.define _ _ _)

end Machine

/-! ## Tasks -/

namespace Task

variable {t c : Task} {K W : Set Value} {e : Machine}

/-- What a task leaves behind has come about by changes. -/
def Changes (N : Node → Prop) (t : Task) : Prop :=
  ∀ e, t.end? = some e → t.machine.store.Evolves N e.store

/-- **What a task does to the store itself is a sequence of changes.** -/
theorem Does.evolves (h : t.Does K m m₁ W) (ht : ∀ node ∈ t.text, N node) (hm : m.Intact N)
    (hK : ∀ v ∈ K, m.store.Holds v) : m.store.Evolves N m₁.store := by
  cases h with
  | computes | reads | readsField | prints | ticks => exact .refl _
  | binds hc => exact .bind _ _ (hm.method?_frame hc)
  | instantiates hmem => exact .one (.addInstance (hK _ hmem))
  | setsField => exact .one (.setField _ _ _)
  | assigns | declares => exact .one (.define _ _ _)
  | declaresFunction => exact Machine.declareFunction_evolves _ _
  | @declaresClass n id name superclass methods m₀ base heq hsome =>
    subst heq
    have hnode : N (.stmt (.classDecl id name superclass methods)) :=
      ht _ (Stmt.mem_walk_self (by simp))
    exact Machine.declareClass_evolves hm.frame hnode hsome

/-- What a task makes of the machine for others has come about by a change. -/
theorem Intact.opens_evolves (h : t.Intact N) (hm : t.machine.Since N m) :
    m.store.Evolves N (t.opens m).store := by
  cases t with
  | executeIn =>
    obtain ⟨_, _, _, hparent, _⟩ := h
    exact .one (.push _ (Nat.lt_of_lt_of_le hparent hm.grows.frames))
  | _ => exact .refl _

theorem Intact.follows_evolves (h : t.Intact N) (hN : ∀ node, N node → node.WellNamed) :
    t.Follows (t.Keeps N) (fun m m₁ => m.store.Evolves N m₁.store) t.machine t.Calls t.end?
      t.results := by
  induction t using Task.induction with
  | h t ih =>
    have hrespects : t.Respects (t.Keeps N) fun m m₁ => m.store.Evolves N m₁.store :=
      { refl := fun _ => .refl _
        trans := .trans
        does := fun hk hdoes => ⟨(hk.does hN h hdoes).1,
          hdoes.evolves h.text hk.since.intact hk.holds⟩
        opens := by
          intro m K c hk hcalls hstart hgiven
          rw [hstart]
          exact h.opens_evolves hk.since
        closes := by
          intro m K c e hk hcalls hstart hgiven hend
          have hc := hk.calls hN h hcalls hstart hgiven
          obtain ⟨hsince, hresults⟩ := hc.leaves hN hend
          refine ⟨hk.closes h hstart hsince hresults, ((ih c hcalls hc).leaves e hend).1, ?_⟩
          rw [closes_store]
          exact .refl _ }
    exact hrespects.follows ⟨.refl h.machine, h.given⟩

/-- **What a task leaves behind has come about by changes.** -/
theorem Intact.changes (hN : ∀ node, N node → node.WellNamed) (h : t.Intact N) : t.Changes N :=
  fun e he => ((h.follows_evolves hN).leaves e he).1

/-- **The store of every moment has come about by changes** of the store that the run started from. -/
theorem Intact.evolves (h : t.Intact N) (hN : ∀ node, N node → node.WellNamed)
    (hreaches : t.Reaches c) : t.machine.store.Evolves N c.machine.store := by
  induction hreaches with
  | refl => exact .refl _
  | step hreaches hcalls ih =>
    have hintact := (h.reaches hN hreaches).1
    exact ih.trans ((hintact.follows_evolves hN).starts _ hcalls).1

end Task

end

end LoxLang
