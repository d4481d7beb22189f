import LoxLang.Proofs.Store.Changes

/-!
# Initializers and instances for ever

Methods are marked as initializers when their class is declared, by their names, and instances are
made of a class.  No change of a store alters either.

* `Store.MarksTable` — the methods of a table are marked by their names.
* `Store.Marks` — the methods of all classes are.

Principal results: `Store.Evolves.marks`, `Store.Evolves.classOf`.
-/

namespace LoxLang

/-- A closure is marked as an initializer if it has the name of one. -/
def Closure.Marked (c : Closure) : Prop :=
  c.isInitializer = decide (c.decl.name.lexeme = initializerName)

namespace Store

variable {N : Node → Prop} {s s₁ : Store}

def MarksTable (s : Store) (table : Bindings Nat) : Prop :=
  ∀ name ref, table.find? name = some ref → ∃ c, s.closures[ref]? = some c ∧ c.Marked

def Marks (s : Store) : Prop :=
  ∀ (i : Nat) info, s.classes[i]? = some info → s.MarksTable info.methods

theorem MarksTable.mono {table : Bindings Nat} (h : s.MarksTable table) (hgrows : s.Includes s₁) :
    s₁.MarksTable table := by
  intro name ref href
  obtain ⟨c, hc, hmarked⟩ := h name ref href
  exact ⟨c, hgrows ref c hc, hmarked⟩

theorem Marks.of_classes (h : s.Marks) (hclasses : s₁.classes = s.classes)
    (hgrows : s.Includes s₁) : s₁.Marks := by
  intro i info hinfo
  rw [hclasses] at hinfo
  exact (h i info hinfo).mono hgrows

theorem foldl_addMethod_marks (frame : Nat) : ∀ (methods : List Function) (table : Bindings Nat)
    (s : Store), s.MarksTable table →
    (methods.foldl (addMethod frame) (table, s)).2.MarksTable
      (methods.foldl (addMethod frame) (table, s)).1
  | [], _, _, htable => htable
  | f :: methods, table, s, htable => by
    refine foldl_addMethod_marks frame methods _ _ fun name ref href => ?_
    change (table.put f.name.lexeme s.closures.size).find? name = some ref at href
    rw [Bindings.find?_put] at href
    split at href
    · cases href
      refine ⟨⟨f, frame, f.name.lexeme = initializerName⟩, ?_, rfl⟩
      simp [Store.addClosure]
    · exact htable.mono (Grows.addClosure s _).closures name ref href

/-- **Every change keeps the marks of methods.** -/
theorem Change.marks (h : s.Change N s₁) (hs : s.Marks) : s₁.Marks := by
  cases h with
  | define | push | addInstance | setField => exact hs.of_classes rfl fun _ _ h => h
  | addClosure c => exact hs.of_classes rfl (Grows.addClosure s c).closures
  | @declareClass id name superclass methods base frame hnode hbase =>
    have hadds := addMethods_spec frame methods s
    have htable := foldl_addMethod_marks frame methods .empty s fun _ _ h => by cases h
    rw [← addMethods_eq] at htable
    generalize Machine.addMethods frame methods s = added at hadds htable
    intro i info hinfo
    have hold : added.2.Marks := hs.of_classes hadds.classes hadds.closures
    simp only [Store.addClass, Array.getElem?_push] at hinfo
    split at hinfo
    · cases hinfo
      exact htable
    · exact hold i info hinfo

theorem Evolves.marks (h : s.Evolves N s₁) (hs : s.Marks) : s₁.Marks := by
  induction h with
  | refl => exact hs
  | tail _ hchange ih => exact hchange.marks ih

theorem Marks.initial : Store.initial.Marks := by
  intro i info hinfo
  simp [Store.initial, Store.empty, Store.addNative] at hinfo

/-- The class that an instance was made of. -/
def classOf? (s : Store) (inst : Nat) : Option Nat := s.instances[inst]?.map (·.classRef)

/-- **An instance keeps its class.** -/
theorem Change.classOf (h : s.Change N s₁) {inst ref : Nat} (hs : s.classOf? inst = some ref) :
    s₁.classOf? inst = some ref := by
  obtain ⟨i, hi, rfl⟩ := Option.map_eq_some_iff.1 hs
  unfold classOf?
  cases h with
  | define | push | addClosure => exact hs
  | @declareClass id name superclass methods base frame hnode hbase =>
    show (Machine.addMethods frame methods s).2.instances[inst]?.map _ = _
    rw [(addMethods_spec frame methods s).instances]
    exact hs
  | @addInstance r _ =>
    have hnew : (s.addInstance r).2.instances[inst]? = some i := getElem?_push_of_eq_some hi
    rw [hnew]
    rfl
  | setField r name v =>
    simp only [Store.setField, Array.getElem?_modify]
    split
    · rw [hi]
      rfl
    · exact hs

theorem Evolves.classOf (h : s.Evolves N s₁) {inst ref : Nat} (hs : s.classOf? inst = some ref) :
    s₁.classOf? inst = some ref := by
  induction h with
  | refl => exact hs
  | tail _ hchange ih => exact hchange.classOf ih

end Store

end LoxLang
