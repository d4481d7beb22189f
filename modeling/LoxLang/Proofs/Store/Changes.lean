import Mathlib.Logic.Relation
import LoxLang.Eval
import LoxLang.Proofs.Store.Integrity
import LoxLang.Tree.Walk

/-!
# Changes of a store

A store changes in six ways: a frame binds a name, a frame is made inside another one, a function is
added, a class with its methods is declared, an instance of a class is made, and an instance gets a
field.  What each of these changes keeps holds of all stores that a program comes to.

* `Store.Change` — one change; the classes are those of declarations that satisfy `N`.
* `Store.Evolves` — changes one after the other.
* `Store.Founded` — only the global frame has no parent, instances have classes, and classes have
  declarations.

Principal results: `Store.Change.founded`, `Store.Evolves.founded`.
-/

namespace LoxLang

/-- The last declaration of a name among methods. -/
def lastNamed? (name : String) (methods : List Function) : Option Function :=
  (methods.filter fun f => f.name.lexeme = name).getLast?

theorem lastNamed?_concat (name : String) (methods : List Function) (f : Function) :
    lastNamed? name (methods ++ [f]) =
      if f.name.lexeme = name then some f else lastNamed? name methods := by
  unfold lastNamed?
  rw [List.filter_append]
  split
  · rename_i h
    simp [h]
  · rename_i h
    simp [h]

/-- What `addMethods` does for one method. -/
def addMethod (frame : Nat) (acc : Bindings Nat × Store) (decl : Function) :
    Bindings Nat × Store :=
  (acc.1.put decl.name.lexeme acc.2.closures.size,
    (acc.2.addClosure ⟨decl, frame, decl.name.lexeme = initializerName⟩).2)

theorem addMethods_eq (frame : Nat) (methods : List Function) (s : Store) :
    Machine.addMethods frame methods s = methods.foldl (addMethod frame) (.empty, s) := rfl

namespace Store

variable {N : Node → Prop} {s s₁ s₂ : Store}

/-- A table of methods leads to the last declarations of their names. -/
def Tabulates (s : Store) (table : Bindings Nat) (methods : List Function) : Prop :=
  ∀ name, Option.Rel (fun ref decl => ∃ c, s.closures[ref]? = some c ∧ c.decl = decl)
    (table.find? name) (lastNamed? name methods)

/-- A class as a declaration has made it. -/
structure MadeBy (s : Store) (info : ClassInfo) (name : Token) (superclass : Option Superclass)
    (methods : List Function) : Prop where
  name : info.name = name.lexeme
  base : info.base.isSome = superclass.isSome
  methods : s.Tabulates info.methods methods

/-- The declaration of a class, which satisfies `N`, has these methods. -/
def Declares (N : Node → Prop) (s : Store) (ref : Nat) (methods : List Function) : Prop :=
  ∃ info id name superclass, s.classes[ref]? = some info ∧
    N (.stmt (.classDecl id name superclass methods)) ∧ s.MadeBy info name superclass methods

/-! ## Changes -/

/-- One change of a store. -/
inductive Change (N : Node → Prop) (s : Store) : Store → Prop where
  | define (f : Nat) (name : String) (v : Value) : Change N s (s.define f name v)
  | push (b : Bindings Value) {parent : Nat} :
      parent < s.frames.size → Change N s (s.push b parent).2
  | addClosure (c : Closure) : Change N s (s.addClosure c).2
  | declareClass {id : Nat} {name : Token} {superclass : Option Superclass}
      {methods : List Function} {base : Option Nat} (frame : Nat) :
      N (.stmt (.classDecl id name superclass methods)) → base.isSome = superclass.isSome →
      Change N s ((Machine.addMethods frame methods s).2.addClass
        ⟨name.lexeme, base, (Machine.addMethods frame methods s).1⟩).2
  | addInstance {ref : Nat} : ref < s.classes.size → Change N s (s.addInstance ref).2
  | setField (ref : Nat) (name : String) (v : Value) : Change N s (s.setField ref name v)

theorem Change.mono {N' : Node → Prop} (h : s.Change N s₁) (hle : ∀ node, N node → N' node) :
    s.Change N' s₁ := by
  cases h with
  | define f name v => exact .define f name v
  | push b hparent => exact .push b hparent
  | addClosure c => exact .addClosure c
  | declareClass frame hnode hbase => exact .declareClass frame (hle _ hnode) hbase
  | addInstance href => exact .addInstance href
  | setField ref name v => exact .setField ref name v

/-- Changes one after the other. -/
def Evolves (N : Node → Prop) : Store → Store → Prop := Relation.ReflTransGen (Change N)

namespace Evolves

theorem refl (s : Store) : s.Evolves N s := Relation.ReflTransGen.refl

theorem one (h : s.Change N s₁) : s.Evolves N s₁ := Relation.ReflTransGen.single h

theorem trans (h : s.Evolves N s₁) (h₁ : s₁.Evolves N s₂) : s.Evolves N s₂ :=
  Relation.ReflTransGen.trans h h₁

theorem step (h : s.Evolves N s₁) (h₁ : s₁.Change N s₂) : s.Evolves N s₂ :=
  Relation.ReflTransGen.tail h h₁

theorem mono {N' : Node → Prop} (h : s.Evolves N s₁) (hle : ∀ node, N node → N' node) :
    s.Evolves N' s₁ :=
  Relation.ReflTransGen.mono (fun _ _ hchange => Change.mono hchange hle) _ _ h

/-- Binding a method makes its frame, and a function in it. -/
theorem bind (s : Store) {c : Closure} (receiver : Value) (hc : c.frame < s.frames.size) :
    s.Evolves N (s.bind c receiver).2 :=
  (one (.push _ hc)).step (.addClosure _)

end Evolves

/-! ## Methods -/

/-- The functions of a store are found in another one. -/
def Includes (s s₁ : Store) : Prop :=
  ∀ (i : Nat) c, s.closures[i]? = some c → s₁.closures[i]? = some c

theorem Tabulates.mono {table : Bindings Nat} {methods : List Function}
    (h : s.Tabulates table methods) (hgrows : s.Includes s₁) : s₁.Tabulates table methods := by
  intro name
  have hname := h name
  generalize table.find? name = ref? at hname
  generalize lastNamed? name methods = decl? at hname
  cases hname with
  | none => exact .none
  | some hc =>
    obtain ⟨c, hc, hdecl⟩ := hc
    exact .some ⟨c, hgrows _ c hc, hdecl⟩

theorem MadeBy.mono {info : ClassInfo} {name : Token} {superclass : Option Superclass}
    {methods : List Function} (h : s.MadeBy info name superclass methods)
    (hgrows : s.Includes s₁) : s₁.MadeBy info name superclass methods :=
  ⟨h.name, h.base, h.methods.mono hgrows⟩

/-- One more method takes the place of those with its name before it. -/
theorem Tabulates.put {table : Bindings Nat} {methods : List Function}
    (h : s.Tabulates table methods) {c : Closure} {f : Function} (hc : c.decl = f) :
    (s.addClosure c).2.Tabulates (table.put f.name.lexeme s.closures.size) (methods ++ [f]) := by
  intro name
  rw [Bindings.find?_put, lastNamed?_concat]
  split
  · refine .some ⟨c, ?_, hc⟩
    simp [Store.addClosure]
  · exact h.mono (Grows.addClosure s c).closures name

/-- What adding methods does: it adds functions, and nothing else. -/
structure AddsMethods (s : Store) (added : Bindings Nat × Store) (methods : List Function) :
    Prop where
  table : added.2.Tabulates added.1 methods
  frames : added.2.frames = s.frames
  classes : added.2.classes = s.classes
  instances : added.2.instances = s.instances
  closures : s.Includes added.2

theorem AddsMethods.next {c : Closure} {methods : List Function} {added : Bindings Nat × Store}
    (h : (s.addClosure c).2.AddsMethods added methods) : s.AddsMethods added methods :=
  ⟨h.table, h.frames, h.classes, h.instances,
    fun i c' hc => h.closures i c' ((Grows.addClosure s c).closures i c' hc)⟩

/-- The methods passed so far are in the table, whatever the fold has come to. -/
theorem foldl_addMethod_spec (frame : Nat) : ∀ (methods passed : List Function)
    (table : Bindings Nat) (s : Store), s.Tabulates table passed →
    s.AddsMethods (methods.foldl (addMethod frame) (table, s)) (passed ++ methods)
  | [], passed, table, s, htable => by
    rw [List.append_nil]
    exact ⟨htable, rfl, rfl, rfl, fun _ _ h => h⟩
  | f :: methods, passed, table, s, htable => by
    have hput := htable.put (c := ⟨f, frame, f.name.lexeme = initializerName⟩) rfl
    have hnext := foldl_addMethod_spec frame methods (passed ++ [f]) _ _ hput
    rw [List.append_assoc, List.singleton_append] at hnext
    exact .next hnext

theorem addMethods_spec (frame : Nat) (methods : List Function) (s : Store) :
    s.AddsMethods (Machine.addMethods frame methods s) methods := by
  rw [addMethods_eq]
  exact foldl_addMethod_spec frame methods [] .empty s fun name => .none

/-! ## What every change keeps -/

/-- Only the global frame has no parent, every instance has a class, and every class was made by a
declaration. -/
structure Founded (N : Node → Prop) (s : Store) : Prop where
  rooted : ∀ f, f < s.frames.size → s.parent? f = none → f = globalFrame
  instances : ∀ (i : Nat) inst, s.instances[i]? = some inst → inst.classRef < s.classes.size
  classes : ∀ ref, ref < s.classes.size → ∃ methods, s.Declares N ref methods

theorem Declares.mono {ref : Nat} {methods : List Function} (h : s.Declares N ref methods)
    (hclasses : ∀ (i : Nat) info, s.classes[i]? = some info → s₁.classes[i]? = some info)
    (hgrows : s.Includes s₁) : s₁.Declares N ref methods := by
  obtain ⟨info, id, name, superclass, hinfo, hnode, hmade⟩ := h
  exact ⟨info, id, name, superclass, hclasses ref info hinfo, hnode, hmade.mono hgrows⟩

/-- Where no class is added, those that there are keep their declarations. -/
theorem Founded.classes_of_eq (h : s.Founded N) (hclasses : s₁.classes = s.classes)
    (hgrows : s.Includes s₁) (ref : Nat) (href : ref < s₁.classes.size) :
    ∃ methods, s₁.Declares N ref methods := by
  rw [hclasses] at href
  obtain ⟨methods, hdecl⟩ := h.classes ref href
  refine ⟨methods, hdecl.mono (fun i info hi => ?_) hgrows⟩
  rw [hclasses]
  exact hi

theorem Founded.initial : Store.initial.Founded N where
  rooted f hf _ := by
    simpa [Store.initial, Store.empty, Store.addNative, globalFrame] using hf
  instances i inst h := by simp [Store.initial, Store.empty, Store.addNative] at h
  classes ref h := by simp [Store.initial, Store.empty, Store.addNative] at h

/-- **Every change keeps a store founded.** -/
theorem Change.founded (h : s.Change N s₁) (hs : s.Founded N) : s₁.Founded N := by
  cases h with
  | define f name v =>
    refine ⟨fun g hg hp => ?_, hs.instances, hs.classes_of_eq rfl fun _ _ h => h⟩
    rw [frames_define_size] at hg
    rw [parent?_define] at hp
    exact hs.rooted g hg hp
  | @push b parent hparent =>
    refine ⟨fun g hg hp => ?_, hs.instances, hs.classes_of_eq rfl fun _ _ h => h⟩
    rw [frames_push_size] at hg
    rw [parent?_push] at hp
    split at hp
    · cases hp
    · exact hs.rooted g (by omega) hp
  | addClosure c =>
    exact ⟨hs.rooted, hs.instances, hs.classes_of_eq rfl (Grows.addClosure s c).closures⟩
  | @declareClass id name superclass methods base frame hnode hbase =>
    have hadds := addMethods_spec frame methods s
    generalize Machine.addMethods frame methods s = added at hadds
    have hgrows := Grows.addClass added.2 ⟨name.lexeme, base, added.1⟩
    have hsize : (added.2.addClass ⟨name.lexeme, base, added.1⟩).2.classes.size =
        s.classes.size + 1 := by
      simp [Store.addClass, hadds.classes]
    refine ⟨fun g hg hp => ?_, fun i inst hi => ?_, fun ref href => ?_⟩
    · have hframes : (added.2.addClass ⟨name.lexeme, base, added.1⟩).2.frames = s.frames :=
        hadds.frames
      rw [hframes] at hg
      unfold Store.parent? at hp
      rw [hframes] at hp
      exact hs.rooted g hg hp
    · have hinst : s.instances[i]? = some inst := by
        rw [← hadds.instances]
        exact hi
      have hlt := hs.instances i inst hinst
      omega
    · rw [hsize] at href
      obtain hold | rfl : ref < s.classes.size ∨ ref = s.classes.size := by omega
      · obtain ⟨before, hdecl⟩ := hs.classes ref hold
        refine ⟨before, hdecl.mono (fun i info hi => hgrows.classes i info ?_) fun i c hc =>
          hgrows.closures i c (hadds.closures i c hc)⟩
        rw [hadds.classes]
        exact hi
      · refine ⟨methods, ⟨name.lexeme, base, added.1⟩, id, name, superclass, ?_, hnode, rfl, hbase,
          hadds.table.mono hgrows.closures⟩
        rw [← hadds.classes]
        simp [Store.addClass]
  | @addInstance ref href =>
    refine ⟨hs.rooted, fun i inst hi => ?_, hs.classes_of_eq rfl fun _ _ h => h⟩
    simp only [Store.addInstance, Array.getElem?_push] at hi
    split at hi
    · cases hi
      exact href
    · exact hs.instances i inst hi
  | setField ref name v =>
    refine ⟨hs.rooted, fun i inst hi => ?_, hs.classes_of_eq rfl fun _ _ h => h⟩
    simp only [Store.setField, Array.getElem?_modify] at hi
    split at hi
    · obtain ⟨inst', hinst, rfl⟩ := Option.map_eq_some_iff.1 hi
      exact hs.instances i inst' hinst
    · exact hs.instances i inst hi

/-- **Stores that a founded store evolves to are founded.** -/
theorem Evolves.founded (h : s.Evolves N s₁) (hs : s.Founded N) : s₁.Founded N := by
  induction h with
  | refl => exact hs
  | tail _ hchange ih => exact hchange.founded ih

end Store

end LoxLang
