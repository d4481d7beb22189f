import Mathlib.Data.Set.Basic
import LoxLang.Proofs.Run.Moment
import LoxLang.Proofs.Run.Operators

/-!
# The course of a task

A task does two kinds of things to the machine: it changes it itself, and it performs other tasks on
it, one after the other.  Every change is one of a few, and it is made with values that the task has
at hand: those that it was given, that it found in the store, or that came of the tasks before.

Whatever the changes and the performed tasks preserve, one by one, holds all along.

* `Task.Does` — a task changes the machine itself.
* `Task.Course` — a task goes on from a machine, up to its end or to a task that does not end.
* `Task.Respects` — what a task preserves, step by step.

Principal results: `Task.Course.append`, `Task.Respects.along`.
-/

namespace LoxLang

/-- The machine that an outcome leaves behind. -/
def Outcome.machine? {α : Type} : Outcome α → Option Machine
  | .done _ m => some m
  | .raised _ m => some m
  | .fault _ m => some m
  | .exhausted => none

/-- The values that an outcome comes to. -/
def Outcome.gives {α : Type} (values : α → Set Value) : Outcome α → Set Value
  | .done a _ => values a
  | _ => ∅

/-- The value that a statement returns, if it does. -/
def Completion.values : Completion → Set Value
  | .normal => ∅
  | .returned v => {v}

namespace Task

/-- The machine that a task starts from. -/
def machine : Task → Machine
  | .program _ _ m | .execute _ _ m | .executeIn _ _ _ _ m | .executeAll _ _ m
  | .repeatWhile _ _ _ m | .evaluate _ _ m | .evaluateAll _ _ m | .call _ _ _ _ m
  | .invoke _ _ _ m | .applyClosure _ _ _ m => m

/-- The machine that a task leaves behind, if it ends. -/
def end? : Task → Option Machine
  | .program n stmts m => (executeProgram n stmts m).machine?
  | .execute n s m => (LoxLang.execute n s m).machine?
  | .executeIn n body b parent m => (LoxLang.executeIn n body b parent m).machine?
  | .executeAll n body m => (LoxLang.executeAll n body m).machine?
  | .repeatWhile n cond s m => (LoxLang.repeatWhile n cond s m).machine?
  | .evaluate n e m => (LoxLang.evaluate n e m).machine?
  | .evaluateAll n es m => (LoxLang.evaluateAll n es m).machine?
  | .call n callee args paren m => (LoxLang.call n callee args paren m).machine?
  | .invoke n callee args m => (LoxLang.invoke n callee args m).machine?
  | .applyClosure n ref args m => (LoxLang.applyClosure n ref args m).machine?

/-- The values that a task is given. -/
def given : Task → Set Value
  | .executeIn _ _ b _ _ => {v | ∃ name, b.find? name = some v}
  | .call _ callee args _ _ | .invoke _ callee args _ => {v | v = callee ∨ v ∈ args}
  | .applyClosure _ ref args _ => {v | v = .function ref ∨ v ∈ args}
  | .program .. | .execute .. | .executeAll .. | .repeatWhile .. | .evaluate ..
  | .evaluateAll .. => ∅

/-- The values that a task comes to. -/
def results : Task → Set Value
  | .program n stmts m => (executeProgram n stmts m).gives fun _ => ∅
  | .execute n s m => (LoxLang.execute n s m).gives Completion.values
  | .executeIn n body b parent m => (LoxLang.executeIn n body b parent m).gives Completion.values
  | .executeAll n body m => (LoxLang.executeAll n body m).gives Completion.values
  | .repeatWhile n cond s m => (LoxLang.repeatWhile n cond s m).gives Completion.values
  | .evaluate n e m => (LoxLang.evaluate n e m).gives fun v => {v}
  | .evaluateAll n es m => (LoxLang.evaluateAll n es m).gives fun vs => {v | v ∈ vs}
  | .call n callee args paren m => (LoxLang.call n callee args paren m).gives fun v => {v}
  | .invoke n callee args m => (LoxLang.invoke n callee args m).gives fun v => {v}
  | .applyClosure n ref args m => (LoxLang.applyClosure n ref args m).gives fun v => {v}

/-- A task that has no allowance left does nothing. -/
def isSpent : Task → Bool
  | .program .. => false
  | .execute n .. | .executeIn n .. | .executeAll n .. | .repeatWhile n .. | .evaluate n ..
  | .evaluateAll n .. | .call n .. | .invoke n .. | .applyClosure n .. => n == 0

/-- What a task makes of the machine for the tasks that it performs: statements are executed in a
frame of their own, and a call is counted. -/
def opens : Task → Machine → Machine
  | .executeIn _ _ b parent _, m => m.enter b parent
  | .call .., m => m.beginCall
  | _, m => m

/-- What a task makes of the machine that a task which it performed left behind. -/
def closes : Task → Machine → Machine
  | .executeIn _ _ _ _ m₀, m => m.leaveTo m₀.frame
  | .call .., m => m.endCall
  | _, m => m

/-- A task changes a machine itself, with the values `K` at hand: to another machine, and to new
values at hand. -/
inductive Does (t : Task) (K : Set Value) (m : Machine) : Machine → Set Value → Prop where
  /-- A literal, or what an operator makes of its operands. -/
  | computes {v : Value} : v.IsPlain → Does t K m m {v}
  | reads {frame : Nat} {name : String} {v : Value} :
      m.store.get frame name = .ok v → Does t K m m {v}
  | readsField {ref : Nat} {name : String} {v : Value} :
      m.store.property? ref name = some (.field v) → Does t K m m {v}
  /-- A method is bound to an instance, which is at hand or is what `this` refers to. -/
  | binds {ref : Nat} {name : String} {c : Closure} {receiver : Value} :
      m.store.method? ref name = some c →
      ((∃ inst, receiver = .object inst) ∧ receiver ∈ K ∨
        ∃ frame, m.store.get frame "this" = .ok receiver) →
      Does t K m (m.bindMethod c receiver).2 {.function (m.bindMethod c receiver).1}
  | instantiates {ref : Nat} :
      .classValue ref ∈ K →
      Does t K m { m with store := (m.store.addInstance ref).2 }
        {.object (m.store.addInstance ref).1}
  | setsField {ref : Nat} {name : String} {v : Value} :
      v ∈ K → Does t K m { m with store := m.store.setField ref name v } ∅
  | assigns {n id : Nat} {name : Token} {e : Expr} {m₀ : Machine} {frame : Nat} {v : Value} :
      t = .evaluate n (.assign id name e) m₀ → m.store.has frame name.lexeme = true → v ∈ K →
      Does t K m { m with store := m.store.define frame name.lexeme v } ∅
  | declares {n id : Nat} {name : Token} {e : Option Expr} {m₀ : Machine} {v : Value} :
      t = .execute n (.declare id name e) m₀ → v ∈ K → Does t K m (m.define name.lexeme v) ∅
  | declaresFunction {n : Nat} {decl : Function} {m₀ : Machine} :
      t = .execute n (.function decl) m₀ → Does t K m (m.declareFunction decl) ∅
  | declaresClass {n id : Nat} {name : Token} {superclass : Option Superclass}
      {methods : List Function} {m₀ : Machine} {base : Option Nat} :
      t = .execute n (.classDecl id name superclass methods) m₀ →
      base.isSome = superclass.isSome → (∀ ref, base = some ref → .classValue ref ∈ K) →
      Does t K m (m.declareClass name base methods) ∅
  | prints {v : Value} : Does t K m (m.print v) ∅
  | ticks : Does t K m m.tick ∅

/-- A task goes on from a machine with the values `K` at hand, and performs the tasks of a list in
this order.  It comes to a machine and to the values that are then at hand, or to a task that does
not end. -/
inductive Course (t : Task) :
    Machine → Set Value → List Task → Option (Machine × Set Value) → Prop where
  | ends {m : Machine} {K : Set Value} : Course t m K [] (some (m, K))
  | does {m m₁ : Machine} {K W : Set Value} {cs : List Task} {r : Option (Machine × Set Value)} :
      t.Does K m m₁ W → Course t m₁ (W ∪ K) cs r → Course t m K cs r
  | performs {m e : Machine} {K : Set Value} {c : Task} {cs : List Task}
      {r : Option (Machine × Set Value)} :
      t.Calls c → c.machine = t.opens m → c.given ⊆ K → c.end? = some e →
      Course t (t.closes e) (c.results ∪ K) cs r → Course t m K (c :: cs) r
  | waits {m : Machine} {K : Set Value} {c : Task} :
      t.Calls c → c.machine = t.opens m → c.given ⊆ K → c.end? = none → Course t m K [c] none

namespace Course

variable {t c : Task} {m m₁ : Machine} {K K₁ : Set Value} {cs cs' : List Task}
  {r : Option (Machine × Set Value)}

theorem append (h : t.Course m K cs (some (m₁, K₁))) (h₁ : t.Course m₁ K₁ cs' r) :
    t.Course m K (cs ++ cs') r := by
  generalize heq : some (m₁, K₁) = r₁ at h
  induction h with
  | ends =>
    cases heq
    exact h₁
  | does hdoes _ ih => exact .does hdoes (ih heq)
  | performs hcalls hstart hgiven hend _ ih => exact .performs hcalls hstart hgiven hend (ih heq)
  | waits => cases heq

/-- No value gets lost. -/
theorem subset (h : t.Course m K cs (some (m₁, K₁))) : K ⊆ K₁ := by
  generalize heq : some (m₁, K₁) = r at h
  induction h with
  | ends =>
    cases heq
    exact fun _ hv => hv
  | does _ _ ih => exact fun _ hv => ih heq (.inr hv)
  | performs _ _ _ _ _ ih => exact fun _ hv => ih heq (.inr hv)
  | waits => cases heq

/-- What comes to no end has come to a task that does not end. -/
theorem exists_calls (h : t.Course m K cs none) : ∃ c, t.Calls c ∧ c.end? = none := by
  generalize heq : (none : Option (Machine × Set Value)) = r at h
  induction h with
  | ends => cases heq
  | does _ _ ih => exact ih heq
  | performs _ _ _ _ _ ih => exact ih heq
  | waits hcalls _ _ hend => exact ⟨_, hcalls, hend⟩

end Course

/-! ## What holds along a course -/

/-- What a task preserves, step by step: `I` holds of each machine that it comes to with the values at
hand, and `R` relates it to the next. -/
structure Respects (t : Task) (I : Machine → Set Value → Prop) (R : Machine → Machine → Prop) :
    Prop where
  refl : ∀ m, R m m
  trans : ∀ {m m₁ m₂}, R m m₁ → R m₁ m₂ → R m m₂
  does : ∀ {m K m₁ W}, I m K → t.Does K m m₁ W → I m₁ (W ∪ K) ∧ R m m₁
  opens : ∀ {m K c}, I m K → t.Calls c → c.machine = t.opens m → c.given ⊆ K → R m c.machine
  closes : ∀ {m K c e}, I m K → t.Calls c → c.machine = t.opens m → c.given ⊆ K →
    c.end? = some e → I (t.closes e) (c.results ∪ K) ∧ R c.machine e ∧ R e (t.closes e)

/-- What a task preserves, whatever comes before or after. -/
theorem Respects.of_invariant {t : Task} {I : Machine → Set Value → Prop}
    (hdoes : ∀ {m K m₁ W}, I m K → t.Does K m m₁ W → I m₁ (W ∪ K))
    (hcloses : ∀ {m K c e}, I m K → t.Calls c → c.machine = t.opens m → c.given ⊆ K →
      c.end? = some e → I (t.closes e) (c.results ∪ K)) : t.Respects I fun _ _ => True where
  refl _ := trivial
  trans _ _ := trivial
  does hI h := ⟨hdoes hI h, trivial⟩
  opens _ _ _ _ := trivial
  closes hI hcalls hstart hgiven hend := ⟨hcloses hI hcalls hstart hgiven hend, trivial, trivial⟩

/-- What then holds of the tasks `S`, performed from a machine on, and of the machine and the values
that come of it in the end, if there is an end.  Each task starts where `I` holds, and of two tasks
one is over when the other starts. -/
structure Follows (t : Task) (I : Machine → Set Value → Prop) (R : Machine → Machine → Prop)
    (m : Machine) (S : Task → Prop) (last : Option Machine) (W : Set Value) : Prop where
  starts : ∀ c, S c → R m c.machine ∧ ∃ m₁ K₁, I m₁ K₁ ∧ c.machine = t.opens m₁ ∧ c.given ⊆ K₁
  leaves : ∀ e, last = some e → R m e ∧ ∃ K₁, I e K₁ ∧ W ⊆ K₁
  ends : ∀ c e, S c → last = some e → ∃ e', c.end? = some e' ∧ R e' e
  ordered : ∀ c c', S c → S c' → c = c' ∨ (∃ e, c.end? = some e ∧ R e c'.machine) ∨
    ∃ e, c'.end? = some e ∧ R e c.machine

section

variable {t : Task} {I : Machine → Set Value → Prop} {R : Machine → Machine → Prop} {m : Machine}
  {K W : Set Value} {cs : List Task} {r : Option (Machine × Set Value)}

theorem Respects.along (h : t.Respects I R) (hcourse : t.Course m K cs r) (hI : I m K)
    (hW : ∀ m₁ K₁, r = some (m₁, K₁) → W ⊆ K₁) :
    t.Follows I R m (· ∈ cs) (r.map Prod.fst) W := by
  induction hcourse with
  | ends =>
    refine ⟨?_, fun e he => ?_, ?_, ?_⟩
    · rintro c ⟨⟩
    · cases he
      exact ⟨h.refl _, _, hI, hW _ _ rfl⟩
    · rintro c e ⟨⟩
    · rintro c c' ⟨⟩
  | does hdoes _ ih =>
    obtain ⟨hI₁, hR⟩ := h.does hI hdoes
    obtain ⟨hstarts, hleaves, hends, hordered⟩ := ih hI₁ hW
    exact ⟨fun c hc => ⟨h.trans hR (hstarts c hc).1, (hstarts c hc).2⟩,
      fun e he => ⟨h.trans hR (hleaves e he).1, (hleaves e he).2⟩, hends, hordered⟩
  | @performs m last K c cs r hcalls hstart hgiven hend _ ih =>
    have hopens := h.opens hI hcalls hstart hgiven
    obtain ⟨hI₁, hlasts, hcloses⟩ := h.closes hI hcalls hstart hgiven hend
    obtain ⟨hstarts, hleaves, hends, hordered⟩ := ih hI₁ hW
    have hnext := h.trans hopens (h.trans hlasts hcloses)
    -- the first task is over when any of the others starts
    have hfirst : ∀ c' ∈ cs, ∃ e, c.end? = some e ∧ R e c'.machine :=
      fun c' hc' => ⟨last, hend, h.trans hcloses (hstarts c' hc').1⟩
    refine ⟨fun c' hc' => ?_, fun e he => ?_, fun c' e hc' he => ?_, fun c₁ c₂ hc₁ hc₂ => ?_⟩
    · rcases List.mem_cons.1 hc' with rfl | hlater
      · exact ⟨hopens, m, K, hI, hstart, hgiven⟩
      · exact ⟨h.trans hnext (hstarts c' hlater).1, (hstarts c' hlater).2⟩
    · exact ⟨h.trans hnext (hleaves e he).1, (hleaves e he).2⟩
    · rcases List.mem_cons.1 hc' with rfl | hlater
      · exact ⟨last, hend, h.trans hcloses (hleaves e he).1⟩
      · exact hends c' e hlater he
    · rcases List.mem_cons.1 hc₁ with rfl | hlater₁
      · rcases List.mem_cons.1 hc₂ with rfl | hlater₂
        · exact .inl rfl
        · exact .inr (.inl (hfirst c₂ hlater₂))
      · rcases List.mem_cons.1 hc₂ with rfl | hlater₂
        · exact .inr (.inr (hfirst c₁ hlater₁))
        · exact hordered c₁ c₂ hlater₁ hlater₂
  | @waits m K c hcalls hstart hgiven _ =>
    refine ⟨fun c' hc' => ?_, ?_, ?_, fun c₁ c₂ hc₁ hc₂ => .inl ?_⟩
    · obtain rfl := List.mem_singleton.1 hc'
      exact ⟨h.opens hI hcalls hstart hgiven, m, K, hI, hstart, hgiven⟩
    · rintro e ⟨⟩
    · rintro c' e _ ⟨⟩
    · exact (List.mem_singleton.1 hc₁).trans (List.mem_singleton.1 hc₂).symm

end

end Task

end LoxLang
