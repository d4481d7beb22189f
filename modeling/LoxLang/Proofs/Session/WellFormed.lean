import LoxLang.Proofs.Run.Changes
import LoxLang.Proofs.Session.Timeline
import LoxLang.Proofs.Store.WellFormed

/-!
# The stores of a session

All stores that a session comes to have come about by changes of the first one: at the moments of its
runs, where tasks are over, and between the runs.  So they are well formed, and whatever is looked for
along parents or bases is found, or known to be missing, after finitely many steps.

* `Session.Passes` — the stores that a session comes to.

Principal results: `History.evolved`, `stores_are_well_formed`.
-/

namespace LoxLang

/-- The stores of a session and of the programs that were run on it have come about by changes of the
first store. -/
structure Session.Evolved (s : Session) (tasks : List Task) : Prop where
  machine : Store.initial.Evolves (Text tasks) s.machine.store
  tasks : ∀ task ∈ tasks, Store.initial.Evolves (Text tasks) task.machine.store

/-- The stores of a session and of the programs that were run on it are founded. -/
structure Session.Founded (s : Session) (tasks : List Task) : Prop where
  machine : s.machine.store.Founded (Text tasks)
  tasks : ∀ task ∈ tasks, task.machine.store.Founded (Text tasks)

/-- The stores that a session comes to, when another source is run on it too: the one between its runs,
those at the moments of its runs, and those that are left behind there. -/
inductive Session.Passes (s : Session) (tasks : List Task) (n : Nat) (source : String) :
    Store → Prop where
  | rest : Passes s tasks n source s.machine.store
  | moment {t : Task} : Moment ((s.task? n source).toList ++ tasks) t →
      Passes s tasks n source t.machine.store
  | left {t : Task} {e : Machine} : Moment ((s.task? n source).toList ++ tasks) t →
      t.end? = some e → Passes s tasks n source e.store

section

variable {s s₁ : Session} {tasks : List Task} {task t : Task} {n : Nat} {source : String} {σ : Store}

/-- A program starts with the store that there is. -/
theorem Session.Evolved.next (h : s.Evolved tasks) (htask : s.task? n source = some task) :
    s.Evolved (task :: tasks) := by
  have hmono : ∀ node, Text tasks node → Text (task :: tasks) node :=
    fun node => Text.mono fun task => List.mem_cons_of_mem _
  have hmachine := h.machine.mono hmono
  obtain ⟨program, _, _, _, rfl⟩ := Session.task?_eq_some htask
  exact ⟨hmachine, List.forall_mem_cons.2 ⟨hmachine, fun task hmem => (h.tasks task hmem).mono hmono⟩⟩

/-- **The stores of every session have come about by changes of the first one.** -/
theorem History.evolved (h : History s tasks) : s.Evolved tasks := by
  induction h with
  | start settings clock => exact ⟨.refl _, fun _ hmem => by cases hmem⟩
  | @run s s₁ tasks n source t hhistory hrun ih =>
    obtain ⟨hnone, hmachine⟩ | ⟨task, e, htask, hend, hstore, _, _⟩ := Session.run_leaves hrun
    · rw [hnone]
      refine ⟨?_, ih.tasks⟩
      rw [hmachine]
      exact ih.machine
    · rw [htask]
      have hnext := ih.next htask
      have hintact := (hhistory.timeline htask).intact task List.mem_cons_self
      refine ⟨?_, hnext.tasks⟩
      rw [hstore]
      exact (hnext.tasks task List.mem_cons_self).trans (hintact.changes text_plain e hend)
  | reset _ ih => exact ⟨ih.machine, ih.tasks⟩
  | clock _ _ ih => exact ⟨ih.machine, ih.tasks⟩

theorem Session.Evolved.founded (h : s.Evolved tasks) : s.Founded tasks :=
  ⟨h.machine.founded .initial, fun task hmem => (h.tasks task hmem).founded .initial⟩

theorem Timeline.evolved (h : Timeline tasks)
    (hevolved : ∀ task ∈ tasks, Store.initial.Evolves (Text tasks) task.machine.store)
    (ht : Moment tasks t) : Store.initial.Evolves (Text tasks) t.machine.store := by
  obtain ⟨task, hmem, hreaches⟩ := ht
  exact (hevolved task hmem).trans ((h.intact task hmem).evolves text_plain hreaches)

/-- All programs of a session, and another one, are in good order on founded stores. -/
theorem History.moments (h : History s tasks) (n : Nat) (source : String) :
    s.Intact tasks ∧ Timeline ((s.task? n source).toList ++ tasks) ∧
      s.Founded ((s.task? n source).toList ++ tasks) := by
  refine ⟨h.intact, ?_⟩
  cases htask : s.task? n source with
  | none => exact ⟨h.intact.timeline, h.evolved.founded⟩
  | some task => exact ⟨h.timeline htask, (h.evolved.next htask).founded⟩

theorem Timeline.founded (h : Timeline tasks)
    (hfounded : ∀ task ∈ tasks, task.machine.store.Founded (Text tasks)) (ht : Moment tasks t) :
    t.machine.store.Founded (Text tasks) := by
  obtain ⟨task, hmem, hreaches⟩ := ht
  exact ((h.intact task hmem).evolves text_plain hreaches).founded (hfounded task hmem)

/-- **Every store that a session comes to is well formed**: only parents and bases are followed, they
lead to what is older, and nothing dangles.  So a frame has a finite chain of parents that ends in the
global frame, and a class a finite chain of bases, whatever became of the names of classes; ancestors
are found within the chain, and a method is the last declaration of its name in the nearest class that
has one. -/
theorem stores_are_well_formed (h : History s tasks) (n : Nat) (source : String)
    (hσ : s.Passes tasks n source σ) :
    σ.WellFormed (Text ((s.task? n source).toList ++ tasks)) ∧
      σ.Finds (Text ((s.task? n source).toList ++ tasks)) := by
  obtain ⟨hsession, htimeline, hfounded⟩ := h.moments n source
  have hstore : σ.Intact ∧ σ.Founded (Text ((s.task? n source).toList ++ tasks)) := by
    cases hσ with
    | rest => exact ⟨hsession.machine.store, hfounded.machine⟩
    | moment ht =>
      exact ⟨(htimeline.intact_of_moment ht).machine.store, htimeline.founded hfounded.tasks ht⟩
    | left ht hend =>
      have hintact := htimeline.intact_of_moment ht
      exact ⟨((hintact.performs text_plain).leaves _ hend).intact.store,
        (hintact.changes text_plain _ hend).founded (htimeline.founded hfounded.tasks ht)⟩
  exact ⟨.of hstore.1 hstore.2, .of hstore.1 hstore.2⟩

end

/-! ### Classes that take each other's names -/

/-- The arguments that a class takes, if the run before came to its end. -/
def Run.arity? (ref : Nat) : Run → Option Nat
  | .ended s _ => s.machine.store.arity? (.classValue ref)
  | .fault _ => none
  | .exhausted => none

/-- The last class extends the one before it, which extends another one of its name. -/
def namesakes : String :=
  "class A \x7b init(x) \x7b\x7d init() \x7b\x7d \x7d class B < A \x7b\x7d class A < B \x7b\x7d B = A;"

theorem namesakes_run : ((Session.start {} 0).run 9 namesakes).arity? 2 = some 0 := by
  decide +kernel

theorem stores_are_well_formed_with_namesakes :
    ∃ s₁ t₁ tasks, (Session.start {} 0).run 9 namesakes = .ended s₁ t₁ ∧
      s₁.machine.store.arity? (.classValue 2) = some 0 ∧
      s₁.machine.store.WellFormed (Text tasks) ∧ s₁.machine.store.Finds (Text tasks) := by
  have harity := namesakes_run
  cases hrun : (Session.start {} 0).run 9 namesakes with
  | ended s₁ t₁ =>
    rw [hrun] at harity
    exact ⟨s₁, t₁, _, rfl, harity,
      stores_are_well_formed (.run (.start {} 0) hrun) 9 "B();" .rest⟩
  | fault reason | exhausted =>
    rw [hrun] at harity
    cases harity

end LoxLang
