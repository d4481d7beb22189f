import LoxLang.Proofs.Session.Copies
import LoxLang.Proofs.Session.Timeline
import LoxLang.Proofs.Tree.Closed

/-!
# The numbers of all nodes

A session draws the numbers of all nodes that are read on it from one count, for programs that are
run and for texts that are rejected.  So the distances of a program stand under numbers that were
never used before, learning them overwrites nothing, and a function keeps the distances that its
program was given.

* `Record` — a session with all that was read on it.
* `NumbersApart` — what the numbers of nodes are for when another source is read.

Principal results: `Task.Reaches.table`, `Record.numbered`, `Record.filed`, `nodes_are_numbered_apart`.
-/

namespace LoxLang

/-! ## The table of a run -/

/-- **The table is the same at all moments of a run.** -/
theorem Task.Reaches.table {t t' : Task} (h : t.Reaches t') : t'.machine.table = t.machine.table := by
  induction h with
  | refl => rfl
  | step _ hcalls ih => exact hcalls.table.trans ih

/-! ## Sessions with all that was read -/

/-- A session with the programs that were run on it and the statements that were read on it, those of
rejected sources too, the last ones first. -/
inductive Record : Session → List Task → List (List Stmt) → Prop where
  | start (settings : Settings) (clock : Clock) : Record (.start settings clock) [] []
  | run {s s₁ : Session} {tasks : List Task} {readings : List (List Stmt)} {n : Nat}
      {source : String} {t : Transcript} :
      Record s tasks readings → s.run n source = .ended s₁ t →
      Record s₁ ((s.task? n source).toList ++ tasks) ((s.programOf source).stmts :: readings)
  | reset {s : Session} {tasks : List Task} {readings : List (List Stmt)} :
      Record s tasks readings → Record s.reset tasks readings
  | clock {s : Session} {tasks : List Task} {readings : List (List Stmt)} (clock : Clock) :
      Record s tasks readings → Record (s.setClock clock) tasks readings

/-- The nodes of all statements that were read. -/
def allNodes (readings : List (List Stmt)) : List Node := readings.flatMap walkBody

section

variable {s s₁ : Session} {tasks : List Task} {readings : List (List Stmt)} {n : Nat}
  {source : String} {task : Task} {t : Transcript}

theorem Record.history (h : Record s tasks readings) : History s tasks := by
  induction h with
  | start settings clock => exact .start settings clock
  | run _ hrun ih => exact ih.run hrun
  | reset _ ih => exact ih.reset
  | clock c _ ih => exact ih.clock c

theorem allNodes_closed (readings : List (List Stmt)) : Closed (allNodes readings) := by
  induction readings with
  | nil => exact .nil
  | cons stmts readings ih => exact (walkBody_closed stmts).append ih

/-- Where all nodes have numbers, none is left out. -/
theorem map_id?_eq : ∀ {nodes : List Node}, (∀ node ∈ nodes, node.id?.isSome = true) →
    nodes.map Node.id? = (nodeIds nodes).map some
  | [], _ => rfl
  | node :: nodes, h => by
    rw [List.forall_mem_cons] at h
    obtain ⟨id, hid⟩ := Option.isSome_iff_exists.1 h.1
    rw [nodeIds, List.filterMap_cons, hid, List.map_cons, List.map_cons, hid, map_id?_eq h.2]
    rfl

/-- The program of a task is what was read, and starts once its distances are learnt. -/
theorem Session.task?_eq_learnt (h : s.task? n source = some task) :
    task = .program n (s.programOf source).stmts (s.learnt source) := by
  unfold Session.task? at h
  cases hprepare : s.prepare source with
  | mk program? rest =>
    obtain ⟨s₁, transcript⟩ := rest
    rw [hprepare] at h
    cases program? with
    | none => cases h
    | some program =>
      cases h
      obtain ⟨_, _, _, rfl, _, _, rfl⟩ := Session.clean_of_prepare hprepare
      obtain ⟨_, hmachine, _⟩ := Session.prepare_eq_some hprepare
      rw [hmachine]
      rfl

/-- The programs that were run were read before. -/
theorem Record.read (h : Record s tasks readings) {k : Nat} {stmts : List Stmt} {m : Machine}
    (hmem : Task.program k stmts m ∈ tasks) : stmts ∈ readings := by
  induction h with
  | start => cases hmem
  | @run s _ tasks _ n source _ _ _ ih =>
    obtain hnew | hold := List.mem_append.1 hmem
    · cases Session.task?_eq_learnt (Option.mem_toList.1 hnew)
      exact List.mem_cons_self
    · exact List.mem_cons_of_mem _ (ih hold)
  | reset _ ih => exact ih hmem
  | clock _ _ ih => exact ih hmem

/-- What a source is read as is numbered behind all that was read before. -/
theorem Session.prepare_nextId (s : Session) (source : String) :
    (s.prepare source).2.1.nextId = (s.programOf source).nextId := by
  unfold Session.prepare
  simp only
  split
  · rfl
  · split <;> rfl

/-- Another source is read with numbers that were not used before. -/
theorem numbered_cons (h : Numbered 0 s.nextId (nodeIds (allNodes readings))) (source : String) :
    Numbered 0 (s.programOf source).nextId
      (nodeIds (allNodes ((s.programOf source).stmts :: readings))) := by
  obtain ⟨hle, hnew⟩ := s.programOf_numbered source
  rw [allNodes, List.flatMap_cons, nodeIds_append]
  exact (h.append hnew (Nat.zero_le _) hle).perm List.perm_append_comm

/-- **All that was read is numbered below the next number.** -/
theorem Record.numbered (h : Record s tasks readings) :
    Numbered 0 s.nextId (nodeIds (allNodes readings)) := by
  induction h with
  | start settings clock => exact .nil
  | @run s s₁ tasks readings n source _ _ hrun ih =>
    rw [Session.run_nextId hrun, s.prepare_nextId]
    exact numbered_cons ih source
  | reset _ ih => exact ih
  | clock _ _ ih => exact ih

/-- What a run does to the table of distances. -/
theorem Session.run_table (hrun : s.run n source = .ended s₁ t) :
    s₁.machine.table = (s.task? n source).elim s.machine.table fun task => task.machine.table := by
  obtain ⟨hnone, hmachine⟩ | ⟨task, e, htask, hend, _, htable, _⟩ := Session.run_leaves hrun
  · rw [hnone, hmachine]
    rfl
  · rw [htask, htable]
    exact (Task.back hend).table

/-- The distances of a program that was run are on file. -/
theorem Record.filed (h : Record s tasks readings) {k : Nat} {stmts : List Stmt} {m : Machine}
    (hmem : Task.program k stmts m ∈ tasks) {id : Nat} (hid : id ∈ bodyIds stmts) :
    s.machine.table[id]? = (Resolution.ofProgram stmts).table[id]? := by
  induction h with
  | start => cases hmem
  | @run s s₁ tasks readings n source t hrecord hrun ih =>
    rw [Session.run_table hrun]
    cases htask : s.task? n source with
    | none =>
      rw [htask] at hmem
      exact ih hmem
    | some task =>
      rw [htask] at hmem
      have hlearnt := Session.task?_eq_learnt htask
      subst hlearnt
      obtain hnew | hold := List.mem_cons.1 hmem
      · cases hnew
        exact hrecord.history.learnt_new hid
      · -- The numbers of an earlier program are below those of the new one.
        have hread : id ∈ nodeIds (allNodes readings) := by
          obtain ⟨node, hnode, hid⟩ := List.mem_filterMap.1 hid
          exact List.mem_filterMap.2
            ⟨node, List.mem_flatMap.2 ⟨stmts, hrecord.read hold, hnode⟩, hid⟩
        exact (s.learnt_old source (hrecord.numbered.2 id hread).2).trans (ih hold)
  | reset _ ih => exact ih hmem
  | clock _ _ ih => exact ih hmem

/-- A function of a session belongs to one of the programs that were run. -/
theorem Record.function (h : Record s tasks readings) {i : Nat} {c : Closure}
    (hc : s.machine.store.closures[i]? = some c) :
    ∃ k stmts m, Task.program k stmts m ∈ tasks ∧ ∀ node ∈ walkFunction c.decl, node ∈ walkBody stmts := by
  obtain ⟨_, k, stmts, m, hmem, hnode⟩ :=
    h.history.intact.machine.code i c hc _ (mem_walkFunction_self c.decl)
  exact ⟨k, stmts, m, hmem, (walkBody_closed stmts _ hnode).2⟩

/-- What the numbers of nodes are for, when another source is read on a session. -/
structure NumbersApart (s : Session) (tasks : List Task) (readings : List (List Stmt)) (n : Nat)
    (source : String) : Prop where
  /-- All nodes of all trees, those of the source too, have numbers, and no two have the same. -/
  numbered : ∀ node ∈ allNodes ((s.programOf source).stmts :: readings), node.id?.isSome = true
  distinct : ((allNodes ((s.programOf source).stmts :: readings)).map Node.id?).Nodup
  /-- Distances are filed under numbers of nodes of the same program. -/
  keys : ∀ stmts ∈ (s.programOf source).stmts :: readings, ∀ (id d : Nat),
    (Resolution.ofProgram stmts).table[id]? = some d → ∃ node ∈ walkBody stmts, node.id? = some id
  /-- Learning the distances of the source overwrites nothing. -/
  learns : ∀ program s₁ t, s.prepare source = (some program, s₁, t) →
    ∀ (id d : Nat), s.machine.table[id]? = some d →
      program.table[id]? = none ∧ (s₁.machine.learn program.table).table[id]? = some d
  /-- A function has the distances that the program which it belongs to was given. -/
  functions : ∀ (i : Nat) c, s.machine.store.closures[i]? = some c →
    ∃ k stmts m, Task.program k stmts m ∈ tasks ∧ stmts ∈ readings ∧
      ∀ node ∈ walkFunction c.decl, node ∈ walkBody stmts ∧ ∀ id, node.id? = some id →
        s.machine.table[id]? = (Resolution.ofProgram stmts).table[id]?
  /-- It keeps them while the source is run. -/
  kept : ∀ task, s.task? n source = some task → ∀ t, task.Reaches t →
    ∀ (i : Nat) c, s.machine.store.closures[i]? = some c →
      t.machine.store.closures[i]? = some c ∧ ∀ node ∈ walkFunction c.decl, ∀ id,
        node.id? = some id → t.machine.table[id]? = s.machine.table[id]?

/-- **All nodes that are ever read on a session are numbered apart**, those of rejected sources too.
So the distances of a program are filed under numbers of its own, no entry of the table is ever
overwritten, and a function keeps the distances that its program was given. -/
theorem nodes_are_numbered_apart (h : Record s tasks readings) (n : Nat) (source : String) :
    NumbersApart s tasks readings n source where
  numbered node hnode := (allNodes_closed _ node hnode).1
  distinct := by
    rw [map_id?_eq (fun node hnode => (allNodes_closed _ node hnode).1)]
    exact (numbered_cons h.numbered source).1.map (Option.some_injective Nat)
  keys stmts _ id d hd := by
    by_contra hnot
    have hmem : id ∉ bodyIds stmts := fun hmem => hnot (List.mem_filterMap.1 hmem)
    rw [ofProgram_table_of_not_mem hmem] at hd
    cases hd
  learns program s₁ t hprepare id d hd := by
    obtain ⟨hclean, hmachine, _⟩ := Session.prepare_eq_some hprepare
    have hold : id < s.nextId := by
      by_contra hnew
      rw [h.history.kept.fresh id (Nat.le_of_not_lt hnew)] at hd
      cases hd
    have hnot : id ∉ bodyIds program.stmts := fun hmem => by
      have hlo := (hclean.numbered.2 id hmem).1
      omega
    rw [hmachine, hclean.learn_of_lt hold, hclean.table]
    exact ⟨ofProgram_table_of_not_mem hnot, hd⟩
  functions i c hc := by
    obtain ⟨k, stmts, m, hmem, hnodes⟩ := h.function hc
    exact ⟨k, stmts, m, hmem, h.read hmem, fun node hnode => ⟨hnodes node hnode, fun id hid =>
      h.filed hmem (List.mem_filterMap.2 ⟨node, hnodes node hnode, hid⟩)⟩⟩
  kept task htask t hreaches i c hc := by
    have hlearnt := Session.task?_eq_learnt htask
    have hgrows := (((h.history.timeline htask).intact task List.mem_cons_self).reaches text_plain
      hreaches).2
    subst hlearnt
    refine ⟨hgrows.closures i c hc, fun node hnode id hid => ?_⟩
    rw [hreaches.table]
    exact s.learnt_old source (h.history.code i c hc node hnode id hid)

end

/-! ### A call after an invalid assignment -/

/-- The count of functions that a session has, if the run before came to its end. -/
def Run.functions? : Run → Option Nat
  | .ended s _ => some s.machine.store.closures.size
  | .fault _ => none
  | .exhausted => none

def declaresF : String := "fun f() \x7b for (;;) print 1; \x7d"

/-- The target of this assignment is read as a call, with nodes of its own. -/
def assignsToCall : String := "f() = f;"

theorem declaresF_assignsToCall :
    (match (Session.start {} 0).run 9 declaresF with
      | .ended s _ => (s.run 9 assignsToCall).functions?
      | _ => none) = some 1 := by
  decide +kernel

theorem nodes_are_numbered_apart_after_invalid_target :
    ∃ s₁ t₁ s₂ t₂ tasks, (Session.start {} 0).run 9 declaresF = .ended s₁ t₁ ∧
      s₁.run 9 assignsToCall = .ended s₂ t₂ ∧ s₂.machine.store.closures.size = 1 ∧
      NumbersApart s₂.reset tasks [(s₁.programOf assignsToCall).stmts,
        ((Session.start {} 0).programOf declaresF).stmts] 9 "f();" := by
  have hruns := declaresF_assignsToCall
  cases hrun : (Session.start {} 0).run 9 declaresF with
  | ended s₁ t₁ =>
    simp only [hrun] at hruns
    cases hrun₁ : s₁.run 9 assignsToCall with
    | ended s₂ t₂ =>
      rw [hrun₁] at hruns
      exact ⟨s₁, t₁, s₂, t₂, _, rfl, hrun₁, Option.some.inj hruns,
        nodes_are_numbered_apart (((Record.start {} 0).run hrun).run hrun₁).reset 9 "f();"⟩
    | fault reason | exhausted =>
      rw [hrun₁] at hruns
      cases hruns
  | fault reason | exhausted =>
    rw [hrun] at hruns
    cases hruns

end LoxLang
