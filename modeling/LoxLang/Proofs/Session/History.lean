import LoxLang.Proofs.Run.Extension
import LoxLang.Proofs.Run.Reachable
import LoxLang.Proofs.Run.Resolved
import LoxLang.Proofs.Session.Prepared

/-!
# The history of a session

Sources are run on a session one after the other; between them the errors may be forgotten and the
clock may be set.  `History`
relates a session to the programs that were run on it, and `Kept` is what a session keeps from one
run to the next: the invariant of the store, for the scopes of all programs so far.

Principal results: `History.kept`, `History.sound`, `History.agrees`.
-/

namespace LoxLang

/-- The task that a source is run as, unless something is wrong with it. -/
def Session.task? (s : Session) (n : Nat) (source : String) : Option Task :=
  match s.prepare source with
  | (some program, s, _) => some (.program n program.stmts (s.machine.learn program.table))
  | (none, _, _) => none

/-- A session with the programs that were run on it, the last one first. -/
inductive History : Session → List Task → Prop where
  | start (settings : Settings) (clock : Clock) : History (.start settings clock) []
  | run {s s₁ : Session} {tasks : List Task} {n : Nat} {source : String} {t : Transcript} :
      History s tasks → s.run n source = .ended s₁ t →
      History s₁ ((s.task? n source).toList ++ tasks)
  | reset {s : Session} {tasks : List Task} : History s tasks → History s.reset tasks
  | clock {s : Session} {tasks : List Task} (clock : Clock) :
      History s tasks → History (s.setClock clock) tasks

/-! ## What programs have on record -/

/-- A reference in one of these programs. -/
def RefersIn (tasks : List Task) (site : Site) : Prop :=
  site.use.isReference = true ∧
    ∃ n stmts m, Task.program n stmts m ∈ tasks ∧ site ∈ programSites stmts

/-- A frame that was made for a construct while these programs ran. -/
def MadeIn (tasks : List Task) (f : Nat) (c : Construct) : Prop :=
  ∃ task ∈ tasks, ∃ t, task.Reaches t ∧ t.Activates f c

/-- A reference that was evaluated while the last of these programs ran. -/
def EvaluatedIn (tasks : List Task) (use : Use) (id : Nat) (name : Token) (m : Machine) : Prop :=
  ∃ task ∈ tasks.head?, ∃ t, task.Reaches t ∧ t.Evaluates use id name m

/-- The programs of a session, each alike to itself. -/
def selfPairing (table : Distances) (tasks : List Task) : Pairing where
  toSpelling := .plain
  table := table
  table' := table
  Known := RefersIn tasks
  Made := MadeIn tasks
  Evaluated := EvaluatedIn tasks

theorem selfPairing_grants (table : Distances) (task : Task) (tasks : List Task) :
    Grants (selfPairing table (task :: tasks)) task where
  made t _ _ hreaches hactivates := ⟨task, List.mem_cons_self .., t, hreaches, hactivates⟩
  evaluated t _ _ _ _ hreaches hevaluates := ⟨task, rfl, t, hreaches, hevaluates⟩

/-- What a session keeps from one run to the next. -/
structure Kept (s : Session) (tasks : List Task) : Prop where
  frame : s.machine.frame = Store.globalFrame
  heap : ∃ L, Heap (selfPairing s.machine.table tasks) ⟨L, s.machine.store, s.machine.store⟩
  fresh : ∀ id, s.nextId ≤ id → s.machine.table[id]? = none
  known : ∀ site, RefersIn tasks site → site.id < s.nextId

/-! ## The first session -/

theorem Store.initial_bindings (f : Nat) : Store.initial.bindings f =
    if f = 0 then Bindings.empty.put "clock" (.native 0) else .empty := by
  cases f with
  | zero => rfl
  | succ f => rfl

theorem heap_initial (K : Pairing) : Heap K ⟨[none], .initial, .initial⟩ where
  size := rfl
  size' := rfl
  root := rfl
  parents _ := rfl
  rootParent := rfl
  older f parent h := by
    have hlt := Store.initial.parent?_eq_some_lt h
    obtain rfl : f = 0 := by simpa [Store.initial, Store.empty, Store.addNative] using hlt
    cases h
  globals _ _ := rfl
  distinct := by simp [Store.initial_bindings, Store.globalFrame, Bindings.names, Bindings.put,
    Bindings.putIn, Bindings.empty]
  locals f c h := by cases f <;> cases h
  made f c h := by cases f <;> cases h
  bases f id h := by cases f <;> cases h
  values f name v h := by
    rw [Store.initial_bindings] at h
    split at h
    · rw [Bindings.find?_put] at h
      split at h
      · cases h
        exact Nat.zero_lt_one
      · cases h
    · cases h
  fields i inst _ _ h := by simp [Store.initial, Store.define, Store.empty, Store.addNative] at h
  methods i info _ _ h := by simp [Store.initial, Store.define, Store.empty, Store.addNative] at h
  closures := rfl
  classes := rfl
  instances := rfl
  natives := rfl

theorem Kept.start (settings : Settings) (clock : Clock) : Kept (.start settings clock) [] where
  frame := rfl
  heap := ⟨[none], heap_initial _⟩
  fresh id _ := by simp [Session.start, Machine.initial]
  known site h := by
    obtain ⟨_, _, _, _, hmem, _⟩ := h
    cases hmem

/-! ## Learning a program -/

theorem insertMany_toList (t table : Distances) :
    t.insertMany table = t.insertMany table.toList := by
  unfold Std.TreeMap.insertMany Std.DTreeMap.Const.insertMany
    Std.DTreeMap.Internal.Impl.Const.insertMany
  simp only [Std.TreeMap.forIn_eq_forIn_toList]

/-- The distances of the program learnt last come first. -/
theorem Machine.learn_table (m : Machine) (table : Distances) (id : Nat) :
    (m.learn table).table[id]? = table[id]?.or m.table[id]? := by
  show (m.table.insertMany table)[id]? = _
  rw [insertMany_toList]
  cases hid : table[id]? with
  | some d =>
    rw [Std.TreeMap.getElem?_insertMany_list_of_mem (k := id) (by simp)
      Std.TreeMap.distinct_keys_toList (Std.TreeMap.mem_toList_iff_getElem?_eq_some.2 hid)]
    rfl
  | none =>
    rw [Std.TreeMap.getElem?_insertMany_list_of_contains_eq_false]
    · rfl
    · rw [Std.TreeMap.map_fst_toList_eq_keys]
      rw [Std.TreeMap.contains_keys]
      rw [Std.TreeMap.contains_eq_isSome_getElem?, hid]
      rfl

section Learn

variable {s s₁ : Session} {tasks : List Task} {program : Prepared} {tokens : List Token} {n : Nat}

/-- The task of a program that was learnt on a machine. -/
def Prepared.task (program : Prepared) (n : Nat) (m : Machine) : Task :=
  .program n program.stmts (m.learn program.table)

/-- The pairing of a session once another program is learnt. -/
def learntPairing (s : Session) (tasks : List Task) (program : Prepared) (n : Nat) : Pairing :=
  selfPairing (s.machine.learn program.table).table (program.task n s.machine :: tasks)

/-- References of the new program are filed: no number of its nodes was used before. -/
theorem Prepared.Clean.filed {hi : Nat} (h : program.Clean tokens s.nextId hi)
    (hkept : Kept s tasks) {site : Site} (hsite : site ∈ programSites program.stmts)
    (huse : site.use.isReference = true) :
    site.id < hi ∧ (s.machine.learn program.table).table[site.id]? = site.distance? := by
  obtain ⟨hmem, hfiled⟩ := ofProgram_filed h.numbered.1 h.found site hsite huse
  obtain ⟨hlo, hhi⟩ := h.numbered.2 site.id hmem
  rw [Machine.learn_table, hkept.fresh site.id hlo, Option.or_none, h.table]
  exact ⟨hhi, hfiled⟩

/-- References of the programs before keep their distances. -/
theorem Prepared.Clean.learn_of_lt {hi id : Nat} (h : program.Clean tokens s.nextId hi)
    (hid : id < s.nextId) :
    (s.machine.learn program.table).table[id]? = s.machine.table[id]? := by
  have hnot : id ∉ bodyIds program.stmts := fun hmem => by
    have hlo := (h.numbered.2 id hmem).1
    omega
  rw [Machine.learn_table, h.table, ofProgram_table_of_not_mem hnot, Option.none_or]

theorem Kept.extends {hi : Nat} (hkept : Kept s tasks) (h : program.Clean tokens s.nextId hi) :
    (selfPairing s.machine.table tasks).Extends (learntPairing s tasks program n) where
  spelling := rfl
  refers := by
    intro site name' hr
    obtain ⟨huse, k, stmts, m, hmem, hsite⟩ := id hr.known
    have hlearn := h.learn_of_lt (hkept.known site hr.known)
    exact ⟨⟨huse, k, stmts, m, List.mem_cons_of_mem _ hmem, hsite⟩, hlearn.trans hr.table,
      hlearn.trans hr.table', hr.isName, hr.spelled, hr.line⟩
  made := by
    rintro f c ⟨task, hmem, hreach⟩
    exact ⟨task, List.mem_cons_of_mem _ hmem, hreach⟩

/-- A clean program is alike to itself. -/
theorem Prepared.Clean.alike {hi : Nat} (h : program.Clean tokens s.nextId hi)
    (hkept : Kept s tasks) :
    AlikeBody (learntPairing s tasks program n) .outermost program.stmts program.stmts := by
  have hsuits : (learntPairing s tasks program n).Suits (· ∈ tokens) := ⟨fun _ _ => trivial, h.genuine⟩
  have hcovers : (learntPairing s tasks program n).Covers (programSites program.stmts) := by
    intro site hsite
    refine ⟨fun huse => ?_, fun _ => Spelling.plain_spellIn _ _⟩
    have hfiled := (h.filed hkept hsite huse).2
    exact ⟨⟨huse, _, _, _, List.mem_cons_self .., hsite⟩, hfiled, hfiled⟩
  have halike := alike_program hsuits h.proper h.found hcovers
  rwa [show (learntPairing s tasks program n).stmts .outermost program.stmts = program.stmts from
    Spelling.plain_stmts _ _] at halike

/-- The machine of a session that has learnt a program. -/
theorem Kept.at {hi : Nat} (hkept : Kept s tasks) (h : program.Clean tokens s.nextId hi) :
    ∃ L, Twins.At (learntPairing s tasks program n) L (s.machine.learn program.table)
      (s.machine.learn program.table) .outermost := by
  obtain ⟨L, hheap⟩ := hkept.heap
  refine ⟨L, ⟨hheap.extends (hkept.extends h), rfl, rfl, rfl, rfl, rfl, rfl, rfl⟩, ?_⟩
  show Chain _ s.machine.frame [] []
  rw [hkept.frame]
  exact .globals

/-- The new program is run in a sound state. -/
theorem Kept.sound {hi : Nat} (hkept : Kept s tasks) (h : program.Clean tokens s.nextId hi) :
    Sound (learntPairing s tasks program n) (program.task n s.machine) := by
  obtain ⟨L, hat⟩ := hkept.at (n := n) h
  exact .program hat rfl (h.alike hkept)

/-- The new program comes to an end without a fault, or not at all. -/
theorem Kept.agrees {hi : Nat} (hkept : Kept s tasks) (h : program.Clean tokens s.nextId hi) :
    ∃ L, Agrees (learntPairing s tasks program n) ⟨L, s.machine.store, s.machine.store⟩
      s.machine.frame (fun _ _ => True)
      (executeProgram n program.stmts (s.machine.learn program.table))
      (executeProgram n program.stmts (s.machine.learn program.table)) := by
  obtain ⟨L, hat⟩ := hkept.at (n := n) h
  exact ⟨L, executeProgram_agrees hat rfl (h.alike hkept)
    (selfPairing_grants ..)⟩

/-- What the machine is left with after the run of a program. -/
theorem Kept.after {hi : Nat} (hkept : Kept s tasks) (h : program.Clean tokens s.nextId hi)
    (hnext : s₁.nextId = hi) (hle : s.nextId ≤ hi) {f : Nat} {W : World} {L : Labels}
    {m : Machine} (hf : f = Store.globalFrame)
    (hsince : Twins.Since (learntPairing s tasks program n) W f L m m)
    (hstore : s₁.machine.store = m.store) (htable : s₁.machine.table = m.table)
    (hframe : s₁.machine.frame = m.frame) : Kept s₁ (program.task n s.machine :: tasks) where
  frame := hframe.trans (hsince.frame.trans hf)
  heap := by
    refine ⟨L, ?_⟩
    rw [hstore, htable, hsince.twins.table]
    exact hsince.twins.heap
  fresh := by
    intro id hid
    have hnot : id ∉ bodyIds program.stmts := fun hmem => by
      have hhi := (h.numbered.2 id hmem).2
      omega
    rw [htable, hsince.twins.table]
    show (s.machine.learn program.table).table[id]? = none
    rw [Machine.learn_table, h.table, ofProgram_table_of_not_mem hnot, Option.none_or]
    exact hkept.fresh id (by omega)
  known := by
    rintro site ⟨huse, k, stmts, m, hmem, hsite⟩
    obtain hnew | hold := List.mem_cons.1 hmem
    · cases hnew
      have hlt := (h.filed hkept hsite huse).1
      omega
    · have hlt := hkept.known site ⟨huse, k, stmts, m, hold, hsite⟩
      omega

end Learn

/-! ## Runs -/

section Runs

variable {s s₁ : Session} {tasks : List Task} {n : Nat} {source : String} {transcript : Transcript}

/-- What is kept depends neither on the report nor on the clock. -/
theorem Kept.congr (h : Kept s tasks) (hframe : s₁.machine.frame = s.machine.frame)
    (hstore : s₁.machine.store = s.machine.store) (htable : s₁.machine.table = s.machine.table)
    (hnext : s.nextId ≤ s₁.nextId) : Kept s₁ tasks where
  frame := by rw [hframe]; exact h.frame
  heap := by rw [hstore, htable]; exact h.heap
  fresh id hid := by rw [htable]; exact h.fresh id (by omega)
  known site hsite := Nat.lt_of_lt_of_le (h.known site hsite) hnext

/-- **A run keeps what the next one relies on, and never comes to a fault.** -/
theorem Kept.run (h : Kept s tasks) (n : Nat) (source : String) :
    (∃ s₁ transcript, s.run n source = .ended s₁ transcript ∧
      Kept s₁ ((s.task? n source).toList ++ tasks)) ∨ s.run n source = .exhausted := by
  have hkeeps := s.prepare_keeps source
  unfold Session.run Session.task?
  cases hprepare : s.prepare source with
  | mk program? rest =>
    obtain ⟨s₁, transcript⟩ := rest
    cases program? with
    | none =>
      rw [hprepare] at hkeeps
      obtain ⟨hmachine, hnext⟩ := hkeeps
      exact .inl ⟨s₁, transcript, rfl, h.congr (by rw [hmachine]) (by rw [hmachine])
        (by rw [hmachine]) hnext⟩
    | some program =>
      obtain ⟨hclean, hmachine, hle⟩ := Session.prepare_eq_some hprepare
      obtain ⟨L, hagrees⟩ := h.agrees (n := n) hclean
      simp only [hmachine]
      generalize hexecute : executeProgram n program.stmts (s.machine.learn program.table) = o at hagrees
      cases hagrees with
      | done hsince _ =>
        refine .inl ⟨_, _, rfl, ?_⟩
        exact h.after hclean rfl hle h.frame hsince rfl rfl rfl
      | raised hsince _ =>
        refine .inl ⟨_, _, rfl, ?_⟩
        exact h.after hclean rfl hle h.frame hsince rfl rfl rfl
      | exhausted => exact .inr rfl

/-- **Every session keeps what its next run relies on.** -/
theorem History.kept (h : History s tasks) : Kept s tasks := by
  induction h with
  | start settings clock => exact .start settings clock
  | @run s s₁ tasks n source t _ hrun ih =>
    obtain ⟨s₂, t₂, hended, hkept⟩ | hexhausted := ih.run n source
    · rw [hrun] at hended
      cases hended
      exact hkept
    · rw [hrun] at hexhausted
      cases hexhausted
  | reset _ ih => exact ih.congr rfl rfl rfl (Nat.le_refl _)
  | clock _ _ ih => exact ih.congr rfl rfl rfl (Nat.le_refl _)

end Runs

end LoxLang
