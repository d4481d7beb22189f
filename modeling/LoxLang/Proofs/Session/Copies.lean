import LoxLang.Proofs.Run.CopiedRun
import LoxLang.Proofs.Scope.Copies
import LoxLang.Proofs.Session.ErrorClasses
import LoxLang.Proofs.Session.Renaming
import LoxLang.Proofs.Session.Restoration

/-!
# Sessions side by side

What a source means does not depend on the numbers that its nodes are given: with other numbers it
is read as a copy, and resolved alike.  Two sessions are copies of each other if they differ only in
the numbers of the nodes that they have read.

Principal results: `flawless_iff`, `read_copies`, `History.copySession`, `CopySession.learn`.
-/

namespace LoxLang

/-! ## Reading with other numbers -/

/-- What is read from a source, with numbers from `first` on. -/
def readFrom (first : Nat) (source : String) : Program :=
  Program.read (scan source).tokens (scan source).stop first

/-- A program and its copy are resolved alike as a whole. -/
theorem program_copies {shift : Nat → Nat} {ss ss' : List Stmt}
    (h : CopyBody (.free shift) ss ss') (hids : (bodyIds ss).Nodup) (hids' : (bodyIds ss').Nodup) :
    ∃ Id, CopyBody ⟨Id, shift⟩ ss ss' ∧
      ((Resolution.ofProgram ss').found = [] ↔ (Resolution.ofProgram ss).found = []) ∧
      (∀ i i', Id i i' → i ∈ bodyIds ss ∧ i' ∈ bodyIds ss' ∧
        (Resolution.ofProgram ss').table[i']? = (Resolution.ofProgram ss).table[i]?) ∧
      (Resolution.ofProgram ss').table.size = (Resolution.ofProgram ss).table.size := by
  have hstart : Stands ({} : Resolution) {} := ⟨rfl, rfl, rfl, Iff.rfl⟩
  obtain ⟨Id, hcopy, hstands, hId, hsize⟩ := body_copies h hstart hids hids' (fun _ _ => by simp)
    (fun _ _ => by simp)
  exact ⟨Id, hcopy, hstands.found, hId, Nat.add_right_cancel hsize⟩

/-- **With other numbers a source is read as a copy.** -/
theorem read_copies {source : String} {a : Nat} (h : (readFrom a source).found = []) (b : Nat) :
    (readFrom b source).found = [] ∧ ∃ Id,
      CopyBody ⟨Id, fun _ => 0⟩ (readFrom a source).stmts (readFrom b source).stmts ∧
      ((Resolution.ofProgram (readFrom b source).stmts).found = [] ↔
        (Resolution.ofProgram (readFrom a source).stmts).found = []) ∧
      (∀ i i', Id i i' →
        i ∈ bodyIds (readFrom a source).stmts ∧ i' ∈ bodyIds (readFrom b source).stmts ∧
        (Resolution.ofProgram (readFrom b source).stmts).table[i']? =
          (Resolution.ofProgram (readFrom a source).stmts).table[i]?) ∧
      (Resolution.ofProgram (readFrom b source).stmts).table.size =
        (Resolution.ofProgram (readFrom a source).stmts).table.size := by
  obtain ⟨hfound, hbare⟩ := read_of_derives (derives_of_read h) (scan source).stop b
  have hcopy : CopyBody (.free fun _ => 0) (readFrom a source).stmts (readFrom b source).stmts := by
    refine .of_bare (k := 0) ?_ fun _ _ => rfl
    rw [movedBody_zero]
    exact hbare
  exact ⟨hfound, program_copies hcopy (read_numbered _ _ a).2.1 (read_numbered _ _ b).2.1⟩

/-- Whether a source has errors does not depend on the numbers of its nodes. -/
theorem flawless_iff (source : String) (first : Nat) :
    Flawless source ↔ (scan source).found = [] ∧ (readFrom first source).found = [] ∧
      (Resolution.ofProgram (readFrom first source).stmts).found = [] := by
  constructor
  · intro h
    obtain ⟨hread, _, _, hfound, _⟩ := read_copies (a := 1) h.read first
    exact ⟨h.scanned, hread, hfound.2 h.resolved⟩
  · rintro ⟨hscan, hread, hresolved⟩
    obtain ⟨hread₁, _, _, hfound, _⟩ := read_copies hread 1
    exact ⟨hscan, hread₁, hfound.2 hresolved⟩

instance (source : String) : Decidable (Flawless source) :=
  decidable_of_iff _ (flawless_iff source 1).symm

/-! ## Runs of sources -/

/-- What a run writes, if it comes to its end. -/
def Run.transcript? : Run → Option Transcript
  | .ended _ t => some t
  | .fault _ => none
  | .exhausted => none

theorem Run.transcript?_eq_some {r : Run} {t : Transcript} (h : r.transcript? = some t) :
    ∃ s, r = .ended s t := by
  cases r with
  | ended s t' =>
    cases h
    exact ⟨s, rfl⟩
  | fault reason => cases h
  | exhausted => cases h

/-- The report that a run leaves behind, if it comes to its end. -/
def Run.report? : Run → Option Report
  | .ended s _ => some s.report
  | .fault _ => none
  | .exhausted => none

theorem Run.report_of_ended {r : Run} {s : Session} {t : Transcript} {report : Report}
    (h : r = .ended s t) (hreport : r.report? = some report) : s.report = report := by
  subst h
  exact Option.some.inj hreport

namespace Session

variable {s s₁ : Session} {source : String} {t : Transcript}

/-- A source without errors is prepared on any session without a static error. -/
theorem prepare_of_flawless (h : Flawless source) (hclear : s.report.hadError = false) :
    s.prepare source = (some ⟨(s.programOf source).stmts,
        (Resolution.ofProgram (s.programOf source).stmts).table⟩,
      { s with nextId := (s.programOf source).nextId },
      s.preparing (scan source).tokens (s.programOf source).stmts
        (Resolution.ofProgram (s.programOf source).stmts).table) := by
  obtain ⟨hscan, hread, hresolved⟩ := (flawless_iff source s.nextId).1 h
  exact prepare_of_clean hclear hscan rfl hread hresolved

/-- A source with errors is rejected, and only numbers are used up. -/
theorem run_of_flawed (h : ¬ Flawless source) (hclear : s.report.hadError = false) (n : Nat) :
    ∃ s₁ t, s.run n source = .ended s₁ t ∧ s.FailsStatically source s₁ t ∧
      s₁.settings = s.settings ∧ s.nextId ≤ s₁.nextId := by
  have hfails : ∃ s₁ t, s.run n source = .ended s₁ t ∧ s.FailsStatically source s₁ t := by
    by_cases hreading : s.readingProblems source = []
    · have hscoping : s.scopingProblems source ≠ [] := by
        intro hscoping
        obtain ⟨hscan, hread⟩ := List.append_eq_nil_iff.1 hreading
        exact h ((flawless_iff source s.nextId).2 ⟨hscan, hread, hscoping⟩)
      obtain ⟨s₁, t, hrun, hrejects⟩ := run_of_misscoped hclear hreading hscoping n
      exact ⟨s₁, t, hrun, _, hscoping, hrejects, .inr ⟨hreading, rfl⟩⟩
    · obtain ⟨s₁, t, hrun, hrejects⟩ := run_of_misread (.inr hreading) n
      exact ⟨s₁, t, hrun, _, hreading, hrejects, .inl rfl⟩
  obtain ⟨s₁, t, hrun, hfails⟩ := hfails
  have hsession : (s.prepare source).2.1 = s₁ := by
    obtain ⟨_, _, hrejects, _⟩ := hfails
    rw [run_of_unprepared (Prod.ext hrejects.program rfl)] at hrun
    cases hrun
    rfl
  exact ⟨s₁, t, hrun, hfails, hsession ▸ s.prepare_settings source,
    hsession ▸ (s.prepare_keeps source).2⟩

theorem run_nextId {n : Nat} (hrun : s.run n source = .ended s₁ t) :
    s₁.nextId = (s.prepare source).2.1.nextId := by
  cases hprepare : s.prepare source with
  | mk program? rest =>
    obtain ⟨s₂, t₂⟩ := rest
    cases program? with
    | none =>
      rw [run_of_unprepared hprepare] at hrun
      cases hrun
      rfl
    | some program =>
      rw [run_of_prepare hprepare] at hrun
      unfold conclude at hrun
      split at hrun <;> cases hrun <;> rfl

end Session

/-! ## Copies -/

theorem CopyClosure.mono {K : Copying} {Id : Nat → Nat → Prop} (hId : ∀ i i', K.Id i i' → Id i i')
    {c c' : Closure} (h : CopyClosure K c c') : CopyClosure { K with Id } c c' :=
  { h with decl := h.decl.mono hId }

theorem CopyStore.mono {K : Copying} {Id : Nat → Nat → Prop} (hId : ∀ i i', K.Id i i' → Id i i')
    {s s' : Store} (h : CopyStore K s s') : CopyStore { K with Id } s s' := by
  refine { h with closures := fun i => ?_ }
  have hclosure := h.closures i
  generalize s.closures[i]? = c? at hclosure
  generalize s'.closures[i]? = c?' at hclosure
  cases hclosure with
  | none => exact .none
  | some hc => exact .some (hc.mono hId)

/-- Copies that learn the same distances for more references that belong together. -/
theorem CopyMachine.relearn {K : Copying} {printed : Array String} {Id : Nat → Nat → Prop}
    {m m' : Machine} (h : CopyMachine K printed m m') (hId : ∀ i i', K.Id i i' → Id i i')
    {table table' : Distances} (htable : ∀ i i', Id i i' → table'[i']? = table[i]?) :
    CopyMachine { K with Id } printed { m with table := table } { m' with table := table' } :=
  { h with
    store := h.store.mono hId
    table := htable }

/-- Sessions that differ only in the numbers of nodes and in their reports. -/
structure CopySession (K : Copying) (s s' : Session) : Prop where
  settings : s'.settings = s.settings
  machine : CopyMachine K #[] s.machine s'.machine
  known : ∀ i i', K.Id i i' → i < s.nextId ∧ i' < s'.nextId

/-- The numbers of the functions of a session are used up. -/
theorem History.code {s : Session} {tasks : List Task} (h : History s tasks) :
    s.machine.store.CodeIs fun node => ∀ id, node.id? = some id → id < s.nextId := by
  induction h with
  | start settings clock => exact fun i c hc => by cases hc
  | @run s s₁ tasks n source t _ hrun ih =>
    have hnext := Session.run_nextId hrun
    have hle := (s.prepare_keeps source).2
    rw [← hnext] at hle
    refine (Session.run_back (ih.mono fun node hnode id hid => ?_) ?_ hrun).code
    · exact Nat.lt_of_lt_of_le (hnode id hid) hle
    · intro program s₂ t₂ hprepare node hnode id hid
      rw [hprepare] at hnext
      have hmem : id ∈ bodyIds program.stmts := List.mem_filterMap.2 ⟨node, hnode, hid⟩
      have hlt := ((Session.prepare_eq_some hprepare).1.numbered.2 id hmem).2
      rwa [← hnext] at hlt
  | reset _ ih => exact ih
  | clock _ _ ih => exact ih

/-- **A session is a copy of itself.** -/
theorem History.copySession {s : Session} {tasks : List Task} (h : History s tasks)
    {shift : Nat → Nat} (hshift : ∀ id, id < s.nextId → shift id = 0) :
    CopySession ⟨fun i i' => i' = i ∧ i < s.nextId, shift⟩ s s where
  settings := rfl
  machine := by
    refine ⟨⟨rfl, rfl, fun i => ?_, rfl, rfl, rfl⟩, rfl, rfl, rfl, ?_, Array.empty_append.symm, rfl⟩
    · cases hc : s.machine.store.closures[i]? with
      | none => exact .none
      | some c =>
        refine .some ⟨.refl fun id hid => ?_, rfl, rfl⟩
        obtain ⟨node, hnode, hid⟩ := List.mem_filterMap.1 hid
        have hlt := h.code i c hc node hnode id hid
        exact ⟨⟨rfl, hlt⟩, hshift id hlt⟩
    · rintro id _ ⟨rfl, _⟩
      rfl
  known i i' hi := ⟨hi.2, hi.1 ▸ hi.2⟩

/-! ## Learning a source -/

section Learn

variable {s s' : Session} {tasks tasks' : List Task} {source : String}

/-- The machine of a session that has learnt what it reads from a source. -/
def Session.learnt (s : Session) (source : String) : Machine :=
  s.machine.learn (Resolution.ofProgram (s.programOf source).stmts).table

theorem Session.programOf_numbered (s : Session) (source : String) :
    s.nextId ≤ (s.programOf source).nextId ∧
      Numbered s.nextId (s.programOf source).nextId (bodyIds (s.programOf source).stmts) :=
  read_numbered _ _ _

/-- The distances of references that were read before. -/
theorem Session.learnt_old (s : Session) (source : String) {i : Nat} (hi : i < s.nextId) :
    (s.learnt source).table[i]? = s.machine.table[i]? := by
  have hnot : i ∉ bodyIds (s.programOf source).stmts := fun hmem => by
    have hlo := ((s.programOf_numbered source).2.2 i hmem).1
    omega
  rw [learnt, Machine.learn_table, ofProgram_table_of_not_mem hnot, Option.none_or]

/-- The distances of references that are read now. -/
theorem History.learnt_new (h : History s tasks) {i : Nat}
    (hi : i ∈ bodyIds (s.programOf source).stmts) :
    (s.learnt source).table[i]? = (Resolution.ofProgram (s.programOf source).stmts).table[i]? := by
  have hlo := ((s.programOf_numbered source).2.2 i hi).1
  rw [Session.learnt, Machine.learn_table, h.kept.fresh i hlo, Option.or_none]

/-- **Copies of a session read copies of a source**, and are copies once they have learnt it. -/
theorem CopySession.learn {Id : Nat → Nat → Prop} (h : CopySession ⟨Id, fun _ => 0⟩ s s')
    (hs : History s tasks) (hs' : History s' tasks') (hsource : Flawless source) :
    ∃ Id₁, CopyBody ⟨Id₁, fun _ => 0⟩ (s.programOf source).stmts (s'.programOf source).stmts ∧
      CopyMachine ⟨Id₁, fun _ => 0⟩ #[] (s.learnt source) (s'.learnt source) ∧
      (∀ i i', Id₁ i i' → i < (s.programOf source).nextId ∧ i' < (s'.programOf source).nextId) ∧
      (Resolution.ofProgram (s'.programOf source).stmts).table.size =
        (Resolution.ofProgram (s.programOf source).stmts).table.size := by
  have hread := ((flawless_iff source s.nextId).1 hsource).2.1
  obtain ⟨_, Id₂, hcopy, _, hId₂, hsize⟩ := read_copies hread s'.nextId
  obtain ⟨hle, hids⟩ := s.programOf_numbered source
  obtain ⟨hle', hids'⟩ := s'.programOf_numbered source
  refine ⟨fun i i' => Id i i' ∨ Id₂ i i', hcopy.mono fun i i' => .inr,
    h.machine.relearn (fun i i' => .inl) ?_, ?_, hsize⟩
  · rintro i i' (hold | hnew)
    · obtain ⟨hi, hi'⟩ := h.known i i' hold
      exact (s'.learnt_old source hi').trans
        ((h.machine.table i i' hold).trans (s.learnt_old source hi).symm)
    · obtain ⟨hi, hi', htable⟩ := hId₂ i i' hnew
      exact (hs'.learnt_new hi').trans (htable.trans (hs.learnt_new hi).symm)
  · rintro i i' (hold | hnew)
    · obtain ⟨hi, hi'⟩ := h.known i i' hold
      exact ⟨Nat.lt_of_lt_of_le hi hle, Nat.lt_of_lt_of_le hi' hle'⟩
    · obtain ⟨hi, hi', _⟩ := hId₂ i i' hnew
      exact ⟨(hids.2 i hi).2, (hids'.2 i' hi').2⟩

end Learn

end LoxLang
