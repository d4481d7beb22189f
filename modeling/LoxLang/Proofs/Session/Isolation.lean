import LoxLang.Proofs.Session.Ending
import LoxLang.Proofs.Text.Lines

/-!
# Lines of a prompt do not disturb each other

A line with a static error leaves no trace but the numbers that its nodes have used up, and these
show nowhere.  So the other lines write the same without it, and the global variables are the same in
the end.  A runtime error ends its own line only.

Principal results: `CopySession.run`, `Prompted.filter`, `rejected_lines_leave_no_trace`.
-/

namespace LoxLang

/-! ## Lines and what they write -/

/-- Lines of a prompt, each with what it writes. -/
abbrev PromptLog := List (String × Transcript)

/-- Lines that are run one after the other, with a fresh report for each, and what each writes. -/
inductive Prompted (n : Nat) : Session → PromptLog → Session → Prop where
  | nil {s : Session} : Prompted n s [] s
  | cons {s s₁ s₂ : Session} {line : String} {t : Transcript} {log : PromptLog} :
      s.run n line = .ended s₁ t → Prompted n s₁.reset log s₂ →
      Prompted n s ((line, t) :: log) s₂

/-- Everything that is written, with what asks for each line and for the one that does not come. -/
def PromptLog.written (log : PromptLog) : Transcript :=
  log.flatMap (fun entry => ⟨.out, Session.promptText⟩ :: entry.2) ++
    [⟨.out, Session.promptText⟩, ⟨.out, "\n"⟩]

theorem PromptLog.written_cons (line : String) (t : Transcript) (log : PromptLog) :
    PromptLog.written ((line, t) :: log) = ⟨.out, Session.promptText⟩ :: t ++ log.written := by
  simp [written]

theorem Session.promptLine_eq_ended {n : Nat} {s s₁ : Session} {line : String} {t : Transcript} :
    s.promptLine n line = .ended s₁ t ↔ ∃ s₂ t₂, s.run n line = .ended s₂ t₂ ∧ s₁ = s₂.reset ∧
      t = ⟨.out, promptText⟩ :: t₂ := by
  unfold promptLine
  cases s.run n line with
  | ended s₂ t₂ => simp [eq_comm]
  | fault reason => simp
  | exhausted => simp

/-- A prompt comes to its end if and only if every line does. -/
theorem Session.promptLines_eq_ended {n : Nat} {lines : List String} {s s₁ : Session}
    {t : Transcript} : promptLines n lines s = .ended s₁ t ↔
      ∃ log : PromptLog, Prompted n s log s₁ ∧ log.map (·.1) = lines ∧ log.written = t := by
  induction lines generalizing s t with
  | nil =>
    constructor
    · intro h
      cases h
      exact ⟨[], .nil, rfl, rfl⟩
    · rintro ⟨log, hlog, hlines, rfl⟩
      obtain rfl := List.map_eq_nil_iff.1 hlines
      cases hlog
      rfl
  | cons line lines ih =>
    constructor
    · intro h
      unfold promptLines at h
      cases hline : s.promptLine n line with
      | fault reason => simp [hline] at h
      | exhausted => simp [hline] at h
      | ended s₂ t₂ =>
        obtain ⟨s₃, t₃, hrun, rfl, rfl⟩ := promptLine_eq_ended.1 hline
        simp only [hline] at h
        cases hrest : promptLines n lines s₃.reset with
        | fault reason => simp [hrest] at h
        | exhausted => simp [hrest] at h
        | ended s₄ t₄ =>
          simp only [hrest] at h
          cases h
          obtain ⟨log, hlog, rfl, rfl⟩ := ih.1 hrest
          exact ⟨(line, t₃) :: log, .cons hrun hlog, rfl, PromptLog.written_cons line t₃ log⟩
    · rintro ⟨log, hlog, hlines, rfl⟩
      cases hlog with
      | nil => cases hlines
      | @cons _ s₂ _ _ t₂ log hrun hlog =>
        rw [List.map_cons, List.cons.injEq] at hlines
        have hrest := ih.2 ⟨log, hlog, hlines.2, rfl⟩
        have hline := promptLine_eq_ended.2 ⟨s₂, t₂, hrun, rfl, rfl⟩
        unfold promptLines
        simp only [← hlines.1, hline, hrest, PromptLog.written_cons]

/-- Every line is run on what the lines before it left. -/
theorem Prompted.split {n : Nat} {s s₁ : Session} {line : String} {t : Transcript}
    {after : PromptLog} : ∀ {before : PromptLog}, Prompted n s (before ++ (line, t) :: after) s₁ →
      ∃ s₂ s₃, Prompted n s before s₂ ∧ s₂.run n line = .ended s₃ t ∧ Prompted n s₃.reset after s₁
  | [], .cons hrun hafter => ⟨_, _, .nil, hrun, hafter⟩
  | _ :: _, .cons hrun hrest =>
    have ⟨s₂, s₃, hbefore, hline, hafter⟩ := hrest.split
    ⟨s₂, s₃, .cons hrun hbefore, hline, hafter⟩

/-- Between two lines no static error is on record. -/
theorem Prompted.history {n : Nat} {s s₁ : Session} {log : PromptLog} {tasks : List Task}
    (h : Prompted n s log s₁) (hs : History s tasks) (hclear : s.report.hadError = false) :
    (∃ tasks₁, History s₁ tasks₁) ∧ s₁.report.hadError = false := by
  induction h generalizing tasks with
  | nil => exact ⟨⟨tasks, hs⟩, hclear⟩
  | cons hrun _ ih => exact ih (.reset (.run hs hrun)) rfl

/-! ## A line without errors -/

section Runs

variable {s s' s₁ : Session} {tasks tasks' : List Task} {n : Nat} {source : String}
  {t : Transcript}

/-- What is written while copies of a program are prepared. -/
theorem Session.preparing_copies {K : Copying} (hsettings : s'.settings = s.settings)
    (tokens : List Token) {stmts stmts' : List Stmt} (h : CopyBody K stmts stmts')
    {table table' : Distances} (hsize : table'.size = table.size) :
    s'.preparing tokens stmts' table' = s.preparing tokens stmts table := by
  have htrees : s'.treeLines stmts' = s.treeLines stmts := by
    have hlines : ∀ ss : List Stmt, (ss.map fun stmt => Written.line .out stmt.render) =
        (ss.map Stmt.render).map (Written.line .out) := fun ss => by rw [List.map_map]; rfl
    unfold treeLines
    rw [hsettings, hlines, hlines, h.map_render_eq]
  unfold preparing
  rw [log_congr hsettings, log_congr hsettings, log_congr hsettings, htrees, hsize, h.length_eq]

/-- Copies of an outcome are finished alike. -/
theorem Session.finish_copies {K : Copying} {m m' : Machine} (hsettings : s'.settings = s.settings)
    (h : CopyMachine K #[] m m') (error : Option RuntimeError) :
    (s'.finish m' error).2 = (s.finish m error).2 := by
  rw [finish_written, finish_written, log_congr hsettings, h.output, Array.empty_append,
    h.store.chainText_eq]

/-- Copies of an outcome lead to copies of a session. -/
theorem CopyOutcome.conclude {Id : Nat → Nat → Prop} {B : Nat → RuntimeError → Prop}
    {o o' : Outcome Unit} {before : Transcript} (h : CopyOutcome ⟨Id, fun _ => 0⟩ #[] B o o')
    (s s' : Session) (hsettings : s'.settings = s.settings)
    (hknown : ∀ i i', Id i i' → i < s.nextId ∧ i' < s'.nextId)
    (hend : s.conclude before o = .ended s₁ t) :
    ∃ s₁', s'.conclude before o' = .ended s₁' t ∧ CopySession ⟨Id, fun _ => 0⟩ s₁ s₁' := by
  cases h with
  | @done v m m' hm =>
    cases hend
    rw [← Session.finish_copies hsettings hm]
    exact ⟨(s'.finish m' none).1, rfl, hsettings, { hm with output := rfl }, hknown⟩
  | @raised id e m m' _ hm =>
    cases hend
    rw [← Session.finish_copies hsettings hm]
    exact ⟨(s'.finish m' (some e)).1, rfl, hsettings, { hm with output := rfl }, hknown⟩
  | fault _ => cases hend
  | exhausted => cases hend

/-- **A source without errors does the same on copies of a session**, which are copies again. -/
theorem CopySession.run {Id : Nat → Nat → Prop} (h : CopySession ⟨Id, fun _ => 0⟩ s s')
    (hs : History s tasks) (hs' : History s' tasks') (hclear : s.report.hadError = false)
    (hclear' : s'.report.hadError = false) (hsource : Flawless source)
    (hrun : s.run n source = .ended s₁ t) :
    ∃ s₁' Id₁, s'.run n source = .ended s₁' t ∧ CopySession ⟨Id₁, fun _ => 0⟩ s₁ s₁' := by
  obtain ⟨Id₁, hbody, hmachine, hknown, hsize⟩ := h.learn hs hs' hsource
  have hpreparing := Session.preparing_copies h.settings (scan source).tokens hbody hsize
  have houtcome : CopyOutcome ⟨Id₁, fun _ => 0⟩ #[] (fun _ _ => True)
      (executeProgram n (s.programOf source).stmts (s.learnt source))
      (executeProgram n (s'.programOf source).stmts (s'.learnt source)) :=
    executeProgram_copies hmachine hbody fun _ _ _ _ _ => trivial
  rw [Session.run_of_flawless hsource hclear] at hrun
  obtain ⟨s₁', hconclude, hcopy⟩ := houtcome.conclude
    { s with nextId := (s.programOf source).nextId }
    { s' with nextId := (s'.programOf source).nextId } h.settings hknown hrun
  refine ⟨s₁', Id₁, ?_, hcopy⟩
  rw [Session.run_of_flawless hsource hclear', hpreparing]
  exact hconclude

end Runs

/-! ## Lines with errors -/

theorem CopySession.after_flawed {K : Copying} {s s' s₁ : Session} (h : CopySession K s s')
    (hmachine : s₁.machine = s.machine) (hsettings : s₁.settings = s.settings)
    (hnext : s.nextId ≤ s₁.nextId) : CopySession K s₁ s' where
  settings := h.settings.trans hsettings.symm
  machine := hmachine ▸ h.machine
  known i i' hi := ⟨Nat.lt_of_lt_of_le (h.known i i' hi).1 hnext, (h.known i i' hi).2⟩

theorem CopySession.reset {K : Copying} {s s' : Session} (h : CopySession K s s') :
    CopySession K s.reset s'.reset :=
  ⟨h.settings, h.machine, h.known⟩

/-- **Without the lines that have errors, the others write the same.** -/
theorem Prompted.filter {n : Nat} {s s₁ : Session} {log : PromptLog} (hlog : Prompted n s log s₁) :
    ∀ {s' : Session} {Id : Nat → Nat → Prop} {tasks tasks' : List Task},
      CopySession ⟨Id, fun _ => 0⟩ s s' → History s tasks → History s' tasks' →
      s.report.hadError = false → s'.report.hadError = false →
      ∃ s₁' Id₁, Prompted n s' (log.filter (Flawless ·.1)) s₁' ∧
        CopySession ⟨Id₁, fun _ => 0⟩ s₁ s₁' := by
  induction hlog with
  | nil => exact fun h _ _ _ _ => ⟨_, _, .nil, h⟩
  | @cons s s₂ s₁ line t log hrun _ ih =>
    intro s' Id tasks tasks' h hs hs' hclear hclear'
    by_cases hline : Flawless line
    · obtain ⟨s₂', Id₂, hrun', h₂⟩ := h.run hs hs' hclear hclear' hline hrun
      obtain ⟨s₁', Id₁, hlog', h₁⟩ := ih h₂.reset (.reset (.run hs hrun)) (.reset (.run hs' hrun'))
        rfl rfl
      rw [List.filter_cons_of_pos (by simpa using hline)]
      exact ⟨s₁', Id₁, .cons hrun' hlog', h₁⟩
    · obtain ⟨s₃, t₃, hrun₃, ⟨_, _, hrejects, _⟩, hsettings, hnext⟩ :=
        Session.run_of_flawed hline hclear n
      rw [hrun] at hrun₃
      cases hrun₃
      rw [List.filter_cons_of_neg (by simpa using hline)]
      have h₂ : CopySession ⟨Id, fun _ => 0⟩ s₂.reset s' :=
        h.after_flawed hrejects.machine hsettings hnext
      exact ih h₂ (.reset (.run hs hrun)) hs' rfl hclear'

/-- What becomes of a line, on what the lines before it left. -/
theorem Session.run_of_line {n : Nat} {s s₁ : Session} {line : String} {t : Transcript}
    {tasks : List Task} (h : History s tasks) (hclear : s.report.hadError = false)
    (hrun : s.run n line = .ended s₁ t) :
    (Flawless line → s.RunsProgram line n s₁ t) ∧
      (¬ Flawless line → s.FailsStatically line s₁ t) := by
  constructor
  · intro hline
    obtain ⟨hscan, hread, hresolved⟩ := (flawless_iff line s.nextId).1 hline
    have hreading : s.readingProblems line = [] := List.append_eq_nil_iff.2 ⟨hscan, hread⟩
    rcases run_of_clean hclear hreading hresolved h.output_eq_empty n with
      ⟨reason, hfault⟩ | hexhausted | ⟨s₂, t₂, error, hended, hexecutes⟩
    · rw [hrun] at hfault
      cases hfault
    · rw [hrun] at hexhausted
      cases hexhausted
    · rw [hrun] at hended
      cases hended
      exact ⟨error, hexecutes⟩
  · intro hline
    obtain ⟨s₂, t₂, hended, hfails, _⟩ := run_of_flawed hline hclear n
    rw [hrun] at hended
    cases hended
    exact hfails

/-- **Lines with static errors leave no trace.**  Let the lines of a prompt come to an end, each with
what it writes on record.  Without the lines that have static errors the prompt comes to an end with
the same allowance, every other line writes the same as before, and the global variables are the
same.  A line without static errors is executed on the machine that the line before it left, also
if that came to a runtime error.  The lines of an input may be taken out of its text. -/
theorem rejected_lines_leave_no_trace {s s₁ : Session} {tasks : List Task} (h : History s tasks)
    (hclear : s.report.hadError = false) {n : Nat} {lines : List String} {t : Transcript}
    (hrun : s.promptLines n lines = .ended s₁ t) :
    ∃ log, Prompted n s log s₁ ∧ log.map (·.1) = lines ∧ PromptLog.written log = t ∧
      (∃ s₁', Prompted n s (log.filter (Flawless ·.1)) s₁' ∧
        s.promptLines n (lines.filter (Flawless ·)) =
          .ended s₁' (PromptLog.written (log.filter (Flawless ·.1))) ∧
        (∀ input, Text.feedLines input = lines →
          s.prompt n (String.join (lines.filter (Flawless ·))) =
            .ended s₁' (PromptLog.written (log.filter (Flawless ·.1)))) ∧
        s₁'.machine.store.bindings Store.globalFrame =
          s₁.machine.store.bindings Store.globalFrame ∧
        s₁'.globalsText = s₁.globalsText) ∧
      ∀ before line t after, log = before ++ (line, t) :: after →
        ∃ s₂ s₃, Prompted n s before s₂ ∧ s₂.run n line = .ended s₃ t ∧
          Prompted n s₃.reset after s₁ ∧
          if Flawless line then s₂.RunsProgram line n s₃ t else s₂.FailsStatically line s₃ t := by
  obtain ⟨log, hlog, hlines, hwritten⟩ := Session.promptLines_eq_ended.1 hrun
  refine ⟨log, hlog, hlines, hwritten, ?_, ?_⟩
  · have hcopy : CopySession ⟨fun i i' => i' = i ∧ i < s.nextId, fun _ => 0⟩ s s :=
      h.copySession fun _ _ => rfl
    obtain ⟨s₁', Id₁, hlog', hcopy₁⟩ := hlog.filter hcopy h h hclear hclear
    have hrun' : s.promptLines n (lines.filter (Flawless ·)) =
        .ended s₁' (PromptLog.written (log.filter (Flawless ·.1))) := by
      refine Session.promptLines_eq_ended.2 ⟨_, hlog', ?_, rfl⟩
      rw [← hlines, List.filter_map]
      rfl
    refine ⟨s₁', hlog', hrun', ?_, hcopy₁.machine.store.bindings_eq _,
      hcopy₁.machine.store.chainText_eq _⟩
    rintro input rfl
    rw [Session.prompt, Text.feedLines_join_filter]
    exact hrun'
  · rintro before line t after rfl
    obtain ⟨s₂, s₃, hbefore, hline, hafter⟩ := hlog.split
    obtain ⟨⟨tasks₂, hs₂⟩, hclear₂⟩ := hbefore.history h hclear
    obtain ⟨hruns, hfails⟩ := Session.run_of_line hs₂ hclear₂ hline
    refine ⟨s₂, s₃, hbefore, hline, hafter, ?_⟩
    split
    · exact hruns ‹_›
    · exact hfails ‹_›

/-! ### A function, two errors and a call -/

/-- The second line has a static error, the third comes to a runtime error. -/
def promptedLines : List String :=
  ["fun f() \x7b print 1; \x7d\n", "return;\n", "nil();\n", "f();\n"]

theorem promptedLines_written :
    ((Session.start {} 0).promptLines 9 promptedLines).transcript? = some
      [⟨.out, "> "⟩, ⟨.out, "> "⟩,
        ⟨.err, "[line 1] Error at 'return': Can't return from top-level code.\n"⟩, ⟨.out, "> "⟩,
        ⟨.err, "Can only call functions and classes.\n[line 1]\n"⟩, ⟨.out, "> "⟩, ⟨.out, "1\n"⟩,
        ⟨.out, "> "⟩, ⟨.out, "\n"⟩] := by
  decide +kernel

theorem promptedLines_flawless : promptedLines.filter (Flawless ·) =
    ["fun f() \x7b print 1; \x7d\n", "nil();\n", "f();\n"] := by
  decide +kernel

theorem rejected_lines_leave_no_trace_of_return :
    ∃ s₁ s₁' t log, (Session.start {} 0).promptLines 9 promptedLines = .ended s₁ t ∧
      t.on .out = "> > > > 1\n> \n" ∧ PromptLog.written log = t ∧
      log.map (·.1) = promptedLines ∧
      (Session.start {} 0).promptLines 9 ["fun f() \x7b print 1; \x7d\n", "nil();\n", "f();\n"] =
        .ended s₁' (PromptLog.written (log.filter (Flawless ·.1))) ∧
      s₁'.globalsText = s₁.globalsText := by
  obtain ⟨s₁, hrun⟩ := Run.transcript?_eq_some promptedLines_written
  obtain ⟨log, _, hlines, hwritten, ⟨s₁', _, hrun', _, _, hglobals⟩, _⟩ :=
    rejected_lines_leave_no_trace (.start {} 0) rfl hrun
  rw [promptedLines_flawless] at hrun'
  exact ⟨s₁, s₁', _, log, hrun, by decide +kernel, hwritten, hlines, hrun', hglobals⟩

end LoxLang
