import LoxLang.Proofs.Session.Ending
import LoxLang.Proofs.Session.Joined
import LoxLang.Proofs.Session.Termination

/-!
# Running in pieces

Two sources may be run one after the other, or as one text with a line feed between them.  If the
first comes to its end without an error, both ways write the same, leave the same global variables
and flags, and end alike.  Only the line of a runtime error in the second source tells them apart,
which is counted from the beginning of the whole.

Principal results: `joined_outcome`, `pieces_run_as_one`.
-/

namespace LoxLang

/-! ## The two ways -/

section Ways

variable {s s₁ : Session} {tasks tasks₁ : List Task} {above below : String}
  {first second : List Stmt} {Id₁ Id₂ : Nat → Nat → Prop}

/-- The distances of references in the whole, once it is learnt. -/
theorem JoinedCopies.learnt_table {b i' : Nat} (h : History s tasks)
    (hjoined : JoinedCopies above below s.nextId b first second Id₁ Id₂)
    (hmem : i' ∈ bodyIds (first ++ second)) :
    (s.learnt (above ++ "\n" ++ below)).table[i']? =
      (Resolution.ofProgram (first ++ second)).table[i']? := by
  have hstmts : (s.programOf (above ++ "\n" ++ below)).stmts = first ++ second := hjoined.stmts
  rw [← hstmts] at hmem ⊢
  exact h.learnt_new hmem

/-- The whole starts on a copy of what the first source starts on. -/
theorem JoinedCopies.learnt_above {b : Nat} (h : History s tasks)
    (hjoined : JoinedCopies above below s.nextId b first second Id₁ Id₂) (hle : s.nextId ≤ b) :
    CopyMachine ⟨fun i i' => i' = i ∧ i < s.nextId ∨ Id₁ i i', lineShift above below b⟩ #[]
      (s.learnt above) (s.learnt (above ++ "\n" ++ below)) := by
  have hself : CopySession ⟨fun i i' => i' = i ∧ i < s.nextId, lineShift above below b⟩ s s :=
    h.copySession fun id hid => lineShift_of_lt (Nat.lt_of_lt_of_le hid hle)
  refine hself.machine.relearn (fun i i' => .inl) ?_
  rintro i i' (⟨rfl, hi⟩ | hi)
  · exact (s.learnt_old _ hi).trans (s.learnt_old above hi).symm
  · obtain ⟨hmem, hmem', htable⟩ := hjoined.tableAbove i i' hi
    exact (hjoined.learnt_table h hmem').trans (htable.trans (h.learnt_new hmem).symm)

/-- What is left in the middle of the whole is a copy of what the second source starts on, but that
the first has printed already. -/
theorem JoinedCopies.learnt_below {Id : Nat → Nat → Prop} {m m' : Machine} (h : History s tasks)
    (h₁ : History s₁ tasks₁)
    (hjoined : JoinedCopies above below s.nextId s₁.nextId first second Id₁ Id₂)
    (hm : CopyMachine ⟨Id, lineShift above below s₁.nextId⟩ #[] m m')
    (hknown : ∀ i i', Id i i' → i < s₁.nextId) (hmachine : s₁.machine = { m with output := #[] })
    (hkept : m'.table = (s.learnt (above ++ "\n" ++ below)).table) :
    CopyMachine ⟨fun i i' => Id i i' ∨ Id₂ i i', lineShift above below s₁.nextId⟩ m.output
      (s₁.learnt below) m' := by
  have htables : ∀ i i', Id i i' ∨ Id₂ i i' → m'.table[i']? = (s₁.learnt below).table[i]? := by
    rintro i i' (hi | hi)
    · rw [s₁.learnt_old below (hknown i i' hi), hmachine]
      exact hm.table i i' hi
    · obtain ⟨hmem, hmem', htable⟩ := hjoined.tableBelow i i' hi
      rw [hkept, hjoined.learnt_table h hmem', htable]
      exact (h₁.learnt_new hmem).symm
  have hrelearnt := hm.relearn (fun i i' => .inl) htables
  have hbelow : s₁.learnt below = { m with table := (s₁.learnt below).table, output := #[] } := by
    unfold Session.learnt
    rw [hmachine]
    rfl
  rw [hbelow]
  exact { hrelearnt with output := by rw [hm.output, Array.empty_append, Array.append_empty] }

/-- A program leaves the distances alone. -/
theorem executeProgram_table {n : Nat} {stmts : List Stmt} {m m₁ : Machine}
    (h : executeProgram n stmts m = .done () m₁) : m₁.table = m.table := by
  have hend : (Task.program n stmts m).end? = some m₁ := congrArg Outcome.machine? h
  exact (Task.back hend).table

/-- **The second source comes to the same end on what the first has left, and as a part of the
whole.** -/
theorem joined_outcome (h : History s tasks) (h₁ : History s₁ tasks₁) (habove : Flawless above)
    (hbelow : Flawless below) {k : Nat} {m : Machine}
    (hdone : executeProgram k (s.programOf above).stmts (s.learnt above) = .done () m)
    (hmachine : s₁.machine = { m with output := #[] })
    (hnext : s₁.nextId = (s.programOf above).nextId) :
    ∃ Id, CopyOutcome ⟨Id, lineShift above below s₁.nextId⟩ m.output
        (fun id e => ∃ t, (Task.program k (s₁.programOf below).stmts (s₁.learnt below)).Reaches t ∧
          t.Raises id e)
        (executeProgram k (s₁.programOf below).stmts (s₁.learnt below))
        (executeProgram k (s.programOf (above ++ "\n" ++ below)).stmts
          (s.learnt (above ++ "\n" ++ below))) ∧
      ∀ i i', Id i i' → i < (s₁.programOf below).nextId ∧
        i' < (s.programOf (above ++ "\n" ++ below)).nextId := by
  obtain ⟨hle, hids⟩ := s.programOf_numbered above
  obtain ⟨hle₁, hids₁⟩ := s₁.programOf_numbered below
  obtain ⟨hle', hids'⟩ := s.programOf_numbered (above ++ "\n" ++ below)
  rw [← hnext] at hle
  obtain ⟨_, first, second, Id₁, Id₂, hjoined⟩ :=
    joined_copies habove hbelow (a := s.nextId) (Nat.le_of_eq hnext.symm)
  have hstmts : (s.programOf (above ++ "\n" ++ below)).stmts = first ++ second := hjoined.stmts
  rw [hstmts] at hids' ⊢
  -- the first source, and its copy at the beginning of the whole
  have hfirst : CopyOutcome _ #[] (fun _ _ => True) _
      (executeProgram k first (s.learnt (above ++ "\n" ++ below))) :=
    executeProgram_copies (n := k) (hjoined.learnt_above h hle)
      (hjoined.copyAbove.mono fun i i' => .inr) fun _ _ _ _ _ => trivial
  have hreadAbove : (readFrom s.nextId above).stmts = (s.programOf above).stmts := rfl
  rw [hreadAbove, hdone] at hfirst
  generalize hfirstDone : executeProgram k first (s.learnt (above ++ "\n" ++ below)) = o at hfirst
  cases hfirst with
  | @done _ _ m' hm =>
    rw [executeProgram_append, hfirstDone]
    have hknown : ∀ i i', (i' = i ∧ i < s.nextId ∨ Id₁ i i') → i < s₁.nextId := by
      rintro i i' (⟨_, hi⟩ | hi)
      · exact Nat.lt_of_lt_of_le hi hle
      · rw [hnext]
        exact (hids.2 i (hjoined.tableAbove i i' hi).1).2
    have hmiddle := hjoined.learnt_below h h₁ hm hknown hmachine (executeProgram_table hfirstDone)
    refine ⟨_, executeProgram_copies hmiddle (hjoined.copyBelow.mono fun i i' => .inr) ?_, ?_⟩
    · exact fun t id e hreaches hraises => ⟨t, hreaches, hraises⟩
    · rintro i i' (hi | hi)
      · refine ⟨Nat.lt_of_lt_of_le (hknown i i' hi) hle₁, ?_⟩
        obtain ⟨rfl, hi⟩ | hi := hi
        · exact Nat.lt_of_lt_of_le hi hle'
        · exact (hids'.2 i' (hjoined.tableAbove i i' hi).2.1).2
      · obtain ⟨hmem, hmem', _⟩ := hjoined.tableBelow i i' hi
        exact ⟨(hids₁.2 i hmem).2, (hids'.2 i' hmem').2⟩

end Ways

/-! ## Pieces and the whole -/

/-- The error that ends a program, and how it is reported if the program stands `k` lines further
down.  The error may come from one of the program's own nodes, which have these numbers, or from a
function of an earlier program. -/
inductive ErrorBelow (k : Nat) (ids : List Nat) (program : Task) :
    Option RuntimeError → Option RuntimeError → Prop where
  | none : ErrorBelow k ids program none none
  | own {t : Task} {id : Nat} {e : RuntimeError} : program.Reaches t → t.Raises id e → id ∈ ids →
      ErrorBelow k ids program (some e) (some (e.moved k))
  | earlier {t : Task} {id : Nat} {e : RuntimeError} : program.Reaches t → t.Raises id e →
      id ∉ ids → ErrorBelow k ids program (some e) (some e)

theorem ErrorBelow.isSome_eq {k : Nat} {ids : List Nat} {program : Task}
    {error error' : Option RuntimeError} (h : ErrorBelow k ids program error error') :
    error'.isSome = error.isSome := by
  cases h with
  | none => rfl
  | own _ _ _ => rfl
  | earlier _ _ _ => rfl

/-- If a program comes to its end below another one, so does its copy. -/
theorem CopyOutcome.ends {above below : String} {b : Nat} {Id : Nat → Nat → Prop}
    {printed : Array String} {program : Task} {o o' : Outcome Unit}
    (h : CopyOutcome ⟨Id, lineShift above below b⟩ printed
      (fun id e => ∃ t, program.Reaches t ∧ t.Raises id e) o o')
    {m : Machine} {error : Option RuntimeError} (hend : o.ends? = some (m, error)) :
    ∃ m' error', o'.ends? = some (m', error') ∧
      CopyMachine ⟨Id, lineShift above below b⟩ printed m m' ∧
      ErrorBelow (feedsAbove above) (bodyIds (readFrom b below).stmts) program error error' := by
  cases h with
  | @done _ _ m' hm =>
    cases hend
    exact ⟨m', _, rfl, hm, .none⟩
  | @raised id e _ m' hblame hm =>
    cases hend
    obtain ⟨t, hreaches, hraises⟩ := hblame
    refine ⟨m', _, rfl, hm, ?_⟩
    simp only
    by_cases hmem : id ∈ bodyIds (readFrom b below).stmts
    · rw [lineShift_of_mem hmem]
      exact .own hreaches hraises hmem
    · rw [lineShift, if_neg hmem]
      exact .earlier hreaches hraises hmem
  | fault _ => cases hend
  | exhausted => cases hend

/-- The end of two runs, of a source on `s` and of one below it on `s₁`, and the end of the run of
the whole.  Standard output, the flags and the global variables are the same, the sessions are copies
of each other, and errors differ in their lines only. -/
structure SameEnd (s : Session) (above below : String) (k : Nat) (s₁ : Session) (t₁ : Transcript)
    (s₂ : Session) (t₂ : Transcript) (s' : Session) (t' : Transcript) : Prop where
  out : t'.on .out = t₁.on .out ++ t₂.on .out
  hadError : s'.report.hadError = s₂.report.hadError
  hadRuntimeError : s'.report.hadRuntimeError = s₂.report.hadRuntimeError
  globals : s'.machine.store.bindings Store.globalFrame =
    s₂.machine.store.bindings Store.globalFrame
  globalsText : s'.globalsText = s₂.globalsText
  copies : ∃ Id, CopySession ⟨Id, lineShift above below s₁.nextId⟩ s₂ s'
  err : ∃ error error',
    ErrorBelow (feedsAbove above) (bodyIds (s₁.programOf below).stmts)
      (.program k (s₁.programOf below).stmts (s₁.learnt below)) error error' ∧
    s₂.report.messages = s.report.messages ++ error.toList.map RuntimeError.text ∧
    s'.report.messages = s.report.messages ++ error'.toList.map RuntimeError.text ∧
    t₁.errors = [] ∧ t₂.errors = errorLines error ∧ t'.errors = errorLines error' ∧
    (s.settings.verbose = false → t₁.on .err = "" ∧ t₂.on .err = (errorLines error).on .err ∧
      t'.on .err = (errorLines error').on .err)

/-- Both ways come to an end, or neither does with this allowance. -/
inductive SameRuns (s : Session) (above below : String) (k : Nat) (s₁ : Session)
    (t₁ : Transcript) : Run → Run → Prop where
  | ended {s₂ s' : Session} {t₂ t' : Transcript} : SameEnd s above below k s₁ t₁ s₂ t₂ s' t' →
      SameRuns s above below k s₁ t₁ (.ended s₂ t₂) (.ended s' t')
  | exhausted : SameRuns s above below k s₁ t₁ .exhausted .exhausted

theorem SameRuns.ended_iff {s s₁ : Session} {above below : String} {k : Nat} {t₁ : Transcript}
    {r r' : Run} (h : SameRuns s above below k s₁ t₁ r r') :
    (∃ s₂ t₂, r = .ended s₂ t₂) ↔ ∃ s' t', r' = .ended s' t' := by
  cases h with
  | ended _ => exact ⟨fun _ => ⟨_, _, rfl⟩, fun _ => ⟨_, _, rfl⟩⟩
  | exhausted =>
    constructor
    · rintro ⟨_, _, ⟨⟩⟩
    · rintro ⟨_, _, ⟨⟩⟩

/-- More allowance does not change the end of a run. -/
theorem Session.run_ended_steady {s s₁ : Session} {source : String} {t : Transcript} {n k : Nat}
    (hle : n ≤ k) (h : s.run n source = .ended s₁ t) : s.run k source = .ended s₁ t := by
  rw [run_steady hle, h]
  rw [h]
  rintro ⟨⟩

section Pieces

variable {s s₁ : Session} {tasks : List Task} {above below : String} {n : Nat} {t₁ : Transcript}

/-- Copies of a machine, on which the first source has printed before, are finished alike. -/
theorem sameEnd {k : Nat} {t₂ t' : Transcript} {m m₂ m' : Machine}
    {error error' : Option RuntimeError} {Id : Nat → Nat → Prop}
    (hsettings : s₁.settings = s.settings) (hreport : s₁.report = s.report)
    (hm : CopyMachine ⟨Id, lineShift above below s₁.nextId⟩ m.output m₂ m')
    (hknown : ∀ i i', Id i i' → i < (s₁.programOf below).nextId ∧
      i' < (s.programOf (above ++ "\n" ++ below)).nextId)
    (herror : ErrorBelow (feedsAbove above) (bodyIds (s₁.programOf below).stmts)
      (.program k (s₁.programOf below).stmts (s₁.learnt below)) error error')
    (hwrites₁ : Writes t₁ s.settings.verbose m.output none)
    (hwrites₂ : Writes t₂ s.settings.verbose m₂.output error)
    (hwrites' : Writes t' s.settings.verbose m'.output error') :
    SameEnd s above below k s₁ t₁
      (Session.finish { s₁ with nextId := (s₁.programOf below).nextId } m₂ error).1 t₂
      (Session.finish { s with nextId := (s.programOf (above ++ "\n" ++ below)).nextId }
        m' error').1 t' where
  out := by
    rw [hwrites'.out, hwrites₁.out, hwrites₂.out, hm.output, Array.toList_append, List.map_append,
      String.join_append]
  hadError := by rw [Session.finish_hadError, Session.finish_hadError, hreport]
  hadRuntimeError := by
    rw [Session.finish_hadRuntimeError, Session.finish_hadRuntimeError, herror.isSome_eq, hreport]
  globals := by
    rw [Session.finish_machine, Session.finish_machine]
    exact hm.store.bindings_eq _
  globalsText := by
    rw [Session.globalsText, Session.globalsText, Session.finish_machine, Session.finish_machine]
    exact hm.store.chainText_eq _
  copies := by
    refine ⟨Id, ?_, ?_, ?_⟩
    · rw [Session.finish_settings, Session.finish_settings]
      exact hsettings.symm
    · rw [Session.finish_machine, Session.finish_machine]
      exact { hm with output := rfl }
    · rw [Session.finish_nextId, Session.finish_nextId]
      exact hknown
  err := by
    refine ⟨error, error', herror, ?_, ?_, hwrites₁.errors, hwrites₂.errors, hwrites'.errors, ?_⟩
    · rw [Session.finish_messages, hreport]
    · rw [Session.finish_messages]
    · intro hverbose
      exact ⟨hwrites₁.quiet hverbose, hwrites₂.quiet hverbose, hwrites'.quiet hverbose⟩

/-- With every allowance that the first source ends with, both ways come to the same end. -/
theorem sameRuns (h : History s tasks) (hclear : s.report.hadError = false)
    (hprint : s.settings.printTree = false) (habove : Flawless above) (hbelow : Flawless below)
    (hrun : s.run n above = .ended s₁ t₁) (hquiet : s₁.report.messages = s.report.messages)
    {k : Nat} (hle : n ≤ k) :
    SameRuns s above below k s₁ t₁ (s₁.run k below) (s.run k (above ++ "\n" ++ below)) := by
  have h₁ := History.run h (Session.run_ended_steady hle hrun)
  obtain ⟨m, hdone, hsession, hwrites₁⟩ :=
    Session.run_quiet habove hclear hprint (Session.run_ended_steady hle hrun) hquiet
  have hmachine : s₁.machine = { m with output := #[] } := by rw [hsession]
  have hnext : s₁.nextId = (s.programOf above).nextId := by rw [hsession]
  have hreport : s₁.report = s.report := by rw [hsession]
  have hsettings : s₁.settings = s.settings := by rw [hsession]
  have hclear₁ : s₁.report.hadError = false := by rw [hreport, hclear]
  have hjoined := (joined_copies habove hbelow (a := s.nextId) (Nat.le_of_eq hnext.symm)).1
  obtain ⟨Id, hcopy, hknown⟩ := joined_outcome h h₁ habove hbelow hdone hmachine hnext
  rcases h₁.kept.run k below with ⟨s₂, t₂, hended, _⟩ | hexhausted
  · rw [hended]
    obtain ⟨m₂, error, hends, rfl, hwrites₂⟩ :=
      Session.run_eq_ended hbelow hclear₁ (hsettings ▸ hprint) hended
    obtain ⟨m', error', hends', hm, herror⟩ := hcopy.ends hends
    obtain ⟨t', hended', hwrites'⟩ := Session.run_of_ends hjoined hclear hprint hends'
    rw [hended']
    rw [hsettings] at hwrites₂
    exact .ended (sameEnd hsettings hreport hm hknown herror hwrites₁ hwrites₂ hwrites')
  · rw [hexhausted, Session.run_of_flawless hjoined hclear]
    rw [Session.run_of_flawless hbelow hclear₁] at hexhausted
    rw [Session.conclude_eq_exhausted hexhausted] at hcopy
    generalize executeProgram k (s.programOf (above ++ "\n" ++ below)).stmts
      (s.learnt (above ++ "\n" ++ below)) = o' at hcopy ⊢
    cases hcopy
    exact .exhausted

/-- **Running in pieces is running the whole.**  Let a session, after any history, have no static
error on record and print no trees, and let a source without static errors come to its end on it
without a runtime error.  Then with any other source without static errors below it, the whole has
none either, and to run both one after the other is to run the whole: both ways come to an end or
neither does, with the same output, flags and global variables, and a runtime error is reported
alike, but on a later line if it comes from the second source. -/
theorem pieces_run_as_one (h : History s tasks) (hclear : s.report.hadError = false)
    (hprint : s.settings.printTree = false) (habove : Flawless above) (hbelow : Flawless below)
    (hrun : s.run n above = .ended s₁ t₁) (hquiet : s₁.report.messages = s.report.messages) :
    Flawless (above ++ "\n" ++ below) ∧
      (∀ k, n ≤ k → SameRuns s above below k s₁ t₁ (s₁.run k below)
        (s.run k (above ++ "\n" ++ below))) ∧
      ((∃ k s₂ t₂, s₁.run k below = .ended s₂ t₂) ↔
        ∃ k s' t', s.run k (above ++ "\n" ++ below) = .ended s' t') := by
  have hsame : ∀ k, n ≤ k → SameRuns s above below k s₁ t₁ (s₁.run k below)
      (s.run k (above ++ "\n" ++ below)) :=
    fun k hle => sameRuns h hclear hprint habove hbelow hrun hquiet hle
  refine ⟨(joined_copies habove hbelow (a := 1) (Nat.le_refl _)).1, hsame, ?_, ?_⟩
  · rintro ⟨k, s₂, t₂, hended⟩
    have hmax := hsame (max n k) (Nat.le_max_left n k)
    have hmore := Session.run_ended_steady (Nat.le_max_right n k) hended
    exact ⟨max n k, hmax.ended_iff.1 ⟨s₂, t₂, hmore⟩⟩
  · rintro ⟨k, s', t', hended⟩
    have hmax := hsame (max n k) (Nat.le_max_left n k)
    have hmore := Session.run_ended_steady (Nat.le_max_right n k) hended
    exact ⟨max n k, hmax.ended_iff.2 ⟨s', t', hmore⟩⟩

end Pieces

/-! ### A function and a call with too few arguments -/

/-- A function on three lines. -/
def functionSource : String := "fun f(x) \x7b\n  print x;\n\x7d"

/-- The second call has too few arguments. -/
def callsSource : String := "f(true);\nf();"

/-- What is on record after a run, if it comes to its end. -/
def Run.messages? : Run → Option (List String)
  | .ended s _ => some s.report.messages
  | .fault _ => none
  | .exhausted => none

theorem Run.messages?_eq_some {r : Run} {messages : List String}
    (h : r.messages? = some messages) : ∃ s t, r = .ended s t ∧ s.report.messages = messages := by
  cases r with
  | ended s t =>
    cases h
    exact ⟨s, t, rfl, rfl⟩
  | fault reason => cases h
  | exhausted => cases h

theorem functionSource_messages :
    ((Session.start {} 0).run 9 functionSource).messages? = some [] := by
  decide +kernel

theorem functionSource_calls : ((Session.start {} 0).run 9
    (functionSource ++ "\n" ++ callsSource)).transcript? = some
      [⟨.out, "true\n"⟩, ⟨.err, "Expected 1 arguments but got 0.\n[line 5]\n"⟩] := by
  decide +kernel

/-- The call stands on the second line of its source, and on the fifth of the whole. -/
theorem pieces_run_as_one_to_an_error :
    ∃ s₁ t₁ s₂ t₂ s' t', (Session.start {} 0).run 9 functionSource = .ended s₁ t₁ ∧
      s₁.report.messages = [] ∧ s₁.run 9 callsSource = .ended s₂ t₂ ∧
      (Session.start {} 0).run 9 (functionSource ++ "\n" ++ callsSource) = .ended s' t' ∧
      SameEnd (.start {} 0) functionSource callsSource 9 s₁ t₁ s₂ t₂ s' t' ∧
      t₁.on .out ++ t₂.on .out = "true\n" ∧
      t'.on .err = "Expected 1 arguments but got 0.\n[line 5]\n" := by
  obtain ⟨s₁, t₁, hrun, hquiet⟩ := Run.messages?_eq_some functionSource_messages
  obtain ⟨s', hwhole⟩ := Run.transcript?_eq_some functionSource_calls
  have hfunction : Flawless functionSource := by decide +kernel
  have hcalls : Flawless callsSource := by decide +kernel
  have hsame := (pieces_run_as_one (.start {} 0) rfl rfl hfunction hcalls hrun hquiet).2.1 9
    (Nat.le_refl 9)
  rw [hwhole] at hsame
  generalize hpiece : s₁.run 9 callsSource = r at hsame
  cases hsame with
  | ended hend =>
    exact ⟨s₁, t₁, _, _, s', _, hrun, hquiet, hpiece, hwhole, hend, hend.out.symm, rfl⟩

end LoxLang
