import LoxLang.Proofs.Grammar.Acceptance
import LoxLang.Proofs.Grammar.Numbering
import LoxLang.Proofs.Scope.Table
import LoxLang.Proofs.Token.Words
import LoxLang.Session

/-!
# Prepared programs

A source is prepared for execution only if nothing is wrong with it: it is scanned, read and
resolved without a problem.

Principal results: `Session.prepare_eq_some`, `Session.prepare_of_clean`, `Session.run_of_prepare`,
`Session.run_of_unprepared`.
-/

namespace LoxLang

theorem Report.addAll_hadError (ds : List Diagnostic) : ∀ r : Report,
    (r.addAll ds).hadError = false → r.hadError = false ∧ ds = [] := by
  induction ds with
  | nil => exact fun r h => ⟨h, rfl⟩
  | cons d ds ih =>
    intro r h
    have hadded := (ih (r.add d) h).1
    cases hadded

/-- What is known of a program that may be executed: its tokens are genuine, its nodes have numbers
of their own, and it is resolved without a problem. -/
structure Prepared.Clean (program : Prepared) (tokens : List Token) (lo hi : Nat) : Prop where
  genuine : ∀ t ∈ tokens, t.Genuine
  proper : ProperBody (· ∈ tokens) program.stmts
  numbered : Numbered lo hi (bodyIds program.stmts)
  table : program.table = (Resolution.ofProgram program.stmts).table
  found : (Resolution.ofProgram program.stmts).found = []

/-- **A prepared program is clean.**  The machine is not touched, and the next number grows. -/
theorem Session.prepare_eq_some {s s₁ : Session} {source : String} {program : Prepared}
    {transcript : Transcript} (h : s.prepare source = (some program, s₁, transcript)) :
    program.Clean (scan source).tokens s.nextId s₁.nextId ∧ s₁.machine = s.machine ∧
      s.nextId ≤ s₁.nextId := by
  unfold Session.prepare at h
  simp only at h
  split at h
  · cases h
  · rename_i herror
    split at h
    · cases h
    · rename_i herror'
      cases h
      obtain ⟨_, hread⟩ := Report.addAll_hadError _ _ (Bool.eq_false_iff.2 herror)
      obtain ⟨_, hfound⟩ := Report.addAll_hadError _ _ (Bool.eq_false_iff.2 herror')
      obtain ⟨hle, hnumbered⟩ := read_numbered (scan source).tokens (scan source).stop s.nextId
      have hproper := (derives_of_read hread).proper rfl fun _ ht => ht
      exact ⟨⟨scan_genuine source, hproper, hnumbered, rfl, hfound⟩, rfl, hle⟩

/-- A source is prepared only if nothing is wrong with it, and no error is on record. -/
theorem Session.clean_of_prepare {s s₁ : Session} {source : String} {program : Prepared}
    {transcript : Transcript} (h : s.prepare source = (some program, s₁, transcript)) :
    s.report.hadError = false ∧ (scan source).found = [] ∧
      ∃ read, Program.read (scan source).tokens (scan source).stop s.nextId = read ∧
        read.found = [] ∧ (Resolution.ofProgram read.stmts).found = [] ∧
        program = ⟨read.stmts, (Resolution.ofProgram read.stmts).table⟩ := by
  unfold Session.prepare at h
  simp only at h
  split at h
  · cases h
  · rename_i herror
    split at h
    · cases h
    · rename_i herror'
      cases h
      obtain ⟨hscanned, hread⟩ := Report.addAll_hadError _ _ (Bool.eq_false_iff.2 herror)
      obtain ⟨hclear, hscan⟩ := Report.addAll_hadError _ _ hscanned
      obtain ⟨_, hfound⟩ := Report.addAll_hadError _ _ (Bool.eq_false_iff.2 herror')
      exact ⟨hclear, hscan, _, rfl, hread, hfound, rfl⟩

/-- Preparing a source does not touch the machine, whatever comes of it. -/
theorem Session.prepare_keeps (s : Session) (source : String) :
    (s.prepare source).2.1.machine = s.machine ∧ s.nextId ≤ (s.prepare source).2.1.nextId := by
  have hle := (read_numbered (scan source).tokens (scan source).stop s.nextId).1
  unfold Session.prepare
  simp only
  split
  · exact ⟨rfl, hle⟩
  · split
    · exact ⟨rfl, hle⟩
    · exact ⟨rfl, hle⟩

/-- What is written while a source without a problem is prepared. -/
def Session.preparing (s : Session) (tokens : List Token) (stmts : List Stmt) (table : Distances) :
    Transcript :=
  s.log ("scanned " ++ toString (tokens.length + 1) ++ " tokens") ++
    s.log ("parsed " ++ toString stmts.length ++ " statements") ++ s.treeLines stmts ++
    s.log ("resolved " ++ toString table.size ++ " local references")

/-- Unless trees are printed, only the sizes of a program show. -/
theorem Session.preparing_congr {s : Session} (hprint : s.settings.printTree = false)
    {tokens tokens' : List Token} {stmts stmts' : List Stmt}
    (htokens : tokens'.length = tokens.length) (hstmts : stmts'.length = stmts.length)
    (table : Distances) : s.preparing tokens' stmts' table = s.preparing tokens stmts table := by
  have hsilent : ∀ stmts, s.treeLines stmts = [] := by
    intro stmts
    unfold treeLines
    rw [hprint]
    rfl
  unfold preparing
  rw [htokens, hstmts, hsilent, hsilent]

/-- A source without a problem is prepared, unless errors are on record already. -/
theorem Session.prepare_of_clean {s : Session} {source : String} {program : Program}
    (hreport : s.report.hadError = false) (hscan : (scan source).found = [])
    (hread : Program.read (scan source).tokens (scan source).stop s.nextId = program)
    (hprogram : program.found = []) (hfound : (Resolution.ofProgram program.stmts).found = []) :
    s.prepare source = (some ⟨program.stmts, (Resolution.ofProgram program.stmts).table⟩,
      { s with nextId := program.nextId },
      s.preparing (scan source).tokens program.stmts (Resolution.ofProgram program.stmts).table) := by
  have hadd : ∀ r : Report, r.addAll [] = r := fun _ => rfl
  have hlength : (scan source).all.length = (scan source).tokens.length + 1 := by
    simp [Scanned.all]
  unfold Session.prepare Session.preparing
  simp only [hread, hscan, hprogram, hfound, hadd, hreport, hlength, diagnosticLines, log, treeLines,
    List.map_nil, List.nil_append, List.append_nil, Bool.false_eq_true, if_false]

/-- What a run leaves behind, by what comes out of the program. -/
def Session.conclude (s : Session) (transcript : Transcript) : Outcome Unit → Run
  | .done _ m => .ended (s.finish m none).1 (transcript ++ (s.finish m none).2)
  | .raised e m => .ended (s.finish m (some e)).1 (transcript ++ (s.finish m (some e)).2)
  | .fault reason _ => .fault reason
  | .exhausted => .exhausted

/-- A source for which there is no program is not executed. -/
theorem Session.run_of_unprepared {s s₁ : Session} {source : String} {transcript : Transcript}
    (h : s.prepare source = (none, s₁, transcript)) (n : Nat) :
    s.run n source = .ended s₁ transcript := by
  unfold Session.run
  rw [h]

theorem Session.run_of_prepare {s s₁ : Session} {source : String} {program : Prepared}
    {transcript : Transcript} (h : s.prepare source = (some program, s₁, transcript)) (n : Nat) :
    s.run n source = s₁.conclude transcript
      (executeProgram n program.stmts (s₁.machine.learn program.table)) := by
  unfold Session.run
  rw [h]
  simp only
  cases executeProgram n program.stmts (s₁.machine.learn program.table) <;> rfl

end LoxLang
