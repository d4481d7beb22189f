import Mathlib
import LoxLang.Proofs.Scope.Renaming
import LoxLang.Proofs.Session.History

/-!
# The names of local variables do not matter

A local variable or parameter may be given any name that the program does not use.  The program is
resolved in the same way and does the same: it writes the same, leaves the same global variables
and flags, and ends if and only if it did before.  Only the report of a missing variable, which names
it, tells the difference.

Principal result: `renaming_changes_nothing`.
-/

namespace LoxLang

/-! ## Sources -/

/-- What is read from a source on a new session. -/
def readNew (source : String) : Program := Program.read (scan source).tokens (scan source).stop 1

/-- A source without lexical, syntax or static errors. -/
structure Flawless (source : String) : Prop where
  scanned : (scan source).found = []
  read : (readNew source).found = []
  resolved : (Resolution.ofProgram (readNew source).stmts).found = []

/-- A variable that is declared in a scope, or a parameter. -/
structure Site.IsLocalVariable (binder : Site) (stmts : List Stmt) : Prop where
  mem : binder ∈ programSites stmts
  use : binder.use = .declare ∨ binder.use = .parameter
  scope : binder.around.constructs ≠ []

/-- A name that is not reserved and that a source does not use. -/
structure IsNewName (new source : String) : Prop where
  identifier : TokenKind.ofWord new = .identifier
  unused : ∀ t ∈ (scan source).tokens, t.lexeme ≠ new

/-- A source that differs from another in the name of one variable. -/
structure Renames (binder : Site) (new source source' : String) : Prop where
  scanned : (scan source').found = []
  kinds : SameKinds (scan source).tokens (scan source').tokens
  tree : (readNew source').stmts = renamed binder new (readNew source).stmts

/-! ## Runs -/

/-- The same is written, but the name of a missing variable may be new. -/
inductive SameWritten (old new : String) : Transcript → Transcript → Prop where
  | same (t : Transcript) : SameWritten old new t t
  | undefined (before after : Transcript) (line : Int) :
      SameWritten old new
        (before ++ .line .err (runtimeErrorText line (Cause.undefinedVariable old).message) :: after)
        (before ++ .line .err (runtimeErrorText line (Cause.undefinedVariable new).message) :: after)

/-- Both runs end with the same standard output, flags and global variables, or both do not end
with this allowance. -/
inductive SameRun (old new : String) : Run → Run → Prop where
  | ended {s s' : Session} {t t' : Transcript} :
      t'.on .out = t.on .out → SameWritten old new t t' →
      s'.report.hadError = s.report.hadError →
      s'.report.hadRuntimeError = s.report.hadRuntimeError → s'.globalsText = s.globalsText →
      SameRun old new (.ended s t) (.ended s' t')
  | exhausted : SameRun old new .exhausted .exhausted

theorem SameWritten.on_out {old new : String} {t t' : Transcript} (h : SameWritten old new t t') :
    t'.on .out = t.on .out := by
  cases h with
  | same => rfl
  | undefined before after line => simp [Transcript.on, Written.line]

theorem SameWritten.append {old new : String} {t t' : Transcript} (before after : Transcript)
    (h : SameWritten old new t t') :
    SameWritten old new (before ++ t ++ after) (before ++ t' ++ after) := by
  cases h with
  | same => exact .same _
  | undefined first last line =>
    have hundefined : SameWritten old new _ _ :=
      .undefined (before ++ first) (last ++ after) line
    simpa using hundefined

/-! ## A program and its respelling -/

/-- The runs of a program and of its respelling, which is filed in the same way. -/
def Spelling.pairing (σ : Spelling) (table : Distances) : Pairing where
  toSpelling := σ
  table := table
  table' := table
  Known _ := True
  Made _ _ := True
  Evaluated _ _ _ _ := True

/-- The machine of a new session that has learnt a program. -/
def Prepared.newMachine (program : Prepared) (settings : Settings) (clock : Clock) : Machine :=
  (Session.start settings clock).machine.learn program.table

/-- A clean program and its respelling agree on a new session. -/
theorem Prepared.Clean.respelled_agrees {program : Prepared} {tokens : List Token} {hi : Nat}
    (h : program.Clean tokens 1 hi) {σ : Spelling} (hσ : ∀ t ∈ tokens, σ.IsName t.lexeme)
    (hkeeps : σ.Keeps (programSites program.stmts)) (settings : Settings) (clock : Clock) (n : Nat) :
    Agrees (σ.pairing (program.newMachine settings clock).table) ⟨[none], .initial, .initial⟩
      Store.globalFrame (fun _ _ => True)
      (executeProgram n program.stmts (program.newMachine settings clock))
      (executeProgram n (σ.stmts .outermost program.stmts) (program.newMachine settings clock)) := by
  have hsuits : (σ.pairing (program.newMachine settings clock).table).Suits (· ∈ tokens) :=
    ⟨hσ, h.genuine⟩
  have hcovers : (σ.pairing (program.newMachine settings clock).table).Covers
      (programSites program.stmts) := by
    intro site hsite
    refine ⟨fun huse => ?_, hkeeps site hsite⟩
    have hfiled := (h.filed (.start settings clock) hsite huse).2
    exact ⟨trivial, hfiled, hfiled⟩
  have hat : Twins.At (σ.pairing (program.newMachine settings clock).table) [none]
      (program.newMachine settings clock) (program.newMachine settings clock) .outermost :=
    ⟨⟨heap_initial _, rfl, rfl, rfl, rfl, rfl, rfl, rfl⟩, .globals⟩
  exact executeProgram_agrees hat rfl (alike_program hsuits h.proper h.found hcovers)
    ⟨fun _ _ _ _ _ => trivial, fun _ _ _ _ _ _ _ => trivial⟩

/-! ## Runs that agree -/

namespace Session

theorem log_congr {s s' : Session} (h : s'.settings = s.settings) (text : String) :
    s'.log text = s.log text := by
  unfold log
  rw [h]

/-- What is written when a program has come to its end. -/
theorem finish_done (s : Session) (m : Machine) :
    (s.finish m none).2 = m.output.toList.map (Written.line .out) ++
      s.log ("global scope:\n" ++ m.store.chainText Store.globalFrame) := rfl

/-- What is written when a runtime error has ended a program. -/
theorem finish_raised (s : Session) (m : Machine) (e : RuntimeError) :
    (s.finish m (some e)).2 = m.output.toList.map (Written.line .out) ++
      (.line .err (runtimeErrorText e.token.line e.cause.message) ::
        s.log ("global scope:\n" ++ m.store.chainText Store.globalFrame)) := rfl

end Session

section Runs

variable {key : Nat} {old new : String} {hold : old ≠ "this" ∧ old ≠ "super"}
  {hnew : new ≠ "this" ∧ new ≠ "super"} {table : Distances}

/-- The reports of corresponding errors. -/
theorem SameError.written {e e' : RuntimeError}
    (h : SameError ((Spelling.inScope key old new hold hnew).pairing table) e e') :
    SameWritten old new [.line .err (runtimeErrorText e.token.line e.cause.message)]
      [.line .err (runtimeErrorText e'.token.line e'.cause.message)] := by
  cases h with
  | same _ hline =>
    rw [hline]
    exact .same _
  | @undefined site t' m hrefers _ _ _ =>
    have hspelled := hrefers.spelled.trans (Spelling.spellIn_inScope hold hnew _ _)
    rw [hrefers.line, hspelled]
    split
    · rename_i hrenamed
      rw [hrenamed.2]
      exact .undefined [] [] _
    · exact .same _

/-- Finishing runs that agree. -/
theorem Agrees.sameRun {s s' : Session} {t : Transcript} {W : World} {f : Nat}
    {o o' : Outcome Unit} (hsettings : s'.settings = s.settings) (hreport : s'.report = s.report)
    (h : Agrees ((Spelling.inScope key old new hold hnew).pairing table) W f (fun _ _ => True)
      o o') : SameRun old new (s.conclude t o) (s'.conclude t o') := by
  cases h with
  | @done L v m m' hsince _ =>
    have hglobals := hsince.twins.heap.chainText_eq
    have hwritten : (s'.finish m' none).2 = (s.finish m none).2 := by
      rw [Session.finish_done, Session.finish_done, Session.log_congr hsettings,
        hsince.twins.output, hglobals]
    have hsame : SameWritten old new (t ++ (s.finish m none).2) (t ++ (s'.finish m' none).2) := by
      rw [hwritten]
      exact .same _
    refine .ended hsame.on_out hsame ?_ ?_ hglobals
    · exact congrArg Report.hadError hreport
    · exact congrArg Report.hadRuntimeError hreport
  | @raised L e e' m m' hsince herror =>
    have hglobals := hsince.twins.heap.chainText_eq
    have hwritten : SameWritten old new (t ++ (s.finish m (some e)).2)
        (t ++ (s'.finish m' (some e')).2) := by
      have hline := herror.written.append (t ++ m.output.toList.map (Written.line .out))
        (s.log ("global scope:\n" ++ m.store.chainText Store.globalFrame))
      rw [Session.finish_raised, Session.finish_raised, Session.log_congr hsettings,
        hsince.twins.output, hglobals]
      simpa only [List.append_assoc, List.singleton_append] using hline
    refine .ended hwritten.on_out hwritten ?_ rfl hglobals
    show s'.report.hadError = s.report.hadError
    rw [hreport]
  | exhausted => exact .exhausted

end Runs

/-! ## Renaming -/

theorem Flawless.prepare {source : String} (h : Flawless source) (settings : Settings)
    (clock : Clock) : (Session.start settings clock).prepare source =
      (some ⟨(readNew source).stmts, (Resolution.ofProgram (readNew source).stmts).table⟩,
        { Session.start settings clock with nextId := (readNew source).nextId },
        (Session.start settings clock).preparing (scan source).tokens (readNew source).stmts
          (Resolution.ofProgram (readNew source).stmts).table) :=
  Session.prepare_of_clean rfl h.scanned rfl h.read h.resolved

theorem Naming.stmts_length (f : Naming) (ss : List Stmt) : (f.stmts ss).length = ss.length := by
  induction ss with
  | nil => rfl
  | cons s ss ih => exact congrArg Nat.succ ih

/-- A new name is no implicit variable. -/
theorem IsNewName.ne_implicit {new source : String} (h : IsNewName new source) :
    new ≠ "this" ∧ new ≠ "super" := by
  have hword := h.identifier
  constructor <;> rintro rfl <;> exact absurd hword (by decide)

/-- **The name of a local variable does not matter.**  A source that differs from one without errors
in the name of one local variable or parameter has no errors either, and every reference has the same
distance.  With every allowance, both sources do the same on new sessions. -/
theorem renaming_changes_nothing (settings : Settings) (hprint : settings.printTree = false)
    (clock : Clock) {binder : Site} {new source source' : String} (h : Flawless source)
    (hbinder : binder.IsLocalVariable (readNew source).stmts) (hnew : IsNewName new source)
    (hrenames : Renames binder new source source') :
    Flawless source' ∧
    (Resolution.ofProgram (readNew source').stmts).table =
      (Resolution.ofProgram (readNew source).stmts).table ∧
    ∀ n, SameRun binder.name.lexeme new ((Session.start settings clock).run n source)
      ((Session.start settings clock).run n source') := by
  have hprepare := h.prepare settings clock
  obtain ⟨hclean, _, _⟩ := Session.prepare_eq_some hprepare
  obtain ⟨key, hkey⟩ : ∃ key, scopeOf binder.around.constructs = some key := by
    cases hc : binder.around.constructs with
    | nil => exact absurd hc hbinder.scope
    | cons c cs => exact ⟨c.id, rfl⟩
  have hids := hclean.numbered.1
  have hdeclares : binder.use.isReference = false := by
    obtain h | h := hbinder.use <;> rw [h] <;> rfl
  have hname := (programSites_labelled hclean.proper).named binder hbinder.mem hdeclares
  have hold := (hclean.genuine _ hname.2).identifier hname.1
  have hsuits : (Spelling.inScope key binder.name.lexeme new hold hnew.ne_implicit).Suits
      (· ∈ (scan source).tokens) := ⟨hnew.unused, hclean.genuine⟩
  have hkeeps := renamed_keeps hold hnew.ne_implicit hids h.resolved hbinder.mem hbinder.use hkey
  have htree := hrenames.tree.trans (renamed_eq hold hnew.ne_implicit hclean.proper hids h.resolved
    hbinder.mem hbinder.use hkey)
  obtain ⟨htable, hresolved⟩ := Spelling.ofProgram_stmts hsuits hclean.proper h.resolved hkeeps
  rw [← htree] at htable hresolved
  have hread : (readNew source').found = [] := by
    obtain ⟨tree, hderives⟩ := derives_of_sameKinds (derives_of_read h.read) hrenames.kinds
    exact (read_of_derives hderives (scan source').stop 1).1
  have h' : Flawless source' := ⟨hrenames.scanned, hread, hresolved⟩
  refine ⟨h', htable, fun n => ?_⟩
  have hpreparing : (Session.start settings clock).preparing (scan source').tokens
        (readNew source').stmts (Resolution.ofProgram (readNew source').stmts).table =
      (Session.start settings clock).preparing (scan source).tokens (readNew source).stmts
        (Resolution.ofProgram (readNew source).stmts).table := by
    rw [htable]
    refine Session.preparing_congr hprint ?_ ?_ _
    · simpa using (congrArg List.length hrenames.kinds).symm
    · rw [hrenames.tree]
      exact Naming.stmts_length _ _
  have hagrees := hclean.respelled_agrees hnew.unused hkeeps settings clock n
  rw [Session.run_of_prepare hprepare, Session.run_of_prepare (h'.prepare settings clock), hpreparing,
    htable]
  rw [← htree] at hagrees
  exact Agrees.sameRun rfl rfl hagrees

/-! ### A variable in the shadow of another -/

def shadowing : String := "var a; \x7b var a = true; print a; \x7d"

def withoutShadow : String := "var a; \x7b var b = true; print b; \x7d"

/-- The inner variable. -/
def innerVariable : Site :=
  ⟨.declare, 3, ⟨.identifier, "a", .nil, 1⟩, ⟨[.block 6], [.empty], none⟩⟩

theorem innerVariable_isLocal : innerVariable.IsLocalVariable (readNew shadowing).stmts where
  mem := by
    have hsites : (programSites (readNew shadowing).stmts)[1]? = some innerVariable := by cbv
    exact List.mem_of_getElem? hsites
  use := .inl rfl
  scope := List.cons_ne_nil _ _

theorem renaming_changes_nothing_in_shadow :
    Flawless shadowing ∧ Flawless withoutShadow ∧
      ∀ n, SameRun "a" "b" ((Session.start {} 0).run n shadowing)
        ((Session.start {} 0).run n withoutShadow) := by
  have h : Flawless shadowing := ⟨by cbv, by cbv, by cbv⟩
  have hnew : IsNewName "b" shadowing := by
    refine ⟨by decide, fun t ht => ?_⟩
    have hlexemes : (scan shadowing).tokens.map Token.lexeme =
        ["var", "a", ";", "\x7b", "var", "a", "=", "true", ";", "print", "a", ";", "\x7d"] := by cbv
    rintro hb
    have hmem : t.lexeme ∈ (scan shadowing).tokens.map Token.lexeme := List.mem_map_of_mem ht
    rw [hb, hlexemes] at hmem
    exact absurd hmem (by decide)
  have hrenames : Renames innerVariable "b" shadowing withoutShadow :=
    ⟨by cbv, by unfold SameKinds; cbv, by cbv⟩
  obtain ⟨h', _, hruns⟩ := renaming_changes_nothing {} rfl 0 h innerVariable_isLocal hnew hrenames
  exact ⟨h, h', hruns⟩

end LoxLang
