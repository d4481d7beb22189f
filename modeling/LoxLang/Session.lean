import LoxLang.Eval
import LoxLang.Grammar.Statement
import LoxLang.Text.Lines
import LoxLang.Tree.Print

/-!
# Sessions

A session runs source texts one after the other on one machine, so that later ones see the global
variables of earlier ones.

* `Session.prepare` scans, parses and resolves a source.  It gives a program only if no static
  error is on record, and it never touches the machine.
* `Session.run` prepares a source and executes its program.
* `Session.prompt` runs the lines of an input, with a fresh report for each.

What is written goes into a `Transcript`, which keeps the order over both streams.
-/

namespace LoxLang

inductive Stream where
  | out
  | err
  deriving DecidableEq, Repr

/-- A text written to a stream. -/
structure Written where
  stream : Stream
  text : String
  deriving DecidableEq, Repr

/-- Everything written, in order. -/
abbrev Transcript := List Written

/-- Everything written to one stream. -/
def Transcript.on (t : Transcript) (stream : Stream) : String :=
  String.join ((t.filter fun w => w.stream == stream).map (·.text))

/-- A line on a stream. -/
def Written.line (stream : Stream) (text : String) : Written := ⟨stream, text ++ "\n"⟩

structure Settings where
  /-- As many calls may be active at the same time. -/
  maxDepth : Int := 200
  /-- Whether the tree of each statement is printed before it is executed. -/
  printTree : Bool := false
  /-- Whether each stage is logged. -/
  verbose : Bool := false

/-- The largest limit that the host sets on its own recursion. -/
def hostLimit : Int := 2147483647

/-- The limits on calls that the host has room for.  For each call that may be active, a session asks
for 50 nested calls of the host, and the host refuses what is beyond its own largest limit. -/
def Settings.Accepted (s : Settings) : Prop := 50 * s.maxDepth ≤ hostLimit

instance (s : Settings) : Decidable s.Accepted := inferInstanceAs (Decidable (_ ≤ _))

structure Session where
  settings : Settings
  machine : Machine
  report : Report
  nextId : Nat

/-- What a run leaves behind.  A fault cannot happen, and a run that is exhausted would have ended
with a larger allowance or never. -/
inductive Run where
  | ended (session : Session) (transcript : Transcript)
  | fault (reason : Fault)
  | exhausted

/-- A program that may be executed, with the distances of its local references. -/
structure Prepared where
  stmts : List Stmt
  table : Distances

namespace Session

/-- A session before its first source.  Whether there is one with these settings is for `start?` to
say. -/
def start (settings : Settings) (clock : Clock) : Session where
  settings := settings
  machine := .initial settings.maxDepth clock
  report := {}
  nextId := 1

/-- A session before its first source, if its limit on calls is accepted. -/
def start? (settings : Settings) (clock : Clock) : Option Session :=
  if settings.Accepted then some (start settings clock) else none

/-- A line of the log. -/
def log (s : Session) (text : String) : Transcript :=
  if s.settings.verbose then [.line .err ("DEBUG lox.driver: " ++ text)] else []

/-- Diagnostics as they are written. -/
def diagnosticLines (ds : List Diagnostic) : Transcript := ds.map fun d => .line .err d.render

/-- The trees of statements, if they are to be printed. -/
def treeLines (s : Session) (stmts : List Stmt) : Transcript :=
  if s.settings.printTree then stmts.map fun stmt => .line .out stmt.render else []

/-- Scans, parses and resolves a source.  Resolution starts only if no static error is on record,
and the result is a program only if none is on record after it. -/
def prepare (s : Session) (source : String) : Option Prepared × Session × Transcript :=
  let scanned := scan source
  let program := Program.read scanned.tokens scanned.stop s.nextId
  let s := { s with
    report := (s.report.addAll scanned.found).addAll program.found
    nextId := program.nextId }
  let parsing :=
    diagnosticLines scanned.found ++
    s.log ("scanned " ++ toString scanned.all.length ++ " tokens") ++
    diagnosticLines program.found ++
    s.log ("parsed " ++ toString program.stmts.length ++ " statements") ++
    s.treeLines program.stmts
  if s.report.hadError then (none, s, parsing)
  else
    let resolution := Resolution.ofProgram program.stmts
    let s := { s with report := s.report.addAll resolution.found }
    let transcript := parsing ++ diagnosticLines resolution.found ++
      s.log ("resolved " ++ toString resolution.table.size ++ " local references")
    if s.report.hadError then (none, s, transcript)
    else (some ⟨program.stmts, resolution.table⟩, s, transcript)

/-- The text of the global variables. -/
def globalsText (s : Session) : String := s.machine.store.chainText Store.globalFrame

/-- Takes the machine back after an execution: the lines it printed, the runtime error that ended
it, and the log. -/
def finish (s : Session) (m : Machine) (error : Option RuntimeError) : Session × Transcript :=
  let printed := m.output.toList.map (Written.line .out)
  let machine := { m with output := #[] }
  match error with
  | none =>
    let s := { s with machine }
    (s, printed ++ s.log ("global scope:\n" ++ s.globalsText))
  | some e =>
    let s := { s with machine, report := s.report.runtimeError e.token.line e.cause.message }
    let text := runtimeErrorText e.token.line e.cause.message
    (s, printed ++ .line .err text :: s.log ("global scope:\n" ++ s.globalsText))

/-- Runs a source, with an allowance of `n` nested steps. -/
def run (n : Nat) (s : Session) (source : String) : Run :=
  match s.prepare source with
  | (none, s, transcript) => .ended s transcript
  | (some program, s, transcript) =>
    match executeProgram n program.stmts (s.machine.learn program.table) with
    | .done _ m =>
      let (s, rest) := s.finish m none
      .ended s (transcript ++ rest)
    | .raised e m =>
      let (s, rest) := s.finish m (some e)
      .ended s (transcript ++ rest)
    | .fault reason _ => .fault reason
    | .exhausted => .exhausted

/-- Forgets the errors so far. -/
def reset (s : Session) : Session := { s with report := s.report.reset }

/-- Goes on with another clock. -/
def setClock (s : Session) (clock : Clock) : Session :=
  { s with machine := { s.machine with clock } }

/-- What asks for a line. -/
def promptText : String := "> "

/-- Asks for a line and runs it. -/
def promptLine (n : Nat) (s : Session) (line : String) : Run :=
  match s.run n line with
  | .ended s transcript => .ended s.reset (⟨.out, promptText⟩ :: transcript)
  | other => other

/-- Runs lines one after the other, up to the end of the input. -/
def promptLines (n : Nat) : List String → Session → Run
  | [], s => .ended s [⟨.out, promptText⟩, ⟨.out, "\n"⟩]
  | line :: rest, s =>
    match s.promptLine n line with
    | .ended s transcript =>
      match promptLines n rest s with
      | .ended s more => .ended s (transcript ++ more)
      | other => other
    | other => other

/-- Runs the lines of an input.  A line ends with its line feed. -/
def prompt (n : Nat) (s : Session) (input : String) : Run := promptLines n (Text.feedLines input) s

end Session

end LoxLang
