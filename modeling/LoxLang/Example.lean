import LoxLang.ExitStatus
import LoxLang.Session
import LoxLang.Text.DecimalDigit

/-!
# Annotated examples

A source text can say in comments what it does:

    print 1 + 2; // expect: 3
    print x;     // expect runtime error: Undefined variable 'x'.
    var 1 = 2;   // Error at '1': Expect variable name.
    // [line 3] Error at end: Expect '}' after block.

`Example.ofSource` reads these expectations off, `Example.check` runs the source and compares.
-/

namespace LoxLang

/-- What one line of a source expects. -/
inductive Expectation where
  | output (text : String)
  | runtimeError (text : String)
  /-- A static error on a line that is given. -/
  | errorOn (line : String) (text : String)
  /-- A static error on the line of the comment. -/
  | errorHere (text : String)
  deriving DecidableEq, Repr

namespace Expectation

/-- The text after a word at its start. -/
def after? (word text : List Char) : Option (List Char) :=
  match word, text with
  | [], rest => some rest
  | w :: ws, c :: cs => if w = c then after? ws cs else none
  | _ :: _, [] => none

/-- What a reader gives at the leftmost place where it gives something. -/
def leftmost {α : Type} (reader : List Char → Option α) : List Char → Option α
  | [] => reader []
  | c :: cs => (reader (c :: cs)).or (leftmost reader cs)

def output? (cs : List Char) : Option Expectation :=
  (after? "// expect:".toList cs).map fun rest =>
    .output (String.ofList ((after? [' '] rest).getD rest))

def runtimeError? (cs : List Char) : Option Expectation :=
  match after? "// expect runtime error: ".toList cs with
  | none => none
  | some [] => none
  | some rest => some (.runtimeError (String.ofList rest))

/-- A text that tells of a static error. -/
def errorText? (cs : List Char) : Option String :=
  (after? "Error".toList cs).map fun _ => String.ofList cs

def errorOn? (cs : List Char) : Option Expectation := do
  let rest ← after? "// [line ".toList cs
  let digits := rest.takeWhile Text.isDecimalDigit
  if digits.isEmpty then none
  else
    let rest ← after? "] ".toList (rest.dropWhile Text.isDecimalDigit)
    let text ← errorText? rest
    return .errorOn (String.ofList digits) text

def errorHere? (cs : List Char) : Option Expectation := do
  let rest ← after? "// ".toList cs
  let text ← errorText? rest
  return .errorHere text

/-- The expectation of a line: of each kind the leftmost one is looked for, in this order. -/
def ofLine? (line : String) : Option Expectation :=
  let cs := line.toList
  (leftmost output? cs).or <| (leftmost runtimeError? cs).or <|
    (leftmost errorOn? cs).or (leftmost errorHere? cs)

end Expectation

/-- A source text and what it is expected to do. -/
structure Example where
  source : String
  outputs : List String
  errors : List String
  /-- The expected runtime error and its line. -/
  runtimeError : Option (String × Nat)

/-- Where an example fails. -/
inductive Mismatch where
  | output
  | errors
  | runtimeError
  | errorOutput
  deriving DecidableEq, Repr

def Mismatch.message : Mismatch → String
  | .output => "unexpected output"
  | .errors => "unexpected errors"
  | .runtimeError => "unexpected runtime error"
  | .errorOutput => "unexpected error output"

/-- The text of a mismatch in the example at a path, or in one without a path. -/
def Mismatch.report (path : Option String) (mismatch : Mismatch) : String :=
  path.getD "None" ++ ": " ++ mismatch.message

namespace Example

/-- Adds the expectation of a line.  Of several runtime errors the last counts. -/
def expect (e : Example) (line : Nat) : Expectation → Example
  | .output text => { e with outputs := e.outputs ++ [text] }
  | .runtimeError text => { e with runtimeError := some (text, line) }
  | .errorOn given text => { e with errors := e.errors ++ ["[line " ++ given ++ "] " ++ text] }
  | .errorHere text => { e with errors := e.errors ++ ["[line " ++ toString line ++ "] " ++ text] }

/-- The expectations of a source text, line by line. -/
def ofSource (source : String) : Example :=
  (Text.lines source).zipIdx.foldl
    (fun e (text, index) =>
      match Expectation.ofLine? text with
      | none => e
      | some expectation => e.expect (index + 1) expectation)
    ⟨source, [], [], none⟩

/-- The exit status that the expectations predict. -/
def exitStatus (e : Example) : ExitStatus :=
  if !e.errors.isEmpty then .dataError
  else if e.runtimeError.isSome then .software
  else .ok

/-- Runs the source in a session of its own. -/
def eval (n : Nat) (clock : Clock) (e : Example) : Run := (Session.start {} clock).run n e.source

/-- Compares what was written with the expectations. -/
def compare (e : Example) (transcript : Transcript) : Option Mismatch :=
  let written := transcript.on .err
  if Text.lines (transcript.on .out) ≠ e.outputs then some .output
  else if !e.errors.isEmpty then
    if Text.lines written ≠ e.errors then some .errors else none
  else
    match e.runtimeError with
    | some (text, line) =>
      if Text.lines written ≠ [text, "[line " ++ toString line ++ "]"] then some .runtimeError
      else none
    | none => if written ≠ "" then some .errorOutput else none

end Example

end LoxLang
