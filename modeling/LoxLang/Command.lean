import LoxLang.ExitStatus
import LoxLang.Options
import LoxLang.Session

/-!
# The command line

    [script] [--max-depth N] [--print-ast] [-v | --verbose]

With a script the command runs it; without one it runs the lines of its input.  This module reads
the arguments and says what is written and how the command ends; it leaves files and streams to
its caller.
-/

namespace LoxLang

inductive Setting where
  | help
  | maxDepth
  | printTree
  | verbose
  deriving DecidableEq, Repr

def settingSpecs : List (OptionSpec Setting) :=
  [⟨.help, ["-h", "--help"], false⟩,
   ⟨.maxDepth, ["--max-depth"], true⟩,
   ⟨.printTree, ["--print-ast"], false⟩,
   ⟨.verbose, ["-v", "--verbose"], false⟩]

/-- What a command line asks for. -/
inductive Request where
  | help
  /-- The arguments make no sense. -/
  | misuse
  | start (script : Option String) (settings : Settings)

namespace Request

/-- Follows what the arguments ask for.  Help and broken values end it at once; a surplus argument
is found out at the end. -/
def follow (script : Option String) (settings : Settings) (surplus : Bool) :
    List (Options.Item Setting) → Request
  | [] => if surplus then .misuse else .start script settings
  | .flag .help :: _ => .help
  | .flag .printTree :: rest => follow script { settings with printTree := true } surplus rest
  | .flag .verbose :: rest => follow script { settings with verbose := true } surplus rest
  | .flag .maxDepth :: _ => .misuse
  | .value _ text :: rest =>
    match Text.wholeNumber? text.toList with
    | some n => follow script { settings with maxDepth := n } surplus rest
    | none => .misuse
  | .operand text :: rest => follow (some text) settings surplus rest
  | .surplus :: rest => follow script settings true rest
  | .broken :: _ => .misuse

def ofArgs (args : List String) : Request :=
  match Options.read settingSpecs args with
  | none => .misuse
  | some items => follow none {} false items

end Request

/-- Why a file cannot be read. -/
inductive ReadFailure where
  | notFound
  | isDirectory
  | notDirectory
  | nameTooLong
  | forbidden
  deriving DecidableEq, Repr

def ReadFailure.reason : ReadFailure → String
  | .notFound => "No such file or directory"
  | .isDirectory => "Is a directory"
  | .notDirectory => "Not a directory"
  | .nameTooLong => "File name too long"
  | .forbidden => "Permission denied"

/-- The text in a file: UTF-8, with every line break read as a line feed. -/
def decodeText (bytes : ByteArray) : Option String := (String.fromUTF8? bytes).map Text.unifyBreaks

/-- How a command ends. -/
inductive Ending where
  | exit (status : ExitStatus) (transcript : Transcript)
  /-- The script is not valid UTF-8. -/
  | undecodable
  /-- The limit on calls is not accepted, so that there is no session. -/
  | limitRefused
  | fault (reason : Fault)
  | exhausted

namespace Ending

/-- The ending of a command that ran something. -/
def ofRun (status : Session → ExitStatus) : Run → Ending
  | .ended session transcript => .exit (status session) transcript
  | .fault reason => .fault reason
  | .exhausted => .exhausted

end Ending

/-- Makes a session and goes on in it. -/
def withSession (settings : Settings) (clock : Clock) (body : Session → Ending) : Ending :=
  match Session.start? settings clock with
  | some session => body session
  | none => .limitRefused

/-- Runs a script whose file has this content. -/
def runScript (n : Nat) (session : Session) (path : String) :
    Except ReadFailure ByteArray → Ending
  | .error failure =>
    let text := "Could not read file '" ++ path ++ "': " ++ failure.reason
    .exit .noInput [.line .err text]
  | .ok bytes =>
    match decodeText bytes with
    | none => .undecodable
    | some source => .ofRun (fun s => s.report.exitStatus) (session.run n source)

/-- Runs the lines of an input. -/
def runPrompt (n : Nat) (session : Session) (input : String) : Ending :=
  .ofRun (fun _ => .ok) (session.prompt n input)

end LoxLang
