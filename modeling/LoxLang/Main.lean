import LoxLang.Command
import Std.Time.DateTime.Timestamp

/-!
# The program

Files, streams and the clock around `Request`, `runScript` and the session.
-/

namespace LoxLang.Shell

/-- More nested steps than a process can live to see. -/
def allowance : Nat := Nat.pow 2 62

def usageText : String :=
  "usage: lox [-h] [--max-depth MAX_DEPTH] [--print-ast] [-v] [script]"

/-- The time in seconds since the start of the year 1970. -/
def currentTime : IO Float := do
  let time ← Std.Time.Timestamp.now
  return Float.ofInt time.toNanosecondsSinceUnixEpoch.val / 1000000000

/-- A clock that shows the time.  The run of a source is a function of its clock, so the clock that it
is given stands still until the next source is run. -/
def currentClock : IO Clock := do
  let time ← currentTime
  return fun _ => time

/-- Writes a transcript to the two streams of the process. -/
def write (transcript : Transcript) : IO Unit := do
  let out ← IO.getStdout
  let err ← IO.getStderr
  for written in transcript do
    match written.stream with
    | .out => out.putStr written.text
    | .err => err.putStr written.text
  out.flush

/-- Reads a file; the empty path is the current directory. -/
def readFile (path : String) : IO (Except ReadFailure ByteArray) := do
  try
    return .ok (← IO.FS.readBinFile (if path.isEmpty then "." else path))
  catch
    | .permissionDenied .. => return .error .forbidden
    | .invalidArgument .. => return .error .nameTooLong
    | .inappropriateType _ _ details =>
      let same := details.toLower == ReadFailure.notDirectory.reason.toLower
      return .error (if same then .notDirectory else .isDirectory)
    | _ => return .error .notFound

/-- Writes what a command wrote, and gives its exit code. -/
def finish : Ending → IO UInt32
  | .exit status transcript => do
    write transcript
    return status.code.toUInt32
  | .undecodable => do
    IO.eprintln "The script is not valid UTF-8."
    return 1
  | .limitRefused => do
    IO.eprintln "The limit on calls is too high."
    return 1
  | .fault _ => do
    IO.eprintln "The program was resolved inconsistently."
    return ExitStatus.software.code.toUInt32
  | .exhausted => do
    IO.eprintln "The allowance of steps is used up."
    return ExitStatus.software.code.toUInt32

/-- Asks for lines and runs them, up to the end of the input. -/
def interact (start : Session) : IO UInt32 := do
  let input ← IO.getStdin
  let mut session := start
  repeat
    write [⟨.out, Session.promptText⟩]
    let line ← input.getLine
    if line.isEmpty then
      write [⟨.out, "\n"⟩]
      return ExitStatus.ok.code.toUInt32
    session := session.setClock (← currentClock)
    match session.run allowance line with
    | .ended next transcript =>
      write transcript
      session := next.reset
    | .fault reason => return ← finish (.fault reason)
    | .exhausted => return ← finish .exhausted
  return ExitStatus.ok.code.toUInt32

/-- Runs a script, or the lines of the input if there is none. -/
def start (args : List String) : IO UInt32 := do
  match Request.ofArgs args with
  | .help => do
    IO.println usageText
    return ExitStatus.ok.code.toUInt32
  | .misuse => do
    IO.eprintln usageText
    return ExitStatus.usage.code.toUInt32
  | .start script settings => do
    match Session.start? settings (← currentClock), script with
    | none, _ => finish .limitRefused
    | some session, none => interact session
    | some session, some path => finish (runScript allowance session path (← readFile path))

end LoxLang.Shell

def main (args : List String) : IO UInt32 := LoxLang.Shell.start args
