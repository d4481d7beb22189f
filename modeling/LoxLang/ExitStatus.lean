import LoxLang.Diagnostic

/-!
# Exit statuses

How a process that ran a program ends.
-/

namespace LoxLang

inductive ExitStatus where
  | ok
  /-- The command line could not be understood. -/
  | usage
  /-- The source has a static error. -/
  | dataError
  /-- The source could not be read. -/
  | noInput
  /-- The program ended with a runtime error. -/
  | software
  deriving DecidableEq, Repr

def ExitStatus.code : ExitStatus → Nat
  | .ok => 0
  | .usage => 64
  | .dataError => 65
  | .noInput => 66
  | .software => 70

/-- The status after a source was run; a static error counts more than a runtime error. -/
def Report.exitStatus (r : Report) : ExitStatus :=
  if r.hadError then .dataError else if r.hadRuntimeError then .software else .ok

end LoxLang
