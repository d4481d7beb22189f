import LoxLang.Command
import LoxLang.Options
import LoxLang.Schema.Classes

/-!
# The generator's command line

    [description] [-o OUTPUT | --output OUTPUT]

Writes the classes of a described schema, or of the standard one, to a file or to the standard
output.
-/

namespace LoxLang.Schema

inductive Choice where
  | help
  | output
  deriving DecidableEq, Repr

def choiceSpecs : List (OptionSpec Choice) :=
  [⟨.help, ["-h", "--help"], false⟩, ⟨.output, ["-o", "--output"], true⟩]

/-- What a command line of the generator asks for. -/
inductive Job where
  | help
  | misuse
  | generate (description : Option String) (output : Option String)
  deriving DecidableEq, Repr

/-- Follows what the arguments ask for. -/
def Job.follow (description output : Option String) (surplus : Bool) :
    List (Options.Item Choice) → Job
  | [] => if surplus then .misuse else .generate description output
  | .flag .help :: _ => .help
  | .flag .output :: _ => .misuse
  | .value _ text :: rest => follow description (some text) surplus rest
  | .operand text :: rest => follow (some text) output surplus rest
  | .surplus :: rest => follow description output true rest
  | .broken :: _ => .misuse

def Job.ofArgs (args : List String) : Job :=
  match Options.read choiceSpecs args with
  | none => .misuse
  | some items => follow none none false items

/-- Why nothing was generated. -/
inductive GenerateError where
  | unreadable (failure : ReadFailure)
  | undecodable
  | schema (e : SchemaError)
  deriving DecidableEq, Repr

/-- The classes of the schema in a file with this content. -/
def generateFrom (parse : Parser) : Except ReadFailure ByteArray → Except GenerateError String
  | .error failure => .error (.unreadable failure)
  | .ok bytes =>
    match decodeText bytes with
    | none => .error .undecodable
    | some text => (generate parse text).mapError .schema

end LoxLang.Schema
