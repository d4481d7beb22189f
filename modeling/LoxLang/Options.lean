import LoxLang.Text.DecimalDigit

/-!
# Options on a command line

`Options.read` takes the arguments of a command apart, for a command with at most one operand.

* An argument that starts with a hyphen is an option, unless it is a hyphen alone, a negative
  number, or an unknown option with a blank in it.
* Long options may be shortened as long as they stay unambiguous; their value follows an equals
  sign or is the next argument.
* Short options may be joined behind one hyphen; the value of the last one may follow directly,
  follow an equals sign, or be the next argument.
* Two hyphens end the options.
-/

namespace LoxLang

/-- An option with its spellings, such as `-v` and `--verbose`. -/
structure OptionSpec (κ : Type) where
  key : κ
  names : List String
  takesValue : Bool

namespace Options

variable {κ : Type}

/-- What an argument looks like before its neighbours are known. -/
inductive Shape (κ : Type) where
  | operand (text : String)
  | separator
  /-- A short option, with the characters that follow its letter. -/
  | short (spec : OptionSpec κ) (rest : List Char)
  /-- A long option, with the value that follows an equals sign. -/
  | long (spec : OptionSpec κ) (value : Option String)
  | unknown

/-- What the command line asks for, in order. -/
inductive Item (κ : Type) where
  | flag (key : κ)
  | value (key : κ) (text : String)
  | operand (text : String)
  /-- An argument that there is no use for. -/
  | surplus
  /-- A value that is missing or not allowed.  Nothing after it counts. -/
  | broken

/-- All options by their names. -/
def byName (specs : List (OptionSpec κ)) : List (String × OptionSpec κ) :=
  specs.flatMap fun spec => spec.names.map fun name => (name, spec)

def isLong (text : List Char) : Bool := text.take 2 == ['-', '-']

/-- The text before the first equals sign, and the text after it if there is one. -/
def splitEquals (text : List Char) : List Char × Option String :=
  match text.dropWhile (· != '=') with
  | [] => (text, none)
  | _ :: value => (text.takeWhile (· != '='), some (String.ofList value))

/-- A text without the line feed that ends it, if one does. -/
def withoutLineEnd (text : List Char) : List Char :=
  if text.getLast? = some '\n' then text.dropLast else text

/-- A hyphen and digits, or a hyphen and a decimal fraction; one line feed may follow. -/
def isNegativeNumber (text : List Char) : Bool :=
  match withoutLineEnd text with
  | '-' :: rest =>
    match rest.dropWhile Text.isDecimalDigit with
    | [] => !rest.isEmpty
    | '.' :: places => !places.isEmpty && places.all Text.isDecimalDigit
    | _ => false
  | _ => false

/-- The options whose name starts like this. -/
def startingWith (specs : List (OptionSpec κ)) (stem : List Char) : List (OptionSpec κ) :=
  ((byName specs).filter fun (name, _) => stem.isPrefixOf name.toList).map Prod.snd

/-- The shape of an argument with two hyphens; none if it is short for several options. -/
def longShape? (specs : List (OptionSpec κ)) (arg : String) : Option (Shape κ) :=
  let (stem, value) := splitEquals arg.toList
  match (byName specs).lookup (String.ofList stem) with
  | some spec => some (.long spec value)
  | none =>
    match startingWith specs stem with
    | [spec] => some (.long spec value)
    | _ :: _ :: _ => none
    | [] => if arg.toList.contains ' ' then some (.operand arg) else some .unknown

/-- The shape of an argument with one hyphen. -/
def shortShape (specs : List (OptionSpec κ)) (arg : String) : Shape κ :=
  let text := arg.toList
  match (byName specs).lookup (String.ofList (text.take 2)) with
  | some spec => .short spec (text.drop 2)
  | none =>
    if text.length = 1 || isNegativeNumber text || text.contains ' ' then .operand arg else .unknown

/-- The shape of an argument; none if it is short for several options. -/
def shape? (specs : List (OptionSpec κ)) (arg : String) : Option (Shape κ) :=
  if arg.toList.head? ≠ some '-' then some (.operand arg)
  else if isLong arg.toList then longShape? specs arg
  else some (shortShape specs arg)

/-- The shapes of all arguments; after two hyphens every argument is an operand. -/
def shapes? (specs : List (OptionSpec κ)) : List String → Option (List (Shape κ))
  | [] => some []
  | arg :: rest =>
    if arg = "--" then some (.separator :: rest.map .operand)
    else do
      let first ← shape? specs arg
      let others ← shapes? specs rest
      return first :: others

/-- The options of one argument: flags, and how they end. -/
inductive Cluster (κ : Type) where
  /-- Nothing is left open. -/
  | complete (items : List (Item κ))
  /-- The value of the last option is the next argument. -/
  | waiting (items : List (Item κ)) (key : κ)

def Cluster.withFlag (key : κ) : Cluster κ → Cluster κ
  | complete items => complete (.flag key :: items)
  | waiting items last => waiting (.flag key :: items) last

/-- An option with nothing behind it. -/
def Cluster.bare (spec : OptionSpec κ) : Cluster κ :=
  if spec.takesValue then .waiting [] spec.key else .complete [.flag spec.key]

/-- A short option and the characters behind it: its value, or further short options.  None if a
flag is given a value. -/
def shortCluster? (specs : List (OptionSpec κ)) (spec : OptionSpec κ) :
    List Char → Option (Cluster κ)
  | [] => some (.bare spec)
  | '=' :: text =>
    if spec.takesValue then some (.complete [.value spec.key (String.ofList text)]) else none
  | c :: rest =>
    if spec.takesValue then some (.complete [.value spec.key (String.ofList (c :: rest))])
    else if c = '-' then none
    else
      match (byName specs).lookup (String.ofList ['-', c]) with
      | none => some (.complete [.flag spec.key, .surplus])
      | some next => (shortCluster? specs next rest).map (.withFlag spec.key)

/-- A long option and its value.  None if a flag is given a value. -/
def longCluster? (spec : OptionSpec κ) : Option String → Option (Cluster κ)
  | none => some (.bare spec)
  | some text => if spec.takesValue then some (.complete [.value spec.key text]) else none

/-- The options of an argument, if it holds options that fit together. -/
def Shape.cluster? (specs : List (OptionSpec κ)) : Shape κ → Option (Cluster κ)
  | .short spec rest => shortCluster? specs spec rest
  | .long spec value => longCluster? spec value
  | .unknown => some (.complete [.surplus])
  | .operand _ => none
  | .separator => none

/-- Goes through the shapes.  The operand may stand anywhere, together with the separator next to
it; whatever comes when `taken` is set is surplus. -/
def items (specs : List (OptionSpec κ)) (taken : Bool) : List (Shape κ) → List (Item κ)
  | [] => []
  | .operand text :: .separator :: rest =>
    if taken then .surplus :: .surplus :: items specs true rest
    else .operand text :: items specs true rest
  | .operand text :: rest =>
    if taken then .surplus :: items specs true rest else .operand text :: items specs true rest
  | .separator :: .operand text :: rest =>
    if taken then .surplus :: .surplus :: items specs true rest
    else .operand text :: items specs true rest
  | .separator :: rest => if taken then .surplus :: items specs true rest else items specs true rest
  | option :: .operand text :: rest =>
    match option.cluster? specs with
    | none => [.broken]
    | some (.complete found) => found ++ items specs taken (.operand text :: rest)
    | some (.waiting found key) => found ++ .value key text :: items specs taken rest
  | option :: rest =>
    match option.cluster? specs with
    | none => [.broken]
    | some (.complete found) => found ++ items specs taken rest
    | some (.waiting _ _) => [.broken]

/-- What the arguments ask for; none if an option is ambiguous. -/
def read (specs : List (OptionSpec κ)) (args : List String) : Option (List (Item κ)) :=
  (shapes? specs args).map (items specs false)

end Options

end LoxLang
