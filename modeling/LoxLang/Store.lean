import LoxLang.Bindings
import LoxLang.Number.Layout
import LoxLang.Text.Quoted
import LoxLang.Tree
import LoxLang.Value

/-!
# The store

Everything that values refer to: frames of variables, functions, classes and instances.  The
store only grows; what changes in place are the bindings of a frame and the fields of an instance.

* `get`, `set`, `define` — variables of one frame; `getAt`, `setAt` — of the frame some parent
  links up, which `climb` finds.
* `findMethod?` — a method of a class or of the nearest class above it.
* `bind` — a method with its receiver in a frame of its own.
* `text` — a value as it is printed.
-/

namespace LoxLang

/-- Variables, inside the frame `parent` if there is one. -/
structure Frame where
  bindings : Bindings Value
  parent : Option Nat
  deriving Inhabited

/-- A declared function with the frame that it was declared in. -/
structure Closure where
  decl : Function
  frame : Nat
  isInitializer : Bool

structure ClassInfo where
  name : String
  base : Option Nat
  /-- Method names with their closures. -/
  methods : Bindings Nat

structure Instance where
  classRef : Nat
  fields : Bindings Value

/-- What an instance has under a name. -/
inductive Property where
  | field (value : Value)
  | method (closure : Closure)

/-- The functions that are not written in the language. -/
inductive Native where
  | clock
  deriving DecidableEq, Repr

def Native.name : Native → String
  | .clock => "clock"

def Native.arity : Native → Nat
  | .clock => 0

structure Store where
  frames : Array Frame
  closures : Array Closure
  classes : Array ClassInfo
  instances : Array Instance
  natives : Array Native

/-- Why a variable cannot be read or changed. -/
inductive FrameError where
  | notFound (name : String)
  | notDeclared (name : String)
  /-- There are not as many parents as asked for. -/
  | offChain
  deriving DecidableEq, Repr

def FrameError.message : FrameError → String
  | .notFound name => "Variável '" ++ name ++ "' não encontrada"
  | .notDeclared name => "Variável '" ++ name ++ "' não foi declarada"
  | .offChain => "resolução inconsistente"

namespace Store

/-- One frame without variables and nothing else. -/
def empty : Store := ⟨#[⟨.empty, none⟩], #[], #[], #[], #[]⟩

/-- The outermost frame. -/
def globalFrame : Nat := 0

/-- Adds a native function. -/
def addNative (s : Store) (native : Native) : Value × Store :=
  (.native s.natives.size, { s with natives := s.natives.push native })

/-- The bindings of a frame. -/
def bindings (s : Store) (frame : Nat) : Bindings Value :=
  match s.frames[frame]? with
  | some f => f.bindings
  | none => .empty

def has (s : Store) (frame : Nat) (name : String) : Bool := (s.bindings frame).contains name

/-- Binds a name in a frame, new or not. -/
def define (s : Store) (frame : Nat) (name : String) (value : Value) : Store :=
  { s with frames := s.frames.modify frame fun f => { f with bindings := f.bindings.put name value } }

def get (s : Store) (frame : Nat) (name : String) : Except FrameError Value :=
  match (s.bindings frame).find? name with
  | some value => .ok value
  | none => .error (.notFound name)

/-- Changes a name that the frame binds already. -/
def set (s : Store) (frame : Nat) (name : String) (value : Value) : Except FrameError Store :=
  if s.has frame name then .ok (s.define frame name value) else .error (.notDeclared name)

/-- A new frame inside `parent`.  The bindings are its own: whoever makes a frame hands over bindings
that no other frame has. -/
def push (s : Store) (bindings : Bindings Value) (parent : Nat) : Nat × Store :=
  (s.frames.size, { s with frames := s.frames.push ⟨bindings, some parent⟩ })

def parent? (s : Store) (frame : Nat) : Option Nat := s.frames[frame]?.bind (·.parent)

/-- The frame `distance` parent links up. -/
def climb (s : Store) : Nat → Nat → Option Nat
  | 0, frame => some frame
  | distance + 1, frame => (s.parent? frame).bind (s.climb distance)

/-- The frame `distance` parent links up; no link is followed if the distance is not positive. -/
def ancestor (s : Store) (frame : Nat) (distance : Int) : Except FrameError Nat :=
  match s.climb distance.toNat frame with
  | some found => .ok found
  | none => .error .offChain

def getAt (s : Store) (frame : Nat) (distance : Int) (name : String) : Except FrameError Value :=
  match s.ancestor frame distance with
  | .ok found => s.get found name
  | .error e => .error e

def setAt (s : Store) (frame : Nat) (distance : Int) (name : String) (value : Value) :
    Except FrameError Store :=
  match s.ancestor frame distance with
  | .ok found => s.set found name value
  | .error e => .error e

/-- At most `limit` frames of the chain that starts at a frame. -/
def chainOf (s : Store) : Nat → Nat → List Nat
  | 0, _ => []
  | limit + 1, frame =>
    match s.parent? frame with
    | none => [frame]
    | some parent => frame :: s.chainOf limit parent

/-- A frame and its parents, innermost first.  A parent is older than its frame, so the number of
a frame bounds the length of its chain. -/
def chain (s : Store) (frame : Nat) : List Nat := s.chainOf (frame + 1) frame

/-- Adds a function. -/
def addClosure (s : Store) (closure : Closure) : Nat × Store :=
  (s.closures.size, { s with closures := s.closures.push closure })

/-- Adds a class. -/
def addClass (s : Store) (info : ClassInfo) : Nat × Store :=
  (s.classes.size, { s with classes := s.classes.push info })

/-- Adds an instance without fields. -/
def addInstance (s : Store) (classRef : Nat) : Nat × Store :=
  (s.instances.size, { s with instances := s.instances.push ⟨classRef, .empty⟩ })

def setField (s : Store) (ref : Nat) (name : String) (value : Value) : Store :=
  { s with instances := s.instances.modify ref fun i => { i with fields := i.fields.put name value } }

/-- A method among at most `limit` classes of a chain of bases. -/
def findMethodIn (s : Store) : Nat → Nat → String → Option Nat
  | 0, _, _ => none
  | limit + 1, ref, name =>
    match s.classes[ref]? with
    | none => none
    | some info =>
      match info.methods.find? name with
      | some method => some method
      | none =>
        match info.base with
        | none => none
        | some base => s.findMethodIn limit base name

/-- The method of the nearest class that declares it.  A base is older than its class, so the
number of a class bounds the length of its chain of bases. -/
def findMethod? (s : Store) (ref : Nat) (name : String) : Option Nat :=
  s.findMethodIn (ref + 1) ref name

/-- The closure of a method of a class or of its bases. -/
def method? (s : Store) (ref : Nat) (name : String) : Option Closure :=
  (s.findMethod? ref name).bind fun method => s.closures[method]?

def closureArity (s : Store) (ref : Nat) : Nat :=
  match s.closures[ref]? with
  | some closure => closure.decl.params.length
  | none => 0

/-- A class takes the arguments of its initializer. -/
def classArity (s : Store) (ref : Nat) : Nat :=
  match s.method? ref initializerName with
  | some init => init.decl.params.length
  | none => 0

/-- The count of arguments that a value takes, if it can be called at all. -/
def arity? (s : Store) : Value → Option Nat
  | .native ref => some ((s.natives[ref]?.map Native.arity).getD 0)
  | .function ref => some (s.closureArity ref)
  | .classValue ref => some (s.classArity ref)
  | _ => none

/-- A method together with its receiver: the same declaration inside a new frame that binds
`this`. -/
def bind (s : Store) (method : Closure) (receiver : Value) : Nat × Store :=
  let (frame, s) := s.push (Bindings.empty.put "this" receiver) method.frame
  s.addClosure { method with frame }

/-- A field of an instance, or else a method of its class that is still to be bound. -/
def property? (s : Store) (ref : Nat) (name : String) : Option Property :=
  match s.instances[ref]? with
  | none => none
  | some inst =>
    match inst.fields.find? name with
    | some value => some (.field value)
    | none => (s.method? inst.classRef name).map .method

def closureName (s : Store) (ref : Nat) : String :=
  match s.closures[ref]? with
  | some closure => closure.decl.name.lexeme
  | none => ""

def className (s : Store) (ref : Nat) : String :=
  match s.classes[ref]? with
  | some info => info.name
  | none => ""

/-- The name that a callable value was declared with. -/
def name? (s : Store) : Value → Option String
  | .native ref => s.natives[ref]?.map Native.name
  | .function ref => some (s.closureName ref)
  | .classValue ref => some (s.className ref)
  | _ => none

/-- A value as it is printed. -/
def text (s : Store) : Value → String
  | .nil => "nil"
  | .bool true => "true"
  | .bool false => "false"
  | .num x => Number.printed.write x
  | .str t => t
  | .native _ => "<native fn>"
  | .function ref => "<fn " ++ s.closureName ref ++ ">"
  | .classValue ref => s.className ref
  | .object ref =>
    match s.instances[ref]? with
    | some inst => s.className inst.classRef ++ " instance"
    | none => " instance"

/-- A number with blanks in front, two places wide at least. -/
def twoPlaces (n : Nat) : String :=
  let digits := toString n
  if digits.length < 2 then " " ++ digits else digits

/-- A frame on one line: its number, and its variables in the order of their names. -/
def frameText (s : Store) (index : Nat) (bindings : Bindings Value) : String :=
  let items := bindings.sorted.map fun (name, value) => name ++ " = " ++ s.text value
  let content := if bindings.isEmpty then "<empty>" else "; ".intercalate items
  twoPlaces index ++ ": " ++ content

/-- A frame and its parents, one line for each, numbered from the outermost. -/
def chainText (s : Store) (frame : Nat) : String :=
  let numbered := (s.chain frame).reverse.zipIdx.reverse
  "\n".intercalate (numbered.map fun (f, index) => s.frameText index (s.bindings f))

/-- The names of a frame in the order of their declaration. -/
def namesText (s : Store) (frame : Nat) : String :=
  "Ctx([" ++ ", ".intercalate ((s.bindings frame).names.map Text.quote) ++ "])"

/-- The store that programs start with: native functions in the global frame. -/
def initial : Store :=
  let (clock, s) := empty.addNative .clock
  s.define globalFrame Native.clock.name clock

end Store

end LoxLang
