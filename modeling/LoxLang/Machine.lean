import Std.Data.TreeMap
import LoxLang.Scope
import LoxLang.Store

/-!
# The machine

The state of a running program, and what comes out of running a part of it: a value, a runtime
error of the program, a fault that no resolved program can bring about, or nothing because the
allowance of steps was used up.
-/

namespace LoxLang

/-- What a clock shows, in seconds, each time that it is read from here on. -/
abbrev Clock := Nat → Float

/-- What a clock shows after its next reading. -/
def Clock.rest (c : Clock) : Clock := fun k => c (k + 1)

structure Machine where
  store : Store
  /-- The current frame. -/
  frame : Nat
  /-- The count of active calls. -/
  depth : Nat
  /-- As many calls may be active at the same time. -/
  maxDepth : Int
  /-- The distances of all local references of the programs so far. -/
  table : Distances
  /-- The lines printed so far. -/
  output : Array String
  clock : Clock

/-- What a program can do wrong while it runs. -/
inductive Cause where
  | operands (e : OperandError)
  | undefinedVariable (name : String)
  | undefinedProperty (name : String)
  | propertyOfNonInstance
  | fieldOfNonInstance
  | notCallable
  | wrongArity (expected got : Nat)
  | stackOverflow
  | superclassNotClass
  deriving DecidableEq, Repr

def Cause.message : Cause → String
  | .operands e => e.message
  | .undefinedVariable name => "Undefined variable '" ++ name ++ "'."
  | .undefinedProperty name => "Undefined property '" ++ name ++ "'."
  | .propertyOfNonInstance => "Only instances have properties."
  | .fieldOfNonInstance => "Only instances have fields."
  | .notCallable => "Can only call functions and classes."
  | .wrongArity expected got =>
    "Expected " ++ toString expected ++ " arguments but got " ++ toString got ++ "."
  | .stackOverflow => "Stack overflow."
  | .superclassNotClass => "Superclass must be a class."

/-- A runtime error with the token that is to blame. -/
structure RuntimeError where
  token : Token
  cause : Cause

/-- What cannot happen to a program that was resolved without an error. -/
inductive Fault where
  /-- A distance does not lead to a frame, or an implicit variable is missing there. -/
  | frame (e : FrameError)
  /-- A `super` without a distance. -/
  | unresolvedSuper
  /-- The variable `super` does not hold a class. -/
  | superNotClass
  | malformedStatement
  /-- A token that stands for no operation has the place of an operator. -/
  | unknownOperator
  /-- A reference to something that is not in the store. -/
  | danglingReference
  deriving DecidableEq, Repr

inductive Outcome (α : Type) where
  | done (value : α) (m : Machine)
  | raised (error : RuntimeError) (m : Machine)
  | fault (reason : Fault) (m : Machine)
  | exhausted

namespace Outcome

variable {α β : Type}

/-- Goes on after a value. -/
@[inline] def bind (o : Outcome α) (f : α → Machine → Outcome β) : Outcome β :=
  match o with
  | done value m => f value m
  | raised error m => raised error m
  | fault reason m => fault reason m
  | exhausted => exhausted

/-- Changes the machine in the end, whatever the outcome is. -/
@[inline] def ending (o : Outcome α) (f : Machine → Machine) : Outcome α :=
  match o with
  | done value m => done value (f m)
  | raised error m => raised error (f m)
  | fault reason m => fault reason (f m)
  | exhausted => exhausted

@[simp] theorem bind_done (value : α) (m : Machine) (f : α → Machine → Outcome β) :
    (done value m).bind f = f value m := rfl

@[simp] theorem bind_raised (error : RuntimeError) (m : Machine) (f : α → Machine → Outcome β) :
    (raised error m : Outcome α).bind f = raised error m := rfl

@[simp] theorem bind_fault (reason : Fault) (m : Machine) (f : α → Machine → Outcome β) :
    (fault reason m : Outcome α).bind f = fault reason m := rfl

@[simp] theorem bind_exhausted (f : α → Machine → Outcome β) :
    (exhausted : Outcome α).bind f = exhausted := rfl

@[simp] theorem ending_done (value : α) (m : Machine) (f : Machine → Machine) :
    (done value m).ending f = done value (f m) := rfl

@[simp] theorem ending_raised (error : RuntimeError) (m : Machine) (f : Machine → Machine) :
    (raised error m : Outcome α).ending f = raised error (f m) := rfl

@[simp] theorem ending_fault (reason : Fault) (m : Machine) (f : Machine → Machine) :
    (fault reason m : Outcome α).ending f = fault reason (f m) := rfl

@[simp] theorem ending_exhausted (f : Machine → Machine) :
    (exhausted : Outcome α).ending f = exhausted := rfl

end Outcome

namespace Machine

/-- The machine before its first program. -/
def initial (maxDepth : Int) (clock : Clock) : Machine where
  store := .initial
  frame := Store.globalFrame
  depth := 0
  maxDepth := maxDepth
  table := ∅
  output := #[]
  clock := clock

def raise {α : Type} (m : Machine) (token : Token) (cause : Cause) : Outcome α :=
  .raised ⟨token, cause⟩ m

/-- Binds a name in the current frame. -/
def define (m : Machine) (name : String) (value : Value) : Machine :=
  { m with store := m.store.define m.frame name value }

/-- Adds the distances of another program. -/
def learn (m : Machine) (table : Distances) : Machine :=
  { m with table := m.table.insertMany table }

/-- Prints a value on a line. -/
def print (m : Machine) (value : Value) : Machine :=
  { m with output := m.output.push (m.store.text value) }

/-- Has the clock read once. -/
def tick (m : Machine) : Machine := { m with clock := m.clock.rest }

/-- The value of the variable that a node refers to: a local one at its distance, or a global. -/
def lookup (m : Machine) (id : Nat) (name : Token) : Outcome Value :=
  match m.table[id]? with
  | some distance =>
    match m.store.getAt m.frame distance name.lexeme with
    | .ok value => .done value m
    | .error .offChain => .fault (.frame .offChain) m
    | .error _ => m.raise name (.undefinedVariable name.lexeme)
  | none =>
    match m.store.get Store.globalFrame name.lexeme with
    | .ok value => .done value m
    | .error _ => m.raise name (.undefinedVariable name.lexeme)

/-- Changes a variable of one frame. -/
def assignIn (m : Machine) (frame : Nat) (name : Token) (value : Value) : Outcome Value :=
  if m.store.has frame name.lexeme then
    .done value { m with store := m.store.define frame name.lexeme value }
  else m.raise name (.undefinedVariable name.lexeme)

/-- Changes the variable that a node refers to. -/
def assign (m : Machine) (id : Nat) (name : Token) (value : Value) : Outcome Value :=
  match m.table[id]? with
  | some distance =>
    match m.store.ancestor m.frame distance with
    | .error e => .fault (.frame e) m
    | .ok frame => m.assignIn frame name value
  | none => m.assignIn Store.globalFrame name value

end Machine

end LoxLang
