import LoxLang.Tree

/-!
# Values and operators

A value is nil, a boolean, a number, a string, or a reference to something in the store.  An
operator either gives a value or refuses its operands.
-/

namespace LoxLang

inductive Value where
  | nil
  | bool (b : Bool)
  | num (x : Float)
  | str (s : String)
  | native (ref : Nat)
  | function (ref : Nat)
  | classValue (ref : Nat)
  | object (ref : Nat)
  deriving Inhabited

/-- Why an operator refuses its operands. -/
inductive OperandError where
  | needsNumber
  | needsNumbers
  | needsNumbersOrStrings
  deriving DecidableEq, Repr

def OperandError.message : OperandError → String
  | .needsNumber => "Operand must be a number."
  | .needsNumbers => "Operands must be numbers."
  | .needsNumbersOrStrings => "Operands must be two numbers or two strings."

def Literal.value : Literal → Value
  | .nil => .nil
  | .bool b => .bool b
  | .num x => .num x
  | .str s => .str s

namespace Value

/-- All values count as true, except nil and false. -/
def truthy : Value → Bool
  | nil => false
  | bool b => b
  | _ => true

def isNumber : Value → Bool
  | num _ => true
  | _ => false

/-- Equality in the language: values of different kinds differ, references are compared by what
they refer to, and the undefined number differs from itself. -/
def equals : Value → Value → Bool
  | nil, nil => true
  | bool a, bool b => a == b
  | num a, num b => a == b
  | str a, str b => a == b
  | native a, native b => a == b
  | function a, function b => a == b
  | classValue a, classValue b => a == b
  | object a, object b => a == b
  | _, _ => false

/-- An operation on two numbers. -/
def numeric (f : Float → Float → Value) : Value → Value → Except OperandError Value
  | num a, num b => .ok (f a b)
  | _, _ => .error .needsNumbers

/-- Adds numbers and joins strings. -/
def add : Value → Value → Except OperandError Value
  | num a, num b => .ok (num (a + b))
  | str a, str b => .ok (str (a ++ b))
  | _, _ => .error .needsNumbersOrStrings

def negate : Value → Except OperandError Value
  | num a => .ok (num (-a))
  | _ => .error .needsNumber

def not (v : Value) : Value := bool (!v.truthy)

end Value

/-! ## Operators -/

inductive UnaryOp where
  | negate
  | not
  deriving DecidableEq, Repr

inductive BinaryOp where
  | add | sub | mul | div
  | gt | ge | lt | le
  | eq | ne
  deriving DecidableEq, Repr

/-- What an operator in front of an operand stands for, by the class of its token. -/
def unaryOp? : TokenKind → Option UnaryOp
  | .minus => some .negate
  | .bang => some .not
  | _ => none

/-- What an operator between two operands stands for, by the class of its token. -/
def binaryOp? : TokenKind → Option BinaryOp
  | .plus => some .add
  | .minus => some .sub
  | .star => some .mul
  | .slash => some .div
  | .greater => some .gt
  | .greaterEqual => some .ge
  | .less => some .lt
  | .lessEqual => some .le
  | .equalEqual => some .eq
  | .bangEqual => some .ne
  | _ => none

def UnaryOp.apply : UnaryOp → Value → Except OperandError Value
  | .negate, v => v.negate
  | .not, v => .ok v.not

def BinaryOp.apply : BinaryOp → Value → Value → Except OperandError Value
  | .add, a, b => a.add b
  | .sub, a, b => Value.numeric (fun x y => .num (x - y)) a b
  | .mul, a, b => Value.numeric (fun x y => .num (x * y)) a b
  | .div, a, b => Value.numeric (fun x y => .num (x / y)) a b
  | .gt, a, b => Value.numeric (fun x y => .bool (x > y)) a b
  | .ge, a, b => Value.numeric (fun x y => .bool (x ≥ y)) a b
  | .lt, a, b => Value.numeric (fun x y => .bool (x < y)) a b
  | .le, a, b => Value.numeric (fun x y => .bool (x ≤ y)) a b
  | .eq, a, b => .ok (.bool (a.equals b))
  | .ne, a, b => .ok (.bool (!a.equals b))

/-- What an operator makes of the operand behind it, if it stands for an operation. -/
def Token.applyUnary? (operator : Token) (operand : Value) : Option (Except OperandError Value) :=
  (unaryOp? operator.kind).map fun op => op.apply operand

/-- What an operator makes of the operands around it, if it stands for an operation. -/
def Token.applyBinary? (operator : Token) (left right : Value) :
    Option (Except OperandError Value) :=
  (binaryOp? operator.kind).map fun op => op.apply left right

/-- Whether a logical operator needs no right operand: `or` has what counts as true on its left, or
another one what counts as false. -/
def Token.settles (operator : Token) (left : Value) : Bool :=
  if operator.kind = .kwOr then left.truthy else !left.truthy

end LoxLang
