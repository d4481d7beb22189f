import LoxLang.Diagnostic
import LoxLang.Tree

/-!
# Reading tokens

A `Cursor` is a place in a token list together with what reading has produced so far besides
trees: the problems found and the next free node number.  Reading a rule of the grammar gives a
`Reply`: a value and the cursor after it, or a failure whose problem is on record already.  The
end of the input is never passed.
-/

namespace LoxLang

structure Cursor where
  /-- The tokens that are still to be read. -/
  rest : List Token
  /-- Stands for the end of the input. -/
  stop : Token
  nextId : Nat
  found : List Diagnostic

inductive Reply (α : Type) where
  | ok (value : α) (rest : Cursor)
  | failed (rest : Cursor)
  /-- The allowance of nested rules was used up. -/
  | exhausted

namespace Reply

variable {α β : Type}

/-- Goes on after a success. -/
@[inline] def bind (r : Reply α) (f : α → Cursor → Reply β) : Reply β :=
  match r with
  | ok value rest => f value rest
  | failed rest => failed rest
  | exhausted => exhausted

@[simp] theorem bind_ok (value : α) (rest : Cursor) (f : α → Cursor → Reply β) :
    (ok value rest).bind f = f value rest := rfl

@[simp] theorem bind_failed (rest : Cursor) (f : α → Cursor → Reply β) :
    (failed rest : Reply α).bind f = failed rest := rfl

@[simp] theorem bind_exhausted (f : α → Cursor → Reply β) :
    (exhausted : Reply α).bind f = exhausted := rfl

end Reply

namespace Cursor

/-- The token to be read next. -/
def peek (c : Cursor) : Token :=
  match c.rest with
  | [] => c.stop
  | t :: _ => t

def atEnd (c : Cursor) : Bool := c.rest.isEmpty

/-- Whether the next token is of this class. -/
def check (c : Cursor) (kind : TokenKind) : Bool :=
  match c.rest with
  | [] => false
  | t :: _ => t.kind == kind

/-- Reads the next token if it is of this class. -/
def accept? (c : Cursor) (kind : TokenKind) : Option (Token × Cursor) :=
  match c.rest with
  | [] => none
  | t :: rest => if t.kind = kind then some (t, { c with rest }) else none

/-- Records a problem at the next token. -/
def note (c : Cursor) (problem : Problem) : Cursor :=
  { c with found := c.found ++ [.ofToken c.peek problem] }

/-- Records a problem at a token that was read before. -/
def noteAt (c : Cursor) (token : Token) (problem : Problem) : Cursor :=
  { c with found := c.found ++ [.ofToken token problem] }

/-- Fails because something else was expected here. -/
def missing {α : Type} (c : Cursor) (what : Expected) : Reply α := .failed (c.note (.expected what))

/-- Reads a token of this class. -/
def expect (c : Cursor) (kind : TokenKind) (what : Expected) : Reply Token :=
  match c.accept? kind with
  | some (t, c) => .ok t c
  | none => c.missing what

/-- Makes a node with the next free number. -/
def node {α : Type} (c : Cursor) (make : Nat → α) : Reply α :=
  .ok (make c.nextId) { c with nextId := c.nextId + 1 }

/-- The tokens that start a declaration or a statement with a keyword. -/
def startsStatement : TokenKind → Bool
  | .kwClass | .kwFun | .kwVar | .kwFor | .kwIf | .kwWhile | .kwPrint | .kwReturn => true
  | _ => false

/-- What is left after the rest of a broken statement has been skipped, `last` being the token
skipped last: reading goes on after a semicolon or at a token that starts a statement. -/
def skipFrom (last : Token) : List Token → List Token
  | [] => []
  | t :: rest =>
    if last.kind = .semicolon || startsStatement t.kind then t :: rest else skipFrom t rest

/-- Skips the rest of a broken statement, at least one token if there is one. -/
def synchronize (c : Cursor) : Cursor :=
  match c.rest with
  | [] => c
  | t :: rest => { c with rest := skipFrom t rest }

end Cursor

end LoxLang
