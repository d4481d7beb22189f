import LoxLang.Store

/-!
# Contexts

A context is what a frame is for whoever makes frames by hand.  Its names are bound by a scope, which
is there apart from the contexts: a context that is given a scope keeps it, and contexts that were
given the same one share it.  What is bound through one of them is bound for all of them.

Contexts are read as frames, each with the bindings that its scope has at the time.  The frames of
programs are contexts that each have a scope of their own.

* `push` — a new context, with the scope that it is given.
* `frames`, `inside`, `view` — contexts as frames.
* `define`, `set`, `setAt` — changes of a scope through a context.
-/

namespace LoxLang

/-- The number of a scope, and the context around this one if there is one. -/
structure Context where
  scope : Nat
  parent : Option Nat

structure Contexts where
  scopes : Array (Bindings Value)
  contexts : Array Context

namespace Contexts

/-- One context, with a scope of its own. -/
def root (bindings : Bindings Value) : Contexts := ⟨#[bindings], #[⟨0, none⟩]⟩

def scope (t : Contexts) (ref : Nat) : Bindings Value := t.scopes[ref]?.getD .empty

/-- The scope of a context. -/
def scopeOf? (t : Contexts) (context : Nat) : Option Nat := t.contexts[context]?.map Context.scope

/-- A scope that no context has yet. -/
def addScope (t : Contexts) (bindings : Bindings Value) : Nat × Contexts :=
  (t.scopes.size, { t with scopes := t.scopes.push bindings })

/-- A new context that has this scope. -/
def add (t : Contexts) (scope parent : Nat) : Nat × Contexts :=
  (t.contexts.size, { t with contexts := t.contexts.push ⟨scope, some parent⟩ })

/-- A new context inside `parent`.  It keeps the scope that it is given.  An empty one counts as
none: the context then gets an empty scope of its own. -/
def push (t : Contexts) (parent : Nat) (given : Option Nat) : Nat × Contexts :=
  match given.filter fun ref => !(t.scope ref).isEmpty with
  | some ref => t.add ref parent
  | none =>
    let (ref, t) := t.addScope .empty
    t.add ref parent

/-- The contexts as frames. -/
def frames (t : Contexts) : Array Frame :=
  (t.contexts.toList.map fun c => ⟨t.scope c.scope, c.parent⟩).toArray

/-- A store with these contexts as its frames. -/
def inside (t : Contexts) (s : Store) : Store := { s with frames := t.frames }

def view (t : Contexts) : Store := t.inside .empty

/-- What a context binds. -/
def bindings (t : Contexts) (context : Nat) : Bindings Value := t.view.bindings context

/-- Binds a name in the scope of a context, new or not. -/
def define (t : Contexts) (context : Nat) (name : String) (value : Value) : Contexts :=
  match t.scopeOf? context with
  | some ref => { t with scopes := t.scopes.modify ref fun b => b.put name value }
  | none => t

/-- Changes a name that the context binds already. -/
def set (t : Contexts) (context : Nat) (name : String) (value : Value) :
    Except FrameError Contexts :=
  if t.view.has context name then .ok (t.define context name value) else .error (.notDeclared name)

def getAt (t : Contexts) (context : Nat) (distance : Int) (name : String) :
    Except FrameError Value :=
  t.view.getAt context distance name

def setAt (t : Contexts) (context : Nat) (distance : Int) (name : String) (value : Value) :
    Except FrameError Contexts :=
  match t.view.ancestor context distance with
  | .ok found => t.set found name value
  | .error e => .error e

end Contexts

end LoxLang
