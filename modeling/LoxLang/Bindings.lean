/-!
# Bindings

`Bindings α` is a finite map from names to `α` that remembers the order in which its names were
first put.  Static scopes, frames, field tables and method tables are all bindings.

* `find?` — the value of a name.
* `put` — binds a name; a name that is bound already keeps its place.
* `sorted` — the entries in the order of their names.
-/

namespace LoxLang

/-- Names with their values, in the order of their first `put`. -/
structure Bindings (α : Type) where
  entries : List (String × α)
  deriving Repr

namespace Bindings

variable {α : Type}

def empty : Bindings α := ⟨[]⟩

instance : Inhabited (Bindings α) := ⟨empty⟩

def findIn (name : String) : List (String × α) → Option α
  | [] => none
  | (key, value) :: rest => if key = name then some value else findIn name rest

/-- The value of a name. -/
def find? (b : Bindings α) (name : String) : Option α := findIn name b.entries

def contains (b : Bindings α) (name : String) : Bool := (b.find? name).isSome

def putIn (name : String) (value : α) : List (String × α) → List (String × α)
  | [] => [(name, value)]
  | (key, old) :: rest =>
    if key = name then (key, value) :: rest else (key, old) :: putIn name value rest

/-- Binds a name.  A new name goes to the end, a bound one keeps its place. -/
def put (b : Bindings α) (name : String) (value : α) : Bindings α := ⟨putIn name value b.entries⟩

/-- The bindings made by putting pairs one after the other. -/
def ofList (pairs : List (String × α)) : Bindings α :=
  pairs.foldl (fun b pair => b.put pair.1 pair.2) empty

def names (b : Bindings α) : List String := b.entries.map Prod.fst

def isEmpty (b : Bindings α) : Bool := b.entries.isEmpty

/-- The entries in the order of their names. -/
def sorted (b : Bindings α) : List (String × α) :=
  b.entries.mergeSort fun x y => x.1 < y.1 || x.1 == y.1

@[simp] theorem find?_empty (name : String) : (empty : Bindings α).find? name = none := rfl

theorem findIn_putIn (name other : String) (value : α) (entries : List (String × α)) :
    findIn other (putIn name value entries) =
      if name = other then some value else findIn other entries := by
  induction entries with
  | nil => simp [putIn, findIn]
  | cons entry rest ih =>
    obtain ⟨key, old⟩ := entry
    simp only [putIn]
    split
    · next h => subst h; simp only [findIn]; split <;> rfl
    · next h =>
      simp only [findIn, ih]
      split
      · next hk => subst hk; simp [Ne.symm h]
      · rfl

/-- Looking a name up after a `put` gives the value put, or what was there before. -/
@[simp] theorem find?_put (b : Bindings α) (name other : String) (value : α) :
    (b.put name value).find? other = if name = other then some value else b.find? other :=
  findIn_putIn name other value b.entries

end Bindings

end LoxLang
