import LoxLang.Proofs.Token.Longest
import LoxLang.Tree.Print

/-!
# Nested texts

The text of a tree nests: it is an atom, or parts between parentheses with single blanks between
them.  Atoms hold no blanks and no parentheses, so what is nested can be told from the text alone.

* `Nested.write` — the text.
* `Nested.Plain` — every atom can be told from what stands around it.

Principal result: `Nested.write_injective`.
-/

namespace LoxLang

inductive Nested where
  | atom (text : String)
  | group (parts : List Nested)

/-- The characters around atoms. -/
def isDelimiter (c : Char) : Bool := c == ' ' || c == '(' || c == ')'

/-- A text that can be told from what stands around it. -/
def PlainAtom (text : String) : Prop := text.toList ≠ [] ∧ ∀ c ∈ text.toList, isDelimiter c = false

instance (text : String) : Decidable (PlainAtom text) :=
  decidable_of_iff ((!text.toList.isEmpty && text.toList.all (!isDelimiter ·)) = true)
    (by simp [PlainAtom])

namespace Nested

mutual

def write : Nested → List Char
  | atom text => text.toList
  | group [] => ['(', ')']
  | group (x :: xs) => '(' :: (x.write ++ writeMore xs)

/-- What stands behind the first part of a group. -/
def writeMore : List Nested → List Char
  | [] => [')']
  | x :: xs => ' ' :: (x.write ++ writeMore xs)

end

mutual

def Plain : Nested → Prop
  | atom text => PlainAtom text
  | group parts => PlainParts parts

def PlainParts : List Nested → Prop
  | [] => True
  | x :: xs => x.Plain ∧ PlainParts xs

end

instance (text : String) : Decidable (atom text).Plain :=
  inferInstanceAs (Decidable (PlainAtom text))

/-! ## The text tells what is nested -/

/-- What may stand behind an atom. -/
def Ends (rest : List Char) : Prop := ∀ c, rest.head? = some c → isDelimiter c = true

theorem ends_nil : Ends [] := fun _ h => nomatch h

theorem ends_writeMore (xs : List Nested) (rest : List Char) : Ends (writeMore xs ++ rest) := by
  intro c hc
  cases xs <;> cases hc <;> rfl

/-- Two texts with atoms in front differ where the atoms do. -/
theorem plainAtom_append_inj {text text' : String} {rest rest' : List Char} (h : PlainAtom text)
    (h' : PlainAtom text') (hrest : Ends rest) (hrest' : Ends rest')
    (heq : text.toList ++ rest = text'.toList ++ rest') : text = text' ∧ rest = rest' := by
  -- each atom is the longest text without a delimiter
  have hrun : ∀ {text : String} {rest : List Char}, PlainAtom text → Ends rest →
      (text.toList ++ rest).takeWhile (!isDelimiter ·) = text.toList := fun h hrest =>
    (takeWhile_run (fun c hc => by rw [h.2 c hc]; rfl) _ fun c hc => by rw [hrest c hc]; rfl).1
  have htext := hrun h hrest
  rw [heq, hrun h' hrest'] at htext
  rw [htext] at heq
  exact ⟨String.toList_inj.1 htext.symm, List.append_cancel_left heq⟩

/-- An atom does not start like a group. -/
theorem atom_ne_open {text : String} (h : PlainAtom text) (rest rest' : List Char) :
    text.toList ++ rest ≠ '(' :: rest' := by
  intro heq
  cases htext : text.toList with
  | nil => exact h.1 htext
  | cons c cs =>
    rw [htext] at heq
    obtain ⟨rfl, -⟩ := List.cons.inj heq
    exact absurd (h.2 '(' (by rw [htext]; exact List.mem_cons_self)) (by decide)

/-- What is nested does not start like the end of a group. -/
theorem write_ne_close {x : Nested} (h : x.Plain) (rest rest' : List Char) :
    x.write ++ rest ≠ ')' :: rest' := by
  intro heq
  cases x with
  | atom text =>
    cases htext : text.toList with
    | nil => exact h.1 htext
    | cons c cs =>
      rw [write, htext] at heq
      obtain ⟨rfl, -⟩ := List.cons.inj heq
      exact absurd (h.2 ')' (by rw [htext]; exact List.mem_cons_self)) (by decide)
  | group parts => cases parts <;> exact absurd (List.cons.inj heq).1 (by decide)

mutual

/-- A text is read in one way, and so is what follows it. -/
theorem write_append_inj : ∀ {x y : Nested} {rest rest' : List Char}, x.Plain → y.Plain →
    Ends rest → Ends rest' → x.write ++ rest = y.write ++ rest' → x = y ∧ rest = rest'
  | atom text, atom text', rest, rest', hx, hy, hrest, hrest', h => by
    obtain ⟨htext, hrest⟩ := plainAtom_append_inj hx hy hrest hrest' h
    exact ⟨congrArg atom htext, hrest⟩
  | atom text, group [], _, _, hx, _, _, _, h => absurd h (atom_ne_open hx _ _)
  | atom text, group (_ :: _), _, _, hx, _, _, _, h => absurd h (atom_ne_open hx _ _)
  | group [], atom text, _, _, _, hy, _, _, h => absurd h.symm (atom_ne_open hy _ _)
  | group (_ :: _), atom text, _, _, _, hy, _, _, h => absurd h.symm (atom_ne_open hy _ _)
  | group [], group [], _, _, _, _, _, _, h => by
    simp only [write, List.cons_append, List.nil_append, List.cons.injEq, true_and] at h
    exact ⟨rfl, h⟩
  | group [], group (y :: ys), _, _, _, hy, _, _, h => by
    simp only [write, List.cons_append, List.nil_append, List.cons.injEq, true_and,
      List.append_assoc] at h
    exact absurd h.symm (write_ne_close hy.1 _ _)
  | group (x :: xs), group [], _, _, hx, _, _, _, h => by
    simp only [write, List.cons_append, List.nil_append, List.cons.injEq, true_and,
      List.append_assoc] at h
    exact absurd h (write_ne_close hx.1 _ _)
  | group (x :: xs), group (y :: ys), rest, rest', hx, hy, _, _, h => by
    simp only [write, List.cons_append, List.cons.injEq, true_and, List.append_assoc] at h
    obtain ⟨rfl, hmore⟩ := write_append_inj hx.1 hy.1 (ends_writeMore xs rest)
      (ends_writeMore ys rest') h
    obtain ⟨rfl, rfl⟩ := writeMore_append_inj hx.2 hy.2 hmore
    exact ⟨rfl, rfl⟩

theorem writeMore_append_inj : ∀ {xs ys : List Nested} {rest rest' : List Char}, PlainParts xs →
    PlainParts ys → writeMore xs ++ rest = writeMore ys ++ rest' → xs = ys ∧ rest = rest'
  | [], [], _, _, _, _, h => ⟨rfl, (List.cons.inj h).2⟩
  | [], _ :: _, _, _, _, _, h => absurd (List.cons.inj h).1 (by decide)
  | _ :: _, [], _, _, _, _, h => absurd (List.cons.inj h).1 (by decide)
  | x :: xs, y :: ys, rest, rest', hx, hy, h => by
    simp only [writeMore, List.cons_append, List.cons.injEq, true_and, List.append_assoc] at h
    obtain ⟨rfl, hmore⟩ := write_append_inj hx.1 hy.1 (ends_writeMore xs rest)
      (ends_writeMore ys rest') h
    obtain ⟨rfl, rfl⟩ := writeMore_append_inj hx.2 hy.2 hmore
    exact ⟨rfl, rfl⟩

end

/-- **The text tells what is nested.** -/
theorem write_injective {x y : Nested} (hx : x.Plain) (hy : y.Plain) (h : x.write = y.write) :
    x = y :=
  (write_append_inj hx hy ends_nil ends_nil (by rw [h])).1

/-! ## Parentheses -/

/-- The texts of parts. -/
def Writes (parts : List String) (xs : List Nested) : Prop :=
  parts.map String.toList = xs.map write

theorem intercalate_writes {head : String} {parts : List String} {xs : List Nested}
    (h : Writes parts xs) :
    (" ".intercalate (head :: parts)).toList ++ [')'] = head.toList ++ writeMore xs := by
  induction parts generalizing head xs with
  | nil =>
    cases xs with
    | nil => simp [writeMore]
    | cons x xs => cases h
  | cons part parts ih =>
    cases xs with
    | nil => cases h
    | cons x xs =>
      obtain ⟨hpart, hparts⟩ := List.cons.inj h
      rw [String.intercalate_cons_cons, String.toList_append, String.toList_append,
        List.append_assoc, ih hparts, hpart]
      simp [writeMore]

/-- A head and parts between parentheses make up a group. -/
theorem parenthesize_writes {head : String} {parts : List String} {xs : List Nested}
    (h : Writes parts xs) :
    (parenthesize head parts).toList = (group (atom head :: xs)).write := by
  unfold parenthesize
  rw [String.toList_append, String.toList_append, List.append_assoc]
  exact congrArg ('(' :: ·) (intercalate_writes h)

/-- A head of two words is a head and a part. -/
theorem parenthesize_two (head name : String) (parts : List String) :
    parenthesize (head ++ " " ++ name) parts = parenthesize head (name :: parts) := by
  unfold parenthesize
  cases parts <;> simp [String.intercalate_cons_cons, String.append_assoc]

end Nested

end LoxLang
