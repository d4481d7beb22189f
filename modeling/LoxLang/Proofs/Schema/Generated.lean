import Mathlib.Data.List.Induction
import LoxLang.Proofs.Schema.Cutting

/-!
# Generated parsers

What may be relied on of a parser that a generator makes of the grammar.  It can be fed symbols one by
one: it takes all that is derivable, it takes no symbol with which nothing derivable begins, and the
tree that it gives in the end is that of a derivation.  A text is parsed by feeding it the symbols
that the text is cut into, up to the first one that is not taken.

How the generator does this, by tables or otherwise, does not matter.

* `Interactive`, `Interactive.run` — a parser that is fed symbols.
* `Interactive.Recognizes` — it follows the grammar.
* `Interactive.Drives` — a parser for texts feeds it.

Principal results: `Interactive.Recognizes.viable_iff`, `Interactive.Recognizes.finish_iff`.
-/

namespace LoxLang.Schema

/-- A parser that is fed symbols, one by one. -/
structure Interactive where
  Config : Type
  start : Config
  /-- Takes a symbol, if it may stand here. -/
  feed : Config → Symbol → Option Config
  /-- The tree of all symbols so far, if they may end here. -/
  finish : Config → Option Tree

namespace Interactive

/-- Feeds symbols in order. -/
def runFrom (p : Interactive) : p.Config → List Symbol → Option p.Config
  | c, [] => some c
  | c, t :: ts => (p.feed c t).bind fun next => p.runFrom next ts

variable (p : Interactive)

def run (ts : List Symbol) : Option p.Config := p.runFrom p.start ts

/-- A parser follows the grammar, for symbols that are spelled as their kinds say. -/
structure Recognizes : Prop where
  /-- The tree that it gives is that of a derivation. -/
  tree {ts : List Symbol} {c : p.Config} {tree : Tree} : (∀ t ∈ ts, t.Genuine) →
    p.run ts = some c → p.finish c = some tree → DerivesTree ts tree
  /-- It takes derivable symbols and gives a tree for them. -/
  sentence {ts : List Symbol} : (∀ t ∈ ts, t.Genuine) → Derivable ts →
    ∃ c tree, p.run ts = some c ∧ p.finish c = some tree
  /-- It takes no symbol with which nothing derivable begins. -/
  prefixes {ts : List Symbol} {c : p.Config} : (∀ t ∈ ts, t.Genuine) → p.run ts = some c → Viable ts

/-- A parser for texts feeds the symbols of a text, and tells the first thing that goes wrong. -/
structure Drives (parse : Parser) : Prop where
  /-- All symbols are taken, and they may end. -/
  whole {text : String} {ts : List Symbol} {c : p.Config} {tree : Tree} :
    Cut text.toList ts [] → p.run ts = some c → p.finish c = some tree → parse text = .ok tree
  /-- The symbols before a character are taken, and the character starts nothing. -/
  character {text : String} {before after : List Char} {ch : Char} {ts : List Symbol}
      {c : p.Config} :
    text.toList = before ++ ch :: after → Cut before ts (ch :: after) → StartsNothing ch →
    p.run ts = some c → parse text = .error (.unexpectedCharacter ch (.behind before))
  /-- The symbols before a symbol are taken, and it is not. -/
  symbol {text : String} {before w after : List Char} {kind : LexemeKind} {ts : List Symbol}
      {c : p.Config} :
    text.toList = before ++ (w ++ after) → Cut before ts (w ++ after) → Spelled kind w →
    (kind = .name → EndsName after) → p.run ts = some c →
    p.feed c ⟨kind, String.ofList w⟩ = none →
    parse text = .error (.unexpectedLexeme kind (String.ofList w) (.behind before))
  /-- All symbols are taken, but they may not end.  The place is that of the last. -/
  ending {text : String} {before w after : List Char} {kind : LexemeKind} {ts : List Symbol}
      {c : p.Config} :
    text.toList = before ++ (w ++ after) → Cut before ts (w ++ after) → Spelled kind w →
    (kind = .name → EndsName after) → Cut after [] [] →
    p.run (ts ++ [⟨kind, String.ofList w⟩]) = some c → p.finish c = none →
    parse text = .error (.unexpectedEnd (.behind before))

/-! ## Runs -/

theorem runFrom_append (c : p.Config) (ts us : List Symbol) :
    p.runFrom c (ts ++ us) = (p.runFrom c ts).bind fun next => p.runFrom next us := by
  induction ts generalizing c with
  | nil => rfl
  | cons t ts ih =>
    rw [List.cons_append, runFrom, runFrom]
    cases p.feed c t with
    | none => rfl
    | some next => exact ih next

variable {p} {ts us : List Symbol}

theorem run_append {c : p.Config} (h : p.run ts = some c) : p.run (ts ++ us) = p.runFrom c us := by
  rw [run, runFrom_append, ← run, h]
  rfl

theorem run_concat {c : p.Config} (h : p.run ts = some c) (t : Symbol) :
    p.run (ts ++ [t]) = p.feed c t := by
  rw [run_append h, runFrom]
  simp only [runFrom, Option.bind_fun_some]

/-- The parser takes all symbols, or there is a first one that it does not take. -/
theorem run_cases (ts : List Symbol) : (∃ c, p.run ts = some c) ∨
    ∃ ts₁ t ts₂ c, ts = ts₁ ++ t :: ts₂ ∧ p.run ts₁ = some c ∧ p.feed c t = none := by
  induction ts using List.reverseRecOn with
  | nil => exact .inl ⟨p.start, rfl⟩
  | append_singleton ts t ih =>
    obtain ⟨c, hc⟩ | ⟨ts₁, t', ts₂, c, rfl, hc, hnone⟩ := ih
    · cases hfeed : p.feed c t with
      | none => exact .inr ⟨ts, t, [], c, rfl, hc, hfeed⟩
      | some next => exact .inl ⟨next, (run_concat hc t).trans hfeed⟩
    · exact .inr ⟨ts₁, t', ts₂ ++ [t], c, by simp, hc, hnone⟩

/-! ## Runs and derivations -/

namespace Recognizes

/-- **A parser takes exactly the symbols with which something derivable begins.** -/
theorem viable_iff (h : p.Recognizes) (hts : ∀ t ∈ ts, t.Genuine) :
    Viable ts ↔ ∃ c, p.run ts = some c := by
  constructor
  · rintro ⟨us, hus, hderivable⟩
    obtain ⟨c, _, hrun, _⟩ := h.sentence (List.forall_mem_append.2 ⟨hts, hus⟩) hderivable
    rw [run, runFrom_append] at hrun
    obtain ⟨next, hnext, _⟩ := Option.bind_eq_some_iff.1 hrun
    exact ⟨next, hnext⟩
  · rintro ⟨c, hc⟩
    exact h.prefixes hts hc

/-- **It gives a tree exactly for derivable symbols.** -/
theorem finish_iff (h : p.Recognizes) (hts : ∀ t ∈ ts, t.Genuine) {c : p.Config}
    (hrun : p.run ts = some c) : Derivable ts ↔ ∃ tree, p.finish c = some tree := by
  constructor
  · intro hderivable
    obtain ⟨c', tree, hrun', hfinish⟩ := h.sentence hts hderivable
    rw [hrun] at hrun'
    cases hrun'
    exact ⟨tree, hfinish⟩
  · rintro ⟨tree, hfinish⟩
    exact ⟨tree, h.tree hts hrun hfinish⟩

end Recognizes

end Interactive

end LoxLang.Schema
