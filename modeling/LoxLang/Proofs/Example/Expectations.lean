import Mathlib.Data.List.Basic
import LoxLang.Example

/-!
# Expectations of a source

What an example expects is read off its lines: each line adds the expectation that is found in it.
So outputs and static errors are listed in the order of their lines, and of the runtime errors the
last one is kept.

* `Example.expectations` — the expectations of a source, each with the number of its line.
* `Expectation.printed?`, `reported?`, `raised?` — the output, the static error and the runtime error
  that an expectation is about.
* `Expectation.Worded` — an expected static error is told by a text that begins with `Error`.
* `Example.Passes` — the run of an example comes to its end, with what is expected.

Principal results: `Example.ofSource_eq`, `Example.ofSource_errors`, `Example.compare_eq_none`.
-/

namespace LoxLang

namespace Expectation

/-! ## Readers -/

theorem after?_append (word rest : List Char) : after? word (word ++ rest) = some rest := by
  induction word with
  | nil => rfl
  | cons w word ih => rw [List.cons_append, after?, if_pos rfl, ih]

theorem after?_eq_some {word text rest : List Char} :
    after? word text = some rest ↔ text = word ++ rest := by
  constructor
  · intro h
    induction word generalizing text with
    | nil =>
      cases h
      rfl
    | cons w word ih =>
      cases text with
      | nil => cases h
      | cons c text =>
        rw [after?] at h
        split at h
        · rename_i hc
          rw [hc, ih h, List.cons_append]
        · cases h
  · rintro rfl
    exact after?_append word rest

/-- What is found is read somewhere in the text. -/
theorem leftmost_eq_some {α : Type} {reader : List Char → Option α} {cs : List Char} {a : α}
    (h : leftmost reader cs = some a) : ∃ after, after <:+ cs ∧ reader after = some a := by
  induction cs with
  | nil => exact ⟨[], List.suffix_refl [], h⟩
  | cons c cs ih =>
    rw [leftmost, Option.or_eq_some_iff] at h
    rcases h with h | ⟨-, h⟩
    · exact ⟨c :: cs, List.suffix_refl _, h⟩
    · obtain ⟨after, hsuffix, hafter⟩ := ih h
      exact ⟨after, hsuffix.trans (List.suffix_cons c cs), hafter⟩

/-- An expected static error is told by a text that begins with this word. -/
def Worded : Expectation → Prop
  | .output _ => True
  | .runtimeError _ => True
  | .errorOn _ text => ∃ more, text = "Error" ++ more
  | .errorHere text => ∃ more, text = "Error" ++ more

theorem errorText?_eq_some {cs : List Char} {text : String} (h : errorText? cs = some text) :
    ∃ more, text = "Error" ++ more := by
  obtain ⟨rest, hrest, rfl⟩ := Option.map_eq_some_iff.1 h
  rw [after?_eq_some] at hrest
  exact ⟨String.ofList rest, by rw [hrest, String.ofList_append, String.ofList_toList]⟩

theorem output?_worded {cs : List Char} {x : Expectation} (h : output? cs = some x) : x.Worded := by
  obtain ⟨rest, -, rfl⟩ := Option.map_eq_some_iff.1 h
  exact trivial

theorem runtimeError?_worded {cs : List Char} {x : Expectation} (h : runtimeError? cs = some x) :
    x.Worded := by
  unfold runtimeError? at h
  split at h
  · cases h
  · cases h
  · cases h
    exact trivial

theorem errorOn?_worded {cs : List Char} {x : Expectation} (h : errorOn? cs = some x) :
    x.Worded := by
  simp only [errorOn?, Option.bind_eq_bind, Option.bind_eq_some_iff] at h
  obtain ⟨rest, -, h⟩ := h
  split at h
  · cases h
  · obtain ⟨rest', -, h⟩ := Option.bind_eq_some_iff.1 h
    obtain ⟨text, htext, h⟩ := Option.bind_eq_some_iff.1 h
    cases h
    exact errorText?_eq_some htext

theorem errorHere?_worded {cs : List Char} {x : Expectation} (h : errorHere? cs = some x) :
    x.Worded := by
  simp only [errorHere?, Option.bind_eq_bind, Option.bind_eq_some_iff] at h
  obtain ⟨rest, -, text, htext, h⟩ := h
  cases h
  exact errorText?_eq_some htext

theorem ofLine?_worded {line : String} {x : Expectation} (h : ofLine? line = some x) :
    x.Worded := by
  simp only [ofLine?, Option.or_eq_some_iff] at h
  rcases h with h | ⟨-, h | ⟨-, h | ⟨-, h⟩⟩⟩
  · obtain ⟨after, -, hafter⟩ := leftmost_eq_some h
    exact output?_worded hafter
  · obtain ⟨after, -, hafter⟩ := leftmost_eq_some h
    exact runtimeError?_worded hafter
  · obtain ⟨after, -, hafter⟩ := leftmost_eq_some h
    exact errorOn?_worded hafter
  · obtain ⟨after, -, hafter⟩ := leftmost_eq_some h
    exact errorHere?_worded hafter

/-! ## What expectations are about -/

/-- The expected output. -/
def printed? : Expectation → Option String
  | .output text => some text
  | _ => none

/-- The report of the expected static error, which is told on this line. -/
def reported? (line : Nat) : Expectation → Option String
  | .errorOn given text => some ("[line " ++ given ++ "] " ++ text)
  | .errorHere text => some ("[line " ++ toString line ++ "] " ++ text)
  | _ => none

/-- The expected runtime error, which is told on this line. -/
def raised? (line : Nat) : Expectation → Option (String × Nat)
  | .runtimeError text => some (text, line)
  | _ => none

theorem Worded.reported {x : Expectation} (h : x.Worded) {line : Nat} {error : String}
    (herror : x.reported? line = some error) :
    ∃ given more, error = "[line " ++ given ++ "] Error" ++ more := by
  have hword : ∀ more : String, "] " ++ ("Error" ++ more) = "] Error" ++ more := by
    intro more
    rw [← String.append_assoc]
    rfl
  have hjoin : ∀ given more : String, "[line " ++ given ++ "] " ++ ("Error" ++ more) =
      "[line " ++ given ++ "] Error" ++ more := by
    intro given more
    rw [String.append_assoc, hword, ← String.append_assoc]
  cases x with
  | output text | runtimeError text => cases herror
  | errorOn given text =>
    obtain ⟨more, rfl⟩ := h
    cases herror
    exact ⟨given, more, hjoin given more⟩
  | errorHere text =>
    obtain ⟨more, rfl⟩ := h
    cases herror
    exact ⟨toString line, more, hjoin _ more⟩

end Expectation

namespace Example

open Expectation

theorem expect_eq (e : Example) (line : Nat) (x : Expectation) : e.expect line x =
    { e with
      outputs := e.outputs ++ x.printed?.toList
      errors := e.errors ++ (x.reported? line).toList
      runtimeError := (x.raised? line).or e.runtimeError } := by
  cases x <;> simp [expect, printed?, reported?, raised?]

/-- The expectation of a line, with the number of the line. -/
def ofNumbered? (entry : String × Nat) : Option (Nat × Expectation) :=
  (ofLine? entry.1).map (entry.2 + 1, ·)

/-- The expectations of a source, each with the number of its line. -/
def expectations (source : String) : List (Nat × Expectation) :=
  (Text.lines source).zipIdx.filterMap ofNumbered?

theorem foldl_expect (found : List (Nat × Expectation)) (e : Example) :
    found.foldl (fun e x => e.expect x.1 x.2) e =
      { e with
        outputs := e.outputs ++ found.filterMap (·.2.printed?)
        errors := e.errors ++ found.filterMap fun x => x.2.reported? x.1
        runtimeError := (found.filterMap fun x => x.2.raised? x.1).getLast?.or e.runtimeError } := by
  induction found generalizing e with
  | nil => simp
  | cons x found ih =>
    rw [List.foldl_cons, ih, expect_eq]
    cases hprinted : x.2.printed? <;> cases hreported : x.2.reported? x.1 <;>
      cases hraised : x.2.raised? x.1 <;>
      simp [hprinted, hreported, hraised, List.getLast?_cons]

/-- **What an example expects is read off line by line.** -/
theorem ofSource_eq (source : String) : ofSource source =
    { source
      outputs := (expectations source).filterMap (·.2.printed?)
      errors := (expectations source).filterMap fun x => x.2.reported? x.1
      runtimeError := ((expectations source).filterMap fun x => x.2.raised? x.1).getLast? } := by
  have hfold := foldl_expect (expectations source) ⟨source, [], [], none⟩
  rw [expectations, List.foldl_filterMap] at hfold
  simp only [List.nil_append, Option.or_none] at hfold
  rw [expectations, ← hfold, ofSource]
  congr 1
  funext e entry
  cases hline : ofLine? entry.1 <;> simp [ofNumbered?, hline]

/-- The run of an example is a run of its source. -/
theorem eval_ofSource (source : String) (n : Nat) (clock : Clock) :
    (ofSource source).eval n clock = (Session.start {} clock).run n source := by
  rw [eval, ofSource_eq]

/-- An expected static error tells a line and goes on with the word that begins its text. -/
theorem ofSource_errors {source error : String} (h : error ∈ (ofSource source).errors) :
    ∃ given more, error = "[line " ++ given ++ "] Error" ++ more := by
  rw [ofSource_eq] at h
  obtain ⟨⟨line, x⟩, hmem, herror⟩ := List.mem_filterMap.1 h
  obtain ⟨⟨text, index⟩, -, hentry⟩ := List.mem_filterMap.1 hmem
  obtain ⟨x', hline, heq⟩ := Option.map_eq_some_iff.1 hentry
  cases heq
  exact (ofLine?_worded hline).reported herror

/-- The expectations of a source are those of its lines. -/
theorem expectations_map_snd (source : String) :
    (expectations source).map Prod.snd = (Text.lines source).filterMap ofLine? := by
  have hlines : (Text.lines source).filterMap ofLine? =
      (Text.lines source).zipIdx.filterMap fun entry => ofLine? entry.1 := by
    conv_lhs => rw [← List.zipIdx_map_fst 0 (Text.lines source), List.filterMap_map]
    rfl
  rw [hlines, expectations, List.map_filterMap]
  congr 1
  funext entry
  rw [ofNumbered?, Option.map_map]
  exact Option.map_id'

/-- A source in which nothing but outputs is expected. -/
theorem ofSource_of_outputs {source : String} {outputs : List String}
    (h : (Text.lines source).filterMap ofLine? = outputs.map .output) :
    ofSource source = ⟨source, outputs, [], none⟩ := by
  rw [← expectations_map_snd] at h
  have hkind : ∀ x ∈ expectations source, ∃ text, x.2 = .output text := by
    intro x hx
    have hmem : x.2 ∈ (expectations source).map Prod.snd := List.mem_map_of_mem hx
    rw [h] at hmem
    obtain ⟨text, -, htext⟩ := List.mem_map.1 hmem
    exact ⟨text, htext.symm⟩
  have hprinted : (expectations source).filterMap (·.2.printed?) = outputs := by
    have hmap : (expectations source).filterMap (·.2.printed?) =
        ((expectations source).map Prod.snd).filterMap printed? := by
      rw [List.filterMap_map]
      rfl
    rw [hmap, h, List.filterMap_map]
    exact List.filterMap_some
  have hreported : (expectations source).filterMap (fun x => x.2.reported? x.1) = [] := by
    refine List.filterMap_eq_nil_iff.2 fun x hx => ?_
    obtain ⟨text, htext⟩ := hkind x hx
    rw [htext]
    rfl
  have hraised : (expectations source).filterMap (fun x => x.2.raised? x.1) = [] := by
    refine List.filterMap_eq_nil_iff.2 fun x hx => ?_
    obtain ⟨text, htext⟩ := hkind x hx
    rw [htext]
    rfl
  rw [ofSource_eq, hprinted, hreported, hraised, List.getLast?_nil]

/-- Where an example expects nothing, there is no expectation on any line. -/
theorem ofSource_of_none {source : String} (houtputs : (ofSource source).outputs = [])
    (herrors : (ofSource source).errors = []) (hruntime : (ofSource source).runtimeError = none) :
    (Text.lines source).filterMap ofLine? = [] := by
  rw [ofSource_eq] at houtputs herrors hruntime
  rw [← expectations_map_snd, List.map_eq_nil_iff, List.eq_nil_iff_forall_not_mem]
  rintro ⟨line, x⟩ hx
  have hprinted := List.filterMap_eq_nil_iff.1 houtputs _ hx
  have hreported := List.filterMap_eq_nil_iff.1 herrors _ hx
  have hraised := List.filterMap_eq_nil_iff.1 (List.getLast?_eq_none_iff.1 hruntime) _ hx
  cases x with
  | output text => cases hprinted
  | runtimeError text => cases hraised
  | errorOn given text | errorHere text => cases hreported

/-! ## Comparing -/

/-- The run of an example comes to its end with this allowance and these readings of the clock, and with
what is expected. -/
def Passes (n : Nat) (clock : Clock) (e : Example) : Prop :=
  ∃ s t, e.eval n clock = .ended s t ∧ e.compare t = none

/-- What is written to standard error is what an example expects there. -/
inductive ErrorsMatch (e : Example) (written : String) : Prop where
  | static : e.errors ≠ [] → Text.lines written = e.errors → ErrorsMatch e written
  | runtime {text : String} {line : Nat} : e.errors = [] → e.runtimeError = some (text, line) →
      Text.lines written = [text, "[line " ++ toString line ++ "]"] → ErrorsMatch e written
  | none : e.errors = [] → e.runtimeError = .none → written = "" → ErrorsMatch e written

theorem compare_eq_none {e : Example} {t : Transcript} :
    e.compare t = none ↔ Text.lines (t.on .out) = e.outputs ∧ e.ErrorsMatch (t.on .err) := by
  constructor
  · intro h
    simp only [compare, ne_eq, ite_not] at h
    split at h
    · rename_i hout
      refine ⟨hout, ?_⟩
      split at h
      · rename_i herrors
        split at h
        · exact .static (by simpa using herrors) ‹_›
        · cases h
      · rename_i herrors
        have hnil : e.errors = [] := by simpa using herrors
        split at h
        · rename_i text line hruntime
          split at h
          · exact .runtime hnil hruntime ‹_›
          · cases h
        · rename_i hruntime
          split at h
          · exact .none hnil hruntime ‹_›
          · cases h
    · cases h
  · rintro ⟨hout, hmatch⟩
    cases hmatch with
    | static hne hlines => simp [compare, hout, hlines, hne]
    | runtime hnil hruntime hlines => simp [compare, hout, hnil, hruntime, hlines]
    | none hnil hruntime hempty => simp [compare, hout, hnil, hruntime, hempty]

end Example

/-- A clock that shows a later time than zero, whenever it is read. -/
def lateClock : Clock := fun _ => 1700000000.5

end LoxLang
