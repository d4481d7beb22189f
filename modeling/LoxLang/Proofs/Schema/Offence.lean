import LoxLang.Proofs.Schema.Acceptance
import LoxLang.Proofs.Schema.Generated

/-!
# The first offence in a schema text

Reading a schema with a generated parser gives the schema that the text stands for, or the first place
in reading order where the text stops being the beginning of one: a character that can stand nowhere,
a symbol that cannot follow those before it, or the end.

* `Verdict` — what a text is, said by its cut and the grammar.
* `Arrangement` — a schema written down with gaps around its symbols.
* `automaton` — the automaton as a parser that is fed.

Principal results: `Reads.read_eq_iff`, `Reads.read_laidOut`, `reading_finds_the_first_offence`.
-/

namespace LoxLang.Schema

/-- What is to be said of a text. -/
inductive Verdict (text : String) : Except SchemaError (List Family) → Prop where
  /-- It is a schema written down. -/
  | schema {families : List Family} :
      Cut text.toList (symbolsOf families) [] → WellFormed families → Verdict text (.ok families)
  /-- A character starts no symbol, and all symbols before it are the beginning of a schema. -/
  | character {before after : List Char} {c : Char} {ts : List Symbol} :
      text.toList = before ++ c :: after → Cut before ts (c :: after) → StartsNothing c →
      Viable ts → Verdict text (.error (.unexpectedCharacter c (.behind before)))
  /-- A symbol is the first with which the symbols are not the beginning of a schema. -/
  | symbol {before w after : List Char} {kind : LexemeKind} {ts : List Symbol} :
      text.toList = before ++ (w ++ after) → Cut before ts (w ++ after) → Spelled kind w →
      (kind = .name → EndsName after) → Viable ts → ¬ Viable (ts ++ [⟨kind, String.ofList w⟩]) →
      Verdict text (.error (.unexpectedLexeme kind (String.ofList w) (.behind before)))
  /-- All symbols are the beginning of a schema but not a schema.  The place is that of the last. -/
  | ending {before w after : List Char} {kind : LexemeKind} {ts : List Symbol} :
      text.toList = before ++ (w ++ after) → Cut before ts (w ++ after) → Spelled kind w →
      (kind = .name → EndsName after) → Cut after [] [] →
      Viable (ts ++ [⟨kind, String.ofList w⟩]) → ¬ Derivable (ts ++ [⟨kind, String.ofList w⟩]) →
      Verdict text (.error (.unexpectedEnd (.behind before)))

theorem genuine_concat {before w after : List Char} {kind : LexemeKind} {ts : List Symbol}
    (hcut : Cut before ts (w ++ after)) (hw : Spelled kind w) :
    ∀ t ∈ ts ++ [⟨kind, String.ofList w⟩], t.Genuine := by
  refine List.forall_mem_append.2 ⟨hcut.genuine, List.forall_mem_singleton.2 ?_⟩
  show Spelled kind (String.ofList w).toList
  rwa [String.toList_ofList]

/-! ## Reading -/

/-- A parser for texts feeds a parser that follows the grammar. -/
structure Reads (p : Interactive) (parse : Parser) : Prop where
  recognizes : p.Recognizes
  drives : p.Drives parse

namespace Reads

variable {p : Interactive} {parse : Parser} {text : String}
  {result : Except SchemaError (List Family)}

/-- **Parsing gives the tree of the verdict.** -/
theorem parse_eq (hp : Reads p parse) (h : Verdict text result) :
    parse text = result.map treeOf := by
  obtain ⟨hgrammar, hdrives⟩ := hp
  cases h with
  | @schema families hcut hwell =>
    have hts := symbolsOf_genuine hwell
    obtain ⟨c, tree, hrun, hfinish⟩ := hgrammar.sentence hts ⟨_, derivesTree_symbolsOf hwell⟩
    obtain ⟨families', hwell', heq, rfl⟩ :=
      (derivesTree_iff hts tree).1 (hgrammar.tree hts hrun hfinish)
    obtain rfl := symbolsOf_injective hwell hwell' heq
    exact hdrives.whole hcut hrun hfinish
  | character htext hcut hc hviable =>
    obtain ⟨c, hrun⟩ := (hgrammar.viable_iff hcut.genuine).1 hviable
    exact hdrives.character htext hcut hc hrun
  | symbol htext hcut hw hname hviable hnot =>
    obtain ⟨c, hrun⟩ := (hgrammar.viable_iff hcut.genuine).1 hviable
    refine hdrives.symbol htext hcut hw hname hrun ?_
    rw [hgrammar.viable_iff (genuine_concat hcut hw), Interactive.run_concat hrun] at hnot
    exact Option.eq_none_iff_forall_ne_some.2 fun next hnext => hnot ⟨next, hnext⟩
  | ending htext hcut hw hname hrest hviable hnot =>
    have hgenuine := genuine_concat hcut hw
    obtain ⟨c, hrun⟩ := (hgrammar.viable_iff hgenuine).1 hviable
    refine hdrives.ending htext hcut hw hname hrest hrun ?_
    rw [hgrammar.finish_iff hgenuine hrun] at hnot
    exact Option.eq_none_iff_forall_ne_some.2 fun tree htree => hnot ⟨tree, htree⟩

/-- **Reading gives the verdict.** -/
theorem read_eq (hp : Reads p parse) (h : Verdict text result) : parse.read text = result := by
  unfold Parser.read
  rw [hp.parse_eq h]
  cases result with
  | ok families => simp only [Except.map, families?_treeOf]
  | error e => rfl

/-- **There is a verdict on every text.** -/
theorem exists_verdict (hp : Reads p parse) (text : String) : ∃ result, Verdict text result := by
  obtain ⟨hgrammar, -⟩ := hp
  obtain ⟨before, ts, after, htext, hcut, hend⟩ := exists_cut ⟨1, 1⟩ text.toList
  obtain ⟨c, hrun⟩ | ⟨ts₁, t, ts₂, c, rfl, hrun, hnone⟩ := p.run_cases ts
  · have hviable := hgrammar.prefixes hcut.genuine hrun
    obtain rfl | ⟨ch, rest, rfl, hch⟩ := hend
    · rw [List.append_nil] at htext
      by_cases hderivable : Derivable ts
      · obtain ⟨families, rfl, hwell⟩ := (derivable_iff hcut.genuine).1 hderivable
        exact ⟨_, .schema (htext ▸ hcut) hwell⟩
      · -- No symbols at all would be a schema.
        obtain rfl | ⟨us, t, rfl⟩ := ts.eq_nil_or_concat
        · have hempty : WellFormed [] := by simp [WellFormed]
          exact absurd ⟨_, derivesTree_symbolsOf hempty⟩ hderivable
        · rw [List.concat_eq_append] at hcut hviable hderivable
          obtain ⟨b, w, a, rfl, hb, hw, hspelling, hname, ha⟩ := hcut.split
          obtain ⟨kind, _⟩ := t
          obtain rfl := hspelling
          simp only [List.append_nil] at hb hname
          exact ⟨_, .ending htext hb hw hname ha hviable hderivable⟩
    · exact ⟨_, .character htext hcut hch hviable⟩
  · have hgenuine := hcut.genuine
    have hfirst : ∀ u ∈ ts₁ ++ [t], u.Genuine := fun u hu => hgenuine u (by
      rw [List.mem_append, List.mem_singleton] at hu
      rw [List.mem_append, List.mem_cons]
      tauto)
    have hnot : ¬ Viable (ts₁ ++ [t]) := by
      rw [hgrammar.viable_iff hfirst, Interactive.run_concat hrun, hnone]
      simp
    have hviable := hgrammar.prefixes (fun u hu => hfirst u (List.mem_append_left _ hu)) hrun
    obtain ⟨b, w, a, rfl, hb, hw, hspelling, hname, _⟩ := hcut.split
    obtain ⟨kind, _⟩ := t
    obtain rfl := hspelling
    rw [List.append_assoc] at htext
    rw [List.append_assoc] at hb htext
    exact ⟨_, .symbol htext hb hw hname hviable hnot⟩

/-- **What is read is the verdict, and nothing else is.** -/
theorem read_eq_iff (hp : Reads p parse) : parse.read text = result ↔ Verdict text result := by
  refine ⟨?_, hp.read_eq⟩
  rintro rfl
  obtain ⟨result, h⟩ := hp.exists_verdict text
  rw [hp.read_eq h]
  exact h

/-- The trees of texts are those of derivations. -/
theorem sound (hp : Reads p parse) : parse.Sound := by
  intro text tree hparse
  obtain ⟨result, h⟩ := hp.exists_verdict text
  rw [hp.parse_eq h] at hparse
  cases h with
  | schema _ hwell =>
    cases hparse
    exact ⟨_, symbolsOf_genuine hwell, derivesTree_symbolsOf hwell⟩
  | _ => cases hparse

end Reads

/-! ## Writing -/

/-- Blanks and comments, each comment with the line feed that ends it. -/
inductive Gap : List Char → Prop where
  | nil : Gap []
  | blank {c : Char} {w : List Char} : c ∈ layoutCharacters → Gap w → Gap (c :: w)
  | comment {v w : List Char} : '\n' ∉ v → Gap w → Gap ('#' :: (v ++ '\n' :: w))

/-- Symbols in order, a text behind each of them. -/
def laidOut (ts : List Symbol) (gaps : List String) : String :=
  String.join (List.zipWith (fun t gap => t.text ++ gap) ts gaps)

/-- There is something between names that are next to each other. -/
def NamesApart : List Symbol → List String → Prop
  | t :: u :: ts, gap :: gaps =>
    (t.kind = .name → u.kind = .name → gap ≠ "") ∧ NamesApart (u :: ts) gaps
  | _, _ => True

/-- What may stand around the symbols of a text: a gap before them and one behind each. -/
structure Arrangement (ts : List Symbol) (first : String) (gaps : List String) : Prop where
  first : Gap first.toList
  between : ∀ gap ∈ gaps, Gap gap.toList
  count : gaps.length = ts.length
  apart : NamesApart ts gaps

theorem Gap.cut {w before after : List Char} {ts : List Symbol} (h : Gap w)
    (hcut : Cut before ts after) : Cut (w ++ before) ts after := by
  induction h with
  | nil => exact hcut
  | blank hc _ ih => exact .blank hc ih
  | @comment v w hv _ ih =>
    rw [List.cons_append, List.append_assoc]
    exact .comment hv (fun c hhead => by cases hhead; rfl) (.blank (by decide) ih)

/-- A gap that is there ends a name. -/
theorem Gap.endsName {w : List Char} (h : Gap w) (hw : w ≠ []) (after : List Char) :
    EndsName (w ++ after) := by
  intro c hhead hrest
  have hclass := hrest.class
  cases h with
  | nil => exact hw rfl
  | blank hc _ =>
    cases hhead
    rw [(isLayout_iff c).2 hc] at hclass
    exact absurd hclass.1 (by decide)
  | comment _ _ =>
    cases hhead
    exact hclass.2.1 rfl

/-- A sign ends a name. -/
theorem Spelled.endsName {kind : LexemeKind} {w : List Char} (h : Spelled kind w)
    (hkind : kind ≠ .name) (after : List Char) : EndsName (w ++ after) := by
  intro c hhead hrest
  obtain ⟨_, _, _, hname, _⟩ | ⟨d, rfl, hd⟩ := h.cases_head
  · exact hkind hname
  · cases hhead
    have hnot := (punctuation?_class hd).2.2.2.2
    rw [(isNameRest_iff c).2 hrest] at hnot
    cases hnot

theorem laidOut_cons (t : Symbol) (ts : List Symbol) (gap : String) (gaps : List String) :
    (laidOut (t :: ts) (gap :: gaps)).toList =
      t.text.toList ++ (gap.toList ++ (laidOut ts gaps).toList) := by
  simp [laidOut]

theorem laidOut_cut {ts : List Symbol} {gaps : List String} (hts : ∀ t ∈ ts, t.Genuine)
    (hgaps : ∀ gap ∈ gaps, Gap gap.toList) (hcount : gaps.length = ts.length)
    (hapart : NamesApart ts gaps) : Cut (laidOut ts gaps).toList ts [] := by
  induction ts generalizing gaps with
  | nil => exact .done
  | cons t ts ih =>
    obtain ⟨gap, gaps, rfl⟩ := List.exists_cons_of_length_pos (l := gaps) (by simp [hcount])
    obtain ⟨ht, hts⟩ := List.forall_mem_cons.1 hts
    obtain ⟨hgap, hgaps⟩ := List.forall_mem_cons.1 hgaps
    have hlength : gaps.length = ts.length := by simpa using hcount
    have hrest : NamesApart ts gaps := by
      cases ts with
      | nil => trivial
      | cons u ts => exact hapart.2
    have hname : t.kind = .name →
        EndsName (gap.toList ++ (laidOut ts gaps).toList ++ []) := by
      intro hkind
      rw [List.append_nil]
      by_cases hempty : gap = ""
      · subst hempty
        cases ts with
        | nil =>
          intro c hhead
          cases hhead
        | cons u ts =>
          obtain ⟨gap', gaps', rfl⟩ : ∃ g gs, gaps = g :: gs :=
            List.exists_cons_of_length_pos (by rw [hlength]; exact Nat.succ_pos _)
          rw [laidOut_cons]
          exact (hts u List.mem_cons_self).endsName (fun hu => hapart.1 hkind hu rfl) _
      · exact hgap.endsName (fun hnil => hempty (String.toList_eq_nil_iff.1 hnil)) _
    have hcut := Cut.symbol ht hname (hgap.cut (ih hts hgaps hlength hrest))
    rw [String.ofList_toList] at hcut
    rw [laidOut_cons]
    exact hcut

/-- **A schema that was written down is read again.** -/
theorem Reads.read_laidOut {p : Interactive} {parse : Parser} (hp : Reads p parse)
    {families : List Family} (h : WellFormed families) {first : String} {gaps : List String}
    (harrangement : Arrangement (symbolsOf families) first gaps) :
    parse.read (first ++ laidOut (symbolsOf families) gaps) = .ok families := by
  refine hp.read_eq (.schema ?_ h)
  rw [String.toList_append]
  exact harrangement.first.cut
    (laidOut_cut (symbolsOf_genuine h) harrangement.between harrangement.count harrangement.apart)

/-- **Reading accepts exactly the grammar and points at the first offence.**  The parser may be any
that is generated from the grammar.  A text is read if and only if it is cut into derivable symbols,
which it is in one way only; the result is the one schema that is written with these symbols.  Every
other text gets the verdict that belongs to it, with the place where it stops being the beginning of a
schema.  A schema that is written down, in whatever arrangement, is read again. -/
theorem reading_finds_the_first_offence {p : Interactive} {parse : Parser}
    (hgrammar : p.Recognizes) (hdrives : p.Drives parse) :
    (∀ text,
      ((∃ families, parse.read text = .ok families) ↔
        ∃ ts, Cut text.toList ts [] ∧ Derivable ts) ∧
      (∀ ts, Cut text.toList ts [] →
        (∀ us, Cut text.toList us [] → us = ts) ∧
        ∀ families, parse.read text = .ok families ↔ symbolsOf families = ts ∧ WellFormed families) ∧
      ∀ result, parse.read text = result ↔ Verdict text result) ∧
    (∀ families families', WellFormed families → WellFormed families' →
      symbolsOf families = symbolsOf families' → families = families') ∧
    ∀ families first gaps, WellFormed families → Arrangement (symbolsOf families) first gaps →
      parse.read (first ++ laidOut (symbolsOf families) gaps) = .ok families := by
  have hp : Reads p parse := ⟨hgrammar, hdrives⟩
  -- What a text is read as, given its cut.
  have hread : ∀ (text : String) (ts : List Symbol), Cut text.toList ts [] → ∀ families,
      parse.read text = .ok families ↔ symbolsOf families = ts ∧ WellFormed families := by
    intro text ts hcut families
    rw [hp.read_eq_iff]
    constructor
    · rintro ⟨hcut', hwell⟩
      exact ⟨hcut'.unique hcut, hwell⟩
    · rintro ⟨rfl, hwell⟩
      exact .schema hcut hwell
  refine ⟨fun text => ⟨⟨?_, ?_⟩, fun ts hcut => ⟨fun us hus => hus.unique hcut, hread text ts hcut⟩,
    fun result => hp.read_eq_iff⟩, fun families families' => symbolsOf_injective,
    fun families first gaps hwell => hp.read_laidOut hwell⟩
  · rintro ⟨families, h⟩
    obtain ⟨hcut, hwell⟩ := hp.read_eq_iff.1 h
    exact ⟨_, hcut, _, derivesTree_symbolsOf hwell⟩
  · rintro ⟨ts, hcut, hderivable⟩
    obtain ⟨families, hfamilies⟩ := (derivable_iff hcut.genuine).1 hderivable
    exact ⟨families, (hread text ts hcut families).2 hfamilies⟩

/-! ## The automaton -/

/-- The automaton, fed symbols. -/
def automaton : Interactive where
  Config := State
  start := .outside []
  feed st t := st.step t.kind t.text
  finish := State.finish

theorem automaton_runFrom (st : State) (ts : List Symbol) : automaton.runFrom st ts = st.run ts := by
  induction ts generalizing st with
  | nil => rfl
  | cons t ts ih =>
    rw [State.run]
    show (st.step t.kind t.text).bind (fun next => automaton.runFrom next ts) = _
    cases st.step t.kind t.text with
    | none => rfl
    | some next => exact ih next

theorem automaton_run (ts : List Symbol) : automaton.run ts = (State.outside []).run ts :=
  automaton_runFrom _ ts

theorem State.finish_eq_some {st : State} {tree : Tree} (h : st.finish = some tree) :
    ∃ families, st = .outside families ∧ tree = treeOf families := by
  cases st <;> cases h
  exact ⟨_, rfl, rfl⟩

/-- **The automaton follows the grammar.** -/
theorem automaton_recognizes : automaton.Recognizes where
  tree {ts st tree} hts hrun hfinish := by
    obtain ⟨families, rfl, rfl⟩ := State.finish_eq_some hfinish
    rw [automaton_run] at hrun
    obtain ⟨rfl, hwell⟩ := (run_eq_some_iff hts families).1 hrun
    exact derivesTree_symbolsOf hwell
  sentence {ts} hts hderivable := by
    obtain ⟨families, hfamilies⟩ := (derivable_iff hts).1 hderivable
    refine ⟨.outside families, treeOf families, ?_, rfl⟩
    rw [automaton_run]
    exact (run_eq_some_iff hts families).2 hfamilies
  prefixes {ts st} hts hrun := by
    rw [automaton_run] at hrun
    obtain ⟨hsymbols, hwell⟩ := State.run_symbols hrun hts wellFormed_start
    obtain ⟨us, families, hfamilies, hall⟩ := State.exists_completion hwell
    have htext : symbolsOf families = ts ++ us := by
      rw [hfamilies, hsymbols]
      rfl
    have hgenuine := symbolsOf_genuine hall
    rw [htext] at hgenuine
    refine ⟨us, (List.forall_mem_append.1 hgenuine).2, treeOf families, ?_⟩
    rw [← htext]
    exact derivesTree_symbolsOf hall

section

variable {ts : List Symbol} {ls : List Lexeme} {st st' : State}

/-- Symbols that the automaton reads are passed. -/
theorem readLexemes_append (more : List Lexeme) (h : Placed ts ls) (hrun : st.run ts = some st')
    (last : Position) :
    ∃ last', readLexemes st last (ls ++ more) = readLexemes st' last' more := by
  induction h generalizing st last with
  | nil =>
    cases hrun
    exact ⟨last, rfl⟩
  | @cons t l ts ls hplace _ ih =>
    obtain ⟨p, rfl⟩ := hplace
    obtain ⟨next, hstep, hrun⟩ := Option.bind_eq_some_iff.1 hrun
    obtain ⟨last', hlast⟩ := ih hrun p
    refine ⟨last', ?_⟩
    rw [List.cons_append, readLexemes, hstep]
    exact hlast

/-- Parsing a text up to a place in it. -/
theorem parseByStates_of_cut {text : String} {before after : List Char}
    (htext : text.toList = before ++ after) (hcut : Cut before ts after)
    (hrun : automaton.run ts = some st) :
    ∃ last, parseByStates text = readLexemes st last (lexemesFrom (.behind before) after) := by
  rw [automaton_run] at hrun
  obtain ⟨ls, hls, heq⟩ := hcut.lexemes []
  obtain ⟨last, hlast⟩ := readLexemes_append (lexemesFrom (.behind before) after) hls hrun ⟨1, 1⟩
  refine ⟨last, ?_⟩
  rw [← hlast]
  show readLexemes _ _ (lexemesFrom (.behind []) text.toList) = _
  rw [htext, heq]
  rfl

end

/-- **Parsing by states feeds the automaton.** -/
theorem automaton_drives : automaton.Drives parseByStates where
  whole hcut hrun hfinish := by
    obtain ⟨last, hparse⟩ := parseByStates_of_cut (List.append_nil _).symm hcut hrun
    have hend : State.finish _ = some _ := hfinish
    rw [hparse, lexemesFrom]
    simp only [readLexemes, hend]
  character htext hcut hc hrun := by
    obtain ⟨last, hparse⟩ := parseByStates_of_cut htext hcut hrun
    rw [hparse, lexemesFrom_stray _ hc]
    rfl
  symbol htext hcut hw hname hrun hfeed := by
    obtain ⟨last, hparse⟩ := parseByStates_of_cut htext hcut hrun
    have hstep : State.step _ _ _ = none := hfeed
    rw [hparse, lexemesFrom_symbol _ hw hname]
    simp only [readLexemes, hstep]
  ending {text before w after kind ts st} htext hcut hw hname hrest hrun hfinish := by
    obtain ⟨next, hnext, hlast⟩ : ∃ next, automaton.run ts = some next ∧
        next.step kind (String.ofList w) = some st := by
      rw [Interactive.run, Interactive.runFrom_append] at hrun
      obtain ⟨next, hnext, _⟩ := Option.bind_eq_some_iff.1 hrun
      refine ⟨next, hnext, ?_⟩
      rw [← Interactive.runFrom_append] at hrun
      exact (Interactive.run_concat hnext _).symm.trans hrun
    obtain ⟨last, hparse⟩ := parseByStates_of_cut htext hcut hnext
    obtain ⟨ls, hls, heq⟩ := hrest.lexemes (before ++ w)
    cases hls
    have hend : lexemesFrom ((Position.behind before).along w.length) after = [] := by
      rw [← Position.behind_append before w hw.not_mem]
      rw [List.append_nil] at heq
      rw [heq, lexemesFrom, List.append_nil]
    have hopen : State.finish st = none := hfinish
    rw [hparse, lexemesFrom_symbol _ hw hname, hend]
    simp only [readLexemes, hlast, hopen]

example : parseByStates.read "A \x7b\n  b : c d, \x7d" =
    .error (.unexpectedLexeme .rightBrace "\x7d" ⟨2, 12⟩) := by cbv

/-! ### A family with a comment in it -/

/-- The schema `A { b : c d }`. -/
def oneField : List Family := [⟨"A", [⟨"b", [one "c" "d"]⟩]⟩]

theorem oneField_wellFormed : WellFormed oneField := by
  have hname : ∀ c : Char, NameStart c → IsName (String.singleton c) := fun c hc => by
    show Spelled .name (String.singleton c).toList
    rw [String.toList_singleton]
    exact .name hc (by simp)
  refine List.forall_mem_singleton.2 ⟨hname 'A' (.inl rfl), List.forall_mem_singleton.2
    ⟨hname 'b' (.inl rfl), by simp, List.forall_mem_singleton.2
      ⟨hname 'c' (.inl rfl), hname 'd' (.inl rfl)⟩⟩⟩

theorem oneField_arrangement :
    Arrangement (symbolsOf oneField) "\n" ["", "#:\n", "", "", " ", "", "\t"] where
  first := .blank (by decide) .nil
  between := by
    have hcomment : Gap ['#', ':', '\n'] := .comment (v := [':']) (by decide) .nil
    have hspace : Gap [' '] := .blank (by decide) .nil
    have htab : Gap ['\t'] := .blank (by decide) .nil
    simp [hcomment, hspace, htab, Gap.nil]
  count := rfl
  apart := by simp [NamesApart, symbolsOf, oneField, Family.symbols, NodeSpec.symbols, one,
    fieldSymbols, Field.symbols, nameSymbol, leftBraceSymbol, rightBraceSymbol, colonSymbol]

theorem oneField_is_read_again :
    automaton.Recognizes ∧ automaton.Drives parseByStates ∧
      parseByStates.read "\nA\x7b#:\nb:c d\x7d\t" = .ok oneField :=
  ⟨automaton_recognizes, automaton_drives,
    (reading_finds_the_first_offence automaton_recognizes automaton_drives).2.2 oneField "\n"
      ["", "#:\n", "", "", " ", "", "\t"] oneField_wellFormed oneField_arrangement⟩

end LoxLang.Schema
