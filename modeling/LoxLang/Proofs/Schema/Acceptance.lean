import LoxLang.Proofs.Schema.Derivation
import LoxLang.Schema.Reading

/-!
# What the automaton of schemas accepts

In each state of the automaton some symbols have been read.  A step adds its symbol to them, and in
any state they are the beginning of a schema, so the automaton goes on as long as what it has read can
be continued to a derivable text, and what it gives in the end is the tree of the derivation.

* `State.symbols` — what has been read in a state.

Principal results: `State.step_symbols`, `run_eq_some_iff`, `State.exists_completion`.
-/

namespace LoxLang.Schema

/-! ## The symbols read in a state -/

def OpenFamily.symbols (f : OpenFamily) : List Symbol :=
  symbolsOf f.before ++ nameSymbol f.name :: leftBraceSymbol :: f.nodes.flatMap NodeSpec.symbols

/-- An open node up to its last field. -/
def OpenNode.symbols (n : OpenNode) : List Symbol :=
  n.family.symbols ++ nameSymbol n.name :: colonSymbol :: fieldSymbols n.fields

/-- An open node with what has to stand before its next field. -/
def OpenNode.due (n : OpenNode) : List Symbol :=
  n.symbols ++ if n.fields = [] then [] else [commaSymbol]

/-- The symbols that have been read in a state. -/
def State.symbols : State → List Symbol
  | .outside families => symbolsOf families
  | .familyNamed before name => symbolsOf before ++ [nameSymbol name]
  | .inFamily family => family.symbols
  | .nodeNamed family name => family.symbols ++ [nameSymbol name]
  | .fieldDue node => node.due
  | .typeRead node type => node.due ++ [nameSymbol type]
  | .quantifierRead node type q => node.due ++ [nameSymbol type, q.toSymbol]
  | .fieldRead node => node.symbols

structure OpenFamily.WellFormed (f : OpenFamily) : Prop where
  before : Schema.WellFormed f.before
  name : IsName f.name
  nodes : ∀ node ∈ f.nodes, node.WellFormed

structure OpenNode.WellFormed (n : OpenNode) : Prop where
  family : n.family.WellFormed
  name : IsName n.name
  fields : ∀ f ∈ n.fields, IsName f.type ∧ IsName f.name

/-- What has been read in a state can be written down. -/
def State.WellFormed : State → Prop
  | .outside families => Schema.WellFormed families
  | .familyNamed before name => Schema.WellFormed before ∧ IsName name
  | .inFamily family => family.WellFormed
  | .nodeNamed family name => family.WellFormed ∧ IsName name
  | .fieldDue node => node.WellFormed
  | .typeRead node type => node.WellFormed ∧ IsName type
  | .quantifierRead node type _ => node.WellFormed ∧ IsName type
  | .fieldRead node => node.WellFormed ∧ node.fields ≠ []

@[simp] theorem symbolsOf_append (families : List Family) (family : Family) :
    symbolsOf (families ++ [family]) = symbolsOf families ++ family.symbols := by
  simp [symbolsOf]

theorem intercalate_concat {α : Type} (sep last : List α) : ∀ xs : List (List α), xs ≠ [] →
    sep.intercalate (xs ++ [last]) = sep.intercalate xs ++ sep ++ last
  | [x], _ => by simp [List.intercalate, List.intersperse]
  | x :: y :: rest, _ => by
    have ih := intercalate_concat sep last (y :: rest) (by simp)
    simp only [List.cons_append, List.intercalate_cons_cons] at ih ⊢
    rw [ih]
    simp
  | [], h => absurd rfl h

/-- The symbols of another field stand behind a comma, unless it is the first. -/
theorem OpenNode.symbols_addField (n : OpenNode) (f : Field) :
    (n.addField f).symbols = n.due ++ f.symbols := by
  unfold OpenNode.due OpenNode.symbols OpenNode.addField fieldSymbols
  by_cases hfields : n.fields = []
  · simp [hfields, List.intercalate]
  · rw [List.map_append, List.map_singleton, intercalate_concat _ _ _ (by simpa using hfields),
      if_neg hfields]
    simp

theorem OpenNode.symbols_close (n : OpenNode) : n.close.symbols = n.symbols := by
  simp [OpenNode.close, OpenFamily.symbols, OpenNode.symbols, NodeSpec.symbols]

theorem OpenFamily.symbols_close (f : OpenFamily) :
    symbolsOf f.close = f.symbols ++ [rightBraceSymbol] := by
  simp [OpenFamily.close, OpenFamily.symbols, Family.symbols]

namespace OpenFamily.WellFormed

variable {f : OpenFamily}

theorem close (h : f.WellFormed) : Schema.WellFormed f.close := by
  intro family hmem
  obtain hbefore | hlast := List.mem_append.1 hmem
  · exact h.before family hbefore
  · obtain rfl := List.mem_singleton.1 hlast
    exact ⟨h.name, h.nodes⟩

end OpenFamily.WellFormed

namespace OpenNode.WellFormed

variable {n : OpenNode}

theorem close (h : n.WellFormed) (hfields : n.fields ≠ []) : n.close.WellFormed := by
  refine ⟨h.family.before, h.family.name, fun node hmem => ?_⟩
  obtain hbefore | hlast := List.mem_append.1 hmem
  · exact h.family.nodes node hbefore
  · obtain rfl := List.mem_singleton.1 hlast
    exact ⟨h.name, hfields, h.fields⟩

theorem addField (h : n.WellFormed) {f : Field} (htype : IsName f.type) (hname : IsName f.name) :
    (n.addField f).WellFormed := by
  refine ⟨h.family, h.name, fun g hmem => ?_⟩
  obtain hbefore | hlast := List.mem_append.1 hmem
  · exact h.fields g hbefore
  · obtain rfl := List.mem_singleton.1 hlast
    exact ⟨htype, hname⟩

end OpenNode.WellFormed

theorem OpenNode.addField_ne_nil (n : OpenNode) (f : Field) : (n.addField f).fields ≠ [] := by
  simp [OpenNode.addField]

/-! ## One step -/

/-- **A step adds its symbol to those read**, and what has been read can still be written down. -/
theorem State.step_symbols {st st' : State} {t : Symbol} (h : st.step t.kind t.text = some st')
    (ht : t.Genuine) (hst : st.WellFormed) :
    st'.symbols = st.symbols ++ [t] ∧ st'.WellFormed := by
  have hname : t.kind = .name → t = nameSymbol t.text ∧ IsName t.text := fun hk => by
    unfold Symbol.Genuine at ht
    rw [hk] at ht
    exact ⟨congrArg (Symbol.mk · t.text) hk, ht⟩
  unfold State.step at h
  split at h
  · rename_i families _ hk
    cases h
    obtain ⟨heq, hn⟩ := hname hk
    exact ⟨by rw [heq]; rfl, hst, hn⟩
  · rename_i before name _ hk
    cases h
    rw [ht.eq (u := leftBraceSymbol) .leftBrace hk (by decide) (by decide)]
    exact ⟨by simp [State.symbols, OpenFamily.symbols], hst.1, hst.2, by simp⟩
  · rename_i family _ hk
    cases h
    obtain ⟨heq, hn⟩ := hname hk
    exact ⟨by rw [heq]; rfl, hst, hn⟩
  · rename_i family _ hk
    cases h
    rw [ht.eq (u := rightBraceSymbol) .rightBrace hk (by decide) (by decide)]
    exact ⟨OpenFamily.symbols_close _, OpenFamily.WellFormed.close hst⟩
  · rename_i family name _ hk
    cases h
    rw [ht.eq (u := colonSymbol) .colon hk (by decide) (by decide)]
    exact ⟨by simp [State.symbols, OpenNode.due, OpenNode.symbols, fieldSymbols, List.intercalate],
      hst.1, hst.2, by simp⟩
  · rename_i node _ hk
    cases h
    obtain ⟨heq, hn⟩ := hname hk
    exact ⟨by rw [heq]; rfl, hst, hn⟩
  · rename_i node type _ hk
    cases h
    rw [ht.eq_quantifier hk]
    exact ⟨by simp [State.symbols, Quantifier.toSymbol, Quantifier.ofText_symbol], hst⟩
  · rename_i node type _ hk
    cases h
    obtain ⟨heq, hn⟩ := hname hk
    refine ⟨?_, OpenNode.WellFormed.addField hst.1 hst.2 hn, OpenNode.addField_ne_nil _ _⟩
    rw [heq]
    simp [State.symbols, OpenNode.symbols_addField, Field.symbols, nameSymbol]
  · rename_i node type q _ hk
    cases h
    obtain ⟨heq, hn⟩ := hname hk
    refine ⟨?_, OpenNode.WellFormed.addField hst.1 hst.2 hn, OpenNode.addField_ne_nil _ _⟩
    rw [heq]
    simp [State.symbols, OpenNode.symbols_addField, Field.symbols, nameSymbol]
  · rename_i node _ hk
    cases h
    rw [ht.eq (u := commaSymbol) .comma hk (by decide) (by decide)]
    exact ⟨by simp [State.symbols, OpenNode.due, hst.2], hst.1⟩
  · rename_i node _ hk
    cases h
    obtain ⟨heq, hn⟩ := hname hk
    refine ⟨?_, OpenNode.WellFormed.close hst.1 hst.2, hn⟩
    rw [heq]
    simp [State.symbols, OpenNode.symbols_close, nameSymbol]
  · rename_i node _ hk
    cases h
    rw [ht.eq (u := rightBraceSymbol) .rightBrace hk (by decide) (by decide)]
    refine ⟨?_, OpenFamily.WellFormed.close (OpenNode.WellFormed.close hst.1 hst.2)⟩
    simp [State.symbols, OpenFamily.symbols_close, OpenNode.symbols_close]
  · cases h

/-! ## Runs -/

/-- Reads symbols one after the other. -/
def State.run : State → List Symbol → Option State
  | st, [] => some st
  | st, t :: ts => (st.step t.kind t.text).bind fun next => next.run ts

theorem State.run_append (st : State) (ts us : List Symbol) :
    st.run (ts ++ us) = (st.run ts).bind fun next => next.run us := by
  induction ts generalizing st with
  | nil => rfl
  | cons t ts ih =>
    rw [List.cons_append, State.run, State.run]
    cases st.step t.kind t.text with
    | none => rfl
    | some next => exact ih next

/-- **A run reads its symbols.** -/
theorem State.run_symbols {st st' : State} {ts : List Symbol} (h : st.run ts = some st')
    (hts : ∀ t ∈ ts, t.Genuine) (hst : st.WellFormed) :
    st'.symbols = st.symbols ++ ts ∧ st'.WellFormed := by
  induction ts generalizing st with
  | nil =>
    cases h
    exact ⟨by simp, hst⟩
  | cons t ts ih =>
    obtain ⟨ht, hts⟩ := List.forall_mem_cons.1 hts
    obtain ⟨next, hstep, hrun⟩ := Option.bind_eq_some_iff.1 h
    obtain ⟨hnext, hwell⟩ := State.step_symbols hstep ht hst
    obtain ⟨hsymbols, hwell'⟩ := ih hrun hts hwell
    exact ⟨by rw [hsymbols, hnext, List.append_assoc]; rfl, hwell'⟩

/-- The automaton reads a field. -/
theorem run_field (n : OpenNode) (f : Field) :
    (State.fieldDue n).run f.symbols = some (.fieldRead (n.addField f)) := by
  obtain ⟨type, name, quantifier⟩ := f
  cases quantifier with
  | none => rfl
  | some q =>
    show (State.quantifierRead n type (Quantifier.ofText q.symbol)).run [nameSymbol name] = _
    rw [Quantifier.ofText_symbol]
    rfl

/-- The automaton reads the fields of a node. -/
theorem run_fields (n : OpenNode) : ∀ fields : List Field, fields ≠ [] →
    (State.fieldDue n).run (fieldSymbols fields) =
      some (.fieldRead { n with fields := n.fields ++ fields })
  | [f], _ => by
    rw [fieldSymbols_singleton, run_field]
    rfl
  | f :: g :: fields, _ => by
    rw [fieldSymbols_cons_cons, State.run_append, run_field]
    show (State.fieldDue (n.addField f)).run (fieldSymbols (g :: fields)) = _
    rw [run_fields (n.addField f) (g :: fields) (by simp)]
    simp [OpenNode.addField]
  | [], h => absurd rfl h

/-- All nodes of a family so far are complete, or the last of them may still take a field. -/
inductive Inside : State → OpenFamily → Prop where
  | none {family : OpenFamily} : Inside (.inFamily family) family
  | node {n : OpenNode} : Inside (.fieldRead n) n.close

theorem Inside.run_node {st : State} {family : OpenFamily} (h : Inside st family) {node : NodeSpec}
    (hnode : node.fields ≠ []) : ∃ st', st.run node.symbols = some st' ∧
      Inside st' { family with nodes := family.nodes ++ [node] } := by
  have hfields : ∀ fam : OpenFamily, (State.nodeNamed fam node.name).run
      (colonSymbol :: fieldSymbols node.fields) =
        some (.fieldRead ⟨fam, node.name, node.fields⟩) := by
    intro fam
    show (State.fieldDue ⟨fam, node.name, []⟩).run (fieldSymbols node.fields) = _
    rw [run_fields _ _ hnode]
    rfl
  refine ⟨.fieldRead ⟨family, node.name, node.fields⟩, ?_, .node⟩
  cases h with
  | none => exact hfields family
  | node => exact hfields _

theorem Inside.run_nodes {st : State} {family : OpenFamily} (h : Inside st family)
    {nodes : List NodeSpec} (hnodes : ∀ node ∈ nodes, node.fields ≠ []) :
    ∃ st', st.run (nodes.flatMap NodeSpec.symbols) = some st' ∧
      Inside st' { family with nodes := family.nodes ++ nodes } := by
  induction nodes generalizing st family with
  | nil => exact ⟨st, rfl, by simpa using h⟩
  | cons node nodes ih =>
    obtain ⟨hnode, hnodes⟩ := List.forall_mem_cons.1 hnodes
    obtain ⟨st₁, hrun, hinside⟩ := h.run_node hnode
    obtain ⟨st₂, hrun', hinside'⟩ := ih hinside hnodes
    refine ⟨st₂, ?_, by simpa using hinside'⟩
    rw [List.flatMap_cons, State.run_append, hrun]
    exact hrun'

/-- The automaton reads a family. -/
theorem run_family (before : List Family) {family : Family} (h : family.WellFormed) :
    (State.outside before).run family.symbols = some (.outside (before ++ [family])) := by
  obtain ⟨st, hrun, hinside⟩ := (@Inside.none ⟨before, family.name, []⟩).run_nodes
    fun node hmem => (h.nodes node hmem).nonempty
  have hlast : st.run [rightBraceSymbol] = some (.outside (before ++ [family])) := by
    generalize hopen : OpenFamily.mk _ _ _ = fam at hinside
    have hclose : fam.close = before ++ [family] := by
      rw [← hopen]
      rfl
    rw [← hclose]
    cases hinside <;> rfl
  show (State.inFamily ⟨before, family.name, []⟩).run
    (family.nodes.flatMap NodeSpec.symbols ++ [rightBraceSymbol]) = _
  rw [State.run_append, hrun]
  exact hlast

/-- **The automaton reads a schema from its symbols.** -/
theorem run_symbolsOf (before : List Family) {families : List Family} (h : WellFormed families) :
    (State.outside before).run (symbolsOf families) = some (.outside (before ++ families)) := by
  induction families generalizing before with
  | nil => simp [symbolsOf, State.run]
  | cons family families ih =>
    obtain ⟨hfamily, hfamilies⟩ := List.forall_mem_cons.1 h
    rw [symbolsOf, List.flatMap_cons, State.run_append, run_family before hfamily]
    show (State.outside (before ++ [family])).run (symbolsOf families) = _
    rw [ih _ hfamilies, List.append_assoc]
    rfl

/-! ## Whole schemas -/

theorem wellFormed_start : (State.outside []).WellFormed := by simp [State.WellFormed, WellFormed]

/-- **The automaton gives the schema that its symbols stand for.** -/
theorem run_eq_some_iff {ts : List Symbol} (hts : ∀ t ∈ ts, t.Genuine) (families : List Family) :
    (State.outside []).run ts = some (.outside families) ↔
      symbolsOf families = ts ∧ WellFormed families := by
  constructor
  · intro h
    obtain ⟨hsymbols, hwell⟩ := State.run_symbols h hts wellFormed_start
    exact ⟨hsymbols, hwell⟩
  · rintro ⟨rfl, hwell⟩
    exact run_symbolsOf [] hwell

/-- Two schemas are never written down as the same symbols. -/
theorem symbolsOf_injective {families families' : List Family} (h : WellFormed families)
    (h' : WellFormed families') (heq : symbolsOf families = symbolsOf families') :
    families = families' := by
  have hgenuine := symbolsOf_genuine h
  have hrun := (run_eq_some_iff hgenuine families).2 ⟨rfl, h⟩
  rw [(run_eq_some_iff hgenuine families').2 ⟨heq.symm, h'⟩] at hrun
  cases hrun
  rfl

theorem isName_a : IsName "a" := .name (.inl rfl) (by simp)

/-- In any state, what has been read is the beginning of a schema. -/
theorem State.exists_completion {st : State} (h : st.WellFormed) :
    ∃ us families, symbolsOf families = st.symbols ++ us ∧ Schema.WellFormed families := by
  have hinside : ∀ f : OpenFamily, f.WellFormed → ∃ us families,
      symbolsOf families = f.symbols ++ us ∧ Schema.WellFormed families :=
    fun f hf => ⟨_, _, f.symbols_close, hf.close⟩
  -- A node is complete once it has another field.
  have hfield : ∀ (n : OpenNode) (f : Field), n.WellFormed → IsName f.type → IsName f.name →
      ∃ us families, symbolsOf families = n.due ++ f.symbols ++ us ∧ Schema.WellFormed families := by
    intro n f hn htype hname
    obtain ⟨us, families, hsymbols, hwell⟩ :=
      hinside _ ((hn.addField htype hname).close (n.addField_ne_nil f))
    rw [OpenNode.symbols_close, OpenNode.symbols_addField] at hsymbols
    exact ⟨us, families, hsymbols, hwell⟩
  cases st with
  | outside families => exact ⟨[], families, by simp [State.symbols], h⟩
  | familyNamed before name =>
    obtain ⟨us, families, hsymbols, hwell⟩ := hinside ⟨before, name, []⟩ ⟨h.1, h.2, by simp⟩
    exact ⟨leftBraceSymbol :: us, families,
      by simp [hsymbols, OpenFamily.symbols, State.symbols], hwell⟩
  | inFamily family => exact hinside family h
  | nodeNamed family name =>
    obtain ⟨us, families, hsymbols, hwell⟩ :=
      hfield ⟨family, name, []⟩ ⟨"a", "a", none⟩ ⟨h.1, h.2, by simp⟩ isName_a isName_a
    refine ⟨colonSymbol :: (Field.symbols ⟨"a", "a", none⟩ ++ us), families, ?_, hwell⟩
    simp [hsymbols, OpenNode.due, OpenNode.symbols, fieldSymbols, List.intercalate, State.symbols]
  | fieldDue node =>
    obtain ⟨us, families, hsymbols, hwell⟩ := hfield node ⟨"a", "a", none⟩ h isName_a isName_a
    exact ⟨_, families, hsymbols.trans (List.append_assoc ..), hwell⟩
  | typeRead node type =>
    obtain ⟨us, families, hsymbols, hwell⟩ := hfield node ⟨type, "a", none⟩ h.1 h.2 isName_a
    exact ⟨nameSymbol "a" :: us, families, by simp [hsymbols, State.symbols, Field.symbols], hwell⟩
  | quantifierRead node type q =>
    obtain ⟨us, families, hsymbols, hwell⟩ := hfield node ⟨type, "a", some q⟩ h.1 h.2 isName_a
    exact ⟨nameSymbol "a" :: us, families, by simp [hsymbols, State.symbols, Field.symbols], hwell⟩
  | fieldRead node =>
    obtain ⟨us, families, hsymbols, hwell⟩ := hinside _ (h.1.close h.2)
    rw [OpenNode.symbols_close] at hsymbols
    exact ⟨us, families, hsymbols, hwell⟩

end LoxLang.Schema
