import Mathlib.Data.List.Basic
import LoxLang.Schema.Grammar

/-!
# Derivations of schemas

The symbols that the grammar derives, each time with the tree of the derivation.  A schema is written
down as the symbols that it stands for: these are derivable, nothing else is, and the tree of the
derivation is made into the schema again.

* `Spelled` — the texts of each kind of symbols.
* `Derives` — an expansion derives symbols, with the trees of a derivation.
* `Derivable`, `Viable` — derivable symbols, and those that can be continued to derivable ones.
* `Parser.Sound` — a parser gives the trees of derivations.
* `symbolsOf` — a schema as symbols; `WellFormed` — the schemas that can be written down.

Principal results: `derivesTree_iff`, `derivable_iff`, `families?_treeOf`, `Parser.Sound.wellFormed`.
-/

namespace LoxLang.Schema

/-! ## Symbols -/

/-- A letter of ASCII or an underscore. -/
def NameStart (c : Char) : Prop := c.isAlpha = true ∨ c = '_'

/-- A letter or a digit of ASCII or an underscore. -/
def NameRest (c : Char) : Prop := c.isAlphanum = true ∨ c = '_'

/-- The texts of each kind of lexemes. -/
inductive Spelled : LexemeKind → List Char → Prop where
  | name {c : Char} {cs : List Char} :
      NameStart c → (∀ d ∈ cs, NameRest d) → Spelled .name (c :: cs)
  | leftBrace : Spelled .leftBrace ['\x7b']
  | rightBrace : Spelled .rightBrace ['\x7d']
  | colon : Spelled .colon [':']
  | comma : Spelled .comma [',']
  | optional : Spelled .quantifier ['?']
  | many : Spelled .quantifier ['*']

/-- A symbol is spelled as its kind says. -/
def Symbol.Genuine (t : Symbol) : Prop := Spelled t.kind t.text.toList

/-! ## The grammar -/

/-- An expansion derives symbols.  The trees are what a branch of the derivation has for them: symbols
whose terminals have names, branches for rules, and marks for what is missing in brackets. -/
inductive Derives : Expansion → List Symbol → List Tree → Prop where
  | named {t : Symbol} : t.kind.isNamed = true → Derives (.terminal t.kind) [t] [.token t]
  | unnamed {t : Symbol} : t.kind.isNamed = false → Derives (.terminal t.kind) [t] []
  | rule {r : Rule} {ts : List Symbol} {trees : List Tree} :
      Derives r.expansion ts trees → Derives (.rule r) ts [.branch r trees]
  | seq {a b : Expansion} {ts us : List Symbol} {trees trees' : List Tree} :
      Derives a ts trees → Derives b us trees' → Derives (.seq a b) (ts ++ us) (trees ++ trees')
  | none {a : Expansion} : Derives (.many a) [] []
  | more {a : Expansion} {ts us : List Symbol} {trees trees' : List Tree} :
      Derives a ts trees → Derives (.many a) us trees' →
      Derives (.many a) (ts ++ us) (trees ++ trees')
  | absent {a : Expansion} : Derives (.option a) [] [.missing]
  | present {a : Expansion} {ts : List Symbol} {trees : List Tree} :
      Derives a ts trees → Derives (.option a) ts trees

/-- Symbols that the grammar derives, with a tree of a derivation. -/
def DerivesTree (ts : List Symbol) (tree : Tree) : Prop := Derives (.rule .start) ts [tree]

def Derivable (ts : List Symbol) : Prop := ∃ tree, DerivesTree ts tree

/-- A schema may begin with these symbols. -/
def Viable (ts : List Symbol) : Prop := ∃ us, (∀ t ∈ us, t.Genuine) ∧ Derivable (ts ++ us)

/-- The trees that a parser gives for texts are those of derivations. -/
def Parser.Sound (parse : Parser) : Prop :=
  ∀ text tree, parse text = .ok tree → ∃ ts, (∀ t ∈ ts, t.Genuine) ∧ DerivesTree ts tree

/-! ## Schemas as symbols -/

def nameSymbol (text : String) : Symbol := ⟨.name, text⟩

def leftBraceSymbol : Symbol := ⟨.leftBrace, "\x7b"⟩

def rightBraceSymbol : Symbol := ⟨.rightBrace, "\x7d"⟩

def colonSymbol : Symbol := ⟨.colon, ":"⟩

def commaSymbol : Symbol := ⟨.comma, ","⟩

def Quantifier.toSymbol (q : Quantifier) : Symbol := ⟨.quantifier, q.symbol⟩

def Field.symbols (f : Field) : List Symbol :=
  nameSymbol f.type :: ((f.quantifier.map Quantifier.toSymbol).toList ++ [nameSymbol f.name])

def fieldSymbols (fields : List Field) : List Symbol :=
  [commaSymbol].intercalate (fields.map Field.symbols)

theorem fieldSymbols_singleton (f : Field) : fieldSymbols [f] = f.symbols := by
  simp [fieldSymbols]

theorem fieldSymbols_cons_cons (f g : Field) (fields : List Field) :
    fieldSymbols (f :: g :: fields) =
      f.symbols ++ commaSymbol :: fieldSymbols (g :: fields) := by
  simp [fieldSymbols, List.intercalate_cons_cons]

def NodeSpec.symbols (node : NodeSpec) : List Symbol :=
  nameSymbol node.name :: colonSymbol :: fieldSymbols node.fields

def Family.symbols (family : Family) : List Symbol :=
  nameSymbol family.name :: leftBraceSymbol ::
    (family.nodes.flatMap NodeSpec.symbols ++ [rightBraceSymbol])

/-- The symbols that a schema stands for. -/
def symbolsOf (families : List Family) : List Symbol := families.flatMap Family.symbols

/-- A text that is a name. -/
def IsName (text : String) : Prop := Spelled .name text.toList

/-- A node has a field, and all names are names. -/
structure NodeSpec.WellFormed (node : NodeSpec) : Prop where
  name : IsName node.name
  nonempty : node.fields ≠ []
  fields : ∀ f ∈ node.fields, IsName f.type ∧ IsName f.name

structure Family.WellFormed (family : Family) : Prop where
  name : IsName family.name
  nodes : ∀ node ∈ family.nodes, node.WellFormed

/-- Schemas that can be written down. -/
def WellFormed (families : List Family) : Prop := ∀ family ∈ families, family.WellFormed

theorem fieldSymbols_cons (f : Field) (fields : List Field) :
    fieldSymbols (f :: fields) = f.symbols ++ fields.flatMap fun g => commaSymbol :: g.symbols := by
  induction fields generalizing f with
  | nil => rw [fieldSymbols_singleton, List.flatMap_nil, List.append_nil]
  | cons g fields ih => rw [fieldSymbols_cons_cons, ih, List.flatMap_cons, List.cons_append]

/-! ## Genuine symbols -/

theorem Quantifier.ofText_symbol (q : Quantifier) : Quantifier.ofText q.symbol = q := by
  cases q <;> rfl

namespace Symbol

variable {t : Symbol}

theorem ext_toList {a b : Symbol} (hkind : a.kind = b.kind) (htext : a.text.toList = b.text.toList) :
    a = b := by
  obtain ⟨k, s⟩ := a
  obtain ⟨k', s'⟩ := b
  obtain rfl : k = k' := hkind
  obtain rfl : s = s' := String.toList_inj.1 htext
  rfl

/-- Of the kinds other than names and quantifiers there is one symbol each. -/
theorem Genuine.eq {u : Symbol} (h : t.Genuine) (hu : u.Genuine) (hkind : t.kind = u.kind)
    (hname : u.kind ≠ .name) (hquantifier : u.kind ≠ .quantifier) : t = u := by
  unfold Genuine at h hu
  rw [hkind] at h
  refine ext_toList hkind ?_
  generalize t.text.toList = w at h
  generalize u.text.toList = w' at hu
  generalize u.kind = k at h hu hname hquantifier
  cases h with
  | name => exact absurd rfl hname
  | optional | many => exact absurd rfl hquantifier
  | leftBrace | rightBrace | colon | comma => cases hu; rfl

theorem Genuine.eq_quantifier (h : t.Genuine) (hkind : t.kind = .quantifier) :
    t = (Quantifier.ofText t.text).toSymbol := by
  obtain ⟨k, text⟩ := t
  obtain rfl : k = .quantifier := hkind
  obtain ⟨w, rfl⟩ : ∃ w, text = String.ofList w := ⟨text.toList, String.ofList_toList.symm⟩
  unfold Genuine at h
  rw [String.toList_ofList] at h
  cases h with
  | optional => rfl
  | many => rfl

end Symbol

theorem Field.symbols_genuine {f : Field} (htype : IsName f.type) (hname : IsName f.name) :
    ∀ t ∈ f.symbols, t.Genuine := by
  obtain ⟨type, name, quantifier⟩ := f
  refine List.forall_mem_cons.2 ⟨htype, List.forall_mem_append.2 ⟨fun t ht => ?_,
    List.forall_mem_singleton.2 hname⟩⟩
  obtain ⟨q, _, rfl⟩ := Option.map_eq_some_iff.1 (Option.mem_toList.1 ht)
  cases q with
  | optional => exact Spelled.optional
  | many => exact Spelled.many

theorem fieldSymbols_genuine : ∀ {fields : List Field},
    (∀ f ∈ fields, IsName f.type ∧ IsName f.name) → ∀ t ∈ fieldSymbols fields, t.Genuine
  | [], _ => by simp [fieldSymbols]
  | [f], h => by
    have hf := h f List.mem_cons_self
    rw [fieldSymbols_singleton]
    exact Field.symbols_genuine hf.1 hf.2
  | f :: g :: fields, h => by
    obtain ⟨hf, hrest⟩ := List.forall_mem_cons.1 h
    rw [fieldSymbols_cons_cons]
    exact List.forall_mem_append.2 ⟨Field.symbols_genuine hf.1 hf.2,
      List.forall_mem_cons.2 ⟨Spelled.comma, fieldSymbols_genuine hrest⟩⟩

theorem NodeSpec.WellFormed.genuine {node : NodeSpec} (h : node.WellFormed) :
    ∀ t ∈ node.symbols, t.Genuine := by
  rw [NodeSpec.symbols, List.forall_mem_cons, List.forall_mem_cons]
  exact ⟨h.name, Spelled.colon, fieldSymbols_genuine h.fields⟩

theorem Family.WellFormed.genuine {family : Family} (h : family.WellFormed) :
    ∀ t ∈ family.symbols, t.Genuine := by
  rw [Family.symbols, List.forall_mem_cons, List.forall_mem_cons, List.forall_mem_append,
    List.forall_mem_singleton, List.forall_mem_flatMap]
  exact ⟨h.name, Spelled.leftBrace, fun node hmem => (h.nodes node hmem).genuine, Spelled.rightBrace⟩

/-- The symbols of a schema are genuine. -/
theorem symbolsOf_genuine {families : List Family} (h : WellFormed families) :
    ∀ t ∈ symbolsOf families, t.Genuine :=
  List.forall_mem_flatMap.2 fun family hmem => (h family hmem).genuine

/-! ## The derivation of a schema -/

/-- Repeated parts derive the symbols of a list. -/
theorem Derives.many_of_list {α : Type} {a : Expansion} {symbols : α → List Symbol}
    {tree : α → Tree} {xs : List α} (h : ∀ x ∈ xs, Derives a (symbols x) [tree x]) :
    Derives (.many a) (xs.flatMap symbols) (xs.map tree) := by
  induction xs with
  | nil => exact .none
  | cons x xs ih =>
    obtain ⟨hx, hxs⟩ := List.forall_mem_cons.1 h
    exact .more hx (ih hxs)

theorem derives_name (text : String) :
    Derives (.terminal .name) [nameSymbol text] [nameTree text] :=
  .named (t := nameSymbol text) rfl

theorem derives_field (f : Field) : Derives (.rule .field) f.symbols [f.tree] := by
  obtain ⟨type, name, quantifier⟩ := f
  refine .rule (.seq (derives_name type) ?_)
  cases quantifier with
  | none => exact .seq .absent (derives_name name)
  | some q => exact .seq (.present (.named (t := q.toSymbol) rfl)) (derives_name name)

theorem derives_node {node : NodeSpec} (h : node.fields ≠ []) :
    Derives (.rule .node) node.symbols [node.tree] := by
  obtain ⟨name, fields⟩ := node
  cases fields with
  | nil => exact absurd rfl h
  | cons f fields =>
    have hrest : ∀ g ∈ fields, Derives (.seq (.terminal .comma) (.rule .field))
        (commaSymbol :: g.symbols) [g.tree] :=
      fun g _ => .seq (.unnamed (t := commaSymbol) rfl) (derives_field g)
    have hfields := Derives.seq (derives_field f) (Derives.many_of_list hrest)
    rw [← fieldSymbols_cons] at hfields
    exact .rule (.seq (derives_name name) (.seq (.unnamed (t := colonSymbol) rfl) hfields))

theorem derives_family {family : Family} (h : family.WellFormed) :
    Derives (.rule .family) family.symbols [family.tree] := by
  have hnodes := Derives.many_of_list fun node hmem => derives_node (h.nodes node hmem).nonempty
  have hclose := Derives.seq hnodes (.unnamed (t := rightBraceSymbol) rfl)
  rw [List.append_nil] at hclose
  exact .rule (.seq (derives_name family.name) (.seq (.unnamed (t := leftBraceSymbol) rfl) hclose))

/-- **A schema that can be written down is derived**, with its tree. -/
theorem derivesTree_symbolsOf {families : List Family} (h : WellFormed families) :
    DerivesTree (symbolsOf families) (treeOf families) :=
  .rule (Derives.many_of_list fun family hmem => derives_family (h family hmem))

/-! ## The schema of a derivation -/

section

variable {ts : List Symbol} {trees : List Tree}

theorem Derives.terminal_inv {kind : LexemeKind} (h : Derives (.terminal kind) ts trees) :
    ∃ t, t.kind = kind ∧ ts = [t] ∧ trees = if kind.isNamed then [.token t] else [] := by
  generalize he : Expansion.terminal kind = e at h
  cases h with
  | @named t hnamed =>
    cases he
    exact ⟨t, rfl, rfl, by rw [if_pos hnamed]⟩
  | @unnamed t hnamed =>
    cases he
    exact ⟨t, rfl, rfl, by rw [hnamed]; rfl⟩
  | _ => cases he

theorem Derives.name_inv (h : Derives (.terminal .name) ts trees) (hts : ∀ t ∈ ts, t.Genuine) :
    ∃ text, IsName text ∧ ts = [nameSymbol text] ∧ trees = [nameTree text] := by
  obtain ⟨⟨kind, text⟩, rfl, rfl, rfl⟩ := h.terminal_inv
  exact ⟨text, hts _ List.mem_cons_self, rfl, rfl⟩

/-- A sign is derived by its terminal, and leaves no tree. -/
theorem Derives.sign_inv {u : Symbol} (hu : u.Genuine) (hunnamed : u.kind.isNamed = false)
    (h : Derives (.terminal u.kind) ts trees) (hts : ∀ t ∈ ts, t.Genuine) :
    ts = [u] ∧ trees = [] := by
  obtain ⟨t, hkind, rfl, rfl⟩ := h.terminal_inv
  have hname : u.kind ≠ .name := fun heq => by rw [heq] at hunnamed; cases hunnamed
  have hquantifier : u.kind ≠ .quantifier := fun heq => by rw [heq] at hunnamed; cases hunnamed
  refine ⟨congrArg (fun t => [t]) ((hts t List.mem_cons_self).eq hu hkind hname hquantifier), ?_⟩
  rw [hunnamed]
  rfl

theorem Derives.seq_inv {a b : Expansion} (h : Derives (.seq a b) ts trees)
    (hts : ∀ t ∈ ts, t.Genuine) : ∃ us vs trees₁ trees₂, ts = us ++ vs ∧ trees = trees₁ ++ trees₂ ∧
      Derives a us trees₁ ∧ Derives b vs trees₂ ∧ (∀ t ∈ us, t.Genuine) ∧ ∀ t ∈ vs, t.Genuine := by
  cases h with
  | seq ha hb =>
    obtain ⟨hus, hvs⟩ := List.forall_mem_append.1 hts
    exact ⟨_, _, _, _, rfl, rfl, ha, hb, hus, hvs⟩

theorem Derives.rule_inv {r : Rule} (h : Derives (.rule r) ts trees) :
    ∃ inner, Derives r.expansion ts inner ∧ trees = [.branch r inner] := by
  cases h with
  | rule h => exact ⟨_, h, rfl⟩

/-- Repeated parts are those of a list, if each of them is that of an element. -/
theorem Derives.many_inv {α : Type} {a : Expansion} {P : α → Prop} {symbols : α → List Symbol}
    {tree : α → Tree} (hpart : ∀ us trees, Derives a us trees → (∀ t ∈ us, t.Genuine) →
      ∃ x, P x ∧ us = symbols x ∧ trees = [tree x])
    (h : Derives (.many a) ts trees) (hts : ∀ t ∈ ts, t.Genuine) :
    ∃ xs : List α, (∀ x ∈ xs, P x) ∧ ts = xs.flatMap symbols ∧ trees = xs.map tree := by
  generalize he : Expansion.many a = e at h
  induction h with
  | none => exact ⟨[], by simp, rfl, rfl⟩
  | more ha _ _ ih =>
    cases he
    obtain ⟨hus, hvs⟩ := List.forall_mem_append.1 hts
    obtain ⟨x, hx, rfl, rfl⟩ := hpart _ _ ha hus
    obtain ⟨xs, hxs, rfl, rfl⟩ := ih hvs rfl
    exact ⟨x :: xs, List.forall_mem_cons.2 ⟨hx, hxs⟩, rfl, rfl⟩
  | _ => cases he

/-- The names of a field are names. -/
def Field.Named (f : Field) : Prop := IsName f.type ∧ IsName f.name

theorem Derives.field_inv (h : Derives (.rule .field) ts trees) (hts : ∀ t ∈ ts, t.Genuine) :
    ∃ f : Field, f.Named ∧ ts = f.symbols ∧ trees = [f.tree] := by
  obtain ⟨_, hbody, rfl⟩ := h.rule_inv
  obtain ⟨_, _, _, _, rfl, rfl, htype, h, hts₁, hts⟩ := hbody.seq_inv hts
  obtain ⟨_, _, _, _, rfl, rfl, hquantifier, hname, hts₂, hts₃⟩ := h.seq_inv hts
  obtain ⟨type, hn, rfl, rfl⟩ := htype.name_inv hts₁
  obtain ⟨name, hn', rfl, rfl⟩ := hname.name_inv hts₃
  cases hquantifier with
  | absent => exact ⟨⟨type, name, .none⟩, ⟨hn, hn'⟩, rfl, rfl⟩
  | present h =>
    obtain ⟨t, hkind, rfl, rfl⟩ := h.terminal_inv
    have ht := (hts₂ t List.mem_cons_self).eq_quantifier hkind
    rw [ht]
    exact ⟨⟨type, name, some (.ofText t.text)⟩, ⟨hn, hn'⟩, rfl, rfl⟩

theorem Derives.node_inv (h : Derives (.rule .node) ts trees) (hts : ∀ t ∈ ts, t.Genuine) :
    ∃ node : NodeSpec, node.WellFormed ∧ ts = node.symbols ∧ trees = [node.tree] := by
  obtain ⟨_, hbody, rfl⟩ := h.rule_inv
  obtain ⟨_, _, _, _, rfl, rfl, hname, h, hts₁, htail⟩ := hbody.seq_inv hts
  obtain ⟨_, _, _, _, rfl, rfl, hcolon, h, hts₂, htail⟩ := h.seq_inv htail
  obtain ⟨_, _, _, _, rfl, rfl, hfirst, hrest, hts₃, hts₄⟩ := h.seq_inv htail
  obtain ⟨name, hn, rfl, rfl⟩ := hname.name_inv hts₁
  obtain ⟨rfl, rfl⟩ := Derives.sign_inv (u := colonSymbol) .colon rfl hcolon hts₂
  obtain ⟨f, hf, rfl, rfl⟩ := hfirst.field_inv hts₃
  have hpart : ∀ us trees, Derives (.seq (.terminal .comma) (.rule .field)) us trees →
      (∀ t ∈ us, t.Genuine) →
      ∃ g : Field, g.Named ∧ us = commaSymbol :: g.symbols ∧ trees = [g.tree] := by
    intro us trees h hus
    obtain ⟨_, _, _, _, rfl, rfl, hcomma, hfield, hus₁, hus₂⟩ := h.seq_inv hus
    obtain ⟨rfl, rfl⟩ := Derives.sign_inv (u := commaSymbol) .comma rfl hcomma hus₁
    obtain ⟨g, hg, rfl, rfl⟩ := hfield.field_inv hus₂
    exact ⟨g, hg, rfl, rfl⟩
  obtain ⟨fields, hfields, rfl, rfl⟩ := hrest.many_inv hpart hts₄
  refine ⟨⟨name, f :: fields⟩, ⟨hn, by simp, List.forall_mem_cons.2 ⟨hf, hfields⟩⟩, ?_, rfl⟩
  rw [NodeSpec.symbols, fieldSymbols_cons]
  rfl

theorem Derives.family_inv (h : Derives (.rule .family) ts trees) (hts : ∀ t ∈ ts, t.Genuine) :
    ∃ family : Family, family.WellFormed ∧ ts = family.symbols ∧ trees = [family.tree] := by
  obtain ⟨_, hbody, rfl⟩ := h.rule_inv
  obtain ⟨_, _, _, _, rfl, rfl, hname, h, hts₁, htail⟩ := hbody.seq_inv hts
  obtain ⟨_, _, _, _, rfl, rfl, hleft, h, hts₂, htail⟩ := h.seq_inv htail
  obtain ⟨_, _, _, _, rfl, rfl, hnodes, hright, hts₃, hts₄⟩ := h.seq_inv htail
  obtain ⟨name, hn, rfl, rfl⟩ := hname.name_inv hts₁
  obtain ⟨rfl, rfl⟩ := Derives.sign_inv (u := leftBraceSymbol) .leftBrace rfl hleft hts₂
  obtain ⟨nodes, hwell, rfl, rfl⟩ := hnodes.many_inv (fun _ _ => Derives.node_inv) hts₃
  obtain ⟨rfl, rfl⟩ := Derives.sign_inv (u := rightBraceSymbol) .rightBrace rfl hright hts₄
  refine ⟨⟨name, nodes⟩, ⟨hn, hwell⟩, rfl, ?_⟩
  simp [Family.tree]

/-- **What is derived are the schemas that can be written down**, and the grammar leaves no choice of
the tree. -/
theorem derivesTree_iff (hts : ∀ t ∈ ts, t.Genuine) (tree : Tree) : DerivesTree ts tree ↔
    ∃ families, WellFormed families ∧ ts = symbolsOf families ∧ tree = treeOf families := by
  constructor
  · intro h
    obtain ⟨_, hbody, heq⟩ := h.rule_inv
    obtain rfl := List.singleton_inj.1 heq
    obtain ⟨families, hwell, rfl, rfl⟩ := hbody.many_inv (fun _ _ => Derives.family_inv) hts
    exact ⟨families, hwell, rfl, rfl⟩
  · rintro ⟨families, hwell, rfl, rfl⟩
    exact derivesTree_symbolsOf hwell

/-- **Symbols are derivable exactly if they are those of a schema.** -/
theorem derivable_iff (hts : ∀ t ∈ ts, t.Genuine) :
    Derivable ts ↔ ∃ families, symbolsOf families = ts ∧ WellFormed families := by
  constructor
  · rintro ⟨tree, h⟩
    obtain ⟨families, hwell, rfl, -⟩ := (derivesTree_iff hts tree).1 h
    exact ⟨families, rfl, hwell⟩
  · rintro ⟨families, rfl, hwell⟩
    exact ⟨_, derivesTree_symbolsOf hwell⟩

end

/-! ## The schema of a tree -/

theorem mapM_map_of_inverse {α β : Type} {f : β → Option α} {g : α → β}
    (h : ∀ x, f (g x) = some x) (xs : List α) : (xs.map g).mapM f = some xs := by
  induction xs with
  | nil => rfl
  | cons x xs ih => simp [h, ih]

theorem Tree.buildAll?_map {α : Type} {tree : α → Tree} {built : α → Built}
    (h : ∀ x, (tree x).build? = some (built x)) (xs : List α) :
    Tree.buildAll? (xs.map tree) = some (xs.map built) := by
  induction xs with
  | nil => rfl
  | cons x xs ih => simp [Tree.buildAll?, h, ih]

theorem Field.build?_tree (f : Field) : f.tree.build? = some (.field f) := by
  obtain ⟨type, name, quantifier⟩ := f
  cases quantifier with
  | none => rfl
  | some q => cases q <;> rfl

theorem NodeSpec.build?_tree (node : NodeSpec) : node.tree.build? = some (.node node) := by
  have hfields := mapM_map_of_inverse (f := Built.field?) (g := Built.field) (fun _ => rfl)
    node.fields
  simp [NodeSpec.tree, Tree.build?, Tree.buildAll?, Tree.buildAll?_map Field.build?_tree, nameTree,
    Symbol.build, Rule.build?, hfields]

theorem Family.build?_tree (family : Family) : family.tree.build? = some (.family family) := by
  have hnodes := mapM_map_of_inverse (f := Built.node?) (g := Built.node) (fun _ => rfl)
    family.nodes
  simp [Family.tree, Tree.build?, Tree.buildAll?, Tree.buildAll?_map NodeSpec.build?_tree, nameTree,
    Symbol.build, Rule.build?, hnodes]

/-- **The tree of a schema is made into the schema.** -/
theorem families?_treeOf (families : List Family) : (treeOf families).families? = some families := by
  have hfamilies := mapM_map_of_inverse (f := Built.family?) (g := Built.family) (fun _ => rfl)
    families
  simp [treeOf, Tree.families?, Tree.build?, Tree.buildAll?_map Family.build?_tree, Rule.build?,
    hfamilies]

/-- What is read with a sound parser can be written down. -/
theorem Parser.Sound.wellFormed {parse : Parser} (h : parse.Sound) {text : String}
    {families : List Family} (hread : parse.read text = .ok families) : WellFormed families := by
  unfold Parser.read at hread
  cases hparse : parse text with
  | error e =>
    rw [hparse] at hread
    cases hread
  | ok tree =>
    obtain ⟨ts, hts, hderives⟩ := h text tree hparse
    obtain ⟨families', hwell, -, rfl⟩ := (derivesTree_iff hts tree).1 hderives
    simp only [hparse, families?_treeOf] at hread
    cases hread
    exact hwell

/-- A sound parser gives no tree that nothing can be made of. -/
theorem Parser.Sound.ne_malformed {parse : Parser} (h : parse.Sound) {text : String}
    (hparse : parse text ≠ .error .malformed) : parse.read text ≠ .error .malformed := by
  unfold Parser.read
  cases hresult : parse text with
  | error e =>
    rw [hresult] at hparse
    simpa using hparse
  | ok tree =>
    obtain ⟨ts, hts, hderives⟩ := h text tree hresult
    obtain ⟨families, _, -, rfl⟩ := (derivesTree_iff hts tree).1 hderives
    simp [families?_treeOf]

end LoxLang.Schema
