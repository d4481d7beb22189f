import Mathlib.Data.List.Basic
import LoxLang.Proofs.Schema.Offence
import LoxLang.Schema.Classes

/-!
# A schema from its classes

The classes that are generated from a schema tell the whole schema.  They are read line by line from
the last to the first: the lines of fields are gathered until the line of their class is met, and the
classes of nodes until the line of their family.

* `Gathered` — what the lines from some line on tell; `Gathered.above` adds the lines above them.
* `ofClasses` — the schema that a text of classes tells.

Principal results: `ofClasses_classes`, `generated_code_tells_the_schema`.
-/

namespace LoxLang.Schema

/-! ## Reading classes -/

/-- The name at the head of a text, and what follows it. -/
def headName (cs : List Char) : String × List Char :=
  (String.ofList (cs.takeWhile isNameRest), cs.dropWhile isNameRest)

/-- The field of this name whose type annotation is this text. -/
def Field.ofText (name : String) (text : List Char) : Field :=
  match headName text with
  | (word, '[' :: rest) =>
    ⟨(headName rest).1, name, some (if word = "Optional" then .optional else .many)⟩
  | (word, _) => ⟨word, name, none⟩

/-- What is told by the lines from some line on: the fields of a node and the nodes of a family
whose classes start above, and the families that start here. -/
structure Gathered where
  fields : List Field
  nodes : List NodeSpec
  families : List Family

namespace Gathered

/-- Adds the line that starts a class, from its name on. -/
def startClass (g : Gathered) (rest : List Char) : Gathered :=
  if (headName rest).2 = "(Node, ABC):".toList then
    ⟨[], [], ⟨(headName rest).1, g.nodes⟩ :: g.families⟩
  else ⟨[], ⟨(headName rest).1, g.fields⟩ :: g.nodes, g.families⟩

/-- Adds an indented line, which is that of a field if a colon follows its name. -/
def startField (g : Gathered) (rest : List Char) : Gathered :=
  match headName rest with
  | (name, ':' :: ' ' :: text) => { g with fields := .ofText name text :: g.fields }
  | _ => g

/-- Adds a line above.  Those that start neither a class nor a field tell nothing. -/
def line (line : List Char) (g : Gathered) : Gathered :=
  match line.dropPrefix? "class ".toList, line.dropPrefix? "    ".toList with
  | some rest, _ => g.startClass rest
  | none, some rest => g.startField rest
  | none, none => g

/-- Adds the lines of a text above. -/
def above (g : Gathered) (text : String) : Gathered :=
  (text.toList.splitOn '\n').foldr Gathered.line g

/-- Adds the lines of several texts above, those of the last one first. -/
def aboveAll (g : Gathered) (texts : List String) : Gathered :=
  texts.foldr (fun text g => g.above text) g

end Gathered

/-- The schema that a text of classes tells. -/
def ofClasses (code : String) : List Family := (Gathered.above ⟨[], [], []⟩ code).families

/-! ## Names -/

section Names

variable {name : String}

theorem IsName.rest (h : IsName name) : ∀ c ∈ name.toList, isNameRest c = true := by
  unfold IsName at h
  generalize name.toList = cs at h
  cases h with
  | name hc hrest =>
    refine List.forall_mem_cons.2 ⟨(isNameRest_iff _).2 hc.rest, fun d hd => ?_⟩
    exact (isNameRest_iff d).2 (hrest d hd)

theorem IsName.not_mem (h : IsName name) {c : Char} (hc : isNameRest c = false) :
    c ∉ name.toList := by
  intro hmem
  rw [h.rest c hmem] at hc
  cases hc

/-- A name is read up to the first character that belongs to none. -/
theorem headName_append (h : ∀ c ∈ name.toList, isNameRest c = true) {rest : List Char}
    (hrest : ∀ c, rest.head? = some c → isNameRest c = false) :
    headName (name.toList ++ rest) = (name, rest) := by
  have hnone : rest.takeWhile isNameRest = [] ∧ rest.dropWhile isNameRest = rest := by
    cases rest with
    | nil => exact ⟨rfl, rfl⟩
    | cons c cs => simp [hrest c rfl]
  unfold headName
  rw [List.takeWhile_append_of_pos h, List.dropWhile_append_of_pos h, hnone.1, hnone.2,
    List.append_nil, String.ofList_toList]

theorem headName_toList (h : IsName name) : headName name.toList = (name, []) := by
  have hread : headName (name.toList ++ []) = (name, []) := headName_append h.rest (by simp)
  rwa [List.append_nil] at hread

end Names

/-! ## Lines -/

namespace Gathered

variable (g : Gathered)

theorem above_below (a b : String) : g.above (a ++ "\n" ++ b) = (g.above b).above a := by
  have hlist : (a ++ "\n" ++ b).toList = a.toList ++ '\n' :: b.toList := by simp
  rw [above, hlist, List.splitOn_append_cons_self, List.foldr_append]
  rfl

/-- A text without a line feed is one line. -/
theorem above_line {text : String} (h : '\n' ∉ text.toList) :
    g.above text = g.line text.toList := by
  rw [above, List.splitOn_eq_singleton h]
  rfl

/-- A line tells nothing if it does not begin like that of a class or of a field. -/
theorem above_other {text : String} (hfeed : '\n' ∉ text.toList)
    (hhead : text.toList.head? ≠ some 'c' ∧ text.toList.head? ≠ some ' ') : g.above text = g := by
  have hnone : text.toList.dropPrefix? "class ".toList = none ∧
      text.toList.dropPrefix? "    ".toList = none := by
    generalize text.toList = cs at hhead
    cases cs with
    | nil => exact ⟨rfl, rfl⟩
    | cons c cs =>
      have hc : c ≠ 'c' ∧ c ≠ ' ' := by simpa using hhead
      simp [List.dropPrefix?, hc]
  rw [above_line g hfeed, line, hnone.1, hnone.2]

@[simp] theorem above_empty : g.above "" = g := g.above_other (by simp) (by simp)

/-- Two empty lines between texts tell nothing. -/
theorem above_apart (a b : String) : g.above (a ++ "\n\n\n" ++ b) = (g.above b).above a := by
  have hgap : a ++ "\n\n\n" ++ b = a ++ "\n" ++ ("" ++ "\n" ++ ("" ++ "\n" ++ b)) := by
    apply String.toList_inj.1
    simp
  rw [hgap, above_below, above_below, above_below, above_empty, above_empty]

@[simp] theorem aboveAll_cons (text : String) (texts : List String) :
    g.aboveAll (text :: texts) = (g.aboveAll texts).above text := rfl

@[simp] theorem aboveAll_append (texts texts' : List String) :
    g.aboveAll (texts ++ texts') = (g.aboveAll texts').aboveAll texts := List.foldr_append

theorem above_intercalate {sep : String}
    (hsep : ∀ (g : Gathered) (a b : String), g.above (a ++ sep ++ b) = (g.above b).above a)
    (texts : List String) :
    g.above (sep.intercalate texts) = g.aboveAll texts := by
  induction texts with
  | nil =>
    rw [String.intercalate_nil, above_empty]
    rfl
  | cons text texts ih =>
    rw [aboveAll_cons, ← ih]
    cases texts with
    | nil => rw [String.intercalate_singleton, String.intercalate_nil, above_empty]
    | cons next rest => rw [String.intercalate_cons_cons, hsep]

theorem line_class (rest : List Char) : g.line ("class ".toList ++ rest) = g.startClass rest := by
  rw [line, List.dropPrefix?_append_of_beq rest (BEq.refl _)]

theorem line_indented (rest : List Char) : g.line ("    ".toList ++ rest) = g.startField rest := by
  have hclass : ("    ".toList ++ rest).dropPrefix? "class ".toList = none := by
    simp [List.dropPrefix?]
  rw [line, hclass, List.dropPrefix?_append_of_beq rest (BEq.refl _)]

end Gathered

/-! ## Classes -/

/-- A type annotation tells the type and the quantifier. -/
theorem Field.ofText_eq {f : Field} (h : IsName f.type) :
    Field.ofText f.name f.annotation.toList = f := by
  obtain ⟨type, name, quantifier⟩ := f
  have hclosed : headName (type.toList ++ [']']) = (type, [']']) :=
    headName_append h.rest fun c hc => by cases hc; decide
  have hopen : ∀ c, ('[' :: (type.toList ++ [']'])).head? = some c → isNameRest c = false :=
    fun c hc => by cases hc; decide
  cases quantifier with
  | none =>
    have hread : headName type.toList = (type, []) := headName_toList h
    simp only [Field.ofText, Field.annotation, hread]
  | some q =>
    cases q with
    | optional =>
      have hword : ∀ c ∈ "Optional".toList, isNameRest c = true := List.all_eq_true.1 rfl
      have hread : headName ("Optional".toList ++ '[' :: (type.toList ++ [']'])) =
          ("Optional", '[' :: (type.toList ++ [']'])) := headName_append hword hopen
      have htext : ("Optional[" ++ type ++ "]").toList =
          "Optional".toList ++ '[' :: (type.toList ++ [']']) := by simp
      simp only [Field.ofText, Field.annotation, htext, hread, hclosed, if_true]
    | many =>
      have hread : headName ("list".toList ++ '[' :: (type.toList ++ [']'])) =
          ("list", '[' :: (type.toList ++ [']'])) := headName_append (List.all_eq_true.1 rfl) hopen
      have htext : ("list[" ++ type ++ "]").toList =
          "list".toList ++ '[' :: (type.toList ++ [']']) := by simp
      have hword : ("list" = "Optional") = False := by simp
      simp only [Field.ofText, Field.annotation, htext, hread, hclosed, hword, if_false]

theorem Field.annotation_not_mem {f : Field} (h : IsName f.type) :
    '\n' ∉ f.annotation.toList := by
  have htype : '\n' ∉ f.type.toList := h.not_mem (by decide)
  unfold Field.annotation
  cases f.quantifier with
  | none => exact htype
  | some q => cases q <;> simp [htype]

namespace Gathered

variable (g : Gathered)

theorem above_field {f : Field} (htype : IsName f.type) (hname : IsName f.name) :
    g.above ("    " ++ f.name ++ ": " ++ f.annotation) = { g with fields := f :: g.fields } := by
  have htext : ("    " ++ f.name ++ ": " ++ f.annotation).toList =
      "    ".toList ++ (f.name.toList ++ ':' :: ' ' :: f.annotation.toList) := by simp
  have hfeed : '\n' ∉ f.name.toList := hname.not_mem (by decide)
  have hread : headName (f.name.toList ++ ':' :: ' ' :: f.annotation.toList) =
      (f.name, ':' :: ' ' :: f.annotation.toList) :=
    headName_append hname.rest fun c hc => by cases hc; decide
  rw [above_line g (by simp [hfeed, f.annotation_not_mem htype]), htext, line_indented]
  simp only [startField, hread, f.ofText_eq htype]

theorem above_fields {fields : List Field} (h : ∀ f ∈ fields, IsName f.type ∧ IsName f.name) :
    g.aboveAll (fields.map fun f => "    " ++ f.name ++ ": " ++ f.annotation) =
      { g with fields := fields ++ g.fields } := by
  induction fields with
  | nil => rfl
  | cons f fields ih =>
    obtain ⟨hf, hfields⟩ := List.forall_mem_cons.1 h
    rw [List.map_cons, aboveAll_cons, ih hfields, above_field _ hf.1 hf.2]
    rfl

/-- The class of a node takes the fields that stand below. -/
theorem above_nodeClass {base : String} (hbase : IsName base) {node : NodeSpec}
    (h : node.WellFormed) : Gathered.above ⟨[], g.nodes, g.families⟩ (nodeClass base node) =
      ⟨[], node :: g.nodes, g.families⟩ := by
  have htext : ("class " ++ node.name ++ "(" ++ base ++ "):").toList =
      "class ".toList ++ (node.name.toList ++ '(' :: (base.toList ++ "):".toList)) := by simp
  have hread : headName (node.name.toList ++ '(' :: (base.toList ++ "):".toList)) =
      (node.name, '(' :: (base.toList ++ "):".toList)) :=
    headName_append h.name.rest fun c hc => by cases hc; decide
  -- the bases of the class of a family have a comma
  have hbases : '(' :: (base.toList ++ "):".toList) ≠ "(Node, ABC):".toList := by
    intro heq
    have hcomma : ',' ∈ '(' :: (base.toList ++ "):".toList) := by
      rw [heq]
      decide
    have hnot : ',' ∉ base.toList := hbase.not_mem (by decide)
    simp [hnot] at hcomma
  have hfeed : '\n' ∉ ("class " ++ node.name ++ "(" ++ base ++ "):").toList := by
    have hname : '\n' ∉ node.name.toList := h.name.not_mem (by decide)
    have hbase : '\n' ∉ base.toList := hbase.not_mem (by decide)
    simp [hname, hbase]
  rw [nodeClass, above_intercalate _ above_below, aboveAll_cons, aboveAll_cons,
    above_fields _ h.fields, above_line _ hfeed, htext, line_class, startClass, hread,
    if_neg hbases, List.append_nil, above_other _ (by simp) (by simp)]

/-- An indented line without a colon tells nothing. -/
theorem above_pass : g.above "    pass" = g := by
  have htext : "    pass".toList = "    ".toList ++ "pass".toList := by simp
  have hread : headName ("pass".toList ++ []) = ("pass", []) :=
    headName_append (List.all_eq_true.1 rfl) (by simp)
  rw [List.append_nil] at hread
  rw [above_line g (by simp), htext, line_indented]
  simp only [startField, hread]

theorem above_familyClass {name : String} (h : IsName name) :
    g.above (familyClass name) = ⟨[], [], ⟨name, g.nodes⟩ :: g.families⟩ := by
  have hlines : familyClass name = "class " ++ name ++ "(Node, ABC):" ++ "\n" ++ "    pass" := by
    apply String.toList_inj.1
    simp [familyClass]
  have htext : ("class " ++ name ++ "(Node, ABC):").toList =
      "class ".toList ++ (name.toList ++ "(Node, ABC):".toList) := by simp
  have hread : headName (name.toList ++ "(Node, ABC):".toList) = (name, "(Node, ABC):".toList) :=
    headName_append h.rest fun c hc => by cases hc; decide
  have hfeed : '\n' ∉ ("class " ++ name ++ "(Node, ABC):").toList := by
    have hname : '\n' ∉ name.toList := h.not_mem (by decide)
    simp [hname]
  rw [hlines, above_below, above_pass, above_line g hfeed, htext, line_class, startClass, hread]
  exact if_pos rfl

theorem above_nodes {base : String} (hbase : IsName base) {nodes : List NodeSpec}
    (h : ∀ node ∈ nodes, node.WellFormed) (families : List Family) :
    aboveAll ⟨[], [], families⟩ (nodes.map (nodeClass base)) = ⟨[], nodes, families⟩ := by
  induction nodes with
  | nil => rfl
  | cons node nodes ih =>
    obtain ⟨hnode, hnodes⟩ := List.forall_mem_cons.1 h
    rw [List.map_cons, aboveAll_cons, ih hnodes]
    exact above_nodeClass ⟨[], nodes, families⟩ hbase hnode

theorem above_families {families : List Family} (h : WellFormed families) :
    aboveAll ⟨[], [], []⟩ (families.flatMap familyChunks) = ⟨[], [], families⟩ := by
  induction families with
  | nil => rfl
  | cons family families ih =>
    obtain ⟨hfamily, hfamilies⟩ := List.forall_mem_cons.1 h
    rw [List.flatMap_cons, aboveAll_append, ih hfamilies, familyChunks, aboveAll_cons,
      above_nodes hfamily.name hfamily.nodes, above_familyClass _ hfamily.name]

theorem aboveAll_other {texts : List String} (h : ∀ text ∈ texts, '\n' ∉ text.toList ∧
    text.toList.head? ≠ some 'c' ∧ text.toList.head? ≠ some ' ') : g.aboveAll texts = g := by
  induction texts with
  | nil => rfl
  | cons text texts ih =>
    obtain ⟨htext, htexts⟩ := List.forall_mem_cons.1 h
    rw [aboveAll_cons, ih htexts, above_other g htext.1 htext.2]

theorem above_header : g.above header = g := by
  rw [header, above_intercalate _ above_below]
  exact g.aboveAll_other (by simp)

end Gathered

/-- **The classes of a schema tell the schema.** -/
theorem ofClasses_classes {families : List Family} (h : WellFormed families) :
    ofClasses (classes families) = families := by
  have hend : classes families =
      "\n\n\n".intercalate (header :: families.flatMap familyChunks) ++ "\n" ++ "" := by
    rw [classes, String.append_empty]
  rw [ofClasses, hend, Gathered.above_below, Gathered.above_empty,
    Gathered.above_intercalate _ Gathered.above_apart, Gathered.aboveAll_cons,
    Gathered.above_families h, Gathered.above_header]

/-- **Generated code determines the schema.**  The parser may be any that gives trees of derivations.
Two texts generate the same code exactly if they are read as the same schema, and reading the code of
a text gives its families with their nodes, and the types, names and quantifiers of all fields, in
order. -/
theorem generated_code_tells_the_schema {parse : Parser} (hsound : parse.Sound)
    (text text' : String) :
    (generate parse text = generate parse text' ↔ parse.read text = parse.read text') ∧
      (generate parse text).map ofClasses = parse.read text := by
  have hback : ∀ text, (generate parse text).map ofClasses = parse.read text := by
    intro text
    cases hread : parse.read text with
    | error e => simp only [generate, hread, Except.map]
    | ok families =>
      have hwell := hsound.wellFormed hread
      simp only [generate, hread, Except.map, ofClasses_classes hwell]
  refine ⟨⟨fun h => ?_, fun h => ?_⟩, hback text⟩
  · rw [← hback text, h, hback text']
  · rw [generate, h, ← generate]

/-- Texts that are laid out in other ways generate the same code, and it tells what they describe. -/
theorem generated_code_tells_one_field :
    parseByStates.Sound ∧
      generate parseByStates "A\x7bb:c d\x7d" = generate parseByStates " A \x7b b : c d \x7d # e" ∧
      (generate parseByStates "A\x7bb:c d\x7d").map ofClasses = .ok oneField := by
  have hsound := (Reads.mk automaton_recognizes automaton_drives).sound
  have hlaw := generated_code_tells_the_schema hsound "A\x7bb:c d\x7d"
  refine ⟨hsound, (hlaw " A \x7b b : c d \x7d # e").1.2 (by cbv), ?_⟩
  rw [(hlaw "").2]
  cbv

end LoxLang.Schema
