import LoxLang.Proofs.Scope.Table
import LoxLang.Proofs.Tree.Copies

/-!
# Padding

Two lists of scopes may differ by blank scopes, which declare nothing: one list has some that the
other lacks.  A name is found in both or in neither, but at distances that differ by the blank
scopes passed on the way.  The same is true of chains of frames.

* `Pad` — the links of two such lists, one after the other.
* `Coincide` — distances that lead to the same place.
* `PadScopes` — lists of scopes that differ by blank ones.
* `PadStmt` — trees with the same words, whose references lead to the same places.

Principal results: `PadScopes.distance`, `PadScopes.below_super`, `PadStmt.refl`.
-/

namespace LoxLang

/-! ## Links -/

/-- One link of two lists that differ by blank entries. -/
inductive Pad where
  /-- An entry of each, and the two belong together. -/
  | both
  /-- A blank entry of the first. -/
  | first
  /-- A blank entry of the second. -/
  | second

/-- Distances that lead to entries which belong together.  Behind the links the lists are the
same. -/
inductive Coincide : List Pad → Nat → Nat → Prop where
  | beyond {d : Nat} : Coincide [] d d
  | here {pads : List Pad} : Coincide (.both :: pads) 0 0
  | both {pads : List Pad} {d d' : Nat} : Coincide pads d d' → Coincide (.both :: pads) (d + 1) (d' + 1)
  | first {pads : List Pad} {d d' : Nat} : Coincide pads d d' → Coincide (.first :: pads) (d + 1) d'
  | second {pads : List Pad} {d d' : Nat} : Coincide pads d d' → Coincide (.second :: pads) d (d' + 1)

/-- Without blank entries, every distance leads to the same place. -/
theorem Coincide.self_both {pads : List Pad} (h : ∀ d, Coincide pads d d) :
    ∀ d, Coincide (.both :: pads) d d
  | 0 => .here
  | d + 1 => .both (h d)

/-! ## Scopes -/

/-- The innermost scope is one of `super`. -/
def SuperHere (scopes : List (Bindings Bool)) : Prop :=
  (scopes[0]?).bind (·.find? "super") = some true

/-- Lists of scopes that differ by blank ones.  No blank scope lies directly inside a scope of
`super`, so that the scopes of `this` and `super` stay next to each other. -/
inductive PadScopes : List Pad → List (Bindings Bool) → List (Bindings Bool) → Prop where
  | same {scopes : List (Bindings Bool)} : PadScopes [] scopes scopes
  | both {pads : List Pad} {scope : Bindings Bool} {scopes scopes' : List (Bindings Bool)} :
      PadScopes pads scopes scopes' → PadScopes (.both :: pads) (scope :: scopes) (scope :: scopes')
  | first {pads : List Pad} {scopes scopes' : List (Bindings Bool)} :
      PadScopes pads scopes scopes' → ¬ SuperHere scopes →
      PadScopes (.first :: pads) (.empty :: scopes) scopes'
  | second {pads : List Pad} {scopes scopes' : List (Bindings Bool)} :
      PadScopes pads scopes scopes' → ¬ SuperHere scopes' →
      PadScopes (.second :: pads) scopes (.empty :: scopes')

theorem distance?_blank (name : String) (scopes : List (Bindings Bool)) :
    distance? name (.empty :: scopes) = (distance? name scopes).map (· + 1) := rfl

theorem SuperHere.distance {scopes : List (Bindings Bool)} (h : SuperHere scopes) :
    distance? "super" scopes = some 0 := by
  cases scopes with
  | nil => cases h
  | cons scope scopes =>
    have hfind : scope.find? "super" = some true := h
    simp only [distance?, Bindings.contains, hfind, Option.isSome_some, if_true]

namespace PadScopes

variable {pads : List Pad} {scopes scopes' : List (Bindings Bool)}

/-- **A name is found in both lists or in neither, and at the same place.** -/
theorem distance (h : PadScopes pads scopes scopes') (name : String) :
    Option.Rel (Coincide pads) (distance? name scopes) (distance? name scopes') := by
  induction h with
  | @same scopes =>
    cases distance? name scopes with
    | none => exact .none
    | some d => exact .some .beyond
  | @both pads scope scopes scopes' _ ih =>
    simp only [distance?]
    split
    · exact .some .here
    · generalize distance? name scopes = d at ih ⊢
      generalize distance? name scopes' = d' at ih ⊢
      cases ih with
      | none => exact .none
      | some hmeets => exact .some (.both hmeets)
  | @first pads scopes scopes' _ _ ih =>
    rw [distance?_blank]
    generalize distance? name scopes = d at ih ⊢
    generalize distance? name scopes' = d' at ih ⊢
    cases ih with
    | none => exact .none
    | some hmeets => exact .some (.first hmeets)
  | @second pads scopes scopes' _ _ ih =>
    rw [distance?_blank]
    generalize distance? name scopes = d at ih ⊢
    generalize distance? name scopes' = d' at ih ⊢
    cases ih with
    | none => exact .none
    | some hmeets => exact .some (.second hmeets)

/-- At the same place lies the same scope. -/
theorem getElem?_eq (h : PadScopes pads scopes scopes') : ∀ {d d' : Nat}, Coincide pads d d' →
    scopes'[d']? = scopes[d]? := by
  induction h with
  | same =>
    intro d d' hmeets
    cases hmeets
    rfl
  | both _ ih =>
    intro d d' hmeets
    cases hmeets with
    | here => rfl
    | both hmeets => exact ih hmeets
  | first _ _ ih =>
    intro d d' hmeets
    cases hmeets with
    | first hmeets => exact ih hmeets
  | second _ _ ih =>
    intro d d' hmeets
    cases hmeets with
    | second hmeets => exact ih hmeets

/-- The innermost scope is one of `super` in both lists or in neither. -/
theorem superHere (h : PadScopes pads scopes scopes') : SuperHere scopes ↔ SuperHere scopes' := by
  have hblank : ∀ rest : List (Bindings Bool), ¬ SuperHere (.empty :: rest) :=
    fun _ hhere => by cases hhere
  induction h with
  | same => exact Iff.rfl
  | both => exact Iff.rfl
  | first _ hsuper ih => exact iff_of_false (hblank _) fun h => hsuper (ih.2 h)
  | second _ hsuper ih => exact iff_of_false (fun h => hsuper (ih.1 h)) (hblank _)

/-- Directly inside the scope of `super`, the lists are at the same place too. -/
theorem below_super (h : PadScopes pads scopes scopes') : ∀ {d d' : Nat},
    distance? "super" scopes = some d → distance? "super" scopes' = some d' →
    (scopes[d]?).bind (·.find? "super") = some true → Coincide pads (d - 1) (d' - 1) := by
  induction h with
  | same =>
    intro d d' hd hd' _
    obtain rfl := Option.some.inj (hd.symm.trans hd')
    exact .beyond
  | @both pads scope scopes scopes' hscopes ih =>
    intro d d' hd hd' hready
    simp only [distance?] at hd hd'
    split at hd
    · rename_i hhere
      rw [if_pos hhere] at hd'
      cases hd
      cases hd'
      exact .here
    · rename_i hnot
      rw [if_neg hnot] at hd'
      obtain ⟨k, hk, rfl⟩ := Option.map_eq_some_iff.1 hd
      obtain ⟨k', hk', rfl⟩ := Option.map_eq_some_iff.1 hd'
      have hmeets : Coincide pads k k' := by
        have hrel := hscopes.distance "super"
        rw [hk, hk'] at hrel
        cases hrel with
        | some hmeets => exact hmeets
      have hready : (scopes[k]?).bind (·.find? "super") = some true := hready
      -- both scopes of `super` are the next ones, or neither is
      cases k with
      | zero =>
        have hzero : SuperHere scopes' := hscopes.superHere.1 hready
        obtain rfl := Option.some.inj (hk'.symm.trans hzero.distance)
        exact .here
      | succ k =>
        cases k' with
        | zero =>
          have hzero : SuperHere scopes := by
            apply hscopes.superHere.2
            rw [SuperHere, hscopes.getElem?_eq hmeets]
            exact hready
          cases hk.symm.trans hzero.distance
        | succ k' => exact .both (ih hk hk' hready)
  | @first pads scopes scopes' _ hsuper ih =>
    intro d d' hd hd' hready
    rw [distance?_blank] at hd
    obtain ⟨k, hk, rfl⟩ := Option.map_eq_some_iff.1 hd
    have hready : (scopes[k]?).bind (·.find? "super") = some true := hready
    cases k with
    | zero => exact absurd hready hsuper
    | succ k => exact .first (ih hk hd' hready)
  | @second pads scopes scopes' hscopes hsuper ih =>
    intro d d' hd hd' hready
    rw [distance?_blank] at hd'
    obtain ⟨k', hk', rfl⟩ := Option.map_eq_some_iff.1 hd'
    have hmeets : Coincide pads d k' := by
      have hrel := hscopes.distance "super"
      rw [hd, hk'] at hrel
      cases hrel with
      | some hmeets => exact hmeets
    cases k' with
    | zero =>
      refine absurd ?_ hsuper
      rw [SuperHere, hscopes.getElem?_eq hmeets]
      exact hready
    | succ k' => exact .second (ih hd hk' hready)

/-- Declaring a name in scopes that belong together. -/
theorem markIn (h : PadScopes pads scopes scopes') (hopen : Coincide pads 0 0) (name : String)
    (b : Bool) :
    PadScopes pads (LoxLang.markIn name b scopes) (LoxLang.markIn name b scopes') := by
  cases hopen with
  | beyond =>
    cases h
    exact .same
  | here =>
    cases h with
    | both h => exact .both h

theorem markAll (hopen : Coincide pads 0 0) : ∀ (names : List String)
    {scopes scopes' : List (Bindings Bool)}, PadScopes pads scopes scopes' →
    PadScopes pads (LoxLang.markAll names scopes) (LoxLang.markAll names scopes')
  | [], _, _, h => h
  | name :: names, _, _, h => markAll hopen names (h.markIn hopen name true)

end PadScopes

/-! ## Trees -/

/-- References that lead to the same place: their distances are filed in two tables. -/
def PadRefers (T T' : Distances) (pads : List Pad) (id id' : Nat) : Prop :=
  Option.Rel (Coincide pads) T[id]? T'[id']?

/-- The same for `super`, whose frame is not the only one it leads to. -/
def PadSuper (T T' : Distances) (pads : List Pad) (id id' : Nat) : Prop :=
  Option.Rel (fun d d' => Coincide pads d d' ∧ Coincide pads (d - 1) (d' - 1)) T[id]? T'[id']?

section

variable (T T' : Distances)

mutual

inductive PadExpr (pads : List Pad) : Expr → Expr → Prop where
  | literal {id id' : Nat} {value : Literal} : PadExpr pads (.literal id value) (.literal id' value)
  | grouping {id id' : Nat} {e e' : Expr} :
      PadExpr pads e e' → PadExpr pads (.grouping id e) (.grouping id' e')
  | unary {id id' : Nat} {t : Token} {e e' : Expr} :
      PadExpr pads e e' → PadExpr pads (.unary id t e) (.unary id' t e')
  | binary {id id' : Nat} {t : Token} {left left' right right' : Expr} :
      PadExpr pads left left' → PadExpr pads right right' →
      PadExpr pads (.binary id left t right) (.binary id' left' t right')
  | logical {id id' : Nat} {t : Token} {left left' right right' : Expr} :
      PadExpr pads left left' → PadExpr pads right right' →
      PadExpr pads (.logical id left t right) (.logical id' left' t right')
  | var {id id' : Nat} {name : Token} :
      PadRefers T T' pads id id' → PadExpr pads (.var id name) (.var id' name)
  | assign {id id' : Nat} {name : Token} {value value' : Expr} :
      PadRefers T T' pads id id' → PadExpr pads value value' →
      PadExpr pads (.assign id name value) (.assign id' name value')
  | call {id id' : Nat} {callee callee' : Expr} {paren : Token} {args args' : List Expr} :
      PadExpr pads callee callee' → PadArgs pads args args' →
      PadExpr pads (.call id callee paren args) (.call id' callee' paren args')
  | get {id id' : Nat} {object object' : Expr} {name : Token} :
      PadExpr pads object object' → PadExpr pads (.get id object name) (.get id' object' name)
  | set {id id' : Nat} {object object' value value' : Expr} {name : Token} :
      PadExpr pads object object' → PadExpr pads value value' →
      PadExpr pads (.set id object name value) (.set id' object' name value')
  | this {id id' : Nat} {keyword : Token} :
      PadRefers T T' pads id id' → PadExpr pads (.this id keyword) (.this id' keyword)
  | super {id id' : Nat} {keyword method : Token} :
      PadSuper T T' pads id id' →
      PadExpr pads (.super id keyword method) (.super id' keyword method)

inductive PadArgs (pads : List Pad) : List Expr → List Expr → Prop where
  | nil : PadArgs pads [] []
  | cons {e e' : Expr} {es es' : List Expr} :
      PadExpr pads e e' → PadArgs pads es es' → PadArgs pads (e :: es) (e' :: es')

end

inductive PadSuperclass (pads : List Pad) : Option Superclass → Option Superclass → Prop where
  | none : PadSuperclass pads none none
  | some {id id' : Nat} {name : Token} :
      PadRefers T T' pads id id' → PadSuperclass pads (some ⟨id, name⟩) (some ⟨id', name⟩)

/-- The links of the frames of a class around its methods. -/
def classPads (superclass : Option Superclass) : List Pad :=
  .both :: if superclass.isSome then [.both] else []

mutual

/-- Names are declared only where the innermost frames belong together. -/
inductive PadStmt : List Pad → Stmt → Stmt → Prop where
  | malformed {pads : List Pad} : PadStmt pads .malformed .malformed
  | expression {pads : List Pad} {id id' : Nat} {e e' : Expr} :
      PadExpr T T' pads e e' → PadStmt pads (.expression id e) (.expression id' e')
  | print {pads : List Pad} {id id' : Nat} {e e' : Expr} :
      PadExpr T T' pads e e' → PadStmt pads (.print id e) (.print id' e')
  | declare {pads : List Pad} {id id' : Nat} {name : Token} :
      Coincide pads 0 0 → PadStmt pads (.declare id name none) (.declare id' name none)
  | declareValue {pads : List Pad} {id id' : Nat} {name : Token} {e e' : Expr} :
      Coincide pads 0 0 → PadExpr T T' pads e e' →
      PadStmt pads (.declare id name (some e)) (.declare id' name (some e'))
  | block {pads : List Pad} {id id' : Nat} {body body' : List Stmt} :
      PadBody (.both :: pads) body body' → PadStmt pads (.block id body) (.block id' body')
  | ifThen {pads : List Pad} {id id' : Nat} {cond cond' : Expr} {s s' : Stmt} :
      PadExpr T T' pads cond cond' → PadStmt pads s s' →
      PadStmt pads (.conditional id cond s none) (.conditional id' cond' s' none)
  | ifElse {pads : List Pad} {id id' : Nat} {cond cond' : Expr} {s s' t t' : Stmt} :
      PadExpr T T' pads cond cond' → PadStmt pads s s' → PadStmt pads t t' →
      PadStmt pads (.conditional id cond s (some t)) (.conditional id' cond' s' (some t'))
  | loop {pads : List Pad} {id id' : Nat} {cond cond' : Expr} {s s' : Stmt} :
      PadExpr T T' pads cond cond' → PadStmt pads s s' →
      PadStmt pads (.loop id cond s) (.loop id' cond' s')
  | function {pads : List Pad} {f f' : Function} :
      Coincide pads 0 0 → PadFunction pads f f' → PadStmt pads (.function f) (.function f')
  | ret {pads : List Pad} {id id' : Nat} {keyword : Token} :
      PadStmt pads (.ret id keyword none) (.ret id' keyword none)
  | retValue {pads : List Pad} {id id' : Nat} {keyword : Token} {e e' : Expr} :
      PadExpr T T' pads e e' →
      PadStmt pads (.ret id keyword (some e)) (.ret id' keyword (some e'))
  | classDecl {pads : List Pad} {id id' : Nat} {name : Token} {base base' : Option Superclass}
      {methods methods' : List Function} :
      Coincide pads 0 0 → PadSuperclass T T' pads base base' →
      PadMethods (classPads base ++ pads) methods methods' →
      PadStmt pads (.classDecl id name base methods) (.classDecl id' name base' methods')

inductive PadBody : List Pad → List Stmt → List Stmt → Prop where
  | nil {pads : List Pad} : PadBody pads [] []
  | cons {pads : List Pad} {s s' : Stmt} {ss ss' : List Stmt} :
      PadStmt pads s s' → PadBody pads ss ss' → PadBody pads (s :: ss) (s' :: ss')

inductive PadFunction : List Pad → Function → Function → Prop where
  | mk {pads : List Pad} {id id' : Nat} {name : Token} {params : List Token}
      {body body' : List Stmt} :
      PadBody (.both :: pads) body body' →
      PadFunction pads ⟨id, name, params, body⟩ ⟨id', name, params, body'⟩

inductive PadMethods : List Pad → List Function → List Function → Prop where
  | nil {pads : List Pad} : PadMethods pads [] []
  | cons {pads : List Pad} {f f' : Function} {fs fs' : List Function} :
      PadFunction pads f f' → PadMethods pads fs fs' → PadMethods pads (f :: fs) (f' :: fs')

end

end

section

variable {T T' : Distances} {pads : List Pad}

theorem PadFunction.parts {f f' : Function} (h : PadFunction T T' pads f f') :
    f'.name = f.name ∧ f'.params = f.params ∧ PadBody T T' (.both :: pads) f.body f'.body := by
  cases h with
  | mk hbody => exact ⟨rfl, rfl, hbody⟩

theorem PadSuperclass.isSome_eq {base base' : Option Superclass}
    (h : PadSuperclass T T' pads base base') : base'.isSome = base.isSome := by
  cases h <;> rfl

/-! ## A tree beside itself -/

theorem PadRefers.refl {id : Nat} (hp : ∀ d, Coincide pads d d) (h : T'[id]? = T[id]?) :
    PadRefers T T' pads id id := by
  unfold PadRefers
  rw [h]
  cases T[id]? with
  | none => exact .none
  | some d => exact .some (hp d)

theorem PadSuper.refl {id : Nat} (hp : ∀ d, Coincide pads d d) (h : T'[id]? = T[id]?) :
    PadSuper T T' pads id id := by
  unfold PadSuper
  rw [h]
  cases T[id]? with
  | none => exact .none
  | some d => exact .some ⟨hp d, hp (d - 1)⟩

mutual

theorem PadExpr.refl (hp : ∀ d, Coincide pads d d) : ∀ {e : Expr},
    (∀ id ∈ e.ids, T'[id]? = T[id]?) → PadExpr T T' pads e e
  | .literal .., _ => .literal
  | .grouping _ e, h => by
    rw [Expr.ids_grouping, List.forall_mem_cons] at h
    exact .grouping (.refl hp h.2)
  | .unary _ _ e, h => by
    rw [Expr.ids_unary, List.forall_mem_cons] at h
    exact .unary (.refl hp h.2)
  | .binary _ a _ b, h => by
    rw [Expr.ids_binary, List.forall_mem_cons, List.forall_mem_append] at h
    exact .binary (.refl hp h.2.1) (.refl hp h.2.2)
  | .logical _ a _ b, h => by
    rw [Expr.ids_logical, List.forall_mem_cons, List.forall_mem_append] at h
    exact .logical (.refl hp h.2.1) (.refl hp h.2.2)
  | .var .., h => .var (.refl hp (h _ (by simp)))
  | .assign _ _ e, h => by
    rw [Expr.ids_assign, List.forall_mem_cons] at h
    exact .assign (.refl hp h.1) (.refl hp h.2)
  | .call _ f _ args, h => by
    rw [Expr.ids_call, List.forall_mem_cons, List.forall_mem_append] at h
    exact .call (.refl hp h.2.1) (.refl hp h.2.2)
  | .get _ e _, h => by
    rw [Expr.ids_get, List.forall_mem_cons] at h
    exact .get (.refl hp h.2)
  | .set _ e _ v, h => by
    rw [Expr.ids_set, List.forall_mem_cons, List.forall_mem_append] at h
    exact .set (.refl hp h.2.1) (.refl hp h.2.2)
  | .this .., h => .this (.refl hp (h _ (by simp)))
  | .super .., h => .super (.refl hp (h _ (by simp)))

theorem PadArgs.refl (hp : ∀ d, Coincide pads d d) : ∀ {es : List Expr},
    (∀ id ∈ argIds es, T'[id]? = T[id]?) → PadArgs T T' pads es es
  | [], _ => .nil
  | e :: es, h => by
    rw [argIds_cons, List.forall_mem_append] at h
    exact .cons (.refl hp h.1) (.refl hp h.2)

end

theorem PadSuperclass.refl (hp : ∀ d, Coincide pads d d) : ∀ {base : Option Superclass},
    (∀ id ∈ optionIds (fun s => [s.id]) base, T'[id]? = T[id]?) → PadSuperclass T T' pads base base
  | .none, _ => .none
  | .some _, h => .some (.refl hp (h _ (by simp [optionIds])))

theorem Coincide.self_class {superclass : Option Superclass} (hp : ∀ d, Coincide pads d d) :
    ∀ d, Coincide (classPads superclass ++ pads) d d := by
  cases superclass with
  | none => exact Coincide.self_both hp
  | some s => exact Coincide.self_both (Coincide.self_both hp)

mutual

theorem PadStmt.refl {pads : List Pad} (hp : ∀ d, Coincide pads d d) : ∀ {s : Stmt},
    (∀ id ∈ s.ids, T'[id]? = T[id]?) → PadStmt T T' pads s s
  | .malformed, _ => .malformed
  | .expression _ e, h => by
    rw [Stmt.ids_expression, List.forall_mem_cons] at h
    exact .expression (.refl hp h.2)
  | .print _ e, h => by
    rw [Stmt.ids_print, List.forall_mem_cons] at h
    exact .print (.refl hp h.2)
  | .declare _ _ none, _ => .declare (hp 0)
  | .declare _ _ (some e), h => by
    rw [Stmt.ids_declare, List.forall_mem_cons] at h
    exact .declareValue (hp 0) (.refl hp h.2)
  | .block _ body, h => by
    rw [Stmt.ids_block, List.forall_mem_cons] at h
    exact .block (.refl (Coincide.self_both hp) h.2)
  | .conditional _ c s none, h => by
    simp only [Stmt.ids_conditional, List.forall_mem_cons, List.forall_mem_append] at h
    exact .ifThen (.refl hp h.2.1.1) (.refl hp h.2.1.2)
  | .conditional _ c s (some t), h => by
    simp only [Stmt.ids_conditional, List.forall_mem_cons, List.forall_mem_append] at h
    exact .ifElse (.refl hp h.2.1.1) (.refl hp h.2.1.2) (.refl hp h.2.2)
  | .loop _ c s, h => by
    rw [Stmt.ids_loop, List.forall_mem_cons, List.forall_mem_append] at h
    exact .loop (.refl hp h.2.1) (.refl hp h.2.2)
  | .function f, h => .function (hp 0) (.refl hp h)
  | .ret _ _ none, _ => .ret
  | .ret _ _ (some e), h => by
    rw [Stmt.ids_ret, List.forall_mem_cons] at h
    exact .retValue (.refl hp h.2)
  | .classDecl _ _ base methods, h => by
    rw [Stmt.ids_classDecl, List.forall_mem_cons, List.forall_mem_append] at h
    exact .classDecl (hp 0) (.refl hp h.2.1) (.refl (Coincide.self_class hp) h.2.2)

theorem PadBody.refl {pads : List Pad} (hp : ∀ d, Coincide pads d d) : ∀ {ss : List Stmt},
    (∀ id ∈ bodyIds ss, T'[id]? = T[id]?) → PadBody T T' pads ss ss
  | [], _ => .nil
  | s :: ss, h => by
    rw [bodyIds_cons, List.forall_mem_append] at h
    exact .cons (.refl hp h.1) (.refl hp h.2)

theorem PadFunction.refl {pads : List Pad} (hp : ∀ d, Coincide pads d d) : ∀ {f : Function},
    (∀ id ∈ functionIds f, T'[id]? = T[id]?) → PadFunction T T' pads f f
  | ⟨_, _, _, body⟩, h => by
    rw [functionIds_mk, List.forall_mem_cons] at h
    exact .mk (.refl (Coincide.self_both hp) h.2)

theorem PadMethods.refl {pads : List Pad} (hp : ∀ d, Coincide pads d d) : ∀ {fs : List Function},
    (∀ id ∈ methodIds fs, T'[id]? = T[id]?) → PadMethods T T' pads fs fs
  | [], _ => .nil
  | f :: fs, h => by
    rw [methodIds_cons, List.forall_mem_append] at h
    exact .cons (.refl hp h.1) (.refl hp h.2)

end

end

end LoxLang
