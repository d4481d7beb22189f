import LoxLang.Proofs.Scope.Balance
import LoxLang.Proofs.Scope.Sites
import LoxLang.Proofs.Tree.Ids

/-!
# What the pass files

The nodes of a program have numbers of their own, so what is filed under the number of a reference
when the pass comes by stays there: the distance of its site, or nothing for a global name.

Principal result: `ofProgram_filed`.
-/

namespace LoxLang

namespace Resolution

/-! ## Numbers that are not touched -/

theorem refer_table_of_ne (r : Resolution) {i id : Nat} (name : Token) (h : i ≠ id) :
    (r.refer id name).table[i]? = r.table[i]? := by
  unfold refer
  split
  · rfl
  · simp only [Std.TreeMap.getElem?_insert]
    rw [if_neg fun hc => h (Nat.compare_eq_eq.1 hc).symm]

theorem read_table_of_ne (r : Resolution) {i id : Nat} (name : Token) (h : i ≠ id) :
    (r.read id name).table[i]? = r.table[i]? := by
  unfold read
  simp only
  rw [refer_table_of_ne _ name h]
  split <;> rfl

theorem checkSuper_table (r : Resolution) (keyword : Token) :
    (r.checkSuper keyword).table = r.table := by
  unfold checkSuper
  split <;> rfl

theorem checkReturn_table (r : Resolution) (keyword : Token) (hasValue : Bool) :
    (r.checkReturn keyword hasValue).table = r.table := by
  unfold checkReturn
  simp only
  split <;> split <;> rfl

mutual

theorem expr_table_of_not_mem (r : Resolution) {i : Nat} : ∀ e : Expr, i ∉ e.ids →
    (r.expr e).table[i]? = r.table[i]?
  | .literal .., _ => rfl
  | .grouping _ inner, h => r.expr_table_of_not_mem inner (by simp_all)
  | .unary _ _ operand, h => r.expr_table_of_not_mem operand (by simp_all)
  | .binary _ left _ right, h =>
    ((r.expr left).expr_table_of_not_mem right (by simp_all)).trans
      (r.expr_table_of_not_mem left (by simp_all))
  | .logical _ left _ right, h =>
    ((r.expr left).expr_table_of_not_mem right (by simp_all)).trans
      (r.expr_table_of_not_mem left (by simp_all))
  | .var id name, h => r.read_table_of_ne name (by simp_all)
  | .assign id name value, h =>
    ((r.expr value).refer_table_of_ne name (by simp_all)).trans
      (r.expr_table_of_not_mem value (by simp_all))
  | .call _ callee _ args, h =>
    ((r.expr callee).args_table_of_not_mem args (by simp_all)).trans
      (r.expr_table_of_not_mem callee (by simp_all))
  | .get _ object _, h => r.expr_table_of_not_mem object (by simp_all)
  | .set _ object _ value, h =>
    ((r.expr value).expr_table_of_not_mem object (by simp_all)).trans
      (r.expr_table_of_not_mem value (by simp_all))
  | .this id keyword, h => by
    unfold expr
    split
    · rfl
    · exact r.refer_table_of_ne keyword (by simp_all)
  | .super id keyword _, h => by
    show ((r.checkSuper keyword).refer id keyword).table[i]? = _
    rw [refer_table_of_ne _ keyword (by simp_all), checkSuper_table]

theorem args_table_of_not_mem (r : Resolution) {i : Nat} : ∀ args : List Expr, i ∉ argIds args →
    (r.args args).table[i]? = r.table[i]?
  | [], _ => rfl
  | e :: es, h =>
    ((r.expr e).args_table_of_not_mem es (by simp_all)).trans
      (r.expr_table_of_not_mem e (by simp_all))

end

theorem mark_table (r : Resolution) (name : String) (b : Bool) : (r.mark name b).table = r.table :=
  (r.mark_routine name b).2.2.2

theorem declare_table (r : Resolution) (name : Token) : (r.declare name).table = r.table :=
  (r.declare_keeps name).2.2.2

theorem define_table (r : Resolution) (name : Token) : (r.define name).table = r.table :=
  r.mark_table name.lexeme true

theorem parameters_table (params : List Token) (r : Resolution) :
    (r.parameters params).table = r.table := by
  unfold parameters
  induction params generalizing r with
  | nil => rfl
  | cons name params ih => rw [List.foldl_cons, ih, define_table, declare_table]

theorem enterClass_table_of_not_mem (r : Resolution) {i : Nat} (name : Token)
    {superclass : Option Superclass} (h : i ∉ optionIds (fun s => [s.id]) superclass) :
    (r.enterClass name superclass).table[i]? = r.table[i]? := by
  unfold enterClass
  cases superclass with
  | none => simp only [openScopeWith]; rw [define_table, declare_table]
  | some s =>
    simp only [openScopeWith]
    rw [read_table_of_ne _ s.name (by simpa [optionIds] using h)]
    split <;> simp only [note, define_table, declare_table]

mutual

theorem stmt_table_of_not_mem (r : Resolution) {i : Nat} : ∀ s : Stmt, i ∉ s.ids →
    (r.stmt s).table[i]? = r.table[i]?
  | .malformed, _ => rfl
  | .expression _ value, h => r.expr_table_of_not_mem value (by simp_all)
  | .print _ value, h => r.expr_table_of_not_mem value (by simp_all)
  | .declare _ name none, _ => by
    show ((r.declare name).define name).table[i]? = _
    rw [define_table, declare_table]
  | .declare _ name (some value), h => by
    show (((r.declare name).expr value).define name).table[i]? = _
    rw [define_table, expr_table_of_not_mem _ value (by simp_all [optionIds]), declare_table]
  | .block _ body, h => r.openScope.body_table_of_not_mem body (by simp_all)
  | .conditional _ cond thenBranch none, h =>
    ((r.expr cond).stmt_table_of_not_mem thenBranch (by simp_all)).trans
      (r.expr_table_of_not_mem cond (by simp_all))
  | .conditional _ cond thenBranch (some elseBranch), h =>
    (((r.expr cond).stmt thenBranch).stmt_table_of_not_mem elseBranch
        (by simp_all [optionIds])).trans
      (((r.expr cond).stmt_table_of_not_mem thenBranch (by simp_all)).trans
        (r.expr_table_of_not_mem cond (by simp_all)))
  | .loop _ cond body, h =>
    ((r.expr cond).stmt_table_of_not_mem body (by simp_all)).trans
      (r.expr_table_of_not_mem cond (by simp_all))
  | .function decl, h => by
    show (function _ .function decl).table[i]? = _
    rw [function_table_of_not_mem _ .function decl (by simp_all), define_table, declare_table]
  | .ret _ keyword none, _ => by
    show (r.checkReturn keyword false).table[i]? = _
    rw [checkReturn_table]
  | .ret _ keyword (some value), h => by
    show ((r.checkReturn keyword true).expr value).table[i]? = _
    rw [expr_table_of_not_mem _ value (by simp_all [optionIds]), checkReturn_table]
  | .classDecl _ name superclass methods, h => by
    show (leaveClass _ superclass r.enclosing).table[i]? = _
    rw [(leaveClass_keeps _ superclass r.enclosing).2.2.2,
      methods_table_of_not_mem _ methods (by simp_all),
      enterClass_table_of_not_mem r name (by simp_all)]

theorem body_table_of_not_mem (r : Resolution) {i : Nat} : ∀ body : List Stmt, i ∉ bodyIds body →
    (r.body body).table[i]? = r.table[i]?
  | [], _ => rfl
  | s :: ss, h =>
    ((r.stmt s).body_table_of_not_mem ss (by simp_all)).trans
      (r.stmt_table_of_not_mem s (by simp_all))

theorem function_table_of_not_mem (r : Resolution) {i : Nat} (routine : Routine) :
    ∀ f : Function, i ∉ functionIds f → (r.function routine f).table[i]? = r.table[i]?
  | ⟨_, _, params, body⟩, h => by
    show (Resolution.body _ body).table[i]? = _
    rw [body_table_of_not_mem _ body (by simp_all), parameters_table]
    rfl

theorem methods_table_of_not_mem (r : Resolution) {i : Nat} : ∀ methods : List Function,
    i ∉ methodIds methods → (r.methods methods).table[i]? = r.table[i]?
  | [], _ => rfl
  | f :: fs, h =>
    (methods_table_of_not_mem _ fs (by simp_all)).trans
      (r.function_table_of_not_mem _ f (by simp_all))

end

end Resolution

/-- What is filed under the number of a site is its distance. -/
def Site.FiledIn (site : Site) (table : Distances) : Prop := table[site.id]? = site.distance?

/-- The pass from `r` to `r'` files the references among these sites, under these numbers. -/
def Files (sites : List Site) (ids : List Nat) (r r' : Resolution) : Prop :=
  (∀ i ∈ ids, r.table[i]? = none) → ∀ site ∈ sites, site.use.isReference = true →
    site.id ∈ ids ∧ site.FiledIn r'.table

namespace Files

variable {sites sites' : List Site} {ids ids' : List Nat} {r r₁ r₂ : Resolution}

theorem nil (ids : List Nat) (r r' : Resolution) : Files [] ids r r' :=
  fun _ _ h => by cases h

/-- A site that refers to nothing. -/
theorem cons {site : Site} (h : Files sites ids r r₁) (hsite : site.use.isReference = false) :
    Files (site :: sites) ids r r₁ := by
  intro hfresh site' hmem huse
  obtain rfl | hmem := List.mem_cons.1 hmem
  · rw [hsite] at huse; cases huse
  · exact h hfresh site' hmem huse

theorem mono (h : Files sites ids r r₁) (hids : ∀ i ∈ ids, i ∈ ids') : Files sites ids' r r₁ := by
  intro hfresh site hmem huse
  obtain ⟨hid, hfiled⟩ := h (fun i hi => hfresh i (hids i hi)) site hmem huse
  exact ⟨hids _ hid, hfiled⟩

theorem congr {r' r₁' : Resolution} (h : Files sites ids r r₁) (hr : r'.table = r.table)
    (hr₁ : r₁'.table = r₁.table) : Files sites ids r' r₁' := by
  intro hfresh site hmem huse
  rw [hr₁]
  exact h (fun i hi => hr ▸ hfresh i hi) site hmem huse

/-- Two parts of a program one after the other, whose numbers are distinct. -/
theorem append (h : Files sites ids r r₁) (h' : Files sites' ids' r₁ r₂)
    (hnodup : (ids ++ ids').Nodup) (hkept : ∀ i, i ∉ ids → r₁.table[i]? = r.table[i]?)
    (hkept' : ∀ i, i ∉ ids' → r₂.table[i]? = r₁.table[i]?) :
    Files (sites ++ sites') (ids ++ ids') r r₂ := by
  have hdisjoint := (List.nodup_append.1 hnodup).2.2
  intro hfresh site hmem huse
  obtain hmem | hmem := List.mem_append.1 hmem
  · obtain ⟨hid, hfiled⟩ := h (fun i hi => hfresh i (List.mem_append_left _ hi)) site hmem huse
    refine ⟨List.mem_append_left _ hid, ?_⟩
    rw [Site.FiledIn, hkept' _ fun hid' => hdisjoint _ hid _ hid' rfl]
    exact hfiled
  · have hfresh' : ∀ i ∈ ids', r₁.table[i]? = none := by
      intro i hi
      rw [hkept i fun hi' => hdisjoint _ hi' _ hi rfl]
      exact hfresh i (List.mem_append_right _ hi)
    obtain ⟨hid, hfiled⟩ := h' hfresh' site hmem huse
    exact ⟨List.mem_append_right _ hid, hfiled⟩

/-- A single reference. -/
theorem refer (site : Site) (r : Resolution) (hscopes : site.around.scopes = r.scopes) :
    Files [site] [site.id] r (r.refer site.id site.name) := by
  intro hfresh site' hmem _
  obtain rfl := List.mem_singleton.1 hmem
  refine ⟨List.mem_singleton.2 rfl, ?_⟩
  rw [Site.FiledIn, Site.distance?, hscopes]
  unfold Resolution.refer
  split
  · rename_i hnone
    rw [hnone]
    exact hfresh _ (List.mem_singleton.2 rfl)
  · rename_i d hsome
    simp [hsome]

end Files

namespace Resolution

/-- A reading reference. -/
theorem read_files (site : Site) (r : Resolution) (hscopes : site.around.scopes = r.scopes) :
    Files [site] [site.id] r (r.read site.id site.name) := by
  unfold read
  simp only
  split
  · exact (Files.refer site (r.note site.name _) hscopes).congr rfl rfl
  · exact Files.refer site r hscopes

theorem found_eq_nil {r r' : Resolution} {names : List String} (h : Passed r r' names)
    (hnil : r'.found = []) : r.found = [] := by
  have hfound := h.found
  rwa [hnil, List.prefix_nil] at hfound

theorem read_found {r : Resolution} {id : Nat} {name : Token}
    (h : (r.read id name).found = []) : r.isPending name.lexeme = false := by
  unfold read at h
  cases hpending : r.isPending name.lexeme with
  | false => rfl
  | true =>
    rw [hpending] at h
    exact absurd h (found_ne_nil (refer_passed _ id name))

/-- A class that extends itself is a problem, which stays on record. -/
theorem superclass_ne {r : Resolution} {name : Token} {s : Superclass}
    (h : (r.enterClass name (some s)).found = []) : s.name.lexeme ≠ name.lexeme := by
  intro hself
  unfold enterClass at h
  simp only [if_pos hself] at h
  have hnote := found_eq_nil (read_passed _ s.id s.name) h
  simp [note] at hnote

theorem enterClass_of_ne {r r' : Resolution} {name : Token} {s : Superclass}
    (hname : ({ r with enclosing := .plain }.declare name).define name = r')
    (h : s.name.lexeme ≠ name.lexeme) :
    r.enterClass name (some s) = (({ r' with enclosing := .subclass }.read s.id
      s.name).openScopeWith "super").openScopeWith "this" := by
  unfold enterClass
  simp only [if_neg h, hname]

theorem checkSuper_found {r : Resolution} {keyword : Token} {id : Nat}
    (h : ((r.checkSuper keyword).refer id keyword).found = []) : r.enclosing = .subclass := by
  unfold checkSuper at h
  cases henclosing : r.enclosing with
  | subclass => rfl
  | none =>
    rw [henclosing] at h
    exact absurd h (found_ne_nil (refer_passed _ id keyword))
  | plain =>
    rw [henclosing] at h
    exact absurd h (found_ne_nil (refer_passed _ id keyword))

mutual

theorem expr_files (cs : List Construct) (init : Option Declared) (r : Resolution) :
    ∀ e : Expr, e.ids.Nodup → (r.expr e).found = [] →
    Files (exprSites cs init r e) e.ids r (r.expr e)
  | .literal .., _, _ => .nil _ _ _
  | .grouping _ inner, hn, hf =>
    (expr_files cs init r inner (by simp_all) hf).mono (by simp_all)
  | .unary _ _ operand, hn, hf =>
    (expr_files cs init r operand (by simp_all) hf).mono (by simp_all)
  | .binary _ left _ right, hn, hf => by
    rw [Expr.ids_binary, List.nodup_cons] at hn
    obtain ⟨hleft, hright, _⟩ := List.nodup_append.1 hn.2
    have hf' := found_eq_nil ((r.expr left).expr_passed right) hf
    refine ((expr_files cs init r left hleft hf').append
      (expr_files cs init _ right hright hf) hn.2 ?_ ?_).mono (by simp_all)
    · exact fun i hi => r.expr_table_of_not_mem left hi
    · exact fun i hi => expr_table_of_not_mem _ right hi
  | .logical _ left _ right, hn, hf => by
    rw [Expr.ids_logical, List.nodup_cons] at hn
    obtain ⟨hleft, hright, _⟩ := List.nodup_append.1 hn.2
    have hf' := found_eq_nil ((r.expr left).expr_passed right) hf
    refine ((expr_files cs init r left hleft hf').append
      (expr_files cs init _ right hright hf) hn.2 ?_ ?_).mono (by simp_all)
    · exact fun i hi => r.expr_table_of_not_mem left hi
    · exact fun i hi => expr_table_of_not_mem _ right hi
  | .var id name, _, _ => r.read_files ⟨.read, id, name, ⟨cs, r.scopes, init⟩⟩ rfl
  | .assign id name value, hn, hf => by
    rw [Expr.ids_assign, List.nodup_cons] at hn
    have hf' := found_eq_nil ((r.expr value).refer_passed id name) hf
    have hsite := Files.refer ⟨.write, id, name, ⟨cs, (r.expr value).scopes, init⟩⟩
      (r.expr value) rfl
    refine ((expr_files cs init r value hn.2 hf').append hsite ?_ ?_ ?_).mono
      (by simp only [Expr.ids_assign, List.mem_append, List.mem_cons]; grind)
    · rw [List.nodup_append]
      exact ⟨hn.2, by simp, fun a ha b hb hab => hn.1 (by simp_all)⟩
    · exact fun i hi => r.expr_table_of_not_mem value hi
    · exact fun i hi => refer_table_of_ne _ name (by simpa using hi)
  | .call _ callee _ args, hn, hf => by
    rw [Expr.ids_call, List.nodup_cons] at hn
    obtain ⟨hcallee, hargs, _⟩ := List.nodup_append.1 hn.2
    have hf' := found_eq_nil ((r.expr callee).args_passed args) hf
    refine ((expr_files cs init r callee hcallee hf').append
      (args_files cs init _ args hargs hf) hn.2 ?_ ?_).mono (by simp_all)
    · exact fun i hi => r.expr_table_of_not_mem callee hi
    · exact fun i hi => args_table_of_not_mem _ args hi
  | .get _ object _, hn, hf =>
    (expr_files cs init r object (by simp_all) hf).mono (by simp_all)
  | .set _ object _ value, hn, hf => by
    rw [Expr.ids_set, List.nodup_cons] at hn
    have hn' := List.perm_append_comm.nodup hn.2
    obtain ⟨hvalue, hobject, _⟩ := List.nodup_append.1 hn'
    have hf' := found_eq_nil ((r.expr value).expr_passed object) hf
    refine ((expr_files cs init r value hvalue hf').append
      (expr_files cs init _ object hobject hf) hn' ?_ ?_).mono
        (by simp only [Expr.ids_set, List.mem_append, List.mem_cons]; grind)
    · exact fun i hi => r.expr_table_of_not_mem value hi
    · exact fun i hi => expr_table_of_not_mem _ object hi
  | .this id keyword, _, hf => by
    unfold expr at hf ⊢
    split
    · rename_i hnone
      rw [if_pos hnone] at hf
      simp [note] at hf
    · exact Files.refer ⟨.this, id, keyword, ⟨cs, r.scopes, init⟩⟩ r rfl
  | .super id keyword _, _, _ => by
    have hscopes := (r.checkSuper_passed keyword).scopes
    exact (Files.refer ⟨.super, id, keyword, ⟨cs, r.scopes, init⟩⟩ (r.checkSuper keyword)
      hscopes.symm).congr (r.checkSuper_table keyword).symm rfl

theorem args_files (cs : List Construct) (init : Option Declared) (r : Resolution) :
    ∀ args : List Expr, (argIds args).Nodup → (r.args args).found = [] →
    Files (argSites cs init r args) (argIds args) r (r.args args)
  | [], _, _ => .nil _ _ _
  | e :: es, hn, hf => by
    rw [argIds_cons] at hn ⊢
    obtain ⟨he, hes, _⟩ := List.nodup_append.1 hn
    have hf' := found_eq_nil ((r.expr e).args_passed es) hf
    refine (expr_files cs init r e he hf').append (args_files cs init _ es hes hf) hn ?_ ?_
    · exact fun i hi => r.expr_table_of_not_mem e hi
    · exact fun i hi => args_table_of_not_mem _ es hi

end

theorem parameterSites_files (cs : List Construct) (id : Nat) (ids : List Nat) (r₀ r₁ : Resolution)
    (params : List Token) : ∀ r, Files (parameterSites cs id r params) ids r₀ r₁ := by
  induction params with
  | nil => exact fun r => .nil _ _ _
  | cons name params ih => exact fun r => (ih _).cons rfl

/-- Entering a class files the reference to its superclass. -/
theorem enterClass_files (cs : List Construct) (r : Resolution) (name : Token)
    (superclass : Option Superclass) :
    Files (superclassSites cs r name superclass) (optionIds (fun s => [s.id]) superclass) r
      (r.enterClass name superclass) := by
  cases superclass with
  | none => exact .nil _ _ _
  | some s =>
    have hname := { r with enclosing := .plain }.declare_define_passed name
    have htable : (({ r with enclosing := .plain }.declare name).define name).table = r.table := by
      rw [define_table, declare_table]
    unfold enterClass superclassSites
    simp only
    generalize ({ r with enclosing := .plain }.declare name).define name = r₁ at hname htable
    have hself : (if s.name.lexeme = name.lexeme then r₁.note s.name .inheritsFromItself
        else r₁).scopes = ((r.declare name).define name).scopes ∧
        (if s.name.lexeme = name.lexeme then r₁.note s.name .inheritsFromItself
        else r₁).table = r.table := by
      have hscopes : r₁.scopes = ((r.declare name).define name).scopes := by
        rw [hname.scopes, (r.declare_define_passed name).scopes]
      split
      · exact ⟨hscopes, htable⟩
      · exact ⟨hscopes, htable⟩
    generalize (if s.name.lexeme = name.lexeme then r₁.note s.name .inheritsFromItself
      else r₁) = r₂ at hself
    exact (read_files ⟨.read, s.id, s.name, ⟨cs, ((r.declare name).define name).scopes, none⟩⟩
      { r₂ with enclosing := .subclass } hself.1.symm).congr hself.2.symm rfl

mutual

theorem stmt_files (cs : List Construct) (r : Resolution) : ∀ s : Stmt, s.ids.Nodup →
    (r.stmt s).found = [] → Files (stmtSites cs r s) s.ids r (r.stmt s)
  | .malformed, _, _ => .nil _ _ _
  | .expression _ value, hn, hf =>
    (expr_files cs none r value (by simp_all) hf).mono (by simp_all)
  | .print _ value, hn, hf => (expr_files cs none r value (by simp_all) hf).mono (by simp_all)
  | .declare _ name none, _, _ => (Files.nil _ _ _).cons rfl
  | .declare id name (some value), hn, hf => by
    have hf' : ((r.declare name).expr value).found = [] := by
      rw [← (mark_routine _ name.lexeme true).2.2.1]
      exact hf
    have hvalue := expr_files cs (some ⟨id, name.lexeme⟩) (r.declare name) value
      (by simp_all [optionIds]) hf'
    exact ((hvalue.congr (r.declare_table name).symm (define_table _ name)).mono
      (by simp_all [optionIds])).cons rfl
  | .block id body, hn, hf =>
    (body_files (.block id :: cs) r.openScope body (by simp_all) hf).mono (by simp_all)
  | .conditional _ cond thenBranch none, hn, hf => by
    rw [Stmt.ids_conditional, List.nodup_cons, optionIds, List.append_nil] at hn
    obtain ⟨hcond, hthen, _⟩ := List.nodup_append.1 hn.2
    have hf' := found_eq_nil ((r.expr cond).stmt_passed thenBranch) hf
    refine ((expr_files cs none r cond hcond hf').append
      (stmt_files cs _ thenBranch hthen hf) hn.2 ?_ ?_).mono (by simp_all [optionIds])
    · exact fun i hi => r.expr_table_of_not_mem cond hi
    · exact fun i hi => stmt_table_of_not_mem _ thenBranch hi
  | .conditional _ cond thenBranch (some elseBranch), hn, hf => by
    rw [Stmt.ids_conditional, List.nodup_cons, optionIds] at hn
    obtain ⟨hfirst, helse, _⟩ := List.nodup_append.1 hn.2
    obtain ⟨hcond, hthen, _⟩ := List.nodup_append.1 hfirst
    have hf' := found_eq_nil (((r.expr cond).stmt thenBranch).stmt_passed elseBranch) hf
    have hf'' := found_eq_nil ((r.expr cond).stmt_passed thenBranch) hf'
    have hleft := (expr_files cs none r cond hcond hf'').append
      (stmt_files cs _ thenBranch hthen hf') hfirst
      (fun i hi => r.expr_table_of_not_mem cond hi)
      (fun i hi => stmt_table_of_not_mem _ thenBranch hi)
    refine (hleft.append (stmt_files cs _ elseBranch helse hf) hn.2 ?_ ?_).mono
      (by simp_all [optionIds])
    · intro i hi
      rw [List.mem_append, not_or] at hi
      rw [stmt_table_of_not_mem _ thenBranch hi.2, r.expr_table_of_not_mem cond hi.1]
    · exact fun i hi => stmt_table_of_not_mem _ elseBranch hi
  | .loop _ cond body, hn, hf => by
    rw [Stmt.ids_loop, List.nodup_cons] at hn
    obtain ⟨hcond, hbody, _⟩ := List.nodup_append.1 hn.2
    have hf' := found_eq_nil ((r.expr cond).stmt_passed body) hf
    refine ((expr_files cs none r cond hcond hf').append
      (stmt_files cs _ body hbody hf) hn.2 ?_ ?_).mono (by simp_all)
    · exact fun i hi => r.expr_table_of_not_mem cond hi
    · exact fun i hi => stmt_table_of_not_mem _ body hi
  | .function decl, hn, hf => by
    have hdecl := function_files cs ((r.declare decl.name).define decl.name) .function decl hn hf
    refine Files.cons (hdecl.congr ?_ rfl) rfl
    rw [define_table, declare_table]
  | .ret _ _ none, _, _ => .nil _ _ _
  | .ret _ keyword (some value), hn, hf =>
    ((expr_files cs none (r.checkReturn keyword true) value (by simp_all [optionIds]) hf).congr
      (r.checkReturn_table keyword true).symm rfl).mono (by simp_all [optionIds])
  | .classDecl id name superclass methods, hn, hf => by
    rw [Stmt.ids_classDecl, List.nodup_cons] at hn
    obtain ⟨_, hmethods, _⟩ := List.nodup_append.1 hn.2
    have hleave := leaveClass_keeps ((r.enterClass name superclass).methods methods) superclass
      r.enclosing
    have hf' : ((r.enterClass name superclass).methods methods).found = [] := by
      rw [← hleave.2.2.1]
      exact hf
    have hboth := (r.enterClass_files cs name superclass).append
      (methods_files (classConstructs id superclass methods ++ cs) _ methods hmethods hf') hn.2
      (fun i hi => r.enterClass_table_of_not_mem name hi)
      (fun i hi => methods_table_of_not_mem _ methods hi)
    exact ((hboth.congr rfl hleave.2.2.2).mono (by simp_all)).cons rfl

theorem body_files (cs : List Construct) (r : Resolution) : ∀ body : List Stmt,
    (bodyIds body).Nodup → (r.body body).found = [] →
    Files (bodySites cs r body) (bodyIds body) r (r.body body)
  | [], _, _ => .nil _ _ _
  | s :: ss, hn, hf => by
    rw [bodyIds_cons] at hn ⊢
    obtain ⟨hs, hss, _⟩ := List.nodup_append.1 hn
    have hf' := found_eq_nil ((r.stmt s).body_passed ss) hf
    refine (stmt_files cs r s hs hf').append (body_files cs _ ss hss hf) hn ?_ ?_
    · exact fun i hi => r.stmt_table_of_not_mem s hi
    · exact fun i hi => body_table_of_not_mem _ ss hi

theorem function_files (cs : List Construct) (r : Resolution) (routine : Routine) :
    ∀ f : Function, (functionIds f).Nodup → (r.function routine f).found = [] →
    Files (functionSites cs r routine f) (functionIds f) r (r.function routine f)
  | ⟨id, _, params, body⟩, hn, hf => by
    rw [functionIds_mk, List.nodup_cons] at hn
    have hparams := parameterSites_files (.routine id :: cs) id [] r
      ({ r with routine }.openScope.parameters params) params { r with routine }.openScope
    have hf' : (({ r with routine }.openScope.parameters params).body body).found = [] := hf
    have hbody := body_files (.routine id :: cs) _ body hn.2 hf'
    have hboth := hparams.append hbody (by simpa using hn.2)
      (fun i _ => by rw [parameters_table]; rfl)
      (fun i hi => body_table_of_not_mem _ body hi)
    exact (hboth.congr rfl rfl).mono (by simp_all)

theorem methods_files (cs : List Construct) (r : Resolution) : ∀ methods : List Function,
    (methodIds methods).Nodup → (r.methods methods).found = [] →
    Files (methodSites cs r methods) (methodIds methods) r (r.methods methods)
  | [], _, _ => .nil _ _ _
  | f :: fs, hn, hf => by
    rw [methodIds_cons] at hn ⊢
    obtain ⟨hfirst, hrest, _⟩ := List.nodup_append.1 hn
    have hf' := found_eq_nil ((r.function (methodRoutine f.name) f).methods_passed fs) hf
    refine (function_files cs r _ f hfirst hf').append (methods_files cs _ fs hrest hf) hn ?_ ?_
    · exact fun i hi => r.function_table_of_not_mem _ f hi
    · exact fun i hi => methods_table_of_not_mem _ fs hi

end

end Resolution

/-- **The table of a program without static errors holds the distance of every reference.** -/
theorem ofProgram_filed {stmts : List Stmt} (hids : (bodyIds stmts).Nodup)
    (hfound : (Resolution.ofProgram stmts).found = []) :
    ∀ site ∈ programSites stmts, site.use.isReference = true →
      site.id ∈ bodyIds stmts ∧ site.FiledIn (Resolution.ofProgram stmts).table :=
  Resolution.body_files [] {} stmts hids hfound fun i _ => by simp

/-- The table of a program has no entry for other numbers. -/
theorem ofProgram_table_of_not_mem {stmts : List Stmt} {i : Nat} (h : i ∉ bodyIds stmts) :
    (Resolution.ofProgram stmts).table[i]? = none := by
  rw [Resolution.ofProgram, Resolution.body_table_of_not_mem _ stmts h]
  simp

end LoxLang
