import LoxLang.Proofs.Scope.Distinct
import LoxLang.Proofs.Scope.Spelling

/-!
# Resolving a respelled program

The pass over a respelled program goes through the respelled states of the pass over the program
itself.  So it finds no problem either, and it files every reference under the same distance.

Principal results: `Spelling.resolution_expr`, `Spelling.resolution_stmt`,
`Spelling.ofProgram_stmts`.
-/

namespace LoxLang

/-! ## Respelled scopes -/

namespace Resolution

variable {r : Resolution} {token : Token}

theorem declare_of_new (h : New token.lexeme r.scopes) :
    r.declare token = r.mark token.lexeme false := by
  unfold declare
  cases hs : r.scopes with
  | nil => rfl
  | cons scope outer =>
    have hnew := h scope (by rw [hs]; rfl)
    simp [hnew]

end Resolution

namespace Spelling

variable (σ : Spelling)

/-- Scopes as they are spelled, each by its construct. -/
def scopes (cs : List Construct) (scopes : List (Bindings Bool)) : List (Bindings Bool) :=
  List.zipWith (fun c scope => scope.respell (σ.spell c)) cs scopes

/-- The state of the pass over a respelled program. -/
def resolution (cs : List Construct) (r : Resolution) : Resolution :=
  { r with scopes := σ.scopes cs r.scopes }

/-- Every scope has its construct, and all names are respelled. -/
structure Fits (cs : List Construct) (scopes : List (Bindings Bool)) : Prop where
  length : cs.length = scopes.length
  names : ∀ scope ∈ scopes, ∀ name ∈ scope.names, σ.IsName name

/-- Functions and classes keep their names. -/
def Keeps (sites : List Site) : Prop :=
  ∀ site ∈ sites, site.use = .functionName ∨ site.use = .className →
    σ.spellIn site.around.constructs.head? site.name.lexeme = site.name.lexeme

variable {σ} {cs : List Construct} {scopes : List (Bindings Bool)} {name : String}

theorem keeps_append {sites sites' : List Site} :
    σ.Keeps (sites ++ sites') ↔ σ.Keeps sites ∧ σ.Keeps sites' :=
  List.forall_mem_append

theorem keeps_cons {site : Site} {sites : List Site} :
    σ.Keeps (site :: sites) ↔ σ.Keeps [site] ∧ σ.Keeps sites := by
  rw [← keeps_append]
  rfl

namespace Fits

theorem markIn (h : σ.Fits cs scopes) (hname : σ.IsName name) (b : Bool) :
    σ.Fits cs (markIn name b scopes) where
  length := h.length.trans (markIn_length _ _ _).symm
  names := by
    cases scopes with
    | nil => exact h.names
    | cons scope outer =>
      obtain ⟨hscope, houter⟩ := List.forall_mem_cons.1 h.names
      refine List.forall_mem_cons.2 ⟨fun other hother => ?_, houter⟩
      obtain rfl | hmem := Bindings.mem_names_put hother
      · exact hname
      · exact hscope other hmem

theorem markAll {names : List String} (hnames : ∀ name ∈ names, σ.IsName name) :
    ∀ {scopes : List (Bindings Bool)}, σ.Fits cs scopes →
    σ.Fits cs (LoxLang.markAll names scopes) := by
  induction names with
  | nil => exact fun h => h
  | cons name names ih =>
    intro scopes h
    obtain ⟨hname, hnames⟩ := List.forall_mem_cons.1 hnames
    exact ih hnames (h.markIn hname true)

theorem push (h : σ.Fits cs scopes) (c : Construct) {scope : Bindings Bool}
    (hscope : ∀ name ∈ scope.names, σ.IsName name) : σ.Fits (c :: cs) (scope :: scopes) where
  length := by simp [h.length]
  names := List.forall_mem_cons.2 ⟨hscope, h.names⟩

theorem inClass (h : σ.Fits cs scopes) (id : Nat) (superclass : Option Superclass)
    (methods : List Function) : σ.Fits (classConstructs id superclass methods ++ cs)
      (Resolution.classScopes superclass ++ scopes) := by
  have hthis : ∀ name ∈ (Bindings.empty.put "this" true).names, σ.IsName name := by
    intro name hname
    obtain rfl := List.mem_singleton.1 hname
    exact σ.name_this
  have hsuper : ∀ name ∈ (Bindings.empty.put "super" true).names, σ.IsName name := by
    intro name hname
    obtain rfl := List.mem_singleton.1 hname
    exact σ.name_super
  cases superclass with
  | none => exact h.push _ hthis
  | some s => exact (h.push _ hsuper).push _ hthis

theorem tail {c : Construct} {scope : Bindings Bool} (h : σ.Fits (c :: cs) (scope :: scopes)) :
    σ.Fits cs scopes where
  length := by simpa using h.length
  names := (List.forall_mem_cons.1 h.names).2

end Fits

/-! ## Steps of the pass -/

/-- A reference is found at the same distance, if it is spelled like its declaration. -/
theorem distance?_scopes {l : Option Construct} (hname : σ.IsName name) :
    ∀ {cs : List Construct} {scopes : List (Bindings Bool)}, σ.Fits cs scopes →
    (∀ d, distance? name scopes = some d → cs[d]? = l) →
    distance? (σ.spellIn l name) (σ.scopes cs scopes) = distance? name scopes
  | [], [], _, _ => rfl
  | [], _ :: _, h, _ => by cases h.length
  | _ :: _, [], h, _ => by cases h.length
  | c :: cs, scope :: scopes, h, hl => by
    have hscope := (List.forall_mem_cons.1 h.names).1
    unfold distance? at hl
    show distance? _ (scope.respell (σ.spell c) :: σ.scopes cs scopes) = _
    unfold distance?
    cases hc : scope.contains name with
    | true =>
      obtain rfl : some c = l := hl 0 (by rw [if_pos hc])
      have hfind : (scope.respell (σ.spell c)).find? (σ.spell c name) = scope.find? name :=
        Bindings.find?_respell fun key hkey heq => σ.spell_inj c c (hscope key hkey) hname heq
      have hc' : (scope.respell (σ.spell c)).contains (σ.spellIn (some c) name) = true := by
        unfold Bindings.contains at hc ⊢
        rw [spellIn, hfind]
        exact hc
      rw [if_pos hc']
      rfl
    | false =>
      have hc' : (scope.respell (σ.spell c)).contains (σ.spellIn l name) = false := by
        unfold Bindings.contains at hc ⊢
        cases hf : (scope.respell (σ.spell c)).find? (σ.spellIn l name) with
        | none => rfl
        | some v =>
          rw [Bindings.find?_of_respell (fun key hkey heq =>
            σ.spellIn_inj (l := some c) (hscope key hkey) hname heq) hf] at hc
          cases hc
      have ih := distance?_scopes (l := l) hname h.tail fun d hd =>
        hl (d + 1) (by rw [hc, if_neg Bool.false_ne_true, hd]; rfl)
      rw [hc', ih]

section Pass

variable {p : Surroundings} {r : Resolution} {token : Token}

theorem resolution_refer (id : Nat) (hs : r.scopes = p.scopes) (hfits : σ.Fits p.constructs p.scopes)
    (hname : σ.IsName token.lexeme) :
    (σ.resolution p.constructs r).refer id (σ.reference p token) =
      σ.resolution p.constructs (r.refer id token) := by
  have hdistance : distance? (σ.reference p token).lexeme (σ.scopes p.constructs r.scopes) =
      distance? token.lexeme r.scopes := by
    rw [hs]
    refine distance?_scopes hname hfits fun d hd => ?_
    rw [Surroundings.holder?, hd, Option.bind_some]
  unfold Resolution.refer
  simp only [resolution, hdistance]
  cases distance? token.lexeme r.scopes <;> rfl

theorem resolution_isPending (hs : r.scopes = p.scopes) (hfits : σ.Fits p.constructs p.scopes)
    (hname : σ.IsName token.lexeme) (h : r.isPending token.lexeme = false) :
    (σ.resolution p.constructs r).isPending (σ.reference p token).lexeme = false := by
  obtain ⟨constructs, pscopes, init⟩ := p
  simp only at hs hfits
  unfold Resolution.isPending at h ⊢
  simp only [resolution, hs] at h ⊢
  cases constructs with
  | nil => rfl
  | cons c cs =>
    cases pscopes with
    | nil => rfl
    | cons scope outer =>
      have hscope := (List.forall_mem_cons.1 hfits.names).1
      simp only [scopes, List.zipWith_cons_cons]
      cases hf : (scope.respell (σ.spell c)).find?
          (σ.reference ⟨c :: cs, scope :: outer, init⟩ token).lexeme with
      | none => rfl
      | some b =>
        have hfound := Bindings.find?_of_respell (fun key hkey heq =>
          σ.spellIn_inj (l := some c) (hscope key hkey) hname heq) hf
        simp only [hfound] at h
        exact h

theorem resolution_read (id : Nat) (hs : r.scopes = p.scopes) (hfits : σ.Fits p.constructs p.scopes)
    (hname : σ.IsName token.lexeme) (h : (r.read id token).found = []) :
    (σ.resolution p.constructs r).read id (σ.reference p token) =
      σ.resolution p.constructs (r.read id token) := by
  have hpending := Resolution.read_found h
  unfold Resolution.read
  simp only [hpending, resolution_isPending hs hfits hname hpending, Bool.false_eq_true, if_false]
  exact resolution_refer id hs hfits hname

theorem resolution_mark (hs : r.scopes = p.scopes) (hfits : σ.Fits p.constructs p.scopes)
    (hname : σ.IsName token.lexeme) (b : Bool) :
    (σ.resolution p.constructs r).mark (σ.declaration p token).lexeme b =
      σ.resolution p.constructs (r.mark token.lexeme b) := by
  obtain ⟨constructs, pscopes, init⟩ := p
  obtain ⟨rscopes, table, routine, enclosing, found⟩ := r
  simp only at hs hfits
  subst hs
  cases constructs with
  | nil =>
    cases rscopes with
    | nil => rfl
    | cons scope outer => cases hfits.length
  | cons c cs =>
    cases rscopes with
    | nil => rfl
    | cons scope outer =>
      have hscope := (List.forall_mem_cons.1 hfits.names).1
      have hput : (scope.respell (σ.spell c)).put (σ.spell c token.lexeme) b =
          (scope.put token.lexeme b).respell (σ.spell c) :=
        Bindings.put_respell fun key hkey heq => σ.spell_inj c c (hscope key hkey) hname heq
      simp only [resolution, scopes, List.zipWith_cons_cons, Resolution.mark, declaration,
        List.head?_cons, spellIn, hput]

/-- A name is new in a respelled scope if it is new in the scope. -/
theorem new_scopes (hfits : σ.Fits p.constructs p.scopes)
    (hname : σ.IsName token.lexeme)
    (h : New token.lexeme p.scopes) :
    New (σ.declaration p token).lexeme (σ.scopes p.constructs p.scopes) := by
  obtain ⟨constructs, pscopes, init⟩ := p
  intro scope' hscope'
  cases constructs with
  | nil => cases hscope'
  | cons c cs =>
    cases pscopes with
    | nil => cases hscope'
    | cons scope outer =>
      have hscope := (List.forall_mem_cons.1 hfits.names).1
      have hfind : (scope.respell (σ.spell c)).find? (σ.spell c token.lexeme) =
          scope.find? token.lexeme :=
        Bindings.find?_respell fun key hkey heq => σ.spell_inj c c (hscope key hkey) hname heq
      cases hscope'
      have hnew := h scope rfl
      simp only [Bindings.contains, declaration, List.head?_cons, spellIn, hfind] at hnew ⊢
      exact hnew

theorem resolution_declare (hs : r.scopes = p.scopes) (hfits : σ.Fits p.constructs p.scopes)
    (hname : σ.IsName token.lexeme) (h : (r.declare token).found = []) :
    (σ.resolution p.constructs r).declare (σ.declaration p token) =
      σ.resolution p.constructs (r.declare token) := by
  have hnew := Resolution.declare_new h
  have hnew' : New (σ.declaration p token).lexeme (σ.resolution p.constructs r).scopes := by
    rw [resolution, hs]
    rw [hs] at hnew
    exact new_scopes hfits hname hnew
  rw [Resolution.declare_of_new hnew, Resolution.declare_of_new hnew']
  exact resolution_mark hs hfits hname false

/-- A declaration that is complete. -/
theorem resolution_declare_define (hs : r.scopes = p.scopes)
    (hfits : σ.Fits p.constructs p.scopes) (hname : σ.IsName token.lexeme)
    (h : (r.declare token).found = []) :
    ((σ.resolution p.constructs r).declare (σ.declaration p token)).define
        (σ.declaration p token) =
      σ.resolution p.constructs ((r.declare token).define token) := by
  have hs' : (r.declare token).scopes = (p.mark token.lexeme false).scopes := by
    rw [Resolution.declare_scopes, hs]
    rfl
  rw [resolution_declare hs hfits hname h]
  exact resolution_mark (p := p.mark token.lexeme false) hs' (hfits.markIn hname false) hname true

end Pass

/-! ## Expressions -/

section Trees

open Resolution

variable {P : Token → Prop}

mutual

theorem resolution_expr (hP : σ.Suits P) {p : Surroundings} {r : Resolution}
    (hs : r.scopes = p.scopes) (hfits : σ.Fits p.constructs p.scopes) : ∀ e : Expr, e.Proper P →
    (r.expr e).found = [] →
    (σ.resolution p.constructs r).expr (σ.expr p e) = σ.resolution p.constructs (r.expr e)
  | .literal .., _, _ => rfl
  | .grouping _ inner, he, hf => resolution_expr hP hs hfits inner he hf
  | .unary _ _ operand, he, hf => resolution_expr hP hs hfits operand he.2 hf
  | .binary _ left _ right, he, hf => by
    show ((σ.resolution p.constructs r).expr (σ.expr p left)).expr (σ.expr p right) = _
    rw [resolution_expr hP hs hfits left he.1 (found_eq_nil (expr_passed _ right) hf),
      resolution_expr hP ((r.expr_scopes left).trans hs) hfits right he.2.2 hf]
    rfl
  | .logical _ left _ right, he, hf => by
    show ((σ.resolution p.constructs r).expr (σ.expr p left)).expr (σ.expr p right) = _
    rw [resolution_expr hP hs hfits left he.1 (found_eq_nil (expr_passed _ right) hf),
      resolution_expr hP ((r.expr_scopes left).trans hs) hfits right he.2.2 hf]
    rfl
  | .var id name, he, hf => resolution_read id hs hfits (hP.isName name he.2) hf
  | .assign id name value, he, hf => by
    show ((σ.resolution p.constructs r).expr (σ.expr p value)).refer id (σ.reference p name) = _
    rw [resolution_expr hP hs hfits value he.2 (found_eq_nil (refer_passed _ id name) hf)]
    exact resolution_refer id ((r.expr_scopes value).trans hs) hfits (hP.isName name he.1.2)
  | .call _ callee _ args, he, hf => by
    show ((σ.resolution p.constructs r).expr (σ.expr p callee)).args (σ.exprs p args) = _
    rw [resolution_expr hP hs hfits callee he.1 (found_eq_nil (args_passed _ args) hf),
      resolution_args hP ((r.expr_scopes callee).trans hs) hfits args he.2.2.1 hf]
    rfl
  | .get _ object _, he, hf => resolution_expr hP hs hfits object he.1 hf
  | .set _ object _ value, he, hf => by
    show ((σ.resolution p.constructs r).expr (σ.expr p value)).expr (σ.expr p object) = _
    rw [resolution_expr hP hs hfits value he.2.2 (found_eq_nil (expr_passed _ object) hf),
      resolution_expr hP ((r.expr_scopes value).trans hs) hfits object he.1 hf]
    rfl
  | .this id keyword, he, _ => by
    have hthis := (hP.genuine keyword he.2).this he.1
    have hrefer := resolution_refer id hs hfits (hP.isName keyword he.2)
    rw [σ.reference_this p hthis] at hrefer
    show (if r.enclosing = .none then _ else _) = _
    rw [Resolution.expr]
    split
    · rfl
    · exact hrefer
  | .super id keyword _, he, hf => by
    have hsuper := (hP.genuine keyword he.1.2).super he.1.1
    have hrefer := resolution_refer id hs hfits (hP.isName keyword he.1.2)
    rw [σ.reference_super p hsuper] at hrefer
    have henclosing := checkSuper_found hf
    have hcheck : ∀ r : Resolution, r.enclosing = .subclass → r.checkSuper keyword = r := by
      intro r h
      rw [checkSuper, h]
    show ((σ.resolution p.constructs r).checkSuper keyword).refer id keyword =
      σ.resolution p.constructs ((r.checkSuper keyword).refer id keyword)
    rw [hcheck _ henclosing, hcheck (σ.resolution p.constructs r) henclosing]
    exact hrefer

theorem resolution_args (hP : σ.Suits P) {p : Surroundings} {r : Resolution}
    (hs : r.scopes = p.scopes) (hfits : σ.Fits p.constructs p.scopes) : ∀ args : List Expr,
    ProperArgs P args → (r.args args).found = [] →
    (σ.resolution p.constructs r).args (σ.exprs p args) = σ.resolution p.constructs (r.args args)
  | [], _, _ => rfl
  | e :: es, he, hf => by
    show ((σ.resolution p.constructs r).expr (σ.expr p e)).args (σ.exprs p es) = _
    rw [resolution_expr hP hs hfits e he.1 (found_eq_nil (args_passed _ es) hf),
      resolution_args hP ((r.expr_scopes e).trans hs) hfits es he.2 hf]
    rfl

end

/-! ## Statements -/

theorem resolution_closeScope (c : Construct) (cs : List Construct) (r : Resolution) :
    (σ.resolution (c :: cs) r).closeScope = σ.resolution cs r.closeScope := by
  obtain ⟨rscopes, table, routine, enclosing, found⟩ := r
  cases rscopes with
  | nil => cases cs <;> rfl
  | cons scope outer => rfl

theorem resolution_parameters {cs : List Construct} {c : Construct} {params : List Token}
    (hparams : ∀ t ∈ params, σ.IsName t.lexeme) : ∀ {r : Resolution},
    σ.Fits (c :: cs) r.scopes → (r.parameters params).found = [] →
    (σ.resolution (c :: cs) r).parameters
        (params.map fun t => { t with lexeme := σ.spell c t.lexeme }) =
      σ.resolution (c :: cs) (r.parameters params) := by
  induction params with
  | nil => exact fun _ _ => rfl
  | cons t params ih =>
    intro r hfits hf
    obtain ⟨ht, hparams⟩ := List.forall_mem_cons.1 hparams
    have hdeclared := r.declare_define_passed t
    obtain ⟨_, _, _, hfound⟩ := parameters_keeps params ((r.declare t).define t)
    have hf₁ : ((r.declare t).define t).found = [] := by
      have hhead : ((r.declare t).define t).found <+: (r.parameters (t :: params)).found := hfound
      rwa [hf, List.prefix_nil] at hhead
    have hf₂ : (r.declare t).found = [] := declare_define_found hf₁
    have hstep := resolution_declare_define (p := ⟨c :: cs, r.scopes, none⟩) rfl hfits ht hf₂
    have hfits₁ : σ.Fits (c :: cs) ((r.declare t).define t).scopes := by
      rw [hdeclared.scopes]
      exact hfits.markIn ht true
    exact (congrArg (Resolution.parameters · _) hstep).trans (ih hparams hfits₁ hf)

/-- The declared name of a function or class, which keeps its spelling. -/
theorem Keeps.declaration_eq {use : Use} {id : Nat} {name : Token} {p q : Surroundings}
    (h : σ.Keeps [⟨use, id, name, q⟩]) (hq : q.constructs = p.constructs)
    (huse : use = .functionName ∨ use = .className) : σ.declaration p name = name := by
  have hspelled : σ.spellIn p.constructs.head? name.lexeme = name.lexeme := by
    rw [← hq]
    exact h _ (List.mem_singleton.2 rfl) huse
  simp only [declaration, hspelled]

/-- An implicit scope. -/
theorem resolution_openScopeWith {c : Construct} {name : String} (hname : σ.spell c name = name)
    (cs : List Construct) (r : Resolution) :
    (σ.resolution cs r).openScopeWith name = σ.resolution (c :: cs) (r.openScopeWith name) := by
  have hscope : (Bindings.empty.put name true).respell (σ.spell c) =
      Bindings.empty.put name true := by
    simp [Bindings.respell, Bindings.put, Bindings.empty, Bindings.putIn, hname]
  simp only [resolution, openScopeWith, scopes, List.zipWith_cons_cons, hscope]

theorem resolution_enterClass (hP : σ.Suits P) {p : Surroundings} {r : Resolution}
    (hs : r.scopes = p.scopes) (hfits : σ.Fits p.constructs p.scopes) (id : Nat) {name : Token}
    (hname : ProperName P name) (hkept : σ.declaration p name = name) (methods : List Function) :
    ∀ superclass : Option Superclass, (∀ s ∈ superclass, ProperName P s.name) →
    (r.enterClass name superclass).found = [] →
    (σ.resolution p.constructs r).enterClass name (σ.superclass p name superclass) =
      σ.resolution (classConstructs id superclass methods ++ p.constructs)
        (r.enterClass name superclass) := by
  have hname := hP.isName name hname.2
  have hdeclared := { r with enclosing := .plain }.declare_define_passed name
  have hdeclare : ∀ r : Resolution, r.scopes = p.scopes →
      ((r.declare name).define name).found = [] →
      ((σ.resolution p.constructs r).declare name).define name =
        σ.resolution p.constructs ((r.declare name).define name) := by
    intro r hs hf
    have hstep := resolution_declare_define hs hfits hname (declare_define_found hf)
    rwa [hkept] at hstep
  specialize hdeclare { r with enclosing := .plain } hs
  intro superclass hsuper hf
  cases superclass with
  | none =>
    refine (congrArg (openScopeWith · "this") (hdeclare hf)).trans ?_
    exact resolution_openScopeWith (σ.spell_this _) _ _
  | some s =>
    have hself := superclass_ne hf
    have hsuper := hP.isName s.name (hsuper s rfl).2
    have hself' : (σ.reference (p.mark name.lexeme true) s.name).lexeme ≠ name.lexeme := by
      intro heq
      rw [← hkept] at heq
      exact hself (σ.spellIn_inj hsuper hname heq)
    rw [enterClass_of_ne rfl hself] at hf ⊢
    generalize ({ r with enclosing := .plain }.declare name).define name = r₁ at *
    have hs₁ : r₁.scopes = (p.mark name.lexeme true).scopes := by
      rw [hdeclared.scopes, markAll_singleton]
      simp only [hs]
      rfl
    have hread := resolution_read (p := p.mark name.lexeme true)
      (r := { r₁ with enclosing := .subclass }) s.id hs₁ (hfits.markIn hname true) hsuper hf
    have hdeclare := hdeclare (found_eq_nil (r := { r₁ with enclosing := .subclass })
      (read_passed _ s.id s.name) hf)
    refine (enterClass_of_ne hdeclare hself').trans ?_
    refine (congrArg (fun r => (openScopeWith r "super").openScopeWith "this") hread).trans ?_
    rw [resolution_openScopeWith (σ.spell_super (.base id))]
    exact resolution_openScopeWith (σ.spell_this _) _ _

theorem resolution_leaveClass (cs : List Construct) (id : Nat) (methods : List Function)
    (superclass : Option Superclass) {superclass' : Option Superclass}
    (h : superclass'.isSome = superclass.isSome) (r : Resolution) (outer : ClassContext) :
    (σ.resolution (classConstructs id superclass methods ++ cs) r).leaveClass superclass' outer =
      σ.resolution cs (r.leaveClass superclass outer) := by
  unfold leaveClass classConstructs
  simp only [h]
  cases superclass with
  | none =>
    exact congrArg (fun r : Resolution => { r with enclosing := outer })
      (resolution_closeScope (.receiver id methods) cs r)
  | some s =>
    have hclose : (σ.resolution (.receiver id methods :: .base id :: cs) r).closeScope.closeScope =
        σ.resolution cs r.closeScope.closeScope := by
      rw [resolution_closeScope, resolution_closeScope]
    exact congrArg (fun r : Resolution => { r with enclosing := outer }) hclose

theorem resolution_checkReturn (cs : List Construct) (r : Resolution) (keyword : Token)
    (hasValue : Bool) :
    (σ.resolution cs r).checkReturn keyword hasValue =
      σ.resolution cs (r.checkReturn keyword hasValue) := by
  obtain ⟨scopes, table, routine, enclosing, found⟩ := r
  cases routine <;> cases hasValue <;> rfl

mutual

theorem resolution_stmt (hP : σ.Suits P) {p : Surroundings} {r : Resolution}
    (hs : r.scopes = p.scopes) (hfits : σ.Fits p.constructs p.scopes) : ∀ s : Stmt, s.Proper P →
    (r.stmt s).found = [] → σ.Keeps (stmtSites p.constructs r s) →
    (σ.resolution p.constructs r).stmt (σ.stmt p s) = σ.resolution p.constructs (r.stmt s)
  | .malformed, h, _, _ => h.elim
  | .expression _ value, h, hf, _ => resolution_expr hP hs hfits value h hf
  | .print _ value, h, hf, _ => resolution_expr hP hs hfits value h hf
  | .declare _ name none, h, hf, _ => by
    exact resolution_declare_define hs hfits (hP.isName name h.2) (declare_define_found hf)
  | .declare id name (some value), h, hf, _ => by
    have hname := hP.isName name h.1.2
    obtain ⟨_, _, hfound, _⟩ := ((r.declare name).expr value).mark_routine name.lexeme true
    have hf' : ((r.declare name).expr value).found = [] := hfound ▸ hf
    have hs₁ : (r.declare name).scopes = (p.initializer id name.lexeme).scopes := by
      rw [declare_scopes, hs]
      rfl
    have hfits₁ : σ.Fits p.constructs (p.initializer id name.lexeme).scopes :=
      hfits.markIn hname false
    show (((σ.resolution p.constructs r).declare (σ.declaration p name)).expr
      (σ.expr (p.initializer id name.lexeme) value)).define (σ.declaration p name) = _
    rw [resolution_declare hs hfits hname (found_eq_nil (expr_passed _ value) hf')]
    have hvalue := resolution_expr hP hs₁ hfits₁ value h.2 hf'
    refine (congrArg (Resolution.define · (σ.declaration p name)) hvalue).trans ?_
    exact resolution_mark (p := p.initializer id name.lexeme)
      ((expr_scopes _ value).trans hs₁) hfits₁ hname true
  | .block id body, h, hf, hk => by
    have hbody := resolution_body hP (p := p.enter (.block id)) (r := r.openScope)
      (by simp only [openScope, hs]; rfl) (hfits.push _ fun _ hmem => by cases hmem) body h hf hk
    refine (congrArg Resolution.closeScope hbody).trans ?_
    exact resolution_closeScope _ _ _
  | .conditional _ cond thenBranch none, h, hf, hk => by
    obtain ⟨_, hkthen⟩ := keeps_append.1 hk
    show ((σ.resolution p.constructs r).expr (σ.expr p cond)).stmt (σ.stmt p thenBranch) = _
    rw [resolution_expr hP hs hfits cond h.1 (found_eq_nil (stmt_passed _ thenBranch) hf),
      resolution_stmt hP ((r.expr_scopes cond).trans hs) hfits thenBranch h.2.1 hf hkthen]
    rfl
  | .conditional _ cond thenBranch (some elseBranch), h, hf, hk => by
    obtain ⟨hk, hkelse⟩ := keeps_append.1 hk
    obtain ⟨_, hkthen⟩ := keeps_append.1 hk
    have hthen := (r.expr cond).stmt_passed thenBranch
    have hf' := found_eq_nil (stmt_passed _ elseBranch) hf
    rw [h.2.1.1.declared_eq_nil h.2.1.2] at hthen
    show (((σ.resolution p.constructs r).expr (σ.expr p cond)).stmt (σ.stmt p thenBranch)).stmt
      (σ.stmt p elseBranch) = _
    rw [resolution_expr hP hs hfits cond h.1 (found_eq_nil (stmt_passed _ thenBranch) hf'),
      resolution_stmt hP ((r.expr_scopes cond).trans hs) hfits thenBranch h.2.1.1 hf' hkthen,
      resolution_stmt hP (hthen.scopes.trans ((r.expr_scopes cond).trans hs)) hfits elseBranch
        h.2.2.1 hf hkelse]
    rfl
  | .loop _ cond body, h, hf, hk => by
    obtain ⟨_, hkbody⟩ := keeps_append.1 hk
    show ((σ.resolution p.constructs r).expr (σ.expr p cond)).stmt (σ.stmt p body) = _
    rw [resolution_expr hP hs hfits cond h.1 (found_eq_nil (stmt_passed _ body) hf),
      resolution_stmt hP ((r.expr_scopes cond).trans hs) hfits body h.2.1 hf hkbody]
    rfl
  | .function decl, h, hf, hk => by
    obtain ⟨hkname, hkdecl⟩ := keeps_cons.1 hk
    have hname := hP.isName decl.name (ProperFunction.name h).2
    have hdeclared := r.declare_define_passed decl.name
    have hf₁ := found_eq_nil (function_passed _ .function decl) hf
    have hf₂ : (r.declare decl.name).found = [] :=
      declare_define_found hf₁
    have hs₁ : ((r.declare decl.name).define decl.name).scopes =
        (p.mark decl.name.lexeme true).scopes := by
      rw [hdeclared.scopes, hs]
      rfl
    have hdeclare := resolution_declare_define hs hfits hname hf₂
    rw [hkname.declaration_eq (p := p) rfl (.inl rfl)] at hdeclare
    have hfunction := resolution_function (p := p.mark decl.name.lexeme true) hP hs₁
      (hfits.markIn hname true) .function decl h hf hkdecl
    obtain ⟨id, name, params, body⟩ := decl
    exact (congrArg (Resolution.function · .function _) hdeclare).trans hfunction
  | .ret _ keyword none, _, _, _ => resolution_checkReturn p.constructs r keyword false
  | .ret _ keyword (some value), h, hf, _ => by
    have hreturn := r.checkReturn_passed keyword true
    have hvalue := resolution_expr hP (hreturn.scopes.trans hs) hfits value h.2 hf
    refine (congrArg (Resolution.expr · _) ?_).trans hvalue
    exact resolution_checkReturn p.constructs r keyword true
  | .classDecl id name superclass methods, h, hf, hk => by
    obtain ⟨hkname, hk⟩ := keeps_cons.1 hk
    obtain ⟨_, hkmethods⟩ := keeps_append.1 hk
    obtain ⟨_, _, hfound, _⟩ :=
      ((r.enterClass name superclass).methods methods).leaveClass_keeps superclass r.enclosing
    have hf' : ((r.enterClass name superclass).methods methods).found = [] := hfound ▸ hf
    have hname := hP.isName name h.1.2
    have henter := resolution_enterClass hP hs hfits id h.1 (hkname.declaration_eq rfl (.inr rfl))
      methods superclass h.2.1 (found_eq_nil (methods_passed _ methods) hf')
    have hmethods := resolution_methods (p := (p.mark name.lexeme true).inClass id superclass methods)
      hP (by rw [enterClass_scopes, hs]; rfl) ((hfits.markIn hname true).inClass id superclass methods)
      methods h.2.2 hf' hkmethods
    refine (congrArg (fun r' : Resolution => (r'.methods _).leaveClass _ r.enclosing) henter).trans ?_
    refine (congrArg (leaveClass · (σ.superclass p name superclass) r.enclosing) hmethods).trans ?_
    refine resolution_leaveClass p.constructs id methods superclass ?_ _ _
    cases superclass <;> rfl

theorem resolution_body (hP : σ.Suits P) {p : Surroundings} {r : Resolution}
    (hs : r.scopes = p.scopes) (hfits : σ.Fits p.constructs p.scopes) : ∀ body : List Stmt,
    ProperBody P body → (r.body body).found = [] → σ.Keeps (bodySites p.constructs r body) →
    (σ.resolution p.constructs r).body (σ.stmts p body) = σ.resolution p.constructs (r.body body)
  | [], _, _, _ => rfl
  | s :: ss, h, hf, hk => by
    obtain ⟨hks, hkss⟩ := keeps_append.1 hk
    have hpassed := r.stmt_passed s
    have hstmt := resolution_stmt hP hs hfits s h.1 (found_eq_nil (body_passed _ ss) hf) hks
    have hbody := resolution_body (p := p.after s) hP (by rw [hpassed.scopes, hs]; rfl)
      (hfits.markAll (h.1.declared_isName hP)) ss h.2 hf hkss
    exact (congrArg (Resolution.body · _) hstmt).trans hbody

theorem resolution_function (hP : σ.Suits P) {p : Surroundings} {r : Resolution}
    (hs : r.scopes = p.scopes) (hfits : σ.Fits p.constructs p.scopes) (routine : Routine) :
    ∀ f : Function, ProperFunction P f → (r.function routine f).found = [] →
    σ.Keeps (functionSites p.constructs r routine f) →
    (σ.resolution p.constructs r).function routine (σ.function p f) =
      σ.resolution p.constructs (r.function routine f)
  | ⟨id, name, params, body⟩, h, hf, hk => by
    obtain ⟨_, hkbody⟩ := keeps_append.1 hk
    obtain ⟨hscopes, _⟩ := parameters_keeps params { r with routine }.openScope
    have hparams : ∀ t ∈ params, σ.IsName t.lexeme := fun t ht => hP.isName t (h.2.1.1 t ht).2
    have hopen : σ.Fits (.routine id :: p.constructs) { r with routine }.openScope.scopes := by
      simp only [openScope, hs]
      exact hfits.push _ fun _ hmem => by cases hmem
    have hf' : (({ r with routine }.openScope.parameters params).body body).found = [] := hf
    have hfirst := resolution_parameters hparams hopen (found_eq_nil (body_passed _ body) hf')
    have hbody := resolution_body (p := p.inRoutine id params) hP
      (by rw [hscopes]; simp only [openScope, hs]; rfl)
      ((hfits.push _ fun _ hmem => by cases hmem).markAll (by simpa using hparams)) body h.2.2 hf'
      hkbody
    have hinner := (congrArg (Resolution.body · _) hfirst).trans hbody
    refine (congrArg (fun inner : Resolution => { inner.closeScope with routine := r.routine })
      hinner).trans ?_
    rw [show (p.inRoutine id params).constructs = .routine id :: p.constructs from rfl,
      resolution_closeScope]
    rfl

theorem resolution_methods (hP : σ.Suits P) {p : Surroundings} {r : Resolution}
    (hs : r.scopes = p.scopes) (hfits : σ.Fits p.constructs p.scopes) : ∀ methods : List Function,
    ProperMethods P methods → (r.methods methods).found = [] →
    σ.Keeps (methodSites p.constructs r methods) →
    (σ.resolution p.constructs r).methods (σ.functions p methods) =
      σ.resolution p.constructs (r.methods methods)
  | [], _, _, _ => rfl
  | f :: fs, h, hf, hk => by
    obtain ⟨hkf, hkfs⟩ := keeps_append.1 hk
    have hpassed := r.function_passed (methodRoutine f.name) f
    have hfunction := resolution_function hP hs hfits (methodRoutine f.name) f h.1
      (found_eq_nil (methods_passed _ fs) hf) hkf
    have hmethods := resolution_methods hP (hpassed.scopes.trans hs) hfits fs h.2 hf hkfs
    obtain ⟨id, name, params, body⟩ := f
    exact (congrArg (Resolution.methods · _) hfunction).trans hmethods

end

end Trees

/-- **The pass over a respelled program files the same distances and finds no problem either.** -/
theorem ofProgram_stmts {P : Token → Prop} (hP : σ.Suits P) {stmts : List Stmt}
    (h : ProperBody P stmts) (hfound : (Resolution.ofProgram stmts).found = [])
    (hkeeps : σ.Keeps (programSites stmts)) :
    (Resolution.ofProgram (σ.stmts .outermost stmts)).table =
        (Resolution.ofProgram stmts).table ∧
      (Resolution.ofProgram (σ.stmts .outermost stmts)).found = [] := by
  have hpass := resolution_body (p := .outermost) (r := {}) hP rfl ⟨rfl, by simp [Surroundings.outermost]⟩
    stmts h hfound hkeeps
  have hstart : σ.resolution Surroundings.outermost.constructs {} = {} := rfl
  rw [hstart] at hpass
  unfold Resolution.ofProgram
  rw [hpass]
  exact ⟨rfl, hfound⟩

end Spelling

end LoxLang
