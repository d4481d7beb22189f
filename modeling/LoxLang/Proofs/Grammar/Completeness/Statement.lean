import LoxLang.Proofs.Grammar.Completeness.Expression
import LoxLang.Proofs.Grammar.Soundness.Statement

/-!
# The grammar of statements is read

Statements of the grammar are read as their trees.  The first token tells the rules apart, and an
`if` without `else` needs to know that none follows it.

Principal result: `programItems_yields`.
-/

namespace LoxLang

open Grammar

/-! ## First tokens -/

/-- The classes of tokens that a statement may start with. -/
def opensStatement : TokenKind → Bool
  | .kwFor | .kwIf | .kwWhile | .kwPrint | .kwReturn | .leftBrace => true
  | kind => startsExpression kind

/-- The classes of tokens that a declaration may start with. -/
def opensDeclaration : TokenKind → Bool
  | .kwClass | .kwFun | .kwVar => true
  | kind => opensStatement kind

theorem opensStatement_of_expression {kind : TokenKind} (h : startsExpression kind = true) :
    opensStatement kind = true := by
  cases kind <;> first | rfl | cases h

theorem opensDeclaration_of_statement {kind : TokenKind} (h : opensStatement kind = true) :
    opensDeclaration kind = true := by
  cases kind <;> first | rfl | cases h

theorem Grammar.ExpressionStmt.starts {ts : List Token} {s : Stmt} {ds : List Diagnostic}
    (h : ExpressionStmt ts s ds) : ∃ t us, ts = t :: us ∧ startsExpression t.kind = true := by
  obtain ⟨h, _⟩ := h
  obtain ⟨t, us, rfl, ht⟩ := h.starts
  exact ⟨t, _, rfl, ht⟩

theorem Grammar.Statement.starts {dangling : Bool} {ts : List Token} {s : Stmt}
    {ds : List Diagnostic} (h : Statement dangling ts s ds) :
    ∃ t us, ts = t :: us ∧ opensStatement t.kind = true := by
  cases h with
  | expression h =>
    obtain ⟨t, us, hts, ht⟩ := h.starts
    exact ⟨t, us, hts, opensStatement_of_expression ht⟩
  | print hk => exact ⟨_, _, rfl, by rw [hk]; rfl⟩
  | ret hk => exact ⟨_, _, rfl, by rw [hk]; rfl⟩
  | loop hk => exact ⟨_, _, rfl, by rw [hk]; rfl⟩
  | ifThen hk => exact ⟨_, _, rfl, by rw [hk]; rfl⟩
  | ifElse hk => exact ⟨_, _, rfl, by rw [hk]; rfl⟩
  | forLoop hk => exact ⟨_, _, rfl, by rw [hk]; rfl⟩
  | block hk => exact ⟨_, _, rfl, by rw [hk]; rfl⟩

theorem Grammar.Declaration.starts {ts : List Token} {s : Stmt} {ds : List Diagnostic}
    (h : Declaration ts s ds) : ∃ t us, ts = t :: us ∧ opensDeclaration t.kind = true := by
  cases h with
  | classDecl hk => exact ⟨_, _, rfl, by rw [hk]; rfl⟩
  | function hk => exact ⟨_, _, rfl, by rw [hk]; rfl⟩
  | var hk => exact ⟨_, _, rfl, by rw [hk]; rfl⟩
  | statement h =>
    obtain ⟨t, us, hts, ht⟩ := h.starts
    exact ⟨t, us, hts, opensDeclaration_of_statement ht⟩

theorem Grammar.Routine.starts {ts : List Token} {f : Function} {ds : List Diagnostic}
    (h : Routine ts f ds) : ∃ t us, ts = t :: us ∧ t.kind = .identifier := by
  obtain ⟨hname⟩ := h
  exact ⟨_, _, rfl, hname⟩

/-- No `else` stands at the front. -/
def NoElse (rest : List Token) : Prop := ∀ t ∈ rest.head?, t.kind ≠ .kwElse

theorem NoElse.cons {t : Token} {rest : List Token} (h : t.kind ≠ .kwElse) : NoElse (t :: rest) := by
  intro t' ht
  cases ht
  exact h

/-- Declarations do not start with `else`. -/
theorem Grammar.Declarations.noElse {ts rest : List Token} {ss : List Stmt} {ds : List Diagnostic}
    (h : Declarations ts ss ds) (hrest : NoElse rest) : NoElse (ts ++ rest) := by
  cases h with
  | none => exact hrest
  | more h _ =>
    obtain ⟨t, us, rfl, ht⟩ := h.starts
    exact .cons fun hk => by rw [hk] at ht; cases ht

/-! ## Parts of statements -/

section Parts

variable {ts : List Token} {ds : List Diagnostic} {c : Cursor} {rest : List Token} {t : Token}

theorem Grammar.Variable.yields {s : Stmt} (h : Variable ts s ds) (hr : c.rest = ts ++ rest) :
    (variableDecl c).Yields (Renumbers Stmt.bare s c ts ds) := by
  unfold variableDecl
  cases h with
  | plain hname ht =>
    rw [Cursor.expect_cons _ hr hname, Reply.bind_ok, Cursor.accept?_eq_none_iff.2]
    · simp only [List.append_eq]
      rw [Cursor.expect_cons _ rfl ht]
      exact .ok ⟨rfl, (Reads.two hr).trans (.node _)⟩
    · intro t' ht'
      cases ht'
      rw [ht]
      decide
  | initialized hname hequals hvalue ht =>
    simp only [List.cons_append, List.append_assoc, List.nil_append] at hr
    rw [Cursor.expect_cons _ hr hname, Reply.bind_ok, Cursor.accept?_cons rfl hequals]
    refine (expression_yields hvalue rfl (by rw [ht]; rfl)).bind fun value' c₁ ⟨hbare, hr₁⟩ => ?_
    have hc₁ := hr₁.rest_eq rfl
    rw [Cursor.expect_cons _ hc₁ ht]
    refine .ok ⟨by simp [Stmt.bare, hbare], ?_⟩
    simpa using (Reads.two hr).trans (hr₁.trans ((Reads.step hc₁).trans (.node _)))

theorem Grammar.ExpressionStmt.yields {s : Stmt} (h : ExpressionStmt ts s ds)
    (hr : c.rest = ts ++ rest) : (expressionStmt c).Yields (Renumbers Stmt.bare s c ts ds) := by
  obtain ⟨h, ht⟩ := h
  rw [List.append_assoc] at hr
  unfold expressionStmt
  refine (expression_yields h hr (by rw [ht]; rfl)).bind fun value' c₁ ⟨hbare, hr₁⟩ => ?_
  have hc₁ := hr₁.rest_eq hr
  rw [Cursor.expect_cons _ hc₁ ht]
  refine .ok ⟨by simp [Stmt.bare, hbare], ?_⟩
  simpa using hr₁.trans ((Reads.step hc₁).trans (.node _))

theorem Grammar.Optional.yields {e : Option Expr} {closer : TokenKind} (h : Optional ts e ds)
    (hr : c.rest = ts ++ t :: rest) (ht : t.kind = closer)
    (hcloses : closesExpression closer = true) :
    (optionalExpression c closer).Yields (Renumbers (Option.map Expr.bare) e c ts ds) := by
  unfold optionalExpression
  cases h with
  | none =>
    rw [if_pos (Cursor.check_cons hr ht)]
    exact .ok ⟨rfl, .refl c⟩
  | some h =>
    obtain ⟨t', us, hts, ht'⟩ := h.starts
    have hne : t'.kind ≠ closer := by
      rintro rfl
      generalize t'.kind = kind at ht' hcloses
      cases kind <;> first | cases ht'; done | cases hcloses
    rw [if_neg (Cursor.check_ne (hr.trans (by rw [hts]; rfl)) hne)]
    refine (expression_yields h hr (by rw [ht]; exact hcloses)).bind fun e' c₁ ⟨hbare, hr₁⟩ => ?_
    exact .ok ⟨by simp [hbare], hr₁⟩

theorem Grammar.ParameterList.yields : ∀ {count : Nat} {ts params : List Token}
    {ds : List Diagnostic}, ParameterList count ts params ds → ∀ (n : Nat) {c : Cursor}
    {paren : Token} {rest : List Token}, c.rest = ts ++ paren :: rest → paren.kind = .rightParen →
    (parameterList n count c).Yields (Renumbers id params c ts ds)
  | _, _, _, _, _, 0, _, _, _, _, _ => .exhausted
  | count, _, _, _, .last hname, n + 1, c, paren, rest, hr, hparen => by
    have hnote := Reads.excess hr count .tooManyParameters
    have hr' := hnote.rest.symm.trans hr
    unfold parameterList
    simp only [Cursor.expect_cons _ hr' hname, Reply.bind_ok]
    rw [Cursor.accept?_eq_none_iff.2]
    · exact .ok ⟨rfl, by simpa using hnote.trans (Reads.step hr')⟩
    · intro t' ht'
      cases ht'
      rw [hparen]
      decide
  | count, _, _, _, .more hname hcomma h, n + 1, c, paren, rest, hr, hparen => by
    have hnote := Reads.excess hr count .tooManyParameters
    have hr' := hnote.rest.symm.trans hr
    unfold parameterList
    simp only [Cursor.expect_cons _ hr' hname, Reply.bind_ok]
    rw [Cursor.accept?_cons rfl hcomma]
    refine (h.yields n rfl hparen).bind fun names' c₁ ⟨hnames, hr₁⟩ => .ok ⟨?_, ?_⟩
    · simpa using hnames
    · simpa using hnote.trans ((Reads.two hr').trans hr₁)

theorem Grammar.ParameterList.starts {count : Nat} {params : List Token}
    (h : ParameterList count ts params ds) : ∃ t us, ts = t :: us ∧ t.kind = .identifier := by
  cases h with
  | last hname => exact ⟨_, _, rfl, hname⟩
  | more hname => exact ⟨_, _, rfl, hname⟩

theorem Grammar.Parameters.yields {params : List Token} (h : Parameters ts params ds)
    (hr : c.rest = ts ++ t :: rest) (ht : t.kind = .rightParen) :
    (parameters c).Yields (Renumbers id params c ts ds) := by
  unfold parameters
  cases h with
  | none =>
    rw [if_pos (Cursor.check_cons hr ht)]
    exact .ok ⟨rfl, .refl c⟩
  | some h =>
    obtain ⟨name, us, hts, hname⟩ := h.starts
    rw [if_neg (Cursor.check_ne (hr.trans (by rw [hts]; rfl)) (by rw [hname]; decide))]
    exact h.yields _ hr ht

theorem Grammar.SuperclassClause.yields {superclass : Option Superclass}
    (h : SuperclassClause ts superclass) (hr : c.rest = ts ++ t :: rest)
    (ht : t.kind = .leftBrace) :
    (superclassClause c).Yields (Renumbers (Option.map Superclass.bare) superclass c ts []) := by
  unfold superclassClause
  cases h with
  | none =>
    rw [Cursor.accept?_ne .less hr (by rw [ht]; decide)]
    exact .ok ⟨rfl, .refl c⟩
  | some hless hname =>
    rw [Cursor.accept?_cons hr hless]
    show ((Cursor.expect _ _ _).bind _).Yields _
    rw [Cursor.expect_cons _ rfl hname]
    exact .ok ⟨rfl, (Reads.two hr).trans (.node _)⟩

theorem Grammar.ForStart.yields {start : Option Stmt} (h : ForStart ts start ds)
    (hr : c.rest = ts ++ rest) :
    (forStart c).Yields (Renumbers (Option.map Stmt.bare) start c ts ds) := by
  unfold forStart
  cases h with
  | none ht =>
    rw [Cursor.accept?_cons hr ht]
    exact .ok ⟨rfl, .step hr⟩
  | var hk h =>
    rw [Cursor.accept?_ne .semicolon hr (by rw [hk]; decide), Cursor.accept?_cons hr hk]
    refine (h.yields rfl).bind fun s' c₁ ⟨hbare, hr₁⟩ => .ok ⟨by simp [hbare], ?_⟩
    simpa using (Reads.step hr).trans hr₁
  | expression h =>
    obtain ⟨t, us, hts, ht⟩ := h.starts
    have hhead : c.rest = t :: (us ++ rest) := hr.trans (by rw [hts]; rfl)
    have hne : ∀ kind, startsExpression kind = false → c.accept? kind = Option.none := by
      intro kind hkind
      refine Cursor.accept?_ne kind hhead fun hk => ?_
      rw [hk, hkind] at ht
      cases ht
    rw [hne .semicolon rfl, hne .kwVar rfl]
    exact (h.yields hr).bind fun s' c₁ ⟨hbare, hr₁⟩ => .ok ⟨by simp [hbare], hr₁⟩

end Parts

/-- The loop form of a `for` depends on its parts up to their numbers. -/
theorem bare_whileForm {step inner always loop outer step' inner' always' loop' outer' : Nat}
    {start start' : Option Stmt} {cond cond' increment increment' : Option Expr}
    {body body' : Stmt} (hstart : start.map Stmt.bare = start'.map Stmt.bare)
    (hcond : cond.map Expr.bare = cond'.map Expr.bare)
    (hincrement : increment.map Expr.bare = increment'.map Expr.bare)
    (hbody : body.bare = body'.bare) :
    (whileForm step inner always loop outer start cond increment body).bare =
      (whileForm step' inner' always' loop' outer' start' cond' increment' body').bare := by
  cases start <;> cases start' <;> cases cond <;> cases cond' <;> cases increment <;>
    cases increment' <;> simp_all [whileForm, Stmt.bare, bareBody, Expr.bare]

theorem bare_ret {id id' : Nat} {keyword : Token} {value value' : Option Expr}
    (h : value.map Expr.bare = value'.map Expr.bare) :
    (Stmt.ret id keyword value).bare = (Stmt.ret id' keyword value').bare := by
  cases value <;> cases value' <;> simp_all [Stmt.bare]

/-! ## Statements -/

theorem declaration_yields {P : Stmt → Cursor → Prop} {c : Cursor}
    (h : ∀ n, (declarationRule n c).Yields P) (n : Nat) : (declaration n c).Yields P := by
  cases n with
  | zero => exact .exhausted
  | succ n =>
    unfold declaration
    obtain hex | ⟨s, c', heq, hp⟩ := h n
    · rw [hex]; exact .exhausted
    · rw [heq]; exact .ok hp

mutual

theorem Grammar.Statement.yields : ∀ {dangling : Bool} {ts : List Token} {s : Stmt}
    {ds : List Diagnostic}, Statement dangling ts s ds → ∀ (n : Nat) (c : Cursor)
    (rest : List Token), c.rest = ts ++ rest → (dangling = true → NoElse rest) →
    (statement n c).Yields (Renumbers Stmt.bare s c ts ds)
  | _, _, _, _, _, 0, _, _, _, _ => .exhausted
  | _, _, _, _, .expression h, n + 1, c, rest, hr, _ => by
    obtain ⟨t, us, hts, ht⟩ := h.starts
    have hhead : c.rest = t :: (us ++ rest) := hr.trans (by rw [hts]; rfl)
    have hexpr := h.yields hr
    unfold statement
    rw [hhead]
    simp only
    split <;> first | (rename_i hk; rw [hk] at ht; cases ht) | exact hexpr
  | _, _, _, _, .print hk h ht, n + 1, c, rest, hr, _ => by
    simp only [List.cons_append, List.append_assoc] at hr
    unfold statement
    rw [hr]
    simp only [hk]
    refine (expression_yields h rfl (by rw [ht]; rfl)).bind fun e' c₁ ⟨hbare, hr₁⟩ => ?_
    have hc₁ := hr₁.rest_eq rfl
    rw [Cursor.expect_cons _ hc₁ ht]
    refine .ok ⟨by simp [Stmt.bare, hbare], ?_⟩
    simpa using (Reads.step hr).trans (hr₁.trans ((Reads.step hc₁).trans (.node _)))
  | _, _, _, _, .ret hk h ht, n + 1, c, rest, hr, _ => by
    simp only [List.cons_append, List.append_assoc] at hr
    unfold statement
    rw [hr]
    simp only [hk]
    refine (h.yields rfl ht rfl).bind fun e' c₁ ⟨hbare, hr₁⟩ => ?_
    have hc₁ := hr₁.rest_eq rfl
    rw [Cursor.expect_cons _ hc₁ ht]
    refine .ok ⟨bare_ret hbare, ?_⟩
    simpa using (Reads.step hr).trans (hr₁.trans ((Reads.step hc₁).trans (.node _)))
  | _, _, _, _, .loop hk ht hcond hparen h, n + 1, c, rest, hr, helse => by
    simp only [List.cons_append, List.append_assoc] at hr
    unfold statement
    rw [hr]
    simp only [hk]
    cases n with
    | zero => exact .exhausted
    | succ n =>
      unfold whileRule
      rw [Cursor.expect_cons _ rfl ht]
      refine (expression_yields hcond rfl (by rw [hparen]; rfl)).bind fun e' c₁ ⟨hbare, hr₁⟩ => ?_
      have hc₁ := hr₁.rest_eq rfl
      rw [Cursor.expect_cons _ hc₁ hparen]
      refine (h.yields n _ rest rfl helse).bind fun body' c₂ ⟨hbody, hr₂⟩ => ?_
      refine .ok ⟨by simp [Stmt.bare, hbare, hbody], ?_⟩
      simpa using (Reads.two hr).trans (hr₁.trans ((Reads.step hc₁).trans (hr₂.trans (.node _))))
  | _, _, _, _, .ifThen hk ht hcond hparen h, n + 1, c, rest, hr, helse => by
    simp only [List.cons_append, List.append_assoc] at hr
    unfold statement
    rw [hr]
    simp only [hk]
    cases n with
    | zero => exact .exhausted
    | succ n =>
      unfold ifRule
      rw [Cursor.expect_cons _ rfl ht]
      refine (expression_yields hcond rfl (by rw [hparen]; rfl)).bind fun e' c₁ ⟨hbare, hr₁⟩ => ?_
      have hc₁ := hr₁.rest_eq rfl
      rw [Cursor.expect_cons _ hc₁ hparen]
      refine (h.yields n _ rest rfl fun _ => helse rfl).bind fun s' c₂ ⟨hs, hr₂⟩ => ?_
      rw [Cursor.accept?_eq_none_iff.2 (hr₂.rest_eq rfl ▸ helse rfl)]
      refine .ok ⟨by simp [Stmt.bare, hbare, hs], ?_⟩
      simpa using (Reads.two hr).trans (hr₁.trans ((Reads.step hc₁).trans (hr₂.trans (.node _))))
  | _, _, _, _, .ifElse hk ht hcond hparen h hop h', n + 1, c, rest, hr, helse => by
    simp only [List.cons_append, List.append_assoc] at hr
    unfold statement
    rw [hr]
    simp only [hk]
    cases n with
    | zero => exact .exhausted
    | succ n =>
      unfold ifRule
      rw [Cursor.expect_cons _ rfl ht]
      refine (expression_yields hcond rfl (by rw [hparen]; rfl)).bind fun e' c₁ ⟨hbare, hr₁⟩ => ?_
      have hc₁ := hr₁.rest_eq rfl
      rw [Cursor.expect_cons _ hc₁ hparen]
      refine (h.yields n _ _ rfl fun h => by cases h).bind fun s' c₂ ⟨hs, hr₂⟩ => ?_
      have hc₂ := hr₂.rest_eq rfl
      rw [Cursor.accept?_cons hc₂ hop]
      refine (h'.yields n _ rest rfl helse).bind fun s'' c₃ ⟨hs', hr₃⟩ => ?_
      refine .ok ⟨by simp [Stmt.bare, hbare, hs, hs'], ?_⟩
      simpa using (Reads.two hr).trans (hr₁.trans ((Reads.step hc₁).trans
        (hr₂.trans ((Reads.step hc₂).trans (hr₃.trans (.node _))))))
  | _, _, _, _, .forLoop hk ht hstart hcond hsemi hincrement hparen h, n + 1, c, rest, hr,
      helse => by
    simp only [List.cons_append, List.append_assoc] at hr
    unfold statement
    rw [hr]
    simp only [hk]
    cases n with
    | zero => exact .exhausted
    | succ n =>
      unfold forRule
      rw [Cursor.expect_cons _ rfl ht]
      refine (hstart.yields rfl).bind fun start' c₁ ⟨hstart', hr₁⟩ => ?_
      have hc₁ := hr₁.rest_eq rfl
      refine (hcond.yields hc₁ hsemi rfl).bind fun cond' c₂ ⟨hcond', hr₂⟩ => ?_
      have hc₂ := hr₂.rest_eq hc₁
      rw [Cursor.expect_cons _ hc₂ hsemi]
      refine (hincrement.yields rfl hparen rfl).bind fun increment' c₃ ⟨hincrement', hr₃⟩ => ?_
      have hc₃ := hr₃.rest_eq rfl
      rw [Cursor.expect_cons _ hc₃ hparen]
      refine (h.yields n _ rest rfl helse).bind fun body' c₄ ⟨hbody, hr₄⟩ => ?_
      refine (forLoop_yields start' cond' increment' body' c₄).mono ?_
      rintro s' c₅ ⟨hr₅, step, inner, always, loop, outer, rfl⟩
      refine ⟨bare_whileForm hstart' hcond' hincrement' hbody, ?_⟩
      simpa using (Reads.two hr).trans (hr₁.trans (hr₂.trans ((Reads.step hc₂).trans
        (hr₃.trans ((Reads.step hc₃).trans (hr₄.trans hr₅))))))
  | _, _, _, _, .block ht h, n + 1, c, rest, hr, _ => by
    rw [List.cons_append] at hr
    unfold statement
    rw [hr]
    simp only [ht]
    refine (h.yields n _ rest rfl).bind fun body' c₁ ⟨hbare, hr₁⟩ => ?_
    exact .ok ⟨by simp [Stmt.bare, hbare], by simpa using (Reads.step hr).trans (hr₁.trans (.node _))⟩

theorem Grammar.Declaration.yields : ∀ {ts : List Token} {s : Stmt} {ds : List Diagnostic},
    Declaration ts s ds → ∀ (n : Nat) (c : Cursor) (rest : List Token),
    c.rest = ts ++ rest → NoElse rest →
    (declarationRule n c).Yields (Renumbers Stmt.bare s c ts ds)
  | _, _, _, _, 0, _, _, _, _ => .exhausted
  | _, _, _, .classDecl hk hname hclause ht hmethods hparen, n + 1, c, rest, hr, _ => by
    simp only [List.cons_append, List.append_assoc] at hr
    unfold declarationRule
    rw [Cursor.accept?_cons hr hk]
    cases n with
    | zero => exact .exhausted
    | succ n =>
      show (classRule (n + 1) _).Yields _
      unfold classRule
      rw [Cursor.expect_cons _ rfl hname]
      refine (hclause.yields rfl ht).bind fun superclass' c₁ ⟨hsuper, hr₁⟩ => ?_
      have hc₁ := hr₁.rest_eq rfl
      rw [Cursor.expect_cons _ hc₁ ht]
      refine (hmethods.yields n _ _ _ rfl hparen).bind fun methods' c₂ ⟨hbare, hr₂⟩ => ?_
      have hc₂ := hr₂.rest_eq rfl
      rw [Cursor.expect_cons _ hc₂ hparen]
      refine .ok ⟨by simp [Stmt.bare, hbare, hsuper], ?_⟩
      simpa using (Reads.two hr).trans (hr₁.trans ((Reads.step hc₁).trans
        (hr₂.trans ((Reads.step hc₂).trans (.node _)))))
  | _, _, _, .function hk h, n + 1, c, rest, hr, _ => by
    rw [List.cons_append] at hr
    unfold declarationRule
    rw [Cursor.accept?_ne .kwClass hr (by rw [hk]; decide), Cursor.accept?_cons hr hk]
    refine (h.yields n .function _ rest rfl).bind fun f' c₁ ⟨hbare, hr₁⟩ => ?_
    exact .ok ⟨by simp [Stmt.bare, hbare], by simpa using (Reads.step hr).trans hr₁⟩
  | _, _, _, .var hk h, n + 1, c, rest, hr, _ => by
    rw [List.cons_append] at hr
    unfold declarationRule
    rw [Cursor.accept?_ne .kwClass hr (by rw [hk]; decide),
      Cursor.accept?_ne .kwFun hr (by rw [hk]; decide), Cursor.accept?_cons hr hk]
    refine (h.yields rfl).mono fun s' c₁ ⟨hbare, hr₁⟩ => ⟨hbare, ?_⟩
    simpa using (Reads.step hr).trans hr₁
  | _, _, _, .statement h, n + 1, c, rest, hr, helse => by
    obtain ⟨t, us, hts, ht⟩ := h.starts
    have hhead : c.rest = t :: (us ++ rest) := hr.trans (by rw [hts]; rfl)
    have hne : ∀ kind, opensStatement kind = false → c.accept? kind = none := by
      intro kind hkind
      refine Cursor.accept?_ne kind hhead fun hk => ?_
      rw [hk, hkind] at ht
      cases ht
    unfold declarationRule
    rw [hne .kwClass rfl, hne .kwFun rfl, hne .kwVar rfl]
    exact h.yields n c rest hr fun _ => helse

theorem Grammar.Declarations.yields : ∀ {ts : List Token} {ss : List Stmt}
    {ds : List Diagnostic}, Declarations ts ss ds → ∀ (n : Nat) (c : Cursor) (t : Token)
    (rest : List Token), c.rest = ts ++ t :: rest → t.kind = .rightBrace →
    (blockItems n c).Yields (Renumbers bareBody ss c ts ds)
  | _, _, _, _, 0, _, _, _, _, _ => .exhausted
  | _, _, _, .none, n + 1, c, t, rest, hr, ht => by
    unfold blockItems
    rw [if_pos (by rw [Cursor.check_cons hr ht]; rfl)]
    exact .ok ⟨rfl, .refl c⟩
  | _, _, _, .more h hs, n + 1, c, t, rest, hr, ht => by
    rw [List.append_assoc] at hr
    obtain ⟨first, us, hts, hfirst⟩ := h.starts
    have hhead : c.rest = first :: (us ++ (_ ++ t :: rest)) := hr.trans (by rw [hts]; rfl)
    have helse := hs.noElse (NoElse.cons (by rw [ht]; decide) : NoElse (t :: rest))
    unfold blockItems
    rw [if_neg (Cursor.not_closed hhead fun hk => by rw [hk] at hfirst; cases hfirst)]
    refine (declaration_yields (h.yields · c _ hr helse) n).bind fun s' c₁ ⟨hbare, hr₁⟩ => ?_
    refine (hs.yields n c₁ t rest (hr₁.rest_eq hr) ht).bind fun ss' c₂ ⟨hbare', hr₂⟩ => ?_
    exact .ok ⟨by simp [bareBody, hbare, hbare'], hr₁.trans hr₂⟩

theorem Grammar.Block.yields : ∀ {ts : List Token} {body : List Stmt} {ds : List Diagnostic},
    Block ts body ds → ∀ (n : Nat) (c : Cursor) (rest : List Token), c.rest = ts ++ rest →
    (blockRule n c).Yields (Renumbers bareBody body c ts ds)
  | _, _, _, _, 0, _, _, _ => .exhausted
  | _, _, _, .closed h ht, n + 1, c, rest, hr => by
    rw [List.append_assoc] at hr
    unfold blockRule
    refine (h.yields n c _ _ hr ht).bind fun body' c₁ ⟨hbare, hr₁⟩ => ?_
    have hc₁ := hr₁.rest_eq hr
    rw [Cursor.expect_cons _ hc₁ ht]
    exact .ok ⟨hbare, by simpa using hr₁.trans (Reads.step hc₁)⟩

theorem Grammar.Routine.yields : ∀ {ts : List Token} {f : Function} {ds : List Diagnostic},
    Routine ts f ds → ∀ (n : Nat) (what : Callable) (c : Cursor) (rest : List Token),
    c.rest = ts ++ rest → (functionRule n what c).Yields (Renumbers bareFunction f c ts ds)
  | _, _, _, _, 0, _, _, _, _ => .exhausted
  | _, _, _, .mk hname ht hparams hparen hbrace hbody, n + 1, what, c, rest, hr => by
    simp only [List.cons_append, List.append_assoc] at hr
    unfold functionRule
    rw [Cursor.expect_cons _ hr hname, Reply.bind_ok, Cursor.expect_cons _ rfl ht]
    refine (hparams.yields rfl hparen).bind fun params' c₁ ⟨hparams', hr₁⟩ => ?_
    have hc₁ := hr₁.rest_eq rfl
    rw [Cursor.expect_cons _ hc₁ hparen, Reply.bind_ok, Cursor.expect_cons _ rfl hbrace]
    refine (hbody.yields n _ rest rfl).bind fun body' c₂ ⟨hbare, hr₂⟩ => ?_
    refine .ok ⟨by simp_all [bareFunction], ?_⟩
    simpa using (Reads.two hr).trans (hr₁.trans ((Reads.two hc₁).trans (hr₂.trans (.node _))))

theorem Grammar.Routines.yields : ∀ {ts : List Token} {fs : List Function}
    {ds : List Diagnostic}, Routines ts fs ds → ∀ (n : Nat) (c : Cursor) (t : Token)
    (rest : List Token), c.rest = ts ++ t :: rest → t.kind = .rightBrace →
    (methodList n c).Yields (Renumbers bareMethods fs c ts ds)
  | _, _, _, _, 0, _, _, _, _, _ => .exhausted
  | _, _, _, .none, n + 1, c, t, rest, hr, ht => by
    unfold methodList
    rw [if_pos (by rw [Cursor.check_cons hr ht]; rfl)]
    exact .ok ⟨rfl, .refl c⟩
  | _, _, _, .more h hs, n + 1, c, t, rest, hr, ht => by
    rw [List.append_assoc] at hr
    obtain ⟨name, us, hts, hname⟩ := h.starts
    have hhead : c.rest = name :: (us ++ (_ ++ t :: rest)) := hr.trans (by rw [hts]; rfl)
    unfold methodList
    rw [if_neg (Cursor.not_closed hhead (by rw [hname]; decide))]
    refine (h.yields n .method c _ hr).bind fun f' c₁ ⟨hbare, hr₁⟩ => ?_
    refine (hs.yields n c₁ t rest (hr₁.rest_eq hr) ht).bind fun fs' c₂ ⟨hbare', hr₂⟩ => ?_
    exact .ok ⟨by simp [bareMethods, hbare, hbare'], hr₁.trans hr₂⟩

end

/-- **A program of the grammar is read as its tree.** -/
theorem programItems_yields {ts : List Token} {ss : List Stmt} {ds : List Diagnostic}
    (h : Declarations ts ss ds) (n : Nat) (c : Cursor) (hr : c.rest = ts) :
    (programItems n c).Yields (Renumbers bareBody ss c ts ds) := by
  induction n generalizing ts ss ds c with
  | zero => exact .exhausted
  | succ n ih =>
    cases h with
    | none =>
      unfold programItems
      rw [if_pos (by rw [Cursor.atEnd, hr]; rfl)]
      exact .ok ⟨rfl, .refl c⟩
    | more h hs =>
      obtain ⟨first, us, hts, _⟩ := h.starts
      have helse := hs.noElse (show NoElse [] from fun t ht => by cases ht)
      rw [List.append_nil] at helse
      unfold programItems
      rw [if_neg (by rw [Cursor.atEnd, hr, hts]; simp)]
      refine (declaration_yields (h.yields · c _ hr helse) _).bind fun s' c₁ hfirst => ?_
      obtain ⟨hbare, hr₁⟩ := hfirst
      refine (ih hs c₁ (hr₁.rest_eq hr)).bind fun ss' c₂ hrest => ?_
      obtain ⟨hbare', hr₂⟩ := hrest
      exact .ok ⟨by simp [bareBody, hbare, hbare'], hr₁.trans hr₂⟩

end LoxLang
