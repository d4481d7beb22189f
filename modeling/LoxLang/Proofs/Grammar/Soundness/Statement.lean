import LoxLang.Proofs.Grammar.Soundness.Expression

/-!
# Reading statements follows the grammar

Statements are covered by their rules as long as no problem says that something was expected, for
such a problem stands for a statement that was given up.

Principal result: `programItems_covers`.
-/

namespace LoxLang

open Grammar

/-! ## Parts of statements -/

theorem variableDecl_covers (c : Cursor) : (variableDecl c).Ensures (Covers Variable c) := by
  unfold variableDecl
  refine (c.expect_ensures _ _).bind fun name c₁ h => ?_
  obtain ⟨hname, hr₁⟩ := h
  split
  · refine (c₁.expect_ensures _ _).bind fun t c₂ h => ?_
    obtain ⟨ht, hr₂⟩ := h
    exact ⟨_, _, hr₁.trans (hr₂.trans (.node c₂)), .plain hname ht⟩
  · rename_i equals c₂ heq
    obtain ⟨hequals, hr₂⟩ := Cursor.accept?_eq_some heq
    refine (expression_covers c₂).bind fun value c₃ h => ?_
    obtain ⟨ts, ds, hr₃, hvalue⟩ := h
    refine (c₃.expect_ensures _ _).bind fun t c₄ h => ?_
    obtain ⟨ht, hr₄⟩ := h
    have hr := hr₁.trans (hr₂.trans (hr₃.trans (hr₄.trans (.node c₄))))
    exact ⟨_, _, hr, by simpa using .initialized hname hequals hvalue ht⟩

theorem expressionStmt_covers (c : Cursor) :
    (expressionStmt c).Ensures (Covers ExpressionStmt c) := by
  unfold expressionStmt
  refine (expression_covers c).bind fun value c₁ h => ?_
  obtain ⟨ts, ds, hr₁, hvalue⟩ := h
  refine (c₁.expect_ensures _ _).bind fun t c₂ h => ?_
  obtain ⟨ht, hr₂⟩ := h
  exact ⟨_, _, hr₁.trans (hr₂.trans (.node c₂)), by simpa using .mk hvalue ht⟩

theorem optionalExpression_covers (c : Cursor) (closer : TokenKind) :
    (optionalExpression c closer).Ensures (Covers Optional c) := by
  unfold optionalExpression
  split
  · exact ⟨[], [], .refl c, .none⟩
  · refine (expression_covers c).bind fun value c₁ h => ?_
    obtain ⟨ts, ds, hr, hvalue⟩ := h
    exact ⟨ts, ds, hr, .some hvalue⟩

theorem parameterList_covers : ∀ n count c,
    (parameterList n count c).Ensures (Covers (ParameterList count) c)
  | 0, _, _ => trivial
  | n + 1, count, c => by
    unfold parameterList
    have hnote := Reads.noteIf c (maxArguments ≤ count) .tooManyParameters
    refine (Cursor.expect_ensures _ _ _).bind fun name c₁ h => ?_
    obtain ⟨hname, hr₁⟩ := h
    have hr := hnote.trans hr₁
    have hpeek : c.peek = name := by
      have hrest := hr.rest
      simp only [List.nil_append, List.cons_append] at hrest
      simp [Cursor.peek, hrest]
    rw [hpeek] at hr
    split
    · exact ⟨_, _, hr, by simpa using .last hname⟩
    · rename_i comma c₂ heq
      obtain ⟨hcomma, hr₂⟩ := Cursor.accept?_eq_some heq
      refine (parameterList_covers n (count + 1) c₂).bind fun names c₃ h => ?_
      obtain ⟨ts, ds, hr₃, h⟩ := h
      refine ⟨_, _, hr.trans (hr₂.trans hr₃), ?_⟩
      simpa [excess] using ParameterList.more hname hcomma h

theorem parameters_covers (c : Cursor) : (parameters c).Ensures (Covers Parameters c) := by
  unfold parameters
  split
  · exact ⟨[], [], .refl c, .none⟩
  · exact (parameterList_covers _ 0 c).mono fun _ _ h => h.mono fun _ _ => .some

theorem superclassClause_covers (c : Cursor) : (superclassClause c).Ensures
    (Covers (fun ts superclass ds => SuperclassClause ts superclass ∧ ds = []) c) := by
  unfold superclassClause
  split
  · exact ⟨[], [], .refl c, .none, rfl⟩
  · rename_i t c₁ heq
    obtain ⟨ht, hr₁⟩ := Cursor.accept?_eq_some heq
    refine (c₁.expect_ensures _ _).bind fun name c₂ h => ?_
    obtain ⟨hname, hr₂⟩ := h
    exact ⟨_, _, hr₁.trans (hr₂.trans (.node c₂)), .some ht hname, rfl⟩

theorem forStart_covers (c : Cursor) : (forStart c).Ensures (Covers ForStart c) := by
  unfold forStart
  split
  · rename_i t c₁ heq
    obtain ⟨ht, hr⟩ := Cursor.accept?_eq_some heq
    exact ⟨_, _, hr, .none ht⟩
  · split
    · rename_i keyword c₁ heq
      obtain ⟨hkeyword, hr₁⟩ := Cursor.accept?_eq_some heq
      refine (variableDecl_covers c₁).bind fun s c₂ h => ?_
      obtain ⟨ts, ds, hr₂, hs⟩ := h
      exact ⟨_, _, hr₁.trans hr₂, .var hkeyword hs⟩
    · refine (expressionStmt_covers c).bind fun s c₁ h => ?_
      obtain ⟨ts, ds, hr, hs⟩ := h
      exact ⟨_, _, hr, .expression hs⟩

/-- The tree of a `for` is its loop form, and building it reads nothing. -/
theorem forLoop_yields (start : Option Stmt) (cond increment : Option Expr) (body : Stmt)
    (c : Cursor) : (forLoop start cond increment body c).Yields fun s c' =>
      Reads c c' [] [] ∧ ∃ step inner always loop outer,
        s = whileForm step inner always loop outer start cond increment body := by
  let always := c.nextId + (if increment.isSome then 2 else 0)
  let loop := always + (if cond.isNone then 1 else 0)
  cases increment <;> cases cond <;> cases start <;>
    exact .ok ⟨⟨rfl, by simp⟩, c.nextId, c.nextId + 1, always, loop, loop + 1, rfl⟩

/-! ## Statements -/

/-- A statement was read.  If it could still take an `else`, none follows. -/
def CoversStatement (c : Cursor) (s : Stmt) (c' : Cursor) : Prop :=
  ∃ dangling ts ds, Reads c c' ts ds ∧ Statement dangling ts s ds ∧
    (dangling = true → ∀ t ∈ c'.rest.head?, t.kind ≠ .kwElse)

/-- The rules of statements follow the grammar, as far as an allowance reaches. -/
structure StatementCovers (n : Nat) : Prop where
  declaration : ∀ c, (LoxLang.declaration n c).Ensures fun s c' =>
    Unless c c' (Covers Declaration c s c')
  declarationRule : ∀ c, (LoxLang.declarationRule n c).Ensures fun s c' =>
    Unless c c' (Covers Declaration c s c')
  classRule : ∀ c keyword c₀, keyword.kind = .kwClass → Reads c₀ c [keyword] [] →
    (LoxLang.classRule n c).Ensures fun s c' => Unless c₀ c' (Covers Declaration c₀ s c')
  methodList : ∀ c, (LoxLang.methodList n c).Ensures fun fs c' =>
    Unless c c' (Covers Routines c fs c')
  functionRule : ∀ what c, (LoxLang.functionRule n what c).Ensures fun f c' =>
    Unless c c' (Covers Routine c f c')
  blockRule : ∀ c, (LoxLang.blockRule n c).Ensures fun body c' =>
    Unless c c' (Covers Block c body c')
  blockItems : ∀ c, (LoxLang.blockItems n c).Ensures fun body c' =>
    Unless c c' (Covers Declarations c body c')
  statement : ∀ c, (LoxLang.statement n c).Ensures fun s c' =>
    Unless c c' (CoversStatement c s c')
  forRule : ∀ c keyword c₀, keyword.kind = .kwFor → Reads c₀ c [keyword] [] →
    (LoxLang.forRule n c).Ensures fun s c' => Unless c₀ c' (CoversStatement c₀ s c')
  ifRule : ∀ c keyword c₀, keyword.kind = .kwIf → Reads c₀ c [keyword] [] →
    (LoxLang.ifRule n c).Ensures fun s c' => Unless c₀ c' (CoversStatement c₀ s c')
  whileRule : ∀ c keyword c₀, keyword.kind = .kwWhile → Reads c₀ c [keyword] [] →
    (LoxLang.whileRule n c).Ensures fun s c' => Unless c₀ c' (CoversStatement c₀ s c')

namespace StatementCovers

variable {n : Nat} (ih : StatementCovers n)

include ih

theorem declaration_succ (c : Cursor) : (LoxLang.declaration (n + 1) c).Ensures fun s c' =>
    Unless c c' (Covers Declaration c s c') := by
  have hrule := ih.declarationRule c
  unfold LoxLang.declaration
  split
  · rename_i s c' heq
    rw [heq] at hrule
    exact hrule
  · rename_i c' heq
    rw [heq] at hrule
    refine .of_broken ?_
    unfold Cursor.synchronize
    split <;> exact hrule
  · trivial

theorem declarationRule_succ (c : Cursor) :
    (LoxLang.declarationRule (n + 1) c).Ensures fun s c' =>
      Unless c c' (Covers Declaration c s c') := by
  unfold LoxLang.declarationRule
  split
  · rename_i keyword c₁ heq
    obtain ⟨hkeyword, hr₁⟩ := Cursor.accept?_eq_some heq
    exact ih.classRule c₁ keyword c hkeyword hr₁
  · split
    · rename_i keyword c₁ heq
      obtain ⟨hkeyword, hr₁⟩ := Cursor.accept?_eq_some heq
      refine (ih.functionRule .function c₁).bind fun f c₂ hf => ?_
      refine Unless.trans (.of_reads hr₁ trivial) hf fun _ h => ?_
      obtain ⟨ts, ds, hr₂, hf⟩ := h
      exact ⟨_, _, hr₁.trans hr₂, .function hkeyword hf⟩
    · split
      · rename_i keyword c₁ heq
        obtain ⟨hkeyword, hr₁⟩ := Cursor.accept?_eq_some heq
        refine (variableDecl_covers c₁).mono fun s c₂ h => ?_
        obtain ⟨ts, ds, hr₂, hs⟩ := h
        exact .of_reads (hr₁.trans hr₂) ⟨_, _, hr₁.trans hr₂, .var hkeyword hs⟩
      · refine (ih.statement c).mono fun s c₁ hs => hs.mono ?_
        rintro ⟨dangling, ts, ds, hr, hs, _⟩
        exact ⟨ts, ds, hr, .statement hs⟩

theorem classRule_succ (c : Cursor) (keyword : Token) (c₀ : Cursor)
    (hkeyword : keyword.kind = .kwClass) (hr₀ : Reads c₀ c [keyword] []) :
    (LoxLang.classRule (n + 1) c).Ensures fun s c' =>
      Unless c₀ c' (Covers Declaration c₀ s c') := by
  unfold LoxLang.classRule
  refine (c.expect_ensures _ _).bind fun name c₁ h => ?_
  obtain ⟨hname, hr₁⟩ := h
  refine (superclassClause_covers c₁).bind fun superclass c₂ h => ?_
  obtain ⟨ts, ds, hr₂, hclause, hds⟩ := h
  refine (c₂.expect_ensures _ _).bind fun t c₃ h => ?_
  obtain ⟨ht, hr₃⟩ := h
  refine (ih.methodList c₃).bind fun methods c₄ hmethods => ?_
  refine (c₄.expect_ensures _ _).bind fun paren c₅ h => ?_
  obtain ⟨hparen, hr₅⟩ := h
  have hr := hr₀.trans (hr₁.trans (hr₂.trans hr₃))
  have hr' := hr₅.trans (.node c₅)
  refine Unless.trans ((Unless.of_reads hr trivial).trans hmethods fun _ h => h)
    (.of_reads hr' trivial) fun h _ => ?_
  obtain ⟨us, es, hr₄, hm⟩ := h
  refine ⟨_, _, hr.trans (hr₄.trans hr'), ?_⟩
  simpa [hds] using Declaration.classDecl hkeyword hname hclause ht hm hparen

theorem methodList_succ (c : Cursor) : (LoxLang.methodList (n + 1) c).Ensures fun fs c' =>
    Unless c c' (Covers Routines c fs c') := by
  unfold LoxLang.methodList
  split
  · exact .of_reads (.refl c) ⟨[], [], .refl c, .none⟩
  · refine (ih.functionRule .method c).bind fun f c₁ hf => ?_
    refine (ih.methodList c₁).bind fun fs c₂ hfs => ?_
    refine hf.trans hfs fun h₁ h₂ => ?_
    obtain ⟨ts, ds, hr₁, hf⟩ := h₁
    obtain ⟨us, es, hr₂, hfs⟩ := h₂
    exact ⟨_, _, hr₁.trans hr₂, .more hf hfs⟩

theorem functionRule_succ (what : Callable) (c : Cursor) :
    (LoxLang.functionRule (n + 1) what c).Ensures fun f c' =>
      Unless c c' (Covers Routine c f c') := by
  unfold LoxLang.functionRule
  refine (c.expect_ensures _ _).bind fun name c₁ h => ?_
  obtain ⟨hname, hr₁⟩ := h
  refine (c₁.expect_ensures _ _).bind fun t c₂ h => ?_
  obtain ⟨ht, hr₂⟩ := h
  refine (parameters_covers c₂).bind fun params c₃ h => ?_
  obtain ⟨ts, ds, hr₃, hparams⟩ := h
  refine (c₃.expect_ensures _ _).bind fun paren c₄ h => ?_
  obtain ⟨hparen, hr₄⟩ := h
  refine (c₄.expect_ensures _ _).bind fun brace c₅ h => ?_
  obtain ⟨hbrace, hr₅⟩ := h
  refine (ih.blockRule c₅).bind fun body c₆ hbody => ?_
  have hr := hr₁.trans (hr₂.trans (hr₃.trans (hr₄.trans hr₅)))
  refine Unless.trans ((Unless.of_reads hr trivial).trans hbody fun _ h => h)
    (.of_reads (.node c₆) trivial) fun h _ => ?_
  obtain ⟨us, es, hr₆, hb⟩ := h
  refine ⟨_, _, hr.trans (hr₆.trans (.node c₆)), ?_⟩
  simpa using Routine.mk hname ht hparams hparen hbrace hb

theorem blockRule_succ (c : Cursor) : (LoxLang.blockRule (n + 1) c).Ensures fun body c' =>
    Unless c c' (Covers Block c body c') := by
  unfold LoxLang.blockRule
  refine (ih.blockItems c).bind fun body c₁ hbody => ?_
  refine (c₁.expect_ensures _ _).bind fun t c₂ h => ?_
  obtain ⟨ht, hr₂⟩ := h
  refine Unless.trans hbody (.of_reads hr₂ trivial) fun h _ => ?_
  obtain ⟨ts, ds, hr₁, hb⟩ := h
  refine ⟨_, _, hr₁.trans hr₂, ?_⟩
  simpa using Block.closed hb ht

theorem blockItems_succ (c : Cursor) : (LoxLang.blockItems (n + 1) c).Ensures fun body c' =>
    Unless c c' (Covers Declarations c body c') := by
  unfold LoxLang.blockItems
  split
  · exact .of_reads (.refl c) ⟨[], [], .refl c, .none⟩
  · refine (ih.declaration c).bind fun s c₁ hs => ?_
    refine (ih.blockItems c₁).bind fun ss c₂ hss => ?_
    refine hs.trans hss fun h₁ h₂ => ?_
    obtain ⟨ts, ds, hr₁, hs⟩ := h₁
    obtain ⟨us, es, hr₂, hss⟩ := h₂
    exact ⟨_, _, hr₁.trans hr₂, .more hs hss⟩

theorem statement_succ (c : Cursor) : (LoxLang.statement (n + 1) c).Ensures fun s c' =>
    Unless c c' (CoversStatement c s c') := by
  have hexpr : (expressionStmt c).Ensures fun s c' => Unless c c' (CoversStatement c s c') := by
    refine (expressionStmt_covers c).mono fun s c₁ h => ?_
    obtain ⟨ts, ds, hr, hs⟩ := h
    exact .of_reads hr ⟨false, ts, ds, hr, .expression hs, fun h => by cases h⟩
  unfold LoxLang.statement
  split
  · exact hexpr
  · rename_i t rest hrest
    have hr₁ := Reads.step hrest
    simp only
    split
    · rename_i hk; exact ih.forRule _ t c hk hr₁
    · rename_i hk; exact ih.ifRule _ t c hk hr₁
    · rename_i hk
      refine (expression_covers _).bind fun value c₂ h => ?_
      obtain ⟨ts, ds, hr₂, hvalue⟩ := h
      refine (c₂.expect_ensures _ _).bind fun semi c₃ h => ?_
      obtain ⟨hsemi, hr₃⟩ := h
      have hr := hr₁.trans (hr₂.trans (hr₃.trans (.node c₃)))
      refine .of_reads hr ⟨false, _, _, hr, ?_, fun h => by cases h⟩
      simpa using Statement.print hk hvalue hsemi
    · rename_i hk
      refine (optionalExpression_covers _ _).bind fun value c₂ h => ?_
      obtain ⟨ts, ds, hr₂, hvalue⟩ := h
      refine (c₂.expect_ensures _ _).bind fun semi c₃ h => ?_
      obtain ⟨hsemi, hr₃⟩ := h
      have hr := hr₁.trans (hr₂.trans (hr₃.trans (.node c₃)))
      refine .of_reads hr ⟨false, _, _, hr, ?_, fun h => by cases h⟩
      simpa using Statement.ret hk hvalue hsemi
    · rename_i hk; exact ih.whileRule _ t c hk hr₁
    · rename_i hk
      refine (ih.blockRule _).bind fun body c₂ hbody => ?_
      refine Unless.trans ((Unless.of_reads hr₁ trivial).trans hbody fun _ h => h)
        (.of_reads (.node c₂) trivial) fun h _ => ?_
      obtain ⟨ts, ds, hr₂, hb⟩ := h
      refine ⟨false, _, _, hr₁.trans (hr₂.trans (.node c₂)), ?_, fun h => by cases h⟩
      simpa using Statement.block hk hb
    · exact hexpr

theorem forRule_succ (c : Cursor) (keyword : Token) (c₀ : Cursor)
    (hkeyword : keyword.kind = .kwFor) (hr₀ : Reads c₀ c [keyword] []) :
    (LoxLang.forRule (n + 1) c).Ensures fun s c' => Unless c₀ c' (CoversStatement c₀ s c') := by
  unfold LoxLang.forRule
  refine (c.expect_ensures _ _).bind fun t c₁ h => ?_
  obtain ⟨ht, hr₁⟩ := h
  refine (forStart_covers c₁).bind fun start c₂ h => ?_
  obtain ⟨ts, ds, hr₂, hstart⟩ := h
  refine (optionalExpression_covers c₂ _).bind fun cond c₃ h => ?_
  obtain ⟨us, es, hr₃, hcond⟩ := h
  refine (c₃.expect_ensures _ _).bind fun semi c₄ h => ?_
  obtain ⟨hsemi, hr₄⟩ := h
  refine (optionalExpression_covers c₄ _).bind fun increment c₅ h => ?_
  obtain ⟨vs, fs, hr₅, hincrement⟩ := h
  refine (c₅.expect_ensures _ _).bind fun paren c₆ h => ?_
  obtain ⟨hparen, hr₆⟩ := h
  refine (ih.statement c₆).bind fun body c₇ hbody => ?_
  refine (forLoop_yields start cond increment body c₇).ensures.mono ?_
  rintro s c₈ ⟨hr₈, step, inner, always, loop, outer, rfl⟩
  have hr := hr₀.trans (hr₁.trans (hr₂.trans (hr₃.trans (hr₄.trans (hr₅.trans hr₆)))))
  refine Unless.trans ((Unless.of_reads hr trivial).trans hbody fun _ h => h)
    (.of_reads hr₈ trivial) fun h _ => ?_
  obtain ⟨dangling, ws, gs, hr₇, hs, helse⟩ := h
  refine ⟨dangling, _, _, hr.trans (hr₇.trans hr₈), ?_, fun hd => ?_⟩
  · simpa using Statement.forLoop hkeyword ht hstart hcond hsemi hincrement hparen hs
  · have hrest := hr₈.rest
    simp only [List.nil_append] at hrest
    exact hrest ▸ helse hd

theorem ifRule_succ (c : Cursor) (keyword : Token) (c₀ : Cursor)
    (hkeyword : keyword.kind = .kwIf) (hr₀ : Reads c₀ c [keyword] []) :
    (LoxLang.ifRule (n + 1) c).Ensures fun s c' => Unless c₀ c' (CoversStatement c₀ s c') := by
  unfold LoxLang.ifRule
  refine (c.expect_ensures _ _).bind fun t c₁ h => ?_
  obtain ⟨ht, hr₁⟩ := h
  refine (expression_covers c₁).bind fun cond c₂ h => ?_
  obtain ⟨ts, ds, hr₂, hcond⟩ := h
  refine (c₂.expect_ensures _ _).bind fun paren c₃ h => ?_
  obtain ⟨hparen, hr₃⟩ := h
  refine (ih.statement c₃).bind fun thenBranch c₄ hthen => ?_
  have hr := hr₀.trans (hr₁.trans (hr₂.trans hr₃))
  have hthen := (Unless.of_reads hr trivial).trans hthen fun _ h => h
  split
  · rename_i hnone
    have hnoElse := Cursor.accept?_eq_none_iff.1 hnone
    refine Unless.trans hthen (.of_reads (.node c₄) trivial)
      fun h _ => ?_
    obtain ⟨dangling, us, es, hr₄, hs, _⟩ := h
    refine ⟨true, _, _, hr.trans (hr₄.trans (.node c₄)), ?_, fun _ => hnoElse⟩
    simpa using Statement.ifThen hkeyword ht hcond hparen hs
  · rename_i op c₅ heq
    obtain ⟨hop, hr₅⟩ := Cursor.accept?_eq_some heq
    refine (ih.statement c₅).bind fun elseBranch c₆ helse => ?_
    have hthen := hthen.trans (.of_reads hr₅ trivial) fun h (_ : True) => h
    refine Unless.trans (hthen.trans helse fun h h' => And.intro h h')
      (.of_reads (.node c₆) trivial) ?_
    rintro ⟨⟨dangling, us, es, hr₄, hs, hd⟩, dangling', vs, fs, hr₆, hs', hd'⟩ _
    -- The `else` that follows shows that the first branch takes none.
    have hfalse : dangling = false := by
      cases dangling with
      | false => rfl
      | true => rw [Cursor.accept?_eq_none_iff.2 (hd rfl)] at heq; cases heq
    subst hfalse
    refine ⟨dangling', _, _, hr.trans (hr₄.trans (hr₅.trans (hr₆.trans (.node c₆)))), ?_,
      fun h => ?_⟩
    · simpa using Statement.ifElse hkeyword ht hcond hparen hs hop hs'
    · exact hd' h

theorem whileRule_succ (c : Cursor) (keyword : Token) (c₀ : Cursor)
    (hkeyword : keyword.kind = .kwWhile) (hr₀ : Reads c₀ c [keyword] []) :
    (LoxLang.whileRule (n + 1) c).Ensures fun s c' => Unless c₀ c' (CoversStatement c₀ s c') := by
  unfold LoxLang.whileRule
  refine (c.expect_ensures _ _).bind fun t c₁ h => ?_
  obtain ⟨ht, hr₁⟩ := h
  refine (expression_covers c₁).bind fun cond c₂ h => ?_
  obtain ⟨ts, ds, hr₂, hcond⟩ := h
  refine (c₂.expect_ensures _ _).bind fun paren c₃ h => ?_
  obtain ⟨hparen, hr₃⟩ := h
  refine (ih.statement c₃).bind fun body c₄ hbody => ?_
  have hr := hr₀.trans (hr₁.trans (hr₂.trans hr₃))
  refine Unless.trans ((Unless.of_reads hr trivial).trans hbody fun _ h => h)
    (.of_reads (.node c₄) trivial) fun h _ => ?_
  obtain ⟨dangling, us, es, hr₄, hs, helse⟩ := h
  refine ⟨dangling, _, _, hr.trans (hr₄.trans (.node c₄)), ?_, fun hd => ?_⟩
  · simpa using Statement.loop hkeyword ht hcond hparen hs
  · exact helse hd

end StatementCovers

theorem statementCovers : ∀ n, StatementCovers n
  | 0 => ⟨fun _ => trivial, fun _ => trivial, fun _ _ _ _ _ => trivial, fun _ => trivial,
      fun _ _ => trivial, fun _ => trivial, fun _ => trivial, fun _ => trivial,
      fun _ _ _ _ _ => trivial, fun _ _ _ _ _ => trivial, fun _ _ _ _ _ => trivial⟩
  | n + 1 =>
    have ih := statementCovers n
    ⟨ih.declaration_succ, ih.declarationRule_succ, ih.classRule_succ, ih.methodList_succ,
      ih.functionRule_succ, ih.blockRule_succ, ih.blockItems_succ, ih.statement_succ,
      ih.forRule_succ, ih.ifRule_succ, ih.whileRule_succ⟩

/-- **The declarations of a program, if none was given up, are those of the grammar.** -/
theorem programItems_covers : ∀ n c, (programItems n c).Ensures fun stmts c' =>
    Unless c c' (c'.rest = [] ∧ Covers Declarations c stmts c')
  | 0, _ => trivial
  | n + 1, c => by
    unfold programItems
    split
    · rename_i hend
      refine .of_reads (.refl c) ⟨?_, [], [], .refl c, .none⟩
      simpa [Cursor.atEnd] using hend
    · refine ((statementCovers _).declaration c).bind fun s c₁ hs => ?_
      refine (programItems_covers n c₁).bind fun ss c₂ hss => ?_
      refine hs.trans hss fun h₁ h₂ => ?_
      obtain ⟨ts, ds, hr₁, hs⟩ := h₁
      obtain ⟨hend, us, es, hr₂, hss⟩ := h₂
      exact ⟨hend, _, _, hr₁.trans hr₂, .more hs hss⟩

end LoxLang
