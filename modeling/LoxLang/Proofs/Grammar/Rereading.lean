import LoxLang.Proofs.Grammar.Sourced
import LoxLang.Proofs.Number.Layout
import LoxLang.Proofs.Tree.Outline

/-!
# What is written down tells the tree

A tree is read back from what is written down for it: the first atom of a group tells which node it
is, unless the count of its parts does, and a text that stands alone is a value, a name or `this`.
Strings are not told apart from other texts, nor numbers beyond the greatest from names.

* `Stmt.Telling` — no literal is a string, or a number beyond the greatest.
* `Nested.expr`, `Nested.stmt` — reading back.

Principal results: `Expr.nested_expr`, `Stmt.nested_stmt`, `printed_form_tells_the_tree`.
-/

namespace LoxLang

/-- The text of the value tells it. -/
def Literal.Telling : Literal → Prop
  | .num x => ∀ negative, Number.Parts.ofFloat x ≠ .infinite negative
  | .str _ => False
  | _ => True

def Node.Telling : Node → Prop
  | .expr (.literal _ value) => value.Telling
  | _ => True

/-- No literal in the statement is a string, or a number beyond the greatest. -/
def Stmt.Telling (s : Stmt) : Prop := ∀ node ∈ s.walk, node.Telling

/-- Every node of these can be read back. -/
def Retold (nodes : List Node) : Prop := ∀ node ∈ nodes, node.Sourced ∧ node.Telling

theorem retold_cons {node : Node} {nodes : List Node} :
    Retold (node :: nodes) ↔ (node.Sourced ∧ node.Telling) ∧ Retold nodes := List.forall_mem_cons

theorem retold_append {xs ys : List Node} : Retold (xs ++ ys) ↔ Retold xs ∧ Retold ys :=
  List.forall_mem_append

/-! ## Atoms -/

namespace Nested

/-- The name with this text. -/
def name : Nested → Token
  | atom text => ⟨.identifier, text, .nil, 0⟩
  | group _ => .any

/-- The operators with the classes of their tokens. -/
def operators : List (String × TokenKind) :=
  [("!", .bang), ("-", .minus), ("+", .plus), ("/", .slash), ("*", .star), ("!=", .bangEqual),
   ("==", .equalEqual), (">", .greater), (">=", .greaterEqual), ("<", .less), ("<=", .lessEqual),
   ("and", .kwAnd), ("or", .kwOr)]

/-- The operator with this text. -/
def operator (text : String) : Token :=
  ⟨(operators.lookup text).getD .endOfInput, text, .nil, 0⟩

/-- What tokens of a class stand for between two operands. -/
def joinerOf (kind : TokenKind) : Option Joiner :=
  [Tier.or, .and, .equality, .comparison, .term, .factor].findSome? (·.joiner? kind)

/-- The number with this text. -/
noncomputable def number (text : String) : Float :=
  Function.invFunOn Number.printed.write
    {x | ∃ m e, Number.Parts.ofFloat x = .finite false m e} text

/-- A text that stands alone: a constant, `this`, a number, or the name of a variable. -/
noncomputable def standing (text : String) : Expr :=
  if text = "nil" then .literal 0 .nil
  else if text = "true" then .literal 0 (.bool true)
  else if text = "false" then .literal 0 (.bool false)
  else if text = "this" then .this 0 .any
  else if (text.toList.head?.any isDigit) = true then .literal 0 (.num (number text))
  else .var 0 (name (atom text))

end Nested

section Tokens

variable {t : Token}

/-- A name is a word, and it is not reserved. -/
theorem Token.Names.word (h : t.Names) : t.literal = .nil ∧
    (∃ c rest, t.lexeme.toList = c :: rest ∧ isAlpha c = true ∧
      ∀ d ∈ rest, isAlphanumeric d = true) ∧ ∀ kind, (t.lexeme, kind) ∉ keywords := by
  obtain ⟨cls, hlexeme⟩ := h.isRead.lexeme
  rw [← String.ofList_toList (s := t.lexeme)]
  have hkind := h.kind
  generalize t.lexeme.toList = text, t.kind = kind, t.literal = literal at hlexeme hkind ⊢
  rw [String.toList_ofList]
  cases hlexeme with
  | sign hmem => subst hkind; simp [signs] at hmem
  | plain hmem => subst hkind; simp [comparisons] at hmem
  | withEqual hmem => subst hkind; simp [comparisons] at hmem
  | string _ | whole _ _ | fraction _ _ _ _ => cases hkind
  | keyword _ _ hmem => subst hkind; simp [keywords] at hmem
  | identifier hc hrest hfree => exact ⟨rfl, ⟨_, _, rfl, hc, hrest⟩, hfree⟩

theorem Token.Names.unplaced_eq (h : t.Names) : t.unplaced = Nested.name (.atom t.lexeme) := by
  unfold Token.unplaced Nested.name
  rw [h.kind, h.word.1]

/-- An operator has the text of its class. -/
theorem Token.IsRead.operator (h : t.IsRead) (hkind : t.kind ∈ Nested.operators.map Prod.snd) :
    (t.lexeme, t.kind) ∈ Nested.operators ∧ t.literal = .nil := by
  have hsign : ∀ p ∈ signs, p.2 ∈ Nested.operators.map Prod.snd →
      (String.ofList [p.1], p.2) ∈ Nested.operators := by decide
  have hplain : ∀ p ∈ comparisons, p.2.1 ∈ Nested.operators.map Prod.snd →
      (String.ofList [p.1], p.2.1) ∈ Nested.operators := by decide
  have hequal : ∀ p ∈ comparisons, p.2.2 ∈ Nested.operators.map Prod.snd →
      (String.ofList [p.1, '='], p.2.2) ∈ Nested.operators := by decide
  have hkeyword : ∀ p ∈ keywords, p.2 ∈ Nested.operators.map Prod.snd → p ∈ Nested.operators := by
    decide
  obtain ⟨cls, hlexeme⟩ := h.lexeme
  rw [← String.ofList_toList (s := t.lexeme)]
  generalize t.lexeme.toList = text, t.kind = kind, t.literal = literal at hlexeme hkind ⊢
  cases hlexeme with
  | sign hmem => exact ⟨hsign _ hmem hkind, rfl⟩
  | plain hmem => exact ⟨hplain _ hmem hkind, rfl⟩
  | withEqual hmem => exact ⟨hequal _ hmem hkind, rfl⟩
  | string _ | whole _ _ | fraction _ _ _ _ => exact absurd hkind (by decide)
  | keyword _ _ hmem => exact ⟨hkeyword _ hmem hkind, rfl⟩
  | identifier _ _ _ => exact absurd hkind (by decide)

theorem Token.unplaced_eq_operator (hmem : (t.lexeme, t.kind) ∈ Nested.operators)
    (hliteral : t.literal = .nil) : t.unplaced = Nested.operator t.lexeme := by
  have hlookup : ∀ p ∈ Nested.operators, Nested.operators.lookup p.1 = some p.2 := by decide
  unfold Token.unplaced Nested.operator
  rw [hlookup _ hmem, hliteral]
  rfl

theorem operator_of_isSign {kind : TokenKind} (h : kind.isSign = true) :
    kind ∈ Nested.operators.map Prod.snd := by
  cases kind <;> cases h <;> decide

theorem Token.Joins.operator {joiner : Joiner} (h : t.Joins joiner) :
    (t.lexeme, t.kind) ∈ Nested.operators ∧ t.literal = .nil ∧
      Nested.joinerOf t.kind = some joiner := by
  obtain ⟨level, hlevel⟩ := h.kind
  have hof : t.kind ∈ Nested.operators.map Prod.snd ∧ Nested.joinerOf t.kind = some joiner := by
    generalize t.kind = kind at hlevel
    cases level <;> cases kind <;> cases hlevel <;> exact ⟨by decide, rfl⟩
  obtain ⟨hmem, hliteral⟩ := h.isRead.operator hof.1
  exact ⟨hmem, hliteral, hof.2⟩

end Tokens

/-! ## Expressions -/

namespace Nested

/-- A group with this head, its parts as they stand and read back as expressions. -/
def form (head : String) (parts : List Nested) (es : List Expr) : Expr :=
  match head, parts, es with
  | "group", _, [inner] => .grouping 0 inner
  | "=", [name, _], [_, value] => .assign 0 name.name value
  | "call", _, callee :: args => .call 0 callee .any args
  | ".", [_, name], [object, _] => .get 0 object name.name
  | ".=", [_, name, _], [object, _, value] => .set 0 object name.name value
  | "super", [method], _ => .super 0 .any method.name
  | head, _, [operand] =>
    if (operator head).kind.isSign then .unary 0 (operator head) operand else operand
  | head, _, [left, right] =>
    match joinerOf (operator head).kind with
    | some joiner => joiner.join left (operator head) right 0
    | none => left
  | _, _, _ => .this 0 .any

mutual

/-- The expression that this was written down for. -/
noncomputable def expr : Nested → Expr
  | atom text => standing text
  | group (atom head :: parts) => form head parts (exprs parts)
  | group _ => .this 0 .any

noncomputable def exprs : List Nested → List Expr
  | [] => []
  | x :: xs => x.expr :: exprs xs

end

/-- A group with an operator in front, of one part or of two. -/
theorem form_operator {text : String} {kind : TokenKind} (h : (text, kind) ∈ operators)
    (x y : Nested) (left right : Expr) :
    (kind.isSign = true → form text [x] [left] = .unary 0 (operator text) left) ∧
      ∀ joiner, joinerOf kind = some joiner →
        form text [x, y] [left, right] = joiner.join left (operator text) right 0 := by
  simp only [operators, List.mem_cons, Prod.mk.injEq, List.not_mem_nil, or_false] at h
  rcases h with ⟨rfl, rfl⟩ | ⟨rfl, rfl⟩ | ⟨rfl, rfl⟩ | ⟨rfl, rfl⟩ | ⟨rfl, rfl⟩ | ⟨rfl, rfl⟩ |
    ⟨rfl, rfl⟩ | ⟨rfl, rfl⟩ | ⟨rfl, rfl⟩ | ⟨rfl, rfl⟩ | ⟨rfl, rfl⟩ | ⟨rfl, rfl⟩ | ⟨rfl, rfl⟩ <;>
    exact ⟨fun hsign => by cases hsign <;> rfl, fun _ hjoiner => by cases hjoiner <;> rfl⟩

/-! ### Texts that stand alone -/

theorem standing_name {t : Token} (h : t.Names) : standing t.lexeme = .var 0 t.unplaced := by
  obtain ⟨-, ⟨c, rest, htext, hc, -⟩, hfree⟩ := h.word
  have hne : ∀ word kind, (word, kind) ∈ keywords → t.lexeme ≠ word := fun word kind hmem heq =>
    hfree kind (heq ▸ hmem)
  unfold standing
  rw [if_neg (hne "nil" .kwNil (by decide)), if_neg (hne "true" .kwTrue (by decide)),
    if_neg (hne "false" .kwFalse (by decide)), if_neg (hne "this" .kwThis (by decide)), htext,
    if_neg (by simp [isDigit_of_isAlpha hc]), h.unplaced_eq]

theorem number_write {x : Float} (h : ∃ m e, Number.Parts.ofFloat x = .finite false m e) :
    number (Number.printed.write x) = x := by
  refine Set.InjOn.leftInvOn_invFunOn (fun x hx y hy heq => ?_) h
  obtain ⟨m, e, hx⟩ := hx
  obtain ⟨m', e', hy⟩ := hy
  exact Number.printed_injective hx hy heq

theorem standing_number {x : Float} (h : ∃ m e, Number.Parts.ofFloat x = .finite false m e) :
    standing (Number.printed.write x) = .literal 0 (.num x) := by
  obtain ⟨m, e, hx⟩ := h
  obtain ⟨c, rest, htext, hc⟩ := (Number.printed_isNumberText hx).first
  have hdigit : isDigit c = true := hc
  have hne : ∀ word : String, word.toList.head?.any isDigit = false →
      Number.printed.write x ≠ word := by
    rintro word hword rfl
    rw [htext] at hword
    exact absurd hdigit (by simpa using hword)
  unfold standing
  rw [if_neg (hne _ rfl), if_neg (hne _ rfl), if_neg (hne _ rfl), if_neg (hne _ rfl), htext,
    if_pos (by simpa using hdigit), number_write ⟨m, e, hx⟩]

theorem standing_text {value : Literal} (h : value.Sourced) (h' : value.Telling) :
    standing value.text = .literal 0 value := by
  cases value with
  | nil => rfl
  | bool b => cases b <;> rfl
  | num x => exact standing_number (h.resolve_left (h' false))
  | str s => exact absurd h' id

end Nested

open Nested

mutual

theorem Expr.nested_expr : ∀ e : Expr, Retold e.walk → e.nested.expr = e.outline
  | .literal _ value, h =>
    have h := (retold_cons.1 h).1
    standing_text h.1 h.2
  | .grouping _ inner, h => by
    rw [Expr.outline, ← inner.nested_expr (retold_cons.1 h).2]
    rfl
  | .unary _ t operand, h => by
    obtain ⟨⟨⟨ht, hop⟩, -⟩, hoperand⟩ := retold_cons.1 h
    obtain ⟨hmem, hliteral⟩ := ht.operator (operator_of_isSign hop)
    rw [Expr.outline, ← operand.nested_expr hoperand, Token.unplaced_eq_operator hmem hliteral]
    exact (form_operator hmem operand.nested operand.nested _ default).1 hop
  | .binary _ left t right, h => by
    obtain ⟨⟨ht, -⟩, hparts⟩ := retold_cons.1 h
    obtain ⟨hleft, hright⟩ := retold_append.1 hparts
    obtain ⟨hmem, hliteral, hjoiner⟩ := Token.Joins.operator ht
    rw [Expr.outline, ← left.nested_expr hleft, ← right.nested_expr hright,
      Token.unplaced_eq_operator hmem hliteral]
    exact (form_operator hmem _ _ _ _).2 _ hjoiner
  | .logical _ left t right, h => by
    obtain ⟨⟨ht, -⟩, hparts⟩ := retold_cons.1 h
    obtain ⟨hleft, hright⟩ := retold_append.1 hparts
    obtain ⟨hmem, hliteral, hjoiner⟩ := Token.Joins.operator ht
    rw [Expr.outline, ← left.nested_expr hleft, ← right.nested_expr hright,
      Token.unplaced_eq_operator hmem hliteral]
    exact (form_operator hmem _ _ _ _).2 _ hjoiner
  | .var _ name, h => standing_name (retold_cons.1 h).1.1
  | .assign _ name value, h => by
    obtain ⟨⟨hname, -⟩, hvalue⟩ := retold_cons.1 h
    rw [Expr.outline, ← value.nested_expr hvalue, Token.Names.unplaced_eq hname]
    rfl
  | .call _ callee _ args, h => by
    obtain ⟨hcallee, hargs⟩ := retold_append.1 (retold_cons.1 h).2
    rw [Expr.outline, ← callee.nested_expr hcallee, ← nestedArgs_exprs args hargs]
    cases args <;> rfl
  | .get _ object name, h => by
    obtain ⟨⟨hname, -⟩, hobject⟩ := retold_cons.1 h
    rw [Expr.outline, ← object.nested_expr hobject, Token.Names.unplaced_eq hname]
    rfl
  | .set _ object name value, h => by
    obtain ⟨⟨hname, -⟩, hparts⟩ := retold_cons.1 h
    obtain ⟨hobject, hvalue⟩ := retold_append.1 hparts
    rw [Expr.outline, ← object.nested_expr hobject, ← value.nested_expr hvalue,
      Token.Names.unplaced_eq hname]
    rfl
  | .this .., _ => rfl
  | .super _ _ method, h => by
    rw [Expr.outline, Token.Names.unplaced_eq (retold_cons.1 h).1.1]
    rfl

theorem nestedArgs_exprs : ∀ es : List Expr, Retold (walkArgs es) →
    exprs (nestedArgs es) = outlineArgs es
  | [], _ => rfl
  | e :: es, h => by
    obtain ⟨he, hes⟩ := retold_append.1 h
    rw [outlineArgs, ← e.nested_expr he, ← nestedArgs_exprs es hes]
    rfl

end

/-! ## Statements -/

namespace Nested

/-- The function that a statement declares. -/
def method : Stmt → Function
  | .function decl => decl
  | _ => ⟨0, .any, [], []⟩

/-- A group with this head, its parts as they stand and read back as statements. -/
noncomputable def stmtForm (head : String) (parts : List Nested) (ss : List Stmt) : Stmt :=
  match head, parts, ss with
  | ";", [value], _ => .expression 0 value.expr
  | "print", [value], _ => .print 0 value.expr
  | "var", [name], _ => .declare 0 name.name none
  | "var", [name, value], _ => .declare 0 name.name (some value.expr)
  | "block", _, body => .block 0 body
  | "if", [cond, _], [_, thenBranch] => .conditional 0 cond.expr thenBranch none
  | "if", [cond, _, _], [_, thenBranch, elseBranch] =>
    .conditional 0 cond.expr thenBranch (some elseBranch)
  | "while", [cond, _], [_, body] => .loop 0 cond.expr body
  | "fun", name :: group params :: _, _ :: _ :: body =>
    .function ⟨0, name.name, params.map Nested.name, body⟩
  | "return", [], _ => .ret 0 .any none
  | "return", [value], _ => .ret 0 .any (some value.expr)
  | "class", name :: atom _ :: superclass :: _, _ :: _ :: _ :: methods =>
    .classDecl 0 name.name (some ⟨0, superclass.name⟩) (methods.map method)
  | "class", name :: _, _ :: methods => .classDecl 0 name.name none (methods.map method)
  | _, _, _ => .malformed

mutual

/-- The statement that this was written down for. -/
noncomputable def stmt : Nested → Stmt
  | atom _ => .malformed
  | group (atom head :: parts) => stmtForm head parts (stmts parts)
  | group _ => .malformed

noncomputable def stmts : List Nested → List Stmt
  | [] => []
  | x :: xs => x.stmt :: stmts xs

end

theorem name_params {params : List Token} (h : ∀ t ∈ params, t.Names) :
    (params.map fun p => atom p.lexeme).map Nested.name = params.map Token.unplaced := by
  rw [List.map_map]
  exact List.map_congr_left fun t ht => (h t ht).unplaced_eq.symm

end Nested

mutual

theorem Stmt.nested_stmt : ∀ s : Stmt, Retold s.walk → s.nested.stmt = s.outline
  | .malformed, _ => rfl
  | .expression _ value, h => by
    rw [Stmt.outline, ← value.nested_expr (retold_cons.1 h).2]
    rfl
  | .print _ value, h => by
    rw [Stmt.outline, ← value.nested_expr (retold_cons.1 h).2]
    rfl
  | .declare _ name none, h => by
    rw [Stmt.outline, Token.Names.unplaced_eq (retold_cons.1 h).1.1]
    rfl
  | .declare _ name (some value), h => by
    obtain ⟨⟨hname, -⟩, hvalue⟩ := retold_cons.1 h
    rw [Stmt.outline, ← value.nested_expr hvalue, Token.Names.unplaced_eq hname]
    rfl
  | .block _ body, h => by
    rw [Stmt.outline, ← nestedBody_stmts body (retold_cons.1 h).2]
    rfl
  | .conditional _ cond thenBranch none, h => by
    obtain ⟨hcond, hthen⟩ := retold_append.1 (retold_cons.1 h).2
    rw [Stmt.outline, ← cond.nested_expr hcond, ← thenBranch.nested_stmt hthen]
    rfl
  | .conditional _ cond thenBranch (some elseBranch), h => by
    obtain ⟨hparts, helse⟩ := retold_append.1 (retold_cons.1 h).2
    obtain ⟨hcond, hthen⟩ := retold_append.1 hparts
    rw [Stmt.outline, ← cond.nested_expr hcond, ← thenBranch.nested_stmt hthen,
      ← elseBranch.nested_stmt helse]
    rfl
  | .loop _ cond body, h => by
    obtain ⟨hcond, hbody⟩ := retold_append.1 (retold_cons.1 h).2
    rw [Stmt.outline, ← cond.nested_expr hcond, ← body.nested_stmt hbody]
    rfl
  | .function decl, h => nestedFunction_stmt decl h
  | .ret _ _ none, _ => rfl
  | .ret _ _ (some value), h => by
    rw [Stmt.outline, ← value.nested_expr (retold_cons.1 h).2]
    rfl
  | .classDecl _ name none methods, h => by
    obtain ⟨⟨hname, -⟩, hmethods⟩ := retold_cons.1 h
    rw [Stmt.outline, ← nestedMethods_stmts methods hmethods, Token.Names.unplaced_eq hname]
    -- the first method is a group, and not the mark of a superclass
    rcases methods with _ | ⟨⟨_, _, _, _⟩, _⟩ <;> rfl
  | .classDecl _ name (some superclass) methods, h => by
    obtain ⟨⟨hname, -⟩, hparts⟩ := retold_cons.1 h
    obtain ⟨⟨hsuper, -⟩, hmethods⟩ := retold_cons.1 hparts
    rw [Stmt.outline, ← nestedMethods_stmts methods hmethods, Token.Names.unplaced_eq hname,
      Token.Names.unplaced_eq hsuper]
    rfl

theorem nestedBody_stmts : ∀ ss : List Stmt, Retold (walkBody ss) →
    stmts (nestedBody ss) = outlineBody ss
  | [], _ => rfl
  | s :: ss, h => by
    obtain ⟨hs, hss⟩ := retold_append.1 h
    rw [outlineBody, ← s.nested_stmt hs, ← nestedBody_stmts ss hss]
    rfl

theorem nestedFunction_stmt : ∀ f : Function, Retold (walkFunction f) →
    (nestedFunction f).stmt = .function (outlineFunction f)
  | ⟨_, name, params, body⟩, h => by
    obtain ⟨⟨⟨hname, hparams⟩, -⟩, hbody⟩ := retold_cons.1 h
    rw [outlineFunction, ← nestedBody_stmts body hbody, Token.Names.unplaced_eq hname,
      ← name_params hparams]
    rfl

theorem nestedMethods_stmts : ∀ fs : List Function, Retold (walkMethods fs) →
    (stmts (nestedMethods fs)).map method = outlineMethods fs
  | [], _ => rfl
  | f :: fs, h => by
    obtain ⟨hf, hfs⟩ := retold_append.1 h
    rw [outlineMethods, ← nestedMethods_stmts fs hfs, nestedMethods, stmts,
      nestedFunction_stmt f hf]
    rfl

end

/-! ## Atoms that stand apart -/

theorem isDelimiter_of_isAlphanumeric {c : Char} (h : isAlphanumeric c = true) :
    isDelimiter c = false := by
  unfold isDelimiter
  rw [Bool.eq_false_iff]
  simp only [ne_eq, Bool.or_eq_true, beq_iff_eq, not_or]
  refine ⟨⟨?_, ?_⟩, ?_⟩ <;> rintro rfl <;> exact absurd h (by decide)

theorem Token.Names.plain {t : Token} (h : t.Names) : PlainAtom t.lexeme := by
  obtain ⟨-, ⟨c, rest, htext, hc, hrest⟩, -⟩ := h.word
  unfold PlainAtom
  rw [htext]
  refine ⟨List.cons_ne_nil _ _, List.forall_mem_cons.2 ⟨?_, fun d hd => ?_⟩⟩
  · exact isDelimiter_of_isAlphanumeric (by rw [isAlphanumeric, hc, Bool.true_or])
  · exact isDelimiter_of_isAlphanumeric (hrest d hd)

theorem plain_operator {text : String} {kind : TokenKind} (h : (text, kind) ∈ operators) :
    PlainAtom text := by
  have hall : ∀ p ∈ operators, PlainAtom p.1 := by decide
  exact hall _ h

theorem plain_number {cs : List Char} (h : Number.IsNumberText cs) :
    cs ≠ [] ∧ ∀ c ∈ cs, isDelimiter c = false := by
  obtain ⟨c, rest, rfl, -⟩ := h.first
  refine ⟨List.cons_ne_nil _ _, fun d hd => ?_⟩
  rcases h.all d hd with hdigit | rfl | rfl | rfl | rfl
  · have hdigit : isDigit d = true := hdigit
    exact isDelimiter_of_isAlphanumeric (by rw [isAlphanumeric, hdigit, Bool.or_true])
  all_goals rfl

theorem plain_text {value : Literal} (h : value.Sourced) (h' : value.Telling) :
    PlainAtom value.text := by
  cases value with
  | nil => decide
  | bool b => cases b <;> decide
  | num x =>
    obtain ⟨m, e, hx⟩ := h.resolve_left (h' false)
    exact plain_number (Number.printed_isNumberText hx)
  | str s => exact absurd h' id

mutual

theorem Expr.nested_plain : ∀ e : Expr, Retold e.walk → e.nested.Plain
  | .literal _ value, h =>
    have h := (retold_cons.1 h).1
    plain_text h.1 h.2
  | .grouping _ inner, h =>
    ⟨by decide, inner.nested_plain (retold_cons.1 h).2, trivial⟩
  | .unary _ t operand, h => by
    obtain ⟨⟨⟨ht, hop⟩, -⟩, hoperand⟩ := retold_cons.1 h
    have hmem := ht.operator (operator_of_isSign hop)
    exact ⟨plain_operator hmem.1, operand.nested_plain hoperand, trivial⟩
  | .binary _ left t right, h => by
    obtain ⟨⟨ht, -⟩, hparts⟩ := retold_cons.1 h
    obtain ⟨hleft, hright⟩ := retold_append.1 hparts
    exact ⟨plain_operator (Token.Joins.operator ht).1, left.nested_plain hleft,
      right.nested_plain hright, trivial⟩
  | .logical _ left t right, h => by
    obtain ⟨⟨ht, -⟩, hparts⟩ := retold_cons.1 h
    obtain ⟨hleft, hright⟩ := retold_append.1 hparts
    exact ⟨plain_operator (Token.Joins.operator ht).1, left.nested_plain hleft,
      right.nested_plain hright, trivial⟩
  | .var _ name, h => Token.Names.plain (retold_cons.1 h).1.1
  | .assign _ name value, h => by
    obtain ⟨⟨hname, -⟩, hvalue⟩ := retold_cons.1 h
    exact ⟨by decide, Token.Names.plain hname, value.nested_plain hvalue, trivial⟩
  | .call _ callee _ args, h => by
    obtain ⟨hcallee, hargs⟩ := retold_append.1 (retold_cons.1 h).2
    exact ⟨by decide, callee.nested_plain hcallee, nestedArgs_plain args hargs⟩
  | .get _ object name, h => by
    obtain ⟨⟨hname, -⟩, hobject⟩ := retold_cons.1 h
    exact ⟨by decide, object.nested_plain hobject, Token.Names.plain hname, trivial⟩
  | .set _ object name value, h => by
    obtain ⟨⟨hname, -⟩, hparts⟩ := retold_cons.1 h
    obtain ⟨hobject, hvalue⟩ := retold_append.1 hparts
    exact ⟨by decide, object.nested_plain hobject, Token.Names.plain hname,
      value.nested_plain hvalue, trivial⟩
  | .this .., _ => show PlainAtom "this" by decide
  | .super _ _ method, h =>
    ⟨by decide, Token.Names.plain (retold_cons.1 h).1.1, trivial⟩

theorem nestedArgs_plain : ∀ es : List Expr, Retold (walkArgs es) → PlainParts (nestedArgs es)
  | [], _ => trivial
  | e :: es, h =>
    have h := retold_append.1 h
    ⟨e.nested_plain h.1, nestedArgs_plain es h.2⟩

end

theorem params_plain : ∀ {params : List Token}, (∀ t ∈ params, t.Names) →
    PlainParts (params.map fun p => atom p.lexeme)
  | [], _ => trivial
  | _ :: _, h =>
    have h := List.forall_mem_cons.1 h
    ⟨h.1.plain, params_plain h.2⟩

mutual

theorem Stmt.nested_plain : ∀ s : Stmt, Retold s.walk → s.nested.Plain
  | .malformed, _ => show PlainAtom "<error>" by decide
  | .expression _ value, h => ⟨by decide, value.nested_plain (retold_cons.1 h).2, trivial⟩
  | .print _ value, h => ⟨by decide, value.nested_plain (retold_cons.1 h).2, trivial⟩
  | .declare _ name none, h => ⟨by decide, Token.Names.plain (retold_cons.1 h).1.1, trivial⟩
  | .declare _ name (some value), h => by
    obtain ⟨⟨hname, -⟩, hvalue⟩ := retold_cons.1 h
    exact ⟨by decide, Token.Names.plain hname, value.nested_plain hvalue, trivial⟩
  | .block _ body, h => ⟨by decide, nestedBody_plain body (retold_cons.1 h).2⟩
  | .conditional _ cond thenBranch none, h => by
    obtain ⟨hcond, hthen⟩ := retold_append.1 (retold_cons.1 h).2
    exact ⟨by decide, cond.nested_plain hcond, thenBranch.nested_plain hthen, trivial⟩
  | .conditional _ cond thenBranch (some elseBranch), h => by
    obtain ⟨hparts, helse⟩ := retold_append.1 (retold_cons.1 h).2
    obtain ⟨hcond, hthen⟩ := retold_append.1 hparts
    exact ⟨by decide, cond.nested_plain hcond, thenBranch.nested_plain hthen,
      elseBranch.nested_plain helse, trivial⟩
  | .loop _ cond body, h => by
    obtain ⟨hcond, hbody⟩ := retold_append.1 (retold_cons.1 h).2
    exact ⟨by decide, cond.nested_plain hcond, body.nested_plain hbody, trivial⟩
  | .function decl, h => nestedFunction_plain decl h
  | .ret _ _ none, _ => ⟨by decide, trivial⟩
  | .ret _ _ (some value), h => ⟨by decide, value.nested_plain (retold_cons.1 h).2, trivial⟩
  | .classDecl _ name none methods, h => by
    obtain ⟨⟨hname, -⟩, hmethods⟩ := retold_cons.1 h
    exact ⟨by decide, Token.Names.plain hname, nestedMethods_plain methods hmethods⟩
  | .classDecl _ name (some superclass) methods, h => by
    obtain ⟨⟨hname, -⟩, hparts⟩ := retold_cons.1 h
    obtain ⟨⟨hsuper, -⟩, hmethods⟩ := retold_cons.1 hparts
    exact ⟨by decide, Token.Names.plain hname, by decide, Token.Names.plain hsuper,
      nestedMethods_plain methods hmethods⟩

theorem nestedBody_plain : ∀ ss : List Stmt, Retold (walkBody ss) → PlainParts (nestedBody ss)
  | [], _ => trivial
  | s :: ss, h =>
    have h := retold_append.1 h
    ⟨s.nested_plain h.1, nestedBody_plain ss h.2⟩

theorem nestedFunction_plain : ∀ f : Function, Retold (walkFunction f) → (nestedFunction f).Plain
  | ⟨_, name, params, body⟩, h => by
    obtain ⟨⟨⟨hname, hparams⟩, -⟩, hbody⟩ := retold_cons.1 h
    exact ⟨by decide, Token.Names.plain hname, params_plain hparams, nestedBody_plain body hbody⟩

theorem nestedMethods_plain : ∀ fs : List Function, Retold (walkMethods fs) →
    PlainParts (nestedMethods fs)
  | [], _ => trivial
  | f :: fs, h =>
    have h := retold_append.1 h
    ⟨nestedFunction_plain f h.1, nestedMethods_plain fs h.2⟩

end

/-! ## Programs -/

/-- **What is written down for a statement tells it**, up to the numbers of its nodes and the places
of its tokens, unless it holds a string or a number beyond the greatest. -/
theorem printed_form_tells_the_tree {source source' : String} {firstId firstId' : Nat} {s t : Stmt}
    (hs : s ∈ (Program.ofSource source firstId).stmts)
    (ht : t ∈ (Program.ofSource source' firstId').stmts) (htelling : s.Telling)
    (htelling' : t.Telling) (h : s.render = t.render) : s.outline = t.outline := by
  have hretold : Retold s.walk := fun node hnode =>
    ⟨ofSource_sourced source firstId s hs node hnode, htelling node hnode⟩
  have hretold' : Retold t.walk := fun node hnode =>
    ⟨ofSource_sourced source' firstId' t ht node hnode, htelling' node hnode⟩
  have hnested : s.nested = t.nested := by
    refine write_injective (s.nested_plain hretold) (t.nested_plain hretold') ?_
    rw [s.write_nested, t.write_nested, h]
  rw [← s.nested_stmt hretold, ← t.nested_stmt hretold', hnested]

/-- The statement `a.b(-c);` with numbers from `id` on, its names on these lines. -/
def negatedArgument (id line line' line'' : Nat) : Stmt :=
  .expression (id + 5) (.call (id + 4)
    (.get (id + 1) (.var id ⟨.identifier, "a", .nil, line⟩) ⟨.identifier, "b", .nil, line'⟩)
    ⟨.rightParen, ")", .nil, line''⟩
    [.unary (id + 3) ⟨.minus, "-", .nil, line''⟩
      (.var (id + 2) ⟨.identifier, "c", .nil, line''⟩)])

theorem negatedArgument_telling (id line line' line'' : Nat) :
    (negatedArgument id line line' line'').Telling := by
  intro node hnode
  simp only [negatedArgument, Stmt.walk, Expr.walk, walkArgs, List.cons_append, List.nil_append,
    List.append_nil, List.mem_cons, List.not_mem_nil, or_false] at hnode
  rcases hnode with rfl | rfl | rfl | rfl | rfl | rfl <;> trivial

/-- The statement on one line, and on three lines with other numbers. -/
theorem written_on_three_lines :
    negatedArgument 0 1 1 1 ∈ (Program.ofSource "a.b(-c);" 0).stmts ∧
    negatedArgument 7 1 2 3 ∈ (Program.ofSource "a\n.b(\n-c);" 7).stmts ∧
    (negatedArgument 0 1 1 1).outline = (negatedArgument 7 1 2 3).outline := by
  have hs : negatedArgument 0 1 1 1 ∈ (Program.ofSource "a.b(-c);" 0).stmts := by
    have hstmts : (Program.ofSource "a.b(-c);" 0).stmts = [negatedArgument 0 1 1 1] := by cbv
    rw [hstmts]
    exact List.mem_singleton.2 rfl
  have ht : negatedArgument 7 1 2 3 ∈ (Program.ofSource "a\n.b(\n-c);" 7).stmts := by
    have hstmts : (Program.ofSource "a\n.b(\n-c);" 7).stmts = [negatedArgument 7 1 2 3] := by cbv
    rw [hstmts]
    exact List.mem_singleton.2 rfl
  exact ⟨hs, ht, printed_form_tells_the_tree hs ht (negatedArgument_telling 0 1 1 1)
    (negatedArgument_telling 7 1 2 3) rfl⟩

end LoxLang
