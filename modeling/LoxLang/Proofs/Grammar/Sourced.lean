import LoxLang.Grammar.Statement
import LoxLang.Proofs.Number.Binary
import LoxLang.Proofs.Token.Layout
import LoxLang.Tree.Walk

/-!
# Trees of sources

Whatever is read from a source, with problems or without them, is made of its tokens: names are
identifiers, operators stand for what their tokens say, and numbers are those of their digits.

* `Node.Sourced` — the tokens that a node holds itself were read, and are of the classes that its
  place asks for.
* `Reply.Supplies` — what holds of the value if there is one, while the tokens that are left to be read
  are all tokens of a source.

Principal result: `ofSource_sourced`.
-/

namespace LoxLang

/-- A token that was read as a name. -/
structure Token.Names (t : Token) : Prop where
  kind : t.kind = .identifier
  isRead : t.IsRead

/-- A value that is written with digits is not negative. -/
def Literal.Sourced : Literal → Prop
  | .num x => Number.Parts.ofFloat x = .infinite false ∨
      ∃ m e, Number.Parts.ofFloat x = .finite false m e
  | _ => True

/-- A token that was read as the operator of a node. -/
structure Token.Joins (t : Token) (joiner : Joiner) : Prop where
  isRead : t.IsRead
  kind : ∃ level : Tier, level.joiner? t.kind = some joiner

def Node.Sourced : Node → Prop
  | .expr (.literal _ value) => value.Sourced
  | .expr (.unary _ token _) => token.IsRead ∧ token.kind.isSign = true
  | .expr (.binary _ _ token _) => token.Joins .binary
  | .expr (.logical _ _ token _) => token.Joins .logical
  | .expr (.var _ name) => name.Names
  | .expr (.assign _ name _) => name.Names
  | .expr (.get _ _ name) => name.Names
  | .expr (.set _ _ name _) => name.Names
  | .expr (.super _ _ method) => method.Names
  | .expr _ => True
  | .stmt (.declare _ name _) => name.Names
  | .stmt (.function decl) => decl.name.Names ∧ ∀ name ∈ decl.params, name.Names
  | .stmt (.classDecl _ name _ _) => name.Names
  | .stmt _ => True

/-- Every node of these is made of tokens of a source. -/
def SourcedNodes (nodes : List Node) : Prop := ∀ node ∈ nodes, node.Sourced

@[simp] theorem sourcedNodes_nil : SourcedNodes [] := fun _ h => nomatch h

@[simp] theorem sourcedNodes_cons {node : Node} {nodes : List Node} :
    SourcedNodes (node :: nodes) ↔ node.Sourced ∧ SourcedNodes nodes := List.forall_mem_cons

@[simp] theorem sourcedNodes_append {xs ys : List Node} :
    SourcedNodes (xs ++ ys) ↔ SourcedNodes xs ∧ SourcedNodes ys := List.forall_mem_append

def Expr.Sourced (e : Expr) : Prop := SourcedNodes e.walk

def Stmt.Sourced (s : Stmt) : Prop := SourcedNodes s.walk

/-! ## Replies -/

/-- The tokens that are left to be read are those of a source. -/
def Cursor.OfSource (c : Cursor) : Prop := ∀ t ∈ c.rest, t.IsRead

namespace Reply

variable {α β : Type} {r : Reply α} {P Q : α → Prop} {R : β → Prop} {f : α → Cursor → Reply β}

/-- `P` holds of the value, if there is one, and tokens of a source are left. -/
def Supplies (r : Reply α) (P : α → Prop) : Prop :=
  match r with
  | ok v c => P v ∧ c.OfSource
  | failed c => c.OfSource
  | exhausted => True

theorem Supplies.bind (h : r.Supplies P) (hf : ∀ v c, P v → c.OfSource → (f v c).Supplies R) :
    (r.bind f).Supplies R := by
  cases r with
  | ok v c => exact hf v c h.1 h.2
  | failed c => exact h
  | exhausted => trivial

end Reply

namespace Cursor

variable {c c' : Cursor} {t : Token} {kind : TokenKind}

theorem OfSource.tail {rest : List Token} (h : c.OfSource) (hr : c.rest = t :: rest) :
    t.IsRead ∧ OfSource { c with rest } := by
  unfold OfSource at h
  rw [hr] at h
  exact List.forall_mem_cons.1 h

theorem OfSource.accept? (h : c.OfSource) (heq : c.accept? kind = some (t, c')) :
    (t.kind = kind ∧ t.IsRead) ∧ c'.OfSource := by
  unfold Cursor.accept? at heq
  split at heq
  · cases heq
  · rename_i t' rest hr
    split at heq
    · rename_i hkind
      cases heq
      exact ⟨⟨hkind, (h.tail hr).1⟩, (h.tail hr).2⟩
    · cases heq

theorem OfSource.expect (h : c.OfSource) (kind : TokenKind) (what : Expected) :
    (c.expect kind what).Supplies fun t => t.kind = kind ∧ t.IsRead := by
  unfold Cursor.expect
  split
  · rename_i t c' heq
    exact h.accept? heq
  · exact h

theorem OfSource.name (h : c.OfSource) (what : Expected) :
    (c.expect .identifier what).Supplies Token.Names := by
  have hsupplies := h.expect .identifier what
  cases hreply : c.expect .identifier what with
  | ok t c' => rw [hreply] at hsupplies; exact ⟨⟨hsupplies.1.1, hsupplies.1.2⟩, hsupplies.2⟩
  | failed c' => rw [hreply] at hsupplies; exact hsupplies
  | exhausted => trivial

theorem OfSource.node {α : Type} {P : α → Prop} {make : Nat → α} (h : c.OfSource)
    (hmake : ∀ id, P (make id)) : (c.node make).Supplies P := ⟨hmake _, h⟩

theorem OfSource.noteIf (h : c.OfSource) (p : Prop) [Decidable p] (problem : Problem) :
    (if p then c.note problem else c).OfSource := by
  split <;> exact h

theorem OfSource.synchronize (h : c.OfSource) : c.synchronize.OfSource := by
  unfold Cursor.synchronize
  split
  · exact h
  · rename_i t rest hr
    have hskip : ∀ (rest : List Token) (last : Token), (∀ u ∈ rest, u.IsRead) →
        ∀ u ∈ skipFrom last rest, u.IsRead := by
      intro rest
      induction rest with
      | nil => exact fun _ h => h
      | cons u rest ih =>
        intro last hrest
        rw [skipFrom]
        split
        · exact hrest
        · exact ih u (List.forall_mem_cons.1 hrest).2
    exact hskip rest t (h.tail hr).2

end Cursor

/-! ## Expressions -/

theorem join_sourced {level : Tier} {joiner : Joiner} {left right : Expr} {t : Token}
    (hkind : level.joiner? t.kind = some joiner) (ht : t.IsRead) (hleft : left.Sourced)
    (hright : right.Sourced) (id : Nat) : (joiner.join left t right id).Sourced := by
  have hjoins : t.Joins joiner := ⟨ht, level, hkind⟩
  cases joiner <;>
    exact sourcedNodes_cons.2 ⟨hjoins, sourcedNodes_append.2 ⟨hleft, hright⟩⟩

theorem assignTo_sourced {target value : Expr} {equals : Token} {c : Cursor} (hc : c.OfSource)
    (htarget : target.Sourced) (hvalue : value.Sourced) :
    (assignTo target equals value c).Supplies Expr.Sourced := by
  unfold assignTo
  split
  · rename_i id name
    have hname := (sourcedNodes_cons.1 htarget).1
    exact hc.node fun id => sourcedNodes_cons.2 ⟨hname, hvalue⟩
  · rename_i id object name
    obtain ⟨hname, hobject⟩ := sourcedNodes_cons.1 htarget
    exact hc.node fun id => sourcedNodes_cons.2 ⟨hname, sourcedNodes_append.2 ⟨hobject, hvalue⟩⟩
  · exact ⟨htarget, hc⟩

/-- The value of a number or a string. -/
theorem Token.IsRead.sourced {t : Token} (h : t.IsRead) : t.literal.Sourced := by
  obtain ⟨cls, hlexeme⟩ := h.lexeme
  cases hliteral : t.literal with
  | num x =>
    rw [hliteral] at hlexeme
    generalize t.lexeme.toList = text, t.kind = kind at hlexeme
    cases hlexeme <;> exact Number.parts_nearest _ _
  | _ => trivial

mutual

theorem assignment_sourced : ∀ (n : Nat) {c : Cursor}, c.OfSource →
    (assignment n c).Supplies Expr.Sourced
  | 0, _, _ => trivial
  | n + 1, c, hc => by
    unfold assignment
    refine (tier_sourced n .or hc).bind fun target c₁ htarget hc₁ => ?_
    split
    · exact ⟨htarget, hc₁⟩
    · rename_i equals c₂ heq
      refine (assignment_sourced n (hc₁.accept? heq).2).bind fun value c₃ hvalue hc₃ => ?_
      exact assignTo_sourced hc₃ htarget hvalue

theorem tier_sourced : ∀ (n : Nat) (level : Tier) {c : Cursor}, c.OfSource →
    (tier n level c).Supplies Expr.Sourced
  | 0, _, _, _ => trivial
  | n + 1, level, c, hc => by
    unfold tier
    exact (operand_sourced n level hc).bind fun left c₁ hleft hc₁ =>
      tierTail_sourced n level hleft hc₁

theorem operand_sourced : ∀ (n : Nat) (level : Tier) {c : Cursor}, c.OfSource →
    (operand n level c).Supplies Expr.Sourced
  | 0, _, _, _ => trivial
  | n + 1, level, c, hc => by
    unfold operand
    split
    · exact tier_sourced n _ hc
    · exact unary_sourced n hc

theorem tierTail_sourced : ∀ (n : Nat) (level : Tier) {left : Expr} {c : Cursor}, left.Sourced →
    c.OfSource → (tierTail n level left c).Supplies Expr.Sourced
  | 0, _, _, _, _, _ => trivial
  | n + 1, level, left, c, hleft, hc => by
    unfold tierTail
    split
    · exact ⟨hleft, hc⟩
    · rename_i t rest hr
      split
      · exact ⟨hleft, hc⟩
      · rename_i joiner hjoiner
        obtain ⟨ht, hrest⟩ := hc.tail hr
        refine (operand_sourced n level hrest).bind fun right c₁ hright hc₁ => ?_
        refine (hc₁.node (join_sourced hjoiner ht hleft hright)).bind fun joined c₂ hjoined hc₂ => ?_
        exact tierTail_sourced n level hjoined hc₂

theorem unary_sourced : ∀ (n : Nat) {c : Cursor}, c.OfSource → (unary n c).Supplies Expr.Sourced
  | 0, _, _ => trivial
  | n + 1, c, hc => by
    unfold unary
    split
    · exact callChain_sourced n hc
    · rename_i t rest hr
      split
      · rename_i hsign
        obtain ⟨ht, hrest⟩ := hc.tail hr
        refine (unary_sourced n hrest).bind fun inner c₁ hinner hc₁ => ?_
        exact hc₁.node fun id => sourcedNodes_cons.2 ⟨⟨ht, hsign⟩, hinner⟩
      · exact callChain_sourced n hc

theorem callChain_sourced : ∀ (n : Nat) {c : Cursor}, c.OfSource →
    (callChain n c).Supplies Expr.Sourced
  | 0, _, _ => trivial
  | n + 1, c, hc => by
    unfold callChain
    exact (primary_sourced n hc).bind fun e c₁ he hc₁ => callTail_sourced n he hc₁

theorem callTail_sourced : ∀ (n : Nat) {e : Expr} {c : Cursor}, e.Sourced → c.OfSource →
    (callTail n e c).Supplies Expr.Sourced
  | 0, _, _, _, _ => trivial
  | n + 1, e, c, he, hc => by
    unfold callTail
    split
    · rename_i t c₁ heq
      refine (arguments_sourced n (hc.accept? heq).2).bind fun args c₂ hargs hc₂ => ?_
      refine (hc₂.expect _ _).bind fun paren c₃ _ hc₃ => ?_
      refine (hc₃.node (P := Expr.Sourced) fun id => ?_).bind fun e' c₄ he' hc₄ =>
        callTail_sourced n he' hc₄
      exact sourcedNodes_cons.2 ⟨trivial, sourcedNodes_append.2 ⟨he, hargs⟩⟩
    · split
      · rename_i t c₁ heq
        refine ((hc.accept? heq).2.name _).bind fun name c₂ hname hc₂ => ?_
        refine (hc₂.node (P := Expr.Sourced) fun id => ?_).bind fun e' c₃ he' hc₃ =>
          callTail_sourced n he' hc₃
        exact sourcedNodes_cons.2 ⟨hname, he⟩
      · exact ⟨he, hc⟩

theorem arguments_sourced : ∀ (n : Nat) {c : Cursor}, c.OfSource →
    (arguments n c).Supplies fun args => SourcedNodes (walkArgs args)
  | 0, _, _ => trivial
  | n + 1, c, hc => by
    unfold arguments
    split
    · exact ⟨sourcedNodes_nil, hc⟩
    · exact argumentList_sourced n 0 hc

theorem argumentList_sourced : ∀ (n count : Nat) {c : Cursor}, c.OfSource →
    (argumentList n count c).Supplies fun args => SourcedNodes (walkArgs args)
  | 0, _, _, _ => trivial
  | n + 1, count, c, hc => by
    unfold argumentList
    refine (assignment_sourced n (hc.noteIf _ _)).bind fun e c₁ he hc₁ => ?_
    split
    · exact ⟨sourcedNodes_append.2 ⟨he, sourcedNodes_nil⟩, hc₁⟩
    · rename_i t c₂ heq
      refine (argumentList_sourced n (count + 1) (hc₁.accept? heq).2).bind fun es c₃ hes hc₃ => ?_
      exact ⟨sourcedNodes_append.2 ⟨he, hes⟩, hc₃⟩

theorem primary_sourced : ∀ (n : Nat) {c : Cursor}, c.OfSource →
    (primary n c).Supplies Expr.Sourced
  | 0, _, _ => trivial
  | n + 1, c, hc => by
    unfold primary
    split
    · exact hc
    · rename_i t rest hr
      obtain ⟨ht, hrest⟩ := hc.tail hr
      have hleaf : ∀ make : Nat → Expr, (∀ id, (make id).walk = [.expr (make id)]) →
          (∀ id, (Node.expr (make id)).Sourced) →
          (Cursor.node { c with rest } make).Supplies Expr.Sourced :=
        fun make hwalk hmake => hrest.node fun id => by
          unfold Expr.Sourced
          rw [hwalk]
          exact sourcedNodes_cons.2 ⟨hmake id, sourcedNodes_nil⟩
      simp only
      split
      · exact hleaf _ (fun _ => rfl) fun _ => trivial
      · exact hleaf _ (fun _ => rfl) fun _ => trivial
      · exact hleaf _ (fun _ => rfl) fun _ => trivial
      · exact hleaf _ (fun _ => rfl) fun _ => ht.sourced
      · exact hleaf _ (fun _ => rfl) fun _ => ht.sourced
      · refine (hrest.expect _ _).bind fun _ c₁ _ hc₁ => ?_
        refine (hc₁.name _).bind fun method c₂ hmethod hc₂ => ?_
        exact hc₂.node fun id => sourcedNodes_cons.2 ⟨hmethod, sourcedNodes_nil⟩
      · exact hleaf _ (fun _ => rfl) fun _ => trivial
      · rename_i hkind
        exact hleaf _ (fun _ => rfl) fun _ => ⟨hkind, ht⟩
      · refine (assignment_sourced n hrest).bind fun inner c₁ hinner hc₁ => ?_
        refine (hc₁.expect _ _).bind fun _ c₂ _ hc₂ => ?_
        exact hc₂.node fun id => sourcedNodes_cons.2 ⟨trivial, hinner⟩
      · exact hc

end

theorem expression_sourced {c : Cursor} (hc : c.OfSource) : (expression c).Supplies Expr.Sourced :=
  assignment_sourced _ hc

/-! ## Parts of statements -/

theorem variableDecl_sourced {c : Cursor} (hc : c.OfSource) :
    (variableDecl c).Supplies Stmt.Sourced := by
  unfold variableDecl
  refine (hc.name _).bind fun name c₁ hname hc₁ => ?_
  split
  · refine (hc₁.expect _ _).bind fun _ c₂ _ hc₂ => ?_
    exact hc₂.node fun id => sourcedNodes_cons.2 ⟨hname, sourcedNodes_nil⟩
  · rename_i equals c₂ heq
    refine (expression_sourced (hc₁.accept? heq).2).bind fun value c₃ hvalue hc₃ => ?_
    refine (hc₃.expect _ _).bind fun _ c₄ _ hc₄ => ?_
    exact hc₄.node fun id => sourcedNodes_cons.2 ⟨hname, hvalue⟩

theorem expressionStmt_sourced {c : Cursor} (hc : c.OfSource) :
    (expressionStmt c).Supplies Stmt.Sourced := by
  unfold expressionStmt
  refine (expression_sourced hc).bind fun value c₁ hvalue hc₁ => ?_
  refine (hc₁.expect _ _).bind fun _ c₂ _ hc₂ => ?_
  exact hc₂.node fun id => sourcedNodes_cons.2 ⟨trivial, hvalue⟩

theorem optionalExpression_sourced {c : Cursor} (hc : c.OfSource) (closer : TokenKind) :
    (optionalExpression c closer).Supplies fun value => ∀ e ∈ value, e.Sourced := by
  unfold optionalExpression
  split
  · exact ⟨by simp, hc⟩
  · refine (expression_sourced hc).bind fun value c₁ hvalue hc₁ => ⟨?_, hc₁⟩
    rintro e ⟨⟩
    exact hvalue

theorem parameterList_sourced : ∀ (n count : Nat) {c : Cursor}, c.OfSource →
    (parameterList n count c).Supplies fun names => ∀ name ∈ names, name.Names
  | 0, _, _, _ => trivial
  | n + 1, count, c, hc => by
    unfold parameterList
    refine ((hc.noteIf _ _).name _).bind fun name c₁ hname hc₁ => ?_
    split
    · exact ⟨List.forall_mem_singleton.2 hname, hc₁⟩
    · rename_i t c₂ heq
      refine (parameterList_sourced n (count + 1) (hc₁.accept? heq).2).bind
        fun names c₃ hnames hc₃ => ?_
      exact ⟨List.forall_mem_cons.2 ⟨hname, hnames⟩, hc₃⟩

theorem parameters_sourced {c : Cursor} (hc : c.OfSource) :
    (parameters c).Supplies fun names => ∀ name ∈ names, name.Names := by
  unfold parameters
  split
  · exact ⟨by simp, hc⟩
  · exact parameterList_sourced _ 0 hc

theorem superclassClause_sourced {c : Cursor} (hc : c.OfSource) :
    (superclassClause c).Supplies fun superclass => ∀ s ∈ superclass, s.name.Names := by
  unfold superclassClause
  split
  · exact ⟨by simp, hc⟩
  · rename_i t c₁ heq
    refine ((hc.accept? heq).2.name _).bind fun name c₂ hname hc₂ => hc₂.node fun id => ?_
    rintro s ⟨⟩
    exact hname

theorem forStart_sourced {c : Cursor} (hc : c.OfSource) :
    (forStart c).Supplies fun start => ∀ s ∈ start, s.Sourced := by
  have hsome : ∀ {r : Reply Stmt}, r.Supplies Stmt.Sourced →
      (r.bind fun s c => .ok (some s) c).Supplies fun start => ∀ s ∈ start, s.Sourced :=
    fun h => h.bind fun s c hs hc => ⟨fun _ heq => Option.some.inj heq ▸ hs, hc⟩
  unfold forStart
  split
  · rename_i t c₁ heq
    exact ⟨by simp, (hc.accept? heq).2⟩
  · split
    · rename_i t c₁ heq
      exact hsome (variableDecl_sourced (hc.accept? heq).2)
    · exact hsome (expressionStmt_sourced hc)

theorem forLoop_sourced {start : Option Stmt} {cond increment : Option Expr} {body : Stmt}
    {c : Cursor} (hc : c.OfSource) (hstart : ∀ s ∈ start, s.Sourced)
    (hcond : ∀ e ∈ cond, e.Sourced) (hincrement : ∀ e ∈ increment, e.Sourced)
    (hbody : body.Sourced) : (forLoop start cond increment body c).Supplies Stmt.Sourced := by
  have hpair : ∀ {s t : Stmt}, s.Sourced → t.Sourced → ∀ id, (Stmt.block id [s, t]).Sourced :=
    fun hs ht id => sourcedNodes_cons.2 ⟨trivial, sourcedNodes_append.2
      ⟨hs, sourcedNodes_append.2 ⟨ht, sourcedNodes_nil⟩⟩⟩
  have hwith : (withIncrement body increment c).Supplies Stmt.Sourced := by
    cases increment with
    | none => exact ⟨hbody, hc⟩
    | some value =>
      have hstep : ∀ id, (Stmt.expression id value).Sourced := fun id =>
        sourcedNodes_cons.2 ⟨trivial, hincrement value rfl⟩
      exact (hc.node hstep).bind fun step c₁ hstep hc₁ => hc₁.node (hpair hbody hstep)
  unfold forLoop
  refine hwith.bind fun body c₁ hbody hc₁ => ?_
  have hgiven : (forCondition cond c₁).Supplies Expr.Sourced := by
    cases cond with
    | none =>
      have htrue : ∀ id, (Expr.literal id (.bool true)).Sourced := fun id =>
        sourcedNodes_cons.2 ⟨trivial, sourcedNodes_nil⟩
      exact hc₁.node htrue
    | some cond => exact ⟨hcond cond rfl, hc₁⟩
  refine hgiven.bind fun cond c₂ hcond hc₂ => ?_
  refine (hc₂.node (P := Stmt.Sourced) fun id => ?_).bind fun loop c₃ hloop hc₃ => ?_
  · exact sourcedNodes_cons.2 ⟨trivial, sourcedNodes_append.2 ⟨hcond, hbody⟩⟩
  · cases start with
    | none => exact ⟨hloop, hc₃⟩
    | some start => exact hc₃.node (hpair (hstart start rfl) hloop)

/-! ## Statements -/

mutual

theorem declaration_sourced : ∀ (n : Nat) {c : Cursor}, c.OfSource →
    (declaration n c).Supplies Stmt.Sourced
  | 0, _, _ => trivial
  | n + 1, c, hc => by
    have hrule := declarationRule_sourced n hc
    unfold declaration
    split
    · rename_i heq
      rw [heq] at hrule
      exact hrule
    · rename_i c₁ heq
      rw [heq] at hrule
      exact ⟨sourcedNodes_nil, Cursor.OfSource.synchronize hrule⟩
    · trivial

theorem declarationRule_sourced : ∀ (n : Nat) {c : Cursor}, c.OfSource →
    (declarationRule n c).Supplies Stmt.Sourced
  | 0, _, _ => trivial
  | n + 1, c, hc => by
    unfold declarationRule
    split
    · rename_i t c₁ heq
      exact classRule_sourced n (hc.accept? heq).2
    · split
      · rename_i t c₁ heq
        exact (functionRule_sourced n .function (hc.accept? heq).2).bind fun f c₂ hf hc₂ => ⟨hf, hc₂⟩
      · split
        · rename_i t c₁ heq
          exact variableDecl_sourced (hc.accept? heq).2
        · exact statement_sourced n hc

theorem classRule_sourced : ∀ (n : Nat) {c : Cursor}, c.OfSource →
    (classRule n c).Supplies Stmt.Sourced
  | 0, _, _ => trivial
  | n + 1, c, hc => by
    unfold classRule
    refine (hc.name _).bind fun name c₁ hname hc₁ => ?_
    refine (superclassClause_sourced hc₁).bind fun superclass c₂ hsuper hc₂ => ?_
    refine (hc₂.expect _ _).bind fun _ c₃ _ hc₃ => ?_
    refine (methodList_sourced n hc₃).bind fun methods c₄ hmethods hc₄ => ?_
    refine (hc₄.expect _ _).bind fun _ c₅ _ hc₅ => hc₅.node fun id => ?_
    cases superclass with
    | none => exact sourcedNodes_cons.2 ⟨hname, hmethods⟩
    | some s =>
      exact sourcedNodes_cons.2 ⟨hname, sourcedNodes_cons.2 ⟨hsuper s rfl, hmethods⟩⟩

theorem methodList_sourced : ∀ (n : Nat) {c : Cursor}, c.OfSource →
    (methodList n c).Supplies fun fs => SourcedNodes (walkMethods fs)
  | 0, _, _ => trivial
  | n + 1, c, hc => by
    unfold methodList
    split
    · exact ⟨sourcedNodes_nil, hc⟩
    · refine (functionRule_sourced n .method hc).bind fun f c₁ hf hc₁ => ?_
      refine (methodList_sourced n hc₁).bind fun fs c₂ hfs hc₂ => ?_
      exact ⟨sourcedNodes_append.2 ⟨hf, hfs⟩, hc₂⟩

theorem functionRule_sourced : ∀ (n : Nat) (what : Callable) {c : Cursor}, c.OfSource →
    (functionRule n what c).Supplies fun f => SourcedNodes (walkFunction f)
  | 0, _, _, _ => trivial
  | n + 1, what, c, hc => by
    unfold functionRule
    refine (hc.name _).bind fun name c₁ hname hc₁ => ?_
    refine (hc₁.expect _ _).bind fun _ c₂ _ hc₂ => ?_
    refine (parameters_sourced hc₂).bind fun params c₃ hparams hc₃ => ?_
    refine (hc₃.expect _ _).bind fun _ c₄ _ hc₄ => ?_
    refine (hc₄.expect _ _).bind fun _ c₅ _ hc₅ => ?_
    refine (blockRule_sourced n hc₅).bind fun body c₆ hbody hc₆ => hc₆.node fun id => ?_
    exact sourcedNodes_cons.2 ⟨⟨hname, hparams⟩, hbody⟩

theorem blockRule_sourced : ∀ (n : Nat) {c : Cursor}, c.OfSource →
    (blockRule n c).Supplies fun body => SourcedNodes (walkBody body)
  | 0, _, _ => trivial
  | n + 1, c, hc => by
    unfold blockRule
    refine (blockItems_sourced n hc).bind fun body c₁ hbody hc₁ => ?_
    exact (hc₁.expect _ _).bind fun _ c₂ _ hc₂ => ⟨hbody, hc₂⟩

theorem blockItems_sourced : ∀ (n : Nat) {c : Cursor}, c.OfSource →
    (blockItems n c).Supplies fun body => SourcedNodes (walkBody body)
  | 0, _, _ => trivial
  | n + 1, c, hc => by
    unfold blockItems
    split
    · exact ⟨sourcedNodes_nil, hc⟩
    · refine (declaration_sourced n hc).bind fun s c₁ hs hc₁ => ?_
      refine (blockItems_sourced n hc₁).bind fun ss c₂ hss hc₂ => ?_
      exact ⟨sourcedNodes_append.2 ⟨hs, hss⟩, hc₂⟩

theorem statement_sourced : ∀ (n : Nat) {c : Cursor}, c.OfSource →
    (statement n c).Supplies Stmt.Sourced
  | 0, _, _ => trivial
  | n + 1, c, hc => by
    unfold statement
    split
    · exact expressionStmt_sourced hc
    · rename_i t rest hr
      obtain ⟨ht, hrest⟩ := hc.tail hr
      simp only
      split
      · exact forRule_sourced n hrest
      · exact ifRule_sourced n hrest
      · refine (expression_sourced hrest).bind fun value c₂ hvalue hc₂ => ?_
        refine (hc₂.expect _ _).bind fun _ c₃ _ hc₃ => ?_
        exact hc₃.node fun id => sourcedNodes_cons.2 ⟨trivial, hvalue⟩
      · refine (optionalExpression_sourced hrest _).bind fun value c₂ hvalue hc₂ => ?_
        refine (hc₂.expect _ _).bind fun _ c₃ _ hc₃ => hc₃.node fun id => ?_
        cases value with
        | none => exact sourcedNodes_cons.2 ⟨trivial, sourcedNodes_nil⟩
        | some value => exact sourcedNodes_cons.2 ⟨trivial, hvalue value rfl⟩
      · exact whileRule_sourced n hrest
      · refine (blockRule_sourced n hrest).bind fun body c₂ hbody hc₂ => ?_
        exact hc₂.node fun id => sourcedNodes_cons.2 ⟨trivial, hbody⟩
      · exact expressionStmt_sourced hc

theorem forRule_sourced : ∀ (n : Nat) {c : Cursor}, c.OfSource →
    (forRule n c).Supplies Stmt.Sourced
  | 0, _, _ => trivial
  | n + 1, c, hc => by
    unfold forRule
    refine (hc.expect _ _).bind fun _ c₁ _ hc₁ => ?_
    refine (forStart_sourced hc₁).bind fun start c₂ hstart hc₂ => ?_
    refine (optionalExpression_sourced hc₂ _).bind fun cond c₃ hcond hc₃ => ?_
    refine (hc₃.expect _ _).bind fun _ c₄ _ hc₄ => ?_
    refine (optionalExpression_sourced hc₄ _).bind fun increment c₅ hincrement hc₅ => ?_
    refine (hc₅.expect _ _).bind fun _ c₆ _ hc₆ => ?_
    refine (statement_sourced n hc₆).bind fun body c₇ hbody hc₇ => ?_
    exact forLoop_sourced hc₇ hstart hcond hincrement hbody

theorem ifRule_sourced : ∀ (n : Nat) {c : Cursor}, c.OfSource →
    (ifRule n c).Supplies Stmt.Sourced
  | 0, _, _ => trivial
  | n + 1, c, hc => by
    unfold ifRule
    refine (hc.expect _ _).bind fun _ c₁ _ hc₁ => ?_
    refine (expression_sourced hc₁).bind fun cond c₂ hcond hc₂ => ?_
    refine (hc₂.expect _ _).bind fun _ c₃ _ hc₃ => ?_
    refine (statement_sourced n hc₃).bind fun thenBranch c₄ hthen hc₄ => ?_
    split
    · exact hc₄.node fun id => sourcedNodes_cons.2 ⟨trivial, sourcedNodes_append.2 ⟨hcond, hthen⟩⟩
    · rename_i t c₅ heq
      refine (statement_sourced n (hc₄.accept? heq).2).bind fun elseBranch c₆ helse hc₆ => ?_
      exact hc₆.node fun id => sourcedNodes_cons.2 ⟨trivial,
        sourcedNodes_append.2 ⟨sourcedNodes_append.2 ⟨hcond, hthen⟩, helse⟩⟩

theorem whileRule_sourced : ∀ (n : Nat) {c : Cursor}, c.OfSource →
    (whileRule n c).Supplies Stmt.Sourced
  | 0, _, _ => trivial
  | n + 1, c, hc => by
    unfold whileRule
    refine (hc.expect _ _).bind fun _ c₁ _ hc₁ => ?_
    refine (expression_sourced hc₁).bind fun cond c₂ hcond hc₂ => ?_
    refine (hc₂.expect _ _).bind fun _ c₃ _ hc₃ => ?_
    refine (statement_sourced n hc₃).bind fun body c₄ hbody hc₄ => ?_
    exact hc₄.node fun id => sourcedNodes_cons.2 ⟨trivial, sourcedNodes_append.2 ⟨hcond, hbody⟩⟩

end

theorem programItems_sourced : ∀ (n : Nat) {c : Cursor}, c.OfSource →
    (programItems n c).Supplies fun ss => ∀ s ∈ ss, s.Sourced
  | 0, _, _ => trivial
  | n + 1, c, hc => by
    unfold programItems
    split
    · exact ⟨by simp, hc⟩
    · refine (declaration_sourced _ hc).bind fun s c₁ hs hc₁ => ?_
      refine (programItems_sourced n hc₁).bind fun ss c₂ hss hc₂ => ?_
      exact ⟨List.forall_mem_cons.2 ⟨hs, hss⟩, hc₂⟩

/-- **The statements of a source are made of its tokens.** -/
theorem ofSource_sourced (source : String) (firstId : Nat) :
    ∀ s ∈ (Program.ofSource source firstId).stmts, s.Sourced := by
  have htokens : ∀ t ∈ (scan source).tokens, t.IsRead :=
    isRead_of_isCut ((isCut_iff source.toList _).2 rfl) 1
  have hsupplies := programItems_sourced ((scan source).tokens.length + 1)
    (c := ⟨(scan source).tokens, (scan source).stop, firstId, []⟩) htokens
  show ∀ s ∈ (Program.read (scan source).tokens (scan source).stop firstId).stmts, s.Sourced
  unfold Program.read
  generalize programItems _ _ = reply at hsupplies ⊢
  cases reply with
  | ok stmts c => exact hsupplies.1
  | failed c => exact fun _ h => nomatch h
  | exhausted => exact fun _ h => nomatch h

end LoxLang
