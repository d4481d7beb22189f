import LoxLang.Grammar.Statement
import LoxLang.Proofs.Tree.Ids

/-!
# Every node has a number of its own

Reading numbers the nodes of a program in the order in which they are made.  Whatever is read
between two cursors has distinct numbers between theirs, whether problems were found or not.

Principal result: `read_numbered`.
-/

namespace LoxLang

namespace Reply

variable {α β : Type} {r : Reply α} {P : α → Cursor → Prop} {Q : β → Cursor → Prop}
  {f : α → Cursor → Reply β} {c c' : Cursor}

/-- Numbers are only used up, and `P` holds of the value and the cursor after it. -/
def Numbers (r : Reply α) (c : Cursor) (P : α → Cursor → Prop) : Prop :=
  match r with
  | ok v c' => c.nextId ≤ c'.nextId ∧ P v c'
  | failed c' => c.nextId ≤ c'.nextId
  | exhausted => True

theorem Numbers.ok {v : α} (hc : c.nextId ≤ c'.nextId) (h : P v c') :
    (Reply.ok v c').Numbers c P := ⟨hc, h⟩

theorem Numbers.bind (h : r.Numbers c P)
    (hf : ∀ v c', c.nextId ≤ c'.nextId → P v c' → (f v c').Numbers c' Q) :
    (r.bind f).Numbers c Q := by
  cases r with
  | ok v c' =>
    have hq := hf v c' h.1 h.2
    show (f v c').Numbers c Q
    cases hv : f v c' with
    | ok v' c'' => rw [hv] at hq; exact ⟨Nat.le_trans h.1 hq.1, hq.2⟩
    | failed c'' => rw [hv] at hq; exact Nat.le_trans h.1 hq
    | exhausted => trivial
  | failed c' => exact h
  | exhausted => trivial

/-- Seen from a cursor with the same next number. -/
theorem Numbers.of_eq (h : r.Numbers c' P) (hc : c'.nextId = c.nextId) : r.Numbers c P := by
  cases r with
  | ok v c'' => exact ⟨hc ▸ h.1, h.2⟩
  | failed c'' => exact Nat.le_trans (Nat.le_of_eq hc.symm) h
  | exhausted => trivial

end Reply

namespace Cursor

variable {c c' : Cursor} {t : Token} {kind : TokenKind}

theorem accept?_nextId (h : c.accept? kind = some (t, c')) : c'.nextId = c.nextId := by
  unfold accept? at h
  split at h
  · cases h
  · split at h
    · cases h; rfl
    · cases h

theorem missing_numbers {α : Type} {P : α → Cursor → Prop} (c : Cursor) (what : Expected) :
    (c.missing what : Reply α).Numbers c P := Nat.le_refl _

theorem expect_numbers (c : Cursor) (kind : TokenKind) (what : Expected) :
    (c.expect kind what).Numbers c fun _ c' => c'.nextId = c.nextId := by
  unfold expect
  split
  · rename_i t c' h
    have hc := accept?_nextId h
    exact ⟨Nat.le_of_eq hc.symm, hc⟩
  · exact c.missing_numbers what

theorem noteIf_nextId (c : Cursor) (p : Prop) [Decidable p] (problem : Problem) :
    (if p then c.note problem else c).nextId = c.nextId := by
  split <;> rfl

end Cursor

/-- The value has distinct numbers from `lo` on. -/
def NumberedFrom {α : Type} (ids : α → List Nat) (lo : Nat) (v : α) (c : Cursor) : Prop :=
  Numbered lo c.nextId (ids v)

/-- A node whose parts are numbered gets the next number. -/
theorem node_numbers {α : Type} {ids : α → List Nat} {make : Nat → α} {c : Cursor} {lo : Nat}
    {parts : List Nat} (hmake : ∀ id, ids (make id) = id :: parts) (hlo : lo ≤ c.nextId)
    (h : Numbered lo c.nextId parts) : (c.node make).Numbers c (NumberedFrom ids lo) := by
  refine ⟨Nat.le_succ _, ?_⟩
  show Numbered lo (c.nextId + 1) (ids (make c.nextId))
  rw [hmake]
  exact h.cons hlo

/-! ## Expressions -/

theorem join_ids (joiner : Joiner) (left right : Expr) (op : Token) (id : Nat) :
    (joiner.join left op right id).ids = id :: (left.ids ++ right.ids) := by
  cases joiner <;> simp [Joiner.join]

/-- The target of an assignment gives up its own number. -/
theorem assignTo_numbers {target value : Expr} {equals : Token} {lo mid : Nat} {c : Cursor}
    (htarget : Numbered lo mid target.ids) (hvalue : Numbered mid c.nextId value.ids)
    (hlo : lo ≤ mid) (hmid : mid ≤ c.nextId) :
    (assignTo target equals value c).Numbers c (NumberedFrom Expr.ids lo) := by
  unfold assignTo
  split
  · rename_i id name
    exact node_numbers (fun id => Expr.ids_assign id name value) (by omega)
      (hvalue.mono hlo (Nat.le_refl _))
  · rename_i id object name
    have hobject : Numbered lo mid object.ids :=
      htarget.sublist (by rw [Expr.ids_get]; exact List.sublist_cons_self _ _)
    exact node_numbers (fun id => Expr.ids_set id object value name) (by omega)
      (hobject.append hvalue hlo hmid)
  · exact .ok (Nat.le_refl _) (htarget.mono (Nat.le_refl _) hmid)

mutual

theorem assignment_numbers : ∀ (n : Nat) (c : Cursor),
    (assignment n c).Numbers c (NumberedFrom Expr.ids c.nextId)
  | 0, _ => trivial
  | n + 1, c => by
    unfold assignment
    refine (tier_numbers n .or c).bind fun target c₁ hc₁ htarget => ?_
    split
    · exact .ok (Nat.le_refl _) htarget
    · rename_i equals c₂ heq
      have hc₂ := Cursor.accept?_nextId heq
      refine ((assignment_numbers n c₂).of_eq hc₂).bind fun value c₃ hc₃ hvalue => ?_
      rw [hc₂] at hvalue
      exact assignTo_numbers htarget hvalue hc₁ hc₃

theorem tier_numbers : ∀ (n : Nat) (level : Tier) (c : Cursor),
    (tier n level c).Numbers c (NumberedFrom Expr.ids c.nextId)
  | 0, _, _ => trivial
  | n + 1, level, c => by
    unfold tier
    refine (operand_numbers n level c).bind fun left c₁ hc₁ hleft => ?_
    exact tierTail_numbers n level left c₁ c.nextId hc₁ hleft

theorem operand_numbers : ∀ (n : Nat) (level : Tier) (c : Cursor),
    (operand n level c).Numbers c (NumberedFrom Expr.ids c.nextId)
  | 0, _, _ => trivial
  | n + 1, level, c => by
    unfold operand
    split
    · exact tier_numbers n _ c
    · exact unary_numbers n c

theorem tierTail_numbers : ∀ (n : Nat) (level : Tier) (left : Expr) (c : Cursor) (lo : Nat),
    lo ≤ c.nextId → Numbered lo c.nextId left.ids →
    (tierTail n level left c).Numbers c (NumberedFrom Expr.ids lo)
  | 0, _, _, _, _, _, _ => trivial
  | n + 1, level, left, c, lo, hlo, hleft => by
    unfold tierTail
    split
    · exact .ok (Nat.le_refl _) hleft
    · rename_i t rest hr
      split
      · exact .ok (Nat.le_refl _) hleft
      · rename_i joiner _
        refine ((operand_numbers n level { c with rest }).of_eq rfl).bind fun right c₁ hc₁ hright => ?_
        refine (node_numbers (join_ids joiner left right t) (Nat.le_trans hlo hc₁)
          (hleft.append hright hlo hc₁)).bind fun joined c₂ hc₂ hjoined => ?_
        exact tierTail_numbers n level joined c₂ lo (Nat.le_trans hlo (Nat.le_trans hc₁ hc₂)) hjoined

theorem unary_numbers : ∀ (n : Nat) (c : Cursor),
    (unary n c).Numbers c (NumberedFrom Expr.ids c.nextId)
  | 0, _ => trivial
  | n + 1, c => by
    unfold unary
    split
    · exact callChain_numbers n c
    · rename_i t rest hr
      split
      · refine ((unary_numbers n { c with rest }).of_eq rfl).bind fun inner c₁ hc₁ hinner => ?_
        exact node_numbers (fun id => Expr.ids_unary id t inner) hc₁ hinner
      · exact callChain_numbers n c

theorem callChain_numbers : ∀ (n : Nat) (c : Cursor),
    (callChain n c).Numbers c (NumberedFrom Expr.ids c.nextId)
  | 0, _ => trivial
  | n + 1, c => by
    unfold callChain
    refine (primary_numbers n c).bind fun e c₁ hc₁ he => ?_
    exact callTail_numbers n e c₁ c.nextId hc₁ he

theorem callTail_numbers : ∀ (n : Nat) (e : Expr) (c : Cursor) (lo : Nat), lo ≤ c.nextId →
    Numbered lo c.nextId e.ids → (callTail n e c).Numbers c (NumberedFrom Expr.ids lo)
  | 0, _, _, _, _, _ => trivial
  | n + 1, e, c, lo, hlo, he => by
    unfold callTail
    split
    · rename_i t c₁ heq
      have hc₁ := Cursor.accept?_nextId heq
      refine ((arguments_numbers n c₁).of_eq hc₁).bind fun args c₂ hc₂ hargs => ?_
      refine (c₂.expect_numbers _ _).bind fun paren c₃ _ hc₃ => ?_
      rw [NumberedFrom, hc₁, ← hc₃] at hargs
      rw [← hc₃] at hc₂
      refine (node_numbers (fun id => Expr.ids_call id e paren args) (by omega)
        (he.append hargs hlo hc₂)).bind fun e' c₄ hc₄ he' => ?_
      exact callTail_numbers n e' c₄ lo (by omega) he'
    · split
      · rename_i t c₁ heq
        have hc₁ := Cursor.accept?_nextId heq
        refine ((c₁.expect_numbers _ _).of_eq hc₁).bind fun name c₂ _ hc₂ => ?_
        rw [hc₁] at hc₂
        refine (node_numbers (fun id => Expr.ids_get id e name) (by omega)
          (hc₂ ▸ he)).bind fun e' c₃ hc₃ he' => ?_
        exact callTail_numbers n e' c₃ lo (by omega) he'
      · exact .ok (Nat.le_refl _) he

theorem arguments_numbers : ∀ (n : Nat) (c : Cursor),
    (arguments n c).Numbers c (NumberedFrom argIds c.nextId)
  | 0, _ => trivial
  | n + 1, c => by
    unfold arguments
    split
    · exact .ok (Nat.le_refl _) .nil
    · exact argumentList_numbers n 0 c

theorem argumentList_numbers : ∀ (n count : Nat) (c : Cursor),
    (argumentList n count c).Numbers c (NumberedFrom argIds c.nextId)
  | 0, _, _ => trivial
  | n + 1, count, c => by
    have hnote := c.noteIf_nextId (maxArguments ≤ count) .tooManyArguments
    unfold argumentList
    refine ((assignment_numbers n _).of_eq hnote).bind fun e c₁ hc₁ he => ?_
    rw [hnote] at he
    split
    · exact .ok (Nat.le_refl _) (by simpa [NumberedFrom] using he)
    · rename_i t c₂ heq
      have hc₂ := Cursor.accept?_nextId heq
      refine ((argumentList_numbers n (count + 1) c₂).of_eq hc₂).bind fun es c₃ hc₃ hes => ?_
      rw [NumberedFrom, hc₂] at hes
      refine .ok (Nat.le_refl _) ?_
      rw [NumberedFrom, argIds_cons]
      exact he.append hes hc₁ hc₃

theorem primary_numbers : ∀ (n : Nat) (c : Cursor),
    (primary n c).Numbers c (NumberedFrom Expr.ids c.nextId)
  | 0, _ => trivial
  | n + 1, c => by
    have hleaf : ∀ (rest : List Token) (make : Nat → Expr), (∀ id, (make id).ids = [id]) →
        (Cursor.node { c with rest } make).Numbers c (NumberedFrom Expr.ids c.nextId) :=
      fun rest make hmake =>
        (node_numbers (c := { c with rest }) hmake (Nat.le_refl _) .nil).of_eq rfl
    unfold primary
    split
    · exact c.missing_numbers _
    · rename_i t rest hr
      simp only
      split
      · exact hleaf rest _ fun _ => rfl
      · exact hleaf rest _ fun _ => rfl
      · exact hleaf rest _ fun _ => rfl
      · exact hleaf rest _ fun _ => rfl
      · exact hleaf rest _ fun _ => rfl
      · refine ((Cursor.expect_numbers { c with rest } _ _).of_eq rfl).bind fun _ c₁ _ hc₁ => ?_
        refine (c₁.expect_numbers _ _).bind fun method c₂ _ hc₂ => ?_
        exact node_numbers (fun id => Expr.ids_super id t method) (Nat.le_of_eq (hc₂.trans hc₁).symm)
          .nil
      · exact hleaf rest _ fun _ => rfl
      · exact hleaf rest _ fun _ => rfl
      · refine ((assignment_numbers n { c with rest }).of_eq rfl).bind fun inner c₁ hc₁ hinner => ?_
        refine (c₁.expect_numbers _ _).bind fun _ c₂ _ hc₂ => ?_
        exact node_numbers (fun id => Expr.ids_grouping id inner) (hc₂ ▸ hc₁) (hc₂ ▸ hinner)
      · exact c.missing_numbers _

end

theorem expression_numbers (c : Cursor) :
    (expression c).Numbers c (NumberedFrom Expr.ids c.nextId) :=
  assignment_numbers _ c

/-! ## Parts of statements -/

theorem variableDecl_numbers (c : Cursor) :
    (variableDecl c).Numbers c (NumberedFrom Stmt.ids c.nextId) := by
  unfold variableDecl
  refine (c.expect_numbers _ _).bind fun name c₁ _ hc₁ => ?_
  split
  · refine (c₁.expect_numbers _ _).bind fun _ c₂ _ hc₂ => ?_
    exact node_numbers (fun id => Stmt.ids_declare id name none) (by omega) .nil
  · rename_i equals c₂ heq
    have hc₂ := Cursor.accept?_nextId heq
    refine ((expression_numbers c₂).of_eq hc₂).bind fun value c₃ hc₃ hvalue => ?_
    refine (c₃.expect_numbers _ _).bind fun _ c₄ _ hc₄ => ?_
    rw [NumberedFrom, hc₂, hc₁, ← hc₄] at hvalue
    exact node_numbers (fun id => Stmt.ids_declare id name (some value)) (by omega) hvalue

theorem expressionStmt_numbers (c : Cursor) :
    (expressionStmt c).Numbers c (NumberedFrom Stmt.ids c.nextId) := by
  unfold expressionStmt
  refine (expression_numbers c).bind fun value c₁ hc₁ hvalue => ?_
  refine (c₁.expect_numbers _ _).bind fun _ c₂ _ hc₂ => ?_
  exact node_numbers (fun id => Stmt.ids_expression id value) (hc₂ ▸ hc₁) (hc₂ ▸ hvalue)

theorem optionalExpression_numbers (c : Cursor) (closer : TokenKind) :
    (optionalExpression c closer).Numbers c (NumberedFrom (optionIds Expr.ids) c.nextId) := by
  unfold optionalExpression
  split
  · exact .ok (Nat.le_refl _) .nil
  · refine (expression_numbers c).bind fun value c₁ hc₁ hvalue => ?_
    exact .ok (Nat.le_refl _) hvalue

theorem parameterList_numbers : ∀ (n count : Nat) (c : Cursor),
    (parameterList n count c).Numbers c fun _ c' => c'.nextId = c.nextId
  | 0, _, _ => trivial
  | n + 1, count, c => by
    have hnote := c.noteIf_nextId (maxArguments ≤ count) .tooManyParameters
    unfold parameterList
    refine ((Cursor.expect_numbers _ _ _).of_eq hnote).bind fun name c₁ _ hc₁ => ?_
    rw [hnote] at hc₁
    split
    · exact .ok (Nat.le_refl _) hc₁
    · rename_i t c₂ heq
      have hc₂ := Cursor.accept?_nextId heq
      refine ((parameterList_numbers n (count + 1) c₂).of_eq hc₂).bind fun names c₃ _ hc₃ => ?_
      exact .ok (Nat.le_refl _) (hc₃.trans (hc₂.trans hc₁))

theorem parameters_numbers (c : Cursor) :
    (parameters c).Numbers c fun _ c' => c'.nextId = c.nextId := by
  unfold parameters
  split
  · exact .ok (Nat.le_refl _) rfl
  · exact parameterList_numbers _ 0 c

theorem superclassClause_numbers (c : Cursor) : (superclassClause c).Numbers c
    (NumberedFrom (optionIds fun s : Superclass => [s.id]) c.nextId) := by
  unfold superclassClause
  split
  · exact .ok (Nat.le_refl _) .nil
  · rename_i t c₁ heq
    have hc₁ := Cursor.accept?_nextId heq
    refine ((c₁.expect_numbers _ _).of_eq hc₁).bind fun name c₂ _ hc₂ => ?_
    exact node_numbers (fun id => rfl) (by omega) .nil

theorem forStart_numbers (c : Cursor) :
    (forStart c).Numbers c (NumberedFrom (optionIds Stmt.ids) c.nextId) := by
  unfold forStart
  split
  · rename_i t c₁ heq
    have hc₁ := Cursor.accept?_nextId heq
    exact .ok (Nat.le_of_eq hc₁.symm) .nil
  · split
    · rename_i t c₁ heq
      have hc₁ := Cursor.accept?_nextId heq
      refine ((variableDecl_numbers c₁).of_eq hc₁).bind fun s c₂ hc₂ hs => ?_
      exact .ok (Nat.le_refl _) (hc₁ ▸ hs)
    · refine (expressionStmt_numbers c).bind fun s c₁ hc₁ hs => ?_
      exact .ok (Nat.le_refl _) hs

/-- The numbers of a `for`, those of its parts in the order in which they were read. -/
theorem forLoop_numbers {start : Option Stmt} {cond increment : Option Expr} {body : Stmt}
    {c : Cursor} {lo : Nat} (hlo : lo ≤ c.nextId)
    (h : Numbered lo c.nextId (optionIds Stmt.ids start ++ (optionIds Expr.ids cond ++
      (optionIds Expr.ids increment ++ body.ids)))) :
    (forLoop start cond increment body c).Numbers c (NumberedFrom Stmt.ids lo) := by
  have hbody : (withIncrement body increment c).Numbers c fun body c' =>
      Numbered lo c'.nextId (optionIds Stmt.ids start ++ (optionIds Expr.ids cond ++ body.ids)) := by
    cases increment with
    | none => exact .ok (Nat.le_refl _) h
    | some value =>
      refine ⟨by simp only; omega, ?_⟩
      refine ((h.cons hlo).cons (by omega)).perm ?_
      simp only [optionIds, Stmt.ids_block, Stmt.ids_expression, bodyIds_cons, bodyIds_nil,
        List.append_nil]
      grind
  unfold forLoop
  refine hbody.bind fun body c₁ hc₁ hbody => ?_
  have hcond : (forCondition cond c₁).Numbers c₁ fun cond c' =>
      Numbered lo c'.nextId (optionIds Stmt.ids start ++ (cond.ids ++ body.ids)) := by
    cases cond with
    | none =>
      refine ⟨Nat.le_succ _, (hbody.cons (by omega)).perm ?_⟩
      simp only [optionIds, Expr.ids_literal]
      grind
    | some cond => exact .ok (Nat.le_refl _) hbody
  refine hcond.bind fun cond c₂ hc₂ hcond => ?_
  have hloop : (c₂.node fun id => Stmt.loop id cond body).Numbers c₂ fun loop c' =>
      Numbered lo c'.nextId (optionIds Stmt.ids start ++ loop.ids) := by
    refine ⟨Nat.le_succ _, (hcond.cons (by omega)).perm ?_⟩
    simp only [Stmt.ids_loop]
    grind
  refine hloop.bind fun loop c₃ hc₃ hloop => ?_
  cases start with
  | none => exact .ok (Nat.le_refl _) hloop
  | some start =>
    refine ⟨Nat.le_succ _, (hloop.cons (by omega)).perm ?_⟩
    simp only [optionIds, Stmt.ids_block, bodyIds_cons, bodyIds_nil, List.append_nil]
    exact .refl _

/-! ## Statements -/

theorem Cursor.synchronize_nextId (c : Cursor) : c.synchronize.nextId = c.nextId := by
  unfold synchronize
  split <;> rfl

mutual

theorem declaration_numbers : ∀ (n : Nat) (c : Cursor),
    (declaration n c).Numbers c (NumberedFrom Stmt.ids c.nextId)
  | 0, _ => trivial
  | n + 1, c => by
    have hrule := declarationRule_numbers n c
    unfold declaration
    split
    · rename_i heq
      rw [heq] at hrule
      exact hrule
    · rename_i c₁ heq
      rw [heq] at hrule
      have hc₁ := c₁.synchronize_nextId
      exact .ok (Nat.le_trans hrule (Nat.le_of_eq hc₁.symm)) .nil
    · trivial

theorem declarationRule_numbers : ∀ (n : Nat) (c : Cursor),
    (declarationRule n c).Numbers c (NumberedFrom Stmt.ids c.nextId)
  | 0, _ => trivial
  | n + 1, c => by
    unfold declarationRule
    split
    · rename_i t c₁ heq
      have hc₁ := Cursor.accept?_nextId heq
      exact hc₁ ▸ (classRule_numbers n c₁).of_eq hc₁
    · split
      · rename_i t c₁ heq
        have hc₁ := Cursor.accept?_nextId heq
        refine ((functionRule_numbers n .function c₁).of_eq hc₁).bind fun f c₂ hc₂ hf => ?_
        exact .ok (Nat.le_refl _) (hc₁ ▸ hf)
      · split
        · rename_i t c₁ heq
          have hc₁ := Cursor.accept?_nextId heq
          exact hc₁ ▸ (variableDecl_numbers c₁).of_eq hc₁
        · exact statement_numbers n c

theorem classRule_numbers : ∀ (n : Nat) (c : Cursor),
    (classRule n c).Numbers c (NumberedFrom Stmt.ids c.nextId)
  | 0, _ => trivial
  | n + 1, c => by
    unfold classRule
    refine (c.expect_numbers _ _).bind fun name c₁ _ hc₁ => ?_
    refine (superclassClause_numbers c₁).bind fun superclass c₂ hc₂ hsuper => ?_
    refine (c₂.expect_numbers _ _).bind fun _ c₃ _ hc₃ => ?_
    refine (methodList_numbers n c₃).bind fun methods c₄ hc₄ hmethods => ?_
    refine (c₄.expect_numbers _ _).bind fun _ c₅ _ hc₅ => ?_
    rw [NumberedFrom, hc₁, ← hc₃] at hsuper
    rw [NumberedFrom, ← hc₅] at hmethods
    exact node_numbers (fun id => Stmt.ids_classDecl id name superclass methods) (by omega)
      (hsuper.append hmethods (by omega) (by omega))

theorem methodList_numbers : ∀ (n : Nat) (c : Cursor),
    (methodList n c).Numbers c (NumberedFrom methodIds c.nextId)
  | 0, _ => trivial
  | n + 1, c => by
    unfold methodList
    split
    · exact .ok (Nat.le_refl _) .nil
    · refine (functionRule_numbers n .method c).bind fun f c₁ hc₁ hf => ?_
      refine (methodList_numbers n c₁).bind fun fs c₂ hc₂ hfs => ?_
      refine .ok (Nat.le_refl _) ?_
      rw [NumberedFrom, methodIds_cons]
      exact hf.append hfs hc₁ hc₂

theorem functionRule_numbers : ∀ (n : Nat) (what : Callable) (c : Cursor),
    (functionRule n what c).Numbers c (NumberedFrom functionIds c.nextId)
  | 0, _, _ => trivial
  | n + 1, what, c => by
    unfold functionRule
    refine (c.expect_numbers _ _).bind fun name c₁ _ hc₁ => ?_
    refine (c₁.expect_numbers _ _).bind fun _ c₂ _ hc₂ => ?_
    refine (parameters_numbers c₂).bind fun params c₃ _ hc₃ => ?_
    refine (c₃.expect_numbers _ _).bind fun _ c₄ _ hc₄ => ?_
    refine (c₄.expect_numbers _ _).bind fun _ c₅ _ hc₅ => ?_
    refine (blockRule_numbers n c₅).bind fun body c₆ hc₆ hbody => ?_
    rw [NumberedFrom, hc₅, hc₄, hc₃, hc₂, hc₁] at hbody
    exact node_numbers (fun id => functionIds_mk id name params body) (by omega) hbody

theorem blockRule_numbers : ∀ (n : Nat) (c : Cursor),
    (blockRule n c).Numbers c (NumberedFrom bodyIds c.nextId)
  | 0, _ => trivial
  | n + 1, c => by
    unfold blockRule
    refine (blockItems_numbers n c).bind fun body c₁ hc₁ hbody => ?_
    refine (c₁.expect_numbers _ _).bind fun _ c₂ _ hc₂ => ?_
    rw [NumberedFrom, ← hc₂] at hbody
    exact .ok (Nat.le_refl _) hbody

theorem blockItems_numbers : ∀ (n : Nat) (c : Cursor),
    (blockItems n c).Numbers c (NumberedFrom bodyIds c.nextId)
  | 0, _ => trivial
  | n + 1, c => by
    unfold blockItems
    split
    · exact .ok (Nat.le_refl _) .nil
    · refine (declaration_numbers n c).bind fun s c₁ hc₁ hs => ?_
      refine (blockItems_numbers n c₁).bind fun ss c₂ hc₂ hss => ?_
      refine .ok (Nat.le_refl _) ?_
      rw [NumberedFrom, bodyIds_cons]
      exact hs.append hss hc₁ hc₂

theorem statement_numbers : ∀ (n : Nat) (c : Cursor),
    (statement n c).Numbers c (NumberedFrom Stmt.ids c.nextId)
  | 0, _ => trivial
  | n + 1, c => by
    unfold statement
    split
    · exact expressionStmt_numbers c
    · rename_i t rest hr
      simp only
      generalize hafter : Cursor.mk rest c.stop c.nextId c.found = after
      have h₁ : after.nextId = c.nextId := by rw [← hafter]
      split
      · exact h₁ ▸ (forRule_numbers n after).of_eq h₁
      · exact h₁ ▸ (ifRule_numbers n after).of_eq h₁
      · refine ((expression_numbers after).of_eq h₁).bind fun value c₂ hc₂ hvalue => ?_
        refine (c₂.expect_numbers _ _).bind fun _ c₃ _ hc₃ => ?_
        rw [NumberedFrom, h₁, ← hc₃] at hvalue
        exact node_numbers (fun id => Stmt.ids_print id value) (by omega) hvalue
      · refine ((optionalExpression_numbers after _).of_eq h₁).bind fun value c₂ hc₂ hvalue => ?_
        refine (c₂.expect_numbers _ _).bind fun _ c₃ _ hc₃ => ?_
        rw [NumberedFrom, h₁, ← hc₃] at hvalue
        exact node_numbers (fun id => Stmt.ids_ret id t value) (by omega) hvalue
      · exact h₁ ▸ (whileRule_numbers n after).of_eq h₁
      · refine ((blockRule_numbers n after).of_eq h₁).bind fun body c₂ hc₂ hbody => ?_
        rw [NumberedFrom, h₁] at hbody
        exact node_numbers (fun id => Stmt.ids_block id body) hc₂ hbody
      · exact expressionStmt_numbers c

theorem forRule_numbers : ∀ (n : Nat) (c : Cursor),
    (forRule n c).Numbers c (NumberedFrom Stmt.ids c.nextId)
  | 0, _ => trivial
  | n + 1, c => by
    unfold forRule
    refine (c.expect_numbers _ _).bind fun _ c₁ _ hc₁ => ?_
    refine (forStart_numbers c₁).bind fun start c₂ hc₂ hstart => ?_
    refine (optionalExpression_numbers c₂ _).bind fun cond c₃ hc₃ hcond => ?_
    refine (c₃.expect_numbers _ _).bind fun _ c₄ _ hc₄ => ?_
    refine (optionalExpression_numbers c₄ _).bind fun increment c₅ hc₅ hincrement => ?_
    refine (c₅.expect_numbers _ _).bind fun _ c₆ _ hc₆ => ?_
    refine (statement_numbers n c₆).bind fun body c₇ hc₇ hbody => ?_
    rw [NumberedFrom, hc₁] at hstart
    rw [NumberedFrom, ← hc₄] at hcond
    rw [NumberedFrom, ← hc₆] at hincrement
    exact forLoop_numbers (by omega) (hstart.append (hcond.append (hincrement.append hbody
      (by omega) (by omega)) (by omega) (by omega)) (by omega) (by omega))

theorem ifRule_numbers : ∀ (n : Nat) (c : Cursor),
    (ifRule n c).Numbers c (NumberedFrom Stmt.ids c.nextId)
  | 0, _ => trivial
  | n + 1, c => by
    unfold ifRule
    refine (c.expect_numbers _ _).bind fun _ c₁ _ hc₁ => ?_
    refine (expression_numbers c₁).bind fun cond c₂ hc₂ hcond => ?_
    refine (c₂.expect_numbers _ _).bind fun _ c₃ _ hc₃ => ?_
    refine (statement_numbers n c₃).bind fun thenBranch c₄ hc₄ hthen => ?_
    rw [NumberedFrom, hc₁, ← hc₃] at hcond
    have hparts := hcond.append hthen (by omega) (by omega)
    split
    · refine node_numbers (fun id => Stmt.ids_conditional id cond thenBranch none) (by omega) ?_
      simpa [optionIds] using hparts
    · rename_i t c₅ heq
      have hc₅ := Cursor.accept?_nextId heq
      refine ((statement_numbers n c₅).of_eq hc₅).bind fun elseBranch c₆ hc₆ helse => ?_
      rw [NumberedFrom, hc₅] at helse
      exact node_numbers (fun id => Stmt.ids_conditional id cond thenBranch (some elseBranch))
        (by omega) (hparts.append helse (by omega) (by omega))

theorem whileRule_numbers : ∀ (n : Nat) (c : Cursor),
    (whileRule n c).Numbers c (NumberedFrom Stmt.ids c.nextId)
  | 0, _ => trivial
  | n + 1, c => by
    unfold whileRule
    refine (c.expect_numbers _ _).bind fun _ c₁ _ hc₁ => ?_
    refine (expression_numbers c₁).bind fun cond c₂ hc₂ hcond => ?_
    refine (c₂.expect_numbers _ _).bind fun _ c₃ _ hc₃ => ?_
    refine (statement_numbers n c₃).bind fun body c₄ hc₄ hbody => ?_
    rw [NumberedFrom, hc₁, ← hc₃] at hcond
    exact node_numbers (fun id => Stmt.ids_loop id cond body) (by omega)
      (hcond.append hbody (by omega) (by omega))

end

theorem programItems_numbers : ∀ (n : Nat) (c : Cursor),
    (programItems n c).Numbers c (NumberedFrom bodyIds c.nextId)
  | 0, _ => trivial
  | n + 1, c => by
    unfold programItems
    split
    · exact .ok (Nat.le_refl _) .nil
    · refine (declaration_numbers _ c).bind fun s c₁ hc₁ hs => ?_
      refine (programItems_numbers n c₁).bind fun ss c₂ hc₂ hss => ?_
      refine .ok (Nat.le_refl _) ?_
      rw [NumberedFrom, bodyIds_cons]
      exact hs.append hss hc₁ hc₂

/-- **The nodes of a program have distinct numbers, from the first free one to the next.** -/
theorem read_numbered (tokens : List Token) (stop : Token) (firstId : Nat) :
    firstId ≤ (Program.read tokens stop firstId).nextId ∧
      Numbered firstId (Program.read tokens stop firstId).nextId
        (bodyIds (Program.read tokens stop firstId).stmts) := by
  have hnumbers := programItems_numbers (tokens.length + 1) ⟨tokens, stop, firstId, []⟩
  unfold Program.read
  cases hread : programItems (tokens.length + 1) ⟨tokens, stop, firstId, []⟩ with
  | ok stmts c => rw [hread] at hnumbers; exact hnumbers
  | failed c => rw [hread] at hnumbers; exact ⟨hnumbers, .nil⟩
  | exhausted => exact ⟨Nat.le_refl _, .nil⟩

end LoxLang
