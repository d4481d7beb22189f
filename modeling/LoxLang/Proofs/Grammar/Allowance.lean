import LoxLang.Proofs.Grammar.Reading

/-!
# Allowances are enough

Every rule that gives a value has read at least as many tokens as it needs, so the tokens that are
left bound how many rules can still be nested.  The allowances of expressions, of declarations and
of whole programs are never used up, whatever the tokens are.

Principal results: `expression_lasts`, `declaration_lasts`, `programItems_lasts`.
-/

namespace LoxLang

namespace Reply

variable {α β : Type} {r : Reply α} {f : α → Cursor → Reply β} {c c' : Cursor} {j k : Nat}

/-- The allowance is enough, and a value costs at least `k` of the tokens at `c`. -/
def Lasts (r : Reply α) (c : Cursor) (k : Nat) : Prop :=
  match r with
  | ok _ c' => c'.rest.length + k ≤ c.rest.length
  | failed c' => c'.rest.length ≤ c.rest.length
  | exhausted => False

theorem Lasts.ok {v : α} (h : c'.rest.length + k ≤ c.rest.length) : (Reply.ok v c').Lasts c k := h

/-- Seen from an earlier cursor. -/
theorem Lasts.before (h : r.Lasts c' k) (hc : c'.rest.length ≤ c.rest.length)
    (hk : c'.rest.length + j ≤ c.rest.length + k) : r.Lasts c j := by
  cases r with
  | ok v c'' => simp only [Lasts] at h ⊢; omega
  | failed c'' => simp only [Lasts] at h ⊢; omega
  | exhausted => exact h

theorem Lasts.bind (h : r.Lasts c k)
    (hf : ∀ v c', c'.rest.length + k ≤ c.rest.length → (f v c').Lasts c j) :
    (r.bind f).Lasts c j := by
  cases r with
  | ok v c' => exact hf v c' h
  | failed c' => exact h
  | exhausted => exact h

theorem Lasts.ne_exhausted (h : r.Lasts c k) : r ≠ .exhausted := by
  rintro rfl
  exact h

end Reply

namespace Cursor

variable {c c' : Cursor} {t : Token} {kind : TokenKind}

theorem accept?_length (h : c.accept? kind = some (t, c')) :
    c'.rest.length + 1 = c.rest.length := by
  simp [(accept?_eq_some h).2.rest]

theorem missing_lasts {α : Type} (c : Cursor) (what : Expected) (k : Nat) :
    (c.missing what : Reply α).Lasts c k := Nat.le_refl _

theorem expect_lasts (c : Cursor) (kind : TokenKind) (what : Expected) :
    (c.expect kind what).Lasts c 1 := by
  unfold expect
  split
  · rename_i t c' h
    exact Nat.le_of_eq (accept?_length h)
  · exact c.missing_lasts what 1

theorem node_lasts {α : Type} {k : Nat} {c₀ : Cursor} (make : Nat → α)
    (h : c.rest.length + k ≤ c₀.rest.length) : (c.node make).Lasts c₀ k := h

theorem noteIf_length (c : Cursor) (p : Prop) [Decidable p] (problem : Problem) :
    (if p then c.note problem else c).rest.length = c.rest.length := by
  split <;> rfl

end Cursor

/-! ## Expressions -/

/-- How many rules may be nested around an operand of this tier before a token is read. -/
def Tier.depth : Tier → Nat
  | .or => 14
  | .and => 12
  | .equality => 10
  | .comparison => 8
  | .term => 6
  | .factor => 4

theorem Tier.depth_le (level : Tier) : level.depth ≤ 14 := by cases level <;> decide

theorem Tier.depth_tighter {level tighter : Tier} (h : level.tighter? = some tighter) :
    tighter.depth + 2 = level.depth := by
  cases level <;> cases h <;> rfl

theorem Tier.depth_innermost {level : Tier} (h : level.tighter? = none) : level.depth = 4 := by
  cases level <;> cases h
  rfl

theorem assignTo_lasts {c c₀ : Cursor} {k : Nat} (target : Expr) (equals : Token) (value : Expr)
    (h : c.rest.length + k ≤ c₀.rest.length) : (assignTo target equals value c).Lasts c₀ k := by
  unfold assignTo
  split
  · exact h
  · exact h
  · exact h

-- A token pays for twenty rules, more than can be nested before one is read.
mutual

theorem assignment_lasts : ∀ (n : Nat) (c : Cursor), 20 * c.rest.length + 16 ≤ n →
    (assignment n c).Lasts c 1
  | 0, _, h => by omega
  | n + 1, c, h => by
    unfold assignment
    refine (tier_lasts n .or c (by simp only [Tier.depth]; omega)).bind fun target c₁ h₁ => ?_
    split
    · exact .ok h₁
    · rename_i equals c₂ heq
      have h₂ := Cursor.accept?_length heq
      refine ((assignment_lasts n c₂ (by omega)).before (j := 1) (by omega) (by omega)).bind
        fun value c₃ h₃ => ?_
      exact assignTo_lasts target equals value (by omega)

theorem tier_lasts : ∀ (n : Nat) (level : Tier) (c : Cursor),
    20 * c.rest.length + level.depth + 1 ≤ n → (tier n level c).Lasts c 1
  | 0, _, _, h => by omega
  | n + 1, level, c, h => by
    unfold tier
    refine (operand_lasts n level c (by omega)).bind fun left c₁ h₁ => ?_
    exact (tierTail_lasts n level left c₁ (by omega)).before (by omega) (by omega)

theorem operand_lasts : ∀ (n : Nat) (level : Tier) (c : Cursor),
    20 * c.rest.length + level.depth ≤ n → (operand n level c).Lasts c 1
  | 0, level, _, h => by cases level <;> simp only [Tier.depth] at h <;> omega
  | n + 1, level, c, h => by
    unfold operand
    split
    · rename_i tighter heq
      have hdepth := Tier.depth_tighter heq
      exact tier_lasts n tighter c (by omega)
    · rename_i heq
      have hdepth := Tier.depth_innermost heq
      exact unary_lasts n c (by omega)

theorem tierTail_lasts : ∀ (n : Nat) (level : Tier) (left : Expr) (c : Cursor),
    20 * c.rest.length + 1 ≤ n → (tierTail n level left c).Lasts c 0
  | 0, _, _, _, h => by omega
  | n + 1, level, left, c, h => by
    have hdepth := level.depth_le
    unfold tierTail
    split
    · exact .ok (Nat.le_refl _)
    · rename_i t rest hr
      rw [hr, List.length_cons] at h
      split
      · exact .ok (Nat.le_refl _)
      · have hright := operand_lasts n level { c with rest } (by show 20 * rest.length + _ ≤ n; omega)
        refine (hright.before (j := 2) (by simp [hr]) (by simp [hr])).bind fun right c₁ h₁ => ?_
        rw [hr, List.length_cons] at h₁
        refine (Cursor.node_lasts (k := 2) _ (by simp [hr]; omega)).bind fun joined c₂ h₂ => ?_
        rw [hr, List.length_cons] at h₂
        exact (tierTail_lasts n level joined c₂ (by omega)).before (by simp [hr]; omega)
          (by simp [hr]; omega)

theorem unary_lasts : ∀ (n : Nat) (c : Cursor), 20 * c.rest.length + 3 ≤ n →
    (unary n c).Lasts c 1
  | 0, _, h => by omega
  | n + 1, c, h => by
    unfold unary
    split
    · exact callChain_lasts n c (by omega)
    · rename_i t rest hr
      split
      · rw [hr, List.length_cons] at h
        have hinner := unary_lasts n { c with rest } (by show 20 * rest.length + _ ≤ n; omega)
        refine (hinner.before (j := 1) (by simp [hr]) (by simp [hr])).bind fun inner c₁ h₁ => ?_
        exact c₁.node_lasts _ h₁
      · exact callChain_lasts n c (by omega)

theorem callChain_lasts : ∀ (n : Nat) (c : Cursor), 20 * c.rest.length + 2 ≤ n →
    (callChain n c).Lasts c 1
  | 0, _, h => by omega
  | n + 1, c, h => by
    unfold callChain
    refine (primary_lasts n c (by omega)).bind fun e c₁ h₁ => ?_
    exact (callTail_lasts n e c₁ (by omega)).before (by omega) (by omega)

theorem callTail_lasts : ∀ (n : Nat) (e : Expr) (c : Cursor), 20 * c.rest.length + 1 ≤ n →
    (callTail n e c).Lasts c 0
  | 0, _, _, h => by omega
  | n + 1, e, c, h => by
    unfold callTail
    split
    · rename_i t c₁ heq
      have h₁ := Cursor.accept?_length heq
      refine ((arguments_lasts n c₁ (by omega)).before (j := 1) (by omega) (by omega)).bind
        fun args c₂ h₂ => ?_
      refine ((c₂.expect_lasts _ _).before (j := 1) (by omega) (by omega)).bind fun paren c₃ h₃ => ?_
      refine (c₃.node_lasts (k := 1) _ (by omega)).bind fun e c₄ h₄ => ?_
      exact (callTail_lasts n e c₄ (by omega)).before (by omega) (by omega)
    · split
      · rename_i t c₁ heq
        have h₁ := Cursor.accept?_length heq
        refine ((c₁.expect_lasts _ _).before (j := 1) (by omega) (by omega)).bind
          fun name c₂ h₂ => ?_
        refine (c₂.node_lasts (k := 1) _ (by omega)).bind fun e c₃ h₃ => ?_
        exact (callTail_lasts n e c₃ (by omega)).before (by omega) (by omega)
      · exact .ok (Nat.le_refl _)

theorem arguments_lasts : ∀ (n : Nat) (c : Cursor), 20 * c.rest.length + 18 ≤ n →
    (arguments n c).Lasts c 0
  | 0, _, h => by omega
  | n + 1, c, h => by
    unfold arguments
    split
    · exact .ok (Nat.le_refl _)
    · exact (argumentList_lasts n 0 c (by omega)).before (by omega) (by omega)

theorem argumentList_lasts : ∀ (n count : Nat) (c : Cursor), 20 * c.rest.length + 17 ≤ n →
    (argumentList n count c).Lasts c 1
  | 0, _, _, h => by omega
  | n + 1, count, c, h => by
    have hnote := c.noteIf_length (maxArguments ≤ count) .tooManyArguments
    unfold argumentList
    refine ((assignment_lasts n _ (by omega)).before (j := 1) (by omega) (by omega)).bind
      fun e c₁ h₁ => ?_
    split
    · exact .ok h₁
    · rename_i t c₂ heq
      have h₂ := Cursor.accept?_length heq
      refine ((argumentList_lasts n (count + 1) c₂ (by omega)).before (j := 1) (by omega)
        (by omega)).bind fun es c₃ h₃ => ?_
      exact .ok h₃

theorem primary_lasts : ∀ (n : Nat) (c : Cursor), 20 * c.rest.length + 1 ≤ n →
    (primary n c).Lasts c 1
  | 0, _, h => by omega
  | n + 1, c, h => by
    unfold primary
    split
    · exact c.missing_lasts _ 1
    · rename_i t rest hr
      have hlen : rest.length + 1 = c.rest.length := by simp [hr]
      have hnode : ∀ make : Nat → Expr, (Cursor.node { c with rest } make).Lasts c 1 :=
        fun make => Cursor.node_lasts make (Nat.le_of_eq hlen)
      simp only
      split
      · exact hnode _
      · exact hnode _
      · exact hnode _
      · exact hnode _
      · exact hnode _
      · refine ((Cursor.expect_lasts { c with rest } _ _).before (j := 1) (by simp [hr])
          (by simp [hr])).bind fun _ c₁ h₁ => ?_
        refine ((c₁.expect_lasts _ _).before (j := 1) (by omega) (by omega)).bind
          fun method c₂ h₂ => ?_
        exact c₂.node_lasts _ h₂
      · exact hnode _
      · exact hnode _
      · have hinner := assignment_lasts n { c with rest } (by show 20 * rest.length + _ ≤ n; omega)
        refine (hinner.before (j := 1) (by simp [hr]) (by simp [hr])).bind fun inner c₁ h₁ => ?_
        refine ((c₁.expect_lasts _ _).before (j := 1) (by omega) (by omega)).bind fun _ c₂ h₂ => ?_
        exact c₂.node_lasts _ h₂
      · exact c.missing_lasts _ 1

end

/-- **The allowance of an expression is never used up.** -/
theorem expression_lasts (c : Cursor) : (expression c).Lasts c 1 :=
  assignment_lasts _ c (by unfold expressionAllowance; omega)

/-! ## Parts of statements -/

theorem variableDecl_lasts (c : Cursor) : (variableDecl c).Lasts c 1 := by
  unfold variableDecl
  refine (c.expect_lasts _ _).bind fun name c₁ h₁ => ?_
  split
  · refine ((c₁.expect_lasts _ _).before (j := 1) (by omega) (by omega)).bind fun _ c₂ h₂ => ?_
    exact c₂.node_lasts _ h₂
  · rename_i equals c₂ heq
    have h₂ := Cursor.accept?_length heq
    refine ((expression_lasts c₂).before (j := 1) (by omega) (by omega)).bind fun value c₃ h₃ => ?_
    refine ((c₃.expect_lasts _ _).before (j := 1) (by omega) (by omega)).bind fun _ c₄ h₄ => ?_
    exact c₄.node_lasts _ h₄

theorem expressionStmt_lasts (c : Cursor) : (expressionStmt c).Lasts c 1 := by
  unfold expressionStmt
  refine (expression_lasts c).bind fun value c₁ h₁ => ?_
  refine ((c₁.expect_lasts _ _).before (j := 1) (by omega) (by omega)).bind fun _ c₂ h₂ => ?_
  exact c₂.node_lasts _ h₂

theorem optionalExpression_lasts (c : Cursor) (closer : TokenKind) :
    (optionalExpression c closer).Lasts c 0 := by
  unfold optionalExpression
  split
  · exact .ok (Nat.le_refl _)
  · refine (expression_lasts c).bind fun value c₁ h₁ => ?_
    exact .ok (by omega)

theorem parameterList_lasts : ∀ (n count : Nat) (c : Cursor), c.rest.length + 1 ≤ n →
    (parameterList n count c).Lasts c 1
  | 0, _, _, h => by omega
  | n + 1, count, c, h => by
    have hnote := c.noteIf_length (maxArguments ≤ count) .tooManyParameters
    unfold parameterList
    refine ((Cursor.expect_lasts _ _ _).before (j := 1) (by omega) (by omega)).bind
      fun name c₁ h₁ => ?_
    split
    · exact .ok h₁
    · rename_i t c₂ heq
      have h₂ := Cursor.accept?_length heq
      refine ((parameterList_lasts n (count + 1) c₂ (by omega)).before (j := 1) (by omega)
        (by omega)).bind fun names c₃ h₃ => ?_
      exact .ok h₃

theorem parameters_lasts (c : Cursor) : (parameters c).Lasts c 0 := by
  unfold parameters
  split
  · exact .ok (Nat.le_refl _)
  · exact (parameterList_lasts _ 0 c (Nat.le_refl _)).before (by omega) (by omega)

theorem superclassClause_lasts (c : Cursor) : (superclassClause c).Lasts c 0 := by
  unfold superclassClause
  split
  · exact .ok (Nat.le_refl _)
  · rename_i t c₁ heq
    have h₁ := Cursor.accept?_length heq
    refine ((c₁.expect_lasts _ _).before (j := 0) (by omega) (by omega)).bind fun name c₂ h₂ => ?_
    exact c₂.node_lasts _ h₂

theorem forStart_lasts (c : Cursor) : (forStart c).Lasts c 0 := by
  unfold forStart
  split
  · rename_i t c₁ heq
    have h₁ := Cursor.accept?_length heq
    exact .ok (by omega)
  · split
    · rename_i t c₁ heq
      have h₁ := Cursor.accept?_length heq
      refine ((variableDecl_lasts c₁).before (j := 0) (by omega) (by omega)).bind fun s c₂ h₂ => ?_
      exact .ok h₂
    · refine (expressionStmt_lasts c).bind fun s c₁ h₁ => ?_
      exact .ok (by omega)

theorem forLoop_lasts {c c₀ : Cursor} {k : Nat} (start : Option Stmt) (cond increment : Option Expr)
    (body : Stmt) (h : c.rest.length + k ≤ c₀.rest.length) :
    (forLoop start cond increment body c).Lasts c₀ k := by
  cases increment <;> cases cond <;> cases start <;> exact h

/-- Skipping reads a token, if there is one. -/
theorem Cursor.skipFrom_length : ∀ (last : Token) (ts : List Token),
    (skipFrom last ts).length ≤ ts.length
  | _, [] => Nat.le_refl _
  | last, t :: ts => by
    unfold skipFrom
    split
    · exact Nat.le_refl _
    · have := skipFrom_length t ts
      simp only [List.length_cons]
      omega

theorem Cursor.synchronize_length {c : Cursor} {k : Nat} (h : c.rest.length ≤ k) (hk : 0 < k) :
    c.synchronize.rest.length + 1 ≤ k := by
  unfold synchronize
  split
  · rename_i hr
    simp only [hr, List.length_nil]
    omega
  · rename_i t rest hr
    have := skipFrom_length t rest
    rw [hr, List.length_cons] at h
    show (skipFrom t rest).length + 1 ≤ k
    omega

/-! ## Statements -/

mutual

theorem declaration_lasts : ∀ (n : Nat) (c : Cursor), 10 * c.rest.length + 4 ≤ n →
    0 < c.rest.length → (declaration n c).Lasts c 1
  | 0, _, h, _ => by omega
  | n + 1, c, h, hc => by
    have hrule := declarationRule_lasts n c (by omega)
    unfold declaration
    split
    · rename_i heq
      rw [heq] at hrule
      exact hrule
    · rename_i c₁ heq
      rw [heq] at hrule
      exact .ok (Cursor.synchronize_length hrule hc)
    · rename_i heq
      exact hrule.ne_exhausted heq

theorem declarationRule_lasts : ∀ (n : Nat) (c : Cursor), 10 * c.rest.length + 3 ≤ n →
    (declarationRule n c).Lasts c 1
  | 0, _, h => by omega
  | n + 1, c, h => by
    unfold declarationRule
    split
    · rename_i t c₁ heq
      have h₁ := Cursor.accept?_length heq
      exact (classRule_lasts n c₁ (by omega)).before (by omega) (by omega)
    · split
      · rename_i t c₁ heq
        have h₁ := Cursor.accept?_length heq
        refine ((functionRule_lasts n .function c₁ (by omega)).before (j := 1) (by omega)
          (by omega)).bind fun f c₂ h₂ => ?_
        exact .ok h₂
      · split
        · rename_i t c₁ heq
          have h₁ := Cursor.accept?_length heq
          exact (variableDecl_lasts c₁).before (by omega) (by omega)
        · exact statement_lasts n c (by omega)

theorem classRule_lasts : ∀ (n : Nat) (c : Cursor), 10 * c.rest.length + 1 ≤ n →
    (classRule n c).Lasts c 1
  | 0, _, h => by omega
  | n + 1, c, h => by
    unfold classRule
    refine (c.expect_lasts _ _).bind fun name c₁ h₁ => ?_
    refine ((superclassClause_lasts c₁).before (j := 1) (by omega) (by omega)).bind
      fun superclass c₂ h₂ => ?_
    refine ((c₂.expect_lasts _ _).before (j := 1) (by omega) (by omega)).bind fun _ c₃ h₃ => ?_
    refine ((methodList_lasts n c₃ (by omega)).before (j := 1) (by omega) (by omega)).bind
      fun methods c₄ h₄ => ?_
    refine ((c₄.expect_lasts _ _).before (j := 1) (by omega) (by omega)).bind fun _ c₅ h₅ => ?_
    exact c₅.node_lasts _ h₅

theorem methodList_lasts : ∀ (n : Nat) (c : Cursor), 10 * c.rest.length + 2 ≤ n →
    (methodList n c).Lasts c 0
  | 0, _, h => by omega
  | n + 1, c, h => by
    unfold methodList
    split
    · exact .ok (Nat.le_refl _)
    · refine (functionRule_lasts n .method c (by omega)).bind fun f c₁ h₁ => ?_
      refine ((methodList_lasts n c₁ (by omega)).before (j := 0) (by omega) (by omega)).bind
        fun fs c₂ h₂ => ?_
      exact .ok h₂

theorem functionRule_lasts : ∀ (n : Nat) (what : Callable) (c : Cursor),
    10 * c.rest.length + 1 ≤ n → (functionRule n what c).Lasts c 1
  | 0, _, _, h => by omega
  | n + 1, what, c, h => by
    unfold functionRule
    refine (c.expect_lasts _ _).bind fun name c₁ h₁ => ?_
    refine ((c₁.expect_lasts _ _).before (j := 1) (by omega) (by omega)).bind fun _ c₂ h₂ => ?_
    refine ((parameters_lasts c₂).before (j := 1) (by omega) (by omega)).bind fun params c₃ h₃ => ?_
    refine ((c₃.expect_lasts _ _).before (j := 1) (by omega) (by omega)).bind fun _ c₄ h₄ => ?_
    refine ((c₄.expect_lasts _ _).before (j := 1) (by omega) (by omega)).bind fun _ c₅ h₅ => ?_
    refine ((blockRule_lasts n c₅ (by omega)).before (j := 1) (by omega) (by omega)).bind
      fun body c₆ h₆ => ?_
    exact c₆.node_lasts _ h₆

theorem blockRule_lasts : ∀ (n : Nat) (c : Cursor), 10 * c.rest.length + 6 ≤ n →
    (blockRule n c).Lasts c 1
  | 0, _, h => by omega
  | n + 1, c, h => by
    unfold blockRule
    refine (blockItems_lasts n c (by omega)).bind fun body c₁ h₁ => ?_
    refine ((c₁.expect_lasts _ _).before (j := 1) (by omega) (by omega)).bind fun _ c₂ h₂ => ?_
    exact .ok h₂

theorem blockItems_lasts : ∀ (n : Nat) (c : Cursor), 10 * c.rest.length + 5 ≤ n →
    (blockItems n c).Lasts c 0
  | 0, _, h => by omega
  | n + 1, c, h => by
    unfold blockItems
    split
    · exact .ok (Nat.le_refl _)
    · rename_i hopen
      have hc : 0 < c.rest.length := by
        rw [List.length_pos_iff]
        intro hr
        simp [Cursor.atEnd, hr] at hopen
      refine (declaration_lasts n c (by omega) hc).bind fun s c₁ h₁ => ?_
      refine ((blockItems_lasts n c₁ (by omega)).before (j := 0) (by omega) (by omega)).bind
        fun ss c₂ h₂ => ?_
      exact .ok h₂

theorem statement_lasts : ∀ (n : Nat) (c : Cursor), 10 * c.rest.length + 2 ≤ n →
    (statement n c).Lasts c 1
  | 0, _, h => by omega
  | n + 1, c, h => by
    unfold statement
    split
    · exact expressionStmt_lasts c
    · rename_i t rest hr
      have hlen : rest.length + 1 = c.rest.length := by simp [hr]
      simp only
      generalize hafter : Cursor.mk rest c.stop c.nextId c.found = after
      have h₁ : after.rest.length + 1 = c.rest.length := by rw [← hafter]; exact hlen
      split
      · exact (forRule_lasts n after (by omega)).before (by omega) (by omega)
      · exact (ifRule_lasts n after (by omega)).before (by omega) (by omega)
      · refine ((expression_lasts after).before (j := 1) (by omega) (by omega)).bind
          fun value c₂ h₂ => ?_
        refine ((c₂.expect_lasts _ _).before (j := 1) (by omega) (by omega)).bind fun _ c₃ h₃ => ?_
        exact c₃.node_lasts _ h₃
      · refine ((optionalExpression_lasts after _).before (j := 1) (by omega) (by omega)).bind
          fun value c₂ h₂ => ?_
        refine ((c₂.expect_lasts _ _).before (j := 1) (by omega) (by omega)).bind fun _ c₃ h₃ => ?_
        exact c₃.node_lasts _ h₃
      · exact (whileRule_lasts n after (by omega)).before (by omega) (by omega)
      · refine ((blockRule_lasts n after (by omega)).before (j := 1) (by omega) (by omega)).bind
          fun body c₂ h₂ => ?_
        exact c₂.node_lasts _ h₂
      · exact expressionStmt_lasts c

theorem forRule_lasts : ∀ (n : Nat) (c : Cursor), 10 * c.rest.length + 1 ≤ n →
    (forRule n c).Lasts c 1
  | 0, _, h => by omega
  | n + 1, c, h => by
    unfold forRule
    refine (c.expect_lasts _ _).bind fun _ c₁ h₁ => ?_
    refine ((forStart_lasts c₁).before (j := 1) (by omega) (by omega)).bind fun start c₂ h₂ => ?_
    refine ((optionalExpression_lasts c₂ _).before (j := 1) (by omega) (by omega)).bind
      fun cond c₃ h₃ => ?_
    refine ((c₃.expect_lasts _ _).before (j := 1) (by omega) (by omega)).bind fun _ c₄ h₄ => ?_
    refine ((optionalExpression_lasts c₄ _).before (j := 1) (by omega) (by omega)).bind
      fun increment c₅ h₅ => ?_
    refine ((c₅.expect_lasts _ _).before (j := 1) (by omega) (by omega)).bind fun _ c₆ h₆ => ?_
    refine ((statement_lasts n c₆ (by omega)).before (j := 1) (by omega) (by omega)).bind
      fun body c₇ h₇ => ?_
    exact forLoop_lasts start cond increment body h₇

theorem ifRule_lasts : ∀ (n : Nat) (c : Cursor), 10 * c.rest.length + 1 ≤ n →
    (ifRule n c).Lasts c 1
  | 0, _, h => by omega
  | n + 1, c, h => by
    unfold ifRule
    refine (c.expect_lasts _ _).bind fun _ c₁ h₁ => ?_
    refine ((expression_lasts c₁).before (j := 1) (by omega) (by omega)).bind fun cond c₂ h₂ => ?_
    refine ((c₂.expect_lasts _ _).before (j := 1) (by omega) (by omega)).bind fun _ c₃ h₃ => ?_
    refine ((statement_lasts n c₃ (by omega)).before (j := 1) (by omega) (by omega)).bind
      fun thenBranch c₄ h₄ => ?_
    split
    · exact c₄.node_lasts _ h₄
    · rename_i t c₅ heq
      have h₅ := Cursor.accept?_length heq
      refine ((statement_lasts n c₅ (by omega)).before (j := 1) (by omega) (by omega)).bind
        fun elseBranch c₆ h₆ => ?_
      exact c₆.node_lasts _ h₆

theorem whileRule_lasts : ∀ (n : Nat) (c : Cursor), 10 * c.rest.length + 1 ≤ n →
    (whileRule n c).Lasts c 1
  | 0, _, h => by omega
  | n + 1, c, h => by
    unfold whileRule
    refine (c.expect_lasts _ _).bind fun _ c₁ h₁ => ?_
    refine ((expression_lasts c₁).before (j := 1) (by omega) (by omega)).bind fun cond c₂ h₂ => ?_
    refine ((c₂.expect_lasts _ _).before (j := 1) (by omega) (by omega)).bind fun _ c₃ h₃ => ?_
    refine ((statement_lasts n c₃ (by omega)).before (j := 1) (by omega) (by omega)).bind
      fun body c₄ h₄ => ?_
    exact c₄.node_lasts _ h₄

end

/-- **The allowances of a program are never used up.** -/
theorem programItems_lasts : ∀ (n : Nat) (c : Cursor), c.rest.length + 1 ≤ n →
    (programItems n c).Lasts c 0
  | 0, _, h => by omega
  | n + 1, c, h => by
    unfold programItems
    split
    · exact .ok (Nat.le_refl _)
    · rename_i hend
      have hc : 0 < c.rest.length := by
        rw [List.length_pos_iff]
        intro hr
        simp [Cursor.atEnd, hr] at hend
      have hdecl := declaration_lasts (declarationAllowance c.rest.length) c
        (by unfold declarationAllowance; omega) hc
      refine hdecl.bind fun s c₁ h₁ => ?_
      refine ((programItems_lasts n c₁ (by omega)).before (j := 0) (by omega) (by omega)).bind
        fun ss c₂ h₂ => ?_
      exact .ok h₂

end LoxLang
