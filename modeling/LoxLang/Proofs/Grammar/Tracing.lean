import LoxLang.Proofs.Grammar.Calls
import LoxLang.Proofs.Grammar.Reading

/-!
# Every rule goes on

What a rule does to the cursor, whether it gives a value or fails, and what happens in the calls
that it makes: the cursor only moves on and stays within the tokens, every call that is made comes
to an end, and where rules fail is on record.  Each failure lies behind the one before it, unless
both are at the end of the input.

`Traces` says this of the way between two cursors, `Reply.Traced` of the reply of a rule.
Principal results: `declaration_traced`, `programItems_traced`, `RuleCall.opens`.
-/

namespace LoxLang

/-! ## Cursors and failures -/

/-- The second cursor stands in the same tokens, not before the first. -/
structure Cursor.Onward (c c' : Cursor) : Prop where
  rest : c'.rest <:+ c.rest
  stop : c'.stop = c.stop

/-- The second cursor stands behind the first, unless both stand at the end. -/
def Cursor.Before (c c' : Cursor) : Prop :=
  c'.rest.length < c.rest.length ∨ c.rest = [] ∧ c'.rest = []

/-- The line and the place of the token at which a cursor stands. -/
def Cursor.spot (c : Cursor) : Nat × Place :=
  (c.peek.line, Place.ofLexeme c.peek.kind c.peek.lexeme)

/-- The line and the place of a problem that made a rule fail: something else was expected. -/
def Diagnostic.failure? (d : Diagnostic) : Option (Nat × Place) :=
  match d.problem with
  | .expected _ => some (d.line, d.place)
  | _ => none

/-- Where rules failed, by the problems on record. -/
def failureSpots (found : List Diagnostic) : List (Nat × Place) :=
  found.filterMap Diagnostic.failure?

namespace Cursor

variable {c c₁ c₂ : Cursor}

theorem Onward.refl (c : Cursor) : c.Onward c := ⟨List.suffix_refl _, rfl⟩

theorem Onward.trans (h : c.Onward c₁) (h' : c₁.Onward c₂) : c.Onward c₂ :=
  ⟨h'.rest.trans h.rest, h'.stop.trans h.stop⟩

theorem Before.onward (h : c.Before c₁) (h' : c₁.Onward c₂) : c.Before c₂ := by
  have hlength := h'.rest.length_le
  rcases h with hlt | ⟨hend, hend₁⟩
  · exact .inl (by omega)
  · have hsuffix := h'.rest
    rw [hend₁, List.suffix_nil] at hsuffix
    exact .inr ⟨hend, hsuffix⟩

end Cursor

open RuleCall (Raises)

/-- What happens between two cursors while these calls are made and at least `k` tokens are read. -/
structure Traces (c c' : Cursor) (k : Nat) (xs : List RuleCall) : Prop where
  onward : c.Onward c'
  length : c'.rest.length + k ≤ c.rest.length
  calls : ∀ sub ∈ xs, c.Onward sub.cursor ∧ sub.after?.isSome
  failures : ∃ es, Raises xs es ∧
    failureSpots c'.found = failureSpots c.found ++ es.map Cursor.spot ∧
    es.Pairwise Cursor.Before ∧ ∀ e ∈ es, c.Onward e ∧ e.Before c'

namespace Traces

variable {c c₁ c₂ : Cursor} {j k : Nat} {xs ys : List RuleCall}

/-- Only the cursor moves on. -/
theorem quiet (honward : c.Onward c₁) (hlength : c₁.rest.length + k ≤ c.rest.length)
    (hfound : failureSpots c₁.found = failureSpots c.found) : Traces c c₁ k [] where
  onward := honward
  length := hlength
  calls := by simp
  failures := ⟨[], .none, by simp [hfound], .nil, by simp⟩

theorem refl (c : Cursor) : Traces c c 0 [] := .quiet (.refl c) (Nat.le_refl _) rfl

theorem trans (h : Traces c c₁ j xs) (h' : Traces c₁ c₂ (k - j) ys) :
    Traces c c₂ k (xs ++ ys) where
  onward := h.onward.trans h'.onward
  length := by
    have hfirst := h.length
    have hsecond := h'.length
    omega
  calls := by
    intro sub hsub
    rcases List.mem_append.1 hsub with hmem | hmem
    · exact h.calls sub hmem
    · obtain ⟨honward, hends⟩ := h'.calls sub hmem
      exact ⟨h.onward.trans honward, hends⟩
  failures := by
    obtain ⟨es, hes, hspots, horder, hplaces⟩ := h.failures
    obtain ⟨fs, hfs, hspots', horder', hplaces'⟩ := h'.failures
    refine ⟨es ++ fs, hes.append hfs, ?_, ?_, ?_⟩
    · rw [hspots', hspots, List.map_append, List.append_assoc]
    · rw [List.pairwise_append]
      refine ⟨horder, horder', ?_⟩
      -- what fails later, fails not before the cursor in the middle
      intro e he f hf
      exact (hplaces e he).2.onward (hplaces' f hf).1
    · intro e he
      rcases List.mem_append.1 he with hmem | hmem
      · exact ⟨(hplaces e hmem).1, (hplaces e hmem).2.onward h'.onward⟩
      · exact ⟨h.onward.trans (hplaces' e hmem).1, (hplaces' e hmem).2⟩

theorem mono (h : Traces c c₁ k xs) (hjk : j ≤ k) : Traces c c₁ j xs :=
  { h with length := Nat.le_trans (Nat.add_le_add_left hjk _) h.length }

/-- The calls that a call makes, seen as that one call. -/
theorem single {call : RuleCall} (h : Traces c c₁ k call.calls) (hcursor : call.cursor = c)
    (hafter : call.after?.isSome) (hcaught : call.caught = []) : Traces c c₁ k [call] where
  onward := h.onward
  length := h.length
  calls := by
    intro sub hsub
    rw [List.mem_singleton.1 hsub, hcursor]
    exact ⟨.refl c, hafter⟩
  failures := by
    obtain ⟨es, hes, hrest⟩ := h.failures
    exact ⟨es, hes.single hcaught, hrest⟩

end Traces

namespace Reply

variable {α β : Type} {r : Reply α} {f : α → Cursor → Reply β} {c c₁ : Cursor} {j k : Nat}
  {xs : List RuleCall} {x : RuleCall} {g : α → Cursor → List RuleCall}

/-- What a rule does that starts at `c`, makes these calls and reads at least `k` tokens if it gives
a value.  A failure is put on record where the rule stops. -/
def Traced (r : Reply α) (c : Cursor) (k : Nat) (xs : List RuleCall) : Prop :=
  match r with
  | ok _ c' => Traces c c' k xs
  | failed c' => ∃ c₁ what, Traces c c₁ 0 xs ∧ c' = c₁.note (.expected what)
  | exhausted => True

/-- Seen from an earlier cursor. -/
theorem Traced.after {ys : List RuleCall} (h : Traces c c₁ j xs)
    (hr : r.Traced c₁ (k - j) ys) :
    r.Traced c k (xs ++ ys) := by
  cases r with
  | ok v c₂ => exact h.trans hr
  | failed c₂ =>
    obtain ⟨c₃, what, hfailed, rfl⟩ := hr
    exact ⟨c₃, what, (h.mono (Nat.zero_le _)).trans hfailed, rfl⟩
  | exhausted => trivial

namespace Traced

theorem mono (h : r.Traced c k xs) (hjk : j ≤ k) : r.Traced c j xs := by
  cases r with
  | ok v c' => exact h.mono hjk
  | failed c' => exact h
  | exhausted => trivial

theorem append_bind (h : r.Traced c j xs) (hf : ∀ v c', (f v c').Traced c' (k - j) (g v c')) :
    (r.bind f).Traced c k (xs ++ r.andThen g) := by
  cases r with
  | ok v c' => exact Traced.after h (hf v c')
  | failed c' =>
    obtain ⟨c₁, what, hfailed, rfl⟩ := h
    exact ⟨c₁, what, by rw [andThen, List.append_nil]; exact hfailed, rfl⟩
  | exhausted => trivial

/-- First a part that makes no calls. -/
theorem bind (h : r.Traced c j []) (hf : ∀ v c', (f v c').Traced c' (k - j) (g v c')) :
    (r.bind f).Traced c k (r.andThen g) := h.append_bind hf

/-- First a single call. -/
theorem call_bind (h : r.Traced c j [x]) (hf : ∀ v c', (f v c').Traced c' (k - j) (g v c')) :
    (r.bind f).Traced c k (x :: r.andThen g) := h.append_bind hf

/-- At last a part that makes no calls. -/
theorem bind_last (h : r.Traced c j xs) (hf : ∀ v c', (f v c').Traced c' (k - j) []) :
    (r.bind f).Traced c k xs := by
  have hboth := h.append_bind hf
  have hnone : (r.andThen fun _ _ => ([] : List RuleCall)) = [] := by cases r <;> rfl
  rwa [hnone, List.append_nil] at hboth

/-- The calls that a call makes, seen as that one call. -/
theorem call {call : RuleCall} (h : r.Traced c k call.calls) (hcursor : call.cursor = c)
    (hafter : call.after? = r.cursor?) (hcaught : call.caught = []) : r.Traced c k [call] := by
  cases r with
  | ok v c' => exact h.single hcursor (by rw [hafter]; rfl) hcaught
  | failed c' =>
    obtain ⟨c₁, what, hfailed, rfl⟩ := h
    exact ⟨c₁, what, hfailed.single hcursor (by rw [hafter]; rfl) hcaught, rfl⟩
  | exhausted => trivial

/-- The cursor moves on, and every call that is made comes to an end, if the rule does. -/
theorem opens (h : r.Traced c k xs) (hr : r.cursor? = some c₁) :
    c.Onward c₁ ∧ ∀ sub ∈ xs, c.Onward sub.cursor ∧ sub.after?.isSome := by
  cases r with
  | ok v c' =>
    cases hr
    exact ⟨Traces.onward h, Traces.calls h⟩
  | failed c' =>
    cases hr
    obtain ⟨c₂, what, hfailed, rfl⟩ := h
    exact ⟨⟨hfailed.onward.rest, hfailed.onward.stop⟩, hfailed.calls⟩
  | exhausted => cases hr

theorem ok {v : α} : (Reply.ok v c).Traced c 0 [] := Traces.refl c

/-- A token is read first. -/
theorem read {t : Token} {rest : List Token} (hc : c.rest = t :: rest)
    (hr : r.Traced { c with rest } (k - 1) xs) : r.Traced c k xs := by
  have hstep : Traces c { c with rest } 1 [] := by
    refine .quiet ⟨?_, rfl⟩ ?_ rfl
    · rw [hc]
      exact List.suffix_cons t rest
    · rw [hc]
      exact Nat.le_refl _
  exact Traced.after hstep hr

theorem accept {t : Token} {kind : TokenKind} (hc : c.accept? kind = some (t, c₁))
    (hr : r.Traced c₁ (k - 1) xs) : r.Traced c k xs := by
  unfold Cursor.accept? at hc
  cases hrest : c.rest with
  | nil => rw [hrest] at hc; cases hc
  | cons t' rest =>
    rw [hrest] at hc
    simp only at hc
    split at hc
    · cases hc
      exact .read hrest hr
    · cases hc

/-- A problem that makes no rule fail is put on record first. -/
theorem noteIf (p : Prop) [Decidable p] (problem : Problem)
    (hproblem : ∀ what, problem ≠ .expected what)
    (hr : r.Traced (if p then c.note problem else c) k xs) : r.Traced c k xs := by
  refine Traced.after (Traces.quiet (k := 0) ?_ ?_ ?_) hr
  · split
    · exact ⟨List.suffix_refl _, rfl⟩
    · exact .refl c
  · split <;> exact Nat.le_refl _
  · split
    · cases problem <;>
        simp_all [failureSpots, Cursor.note, Diagnostic.failure?, Diagnostic.ofToken]
    · rfl

end Traced

end Reply

open Reply (Traced)

namespace Cursor

theorem node_traced {α : Type} (c : Cursor) (make : Nat → α) : (c.node make).Traced c 0 [] :=
  Traces.quiet ⟨List.suffix_refl _, rfl⟩ (Nat.le_refl _) rfl

theorem missing_traced {α : Type} (c : Cursor) (what : Expected) (k : Nat) :
    (c.missing what : Reply α).Traced c k [] := ⟨c, what, .refl c, rfl⟩

theorem expect_traced (c : Cursor) (kind : TokenKind) (what : Expected) :
    (c.expect kind what).Traced c 1 [] := by
  unfold expect
  cases h : c.accept? kind with
  | none => exact c.missing_traced what 1
  | some p => exact .accept h .ok

end Cursor

/-! ## Expressions -/

theorem assignTo_traced (target : Expr) (equals : Token) (value : Expr) (c : Cursor) :
    (assignTo target equals value c).Traced c 0 [] := by
  unfold assignTo
  split
  · exact c.node_traced _
  · exact c.node_traced _
  · refine Traces.quiet ⟨List.suffix_refl _, rfl⟩ (Nat.le_refl _) ?_
    simp [failureSpots, Cursor.noteAt, Diagnostic.failure?, Diagnostic.ofToken]

mutual

theorem assignment_traced : ∀ (n : Nat) (c : Cursor),
    (assignment n c).Traced c 1 (RuleCall.calls ⟨.assignment n, c⟩)
  | 0, _ => trivial
  | n + 1, c => by
    rw [assignment, RuleCall.calls]
    refine ((tier_traced n .or c).call rfl rfl rfl).call_bind fun target c₁ => ?_
    cases heq : c₁.accept? .equal with
    | none => exact .ok
    | some p =>
      refine .accept heq ?_
      exact ((assignment_traced n p.2).call rfl rfl rfl).bind_last fun value c₂ =>
        assignTo_traced target p.1 value c₂

theorem tier_traced : ∀ (n : Nat) (level : Tier) (c : Cursor),
    (tier n level c).Traced c 1 (RuleCall.calls ⟨.tier n level, c⟩)
  | 0, _, _ => trivial
  | n + 1, level, c => by
    rw [tier, RuleCall.calls]
    refine ((operand_traced n level c).call rfl rfl rfl).call_bind fun left c₁ => ?_
    exact (tierTail_traced n level left c₁).call rfl rfl rfl

theorem operand_traced : ∀ (n : Nat) (level : Tier) (c : Cursor),
    (operand n level c).Traced c 1 (RuleCall.calls ⟨.operand n level, c⟩)
  | 0, _, _ => trivial
  | n + 1, level, c => by
    rw [operand, RuleCall.calls]
    cases level.tighter? with
    | some tighter => exact (tier_traced n tighter c).call rfl rfl rfl
    | none => exact (unary_traced n c).call rfl rfl rfl

theorem tierTail_traced : ∀ (n : Nat) (level : Tier) (left : Expr) (c : Cursor),
    (tierTail n level left c).Traced c 0 (RuleCall.calls ⟨.tierTail n level left, c⟩)
  | 0, _, _, _ => trivial
  | n + 1, level, left, c => by
    rw [tierTail, RuleCall.calls]
    cases hrest : c.rest with
    | nil => exact .ok
    | cons t rest =>
      simp only
      cases level.joiner? t.kind with
      | none => exact .ok
      | some joiner =>
        refine .read hrest ?_
        refine ((operand_traced n level { c with rest }).call rfl rfl rfl).call_bind
          fun right c₁ => ?_
        refine (c₁.node_traced _).bind fun joined c₂ => ?_
        exact (tierTail_traced n level joined c₂).call rfl rfl rfl

theorem unary_traced : ∀ (n : Nat) (c : Cursor),
    (unary n c).Traced c 1 (RuleCall.calls ⟨.unary n, c⟩)
  | 0, _ => trivial
  | n + 1, c => by
    rw [unary, RuleCall.calls]
    cases hrest : c.rest with
    | nil => exact (callChain_traced n c).call rfl rfl rfl
    | cons t rest =>
      simp only
      cases t.kind.isSign with
      | true =>
        refine .read hrest ?_
        exact ((unary_traced n { c with rest }).call rfl rfl rfl).bind_last fun inner c₁ =>
          c₁.node_traced _
      | false => exact (callChain_traced n c).call rfl rfl rfl

theorem callChain_traced : ∀ (n : Nat) (c : Cursor),
    (callChain n c).Traced c 1 (RuleCall.calls ⟨.callChain n, c⟩)
  | 0, _ => trivial
  | n + 1, c => by
    rw [callChain, RuleCall.calls]
    refine ((primary_traced n c).call rfl rfl rfl).call_bind fun e c₁ => ?_
    exact (callTail_traced n e c₁).call rfl rfl rfl

theorem callTail_traced : ∀ (n : Nat) (e : Expr) (c : Cursor),
    (callTail n e c).Traced c 0 (RuleCall.calls ⟨.callTail n e, c⟩)
  | 0, _, _ => trivial
  | n + 1, e, c => by
    rw [callTail, RuleCall.calls]
    cases hparen : c.accept? .leftParen with
    | some p =>
      refine .accept hparen ?_
      refine ((arguments_traced n p.2).call rfl rfl rfl).call_bind fun args c₁ => ?_
      refine (c₁.expect_traced _ _).bind fun paren c₂ => ?_
      refine (c₂.node_traced _).bind fun e c₃ => ?_
      exact (callTail_traced n e c₃).call rfl rfl rfl
    | none =>
      simp only
      cases hdot : c.accept? .dot with
      | some p =>
        refine .accept hdot ?_
        refine (p.2.expect_traced _ _).bind fun name c₁ => ?_
        refine (c₁.node_traced _).bind fun e c₂ => ?_
        exact (callTail_traced n e c₂).call rfl rfl rfl
      | none => exact .ok

theorem arguments_traced : ∀ (n : Nat) (c : Cursor),
    (arguments n c).Traced c 0 (RuleCall.calls ⟨.arguments n, c⟩)
  | 0, _ => trivial
  | n + 1, c => by
    rw [arguments, RuleCall.calls]
    split
    · exact .ok
    · exact ((argumentList_traced n 0 c).call rfl rfl rfl).mono (Nat.zero_le _)

theorem argumentList_traced : ∀ (n count : Nat) (c : Cursor),
    (argumentList n count c).Traced c 1 (RuleCall.calls ⟨.argumentList n count, c⟩)
  | 0, _, _ => trivial
  | n + 1, count, c => by
    rw [argumentList, RuleCall.calls]
    refine .noteIf (maxArguments ≤ count) .tooManyArguments (by simp) ?_
    refine ((assignment_traced n _).call rfl rfl rfl).call_bind fun e c₁ => ?_
    cases hcomma : c₁.accept? .comma with
    | none => exact .ok
    | some p =>
      refine .accept hcomma ?_
      exact ((argumentList_traced n (count + 1) p.2).call rfl rfl rfl).bind_last fun es c₂ => .ok

theorem primary_traced : ∀ (n : Nat) (c : Cursor),
    (primary n c).Traced c 1 (RuleCall.calls ⟨.primary n, c⟩)
  | 0, _ => trivial
  | n + 1, c => by
    rw [primary, RuleCall.calls]
    cases hrest : c.rest with
    | nil => exact c.missing_traced _ 1
    | cons t rest =>
      have hnode : ∀ make : Nat → Expr, (Cursor.node { c with rest } make).Traced c 1 [] :=
        fun make => .read hrest (Cursor.node_traced _ make)
      simp only
      by_cases hk : t.kind = .leftParen
      · rw [if_pos hk]
        simp only [hk]
        refine .read hrest ?_
        refine ((assignment_traced n { c with rest }).call rfl rfl rfl).bind_last fun inner c₁ => ?_
        exact (c₁.expect_traced _ _).bind_last fun _ c₂ => c₂.node_traced _
      · rw [if_neg hk]
        split
        · exact hnode _
        · exact hnode _
        · exact hnode _
        · exact hnode _
        · exact hnode _
        · refine .read hrest ?_
          refine (Cursor.expect_traced _ _ _).bind_last fun _ c₁ => ?_
          exact (c₁.expect_traced _ _).bind_last fun method c₂ => c₂.node_traced _
        · exact hnode _
        · exact hnode _
        · rename_i hparen
          exact absurd hparen hk
        · exact c.missing_traced _ 1

end

/-- The call for an expression. -/
theorem expression_traced (c : Cursor) :
    (expression c).Traced c 1 [RuleCall.forExpression c] :=
  (assignment_traced _ c).call rfl rfl rfl

/-! ## Parts of statements -/

theorem variableDecl_traced (c : Cursor) :
    (variableDecl c).Traced c 1 (RuleCall.calls ⟨.variableDecl, c⟩) := by
  rw [variableDecl, RuleCall.calls]
  refine (c.expect_traced _ _).bind fun name c₁ => ?_
  cases hequal : c₁.accept? .equal with
  | none => exact (c₁.expect_traced _ _).bind_last fun _ c₂ => c₂.node_traced _
  | some p =>
    refine .accept hequal ?_
    refine (expression_traced p.2).bind_last fun value c₂ => ?_
    exact (c₂.expect_traced _ _).bind_last fun _ c₃ => c₃.node_traced _

theorem expressionStmt_traced (c : Cursor) :
    (expressionStmt c).Traced c 1 (RuleCall.calls ⟨.expressionStmt, c⟩) := by
  rw [expressionStmt, RuleCall.calls]
  refine (expression_traced c).bind_last fun value c₁ => ?_
  exact (c₁.expect_traced _ _).bind_last fun _ c₂ => c₂.node_traced _

theorem optionalExpression_traced (c : Cursor) (closer : TokenKind) :
    (optionalExpression c closer).Traced c 0 (RuleCall.calls ⟨.optionalExpression closer, c⟩) := by
  rw [optionalExpression, RuleCall.calls]
  split
  · exact .ok
  · exact (expression_traced c).bind_last fun value c₁ => .ok

theorem parameterList_traced : ∀ (n count : Nat) (c : Cursor),
    (parameterList n count c).Traced c 1 (RuleCall.calls ⟨.parameterList n count, c⟩)
  | 0, _, _ => trivial
  | n + 1, count, c => by
    rw [parameterList, RuleCall.calls]
    refine .noteIf (maxArguments ≤ count) .tooManyParameters (by simp) ?_
    refine (Cursor.expect_traced _ _ _).bind fun name c₁ => ?_
    cases hcomma : c₁.accept? .comma with
    | none => exact .ok
    | some p =>
      refine .accept hcomma ?_
      refine ((parameterList_traced n (count + 1) p.2).call rfl rfl rfl).bind_last
        fun names c₂ => ?_
      exact .ok

theorem parameters_traced (c : Cursor) :
    (parameters c).Traced c 0 (RuleCall.calls ⟨.parameters, c⟩) := by
  rw [parameters, RuleCall.calls]
  split
  · exact .ok
  · exact ((parameterList_traced _ 0 c).call rfl rfl rfl).mono (Nat.zero_le _)

theorem superclassClause_traced (c : Cursor) :
    (superclassClause c).Traced c 0 (RuleCall.calls ⟨.superclassClause, c⟩) := by
  unfold superclassClause
  cases hless : c.accept? .less with
  | none => exact .ok
  | some p =>
    refine .accept hless ?_
    exact (p.2.expect_traced _ _).bind_last fun name c₁ => c₁.node_traced _

theorem forStart_traced (c : Cursor) :
    (forStart c).Traced c 0 (RuleCall.calls ⟨.forStart, c⟩) := by
  rw [forStart, RuleCall.calls]
  cases hsemicolon : c.accept? .semicolon with
  | some p => exact .accept hsemicolon .ok
  | none =>
    simp only
    cases hvar : c.accept? .kwVar with
    | some p =>
      refine .accept hvar ?_
      exact ((variableDecl_traced p.2).call rfl rfl rfl).bind_last fun s c₁ => .ok
    | none => exact ((expressionStmt_traced c).call rfl rfl rfl).bind_last fun s c₁ => .ok

theorem forLoop_traced (start : Option Stmt) (cond increment : Option Expr) (body : Stmt)
    (c : Cursor) : (forLoop start cond increment body c).Traced c 0 [] := by
  cases increment <;> cases cond <;> cases start <;>
    exact Traces.quiet ⟨List.suffix_refl _, rfl⟩ (Nat.le_refl _) rfl

/-! ## Statements -/

namespace Cursor

theorem skipFrom_suffix : ∀ (last : Token) (ts : List Token), skipFrom last ts <:+ ts
  | _, [] => List.suffix_refl _
  | last, t :: ts => by
    unfold skipFrom
    split
    · exact List.suffix_refl _
    · exact (skipFrom_suffix t ts).trans (List.suffix_cons t ts)

/-- Skipping goes on behind the failure, unless the input is at its end. -/
theorem synchronize_onward (c : Cursor) : c.Onward c.synchronize ∧ c.Before c.synchronize := by
  unfold synchronize
  split
  · rename_i hend
    exact ⟨.refl c, .inr ⟨hend, hend⟩⟩
  · rename_i t rest hrest
    have hsuffix := skipFrom_suffix t rest
    have hlength := hsuffix.length_le
    refine ⟨⟨?_, rfl⟩, .inl ?_⟩
    · rw [hrest]
      exact hsuffix.trans (List.suffix_cons t rest)
    · rw [hrest, List.length_cons]
      exact Nat.lt_succ_of_le hlength

end Cursor

/-- A declaration goes on behind the failure of its rule. -/
theorem declaration_of_rule {n k : Nat} {c : Cursor} (hk : k ≤ 1) (hc : k ≤ c.rest.length)
    (h : (declarationRule n c).Traced c 1 [⟨.declarationRule n, c⟩]) :
    (declaration (n + 1) c).Traced c k [⟨.declaration (n + 1), c⟩] := by
  have hafter : ∀ s c', declaration (n + 1) c = .ok s c' →
      (RuleCall.after? ⟨.declaration (n + 1), c⟩).isSome := by
    intro s c' heq
    simp [RuleCall.after?, heq, Reply.cursor?]
  rw [declaration] at hafter ⊢
  cases hrule : declarationRule n c with
  | ok s c' =>
    rw [hrule] at h hafter
    have hsingle : Traces c c' 1 [⟨.declaration (n + 1), c⟩] :=
      Traces.single h rfl (hafter s c' rfl) (by simp [RuleCall.caught, hrule])
    exact hsingle.mono hk
  | failed c' =>
    rw [hrule] at h hafter
    obtain ⟨c₁, what, htraces, rfl⟩ := h
    obtain ⟨honward, hbefore⟩ := (c₁.note (.expected what)).synchronize_onward
    obtain ⟨es, hes, hspots, horder, hplaces⟩ := htraces.failures
    have hlength := htraces.length
    have hcaught : RuleCall.caught ⟨.declaration (n + 1), c⟩ = [c₁.note (.expected what)] := by
      simp [RuleCall.caught, hrule]
    have hraises : Raises [⟨.declaration (n + 1), c⟩] (es ++ [c₁.note (.expected what)]) := by
      have hcall : Raises [⟨.declaration (n + 1), c⟩]
        (es ++ RuleCall.caught ⟨.declaration (n + 1), c⟩ ++ []) := .call hes .none
      rwa [hcaught, List.append_nil] at hcall
    -- the failed rule stops where its problem is on record
    have hmiddle : c.Onward (c₁.note (.expected what)) := ⟨htraces.onward.rest, htraces.onward.stop⟩
    refine ⟨hmiddle.trans honward, ?_, ?_, es ++ [c₁.note (.expected what)], hraises, ?_, ?_, ?_⟩
    · rcases hbefore with hlt | ⟨_, hend⟩
      · have hsame : (c₁.note (.expected what)).rest = c₁.rest := rfl
        rw [hsame] at hlt
        omega
      · rw [hend]
        simpa using hc
    · intro sub hsub
      rw [List.mem_singleton.1 hsub]
      exact ⟨.refl c, hafter _ _ rfl⟩
    · have hfound : (c₁.note (.expected what)).synchronize.found =
          c₁.found ++ [.ofToken c₁.peek (.expected what)] := by
        unfold Cursor.synchronize
        split <;> rfl
      rw [hfound, failureSpots, List.filterMap_append, ← failureSpots, hspots, List.map_append,
        List.append_assoc]
      rfl
    · rw [List.pairwise_append]
      refine ⟨horder, List.pairwise_singleton _ _, ?_⟩
      intro e he f hf
      rw [List.mem_singleton.1 hf]
      exact (hplaces e he).2
    · intro e he
      rcases List.mem_append.1 he with hmem | hmem
      · exact ⟨(hplaces e hmem).1, (hplaces e hmem).2.onward ⟨honward.rest, honward.stop⟩⟩
      · rw [List.mem_singleton.1 hmem]
        exact ⟨hmiddle, hbefore⟩
  | exhausted => trivial

mutual

theorem declaration_traced : ∀ (n : Nat) (c : Cursor) {k : Nat}, k ≤ 1 → k ≤ c.rest.length →
    (declaration n c).Traced c k [⟨.declaration n, c⟩]
  | 0, _, _, _, _ => trivial
  | n + 1, c, _, hk, hc =>
    declaration_of_rule hk hc ((declarationRule_traced n c).call rfl rfl rfl)

theorem declarationRule_traced : ∀ (n : Nat) (c : Cursor),
    (declarationRule n c).Traced c 1 (RuleCall.calls ⟨.declarationRule n, c⟩)
  | 0, _ => trivial
  | n + 1, c => by
    rw [declarationRule, RuleCall.calls]
    cases hclass : c.accept? .kwClass with
    | some p =>
      refine .accept hclass ?_
      exact ((classRule_traced n p.2).call rfl rfl rfl).mono (Nat.zero_le _)
    | none =>
      simp only
      cases hfun : c.accept? .kwFun with
      | some p =>
        refine .accept hfun ?_
        exact ((functionRule_traced n .function p.2).call rfl rfl rfl).bind_last fun f c₁ => .ok
      | none =>
        simp only
        cases hvar : c.accept? .kwVar with
        | some p =>
          refine .accept hvar ?_
          exact ((variableDecl_traced p.2).call rfl rfl rfl).mono (Nat.zero_le _)
        | none => exact (statement_traced n c).call rfl rfl rfl

theorem classRule_traced : ∀ (n : Nat) (c : Cursor),
    (classRule n c).Traced c 1 (RuleCall.calls ⟨.classRule n, c⟩)
  | 0, _ => trivial
  | n + 1, c => by
    rw [classRule, RuleCall.calls]
    refine (c.expect_traced _ _).bind fun name c₁ => ?_
    refine ((superclassClause_traced c₁).call rfl rfl rfl).call_bind fun superclass c₂ => ?_
    refine (c₂.expect_traced _ _).bind fun _ c₃ => ?_
    refine ((methodList_traced n c₃).call rfl rfl rfl).bind_last fun methods c₄ => ?_
    exact (c₄.expect_traced _ _).bind_last fun _ c₅ => c₅.node_traced _

theorem methodList_traced : ∀ (n : Nat) (c : Cursor),
    (methodList n c).Traced c 0 (RuleCall.calls ⟨.methodList n, c⟩)
  | 0, _ => trivial
  | n + 1, c => by
    rw [methodList, RuleCall.calls]
    split
    · exact .ok
    · refine ((functionRule_traced n .method c).call rfl rfl rfl).call_bind fun f c₁ => ?_
      exact ((methodList_traced n c₁).call rfl rfl rfl).bind_last fun fs c₂ => .ok

theorem functionRule_traced : ∀ (n : Nat) (what : Callable) (c : Cursor),
    (functionRule n what c).Traced c 1 (RuleCall.calls ⟨.functionRule n what, c⟩)
  | 0, _, _ => trivial
  | n + 1, what, c => by
    rw [functionRule, RuleCall.calls]
    refine (c.expect_traced _ _).bind fun name c₁ => ?_
    refine (c₁.expect_traced _ _).bind fun _ c₂ => ?_
    refine ((parameters_traced c₂).call rfl rfl rfl).call_bind fun params c₃ => ?_
    refine (c₃.expect_traced _ _).bind fun _ c₄ => ?_
    refine (c₄.expect_traced _ _).bind fun _ c₅ => ?_
    exact ((blockRule_traced n c₅).call rfl rfl rfl).bind_last fun body c₆ => c₆.node_traced _

theorem blockRule_traced : ∀ (n : Nat) (c : Cursor),
    (blockRule n c).Traced c 1 (RuleCall.calls ⟨.blockRule n, c⟩)
  | 0, _ => trivial
  | n + 1, c => by
    rw [blockRule, RuleCall.calls]
    refine ((blockItems_traced n c).call rfl rfl rfl).bind_last fun body c₁ => ?_
    exact (c₁.expect_traced _ _).bind_last fun _ c₂ => .ok

theorem blockItems_traced : ∀ (n : Nat) (c : Cursor),
    (blockItems n c).Traced c 0 (RuleCall.calls ⟨.blockItems n, c⟩)
  | 0, _ => trivial
  | n + 1, c => by
    rw [blockItems, RuleCall.calls]
    split
    · exact .ok
    · refine (declaration_traced n c (Nat.zero_le _) (Nat.zero_le _)).call_bind fun s c₁ => ?_
      exact ((blockItems_traced n c₁).call rfl rfl rfl).bind_last fun ss c₂ => .ok

theorem statement_traced : ∀ (n : Nat) (c : Cursor),
    (statement n c).Traced c 1 (RuleCall.calls ⟨.statement n, c⟩)
  | 0, _ => trivial
  | n + 1, c => by
    rw [statement, RuleCall.calls]
    cases hrest : c.rest with
    | nil => exact (expressionStmt_traced c).call rfl rfl rfl
    | cons t rest =>
      simp only
      cases t.kind with
      | kwFor => exact .read hrest (((forRule_traced n _).call rfl rfl rfl).mono (Nat.zero_le _))
      | kwIf => exact .read hrest (((ifRule_traced n _).call rfl rfl rfl).mono (Nat.zero_le _))
      | kwPrint =>
        refine .read hrest ?_
        refine (expression_traced _).bind_last fun value c₁ => ?_
        exact (c₁.expect_traced _ _).bind_last fun _ c₂ => c₂.node_traced _
      | kwReturn =>
        refine .read hrest ?_
        refine ((optionalExpression_traced _ _).call rfl rfl rfl).bind_last fun value c₁ => ?_
        exact (c₁.expect_traced _ _).bind_last fun _ c₂ => c₂.node_traced _
      | kwWhile => exact .read hrest (((whileRule_traced n _).call rfl rfl rfl).mono (Nat.zero_le _))
      | leftBrace =>
        refine .read hrest ?_
        exact ((blockRule_traced n _).call rfl rfl rfl).bind_last fun body c₁ => c₁.node_traced _
      -- no other class of token starts a statement of its own kind
      | _ => exact (expressionStmt_traced c).call rfl rfl rfl

theorem forRule_traced : ∀ (n : Nat) (c : Cursor),
    (forRule n c).Traced c 1 (RuleCall.calls ⟨.forRule n, c⟩)
  | 0, _ => trivial
  | n + 1, c => by
    rw [forRule, RuleCall.calls]
    refine (c.expect_traced _ _).bind fun _ c₁ => ?_
    refine ((forStart_traced c₁).call rfl rfl rfl).call_bind fun start c₂ => ?_
    refine ((optionalExpression_traced c₂ _).call rfl rfl rfl).call_bind fun cond c₃ => ?_
    refine (c₃.expect_traced _ _).bind fun _ c₄ => ?_
    refine ((optionalExpression_traced c₄ _).call rfl rfl rfl).call_bind fun increment c₅ => ?_
    refine (c₅.expect_traced _ _).bind fun _ c₆ => ?_
    exact ((statement_traced n c₆).call rfl rfl rfl).bind_last fun body c₇ =>
      forLoop_traced start cond increment body c₇

theorem ifRule_traced : ∀ (n : Nat) (c : Cursor),
    (ifRule n c).Traced c 1 (RuleCall.calls ⟨.ifRule n, c⟩)
  | 0, _ => trivial
  | n + 1, c => by
    rw [ifRule, RuleCall.calls]
    refine (c.expect_traced _ _).bind fun _ c₁ => ?_
    refine (expression_traced c₁).call_bind fun cond c₂ => ?_
    refine (c₂.expect_traced _ _).bind fun _ c₃ => ?_
    refine ((statement_traced n c₃).call rfl rfl rfl).call_bind fun thenBranch c₄ => ?_
    cases helse : c₄.accept? .kwElse with
    | none => exact c₄.node_traced _
    | some p =>
      refine .accept helse ?_
      exact ((statement_traced n p.2).call rfl rfl rfl).bind_last fun elseBranch c₅ =>
        c₅.node_traced _

theorem whileRule_traced : ∀ (n : Nat) (c : Cursor),
    (whileRule n c).Traced c 1 (RuleCall.calls ⟨.whileRule n, c⟩)
  | 0, _ => trivial
  | n + 1, c => by
    rw [whileRule, RuleCall.calls]
    refine (c.expect_traced _ _).bind fun _ c₁ => ?_
    refine (expression_traced c₁).call_bind fun cond c₂ => ?_
    refine (c₂.expect_traced _ _).bind fun _ c₃ => ?_
    exact ((statement_traced n c₃).call rfl rfl rfl).bind_last fun body c₄ => c₄.node_traced _

end

theorem programItems_traced : ∀ (n : Nat) (c : Cursor),
    (programItems n c).Traced c 0 (RuleCall.calls ⟨.program n, c⟩)
  | 0, _ => trivial
  | n + 1, c => by
    rw [programItems, RuleCall.calls]
    split
    · exact .ok
    · refine (declaration_traced _ c (Nat.zero_le _) (Nat.zero_le _)).call_bind fun s c₁ => ?_
      exact ((programItems_traced n c₁).call rfl rfl rfl).bind_last fun ss c₂ => .ok

/-! ## All calls -/

namespace RuleCall

/-- **A call that comes to an end moves the cursor on, and so do the calls that it makes.** -/
theorem opens : ∀ (call : RuleCall) {c : Cursor}, call.after? = some c → call.cursor.Onward c ∧
    ∀ sub ∈ call.calls, call.cursor.Onward sub.cursor ∧ sub.after?.isSome
  | ⟨.program n, c⟩, _, h => (programItems_traced n c).opens h
  | ⟨.declaration 0, _⟩, _, h => by cases h
  | ⟨.declaration (n + 1), c⟩, c', h => by
    refine ⟨((declaration_traced (n + 1) c (Nat.zero_le _) (Nat.zero_le _)).opens h).1, ?_⟩
    intro sub hsub
    rw [List.mem_singleton.1 hsub]
    refine ⟨.refl c, ?_⟩
    simp only [after?, declaration] at h ⊢
    cases hrule : declarationRule n c with
    | ok s c₁ => rfl
    | failed c₁ => rfl
    | exhausted => rw [hrule] at h; cases h
  | ⟨.declarationRule n, c⟩, _, h => (declarationRule_traced n c).opens h
  | ⟨.classRule n, c⟩, _, h => (classRule_traced n c).opens h
  | ⟨.methodList n, c⟩, _, h => (methodList_traced n c).opens h
  | ⟨.functionRule n what, c⟩, _, h => (functionRule_traced n what c).opens h
  | ⟨.blockRule n, c⟩, _, h => (blockRule_traced n c).opens h
  | ⟨.blockItems n, c⟩, _, h => (blockItems_traced n c).opens h
  | ⟨.statement n, c⟩, _, h => (statement_traced n c).opens h
  | ⟨.forRule n, c⟩, _, h => (forRule_traced n c).opens h
  | ⟨.ifRule n, c⟩, _, h => (ifRule_traced n c).opens h
  | ⟨.whileRule n, c⟩, _, h => (whileRule_traced n c).opens h
  | ⟨.forStart, c⟩, _, h => (forStart_traced c).opens h
  | ⟨.variableDecl, c⟩, _, h => (variableDecl_traced c).opens h
  | ⟨.expressionStmt, c⟩, _, h => (expressionStmt_traced c).opens h
  | ⟨.optionalExpression closer, c⟩, _, h => (optionalExpression_traced c closer).opens h
  | ⟨.superclassClause, c⟩, _, h => (superclassClause_traced c).opens h
  | ⟨.parameters, c⟩, _, h => (parameters_traced c).opens h
  | ⟨.parameterList n count, c⟩, _, h => (parameterList_traced n count c).opens h
  | ⟨.assignment n, c⟩, _, h => (assignment_traced n c).opens h
  | ⟨.tier n level, c⟩, _, h => (tier_traced n level c).opens h
  | ⟨.operand n level, c⟩, _, h => (operand_traced n level c).opens h
  | ⟨.tierTail n level left, c⟩, _, h => (tierTail_traced n level left c).opens h
  | ⟨.unary n, c⟩, _, h => (unary_traced n c).opens h
  | ⟨.callChain n, c⟩, _, h => (callChain_traced n c).opens h
  | ⟨.callTail n e, c⟩, _, h => (callTail_traced n e c).opens h
  | ⟨.arguments n, c⟩, _, h => (arguments_traced n c).opens h
  | ⟨.argumentList n count, c⟩, _, h => (argumentList_traced n count c).opens h
  | ⟨.primary n, c⟩, _, h => (primary_traced n c).opens h

/-- Whatever is called on the way comes to an end, if the first call does. -/
theorem Reaches.onward {start call : RuleCall} (hstart : start.after?.isSome)
    (h : start.Reaches call) : start.cursor.Onward call.cursor ∧ call.after?.isSome := by
  induction h with
  | refl => exact ⟨.refl _, hstart⟩
  | step _ hcalls ih =>
    obtain ⟨c', hc'⟩ := Option.isSome_iff_exists.1 ih.2
    obtain ⟨honward, hends⟩ := (opens _ hc').2 _ hcalls
    exact ⟨ih.1.trans honward, hends⟩

end RuleCall

end LoxLang
