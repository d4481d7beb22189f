import LoxLang.Proofs.Grammar.Reading

/-!
# Reading expressions follows the grammar

Whatever a rule reads without failing is covered by the relation of that rule: the tokens between
the two cursors, the tree and the problems noted.

Principal result: `expression_covers`.
-/

namespace LoxLang

/-! ## Targets of assignments -/

namespace Grammar

theorem Operator.of_joiner? {level : Tier} {kind : TokenKind} {joiner : Joiner}
    (h : level.joiner? kind = some joiner) : Operator level kind joiner := by
  unfold Tier.joiner? at h
  split at h <;> cases h <;> constructor

theorem Operator.joiner? {level : Tier} {kind : TokenKind} {joiner : Joiner}
    (h : Operator level kind joiner) : level.joiner? kind = some joiner := by
  cases h <;> rfl

theorem SignOperator.of_isSign {kind : TokenKind} (h : kind.isSign = true) :
    SignOperator kind := by
  unfold TokenKind.isSign at h
  split at h
  · exact .not
  · exact .negate
  · cases h

theorem SignOperator.isSign {kind : TokenKind} (h : SignOperator kind) : kind.isSign = true := by
  cases h <;> rfl

/-- The classes of tokens that an expression may start with. -/
def startsExpression : TokenKind → Bool
  | .kwFalse | .kwTrue | .kwNil | .number | .string | .kwSuper | .kwThis | .identifier
  | .leftParen | .bang | .minus => true
  | _ => false

theorem Primary.starts {ts : List Token} {e : Expr} {ds : List Diagnostic}
    (h : Primary ts e ds) : ∃ t us, ts = t :: us ∧ startsExpression t.kind = true := by
  cases h with
  | constant h => cases h <;> rename_i hk <;> exact ⟨_, _, rfl, by rw [hk]; rfl⟩
  | this hk => exact ⟨_, _, rfl, by rw [hk]; rfl⟩
  | name hk => exact ⟨_, _, rfl, by rw [hk]; rfl⟩
  | super hk => exact ⟨_, _, rfl, by rw [hk]; rfl⟩
  | grouping hk => exact ⟨_, _, rfl, by rw [hk]; rfl⟩

theorem Call.starts {ts : List Token} {e : Expr} {ds : List Diagnostic} (h : Call ts e ds) :
    ∃ t us, ts = t :: us ∧ startsExpression t.kind = true := by
  obtain ⟨hp, _⟩ := h
  obtain ⟨t, us, rfl, ht⟩ := hp.starts
  exact ⟨t, _, rfl, ht⟩

theorem Unary.starts {ts : List Token} {e : Expr} {ds : List Diagnostic} (h : Unary ts e ds) :
    ∃ t us, ts = t :: us ∧ startsExpression t.kind = true := by
  cases h with
  | operator hop _ =>
    refine ⟨_, _, rfl, ?_⟩
    generalize Token.kind _ = kind at hop
    cases hop <;> rfl
  | call h => exact h.starts

mutual

theorem Level.starts : ∀ {level : Tier} {ts : List Token} {e : Expr} {ds : List Diagnostic},
    Level level ts e ds → ∃ t us, ts = t :: us ∧ startsExpression t.kind = true
  | _, _, _, _, .joined hop _ => by
    obtain ⟨t, us, hts, ht⟩ := hop.starts
    exact ⟨t, _, by rw [hts]; rfl, ht⟩

theorem Operand.starts : ∀ {level : Tier} {ts : List Token} {e : Expr} {ds : List Diagnostic},
    Operand level ts e ds → ∃ t us, ts = t :: us ∧ startsExpression t.kind = true
  | _, _, _, _, .or h => h.starts
  | _, _, _, _, .and h => h.starts
  | _, _, _, _, .equality h => h.starts
  | _, _, _, _, .comparison h => h.starts
  | _, _, _, _, .term h => h.starts
  | _, _, _, _, .factor h => Unary.starts h

end

/-- An expression has a first token, which tells it from statements with a keyword. -/
theorem Assignment.starts {ts : List Token} {e : Expr} {ds : List Diagnostic}
    (h : Assignment ts e ds) : ∃ t us, ts = t :: us ∧ startsExpression t.kind = true := by
  cases h with
  | toName hname => exact ⟨_, _, rfl, by rw [hname]; rfl⟩
  | toProperty hcall =>
    obtain ⟨t, us, rfl, ht⟩ := hcall.starts
    exact ⟨t, _, rfl, ht⟩
  | operators h => exact h.starts
  | noTarget h =>
    obtain ⟨t, us, rfl, ht⟩ := h.starts
    exact ⟨t, _, rfl, ht⟩

variable {level : Tier} {ts us : List Token} {e left : Expr} {ds es : List Diagnostic}

theorem isTarget_join (joiner : Joiner) (left right : Expr) (op : Token) (id : Nat) :
    (joiner.join left op right id).isTarget = false := by
  cases joiner <;> rfl

/-- A target was not made by an operator. -/
theorem Joins.eq_of_isTarget : ∀ {left e : Expr} {us : List Token} {es : List Diagnostic},
    Joins level left us e es → e.isTarget = true → us = [] ∧ e = left ∧ es = []
  | _, _, _, _, .none, _ => ⟨rfl, rfl, rfl⟩
  | _, _, _, _, .more _ _ h, ht => by
    obtain ⟨_, rfl, _⟩ := h.eq_of_isTarget ht
    rw [isTarget_join] at ht
    cases ht

mutual

/-- A target is read as a chain of calls and properties. -/
theorem Level.call_of_isTarget : ∀ {level : Tier} {ts : List Token} {e : Expr}
    {ds : List Diagnostic}, Level level ts e ds → e.isTarget = true → Call ts e ds
  | _, _, _, _, .joined hop hjoins, ht => by
    obtain ⟨hus, he, hes⟩ := hjoins.eq_of_isTarget ht
    have hcall := hop.call_of_isTarget (he ▸ ht)
    rw [hus, he, hes, List.append_nil, List.append_nil]
    exact hcall

theorem Operand.call_of_isTarget : ∀ {level : Tier} {ts : List Token} {e : Expr}
    {ds : List Diagnostic}, Operand level ts e ds → e.isTarget = true → Call ts e ds
  | _, _, _, _, .or h, ht => h.call_of_isTarget ht
  | _, _, _, _, .and h, ht => h.call_of_isTarget ht
  | _, _, _, _, .equality h, ht => h.call_of_isTarget ht
  | _, _, _, _, .comparison h, ht => h.call_of_isTarget ht
  | _, _, _, _, .term h, ht => h.call_of_isTarget ht
  | _, _, _, _, .factor (.call h), _ => h
  | _, _, _, _, .factor (.operator _ _), ht => by cases ht

end

/-- The last link of a chain that ends with a variable or a property. -/
theorem Links.last : ∀ {first e : Expr} {us : List Token} {es : List Diagnostic},
    Links first us e es → (us = [] ∧ e = first ∧ es = []) ∨
      (∀ id name, e ≠ .var id name) ∧ ∀ id object name, e = .get id object name →
        ∃ vs dot, us = vs ++ [dot, name] ∧ dot.kind = .dot ∧ name.kind = .identifier ∧
          Links first vs object es
  | _, _, _, _, .none => .inl ⟨rfl, rfl, rfl⟩
  | _, _, _, _, .call ht hargs hparen h => by
    refine .inr ?_
    obtain ⟨rfl, rfl, rfl⟩ | ⟨hvar, hget⟩ := h.last
    · exact ⟨fun _ _ he => (by cases he), fun _ _ _ he => (by cases he)⟩
    · refine ⟨hvar, fun id object name he => ?_⟩
      obtain ⟨vs, dot, rfl, hdot, hname, hl⟩ := hget id object name he
      exact ⟨_, dot, by simp, hdot, hname, .call ht hargs hparen hl⟩
  | _, _, _, _, .property hdot hname h => by
    refine .inr ?_
    obtain ⟨rfl, rfl, rfl⟩ | ⟨hvar, hget⟩ := h.last
    · refine ⟨fun _ _ he => (by cases he), fun id object name he => ?_⟩
      cases he
      exact ⟨[], _, rfl, hdot, hname, .none⟩
    · refine ⟨hvar, fun id object name he => ?_⟩
      obtain ⟨vs, dot, rfl, hdot', hname', hl⟩ := hget id object name he
      exact ⟨_, dot, by simp, hdot', hname', .property hdot hname hl⟩

/-- A chain that is a variable is a single name. -/
theorem Call.eq_name {id : Nat} {name : Token} (h : Call ts (.var id name) ds) :
    ts = [name] ∧ ds = [] ∧ name.kind = .identifier := by
  obtain ⟨hp, hl⟩ := h
  obtain ⟨rfl, rfl, rfl⟩ | ⟨hvar, _⟩ := hl.last
  · cases hp
    exact ⟨rfl, rfl, by assumption⟩
  · exact absurd rfl (hvar id name)

/-- A chain that is a property ends with its name. -/
theorem Call.split_property {id : Nat} {object : Expr} {name : Token}
    (h : Call ts (.get id object name) ds) :
    ∃ us dot, ts = us ++ [dot, name] ∧ dot.kind = .dot ∧ name.kind = .identifier ∧
      Call us object ds := by
  obtain ⟨hp, hl⟩ := h
  obtain ⟨rfl, rfl, rfl⟩ | ⟨_, hget⟩ := hl.last
  · cases hp
  · obtain ⟨vs, dot, rfl, hdot, hname, hl⟩ := hget id object name rfl
    exact ⟨_, dot, by simp, hdot, hname, .chain hp hl⟩

end Grammar

open Grammar

/-! ## Expressions -/

/-- What was read on the left of an assignment becomes its target. -/
theorem assignTo_covers {c c₁ c₂ c₃ : Cursor} {target value : Expr} {equals : Token}
    (htarget : Covers (Level .or) c target c₁) (hequals : equals.kind = .equal)
    (hread : Reads c₁ c₂ [equals] []) (hvalue : Covers Assignment c₂ value c₃) :
    (assignTo target equals value c₃).Ensures (Covers Assignment c) := by
  obtain ⟨ts, ds, hr₁, hl⟩ := htarget
  obtain ⟨us, es, hr₂, ha⟩ := hvalue
  have hr := hr₁.trans (hread.trans hr₂)
  unfold assignTo
  split
  · rename_i id name
    obtain ⟨rfl, rfl, hname⟩ := (hl.call_of_isTarget rfl).eq_name
    exact ⟨_, _, hr.trans (.node _), by simpa using .toName hname hequals ha⟩
  · rename_i id object name
    obtain ⟨vs, dot, rfl, hdot, hname, hcall⟩ := (hl.call_of_isTarget rfl).split_property
    refine ⟨_, _, hr.trans (.node _), ?_⟩
    simpa using Assignment.toProperty hcall hdot hname hequals ha
  · rename_i hvar hget
    have htarget : target.isTarget = false := by
      cases target <;> first | rfl | exact (hvar _ _ rfl).elim | exact (hget _ _ _ rfl).elim
    refine ⟨_, _, hr.trans (.noteAt ..), ?_⟩
    simpa using Assignment.noTarget hl htarget hequals ha

/-- The rules of expressions follow the grammar, as far as an allowance reaches. -/
structure ExpressionCovers (n : Nat) : Prop where
  assignment : ∀ c, (LoxLang.assignment n c).Ensures (Covers Assignment c)
  tier : ∀ level c, (LoxLang.tier n level c).Ensures (Covers (Level level) c)
  operand : ∀ level c, (LoxLang.operand n level c).Ensures (Covers (Operand level) c)
  tierTail : ∀ level left c,
    (LoxLang.tierTail n level left c).Ensures (Covers (Joins level left) c)
  unary : ∀ c, (LoxLang.unary n c).Ensures (Covers Unary c)
  callChain : ∀ c, (LoxLang.callChain n c).Ensures (Covers Call c)
  callTail : ∀ e c, (LoxLang.callTail n e c).Ensures (Covers (Links e) c)
  arguments : ∀ c, (LoxLang.arguments n c).Ensures (Covers Arguments c)
  argumentList : ∀ count c,
    (LoxLang.argumentList n count c).Ensures (Covers (ArgumentList count) c)
  primary : ∀ c, (LoxLang.primary n c).Ensures (Covers Primary c)

namespace ExpressionCovers

variable {n : Nat} (ih : ExpressionCovers n)

include ih

theorem assignment_succ (c : Cursor) :
    (LoxLang.assignment (n + 1) c).Ensures (Covers Assignment c) := by
  unfold LoxLang.assignment
  refine (ih.tier .or c).bind fun target c₁ htarget => ?_
  split
  · obtain ⟨ts, ds, hr, hl⟩ := htarget
    exact ⟨ts, ds, hr, .operators hl⟩
  · rename_i equals c₂ heq
    obtain ⟨hkind, hread⟩ := Cursor.accept?_eq_some heq
    exact (ih.assignment c₂).bind fun value c₃ hvalue =>
      assignTo_covers htarget hkind hread hvalue

theorem tier_succ (level : Tier) (c : Cursor) :
    (LoxLang.tier (n + 1) level c).Ensures (Covers (Level level) c) := by
  unfold LoxLang.tier
  refine (ih.operand level c).bind fun left c₁ h => ?_
  obtain ⟨ts, ds, hr₁, hleft⟩ := h
  refine (ih.tierTail level left c₁).mono fun e c₂ h => ?_
  obtain ⟨us, es, hr₂, htail⟩ := h
  exact ⟨_, _, hr₁.trans hr₂, .joined hleft htail⟩

theorem operand_succ (level : Tier) (c : Cursor) :
    (LoxLang.operand (n + 1) level c).Ensures (Covers (Operand level) c) := by
  unfold LoxLang.operand
  cases level with
  | or => exact (ih.tier .and c).mono fun _ _ h => h.mono fun _ _ => .or
  | and => exact (ih.tier .equality c).mono fun _ _ h => h.mono fun _ _ => .and
  | equality => exact (ih.tier .comparison c).mono fun _ _ h => h.mono fun _ _ => .equality
  | comparison => exact (ih.tier .term c).mono fun _ _ h => h.mono fun _ _ => .comparison
  | term => exact (ih.tier .factor c).mono fun _ _ h => h.mono fun _ _ => .term
  | factor => exact (ih.unary c).mono fun _ _ h => h.mono fun _ _ => .factor

theorem tierTail_succ (level : Tier) (left : Expr) (c : Cursor) :
    (LoxLang.tierTail (n + 1) level left c).Ensures (Covers (Joins level left) c) := by
  unfold LoxLang.tierTail
  split
  · exact ⟨[], [], .refl c, .none⟩
  · rename_i t rest hrest
    split
    · exact ⟨[], [], .refl c, .none⟩
    · rename_i joiner hjoiner
      refine (ih.operand level _).bind fun right c₁ h => ?_
      obtain ⟨ts, ds, hr₁, hright⟩ := h
      refine (ih.tierTail level _ _).mono fun e c₂ h => ?_
      obtain ⟨us, es, hr₂, htail⟩ := h
      have hr := (Reads.step hrest).trans (hr₁.trans ((Reads.node c₁).trans hr₂))
      exact ⟨_, _, hr, by simpa using .more (.of_joiner? hjoiner) hright htail⟩

theorem unary_succ (c : Cursor) : (LoxLang.unary (n + 1) c).Ensures (Covers Unary c) := by
  have hcall : (LoxLang.callChain n c).Ensures (Covers Unary c) :=
    (ih.callChain c).mono fun _ _ h => h.mono fun _ _ => .call
  unfold LoxLang.unary
  split
  · exact hcall
  · rename_i t rest hrest
    split
    · rename_i hsign
      refine (ih.unary _).bind fun inner c₁ h => ?_
      obtain ⟨ts, ds, hr₁, h⟩ := h
      have hr := (Reads.step hrest).trans (hr₁.trans (.node c₁))
      exact ⟨_, _, hr, by simpa using .operator (.of_isSign hsign) h⟩
    · exact hcall

theorem callChain_succ (c : Cursor) :
    (LoxLang.callChain (n + 1) c).Ensures (Covers Call c) := by
  unfold LoxLang.callChain
  refine (ih.primary c).bind fun first c₁ h => ?_
  obtain ⟨ts, ds, hr₁, hfirst⟩ := h
  refine (ih.callTail first c₁).mono fun e c₂ h => ?_
  obtain ⟨us, es, hr₂, hlinks⟩ := h
  exact ⟨_, _, hr₁.trans hr₂, .chain hfirst hlinks⟩

theorem callTail_succ (first : Expr) (c : Cursor) :
    (LoxLang.callTail (n + 1) first c).Ensures (Covers (Links first) c) := by
  unfold LoxLang.callTail
  split
  · rename_i t c₁ ht
    obtain ⟨hkind, hr₁⟩ := Cursor.accept?_eq_some ht
    refine (ih.arguments c₁).bind fun args c₂ h => ?_
    obtain ⟨ts, ds, hr₂, hargs⟩ := h
    refine (c₂.expect_ensures _ _).bind fun paren c₃ h => ?_
    obtain ⟨hparen, hr₃⟩ := h
    refine (ih.callTail _ _).mono fun e c₄ h => ?_
    obtain ⟨us, es, hr₄, hlinks⟩ := h
    have hr := hr₁.trans (hr₂.trans (hr₃.trans ((Reads.node c₃).trans hr₄)))
    exact ⟨_, _, hr, by simpa using .call hkind hargs hparen hlinks⟩
  · split
    · rename_i dot c₁ hdot
      obtain ⟨hkind, hr₁⟩ := Cursor.accept?_eq_some hdot
      refine (c₁.expect_ensures _ _).bind fun name c₂ h => ?_
      obtain ⟨hname, hr₂⟩ := h
      refine (ih.callTail _ _).mono fun e c₃ h => ?_
      obtain ⟨us, es, hr₃, hlinks⟩ := h
      have hr := hr₁.trans (hr₂.trans ((Reads.node c₂).trans hr₃))
      exact ⟨_, _, hr, by simpa using .property hkind hname hlinks⟩
    · exact ⟨[], [], .refl c, .none⟩

theorem arguments_succ (c : Cursor) :
    (LoxLang.arguments (n + 1) c).Ensures (Covers Arguments c) := by
  unfold LoxLang.arguments
  split
  · exact ⟨[], [], .refl c, .none⟩
  · exact (ih.argumentList 0 c).mono fun _ _ h => h.mono fun _ _ => .some

theorem argumentList_succ (count : Nat) (c : Cursor) :
    (LoxLang.argumentList (n + 1) count c).Ensures (Covers (ArgumentList count) c) := by
  unfold LoxLang.argumentList
  have hnote := Reads.noteIf c (maxArguments ≤ count) .tooManyArguments
  refine (ih.assignment _).bind fun e c₁ h => ?_
  obtain ⟨ts, ds, hr₁, he⟩ := h
  obtain ⟨t, ts, rfl, _⟩ := he.starts
  have hr := hnote.trans hr₁
  -- The problem stands at the first token of the entry.
  have hpeek : c.peek = t := by
    have hrest := hr.rest
    simp only [List.nil_append, List.cons_append] at hrest
    simp [Cursor.peek, hrest]
  rw [hpeek] at hr
  split
  · exact ⟨_, _, hr, .last he⟩
  · rename_i comma c₂ hcomma
    obtain ⟨hkind, hr₂⟩ := Cursor.accept?_eq_some hcomma
    refine (ih.argumentList (count + 1) c₂).bind fun args c₃ h => ?_
    obtain ⟨us, es, hr₃, hargs⟩ := h
    refine ⟨_, _, hr.trans (hr₂.trans hr₃), ?_⟩
    simpa [excess] using ArgumentList.more he hkind hargs

theorem primary_succ (c : Cursor) : (LoxLang.primary (n + 1) c).Ensures (Covers Primary c) := by
  unfold LoxLang.primary
  split
  · exact c.missing_ensures _
  · rename_i t rest hrest
    have hr₁ := Reads.step hrest
    have hleaf : ∀ make : Nat → Expr, (∀ id, Primary [t] (make id) []) →
        (Cursor.node { c with rest } make).Ensures (Covers Primary c) :=
      fun make h => ⟨_, _, hr₁.trans (.node _), h _⟩
    simp only
    split
    · rename_i hk; exact hleaf _ fun _ => .constant (.false hk)
    · rename_i hk; exact hleaf _ fun _ => .constant (.true hk)
    · rename_i hk; exact hleaf _ fun _ => .constant (.nil hk)
    · rename_i hk; exact hleaf _ fun _ => .constant (.number hk)
    · rename_i hk; exact hleaf _ fun _ => .constant (.string hk)
    · rename_i hk
      refine (Cursor.expect_ensures _ _ _).bind fun dot c₂ h => ?_
      obtain ⟨hdot, hr₂⟩ := h
      refine (Cursor.expect_ensures _ _ _).bind fun name c₃ h => ?_
      obtain ⟨hname, hr₃⟩ := h
      have hr := hr₁.trans (hr₂.trans (hr₃.trans (.node c₃)))
      exact ⟨_, _, hr, .super hk hdot hname⟩
    · rename_i hk; exact hleaf _ fun _ => .this hk
    · rename_i hk; exact hleaf _ fun _ => .name hk
    · rename_i hk
      refine (ih.assignment _).bind fun inner c₂ h => ?_
      obtain ⟨ts, ds, hr₂, hinner⟩ := h
      refine (Cursor.expect_ensures _ _ _).bind fun paren c₃ h => ?_
      obtain ⟨hparen, hr₃⟩ := h
      have hr := hr₁.trans (hr₂.trans (hr₃.trans (.node c₃)))
      exact ⟨_, _, hr, by simpa using .grouping hk hinner hparen⟩
    · exact c.missing_ensures _

end ExpressionCovers

theorem expressionCovers : ∀ n, ExpressionCovers n
  | 0 => ⟨fun _ => trivial, fun _ _ => trivial, fun _ _ => trivial, fun _ _ _ => trivial,
      fun _ => trivial, fun _ => trivial, fun _ _ => trivial, fun _ => trivial,
      fun _ _ => trivial, fun _ => trivial⟩
  | n + 1 =>
    have ih := expressionCovers n
    ⟨ih.assignment_succ, ih.tier_succ, ih.operand_succ, ih.tierTail_succ, ih.unary_succ,
      ih.callChain_succ, ih.callTail_succ, ih.arguments_succ, ih.argumentList_succ,
      ih.primary_succ⟩

/-- **An expression that is read is one of the grammar.** -/
theorem expression_covers (c : Cursor) : (expression c).Ensures (Covers Assignment c) :=
  (expressionCovers _).assignment c

end LoxLang
