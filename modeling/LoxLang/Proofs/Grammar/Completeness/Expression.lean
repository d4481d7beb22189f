import LoxLang.Proofs.Grammar.Bare
import LoxLang.Proofs.Grammar.Soundness.Expression

/-!
# The grammar of expressions is read

Tokens that a rule of the grammar covers are read by that rule, as the tree and with the problems
that the relation says, if what stands behind them cannot belong to the rule as well.  One token
of lookahead is enough to tell: `Follows` says which tokens do not go on with an expression.

Principal result: `expression_yields`.
-/

namespace LoxLang

open Grammar

/-- A value was read that differs from `v` in the numbers of nodes at most. -/
def Renumbers {α : Type} (bare : α → α) (v : α) (c : Cursor) (ts : List Token)
    (ds : List Diagnostic) (v' : α) (c' : Cursor) : Prop :=
  bare v' = bare v ∧ Reads c c' ts ds

/-! ## Lookahead -/

/-- The looser a tier binds, the smaller its rank. -/
def Tier.rank : Tier → Nat
  | .or => 0
  | .and => 1
  | .equality => 2
  | .comparison => 3
  | .term => 4
  | .factor => 5

/-- No operator of this rank or above, no call and no property follows. -/
def Follows (rank : Nat) (rest : List Token) : Prop :=
  ∀ t ∈ rest.head?, t.kind ≠ .leftParen ∧ t.kind ≠ .dot ∧
    ∀ level : Tier, rank ≤ level.rank → level.joiner? t.kind = none

/-- The tokens that stand behind a whole expression. -/
def closesExpression : TokenKind → Bool
  | .semicolon | .rightParen | .comma => true
  | _ => false

theorem Follows.mono {r r' : Nat} {rest : List Token} (h : Follows r rest) (hr : r ≤ r') :
    Follows r' rest := by
  intro t ht
  obtain ⟨hparen, hdot, hlevel⟩ := h t ht
  exact ⟨hparen, hdot, fun level hl => hlevel level (by omega)⟩

theorem Follows.of_kind {r : Nat} {t : Token} {rest : List Token}
    (h : closesExpression t.kind = true ∨ t.kind = .equal) : Follows r (t :: rest) := by
  intro t' ht
  cases ht
  generalize t.kind = kind at h
  refine ⟨?_, ?_, fun level _ => ?_⟩
  · rintro rfl; simp [closesExpression] at h
  · rintro rfl; simp [closesExpression] at h
  · cases kind <;> simp [closesExpression] at h <;> cases level <;> rfl

/-- An operator belongs to one tier only. -/
theorem Grammar.Operator.rank_eq {level level' : Tier} {kind : TokenKind} {joiner joiner' : Joiner}
    (h : Operator level kind joiner) (h' : Operator level' kind joiner') : level = level' := by
  cases h <;> cases h' <;> rfl

/-- What follows an operand of a tier: an operator of this tier, or what follows them all. -/
theorem Grammar.Joins.follows {level : Tier} {left e : Expr} {us : List Token}
    {es : List Diagnostic} {rest : List Token} (h : Joins level left us e es)
    (hrest : Follows level.rank rest) : Follows (level.rank + 1) (us ++ rest) := by
  cases h with
  | none => exact hrest.mono (by omega)
  | more hop _ _ =>
    intro t ht
    cases ht
    refine ⟨?_, ?_, fun level' hl => ?_⟩
    · intro hk; rw [hk] at hop; cases hop
    · intro hk; rw [hk] at hop; cases hop
    · cases hj : level'.joiner? _ with
      | none => rfl
      | some joiner =>
        have := hop.rank_eq (.of_joiner? hj)
        subst this
        omega

/-- A primary expression does not start with a sign. -/
theorem Grammar.Primary.starts_plain {ts : List Token} {e : Expr} {ds : List Diagnostic}
    (h : Primary ts e ds) : ∃ t us, ts = t :: us ∧ t.kind.isSign = false := by
  cases h with
  | constant h => cases h <;> rename_i hk <;> exact ⟨_, _, rfl, by rw [hk]; rfl⟩
  | this hk => exact ⟨_, _, rfl, by rw [hk]; rfl⟩
  | name hk => exact ⟨_, _, rfl, by rw [hk]; rfl⟩
  | super hk => exact ⟨_, _, rfl, by rw [hk]; rfl⟩
  | grouping hk => exact ⟨_, _, rfl, by rw [hk]; rfl⟩

theorem Grammar.Call.starts_plain {ts : List Token} {e : Expr} {ds : List Diagnostic}
    (h : Call ts e ds) : ∃ t us, ts = t :: us ∧ t.kind.isSign = false := by
  obtain ⟨hp, _⟩ := h
  obtain ⟨t, us, rfl, ht⟩ := hp.starts_plain
  exact ⟨t, _, rfl, ht⟩

/-! ## Chains and single operands -/

/-- No link follows, so the chain ends. -/
theorem callTail_yields {P : Expr → Cursor → Prop} {e : Expr} {c : Cursor} (n : Nat)
    (hrest : Follows 6 c.rest) (hp : P e c) : (callTail n e c).Yields P := by
  cases n with
  | zero => exact .exhausted
  | succ n =>
    unfold callTail
    rw [Cursor.accept?_eq_none_iff.2 fun t ht => (hrest t ht).1,
      Cursor.accept?_eq_none_iff.2 fun t ht => (hrest t ht).2.1]
    exact .ok hp

/-- No operator of the tier follows, so its operands end. -/
theorem tierTail_yields {P : Expr → Cursor → Prop} {level : Tier} {e : Expr} {c : Cursor} (n : Nat)
    (hrest : Follows level.rank c.rest) (hp : P e c) : (tierTail n level e c).Yields P := by
  cases n with
  | zero => exact .exhausted
  | succ n =>
    unfold tierTail
    split
    · exact .ok hp
    · rename_i t rest hr
      rw [(hrest t (by rw [hr]; rfl)).2.2 level (Nat.le_refl _)]
      exact .ok hp

theorem unary_yields {P : Expr → Cursor → Prop} {c : Cursor} {t : Token} {rest : List Token}
    (hr : c.rest = t :: rest) (ht : t.kind.isSign = false)
    (h : ∀ n, (callChain n c).Yields P) (n : Nat) : (unary n c).Yields P := by
  cases n with
  | zero => exact .exhausted
  | succ n =>
    unfold unary
    rw [hr]
    simp only [ht, Bool.false_eq_true, if_false]
    exact h n

/-- A chain behind which nothing goes on is an operand of any tier. -/
theorem tier_yields {P : Expr → Cursor → Prop} {c : Cursor} {t : Token} {rest : List Token}
    (hr : c.rest = t :: rest) (ht : t.kind.isSign = false)
    (h : ∀ n, (callChain n c).Yields fun e c' => P e c' ∧ Follows 0 c'.rest) :
    ∀ level n, (tier n level c).Yields fun e c' => P e c' ∧ Follows 0 c'.rest := by
  have hstep : ∀ level,
      (∀ n, (operand n level c).Yields fun e c' => P e c' ∧ Follows 0 c'.rest) →
      ∀ n, (tier n level c).Yields fun e c' => P e c' ∧ Follows 0 c'.rest := by
    intro level hop n
    cases n with
    | zero => exact .exhausted
    | succ n =>
      unfold tier
      refine (hop n).bind fun e c' hp => ?_
      exact tierTail_yields n (hp.2.mono (Nat.zero_le _)) hp
  have hoperand : ∀ level next, level.tighter? = some next →
      (∀ n, (tier n next c).Yields fun e c' => P e c' ∧ Follows 0 c'.rest) →
      ∀ n, (operand n level c).Yields fun e c' => P e c' ∧ Follows 0 c'.rest := by
    intro level next hnext htier n
    cases n with
    | zero => exact .exhausted
    | succ n =>
      unfold operand
      rw [hnext]
      exact htier n
  have hfactor := hstep .factor fun n => by
    cases n with
    | zero => exact .exhausted
    | succ n => exact unary_yields hr ht h n
  have hterm := hstep .term (hoperand .term .factor rfl hfactor)
  have hcomparison := hstep .comparison (hoperand .comparison .term rfl hterm)
  have hequality := hstep .equality (hoperand .equality .comparison rfl hcomparison)
  have hand := hstep .and (hoperand .and .equality rfl hequality)
  have hor := hstep .or (hoperand .or .and rfl hand)
  intro level
  cases level <;> assumption

/-! ## Expressions -/

/-- The chain goes on with `e`, which was read from these tokens. -/
def Reaches (r : Reply Expr) (e : Expr) (c : Cursor) (ts : List Token) (ds : List Diagnostic) :
    Prop :=
  r = .exhausted ∨ ∃ n e' c', r = callTail n e' c' ∧ Renumbers Expr.bare e c ts ds e' c'

theorem Reaches.after {r : Reply Expr} {e : Expr} {c c₁ : Cursor} {ts us : List Token}
    {ds es : List Diagnostic} (h : Reaches r e c₁ us es) (hr : Reads c c₁ ts ds) :
    Reaches r e c (ts ++ us) (ds ++ es) := by
  obtain hex | ⟨n, e', c', heq, hbare, hr'⟩ := h
  · exact .inl hex
  · exact .inr ⟨n, e', c', heq, hbare, hr.trans hr'⟩

theorem Reaches.congr {r : Reply Expr} {e : Expr} {c : Cursor} {ts us : List Token}
    {ds es : List Diagnostic} (h : Reaches r e c ts ds) (hts : ts = us) (hds : ds = es) :
    Reaches r e c us es :=
  hts ▸ hds ▸ h

theorem Reaches.bind {α : Type} {r : Reply α} {P : α → Cursor → Prop} {f : α → Cursor → Reply Expr}
    {e : Expr} {c : Cursor} {ts : List Token} {ds : List Diagnostic} (h : r.Yields P)
    (hf : ∀ v c', P v c' → Reaches (f v c') e c ts ds) : Reaches (r.bind f) e c ts ds := by
  obtain rfl | ⟨v, c', rfl, hp⟩ := h
  · exact .inl rfl
  · exact hf v c' hp

theorem bare_join (joiner : Joiner) {left left' right right' : Expr} (op : Token) (id id' : Nat)
    (hl : left.bare = left'.bare) (hr : right.bare = right'.bare) :
    (joiner.join left op right id).bare = (joiner.join left' op right' id').bare := by
  cases joiner <;> simp [Joiner.join, Expr.bare, hl, hr]

theorem isTarget_bare (e : Expr) : e.bare.isTarget = e.isTarget := by
  cases e <;> simp only [Expr.bare, Expr.isTarget]

/-- After the cursor `c` has read `ts`, the rest is what stood behind them. -/
theorem Reads.rest_eq {c c' : Cursor} {ts rest : List Token} {ds : List Diagnostic}
    (h : Reads c c' ts ds) (hr : c.rest = ts ++ rest) : c'.rest = rest :=
  (List.append_cancel_left (hr.symm.trans h.rest)).symm

/-- The number of nodes on the left of an assignment does not tell the target. -/
theorem assignTo_of_not_isTarget {target : Expr} (h : target.isTarget = false) (equals : Token)
    (value : Expr) (c : Cursor) :
    assignTo target equals value c = .ok target (c.noteAt equals .invalidAssignmentTarget) := by
  cases target <;> first | rfl | cases h

/-- Two tokens are read. -/
theorem Reads.two {c : Cursor} {t t' : Token} {rest : List Token} (h : c.rest = t :: t' :: rest) :
    Reads c { c with rest } [t, t'] [] :=
  ⟨by rw [h]; rfl, by simp⟩

/-- An entry too many is noted at its first token. -/
theorem Reads.excess {c : Cursor} {t : Token} {rest : List Token}
    (hr : c.rest = t :: rest) (count : Nat) (problem : Problem) :
    Reads c (if maxArguments ≤ count then c.note problem else c) []
      (Grammar.excess problem count t) := by
  have hpeek : c.peek = t := by simp [Cursor.peek, hr]
  have hnote := Reads.noteIf c (maxArguments ≤ count) problem
  rwa [hpeek] at hnote

theorem Grammar.ArgumentList.starts {count : Nat} {ts : List Token} {args : List Expr}
    {ds : List Diagnostic} (h : ArgumentList count ts args ds) :
    ∃ t us, ts = t :: us ∧ startsExpression t.kind = true := by
  cases h with
  | last h => exact h.starts
  | more h _ _ =>
    obtain ⟨t, us, hts, ht⟩ := h.starts
    cases hts
    exact ⟨_, _, rfl, ht⟩

theorem callTail_property {n : Nat} {e : Expr} {c : Cursor} {dot name : Token} {rest : List Token}
    (hr : c.rest = dot :: name :: rest) (hdot : dot.kind = .dot) (hname : name.kind = .identifier) :
    callTail (n + 1) e c =
      callTail n (.get c.nextId e name) { c with rest, nextId := c.nextId + 1 } := by
  have hparen : c.accept? .leftParen = none := by
    refine Cursor.accept?_eq_none_iff.2 fun t ht => ?_
    rw [hr] at ht
    cases ht
    rw [hdot]
    decide
  have hexpect := Cursor.expect_cons (c := { c with rest := name :: rest }) .propertyName rfl hname
  rw [callTail, hparen, Cursor.accept?_cons hr hdot]
  simp only [hexpect]
  rfl

/-- A name alone, as the left side of an assignment. -/
theorem callChain_name {c : Cursor} {name : Token} {rest : List Token} (hr : c.rest = name :: rest)
    (hname : name.kind = .identifier) (hrest : Follows 0 rest) (n : Nat) :
    (callChain n c).Yields fun e c' =>
      ((∃ id, e = .var id name) ∧ Reads c c' [name] []) ∧ Follows 0 c'.rest := by
  cases n with
  | zero => exact .exhausted
  | succ n =>
    unfold callChain
    cases n with
    | zero => exact .exhausted
    | succ n =>
      unfold primary
      rw [hr]
      simp only [hname]
      refine callTail_yields _ (hrest.mono (Nat.zero_le _)) ⟨⟨⟨_, rfl⟩, ?_⟩, hrest⟩
      exact (Reads.step hr).trans (.node _)

/-- A chain that ends with a property, as the left side of an assignment. -/
theorem callChain_property {c : Cursor} {object : Expr} {ts : List Token} {ds : List Diagnostic}
    {dot name : Token} {rest : List Token} (h : ∀ n, Reaches (callChain n c) object c ts ds)
    (hr : c.rest = ts ++ dot :: name :: rest) (hdot : dot.kind = .dot)
    (hname : name.kind = .identifier) (hrest : Follows 0 rest) (n : Nat) :
    (callChain n c).Yields fun e c' =>
      ((∃ id object', e = .get id object' name ∧ object'.bare = object.bare) ∧
        Reads c c' (ts ++ [dot, name]) ds) ∧ Follows 0 c'.rest := by
  obtain hex | ⟨k, object', c₁, heq, hbare, hr₁⟩ := h n
  · exact .inl hex
  · rw [heq]
    have hc₁ := hr₁.rest_eq hr
    cases k with
    | zero => exact .exhausted
    | succ k =>
      rw [callTail_property hc₁ hdot hname]
      refine callTail_yields _ (hrest.mono (Nat.zero_le _)) ⟨⟨⟨_, _, rfl, hbare⟩, ?_⟩, hrest⟩
      simpa using hr₁.trans ((Reads.two hc₁).trans (.node _))

mutual

theorem Grammar.Assignment.yields : ∀ {ts : List Token} {e : Expr} {ds : List Diagnostic},
    Assignment ts e ds → ∀ (n : Nat) (c : Cursor) (t : Token) (rest : List Token),
    c.rest = ts ++ t :: rest → closesExpression t.kind = true →
    (assignment n c).Yields (Renumbers Expr.bare e c ts ds)
  | _, _, _, _, 0, _, _, _, _, _ => .exhausted
  | _, _, _, .toName hname hequals h, n + 1, c, t, rest, hr, ht => by
    have hfirst := tier_yields hr (by rw [hname]; rfl) (callChain_name hr hname (.of_kind (.inr hequals)))
    unfold assignment
    refine (hfirst .or n).bind fun target c₁ ⟨⟨⟨id, htarget⟩, hr₁⟩, _⟩ => ?_
    have hc₁ := hr₁.rest_eq hr
    subst htarget
    rw [Cursor.accept?_cons hc₁ hequals]
    refine (h.yields n _ t rest rfl ht).bind fun value' c₂ ⟨hbare, hr₂⟩ => .ok ⟨?_, ?_⟩
    · simp [Expr.bare, hbare]
    · simpa using hr₁.trans ((Reads.step hc₁).trans (hr₂.trans (.node c₂)))
  | _, _, _, .toProperty hcall hdot hname hequals h, n + 1, c, t, rest, hr, ht => by
    simp only [List.append_assoc, List.cons_append] at hr
    obtain ⟨first, us, hts, hfirst⟩ := hcall.starts_plain
    have htier := tier_yields (hr.trans (by rw [hts]; rfl)) hfirst
      (callChain_property (hcall.reaches · c _ hr) hr hdot hname (.of_kind (.inr hequals)))
    unfold assignment
    refine (htier .or n).bind fun target c₁ ⟨⟨⟨id, object', htarget, hobject⟩, hr₁⟩, _⟩ => ?_
    have hc₁ := hr₁.rest_eq (hr.trans (List.append_assoc _ [_, _] _).symm)
    subst htarget
    rw [Cursor.accept?_cons hc₁ hequals]
    refine (h.yields n _ t rest rfl ht).bind fun value' c₂ ⟨hbare, hr₂⟩ => .ok ⟨?_, ?_⟩
    · simp [Expr.bare, hbare, hobject]
    · simpa using hr₁.trans ((Reads.step hc₁).trans (hr₂.trans (.node c₂)))
  | _, _, _, .operators h, n + 1, c, t, rest, hr, ht => by
    unfold assignment
    refine (h.yields n c (t :: rest) hr (.of_kind (.inl ht))).bind fun e' c₁ ⟨hbare, hr₁⟩ => ?_
    rw [Cursor.accept?_eq_none_iff.2]
    · exact .ok ⟨hbare, hr₁⟩
    · rw [hr₁.rest_eq hr]
      intro t' ht'
      cases ht'
      intro hk
      rw [hk] at ht
      cases ht
  | _, _, _, .noTarget h htarget hequals hv, n + 1, c, t, rest, hr, ht => by
    rw [List.append_assoc, List.cons_append] at hr
    unfold assignment
    refine (h.yields n c _ hr (.of_kind (.inr hequals))).bind fun e' c₁ ⟨hbare, hr₁⟩ => ?_
    have hc₁ := hr₁.rest_eq hr
    rw [Cursor.accept?_cons hc₁ hequals]
    refine (hv.yields n _ t rest rfl ht).bind fun value' c₂ ⟨_, hr₂⟩ => ?_
    have hfree : e'.isTarget = false := by rw [← isTarget_bare, hbare, isTarget_bare, htarget]
    show (assignTo e' _ value' c₂).Yields _
    rw [assignTo_of_not_isTarget hfree]
    refine .ok ⟨hbare, ?_⟩
    simpa using hr₁.trans ((Reads.step hc₁).trans (hr₂.trans (.noteAt c₂ _ _)))

theorem Grammar.Level.yields : ∀ {level : Tier} {ts : List Token} {e : Expr}
    {ds : List Diagnostic}, Level level ts e ds → ∀ (n : Nat) (c : Cursor) (rest : List Token),
    c.rest = ts ++ rest → Follows level.rank rest →
    (tier n level c).Yields (Renumbers Expr.bare e c ts ds)
  | _, _, _, _, _, 0, _, _, _, _ => .exhausted
  | level, _, _, _, .joined hop hjoins, n + 1, c, rest, hr, hrest => by
    unfold tier
    rw [List.append_assoc] at hr
    refine (hop.yields n c _ hr (hjoins.follows hrest)).bind fun left' c₁ ⟨hbare, hr₁⟩ => ?_
    refine (hjoins.yields n left' c₁ rest hbare (hr₁.rest_eq hr) hrest).mono ?_
    exact fun e' c₂ ⟨hbare, hr₂⟩ => ⟨hbare, hr₁.trans hr₂⟩

theorem Grammar.Operand.yields : ∀ {level : Tier} {ts : List Token} {e : Expr}
    {ds : List Diagnostic}, Operand level ts e ds → ∀ (n : Nat) (c : Cursor) (rest : List Token),
    c.rest = ts ++ rest → Follows (level.rank + 1) rest →
    (operand n level c).Yields (Renumbers Expr.bare e c ts ds)
  | _, _, _, _, _, 0, _, _, _, _ => .exhausted
  | _, _, _, _, .or h, n + 1, c, rest, hr, hrest => h.yields n c rest hr hrest
  | _, _, _, _, .and h, n + 1, c, rest, hr, hrest => h.yields n c rest hr hrest
  | _, _, _, _, .equality h, n + 1, c, rest, hr, hrest => h.yields n c rest hr hrest
  | _, _, _, _, .comparison h, n + 1, c, rest, hr, hrest => h.yields n c rest hr hrest
  | _, _, _, _, .term h, n + 1, c, rest, hr, hrest => h.yields n c rest hr hrest
  | _, _, _, _, .factor h, n + 1, c, rest, hr, hrest => h.yields n c rest hr hrest

theorem Grammar.Joins.yields : ∀ {level : Tier} {left e : Expr} {us : List Token}
    {es : List Diagnostic}, Joins level left us e es → ∀ (n : Nat) (left' : Expr) (c : Cursor)
    (rest : List Token), left'.bare = left.bare → c.rest = us ++ rest → Follows level.rank rest →
    (tierTail n level left' c).Yields (Renumbers Expr.bare e c us es)
  | _, _, _, _, _, .none, n, left', c, rest, hbare, hr, hrest =>
    tierTail_yields n (hr ▸ hrest) ⟨hbare, .refl c⟩
  | _, _, _, _, _, .more _ _ _, 0, _, _, _, _, _, _ => .exhausted
  | _, _, _, _, _, .more hop hright hjoins, n + 1, left', c, rest, hbare, hr, hrest => by
    simp only [List.cons_append, List.append_assoc] at hr
    unfold tierTail
    rw [hr]
    simp only [hop.joiner?]
    refine (hright.yields n _ _ rfl (hjoins.follows hrest)).bind fun right' c₁ ⟨hbare', hr₁⟩ => ?_
    refine (hjoins.yields n _ { c₁ with nextId := c₁.nextId + 1 } rest
      (bare_join _ _ _ _ hbare hbare') (hr₁.rest_eq rfl) hrest).mono
      fun e' c₂ ⟨hbare, hr₂⟩ => ⟨hbare, ?_⟩
    simpa using (Reads.step hr).trans (hr₁.trans ((Reads.node c₁).trans hr₂))

theorem Grammar.Unary.yields : ∀ {ts : List Token} {e : Expr} {ds : List Diagnostic},
    Unary ts e ds → ∀ (n : Nat) (c : Cursor) (rest : List Token),
    c.rest = ts ++ rest → Follows 6 rest → (unary n c).Yields (Renumbers Expr.bare e c ts ds)
  | _, _, _, .operator _ _, 0, _, _, _, _ => .exhausted
  | _, _, _, .operator hop h, n + 1, c, rest, hr, hrest => by
    unfold unary
    rw [List.cons_append] at hr
    rw [hr]
    simp only [hop.isSign, if_true]
    refine (h.yields n _ rest rfl hrest).bind fun e' c₁ ⟨hbare, hr₁⟩ => .ok ⟨?_, ?_⟩
    · simp [Expr.bare, hbare]
    · simpa using (Reads.step hr).trans (hr₁.trans (.node c₁))
  | _, _, _, .call h, n, c, rest, hr, hrest => by
    obtain ⟨t, us, hts, ht⟩ := h.starts_plain
    refine unary_yields (by rw [hr, hts]; rfl) ht (fun n => ?_) n
    obtain hex | ⟨k, e', c', heq, hbare, hr'⟩ := h.reaches n c rest hr
    · exact .inl hex
    · rw [heq]
      exact callTail_yields k (hr'.rest_eq hr ▸ hrest) ⟨hbare, hr'⟩

theorem Grammar.Call.reaches : ∀ {ts : List Token} {e : Expr} {ds : List Diagnostic},
    Call ts e ds → ∀ (n : Nat) (c : Cursor) (rest : List Token), c.rest = ts ++ rest →
    Reaches (callChain n c) e c ts ds
  | _, _, _, _, 0, _, _, _ => .inl rfl
  | _, _, _, .chain hp hl, n + 1, c, rest, hr => by
    unfold callChain
    rw [List.append_assoc] at hr
    refine .bind (hp.yields n c _ hr) fun first' c₁ ⟨hbare, hr₁⟩ => ?_
    exact (hl.reaches n first' c₁ rest hbare (hr₁.rest_eq hr)).after hr₁

theorem Grammar.Links.reaches : ∀ {first e : Expr} {us : List Token} {es : List Diagnostic},
    Links first us e es → ∀ (n : Nat) (first' : Expr) (c : Cursor) (rest : List Token),
    first'.bare = first.bare → c.rest = us ++ rest → Reaches (callTail n first' c) e c us es
  | _, _, _, _, .none, n, first', c, _, hbare, _ => .inr ⟨n, first', c, rfl, hbare, .refl c⟩
  | _, _, _, _, .call _ _ _ _, 0, _, _, _, _, _ => .inl rfl
  | _, _, _, _, .call ht hargs hparen hl, n + 1, first', c, rest, hbare, hr => by
    simp only [List.cons_append, List.append_assoc] at hr
    unfold callTail
    rw [Cursor.accept?_cons hr ht]
    refine .bind (hargs.yields n _ _ _ rfl hparen) fun args' c₁ ⟨hargs', hr₁⟩ => ?_
    have hc₁ := hr₁.rest_eq rfl
    rw [Cursor.expect_cons _ hc₁ hparen]
    have hlinks := hl.reaches n (.call c₁.nextId first' _ args')
      { c₁ with rest := _, nextId := c₁.nextId + 1 } rest (by simp [Expr.bare, hbare, hargs']; rfl) rfl
    have hr₂ := (Reads.step hr).trans (hr₁.trans ((Reads.step hc₁).trans (.node _)))
    exact (hlinks.after hr₂).congr (by simp) (by simp)
  | _, _, _, _, .property _ _ _, 0, _, _, _, _, _ => .inl rfl
  | _, _, _, _, .property hdot hname hl, n + 1, first', c, rest, hbare, hr => by
    simp only [List.cons_append] at hr
    rw [callTail_property hr hdot hname]
    have hlinks := hl.reaches n (.get c.nextId first' _)
      { c with rest := _, nextId := c.nextId + 1 } rest (by simp [Expr.bare, hbare]; rfl) rfl
    exact hlinks.after ((Reads.two hr).trans (.node _))

theorem Grammar.Arguments.yields : ∀ {ts : List Token} {args : List Expr} {ds : List Diagnostic},
    Arguments ts args ds → ∀ (n : Nat) (c : Cursor) (paren : Token) (rest : List Token),
    c.rest = ts ++ paren :: rest → paren.kind = .rightParen →
    (arguments n c).Yields (Renumbers bareArgs args c ts ds)
  | _, _, _, _, 0, _, _, _, _, _ => .exhausted
  | _, _, _, .none, n + 1, c, paren, rest, hr, hparen => by
    unfold arguments
    rw [if_pos (Cursor.check_cons hr hparen)]
    exact .ok ⟨rfl, .refl c⟩
  | _, _, _, .some h, n + 1, c, paren, rest, hr, hparen => by
    obtain ⟨t, us, hts, ht⟩ := h.starts
    unfold arguments
    rw [if_neg (Cursor.check_ne (hr.trans (by rw [hts]; rfl)) (by rintro hk; rw [hk] at ht; cases ht))]
    exact h.yields n c paren rest hr hparen

theorem Grammar.ArgumentList.yields : ∀ {count : Nat} {ts : List Token} {args : List Expr}
    {ds : List Diagnostic}, ArgumentList count ts args ds → ∀ (n : Nat) (c : Cursor)
    (paren : Token) (rest : List Token), c.rest = ts ++ paren :: rest → paren.kind = .rightParen →
    (argumentList n count c).Yields (Renumbers bareArgs args c ts ds)
  | _, _, _, _, _, 0, _, _, _, _, _ => .exhausted
  | count, _, _, _, .last h, n + 1, c, paren, rest, hr, hparen => by
    have hnote := Reads.excess hr count .tooManyArguments
    unfold argumentList
    refine (h.yields n _ paren rest (hnote.rest.symm.trans hr) (by rw [hparen]; rfl)).bind
      fun e' c₁ ⟨hbare, hr₁⟩ => ?_
    rw [Cursor.accept?_eq_none_iff.2]
    · exact .ok ⟨by simp [bareArgs, hbare], hnote.trans hr₁⟩
    · rw [(hnote.trans hr₁).rest_eq hr]
      intro t' ht'
      cases ht'
      rw [hparen]
      decide
  | count, _, _, _, .more h hcomma hl, n + 1, c, paren, rest, hr, hparen => by
    have hr' := hr.trans (List.append_assoc (_ :: _) (_ :: _) _)
    have hnote := Reads.excess hr count .tooManyArguments
    unfold argumentList
    refine (h.yields n _ _ _ (hnote.rest.symm.trans hr') (by rw [hcomma]; rfl)).bind
      fun e' c₁ ⟨hbare, hr₁⟩ => ?_
    have hc₁ := (hnote.trans hr₁).rest_eq hr'
    rw [Cursor.accept?_cons hc₁ hcomma]
    refine (hl.yields n _ paren rest rfl hparen).bind fun args' c₂ ⟨hargs, hr₂⟩ => .ok ⟨?_, ?_⟩
    · simp [bareArgs, hbare, hargs]
    · simpa using hnote.trans (hr₁.trans ((Reads.step hc₁).trans hr₂))

theorem Grammar.Primary.yields : ∀ {ts : List Token} {e : Expr} {ds : List Diagnostic},
    Primary ts e ds → ∀ (n : Nat) (c : Cursor) (rest : List Token), c.rest = ts ++ rest →
    (primary n c).Yields (Renumbers Expr.bare e c ts ds)
  | _, _, _, _, 0, _, _, _ => .exhausted
  | _, _, _, .constant h, n + 1, c, rest, hr => by
    unfold primary
    rw [hr]
    cases h <;> rename_i hk <;> simp only [List.singleton_append, hk] <;>
      exact .ok ⟨rfl, (Reads.step hr).trans (.node _)⟩
  | _, _, _, .this hk, n + 1, c, rest, hr => by
    unfold primary
    rw [hr]
    simp only [List.singleton_append, hk]
    exact .ok ⟨rfl, (Reads.step hr).trans (.node _)⟩
  | _, _, _, .name hk, n + 1, c, rest, hr => by
    unfold primary
    rw [hr]
    simp only [List.singleton_append, hk]
    exact .ok ⟨rfl, (Reads.step hr).trans (.node _)⟩
  | _, _, _, .super hk hdot hname, n + 1, c, rest, hr => by
    unfold primary
    rw [hr]
    simp only [List.cons_append, hk]
    rw [Cursor.expect_cons _ rfl hdot, Reply.bind_ok, Cursor.expect_cons _ rfl hname]
    refine .ok ⟨rfl, ?_⟩
    exact (Reads.step hr).trans ((Reads.two rfl).trans (.node _))
  | _, _, _, .grouping hk h hparen, n + 1, c, rest, hr => by
    simp only [List.cons_append, List.append_assoc] at hr
    unfold primary
    rw [hr]
    simp only [hk]
    refine (h.yields n _ _ rest rfl (by rw [hparen]; rfl)).bind fun e' c₁ ⟨hbare, hr₁⟩ => ?_
    have hc₁ := hr₁.rest_eq rfl
    rw [Cursor.expect_cons _ hc₁ hparen]
    refine .ok ⟨by simp [Expr.bare, hbare], ?_⟩
    simpa using (Reads.step hr).trans (hr₁.trans ((Reads.step hc₁).trans (.node _)))

end

/-- **An expression of the grammar is read as its tree.** -/
theorem expression_yields {ts : List Token} {e : Expr} {ds : List Diagnostic} {c : Cursor}
    {t : Token} {rest : List Token} (h : Assignment ts e ds) (hr : c.rest = ts ++ t :: rest)
    (ht : closesExpression t.kind = true) :
    (expression c).Yields (Renumbers Expr.bare e c ts ds) :=
  h.yields _ c t rest hr ht

end LoxLang
