import LoxLang.Proofs.Grammar.Rules

/-!
# Derivations and classes of tokens

Whether tokens are derivable depends on their classes alone: a derivation without problems carries
over to any tokens of the same classes, with a tree of the same shape.

Principal result: `derives_of_sameKinds`.
-/

namespace LoxLang

open Grammar

/-- Tokens of the same classes in the same order. -/
def SameKinds (ts us : List Token) : Prop := ts.map Token.kind = us.map Token.kind

namespace SameKinds

variable {ts us vs : List Token} {t : Token}

theorem nil (h : SameKinds [] vs) : vs = [] := List.map_eq_nil_iff.1 h.symm

theorem cons (h : SameKinds (t :: ts) vs) :
    ∃ t' ts', vs = t' :: ts' ∧ t'.kind = t.kind ∧ SameKinds ts ts' := by
  obtain ⟨t', ts', rfl, ht, hts⟩ := List.map_eq_cons_iff.1 h.symm
  exact ⟨t', ts', rfl, ht, hts.symm⟩

theorem append (h : SameKinds (ts ++ us) vs) :
    ∃ ts' us', vs = ts' ++ us' ∧ SameKinds ts ts' ∧ SameKinds us us' := by
  unfold SameKinds at h
  rw [List.map_append] at h
  obtain ⟨ts', us', rfl, hts, hus⟩ := List.map_eq_append_iff.1 h.symm
  exact ⟨ts', us', rfl, hts.symm, hus.symm⟩

end SameKinds

theorem excess_congr {problem : Problem} {count : Nat} {first first' : Token}
    (h : excess problem count first = []) : excess problem count first' = [] := by
  unfold excess at h ⊢
  split at h
  · cases h
  · rename_i hn
    rw [if_neg hn]

theorem Grammar.Constant.sameKind {t t' : Token} {value : Literal} (h : Constant t value)
    (ht : t'.kind = t.kind) : ∃ value', Constant t' value' := by
  cases h with
  | false hk => exact ⟨_, .false (ht.trans hk)⟩
  | true hk => exact ⟨_, .true (ht.trans hk)⟩
  | nil hk => exact ⟨_, .nil (ht.trans hk)⟩
  | number hk => exact ⟨_, .number (ht.trans hk)⟩
  | string hk => exact ⟨_, .string (ht.trans hk)⟩

-- Tails take any tree on their left, so no tree has to be related to the one before.
mutual

theorem Grammar.Assignment.sameKinds : ∀ {ts : List Token} {e : Expr} {ds : List Diagnostic},
    Assignment ts e ds → ds = [] → ∀ ts', SameKinds ts ts' → ∃ e', Assignment ts' e' []
  | _, _, _, .toName hname hequals h, hds, ts', hts => by
    obtain ⟨name', _, rfl, hk, hts⟩ := hts.cons
    obtain ⟨equals', us, rfl, hk', hts⟩ := hts.cons
    obtain ⟨value', h'⟩ := h.sameKinds hds us hts
    exact ⟨.assign 0 name' value', .toName (hk.trans hname) (hk'.trans hequals) h'⟩
  | _, _, _, .toProperty hcall hdot hname hequals h, hds, ts', hts => by
    obtain ⟨hds, hes⟩ := List.append_eq_nil_iff.1 hds
    obtain ⟨us, _, rfl, hus, hts⟩ := hts.append
    obtain ⟨dot', _, rfl, hdot', hts⟩ := hts.cons
    obtain ⟨name', _, rfl, hname', hts⟩ := hts.cons
    obtain ⟨equals', vs, rfl, hequals', hts⟩ := hts.cons
    obtain ⟨object', hobject⟩ := hcall.sameKinds hds us hus
    obtain ⟨value', hvalue⟩ := h.sameKinds hes vs hts
    exact ⟨.set 0 object' name' value', .toProperty hobject (hdot'.trans hdot)
      (hname'.trans hname) (hequals'.trans hequals) hvalue⟩
  | _, _, _, .operators h, hds, ts', hts => by
    obtain ⟨e', h'⟩ := h.sameKinds hds ts' hts
    exact ⟨e', .operators h'⟩
  | _, _, _, .noTarget _ _ _ _, hds, _, _ => by simp at hds

theorem Grammar.Level.sameKinds : ∀ {level : Tier} {ts : List Token} {e : Expr}
    {ds : List Diagnostic}, Level level ts e ds → ds = [] → ∀ ts', SameKinds ts ts' →
    ∃ e', Level level ts' e' []
  | _, _, _, _, .joined hop hjoins, hds, ts', hts => by
    obtain ⟨hds, hes⟩ := List.append_eq_nil_iff.1 hds
    obtain ⟨us, vs, rfl, hus, hvs⟩ := hts.append
    obtain ⟨left', hleft⟩ := hop.sameKinds hds us hus
    obtain ⟨e', he⟩ := hjoins.sameKinds hes vs hvs left'
    exact ⟨e', .joined hleft he⟩

theorem Grammar.Operand.sameKinds : ∀ {level : Tier} {ts : List Token} {e : Expr}
    {ds : List Diagnostic}, Operand level ts e ds → ds = [] → ∀ ts', SameKinds ts ts' →
    ∃ e', Operand level ts' e' []
  | _, _, _, _, .or h, hds, ts', hts => (h.sameKinds hds ts' hts).imp fun _ => .or
  | _, _, _, _, .and h, hds, ts', hts => (h.sameKinds hds ts' hts).imp fun _ => .and
  | _, _, _, _, .equality h, hds, ts', hts => (h.sameKinds hds ts' hts).imp fun _ => .equality
  | _, _, _, _, .comparison h, hds, ts', hts => (h.sameKinds hds ts' hts).imp fun _ => .comparison
  | _, _, _, _, .term h, hds, ts', hts => (h.sameKinds hds ts' hts).imp fun _ => .term
  | _, _, _, _, .factor h, hds, ts', hts => (h.sameKinds hds ts' hts).imp fun _ => .factor

theorem Grammar.Joins.sameKinds : ∀ {level : Tier} {left e : Expr} {us : List Token}
    {es : List Diagnostic}, Joins level left us e es → es = [] → ∀ us', SameKinds us us' →
    ∀ left', ∃ e', Joins level left' us' e' []
  | _, _, _, _, _, .none, _, us', hus, left' => by
    obtain rfl := hus.nil
    exact ⟨left', .none⟩
  | _, _, _, _, _, @Joins.more _ _ _ _ _ joiner _ _ _ _ _ hop hright hjoins, hds, us', hus,
      left' => by
    obtain ⟨hds, hes⟩ := List.append_eq_nil_iff.1 hds
    obtain ⟨op', _, rfl, hk, hus⟩ := hus.cons
    obtain ⟨ts, vs, rfl, hts, hvs⟩ := hus.append
    obtain ⟨right', hright⟩ := hright.sameKinds hds ts hts
    obtain ⟨e', he⟩ := hjoins.sameKinds hes vs hvs (joiner.join left' op' right' 0)
    exact ⟨e', .more (hk ▸ hop) hright he⟩

theorem Grammar.Unary.sameKinds : ∀ {ts : List Token} {e : Expr} {ds : List Diagnostic},
    Unary ts e ds → ds = [] → ∀ ts', SameKinds ts ts' → ∃ e', Unary ts' e' []
  | _, _, _, .operator hop h, hds, ts', hts => by
    obtain ⟨op', us, rfl, hk, hts⟩ := hts.cons
    obtain ⟨e', he⟩ := h.sameKinds hds us hts
    exact ⟨.unary 0 op' e', .operator (hk ▸ hop) he⟩
  | _, _, _, .call h, hds, ts', hts => (h.sameKinds hds ts' hts).imp fun _ => .call

theorem Grammar.Call.sameKinds : ∀ {ts : List Token} {e : Expr} {ds : List Diagnostic},
    Call ts e ds → ds = [] → ∀ ts', SameKinds ts ts' → ∃ e', Call ts' e' []
  | _, _, _, .chain hp hl, hds, ts', hts => by
    obtain ⟨hds, hes⟩ := List.append_eq_nil_iff.1 hds
    obtain ⟨us, vs, rfl, hus, hvs⟩ := hts.append
    obtain ⟨first', hfirst⟩ := hp.sameKinds hds us hus
    obtain ⟨e', he⟩ := hl.sameKinds hes vs hvs first'
    exact ⟨e', .chain hfirst he⟩

theorem Grammar.Links.sameKinds : ∀ {first e : Expr} {us : List Token} {es : List Diagnostic},
    Links first us e es → es = [] → ∀ us', SameKinds us us' → ∀ first', ∃ e',
    Links first' us' e' []
  | _, _, _, _, .none, _, us', hus, first' => by
    obtain rfl := hus.nil
    exact ⟨first', .none⟩
  | _, _, _, _, .call ht hargs hparen hl, hds, us', hus, first' => by
    obtain ⟨hds, hes⟩ := List.append_eq_nil_iff.1 hds
    obtain ⟨t', _, rfl, ht', hus⟩ := hus.cons
    obtain ⟨ts, _, rfl, hts, hus⟩ := hus.append
    obtain ⟨paren', vs, rfl, hparen', hvs⟩ := hus.cons
    obtain ⟨args', hargs⟩ := hargs.sameKinds hds ts hts
    obtain ⟨e', he⟩ := hl.sameKinds hes vs hvs (.call 0 first' paren' args')
    exact ⟨e', .call (ht'.trans ht) hargs (hparen'.trans hparen) he⟩
  | _, _, _, _, .property hdot hname hl, hds, us', hus, first' => by
    obtain ⟨dot', _, rfl, hdot', hus⟩ := hus.cons
    obtain ⟨name', vs, rfl, hname', hvs⟩ := hus.cons
    obtain ⟨e', he⟩ := hl.sameKinds hds vs hvs (.get 0 first' name')
    exact ⟨e', .property (hdot'.trans hdot) (hname'.trans hname) he⟩

theorem Grammar.Arguments.sameKinds : ∀ {ts : List Token} {args : List Expr}
    {ds : List Diagnostic}, Arguments ts args ds → ds = [] → ∀ ts', SameKinds ts ts' →
    ∃ args', Arguments ts' args' []
  | _, _, _, .none, _, ts', hts => by
    obtain rfl := hts.nil
    exact ⟨[], .none⟩
  | _, _, _, .some h, hds, ts', hts => (h.sameKinds hds ts' hts).imp fun _ => .some

theorem Grammar.ArgumentList.sameKinds : ∀ {count : Nat} {ts : List Token} {args : List Expr}
    {ds : List Diagnostic}, ArgumentList count ts args ds → ds = [] → ∀ ts', SameKinds ts ts' →
    ∃ args', ArgumentList count ts' args' []
  | count, _, _, _, .last h, hds, ts', hts => by
    obtain ⟨hexcess, hds⟩ := List.append_eq_nil_iff.1 hds
    obtain ⟨t', us, rfl, _, _⟩ := hts.cons
    obtain ⟨e', he⟩ := h.sameKinds hds _ hts
    have hlist : ArgumentList count _ _ _ := .last he
    rw [excess_congr hexcess] at hlist
    exact ⟨[e'], hlist⟩
  | count, _, _, _, .more h hcomma hl, hds, ts', hts => by
    obtain ⟨hexcess, hds⟩ := List.append_eq_nil_iff.1 hds
    obtain ⟨hds, hes⟩ := List.append_eq_nil_iff.1 hds
    obtain ⟨t', _, rfl, ht, hts⟩ := hts.cons
    obtain ⟨us, _, rfl, hus, hts⟩ := hts.append
    obtain ⟨comma', vs, rfl, hcomma', hvs⟩ := hts.cons
    obtain ⟨e', he⟩ := h.sameKinds hds (t' :: us) (by unfold SameKinds at hus ⊢; simp [ht, hus])
    obtain ⟨args', hargs⟩ := hl.sameKinds hes vs hvs
    have hlist := ArgumentList.more he (hcomma'.trans hcomma) hargs
    rw [excess_congr hexcess] at hlist
    exact ⟨e' :: args', hlist⟩

theorem Grammar.Primary.sameKinds : ∀ {ts : List Token} {e : Expr} {ds : List Diagnostic},
    Primary ts e ds → ds = [] → ∀ ts', SameKinds ts ts' → ∃ e', Primary ts' e' []
  | _, _, _, .constant h, _, ts', hts => by
    obtain ⟨t', us, rfl, ht, hts⟩ := hts.cons
    obtain rfl := hts.nil
    obtain ⟨value', h'⟩ := h.sameKind ht
    exact ⟨.literal 0 value', .constant h'⟩
  | _, _, _, .this hk, _, ts', hts => by
    obtain ⟨t', us, rfl, ht, hts⟩ := hts.cons
    obtain rfl := hts.nil
    exact ⟨.this 0 t', .this (ht.trans hk)⟩
  | _, _, _, .name hk, _, ts', hts => by
    obtain ⟨t', us, rfl, ht, hts⟩ := hts.cons
    obtain rfl := hts.nil
    exact ⟨.var 0 t', .name (ht.trans hk)⟩
  | _, _, _, .super hk hdot hname, _, ts', hts => by
    obtain ⟨t', _, rfl, ht, hts⟩ := hts.cons
    obtain ⟨dot', _, rfl, hdot', hts⟩ := hts.cons
    obtain ⟨name', _, rfl, hname', hts⟩ := hts.cons
    obtain rfl := hts.nil
    exact ⟨.super 0 t' name', .super (ht.trans hk) (hdot'.trans hdot) (hname'.trans hname)⟩
  | _, _, _, .grouping ht h hparen, hds, ts', hts => by
    obtain ⟨t', _, rfl, ht', hts⟩ := hts.cons
    obtain ⟨us, _, rfl, hus, hts⟩ := hts.append
    obtain ⟨paren', _, rfl, hparen', hts⟩ := hts.cons
    obtain rfl := hts.nil
    obtain ⟨e', he⟩ := h.sameKinds hds us hus
    exact ⟨.grouping 0 e', .grouping (ht'.trans ht) he (hparen'.trans hparen)⟩

end

theorem Grammar.Variable.sameKinds {ts ts' : List Token} {s : Stmt} (h : Variable ts s [])
    (hts : SameKinds ts ts') : ∃ s', Variable ts' s' [] := by
  cases h with
  | plain hname ht =>
    obtain ⟨name', _, rfl, hname', hts⟩ := hts.cons
    obtain ⟨t', _, rfl, ht', hts⟩ := hts.cons
    obtain rfl := hts.nil
    exact ⟨.declare 0 name' none, .plain (hname'.trans hname) (ht'.trans ht)⟩
  | initialized hname hequals h ht =>
    obtain ⟨name', _, rfl, hname', hts⟩ := hts.cons
    obtain ⟨equals', _, rfl, hequals', hts⟩ := hts.cons
    obtain ⟨us, _, rfl, hus, hts⟩ := hts.append
    obtain ⟨t', _, rfl, ht', hts⟩ := hts.cons
    obtain rfl := hts.nil
    obtain ⟨value', h'⟩ := h.sameKinds rfl us hus
    exact ⟨.declare 0 name' (some value'),
      .initialized (hname'.trans hname) (hequals'.trans hequals) h' (ht'.trans ht)⟩

theorem Grammar.ExpressionStmt.sameKinds {ts ts' : List Token} {s : Stmt}
    (h : ExpressionStmt ts s []) (hts : SameKinds ts ts') : ∃ s', ExpressionStmt ts' s' [] := by
  obtain ⟨h, ht⟩ := h
  obtain ⟨us, _, rfl, hus, hts⟩ := hts.append
  obtain ⟨t', _, rfl, ht', hts⟩ := hts.cons
  obtain rfl := hts.nil
  obtain ⟨e', h'⟩ := h.sameKinds rfl us hus
  exact ⟨.expression 0 e', .mk h' (ht'.trans ht)⟩

theorem Grammar.Optional.sameKinds {ts ts' : List Token} {e : Option Expr} (h : Optional ts e [])
    (hts : SameKinds ts ts') : ∃ e', Optional ts' e' [] := by
  cases h with
  | none =>
    obtain rfl := hts.nil
    exact ⟨Option.none, .none⟩
  | some h =>
    obtain ⟨e', h'⟩ := h.sameKinds rfl ts' hts
    exact ⟨Option.some e', .some h'⟩

theorem Grammar.ParameterList.sameKinds : ∀ {count : Nat} {ts params : List Token}
    {ds : List Diagnostic}, ParameterList count ts params ds → ds = [] → ∀ ts', SameKinds ts ts' →
    ∃ params', ParameterList count ts' params' []
  | count, _, _, _, .last hname, hds, ts', hts => by
    obtain ⟨name', _, rfl, hname', hts⟩ := hts.cons
    obtain rfl := hts.nil
    have hlist : ParameterList count _ _ _ := .last (hname'.trans hname)
    rw [excess_congr hds] at hlist
    exact ⟨[name'], hlist⟩
  | _, _, _, _, .more hname hcomma h, hds, ts', hts => by
    obtain ⟨hexcess, hds⟩ := List.append_eq_nil_iff.1 hds
    obtain ⟨name', _, rfl, hname', hts⟩ := hts.cons
    obtain ⟨comma', us, rfl, hcomma', hts⟩ := hts.cons
    obtain ⟨params', h'⟩ := h.sameKinds hds us hts
    have hlist := ParameterList.more (hname'.trans hname) (hcomma'.trans hcomma) h'
    rw [excess_congr hexcess] at hlist
    exact ⟨name' :: params', hlist⟩

theorem Grammar.Parameters.sameKinds {ts ts' params : List Token} (h : Parameters ts params [])
    (hts : SameKinds ts ts') : ∃ params', Parameters ts' params' [] := by
  cases h with
  | none =>
    obtain rfl := hts.nil
    exact ⟨[], .none⟩
  | some h => exact (h.sameKinds rfl ts' hts).imp fun _ => .some

theorem Grammar.SuperclassClause.sameKinds {ts ts' : List Token} {superclass : Option Superclass}
    (h : SuperclassClause ts superclass) (hts : SameKinds ts ts') :
    ∃ superclass', SuperclassClause ts' superclass' := by
  cases h with
  | none =>
    obtain rfl := hts.nil
    exact ⟨Option.none, .none⟩
  | some ht hname =>
    obtain ⟨t', _, rfl, ht', hts⟩ := hts.cons
    obtain ⟨name', _, rfl, hname', hts⟩ := hts.cons
    obtain rfl := hts.nil
    exact ⟨Option.some ⟨0, name'⟩, .some (ht'.trans ht) (hname'.trans hname)⟩

theorem Grammar.ForStart.sameKinds {ts ts' : List Token} {start : Option Stmt}
    (h : ForStart ts start []) (hts : SameKinds ts ts') : ∃ start', ForStart ts' start' [] := by
  cases h with
  | none ht =>
    obtain ⟨t', _, rfl, ht', hts⟩ := hts.cons
    obtain rfl := hts.nil
    exact ⟨Option.none, .none (ht'.trans ht)⟩
  | var hk h =>
    obtain ⟨keyword', us, rfl, hk', hts⟩ := hts.cons
    obtain ⟨s', h'⟩ := h.sameKinds hts
    exact ⟨some s', .var (hk'.trans hk) h'⟩
  | expression h =>
    obtain ⟨s', h'⟩ := h.sameKinds hts
    exact ⟨some s', .expression h'⟩

mutual

theorem Grammar.Statement.sameKinds : ∀ {dangling : Bool} {ts : List Token} {s : Stmt}
    {ds : List Diagnostic}, Statement dangling ts s ds → ds = [] → ∀ ts', SameKinds ts ts' →
    ∃ s', Statement dangling ts' s' []
  | _, _, _, _, .expression h, hds, ts', hts => by
    subst hds
    exact (h.sameKinds hts).imp fun _ => .expression
  | _, _, _, _, .print hk h ht, hds, ts', hts => by
    obtain ⟨keyword', _, rfl, hk', hts⟩ := hts.cons
    obtain ⟨us, _, rfl, hus, hts⟩ := hts.append
    obtain ⟨t', _, rfl, ht', hts⟩ := hts.cons
    obtain rfl := hts.nil
    obtain ⟨e', h'⟩ := h.sameKinds hds us hus
    exact ⟨.print 0 e', .print (hk'.trans hk) h' (ht'.trans ht)⟩
  | _, _, _, _, .ret hk h ht, hds, ts', hts => by
    subst hds
    obtain ⟨keyword', _, rfl, hk', hts⟩ := hts.cons
    obtain ⟨us, _, rfl, hus, hts⟩ := hts.append
    obtain ⟨t', _, rfl, ht', hts⟩ := hts.cons
    obtain rfl := hts.nil
    obtain ⟨e', h'⟩ := h.sameKinds hus
    exact ⟨.ret 0 keyword' e', .ret (hk'.trans hk) h' (ht'.trans ht)⟩
  | _, _, _, _, .loop hk ht hcond hparen h, hds, ts', hts => by
    obtain ⟨hds, hes⟩ := List.append_eq_nil_iff.1 hds
    obtain ⟨keyword', _, rfl, hk', hts⟩ := hts.cons
    obtain ⟨t', _, rfl, ht', hts⟩ := hts.cons
    obtain ⟨us, _, rfl, hus, hts⟩ := hts.append
    obtain ⟨paren', vs, rfl, hparen', hvs⟩ := hts.cons
    obtain ⟨cond', hcond⟩ := hcond.sameKinds hds us hus
    obtain ⟨body', h'⟩ := h.sameKinds hes vs hvs
    exact ⟨.loop 0 cond' body', .loop (hk'.trans hk) (ht'.trans ht) hcond
      (hparen'.trans hparen) h'⟩
  | _, _, _, _, .ifThen hk ht hcond hparen h, hds, ts', hts => by
    obtain ⟨hds, hes⟩ := List.append_eq_nil_iff.1 hds
    obtain ⟨keyword', _, rfl, hk', hts⟩ := hts.cons
    obtain ⟨t', _, rfl, ht', hts⟩ := hts.cons
    obtain ⟨us, _, rfl, hus, hts⟩ := hts.append
    obtain ⟨paren', vs, rfl, hparen', hvs⟩ := hts.cons
    obtain ⟨cond', hcond⟩ := hcond.sameKinds hds us hus
    obtain ⟨s', h'⟩ := h.sameKinds hes vs hvs
    exact ⟨.conditional 0 cond' s' none, .ifThen (hk'.trans hk) (ht'.trans ht) hcond
      (hparen'.trans hparen) h'⟩
  | _, _, _, _, .ifElse hk ht hcond hparen h hop h', hds, ts', hts => by
    obtain ⟨hds, hfs⟩ := List.append_eq_nil_iff.1 hds
    obtain ⟨hds, hes⟩ := List.append_eq_nil_iff.1 hds
    obtain ⟨keyword', _, rfl, hk', hts⟩ := hts.cons
    obtain ⟨t', _, rfl, ht', hts⟩ := hts.cons
    obtain ⟨us, _, rfl, hus, hts⟩ := hts.append
    obtain ⟨paren', _, rfl, hparen', hts⟩ := hts.cons
    obtain ⟨vs, _, rfl, hvs, hts⟩ := hts.append
    obtain ⟨op', ws, rfl, hop', hws⟩ := hts.cons
    obtain ⟨cond', hcond⟩ := hcond.sameKinds hds us hus
    obtain ⟨s₁, h₁⟩ := h.sameKinds hes vs hvs
    obtain ⟨s₂, h₂⟩ := h'.sameKinds hfs ws hws
    exact ⟨.conditional 0 cond' s₁ (some s₂), .ifElse (hk'.trans hk) (ht'.trans ht) hcond
      (hparen'.trans hparen) h₁ (hop'.trans hop) h₂⟩
  | _, _, _, _, .forLoop hk ht hstart hcond hsemi hincrement hparen h, hds, ts', hts => by
    obtain ⟨hds, hgs⟩ := List.append_eq_nil_iff.1 hds
    obtain ⟨hds, hfs⟩ := List.append_eq_nil_iff.1 hds
    obtain ⟨hds, hes⟩ := List.append_eq_nil_iff.1 hds
    obtain ⟨keyword', _, rfl, hk', hts⟩ := hts.cons
    obtain ⟨t', _, rfl, ht', hts⟩ := hts.cons
    obtain ⟨us, _, rfl, hus, hts⟩ := hts.append
    obtain ⟨vs, _, rfl, hvs, hts⟩ := hts.append
    obtain ⟨semi', _, rfl, hsemi', hts⟩ := hts.cons
    obtain ⟨ws, _, rfl, hws, hts⟩ := hts.append
    obtain ⟨paren', xs, rfl, hparen', hxs⟩ := hts.cons
    obtain ⟨body', h'⟩ := h.sameKinds hgs xs hxs
    rw [hds] at hstart
    rw [hes] at hcond
    rw [hfs] at hincrement
    obtain ⟨start', hstart⟩ := hstart.sameKinds hus
    obtain ⟨cond', hcond⟩ := hcond.sameKinds hvs
    obtain ⟨increment', hincrement⟩ := hincrement.sameKinds hws
    exact ⟨whileForm 0 0 0 0 0 start' cond' increment' body', .forLoop (hk'.trans hk)
      (ht'.trans ht) hstart hcond (hsemi'.trans hsemi) hincrement (hparen'.trans hparen) h'⟩
  | _, _, _, _, .block ht h, hds, ts', hts => by
    obtain ⟨t', us, rfl, ht', hts⟩ := hts.cons
    obtain ⟨body', h'⟩ := h.sameKinds hds us hts
    exact ⟨.block 0 body', .block (ht'.trans ht) h'⟩

theorem Grammar.Declaration.sameKinds : ∀ {ts : List Token} {s : Stmt} {ds : List Diagnostic},
    Declaration ts s ds → ds = [] → ∀ ts', SameKinds ts ts' → ∃ s', Declaration ts' s' []
  | _, _, _, .classDecl hk hname hclause ht hmethods hparen, hds, ts', hts => by
    obtain ⟨keyword', _, rfl, hk', hts⟩ := hts.cons
    obtain ⟨name', _, rfl, hname', hts⟩ := hts.cons
    obtain ⟨us, _, rfl, hus, hts⟩ := hts.append
    obtain ⟨t', _, rfl, ht', hts⟩ := hts.cons
    obtain ⟨vs, _, rfl, hvs, hts⟩ := hts.append
    obtain ⟨paren', _, rfl, hparen', hts⟩ := hts.cons
    obtain rfl := hts.nil
    obtain ⟨superclass', hclause⟩ := hclause.sameKinds hus
    obtain ⟨methods', hmethods⟩ := hmethods.sameKinds hds vs hvs
    exact ⟨.classDecl 0 name' superclass' methods', .classDecl (hk'.trans hk) (hname'.trans hname)
      hclause (ht'.trans ht) hmethods (hparen'.trans hparen)⟩
  | _, _, _, .function hk h, hds, ts', hts => by
    obtain ⟨keyword', us, rfl, hk', hts⟩ := hts.cons
    obtain ⟨f', h'⟩ := h.sameKinds hds us hts
    exact ⟨.function f', .function (hk'.trans hk) h'⟩
  | _, _, _, .var hk h, hds, ts', hts => by
    subst hds
    obtain ⟨keyword', us, rfl, hk', hts⟩ := hts.cons
    obtain ⟨s', h'⟩ := h.sameKinds hts
    exact ⟨s', .var (hk'.trans hk) h'⟩
  | _, _, _, .statement h, hds, ts', hts => (h.sameKinds hds ts' hts).imp fun _ => .statement

theorem Grammar.Declarations.sameKinds : ∀ {ts : List Token} {ss : List Stmt}
    {ds : List Diagnostic}, Declarations ts ss ds → ds = [] → ∀ ts', SameKinds ts ts' →
    ∃ ss', Declarations ts' ss' []
  | _, _, _, .none, _, ts', hts => by
    obtain rfl := hts.nil
    exact ⟨[], .none⟩
  | _, _, _, .more h hs, hds, ts', hts => by
    obtain ⟨hds, hes⟩ := List.append_eq_nil_iff.1 hds
    obtain ⟨us, vs, rfl, hus, hvs⟩ := hts.append
    obtain ⟨s', h'⟩ := h.sameKinds hds us hus
    obtain ⟨ss', hs'⟩ := hs.sameKinds hes vs hvs
    exact ⟨s' :: ss', .more h' hs'⟩

theorem Grammar.Block.sameKinds : ∀ {ts : List Token} {body : List Stmt} {ds : List Diagnostic},
    Block ts body ds → ds = [] → ∀ ts', SameKinds ts ts' → ∃ body', Block ts' body' []
  | _, _, _, .closed h ht, hds, ts', hts => by
    obtain ⟨us, _, rfl, hus, hts⟩ := hts.append
    obtain ⟨t', _, rfl, ht', hts⟩ := hts.cons
    obtain rfl := hts.nil
    obtain ⟨body', h'⟩ := h.sameKinds hds us hus
    exact ⟨body', .closed h' (ht'.trans ht)⟩

theorem Grammar.Routine.sameKinds : ∀ {ts : List Token} {f : Function} {ds : List Diagnostic},
    Routine ts f ds → ds = [] → ∀ ts', SameKinds ts ts' → ∃ f', Routine ts' f' []
  | _, _, _, .mk hname ht hparams hparen hbrace hbody, hds, ts', hts => by
    obtain ⟨hds, hes⟩ := List.append_eq_nil_iff.1 hds
    obtain ⟨name', _, rfl, hname', hts⟩ := hts.cons
    obtain ⟨t', _, rfl, ht', hts⟩ := hts.cons
    obtain ⟨us, _, rfl, hus, hts⟩ := hts.append
    obtain ⟨paren', _, rfl, hparen', hts⟩ := hts.cons
    obtain ⟨brace', vs, rfl, hbrace', hvs⟩ := hts.cons
    obtain ⟨body', hbody⟩ := hbody.sameKinds hes vs hvs
    rw [hds] at hparams
    obtain ⟨params', hparams⟩ := hparams.sameKinds hus
    exact ⟨⟨0, name', params', body'⟩, .mk (hname'.trans hname) (ht'.trans ht) hparams
      (hparen'.trans hparen) (hbrace'.trans hbrace) hbody⟩

theorem Grammar.Routines.sameKinds : ∀ {ts : List Token} {fs : List Function}
    {ds : List Diagnostic}, Routines ts fs ds → ds = [] → ∀ ts', SameKinds ts ts' →
    ∃ fs', Routines ts' fs' []
  | _, _, _, .none, _, ts', hts => by
    obtain rfl := hts.nil
    exact ⟨[], .none⟩
  | _, _, _, .more h hs, hds, ts', hts => by
    obtain ⟨hds, hes⟩ := List.append_eq_nil_iff.1 hds
    obtain ⟨us, vs, rfl, hus, hvs⟩ := hts.append
    obtain ⟨f', h'⟩ := h.sameKinds hds us hus
    obtain ⟨fs', hs'⟩ := hs.sameKinds hes vs hvs
    exact ⟨f' :: fs', .more h' hs'⟩

end

/-- **Whether tokens are a program depends on their classes alone.** -/
theorem derives_of_sameKinds {tokens tokens' : List Token} {tree : List Stmt}
    (h : Derives tokens tree) (hkinds : SameKinds tokens tokens') :
    ∃ tree', Derives tokens' tree' :=
  h.sameKinds rfl tokens' hkinds

end LoxLang
