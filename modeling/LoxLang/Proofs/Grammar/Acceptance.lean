import LoxLang.Proofs.Grammar.Allowance
import LoxLang.Proofs.Grammar.Completeness.Statement
import LoxLang.Proofs.Grammar.Kinds
import LoxLang.Proofs.Tree.Proper

/-!
# Programs that are accepted

A program is read without a problem if and only if its tokens are a program of the grammar.  What
is read then is the tree of the derivation, up to the numbers of its nodes, and it is a proper
tree.
-/

namespace LoxLang

open Grammar

/-! ## Derivations have proper trees -/

section Proper

variable {P : Token → Prop}

theorem excess_eq_nil {problem : Problem} {count : Nat} {first : Token}
    (h : excess problem count first = []) : count < maxArguments := by
  unfold excess at h
  split at h
  · cases h
  · omega

/-- The operators of the grammar stand for operations. -/
theorem Grammar.Operator.binaryOp?_isSome {level : Tier} {kind : TokenKind}
    (h : Operator level kind .binary) : (binaryOp? kind).isSome := by
  cases h <;> rfl

theorem Grammar.SignOperator.unaryOp?_isSome {kind : TokenKind} (h : SignOperator kind) :
    (unaryOp? kind).isSome := by
  cases h <;> rfl

theorem proper_join {level : Tier} {joiner : Joiner} {left right : Expr} {op : Token} {id : Nat}
    (hjoins : Grammar.Operator level op.kind joiner) (hleft : left.Proper P) (hop : P op)
    (hright : right.Proper P) : (joiner.join left op right id).Proper P := by
  cases joiner with
  | logical => exact ⟨hleft, hop, hright⟩
  | binary => exact ⟨hleft, ⟨hjoins.binaryOp?_isSome, hop⟩, hright⟩

mutual

theorem Grammar.Assignment.proper : ∀ {ts : List Token} {e : Expr} {ds : List Diagnostic},
    Assignment ts e ds → ds = [] → (∀ t ∈ ts, P t) → e.Proper P
  | _, _, _, .toName hname _ h, hds, hts =>
    ⟨⟨hname, hts _ (by simp)⟩, h.proper hds fun t ht => hts t (by simp [ht])⟩
  | _, _, _, .toProperty hcall _ hname _ h, hds, hts =>
    have hds := List.append_eq_nil_iff.1 hds
    ⟨hcall.proper hds.1 fun t ht => hts t (by simp [ht]), ⟨hname, hts _ (by simp)⟩,
      h.proper hds.2 fun t ht => hts t (by simp [ht])⟩
  | _, _, _, .operators h, hds, hts => h.proper hds hts
  | _, _, _, .noTarget _ _ _ _, hds, _ => by simp at hds

theorem Grammar.Level.proper : ∀ {level : Tier} {ts : List Token} {e : Expr}
    {ds : List Diagnostic}, Level level ts e ds → ds = [] → (∀ t ∈ ts, P t) → e.Proper P
  | _, _, _, _, .joined hop hjoins, hds, hts =>
    have hds := List.append_eq_nil_iff.1 hds
    hjoins.proper hds.2 (hop.proper hds.1 fun t ht => hts t (by simp [ht]))
      fun t ht => hts t (by simp [ht])

theorem Grammar.Operand.proper : ∀ {level : Tier} {ts : List Token} {e : Expr}
    {ds : List Diagnostic}, Operand level ts e ds → ds = [] → (∀ t ∈ ts, P t) → e.Proper P
  | _, _, _, _, .or h, hds, hts => h.proper hds hts
  | _, _, _, _, .and h, hds, hts => h.proper hds hts
  | _, _, _, _, .equality h, hds, hts => h.proper hds hts
  | _, _, _, _, .comparison h, hds, hts => h.proper hds hts
  | _, _, _, _, .term h, hds, hts => h.proper hds hts
  | _, _, _, _, .factor h, hds, hts => h.proper hds hts

theorem Grammar.Joins.proper : ∀ {level : Tier} {left e : Expr} {us : List Token}
    {es : List Diagnostic}, Joins level left us e es → es = [] → left.Proper P →
    (∀ t ∈ us, P t) → e.Proper P
  | _, _, _, _, _, .none, _, hleft, _ => hleft
  | _, _, _, _, _, .more hop hright hjoins, hds, hleft, hts =>
    have hds := List.append_eq_nil_iff.1 hds
    have hright := hright.proper hds.1 fun t ht => hts t (by simp [ht])
    hjoins.proper hds.2 (proper_join hop hleft (hts _ (by simp)) hright) fun t ht => hts t (by simp [ht])

theorem Grammar.Unary.proper : ∀ {ts : List Token} {e : Expr} {ds : List Diagnostic},
    Unary ts e ds → ds = [] → (∀ t ∈ ts, P t) → e.Proper P
  | _, _, _, .operator hop h, hds, hts =>
    ⟨⟨hop.unaryOp?_isSome, hts _ (by simp)⟩, h.proper hds fun t ht => hts t (by simp [ht])⟩
  | _, _, _, .call h, hds, hts => h.proper hds hts

theorem Grammar.Call.proper : ∀ {ts : List Token} {e : Expr} {ds : List Diagnostic},
    Call ts e ds → ds = [] → (∀ t ∈ ts, P t) → e.Proper P
  | _, _, _, .chain hp hl, hds, hts =>
    have hds := List.append_eq_nil_iff.1 hds
    hl.proper hds.2 (hp.proper hds.1 fun t ht => hts t (by simp [ht]))
      fun t ht => hts t (by simp [ht])

theorem Grammar.Links.proper : ∀ {first e : Expr} {us : List Token} {es : List Diagnostic},
    Links first us e es → es = [] → first.Proper P → (∀ t ∈ us, P t) → e.Proper P
  | _, _, _, _, .none, _, hfirst, _ => hfirst
  | _, _, _, _, .call _ hargs _ hl, hds, hfirst, hts =>
    have hds := List.append_eq_nil_iff.1 hds
    have hargs := hargs.proper hds.1 fun t ht => hts t (by simp [ht])
    hl.proper hds.2 ⟨hfirst, hts _ (by simp), hargs⟩ fun t ht => hts t (by simp [ht])
  | _, _, _, _, .property _ hname hl, hds, hfirst, hts =>
    hl.proper hds ⟨hfirst, hname, hts _ (by simp)⟩ fun t ht => hts t (by simp [ht])

theorem Grammar.Arguments.proper : ∀ {ts : List Token} {args : List Expr} {ds : List Diagnostic},
    Arguments ts args ds → ds = [] → (∀ t ∈ ts, P t) →
    ProperArgs P args ∧ args.length ≤ maxArguments
  | _, _, _, .none, _, _ => ⟨trivial, by decide⟩
  | _, _, _, .some h, hds, hts => by
    obtain ⟨hargs, hlen⟩ := h.proper hds hts
    exact ⟨hargs, by omega⟩

theorem Grammar.ArgumentList.proper : ∀ {count : Nat} {ts : List Token} {args : List Expr}
    {ds : List Diagnostic}, ArgumentList count ts args ds → ds = [] → (∀ t ∈ ts, P t) →
    ProperArgs P args ∧ count + args.length ≤ maxArguments
  | _, _, _, _, .last h, hds, hts => by
    obtain ⟨hexcess, hds⟩ := List.append_eq_nil_iff.1 hds
    have hcount := excess_eq_nil hexcess
    exact ⟨⟨h.proper hds hts, trivial⟩, hcount⟩
  | _, _, _, _, .more h _ hl, hds, hts => by
    obtain ⟨_, hds⟩ := List.append_eq_nil_iff.1 hds
    obtain ⟨hds, hes⟩ := List.append_eq_nil_iff.1 hds
    have hfirst := h.proper hds fun t ht => hts t (List.mem_append_left _ ht)
    obtain ⟨hargs, hlen⟩ := hl.proper hes fun t ht => hts t (by simp [ht])
    exact ⟨⟨hfirst, hargs⟩, by simp only [List.length_cons]; omega⟩

theorem Grammar.Primary.proper : ∀ {ts : List Token} {e : Expr} {ds : List Diagnostic},
    Primary ts e ds → ds = [] → (∀ t ∈ ts, P t) → e.Proper P
  | _, _, _, .constant _, _, _ => trivial
  | _, _, _, .this hk, _, hts => ⟨hk, hts _ (by simp)⟩
  | _, _, _, .name hk, _, hts => ⟨hk, hts _ (by simp)⟩
  | _, _, _, .super hk _ hname, _, hts => ⟨⟨hk, hts _ (by simp)⟩, hname, hts _ (by simp)⟩
  | _, _, _, .grouping _ h _, hds, hts => h.proper hds fun t ht => hts t (by simp [ht])

end

theorem Grammar.Variable.proper {ts : List Token} {s : Stmt} (h : Variable ts s [])
    (hts : ∀ t ∈ ts, P t) : s.Proper P := by
  cases h with
  | plain hname _ => exact ⟨hname, hts _ (by simp)⟩
  | initialized hname _ h _ =>
    exact ⟨⟨hname, hts _ (by simp)⟩, h.proper rfl fun t ht => hts t (by simp [ht])⟩

theorem Grammar.ExpressionStmt.proper {ts : List Token} {s : Stmt} (h : ExpressionStmt ts s [])
    (hts : ∀ t ∈ ts, P t) : s.Proper P ∧ s.isDeclaration = false := by
  obtain ⟨h, _⟩ := h
  exact ⟨h.proper rfl fun t ht => hts t (by simp [ht]), rfl⟩

theorem Grammar.Optional.proper {ts : List Token} {e : Option Expr} (h : Optional ts e [])
    (hts : ∀ t ∈ ts, P t) : ∀ value ∈ e, value.Proper P := by
  intro value hv
  cases h with
  | none => cases hv
  | some h => cases hv; exact h.proper rfl hts

theorem Grammar.ParameterList.proper : ∀ {count : Nat} {ts params : List Token}
    {ds : List Diagnostic}, ParameterList count ts params ds → ds = [] → (∀ t ∈ ts, P t) →
    (∀ name ∈ params, ProperName P name) ∧ count + params.length ≤ maxArguments
  | _, _, _, _, .last hname, hds, hts => by
    have hcount := excess_eq_nil hds
    exact ⟨by simpa using ⟨hname, hts _ (by simp)⟩, hcount⟩
  | _, _, _, _, .more hname _ h, hds, hts => by
    obtain ⟨_, hds⟩ := List.append_eq_nil_iff.1 hds
    obtain ⟨hnames, hlen⟩ := h.proper hds fun t ht => hts t (by simp [ht])
    refine ⟨List.forall_mem_cons.2 ⟨⟨hname, hts _ (by simp)⟩, hnames⟩, ?_⟩
    simp only [List.length_cons]
    omega

theorem Grammar.Parameters.proper {ts params : List Token} (h : Parameters ts params [])
    (hts : ∀ t ∈ ts, P t) : ProperParams P params := by
  cases h with
  | none => exact ⟨by simp, by decide⟩
  | some h =>
    obtain ⟨hnames, hlen⟩ := h.proper rfl hts
    exact ⟨hnames, by omega⟩

theorem Grammar.SuperclassClause.proper {ts : List Token} {superclass : Option Superclass}
    (h : SuperclassClause ts superclass) (hts : ∀ t ∈ ts, P t) :
    ∀ s ∈ superclass, ProperName P s.name := by
  intro s hs
  cases h with
  | none => cases hs
  | some _ hname => cases hs; exact ⟨hname, hts _ (by simp)⟩

theorem Grammar.ForStart.proper {ts : List Token} {start : Option Stmt} (h : ForStart ts start [])
    (hts : ∀ t ∈ ts, P t) : ∀ s ∈ start, s.Proper P := by
  intro s hs
  cases h with
  | none => cases hs
  | var _ h => cases hs; exact h.proper fun t ht => hts t (by simp [ht])
  | expression h => cases hs; exact (h.proper hts).1

/-- The loop form of a `for` is a statement that declares nothing around it. -/
theorem proper_whileForm {step inner always loop outer : Nat} {start : Option Stmt}
    {cond increment : Option Expr} {body : Stmt} (hstart : ∀ s ∈ start, s.Proper P)
    (hcond : ∀ e ∈ cond, e.Proper P) (hincrement : ∀ e ∈ increment, e.Proper P)
    (hbody : body.Proper P ∧ body.isDeclaration = false) :
    (whileForm step inner always loop outer start cond increment body).Proper P ∧
      (whileForm step inner always loop outer start cond increment body).isDeclaration = false := by
  cases start <;> cases cond <;> cases increment <;>
    simp_all [whileForm, Stmt.Proper, ProperBody, Expr.Proper, Stmt.isDeclaration]

mutual

theorem Grammar.Statement.proper : ∀ {dangling : Bool} {ts : List Token} {s : Stmt}
    {ds : List Diagnostic}, Statement dangling ts s ds → ds = [] → (∀ t ∈ ts, P t) →
    s.Proper P ∧ s.isDeclaration = false
  | _, _, _, _, .expression h, hds, hts => by
    subst hds
    exact h.proper hts
  | _, _, _, _, .print _ h _, hds, hts => ⟨h.proper hds fun t ht => hts t (by simp [ht]), rfl⟩
  | _, _, _, _, .ret _ h _, hds, hts => by
    subst hds
    have hvalue := h.proper fun t ht => hts t (by simp [ht])
    refine ⟨?_, rfl⟩
    cases h with
    | none => exact hts _ (by simp)
    | some => exact ⟨hts _ (by simp), hvalue _ rfl⟩
  | _, _, _, _, .loop _ _ hcond _ h, hds, hts =>
    have hds := List.append_eq_nil_iff.1 hds
    ⟨⟨hcond.proper hds.1 fun t ht => hts t (by simp [ht]),
      h.proper hds.2 fun t ht => hts t (by simp [ht])⟩, rfl⟩
  | _, _, _, _, .ifThen _ _ hcond _ h, hds, hts =>
    have hds := List.append_eq_nil_iff.1 hds
    ⟨⟨hcond.proper hds.1 fun t ht => hts t (by simp [ht]),
      h.proper hds.2 fun t ht => hts t (by simp [ht])⟩, rfl⟩
  | _, _, _, _, .ifElse _ _ hcond _ h _ h', hds, hts =>
    have hds := List.append_eq_nil_iff.1 hds
    have hds' := List.append_eq_nil_iff.1 hds.1
    ⟨⟨hcond.proper hds'.1 fun t ht => hts t (by simp [ht]),
      h.proper hds'.2 fun t ht => hts t (by simp [ht]),
      h'.proper hds.2 fun t ht => hts t (by simp [ht])⟩, rfl⟩
  | _, _, _, _, .forLoop _ _ hstart hcond _ hincrement _ h, hds, hts => by
    obtain ⟨hds, hgs⟩ := List.append_eq_nil_iff.1 hds
    obtain ⟨hds, hfs⟩ := List.append_eq_nil_iff.1 hds
    obtain ⟨hds, hes⟩ := List.append_eq_nil_iff.1 hds
    have hbody := h.proper hgs fun t ht => hts t (by simp [ht])
    rw [hds] at hstart
    rw [hes] at hcond
    rw [hfs] at hincrement
    exact proper_whileForm (hstart.proper fun t ht => hts t (by simp [ht]))
      (hcond.proper fun t ht => hts t (by simp [ht]))
      (hincrement.proper fun t ht => hts t (by simp [ht])) hbody
  | _, _, _, _, .block _ h, hds, hts => ⟨h.proper hds fun t ht => hts t (by simp [ht]), rfl⟩

theorem Grammar.Declaration.proper : ∀ {ts : List Token} {s : Stmt} {ds : List Diagnostic},
    Declaration ts s ds → ds = [] → (∀ t ∈ ts, P t) → s.Proper P
  | _, _, _, .classDecl _ hname hclause _ hmethods _, hds, hts =>
    ⟨⟨hname, hts _ (by simp)⟩, hclause.proper fun t ht => hts t (by simp [ht]),
      hmethods.proper hds fun t ht => hts t (by simp [ht])⟩
  | _, _, _, .function _ h, hds, hts => h.proper hds fun t ht => hts t (by simp [ht])
  | _, _, _, .var _ h, hds, hts => by
    subst hds
    exact h.proper fun t ht => hts t (by simp [ht])
  | _, _, _, .statement h, hds, hts => (h.proper hds hts).1

theorem Grammar.Declarations.proper : ∀ {ts : List Token} {ss : List Stmt}
    {ds : List Diagnostic}, Declarations ts ss ds → ds = [] → (∀ t ∈ ts, P t) → ProperBody P ss
  | _, _, _, .none, _, _ => trivial
  | _, _, _, .more h hs, hds, hts =>
    have hds := List.append_eq_nil_iff.1 hds
    ⟨h.proper hds.1 fun t ht => hts t (by simp [ht]),
      hs.proper hds.2 fun t ht => hts t (by simp [ht])⟩

theorem Grammar.Block.proper : ∀ {ts : List Token} {body : List Stmt} {ds : List Diagnostic},
    Block ts body ds → ds = [] → (∀ t ∈ ts, P t) → ProperBody P body
  | _, _, _, .closed h _, hds, hts => h.proper hds fun t ht => hts t (by simp [ht])

theorem Grammar.Routine.proper : ∀ {ts : List Token} {f : Function} {ds : List Diagnostic},
    Routine ts f ds → ds = [] → (∀ t ∈ ts, P t) → ProperFunction P f
  | _, _, _, .mk hname _ hparams _ _ hbody, hds, hts => by
    obtain ⟨hds, hes⟩ := List.append_eq_nil_iff.1 hds
    have hbody := hbody.proper hes fun t ht => hts t (by simp [ht])
    rw [hds] at hparams
    exact ⟨⟨hname, hts _ (by simp)⟩, hparams.proper fun t ht => hts t (by simp [ht]), hbody⟩

theorem Grammar.Routines.proper : ∀ {ts : List Token} {fs : List Function}
    {ds : List Diagnostic}, Routines ts fs ds → ds = [] → (∀ t ∈ ts, P t) → ProperMethods P fs
  | _, _, _, .none, _, _ => trivial
  | _, _, _, .more h hs, hds, hts =>
    have hds := List.append_eq_nil_iff.1 hds
    ⟨h.proper hds.1 fun t ht => hts t (by simp [ht]),
      hs.proper hds.2 fun t ht => hts t (by simp [ht])⟩

end

end Proper

/-! ## Acceptance -/

/-- A program of the grammar is read as its tree, without a problem. -/
theorem read_of_derives {tokens : List Token} {tree : List Stmt} (h : Derives tokens tree)
    (stop : Token) (firstId : Nat) :
    (Program.read tokens stop firstId).found = [] ∧
      bareBody (Program.read tokens stop firstId).stmts = bareBody tree := by
  have hlasts := programItems_lasts (tokens.length + 1) ⟨tokens, stop, firstId, []⟩ (Nat.le_refl _)
  have hyields := programItems_yields h (tokens.length + 1) ⟨tokens, stop, firstId, []⟩ rfl
  unfold Program.read
  obtain hex | ⟨stmts, c, heq, hbare, hr⟩ := hyields
  · exact absurd hex hlasts.ne_exhausted
  · rw [heq]
    exact ⟨by simpa using hr.found, hbare⟩

/-- What is read without a problem is a program of the grammar. -/
theorem derives_of_read {tokens : List Token} {stop : Token} {firstId : Nat}
    (h : (Program.read tokens stop firstId).found = []) :
    Derives tokens (Program.read tokens stop firstId).stmts := by
  have hlasts := programItems_lasts (tokens.length + 1) ⟨tokens, stop, firstId, []⟩ (Nat.le_refl _)
  have hcovers := programItems_covers (tokens.length + 1) ⟨tokens, stop, firstId, []⟩
  unfold Program.read at h ⊢
  cases hread : programItems (tokens.length + 1) ⟨tokens, stop, firstId, []⟩ with
  | ok stmts c =>
    rw [hread] at hcovers h
    have hsound : ¬ c.Broken := by
      rintro ⟨d, hd, _⟩
      rw [show c.found = [] from h] at hd
      cases hd
    obtain ⟨hend, ts, ds, hr, hdecls⟩ := hcovers.2 hsound
    have hts : tokens = ts := by simpa [hend] using hr.rest
    have hds : ds = [] := by
      have hfound := hr.found
      rw [show c.found = [] from h] at hfound
      simpa using hfound.symm
    rw [hts]
    rw [hds] at hdecls
    exact hdecls
  | failed c =>
    rw [hread] at hcovers h
    obtain ⟨d, hd, _⟩ := hcovers
    rw [show c.found = [] from h] at hd
    cases hd
  | exhausted => exact absurd hread hlasts.ne_exhausted

/-- **The parser accepts exactly its grammar.**  A program is read without a problem if and only if
the classes of its tokens are derivable; the statements are then the tree of the derivation,
whatever derivation is taken, and nothing in them is malformed. -/
theorem read_accepts_iff_derivable (tokens : List Token) (stop : Token) (firstId : Nat) :
    ((Program.read tokens stop firstId).found = [] ↔ Derivable (tokens.map Token.kind)) ∧
    ((Program.read tokens stop firstId).found = [] →
      Derives tokens (Program.read tokens stop firstId).stmts ∧
      ProperBody (· ∈ tokens) (Program.read tokens stop firstId).stmts ∧
      ∀ tree, Derives tokens tree →
        bareBody (Program.read tokens stop firstId).stmts = bareBody tree) := by
  refine ⟨⟨fun h => ⟨tokens, _, rfl, derives_of_read h⟩, ?_⟩, fun h => ⟨derives_of_read h, ?_, ?_⟩⟩
  · rintro ⟨tokens', tree', hkinds, h'⟩
    obtain ⟨tree, h⟩ := derives_of_sameKinds h' hkinds
    exact (read_of_derives h stop firstId).1
  · exact (derives_of_read h).proper rfl fun _ ht => ht
  · exact fun tree ht => (read_of_derives ht stop firstId).2

end LoxLang
