import LoxLang.Proofs.Grammar.Rules
import LoxLang.Proofs.Token.Joined

/-!
# Programs one below the other

The grammar does not look at lines: a derivation carries over to the same tokens further down.  A
program with another one below it is derived by going on where the first derivation ends.

Principal results: `Grammar.Declarations.moved`, `derives_below`.
-/

namespace LoxLang

open Grammar

variable (k : Nat)

/-! ## Expressions -/

theorem Joiner.moved_join (joiner : Joiner) (left : Expr) (t : Token) (right : Expr) (id : Nat) :
    (joiner.join left t right id).moved k =
      joiner.join (left.moved k) (t.moved k) (right.moved k) id := by
  cases joiner <;> rfl

theorem Expr.moved_isTarget (e : Expr) : (e.moved k).isTarget = e.isTarget := by
  cases e <;> rfl

theorem excess_moved (problem : Problem) (count : Nat) (first : Token) :
    excess problem count (first.moved k) =
      (excess problem count first).map (Diagnostic.moved k) := by
  unfold excess
  split <;> rfl

theorem Grammar.Constant.moved {t : Token} {value : Literal} (h : Constant t value) :
    Constant (t.moved k) value := by
  cases h with
  | false hk => exact .false hk
  | true hk => exact .true hk
  | nil hk => exact .nil hk
  | number hk => exact .number hk
  | string hk => exact .string hk

mutual

theorem Grammar.Assignment.moved : ∀ {ts : List Token} {e : Expr} {ds : List Diagnostic},
    Assignment ts e ds →
    Assignment (ts.map (Token.moved k)) (e.moved k) (ds.map (Diagnostic.moved k))
  | _, _, _, .toName hname hequals h => .toName hname hequals h.moved
  | _, _, _, .toProperty hcall hdot hname hequals h => by
    rw [List.map_append, List.map_append]
    exact .toProperty hcall.moved hdot hname hequals h.moved
  | _, _, _, .operators h => .operators h.moved
  | _, _, _, @Assignment.noTarget _ _ _ e _ _ _ h htarget hequals hvalue => by
    rw [← e.moved_isTarget k] at htarget
    rw [List.map_append, List.map_append, List.map_append]
    exact .noTarget h.moved htarget hequals hvalue.moved

theorem Grammar.Level.moved : ∀ {level : Tier} {ts : List Token} {e : Expr}
    {ds : List Diagnostic}, Level level ts e ds →
    Level level (ts.map (Token.moved k)) (e.moved k) (ds.map (Diagnostic.moved k))
  | _, _, _, _, .joined hop hjoins => by
    rw [List.map_append, List.map_append]
    exact .joined hop.moved hjoins.moved

theorem Grammar.Operand.moved : ∀ {level : Tier} {ts : List Token} {e : Expr}
    {ds : List Diagnostic}, Operand level ts e ds →
    Operand level (ts.map (Token.moved k)) (e.moved k) (ds.map (Diagnostic.moved k))
  | _, _, _, _, .or h => .or h.moved
  | _, _, _, _, .and h => .and h.moved
  | _, _, _, _, .equality h => .equality h.moved
  | _, _, _, _, .comparison h => .comparison h.moved
  | _, _, _, _, .term h => .term h.moved
  | _, _, _, _, .factor h => .factor h.moved

theorem Grammar.Joins.moved : ∀ {level : Tier} {left e : Expr} {us : List Token}
    {es : List Diagnostic}, Joins level left us e es →
    Joins level (left.moved k) (us.map (Token.moved k)) (e.moved k) (es.map (Diagnostic.moved k))
  | _, _, _, _, _, .none => .none
  | _, _, _, _, _, .more hop hright hjoins => by
    have hjoins' := hjoins.moved
    rw [Joiner.moved_join] at hjoins'
    rw [List.map_cons, List.map_append, List.map_append]
    exact .more hop hright.moved hjoins'

theorem Grammar.Unary.moved : ∀ {ts : List Token} {e : Expr} {ds : List Diagnostic},
    Unary ts e ds → Unary (ts.map (Token.moved k)) (e.moved k) (ds.map (Diagnostic.moved k))
  | _, _, _, .operator hop h => .operator hop h.moved
  | _, _, _, .call h => .call h.moved

theorem Grammar.Call.moved : ∀ {ts : List Token} {e : Expr} {ds : List Diagnostic},
    Call ts e ds → Call (ts.map (Token.moved k)) (e.moved k) (ds.map (Diagnostic.moved k))
  | _, _, _, .chain hp hl => by
    rw [List.map_append, List.map_append]
    exact .chain hp.moved hl.moved

theorem Grammar.Links.moved : ∀ {first e : Expr} {us : List Token} {es : List Diagnostic},
    Links first us e es →
    Links (first.moved k) (us.map (Token.moved k)) (e.moved k) (es.map (Diagnostic.moved k))
  | _, _, _, _, .none => .none
  | _, _, _, _, .call ht hargs hparen hl => by
    rw [List.map_cons, List.map_append, List.map_append]
    exact .call ht hargs.moved hparen hl.moved
  | _, _, _, _, .property hdot hname hl => .property hdot hname hl.moved

theorem Grammar.Arguments.moved : ∀ {ts : List Token} {args : List Expr} {ds : List Diagnostic},
    Arguments ts args ds →
    Arguments (ts.map (Token.moved k)) (movedArgs k args) (ds.map (Diagnostic.moved k))
  | _, _, _, .none => .none
  | _, _, _, .some h => .some h.moved

theorem Grammar.ArgumentList.moved : ∀ {count : Nat} {ts : List Token} {args : List Expr}
    {ds : List Diagnostic}, ArgumentList count ts args ds →
    ArgumentList count (ts.map (Token.moved k)) (movedArgs k args) (ds.map (Diagnostic.moved k))
  | _, _, _, _, .last h => by
    rw [List.map_append, ← excess_moved]
    exact .last h.moved
  | _, _, _, _, .more h hcomma hargs => by
    rw [List.map_cons, List.map_append, List.map_append, List.map_append, ← excess_moved]
    exact .more h.moved hcomma hargs.moved

theorem Grammar.Primary.moved : ∀ {ts : List Token} {e : Expr} {ds : List Diagnostic},
    Primary ts e ds → Primary (ts.map (Token.moved k)) (e.moved k) (ds.map (Diagnostic.moved k))
  | _, _, _, .constant h => .constant (h.moved k)
  | _, _, _, .this h => .this h
  | _, _, _, .name h => .name h
  | _, _, _, .super hkeyword hdot hname => .super hkeyword hdot hname
  | _, _, _, .grouping ht h hparen => by
    rw [List.map_cons, List.map_append]
    exact .grouping ht h.moved hparen

end

/-! ## Parts of statements -/

theorem Grammar.Variable.moved {ts : List Token} {s : Stmt} {ds : List Diagnostic}
    (h : Variable ts s ds) :
    Variable (ts.map (Token.moved k)) (s.moved k) (ds.map (Diagnostic.moved k)) := by
  cases h with
  | plain hname ht => exact .plain hname ht
  | initialized hname hequals hvalue ht =>
    rw [List.map_cons, List.map_cons, List.map_append]
    exact .initialized hname hequals (hvalue.moved k) ht

theorem Grammar.ParameterList.moved : ∀ {count : Nat} {ts params : List Token}
    {ds : List Diagnostic}, ParameterList count ts params ds →
    ParameterList count (ts.map (Token.moved k)) (params.map (Token.moved k))
      (ds.map (Diagnostic.moved k))
  | _, _, _, _, .last hname => by
    rw [← excess_moved]
    exact .last hname
  | _, _, _, _, .more hname hcomma h => by
    rw [List.map_append, ← excess_moved]
    exact .more hname hcomma h.moved

theorem Grammar.Parameters.moved {ts params : List Token} {ds : List Diagnostic}
    (h : Parameters ts params ds) :
    Parameters (ts.map (Token.moved k)) (params.map (Token.moved k))
      (ds.map (Diagnostic.moved k)) := by
  cases h with
  | none => exact .none
  | some h => exact .some (h.moved k)

theorem Grammar.SuperclassClause.moved {ts : List Token} {s : Option Superclass}
    (h : SuperclassClause ts s) :
    SuperclassClause (ts.map (Token.moved k)) (s.map (Superclass.moved k)) := by
  cases h with
  | none => exact .none
  | some ht hname => exact .some ht hname

theorem Grammar.Optional.moved {ts : List Token} {e : Option Expr} {ds : List Diagnostic}
    (h : Optional ts e ds) :
    Optional (ts.map (Token.moved k)) (e.map (Expr.moved k)) (ds.map (Diagnostic.moved k)) := by
  cases h with
  | none => exact .none
  | some h => exact .some (h.moved k)

theorem Grammar.ExpressionStmt.moved {ts : List Token} {s : Stmt} {ds : List Diagnostic}
    (h : ExpressionStmt ts s ds) :
    ExpressionStmt (ts.map (Token.moved k)) (s.moved k) (ds.map (Diagnostic.moved k)) := by
  cases h with
  | mk h ht =>
    rw [List.map_append]
    exact .mk (h.moved k) ht

theorem Grammar.ForStart.moved {ts : List Token} {s : Option Stmt} {ds : List Diagnostic}
    (h : ForStart ts s ds) :
    ForStart (ts.map (Token.moved k)) (s.map (Stmt.moved k)) (ds.map (Diagnostic.moved k)) := by
  cases h with
  | none ht => exact .none ht
  | var hkeyword h => exact .var hkeyword (h.moved k)
  | expression h => exact .expression (h.moved k)

/-! ## Statements -/

theorem Stmt.moved_return (id : Nat) (keyword : Token) (e : Option Expr) :
    (Stmt.ret id keyword e).moved k = .ret id (keyword.moved k) (e.map (Expr.moved k)) := by
  cases e <;> rfl

theorem whileForm_moved (step inner always loop outer : Nat) (start : Option Stmt)
    (cond increment : Option Expr) (body : Stmt) :
    (whileForm step inner always loop outer start cond increment body).moved k =
      whileForm step inner always loop outer (start.map (Stmt.moved k)) (cond.map (Expr.moved k))
        (increment.map (Expr.moved k)) (body.moved k) := by
  cases start <;> cases cond <;> cases increment <;> rfl

mutual

theorem Grammar.Statement.moved : ∀ {dangling : Bool} {ts : List Token} {s : Stmt}
    {ds : List Diagnostic}, Statement dangling ts s ds →
    Statement dangling (ts.map (Token.moved k)) (s.moved k) (ds.map (Diagnostic.moved k))
  | _, _, _, _, .expression h => .expression (h.moved k)
  | _, _, _, _, .print hkeyword h ht => by
    rw [List.map_cons, List.map_append]
    exact .print hkeyword (h.moved k) ht
  | _, _, _, _, .ret hkeyword h ht => by
    rw [List.map_cons, List.map_append, Stmt.moved_return]
    exact .ret hkeyword (h.moved k) ht
  | _, _, _, _, .loop hkeyword ht hcond hparen h => by
    rw [List.map_cons, List.map_cons, List.map_append, List.map_append]
    exact .loop hkeyword ht (hcond.moved k) hparen h.moved
  | _, _, _, _, .ifThen hkeyword ht hcond hparen h => by
    rw [List.map_cons, List.map_cons, List.map_append, List.map_append]
    exact .ifThen hkeyword ht (hcond.moved k) hparen h.moved
  | _, _, _, _, .ifElse hkeyword ht hcond hparen h helse h' => by
    simp only [List.map_cons, List.map_append]
    exact .ifElse hkeyword ht (hcond.moved k) hparen h.moved helse h'.moved
  | _, _, _, _, .forLoop hkeyword ht hstart hcond hsemi hincrement hparen h => by
    rw [whileForm_moved]
    simp only [List.map_cons, List.map_append]
    exact .forLoop hkeyword ht (hstart.moved k) (hcond.moved k) hsemi (hincrement.moved k) hparen
      h.moved
  | _, _, _, _, .block ht h => .block ht h.moved

theorem Grammar.Declaration.moved : ∀ {ts : List Token} {s : Stmt} {ds : List Diagnostic},
    Declaration ts s ds →
    Declaration (ts.map (Token.moved k)) (s.moved k) (ds.map (Diagnostic.moved k))
  | _, _, _, .classDecl hkeyword hname hsuper ht h hparen => by
    simp only [List.map_cons, List.map_append, List.map_nil]
    exact .classDecl hkeyword hname (hsuper.moved k) ht h.moved hparen
  | _, _, _, .function hkeyword h => .function hkeyword h.moved
  | _, _, _, .var hkeyword h => .var hkeyword (h.moved k)
  | _, _, _, .statement h => .statement h.moved

theorem Grammar.Declarations.moved : ∀ {ts : List Token} {ss : List Stmt} {ds : List Diagnostic},
    Declarations ts ss ds →
    Declarations (ts.map (Token.moved k)) (movedBody k ss) (ds.map (Diagnostic.moved k))
  | _, _, _, .none => .none
  | _, _, _, .more h hrest => by
    rw [List.map_append, List.map_append]
    exact .more h.moved hrest.moved

theorem Grammar.Block.moved : ∀ {ts : List Token} {body : List Stmt} {ds : List Diagnostic},
    Block ts body ds →
    Block (ts.map (Token.moved k)) (movedBody k body) (ds.map (Diagnostic.moved k))
  | _, _, _, .closed h ht => by
    rw [List.map_append]
    exact .closed h.moved ht

theorem Grammar.Routine.moved : ∀ {ts : List Token} {f : Function} {ds : List Diagnostic},
    Routine ts f ds →
    Routine (ts.map (Token.moved k)) (movedFunction k f) (ds.map (Diagnostic.moved k))
  | _, _, _, .mk hname ht hparams hparen hbrace h => by
    simp only [List.map_cons, List.map_append]
    exact .mk hname ht (hparams.moved k) hparen hbrace h.moved

theorem Grammar.Routines.moved : ∀ {ts : List Token} {fs : List Function} {ds : List Diagnostic},
    Routines ts fs ds →
    Routines (ts.map (Token.moved k)) (movedMethods k fs) (ds.map (Diagnostic.moved k))
  | _, _, _, .none => .none
  | _, _, _, .more h hrest => by
    rw [List.map_append, List.map_append]
    exact .more h.moved hrest.moved

end

/-! ## Programs -/

theorem Grammar.Declarations.append {ts us : List Token} {ss ss' : List Stmt}
    {ds es : List Diagnostic} (h : Declarations ts ss ds) (h' : Declarations us ss' es) :
    Declarations (ts ++ us) (ss ++ ss') (ds ++ es) := by
  induction ss generalizing ts ds with
  | nil =>
    cases h
    exact h'
  | cons s ss ih =>
    cases h with
    | more hfirst hrest =>
      rw [List.append_assoc, List.append_assoc]
      exact .more hfirst (ih hrest)

/-- **A program below another one**, both without a problem. -/
theorem derives_below {tokens tokens' : List Token} {stmts stmts' : List Stmt}
    (h : Derives tokens stmts) (h' : Derives tokens' stmts') :
    Derives (tokens ++ tokens'.map (Token.moved k)) (stmts ++ movedBody k stmts') :=
  Declarations.append h (Declarations.moved k h')

end LoxLang
