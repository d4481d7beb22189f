import LoxLang.Proofs.Grammar.Allowance
import LoxLang.Proofs.Grammar.Completeness.Statement
import LoxLang.Proofs.Grammar.Recovery
import LoxLang.Proofs.Grammar.Relaxed
import LoxLang.Proofs.Grammar.Soundness.Statement

/-!
# Problems that do not stop the reading

An assignment to something that is no target and an entry too many in a list are problems, but
nothing is lost over them: a program of the relaxed grammar is read to its end, no rule fails on
the way, and what is read is the tree of the derivation, with its problems.

* `Stmt.Whole` — nothing in a statement is malformed.
* `Tolerates` — all problems are of those two sorts and stand at tokens of their own.

Principal result: `tolerated_problems_keep_the_tree`.
-/

namespace LoxLang

open Grammar

/-! ## Whole trees -/

mutual

/-- Nothing in the statement is malformed, at any depth. -/
def Stmt.Whole : Stmt → Prop
  | .malformed => False
  | .expression .. | .print .. | .declare .. | .ret .. => True
  | .block _ body => WholeBody body
  | .conditional _ _ thenBranch none => thenBranch.Whole
  | .conditional _ _ thenBranch (some elseBranch) => thenBranch.Whole ∧ elseBranch.Whole
  | .loop _ _ body => body.Whole
  | .function decl => WholeFunction decl
  | .classDecl _ _ _ methods => WholeMethods methods

def WholeBody : List Stmt → Prop
  | [] => True
  | s :: ss => s.Whole ∧ WholeBody ss

def WholeFunction : Function → Prop
  | ⟨_, _, _, body⟩ => WholeBody body

def WholeMethods : List Function → Prop
  | [] => True
  | f :: fs => WholeFunction f ∧ WholeMethods fs

end

theorem Grammar.Variable.whole {ts : List Token} {s : Stmt} {ds : List Diagnostic}
    (h : Variable ts s ds) : s.Whole := by
  cases h <;> exact trivial

theorem Grammar.ExpressionStmt.whole {ts : List Token} {s : Stmt} {ds : List Diagnostic}
    (h : ExpressionStmt ts s ds) : s.Whole := by
  cases h
  exact trivial

theorem Grammar.ForStart.whole {ts : List Token} {start : Option Stmt} {ds : List Diagnostic}
    (h : ForStart ts start ds) : ∀ s ∈ start, s.Whole := by
  intro s hs
  cases h with
  | none => cases hs
  | var _ h => cases hs; exact h.whole
  | expression h => cases hs; exact h.whole

theorem whole_whileForm {step inner always loop outer : Nat} {start : Option Stmt}
    {cond increment : Option Expr} {body : Stmt} (hstart : ∀ s ∈ start, s.Whole)
    (hbody : body.Whole) :
    (whileForm step inner always loop outer start cond increment body).Whole := by
  cases start <;> cases increment <;> simp_all [whileForm, Stmt.Whole, WholeBody]

mutual

theorem Grammar.Statement.whole : ∀ {dangling : Bool} {ts : List Token} {s : Stmt}
    {ds : List Diagnostic}, Statement dangling ts s ds → s.Whole
  | _, _, _, _, .expression h => h.whole
  | _, _, _, _, .print _ _ _ => trivial
  | _, _, _, _, .ret _ _ _ => trivial
  | _, _, _, _, .loop _ _ _ _ h => h.whole
  | _, _, _, _, .ifThen _ _ _ _ h => h.whole
  | _, _, _, _, .ifElse _ _ _ _ h _ h' => ⟨h.whole, h'.whole⟩
  | _, _, _, _, .forLoop _ _ hstart _ _ _ _ h => whole_whileForm hstart.whole h.whole
  | _, _, _, _, .block _ h => h.whole

theorem Grammar.Declaration.whole : ∀ {ts : List Token} {s : Stmt} {ds : List Diagnostic},
    Declaration ts s ds → s.Whole
  | _, _, _, .classDecl _ _ _ _ h _ => h.whole
  | _, _, _, .function _ h => h.whole
  | _, _, _, .var _ h => h.whole
  | _, _, _, .statement h => h.whole

theorem Grammar.Declarations.whole : ∀ {ts : List Token} {ss : List Stmt}
    {ds : List Diagnostic}, Declarations ts ss ds → WholeBody ss
  | _, _, _, .none => trivial
  | _, _, _, .more h hs => ⟨h.whole, hs.whole⟩

theorem Grammar.Block.whole : ∀ {ts : List Token} {body : List Stmt} {ds : List Diagnostic},
    Block ts body ds → WholeBody body
  | _, _, _, .closed h _ => h.whole

theorem Grammar.Routine.whole : ∀ {ts : List Token} {f : Function} {ds : List Diagnostic},
    Routine ts f ds → WholeFunction f
  | _, _, _, .mk _ _ _ _ _ h => h.whole

theorem Grammar.Routines.whole : ∀ {ts : List Token} {fs : List Function}
    {ds : List Diagnostic}, Routines ts fs ds → WholeMethods fs
  | _, _, _, .none => trivial
  | _, _, _, .more h hs => ⟨h.whole, hs.whole⟩

end

/-! ## The problems of a derivation -/

/-- The problem is one that does not stop the reading, and it stands at this token. -/
def ToleratedAt (t : Token) (d : Diagnostic) : Prop :=
  (t.kind = .equal ∧ d = .ofToken t .invalidAssignmentTarget) ∨
    d = .ofToken t .tooManyArguments ∨
    (t.kind = .identifier ∧ d = .ofToken t .tooManyParameters)

def Tolerates (ts : List Token) (ds : List Diagnostic) : Prop :=
  ∀ d ∈ ds, ∃ t ∈ ts, ToleratedAt t d

namespace Tolerates

variable {ts us : List Token} {ds es : List Diagnostic}

theorem nil : Tolerates ts [] := by simp [Tolerates]

theorem mono (h : Tolerates ts ds) (hts : ∀ t ∈ ts, t ∈ us) : Tolerates us ds := by
  intro d hd
  obtain ⟨t, ht, htolerated⟩ := h d hd
  exact ⟨t, hts t ht, htolerated⟩

/-- Two parts of a token list. -/
theorem both {vs : List Token} (h : Tolerates ts ds) (h' : Tolerates us es)
    (hvs : ∀ t ∈ ts ++ us, t ∈ vs) : Tolerates vs (ds ++ es) := by
  intro d hd
  rcases List.mem_append.1 hd with hd | hd
  · exact h.mono (fun t ht => hvs t (List.mem_append_left us ht)) d hd
  · exact h'.mono (fun t ht => hvs t (List.mem_append_right ts ht)) d hd

theorem single {t : Token} {d : Diagnostic} (h : ToleratedAt t d) : Tolerates [t] [d] := by
  intro d' hd
  exact ⟨t, List.mem_singleton_self t, List.mem_singleton.1 hd ▸ h⟩

theorem excess {problem : Problem} {t : Token} (h : ToleratedAt t (.ofToken t problem))
    (count : Nat) : Tolerates [t] (excess problem count t) := by
  unfold Grammar.excess
  split
  · exact .single h
  · exact .nil

end Tolerates

mutual

theorem Grammar.Assignment.tolerates : ∀ {ts : List Token} {e : Expr} {ds : List Diagnostic},
    Assignment ts e ds → Tolerates ts ds
  | _, _, _, .toName _ _ h => h.tolerates.mono (by grind)
  | _, _, _, .toProperty hcall _ _ _ h =>
    hcall.tolerates.both h.tolerates (by grind)
  | _, _, _, .operators h => h.tolerates
  | _, _, _, @Assignment.noTarget _ ts us _ _ _ _ h _ hequals h' => by
    have hsides : Tolerates (ts ++ us) _ := h.tolerates.both h'.tolerates fun _ ht => ht
    exact hsides.both (.single (.inl ⟨hequals, rfl⟩)) (by grind)

theorem Grammar.Level.tolerates : ∀ {level : Tier} {ts : List Token} {e : Expr}
    {ds : List Diagnostic}, Level level ts e ds → Tolerates ts ds
  | _, _, _, _, .joined h h' =>
    h.tolerates.both h'.tolerates (by grind)

theorem Grammar.Operand.tolerates : ∀ {level : Tier} {ts : List Token} {e : Expr}
    {ds : List Diagnostic}, Operand level ts e ds → Tolerates ts ds
  | _, _, _, _, .or h => h.tolerates
  | _, _, _, _, .and h => h.tolerates
  | _, _, _, _, .equality h => h.tolerates
  | _, _, _, _, .comparison h => h.tolerates
  | _, _, _, _, .term h => h.tolerates
  | _, _, _, _, .factor h => h.tolerates

theorem Grammar.Joins.tolerates : ∀ {level : Tier} {left e : Expr} {us : List Token}
    {es : List Diagnostic}, Joins level left us e es → Tolerates us es
  | _, _, _, _, _, .none => .nil
  | _, _, _, _, _, .more _ h h' =>
    h.tolerates.both h'.tolerates (by grind)

theorem Grammar.Unary.tolerates : ∀ {ts : List Token} {e : Expr} {ds : List Diagnostic},
    Unary ts e ds → Tolerates ts ds
  | _, _, _, .operator _ h => h.tolerates.mono (by grind)
  | _, _, _, .call h => h.tolerates

theorem Grammar.Call.tolerates : ∀ {ts : List Token} {e : Expr} {ds : List Diagnostic},
    Call ts e ds → Tolerates ts ds
  | _, _, _, .chain h h' => h.tolerates.both h'.tolerates (by grind)

theorem Grammar.Links.tolerates : ∀ {first e : Expr} {us : List Token} {es : List Diagnostic},
    Links first us e es → Tolerates us es
  | _, _, _, _, .none => .nil
  | _, _, _, _, .call _ h _ h' =>
    h.tolerates.both h'.tolerates (by grind)
  | _, _, _, _, .property _ _ h => h.tolerates.mono (by grind)

theorem Grammar.Arguments.tolerates : ∀ {ts : List Token} {args : List Expr}
    {ds : List Diagnostic}, Arguments ts args ds → Tolerates ts ds
  | _, _, _, .none => .nil
  | _, _, _, .some h => h.tolerates

theorem Grammar.ArgumentList.tolerates : ∀ {count : Nat} {ts : List Token} {args : List Expr}
    {ds : List Diagnostic}, ArgumentList count ts args ds → Tolerates ts ds
  | _, _, _, _, .last h => (Tolerates.excess (.inr (.inl rfl)) _).both h.tolerates (by grind)
  | _, _, _, _, @ArgumentList.more t _ ts us _ _ _ _ _ h _ h' => by
    have hlist : Tolerates (t :: ts ++ us) _ := h.tolerates.both h'.tolerates fun _ ht => ht
    exact (Tolerates.excess (.inr (.inl rfl)) _).both hlist (by grind)

theorem Grammar.Primary.tolerates : ∀ {ts : List Token} {e : Expr} {ds : List Diagnostic},
    Primary ts e ds → Tolerates ts ds
  | _, _, _, .constant _ => .nil
  | _, _, _, .this _ => .nil
  | _, _, _, .name _ => .nil
  | _, _, _, .super _ _ _ => .nil
  | _, _, _, .grouping _ h _ => h.tolerates.mono (by grind)

end

section Parts

variable {ts : List Token} {ds : List Diagnostic}

theorem Grammar.Variable.tolerates {s : Stmt} (h : Variable ts s ds) : Tolerates ts ds := by
  cases h with
  | plain => exact .nil
  | initialized _ _ h _ => exact h.tolerates.mono (by grind)

theorem Grammar.ParameterList.tolerates : ∀ {count : Nat} {ts params : List Token}
    {ds : List Diagnostic}, ParameterList count ts params ds → Tolerates ts ds
  | _, _, _, _, .last hname => .excess (.inr (.inr ⟨hname, rfl⟩)) _
  | _, _, _, _, .more hname _ h =>
    (Tolerates.excess (.inr (.inr ⟨hname, rfl⟩)) _).both h.tolerates (by grind)

theorem Grammar.Parameters.tolerates {params : List Token} (h : Parameters ts params ds) :
    Tolerates ts ds := by
  cases h with
  | none => exact .nil
  | some h => exact h.tolerates

theorem Grammar.Optional.tolerates {e : Option Expr} (h : Optional ts e ds) :
    Tolerates ts ds := by
  cases h with
  | none => exact .nil
  | some h => exact h.tolerates

theorem Grammar.ExpressionStmt.tolerates {s : Stmt} (h : ExpressionStmt ts s ds) :
    Tolerates ts ds := by
  obtain ⟨h, _⟩ := h
  exact h.tolerates.mono (by grind)

theorem Grammar.ForStart.tolerates {start : Option Stmt} (h : ForStart ts start ds) :
    Tolerates ts ds := by
  cases h with
  | none => exact .nil
  | var _ h => exact h.tolerates.mono (by grind)
  | expression h => exact h.tolerates

end Parts

mutual

theorem Grammar.Statement.tolerates : ∀ {dangling : Bool} {ts : List Token} {s : Stmt}
    {ds : List Diagnostic}, Statement dangling ts s ds → Tolerates ts ds
  | _, _, _, _, .expression h => h.tolerates
  | _, _, _, _, .print _ h _ => h.tolerates.mono (by grind)
  | _, _, _, _, .ret _ h _ => h.tolerates.mono (by grind)
  | _, _, _, _, .loop _ _ h _ h' =>
    h.tolerates.both h'.tolerates (by grind)
  | _, _, _, _, .ifThen _ _ h _ h' =>
    h.tolerates.both h'.tolerates (by grind)
  | _, _, _, _, @Statement.ifElse _ _ _ _ ts us vs _ _ _ _ _ _ _ _ _ _ hcond _ h _ h' => by
    have hthen : Tolerates (ts ++ us) _ := hcond.tolerates.both h.tolerates fun _ ht => ht
    exact hthen.both h'.tolerates (by grind)
  | _, _, _, _, @Statement.forLoop _ _ _ _ ts us vs ws _ _ _ _ _ _ _ _ _ _ _ _ _ _ _ _ hstart
      hcond _ hincrement _ h => by
    have hcond : Tolerates (ts ++ us) _ := hstart.tolerates.both hcond.tolerates fun _ ht => ht
    have hclauses : Tolerates (ts ++ us ++ vs) _ :=
      hcond.both hincrement.tolerates fun _ ht => ht
    exact hclauses.both h.tolerates (by grind)
  | _, _, _, _, .block _ h => h.tolerates.mono (by grind)

theorem Grammar.Declaration.tolerates : ∀ {ts : List Token} {s : Stmt} {ds : List Diagnostic},
    Declaration ts s ds → Tolerates ts ds
  | _, _, _, .classDecl _ _ _ _ h _ => h.tolerates.mono (by grind)
  | _, _, _, .function _ h => h.tolerates.mono (by grind)
  | _, _, _, .var _ h => h.tolerates.mono (by grind)
  | _, _, _, .statement h => h.tolerates

theorem Grammar.Declarations.tolerates : ∀ {ts : List Token} {ss : List Stmt}
    {ds : List Diagnostic}, Declarations ts ss ds → Tolerates ts ds
  | _, _, _, .none => .nil
  | _, _, _, .more h hs => h.tolerates.both hs.tolerates (by grind)

theorem Grammar.Block.tolerates : ∀ {ts : List Token} {body : List Stmt}
    {ds : List Diagnostic}, Block ts body ds → Tolerates ts ds
  | _, _, _, .closed h _ => h.tolerates.mono (by grind)

theorem Grammar.Routine.tolerates : ∀ {ts : List Token} {f : Function} {ds : List Diagnostic},
    Routine ts f ds → Tolerates ts ds
  | _, _, _, .mk _ _ hparams _ _ h =>
    hparams.tolerates.both h.tolerates (by grind)

theorem Grammar.Routines.tolerates : ∀ {ts : List Token} {fs : List Function}
    {ds : List Diagnostic}, Routines ts fs ds → Tolerates ts ds
  | _, _, _, .none => .nil
  | _, _, _, .more h hs => h.tolerates.both hs.tolerates (by grind)

end

theorem ToleratedAt.failure? {t : Token} {d : Diagnostic} (h : ToleratedAt t d) :
    d.failure? = none := by
  rcases h with ⟨_, rfl⟩ | rfl | ⟨_, rfl⟩ <;> rfl

/-- Problems of these sorts do not come from the failure of a rule. -/
theorem Tolerates.failureSpots {ts : List Token} {ds : List Diagnostic} (h : Tolerates ts ds) :
    failureSpots ds = [] := by
  refine List.filterMap_eq_nil_iff.2 fun d hd => ?_
  obtain ⟨t, _, htolerated⟩ := h d hd
  exact htolerated.failure?

theorem Tolerates.not_broken {ts : List Token} {c : Cursor} (h : Tolerates ts c.found) :
    ¬ c.Broken := by
  rintro ⟨d, hd, what, hproblem⟩
  obtain ⟨t, _, htolerated⟩ := h d hd
  rcases htolerated with ⟨_, rfl⟩ | rfl | ⟨_, rfl⟩ <;> cases hproblem

/-! ## Reading -/

/-- **Problems that do not stop the reading never disturb the tree.**  Let the tokens be a program
of the relaxed grammar.  Then they are read up to the end of the input, no rule fails, and nothing
in the statements is malformed.  The statements and the problems are those of a derivation, and
of every one: a problem at each equals sign whose left side is neither a variable nor a property,
in which case the left side stands for the whole assignment, and a problem at the first token of
each argument or parameter after the first `maxArguments`, all of which are kept. -/
theorem tolerated_problems_keep_the_tree (tokens : List Token) (stop : Token) (firstId : Nat)
    (h : (Form.phrase .program).Generates tokens) :
    let start : Cursor := ⟨tokens, stop, firstId, []⟩
    let program := Program.read tokens stop firstId
    (∃ c, programItems (tokens.length + 1) start = .ok program.stmts c ∧
      c.rest = [] ∧ c.found = program.found) ∧
    RuleCall.Raises [⟨.program (tokens.length + 1), start⟩] [] ∧
    WholeBody program.stmts ∧
    Tolerates tokens program.found ∧
    Declarations tokens program.stmts program.found ∧
    ∀ tree ds, Declarations tokens tree ds →
      program.found = ds ∧ bareBody program.stmts = bareBody tree := by
  intro start program
  obtain ⟨tree, ds, hderives⟩ := declarations_of_generates h
  have hlasts := programItems_lasts (tokens.length + 1) start (Nat.le_refl _)
  have hyields : ∀ tree ds, Declarations tokens tree ds → ∃ c,
      programItems (tokens.length + 1) start = .ok program.stmts c ∧ program.found = c.found ∧
        c.rest = [] ∧ c.found = ds ∧ bareBody program.stmts = bareBody tree := by
    intro tree ds hderives
    obtain hexhausted | ⟨stmts, c, hitems, hbare, hreads⟩ :=
      programItems_yields hderives (tokens.length + 1) start rfl
    · exact absurd hexhausted hlasts.ne_exhausted
    · have hprogram : program = ⟨stmts, c.found, c.nextId⟩ := by
        simp only [program, Program.read]
        rw [show programItems (tokens.length + 1) ⟨tokens, stop, firstId, []⟩ = _ from hitems]
      have hrest : tokens ++ c.rest = tokens := hreads.rest.symm
      have hfound : c.found = ds := by simpa [start] using hreads.found
      rw [hprogram]
      exact ⟨c, hitems, rfl, by simpa using hrest, hfound, hbare⟩
  obtain ⟨c, hitems, hfound, hend, hds, _⟩ := hyields tree ds hderives
  have htolerates : Tolerates tokens c.found := hds ▸ hderives.tolerates
  have hdeclares : Declarations tokens program.stmts program.found := by
    have hcovers := programItems_covers (tokens.length + 1) start
    rw [hitems] at hcovers
    obtain ⟨_, ts, es, hreads, hdeclares⟩ := hcovers.2 htolerates.not_broken
    have hts : tokens = ts := by simpa [hend] using hreads.rest
    have hes : c.found = es := by simpa [start] using hreads.found
    rw [hfound, hes, hts]
    exact hdeclares
  have hraises : RuleCall.Raises [⟨.program (tokens.length + 1), start⟩] [] := by
    have htraced := (programItems_traced (tokens.length + 1) start).call rfl rfl rfl
    rw [hitems] at htraced
    obtain ⟨fs, hraises, hspots, _⟩ := Traces.failures htraced
    have hnone : fs = [] := by
      rw [htolerates.failureSpots] at hspots
      simpa [start, failureSpots] using hspots.symm
    rwa [hnone] at hraises
  refine ⟨⟨c, hitems, hend, hfound.symm⟩, hraises, hdeclares.whole, hfound ▸ htolerates, hdeclares,
    fun tree' ds' hderives' => ?_⟩
  obtain ⟨c', hitems', hfound', _, hds', hbare⟩ := hyields tree' ds' hderives'
  exact ⟨hfound'.trans hds', hbare⟩

/-- The tokens of `1 = 2;`, in front of the end of the input. -/
def literalAssignment : List Token :=
  [⟨.number, "1", .num 1, 1⟩, ⟨.equal, "=", .nil, 1⟩, ⟨.number, "2", .num 2, 1⟩,
    ⟨.semicolon, ";", .nil, 1⟩]

/-- A number is an operand of every tier in the table. -/
theorem generates_number {t : Token} (h : t.kind = .number) :
    (Form.phrase (.tier .or)).Generates [t] := by
  have alone : ∀ level, (Form.phrase (operandPhrase level)).Generates [t] →
      (Form.phrase (.tier level)).Generates [t] :=
    fun level h => .phrase (h.both .none)
  have hprimary : (Form.phrase .primary).Generates [t] := .phrase (.first (.oneOf (by simp [h])))
  have hcall : (Form.phrase .call).Generates [t] := .phrase (hprimary.both .none)
  have hfactor := alone .factor (.phrase (.second hcall))
  exact alone .or (alone .and (alone .equality (alone .comparison (alone .term hfactor))))

/-- `1 = 2;` is read as the statement `1;`, and the one problem is that of the equals sign. -/
theorem literalAssignment_is_tolerated :
    (Form.phrase .program).Generates literalAssignment ∧
    (let program := Program.read literalAssignment ⟨.endOfInput, "", .nil, 1⟩ 0
     program.found = [.ofToken ⟨.equal, "=", .nil, 1⟩ .invalidAssignmentTarget] ∧
      bareBody program.stmts = [.expression 0 (.literal 0 (.num 1))]) := by
  have hgenerates : (Form.phrase .program).Generates literalAssignment := by
    have hvalue : (Form.phrase .assignment).Generates [⟨.number, "2", .num 2, 1⟩] :=
      .phrase ((generates_number rfl).both (.first .empty))
    have hassignment : (Form.phrase .assignment).Generates
        ([⟨.number, "1", .num 1, 1⟩] ++ ([⟨.equal, "=", .nil, 1⟩] ++
          [⟨.number, "2", .num 2, 1⟩])) :=
      .phrase ((generates_number rfl).both (.second (.both (.token rfl) hvalue)))
    have hstmt : (Form.phrase .exprStmt).Generates (_ ++ [⟨.semicolon, ";", .nil, 1⟩]) :=
      .phrase (.both (.phrase hassignment) (.token rfl))
    have hstatement : (Form.phrase .statement).Generates literalAssignment :=
      .phrase (.first hstmt)
    have hdeclaration : (Form.phrase .declaration).Generates literalAssignment :=
      .phrase (.second (.second (.second hstatement)))
    exact .phrase (hdeclaration.more .none)
  refine ⟨hgenerates, ?_⟩
  have hnumber : ∀ {t : Token} {x : Float}, t.kind = .number → t.literal = .num x →
      Level .or [t] (.literal 0 (.num x)) [] := fun hkind hvalue =>
    .of_call (.chain (.constant (hvalue ▸ .number hkind)) .none)
  have hderives : Declarations literalAssignment [.expression 0 (.literal 0 (.num 1))]
      [.ofToken ⟨.equal, "=", .nil, 1⟩ .invalidAssignmentTarget] := by
    have hassignment : Assignment ([⟨.number, "1", .num 1, 1⟩] ++
        ⟨.equal, "=", .nil, 1⟩ :: [⟨.number, "2", .num 2, 1⟩]) _ _ :=
      .noTarget (hnumber rfl rfl) rfl rfl (.operators (hnumber rfl rfl))
    exact .more (.statement (.expression (.mk hassignment rfl))) .none
  obtain ⟨_, _, _, _, _, hevery⟩ :=
    tolerated_problems_keep_the_tree literalAssignment ⟨.endOfInput, "", .nil, 1⟩ 0 hgenerates
  exact hevery _ _ hderives

end LoxLang
