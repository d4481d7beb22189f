import LoxLang.Proofs.Grammar.Soundness.Expression

/-!
# The relaxed grammar

The grammar of programs as a table with a form for each phrase, relaxed at two places: any operand
may stand on the left of an assignment, and lists of arguments and parameters may have any number
of entries.  The table alone leaves open which `if` takes an `else`.

* `Phrase`, `Form`, `Phrase.form` — the table; `Form.Generates` — the token lists of a form.
* `assigned`, `targetProblem` — the tree of an assignment and the problem that it brings up, by
  what stands on its left.

Every token list of the relaxed grammar has a derivation with its tree and its problems, in the
relations of the grammar.  Principal results: `assignment_iff`, `declarations_of_generates`.
-/

namespace LoxLang

namespace Grammar

/-! ## The table -/

inductive Phrase where
  | program | declaration | classDecl | funDecl | function | parameters | varDecl
  | statement | exprStmt | forStmt | ifStmt | printStmt | returnStmt | whileStmt | block
  | expression | assignment | tier (level : Tier) | unary | call | arguments | primary
  deriving DecidableEq, Repr

/-- The right side of a rule. -/
inductive Form where
  | token (kind : TokenKind)
  | oneOf (kinds : List TokenKind)
  | phrase (p : Phrase)
  | empty
  | both (f g : Form)
  | either (f g : Form)
  | many (f : Form)
  deriving Repr

namespace Form

def seq : List Form → Form
  | [] => empty
  | [f] => f
  | f :: fs => both f (seq fs)

/-- At least one alternative, the last of them given first. -/
def anyOf (last : Form) : List Form → Form
  | [] => last
  | f :: fs => either f (anyOf last fs)

def maybe (f : Form) : Form := either empty f

/-- One entry or more, with commas between them. -/
def commaSeparated (f : Form) : Form := both f (many (both (token .comma) f))

end Form

open Form

/-- The operators between the operands of a tier. -/
def operators : Tier → List TokenKind
  | .or => [.kwOr]
  | .and => [.kwAnd]
  | .equality => [.bangEqual, .equalEqual]
  | .comparison => [.greater, .greaterEqual, .less, .lessEqual]
  | .term => [.minus, .plus]
  | .factor => [.slash, .star]

/-- The operands of a tier. -/
def operandPhrase (level : Tier) : Phrase :=
  match level.tighter? with
  | some tighter => .tier tighter
  | none => .unary

def Phrase.form : Phrase → Form
  | program => many (phrase declaration)
  | declaration =>
    anyOf (phrase statement) [phrase classDecl, phrase funDecl, phrase varDecl]
  | classDecl =>
    seq [token .kwClass, token .identifier, maybe (seq [token .less, token .identifier]),
      token .leftBrace, many (phrase function), token .rightBrace]
  | funDecl => seq [token .kwFun, phrase function]
  | function =>
    seq [token .identifier, token .leftParen, maybe (phrase parameters), token .rightParen,
      phrase block]
  | parameters => commaSeparated (token .identifier)
  | varDecl =>
    seq [token .kwVar, token .identifier, maybe (seq [token .equal, phrase expression]),
      token .semicolon]
  | statement =>
    anyOf (phrase block) [phrase exprStmt, phrase forStmt, phrase ifStmt, phrase printStmt,
      phrase returnStmt, phrase whileStmt]
  | exprStmt => seq [phrase expression, token .semicolon]
  | forStmt =>
    seq [token .kwFor, token .leftParen,
      anyOf (token .semicolon) [phrase varDecl, phrase exprStmt],
      maybe (phrase expression), token .semicolon, maybe (phrase expression), token .rightParen,
      phrase statement]
  | ifStmt =>
    seq [token .kwIf, token .leftParen, phrase expression, token .rightParen, phrase statement,
      maybe (seq [token .kwElse, phrase statement])]
  | printStmt => seq [token .kwPrint, phrase expression, token .semicolon]
  | returnStmt => seq [token .kwReturn, maybe (phrase expression), token .semicolon]
  | whileStmt =>
    seq [token .kwWhile, token .leftParen, phrase expression, token .rightParen, phrase statement]
  | block => seq [token .leftBrace, many (phrase declaration), token .rightBrace]
  | expression => phrase assignment
  | assignment => both (phrase (tier .or)) (maybe (seq [token .equal, phrase assignment]))
  | tier level =>
    both (phrase (operandPhrase level))
      (many (both (oneOf (operators level)) (phrase (operandPhrase level))))
  | unary => either (both (oneOf [.bang, .minus]) (phrase unary)) (phrase call)
  | call =>
    both (phrase primary) (many (either
      (seq [token .leftParen, maybe (phrase arguments), token .rightParen])
      (seq [token .dot, token .identifier])))
  | arguments => commaSeparated (phrase expression)
  | primary =>
    anyOf (seq [token .kwSuper, token .dot, token .identifier])
      [oneOf [.number, .string, .kwTrue, .kwFalse, .kwNil], token .kwThis,
        seq [token .leftParen, phrase expression, token .rightParen], token .identifier]

/-- The token lists of a form.  Only the classes of the tokens matter. -/
inductive Form.Generates : Form → List Token → Prop where
  | token {kind : TokenKind} {t : Token} : t.kind = kind → Generates (.token kind) [t]
  | oneOf {kinds : List TokenKind} {t : Token} : t.kind ∈ kinds → Generates (.oneOf kinds) [t]
  | phrase {p : Phrase} {ts : List Token} : Generates p.form ts → Generates (.phrase p) ts
  | empty : Generates .empty []
  | both {f g : Form} {ts us : List Token} :
      Generates f ts → Generates g us → Generates (.both f g) (ts ++ us)
  | first {f g : Form} {ts : List Token} : Generates f ts → Generates (.either f g) ts
  | second {f g : Form} {ts : List Token} : Generates g ts → Generates (.either f g) ts
  | none {f : Form} : Generates (.many f) []
  | more {f : Form} {ts us : List Token} :
      Generates f ts → Generates (.many f) us → Generates (.many f) (ts ++ us)

/-! ## What is closed under the table holds of what the table generates -/

/-- The token lists of a form whose phrases are those that `holds` says. -/
def Form.Reads (holds : Phrase → List Token → Prop) : Form → List Token → Prop
  | .token kind, ts => ∃ t, ts = [t] ∧ t.kind = kind
  | .oneOf kinds, ts => ∃ t, ts = [t] ∧ t.kind ∈ kinds
  | .phrase p, ts => holds p ts
  | .empty, ts => ts = []
  | .both f g, ts => ∃ us vs, ts = us ++ vs ∧ f.Reads holds us ∧ g.Reads holds vs
  | .either f g, ts => f.Reads holds ts ∨ g.Reads holds ts
  | .many f, ts => ∃ parts : List (List Token), ts = parts.flatten ∧ ∀ us ∈ parts, f.Reads holds us

theorem Form.Generates.reads {holds : Phrase → List Token → Prop}
    (closed : ∀ p ts, p.form.Reads holds ts → holds p ts) {f : Form} {ts : List Token}
    (h : f.Generates ts) : f.Reads holds ts := by
  induction h with
  | token hkind => exact ⟨_, rfl, hkind⟩
  | oneOf hkind => exact ⟨_, rfl, hkind⟩
  | phrase _ ih => exact closed _ _ ih
  | empty => rfl
  | both _ _ ihf ihg => exact ⟨_, _, rfl, ihf, ihg⟩
  | first _ ih => exact .inl ih
  | second _ ih => exact .inr ih
  | none => exact ⟨[], rfl, by simp⟩
  | more _ _ ihf ihmany =>
    obtain ⟨parts, rfl, hparts⟩ := ihmany
    exact ⟨_ :: parts, rfl, List.forall_mem_cons.2 ⟨ihf, hparts⟩⟩

/-! ## Assignments -/

/-- The tree of an assignment.  On the left of anything but a variable or a property it is the left
side alone. -/
def assigned (id : Nat) (left value : Expr) : Expr :=
  match left with
  | .var _ name => .assign id name value
  | .get _ object name => .set id object name value
  | _ => left

/-- The problem that an assignment brings up. -/
def targetProblem (left : Expr) (equals : Token) : List Diagnostic :=
  if left.isTarget then [] else [.ofToken equals .invalidAssignmentTarget]

theorem assigned_of_not_isTarget {left : Expr} (h : left.isTarget = false) (id : Nat)
    (value : Expr) : assigned id left value = left := by
  cases left <;> first | rfl | cases h

variable {level : Tier} {ts us : List Token} {e : Expr} {ds : List Diagnostic}

theorem Level.alone (h : Operand level ts e ds) : Level level ts e ds := by
  simpa using Level.joined h .none

/-- A chain of calls and properties is an operand of the loosest tier. -/
theorem Level.of_call (h : Call ts e ds) : Level .or ts e ds := by
  have hfactor : Level .factor ts e ds := .alone (.factor (.call h))
  have hcomparison : Level .comparison ts e ds := .alone (.comparison (.alone (.term hfactor)))
  have hand : Level .and ts e ds := .alone (.and (.alone (.equality hcomparison)))
  exact .alone (.or hand)

theorem Links.append : ∀ {first e e' : Expr} {us vs : List Token} {ds es : List Diagnostic},
    Links first us e ds → Links e vs e' es → Links first (us ++ vs) e' (ds ++ es)
  | _, _, _, _, _, _, _, .none, h' => h'
  | _, _, _, _, _, _, _, .call ht hargs hparen h, h' => by
    simpa using Links.call ht hargs hparen (h.append h')
  | _, _, _, _, _, _, _, .property hdot hname h, h' => .property hdot hname (h.append h')

/-- **An assignment is an operand, or an operand, an equals sign and an assignment.**  It is a
problem, noted behind those of both sides, unless its left side is a variable or a property. -/
theorem assignment_iff : Assignment ts e ds ↔ Level .or ts e ds ∨
    ∃ us equals vs left value fs gs id, ts = us ++ equals :: vs ∧ equals.kind = .equal ∧
      Level .or us left fs ∧ Assignment vs value gs ∧ e = assigned id left value ∧
      ds = fs ++ gs ++ targetProblem left equals := by
  constructor
  · intro h
    cases h with
    | @toName name equals vs id value _ hname hequals h =>
      have hleft : Level .or [name] (.var 0 name) [] := .of_call (.chain (.name hname) .none)
      exact .inr ⟨_, equals, vs, _, value, [], ds, id, rfl, hequals, hleft, h, rfl,
        by simp [targetProblem, Expr.isTarget]⟩
    | @toProperty dot name equals us vs id object value fs gs hcall hdot hname hequals h =>
      have hleft : Level .or (us ++ [dot, name]) (.get 0 object name) fs := by
        obtain ⟨hfirst, hlinks⟩ := hcall
        have hlast : Links object [dot, name] (.get 0 object name) [] :=
          .property hdot hname .none
        simpa using Level.of_call (.chain hfirst (hlinks.append hlast))
      exact .inr ⟨_, equals, vs, _, value, fs, gs, id, by simp, hequals, hleft, h, rfl,
        by simp [targetProblem, Expr.isTarget]⟩
    | operators h => exact .inl h
    | @noTarget equals us vs _ value fs gs h htarget hequals hvalue =>
      exact .inr ⟨us, equals, vs, e, value, fs, gs, 0, rfl, hequals, h, hvalue,
        (assigned_of_not_isTarget htarget 0 value).symm, by simp [targetProblem, htarget]⟩
  · rintro (h | ⟨us, equals, vs, left, value, fs, gs, id, rfl, hequals, hleft, hvalue, rfl, rfl⟩)
    · exact .operators h
    · cases htarget : left.isTarget with
      | true =>
        have hcall := hleft.call_of_isTarget htarget
        cases left with
        | var id' name =>
          obtain ⟨rfl, rfl, hname⟩ := hcall.eq_name
          simpa [assigned, targetProblem, htarget] using .toName hname hequals hvalue
        | get id' object name =>
          obtain ⟨ws, dot, rfl, hdot, hname, hobject⟩ := hcall.split_property
          simpa [assigned, targetProblem, htarget] using
            Assignment.toProperty hobject hdot hname hequals hvalue
        | _ => cases htarget
      | false =>
        rw [assigned_of_not_isTarget htarget]
        simpa [targetProblem, htarget] using Assignment.noTarget hleft htarget hequals hvalue

/-! ## Statements -/

/-- An `else` behind a statement that ends with an open `if` belongs to the innermost of those. -/
theorem Statement.takeElse {op : Token} {vs : List Token} {dangling' : Bool} {s' : Stmt}
    {fs : List Diagnostic} (hop : op.kind = .kwElse) (h' : Statement dangling' vs s' fs) :
    ∀ {dangling : Bool} {us : List Token} {s : Stmt} {es : List Diagnostic},
      Statement dangling us s es → dangling = true →
      ∃ dangling t gs, Statement dangling (us ++ op :: vs) t gs
  | _, _, _, _, .expression _, hopen => by cases hopen
  | _, _, _, _, .print _ _ _, hopen => by cases hopen
  | _, _, _, _, .ret _ _ _, hopen => by cases hopen
  | _, _, _, _, .block _ _, hopen => by cases hopen
  | _, _, _, _, .loop hkeyword ht hcond hparen h, hopen => by
    obtain ⟨dangling, body, gs, hbody⟩ := takeElse hop h' h hopen
    have hloop : Statement dangling _ (.loop 0 _ body) _ := .loop hkeyword ht hcond hparen hbody
    exact ⟨_, _, _, by simpa using hloop⟩
  | _, _, _, _, @Statement.ifThen _ _ _ _ _ _ dangling _ s _ _ hkeyword ht hcond hparen h, _ => by
    rcases Bool.eq_false_or_eq_true dangling with hopen | hclosed
    · obtain ⟨_, body, gs, hbody⟩ := takeElse hop h' h hopen
      have hthen : Statement true _ (.conditional 0 _ body none) _ :=
        .ifThen hkeyword ht hcond hparen hbody
      exact ⟨_, _, _, by simpa using hthen⟩
    · rw [hclosed] at h
      have helse : Statement dangling' _ (.conditional 0 _ s (some s')) _ :=
        .ifElse hkeyword ht hcond hparen h hop h'
      exact ⟨_, _, _, by simpa using helse⟩
  | _, _, _, _, @Statement.ifElse _ _ _ _ _ _ _ _ _ _ s _ _ _ _ hkeyword ht hcond hparen h helse
      hlast, hopen => by
    obtain ⟨dangling, body, gs, hbody⟩ := takeElse hop h' hlast hopen
    have hboth : Statement dangling _ (.conditional 0 _ s (some body)) _ :=
      .ifElse hkeyword ht hcond hparen h helse hbody
    exact ⟨_, _, _, by simpa using hboth⟩
  | _, _, _, _, .forLoop hkeyword ht hstart hcond hsemi hincrement hparen h, hopen => by
    obtain ⟨dangling, body, gs, hbody⟩ := takeElse hop h' h hopen
    have hloop : Statement dangling _ (whileForm 0 0 0 0 0 _ _ _ body) _ :=
      .forLoop hkeyword ht hstart hcond hsemi hincrement hparen hbody
    exact ⟨_, _, _, by simpa using hloop⟩

/-! ## Every phrase has a derivation -/

/-- Some derivation covers the tokens. -/
def Phrase.Holds : Phrase → List Token → Prop
  | program, ts => ∃ ss ds, Declarations ts ss ds
  | declaration, ts | classDecl, ts | funDecl, ts => ∃ s ds, Declaration ts s ds
  | function, ts => ∃ f ds, Routine ts f ds
  | parameters, ts => ∃ params ds, ParameterList 0 ts params ds
  | varDecl, ts => ∃ keyword us s ds, ts = keyword :: us ∧ keyword.kind = .kwVar ∧ Variable us s ds
  | statement, ts | forStmt, ts | ifStmt, ts | printStmt, ts | returnStmt, ts | whileStmt, ts =>
    ∃ dangling s ds, Statement dangling ts s ds
  | exprStmt, ts => ∃ s ds, ExpressionStmt ts s ds
  | block, ts => ∃ t us body ds, ts = t :: us ∧ t.kind = .leftBrace ∧ Block us body ds
  | expression, ts | assignment, ts => ∃ e ds, Assignment ts e ds
  | tier level, ts => ∃ e ds, Level level ts e ds
  | unary, ts => ∃ e ds, Unary ts e ds
  | call, ts => ∃ e ds, Call ts e ds
  | arguments, ts => ∃ args ds, ArgumentList 0 ts args ds
  | primary, ts => ∃ e ds, Primary ts e ds

namespace Form

variable {f : Form}

theorem reads_many (P : List Token → Prop) (h : (many f).Reads Phrase.Holds ts) (none : P [])
    (more : ∀ us vs, f.Reads Phrase.Holds us → P vs → P (us ++ vs)) : P ts := by
  obtain ⟨parts, rfl, hparts⟩ := h
  induction parts with
  | nil => exact none
  | cons us parts ih =>
    obtain ⟨hus, hparts⟩ := List.forall_mem_cons.1 hparts
    exact more us _ hus (ih hparts)

/-- What holds of a list with commas between its entries, by the number of entries before it. -/
theorem reads_commaSeparated (P : Nat → List Token → Prop)
    (h : (commaSeparated f).Reads Phrase.Holds ts)
    (last : ∀ count us, f.Reads Phrase.Holds us → P count us)
    (more : ∀ count us comma vs, f.Reads Phrase.Holds us → comma.kind = .comma →
      P (count + 1) vs → P count (us ++ comma :: vs)) (count : Nat) : P count ts := by
  obtain ⟨us, _, rfl, hus, parts, rfl, hparts⟩ := h
  induction parts generalizing count us with
  | nil => simpa using last count us hus
  | cons part parts ih =>
    obtain ⟨hpart, hparts⟩ := List.forall_mem_cons.1 hparts
    obtain ⟨_, vs, hsplit, ⟨comma, rfl, hcomma⟩, hvs⟩ := hpart
    rw [hsplit]
    simpa using more count us comma _ hus hcomma (ih (count + 1) vs hvs hparts)

end Form

theorem declarations_of_many (h : (many (phrase .declaration)).Reads Phrase.Holds ts) :
    ∃ ss ds, Declarations ts ss ds := by
  refine reads_many (fun ts => ∃ ss ds, Declarations ts ss ds) h ⟨_, _, .none⟩ ?_
  rintro us vs ⟨s, ds, hs⟩ ⟨ss, es, hss⟩
  exact ⟨_, _, .more hs hss⟩

theorem routines_of_many (h : (many (phrase .function)).Reads Phrase.Holds ts) :
    ∃ fs ds, Routines ts fs ds := by
  refine reads_many (fun ts => ∃ fs ds, Routines ts fs ds) h ⟨_, _, .none⟩ ?_
  rintro us vs ⟨f, ds, hf⟩ ⟨fs, es, hfs⟩
  exact ⟨_, _, .more hf hfs⟩

theorem optional_of_maybe (h : (maybe (phrase .expression)).Reads Phrase.Holds ts) :
    ∃ e ds, Optional ts e ds := by
  rcases h with rfl | ⟨e, ds, h⟩
  · exact ⟨_, _, .none⟩
  · exact ⟨_, _, .some h⟩

theorem parameterList_of_reads (h : (commaSeparated (token .identifier)).Reads Phrase.Holds ts) :
    ∃ params ds, ParameterList 0 ts params ds := by
  refine reads_commaSeparated (fun count ts => ∃ params ds, ParameterList count ts params ds) h
    ?_ ?_ 0
  · rintro count us ⟨name, rfl, hname⟩
    exact ⟨_, _, .last hname⟩
  · rintro count us comma vs ⟨name, rfl, hname⟩ hcomma ⟨params, ds, h⟩
    exact ⟨_, _, .more hname hcomma h⟩

theorem argumentList_of_reads (h : (commaSeparated (phrase .expression)).Reads Phrase.Holds ts) :
    ∃ args ds, ArgumentList 0 ts args ds := by
  refine reads_commaSeparated (fun count ts => ∃ args ds, ArgumentList count ts args ds) h
    ?_ ?_ 0
  · rintro count us ⟨e, ds, he⟩
    obtain ⟨t, us, rfl, _⟩ := he.starts
    exact ⟨_, _, .last he⟩
  · rintro count us comma vs ⟨e, ds, he⟩ hcomma ⟨args, es, h⟩
    obtain ⟨t, us, rfl, _⟩ := he.starts
    exact ⟨_, _, .more he hcomma h⟩

/-! ### Tiers -/

theorem operator_of_mem {kind : TokenKind} (h : kind ∈ operators level) :
    ∃ joiner, Operator level kind joiner := by
  have hall : ∀ kind ∈ operators level, (level.joiner? kind).isSome := by cases level <;> decide
  obtain ⟨joiner, hjoiner⟩ := Option.isSome_iff_exists.1 (hall kind h)
  exact ⟨joiner, .of_joiner? hjoiner⟩

theorem operand_of_holds (h : (operandPhrase level).Holds ts) : ∃ e ds, Operand level ts e ds := by
  cases level with
  | or => obtain ⟨e, ds, h⟩ := h; exact ⟨e, ds, .or h⟩
  | and => obtain ⟨e, ds, h⟩ := h; exact ⟨e, ds, .and h⟩
  | equality => obtain ⟨e, ds, h⟩ := h; exact ⟨e, ds, .equality h⟩
  | comparison => obtain ⟨e, ds, h⟩ := h; exact ⟨e, ds, .comparison h⟩
  | term => obtain ⟨e, ds, h⟩ := h; exact ⟨e, ds, .term h⟩
  | factor => obtain ⟨e, ds, h⟩ := h; exact ⟨e, ds, .factor h⟩

/-- Operators and operands join any tree on their left. -/
theorem joins_of_many
    (h : (many (both (oneOf (operators level)) (phrase (operandPhrase level)))).Reads
      Phrase.Holds ts) :
    ∀ left, ∃ e ds, Joins level left ts e ds := by
  refine reads_many (fun ts => ∀ left, ∃ e ds, Joins level left ts e ds) h
    (fun left => ⟨_, _, .none⟩) ?_
  rintro _ vs ⟨_, us, rfl, ⟨op, rfl, hop⟩, hus⟩ ih left
  obtain ⟨joiner, hop⟩ := operator_of_mem hop
  obtain ⟨right, ds, hright⟩ := operand_of_holds hus
  obtain ⟨e, es, he⟩ := ih (joiner.join left op right 0)
  exact ⟨e, _, by simpa using .more hop hright he⟩

/-! ### Chains -/

/-- Calls and property reads follow any tree. -/
theorem links_of_many
    (h : (many (either (seq [token .leftParen, maybe (phrase .arguments), token .rightParen])
      (seq [token .dot, token .identifier]))).Reads Phrase.Holds ts) :
    ∀ first, ∃ e ds, Links first ts e ds := by
  refine reads_many (fun ts => ∀ first, ∃ e ds, Links first ts e ds) h
    (fun first => ⟨_, _, .none⟩) ?_
  rintro us vs (⟨_, _, rfl, ⟨t, rfl, ht⟩, us, _, rfl, hargs, paren, rfl, hparen⟩ |
    ⟨_, _, rfl, ⟨dot, rfl, hdot⟩, name, rfl, hname⟩) ih first
  · obtain ⟨args, ds, hargs⟩ : ∃ args ds, Arguments us args ds := by
      rcases hargs with rfl | ⟨args, ds, hargs⟩
      · exact ⟨_, _, .none⟩
      · exact ⟨_, _, .some hargs⟩
    obtain ⟨e, es, he⟩ := ih (.call 0 first paren args)
    exact ⟨e, _, by simpa using .call ht hargs hparen he⟩
  · obtain ⟨e, es, he⟩ := ih (.get 0 first name)
    exact ⟨e, _, .property hdot hname he⟩

/-! ### The table -/

theorem declaration_closed (h : Phrase.declaration.form.Reads Phrase.Holds ts) :
    Phrase.declaration.Holds ts := by
  obtain ⟨s, ds, h⟩ | ⟨s, ds, h⟩ | ⟨keyword, us, s, ds, rfl, hkeyword, h⟩ | ⟨_, s, ds, h⟩ := h
  · exact ⟨s, ds, h⟩
  · exact ⟨s, ds, h⟩
  · exact ⟨s, ds, .var hkeyword h⟩
  · exact ⟨s, ds, .statement h⟩

theorem classDecl_closed (h : Phrase.classDecl.form.Reads Phrase.Holds ts) :
    Phrase.classDecl.Holds ts := by
  obtain ⟨_, _, rfl, ⟨keyword, rfl, hkeyword⟩, _, _, rfl, ⟨name, rfl, hname⟩, us, _, rfl, hclause,
    _, _, rfl, ⟨t, rfl, ht⟩, vs, _, rfl, hmethods, brace, rfl, hbrace⟩ := h
  obtain ⟨superclass, hclause⟩ : ∃ superclass, SuperclassClause us superclass := by
    rcases hclause with rfl | ⟨_, _, rfl, ⟨t, rfl, ht⟩, name, rfl, hname⟩
    · exact ⟨_, .none⟩
    · exact ⟨some ⟨0, name⟩, .some ht hname⟩
  obtain ⟨methods, ds, hmethods⟩ := routines_of_many hmethods
  have hclass : Declaration _ (.classDecl 0 name superclass methods) ds :=
    .classDecl hkeyword hname hclause ht hmethods hbrace
  exact ⟨_, _, by simpa using hclass⟩

theorem funDecl_closed (h : Phrase.funDecl.form.Reads Phrase.Holds ts) :
    Phrase.funDecl.Holds ts := by
  obtain ⟨_, _, rfl, ⟨keyword, rfl, hkeyword⟩, f, ds, hf⟩ := h
  exact ⟨_, _, .function hkeyword hf⟩

theorem function_closed (h : Phrase.function.form.Reads Phrase.Holds ts) :
    Phrase.function.Holds ts := by
  obtain ⟨_, _, rfl, ⟨name, rfl, hname⟩, _, _, rfl, ⟨t, rfl, ht⟩, us, _, rfl, hparams, _, _, rfl,
    ⟨paren, rfl, hparen⟩, brace, vs, body, es, rfl, hbrace, hbody⟩ := h
  obtain ⟨params, ds, hparams⟩ : ∃ params ds, Parameters us params ds := by
    rcases hparams with rfl | ⟨params, ds, hparams⟩
    · exact ⟨_, _, .none⟩
    · exact ⟨_, _, .some hparams⟩
  have hroutine : Routine _ ⟨0, name, params, body⟩ (ds ++ es) :=
    .mk hname ht hparams hparen hbrace hbody
  exact ⟨_, _, by simpa using hroutine⟩

theorem varDecl_closed (h : Phrase.varDecl.form.Reads Phrase.Holds ts) :
    Phrase.varDecl.Holds ts := by
  obtain ⟨_, _, rfl, ⟨keyword, rfl, hkeyword⟩, _, _, rfl, ⟨name, rfl, hname⟩, us, _, rfl, hvalue,
    t, rfl, ht⟩ := h
  rcases hvalue with rfl | ⟨_, us, rfl, ⟨equals, rfl, hequals⟩, value, ds, hvalue⟩
  · exact ⟨keyword, _, .declare 0 name none, _, rfl, hkeyword, .plain hname ht⟩
  · exact ⟨keyword, _, .declare 0 name (some value), ds, rfl, hkeyword,
      by simpa using .initialized hname hequals hvalue ht⟩

theorem statement_closed (h : Phrase.statement.form.Reads Phrase.Holds ts) :
    Phrase.statement.Holds ts := by
  obtain ⟨s, ds, h⟩ | h | h | h | h | h | ⟨t, us, body, ds, rfl, ht, h⟩ := h
  · exact ⟨_, _, _, .expression h⟩
  · exact h
  · exact h
  · exact h
  · exact h
  · exact h
  · exact ⟨_, .block 0 body, ds, .block ht h⟩

theorem exprStmt_closed (h : Phrase.exprStmt.form.Reads Phrase.Holds ts) :
    Phrase.exprStmt.Holds ts := by
  obtain ⟨us, _, rfl, ⟨e, ds, he⟩, t, rfl, ht⟩ := h
  exact ⟨.expression 0 e, ds, .mk he ht⟩

theorem forStmt_closed (h : Phrase.forStmt.form.Reads Phrase.Holds ts) :
    Phrase.forStmt.Holds ts := by
  obtain ⟨_, _, rfl, ⟨keyword, rfl, hkeyword⟩, _, _, rfl, ⟨t, rfl, ht⟩, us, _, rfl, hstart,
    vs, _, rfl, hcond, _, _, rfl, ⟨semi, rfl, hsemi⟩, ws, _, rfl, hincrement, _, _, rfl,
    ⟨paren, rfl, hparen⟩, dangling, body, gs, hbody⟩ := h
  obtain ⟨start, ds, hstart⟩ : ∃ start ds, ForStart us start ds := by
    obtain ⟨keyword, us, s, ds, rfl, hkeyword, h⟩ | ⟨s, ds, h⟩ | ⟨t, rfl, ht⟩ := hstart
    · exact ⟨_, _, .var hkeyword h⟩
    · exact ⟨_, _, .expression h⟩
    · exact ⟨_, _, .none ht⟩
  obtain ⟨cond, es, hcond⟩ := optional_of_maybe hcond
  obtain ⟨increment, fs, hincrement⟩ := optional_of_maybe hincrement
  have hloop : Statement dangling _ (whileForm 0 0 0 0 0 start cond increment body) _ :=
    .forLoop hkeyword ht hstart hcond hsemi hincrement hparen hbody
  exact ⟨_, _, _, by simpa using hloop⟩

theorem ifStmt_closed (h : Phrase.ifStmt.form.Reads Phrase.Holds ts) :
    Phrase.ifStmt.Holds ts := by
  obtain ⟨_, _, rfl, ⟨keyword, rfl, hkeyword⟩, _, _, rfl, ⟨t, rfl, ht⟩, us, _, rfl,
    ⟨cond, ds, hcond⟩, _, _, rfl, ⟨paren, rfl, hparen⟩, vs, _, rfl, ⟨dangling, s, es, hs⟩,
    helse⟩ := h
  have hthen : Statement true _ (.conditional 0 cond s none) (ds ++ es) :=
    .ifThen hkeyword ht hcond hparen hs
  rcases helse with rfl | ⟨_, ws, rfl, ⟨op, rfl, hop⟩, _, s', fs, hs'⟩
  · exact ⟨_, _, _, by simpa using hthen⟩
  · obtain ⟨_, _, _, hboth⟩ := Statement.takeElse hop hs' hthen rfl
    exact ⟨_, _, _, by simpa using hboth⟩

theorem printStmt_closed (h : Phrase.printStmt.form.Reads Phrase.Holds ts) :
    Phrase.printStmt.Holds ts := by
  obtain ⟨_, _, rfl, ⟨keyword, rfl, hkeyword⟩, us, _, rfl, ⟨e, ds, he⟩, t, rfl, ht⟩ := h
  exact ⟨false, .print 0 e, ds, .print hkeyword he ht⟩

theorem returnStmt_closed (h : Phrase.returnStmt.form.Reads Phrase.Holds ts) :
    Phrase.returnStmt.Holds ts := by
  obtain ⟨_, _, rfl, ⟨keyword, rfl, hkeyword⟩, us, _, rfl, hvalue, t, rfl, ht⟩ := h
  obtain ⟨value, ds, hvalue⟩ := optional_of_maybe hvalue
  exact ⟨false, .ret 0 keyword value, ds, .ret hkeyword hvalue ht⟩

theorem whileStmt_closed (h : Phrase.whileStmt.form.Reads Phrase.Holds ts) :
    Phrase.whileStmt.Holds ts := by
  obtain ⟨_, _, rfl, ⟨keyword, rfl, hkeyword⟩, _, _, rfl, ⟨t, rfl, ht⟩, us, _, rfl,
    ⟨cond, ds, hcond⟩, _, _, rfl, ⟨paren, rfl, hparen⟩, dangling, body, es, hbody⟩ := h
  have hloop : Statement dangling _ (.loop 0 cond body) (ds ++ es) :=
    .loop hkeyword ht hcond hparen hbody
  exact ⟨_, _, _, by simpa using hloop⟩

theorem block_closed (h : Phrase.block.form.Reads Phrase.Holds ts) : Phrase.block.Holds ts := by
  obtain ⟨_, _, rfl, ⟨t, rfl, ht⟩, us, _, rfl, hbody, brace, rfl, hbrace⟩ := h
  obtain ⟨body, ds, hbody⟩ := declarations_of_many hbody
  exact ⟨t, _, body, ds, rfl, ht, .closed hbody hbrace⟩

theorem assignment_closed (h : Phrase.assignment.form.Reads Phrase.Holds ts) :
    Phrase.assignment.Holds ts := by
  obtain ⟨us, _, rfl, ⟨left, fs, hleft⟩, rfl |
    ⟨_, vs, rfl, ⟨equals, rfl, hequals⟩, value, gs, hvalue⟩⟩ := h
  · exact ⟨left, fs, by simpa using assignment_iff.2 (.inl hleft)⟩
  · exact ⟨assigned 0 left value, _, assignment_iff.2
      (.inr ⟨us, equals, vs, left, value, fs, gs, 0, rfl, hequals, hleft, hvalue, rfl, rfl⟩)⟩

theorem tier_closed (h : (Phrase.tier level).form.Reads Phrase.Holds ts) :
    (Phrase.tier level).Holds ts := by
  obtain ⟨us, vs, rfl, hfirst, hjoins⟩ := h
  obtain ⟨left, ds, hleft⟩ := operand_of_holds hfirst
  obtain ⟨e, es, he⟩ := joins_of_many hjoins left
  exact ⟨e, _, .joined hleft he⟩

theorem unary_closed (h : Phrase.unary.form.Reads Phrase.Holds ts) : Phrase.unary.Holds ts := by
  obtain ⟨_, us, rfl, ⟨op, rfl, hop⟩, e, ds, he⟩ | ⟨e, ds, he⟩ := h
  · have hsign : SignOperator op.kind := by
      rcases List.mem_cons.1 hop with hop | hop
      · exact hop ▸ .not
      · exact List.mem_singleton.1 hop ▸ .negate
    exact ⟨.unary 0 op e, ds, .operator hsign he⟩
  · exact ⟨e, ds, .call he⟩

theorem call_closed (h : Phrase.call.form.Reads Phrase.Holds ts) : Phrase.call.Holds ts := by
  obtain ⟨us, vs, rfl, ⟨first, ds, hfirst⟩, hlinks⟩ := h
  obtain ⟨e, es, he⟩ := links_of_many hlinks first
  exact ⟨e, _, .chain hfirst he⟩

theorem constant_of_mem {t : Token}
    (h : t.kind ∈ [TokenKind.number, .string, .kwTrue, .kwFalse, .kwNil]) :
    ∃ value, Constant t value := by
  simp only [List.mem_cons, List.not_mem_nil, or_false] at h
  obtain hk | hk | hk | hk | hk := h
  · exact ⟨_, .number hk⟩
  · exact ⟨_, .string hk⟩
  · exact ⟨_, .true hk⟩
  · exact ⟨_, .false hk⟩
  · exact ⟨_, .nil hk⟩

theorem primary_closed (h : Phrase.primary.form.Reads Phrase.Holds ts) :
    Phrase.primary.Holds ts := by
  obtain ⟨t, rfl, ht⟩ | ⟨keyword, rfl, hkeyword⟩ |
    ⟨_, _, rfl, ⟨t, rfl, ht⟩, us, _, rfl, ⟨e, ds, he⟩, paren, rfl, hparen⟩ |
    ⟨name, rfl, hname⟩ |
    ⟨_, _, rfl, ⟨keyword, rfl, hkeyword⟩, _, _, rfl, ⟨dot, rfl, hdot⟩, name, rfl, hname⟩ := h
  · obtain ⟨value, hvalue⟩ := constant_of_mem ht
    exact ⟨.literal 0 value, [], .constant hvalue⟩
  · exact ⟨.this 0 keyword, [], .this hkeyword⟩
  · exact ⟨.grouping 0 e, ds, .grouping ht he hparen⟩
  · exact ⟨.var 0 name, [], .name hname⟩
  · exact ⟨.super 0 keyword name, [], .super hkeyword hdot hname⟩

theorem Phrase.closed : ∀ (p : Phrase) (ts : List Token), p.form.Reads Holds ts → p.Holds ts
  | program, _, h => declarations_of_many h
  | declaration, _, h => declaration_closed h
  | classDecl, _, h => classDecl_closed h
  | funDecl, _, h => funDecl_closed h
  | function, _, h => function_closed h
  | parameters, _, h => parameterList_of_reads h
  | varDecl, _, h => varDecl_closed h
  | statement, _, h => statement_closed h
  | exprStmt, _, h => exprStmt_closed h
  | forStmt, _, h => forStmt_closed h
  | ifStmt, _, h => ifStmt_closed h
  | printStmt, _, h => printStmt_closed h
  | returnStmt, _, h => returnStmt_closed h
  | whileStmt, _, h => whileStmt_closed h
  | block, _, h => block_closed h
  | expression, _, h => h
  | assignment, _, h => assignment_closed h
  | tier _, _, h => tier_closed h
  | unary, _, h => unary_closed h
  | call, _, h => call_closed h
  | arguments, _, h => argumentList_of_reads h
  | primary, _, h => primary_closed h

/-- **A program of the relaxed grammar has a derivation**, with a tree and with its problems. -/
theorem declarations_of_generates (h : (phrase .program).Generates ts) :
    ∃ tree ds, Declarations ts tree ds :=
  h.reads Phrase.closed

end Grammar

end LoxLang
