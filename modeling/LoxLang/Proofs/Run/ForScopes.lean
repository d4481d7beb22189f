import LoxLang.Proofs.Run.PaddedRounds
import LoxLang.Proofs.Scope.Padded
import LoxLang.Proofs.Scope.Renumbering

/-!
# The scopes of a loop and of its tree

A `for` has one scope around all its parts.  `ForLoop.sites` lists the sites of the parts in that
scope, whatever scopes the tree has.  A table that files their distances suits the frames that the
meaning of the loop has.

In the tree, a loop without a first clause has no scope of its own, and a turn with an increment has
one more, which declares nothing: so the increment sees what the condition sees.

* `ForLoop.sites` — the sites of a loop.
* `ForLoop.Copies` — loops that differ in the numbers of their nodes at most.

Principal results: `ForLoop.treeIncrement_scopes`, `ForLoop.tree_sites`, `ForLoop.Copies.aligned`,
`ForLoop.renumbered`.
-/

namespace LoxLang

/-! ## Parts that may be missing -/

/-- The state of the pass behind a first clause. -/
def Resolution.start? (r : Resolution) : Option Stmt → Resolution
  | none => r
  | some s => r.stmt s

/-- The state of the pass behind another clause. -/
def Resolution.clause? (r : Resolution) : Option Expr → Resolution
  | none => r
  | some e => r.expr e

def startSites (cs : List Construct) (r : Resolution) : Option Stmt → List Site
  | none => []
  | some s => stmtSites cs r s

def clauseSites (cs : List Construct) (r : Resolution) : Option Expr → List Site
  | none => []
  | some e => exprSites cs none r e

theorem Resolution.clause?_scopes (r : Resolution) (e : Option Expr) :
    (r.clause? e).scopes = r.scopes := by
  cases e with
  | none => rfl
  | some e => exact r.expr_scopes e

namespace ForLoop

variable (l : ForLoop) (r : Resolution)

/-! ## One scope -/

/-- Where the condition stands. -/
def atCond : Resolution := r.openScope.start? l.start

/-- Where the body stands. -/
def atBody : Resolution := (l.atCond r).clause? l.cond

/-- Where the increment stands. -/
def atIncrement : Resolution := (l.atBody r).stmt l.body

/-- **The sites of a loop**, in one scope around all its parts.  What the scopes around it were
opened by is left out. -/
def sites : List Site :=
  startSites [] r.openScope l.start ++ clauseSites [] (l.atCond r) l.cond ++
    stmtSites [] (l.atBody r) l.body ++ clauseSites [] (l.atIncrement r) l.increment

/-- The numbers of the parts. -/
def ids : List Nat :=
  optionIds Stmt.ids l.start ++ optionIds Expr.ids l.cond ++ optionIds Expr.ids l.increment ++
    l.body.ids

/-! ## The scopes of the tree -/

/-- Where the tree has the condition. -/
def treeCond : Resolution :=
  match l.start with
  | none => r
  | some s => r.openScope.stmt s

/-- Where the tree has the body. -/
def treeTurn : Resolution :=
  if l.increment.isSome then ((l.treeCond r).clause? l.cond).openScope
  else (l.treeCond r).clause? l.cond

/-- Where the tree has the increment. -/
def treeIncrement : Resolution := (l.treeTurn r).stmt l.body

/-- **In the tree, the increment stands where the condition stands**, but for a scope that declares
nothing. -/
theorem treeIncrement_scopes (hbody : l.body.declared = [])
    (hincrement : l.increment.isSome = true) :
    (l.treeIncrement r).scopes = .empty :: (l.treeCond r).scopes := by
  rw [treeIncrement, (Resolution.stmt_passed _ _).scopes, hbody, treeTurn, if_pos hincrement]
  exact congrArg (.empty :: ·) ((l.treeCond r).clause?_scopes l.cond)

/-- The condition of the tree, which is there even if the loop has none. -/
theorem clause_tree (always : Nat) :
    r.expr (l.cond.getD (.literal always (.bool true))) = r.clause? l.cond := by
  cases l.cond <;> rfl

theorem clauseSites_tree (cs : List Construct) (always : Nat) :
    exprSites cs none r (l.cond.getD (.literal always (.bool true))) =
      clauseSites cs r l.cond := by
  cases l.cond <;> rfl

/-- The sites of the body that the loop of the tree has. -/
theorem treeBody_sites (cs : List Construct) (step inner : Nat) :
    ∃ cs', stmtSites cs ((l.treeCond r).clause? l.cond) (l.treeBody step inner) =
      stmtSites cs' (l.treeTurn r) l.body ++ clauseSites cs' (l.treeIncrement r) l.increment := by
  unfold treeBody treeIncrement treeTurn
  cases l.increment with
  | none => exact ⟨cs, (List.append_nil _).symm⟩
  | some value =>
    refine ⟨.block inner :: cs, ?_⟩
    simp only [stmtSites, bodySites, List.append_nil]
    rfl

/-- **The sites of the tree are those of its parts**, each in the scopes that the tree has there. -/
theorem tree_sites (cs : List Construct) (step inner always loop outer : Nat) :
    ∃ cs₁ cs₂, stmtSites cs r (l.tree step inner always loop outer) =
      startSites cs₁ r.openScope l.start ++ clauseSites cs₁ (l.treeCond r) l.cond ++
        stmtSites cs₂ (l.treeTurn r) l.body ++ clauseSites cs₂ (l.treeIncrement r) l.increment := by
  have hbody := l.treeBody_sites r
  rw [tree_eq]
  cases hstart : l.start with
  | none =>
    have hcond : l.treeCond r = r := by rw [treeCond, hstart]
    obtain ⟨cs₂, hsites⟩ := hbody cs step inner
    refine ⟨cs, cs₂, ?_⟩
    rw [hcond] at hsites
    simp only [stmtSites, l.clause_tree, l.clauseSites_tree, hsites, hcond, startSites,
      List.nil_append, List.append_assoc]
  | some s =>
    have hcond : l.treeCond r = r.openScope.stmt s := by rw [treeCond, hstart]
    obtain ⟨cs₂, hsites⟩ := hbody (.block outer :: cs) step inner
    refine ⟨.block outer :: cs, cs₂, ?_⟩
    rw [hcond] at hsites
    simp only [stmtSites, bodySites, l.clause_tree, l.clauseSites_tree, hsites, hcond, startSites,
      List.append_nil, List.append_assoc]

/-! ## Copies -/

/-- Loops that differ in the numbers of their nodes at most. -/
structure Copies (l l' : ForLoop) : Prop where
  start : l'.start.map Stmt.bare = l.start.map Stmt.bare
  cond : l'.cond.map Expr.bare = l.cond.map Expr.bare
  increment : l'.increment.map Expr.bare = l.increment.map Expr.bare
  body : l'.body.bare = l.body.bare

end ForLoop

theorem CopyStmt.still_of_bare {s s' : Stmt} (h : s'.bare = s.bare) : CopyStmt .still s s' :=
  .of_bare (by rw [Stmt.moved_zero]; exact h) fun _ _ => rfl

theorem CopyExpr.still_of_bare {e e' : Expr} (h : e'.bare = e.bare) : CopyExpr .still e e' :=
  .of_bare (by rw [Expr.moved_zero]; exact h) fun _ _ => rfl

/-- Nodes that may be missing, and have the same bare node. -/
theorem optionRel_of_map_eq {α β : Type} {bare : α → β} {R : α → α → Prop}
    (hR : ∀ {a a'}, bare a' = bare a → R a a') : ∀ {o o' : Option α},
    o'.map bare = o.map bare → Option.Rel R o o'
  | none, none, _ => .none
  | some _, some _, h => .some (hR (Option.some.inj h))
  | none, some _, h => by cases h
  | some _, none, h => by cases h

/-- Declaring other names makes no scope of `super`. -/
theorem SuperHere.of_markAll : ∀ {names : List String} {scopes : List (Bindings Bool)},
    "super" ∉ names → SuperHere (markAll names scopes) → SuperHere scopes
  | [], _, _, h => h
  | name :: names, [], hnames, h => by
    have hrest : "super" ∉ names := fun hmem => hnames (List.mem_cons_of_mem _ hmem)
    exact SuperHere.of_markAll hrest h
  | name :: names, scope :: scopes, hnames, h => by
    have hrest : SuperHere (scope.put name true :: scopes) :=
      SuperHere.of_markAll (fun hmem => hnames (List.mem_cons_of_mem _ hmem)) h
    have hput : (scope.put name true).find? "super" = some true := hrest
    have hne : name ≠ "super" := fun heq => hnames (by rw [heq]; exact List.mem_cons_self)
    rw [Bindings.find?_put, if_neg hne] at hput
    exact hput

namespace ForLoop.Copies

variable {l l' : ForLoop} {r : Resolution} {T T' : Distances}

/-- The scopes around the condition. -/
theorem padScopes (h : l.Copies l') (hsuper : ¬ SuperHere r.scopes) :
    PadScopes l.loopPads (l.treeCond r).scopes (l'.atCond r).scopes := by
  have hstart : Option.Rel (CopyStmt .still) l.start l'.start :=
    optionRel_of_map_eq CopyStmt.still_of_bare h.start
  unfold loopPads treeCond atCond
  generalize l.start = start? at hstart
  generalize l'.start = start?' at hstart
  cases hstart with
  | none => exact .second .same hsuper
  | some hs => exact (PadScopes.both .same).stmt hs.declared_eq (.inr .here)

/-- The condition stands in no scope of `super`. -/
theorem not_superHere (hsuper : ¬ SuperHere r.scopes)
    (hnames : ∀ s, l.start = some s → "super" ∉ s.declared) :
    ¬ SuperHere (l.treeCond r).scopes := by
  unfold treeCond
  cases hstart : l.start with
  | none => exact hsuper
  | some s =>
    rw [(Resolution.stmt_passed _ _).scopes]
    intro hhere
    have hopen : SuperHere r.openScope.scopes := .of_markAll (hnames s hstart) hhere
    cases hopen

/-- **The parts of a loop lead to the same places in the frames of its tree and in its own**, if the
tables file the distances of their sites. -/
theorem aligned (h : l.Copies l') (hbody : l.body.declared = []) (hsuper : ¬ SuperHere r.scopes)
    (hnames : ∀ s, l.start = some s → "super" ∉ s.declared)
    {cs : List Construct} {step inner always loop outer : Nat}
    (hk : ∀ site ∈ stmtSites cs r (l.tree step inner always loop outer), site.Known T)
    (hk' : ∀ site ∈ l'.sites r, site.ReferredIn T') : l.Aligned T T' l' := by
  obtain ⟨cs₁, cs₂, hsites⟩ := l.tree_sites r cs step inner always loop outer
  rw [hsites] at hk
  simp only [ForLoop.sites, List.forall_mem_append] at hk hk'
  obtain ⟨⟨⟨hkstart, hkcond⟩, hkbody⟩, hkincrement⟩ := hk
  obtain ⟨⟨⟨hkstart', hkcond'⟩, hkbody'⟩, hkincrement'⟩ := hk'
  have hcopy := CopyStmt.still_of_bare h.body
  have hloop := h.padScopes hsuper
  have hhere := not_superHere hsuper hnames
  -- the scopes around the body
  have hturn : PadScopes l.turnPads (l.treeTurn r).scopes (l'.atBody r).scopes := by
    rw [ForLoop.atBody, Resolution.clause?_scopes]
    unfold turnPads treeTurn
    split
    · refine .first ?_ ?_ <;> rw [Resolution.clause?_scopes]
      · exact hloop
      · exact hhere
    · rw [Resolution.clause?_scopes]
      exact hloop
  have hafter : PadScopes l.turnPads (l.treeIncrement r).scopes (l'.atIncrement r).scopes :=
    hturn.stmt hcopy.declared_eq (.inl hbody)
  refine ⟨?_, ?_, ?_, hcopy.padded hturn (.inl hbody) hkbody hkbody'⟩
  · have hstart : Option.Rel (CopyStmt .still) l.start l'.start :=
      optionRel_of_map_eq CopyStmt.still_of_bare h.start
    generalize l.start = start? at hstart hkstart
    generalize l'.start = start?' at hstart hkstart'
    cases hstart with
    | none => exact .none
    | some hs => exact .some (hs.padded (.both .same) (.inr .here) hkstart hkstart')
  · have hcond : Option.Rel (CopyExpr .still) l.cond l'.cond :=
      optionRel_of_map_eq CopyExpr.still_of_bare h.cond
    generalize l.cond = cond? at hcond hkcond
    generalize l'.cond = cond?' at hcond hkcond'
    cases hcond with
    | none => exact .none
    | some he => exact .some (he.padded hloop hkcond hkcond')
  · have hincrement : Option.Rel (CopyExpr .still) l.increment l'.increment :=
      optionRel_of_map_eq CopyExpr.still_of_bare h.increment
    generalize hi : l.increment = increment? at hincrement hkincrement
    generalize l'.increment = increment?' at hincrement hkincrement'
    cases hincrement with
    | none => exact .none
    | some he => exact .some (he.padded hafter hkincrement hkincrement')

end ForLoop.Copies

/-! ## A copy with numbers of its own -/

theorem renumberedStart (r : Resolution) (lo : Nat) (T : Distances) : ∀ start : Option Stmt,
    ∃ start' hi T', start'.map Stmt.bare = start.map Stmt.bare ∧
      FreshlyFiled (optionIds Stmt.ids start') (fun cs => startSites cs r start') lo hi T T'
  | none => ⟨none, lo, T, rfl, .nil lo T⟩
  | some s => by
    obtain ⟨s', hi, T', hbare, h⟩ := s.renumbered r lo T
    exact ⟨some s', hi, T', congrArg some hbare, h⟩

theorem renumberedClause (r : Resolution) (lo : Nat) (T : Distances) : ∀ clause : Option Expr,
    ∃ clause' hi T', clause'.map Expr.bare = clause.map Expr.bare ∧
      FreshlyFiled (optionIds Expr.ids clause') (fun cs => clauseSites cs r clause') lo hi T T'
  | none => ⟨none, lo, T, rfl, .nil lo T⟩
  | some e => by
    obtain ⟨e', hi, T', hbare, h⟩ := e.renumbered none r lo T
    exact ⟨some e', hi, T', congrArg some hbare, h⟩

/-- **Every loop has a copy with numbers of its own**, from any number on, and a table that files
its distances. -/
theorem ForLoop.renumbered (l : ForLoop) (r : Resolution) (lo : Nat) (T : Distances) :
    ∃ l' hi T', l.Copies l' ∧ FreshlyFiled l'.ids (fun _ => l'.sites r) lo hi T T' := by
  obtain ⟨start, n₁, T₁, hstart, h₁⟩ := renumberedStart r.openScope lo T l.start
  obtain ⟨cond, n₂, T₂, hcond, h₂⟩ := renumberedClause (r.openScope.start? start) n₁ T₁ l.cond
  obtain ⟨body, n₃, T₃, hbody, h₃⟩ :=
    l.body.renumbered ((r.openScope.start? start).clause? cond) n₂ T₂
  obtain ⟨increment, hi, T', hincrement, h₄⟩ :=
    renumberedClause (((r.openScope.start? start).clause? cond).stmt body) n₃ T₃ l.increment
  refine ⟨⟨start, cond, increment, body⟩, hi, T', ⟨hstart, hcond, hincrement, hbody⟩, ?_⟩
  refine (((h₁.append h₂).append h₃).append h₄).of_mem (fun id => ?_)
    fun _ site hmem _ => ⟨[], hmem⟩
  simp only [ForLoop.ids, List.mem_append]
  exact or_right_comm

end LoxLang
