import LoxLang.Proofs.Grammar.Soundness.Statement
import LoxLang.Proofs.Run.BlankFrames
import LoxLang.Proofs.Run.ForLoops
import LoxLang.Proofs.Run.SeenSites
import LoxLang.Proofs.Session.Places

/-!
# Loops of a session

What is read as a `for` is the tree of a loop.  Whenever a session executes such a tree, in whatever
function and frame, the tables hold the distances of its sites in the scopes that stood around it,
so the tree and the meaning of the loop come to the same end.

* `Reply.Gives` — what holds of everything that a rule reads.
* `ResolvedIn` — the references of a tree, in the scopes that the pass over the programs had.

Principal results: `forRule_parts`, `History.loop_resolved`, `for_means_its_rounds`.
-/

namespace LoxLang

/-! ## Reading -/

/-- What holds of everything that a rule reads, and of the cursor after it. -/
def Reply.Gives {α : Type} (r : Reply α) (P : α → Cursor → Prop) : Prop :=
  ∀ v c, r = .ok v c → P v c

namespace Reply.Gives

variable {α β : Type} {P : β → Cursor → Prop}

theorem exhausted : (Reply.exhausted : Reply β).Gives P := fun _ _ heq => by cases heq

theorem bind {r : Reply α} {f : α → Cursor → Reply β}
    (h : ∀ v c, r = .ok v c → (f v c).Gives P) : (r.bind f).Gives P := by
  intro v c heq
  cases r with
  | ok a c₁ => exact h a c₁ rfl v c heq
  | failed c₁ => cases heq
  | exhausted => cases heq

theorem node (c : Cursor) {make : Nat → β} (h : ∀ id c', P (make id) c') :
    (c.node make).Gives P := by
  intro v c' heq
  cases heq
  exact h _ _

end Reply.Gives

/-- The tree that is built of the parts of a loop. -/
theorem forLoop_tree {l : ForLoop} {c c' : Cursor} {tree : Stmt}
    (h : forLoop l.start l.cond l.increment l.body c = .ok tree c') :
    ∃ step inner always loop outer, tree = l.tree step inner always loop outer := by
  obtain hexhausted | ⟨tree', c₁, hok, _, htree⟩ :=
    forLoop_yields l.start l.cond l.increment l.body c
  · rw [hexhausted] at h
    cases h
  · rw [hok] at h
    cases h
    exact htree

/-- A `for` is read as the tree of the parts that were read. -/
theorem forRule_gives (n : Nat) (c : Cursor) : (forRule n c).Gives fun tree c' =>
    ∃ (l : ForLoop) (k : Nat) (c₁ c₂ : Cursor), statement k c₁ = .ok l.body c₂ ∧
      forLoop l.start l.cond l.increment l.body c₂ = .ok tree c' := by
  cases n with
  | zero =>
    rw [forRule]
    exact .exhausted
  | succ n =>
    rw [forRule]
    refine .bind fun _ _ _ => .bind fun start _ _ => .bind fun cond _ _ => .bind fun _ _ _ =>
      .bind fun increment _ _ => .bind fun _ c₁ _ => .bind fun body c₂ hbody => ?_
    exact fun tree c' htree => ⟨⟨start, cond, increment, body⟩, n, c₁, c₂, hbody, htree⟩

theorem ForLoop.tree_isDeclaration (l : ForLoop) (step inner always loop outer : Nat) :
    (l.tree step inner always loop outer).isDeclaration = false := by
  rw [ForLoop.tree_eq]
  cases l.start <;> rfl

/-- A statement that is read is no declaration. -/
theorem statement_gives (n : Nat) (c : Cursor) :
    (statement n c).Gives fun s _ => s.isDeclaration = false := by
  have hexpression : ∀ c, (expressionStmt c).Gives fun s _ => s.isDeclaration = false :=
    fun c => .bind fun _ _ _ => .bind fun _ c _ => .node c fun _ _ => rfl
  cases n with
  | zero =>
    rw [statement]
    exact .exhausted
  | succ n =>
    rw [statement]
    split
    · exact hexpression c
    · split
      · intro tree c' h
        obtain ⟨l, _, _, _, _, hfor⟩ := forRule_gives n _ tree c' h
        obtain ⟨step, inner, always, loop, outer, rfl⟩ := forLoop_tree hfor
        exact l.tree_isDeclaration ..
      · cases n with
        | zero =>
          rw [ifRule]
          exact .exhausted
        | succ n =>
          rw [ifRule]
          refine .bind fun _ _ _ => .bind fun _ _ _ => .bind fun _ _ _ => .bind fun _ c _ => ?_
          split
          · exact .node _ fun _ _ => rfl
          · exact .bind fun _ _ _ => .node _ fun _ _ => rfl
      · exact .bind fun _ _ _ => .bind fun _ _ _ => .node _ fun _ _ => rfl
      · exact .bind fun _ _ _ => .bind fun _ _ _ => .node _ fun _ _ => rfl
      · cases n with
        | zero =>
          rw [whileRule]
          exact .exhausted
        | succ n =>
          rw [whileRule]
          exact .bind fun _ _ _ => .bind fun _ _ _ => .bind fun _ _ _ => .bind fun _ _ _ =>
            .node _ fun _ _ => rfl
      · exact .bind fun _ _ _ => .node _ fun _ _ => rfl
      · exact hexpression c

/-- **What is read as a `for` is built of the parts of a loop whose body is no declaration.** -/
theorem forRule_parts {n : Nat} {c c' : Cursor} {tree : Stmt} (h : forRule n c = .ok tree c') :
    ∃ (l : ForLoop) (c₁ : Cursor), forLoop l.start l.cond l.increment l.body c₁ = .ok tree c' ∧
      l.body.isDeclaration = false := by
  obtain ⟨l, k, c₁, c₂, hbody, hfor⟩ := forRule_gives n c tree c' h
  exact ⟨l, c₂, hfor, statement_gives k c₁ l.body c₂ hbody⟩

/-! ## The trees of loops -/

section

variable {K : Pairing} {p : Surroundings} {l : ForLoop} {step inner always loop outer : Nat}

/-- The body of a loop whose tree is resolved. -/
theorem ForLoop.alike_body (h : AlikeStmt K p (l.treeBody step inner) (l.treeBody step inner)) :
    ∃ p', AlikeStmt K p' l.body l.body := by
  unfold ForLoop.treeBody at h
  cases hincrement : l.increment with
  | none =>
    rw [hincrement] at h
    exact ⟨p, h⟩
  | some value =>
    rw [hincrement] at h
    cases h with
    | block hbody =>
      cases hbody with
      | cons hs _ => exact ⟨_, hs⟩

/-- The statements of a loop whose tree is resolved. -/
theorem ForLoop.alike_parts (h : AlikeStmt K p (l.tree step inner always loop outer)
      (l.tree step inner always loop outer)) :
    (∃ p', AlikeStmt K p' l.body l.body) ∧
      ∀ s, l.start = some s → ∃ p', AlikeStmt K p' s s := by
  rw [ForLoop.tree_eq] at h
  cases hstart : l.start with
  | none =>
    rw [hstart] at h
    cases h with
    | loop _ hbody _ => exact ⟨ForLoop.alike_body hbody, fun _ hs => by cases hs⟩
  | some s =>
    rw [hstart] at h
    cases h with
    | block hall =>
      cases hall with
      | cons hs hrest =>
        cases hrest with
        | cons hloop _ =>
          cases hloop with
          | loop _ hbody _ =>
            refine ⟨ForLoop.alike_body hbody, fun s' hs' => ?_⟩
            obtain rfl := Option.some.inj hs'
            exact ⟨_, hs⟩

end

/-! ## Moments -/

/-- The frame of a place is none of `super`. -/
theorem Chain.not_superHere {W : World} {f : Nat} {cs : List Construct}
    {scopes : List (Bindings Bool)} (h : Chain W f cs scopes)
    (hf : FrameKind.ordinary.Fits (W.store.bindings f)) :
    ¬ SuperHere scopes := by
  intro hhere
  cases h with
  | globals => cases hhere
  | frame _ _ hbound _ =>
    have hhas := hbound "super" hhere
    rw [Store.has, Bindings.contains, hf.2] at hhas
    cases hhas

section

variable {s : Session} {tasks : List Task} {n : Nat} {source : String} {task : Task}

/-- The references of a tree, in the scopes that the pass over the programs of a session had. -/
def ResolvedIn (tasks : List Task) (r : Resolution) (tree : Stmt) : Prop :=
  ∀ site ∈ stmtSites [] r tree, site.use.isReference = true →
    ∃ p, RefersIn tasks ⟨site.use, site.id, site.name, p⟩ ∧ p.scopes = site.around.scopes

/-- **Where a loop is executed, its tree was resolved.** -/
theorem History.loop_resolved (h : History s tasks) (htask : s.task? n source = some task)
    {l : ForLoop} (hbody : l.body.isDeclaration = false) {k step inner always loop outer : Nat}
    {m : Machine}
    (hreaches : task.Reaches (.execute k (l.tree step inner always loop outer) m)) :
    ∃ r, ResolvedIn (task :: tasks) r (l.tree step inner always loop outer) ∧
      l.Resolved (l.tree step inner always loop outer) r m := by
  have hmoment : Moment (task :: tasks) (.execute k (l.tree step inner always loop outer) m) :=
    ⟨task, List.mem_cons_self, hreaches⟩
  have hintact := ((h.timeline htask).intact_of_moment hmoment).2
  obtain ⟨hi, hnumbering⟩ := h.numbering_task htask
  obtain ⟨program, tokens, hi', hclean, rfl⟩ := Session.task?_eq_some htask
  obtain ⟨hsound, _⟩ := (h.kept.sound (n := n) hclean).reaches (selfPairing_grants ..) hreaches
  cases hsound with
  | @execute _ _ L _ p hat hs =>
    obtain ⟨⟨_, hbodyAlike⟩, hstart⟩ := ForLoop.alike_parts hs
    have hsees : ∀ site ∈ stmtSites [] { scopes := p.scopes }
        (l.tree step inner always loop outer), Pairing.Sees _ site := hs.seen rfl
    refine ⟨{ scopes := p.scopes }, ?_, hintact.store, hintact.frame,
      hbodyAlike.declared_eq_nil hbody, ⟨[], ?_⟩, hat.chain.not_superHere hintact.ordinary, ?_⟩
    · intro site hmem huse
      obtain ⟨p', _, hrefers, hscopes, _⟩ := hsees site hmem huse
      exact ⟨p', hrefers.known, hscopes⟩
    · intro site hmem huse
      obtain ⟨p', _, hrefers, hscopes, hsuper⟩ := hsees site hmem huse
      refine ⟨?_, fun hissuper => ⟨hsuper hissuper, ?_⟩⟩
      · have htable := hrefers.table
        rw [Site.distance?, hscopes, ← hat.twins.table] at htable
        exact htable
      · obtain ⟨_, _, _, _, hstands⟩ := RefersIn.stands hnumbering hrefers.known
        obtain ⟨_, hlayers, _⟩ := hstands.layers
        rw [Surroundings.Readable, ← hscopes]
        exact fun d scope hd hget => hlayers.super_ready hd hget
    · intro s' hs'
      obtain ⟨_, halike⟩ := hstart s' hs'
      exact halike.super_not_declared

end

/-! ### A loop that runs once -/

/-- The parts of `for (var a = true; a; a = false) print a;`. -/
def flagLoop : ForLoop where
  start := some (.declare 2 (nameToken "a") (some (.literal 1 (.bool true))))
  cond := some (.var 3 (nameToken "a"))
  increment := some (.assign 6 (nameToken "a") (.literal 5 (.bool false)))
  body := .print 8 (.var 7 (nameToken "a"))

/-- The program that is read. -/
def flagProgram : List Stmt := [flagLoop.tree 9 10 0 11 12]

theorem flagProgram_task :
    (Session.start {} 0).task? 20 "for (var a = true; a; a = false) print a;" =
      some (.program 20 flagProgram (learntBy flagProgram)) :=
  task?_start 20 13 (by cbv) (by cbv) (by cbv)

theorem flagLoop_prints : ∃ m, execute 20 (flagLoop.tree 9 10 0 11 12) (learntBy flagProgram) =
    .done .normal m ∧ m.output = #["true"] :=
  ⟨_, by cbv, rfl⟩

end LoxLang
