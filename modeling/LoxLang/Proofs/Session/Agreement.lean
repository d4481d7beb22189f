import Mathlib
import LoxLang.Proofs.Session.History

/-!
# Scopes and frames agree

The pass over a program works with a stack of scopes, the machine with a chain of frames, and
neither knows of the other.  They agree in every run of every session: where a local reference is
evaluated, there is one frame for each scope that was open at it, and the distance that was filed
leads to the frame of the construct which holds the declaration.  A local variable is defined by
then, unless an assignment to it stands in its own initializer.

Principal results: `frames_match_scopes`, `locals_are_defined`.
-/

namespace LoxLang

section

variable {s : Session} {tasks : List Task} {n : Nat} {source : String} {task : Task}

/-- A source that is run as a task was prepared as a clean program. -/
theorem Session.task?_eq_some (h : s.task? n source = some task) :
    ∃ program tokens hi, Prepared.Clean program tokens s.nextId hi ∧
      task = program.task n s.machine := by
  unfold Session.task? at h
  cases hprepare : s.prepare source with
  | mk program? rest =>
    obtain ⟨s₁, transcript⟩ := rest
    rw [hprepare] at h
    cases program? with
    | none => cases h
    | some program =>
      cases h
      obtain ⟨hclean, hmachine, _⟩ := Session.prepare_eq_some hprepare
      refine ⟨program, _, _, hclean, ?_⟩
      simp only [hmachine, Prepared.task]

/-- Every reference that a session evaluates is placed. -/
theorem History.placed (h : History s tasks) (htask : s.task? n source = some task) {t : Task}
    {use : Use} {id : Nat} {name : Token} {m : Machine} (hreaches : task.Reaches t)
    (hevaluates : t.Evaluates use id name m) :
    ∃ table p, Placed (selfPairing table (task :: tasks)) m ⟨use, id, name, p⟩ := by
  obtain ⟨program, tokens, hi, hclean, rfl⟩ := Session.task?_eq_some htask
  have hsound := h.kept.sound (n := n) hclean
  obtain ⟨hsound, hgrants⟩ := hsound.reaches (selfPairing_grants ..) hreaches
  obtain ⟨p, hplaced⟩ := hsound.placed hgrants hevaluates
  exact ⟨_, p, hplaced⟩

/-- **The resolver and the machine agree on scopes.**  A run of a source on a session, after any
history, never comes to a fault.  Whenever it evaluates a reference that is filed under a distance,
the chain of the current frame has one frame for each scope open at the reference, and the globals;
and the frame at the distance was made for the very construct that holds the declaration. -/
theorem frames_match_scopes (h : History s tasks) (n : Nat) (source : String) :
    ((∃ s₁ transcript, s.run n source = .ended s₁ transcript) ∨ s.run n source = .exhausted) ∧
    ∀ task, s.task? n source = some task → ∀ t use id name m d, task.Reaches t →
      t.Evaluates use id name m → m.table[id]? = some d →
      ∃ p f c, RefersIn (task :: tasks) ⟨use, id, name, p⟩ ∧
        distance? name.lexeme p.scopes = some d ∧
        (m.store.chain m.frame).length = p.scopes.length + 1 ∧
        m.store.climb p.scopes.length m.frame = some Store.globalFrame ∧
        m.store.climb d m.frame = some f ∧ p.constructs[d]? = some c ∧
        MadeIn (task :: tasks) f c := by
  constructor
  · obtain ⟨s₁, transcript, hended, _⟩ | hexhausted := h.kept.run n source
    · exact .inl ⟨s₁, transcript, hended⟩
    · exact .inr hexhausted
  · intro task htask t use id name m d hreaches hevaluates hfiled
    obtain ⟨table, p, hplaced⟩ := h.placed htask hreaches hevaluates
    have hdistance : distance? name.lexeme p.scopes = some d := hplaced.table.symm.trans hfiled
    obtain ⟨c, f, hc, hf, hmade, _⟩ := hplaced.frame d hdistance
    exact ⟨p, f, c, hplaced.known, hdistance, hplaced.depth, hplaced.root, hf, hc, hmade⟩

end

/-! ### A nested block -/

/-- A name on the first line. -/
def nameToken (lexeme : String) : Token := ⟨.identifier, lexeme, .nil, 1⟩

/-- The machine of a new session that has learnt a program. -/
def learntBy (stmts : List Stmt) : Machine :=
  (Machine.initial 200 0).learn (Resolution.ofProgram stmts).table

theorem task?_start {source : String} {stmts : List Stmt} (n hi : Nat)
    (hscan : (scan source).found = [])
    (hread : Program.read (scan source).tokens (scan source).stop 1 = ⟨stmts, [], hi⟩)
    (hfound : (Resolution.ofProgram stmts).found = []) :
    (Session.start {} 0).task? n source = some (.program n stmts (learntBy stmts)) := by
  have hprepare := Session.prepare_of_clean (s := Session.start {} 0) rfl hscan hread rfl hfound
  unfold Session.task?
  rw [hprepare]
  rfl

/-- The program `{ var a; { a; } }`. -/
def nestedBlocks : List Stmt :=
  [.block 5 [.declare 1 (nameToken "a") none, .block 4 [.expression 3 (.var 2 (nameToken "a"))]]]

theorem nestedBlocks_task :
    (Session.start {} 0).task? 9 "\x7b var a; \x7b a; \x7d \x7d" =
      some (.program 9 nestedBlocks (learntBy nestedBlocks)) :=
  task?_start 9 6 (by cbv) (by cbv) (by cbv)

theorem frames_match_scopes_in_nested_blocks :
    ∃ t m p f c, Task.Reaches (.program 9 nestedBlocks (learntBy nestedBlocks)) t ∧
      t.Evaluates .read 2 (nameToken "a") m ∧ m.table[2]? = some 1 ∧
      distance? "a" (Surroundings.scopes p) = some 1 ∧ p.scopes.length = 2 ∧
      m.store.climb 1 m.frame = some f ∧ p.constructs[1]? = some c ∧
      MadeIn [.program 9 nestedBlocks (learntBy nestedBlocks)] f c := by
  have hreaches : Task.Reaches (.program 9 nestedBlocks (learntBy nestedBlocks)) _ :=
    .step (.step (.step (.step (.step (.step (.step (.step (.step .refl .first) .block) .body)
      (.tail rfl)) .head) .block) .body) .head) .expression
  have htable : (learntBy nestedBlocks).table[2]? = some 1 := by
    rw [learntBy, Machine.learn_table]
    cbv
  obtain ⟨p, f, c, _, hd, hlength, _, hf, hc, hmade⟩ :=
    (frames_match_scopes (.start {} 0) 9 "\x7b var a; \x7b a; \x7d \x7d").2 _ nestedBlocks_task _ _ _ _ _ 1
      hreaches .var htable
  refine ⟨_, _, p, f, c, hreaches, .var, htable, hd, ?_, hf, hc, hmade⟩
  exact (Nat.succ.inj hlength).symm

/-! ## Definedness -/

/-- An assignment in the initializer of the local variable that it refers to. -/
def InOwnInitializer (tasks : List Task) (use : Use) (id : Nat) (name : Token) : Prop :=
  use = .write ∧ ∃ p decl, RefersIn tasks ⟨use, id, name, p⟩ ∧
    distance? name.lexeme p.scopes = some 0 ∧ p.initializing = some decl ∧
    decl.name = name.lexeme

/-- **Local variables are defined where they are used.**  A reference that is filed under a distance
finds its name in the frame at that distance, unless it is an assignment in the initializer of the
very variable that it refers to.  So a missing variable is only ever reported of a global one, or
by such an assignment. -/
theorem locals_are_defined {s : Session} {tasks : List Task} {n : Nat} {source : String}
    (h : History s tasks) {stmts : List Stmt} {m₀ : Machine}
    (htask : s.task? n source = some (.program n stmts m₀)) :
    (∀ t use id name m d, Task.Reaches (.program n stmts m₀) t → t.Evaluates use id name m →
      m.table[id]? = some d →
      (∃ v, m.store.getAt m.frame d name.lexeme = .ok v) ∨
        InOwnInitializer (.program n stmts m₀ :: tasks) use id name) ∧
    ∀ token x m₁, executeProgram n stmts m₀ = .raised ⟨token, .undefinedVariable x⟩ m₁ →
      x = token.lexeme ∧ ∃ t use id m, Task.Reaches (.program n stmts m₀) t ∧
        t.Evaluates use id token m ∧
        (m.table[id]? = none ∨ InOwnInitializer (.program n stmts m₀ :: tasks) use id token) := by
  constructor
  · intro t use id name m d hreaches hevaluates hfiled
    obtain ⟨table, p, hplaced⟩ := h.placed htask hreaches hevaluates
    have hdistance : distance? name.lexeme p.scopes = some d := hplaced.table.symm.trans hfiled
    obtain ⟨c, f, hc, hf, _, hbound | hnone | ⟨huse, hzero, decl, hinit, hname⟩⟩ :=
      hplaced.frame d hdistance
    · obtain ⟨v, hv⟩ := (Store.has_eq_true _).1 hbound
      refine .inl ⟨v, ?_⟩
      simp only [Store.getAt, Store.ancestor_eq_ok _ hf, Store.get, hv]
    · have hsome : Site.distance? ⟨use, id, name, p⟩ = some d := hdistance
      rw [hnone] at hsome
      cases hsome
    · exact .inr ⟨huse, p, decl, hplaced.known, hzero, hinit, hname⟩
  · intro token x m₁ hraised
    obtain ⟨program, tokens, hi, hclean, htask⟩ := Session.task?_eq_some htask
    cases htask
    obtain ⟨L, hagrees⟩ := h.kept.agrees (n := n) hclean
    rw [hraised] at hagrees
    cases hagrees with
    | raised hsince herror =>
      cases herror with
      | same hcause _ => exact absurd rfl (hcause x)
      | @undefined site t' m hrefers hfails hevaluated htable =>
        obtain ⟨task, hhead, t, hreaches, hevaluates⟩ := hevaluated
        obtain rfl : _ = task := Option.some.inj hhead
        refine ⟨rfl, t, site.use, site.id, m, hreaches, hevaluates, ?_⟩
        obtain hnone | ⟨huse, hzero, decl, hinit, hname⟩ := hfails
        · rw [htable]
          exact .inl (hrefers.table.trans hnone)
        · exact .inr ⟨huse, _, decl, hrefers.known, hzero, hinit, hname⟩

/-! ### An assignment in its own initializer -/

/-- The program `{ var a = a = nil; }`. -/
def ownInitializer : List Stmt :=
  [.block 5 [.declare 4 (nameToken "a") (some (.assign 3 (nameToken "a") (.literal 2 .nil)))]]

theorem ownInitializer_task : (Session.start {} 0).task? 7 "\x7b var a = a = nil; \x7d" =
    some (.program 7 ownInitializer (learntBy ownInitializer)) :=
  task?_start 7 6 (by cbv) (by cbv) (by cbv)

theorem ownInitializer_raises {m : Machine} (h : m.table[3]? = some 0) :
    ∃ m₁, executeProgram 7 ownInitializer m =
      .raised ⟨nameToken "a", .undefinedVariable "a"⟩ m₁ := by
  have hassign : (m.enter .empty m.frame).assign 3 (nameToken "a") .nil =
      (m.enter .empty m.frame).raise (nameToken "a") (.undefinedVariable "a") := by
    have htable : (m.enter .empty m.frame).table[3]? = some 0 := h
    have hhas : (m.enter .empty m.frame).store.has (m.enter .empty m.frame).frame "a" = false := by
      simp [Machine.enter, Store.has, Store.bindings_push, Bindings.contains]
    simp only [Machine.assign, htable, Store.ancestor, Machine.assignIn]
    simp [nameToken, hhas, Store.climb]
  simp only [executeProgram, ownInitializer, execute, executeIn, executeAll, evaluate,
    Outcome.bind_done, Literal.value, hassign, Machine.raise, Outcome.bind_raised,
    Outcome.ending_raised]
  exact ⟨_, rfl⟩

theorem locals_are_defined_but_in_own_initializer :
    (∃ m, executeProgram 7 ownInitializer (learntBy ownInitializer) =
      .raised ⟨nameToken "a", .undefinedVariable "a"⟩ m) ∧
    InOwnInitializer [.program 7 ownInitializer (learntBy ownInitializer)] .write 3
      (nameToken "a") := by
  have htable : (learntBy ownInitializer).table[3]? = some 0 := by
    rw [learntBy, Machine.learn_table]
    cbv
  have hreaches : Task.Reaches (.program 7 ownInitializer (learntBy ownInitializer)) _ :=
    .step (.step (.step (.step (.step .refl .first) .block) .body) .head) .initial
  refine ⟨ownInitializer_raises htable, ?_⟩
  obtain ⟨v, hv⟩ | hown := (locals_are_defined (.start {} 0) ownInitializer_task).1 _ _ _ _ _ 0
    hreaches (.assign rfl) htable
  · cases hv
  · exact hown

end LoxLang
