import LoxLang.Proofs.Run.Making
import LoxLang.Proofs.Session.Agreement

/-!
# The moments of a session

The runs of a session follow each other on one machine, and what was said of the moments of one run
holds of the moments of all of them: they are ordered in time, and the store only grows.

* `Moment` — a moment of one of the programs that were run.
* `Text` — a node of one of these programs.
* `Timeline` — programs in good order, each over when the next one starts.

Principal results: `Session.run_leaves`, `History.timeline`, `Timeline.comparable`,
`Timeline.intact_of_moment`.
-/

namespace LoxLang

/-! ## Names of proper programs -/

section

variable {P : Token → Prop}

theorem ProperName.plain (hP : ∀ t, P t → t.Genuine) {name : Token} (h : ProperName P name) :
    PlainName name.lexeme :=
  (hP name h.2).identifier h.1

mutual

/-- The nodes of a proper expression are well named. -/
theorem Expr.Proper.wellNamed (hP : ∀ t, P t → t.Genuine) : ∀ {e : Expr}, e.Proper P →
    ∀ node ∈ e.walk, node.WellNamed
  | .literal .., _ => by simp [Expr.walk, Node.WellNamed]
  | .grouping _ inner, h => by
    rw [Expr.walk, List.forall_mem_cons]
    exact ⟨trivial, Expr.Proper.wellNamed hP (e := inner) h⟩
  | .unary _ _ operand, h => by
    rw [Expr.walk, List.forall_mem_cons]
    exact ⟨trivial, Expr.Proper.wellNamed hP (e := operand) h.2⟩
  | .binary _ left _ right, h => by
    rw [Expr.walk, List.forall_mem_cons, List.forall_mem_append]
    exact ⟨trivial, Expr.Proper.wellNamed hP (e := left) h.1,
      Expr.Proper.wellNamed hP (e := right) h.2.2⟩
  | .logical _ left _ right, h => by
    rw [Expr.walk, List.forall_mem_cons, List.forall_mem_append]
    exact ⟨trivial, Expr.Proper.wellNamed hP (e := left) h.1,
      Expr.Proper.wellNamed hP (e := right) h.2.2⟩
  | .var .., _ => by simp [Expr.walk, Node.WellNamed]
  | .assign _ _ value, h => by
    rw [Expr.walk, List.forall_mem_cons]
    exact ⟨h.1.plain hP, Expr.Proper.wellNamed hP (e := value) h.2⟩
  | .call _ callee _ args, h => by
    rw [Expr.walk, List.forall_mem_cons, List.forall_mem_append]
    exact ⟨trivial, Expr.Proper.wellNamed hP (e := callee) h.1,
      ProperArgs.wellNamed hP (a := args) h.2.2.1⟩
  | .get _ object _, h => by
    rw [Expr.walk, List.forall_mem_cons]
    exact ⟨trivial, Expr.Proper.wellNamed hP (e := object) h.1⟩
  | .set _ object _ value, h => by
    rw [Expr.walk, List.forall_mem_cons, List.forall_mem_append]
    exact ⟨trivial, Expr.Proper.wellNamed hP (e := object) h.1,
      Expr.Proper.wellNamed hP (e := value) h.2.2⟩
  | .this _ keyword, h => by
    rw [Expr.walk, List.forall_mem_cons]
    exact ⟨(hP keyword h.2).this h.1, by simp⟩
  | .super _ keyword _, h => by
    rw [Expr.walk, List.forall_mem_cons]
    exact ⟨(hP keyword h.1.2).super h.1.1, by simp⟩

theorem ProperArgs.wellNamed (hP : ∀ t, P t → t.Genuine) : ∀ {a : List Expr},
    ProperArgs P a → ∀ node ∈ walkArgs a, node.WellNamed
  | [], _ => by simp [walkArgs]
  | e :: es, h => by
    rw [walkArgs, List.forall_mem_append]
    exact ⟨Expr.Proper.wellNamed hP (e := e) h.1, ProperArgs.wellNamed hP (a := es) h.2⟩

end

mutual

theorem Stmt.Proper.wellNamed (hP : ∀ t, P t → t.Genuine) : ∀ {s : Stmt}, s.Proper P →
    ∀ node ∈ s.walk, node.WellNamed
  | .malformed, _ => by simp [Stmt.walk]
  | .expression _ value, h => by
    rw [Stmt.walk, List.forall_mem_cons]
    exact ⟨trivial, Expr.Proper.wellNamed hP (e := value) h⟩
  | .print _ value, h => by
    rw [Stmt.walk, List.forall_mem_cons]
    exact ⟨trivial, Expr.Proper.wellNamed hP (e := value) h⟩
  | .declare _ _ none, h => by
    rw [Stmt.walk, List.forall_mem_cons]
    exact ⟨ProperName.plain hP h, by simp⟩
  | .declare _ _ (some value), h => by
    rw [Stmt.walk, List.forall_mem_cons]
    exact ⟨h.1.plain hP, Expr.Proper.wellNamed hP (e := value) h.2⟩
  | .block _ body, h => by
    rw [Stmt.walk, List.forall_mem_cons]
    exact ⟨trivial, ProperBody.wellNamed hP (b := body) h⟩
  | .conditional _ cond thenBranch none, h => by
    rw [Stmt.walk, List.forall_mem_cons, List.forall_mem_append]
    exact ⟨trivial, Expr.Proper.wellNamed hP (e := cond) h.1,
      Stmt.Proper.wellNamed hP (s := thenBranch) h.2.1⟩
  | .conditional _ cond thenBranch (some elseBranch), h => by
    rw [Stmt.walk, List.forall_mem_cons, List.forall_mem_append, List.forall_mem_append]
    exact ⟨trivial, ⟨Expr.Proper.wellNamed hP (e := cond) h.1,
      Stmt.Proper.wellNamed hP (s := thenBranch) h.2.1.1⟩,
      Stmt.Proper.wellNamed hP (s := elseBranch) h.2.2.1⟩
  | .loop _ cond body, h => by
    rw [Stmt.walk, List.forall_mem_cons, List.forall_mem_append]
    exact ⟨trivial, Expr.Proper.wellNamed hP (e := cond) h.1,
      Stmt.Proper.wellNamed hP (s := body) h.2.1⟩
  | .function decl, h => by
    rw [Stmt.walk]
    exact ProperFunction.wellNamed hP (f := decl) h
  | .ret _ _ none, _ => by simp [Stmt.walk, Node.WellNamed]
  | .ret _ _ (some value), h => by
    rw [Stmt.walk, List.forall_mem_cons]
    exact ⟨trivial, Expr.Proper.wellNamed hP (e := value) h.2⟩
  | .classDecl _ _ none methods, h => by
    rw [Stmt.walk, List.forall_mem_cons]
    exact ⟨h.1.plain hP, ProperMethods.wellNamed hP (m := methods) h.2.2⟩
  | .classDecl _ _ (some superclass) methods, h => by
    rw [Stmt.walk, List.forall_mem_cons, List.forall_mem_append]
    refine ⟨h.1.plain hP, ?_, ProperMethods.wellNamed hP (m := methods) h.2.2⟩
    simp [Superclass.toExpr, Expr.walk, Node.WellNamed]

theorem ProperBody.wellNamed (hP : ∀ t, P t → t.Genuine) : ∀ {b : List Stmt},
    ProperBody P b → ∀ node ∈ walkBody b, node.WellNamed
  | [], _ => by simp [walkBody]
  | s :: ss, h => by
    rw [walkBody, List.forall_mem_append]
    exact ⟨Stmt.Proper.wellNamed hP (s := s) h.1, ProperBody.wellNamed hP (b := ss) h.2⟩

theorem ProperFunction.wellNamed (hP : ∀ t, P t → t.Genuine) : ∀ {f : Function},
    ProperFunction P f → ∀ node ∈ walkFunction f, node.WellNamed
  | ⟨_, _, _, body⟩, h => by
    rw [walkFunction, List.forall_mem_cons]
    exact ⟨⟨h.1.plain hP, fun t ht => (h.2.1.1 t ht).plain hP⟩,
      ProperBody.wellNamed hP (b := body) h.2.2⟩

theorem ProperMethods.wellNamed (hP : ∀ t, P t → t.Genuine) : ∀ {m : List Function},
    ProperMethods P m → ∀ node ∈ walkMethods m, node.WellNamed
  | [], _ => by simp [walkMethods]
  | f :: fs, h => by
    rw [walkMethods, List.forall_mem_append]
    exact ⟨ProperFunction.wellNamed hP (f := f) h.1,
      ProperMethods.wellNamed hP (m := fs) h.2⟩

end

end

/-! ## Timelines -/

/-- A moment of one of these runs. -/
def Moment (tasks : List Task) (t : Task) : Prop := ∃ task ∈ tasks, task.Reaches t

/-- A node of one of these programs. -/
def Text (tasks : List Task) (node : Node) : Prop :=
  node.WellNamed ∧ ∃ n stmts m, Task.program n stmts m ∈ tasks ∧ node ∈ walkBody stmts

theorem Text.mono {tasks tasks' : List Task} (h : ∀ task ∈ tasks, task ∈ tasks') {node : Node}
    (hnode : Text tasks node) : Text tasks' node := by
  obtain ⟨hplain, n, stmts, m, hmem, hwalk⟩ := hnode
  exact ⟨hplain, n, stmts, m, h _ hmem, hwalk⟩

/-- Programs that were run one after the other, the last one first. -/
structure Timeline (tasks : List Task) : Prop where
  intact : ∀ task ∈ tasks, task.Intact (Text tasks)
  ordered : tasks.Pairwise fun later earlier => earlier.Precedes later

section

variable {tasks : List Task} {t t' : Task}

theorem text_plain (node : Node) (h : Text tasks node) : node.WellNamed := h.1

/-- **Every moment of a session finds the machine in good order.** -/
theorem Timeline.intact_of_moment (h : Timeline tasks) (ht : Moment tasks t) :
    t.Intact (Text tasks) := by
  obtain ⟨task, hmem, hreaches⟩ := ht
  exact ((h.intact task hmem).reaches text_plain hreaches).1

/-- What happened in an earlier run is over when a later one starts. -/
theorem Task.Precedes.moments {task task' : Task} (h : task.Precedes task')
    (hintact : task.Intact (Text tasks)) (hintact' : task'.Intact (Text tasks))
    (hreaches : task.Reaches t) (hreaches' : task'.Reaches t') : t.Precedes t' := by
  obtain ⟨e, he, hgrows⟩ := h
  obtain ⟨e', he', hgrows'⟩ := hintact.ends text_plain hreaches he
  exact ⟨e', he', hgrows'.trans (hgrows.trans (hintact'.reaches text_plain hreaches').2)⟩

/-- Of two programs that were run, one is over when the other starts. -/
theorem Timeline.cases (h : tasks.Pairwise fun later earlier => earlier.Precedes later)
    {task task' : Task} (hmem : task ∈ tasks) (hmem' : task' ∈ tasks) :
    task = task' ∨ task.Precedes task' ∨ task'.Precedes task := by
  induction h with
  | nil => cases hmem
  | cons hfirst _ ih =>
    obtain rfl | hold := List.mem_cons.1 hmem
    · obtain rfl | hold' := List.mem_cons.1 hmem'
      · exact .inl rfl
      · exact .inr (.inr (hfirst task' hold'))
    · obtain rfl | hold' := List.mem_cons.1 hmem'
      · exact .inr (.inl (hfirst task hold))
      · exact ih hold hold'

/-- **The moments of a session are ordered in time.** -/
theorem Timeline.comparable (h : Timeline tasks) (ht : Moment tasks t) (ht' : Moment tasks t') :
    t.Comparable t' := by
  obtain ⟨task, hmem, hreaches⟩ := ht
  obtain ⟨task', hmem', hreaches'⟩ := ht'
  obtain rfl | hbefore | hafter := Timeline.cases h.ordered hmem hmem'
  · exact (h.intact task hmem).ordered text_plain hreaches hreaches'
  · exact .before (hbefore.moments (h.intact task hmem) (h.intact task' hmem') hreaches hreaches')
  · exact .after (hafter.moments (h.intact task' hmem') (h.intact task hmem) hreaches' hreaches)

end

/-! ## Sessions -/

/-- A session in good order, whose runs are over. -/
structure Session.Intact (s : Session) (tasks : List Task) : Prop where
  timeline : Timeline tasks
  machine : s.machine.Intact (Text tasks)
  past : ∀ task ∈ tasks, ∃ e, task.end? = some e ∧ e.store.Grows s.machine.store

section

variable {s s₁ : Session} {tasks : List Task} {n : Nat} {source : String} {t : Transcript}

/-- A program that is about to be run on a session. -/
theorem Session.Intact.next {program : Prepared} {tokens : List Token} {hi : Nat}
    (h : s.Intact tasks) (hclean : program.Clean tokens s.nextId hi) :
    Timeline (program.task n s.machine :: tasks) := by
  have hmono : ∀ node, Text tasks node → Text (program.task n s.machine :: tasks) node :=
    fun node => Text.mono fun task => List.mem_cons_of_mem _
  refine ⟨List.forall_mem_cons.2 ⟨⟨fun node hmem => ?_, ?_⟩, fun task hmem => ?_⟩,
    List.pairwise_cons.2 ⟨h.past, h.timeline.ordered⟩⟩
  · exact ⟨hclean.proper.wellNamed hclean.genuine node hmem, n, program.stmts, _,
      List.mem_cons_self .., hmem⟩
  · have hmachine := h.machine.mono hmono
    exact ⟨hmachine.store, hmachine.code, hmachine.frame, hmachine.ordinary⟩
  · exact Task.Intact.mono (h.timeline.intact task hmem) hmono

/-- What holds of a session once a program has been run on it. -/
theorem Session.Intact.after {program : Prepared} {tokens : List Token} {hi : Nat}
    (h : s.Intact tasks) (hclean : program.Clean tokens s.nextId hi) {e : Machine}
    (hend : (program.task n s.machine).end? = some e) (hstore : s₁.machine.store = e.store)
    (hframe : s₁.machine.frame = e.frame) : s₁.Intact (program.task n s.machine :: tasks) := by
  have htimeline := h.next (n := n) hclean
  have hintact := htimeline.intact _ (List.mem_cons_self ..)
  have hsince := (Task.Intact.performs hintact text_plain).leaves e hend
  refine ⟨htimeline, ?_, List.forall_mem_cons.2 ⟨⟨e, hend, ?_⟩, fun task hmem => ?_⟩⟩
  · have hmachine := hsince.intact
    refine ⟨?_, ?_, ?_, ?_⟩
    · rw [hstore]
      exact hmachine.store
    · rw [hstore]
      exact hmachine.code
    · rw [hstore, hframe]
      exact hmachine.frame
    · rw [hstore, hframe]
      exact hmachine.ordinary
  · rw [hstore]
    exact .refl _
  · obtain ⟨e', he', hgrows⟩ := h.past task hmem
    refine ⟨e', he', ?_⟩
    rw [hstore]
    exact hgrows.trans hsince.grows

theorem Session.Intact.congr (h : s.Intact tasks) (hstore : s₁.machine.store = s.machine.store)
    (hframe : s₁.machine.frame = s.machine.frame) : s₁.Intact tasks := by
  refine ⟨h.timeline, h.machine.congr hstore hframe, fun task hmem => ?_⟩
  rw [hstore]
  exact h.past task hmem

/-- What a run leaves behind: the machine that there was, or what the program has made of it. -/
theorem Session.run_leaves (hrun : s.run n source = .ended s₁ t) :
    (s.task? n source = none ∧ s₁.machine = s.machine) ∨
      ∃ task e, s.task? n source = some task ∧ task.end? = some e ∧
        s₁.machine.store = e.store ∧ s₁.machine.table = e.table ∧ s₁.machine.frame = e.frame := by
  have hkeeps := s.prepare_keeps source
  unfold Session.task?
  cases hprepare : s.prepare source with
  | mk program? rest =>
    obtain ⟨s₂, t₂⟩ := rest
    rw [hprepare] at hkeeps
    cases program? with
    | none =>
      rw [Session.run_of_unprepared hprepare] at hrun
      cases hrun
      exact .inl ⟨rfl, hkeeps.1⟩
    | some program =>
      rw [Session.run_of_prepare hprepare] at hrun
      have hend : (Task.program n program.stmts (s₂.machine.learn program.table)).end? =
        (executeProgram n program.stmts (s₂.machine.learn program.table)).machine? := rfl
      generalize executeProgram n program.stmts (s₂.machine.learn program.table) = o at hrun hend
      cases o with
      | done v e | raised error e =>
        cases hrun
        exact .inr ⟨_, e, rfl, hend, rfl, rfl, rfl⟩
      | fault reason e => cases hrun
      | exhausted => cases hrun

/-- A run leaves the session in good order. -/
theorem Session.Intact.run (h : s.Intact tasks) (hrun : s.run n source = .ended s₁ t) :
    s₁.Intact ((s.task? n source).toList ++ tasks) := by
  obtain ⟨hnone, hmachine⟩ | ⟨task, e, htask, hend, hstore, _, hframe⟩ := Session.run_leaves hrun
  · rw [hnone]
    exact h.congr (by rw [hmachine]) (by rw [hmachine])
  · rw [htask]
    obtain ⟨program, tokens, hi, hclean, rfl⟩ := Session.task?_eq_some htask
    exact h.after hclean hend hstore hframe

/-- **Every session is in good order between its runs.** -/
theorem History.intact (h : History s tasks) : s.Intact tasks := by
  induction h with
  | start settings clock =>
    refine ⟨⟨fun _ hmem => (by cases hmem), .nil⟩, ⟨Store.Intact.initial, fun i c hc => ?_, ?_, ?_⟩,
      fun _ hmem => by cases hmem⟩
    · simp [Session.start, Machine.initial, Store.initial, Store.empty, Store.addNative,
        Store.define] at hc
    · exact Store.Intact.initial.root
    · exact Store.Intact.initial.rootKind
  | run _ hrun ih => exact ih.run hrun
  | reset _ ih => exact ih.congr rfl rfl
  | clock _ _ ih => exact ih.congr rfl rfl

/-- **The moments of a session, and of the run that is under way on it, form one timeline.** -/
theorem History.timeline (h : History s tasks) {task : Task} (htask : s.task? n source = some task) :
    Timeline (task :: tasks) := by
  obtain ⟨program, tokens, hi, hclean, rfl⟩ := Session.task?_eq_some htask
  exact h.intact.next hclean

end

end LoxLang
