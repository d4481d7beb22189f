import LoxLang.Proofs.Scope.Layers
import LoxLang.Proofs.Session.Timeline

/-!
# Places in the programs of a session

The programs that were run on a session share one numbering, so that a number stands for one node.
Where `this` or `super` is evaluated, every construct around it has its frame, which is of the kind
that the construct makes.

* `Numbering` — the programs of a session are clean, and numbered one after the other.
* `Construct.Fits` — the bindings of a frame that was made for a construct.
* `Stood` — the frames around a place.

Principal results: `History.numbering`, `MadeIn.fits`, `History.stood`.
-/

namespace LoxLang

/-! ## Numbers -/

/-- Among nodes with distinct numbers, a number stands for one node. -/
theorem node_eq_of_id? {id : Nat} {a b : Node} : ∀ {nodes : List Node}, (nodeIds nodes).Nodup →
    a ∈ nodes → b ∈ nodes → a.id? = some id → b.id? = some id → a = b
  | [], _, ha, _, _, _ => by cases ha
  | node :: nodes, hdistinct, ha, hb, hida, hidb => by
    have hrest : (nodeIds nodes).Nodup :=
      hdistinct.sublist ((List.sublist_cons_self node nodes).filterMap _)
    have hfirst : ∀ other ∈ nodes, node.id? = some id → other.id? ≠ some id := by
      intro other hmem hid hother
      rw [nodeIds, List.filterMap_cons, hid] at hdistinct
      exact (List.nodup_cons.1 hdistinct).1 (List.mem_filterMap.2 ⟨other, hmem, hother⟩)
    obtain rfl | hina := List.mem_cons.1 ha
    · obtain rfl | hinb := List.mem_cons.1 hb
      · rfl
      · exact absurd hidb (hfirst b hinb hida)
    · obtain rfl | hinb := List.mem_cons.1 hb
      · exact absurd hida (hfirst a hina hidb)
      · exact node_eq_of_id? hrest hina hinb hida hidb

/-- Programs without a problem, whose nodes have numbers of their own below `hi`. -/
structure Numbering (tasks : List Task) (hi : Nat) : Prop where
  clean : ∀ n stmts m, Task.program n stmts m ∈ tasks → ∃ tokens : List Token,
    (∀ t ∈ tokens, t.Genuine) ∧ ProperBody (· ∈ tokens) stmts ∧
      (Resolution.ofProgram stmts).found = []
  below : ∀ node id, Text tasks node → node.id? = some id → id < hi
  unique : ∀ node node' id, Text tasks node → Text tasks node' → node.id? = some id →
    node'.id? = some id → node = node'

section

variable {s s₁ : Session} {tasks : List Task} {n : Nat} {source : String}

namespace Numbering

theorem nil (hi : Nat) : Numbering [] hi where
  clean _ _ _ h := by cases h
  below _ _ h := by
    obtain ⟨_, _, _, _, hmem, _⟩ := h
    cases hmem
  unique _ _ _ h := by
    obtain ⟨_, _, _, _, hmem, _⟩ := h
    cases hmem

theorem mono {hi hi' : Nat} (h : Numbering tasks hi) (hle : hi ≤ hi') : Numbering tasks hi' :=
  ⟨h.clean, fun node id hnode hid => Nat.lt_of_lt_of_le (h.below node id hnode hid) hle, h.unique⟩

/-- Another program is numbered behind those before. -/
theorem next {lo hi : Nat} {program : Prepared} {tokens : List Token} {m : Machine}
    (h : Numbering tasks lo) (hclean : program.Clean tokens lo hi) (hle : lo ≤ hi) :
    Numbering (program.task n m :: tasks) hi := by
  -- A node of the new program, or of one of those before it.
  have hcases : ∀ node, Text (program.task n m :: tasks) node →
      node ∈ walkBody program.stmts ∨ Text tasks node := by
    rintro node ⟨hplain, k, stmts, m', hmem, hwalk⟩
    obtain heq | hold := List.mem_cons.1 hmem
    · cases heq
      exact .inl hwalk
    · exact .inr ⟨hplain, k, stmts, m', hold, hwalk⟩
  have hnew : ∀ node id, node ∈ walkBody program.stmts → node.id? = some id → lo ≤ id ∧ id < hi :=
    fun node id hmem hid => hclean.numbered.2 id (List.mem_filterMap.2 ⟨node, hmem, hid⟩)
  refine ⟨fun k stmts m' hmem => ?_, fun node id hnode hid => ?_,
    fun node node' id hnode hnode' hid hid' => ?_⟩
  · obtain heq | hold := List.mem_cons.1 hmem
    · cases heq
      exact ⟨tokens, hclean.genuine, hclean.proper, hclean.found⟩
    · exact h.clean k stmts m' hold
  · obtain hmem | hold := hcases node hnode
    · exact (hnew node id hmem hid).2
    · exact Nat.lt_of_lt_of_le (h.below node id hold hid) hle
  · obtain hmem | hold := hcases node hnode
    · obtain hmem' | hold' := hcases node' hnode'
      · exact node_eq_of_id? hclean.numbered.1 hmem hmem' hid hid'
      · have hlo := (hnew node id hmem hid).1
        have hhi := h.below node' id hold' hid'
        omega
    · obtain hmem' | hold' := hcases node' hnode'
      · have hlo := (hnew node' id hmem' hid').1
        have hhi := h.below node id hold hid
        omega
      · exact h.unique node node' id hold hold' hid hid'

/-- A run numbers its program behind those before. -/
theorem run {t : Transcript} (h : Numbering tasks s.nextId) (hrun : s.run n source = .ended s₁ t) :
    Numbering ((s.task? n source).toList ++ tasks) s₁.nextId := by
  have hkeeps := s.prepare_keeps source
  unfold Session.task?
  cases hprepare : s.prepare source with
  | mk program? rest =>
    obtain ⟨s₂, t₂⟩ := rest
    rw [hprepare] at hkeeps
    cases program? with
    | none =>
      unfold Session.run at hrun
      rw [hprepare] at hrun
      cases hrun
      exact h.mono hkeeps.2
    | some program =>
      obtain ⟨hclean, _, hle⟩ := Session.prepare_eq_some hprepare
      have hnumbering : Numbering (program.task n s₂.machine :: tasks) s₂.nextId :=
        h.next hclean hle
      rw [Session.run_of_prepare hprepare] at hrun
      generalize executeProgram n program.stmts (s₂.machine.learn program.table) = o at hrun
      cases o with
      | done v e | raised error e =>
        cases hrun
        exact hnumbering
      | fault reason e => cases hrun
      | exhausted => cases hrun

end Numbering

/-- **The programs of a session are numbered one after the other.** -/
theorem History.numbering (h : History s tasks) : Numbering tasks s.nextId := by
  induction h with
  | start settings clock => exact .nil _
  | run _ hrun ih => exact ih.run hrun
  | reset _ ih => exact ih
  | clock _ _ ih => exact ih

/-- The program that is under way is numbered behind those before it. -/
theorem History.numbering_task (h : History s tasks) {task : Task}
    (htask : s.task? n source = some task) : ∃ hi, Numbering (task :: tasks) hi := by
  unfold Session.task? at htask
  cases hprepare : s.prepare source with
  | mk program? rest =>
    obtain ⟨s₂, t₂⟩ := rest
    rw [hprepare] at htask
    cases program? with
    | none => cases htask
    | some program =>
      cases htask
      obtain ⟨hclean, _, hle⟩ := Session.prepare_eq_some hprepare
      exact ⟨s₂.nextId, h.numbering.next hclean hle⟩

/-- Where a reference stands in the program that it belongs to. -/
theorem RefersIn.stands {hi : Nat} (h : Numbering tasks hi) {site : Site}
    (hrefers : RefersIn tasks site) :
    ∃ n stmts m, Task.program n stmts m ∈ tasks ∧ site.Stands [] (walkBody stmts) := by
  obtain ⟨huse, k, stmts, m, hmem, hsite⟩ := hrefers
  obtain ⟨tokens, hgenuine, hproper, hfound⟩ := h.clean k stmts m hmem
  exact ⟨k, stmts, m, hmem, programSites_stands hgenuine hproper hfound site hsite huse⟩

end

/-! ## Frames -/

/-- The bindings of a frame that was made for a construct. -/
def Construct.Fits : Construct → Bindings Value → Prop
  | .block _ | .routine _ => fun b => FrameKind.ordinary.Fits b
  | .receiver _ _ => fun b => ∃ inst, (FrameKind.receiver inst).Fits b
  | .base _ => fun b => ∃ ref, (FrameKind.base ref).Fits b

section

variable {tasks : List Task} {t t' : Task} {f : Nat} {c : Construct}

theorem Moment.step (h : Moment tasks t) (hcalls : t.Calls t') : Moment tasks t' := by
  obtain ⟨task, hmem, hreaches⟩ := h
  exact ⟨task, hmem, hreaches.step hcalls⟩

/-- A frame that is entered is a frame of variables for ever. -/
theorem Timeline.entered (h : Timeline tasks) {n parent : Nat} {body : List Stmt}
    {b : Bindings Value} {m : Machine} (ht : Moment tasks (.executeIn (n + 1) body b parent m))
    (ht' : Moment tasks t') (hf : m.store.frames.size < t'.machine.store.frames.size) :
    FrameKind.ordinary.Fits (t'.machine.store.bindings m.store.frames.size) := by
  have hintact := h.intact_of_moment ht
  have hmade : m.store.frames.size < (m.enter b parent).store.frames.size := by
    show _ < (m.store.push b parent).2.frames.size
    rw [Store.frames_push_size]
    omega
  obtain ⟨_, _, hkinds⟩ := (Task.enter_makes text_plain hintact).frame text_plain hintact
    (h.intact_of_moment ht') (h.comparable ht ht') hmade hf
  apply hkinds
  show FrameKind.ordinary.Fits ((m.store.push b parent).2.bindings m.store.frames.size)
  rw [Store.bindings_push, if_pos rfl]
  exact hintact.2.1

/-- **A frame is of the kind that its construct makes**, at all moments. -/
theorem MadeIn.fits (h : Timeline tasks) (hmade : MadeIn tasks f c) (ht' : Moment tasks t')
    (hf : f < t'.machine.store.frames.size) : c.Fits (t'.machine.store.bindings f) := by
  obtain ⟨task, hmem, t, hreaches, hactivates⟩ := hmade
  have ht : Moment tasks t := ⟨task, hmem, hreaches⟩
  have hintact := h.intact_of_moment ht
  have hintact' := h.intact_of_moment ht'
  have hcomparable := h.comparable ht ht'
  cases c with
  | block id =>
    cases hactivates
    exact h.entered (ht.step .block) ht' hf
  | routine id =>
    cases hactivates with
    | routine hc => exact h.entered (ht.step (.routine hc)) ht' hf
  | receiver id methods =>
    obtain ⟨c, inst, a, hbinds, rfl, _⟩ := hactivates.receiver hintact
    exact ⟨inst, (hbinds.for_ever text_plain hintact hintact' hcomparable hf).1⟩
  | base id =>
    obtain ⟨name, ref, methods, a, hextends, rfl⟩ := hactivates.base
    exact ⟨ref, (hextends.for_ever text_plain hintact hintact' hcomparable hf).1⟩

end

/-! ## Places -/

/-- The frames around a place where a reference is evaluated. -/
structure Stood (tasks : List Task) (m : Machine) (site : Site) : Prop where
  known : RefersIn tasks site
  table : m.table[site.id]? = site.distance?
  /-- Every construct around the place has its frame. -/
  frames : ∀ (d : Nat) c, site.around.constructs[d]? = some c →
    ∃ f, m.store.climb d m.frame = some f ∧ MadeIn tasks f c

section

variable {s : Session} {tasks : List Task} {n : Nat} {source : String} {task : Task}

theorem Stood.of {table : Distances} {L : Labels} {m : Machine} {site : Site} {name' : Token}
    (hat : Twins.At (selfPairing table tasks) L m m site.around)
    (hr : (selfPairing table tasks).Refers site name') : Stood tasks m site where
  known := hr.known
  table := by
    rw [hat.twins.table]
    exact hr.table
  frames := by
    intro d c hd
    have hlt : d < site.around.scopes.length := by
      rw [← hat.chain.length_eq]
      exact (List.getElem?_eq_some_iff.1 hd).1
    obtain ⟨f, c', hf, hc', hlabel, _⟩ := hat.chain.climb_scope (List.getElem?_eq_getElem hlt)
    obtain rfl : c = c' := Option.some.inj (hd.symm.trans hc')
    exact ⟨f, hf, hat.twins.heap.made f c hlabel⟩

/-- **Where `this` is evaluated, every construct around it has its frame.** -/
theorem History.stood_this (h : History s tasks) (htask : s.task? n source = some task)
    {k id : Nat} {keyword : Token} {m : Machine}
    (hreaches : task.Reaches (.evaluate k (.this id keyword) m)) :
    ∃ p, Stood (task :: tasks) m ⟨.this, id, keyword, p⟩ := by
  obtain ⟨program, tokens, hi, hclean, rfl⟩ := Session.task?_eq_some htask
  obtain ⟨hsound, _⟩ := (h.kept.sound (n := n) hclean).reaches (selfPairing_grants ..) hreaches
  cases hsound with
  | evaluate hat he =>
    cases he with
    | this hr _ => exact ⟨_, .of hat hr⟩

/-- **Where `super` is evaluated, every construct around it has its frame.** -/
theorem History.stood_super (h : History s tasks) (htask : s.task? n source = some task)
    {k id : Nat} {keyword method : Token} {m : Machine}
    (hreaches : task.Reaches (.evaluate k (.super id keyword method) m)) :
    ∃ p, Stood (task :: tasks) m ⟨.super, id, keyword, p⟩ := by
  obtain ⟨program, tokens, hi, hclean, rfl⟩ := Session.task?_eq_some htask
  obtain ⟨hsound, _⟩ := (h.kept.sound (n := n) hclean).reaches (selfPairing_grants ..) hreaches
  cases hsound with
  | evaluate hat he =>
    cases he with
    | super hr _ _ _ => exact ⟨_, .of hat hr⟩

end

end LoxLang
