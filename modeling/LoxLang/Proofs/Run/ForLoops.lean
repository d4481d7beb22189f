import LoxLang.Proofs.Run.BlankFrames
import LoxLang.Proofs.Run.ForScopes

/-!
# A loop and its tree come to the same end

The tree of a `for`, with the distances that were filed for it, and the meaning of the `for`, with
distances for its own scope, come to the same end: they complete or return or fail alike, what they
print is the same, and so are the variables, classes and instances that they leave behind.  A
function that was made in the one has other frames around it than in the other, but whatever is run
later does not notice.

* `Outcome.Same` — the same end, on machines that are related.
* `Machine.Alike` — what can be seen of a machine.
* `ForLoop.Readied` — a machine that has the distances of a loop.
* `ForLoop.EndsAs` — the tree and the loop come to the same end.
* `ForLoop.TurnsApart` — the frames and scopes that only the tree has.

Principal results: `ForLoop.exists_readied`, `ForLoop.Readied.endsAs`, `LoopRound.frame`,
`ForLoop.turnsApart`.
-/

namespace LoxLang

/-! ## What can be seen -/

/-- Outcomes with the same value, error or fault, on machines that are related. -/
inductive Outcome.Same {α : Type} (R : Machine → Machine → Prop) :
    Outcome α → Outcome α → Prop where
  | done {v : α} {m m' : Machine} : R m m' → Same R (.done v m) (.done v m')
  | raised {e : RuntimeError} {m m' : Machine} : R m m' → Same R (.raised e m) (.raised e m')
  | fault {reason : Fault} {m m' : Machine} : R m m' → Same R (.fault reason m) (.fault reason m')
  | exhausted : Same R .exhausted .exhausted

theorem Outcome.Same.exhausted_iff {α : Type} {R : Machine → Machine → Prop} {o o' : Outcome α}
    (h : Outcome.Same R o o') : o = .exhausted ↔ o' = .exhausted := by
  cases h with
  | exhausted => exact iff_of_true rfl rfl
  | _ => exact iff_of_false (fun heq => by cases heq) fun heq => by cases heq

/-- Machines of which the same can be seen: what was printed, the variables of the frames below
`shared`, the classes, the instances with their fields, and how every value is written. -/
structure Machine.Alike (shared : Nat) (m m' : Machine) : Prop where
  frame : m'.frame = m.frame
  depth : m'.depth = m.depth
  output : m'.output = m.output
  bindings : ∀ f < shared, m'.store.bindings f = m.store.bindings f
  classes : m'.store.classes = m.store.classes
  instances : m'.store.instances = m.store.instances
  text : ∀ v, m'.store.text v = m.store.text v

/-- Machines of which the same can be seen, now and after anything that is run on them and has none
of these numbers. -/
structure Machine.Interchangeable (shared : Nat) (ids : List Nat) (m m' : Machine) : Prop where
  alike : m.Alike shared m'
  later : ∀ n body, (∀ id ∈ bodyIds body, id ∉ ids) →
    Outcome.Same (Machine.Alike shared) (executeAll n body m) (executeAll n body m')

section

variable {T T' : Distances} {W : PadWorld} {f f' : Nat} {P : FramePairs} {m m' : Machine}

theorem PadOutcome.same {α : Type} {Post : PadWorld → α → Prop} {R : Machine → Machine → Prop}
    {o o' : Outcome α} (h : PadOutcome T T' W f f' Post o o')
    (hR : ∀ {P : FramePairs} {m m' : Machine}, PadMachines.Since T T' W f f' P m m' → R m m') :
    Outcome.Same R o o' := by
  cases h with
  | done h₁ _ => exact .done (hR h₁)
  | raised h₁ => exact .raised (hR h₁)
  | fault h₁ => exact .fault (hR h₁)
  | exhausted => exact .exhausted

theorem PadMachines.Since.alike (h : PadMachines.Since T T' W f f P m m') :
    m.Alike W.pairs.shared m' where
  frame := h.frame'.trans h.frame.symm
  depth := h.machines.depth
  output := h.machines.output
  bindings g hg := by
    have hlt : g < P.shared := Nat.lt_of_lt_of_eq hg (Eq.symm h.grows.shared)
    exact h.machines.heap.bindings g g (h.machines.heap.shared g hlt)
  classes := h.machines.heap.classes
  instances := h.machines.heap.instances
  text := h.machines.heap.text_eq

theorem PadMachines.Since.interchangeable {ids : List Nat} (h : PadMachines.Since T T' W f f P m m')
    (hf : PadChain W [] f f) (hids : ∀ id, id ∉ ids → T'[id]? = T[id]?) :
    m.Interchangeable W.pairs.shared ids m' where
  alike := h.alike
  later n body hbody := by
    have hat := h.at hf
    have hsame := (padRun T T' n).executeAll hat
      (PadBody.refl (fun _ => .beyond) fun id hid => hids id (hbody id hid))
    exact (PadOutcome.since h hsame).same fun h₁ => h₁.alike

/-! ## The machine at the start -/

/-- A function that is the same in both stores. -/
theorem PadClosure.self {s : Store} {c : Closure} (hc : c.frame < s.frames.size) {inner : List Pad}
    (hinner : ∀ d, Coincide (inner ++ []) d d) (hids : ∀ id ∈ functionIds c.decl, T'[id]? = T[id]?) :
    PadClosure T T' ⟨⟨s.frames.size, fun f f' => f = f' ∧ f < s.frames.size⟩, s, s⟩ inner c c :=
  ⟨⟨[], .shared hc, .refl hinner hids⟩, ⟨rfl, hc⟩, rfl⟩

/-- A store beside itself. -/
theorem PadHeap.start {s : Store} (h : s.Intact)
    (hids : ∀ (i : Nat) c, s.closures[i]? = some c → ∀ id ∈ functionIds c.decl, T'[id]? = T[id]?) :
    PadHeap T T' ⟨⟨s.frames.size, fun f f' => f = f' ∧ f < s.frames.size⟩, s, s⟩ := by
  have hhas : ∀ inner : List Pad, (∀ d, Coincide (inner ++ []) d d) → ∀ ref, ref < s.closures.size →
      PadWorld.Has T T' ⟨⟨s.frames.size, fun f f' => f = f' ∧ f < s.frames.size⟩, s, s⟩ inner
        ref := by
    intro inner hinner ref hlt
    have hc := Array.getElem?_eq_getElem hlt
    exact ⟨_, _, hc, hc, .self (h.closures ref _ hc) hinner (hids ref _ hc)⟩
  have hvalue : ∀ v, s.Holds v → PadValue T T'
      ⟨⟨s.frames.size, fun f f' => f = f' ∧ f < s.frames.size⟩, s, s⟩ v := by
    intro v hv
    cases v with
    | function ref => exact hhas [] (fun _ => .beyond) ref hv
    | _ => trivial
  refine { root := h.root, shared := fun f hf => ⟨rfl, hf⟩, parents := fun _ _ => rfl
           older := fun f p hf hp => Nat.lt_trans (h.older f p hp) hf
           bound := ?_, unique := ?_, bindings := ?_, values := ?_
           fields := fun i inst name v hi hv => hvalue v (h.fields i inst name v hi hv)
           methods := fun i info name ref hi href => hhas [.both] (Coincide.self_both fun _ => .beyond)
             ref (h.methods i info name ref hi href)
           closures := rfl, names := fun _ => rfl, classes := rfl, instances := rfl
           natives := rfl }
  · rintro f f' ⟨rfl, hf⟩
    exact ⟨hf, hf⟩
  · rintro f f' g g' ⟨rfl, _⟩ ⟨rfl, _⟩
    exact Iff.rfl
  · rintro f f' ⟨rfl, _⟩
    rfl
  · intro f f' name v _ hv
    exact hvalue v (h.values f name v hv)

/-- A machine beside the same machine with another table. -/
theorem PadMachines.start (h : m.store.Intact) (hframe : m.frame < m.store.frames.size)
    (htable : m.table = T) (hids : ∀ (i : Nat) c, m.store.closures[i]? = some c →
      ∀ id ∈ functionIds c.decl, T'[id]? = T[id]?) :
    PadMachines.At T T'
      ⟨m.store.frames.size, fun f f' => f = f' ∧ f < m.store.frames.size⟩ [] m
      { m with table := T' } :=
  ⟨⟨PadHeap.start h hids, rfl, rfl, htable, rfl, rfl, rfl⟩, .shared hframe⟩

end

/-! ## Loops -/

/-- The machine `m'` is `m` with the distances of a loop in one scope, whose nodes have numbers of
their own. -/
structure ForLoop.Readied (l : ForLoop) (r : Resolution) (m m' : Machine) : Prop where
  machine : m' = { m with table := m'.table }
  unused : m.store.CodeIs fun node => ∀ id, node.id? = some id → id ∉ l.ids
  filed : ∀ site ∈ l.sites r, site.ReferredIn m'.table
  kept : ∀ id, id ∉ l.ids → m'.table[id]? = m.table[id]?

theorem exists_bound : ∀ ids : List Nat, ∃ hi, ∀ id ∈ ids, id < hi
  | [] => ⟨0, fun _ h => by cases h⟩
  | id :: ids => by
    obtain ⟨hi, h⟩ := exists_bound ids
    refine ⟨id + 1 + hi, List.forall_mem_cons.2 ⟨by omega, fun other hmem => ?_⟩⟩
    have hlt := h other hmem
    omega

/-- **Every machine can be readied for every loop.** -/
theorem ForLoop.exists_readied (l : ForLoop) (r : Resolution) (m : Machine) :
    ∃ l' m', l.Copies l' ∧ l'.Readied r m m' := by
  obtain ⟨lo, hlo⟩ := exists_bound (m.store.closures.toList.flatMap fun c => functionIds c.decl)
  obtain ⟨l', hi, T', hcopies, h⟩ := l.renumbered r lo m.table
  refine ⟨l', { m with table := T' }, hcopies, rfl, fun i c hc node hnode id hid hmem => ?_,
    fun site hsite huse => (h.filed [] site hsite huse).2, h.kept⟩
  have hlt : id < lo := hlo id (List.mem_flatMap.2 ⟨c, ?_, List.mem_filterMap.2 ⟨node, hnode, hid⟩⟩)
  · have hrange := h.range id hmem
    omega
  · exact Array.mem_toList_iff.2 (Array.mem_of_getElem? hc)

/-- A loop whose tree was resolved from the state `r` on, and is about to be run. -/
structure ForLoop.Resolved (l : ForLoop) (tree : Stmt) (r : Resolution) (m : Machine) : Prop where
  intact : m.store.Intact
  frame : m.frame < m.store.frames.size
  body : l.body.declared = []
  known : ∃ cs, ∀ site ∈ stmtSites cs r tree, site.Known m.table
  outside : ¬ SuperHere r.scopes
  names : ∀ s, l.start = some s → "super" ∉ s.declared

/-- The tree, executed on `m`, and the meaning of the loop, run on `m'`, come to the same end or run
for ever both. -/
structure ForLoop.EndsAs (l : ForLoop) (tree : Stmt) (m m' : Machine) : Prop where
  tree_ends : ∀ n, execute n tree m ≠ .exhausted →
    Outcome.Same (Machine.Interchangeable m.store.frames.size l.ids) (execute n tree m) (l.run n m')
  run_ends : ∀ n, l.run n m' ≠ .exhausted →
    Outcome.Same (Machine.Interchangeable m.store.frames.size l.ids) (execute (n + 10) tree m)
      (l.run n m')
  diverges : (∀ n, execute n tree m = .exhausted) ↔ ∀ n, l.run n m' = .exhausted

namespace ForLoop.Readied

variable {l l' : ForLoop} {r : Resolution} {m m' : Machine} {step inner always loop outer : Nat}

/-- **A loop in the frames of its tree comes to the same end as in its own.** -/
theorem runApart (h : l'.Readied r m m') (hcopies : l.Copies l')
    (hl : l.Resolved (l.tree step inner always loop outer) r m) (n : Nat) :
    Outcome.Same (Machine.Interchangeable m.store.frames.size l'.ids) (l.runApart n m)
      (l'.run n m') := by
  obtain ⟨cs, hknown⟩ := hl.known
  have haligned := hcopies.aligned hl.body hl.outside hl.names hknown h.filed
  have hids : ∀ (i : Nat) c, m.store.closures[i]? = some c → ∀ id ∈ functionIds c.decl,
      m'.table[id]? = m.table[id]? := by
    intro i c hc id hid
    obtain ⟨node, hnode, hnodeId⟩ := List.mem_filterMap.1 hid
    exact h.kept id (h.unused i c hc node hnode id hnodeId)
  have hat := PadMachines.start hl.intact hl.frame rfl hids
  rw [h.machine]
  exact (haligned.runApart n hat).same fun h₁ => h₁.interchangeable hat.chain h.kept

/-- **The tree of a loop ends as the loop does.** -/
theorem endsAs (h : l'.Readied r m m') (hcopies : l.Copies l')
    (hl : l.Resolved (l.tree step inner always loop outer) r m) :
    l'.EndsAs (l.tree step inner always loop outer) m m' := by
  have htree : ∀ n, execute n (l.tree step inner always loop outer) m ≠ .exhausted →
      Outcome.Same (Machine.Interchangeable m.store.frames.size l'.ids)
        (execute n (l.tree step inner always loop outer) m) (l'.run n m') := by
    intro n hends
    have hsame := h.runApart hcopies hl n
    rwa [l.tree_stays step inner always loop outer n m hends] at hsame
  have hrun : ∀ n, l'.run n m' ≠ .exhausted →
      Outcome.Same (Machine.Interchangeable m.store.frames.size l'.ids)
        (execute (n + 10) (l.tree step inner always loop outer) m) (l'.run n m') := by
    intro n hends
    have hsame := h.runApart hcopies hl n
    have hapart : l.runApart n m ≠ .exhausted := fun heq => hends (hsame.exhausted_iff.1 heq)
    rwa [← l.stays_tree step inner always loop outer n m hapart] at hsame
  refine ⟨htree, hrun, fun hnever n => ?_, fun hnever n => ?_⟩
  · refine Classical.byContradiction fun hends => hends ?_
    exact (hrun n hends).exhausted_iff.1 (hnever _)
  · refine Classical.byContradiction fun hends => hends ?_
    exact (htree n hends).exhausted_iff.2 (hnever n)

end ForLoop.Readied

/-! ## Rounds of the tree -/

/-- The rounds of a loop: the allowance and the machine that each starts with. -/
inductive LoopRound (cond : Expr) (s : Stmt) (n : Nat) (m : Machine) : Nat → Machine → Prop where
  | first : LoopRound cond s n m n m
  | next {k k' : Nat} {m₁ m₂ : Machine} : LoopRound cond s n m k m₁ →
      Task.Calls (.repeatWhile k cond s m₁) (.repeatWhile k' cond s m₂) →
      LoopRound cond s n m k' m₂

/-- **All rounds of a loop start in the same frame.** -/
theorem LoopRound.frame {cond : Expr} {s : Stmt} {n k : Nat} {m m₁ : Machine}
    (h : LoopRound cond s n m k m₁) : m₁.frame = m.frame := by
  induction h with
  | first => rfl
  | @next _ k m₁ m₂ _ hcalls ih =>
    cases hcalls with
    | @again _ _ _ _ _ m₃ _ hcond _ hbody =>
      have hback : m₃.frame = m₁.frame :=
        (Task.back (t := .evaluate k cond m₁) (by rw [Task.end?, hcond]; rfl)).frame
      have hback' : m₂.frame = m₃.frame :=
        (Task.back (t := .execute k s m₃) (by rw [Task.end?, hbody]; rfl)).frame
      exact hback'.trans (hback.trans ih)

/-- What the frames and scopes that the tree has of its own are like. -/
structure ForLoop.TurnsApart (l : ForLoop) (tree : Stmt) (step inner always : Nat) : Prop where
  /-- During a turn, its frame binds nothing. -/
  blank : ∀ value, l.increment = some value → ∀ n m,
    (Task.execute n (.block inner [l.body, .expression step value]) m).KeepsBlank
      m.store.frames.size
  /-- It binds nothing later either: what is run in another frame does not bind anything there. -/
  blank_later : ∀ f t, Store.Blank (Task.machine t).store f → t.machine.frame ≠ f → t.KeepsBlank f
  /-- The increment sees what the condition sees. -/
  increment : ∀ value, l.increment = some value → ∀ cs r, ∃ cs' before,
    stmtSites cs r tree = before ++ exprSites cs' none (l.treeIncrement r) value ∧
      (l.treeIncrement r).scopes = .empty :: (l.treeCond r).scopes
  /-- All rounds share the frame of the loop. -/
  rounds : ∀ n m k m₁, LoopRound (l.cond.getD (.literal always (.bool true)))
    (l.treeBody step inner) n m k m₁ → m₁.frame = m.frame

theorem ForLoop.turnsApart (l : ForLoop) (hbody : l.body.declared = [])
    (step inner always loop outer : Nat) :
    l.TurnsApart (l.tree step inner always loop outer) step inner always where
  blank value _ n m := by
    apply Task.block_keepsBlank
    rw [List.forall_mem_cons, List.forall_mem_singleton]
    exact ⟨hbody, rfl⟩
  blank_later f t hblank hframe := Task.Spares.keepsBlank ⟨hblank, fun heq => absurd heq hframe⟩
  increment value hvalue cs r := by
    obtain ⟨_, cs', hsites⟩ := l.tree_sites r cs step inner always loop outer
    rw [hvalue] at hsites
    exact ⟨cs', _, hsites, l.treeIncrement_scopes r hbody (by rw [hvalue]; rfl)⟩
  rounds _ _ _ _ hround := hround.frame

end LoxLang
