import LoxLang.Proofs.Run.Integrity

/-!
# The order of moments

The tasks that a task performs follow each other in time: each starts from the machine that the one
before left behind, with a store that has grown.  So of any two moments of a run, one lies within the
other or one is over when the other starts.

Whatever a task in good order comes to is in good order, and the values that it has at hand exist:
`Task.Keeps` is preserved by its changes and by the tasks that it performs.

Principal results: `Task.Does.since`, `Task.Intact.performs`, `Task.Intact.ends`,
`Task.Intact.ordered`.
-/

namespace LoxLang

namespace Task

/-- A task is over when another one starts. -/
def Precedes (t t' : Task) : Prop := ∃ e, t.end? = some e ∧ e.store.Grows t'.machine.store

/-- What a task in good order comes to: a machine in good order, and values that exist. -/
structure Keeps (N : Node → Prop) (t : Task) (m : Machine) (K : Set Value) : Prop where
  since : t.machine.Since N m
  holds : ∀ v ∈ K, m.store.Holds v

section

variable {N : Node → Prop} {t c : Task} {m m₁ e : Machine} {K W : Set Value}

/-! ## What a task comes to -/

theorem Intact.text (h : t.Intact N) : ∀ node ∈ t.text, N node := by
  cases t with
  | repeatWhile => exact List.forall_mem_append.2 ⟨h.1, h.2.1⟩
  | call | invoke | applyClosure =>
    rintro node ⟨⟩
  | _ => exact h.1

theorem Intact.given (h : t.Intact N) : ∀ v ∈ t.given, t.machine.store.Holds v := by
  cases t with
  | executeIn =>
    rintro v ⟨name, hfind⟩
    exact h.2.2.1 name v hfind
  | call | invoke | applyClosure =>
    rintro v (rfl | hmem)
    · exact h.1
    · exact h.2.1 v hmem
  | _ =>
    rintro v ⟨⟩

/-- A frame for statements can be made: it is one for variables, inside one that exists. -/
def Framed : Task → Prop
  | .executeIn _ _ b parent m => FrameKind.ordinary.Fits b ∧ parent < m.store.frames.size
  | _ => True

theorem Intact.of (htext : ∀ node ∈ t.text, N node) (hmachine : t.machine.Intact N)
    (hgiven : ∀ v ∈ t.given, t.machine.store.Holds v) (hframed : t.Framed) : t.Intact N := by
  cases t with
  | executeIn =>
    exact ⟨htext, hframed.1, fun name v hfind => hgiven v ⟨name, hfind⟩, hframed.2, hmachine⟩
  | repeatWhile =>
    obtain ⟨hcond, hbody⟩ := List.forall_mem_append.1 htext
    exact ⟨hcond, hbody, hmachine⟩
  | call | invoke | applyClosure =>
    exact ⟨hgiven _ (.inl rfl), fun v hmem => hgiven v (.inr hmem), hmachine⟩
  | _ => exact ⟨htext, hmachine⟩

/-- The body of a function is executed in a frame that binds its parameters. -/
theorem Calls.framed (h : t.Calls c) (hN : ∀ node, N node → node.WellNamed)
    (hm : c.machine.Intact N) : c.Framed := by
  cases h with
  | block => exact ⟨FrameKind.ordinary_empty, hm.frame⟩
  | @routine n ref args closure m hc =>
    refine ⟨putAll_ordinary _ args (fun name hmem => ?_) FrameKind.ordinary_empty,
      hm.store.closures ref closure hc⟩
    obtain ⟨token, htoken, rfl⟩ := List.mem_map.1 hmem
    have hnode : N (.stmt (.function closure.decl)) :=
      hm.code ref closure hc _ (mem_walkFunction_self closure.decl)
    exact (hN _ hnode).2 token htoken
  | _ => trivial

/-- **Every change that a task makes keeps the machine in good order**, and new values exist. -/
theorem Does.since (h : t.Does K m m₁ W) (hN : ∀ node, N node → node.WellNamed)
    (ht : ∀ node ∈ t.text, N node) (hm : m.Intact N) (hK : ∀ v ∈ K, m.store.Holds v) :
    m.Since N m₁ ∧ ∀ v ∈ W, m₁.store.Holds v := by
  cases h with
  | computes hplain =>
    refine ⟨.refl hm, ?_⟩
    rintro v rfl
    exact .of_isPlain _ hplain
  | reads hget =>
    refine ⟨.refl hm, ?_⟩
    rintro v rfl
    exact hm.store.get_holds hget
  | readsField hfield =>
    refine ⟨.refl hm, ?_⟩
    rintro v rfl
    exact hm.field_holds hfield
  | @binds ref name closure receiver hc hreceiver =>
    have hinst : ∃ inst, receiver = .object inst ∧ m.store.Holds (.object inst) := by
      obtain ⟨⟨inst, rfl⟩, hmem⟩ | ⟨frame, hget⟩ := hreceiver
      · exact ⟨inst, rfl, hK _ hmem⟩
      · obtain ⟨inst, rfl⟩ := hm.get_this hget
        exact ⟨inst, rfl, hm.store.get_holds hget⟩
    obtain ⟨inst, rfl, hholds⟩ := hinst
    refine ⟨hm.bindMethod hc hholds, ?_⟩
    rintro v rfl
    exact Machine.Intact.holds_bound m closure _
  | @instantiates ref =>
    refine ⟨hm.addInstance ref, ?_⟩
    rintro v rfl
    show m.store.instances.size < (m.store.instances.push _).size
    simp
  | setsField hv => exact ⟨hm.setField _ _ (hK _ hv), by rintro v ⟨⟩⟩
  | assigns heq hhas hv =>
    subst heq
    have hname := hN _ (ht _ List.mem_cons_self)
    exact ⟨hm.assign hname hhas (hK _ hv), by rintro v ⟨⟩⟩
  | @declares n id name initial m₀ v heq hv =>
    subst heq
    have hname : PlainName name.lexeme :=
      hN (.stmt (.declare id name initial)) (ht _ (Stmt.mem_walk_self (by simp)))
    exact ⟨hm.define hname (hK _ hv), by rintro v ⟨⟩⟩
  | declaresFunction heq =>
    subst heq
    rw [Task.text, Stmt.walk] at ht
    have hname := (hN _ (ht _ (mem_walkFunction_self _))).1
    exact ⟨hm.declareFunction hname ht, by rintro v ⟨⟩⟩
  | @declaresClass n id name superclass methods m₀ base heq _ hbase =>
    subst heq
    have hname : PlainName name.lexeme :=
      hN (.stmt (.classDecl id name superclass methods)) (ht _ (Stmt.mem_walk_self (by simp)))
    have hmethods : ∀ node ∈ walkMethods methods, N node :=
      fun node hmem => ht node (Stmt.walkMethods_subset_walk hmem)
    exact ⟨(hm.declareClass hname (fun ref href => hK _ (hbase ref href)) hmethods).1,
      by rintro v ⟨⟩⟩
  | prints => exact ⟨hm.print _, by rintro v ⟨⟩⟩
  | ticks => exact ⟨.tick hm, by rintro v ⟨⟩⟩

/-! ## What a task performs -/

/-- What a task makes of the machine for others is in good order. -/
theorem Intact.opens (h : t.Intact N) (hm : t.machine.Since N m) :
    (t.opens m).Intact N ∧ m.store.Grows (t.opens m).store := by
  cases t with
  | executeIn =>
    obtain ⟨_, hordinary, hvalues, hparent, _⟩ := h
    exact hm.intact.enter hordinary (fun name v hfind => hm.grows.holds (hvalues name v hfind))
      (Nat.lt_of_lt_of_le hparent hm.grows.frames)
  | call => exact ⟨hm.intact.congr rfl rfl, .refl _⟩
  | _ => exact ⟨hm.intact, .refl _⟩

/-- What a task makes of the machine that is left behind by others is in good order. -/
theorem Intact.closes (h : t.Intact N) (hm : t.machine.Since N m) (he : (t.opens m).Since N e) :
    t.machine.Since N (t.closes e) := by
  cases t with
  | executeIn =>
    exact .leave h.machine (hm.grows.trans (h.opens hm).2) he
  | call => exact ⟨he.intact.congr rfl rfl, hm.grows.trans he.grows, he.frame.trans hm.frame⟩
  | _ => exact hm.trans he

theorem closes_store (t : Task) (e : Machine) : (t.closes e).store = e.store := by
  cases t <;> rfl

/-- What is performed on a machine in good order is in good order. -/
theorem Keeps.calls (h : t.Keeps N m K) (hN : ∀ node, N node → node.WellNamed) (ht : t.Intact N)
    (hcalls : t.Calls c) (hstart : c.machine = t.opens m) (hgiven : c.given ⊆ K) : c.Intact N := by
  obtain ⟨hopened, hgrows⟩ := ht.opens h.since
  rw [← hstart] at hopened hgrows
  exact .of (hcalls.text ht.text hopened.code) hopened
    (fun v hv => hgrows.holds (h.holds v (hgiven hv))) (hcalls.framed hN hopened)

theorem Keeps.does (h : t.Keeps N m K) (hN : ∀ node, N node → node.WellNamed) (ht : t.Intact N)
    (hdoes : t.Does K m m₁ W) : t.Keeps N m₁ (W ∪ K) ∧ m.store.Grows m₁.store := by
  obtain ⟨hsince, hholds⟩ := hdoes.since hN ht.text h.since.intact h.holds
  refine ⟨⟨h.since.trans hsince, ?_⟩, hsince.grows⟩
  rintro v (hv | hv)
  · exact hholds v hv
  · exact hsince.grows.holds (h.holds v hv)

theorem Keeps.closes (h : t.Keeps N m K) (ht : t.Intact N) (hstart : c.machine = t.opens m)
    (hsince : c.machine.Since N e) (hresults : ∀ v ∈ c.results, e.store.Holds v) :
    t.Keeps N (t.closes e) (c.results ∪ K) := by
  rw [hstart] at hsince
  refine ⟨ht.closes h.since hsince, ?_⟩
  rw [closes_store]
  rintro v (hv | hv)
  · exact hresults v hv
  · exact ((ht.opens h.since).2.trans hsince.grows).holds (h.holds v hv)

/-- **A task in good order comes to machines in good order only**, and its tasks follow each other. -/
theorem Intact.follows (h : t.Intact N) (hN : ∀ node, N node → node.WellNamed) :
    t.Follows (t.Keeps N) (fun m m₁ => m.store.Grows m₁.store) t.machine t.Calls t.end?
      t.results := by
  induction t using Task.induction with
  | h t ih =>
    have hrespects : t.Respects (t.Keeps N) fun m m₁ => m.store.Grows m₁.store :=
      { refl := fun _ => .refl _
        trans := .trans
        does := fun hk hdoes => hk.does hN h hdoes
        opens := by
          intro m K c hk hcalls hstart hgiven
          rw [hstart]
          exact (h.opens hk.since).2
        closes := by
          intro m K c e hk hcalls hstart hgiven hend
          have hc := hk.calls hN h hcalls hstart hgiven
          obtain ⟨_, K₁, hk₁, hresults⟩ := (ih c hcalls hc).leaves e hend
          refine ⟨hk.closes h hstart hk₁.since fun v hv => hk₁.holds v (hresults hv),
            hk₁.since.grows, ?_⟩
          rw [closes_store]
          exact .refl _ }
    exact hrespects.follows ⟨.refl h.machine, h.given⟩

/-- A task in good order leaves a machine in good order behind, and comes to values that exist. -/
theorem Intact.leaves (h : t.Intact N) (hN : ∀ node, N node → node.WellNamed)
    (he : t.end? = some e) : t.machine.Since N e ∧ ∀ v ∈ t.results, e.store.Holds v := by
  obtain ⟨_, K, hk, hresults⟩ := (h.follows hN).leaves e he
  exact ⟨hk.since, fun v hv => hk.holds v (hresults hv)⟩

/-- What is known of a task in good order and of the tasks that it performs. -/
structure Performs (N : Node → Prop) (t : Task) : Prop where
  leaves : ∀ e, t.end? = some e → t.machine.Since N e
  starts : ∀ c, t.Calls c → c.Intact N ∧ t.machine.store.Grows c.machine.store
  ends : ∀ c e, t.Calls c → t.end? = some e → ∃ e', c.end? = some e' ∧ e'.store.Grows e.store
  ordered : ∀ c c', t.Calls c → t.Calls c' → c = c' ∨ c.Precedes c' ∨ c'.Precedes c

theorem Intact.performs (h : t.Intact N) (hN : ∀ node, N node → node.WellNamed) :
    t.Performs N where
  leaves e he := (h.leaves hN he).1
  starts c hcalls := by
    obtain ⟨hgrows, m, K, hk, hstart, hgiven⟩ := (h.follows hN).starts c hcalls
    exact ⟨hk.calls hN h hcalls hstart hgiven, hgrows⟩
  ends := (h.follows hN).ends
  ordered := (h.follows hN).ordered

end

/-! ## Moments -/

section

variable {N : Node → Prop} {t t' u : Task}

/-- **Every moment within a task finds the store grown since the task started.** -/
theorem Intact.reaches (h : u.Intact N) (hN : ∀ node, N node → node.WellNamed)
    (hreaches : u.Reaches t) : t.Intact N ∧ u.machine.store.Grows t.machine.store := by
  induction hreaches with
  | refl => exact ⟨h, .refl _⟩
  | step _ hcalls ih =>
    obtain ⟨hintact, hgrows⟩ := ih
    obtain ⟨hintact', hgrows'⟩ := (hintact.performs hN).starts _ hcalls
    exact ⟨hintact', hgrows.trans hgrows'⟩

/-- **When a task is over, so is everything within it.** -/
theorem Intact.ends (h : u.Intact N) (hN : ∀ node, N node → node.WellNamed)
    (hreaches : u.Reaches t) {e : Machine} (he : u.end? = some e) :
    ∃ e', t.end? = some e' ∧ e'.store.Grows e.store := by
  induction hreaches with
  | refl => exact ⟨e, he, .refl _⟩
  | step hreaches' hcalls ih =>
    obtain ⟨e₁, he₁, hgrows⟩ := ih
    have hintact := (h.reaches hN hreaches').1
    obtain ⟨e₂, he₂, hgrows'⟩ := (hintact.performs hN).ends _ e₁ hcalls he₁
    exact ⟨e₂, he₂, hgrows'.trans hgrows⟩

/-- What a task reaches other than itself is reached through one that it performs. -/
theorem Reaches.cases_head (h : u.Reaches t) : t = u ∨ ∃ c, u.Calls c ∧ c.Reaches t := by
  induction h with
  | refl => exact .inl rfl
  | step _ hcalls ih =>
    obtain rfl | ⟨c, hc, hreaches⟩ := ih
    · exact .inr ⟨_, hcalls, .refl⟩
    · exact .inr ⟨c, hc, .step hreaches hcalls⟩

/-- Two moments of a run: one lies within the other, or is over when the other starts. -/
inductive Comparable (t t' : Task) : Prop where
  | within : t.Reaches t' → Comparable t t'
  | around : t'.Reaches t → Comparable t t'
  | before : t.Precedes t' → Comparable t t'
  | after : t'.Precedes t → Comparable t t'

/-- **The moments of a run are ordered in time.** -/
theorem Intact.ordered (h : u.Intact N) (hN : ∀ node, N node → node.WellNamed)
    (hreaches : u.Reaches t) (hreaches' : u.Reaches t') : t.Comparable t' := by
  induction hreaches with
  | refl => exact .within hreaches'
  | @step t₁ t₂ hreaches₁ hcalls ih =>
    have hintact := (h.reaches hN hreaches₁).1
    obtain ⟨hintact₂, hgrows₂⟩ := (hintact.performs hN).starts t₂ hcalls
    cases ih with
    | within hin =>
      obtain rfl | ⟨c, hc, hcreaches⟩ := hin.cases_head
      · exact .around (.step .refl hcalls)
      · have hcintact := ((hintact.performs hN).starts c hc).1
        obtain rfl | ⟨e, he, hgrows⟩ | ⟨e, he, hgrows⟩ := (hintact.performs hN).ordered t₂ c hcalls hc
        · exact .within hcreaches
        · exact .before ⟨e, he, hgrows.trans (hcintact.reaches hN hcreaches).2⟩
        · obtain ⟨e', he', hgrows'⟩ := hcintact.ends hN hcreaches he
          exact .after ⟨e', he', hgrows'.trans hgrows⟩
    | around hin => exact .around (.step hin hcalls)
    | before hbefore =>
      obtain ⟨e, he, hgrows⟩ := hbefore
      obtain ⟨e', he', hgrows'⟩ := (hintact.performs hN).ends t₂ e hcalls he
      exact .before ⟨e', he', hgrows'.trans hgrows⟩
    | after hafter =>
      obtain ⟨e, he, hgrows⟩ := hafter
      exact .after ⟨e, he, hgrows.trans hgrows₂⟩

end

end Task

end LoxLang
