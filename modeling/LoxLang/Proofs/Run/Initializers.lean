import LoxLang.Proofs.Run.Returns
import LoxLang.Proofs.Store.Initializers

/-!
# What calls of classes and initializers give

The call of a class gives an instance of the class, the one that it has made.  A method that was
bound to an instance gives this instance, if it is an initializer and its body completes: the frame
of the receiver holds the instance for ever, and methods are marked as initializers for ever.

Principal results: `Task.call_class`, `Task.Binds.gives_receiver`.
-/

namespace LoxLang

section

variable {m m₁ : Machine} {n ref : Nat} {args : List Value} {paren : Token} {v : Value}

/-- A call that gives a value has passed its checks. -/
theorem call_eq_done {callee : Value} (h : call n callee args paren m = .done v m₁) :
    ∃ k m₂, n = k + 1 ∧
      Task.Calls (.call n callee args paren m) (.invoke k callee args m.beginCall) ∧
      invoke k callee args m.beginCall = .done v m₂ ∧ m₂.endCall = m₁ := by
  cases n with
  | zero => cases h
  | succ k =>
    rw [call] at h
    split at h
    · cases h
    · rename_i arity harity
      split at h
      · cases h
      · rename_i hlength
        obtain rfl := Decidable.not_not.1 hlength
        split at h
        · cases h
        · rename_i hdepth
          obtain ⟨m₂, hinvoke, hend⟩ := Outcome.ending_eq_done.1 h
          exact ⟨k, m₂, rfl, .invoke harity (Int.not_le.1 hdepth), hinvoke, hend⟩

/-- A function that is called runs. -/
theorem call_function_eq_done (h : call n (.function ref) args paren m = .done v m₁) :
    ∃ t k m₂, Task.Calls (.call n (.function ref) args paren m) t ∧
      t.Calls (.applyClosure k ref args m.beginCall) ∧
      applyClosure k ref args m.beginCall = .done v m₂ := by
  obtain ⟨k, m₂, rfl, hcalls, hinvoke, _⟩ := call_eq_done h
  cases k with
  | zero => cases hinvoke
  | succ k =>
    rw [invoke] at hinvoke
    exact ⟨_, k, m₂, hcalls, .apply, hinvoke⟩

/-- A function that gives a value has completed its body. -/
theorem applyClosure_eq_done (h : applyClosure n ref args m = .done v m₁) :
    ∃ k c completion m₂, n = k + 1 ∧ m.store.closures[ref]? = some c ∧
      executeIn k c.decl.body (.ofList ((c.decl.params.map (·.lexeme)).zip args)) c.frame m =
        .done completion m₂ := by
  cases n with
  | zero => cases h
  | succ k =>
    rw [applyClosure] at h
    split at h
    · cases h
    · rename_i c hc
      obtain ⟨completion, m₂, hbody, _⟩ := Outcome.bind_eq_done.1 h
      exact ⟨k, c, completion, m₂, rfl, hc, hbody⟩

namespace Task

variable {N : Node → Prop}

/-- **The call of a class gives the instance that it makes.** -/
theorem call_class (h : Intact N (.call n (.classValue ref) args paren m))
    (hN : ∀ node, N node → node.WellNamed)
    (hdone : LoxLang.call n (.classValue ref) args paren m = .done v m₁) :
    v = .object m.store.instances.size ∧ m.store.classOf? m.store.instances.size = none ∧
      m₁.store.classOf? m.store.instances.size = some ref := by
  obtain ⟨k, m₂, rfl, hcalls, hinvoke, rfl⟩ := call_eq_done hdone
  have hintact := ((h.performs hN).starts _ hcalls).1
  have hfresh : m.store.classOf? m.store.instances.size = none := by simp [Store.classOf?]
  have hmade : (m.store.addInstance ref).2.classOf? m.store.instances.size = some ref := by
    simp [Store.classOf?, Store.addInstance]
  cases k with
  | zero => cases hinvoke
  | succ k =>
    rw [LoxLang.invoke] at hinvoke
    simp only [Store.method?_addInstance] at hinvoke
    split at hinvoke
    · cases hinvoke
      exact ⟨rfl, hfresh, hmade⟩
    · rename_i init hinit
      obtain ⟨w, m₃, hinit_done, hlast⟩ := Outcome.bind_eq_done.1 hinvoke
      cases hlast
      refine ⟨rfl, hfresh, ?_⟩
      -- the initializer changes the store with the new instance
      have hbound := ((hintact.performs hN).starts _ (.construct hinit)).1
      exact ((hbound.changes hN) m₂ (congrArg Outcome.machine? hinit_done)).classOf hmade

/-- **An initializer gives the instance that it was bound to**, whatever its body does. -/
theorem Binds.gives_receiver {t : Task} {c : Closure} {inst : Nat} {a : Machine}
    (h : t.Binds c inst a) (hN : ∀ node, N node → node.WellNamed) (ht : t.Intact N)
    (hcall : Intact N (.applyClosure (n + 1) (a.bindMethod c (.object inst)).1 args m))
    (hc : t.Comparable (.applyClosure (n + 1) (a.bindMethod c (.object inst)).1 args m))
    (hmarks : m.store.Marks) (hname : c.decl.name.lexeme = initializerName)
    {completion : Completion}
    (hbody : LoxLang.executeIn n c.decl.body (.ofList ((c.decl.params.map (·.lexeme)).zip args))
      a.store.frames.size m = .done completion m₁) :
    LoxLang.applyClosure (n + 1) (a.bindMethod c (.object inst)).1 args m =
      .done (.object inst) m₁ := by
  have hclosure := h.called hN ht hcall hc
  have hframe : a.store.frames.size < m.store.frames.size :=
    hcall.2.2.store.closures _ _ hclosure
  obtain ⟨hreceiver, _, hgrows⟩ := h.for_ever hN ht hcall hc hframe
  have hinit : c.isInitializer = true := by
    obtain ⟨i, name, method, hdeclares, hmethod⟩ := h.declared
    obtain ⟨info, hinfo, hfind⟩ := Option.bind_eq_some_iff.1 hdeclares
    obtain ⟨c', hc', hmarked⟩ := hmarks i info (hgrows.classes i info hinfo) name method hfind
    obtain rfl := Option.some.inj ((hgrows.closures method c hmethod).symm.trans hc')
    rw [hmarked]
    exact decide_eq_true hname
  -- the frame of the receiver is not changed by the body
  have hthis : m₁.store.get a.store.frames.size "this" = .ok (.object inst) := by
    have hintact := ((hcall.performs hN).starts _ (.routine hclosure)).1
    have hsince := (hintact.performs hN).leaves m₁ (congrArg Outcome.machine? hbody)
    have hfits := hsince.grows.kinds (.receiver inst) _ hframe hreceiver
    simp only [Store.get, FrameKind.receiver_find? hfits]
  rw [LoxLang.applyClosure, hclosure]
  simp only [hbody, Outcome.bind_done, hinit, if_true, hthis]

end Task

end

end LoxLang
