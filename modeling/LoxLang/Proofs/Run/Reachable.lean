import LoxLang.Proofs.Run.Lockstep

/-!
# Every moment of a run

`Sound` says of a task that its machine keeps the invariant of the store and that the current frame
belongs to the scopes of the place where the task stands in its program.  The tasks that a sound
task calls are sound, and so all tasks that it reaches are.

Principal results: `Sound.calls`, `Sound.reaches`, `Sound.placed`.
-/

namespace LoxLang

/-- A task of a resolved program on a machine whose frame belongs to the scopes around it. -/
inductive Sound (K : Pairing) : Task → Prop where
  | program {n : Nat} {stmts : List Stmt} {L : Labels} {m : Machine} {p : Surroundings} :
      Twins.At K L m m p → p.scopes = [] → AlikeBody K p stmts stmts →
      Sound K (.program n stmts m)
  | execute {n : Nat} {s : Stmt} {L : Labels} {m : Machine} {p : Surroundings} :
      Twins.At K L m m p → AlikeStmt K p s s → Sound K (.execute n s m)
  | executeIn {n : Nat} {body : List Stmt} {b : Bindings Value} {parent : Nat} {L : Labels}
      {m : Machine} {c : Construct} {cs : List Construct} {scope : Bindings Bool}
      {scopes : List (Bindings Bool)} :
      Twins K L m m → Chain ⟨L, m.store, m.store⟩ parent cs scopes → (∀ id, c ≠ .base id) →
      (0 < n → K.Made m.store.frames.size c) →
      (∀ name, K.IsName name → b.find? (K.spell c name) = b.find? name) →
      (∀ name v, b.find? name = some v → OkValue K ⟨L, m.store, m.store⟩ v) →
      (∀ name, scope.find? name = some true → b.contains name = true) →
      AlikeBody K ⟨c :: cs, scope :: scopes, none⟩ body body →
      Sound K (.executeIn n body b parent m)
  | executeAll {n : Nat} {body : List Stmt} {L : Labels} {m : Machine} {p : Surroundings} :
      Twins.At K L m m p → AlikeBody K p body body → Sound K (.executeAll n body m)
  | repeatWhile {n : Nat} {cond : Expr} {s : Stmt} {L : Labels} {m : Machine}
      {p : Surroundings} :
      Twins.At K L m m p → AlikeExpr K p cond cond → AlikeStmt K p s s → s.declared = [] →
      Sound K (.repeatWhile n cond s m)
  | evaluate {n : Nat} {e : Expr} {L : Labels} {m : Machine} {p : Surroundings} :
      Twins.At K L m m p → AlikeExpr K p e e → Sound K (.evaluate n e m)
  | evaluateAll {n : Nat} {es : List Expr} {L : Labels} {m : Machine} {p : Surroundings} :
      Twins.At K L m m p → AlikeArgs K p es es → Sound K (.evaluateAll n es m)
  | call {n : Nat} {callee : Value} {args : List Value} {paren : Token} {L : Labels}
      {m : Machine} :
      Twins K L m m → OkValue K ⟨L, m.store, m.store⟩ callee →
      (∀ v ∈ args, OkValue K ⟨L, m.store, m.store⟩ v) → Sound K (.call n callee args paren m)
  | invoke {n : Nat} {callee : Value} {args : List Value} {L : Labels} {m : Machine} :
      Twins K L m m → OkValue K ⟨L, m.store, m.store⟩ callee →
      (∀ v ∈ args, OkValue K ⟨L, m.store, m.store⟩ v) →
      m.store.arity? callee = some args.length → Sound K (.invoke n callee args m)
  | applyClosure {n ref : Nat} {args : List Value} {c c' : Closure} {L : Labels} {m : Machine}
      {p : Surroundings} :
      Twins K L m m → m.store.closures[ref]? = some c → m.store.closures[ref]? = some c' →
      Ready K ⟨L, m.store, m.store⟩ c c' p → args.length = c.decl.params.length →
      (∀ v ∈ args, OkValue K ⟨L, m.store, m.store⟩ v) → Sound K (.applyClosure n ref args m)

/-- What a task that came to a value left behind. -/
theorem Agrees.done_self {α : Type} {K : Pairing} {W : World} {f : Nat}
    {Post : World → α → Prop} {o : Outcome α} {v : α} {m : Machine} (h : Agrees K W f Post o o)
    (heq : o = .done v m) : ∃ L, Twins.Since K W f L m m ∧ Post ⟨L, m.store, m.store⟩ v := by
  subst heq
  cases h with
  | done hsince hpost => exact ⟨_, hsince, hpost⟩

section Calls

variable {K : Pairing}

/-- The tasks that a statement calls. -/
theorem Sound.execute_calls {n : Nat} {s : Stmt} {m : Machine} {t : Task} {L : Labels}
    {p : Surroundings} (h : Twins.At K L m m p) (ha : AlikeStmt K p s s)
    (hgrants : Grants K (.execute n s m)) (hcalls : Task.Calls (.execute n s m) t) :
    Sound K t := by
  cases hcalls with
  | expression => cases ha with | expression he => exact .evaluate h he
  | print => cases ha with | print he => exact .evaluate h he
  | initial =>
    cases ha with
    | declareValue _ he => exact .evaluate ⟨h.twins, h.chain.pending _⟩ he
  | block =>
    cases ha with
    | block hbody =>
      refine .executeIn h.twins h.chain (fun _ hbase => by cases hbase) (fun hpos => ?_)
        (fun _ _ => rfl) (fun _ _ hv => by cases hv) (fun _ hv => by cases hv) hbody
      obtain ⟨n, rfl⟩ := Nat.exists_eq_succ_of_ne_zero (Nat.ne_of_gt hpos)
      exact hgrants.made _ _ _ .refl .block
  | condition =>
    cases ha with
    | ifThen hcond _ _ => exact .evaluate h hcond
    | ifElse hcond _ _ _ _ => exact .evaluate h hcond
  | thenBranch heq _ =>
    have hcondition := hgrants.calls .condition
    cases ha with
    | ifThen hcond hs _ =>
      obtain ⟨L₁, hsince, _⟩ := ((lockstep K _).evaluate h hcond hcondition).done_self heq
      exact .execute (hsince.at h.chain) hs
    | ifElse hcond hs _ _ _ =>
      obtain ⟨L₁, hsince, _⟩ := ((lockstep K _).evaluate h hcond hcondition).done_self heq
      exact .execute (hsince.at h.chain) hs
  | elseBranch heq _ =>
    have hcondition := hgrants.calls .condition
    cases ha with
    | ifElse hcond _ _ ht _ =>
      obtain ⟨L₁, hsince, _⟩ := ((lockstep K _).evaluate h hcond hcondition).done_self heq
      exact .execute (hsince.at h.chain) ht
  | loop => cases ha with | loop hcond hs hdeclared => exact .repeatWhile h hcond hs hdeclared
  | ret => cases ha with | retValue he => exact .evaluate h he

/-- The tasks that an expression calls. -/
theorem Sound.evaluate_calls {n : Nat} {e : Expr} {m : Machine} {t : Task} {L : Labels}
    {p : Surroundings} (h : Twins.At K L m m p) (ha : AlikeExpr K p e e)
    (hgrants : Grants K (.evaluate n e m)) (hcalls : Task.Calls (.evaluate n e m) t) :
    Sound K t := by
  cases hcalls with
  | grouping => cases ha with | grouping he => exact .evaluate h he
  | operand => cases ha with | unary _ he => exact .evaluate h he
  | left => cases ha with | binary hleft _ _ => exact .evaluate h hleft
  | right heq =>
    cases ha with
    | binary hleft _ hright =>
      obtain ⟨L₁, hsince, _⟩ :=
        ((lockstep K _).evaluate h hleft (hgrants.calls .left)).done_self heq
      exact .evaluate (hsince.at h.chain) hright
  | logicalLeft => cases ha with | logical hleft _ _ => exact .evaluate h hleft
  | logicalRight heq _ =>
    cases ha with
    | logical hleft _ hright =>
      obtain ⟨L₁, hsince, _⟩ :=
        ((lockstep K _).evaluate h hleft (hgrants.calls .logicalLeft)).done_self heq
      exact .evaluate (hsince.at h.chain) hright
  | assigned => cases ha with | assign _ _ _ he => exact .evaluate h he
  | callee => cases ha with | call hcallee _ _ => exact .evaluate h hcallee
  | arguments heq =>
    cases ha with
    | call hcallee _ hargs =>
      obtain ⟨L₁, hsince, _⟩ :=
        ((lockstep K _).evaluate h hcallee (hgrants.calls .callee)).done_self heq
      exact .evaluateAll (hsince.at h.chain) hargs
  | call heq heq₁ =>
    cases ha with
    | call hcallee _ hargs =>
      obtain ⟨L₁, hsince, hv⟩ :=
        ((lockstep K _).evaluate h hcallee (hgrants.calls .callee)).done_self heq
      obtain ⟨L₂, hsince₁, hvs⟩ := ((lockstep K _).evaluateAll (hsince.at h.chain) hargs
        (hgrants.calls (.arguments heq))).done_self heq₁
      exact .call hsince₁.twins (hv.grows hsince₁.grows) hvs
  | object => cases ha with | get hobject _ => exact .evaluate h hobject
  | target => cases ha with | set hobject _ _ => exact .evaluate h hobject
  | field heq =>
    cases ha with
    | set hobject _ hvalue =>
      obtain ⟨L₁, hsince, _⟩ :=
        ((lockstep K _).evaluate h hobject (hgrants.calls .target)).done_self heq
      exact .evaluate (hsince.at h.chain) hvalue

/-- A call of a value runs its body. -/
theorem Sound.invoke_calls {n : Nat} {callee : Value} {args : List Value} {m : Machine}
    {t : Task} {L : Labels} (h : Twins K L m m) (hcallee : OkValue K ⟨L, m.store, m.store⟩ callee)
    (hargs : ∀ v ∈ args, OkValue K ⟨L, m.store, m.store⟩ v)
    (harity : m.store.arity? callee = some args.length)
    (hgrants : Grants K (.invoke n callee args m))
    (hcalls : Task.Calls (.invoke n callee args m) t) : Sound K t := by
  cases hcalls with
  | apply =>
    obtain ⟨c, c', p, hc, hc', hready⟩ := hcallee
    simp only at hc hc'
    simp only [Store.arity?, Store.closureArity, hc, Option.some.injEq] at harity
    exact .applyClosure h hc hc' hready harity.symm hargs
  | @construct _ ref _ init _ hinit =>
    obtain ⟨hnone, _⟩ | ⟨c, c', id, methods, p, hc, hc', hunbound⟩ :=
      h.heap.method? ref initializerName
    · simp only at hnone
      rw [hinit] at hnone
      cases hnone
    · simp only at hc hc'
      obtain rfl : init = c := Option.some.inj (hinit.symm.trans hc)
      obtain rfl : init = c' := Option.some.inj (hinit.symm.trans hc')
      have hsince := h.addInstance ref
      have hreceiver : OkValue K ⟨L, (m.store.addInstance ref).2, (m.store.addInstance ref).2⟩
          (.object (m.store.addInstance ref).1) := trivial
      have hmade : K.Made m.store.frames.size (.receiver id methods) :=
        hgrants.made _ _ _ .refl (.construct hc hunbound.mem)
      obtain ⟨_, L₁, hsince₁, b, b', hb, hb', hdecl, hready⟩ :=
        hsince.twins.bindMethod (hunbound.grows hsince.grows) hreceiver hmade
      simp only [Store.arity?, Store.classArity, hc, Option.some.injEq] at harity
      rw [← hdecl] at harity
      exact .applyClosure hsince₁.twins hb hb' hready harity.symm
        fun v hmem => (hargs v hmem).grows (hsince.trans hsince₁).grows

/-- Running a function enters a frame that binds its parameters. -/
theorem Sound.applyClosure_calls {n ref : Nat} {args : List Value} {c c' : Closure} {m : Machine}
    {t : Task} {L : Labels} {p : Surroundings} (h : Twins K L m m)
    (hc : m.store.closures[ref]? = some c) (hc' : m.store.closures[ref]? = some c')
    (hready : Ready K ⟨L, m.store, m.store⟩ c c' p) (hlength : args.length = c.decl.params.length)
    (hargs : ∀ v ∈ args, OkValue K ⟨L, m.store, m.store⟩ v)
    (hgrants : Grants K (.applyClosure n ref args m))
    (hcalls : Task.Calls (.applyClosure n ref args m) t) : Sound K t := by
  obtain rfl : c = c' := Option.some.inj (hc.symm.trans hc')
  cases hcalls with
  | @routine n _ _ c₁ _ hc₁ =>
    obtain rfl : c = c₁ := Option.some.inj (hc.symm.trans hc₁)
    obtain ⟨hnames, hparams, hbody⟩ := hready.alike.parts
    rw [Surroundings.inRoutine, markAll_cons] at hbody
    have hspelled := putAll_find?_spell (c := .routine c.decl.id) _ args .empty .empty hnames
      fun _ _ => rfl
    rw [← hparams] at hspelled
    refine .executeIn h hready.chain (fun _ hbase => by cases hbase) (fun hpos => ?_) hspelled
      (fun _ v hv => hargs v (Bindings.mem_of_find?_ofList hv))
      (putAll_contains _ args .empty .empty (by simpa using hlength) fun _ hv => by cases hv) hbody
    obtain ⟨n, rfl⟩ := Nat.exists_eq_succ_of_ne_zero (Nat.ne_of_gt hpos)
    exact hgrants.made _ _ _ .refl (.routine hc)

/-- **What a sound task calls is sound.** -/
theorem Sound.calls {t t₁ : Task} (h : Sound K t) (hgrants : Grants K t) (hcalls : t.Calls t₁) :
    Sound K t₁ := by
  cases h with
  | program hat hp hbody =>
    cases hbody with
    | nil => cases hcalls
    | cons hs hss =>
      have hfirst := hgrants.calls .first
      cases hcalls with
      | first => exact .execute hat hs
      | next heq =>
        obtain ⟨L₁, hsince, _⟩ := ((lockstep K _).execute hat hs hfirst).done_self heq
        obtain ⟨h₁, hp₁⟩ := hsince.outermost hat hp
        exact .program h₁ hp₁ hss
  | execute hat hs => exact .execute_calls hat hs hgrants hcalls
  | executeIn h hchain hc hmade hb hv hbound hbody =>
    cases hcalls with
    | body =>
      exact .executeAll (h.enter hchain hc (hmade (Nat.succ_pos _)) hb hv hbound).1 hbody
  | executeAll hat hbody =>
    cases hbody with
    | nil => cases hcalls
    | cons hs hss =>
      cases hcalls with
      | head => exact .execute hat hs
      | tail heq =>
        obtain ⟨L₁, hsince, hc⟩ :=
          ((lockstep K _).execute hat hs (hgrants.calls .head)).done_self heq
        refine .executeAll ⟨hsince.twins, ?_⟩ hss
        rw [hsince.frame]
        exact hc
  | repeatWhile hat hcond hs hdeclared =>
    have hcondition := fun n => (lockstep K n).evaluate hat hcond
    cases hcalls with
    | loopCondition => exact .evaluate hat hcond
    | loopBody heq _ =>
      obtain ⟨L₁, hsince, _⟩ := (hcondition _ (hgrants.calls .loopCondition)).done_self heq
      exact .execute (hsince.at hat.chain) hs
    | again heq htruthy heq₁ =>
      obtain ⟨L₁, hsince, _⟩ := (hcondition _ (hgrants.calls .loopCondition)).done_self heq
      have hat₁ := hsince.at hat.chain
      obtain ⟨L₂, hsince₁, _⟩ := ((lockstep K _).execute hat₁ hs
        (hgrants.calls (.loopBody heq htruthy))).done_self heq₁
      exact .repeatWhile (hsince₁.at hat₁.chain) hcond hs hdeclared
  | evaluate hat he => exact .evaluate_calls hat he hgrants hcalls
  | evaluateAll hat hes =>
    cases hes with
    | nil => cases hcalls
    | cons he hes =>
      cases hcalls with
      | firstArgument => exact .evaluate hat he
      | nextArguments heq =>
        obtain ⟨L₁, hsince, _⟩ :=
          ((lockstep K _).evaluate hat he (hgrants.calls .firstArgument)).done_self heq
        exact .evaluateAll (hsince.at hat.chain) hes
  | call h hcallee hargs =>
    cases hcalls with
    | invoke harity _ => exact .invoke h.beginCall hcallee hargs harity
  | invoke h hcallee hargs harity => exact .invoke_calls h hcallee hargs harity hgrants hcalls
  | applyClosure h hc hc' hready hlength hargs =>
    exact .applyClosure_calls h hc hc' hready hlength hargs hgrants hcalls

/-- **Every moment of the run of a sound task is sound.** -/
theorem Sound.reaches {t t₁ : Task} (h : Sound K t) (hgrants : Grants K t)
    (hreaches : t.Reaches t₁) : Sound K t₁ ∧ Grants K t₁ := by
  induction hreaches with
  | refl => exact ⟨h, hgrants⟩
  | step _ hcalls ih => exact ⟨ih.1.calls ih.2 hcalls, ih.2.calls hcalls⟩

end Calls

/-! ## References -/

/-- What holds on a machine when the node of a site is evaluated. -/
structure Placed (K : Pairing) (m : Machine) (site : Site) : Prop where
  known : K.Known site
  table : m.table[site.id]? = site.distance?
  depth : (m.store.chain m.frame).length = site.around.scopes.length + 1
  root : m.store.climb site.around.scopes.length m.frame = some Store.globalFrame
  frame : ∀ d, site.distance? = some d → ∃ c f, site.around.constructs[d]? = some c ∧
    m.store.climb d m.frame = some f ∧ K.Made f c ∧
    (m.store.has f site.name.lexeme = true ∨ site.MayFail)

section Placed

variable {K : Pairing} {L : Labels} {m : Machine} {p : Surroundings}

/-- The frame of a chain of scopes that have a name at the same distance as the site. -/
theorem Twins.placed (h : Twins K L m m) (site : Site) {name' : Token}
    {scopes : List (Bindings Bool)}
    (hchain : Chain ⟨L, m.store, m.store⟩ m.frame site.around.constructs scopes)
    (hlength : scopes.length = site.around.scopes.length)
    (hdist : distance? site.name.lexeme scopes = site.distance?)
    (hbound : ∀ d scope f c, site.distance? = some d → scopes[d]? = some scope →
      site.around.constructs[d]? = some c → L[f]? = some (some c) →
      scope.find? site.name.lexeme = some true ∨ m.store.has f site.name.lexeme = true ∨
        site.MayFail)
    (hr : K.Refers site name') : Placed K m site where
  known := hr.known
  table := by rw [h.table]; exact hr.table
  depth := by
    rw [← hlength]
    exact hchain.chainOf_length h.heap.older h.heap.rootParent (m.frame + 1) (by omega)
  root := by
    rw [← hlength]
    exact hchain.climb_root
  frame := by
    intro d hd
    obtain ⟨scope, f, c, hscope, hf, hc, hl, hhas⟩ := hchain.locate (hdist.trans hd)
    refine ⟨c, f, hc, hf, h.heap.made f c hl, ?_⟩
    obtain hdefined | hbound | hfail := hbound d scope f c hd hscope hc hl
    · exact .inl (hhas hdefined)
    · exact .inl hbound
    · exact .inr hfail

/-- **A reference is evaluated in a frame that belongs to the scopes around it.** -/
theorem Sound.placed {t : Task} {use : Use} {id : Nat} {name : Token} (h : Sound K t)
    (hgrants : Grants K t) (hev : t.Evaluates use id name m) :
    ∃ p, Placed K m ⟨use, id, name, p⟩ := by
  cases hev with
  | var =>
    obtain _ | _ | _ | _ | _ | ⟨hat, he⟩ := h
    cases he with
    | var hr hread =>
      exact ⟨_, hat.twins.placed _ hat.chain rfl rfl
        (fun d scope _ _ hd hscope _ _ => .inl (hread d scope hd hscope)) hr⟩
  | this =>
    obtain _ | _ | _ | _ | _ | ⟨hat, he⟩ := h
    cases he with
    | this hr hread =>
      exact ⟨_, hat.twins.placed _ hat.chain rfl rfl
        (fun d scope _ _ hd hscope _ _ => .inl (hread d scope hd hscope)) hr⟩
  | assign heq =>
    obtain _ | _ | _ | _ | _ | ⟨hat, he⟩ := h
    cases he with
    | assign hr hwrite _ hvalue =>
      obtain ⟨L₁, hsince, _⟩ :=
        ((lockstep K _).evaluate hat hvalue (hgrants.calls .assigned)).done_self heq
      refine ⟨_, hsince.twins.placed _ (hsince.at hat.chain).chain rfl rfl
        (fun d scope _ _ hd hscope _ _ => ?_) hr⟩
      obtain hdefined | ⟨rfl, hown⟩ := hwrite d scope hd hscope
      · exact .inl hdefined
      · exact .inr (.inr (.inr ⟨rfl, hd, hown⟩))
  | super =>
    obtain _ | _ | _ | _ | _ | ⟨hat, he⟩ := h
    cases he with
    | super hr hsuper hin _ =>
      refine ⟨_, hat.twins.placed _ hat.chain rfl rfl (fun d scope f c hd _ hc hl => ?_) hr⟩
      obtain ⟨k, _, _, baseId, _, hk, _, _, _, hbase⟩ := hin
      unfold Site.distance? at hd
      simp only [hsuper] at hd ⊢
      obtain rfl : k + 1 = d := Option.some.inj (hk.symm.trans hd)
      obtain rfl : c = .base baseId := Option.some.inj (hc.symm.trans hbase)
      obtain ⟨ref, href⟩ := hat.twins.heap.bases f baseId hl
      exact .inr (.inl ((Store.has_eq_true _).2 ⟨_, href⟩))
  | superclass =>
    obtain _ | @⟨_, _, _, _, p, hat, hs⟩ := h
    cases hs with
    | classDecl _ _ hsuper _ =>
      cases hsuper with
      | some _ hr hread hne =>
        have hdist := (distance?_markIn_of_ne true hne p.scopes).symm
        exact ⟨_, hat.twins.placed ⟨_, _, _, p.mark _ true⟩ hat.chain (markIn_length _ _ _).symm
          hdist (fun d scope _ _ hd hscope _ _ =>
            .inl (hread.before hne d scope (hdist.trans hd) hscope)) hr⟩

end Placed

end LoxLang
