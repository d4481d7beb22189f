import LoxLang.Proofs.Grammar.Bare
import LoxLang.Proofs.Scope.Table

/-!
# Numbers of their own

A number stands for a node, and the distance of a reference is filed under it.  So a tree that is to
be resolved once more, elsewhere, needs other numbers.  Every tree has a copy with numbers from any
given one on, and a table that files the distances of the copy and says of all other numbers what it
said before.

Principal results: `Expr.renumbered`, `Stmt.renumbered`.
-/

namespace LoxLang

/-- A table that says this of a number. -/
def fileAt (T : Distances) (id : Nat) : Option Nat → Distances
  | none => T.erase id
  | some d => T.insert id d

theorem fileAt_self (T : Distances) (id : Nat) (d : Option Nat) : (fileAt T id d)[id]? = d := by
  cases d <;> simp [fileAt]

theorem fileAt_of_ne (T : Distances) {id other : Nat} (h : other ≠ id) (d : Option Nat) :
    (fileAt T id d)[other]? = T[other]? := by
  cases d <;> simp [fileAt, Std.TreeMap.getElem?_erase, Std.TreeMap.getElem?_insert, h.symm]

/-- From the table `T` to `T'`, the distances of these sites are filed.  The numbers are new ones,
from `lo` on and below `hi`. -/
structure FreshlyFiled (ids : List Nat) (sites : List Construct → List Site) (lo hi : Nat)
    (T T' : Distances) : Prop where
  le : lo ≤ hi
  range : ∀ id ∈ ids, lo ≤ id ∧ id < hi
  filed : ∀ cs, ∀ site ∈ sites cs, site.use.isReference = true → site.id ∈ ids ∧ site.FiledIn T'
  kept : ∀ id, id ∉ ids → T'[id]? = T[id]?

namespace FreshlyFiled

variable {ids ids' : List Nat} {sites sites' : List Construct → List Site} {lo mid hi : Nat}
  {T T₁ T' : Distances}

theorem nil (lo : Nat) (T : Distances) : FreshlyFiled [] (fun _ => []) lo lo T T :=
  ⟨Nat.le_refl lo, fun _ h => (by cases h), fun _ _ h => (by cases h), fun _ _ => rfl⟩

/-- A node that refers to nothing. -/
theorem node (h : FreshlyFiled ids sites (lo + 1) hi T T') :
    FreshlyFiled (lo :: ids) sites lo hi T T' where
  le := Nat.le_of_succ_le h.le
  range := by
    have hle := h.le
    rw [List.forall_mem_cons]
    refine ⟨by omega, fun id hid => ?_⟩
    have hrange := h.range id hid
    omega
  filed cs site hmem huse :=
    have hsite := h.filed cs site hmem huse
    ⟨List.mem_cons_of_mem _ hsite.1, hsite.2⟩
  kept id hid := h.kept id fun hmem => hid (List.mem_cons_of_mem _ hmem)

/-- A node that refers to something. -/
theorem refer (lo : Nat) (T : Distances) (use : Use) (name : Token) (scopes : List (Bindings Bool))
    (init : Option Declared) :
    FreshlyFiled [lo] (fun cs => [⟨use, lo, name, ⟨cs, scopes, init⟩⟩]) lo (lo + 1) T
      (fileAt T lo (distance? name.lexeme scopes)) where
  le := Nat.le_succ lo
  range := by
    rw [List.forall_mem_singleton]
    omega
  filed cs := by
    rw [List.forall_mem_singleton]
    exact fun _ => ⟨List.mem_singleton.2 rfl, fileAt_self T lo _⟩
  kept id hid := fileAt_of_ne T (fun heq => hid (List.mem_singleton.2 heq)) _

/-- One part after the other. -/
theorem append (h : FreshlyFiled ids sites lo mid T T₁)
    (h' : FreshlyFiled ids' sites' mid hi T₁ T') :
    FreshlyFiled (ids ++ ids') (fun cs => sites cs ++ sites' cs) lo hi T T' where
  le := Nat.le_trans h.le h'.le
  range := by
    have hle := h.le
    have hle' := h'.le
    rw [List.forall_mem_append]
    refine ⟨fun id hid => ?_, fun id hid => ?_⟩
    · have hrange := h.range id hid
      omega
    · have hrange := h'.range id hid
      omega
  filed cs := by
    rw [List.forall_mem_append]
    refine ⟨fun site hmem huse => ?_, fun site hmem huse => ?_⟩
    · obtain ⟨hid, hfiled⟩ := h.filed cs site hmem huse
      refine ⟨List.mem_append_left _ hid, ?_⟩
      have hother : site.id ∉ ids' := fun hid' => by
        have hrange := h.range _ hid
        have hrange' := h'.range _ hid'
        omega
      rw [Site.FiledIn, h'.kept _ hother]
      exact hfiled
    · obtain ⟨hid, hfiled⟩ := h'.filed cs site hmem huse
      exact ⟨List.mem_append_right _ hid, hfiled⟩
  kept id hid := by
    rw [List.mem_append, not_or] at hid
    rw [h'.kept id hid.2, h.kept id hid.1]

/-- The same numbers and sites in another order, or with sites that refer to nothing. -/
theorem of_mem (h : FreshlyFiled ids sites lo hi T T') (hids : ∀ id, id ∈ ids' ↔ id ∈ ids)
    (hsites : ∀ cs, ∀ site ∈ sites' cs, site.use.isReference = true → ∃ cs', site ∈ sites cs') :
    FreshlyFiled ids' sites' lo hi T T' where
  le := h.le
  range id hid := h.range id ((hids id).1 hid)
  filed cs site hmem huse := by
    obtain ⟨cs', hmem'⟩ := hsites cs site hmem huse
    obtain ⟨hid, hfiled⟩ := h.filed cs' site hmem' huse
    exact ⟨(hids _).2 hid, hfiled⟩
  kept id hid := h.kept id fun hmem => hid ((hids id).2 hmem)

end FreshlyFiled

/-! ## Expressions -/

mutual

/-- **Every expression has a copy with numbers of its own.** -/
theorem Expr.renumbered (init : Option Declared) : ∀ (e : Expr) (r : Resolution) (lo : Nat)
    (T : Distances), ∃ e' hi T', e'.bare = e.bare ∧
      FreshlyFiled e'.ids (fun cs => exprSites cs init r e') lo hi T T'
  | .literal _ value, _, lo, T => ⟨.literal lo value, lo + 1, T, rfl, (FreshlyFiled.nil _ T).node⟩
  | .grouping _ e, r, lo, T => by
    obtain ⟨e', hi, T', hbare, h⟩ := e.renumbered init r (lo + 1) T
    exact ⟨.grouping lo e', hi, T', by rw [Expr.bare, Expr.bare, hbare], h.node⟩
  | .unary _ t e, r, lo, T => by
    obtain ⟨e', hi, T', hbare, h⟩ := e.renumbered init r (lo + 1) T
    exact ⟨.unary lo t e', hi, T', by rw [Expr.bare, Expr.bare, hbare], h.node⟩
  | .binary _ a t b, r, lo, T => by
    obtain ⟨a', mid, T₁, ha, h⟩ := a.renumbered init r (lo + 1) T
    obtain ⟨b', hi, T', hb, h'⟩ := b.renumbered init (r.expr a') mid T₁
    refine ⟨.binary lo a' t b', hi, T', by rw [Expr.bare, Expr.bare, ha, hb], ?_⟩
    rw [Expr.ids_binary]
    exact (h.append h').node
  | .logical _ a t b, r, lo, T => by
    obtain ⟨a', mid, T₁, ha, h⟩ := a.renumbered init r (lo + 1) T
    obtain ⟨b', hi, T', hb, h'⟩ := b.renumbered init (r.expr a') mid T₁
    refine ⟨.logical lo a' t b', hi, T', by rw [Expr.bare, Expr.bare, ha, hb], ?_⟩
    rw [Expr.ids_logical]
    exact (h.append h').node
  | .var _ name, r, lo, T =>
    ⟨.var lo name, lo + 1, _, rfl, .refer lo T .read name r.scopes init⟩
  | .assign _ name e, r, lo, T => by
    obtain ⟨e', hi, T', hbare, h⟩ :=
      e.renumbered init r (lo + 1) (fileAt T lo (distance? name.lexeme r.scopes))
    refine ⟨.assign lo name e', hi, T', by rw [Expr.bare, Expr.bare, hbare], ?_⟩
    have hrefer := FreshlyFiled.refer lo T .write name r.scopes init
    refine (hrefer.append h).of_mem (fun _ => Iff.rfl) ?_
    intro cs site hmem _
    rw [exprSites, Resolution.expr_scopes, List.mem_append] at hmem
    exact ⟨cs, List.mem_append.2 hmem.symm⟩
  | .call _ f t args, r, lo, T => by
    obtain ⟨f', mid, T₁, hf, h⟩ := f.renumbered init r (lo + 1) T
    obtain ⟨args', hi, T', hargs, h'⟩ := renumberedArgs init args (r.expr f') mid T₁
    refine ⟨.call lo f' t args', hi, T', by rw [Expr.bare, Expr.bare, hf, hargs], ?_⟩
    rw [Expr.ids_call]
    exact (h.append h').node
  | .get _ e name, r, lo, T => by
    obtain ⟨e', hi, T', hbare, h⟩ := e.renumbered init r (lo + 1) T
    exact ⟨.get lo e' name, hi, T', by rw [Expr.bare, Expr.bare, hbare], h.node⟩
  | .set _ e name v, r, lo, T => by
    obtain ⟨v', mid, T₁, hv, h⟩ := v.renumbered init r (lo + 1) T
    obtain ⟨e', hi, T', he, h'⟩ := e.renumbered init (r.expr v') mid T₁
    refine ⟨.set lo e' name v', hi, T', by rw [Expr.bare, Expr.bare, he, hv], ?_⟩
    refine (h.append h').node.of_mem (fun id => ?_) fun cs site hmem _ => ⟨cs, hmem⟩
    rw [Expr.ids_set, List.mem_cons, List.mem_cons, List.mem_append, List.mem_append,
      or_comm (a := id ∈ e'.ids)]
  | .this _ keyword, r, lo, T =>
    ⟨.this lo keyword, lo + 1, _, rfl, .refer lo T .this keyword r.scopes init⟩
  | .super _ keyword method, r, lo, T =>
    ⟨.super lo keyword method, lo + 1, _, rfl, .refer lo T .super keyword r.scopes init⟩

theorem renumberedArgs (init : Option Declared) : ∀ (es : List Expr) (r : Resolution) (lo : Nat)
    (T : Distances), ∃ es' hi T', bareArgs es' = bareArgs es ∧
      FreshlyFiled (argIds es') (fun cs => argSites cs init r es') lo hi T T'
  | [], _, lo, T => ⟨[], lo, T, rfl, .nil lo T⟩
  | e :: es, r, lo, T => by
    obtain ⟨e', mid, T₁, he, h⟩ := e.renumbered init r lo T
    obtain ⟨es', hi, T', hes, h'⟩ := renumberedArgs init es (r.expr e') mid T₁
    refine ⟨e' :: es', hi, T', by rw [bareArgs, bareArgs, he, hes], ?_⟩
    rw [argIds_cons]
    exact h.append h'

end

/-! ## Statements -/

theorem renumberedSuperclass (r : Resolution) (name : Token) (lo : Nat) (T : Distances) :
    ∀ base : Option Superclass, ∃ base' hi T',
      base'.map Superclass.bare = base.map Superclass.bare ∧
      FreshlyFiled (optionIds (fun s => [s.id]) base') (fun cs => superclassSites cs r name base')
        lo hi T T'
  | none => ⟨none, lo, T, rfl, .nil lo T⟩
  | some s => ⟨some ⟨lo, s.name⟩, lo + 1, _, rfl,
      .refer lo T .read s.name ((r.declare name).define name).scopes none⟩

/-- Parameters refer to nothing. -/
theorem parameterSites_not_reference {cs : List Construct} {id : Nat} : ∀ (params : List Token)
    {r : Resolution}, ∀ site ∈ parameterSites cs id r params, site.use.isReference = false
  | [], _ => fun _ hmem => by cases hmem
  | _ :: params, _ => by
    rw [parameterSites, List.forall_mem_cons]
    exact ⟨rfl, parameterSites_not_reference params⟩

mutual

/-- **Every statement has a copy with numbers of its own.** -/
theorem Stmt.renumbered : ∀ (s : Stmt) (r : Resolution) (lo : Nat) (T : Distances),
    ∃ s' hi T', s'.bare = s.bare ∧ FreshlyFiled s'.ids (fun cs => stmtSites cs r s') lo hi T T'
  | .malformed, _, lo, T => ⟨.malformed, lo, T, rfl, .nil lo T⟩
  | .expression _ e, r, lo, T => by
    obtain ⟨e', hi, T', hbare, h⟩ := e.renumbered none r (lo + 1) T
    exact ⟨.expression lo e', hi, T', by rw [Stmt.bare, Stmt.bare, hbare], h.node⟩
  | .print _ e, r, lo, T => by
    obtain ⟨e', hi, T', hbare, h⟩ := e.renumbered none r (lo + 1) T
    exact ⟨.print lo e', hi, T', by rw [Stmt.bare, Stmt.bare, hbare], h.node⟩
  | .declare _ name none, r, lo, T => by
    refine ⟨.declare lo name none, lo + 1, T, rfl,
      (FreshlyFiled.nil _ T).node.of_mem (fun _ => Iff.rfl) fun cs => ?_⟩
    rw [stmtSites, List.forall_mem_singleton]
    exact fun huse => by cases huse
  | .declare _ name (some e), r, lo, T => by
    obtain ⟨e', hi, T', hbare, h⟩ :=
      e.renumbered (some ⟨lo, name.lexeme⟩) (r.declare name) (lo + 1) T
    refine ⟨.declare lo name (some e'), hi, T', by rw [Stmt.bare, Stmt.bare, hbare],
      h.node.of_mem (fun _ => Iff.rfl) fun cs => ?_⟩
    rw [stmtSites, List.forall_mem_cons]
    exact ⟨fun huse => (by cases huse), fun site hmem _ => ⟨cs, hmem⟩⟩
  | .block _ body, r, lo, T => by
    obtain ⟨body', hi, T', hbare, h⟩ := renumberedBody body r.openScope (lo + 1) T
    refine ⟨.block lo body', hi, T', by rw [Stmt.bare, Stmt.bare, hbare], ?_⟩
    exact h.node.of_mem (fun _ => Iff.rfl) fun cs site hmem _ => ⟨.block lo :: cs, hmem⟩
  | .conditional _ c s none, r, lo, T => by
    obtain ⟨c', mid, T₁, hc, h⟩ := c.renumbered none r (lo + 1) T
    obtain ⟨s', hi, T', hs, h'⟩ := s.renumbered (r.expr c') mid T₁
    refine ⟨.conditional lo c' s' none, hi, T', by rw [Stmt.bare, Stmt.bare, hc, hs], ?_⟩
    rw [Stmt.ids_conditional, optionIds, List.append_nil]
    exact (h.append h').node
  | .conditional _ c s (some t), r, lo, T => by
    obtain ⟨c', mid, T₁, hc, h⟩ := c.renumbered none r (lo + 1) T
    obtain ⟨s', mid', T₂, hs, h'⟩ := s.renumbered (r.expr c') mid T₁
    obtain ⟨t', hi, T', ht, h''⟩ := t.renumbered ((r.expr c').stmt s') mid' T₂
    refine ⟨.conditional lo c' s' (some t'), hi, T', by rw [Stmt.bare, Stmt.bare, hc, hs, ht], ?_⟩
    rw [Stmt.ids_conditional, optionIds]
    exact ((h.append h').append h'').node
  | .loop _ c s, r, lo, T => by
    obtain ⟨c', mid, T₁, hc, h⟩ := c.renumbered none r (lo + 1) T
    obtain ⟨s', hi, T', hs, h'⟩ := s.renumbered (r.expr c') mid T₁
    refine ⟨.loop lo c' s', hi, T', by rw [Stmt.bare, Stmt.bare, hc, hs], ?_⟩
    rw [Stmt.ids_loop]
    exact (h.append h').node
  | .function f, r, lo, T => by
    obtain ⟨f', hi, T', hbare, hname, h⟩ :=
      renumberedFunction .function f ((r.declare f.name).define f.name) lo T
    refine ⟨.function f', hi, T', by rw [Stmt.bare, Stmt.bare, hbare],
      h.of_mem (fun _ => Iff.rfl) fun cs => ?_⟩
    rw [stmtSites, List.forall_mem_cons, hname]
    exact ⟨fun huse => (by cases huse), fun site hmem _ => ⟨cs, hmem⟩⟩
  | .ret _ keyword none, _, lo, T =>
    ⟨.ret lo keyword none, lo + 1, T, rfl, (FreshlyFiled.nil _ T).node⟩
  | .ret _ keyword (some e), r, lo, T => by
    obtain ⟨e', hi, T', hbare, h⟩ := e.renumbered none (r.checkReturn keyword true) (lo + 1) T
    exact ⟨.ret lo keyword (some e'), hi, T', by rw [Stmt.bare, Stmt.bare, hbare], h.node⟩
  | .classDecl _ name base methods, r, lo, T => by
    obtain ⟨base', mid, T₁, hbase, h⟩ := renumberedSuperclass r name (lo + 1) T base
    obtain ⟨methods', hi, T', hmethods, h'⟩ :=
      renumberedMethods methods (r.enterClass name base') mid T₁
    refine ⟨.classDecl lo name base' methods', hi, T',
      by rw [Stmt.bare, Stmt.bare, hbase, hmethods], ?_⟩
    rw [Stmt.ids_classDecl]
    refine (h.append h').node.of_mem (fun _ => Iff.rfl) fun cs => ?_
    rw [stmtSites, List.forall_mem_cons, List.forall_mem_append]
    refine ⟨fun huse => (by cases huse), fun site hmem _ => ⟨cs, List.mem_append_left _ hmem⟩, ?_⟩
    exact fun site hmem _ =>
      ⟨classConstructs lo base' methods' ++ cs, List.mem_append_right _ hmem⟩

theorem renumberedBody : ∀ (ss : List Stmt) (r : Resolution) (lo : Nat) (T : Distances),
    ∃ ss' hi T', bareBody ss' = bareBody ss ∧
      FreshlyFiled (bodyIds ss') (fun cs => bodySites cs r ss') lo hi T T'
  | [], _, lo, T => ⟨[], lo, T, rfl, .nil lo T⟩
  | s :: ss, r, lo, T => by
    obtain ⟨s', mid, T₁, hs, h⟩ := s.renumbered r lo T
    obtain ⟨ss', hi, T', hss, h'⟩ := renumberedBody ss (r.stmt s') mid T₁
    refine ⟨s' :: ss', hi, T', by rw [bareBody, bareBody, hs, hss], ?_⟩
    rw [bodyIds_cons]
    exact h.append h'

theorem renumberedFunction (routine : Routine) : ∀ (f : Function) (r : Resolution) (lo : Nat)
    (T : Distances), ∃ f' hi T', bareFunction f' = bareFunction f ∧ f'.name = f.name ∧
      FreshlyFiled (functionIds f') (fun cs => functionSites cs r routine f') lo hi T T'
  | ⟨_, name, params, body⟩, r, lo, T => by
    obtain ⟨body', hi, T', hbody, h⟩ :=
      renumberedBody body ({ r with routine }.openScope.parameters params) (lo + 1) T
    refine ⟨⟨lo, name, params, body'⟩, hi, T', by rw [bareFunction, bareFunction, hbody], rfl,
      h.node.of_mem (fun _ => Iff.rfl) fun cs => ?_⟩
    rw [functionSites, List.forall_mem_append]
    refine ⟨fun site hmem huse => ?_, fun site hmem _ => ⟨.routine lo :: cs, hmem⟩⟩
    rw [parameterSites_not_reference params site hmem] at huse
    cases huse

theorem renumberedMethods : ∀ (fs : List Function) (r : Resolution) (lo : Nat) (T : Distances),
    ∃ fs' hi T', bareMethods fs' = bareMethods fs ∧
      FreshlyFiled (methodIds fs') (fun cs => methodSites cs r fs') lo hi T T'
  | [], _, lo, T => ⟨[], lo, T, rfl, .nil lo T⟩
  | f :: fs, r, lo, T => by
    obtain ⟨f', mid, T₁, hf, hname, h⟩ :=
      renumberedFunction (Resolution.methodRoutine f.name) f r lo T
    obtain ⟨fs', hi, T', hfs, h'⟩ :=
      renumberedMethods fs (r.function (Resolution.methodRoutine f.name) f') mid T₁
    refine ⟨f' :: fs', hi, T', by rw [bareMethods, bareMethods, hf, hfs], ?_⟩
    rw [methodIds_cons]
    refine (h.append h').of_mem (fun _ => Iff.rfl) fun cs site hmem _ => ⟨cs, ?_⟩
    rw [methodSites, hname] at hmem
    exact hmem

end

end LoxLang
