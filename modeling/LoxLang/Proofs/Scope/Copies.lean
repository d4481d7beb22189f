import LoxLang.Proofs.Scope.Table
import LoxLang.Proofs.Tree.Copies

/-!
# Copies are resolved alike

The pass over a program does not look at the numbers of nodes or at the lines of tokens.  Over a tree
and over its copy it goes through states with the same scopes, it files the same distances under the
numbers that belong together, and it finds a problem in both or in none.

Principal results: `CopyStmt.filed`, `body_copies`.
-/

namespace LoxLang

/-! ## Filing -/

/-- A reference of a tree with that of its copy, and the distance of both, if they are local. -/
structure Filing where
  id : Nat
  id' : Nat
  distance : Option Nat

/-- What is filed for the tree. -/
def Filing.first (p : Filing) : Nat × Option Nat := (p.id, p.distance)

/-- What is filed for the copy. -/
def Filing.second (p : Filing) : Nat × Option Nat := (p.id', p.distance)

/-- Files a distance, if there is one. -/
def fileOne (table : Distances) (entry : Nat × Option Nat) : Distances :=
  match entry.2 with
  | none => table
  | some d => table.insert entry.1 d

def fileEach (table : Distances) (entries : List (Nat × Option Nat)) : Distances :=
  entries.foldl fileOne table

theorem fileEach_of_not_mem {id : Nat} : ∀ {entries : List (Nat × Option Nat)} {table : Distances},
    id ∉ entries.map (·.1) → (fileEach table entries)[id]? = table[id]?
  | [], _, _ => rfl
  | (i, d) :: entries, table, h => by
    rw [List.map_cons, List.mem_cons, not_or] at h
    have hrest : (fileEach (fileOne table (i, d)) entries)[id]? = (fileOne table (i, d))[id]? :=
      fileEach_of_not_mem h.2
    show (fileEach (fileOne table (i, d)) entries)[id]? = table[id]?
    rw [hrest]
    cases d with
    | none => rfl
    | some d =>
      show (table.insert i d)[id]? = table[id]?
      rw [Std.TreeMap.getElem?_insert, if_neg]
      rw [Std.LawfulEqOrd.compare_eq_iff_eq]
      exact fun heq => h.1 heq.symm

/-- What is filed under a number, if no two entries have the same one. -/
theorem getElem?_fileEach {id : Nat} {d : Option Nat} : ∀ {entries : List (Nat × Option Nat)}
    {table : Distances}, (entries.map (·.1)).Nodup → (id, d) ∈ entries → table[id]? = none →
    (fileEach table entries)[id]? = d
  | (i, c) :: entries, table, hnodup, hmem, htable => by
    rw [List.map_cons, List.nodup_cons] at hnodup
    show (fileEach (fileOne table (i, c)) entries)[id]? = d
    rcases List.mem_cons.1 hmem with heq | hmem
    · cases heq
      rw [fileEach_of_not_mem hnodup.1]
      cases d with
      | none => exact htable
      | some d =>
        show (table.insert id d)[id]? = some d
        rw [Std.TreeMap.getElem?_insert_self]
    · have hne : i ≠ id := by
        rintro rfl
        exact hnodup.1 (List.mem_map.2 ⟨(i, d), hmem, rfl⟩)
      refine getElem?_fileEach hnodup.2 hmem ?_
      cases c with
      | none => exact htable
      | some c =>
        show (table.insert i c)[id]? = none
        rw [Std.TreeMap.getElem?_insert, if_neg, htable]
        rw [Std.LawfulEqOrd.compare_eq_iff_eq]
        exact hne

/-- As many entries are added as there are distances. -/
theorem size_fileEach : ∀ {entries : List (Nat × Option Nat)} {table : Distances},
    (entries.map (·.1)).Nodup → (∀ i ∈ entries.map (·.1), table[i]? = none) →
    (fileEach table entries).size = table.size + entries.countP (·.2.isSome)
  | [], _, _, _ => rfl
  | (i, c) :: entries, table, hnodup, htable => by
    rw [List.map_cons, List.nodup_cons] at hnodup
    rw [List.map_cons, List.forall_mem_cons] at htable
    show (fileEach (fileOne table (i, c)) entries).size = _
    cases c with
    | none =>
      rw [List.countP_cons]
      exact size_fileEach hnodup.2 htable.2
    | some c =>
      have hnew : table.contains i = false := by
        rw [Std.TreeMap.contains_eq_isSome_getElem?, htable.1]
        rfl
      have hrest : ∀ j ∈ entries.map (·.1), (table.insert i c)[j]? = none := by
        intro j hj
        rw [Std.TreeMap.getElem?_insert, if_neg, htable.2 j hj]
        rw [Std.LawfulEqOrd.compare_eq_iff_eq]
        rintro rfl
        exact hnodup.1 hj
      have hsize : (table.insert i c).size = table.size + 1 := by
        rw [Std.TreeMap.size_insert, hnew]
        rfl
      have hih : (fileEach (table.insert i c) entries).size = _ := size_fileEach hnodup.2 hrest
      show (fileEach (table.insert i c) entries).size = _
      rw [hih, hsize, List.countP_cons]
      simp only [Option.isSome_some, if_true]
      omega

/-! ## States -/

/-- Two states of the pass that differ in what they filed and in the text of problems only. -/
structure Stands (r r' : Resolution) : Prop where
  scopes : r'.scopes = r.scopes
  routine : r'.routine = r.routine
  enclosing : r'.enclosing = r.enclosing
  found : r'.found = [] ↔ r.found = []

/-- The two passes started from these tables and have filed these distances since, under numbers out
of these lists, each at most as often as it is listed. -/
structure Filed (ps : List Filing) (ids ids' : List Nat) (T T' : Distances)
    (r r' : Resolution) : Prop extends Stands r r' where
  table : r.table = fileEach T (ps.map Filing.first)
  table' : r'.table = fileEach T' (ps.map Filing.second)
  keys : ∀ a, (ps.map (·.id)).count a ≤ ids.count a
  keys' : ∀ a, (ps.map (·.id')).count a ≤ ids'.count a

namespace Filed

variable {ps : List Filing} {ids ids' : List Nat} {T T' : Distances} {r r' r₁ r₁' : Resolution}

theorem start (h : Stands r r') : Filed [] [] [] r.table r'.table r r' :=
  ⟨h, rfl, rfl, by simp, by simp⟩

/-- A step that files nothing. -/
theorem step (h : Filed ps ids ids' T T' r r') (hstands : Stands r₁ r₁')
    (htable : r₁.table = r.table) (htable' : r₁'.table = r'.table) :
    Filed ps ids ids' T T' r₁ r₁' :=
  ⟨hstands, htable.trans h.table, htable'.trans h.table', h.keys, h.keys'⟩

theorem mono {jds jds' : List Nat} (h : Filed ps ids ids' T T' r r')
    (hids : ∀ a, ids.count a ≤ jds.count a) (hids' : ∀ a, ids'.count a ≤ jds'.count a) :
    Filed ps jds jds' T T' r r' :=
  ⟨h.toStands, h.table, h.table', fun a => Nat.le_trans (h.keys a) (hids a),
    fun a => Nat.le_trans (h.keys' a) (hids' a)⟩

theorem note (h : Filed ps ids ids' T T' r r') (t t' : Token) (problem : Problem) :
    Filed ps ids ids' T T' (r.note t problem) (r'.note t' problem) :=
  h.step ⟨h.scopes, h.routine, h.enclosing, by simp [Resolution.note]⟩ rfl rfl

/-- A problem that is found on the same condition. -/
theorem noteIf (h : Filed ps ids ids' T T' r r') (p : Prop) [Decidable p] (t t' : Token)
    (problem : Problem) :
    Filed ps ids ids' T T' (if p then r.note t problem else r)
      (if p then r'.note t' problem else r') := by
  by_cases hp : p
  · rw [if_pos hp, if_pos hp]
    exact h.note t t' problem
  · rw [if_neg hp, if_neg hp]
    exact h

theorem mark (h : Filed ps ids ids' T T' r r') (name : String) (b : Bool) :
    Filed ps ids ids' T T' (r.mark name b) (r'.mark name b) := by
  obtain ⟨hroutine, henclosing, hfound, htable⟩ := r.mark_routine name b
  obtain ⟨hroutine', henclosing', hfound', htable'⟩ := r'.mark_routine name b
  refine h.step ⟨?_, ?_, ?_, ?_⟩ htable htable'
  · rw [Resolution.mark_scopes, Resolution.mark_scopes, h.scopes]
  · rw [hroutine, hroutine', h.routine]
  · rw [henclosing, henclosing', h.enclosing]
  · rw [hfound, hfound', h.found]

theorem declare (h : Filed ps ids ids' T T' r r') {name name' : Token}
    (hname : name'.lexeme = name.lexeme) :
    Filed ps ids ids' T T' (r.declare name) (r'.declare name') := by
  unfold Resolution.declare
  rw [h.scopes, hname]
  cases r.scopes with
  | nil => exact h.mark name.lexeme false
  | cons scope outer =>
    exact (h.noteIf (scope.contains name.lexeme = true) name name' _).mark name.lexeme false

theorem define (h : Filed ps ids ids' T T' r r') {name name' : Token}
    (hname : name'.lexeme = name.lexeme) :
    Filed ps ids ids' T T' (r.define name) (r'.define name') := by
  unfold Resolution.define
  rw [hname]
  exact h.mark name.lexeme true

theorem openScopeWith (h : Filed ps ids ids' T T' r r') (name : String) :
    Filed ps ids ids' T T' (r.openScopeWith name) (r'.openScopeWith name) :=
  h.step ⟨congrArg (_ :: ·) h.scopes, h.routine, h.enclosing, h.found⟩ rfl rfl

theorem openScope (h : Filed ps ids ids' T T' r r') :
    Filed ps ids ids' T T' r.openScope r'.openScope :=
  h.step ⟨congrArg (_ :: ·) h.scopes, h.routine, h.enclosing, h.found⟩ rfl rfl

theorem closeScope (h : Filed ps ids ids' T T' r r') :
    Filed ps ids ids' T T' r.closeScope r'.closeScope :=
  h.step ⟨congrArg List.tail h.scopes, h.routine, h.enclosing, h.found⟩ rfl rfl

theorem inRoutine (h : Filed ps ids ids' T T' r r') (routine : Routine) :
    Filed ps ids ids' T T' { r with routine } { r' with routine } :=
  h.step ⟨h.scopes, rfl, h.enclosing, h.found⟩ rfl rfl

theorem inClass (h : Filed ps ids ids' T T' r r') (enclosing : ClassContext) :
    Filed ps ids ids' T T' { r with enclosing } { r' with enclosing } :=
  h.step ⟨h.scopes, h.routine, rfl, h.found⟩ rfl rfl

/-- A step that files one distance. -/
theorem add (h : Filed ps ids ids' T T' r r') (p : Filing) (hstands : Stands r₁ r₁')
    (htable : r₁.table = fileOne r.table p.first)
    (htable' : r₁'.table = fileOne r'.table p.second) :
    Filed (ps ++ [p]) (ids ++ [p.id]) (ids' ++ [p.id']) T T' r₁ r₁' := by
  refine ⟨hstands, ?_, ?_, fun a => ?_, fun a => ?_⟩
  · rw [htable, h.table]
    simp [fileEach]
  · rw [htable', h.table']
    simp [fileEach]
  · have hle := h.keys a
    simp only [List.map_append, List.count_append, List.map_cons, List.map_nil]
    omega
  · have hle := h.keys' a
    simp only [List.map_append, List.count_append, List.map_cons, List.map_nil]
    omega

theorem refer (h : Filed ps ids ids' T T' r r') (id id' : Nat) {name name' : Token}
    (hname : name'.lexeme = name.lexeme) :
    Filed (ps ++ [⟨id, id', distance? name.lexeme r.scopes⟩]) (ids ++ [id]) (ids' ++ [id']) T T'
      (r.refer id name) (r'.refer id' name') := by
  have hrefer : ∀ (r : Resolution) (i : Nat) (t : Token), r.refer i t =
      { r with table := fileOne r.table (i, distance? t.lexeme r.scopes) } := by
    intro r i t
    unfold Resolution.refer fileOne
    cases distance? t.lexeme r.scopes <;> rfl
  rw [hrefer, hrefer, hname, h.scopes]
  exact h.add _ ⟨rfl, h.routine, h.enclosing, h.found⟩ rfl rfl

theorem read (h : Filed ps ids ids' T T' r r') (id id' : Nat) {name name' : Token}
    (hname : name'.lexeme = name.lexeme) :
    Filed (ps ++ [⟨id, id', distance? name.lexeme r.scopes⟩]) (ids ++ [id]) (ids' ++ [id']) T T'
      (r.read id name) (r'.read id' name') := by
  have hpending : r'.isPending name'.lexeme = r.isPending name.lexeme := by
    unfold Resolution.isPending
    rw [h.scopes, hname]
  have hnoted := h.noteIf (r.isPending name.lexeme = true) name name' .readInOwnInitializer
  have hscopes : (if r.isPending name.lexeme = true then r.note name .readInOwnInitializer
      else r).scopes = r.scopes := by
    split <;> rfl
  have hrefer := hnoted.refer id id' hname
  unfold Resolution.read
  rw [hpending]
  rwa [hscopes] at hrefer

theorem checkSuper (h : Filed ps ids ids' T T' r r') (t t' : Token) :
    Filed ps ids ids' T T' (r.checkSuper t) (r'.checkSuper t') := by
  unfold Resolution.checkSuper
  rw [h.enclosing]
  cases r.enclosing with
  | none => exact h.note t t' _
  | plain => exact h.note t t' _
  | subclass => exact h

theorem checkReturn (h : Filed ps ids ids' T T' r r') (t t' : Token) (hasValue : Bool) :
    Filed ps ids ids' T T' (r.checkReturn t hasValue) (r'.checkReturn t' hasValue) := by
  have hfirst := h.noteIf (r.routine = .none) t t' .returnAtTopLevel
  unfold Resolution.checkReturn
  rw [h.routine]
  generalize (if r.routine = .none then r.note t .returnAtTopLevel else r) = r₁ at hfirst ⊢
  generalize (if r.routine = .none then r'.note t' .returnAtTopLevel else r') = r₁' at hfirst ⊢
  simp only [hfirst.routine]
  exact hfirst.noteIf (hasValue = true ∧ r₁.routine = .initializer) t t' _

theorem parameters (shift : Nat) : ∀ (params : List Token) {r r' : Resolution},
    Filed ps ids ids' T T' r r' →
    Filed ps ids ids' T T' (r.parameters params) (r'.parameters (params.map (Token.moved shift)))
  | [], _, _, h => h
  | name :: params, _, _, h =>
    parameters shift params ((h.declare (name.moved_lexeme shift)).define (name.moved_lexeme shift))

end Filed

/-! ## Trees -/

/-- Numbers that belong together by one of these filings. -/
def Belong (ps : List Filing) (i i' : Nat) : Prop := ∃ p ∈ ps, p.id = i ∧ p.id' = i'

theorem belong_left {ps qs : List Filing} (i i' : Nat) (h : Belong ps i i') :
    Belong (ps ++ qs) i i' := by
  obtain ⟨p, hp, hid⟩ := h
  exact ⟨p, List.mem_append_left qs hp, hid⟩

theorem belong_right {ps qs : List Filing} (i i' : Nat) (h : Belong qs i i') :
    Belong (ps ++ qs) i i' := by
  obtain ⟨p, hp, hid⟩ := h
  exact ⟨p, List.mem_append_right ps hp, hid⟩

theorem belong_self (i i' : Nat) (d : Option Nat) : Belong [⟨i, i', d⟩] i i' :=
  ⟨_, List.mem_singleton_self _, rfl, rfl⟩

section Trees

variable {shift : Nat → Nat} {T T' : Distances}

mutual

theorem CopyExpr.filed : ∀ {e e' : Expr}, CopyExpr (.free shift) e e' → ∀ {ps : List Filing}
    {ids ids' : List Nat} {r r' : Resolution}, Filed ps ids ids' T T' r r' →
    ∃ qs, CopyExpr ⟨Belong qs, shift⟩ e e' ∧
      Filed (ps ++ qs) (ids ++ e.ids) (ids' ++ e'.ids) T T' (r.expr e) (r'.expr e')
  | _, _, .literal, ps, ids, ids', _, _, h => by
    rw [← List.append_nil ps] at h
    refine ⟨[], .literal, h.mono ?_ ?_⟩ <;> intro a <;> simp [List.count_append]
  | _, _, .grouping he, _, _, _, _, _, h => by
    obtain ⟨qs, hcopy, hfiled⟩ := he.filed h
    refine ⟨qs, .grouping hcopy, hfiled.mono ?_ ?_⟩ <;> intro a <;>
      simp only [Expr.ids_grouping, List.count_append, List.count_cons] <;> omega
  | _, _, .unary he, _, _, _, _, _, h => by
    obtain ⟨qs, hcopy, hfiled⟩ := he.filed h
    refine ⟨qs, .unary hcopy, hfiled.mono ?_ ?_⟩ <;> intro a <;>
      simp only [Expr.ids_unary, List.count_append, List.count_cons] <;> omega
  | _, _, .binary ha hb, _, _, _, _, _, h => by
    obtain ⟨qs, hcopy, hfiled⟩ := ha.filed h
    obtain ⟨qs', hcopy', hfiled'⟩ := hb.filed hfiled
    rw [List.append_assoc] at hfiled'
    refine ⟨qs ++ qs', .binary (hcopy.mono belong_left) (hcopy'.mono belong_right),
      hfiled'.mono ?_ ?_⟩ <;> intro a <;>
      simp only [Expr.ids_binary, List.count_append, List.count_cons] <;> omega
  | _, _, .logical ha hb, _, _, _, _, _, h => by
    obtain ⟨qs, hcopy, hfiled⟩ := ha.filed h
    obtain ⟨qs', hcopy', hfiled'⟩ := hb.filed hfiled
    rw [List.append_assoc] at hfiled'
    refine ⟨qs ++ qs', .logical (hcopy.mono belong_left) (hcopy'.mono belong_right),
      hfiled'.mono ?_ ?_⟩ <;> intro a <;>
      simp only [Expr.ids_logical, List.count_append, List.count_cons] <;> omega
  | _, _, @CopyExpr.var _ id id' name _, _, _, _, _, _, h =>
    ⟨_, .var (belong_self ..), h.read id id' (name.moved_lexeme (shift id))⟩
  | _, _, @CopyExpr.assign _ id id' name _ _ _ he, _, _, _, _, _, h => by
    obtain ⟨qs, hcopy, hfiled⟩ := he.filed h
    have hrefer := hfiled.refer id id' (name.moved_lexeme (shift id))
    rw [List.append_assoc] at hrefer
    refine ⟨_, .assign (belong_right _ _ (belong_self ..)) (hcopy.mono belong_left),
      hrefer.mono ?_ ?_⟩ <;> intro a <;>
      simp only [Expr.ids_assign, List.count_append, List.count_cons, List.count_nil] <;> omega
  | _, _, .call hf hargs, _, _, _, _, _, h => by
    obtain ⟨qs, hcopy, hfiled⟩ := hf.filed h
    obtain ⟨qs', hcopy', hfiled'⟩ := hargs.filed hfiled
    rw [List.append_assoc] at hfiled'
    refine ⟨qs ++ qs', .call (hcopy.mono belong_left) (hcopy'.mono belong_right),
      hfiled'.mono ?_ ?_⟩ <;> intro a <;>
      simp only [Expr.ids_call, List.count_append, List.count_cons] <;> omega
  | _, _, .get he, _, _, _, _, _, h => by
    obtain ⟨qs, hcopy, hfiled⟩ := he.filed h
    refine ⟨qs, .get hcopy, hfiled.mono ?_ ?_⟩ <;> intro a <;>
      simp only [Expr.ids_get, List.count_append, List.count_cons] <;> omega
  | _, _, .set hobject hvalue, _, _, _, _, _, h => by
    -- the pass visits the value before the object
    obtain ⟨qs, hcopy, hfiled⟩ := hvalue.filed h
    obtain ⟨qs', hcopy', hfiled'⟩ := hobject.filed hfiled
    rw [List.append_assoc] at hfiled'
    refine ⟨qs ++ qs', .set (hcopy'.mono belong_right) (hcopy.mono belong_left),
      hfiled'.mono ?_ ?_⟩ <;> intro a <;>
      simp only [Expr.ids_set, List.count_append, List.count_cons] <;> omega
  | _, _, @CopyExpr.this _ id id' keyword _, _, _, _, r, r', h => by
    have hrefer := h.refer id id' (keyword.moved_lexeme (shift id))
    have hnote := h.note keyword (keyword.moved (shift id)) .thisOutsideClass
    simp only [Resolution.expr, h.enclosing]
    by_cases hclass : r.enclosing = .none
    · rw [if_pos hclass, if_pos hclass]
      exact ⟨_, .this (belong_self ..), hnote.add ⟨id, id', none⟩ hnote.toStands rfl rfl⟩
    · rw [if_neg hclass, if_neg hclass]
      exact ⟨_, .this (belong_self ..), hrefer⟩
  | _, _, @CopyExpr.super _ id id' keyword _ _, _, _, _, _, _, h => by
    have hrefer := (h.checkSuper keyword (keyword.moved (shift id))).refer id id'
      (keyword.moved_lexeme (shift id))
    exact ⟨_, .super (belong_self ..), hrefer⟩

theorem CopyArgs.filed : ∀ {es es' : List Expr}, CopyArgs (.free shift) es es' →
    ∀ {ps : List Filing} {ids ids' : List Nat} {r r' : Resolution}, Filed ps ids ids' T T' r r' →
    ∃ qs, CopyArgs ⟨Belong qs, shift⟩ es es' ∧
      Filed (ps ++ qs) (ids ++ argIds es) (ids' ++ argIds es') T T' (r.args es) (r'.args es')
  | _, _, .nil, ps, ids, ids', _, _, h => by
    rw [← List.append_nil ps, ← List.append_nil ids, ← List.append_nil ids'] at h
    exact ⟨[], .nil, h⟩
  | _, _, .cons he hes, _, _, _, _, _, h => by
    obtain ⟨qs, hcopy, hfiled⟩ := he.filed h
    obtain ⟨qs', hcopy', hfiled'⟩ := hes.filed hfiled
    rw [List.append_assoc] at hfiled'
    refine ⟨qs ++ qs', .cons (hcopy.mono belong_left) (hcopy'.mono belong_right),
      hfiled'.mono ?_ ?_⟩ <;> intro a <;>
      simp only [argIds_cons, List.count_append] <;> omega

end

theorem CopySuperclass.filed {base base' : Option Superclass}
    (hbase : CopySuperclass (.free shift) base base') {ps : List Filing} {ids ids' : List Nat}
    {r r' : Resolution} (h : Filed ps ids ids' T T' r r') (name : Token) (k : Nat) :
    ∃ qs, CopySuperclass ⟨Belong qs, shift⟩ base base' ∧
      Filed (ps ++ qs) (ids ++ optionIds (fun s => [s.id]) base)
        (ids' ++ optionIds (fun s => [s.id]) base') T T' (r.enterClass name base)
        (r'.enterClass (name.moved k) base') := by
  have hdeclared := ((h.inClass .plain).declare (name.moved_lexeme k)).define (name.moved_lexeme k)
  cases hbase with
  | none =>
    have hthis := hdeclared.openScopeWith "this"
    rw [← List.append_nil ps, ← List.append_nil ids, ← List.append_nil ids'] at hthis
    exact ⟨[], .none, hthis⟩
  | @some id id' super _ =>
    have hself := hdeclared.noteIf (super.lexeme = name.lexeme) super (super.moved (shift id))
      .inheritsFromItself
    have hread := (hself.inClass .subclass).read id id' (super.moved_lexeme (shift id))
    have hthis := (hread.openScopeWith "super").openScopeWith "this"
    exact ⟨_, .some (belong_self ..), hthis⟩

theorem Filed.leaveClass {base base' : Option Superclass} {K : Copying}
    (hbase : CopySuperclass K base base') {ps : List Filing} {ids ids' : List Nat}
    {r r' : Resolution} (h : Filed ps ids ids' T T' r r') (outer : ClassContext) :
    Filed ps ids ids' T T' (r.leaveClass base outer) (r'.leaveClass base' outer) := by
  cases hbase with
  | none => exact h.closeScope.inClass outer
  | some _ => exact h.closeScope.closeScope.inClass outer

mutual

theorem CopyStmt.filed : ∀ {s s' : Stmt}, CopyStmt (.free shift) s s' → ∀ {ps : List Filing}
    {ids ids' : List Nat} {r r' : Resolution}, Filed ps ids ids' T T' r r' →
    ∃ qs, CopyStmt ⟨Belong qs, shift⟩ s s' ∧
      Filed (ps ++ qs) (ids ++ s.ids) (ids' ++ s'.ids) T T' (r.stmt s) (r'.stmt s')
  | _, _, .malformed, ps, ids, ids', _, _, h => by
    rw [← List.append_nil ps, ← List.append_nil ids, ← List.append_nil ids'] at h
    exact ⟨[], .malformed, h⟩
  | _, _, .expression he, _, _, _, _, _, h => by
    obtain ⟨qs, hcopy, hfiled⟩ := he.filed h
    refine ⟨qs, .expression hcopy, hfiled.mono ?_ ?_⟩ <;> intro a <;>
      simp only [Stmt.ids_expression, List.count_append, List.count_cons] <;> omega
  | _, _, .print he, _, _, _, _, _, h => by
    obtain ⟨qs, hcopy, hfiled⟩ := he.filed h
    refine ⟨qs, .print hcopy, hfiled.mono ?_ ?_⟩ <;> intro a <;>
      simp only [Stmt.ids_print, List.count_append, List.count_cons] <;> omega
  | _, _, @CopyStmt.declare _ id _ name, ps, _, _, _, _, h => by
    have hdeclared := (h.declare (name.moved_lexeme (shift id))).define (name.moved_lexeme (shift id))
    rw [← List.append_nil ps] at hdeclared
    refine ⟨[], .declare, hdeclared.mono ?_ ?_⟩ <;> intro a <;> simp [List.count_append]
  | _, _, @CopyStmt.declareValue _ id _ name _ _ he, _, _, _, _, _, h => by
    obtain ⟨qs, hcopy, hfiled⟩ := he.filed (h.declare (name.moved_lexeme (shift id)))
    refine ⟨qs, .declareValue hcopy, (hfiled.define (name.moved_lexeme (shift id))).mono ?_ ?_⟩ <;>
      intro a <;>
      simp only [Stmt.ids_declare, optionIds, List.count_append, List.count_cons] <;> omega
  | _, _, .block hbody, _, _, _, _, _, h => by
    obtain ⟨qs, hcopy, hfiled⟩ := hbody.filed h.openScope
    refine ⟨qs, .block hcopy, hfiled.closeScope.mono ?_ ?_⟩ <;> intro a <;>
      simp only [Stmt.ids_block, List.count_append, List.count_cons] <;> omega
  | _, _, .ifThen hcond hs, _, _, _, _, _, h => by
    obtain ⟨qs, hcopy, hfiled⟩ := hcond.filed h
    obtain ⟨qs', hcopy', hfiled'⟩ := hs.filed hfiled
    rw [List.append_assoc] at hfiled'
    refine ⟨qs ++ qs', .ifThen (hcopy.mono belong_left) (hcopy'.mono belong_right),
      hfiled'.mono ?_ ?_⟩ <;> intro a <;>
      simp only [Stmt.ids_conditional, optionIds, List.count_append, List.count_cons] <;> omega
  | _, _, .ifElse hcond hs ht, _, _, _, _, _, h => by
    obtain ⟨qs, hcopy, hfiled⟩ := hcond.filed h
    obtain ⟨qs', hcopy', hfiled'⟩ := hs.filed hfiled
    obtain ⟨qs'', hcopy'', hfiled''⟩ := ht.filed hfiled'
    rw [List.append_assoc, List.append_assoc] at hfiled''
    refine ⟨qs ++ (qs' ++ qs''), .ifElse (hcopy.mono belong_left)
      (hcopy'.mono fun i i' hb => belong_right i i' (belong_left i i' hb))
      (hcopy''.mono fun i i' hb => belong_right i i' (belong_right i i' hb)),
      hfiled''.mono ?_ ?_⟩ <;> intro a <;>
      simp only [Stmt.ids_conditional, optionIds, List.count_append, List.count_cons] <;> omega
  | _, _, .loop hcond hs, _, _, _, _, _, h => by
    obtain ⟨qs, hcopy, hfiled⟩ := hcond.filed h
    obtain ⟨qs', hcopy', hfiled'⟩ := hs.filed hfiled
    rw [List.append_assoc] at hfiled'
    refine ⟨qs ++ qs', .loop (hcopy.mono belong_left) (hcopy'.mono belong_right),
      hfiled'.mono ?_ ?_⟩ <;> intro a <;>
      simp only [Stmt.ids_loop, List.count_append, List.count_cons] <;> omega
  | _, _, .function hf, _, _, _, _, _, h => by
    have hname := hf.name_lexeme
    obtain ⟨qs, hcopy, hfiled⟩ := hf.filed ((h.declare hname).define hname) .function
    exact ⟨qs, .function hcopy, hfiled⟩
  | _, _, @CopyStmt.ret _ id _ keyword, ps, _, _, _, _, h => by
    have hchecked := h.checkReturn keyword (keyword.moved (shift id)) false
    rw [← List.append_nil ps] at hchecked
    refine ⟨[], .ret, hchecked.mono ?_ ?_⟩ <;> intro a <;> simp [List.count_append]
  | _, _, @CopyStmt.retValue _ id _ keyword _ _ he, _, _, _, _, _, h => by
    obtain ⟨qs, hcopy, hfiled⟩ := he.filed (h.checkReturn keyword (keyword.moved (shift id)) true)
    refine ⟨qs, .retValue hcopy, hfiled.mono ?_ ?_⟩ <;> intro a <;>
      simp only [Stmt.ids_ret, optionIds, List.count_append, List.count_cons] <;> omega
  | _, _, @CopyStmt.classDecl _ id _ name _ _ _ _ hbase hmethods, _, _, _, r, _, h => by
    obtain ⟨qs, hcopy, hfiled⟩ := hbase.filed h name (shift id)
    obtain ⟨qs', hcopy', hfiled'⟩ := hmethods.filed hfiled
    have hleft := hfiled'.leaveClass hbase r.enclosing
    rw [List.append_assoc] at hleft
    refine ⟨qs ++ qs', .classDecl (hcopy.mono belong_left) (hcopy'.mono belong_right), ?_⟩
    simp only [Resolution.stmt, h.enclosing]
    refine hleft.mono ?_ ?_ <;> intro a <;>
      simp only [Stmt.ids_classDecl, List.count_append, List.count_cons] <;> omega

theorem CopyBody.filed : ∀ {ss ss' : List Stmt}, CopyBody (.free shift) ss ss' →
    ∀ {ps : List Filing} {ids ids' : List Nat} {r r' : Resolution}, Filed ps ids ids' T T' r r' →
    ∃ qs, CopyBody ⟨Belong qs, shift⟩ ss ss' ∧
      Filed (ps ++ qs) (ids ++ bodyIds ss) (ids' ++ bodyIds ss') T T' (r.body ss) (r'.body ss')
  | _, _, .nil, ps, ids, ids', _, _, h => by
    rw [← List.append_nil ps, ← List.append_nil ids, ← List.append_nil ids'] at h
    exact ⟨[], .nil, h⟩
  | _, _, .cons hs hss, _, _, _, _, _, h => by
    obtain ⟨qs, hcopy, hfiled⟩ := hs.filed h
    obtain ⟨qs', hcopy', hfiled'⟩ := hss.filed hfiled
    rw [List.append_assoc] at hfiled'
    refine ⟨qs ++ qs', .cons (hcopy.mono belong_left) (hcopy'.mono belong_right),
      hfiled'.mono ?_ ?_⟩ <;> intro a <;>
      simp only [bodyIds_cons, List.count_append] <;> omega

theorem CopyFunction.filed : ∀ {f f' : Function}, CopyFunction (.free shift) f f' →
    ∀ {ps : List Filing} {ids ids' : List Nat} {r r' : Resolution}, Filed ps ids ids' T T' r r' →
    ∀ routine, ∃ qs, CopyFunction ⟨Belong qs, shift⟩ f f' ∧
      Filed (ps ++ qs) (ids ++ functionIds f) (ids' ++ functionIds f') T T' (r.function routine f)
        (r'.function routine f')
  | _, _, @CopyFunction.mk _ id _ _ params _ _ hbody, _, _, _, r, _, h, routine => by
    obtain ⟨qs, hcopy, hfiled⟩ :=
      hbody.filed (((h.inRoutine routine).openScope).parameters (shift id) params)
    have hclosed := hfiled.closeScope.inRoutine r.routine
    refine ⟨qs, .mk hcopy, ?_⟩
    simp only [Resolution.function, h.routine]
    refine hclosed.mono ?_ ?_ <;> intro a <;>
      simp only [functionIds_mk, List.count_append, List.count_cons] <;> omega

theorem CopyMethods.filed : ∀ {fs fs' : List Function}, CopyMethods (.free shift) fs fs' →
    ∀ {ps : List Filing} {ids ids' : List Nat} {r r' : Resolution}, Filed ps ids ids' T T' r r' →
    ∃ qs, CopyMethods ⟨Belong qs, shift⟩ fs fs' ∧
      Filed (ps ++ qs) (ids ++ methodIds fs) (ids' ++ methodIds fs') T T' (r.methods fs)
        (r'.methods fs')
  | _, _, .nil, ps, ids, ids', _, _, h => by
    rw [← List.append_nil ps, ← List.append_nil ids, ← List.append_nil ids'] at h
    exact ⟨[], .nil, h⟩
  | _, _, @CopyMethods.cons _ f f' _ _ hf hfs, _, _, _, _, _, h => by
    have hroutine : Resolution.methodRoutine f'.name = Resolution.methodRoutine f.name := by
      rw [Resolution.methodRoutine, hf.name_lexeme, Resolution.methodRoutine]
    obtain ⟨qs, hcopy, hfiled⟩ := hf.filed h (Resolution.methodRoutine f.name)
    obtain ⟨qs', hcopy', hfiled'⟩ := hfs.filed hfiled
    rw [List.append_assoc] at hfiled'
    refine ⟨qs ++ qs', .cons (hcopy.mono belong_left) (hcopy'.mono belong_right), ?_⟩
    simp only [Resolution.methods, hroutine]
    refine hfiled'.mono ?_ ?_ <;> intro a <;>
      simp only [methodIds_cons, List.count_append] <;> omega

end

end Trees

/-! ## Programs -/

theorem nodup_of_count_le {ids jds : List Nat} (hids : ∀ a, jds.count a ≤ ids.count a)
    (h : ids.Nodup) : jds.Nodup :=
  List.nodup_iff_count.2 fun a => Nat.le_trans (hids a) (List.nodup_iff_count.1 h a)

theorem mem_of_count_le {ids jds : List Nat} (hids : ∀ a, jds.count a ≤ ids.count a) {i : Nat}
    (h : i ∈ jds) : i ∈ ids :=
  List.count_pos_iff.1 (Nat.lt_of_lt_of_le (List.count_pos_iff.2 h) (hids i))

/-- **A program and its copy are resolved alike**, from states with the same scopes, if no number is
used twice: references that belong together are filed under the same distance, or both not at all,
and as many distances are filed for both. -/
theorem body_copies {shift : Nat → Nat} {ss ss' : List Stmt} {r r' : Resolution}
    (h : CopyBody (.free shift) ss ss') (hstands : Stands r r') (hids : (bodyIds ss).Nodup)
    (hids' : (bodyIds ss').Nodup) (hnew : ∀ i ∈ bodyIds ss, r.table[i]? = none)
    (hnew' : ∀ i ∈ bodyIds ss', r'.table[i]? = none) :
    ∃ Id, CopyBody ⟨Id, shift⟩ ss ss' ∧ Stands (r.body ss) (r'.body ss') ∧
      (∀ i i', Id i i' → i ∈ bodyIds ss ∧ i' ∈ bodyIds ss' ∧
        (r'.body ss').table[i']? = (r.body ss).table[i]?) ∧
      (r'.body ss').table.size + r.table.size = (r.body ss).table.size + r'.table.size := by
  obtain ⟨qs, hcopy, hfiled⟩ := h.filed (.start hstands)
  rw [List.nil_append, List.nil_append, List.nil_append] at hfiled
  have hkeys := nodup_of_count_le hfiled.keys hids
  have hkeys' := nodup_of_count_le hfiled.keys' hids'
  have hfirst : ∀ qs : List Filing, (qs.map Filing.first).map (·.1) = qs.map (·.id) :=
    fun qs => List.map_map ..
  have hsecond : ∀ qs : List Filing, (qs.map Filing.second).map (·.1) = qs.map (·.id') :=
    fun qs => List.map_map ..
  rw [← hfirst] at hkeys
  rw [← hsecond] at hkeys'
  refine ⟨Belong qs, hcopy, hfiled.toStands, ?_, ?_⟩
  · rintro i i' ⟨p, hp, rfl, rfl⟩
    have hmem := mem_of_count_le hfiled.keys (List.mem_map.2 ⟨p, hp, rfl⟩)
    have hmem' := mem_of_count_le hfiled.keys' (List.mem_map.2 ⟨p, hp, rfl⟩)
    have hdistance := getElem?_fileEach (d := p.distance) hkeys
      (List.mem_map.2 ⟨p, hp, rfl⟩) (hnew _ hmem)
    have hdistance' := getElem?_fileEach (d := p.distance) hkeys'
      (List.mem_map.2 ⟨p, hp, rfl⟩) (hnew' _ hmem')
    refine ⟨hmem, hmem', ?_⟩
    rw [hfiled.table, hfiled.table', hdistance, hdistance']
  · have hsize := size_fileEach hkeys fun i hi =>
      hnew i (mem_of_count_le hfiled.keys (hfirst qs ▸ hi))
    have hsize' := size_fileEach hkeys' fun i hi =>
      hnew' i (mem_of_count_le hfiled.keys' (hsecond qs ▸ hi))
    have hcount : (qs.map Filing.second).countP (·.2.isSome) =
        (qs.map Filing.first).countP (·.2.isSome) := by
      rw [List.countP_map, List.countP_map]
      rfl
    rw [hfiled.table, hfiled.table', hsize, hsize', hcount]
    omega

end LoxLang
