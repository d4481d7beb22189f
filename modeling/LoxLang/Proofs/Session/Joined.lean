import LoxLang.Proofs.Grammar.Joined
import LoxLang.Proofs.Session.Copies

/-!
# Programs one below the other

A source with another one below it, behind a line feed, has no errors if both have none.  It is
read as a copy of the one followed by a copy of the other, in which tokens stand on later lines, and
every reference gets the distance that it has in its own source.

Principal results: `executeProgram_append`, `read_joined`, `joined_copies`.
-/

namespace LoxLang

/-! ## Two programs as one -/

theorem bareBody_eq_map (ss : List Stmt) : bareBody ss = ss.map Stmt.bare := by
  induction ss with
  | nil => rfl
  | cons s ss ih => exact congrArg (s.bare :: ·) ih

theorem bodyIds_append (ss ss' : List Stmt) : bodyIds (ss ++ ss') = bodyIds ss ++ bodyIds ss' := by
  induction ss with
  | nil => rfl
  | cons s ss ih => rw [List.cons_append, bodyIds_cons, bodyIds_cons, ih, List.append_assoc]

theorem Resolution.body_append (r : Resolution) (ss ss' : List Stmt) :
    r.body (ss ++ ss') = (r.body ss).body ss' := by
  induction ss generalizing r with
  | nil => rfl
  | cons s ss ih => exact ih (r.stmt s)

theorem executeProgram_append (n : Nat) (ss ss' : List Stmt) (m : Machine) :
    executeProgram n (ss ++ ss') m =
      (executeProgram n ss m).bind fun _ m => executeProgram n ss' m := by
  induction ss generalizing m with
  | nil => rfl
  | cons s ss ih =>
    rw [List.cons_append, executeProgram, executeProgram]
    cases execute n s m with
    | done completion m₁ => exact ih m₁
    | raised e m₁ => rfl
    | fault reason m₁ => rfl
    | exhausted => rfl

/-- A pass over a program ends outside of all scopes, as it began. -/
theorem stands_after {ss : List Stmt} (h : (Resolution.ofProgram ss).found = []) :
    Stands {} (Resolution.ofProgram ss) := by
  have hpassed := ({} : Resolution).body_passed ss
  refine ⟨hpassed.scopes.trans (markAll_outermost _), hpassed.routine, hpassed.enclosing, ?_⟩
  exact ⟨fun _ => rfl, fun _ => h⟩

/-! ## A source below another -/

/-- Of a source that is read with numbers from `b` on, and stands below another one, all tokens are
moved. -/
def lineShift (above below : String) (b id : Nat) : Nat :=
  if id ∈ bodyIds (readFrom b below).stmts then feedsAbove above else 0

theorem lineShift_of_mem {above below : String} {b id : Nat}
    (h : id ∈ bodyIds (readFrom b below).stmts) : lineShift above below b id = feedsAbove above :=
  if_pos h

theorem lineShift_of_lt {above below : String} {b id : Nat} (h : id < b) :
    lineShift above below b id = 0 := by
  refine if_neg fun hmem => ?_
  have hle := ((read_numbered (scan below).tokens (scan below).stop b).2.2 id hmem).1
  omega

/-- How two sources, one below the other, are read: as copies of both, with references that belong
together under the same distances. -/
structure JoinedCopies (above below : String) (a b : Nat) (first second : List Stmt)
    (Id₁ Id₂ : Nat → Nat → Prop) : Prop where
  stmts : (readFrom a (above ++ "\n" ++ below)).stmts = first ++ second
  copyAbove : CopyBody ⟨Id₁, lineShift above below b⟩ (readFrom a above).stmts first
  copyBelow : CopyBody ⟨Id₂, lineShift above below b⟩ (readFrom b below).stmts second
  tableAbove : ∀ i i', Id₁ i i' →
    i ∈ bodyIds (readFrom a above).stmts ∧ i' ∈ bodyIds (first ++ second) ∧
      (Resolution.ofProgram (first ++ second)).table[i']? =
        (Resolution.ofProgram (readFrom a above).stmts).table[i]?
  tableBelow : ∀ i i', Id₂ i i' →
    i ∈ bodyIds (readFrom b below).stmts ∧ i' ∈ bodyIds (first ++ second) ∧
      (Resolution.ofProgram (first ++ second)).table[i']? =
        (Resolution.ofProgram (readFrom b below).stmts).table[i]?

/-- **The whole is read as a program that differs from both only in its numbers and lines.** -/
theorem read_joined {above below : String} (habove : Flawless above) (hbelow : Flawless below)
    (a b : Nat) : (scan (above ++ "\n" ++ below)).found = [] ∧
      (readFrom a (above ++ "\n" ++ below)).found = [] ∧
      ∃ first second, (readFrom a (above ++ "\n" ++ below)).stmts = first ++ second ∧
        bareBody first = bareBody (readFrom a above).stmts ∧
        bareBody second = bareBody (movedBody (feedsAbove above) (readFrom b below).stmts) := by
  obtain ⟨hscan, hread, _⟩ := (flawless_iff above a).1 habove
  obtain ⟨hscan', hread', _⟩ := (flawless_iff below b).1 hbelow
  obtain ⟨htokens, hfound⟩ := scan_below hscan below
  rw [hscan, hscan'] at hfound
  have hderives := derives_below (feedsAbove above) (derives_of_read hread) (derives_of_read hread')
  rw [← htokens] at hderives
  obtain ⟨hreadAll, hbare⟩ := read_of_derives hderives (scan (above ++ "\n" ++ below)).stop a
  rw [bareBody_eq_map, bareBody_eq_map, List.map_append] at hbare
  obtain ⟨first, second, hsplit, hfirst, hsecond⟩ := List.map_eq_append_iff.1 hbare
  rw [← bareBody_eq_map, ← bareBody_eq_map] at hfirst hsecond
  exact ⟨hfound, hreadAll, first, second, hsplit, hfirst, hsecond⟩

/-- **A source with another one below it is read as copies of both**, and resolved alike.  The
numbers of the second may begin anywhere behind those of the first. -/
theorem joined_copies {above below : String} (habove : Flawless above) (hbelow : Flawless below)
    {a b : Nat} (hab : (readFrom a above).nextId ≤ b) :
    Flawless (above ++ "\n" ++ below) ∧
      ∃ first second Id₁ Id₂, JoinedCopies above below a b first second Id₁ Id₂ := by
  obtain ⟨hscan, hread, first, second, hsplit, hfirst, hsecond⟩ := read_joined habove hbelow a b
  have hresolved := ((flawless_iff above a).1 habove).2.2
  have hresolved' := ((flawless_iff below b).1 hbelow).2.2
  have hids := (read_numbered (scan above).tokens (scan above).stop a).2
  have hids' := (read_numbered (scan below).tokens (scan below).stop b).2
  have hidsAll : (bodyIds (readFrom a (above ++ "\n" ++ below)).stmts).Nodup :=
    (read_numbered _ _ a).2.1
  rw [hsplit, bodyIds_append] at hidsAll
  obtain ⟨hnodup, hnodup', hdisjoint⟩ := List.nodup_append.1 hidsAll
  have hcopy : CopyBody (.free (lineShift above below b)) (readFrom a above).stmts first := by
    refine .of_bare (k := 0) ?_ fun id hid => lineShift_of_lt ?_
    · rw [movedBody_zero]
      exact hfirst
    · exact Nat.lt_of_lt_of_le (hids.2 id hid).2 hab
  have hcopy' : CopyBody (.free (lineShift above below b)) (readFrom b below).stmts second :=
    .of_bare hsecond fun id hid => lineShift_of_mem hid
  -- the pass over the second program goes on where the one over the first has ended
  obtain ⟨Id₁, hcopy, hfoundFirst, hId₁, _⟩ := program_copies hcopy hids.1 hnodup
  obtain ⟨Id₂, hcopy', hstands, hId₂, _⟩ := body_copies hcopy'
    (stands_after (hfoundFirst.2 hresolved)) hids'.1 hnodup' (fun _ _ => by simp)
    (fun i' hi' => ofProgram_table_of_not_mem fun hi => hdisjoint i' hi i' hi' rfl)
  have hprogram : Resolution.ofProgram (first ++ second) =
      (Resolution.ofProgram first).body second := Resolution.body_append _ first second
  refine ⟨(flawless_iff _ a).2 ⟨hscan, hread, ?_⟩,
    first, second, Id₁, Id₂, hsplit, hcopy, hcopy', ?_, ?_⟩
  · rw [hsplit, hprogram]
    exact hstands.found.2 hresolved'
  · intro i i' hi
    obtain ⟨hmem, hmem', htable⟩ := hId₁ i i' hi
    refine ⟨hmem, bodyIds_append first second ▸ List.mem_append_left _ hmem', ?_⟩
    rw [hprogram,
      Resolution.body_table_of_not_mem _ second fun hi' => hdisjoint i' hmem' i' hi' rfl]
    exact htable
  · intro i i' hi
    obtain ⟨hmem, hmem', htable⟩ := hId₂ i i' hi
    refine ⟨hmem, bodyIds_append first second ▸ List.mem_append_right _ hmem', ?_⟩
    rw [hprogram]
    exact htable

end LoxLang
