import LoxLang.Proofs.Grammar.Allowance
import LoxLang.Proofs.Grammar.Tracing

/-!
# Recovery from syntax errors

Every token list is read to its end, whatever is wrong with it.  Positions count the tokens before
a cursor; the position behind the last token is that of the end of the input.  A declaration that
fails resumes at the first position behind the failure where a statement may start.

Principal results: `Cursor.synchronize_resumes`, `declaration_resumes`,
`reading_recovers_with_progress`.
-/

namespace LoxLang

/-! ## Positions -/

/-- The cursor stands at this position of the tokens. -/
structure Cursor.At (c : Cursor) (tokens : List Token) (stop : Token) (p : Nat) : Prop where
  le : p ≤ tokens.length
  rest : c.rest = tokens.drop p
  stop : c.stop = stop

namespace Cursor.At

variable {c c' : Cursor} {tokens : List Token} {stop : Token} {p q : Nat}

theorem length (h : c.At tokens stop p) : c.rest.length = tokens.length - p := by
  rw [h.rest, List.length_drop]

/-- There is a token at the position of a cursor, the one that is read next. -/
theorem peek (h : c.At tokens stop p) : (tokens ++ [stop])[p]? = some c.peek := by
  have hrest := h.rest
  unfold Cursor.peek
  rcases Nat.lt_or_ge p tokens.length with hlt | hge
  · rw [List.drop_eq_getElem_cons hlt] at hrest
    rw [hrest, List.getElem?_append_left hlt, List.getElem?_eq_getElem hlt]
  · obtain rfl : p = tokens.length := Nat.le_antisymm h.le hge
    rw [List.drop_length] at hrest
    simp [hrest, h.stop]

/-- A cursor that moves on stands at a position of the same tokens, not before the first. -/
theorem onward (h : c.At tokens stop p) (honward : c.Onward c') :
    ∃ q, c'.At tokens stop q ∧ p ≤ q := by
  have hsuffix : c'.rest <:+ tokens := by
    have hrest := honward.rest
    rw [h.rest] at hrest
    exact hrest.trans (List.drop_suffix p tokens)
  have hat : c'.At tokens stop (tokens.length - c'.rest.length) :=
    ⟨Nat.sub_le _ _, List.suffix_iff_eq_drop.1 hsuffix, honward.stop.trans h.stop⟩
  refine ⟨_, hat, ?_⟩
  have hlength := honward.rest.length_le
  have hle := h.le
  rw [h.length] at hlength
  omega

/-- One cursor stands behind another one. -/
theorem before (h : c.At tokens stop p) (h' : c'.At tokens stop q) (hbefore : c.Before c') :
    p < q ∨ p = tokens.length ∧ q = tokens.length := by
  have hp := h.le
  have hq := h'.le
  rcases hbefore with hlt | ⟨hend, hend'⟩
  · rw [h.length, h'.length] at hlt
    exact .inl (by omega)
  · have hlength := h.length
    have hlength' := h'.length
    rw [hend, List.length_nil] at hlength
    rw [hend', List.length_nil] at hlength'
    exact .inr ⟨by omega, by omega⟩

end Cursor.At

/-! ## Where reading goes on -/

/-- The classes of tokens that start a declaration or a statement with a keyword. -/
def statementStarts : List TokenKind :=
  [.kwClass, .kwFun, .kwVar, .kwFor, .kwIf, .kwWhile, .kwPrint, .kwReturn]

theorem Cursor.startsStatement_iff (kind : TokenKind) :
    startsStatement kind = true ↔ kind ∈ statementStarts := by
  cases kind <;> simp [startsStatement, statementStarts]

/-- A statement may start here: a semicolon stands before the position, a token that starts a
statement stands at it, or it is the end of the input. -/
def IsRestart (tokens : List Token) (q : Nat) : Prop :=
  (∃ t, tokens[q - 1]? = some t ∧ t.kind = .semicolon) ∨
    (∃ t, tokens[q]? = some t ∧ t.kind ∈ statementStarts) ∨ q = tokens.length

/-- Reading goes on at `q` after a failure at `p`: at the least position behind it where a statement
may start, or at the end of the input if the failure is there. -/
def Resumes (tokens : List Token) (p q : Nat) : Prop :=
  (p = tokens.length ∧ q = p) ∨
    (p < q ∧ IsRestart tokens q ∧ ∀ k, p < k → k < q → ¬ IsRestart tokens k)

/-- What is left after the token at `p` has been skipped and those behind it. -/
theorem Cursor.skipFrom_resumes {tokens : List Token} : ∀ {p : Nat} {last : Token},
    tokens[p]? = some last → ∀ ts, tokens.drop (p + 1) = ts → ∃ q, q ≤ tokens.length ∧
      skipFrom last ts = tokens.drop q ∧ p < q ∧ IsRestart tokens q ∧
      ∀ k, p < k → k < q → ¬ IsRestart tokens k
  | p, last, hlast, [], hdrop => by
    have hlt : p < tokens.length := (List.getElem?_eq_some_iff.1 hlast).1
    have hend : tokens.length ≤ p + 1 := List.drop_eq_nil_iff.1 hdrop
    refine ⟨p + 1, by omega, hdrop.symm, by omega, .inr (.inr (by omega)), ?_⟩
    intro k hk hk'
    omega
  | p, last, hlast, t :: ts, hdrop => by
    have ht : tokens[p + 1]? = some t := by
      rw [← List.head?_drop, hdrop]
      rfl
    have hlt : p + 1 < tokens.length := (List.getElem?_eq_some_iff.1 ht).1
    have hnext : tokens.drop (p + 1 + 1) = ts := by
      rw [← List.tail_drop, hdrop]
      rfl
    unfold skipFrom
    split
    · rename_i hstops
      refine ⟨p + 1, by omega, hdrop.symm, by omega, ?_, ?_⟩
      · rw [Bool.or_eq_true, decide_eq_true_iff, startsStatement_iff] at hstops
        rcases hstops with hsemicolon | hstarts
        · exact .inl ⟨last, hlast, hsemicolon⟩
        · exact .inr (.inl ⟨t, ht, hstarts⟩)
      · intro k hk hk'
        omega
    · rename_i hgoes
      obtain ⟨q, hq, hskip, hpq, hrestart, hleast⟩ := skipFrom_resumes ht ts hnext
      refine ⟨q, hq, hskip, by omega, hrestart, ?_⟩
      intro k hk hkq
      -- skipping goes on at the position behind `p`, so that none may start there
      rcases Nat.lt_or_ge (p + 1) k with hlater | hhere
      · exact hleast k hlater hkq
      · obtain rfl : k = p + 1 := by omega
        rw [Bool.or_eq_true, not_or, decide_eq_true_iff, startsStatement_iff] at hgoes
        rintro (⟨t', ht', hsemicolon⟩ | ⟨t', ht', hstarts⟩ | hend)
        · obtain rfl : last = t' := Option.some.inj (hlast.symm.trans ht')
          exact hgoes.1 hsemicolon
        · obtain rfl : t = t' := Option.some.inj (ht.symm.trans ht')
          exact hgoes.2 hstarts
        · omega

/-- **Skipping goes to the least position behind a failure where a statement may start.** -/
theorem Cursor.synchronize_resumes {c : Cursor} {tokens : List Token} {stop : Token} {p : Nat}
    (h : c.At tokens stop p) : ∃ q, c.synchronize.At tokens stop q ∧ Resumes tokens p q := by
  unfold synchronize
  cases hrest : c.rest with
  | nil =>
    have hdrop := h.rest
    rw [hrest, eq_comm, List.drop_eq_nil_iff] at hdrop
    exact ⟨p, h, .inl ⟨Nat.le_antisymm h.le hdrop, rfl⟩⟩
  | cons t rest =>
    have hdrop : tokens.drop p = t :: rest := h.rest.symm.trans hrest
    have ht : tokens[p]? = some t := by
      rw [← List.head?_drop, hdrop]
      rfl
    have hnext : tokens.drop (p + 1) = rest := by
      rw [← List.tail_drop, hdrop]
      rfl
    obtain ⟨q, hq, hskip, hresumes⟩ := skipFrom_resumes ht rest hnext
    exact ⟨q, ⟨hq, hskip, h.stop⟩, .inr hresumes⟩

/-! ## Programs -/

/-- **A declaration that starts before the end of the input moves the cursor on**, and if its rule
fails, it goes on where the next statement may start. -/
theorem declaration_resumes {tokens : List Token} {stop : Token} {n p : Nat} {c : Cursor}
    (hends : declaration n c ≠ .exhausted) (hc : c.At tokens stop p) (hp : p < tokens.length) :
    ∃ s c' q, declaration n c = .ok s c' ∧ c'.At tokens stop q ∧ p < q ∧
      ∀ c₁, declarationRule (n - 1) c = .failed c₁ →
        s = .malformed ∧ ∃ e, c₁.At tokens stop e ∧ p ≤ e ∧ Resumes tokens e q := by
  cases n with
  | zero => exact absurd rfl hends
  | succ n =>
    have hlength := hc.length
    have htraced := declaration_traced (n + 1) c (Nat.le_refl 1) (by omega)
    have hrule : ∀ c₁, (declarationRule n c).cursor? = some c₁ → c.Onward c₁ :=
      fun c₁ h => ((declarationRule_traced n c).opens h).1
    rw [Nat.add_sub_cancel]
    simp only [declaration] at hends htraced ⊢
    cases heq : declarationRule n c with
    | ok s c' =>
      rw [heq] at htraced
      obtain ⟨q, hq, _⟩ := hc.onward (Traces.onward htraced)
      refine ⟨s, c', q, rfl, hq, ?_, fun c₁ hfailed => by cases hfailed⟩
      have hread := Traces.length htraced
      rw [hc.length, hq.length] at hread
      omega
    | failed c₁ =>
      rw [heq] at htraced hrule
      obtain ⟨e, he, hpe⟩ := hc.onward (hrule c₁ rfl)
      obtain ⟨q, hq, hresumes⟩ := Cursor.synchronize_resumes he
      refine ⟨.malformed, c₁.synchronize, q, rfl, hq, ?_, ?_⟩
      · have hread := Traces.length htraced
        rw [hc.length, hq.length] at hread
        omega
      · intro c₂ hfailed
        cases hfailed
        exact ⟨rfl, e, he, hpe, hresumes⟩
    | exhausted =>
      rw [heq] at hends
      exact absurd rfl hends

/-- No failure gets past a declaration, and so a program is read to its end. -/
theorem programItems_atEnd (n : Nat) (c : Cursor) :
    programItems n c = .exhausted ∨ ∃ stmts c', programItems n c = .ok stmts c' ∧ c'.rest = [] := by
  induction n generalizing c with
  | zero => exact .inl rfl
  | succ n ih =>
    rw [programItems]
    split
    · rename_i hend
      exact .inr ⟨[], c, rfl, List.isEmpty_iff.1 hend⟩
    · cases hdecl : declaration (declarationAllowance c.rest.length) c with
      | ok s c₁ =>
        rcases ih c₁ with hitems | ⟨ss, c₂, hitems, hend⟩
        · simp [hitems]
        · refine .inr ⟨s :: ss, c₂, ?_, hend⟩
          simp [hitems]
      | failed c₁ =>
        exfalso
        unfold declarationAllowance at hdecl
        rw [show 10 * (c.rest.length + 1) = 10 * c.rest.length + 9 + 1 from by omega,
          declaration] at hdecl
        split at hdecl <;> cases hdecl
      | exhausted => exact .inl rfl

/-- **Every token list is read to its end, with progress after each syntax error.**  The reading of
a program ends at the end of the input.  Every call of a rule on the way comes to an end, starts and
ends at a position of the tokens, and does not go back.  A declaration that starts before the end of
the input and comes to an end moves the cursor on; if its rule fails at a position `e`, it resumes
at the least position behind `e` where a statement may start.  So the positions at which rules fail
are increasing, except that failures at the end may repeat; they are those of the problems on record. -/
theorem reading_recovers_with_progress (tokens : List Token) (stop : Token) (firstId : Nat) :
    let start : RuleCall := ⟨.program (tokens.length + 1), ⟨tokens, stop, firstId, []⟩⟩
    (∃ stmts c, programItems (tokens.length + 1) ⟨tokens, stop, firstId, []⟩ = .ok stmts c ∧
      c.At tokens stop tokens.length ∧
      Program.read tokens stop firstId = ⟨stmts, c.found, c.nextId⟩) ∧
    (∀ call, start.Reaches call → ∃ p q c', call.cursor.At tokens stop p ∧
      call.after? = some c' ∧ c'.At tokens stop q ∧ p ≤ q ∧
      (tokens ++ [stop])[p]? = some call.cursor.peek ∧ (tokens ++ [stop])[q]? = some c'.peek) ∧
    (∀ n c p, declaration n c ≠ .exhausted → c.At tokens stop p → p < tokens.length →
      ∃ s c' q, declaration n c = .ok s c' ∧ c'.At tokens stop q ∧ p < q ∧
        ∀ c₁, declarationRule (n - 1) c = .failed c₁ →
          s = .malformed ∧ ∃ e, c₁.At tokens stop e ∧ p ≤ e ∧ Resumes tokens e q) ∧
    ∃ fs, (∀ gs, RuleCall.Raises [start] gs ↔ gs = fs) ∧
      failureSpots (Program.read tokens stop firstId).found = fs.map Cursor.spot ∧
      (∀ f ∈ fs, ∃ e, f.At tokens stop e) ∧
      fs.Pairwise fun f g => ∀ e e', f.At tokens stop e → g.At tokens stop e' →
        e < e' ∨ e = tokens.length ∧ e' = tokens.length := by
  intro start
  have hstart : start.cursor.At tokens stop 0 := ⟨Nat.zero_le _, rfl, rfl⟩
  have hlasts := programItems_lasts (tokens.length + 1) start.cursor (Nat.le_refl _)
  have htraced : (programItems (tokens.length + 1) start.cursor).Traced start.cursor 0 [start] :=
    (programItems_traced (tokens.length + 1) start.cursor).call rfl rfl rfl
  rcases programItems_atEnd (tokens.length + 1) start.cursor with hitems | ⟨stmts, c, hitems, hend⟩
  · exact absurd hitems hlasts.ne_exhausted
  · have hread : Program.read tokens stop firstId = ⟨stmts, c.found, c.nextId⟩ := by
      unfold Program.read
      rw [show programItems (tokens.length + 1) ⟨tokens, stop, firstId, []⟩ = _ from hitems]
    have hends : start.after?.isSome := by
      show (programItems _ _).cursor?.isSome
      rw [hitems]
      rfl
    rw [hitems] at htraced
    refine ⟨⟨stmts, c, hitems, ?_, hread⟩, ?_, ?_, ?_⟩
    · exact ⟨Nat.le_refl _, by rw [hend, List.drop_length], (Traces.onward htraced).stop⟩
    · intro call hcall
      obtain ⟨honward, hafter⟩ := hcall.onward hends
      obtain ⟨c', hc'⟩ := Option.isSome_iff_exists.1 hafter
      obtain ⟨p, hp, _⟩ := hstart.onward honward
      obtain ⟨q, hq, hpq⟩ := hp.onward (call.opens hc').1
      exact ⟨p, q, c', hp, hc', hq, hpq, hp.peek, hq.peek⟩
    · intro n c₁ p hended hp hlt
      exact declaration_resumes hended hp hlt
    · obtain ⟨fs, hraises, hspots, horder, hplaces⟩ := Traces.failures htraced
      refine ⟨fs, fun gs => ⟨fun h => h.unique hraises, fun h => h ▸ hraises⟩, ?_, ?_, ?_⟩
      · rw [hread]
        exact hspots
      · intro f hf
        obtain ⟨e, he, _⟩ := hstart.onward (hplaces f hf).1
        exact ⟨e, he⟩
      · exact horder.imp fun hbefore e e' he he' => he.before he' hbefore

end LoxLang
