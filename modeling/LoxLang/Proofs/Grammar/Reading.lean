import LoxLang.Proofs.Grammar.Rules

/-!
# What a reply says

* `Reads` — the tokens and the problems between two cursors.
* `Reply.Ensures` — what holds of the value if there is one; `Reply.Yields` — the same, and the
  rule does not fail.
* `Covers` — a value read between two cursors is what a rule of the grammar says.
-/

namespace LoxLang

/-- Between the cursors lie these tokens, and these problems were noted on the way. -/
structure Reads (c c' : Cursor) (ts : List Token) (ds : List Diagnostic) : Prop where
  rest : c.rest = ts ++ c'.rest
  found : c'.found = c.found ++ ds

namespace Reads

variable {c c₁ c₂ : Cursor} {ts us : List Token} {ds es : List Diagnostic}

theorem refl (c : Cursor) : Reads c c [] [] := ⟨rfl, by simp⟩

theorem trans (h : Reads c c₁ ts ds) (h' : Reads c₁ c₂ us es) :
    Reads c c₂ (ts ++ us) (ds ++ es) :=
  ⟨by rw [h.rest, h'.rest, List.append_assoc], by rw [h'.found, h.found, List.append_assoc]⟩

/-- One token is read. -/
theorem step {t : Token} {rest : List Token} (h : c.rest = t :: rest) :
    Reads c { c with rest } [t] [] :=
  ⟨by rw [h]; rfl, by simp⟩

/-- A number for a node is taken. -/
theorem node (c : Cursor) : Reads c { c with nextId := c.nextId + 1 } [] [] := ⟨rfl, by simp⟩

/-- A problem may be noted at the next token. -/
theorem noteIf (c : Cursor) (p : Prop) [Decidable p] (problem : Problem) :
    Reads c (if p then c.note problem else c) [] (if p then [.ofToken c.peek problem] else []) := by
  split
  · exact ⟨rfl, rfl⟩
  · exact .refl c

theorem noteAt (c : Cursor) (t : Token) (problem : Problem) :
    Reads c (c.noteAt t problem) [] [.ofToken t problem] := ⟨rfl, rfl⟩

end Reads

namespace Cursor

variable {c c' : Cursor} {t : Token} {kind : TokenKind}

/-- A problem on record says that something was expected. -/
def Broken (c : Cursor) : Prop := ∃ d ∈ c.found, ∃ what, d.problem = .expected what

theorem accept?_eq_some (h : c.accept? kind = some (t, c')) :
    t.kind = kind ∧ Reads c c' [t] [] := by
  unfold accept? at h
  split at h
  · cases h
  · rename_i t' rest hr
    split at h
    · rename_i hk
      cases h
      exact ⟨hk, .step hr⟩
    · cases h

theorem accept?_cons {rest : List Token} (hr : c.rest = t :: rest) (hk : t.kind = kind) :
    c.accept? kind = some (t, { c with rest }) := by
  unfold accept?
  rw [hr]
  simp [hk]

theorem accept?_eq_none_iff : c.accept? kind = none ↔ ∀ t ∈ c.rest.head?, t.kind ≠ kind := by
  unfold accept?
  cases c.rest <;> simp

theorem accept?_ne {rest : List Token} (kind : TokenKind) (hr : c.rest = t :: rest)
    (hk : t.kind ≠ kind) :
    c.accept? kind = none := by
  unfold accept?
  rw [hr]
  simp [hk]

theorem check_cons {rest : List Token} (hr : c.rest = t :: rest) (hk : t.kind = kind) :
    c.check kind = true := by
  simp [check, hr, hk]

theorem check_ne {rest : List Token} (hr : c.rest = t :: rest) (hk : t.kind ≠ kind) :
    ¬ c.check kind = true := by
  simp [check, hr, hk]

/-- The cursor does not stand at the end of a block. -/
theorem not_closed {rest : List Token} (hr : c.rest = t :: rest) (hk : t.kind ≠ .rightBrace) :
    ¬ (c.check .rightBrace || c.atEnd) = true := by
  simp [check, atEnd, hr, hk]

end Cursor

namespace Reply

variable {α β : Type} {r : Reply α} {P : α → Cursor → Prop} {Q : β → Cursor → Prop}
  {f : α → Cursor → Reply β}

/-- What holds of the value and the cursor after it, if there is a value.  A failure is on record. -/
def Ensures (r : Reply α) (P : α → Cursor → Prop) : Prop :=
  match r with
  | ok v c => P v c
  | failed c => c.Broken
  | exhausted => True

theorem Ensures.mono {P' : α → Cursor → Prop} (h : r.Ensures P) (hp : ∀ v c, P v c → P' v c) :
    r.Ensures P' := by
  cases r with
  | ok v c => exact hp v c h
  | failed c => exact h
  | exhausted => trivial

theorem Ensures.bind (h : r.Ensures P) (hf : ∀ v c, P v c → (f v c).Ensures Q) :
    (r.bind f).Ensures Q := by
  cases r with
  | ok v c => exact hf v c h
  | failed c => exact h
  | exhausted => trivial

/-- The rule gives a value of which this holds, unless its allowance is used up. -/
def Yields (r : Reply α) (P : α → Cursor → Prop) : Prop :=
  r = .exhausted ∨ ∃ v c, r = .ok v c ∧ P v c

theorem Yields.ok {v : α} {c : Cursor} (h : P v c) : (Reply.ok v c).Yields P :=
  .inr ⟨v, c, rfl, h⟩

theorem Yields.exhausted : (Reply.exhausted : Reply α).Yields P := .inl rfl

theorem Yields.mono {P' : α → Cursor → Prop} (h : r.Yields P) (hp : ∀ v c, P v c → P' v c) :
    r.Yields P' := by
  obtain rfl | ⟨v, c, rfl, hv⟩ := h
  · exact .inl rfl
  · exact .inr ⟨v, c, rfl, hp v c hv⟩

theorem Yields.bind (h : r.Yields P) (hf : ∀ v c, P v c → (f v c).Yields Q) :
    (r.bind f).Yields Q := by
  obtain rfl | ⟨v, c, rfl, hp⟩ := h
  · exact .inl rfl
  · exact hf v c hp

theorem Yields.ensures (h : r.Yields P) : r.Ensures P := by
  obtain rfl | ⟨v, c, rfl, hv⟩ := h
  · trivial
  · exact hv

end Reply

namespace Cursor

theorem missing_ensures {α : Type} {P : α → Cursor → Prop} (c : Cursor) (what : Expected) :
    (c.missing what : Reply α).Ensures P :=
  ⟨.ofToken c.peek (.expected what), by simp [note], what, rfl⟩

theorem expect_ensures (c : Cursor) (kind : TokenKind) (what : Expected) :
    (c.expect kind what).Ensures fun t c' => t.kind = kind ∧ Reads c c' [t] [] := by
  unfold expect
  cases h : c.accept? kind with
  | none => exact c.missing_ensures what
  | some p => exact accept?_eq_some h

theorem expect_cons {c : Cursor} {t : Token} {rest : List Token} {kind : TokenKind}
    (what : Expected) (hr : c.rest = t :: rest) (hk : t.kind = kind) :
    c.expect kind what = .ok t { c with rest } := by
  unfold expect
  rw [accept?_cons hr hk]

end Cursor

/-- A failure stays on record between the cursors, and something holds if none is. -/
def Unless (c c' : Cursor) (p : Prop) : Prop := (c.Broken → c'.Broken) ∧ (¬ c'.Broken → p)

namespace Unless

variable {c c₁ c₂ : Cursor} {p q r : Prop}

theorem of_broken (h : c₁.Broken) : Unless c c₁ p := ⟨fun _ => h, fun hn => absurd h hn⟩

theorem of_reads {ts : List Token} {ds : List Diagnostic} (h : Reads c c₁ ts ds) (hp : p) :
    Unless c c₁ p := by
  refine ⟨fun ⟨d, hd, hb⟩ => ⟨d, ?_, hb⟩, fun _ => hp⟩
  rw [h.found]
  exact List.mem_append_left _ hd

theorem trans (h : Unless c c₁ p) (h' : Unless c₁ c₂ q) (hr : p → q → r) : Unless c c₂ r :=
  ⟨fun hb => h'.1 (h.1 hb), fun hb => hr (h.2 fun hb₁ => hb (h'.1 hb₁)) (h'.2 hb)⟩

theorem mono (h : Unless c c₁ p) (hq : p → q) : Unless c c₁ q := ⟨h.1, fun hb => hq (h.2 hb)⟩

end Unless

/-- A rule of the grammar covers what was read between two cursors. -/
def Covers {α : Type} (R : List Token → α → List Diagnostic → Prop) (c : Cursor) (v : α)
    (c' : Cursor) : Prop :=
  ∃ ts ds, Reads c c' ts ds ∧ R ts v ds

theorem Covers.mono {α : Type} {R R' : List Token → α → List Diagnostic → Prop} {c c' : Cursor}
    {v : α} (h : Covers R c v c') (hr : ∀ ts ds, R ts v ds → R' ts v ds) : Covers R' c v c' := by
  obtain ⟨ts, ds, hread, hv⟩ := h
  exact ⟨ts, ds, hread, hr ts ds hv⟩

end LoxLang
