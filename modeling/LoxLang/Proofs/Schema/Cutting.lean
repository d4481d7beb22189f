import Mathlib.Data.List.TakeWhile
import LoxLang.Proofs.Schema.Derivation
import LoxLang.Proofs.Token.Longest

/-!
# Schema texts cut into symbols

How a text splits into symbols with blanks and comments between them, said without the function that
does it.  A name is as long as it can be, and a comment reaches to the end of its line.

* `Cut` — the beginning of a text is made up of symbols and of what sets them apart.
* `StartsNothing` — a character that can stand nowhere between symbols.
* `Position.behind` — the place that follows a text.

Principal results: `Cut.lexemes`, `exists_cut`, `Cut.split`.
-/

namespace LoxLang.Schema

/-- The characters that only set symbols apart. -/
def layoutCharacters : List Char := [' ', '\t', '\x0c', '\r', '\n']

/-- What follows does not continue a name. -/
def EndsName (after : List Char) : Prop := ∀ c, after.head? = some c → ¬ NameRest c

/-- What follows is another line, or nothing. -/
def EndsLine (after : List Char) : Prop := ∀ c, after.head? = some c → c = '\n'

/-- A text in front of another one is made up of symbols, with blanks and comments between them. -/
inductive Cut : List Char → List Symbol → List Char → Prop where
  | done {after : List Char} : Cut [] [] after
  | blank {c : Char} {before after : List Char} {ts : List Symbol} :
      c ∈ layoutCharacters → Cut before ts after → Cut (c :: before) ts after
  | comment {w before after : List Char} {ts : List Symbol} :
      '\n' ∉ w → EndsLine (before ++ after) → Cut before ts after →
      Cut ('#' :: (w ++ before)) ts after
  | symbol {kind : LexemeKind} {w before after : List Char} {ts : List Symbol} :
      Spelled kind w → (kind = .name → EndsName (before ++ after)) → Cut before ts after →
      Cut (w ++ before) (⟨kind, String.ofList w⟩ :: ts) after

/-- A character that is no blank and starts neither a comment nor a symbol. -/
def StartsNothing (c : Char) : Prop :=
  c ∉ layoutCharacters ∧ c ≠ '#' ∧ ∀ kind w, Spelled kind w → w.head? ≠ some c

/-- The place that follows a text: lines end at line feeds, and both counts start from one. -/
def Position.behind (before : List Char) : Position :=
  ⟨1 + before.count '\n', 1 + (before.reverse.takeWhile (· != '\n')).length⟩

/-! ## Places -/

namespace Position

theorem behind_concat (before : List Char) (c : Char) :
    behind (before ++ [c]) = (behind before).after c := by
  by_cases hc : c = '\n'
  · subst hc
    simp [behind, after, Nat.add_assoc]
  · simp [behind, after, hc, Nat.add_assoc]

theorem behind_append (before w : List Char) (hw : '\n' ∉ w) :
    behind (before ++ w) = (behind before).along w.length := by
  induction w generalizing before with
  | nil => simp [along]
  | cons c w ih =>
    obtain ⟨hc, hw⟩ := List.ne_and_not_mem_of_not_mem_cons hw
    have happend : before ++ c :: w = (before ++ [c]) ++ w := by simp
    rw [happend, ih _ hw, behind_concat, after, if_neg (Ne.symm hc)]
    simp only [along, List.length_cons]
    congr 1
    omega

end Position

/-! ## Classes of characters -/

theorem isLayout_iff (c : Char) : isLayout c = true ↔ c ∈ layoutCharacters := by
  simp [isLayout, layoutCharacters, or_assoc]

theorem isNameStart_iff (c : Char) : isNameStart c = true ↔ NameStart c := by
  have halpha : c.isAlpha =
      (decide (c.val ≥ 'A'.val ∧ c.val ≤ 'Z'.val) || c.val ≥ 'a'.val && c.val ≤ 'z'.val) := rfl
  simp only [isNameStart, NameStart, halpha, Bool.or_eq_true, Bool.and_eq_true, decide_eq_true_eq,
    beq_iff_eq, Char.le_def, ge_iff_le]
  tauto

theorem isNameRest_iff (c : Char) : isNameRest c = true ↔ NameRest c := by
  have hstart := isNameStart_iff c
  simp only [isNameRest, NameRest, NameStart, Char.isAlphanum, Char.isDigit, Bool.or_eq_true,
    Bool.and_eq_true, decide_eq_true_eq, Char.le_def, ge_iff_le] at hstart ⊢
  rw [hstart]
  tauto

theorem NameStart.rest {c : Char} (h : NameStart c) : NameRest c := by
  rw [← isNameRest_iff, isNameRest, (isNameStart_iff c).2 h, Bool.true_or]

/-- The signs are the symbols of one character that are no names. -/
theorem punctuation?_eq_some_iff (c : Char) (kind : LexemeKind) :
    punctuation? c = some kind ↔ Spelled kind [c] ∧ kind ≠ .name := by
  constructor
  · intro h
    unfold punctuation? at h
    split at h <;> cases h
    · exact ⟨.leftBrace, by decide⟩
    · exact ⟨.rightBrace, by decide⟩
    · exact ⟨.colon, by decide⟩
    · exact ⟨.comma, by decide⟩
    · exact ⟨.optional, by decide⟩
    · exact ⟨.many, by decide⟩
  · rintro ⟨h, hname⟩
    cases h with
    | name => exact absurd rfl hname
    | _ => rfl

/-- The first character of a symbol tells whether it is a name. -/
theorem Spelled.cases_head {kind : LexemeKind} {w : List Char} (h : Spelled kind w) :
    (∃ c cs, w = c :: cs ∧ kind = .name ∧ NameStart c ∧ ∀ d ∈ cs, NameRest d) ∨
      ∃ c, w = [c] ∧ punctuation? c = some kind := by
  cases h with
  | name hc hcs => exact .inl ⟨_, _, rfl, rfl, hc, hcs⟩
  | _ => exact .inr ⟨_, rfl, rfl⟩

/-- The signs are neither blanks nor parts of names, and start no comment. -/
theorem punctuation?_class {c : Char} {kind : LexemeKind} (h : punctuation? c = some kind) :
    isLayout c = false ∧ c ≠ '#' ∧ c ≠ '\n' ∧ isNameStart c = false ∧ isNameRest c = false := by
  unfold punctuation? at h
  split at h <;> cases h <;> decide

theorem NameRest.class {c : Char} (h : NameRest c) :
    isLayout c = false ∧ c ≠ '#' ∧ c ≠ '\n' := by
  have hrest := (isNameRest_iff c).2 h
  refine ⟨?_, ?_, ?_⟩
  · rw [← Bool.not_eq_true, isLayout_iff]
    intro hmem
    simp only [layoutCharacters, List.mem_cons, List.not_mem_nil, or_false] at hmem
    obtain rfl | rfl | rfl | rfl | rfl := hmem <;> exact absurd hrest (by decide)
  · rintro rfl
    exact absurd hrest (by decide)
  · rintro rfl
    exact absurd hrest (by decide)

theorem Spelled.not_mem {kind : LexemeKind} {w : List Char} (h : Spelled kind w) : '\n' ∉ w := by
  obtain ⟨c, cs, rfl, _, hc, hcs⟩ | ⟨c, rfl, hc⟩ := h.cases_head
  · rw [List.mem_cons, not_or]
    exact ⟨hc.rest.class.2.2.symm, fun hmem => (hcs _ hmem).class.2.2 rfl⟩
  · rw [List.mem_singleton]
    exact (punctuation?_class hc).2.2.1.symm

/-! ## Single steps -/

section Steps

variable {c : Char} {w rest : List Char} {kind : LexemeKind} (p : Position)

theorem lexemesFrom_blank (hc : c ∈ layoutCharacters) :
    lexemesFrom p (c :: rest) = lexemesFrom (p.after c) rest := by
  rw [lexemesFrom, if_pos ((isLayout_iff c).2 hc)]

theorem lexemesFrom_comment (hw : '\n' ∉ w) (hrest : EndsLine rest) :
    lexemesFrom p ('#' :: (w ++ rest)) = lexemesFrom (p.along (w.length + 1)) rest := by
  have hline : ∀ d ∈ w, (d != '\n') = true := fun d hd => bne_iff_ne.2 fun heq => hw (heq ▸ hd)
  have hrun := takeWhile_run (p := (· != '\n')) hline rest
    (fun d hd => by rw [hrest d hd]; rfl)
  rw [lexemesFrom, if_neg (by decide), if_pos rfl]
  simp only [hrun.1, hrun.2]

theorem lexemesFrom_symbol (h : Spelled kind w) (hrest : kind = .name → EndsName rest) :
    lexemesFrom p (w ++ rest) =
      .token kind (String.ofList w) p :: lexemesFrom (p.along w.length) rest := by
  obtain ⟨c, cs, rfl, rfl, hc, hcs⟩ | ⟨c, rfl, hc⟩ := h.cases_head
  · have hname : ∀ d ∈ cs, isNameRest d = true := fun d hd => (isNameRest_iff d).2 (hcs d hd)
    have hrun := takeWhile_run hname rest
      (fun d hd => by rw [← Bool.not_eq_true, isNameRest_iff]; exact hrest rfl d hd)
    have hclass := hc.rest.class
    rw [List.cons_append, lexemesFrom, if_neg (by rw [hclass.1]; decide), if_neg hclass.2.1,
      if_pos ((isNameStart_iff c).2 hc)]
    simp only [hrun.1, hrun.2]
  · have hclass := punctuation?_class hc
    rw [List.singleton_append, lexemesFrom, if_neg (by rw [hclass.1]; decide), if_neg hclass.2.1,
      if_neg (by rw [hclass.2.2.2.1]; decide), hc]
    rfl

theorem lexemesFrom_stray (hc : StartsNothing c) : lexemesFrom p (c :: rest) = [.stray c p] := by
  obtain ⟨hlayout, hcomment, hsymbol⟩ := hc
  have hname : ¬ isNameStart c = true := by
    rw [isNameStart_iff]
    exact fun h => hsymbol .name [c] (.name h (by simp)) rfl
  have hnone : punctuation? c = none := by
    cases hsign : punctuation? c with
    | none => rfl
    | some kind => exact absurd rfl (hsymbol kind [c] ((punctuation?_eq_some_iff c kind).1 hsign).1)
  rw [lexemesFrom, if_neg (by rwa [isLayout_iff]), if_neg hcomment, if_neg hname, hnone]

end Steps

/-! ## Cuts -/

/-- Lexemes that are these symbols, at any places. -/
def Placed (ts : List Symbol) (ls : List Lexeme) : Prop :=
  List.Forall₂ (fun t l => ∃ p, l = .token t.kind t.text p) ts ls

namespace Cut

variable {before after : List Char} {ts : List Symbol}

theorem genuine (h : Cut before ts after) : ∀ t ∈ ts, t.Genuine := by
  induction h with
  | done => simp
  | blank _ _ ih | comment _ _ _ ih => exact ih
  | @symbol kind w _ _ _ hw _ _ ih =>
    refine List.forall_mem_cons.2 ⟨?_, ih⟩
    show Spelled kind (String.ofList w).toList
    rw [String.toList_ofList]
    exact hw

/-- **The lexemes of a text that is cut are the symbols of the cut.** -/
theorem lexemes (h : Cut before ts after) (passed : List Char) : ∃ ls, Placed ts ls ∧
    lexemesFrom (.behind passed) (before ++ after) =
      ls ++ lexemesFrom (.behind (passed ++ before)) after := by
  induction h generalizing passed with
  | done => exact ⟨[], .nil, by simp⟩
  | @blank c before after ts hc _ ih =>
    obtain ⟨ls, hls, heq⟩ := ih (passed ++ [c])
    refine ⟨ls, hls, ?_⟩
    rw [List.cons_append, lexemesFrom_blank _ hc, ← Position.behind_concat, heq]
    simp
  | @comment w before after ts hw hline _ ih =>
    obtain ⟨ls, hls, heq⟩ := ih (passed ++ '#' :: w)
    refine ⟨ls, hls, ?_⟩
    have hplace : Position.behind (passed ++ '#' :: w) =
        (Position.behind passed).along (w.length + 1) :=
      Position.behind_append passed ('#' :: w) (by simp [hw])
    rw [List.cons_append, List.append_assoc, lexemesFrom_comment _ hw hline, ← hplace, heq]
    simp
  | @symbol kind w before after ts hw hname _ ih =>
    obtain ⟨ls, hls, heq⟩ := ih (passed ++ w)
    refine ⟨.token kind (String.ofList w) (.behind passed) :: ls, .cons ⟨_, rfl⟩ hls, ?_⟩
    rw [List.append_assoc, lexemesFrom_symbol _ hw hname,
      ← Position.behind_append passed w hw.not_mem, heq]
    simp

/-- A text is cut up to its end in one way only. -/
theorem unique {us : List Symbol} (h : Cut before ts []) (h' : Cut before us []) : ts = us := by
  obtain ⟨ls, hls, heq⟩ := h.lexemes []
  obtain ⟨ls', hls', heq'⟩ := h'.lexemes []
  obtain rfl : ls = ls' := List.append_cancel_right (heq.symm.trans heq')
  clear heq heq' h h'
  induction hls generalizing us with
  | nil =>
    cases hls'
    rfl
  | @cons t l ts ls hl _ ih =>
    obtain ⟨p, rfl⟩ := hl
    cases hls' with
    | @cons u _ us _ hu hls' =>
      obtain ⟨p', heq⟩ := hu
      obtain ⟨hkind, htext, -⟩ := Lexeme.token.inj heq
      rw [ih hls', Symbol.ext_toList hkind (congrArg String.toList htext)]

/-- A cut can be taken apart at any of its symbols. -/
theorem split {ts₁ ts₂ : List Symbol} {t : Symbol} (h : Cut before (ts₁ ++ t :: ts₂) after) :
    ∃ b w a, before = b ++ (w ++ a) ∧ Cut b ts₁ (w ++ a ++ after) ∧ Spelled t.kind w ∧
      t.text = String.ofList w ∧ (t.kind = .name → EndsName (a ++ after)) ∧ Cut a ts₂ after := by
  generalize hts : ts₁ ++ t :: ts₂ = ts at h
  induction h generalizing ts₁ with
  | done => simp at hts
  | @blank c before after ts hc _ ih =>
    obtain ⟨b, w, a, rfl, hb, hrest⟩ := ih hts
    exact ⟨c :: b, w, a, rfl, .blank hc hb, hrest⟩
  | @comment v before after ts hv hline _ ih =>
    obtain ⟨b, w, a, rfl, hb, hrest⟩ := ih hts
    refine ⟨'#' :: (v ++ b), w, a, by simp, .comment hv (by simpa using hline) hb, hrest⟩
  | @symbol kind v before after ts hv hname hcut ih =>
    cases ts₁ with
    | nil =>
      cases hts
      exact ⟨[], v, before, rfl, .done, hv, rfl, hname, hcut⟩
    | cons t' ts₁ =>
      obtain ⟨rfl, htail⟩ := List.cons.inj hts
      obtain ⟨b, w, a, rfl, hb, hrest⟩ := ih htail
      refine ⟨v ++ b, w, a, by simp, .symbol hv (fun hk => by simpa using hname hk) hb, hrest⟩

end Cut

/-- **Every text is cut up to its end, or up to a character that can stand nowhere.** -/
theorem exists_cut (p : Position) (text : List Char) : ∃ before ts after,
    text = before ++ after ∧ Cut before ts after ∧
      (after = [] ∨ ∃ c rest, after = c :: rest ∧ StartsNothing c) := by
  fun_induction lexemesFrom p text with
  | case1 p => exact ⟨[], [], [], rfl, .done, .inl rfl⟩
  | case2 p c rest hc ih =>
    obtain ⟨before, ts, after, rfl, hcut, hend⟩ := ih
    exact ⟨c :: before, ts, after, rfl, .blank ((isLayout_iff c).1 hc) hcut, hend⟩
  | case3 p rest _ comment ih =>
    obtain ⟨before, ts, after, hrest, hcut, hend⟩ := ih
    have hsplit : rest = rest.takeWhile (· != '\n') ++ (before ++ after) := by
      rw [← hrest, List.takeWhile_append_dropWhile]
    refine ⟨'#' :: (rest.takeWhile (· != '\n') ++ before), ts, after, ?_, .comment ?_ ?_ hcut, hend⟩
    · rw [List.cons_append, List.append_assoc, ← hsplit]
    · intro hmem
      exact absurd (List.mem_takeWhile_imp hmem) (by decide)
    · intro c hhead
      rw [← hrest] at hhead
      have hstop := List.head?_dropWhile_not (· != '\n') rest
      rw [hhead] at hstop
      simpa using hstop
  | case4 p c rest _ _ hc name ih =>
    obtain ⟨before, ts, after, hrest, hcut, hend⟩ := ih
    have hsplit : rest = rest.takeWhile isNameRest ++ (before ++ after) := by
      rw [← hrest, List.takeWhile_append_dropWhile]
    refine ⟨(c :: rest.takeWhile isNameRest) ++ before,
      ⟨.name, String.ofList (c :: rest.takeWhile isNameRest)⟩ :: ts, after, ?_,
      .symbol (.name ((isNameStart_iff c).1 hc) ?_) (fun _ d hhead => ?_) hcut, hend⟩
    · rw [List.cons_append, List.cons_append, List.append_assoc, ← hsplit]
    · intro d hmem
      exact (isNameRest_iff d).1 (List.mem_takeWhile_imp hmem)
    · rw [← hrest] at hhead
      have hstop := List.head?_dropWhile_not isNameRest rest
      rw [hhead] at hstop
      rw [← isNameRest_iff]
      simpa using hstop
  | case5 p c rest _ _ _ kind hsign ih =>
    obtain ⟨before, ts, after, rfl, hcut, hend⟩ := ih
    obtain ⟨hspelled, hname⟩ := (punctuation?_eq_some_iff c kind).1 hsign
    exact ⟨[c] ++ before, ⟨kind, String.ofList [c]⟩ :: ts, after, rfl,
      .symbol hspelled (fun hk => absurd hk hname) hcut, hend⟩
  | case6 p c rest hlayout hcomment hname hsign =>
    refine ⟨[], [], c :: rest, rfl, .done, .inr ⟨c, rest, rfl, ?_, hcomment, ?_⟩⟩
    · rwa [← isLayout_iff]
    · intro kind w hw hhead
      obtain ⟨d, ds, rfl, _, hd, _⟩ | ⟨d, rfl, hd⟩ := hw.cases_head
      · cases hhead
        exact hname ((isNameStart_iff c).2 hd)
      · cases hhead
        rw [hsign] at hd
        cases hd

end LoxLang.Schema
