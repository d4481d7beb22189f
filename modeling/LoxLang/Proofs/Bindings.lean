import LoxLang.Bindings

/-!
# Bindings as maps

What is put can be found, under its own name only, and no name is listed twice.  Bindings may be
`respell`ed: the values stay, the names change.
-/

namespace LoxLang

namespace Bindings

variable {α : Type}

theorem putIn_putIn (name : String) (v w : α) (entries : List (String × α)) :
    putIn name w (putIn name v entries) = putIn name w entries := by
  induction entries with
  | nil => simp [putIn]
  | cons entry rest ih =>
    obtain ⟨key, old⟩ := entry
    by_cases h : key = name
    · simp [putIn, h]
    · simp [putIn, h, ih]

@[simp] theorem put_put (b : Bindings α) (name : String) (v w : α) :
    (b.put name v).put name w = b.put name w := by
  simp [put, putIn_putIn]

theorem contains_put (b : Bindings α) (name other : String) (v : α) :
    (b.put name v).contains other = (decide (name = other) || b.contains other) := by
  unfold contains
  rw [find?_put]
  by_cases h : name = other
  · simp [h]
  · simp [h]

/-! ## Names -/

theorem mem_names_of_find? {b : Bindings α} {name : String} {v : α}
    (h : b.find? name = some v) : name ∈ b.names := by
  obtain ⟨entries⟩ := b
  unfold find? at h
  unfold names
  induction entries with
  | nil => cases h
  | cons entry entries ih =>
    obtain ⟨key, value⟩ := entry
    simp only [findIn] at h
    split at h
    · rename_i heq
      simp [heq]
    · exact List.mem_cons_of_mem _ (ih h)

theorem mem_names_put {b : Bindings α} {name other : String} {v : α}
    (h : other ∈ (b.put name v).names) : other = name ∨ other ∈ b.names := by
  obtain ⟨entries⟩ := b
  unfold put names at h
  unfold names
  induction entries with
  | nil =>
    simp only [putIn, List.map_cons, List.map_nil, List.mem_singleton] at h
    exact .inl h
  | cons entry entries ih =>
    obtain ⟨key, value⟩ := entry
    simp only [putIn] at h
    split at h
    · exact .inr h
    · obtain heq | hmem := List.mem_cons.1 h
      · exact .inr (by simp [heq])
      · obtain heq | hmem := ih hmem
        · exact .inl heq
        · exact .inr (List.mem_cons_of_mem _ hmem)

theorem contains_eq_true {b : Bindings α} {name : String} :
    b.contains name = true ↔ name ∈ b.names := by
  constructor
  · intro h
    obtain ⟨v, hv⟩ := Option.isSome_iff_exists.1 h
    exact mem_names_of_find? hv
  · intro h
    obtain ⟨entries⟩ := b
    unfold contains find?
    unfold names at h
    induction entries with
    | nil => cases h
    | cons entry entries ih =>
      obtain ⟨key, value⟩ := entry
      simp only [findIn]
      split
      · rfl
      · rename_i hne
        obtain heq | hmem := List.mem_cons.1 h
        · exact absurd heq.symm hne
        · exact ih hmem

/-- A name that is bound already keeps its place, and so do the others. -/
theorem names_put_of_mem {b : Bindings α} {name : String} (h : name ∈ b.names) (v : α) :
    (b.put name v).names = b.names := by
  obtain ⟨entries⟩ := b
  unfold names at h
  unfold put names
  induction entries with
  | nil => cases h
  | cons entry entries ih =>
    obtain ⟨key, value⟩ := entry
    simp only [putIn]
    split
    · rfl
    · rename_i hne
      obtain heq | hmem := List.mem_cons.1 h
      · exact absurd heq.symm hne
      · rw [List.map_cons, List.map_cons, ih hmem]

/-- No name is listed twice. -/
theorem nodup_names_put {b : Bindings α} (h : b.names.Nodup) (name : String) (v : α) :
    (b.put name v).names.Nodup := by
  obtain ⟨entries⟩ := b
  unfold names at h
  unfold put names
  induction entries with
  | nil => simp [putIn]
  | cons entry entries ih =>
    obtain ⟨key, value⟩ := entry
    obtain ⟨hkey, hrest⟩ := List.nodup_cons.1 h
    simp only [putIn]
    split
    · exact h
    · rename_i hne
      refine List.nodup_cons.2 ⟨fun hmem => ?_, ih hrest⟩
      obtain heq | hmem := mem_names_put (b := ⟨entries⟩) hmem
      · exact hne heq
      · exact hkey hmem

/-- Then every entry is the one that its name finds. -/
theorem find?_of_mem {b : Bindings α} (h : b.names.Nodup) {name : String} {v : α}
    (hmem : (name, v) ∈ b.entries) : b.find? name = some v := by
  obtain ⟨entries⟩ := b
  unfold names at h
  unfold find?
  induction entries with
  | nil => cases hmem
  | cons entry entries ih =>
    obtain ⟨key, value⟩ := entry
    obtain ⟨hkey, hrest⟩ := List.nodup_cons.1 h
    simp only [findIn]
    obtain heq | hmem := List.mem_cons.1 hmem
    · cases heq
      rw [if_pos rfl]
    · have hne : key ≠ name := by
        rintro rfl
        exact hkey (List.mem_map.2 ⟨(key, v), hmem, rfl⟩)
      rw [if_neg hne]
      exact ih hrest hmem

/-! ## Several names -/

/-- Puts names with their values, one after the other. -/
def putAll (b : Bindings α) (pairs : List (String × α)) : Bindings α :=
  pairs.foldl (fun b pair => b.put pair.1 pair.2) b

/-- What names are bound to that are put with values. -/
theorem mem_of_find?_putAll : ∀ (names : List String) (vs : List α) {b : Bindings α}
    {name : String} {v : α}, (b.putAll (names.zip vs)).find? name = some v →
    v ∈ vs ∨ b.find? name = some v
  | [], _, _, _, _, h => .inr h
  | _ :: _, [], _, _, _, h => .inr h
  | first :: names, w :: vs, b, name, v, h => by
    obtain hmem | hfind := mem_of_find?_putAll names vs (b := b.put first w) h
    · exact .inl (List.mem_cons_of_mem _ hmem)
    · rw [find?_put] at hfind
      split at hfind
      · cases hfind
        exact .inl List.mem_cons_self
      · exact .inr hfind

theorem mem_of_find?_ofList {names : List String} {vs : List α} {name : String} {v : α}
    (h : (ofList (names.zip vs)).find? name = some v) : v ∈ vs := by
  obtain hmem | hempty := mem_of_find?_putAll names vs (b := .empty) h
  · exact hmem
  · cases hempty

/-! ## Other names -/

/-- The same values under other names. -/
def respell (f : String → String) (b : Bindings α) : Bindings α :=
  ⟨b.entries.map fun entry => (f entry.1, entry.2)⟩

/-- A name is found under its own spelling. -/
theorem find?_respell {f : String → String} {b : Bindings α} {name : String}
    (hinj : ∀ key ∈ b.names, f key = f name → key = name) :
    (b.respell f).find? (f name) = b.find? name := by
  obtain ⟨entries⟩ := b
  unfold respell find?
  unfold names at hinj
  induction entries with
  | nil => rfl
  | cons entry entries ih =>
    obtain ⟨key, value⟩ := entry
    obtain ⟨hkey, hrest⟩ := List.forall_mem_cons.1 hinj
    have hiff : f key = f name ↔ key = name := ⟨hkey, fun h => by rw [h]⟩
    simp only [List.map_cons, findIn, hiff, ih hrest]

theorem names_respell (f : String → String) (b : Bindings α) :
    (b.respell f).names = b.names.map f := by
  simp [respell, names]

/-- What is found under a spelling that only one name has is found under this name. -/
theorem find?_of_respell {f : String → String} {b : Bindings α} {name spelling : String} {v : α}
    (hinj : ∀ key ∈ b.names, f key = spelling → key = name)
    (h : (b.respell f).find? spelling = some v) : b.find? name = some v := by
  have hmem := mem_names_of_find? h
  rw [names_respell] at hmem
  obtain ⟨key, hkey, hspelling⟩ := List.mem_map.1 hmem
  obtain rfl := hinj key hkey hspelling
  rw [← hspelling, find?_respell] at h
  · exact h
  · exact fun other hother heq => hinj other hother (heq.trans hspelling)

theorem put_respell {f : String → String} {b : Bindings α} {name : String} {v : α}
    (hinj : ∀ key ∈ b.names, f key = f name → key = name) :
    (b.respell f).put (f name) v = (b.put name v).respell f := by
  obtain ⟨entries⟩ := b
  unfold respell put
  unfold names at hinj
  congr 1
  induction entries with
  | nil => rfl
  | cons entry entries ih =>
    obtain ⟨key, value⟩ := entry
    obtain ⟨hkey, hrest⟩ := List.forall_mem_cons.1 hinj
    have hiff : f key = f name ↔ key = name := ⟨hkey, fun h => by rw [h]⟩
    simp only [List.map_cons, putIn, hiff]
    split
    · rfl
    · rw [List.map_cons, ih hrest]

end Bindings

end LoxLang
