import Mathlib.Data.List.Nodup
import Chip8.Host.Keymap

/-! Keymaps that are accepted. However it is written, a keymap that can be read gives every key one
code, and no code to two keys. -/

namespace Chip8.Keymap

variable {m : Keymap} {code : Int} {key : Fin Layout.keyCount}

/-- The keys have their codes in order, and the codes differ. -/
structure Bijective (m : Keymap) : Prop where
  keys : m.entries.map Prod.snd = List.finRange Layout.keyCount
  codes : (m.entries.map Prod.fst).Nodup

/-! ## Reading -/

theorem of_readFields {lower : Bool} {known entries : List (Int × Fin Layout.keyCount)}
    {fields : List (String × Fin Layout.keyCount)} (differ : (known.map Prod.fst).Nodup)
    (h : readFields lower known fields = .ok entries) : (entries.map Prod.fst).Nodup ∧
      entries.map Prod.snd = known.map Prod.snd ++ fields.map Prod.snd := by
  induction fields generalizing known with
  | nil =>
    obtain rfl : known = entries := Except.ok.inj h
    exact ⟨differ, (List.append_nil _).symm⟩
  | cons field rest ih =>
    rw [readFields] at h
    cases read : readCode lower field.1 with
    | error failure =>
      rw [read] at h
      cases h
    | ok code =>
      rw [read] at h
      dsimp only at h
      split at h
      · cases h
      · next fresh =>
        have fresh : code ∉ known.map Prod.fst := fun member => fresh <| by
          obtain ⟨entry, known, same⟩ := List.mem_map.mp member
          exact List.any_eq_true.mpr ⟨entry, known, beq_iff_eq.mpr same⟩
        have differ : ((known ++ [(code, field.2)]).map Prod.fst).Nodup := by
          rw [List.map_append, List.map_singleton, ← List.concat_eq_append]
          exact differ.concat fresh
        obtain ⟨differ', keys⟩ := ih differ h
        exact ⟨differ', keys.trans (by simp)⟩

theorem bijective_of_read {text : String} {lower : Bool} (accepted : read text lower = .ok m) :
    m.Bijective := by
  unfold read at accepted
  dsimp only at accepted
  generalize text.splitToList _ = fields at accepted
  split at accepted
  · cases accepted
  · next enough =>
    cases fieldsRead : readFields lower [] (fields.zip (List.finRange Layout.keyCount)) with
    | error failure =>
      rw [fieldsRead] at accepted
      cases accepted
    | ok entries =>
      rw [fieldsRead] at accepted
      obtain rfl : (⟨entries⟩ : Keymap) = m := Except.ok.inj accepted
      have differ : (([] : List (Int × Fin Layout.keyCount)).map Prod.fst).Nodup := List.nodup_nil
      obtain ⟨codes, keys⟩ := of_readFields differ fieldsRead
      have length : (List.finRange Layout.keyCount).length ≤ fields.length := by
        rw [List.length_finRange]
        exact Nat.le_of_eq (not_not.mp enough).symm
      exact ⟨keys.trans (List.map_snd_zip length), codes⟩

/-! ## Looking up -/

theorem mem_of_key? (h : m.key? code = some key) : (code, key) ∈ m.entries := by
  obtain ⟨before, rest, split, _⟩ := List.lookup_eq_some_iff.mp h
  rw [split]
  exact List.mem_append_right _ List.mem_cons_self

theorem Bijective.key?_of_mem (bijective : m.Bijective) (h : (code, key) ∈ m.entries) :
    m.key? code = some key := by
  cases found : m.key? code with
  | none =>
    have missing := List.lookup_eq_none_iff.mp found _ h
    simp at missing
  | some other =>
    -- Two entries of one code are the same.
    have same := List.inj_on_of_nodup_map bijective.codes (mem_of_key? found) h rfl
    rw [(Prod.mk.inj same).2]

/-- Every key has one code. -/
theorem Bijective.exists_code (bijective : m.Bijective) (key : Fin Layout.keyCount) :
    ∃ code, ∀ other, m.key? other = some key ↔ other = code := by
  have member : key ∈ m.entries.map Prod.snd := bijective.keys ▸ List.mem_finRange key
  obtain ⟨⟨code, _⟩, entry, rfl⟩ := List.mem_map.mp member
  have distinct : (m.entries.map Prod.snd).Nodup := bijective.keys ▸ List.nodup_finRange _
  refine ⟨code, fun other => ⟨fun found => ?_, ?_⟩⟩
  · have same := List.inj_on_of_nodup_map distinct (mem_of_key? found) entry rfl
    exact (Prod.mk.inj same).1
  · rintro rfl
    exact bijective.key?_of_mem entry

end Chip8.Keymap
