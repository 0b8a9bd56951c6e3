import Mathlib.Data.List.Forall2
import Mathlib.Data.String.Basic

/-! Texts with commas. What stands between the commas of a text are its fields; every text has them,
and comes apart into them in one way only. -/

namespace Chip8.Text

/-- The fields of a text: at least one, none with a comma in it, and a comma between every two. -/
structure Fields (text : String) (fields : List String) : Prop where
  nonempty : fields ≠ []
  plain : ∀ field ∈ fields, ',' ∉ field.toList
  joined : ",".intercalate fields = text

variable {text : String} {fields : List String}

/-- A list that is split at a value comes apart into pieces without it. -/
theorem not_mem_of_mem_splitOn {α : Type} [BEq α] [LawfulBEq α] {separator : α} {values piece : List α}
    (h : piece ∈ values.splitOn separator) : separator ∉ piece := by
  induction values generalizing piece with
  | nil =>
    obtain rfl : piece = [] := by simpa using h
    exact List.not_mem_nil
  | cons value rest ih =>
    obtain ⟨first, later, split⟩ := List.exists_cons_of_ne_nil (List.splitOn_ne_nil separator rest)
    rw [split] at ih
    obtain ⟨ihFirst, ihLater⟩ := List.forall_mem_cons.mp fun piece (h : piece ∈ first :: later) => ih h
    rw [List.splitOn_cons_eq_if_modifyHead, split, List.modifyHead_cons] at h
    split at h
    · rcases List.mem_cons.mp h with rfl | h
      · exact List.not_mem_nil
      · exact ih h
    · next differ =>
      rcases List.mem_cons.mp h with rfl | h
      · rw [List.mem_cons, not_or]
        exact ⟨fun same => differ (beq_iff_eq.mpr same.symm), ihFirst⟩
      · exact ihLater _ h

theorem splitToList_comma (text : String) :
    text.splitToList (· == ',') = (text.toList.splitOn ',').map String.ofList := by
  rw [String.splitToList_of_valid, List.splitOn_eq_splitOnP]

theorem fields_splitToList (text : String) : Fields text (text.splitToList (· == ',')) := by
  rw [splitToList_comma]
  refine ⟨fun none => List.splitOn_ne_nil _ _ (List.map_eq_nil_iff.mp none), ?_, ?_⟩
  · intro field member
    obtain ⟨piece, piece_mem, rfl⟩ := List.mem_map.mp member
    rw [String.toList_ofList]
    exact not_mem_of_mem_splitOn piece_mem
  · rw [← String.toList_inj, String.toList_intercalate, List.map_map]
    have same : String.toList ∘ String.ofList = id := funext fun _ => String.toList_ofList
    rw [same, List.map_id]
    exact List.intercalate_splitOn ','

theorem Fields.eq_splitToList (h : Fields text fields) : fields = text.splitToList (· == ',') := by
  have pieces : text.toList.splitOn ',' = fields.map String.toList := by
    rw [← h.joined, String.toList_intercalate]
    refine List.splitOn_intercalate ',' ?_ (by simpa using h.nonempty)
    intro piece member
    obtain ⟨field, field_mem, rfl⟩ := List.mem_map.mp member
    exact h.plain field field_mem
  have same : String.ofList ∘ String.toList = id := funext fun _ => String.ofList_toList
  rw [splitToList_comma, pieces, List.map_map, same, List.map_id]

/-- The values that a text gives, one in each field. -/
def Listed {α : Type} (R : String → α → Prop) (text : String) (values : List α) : Prop :=
  ∃ fields, Fields text fields ∧ List.Forall₂ R fields values

theorem Listed.unique {α : Type} {R : String → α → Prop} {values others : List α}
    (unique : Relator.RightUnique R) (h : Listed R text values) (h' : Listed R text others) :
    values = others := by
  obtain ⟨fields, apart, row⟩ := h
  obtain ⟨fields', apart', row'⟩ := h'
  obtain rfl : fields = fields' := apart.eq_splitToList.trans apart'.eq_splitToList.symm
  exact List.right_unique_forall₂' unique row row'

end Chip8.Text
