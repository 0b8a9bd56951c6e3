import Chip8.Failure

/-! Lengths. An index has 64 bits, and memory ends long before the indices do; numbers are checked
against both before anything of that length is made. -/

namespace Chip8.Number

/-- The first number that is no index. -/
def indexBound : Nat := 0x8000000000000000

def isIndex (n : Int) : Bool := -(indexBound : Int) ≤ n && n < indexBound

/-- So many bytes can be had in one piece, if there is room for `room` of them. -/
def Fits (room bytes : Nat) : Prop := bytes < indexBound ∧ bytes ≤ room

instance (room bytes : Nat) : Decidable (Fits room bytes) := inferInstanceAs (Decidable (_ ∧ _))

/-- How many elements of `width` bytes a number asks for; a negative one asks for none. -/
def count (room width : Nat) (n : Int) : Except NumberError Nat :=
  if !isIndex n || !isIndex (width * n.toNat) then .error .overflow
  else if room < width * n.toNat then .error .memory
  else .ok n.toNat

theorem isIndex_iff {n : Int} : isIndex n = true ↔ -(indexBound : Int) ≤ n ∧ n < indexBound := by
  simp only [isIndex, Bool.and_eq_true, decide_eq_true_eq]

theorem Fits.mono {room bytes fewer : Nat} (h : Fits room bytes) (le : fewer ≤ bytes) :
    Fits room fewer := by
  obtain ⟨index, held⟩ := h
  constructor <;> omega

theorem count_of_fits {room width : Nat} {n : Int} (hw : 0 < width) (hn : 0 ≤ n)
    (h : Fits room (width * n.toNat)) : count room width n = .ok n.toNat := by
  obtain ⟨short, held⟩ := h
  have hle : n.toNat ≤ width * n.toNat := Nat.le_mul_of_pos_left _ hw
  have index : isIndex n = true := isIndex_iff.mpr (by omega)
  have product : isIndex (width * n.toNat) = true := by
    rw [← Int.natCast_mul]
    exact isIndex_iff.mpr (by omega)
  simp only [count, index, product, Nat.not_lt.mpr held, Bool.not_true, Bool.or_self,
    Bool.false_eq_true, if_false]

theorem fits_of_count {room width : Nat} {n : Int} {k : Nat} (h : count room width n = .ok k) :
    k = n.toNat ∧ Fits room (width * k) := by
  unfold count at h
  split at h
  · contradiction
  · next indices =>
    rw [Bool.or_eq_true, not_or, Bool.not_eq_true', Bool.not_eq_true', Bool.not_eq_false,
      Bool.not_eq_false, isIndex_iff, isIndex_iff, ← Int.natCast_mul] at indices
    split at h
    · contradiction
    · cases h
      exact ⟨rfl, by omega, by omega⟩

end Chip8.Number
