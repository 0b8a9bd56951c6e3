import Chip8.Proofs.Display

/-! Points that do not wrap. On the screen they invert the pixel that they name, and to the right of
it and below it they are clipped. To the left of it and above it they are not: such a point is counted
off from the first pixel of its row, so it falls on a row further up, or in front of the first cell. -/

namespace Chip8.Display

variable {d : Display} {x y : Int} {p q : Nat × Nat}

/-- The byte on the cell of a pixel. -/
def byteOf? (d : Display) (p : Nat × Nat) : Option UInt8 := d.cells.cells[d.cellOf p]?

/-- One pixel is inverted, and no other changes. -/
structure Inverts (d : Display) (p : Nat × Nat) (d' : Display) : Prop where
  size : d'.size = d.size
  dirty : d'.dirty = true
  onScreen : d.onScreen p
  inverted : ∃ b, d.byteOf? p = some b ∧ d'.byteOf? p = some (b ^^^ 1)
  others : ∀ q, d.onScreen q → q ≠ p → d'.byteOf? q = d.byteOf? q
  /-- A pixel with a zero or a one on its cell was lit and goes dark, or was dark and is lit. -/
  lit : d.byteOf? p = some 0 ∨ d.byteOf? p = some 1 → d'.isLit p.1 p.2 = !d.isLit p.1 p.2

/-- Inverts a pixel, and tells whether it was lit. -/
def InvertsAt (d : Display) (x y : Int) (p : Nat × Nat) : Prop :=
  ∃ d', d.invert x y false = .ok (some (d.isLit p.1 p.2), d') ∧ d.Inverts p d'

/-! ## Cells -/

theorem Whole.exists_byte (whole : d.Whole) (inside : d.onScreen p) : ∃ b, d.byteOf? p = some b :=
  ⟨_, Array.getElem?_eq_getElem (whole.size ▸ cellOf_lt inside)⟩

theorem isLit_of_byteOf? {b : UInt8} (inside : p.1 < d.width) (h : d.byteOf? p = some b) :
    d.isLit p.1 p.2 = (b != 0) := by
  unfold byteOf? at h
  rw [isLit_eq, h]
  simp only [inside, decide_true, Bool.true_and, Option.any_some]

theorem byteOf?_flip {b : UInt8} (h : d.byteOf? p = some b) : (d.flip p).byteOf? p = some (b ^^^ 1) := by
  obtain ⟨inside, same⟩ := Array.getElem?_eq_some_iff.mp h
  show (d.cells.cells.setIfInBounds (d.cellOf p) (d.cells.cells.getD (d.cellOf p) 0 ^^^ 1))[d.cellOf p]? = _
  rw [Array.getElem?_setIfInBounds_self_of_lt inside, Array.getD_eq_getD_getElem?,
    Array.getElem?_eq_getElem inside, Option.getD_some, same]

theorem byteOf?_flip_of_ne (hp : p.1 < d.width) (hq : q.1 < d.width) (apart : q ≠ p) :
    (d.flip p).byteOf? q = d.byteOf? q :=
  Array.getElem?_setIfInBounds_ne fun same => apart (cellOf_inj hq hp same.symm)

theorem Whole.inverts_flip (whole : d.Whole) (inside : d.onScreen p) : d.Inverts p (d.flip p) where
  size := rfl
  dirty := rfl
  onScreen := inside
  inverted := by
    obtain ⟨b, found⟩ := whole.exists_byte inside
    exact ⟨b, found, byteOf?_flip found⟩
  others _ hq apart := byteOf?_flip_of_ne inside.1 hq.1 apart
  lit binary := by
    obtain ⟨b, found⟩ := whole.exists_byte inside
    have bit : b = 0 ∨ b = 1 := by
      rw [found] at binary
      exact binary.imp Option.some.inj Option.some.inj
    rw [isLit_of_byteOf? inside.1 found,
      isLit_of_byteOf? (d := d.flip p) inside.1 (byteOf?_flip found), lit_invert bit]

/-! ## Points -/

theorem locate_of_clipped (h : d.width ≤ x ∨ d.height ≤ y) : d.locate x y false = none := by
  rw [locate, if_neg Bool.false_ne_true, if_pos h]

theorem locate_of_unclipped (h : ¬ (d.width ≤ x ∨ d.height ≤ y)) :
    d.locate x y false = some (y * d.width + x) := by
  rw [locate, if_neg Bool.false_ne_true, if_neg h]

/-- The pixel that the cell of a point belongs to: a column left of the screen is one of a row further
up. -/
def pixelOf (d : Display) (x y : Int) : Nat × Nat :=
  ((x % d.width).toNat, (y + x / d.width).toNat)

theorem cell_eq (d : Display) (x y : Int) :
    y * d.width + x = (y + x / d.width) * d.width + x % d.width := by
  rw [Int.add_mul, Int.add_assoc, Int.mul_comm (x / d.width), Int.mul_ediv_add_emod]

theorem cellOf_pixelOf (h : 0 ≤ y + x / d.width) : (d.cellOf (d.pixelOf x y) : Int) = y * d.width + x := by
  have width : (d.width : Int) ≠ 0 := Int.natCast_ne_zero.mpr (Nat.ne_of_gt d.width_pos)
  have column : ((x % d.width).toNat : Int) = x % d.width := Int.toNat_of_nonneg (Int.emod_nonneg _ width)
  have row : ((y + x / d.width).toNat : Int) = y + x / d.width := Int.toNat_of_nonneg h
  rw [cellOf, pixelOf, cell_eq]
  push_cast
  rw [row, column]

theorem onScreen_pixelOf (hx : x < d.width) (hy : y < d.height) (h : 0 ≤ y + x / d.width) :
    d.onScreen (d.pixelOf x y) := by
  have width : (0 : Int) < d.width := Int.natCast_pos.mpr d.width_pos
  have column : x % d.width < d.width := Int.emod_lt_of_pos _ width
  have row : x / d.width ≤ 0 := Int.lt_add_one_iff.mp (Int.ediv_lt_of_lt_mul width (by omega))
  constructor
  · show (x % d.width).toNat < d.width
    omega
  · show (y + x / d.width).toNat < d.height
    omega

theorem pixelOf_of_inside (hx : 0 ≤ x ∧ x < d.width) (y : Int) : d.pixelOf x y = (x.toNat, y.toNat) := by
  rw [pixelOf, Int.emod_eq_of_lt hx.1 hx.2, Int.ediv_eq_zero_of_lt hx.1 hx.2, Int.add_zero]

theorem Whole.invertsAt (whole : d.Whole) (hx : x < d.width) (hy : y < d.height)
    (h : 0 ≤ y + x / d.width) : d.InvertsAt x y (d.pixelOf x y) := by
  have inside := onScreen_pixelOf hx hy h
  obtain ⟨b, found⟩ := whole.exists_byte inside
  have read : d.cells.read (d.cellOf (d.pixelOf x y)) = .ok b := by
    unfold byteOf? at found
    rw [Memory.read, Memory.byteAt?_natCast, found]
  have default : d.cells.cells.getD (d.cellOf (d.pixelOf x y)) 0 = b := by
    unfold byteOf? at found
    rw [Array.getD_eq_getD_getElem?, found, Option.getD_some]
  refine ⟨d.flip (d.pixelOf x y), ?_, whole.inverts_flip inside⟩
  rw [invert, locate_of_unclipped (by omega), ← cellOf_pixelOf h]
  simp only [read, isLit_of_byteOf? inside.1 found, flip, default, Int.toNat_natCast]

theorem invert_of_ahead (hx : x < d.width) (hy : y < d.height) (h : y + x / d.width < 0) :
    d.invert x y false = .error (.outside (y * d.width + x)) := by
  have width : (0 : Int) < d.width := Int.natCast_pos.mpr d.width_pos
  have early : y * d.width + x < 0 := by
    have column : x % d.width < d.width := Int.emod_lt_of_pos _ width
    have rows : (y + x / d.width + 1) * d.width ≤ 0 :=
      Int.mul_nonpos_of_nonpos_of_nonneg (by omega) (by omega)
    rw [Int.add_mul, Int.one_mul] at rows
    rw [cell_eq]
    omega
  have absent : d.cells.byteAt? (y * d.width + x) = none := if_neg (by omega)
  rw [invert, locate_of_unclipped (by omega)]
  simp only [Memory.read, absent]

/-! ## What is clipped -/

/-- What a point that does not wrap does to a screen. -/
structure Unwrapped (d : Display) (x y : Int) : Prop where
  inside : 0 ≤ x ∧ x < d.width → 0 ≤ y ∧ y < d.height → d.InvertsAt x y (x.toNat, y.toNat)
  /-- Only to the right and below is a point left out. -/
  clipped : d.invert x y false = .ok (none, d) ↔ d.width ≤ x ∨ d.height ≤ y
  /-- Any other point beyond an edge inverts a pixel of some row above it. -/
  above : x < d.width → y < d.height → 0 ≤ y + x / d.width →
    d.InvertsAt x y ((x % d.width).toNat, (y + x / d.width).toNat)
  /-- In front of the first row there are no cells. -/
  ahead : x < d.width → y < d.height → y + x / d.width < 0 →
    d.invert x y false = .error (.outside (y * d.width + x))

theorem clips_far_edges (whole : d.Whole) (x y : Int) : d.Unwrapped x y where
  inside hx hy := by
    have row : 0 ≤ y + x / d.width := by rw [Int.ediv_eq_zero_of_lt hx.1 hx.2]; omega
    exact pixelOf_of_inside hx y ▸ whole.invertsAt hx.2 hy.2 row
  clipped := by
    refine ⟨fun refused => ?_, fun far => by rw [invert, locate_of_clipped far]⟩
    apply Classical.byContradiction
    intro near
    rcases Int.lt_or_le (y + x / d.width) 0 with early | late
    · rw [invert_of_ahead (by omega) (by omega) early] at refused
      cases refused
    · obtain ⟨d', inverted, -⟩ := whole.invertsAt (by omega) (by omega) late
      rw [inverted] at refused
      cases refused
  above hx hy late := whole.invertsAt hx hy late
  ahead hx hy early := invert_of_ahead hx hy early

/-- A point left of the second row is the last pixel of the first. -/
theorem clips_far_edges_left :
    let d := blank 4 5 (by decide) (by decide)
    d.Whole ∧ d.InvertsAt (-1) 1 (3, 0) := by
  intro d
  have whole : d.Whole := rfl
  exact ⟨whole, (clips_far_edges whole (-1) 1).above (by decide) (by decide) (by decide)⟩

/-- That point is not on the screen, and yet it is not clipped: a pixel of the screen lights up. -/
theorem left_point_unclipped :
    let d := blank 4 5 (by decide) (by decide)
    d.invert (-1) 1 false ≠ .ok (none, d) ∧
      ∃ d', d.invert (-1) 1 false = .ok (some false, d') ∧
        d.isLit 3 0 = false ∧ d'.isLit 3 0 = true := by
  intro d
  have whole : d.Whole := rfl
  obtain ⟨d', inverted, changed⟩ :=
    whole.invertsAt (x := -1) (y := 1) (by decide) (by decide) (by decide)
  refine ⟨?_, d', inverted, by decide, changed.lit (.inl ?_)⟩
  · rw [inverted]
    nofun
  · decide

end Chip8.Display
