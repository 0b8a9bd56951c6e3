import Chip8.Display

/-! Pixels. A screen that has one cell a pixel, each zero or one, is its size together with the set
of its lit pixels, and an inversion changes one pixel of it. What many inversions make of a pixel
depends only on how often it is among them, whatever the order. -/

namespace Chip8.Display

/-- Every pixel has a cell, whatever is on it. -/
def Whole (d : Display) : Prop := d.cells.size = (d.width * d.height : Nat)

theorem Whole.size {d : Display} (whole : d.Whole) : d.cells.cells.size = d.width * d.height := by
  rw [d.cells.cells_size, whole, Int.toNat_natCast]

/-- A screen that has a cell for every pixel, with nothing but zeros and ones on its cells. -/
structure Proper (d : Display) : Prop where
  whole : d.Whole
  binary : ∀ b ∈ d.cells.cells, b = 0 ∨ b = 1

theorem Proper.size {d : Display} (hd : d.Proper) : d.cells.cells.size = d.width * d.height :=
  hd.whole.size

theorem blank_proper {width height : Nat} (hw : 0 < width) (hh : 0 < height) :
    (blank width height hw hh).Proper where
  whole := rfl
  binary _ hb := .inl (Array.eq_of_mem_replicate hb)

theorem Proper.clear {d : Display} (hd : d.Proper) : d.clear.Proper where
  whole := hd.whole
  binary b hb := by
    obtain ⟨k, hk, rfl⟩ := Array.getElem_of_mem hb
    simp only [Display.clear, Memory.zeroFrom, Array.getElem_mapIdx, Nat.not_lt_zero, if_false, true_or]

def onScreen (d : Display) (p : Nat × Nat) : Prop := p.1 < d.width ∧ p.2 < d.height

def cellOf (d : Display) (p : Nat × Nat) : Nat := p.2 * d.width + p.1

theorem cellOf_lt {d : Display} {p : Nat × Nat} (h : d.onScreen p) :
    d.cellOf p < d.width * d.height := by
  have rows : (p.2 + 1) * d.width ≤ d.height * d.width := Nat.mul_le_mul_right _ h.2
  have column := h.1
  rw [Nat.succ_mul, Nat.mul_comm d.height] at rows
  unfold cellOf
  omega

theorem cellOf_inj {d : Display} {p q : Nat × Nat} (hp : p.1 < d.width) (hq : q.1 < d.width)
    (h : d.cellOf p = d.cellOf q) : p = q := by
  have column : p.1 = q.1 := by
    have rest := congrArg (· % d.width) h
    simpa only [cellOf, Nat.mul_add_mod_self_right, Nat.mod_eq_of_lt hp, Nat.mod_eq_of_lt hq] using rest
  have row : p.2 = q.2 := by
    have same : p.2 * d.width = q.2 * d.width := by
      unfold cellOf at h
      omega
    exact Nat.eq_of_mul_eq_mul_right d.width_pos same
  exact Prod.ext column row

/-! ## One inversion -/

/-- The screen with one pixel inverted. -/
def flip (d : Display) (p : Nat × Nat) : Display :=
  { d with
    cells := d.cells.put (d.cellOf p) (d.cells.cells.getD (d.cellOf p) 0 ^^^ 1)
    dirty := true }

theorem isLit_eq (d : Display) (x y : Nat) :
    d.isLit x y = (decide (x < d.width) && (d.cells.cells[d.cellOf (x, y)]?).any (· != 0)) := by
  rw [isLit, Memory.byteAt?_natCast, cellOf]

theorem lit_invert {b : UInt8} (h : b = 0 ∨ b = 1) : (b ^^^ 1 != 0) = !(b != 0) := by
  rcases h with rfl | rfl <;> rfl

theorem isLit_flip {d : Display} (hd : d.Proper) {p : Nat × Nat} (hp : d.onScreen p) (x y : Nat) :
    (d.flip p).isLit x y = (d.isLit x y ^^ decide ((x, y) = p)) := by
  have inside : d.cellOf p < d.cells.cells.size := hd.size ▸ cellOf_lt hp
  rw [isLit_eq, isLit_eq]
  change (decide (x < d.width) && ((d.cells.cells.setIfInBounds (d.cellOf p)
    (d.cells.cells.getD (d.cellOf p) 0 ^^^ 1))[d.cellOf (x, y)]?).any (· != 0)) = _
  by_cases same : (x, y) = p
  · subst same
    have lit := lit_invert (hd.binary _ (Array.getElem_mem inside))
    rw [Array.getElem?_setIfInBounds_self_of_lt inside, Array.getD_eq_getD_getElem?,
      Array.getElem?_eq_getElem inside]
    simp only [Option.getD_some, Option.any_some, lit, hp.1, decide_true, Bool.true_and, Bool.xor_true]
  · by_cases column : x < d.width
    · have apart : d.cellOf p ≠ d.cellOf (x, y) := fun h => same (cellOf_inj column hp.1 h.symm)
      rw [Array.getElem?_setIfInBounds_ne apart]
      simp only [same, decide_false, Bool.xor_false]
    · simp only [column, same, decide_false, Bool.false_and, Bool.xor_false]

theorem Proper.flip {d : Display} (hd : d.Proper) {p : Nat × Nat} (hp : d.onScreen p) :
    (d.flip p).Proper where
  whole := hd.whole
  binary b hb := by
    have inside : d.cellOf p < d.cells.cells.size := hd.size ▸ cellOf_lt hp
    rcases Array.mem_or_eq_of_mem_setIfInBounds hb with old | rfl
    · exact hd.binary b old
    · rw [Array.getD_eq_getD_getElem?, Array.getElem?_eq_getElem inside, Option.getD_some]
      rcases hd.binary _ (Array.getElem_mem inside) with h | h <;> rw [h]
      · exact .inr rfl
      · exact .inl rfl

/-- The pixel that a point falls on. A point that does not wrap may fall off the screen. -/
def pixelAt (d : Display) (x y : Nat) (wrap : Bool) : Option (Nat × Nat) :=
  if wrap then some (x % d.width, y % d.height)
  else if x < d.width ∧ y < d.height then some (x, y)
  else none

theorem onScreen_of_pixelAt {d : Display} {x y : Nat} {wrap : Bool} {p : Nat × Nat}
    (h : d.pixelAt x y wrap = some p) : d.onScreen p := by
  unfold pixelAt at h
  split at h
  · cases h
    exact ⟨Nat.mod_lt _ d.width_pos, Nat.mod_lt _ d.height_pos⟩
  · split at h
    · next inside =>
      cases h
      exact inside
    · cases h

theorem locate_natCast (d : Display) (x y : Nat) (wrap : Bool) :
    d.locate x y wrap = (d.pixelAt x y wrap).map fun p => (d.cellOf p : Int) := by
  unfold locate pixelAt
  cases wrap with
  | true =>
    simp only [if_true, Option.map_some, cellOf]
    push_cast
    rfl
  | false =>
    simp only [Bool.false_eq_true, if_false]
    by_cases inside : x < d.width ∧ y < d.height
    · rw [if_pos inside, if_neg (by omega)]
      simp only [Option.map_some, cellOf]
      push_cast
      rfl
    · rw [if_neg inside, if_pos (by omega)]
      rfl

theorem invert_of_pixelAt {d : Display} (hd : d.Proper) {x y : Nat} {wrap : Bool} {p : Nat × Nat}
    (h : d.pixelAt x y wrap = some p) :
    d.invert x y wrap = .ok (some (d.isLit p.1 p.2), d.flip p) := by
  have hp := onScreen_of_pixelAt h
  have inside : d.cellOf p < d.cells.cells.size := hd.size ▸ cellOf_lt hp
  have read : d.cells.read (d.cellOf p) = .ok d.cells.cells[d.cellOf p] := by
    rw [Memory.read, Memory.byteAt?_natCast, Array.getElem?_eq_getElem inside]
  have lit : d.isLit p.1 p.2 = (d.cells.cells[d.cellOf p] != 0) := by
    rw [isLit_eq, Array.getElem?_eq_getElem inside]
    simp only [hp.1, decide_true, Bool.true_and, Option.any_some]
  rw [invert, locate_natCast, h]
  simp only [Option.map_some, read, lit, flip, Int.toNat_natCast, Array.getD_eq_getD_getElem?,
    Array.getElem?_eq_getElem inside, Option.getD_some]

theorem invert_of_clipped {d : Display} {x y : Nat} {wrap : Bool}
    (h : d.pixelAt x y wrap = none) : d.invert x y wrap = .ok (none, d) := by
  rw [invert, locate_natCast, h]
  rfl

theorem kind_of_invert {d : Display} {x y : Int} {wrap : Bool} {fault : Fault}
    (h : d.invert x y wrap = .error fault) : fault.kind = .memory := by
  unfold invert at h
  split at h
  · cases h
  · split at h
    · next failed =>
      cases h
      unfold Memory.read at failed
      split at failed <;> cases failed
      rfl
    · cases h

/-! ## Many inversions -/

def flipAll (d : Display) (ps : List (Nat × Nat)) : Display := ps.foldl flip d

@[simp] theorem width_flipAll (d : Display) (ps : List (Nat × Nat)) :
    (d.flipAll ps).width = d.width := by
  induction ps generalizing d with
  | nil => rfl
  | cons p ps ih => exact ih (d.flip p)

@[simp] theorem height_flipAll (d : Display) (ps : List (Nat × Nat)) :
    (d.flipAll ps).height = d.height := by
  induction ps generalizing d with
  | nil => rfl
  | cons p ps ih => exact ih (d.flip p)

theorem Proper.flipAll {d : Display} (hd : d.Proper) {ps : List (Nat × Nat)}
    (h : ∀ p ∈ ps, d.onScreen p) : (d.flipAll ps).Proper := by
  induction ps generalizing d with
  | nil => exact hd
  | cons p ps ih =>
    obtain ⟨hp, hps⟩ := List.forall_mem_cons.mp h
    exact ih (hd.flip hp) hps

/-- A pixel that is inverted an odd number of times changes, and no other does. -/
theorem isLit_flipAll {d : Display} (hd : d.Proper) {ps : List (Nat × Nat)}
    (h : ∀ p ∈ ps, d.onScreen p) (x y : Nat) :
    (d.flipAll ps).isLit x y = (d.isLit x y ^^ decide (ps.count (x, y) % 2 = 1)) := by
  induction ps generalizing d with
  | nil => simp only [flipAll, List.foldl_nil, List.count_nil, Nat.zero_mod, Nat.zero_ne_one,
      decide_false, Bool.xor_false]
  | cons p ps ih =>
    obtain ⟨hp, hps⟩ := List.forall_mem_cons.mp h
    have step : ((d.flip p).flipAll ps).isLit x y = _ := ih (hd.flip hp) hps
    rw [show d.flipAll (p :: ps) = (d.flip p).flipAll ps from rfl, step, isLit_flip hd hp]
    by_cases same : (x, y) = p
    · subst same
      rw [List.count_cons_self, Bool.xor_assoc]
      rcases Nat.mod_two_eq_zero_or_one (ps.count (x, y)) with even | odd
      · have next : (ps.count (x, y) + 1) % 2 = 1 := by omega
        simp only [even, next, decide_true, Nat.zero_ne_one, decide_false, Bool.xor_false]
      · have next : (ps.count (x, y) + 1) % 2 = 0 := by omega
        simp only [odd, next, decide_true, Nat.zero_ne_one, decide_false, Bool.xor_self]
    · rw [List.count_cons_of_ne (Ne.symm same)]
      simp only [same, decide_false, Bool.xor_false]

/-! ## Pictures -/

theorem picture_congr {d e : Display} (hd : d.Proper) (he : e.Proper) (width : e.width = d.width)
    (height : e.height = d.height)
    (same : ∀ x y, x < d.width → y < d.height → e.isLit x y = d.isLit x y) :
    e.picture = d.picture := by
  rw [picture, picture, height]
  apply List.map_congr_left
  intro y hy
  have row := List.mem_range.mp hy
  rw [row_eq d hd.size row, row_eq e he.size (height ▸ row), width]
  apply List.map_congr_left
  intro x hx
  exact same x y (List.mem_range.mp hx) row

end Chip8.Display
