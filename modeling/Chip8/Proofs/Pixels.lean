import Chip8.Proofs.Drawing
import Chip8.Proofs.Invariant

/-! Sprites pixel by pixel. No sprite is larger than the screen, so its set bits fall on different
pixels; a draw inverts each pixel under one of them once and leaves all others alone, and the flag
tells whether one of those it inverts was lit. -/

namespace Chip8.Machine

variable {m : Machine} {x y : Register} {n : Fin 16} {column row : Nat}

/-! ## The bits of a sprite -/

/-- Columns and rows of the sprite that a draw instruction puts on the screen. -/
def spriteSize (m : Machine) (n : Fin 16) : Nat × Nat :=
  if n.val = 0 ∧ m.hires = true then if m.lowRes then (8, 16) else (16, 16) else (8, n.val)

/-- All bytes of the sprite are bytes of memory. -/
def SpriteInside (m : Machine) (n : Fin 16) : Prop :=
  ∀ k < (m.spriteSize n).1 / 8 * (m.spriteSize n).2, m.i + k < 0x1000

def spriteByte (m : Machine) (k : Nat) : UInt8 := (m.memory.byteAt? (m.i + k)).getD 0

/-- A row of the sprite: one byte, or two of which the first is the more significant one. -/
def spriteRow (m : Machine) (n : Fin 16) (row : Nat) : Nat :=
  if (m.spriteSize n).1 = 16 then
    (m.spriteByte (2 * row)).toNat * 0x100 + (m.spriteByte (2 * row + 1)).toNat
  else (m.spriteByte row).toNat

/-- The bit of the sprite at a column and a row is set. Column zero is the most significant bit. -/
def SpriteSet (m : Machine) (n : Fin 16) (column row : Nat) : Prop :=
  column < (m.spriteSize n).1 ∧ row < (m.spriteSize n).2 ∧
    (m.spriteRow n row).testBit ((m.spriteSize n).1 - 1 - column) = true

theorem spriteSize_eq (m : Machine) (n : Fin 16) :
    m.spriteSize n = ((m.shape n).width, (m.shape n).height) := by
  unfold spriteSize shape SpriteShape.ofHeight
  cases m.lowRes <;> split <;> rfl

theorem bytes_eq (m : Machine) (n : Fin 16) :
    (m.shape n).bytes = (m.spriteSize n).1 / 8 * (m.spriteSize n).2 := by
  rw [spriteSize_eq]
  unfold SpriteShape.bytes SpriteShape.width
  cases (m.shape n).wide <;> simp

theorem WellFormed.fits_of_inside (hm : m.WellFormed) (inside : m.SpriteInside n) :
    m.memory.Fits m.i (m.shape n).bytes := by
  intro positive
  have last := inside ((m.shape n).bytes - 1) (by rw [← bytes_eq]; omega)
  have low := hm.index.1
  have size := hm.memory
  unfold Layout.memorySize at size
  omega

theorem byteAt?_of_fits {k : Nat} (fits : m.memory.Fits m.i (m.shape n).bytes)
    (hk : k < (m.shape n).bytes) : m.memory.byteAt? (m.i + k) = some (m.spriteByte k) := by
  have length : k < (m.memory.slice m.i (m.i + (m.shape n).bytes)).length := by
    rw [Memory.length_slice fits]
    exact hk
  rw [spriteByte, ← Memory.getElem?_slice fits hk, List.getElem?_eq_getElem length]
  rfl

/-- The bits of a sprite are the pixels that are lit in it. -/
theorem spriteBit_iff (fits : m.memory.Fits m.i (m.shape n).bytes) :
    m.spriteBit n column row = true ↔ m.SpriteSet n column row := by
  have size := m.spriteSize_eq n
  by_cases inside : column < (m.shape n).width ∧ row < (m.shape n).height
  · have stored := byteAt?_of_fits fits (SpriteShape.index_lt_bytes inside.1 inside.2)
    simp only [spriteBit, SpriteShape.isSet, SpriteSet, size, inside, stored, decide_true,
      Bool.true_and, true_and, Option.any_some, spriteRow]
    cases wide : (m.shape n).wide with
    | false =>
      have columns : (m.shape n).width = 8 := by rw [SpriteShape.width, wide]; rfl
      have left : column < 8 := columns ▸ inside.1
      rw [columns, if_neg (by omega), SpriteShape.stride, wide, if_neg Bool.false_ne_true,
        show row * 1 + column / 8 = row by omega, show 7 - column % 8 = 8 - 1 - column by omega]
    | true =>
      have columns : (m.shape n).width = 16 := by rw [SpriteShape.width, wide]; rfl
      have left : column < 16 := columns ▸ inside.1
      rw [columns, if_pos rfl, SpriteShape.stride, wide, if_pos rfl, testBit_pair]
      by_cases first : column < 8
      · rw [if_neg (by omega), show row * 2 + column / 8 = 2 * row by omega,
          show 16 - 1 - column - 8 = 7 - column % 8 by omega]
      · rw [if_pos (by omega), show row * 2 + column / 8 = 2 * row + 1 by omega,
          show 16 - 1 - column = 7 - column % 8 by omega]
  · have beyond : ¬ m.SpriteSet n column row := by
      rintro ⟨left, above, _⟩
      rw [size] at left above
      exact inside ⟨left, above⟩
    simp only [beyond, spriteBit, SpriteShape.isSet, ← Bool.decide_and, decide_eq_false inside,
      Bool.false_and, Bool.false_eq_true]

/-! ## Where the bits fall -/

/-- The place that a point of the sprite falls on. Its origin is always on the screen; beyond that
it wraps around, or leaves the screen if sprites are clipped. -/
def landing (m : Machine) (x y : Register) (column row : Nat) : Nat × Nat :=
  let left := (m.getV x).toNat % m.display.width + column
  let top := (m.getV y).toNat % m.display.height + row
  if m.dialect.clip then (left, top) else (left % m.display.width, top % m.display.height)

/-- A set bit of the sprite falls on the pixel. -/
def Meets (m : Machine) (x y : Register) (n : Fin 16) (pixel : Nat × Nat) : Prop :=
  m.display.onScreen pixel ∧
    ∃ column row, m.SpriteSet n column row ∧ m.landing x y column row = pixel

theorem pixelAt_eq_some_iff {pixel : Nat × Nat} :
    m.display.pixelAt ((m.getV x).toNat % m.display.width + column)
        ((m.getV y).toNat % m.display.height + row) (!m.dialect.clip) = some pixel ↔
      m.display.onScreen pixel ∧ m.landing x y column row = pixel := by
  constructor
  · intro found
    refine ⟨Display.onScreen_of_pixelAt found, ?_⟩
    cases clip : m.dialect.clip with
    | false =>
      simp only [clip, Display.pixelAt, Bool.not_false, if_true, Option.some.injEq] at found
      simp only [landing, clip, Bool.false_eq_true, if_false, found]
    | true =>
      simp only [clip, Display.pixelAt, Bool.not_true, Bool.false_eq_true, if_false,
        Option.ite_none_right_eq_some, Option.some.injEq] at found
      simp only [landing, clip, if_true, found.2]
  · rintro ⟨shown, rfl⟩
    cases clip : m.dialect.clip with
    | false =>
      simp only [landing, clip, Display.pixelAt, Bool.not_false, if_true, Bool.false_eq_true, if_false]
    | true =>
      simp only [landing, clip, if_true] at shown ⊢
      exact if_pos shown

theorem covers_iff_meets (fits : m.memory.Fits m.i (m.shape n).bytes) {pixel : Nat × Nat} :
    m.Covers x y n pixel ↔ m.Meets x y n pixel := by
  simp only [Covers, Meets, spriteBit_iff fits, pixelAt_eq_some_iff]
  constructor
  · rintro ⟨column, row, set, shown, falls⟩
    exact ⟨shown, column, row, set, falls⟩
  · rintro ⟨shown, column, row, set, falls⟩
    exact ⟨column, row, set, shown, falls⟩

theorem WellFormed.sixteen_le (hm : m.WellFormed) :
    16 ≤ m.display.width ∧ 16 ≤ m.display.height := by
  refine Display.sixteen_le_of_mode ?_
  rw [hm.screen]
  cases m.lowRes with
  | true => exact .inl rfl
  | false => exact .inr rfl

theorem spriteSize_le (m : Machine) (n : Fin 16) :
    (m.spriteSize n).1 ≤ 16 ∧ (m.spriteSize n).2 ≤ 16 := by
  rw [spriteSize_eq]
  exact ⟨SpriteShape.width_le _, SpriteShape.height_ofHeight_le _ _ n.isLt⟩

/-- Two set bits never fall on one place. -/
theorem WellFormed.landing_inj (hm : m.WellFormed) {column' row' : Nat}
    (set : m.SpriteSet n column row) (set' : m.SpriteSet n column' row')
    (h : m.landing x y column row = m.landing x y column' row') : column = column' ∧ row = row' := by
  obtain ⟨wide, tall⟩ := hm.sixteen_le
  obtain ⟨columns, rows⟩ := m.spriteSize_le n
  have left : column < m.display.width := Nat.lt_of_lt_of_le set.1 (Nat.le_trans columns wide)
  have left' : column' < m.display.width := Nat.lt_of_lt_of_le set'.1 (Nat.le_trans columns wide)
  have top : row < m.display.height := Nat.lt_of_lt_of_le set.2.1 (Nat.le_trans rows tall)
  have top' : row' < m.display.height := Nat.lt_of_lt_of_le set'.2.1 (Nat.le_trans rows tall)
  unfold landing at h
  cases clip : m.dialect.clip with
  | false =>
    -- No sprite is larger than the screen, so two of its points do not meet by wrapping around.
    simp only [clip, Bool.false_eq_true, if_false, Prod.mk.injEq] at h
    exact ⟨Display.eq_of_add_mod_eq left left' h.1, Display.eq_of_add_mod_eq top top' h.2⟩
  | true =>
    simp only [clip, if_true, Prod.mk.injEq] at h
    exact ⟨Nat.add_left_cancel h.1, Nat.add_left_cancel h.2⟩

/-! ## A step that draws -/

theorem step_of_draw (hm : m.WellFormed) (asked : m.upcoming? = some (.draw x y n)) {s : Stamp}
    (found : m.stampAt x y n = .ok s) :
    m.step.machine.display = m.display.flipAll (m.display.under s) ∧
      m.step.machine.getV .flag = if m.display.hits (m.display.under s) then 1 else 0 := by
  obtain ⟨_, opcode, _, step⟩ := of_upcoming? asked
  have found : (m.fetched opcode).stampAt x y n = .ok s := found
  have drawn : (m.fetched opcode).execute (.draw x y n) = _ :=
    run_draw_of_proper (m := m.fetched opcode) hm.display found
  rw [step, (perform_of_ok drawn).1]
  split <;> exact ⟨rfl, getV_setFlag _ _⟩

/-- What a draw instruction does to the screen and to the flag. -/
structure DrawsExactly (m : Machine) (x y : Register) (n : Fin 16) (m' : Machine) : Prop where
  size : m'.display.size = m.display.size
  /-- A pixel is inverted if a set bit of the sprite falls on it, and stays as it is if none does. -/
  inverted : ∀ p, m.display.onScreen p →
    (m'.display.isLit p.1 p.2 ≠ m.display.isLit p.1 p.2 ↔ m.Meets x y n p)
  /-- No two set bits fall on one place. -/
  apart : ∀ column row column' row', m.SpriteSet n column row → m.SpriteSet n column' row' →
    m.landing x y column row = m.landing x y column' row' → column = column' ∧ row = row'
  /-- The pixels under the set bits are inverted one by one, none of them twice, and nothing else
  happens to the screen. -/
  once : ∃ pixels : List (Nat × Nat), pixels.Nodup ∧ (∀ p, p ∈ pixels ↔ m.Meets x y n p) ∧
    m'.display = m.display.flipAll pixels
  /-- The flag tells whether one of them was lit. -/
  hit : (∃ p, m.Meets x y n p ∧ m.display.isLit p.1 p.2 = true) → m'.getV .flag = 1
  missed : (¬ ∃ p, m.Meets x y n p ∧ m.display.isLit p.1 p.2 = true) → m'.getV .flag = 0

/-- A step that draws a sprite whose bytes lie in memory inverts the pixels under its set bits, each
of them once, and no others. -/
theorem drawsExactly_step (hm : m.WellFormed) (asked : m.upcoming? = some (.draw x y n))
    (inside : m.SpriteInside n) : m.DrawsExactly x y n m.step.machine := by
  have fits := hm.fits_of_inside inside
  obtain ⟨s, found⟩ : ∃ s, m.stampAt x y n = .ok s := ⟨_, stampAt_of_fits x y fits⟩
  obtain ⟨drawn, flag⟩ := step_of_draw hm asked found
  obtain ⟨wide, tall⟩ := hm.sixteen_le
  have nodup := nodup_under n.isLt wide tall found
  have met : ∀ p, p ∈ m.display.under s ↔ m.Meets x y n p :=
    fun p => (mem_under_iff found).trans (covers_iff_meets fits)
  have shown : ∀ p ∈ m.display.under s, m.display.onScreen p := fun p hp => ((met p).mp hp).1
  have hits : m.display.hits (m.display.under s) = true ↔
      ∃ p, m.Meets x y n p ∧ m.display.isLit p.1 p.2 = true := by
    rw [Display.hits_iff_of_nodup hm.display shown nodup]
    simp only [met]
  refine {
    size := ?_
    inverted := ?_
    apart := ?_
    once := ⟨_, nodup, met, drawn⟩
    hit := ?_
    missed := ?_ }
  · rw [drawn]
    exact Prod.ext (Display.width_flipAll _ _) (Display.height_flipAll _ _)
  · intro p _
    rw [drawn, Display.isLit_flipAll hm.display shown, nodup.count, ← met]
    by_cases member : p ∈ m.display.under s
    · simp [member]
    · simp [member]
  · intro column row column' row' set set' same
    exact hm.landing_inj set set' same
  · intro hit
    rw [flag, hits.mpr hit]
    rfl
  · intro missed
    rw [flag, Bool.eq_false_iff.mpr fun hit => missed (hits.mp hit)]
    rfl

/-- A large sprite that the flag register puts at the right edge, where most of it is clipped. -/
theorem drawsExactly_step_edge :
    let m := { new { clip := true } true false (.cycle []) with
      i := 0x50
      v := (Vector.replicate 16 0).set 15 0xFE
      lowRes := false
      display := .highResolution
      memory := bareMemory.putAll 0x200 [0xDF, 0x00] }
    m.WellFormed ∧ m.upcoming? = some (.draw .flag .first 0) ∧ m.SpriteInside 0 ∧
      m.display.isLit 127 0 = false ∧ m.step.machine.display.isLit 127 0 = true := by
  intro m
  have hm : m.WellFormed := { new_wellFormed {} true false (.cycle []) with
    memory := by decide
    index := by decide
    display := Display.blank_proper _ _
    screen := rfl
    lowRes := nofun }
  have asked : m.upcoming? = some (.draw .flag .first 0) := by decide +kernel
  have inside : m.SpriteInside 0 := by
    unfold SpriteInside
    decide +kernel
  have met : m.Meets .flag .first 0 (127, 0) := by
    refine ⟨⟨by decide, by decide⟩, 1, 0, ?_, by decide +kernel⟩
    unfold SpriteSet
    decide +kernel
  have dark : m.display.isLit 127 0 = false := by decide +kernel
  have changed := ((drawsExactly_step hm asked inside).inverted (127, 0) met.1).mpr met
  rw [dark, Bool.ne_false_iff] at changed
  exact ⟨hm, asked, inside, dark, changed⟩

end Chip8.Machine
