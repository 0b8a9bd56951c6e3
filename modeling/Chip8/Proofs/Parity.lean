import Chip8.Proofs.Configuration
import Chip8.Proofs.Loading
import Chip8.Proofs.Painting

/-! What a screen shows after any history of resizes, clears and inversions. Only the inversions since
it was last dark count: a pixel is lit exactly if an odd number of them fell on it. A size for whose
pixels there is no room is taken without its cells; until another size is taken, such a screen shows
nothing of use. How much room there is, the host says. -/

namespace Chip8

/-! ## Histories -/

/-- What is done to a screen. -/
inductive Touch where
  | resize (width height : Int)
  | clear
  /-- Inverts a pixel; points beyond the edges wrap around. -/
  | invert (x y : Int)
  deriving DecidableEq, Repr

/-- A size, and the points inverted since the screen was last dark. -/
structure Canvas where
  width : Nat
  height : Nat
  points : List (Int × Int) := []

namespace Canvas

/-- A size without pixels is refused. -/
def next (c : Canvas) : Touch → Canvas
  | .resize width height =>
    if 0 < width ∧ 0 < height then { width := width.toNat, height := height.toNat } else c
  | .clear => { c with points := [] }
  | .invert x y => { c with points := c.points ++ [(x, y)] }

def after (c : Canvas) (touches : List Touch) : Canvas := touches.foldl next c

/-- The points that are congruent to a pixel. -/
def hits (c : Canvas) (x y : Nat) : Nat :=
  c.points.countP fun (p : Int × Int) => p.1 % c.width = x % c.width ∧ p.2 % c.height = y % c.height

/-- There is room for all pixels. -/
def Fits (room : Nat) (c : Canvas) : Prop := Number.Fits room (c.width * c.height)

end Canvas

namespace Display

variable {room : Nat} {d : Display} {c : Canvas} {x y : Int}

/-- The screen behind a touch, and the answer: an inversion tells whether the pixel was lit. -/
def touch (room : Nat) (d : Display) : Touch → Display × Except Failure (Option Bool)
  | .resize width height =>
    ((d.resize room width height).1, (d.resize room width height).2.map fun _ => none)
  | .clear => (d.clear, .ok none)
  | .invert x y =>
    match d.invert x y true with
    | .ok (lit, d') => (d', .ok lit)
    | .error fault => (d, .error fault)

def touchAll (room : Nat) (d : Display) (touches : List Touch) : Display :=
  touches.foldl (fun d t => (d.touch room t).1) d

/-! ## Single touches -/

theorem count_of_fits {width height : Int} (h : 0 < width ∧ 0 < height)
    (fits : Number.Fits room (width.toNat * height.toNat)) :
    Number.count room 1 (width * height) = .ok (width * height).toNat := by
  have product : (width * height).toNat = width.toNat * height.toNat :=
    Int.toNat_mul (by omega) (by omega)
  apply Number.count_of_fits (by decide) (Int.mul_nonneg (by omega) (by omega))
  rwa [Nat.one_mul, product]

theorem resize_of_empty {width height : Int} (h : ¬ (0 < width ∧ 0 < height)) :
    d.resize room width height = (d, .error .emptyScreen) := by
  rw [resize, dif_neg h]

theorem resize_of_fits {width height : Int} (h : 0 < width ∧ 0 < height)
    (fits : Number.Fits room (width.toNat * height.toNat)) :
    d.resize room width height = (blank width.toNat height.toNat (Int.pos_iff_toNat_pos.mp h.1)
      (Int.pos_iff_toNat_pos.mp h.2), .ok ()) := by
  rw [resize, dif_pos h, count_of_fits h fits]

/-- A size is taken before it turns out that there is no room for its cells. -/
theorem resize_of_large {width height : Int} (h : 0 < width ∧ 0 < height)
    (large : ¬ Number.Fits room (width.toNat * height.toNat)) :
    ∃ cause, (d.resize room width height).2 = .error (.number cause) ∧
      (d.resize room width height).1.size = (width.toNat, height.toNat) := by
  rw [resize, dif_pos h]
  cases counted : Number.count room 1 (width * height) with
  | error cause => exact ⟨cause, rfl, rfl⟩
  | ok k =>
    obtain ⟨rfl, fits⟩ := Number.fits_of_count counted
    rw [Nat.one_mul, Int.toNat_mul (by omega) (by omega)] at fits
    exact absurd fits large

theorem cells_clear (h : 0 ≤ d.cells.size) : d.cells.clear = .ok d.clear.cells := by
  have zeroed : d.cells.zeroBlock (0 : Nat) (d.cells.size - (0 : Nat)).toNat =
      .ok (d.cells.zeroFrom 0) := Memory.zeroBlock_eq_zeroFrom h
  rw [Int.natCast_zero, Int.sub_zero] at zeroed
  rw [Memory.clear, Memory.zeroSpan, if_neg (by omega), zeroed]
  rfl

theorem isLit_clear (d : Display) (x y : Nat) : d.clear.isLit x y = false := by
  rw [isLit_eq]
  simp only [clear, Memory.zeroFrom_zero, Memory.zeros, Array.getElem?_replicate]
  split <;> simp

/-- The pixel that a point wraps around to. -/
def wrapped (d : Display) (x y : Int) : Nat × Nat := ((x % d.width).toNat, (y % d.height).toNat)

theorem natCast_wrapped (d : Display) (x y : Int) :
    ((d.wrapped x y).1 : Int) = x % d.width ∧ ((d.wrapped x y).2 : Int) = y % d.height :=
  have width := d.width_pos
  have height := d.height_pos
  ⟨Int.toNat_of_nonneg (Int.emod_nonneg _ (by omega)), Int.toNat_of_nonneg (Int.emod_nonneg _ (by omega))⟩

theorem onScreen_wrapped (d : Display) (x y : Int) : d.onScreen (d.wrapped x y) := by
  obtain ⟨column, row⟩ := d.natCast_wrapped x y
  have width := d.width_pos
  have height := d.height_pos
  have left : x % d.width < d.width := Int.emod_lt_of_pos _ (by omega)
  have top : y % d.height < d.height := Int.emod_lt_of_pos _ (by omega)
  constructor <;> omega

/-- An inversion that wraps is one on the screen. -/
theorem invert_wrapped (hd : d.Proper) (x y : Int) :
    d.invert x y true =
      .ok (some (d.isLit (d.wrapped x y).1 (d.wrapped x y).2), d.flip (d.wrapped x y)) := by
  obtain ⟨column, row⟩ := d.natCast_wrapped x y
  have inside := d.onScreen_wrapped x y
  have located : d.locate x y true = d.locate (d.wrapped x y).1 (d.wrapped x y).2 true := by
    simp only [locate, if_true, column, row, Int.emod_emod_of_dvd, dvd_refl]
  have found : d.pixelAt (d.wrapped x y).1 (d.wrapped x y).2 true = some (d.wrapped x y) :=
    pixelAt_of_onScreen inside true
  rw [← invert_of_pixelAt hd found, invert, invert, located]

theorem size_touch_invert (room : Nat) (d : Display) (x y : Int) :
    (d.touch room (.invert x y)).1.size = d.size := by
  cases inverted : d.invert x y true with
  | error fault => simp only [touch, inverted]
  | ok result =>
    obtain ⟨lit, d'⟩ := result
    obtain ⟨width, height⟩ := size_of_invert inverted
    simp only [touch, inverted, size, width, height]

/-! ## The history of a screen -/

/-- A screen has the size of the canvas, and shows it if there is room for it. -/
structure Shows (room : Nat) (d : Display) (c : Canvas) : Prop where
  size : d.size = (c.width, c.height)
  proper : c.Fits room → d.Proper
  isLit : c.Fits room → ∀ x y, x < c.width → y < c.height → d.isLit x y = decide (c.hits x y % 2 = 1)

theorem shows_blank {width height : Nat} (hw : 0 < width) (hh : 0 < height) :
    (blank width height hw hh).Shows room ⟨width, height, []⟩ where
  size := rfl
  proper _ := blank_proper hw hh
  isLit _ x y _ _ := isLit_blank hw hh x y

theorem hits_concat (c : Canvas) (x y : Int) (p : Nat × Nat) :
    (c.next (.invert x y)).hits p.1 p.2 = c.hits p.1 p.2 +
      if x % c.width = p.1 % c.width ∧ y % c.height = p.2 % c.height then 1 else 0 := by
  rw [Canvas.next, Canvas.hits, Canvas.hits, List.countP_append, List.countP_singleton]
  congr 1
  simp only [decide_eq_true_eq]

theorem Shows.invert (h : d.Shows room c) (x y : Int) :
    (d.touch room (.invert x y)).1.Shows room (c.next (.invert x y)) := by
  obtain ⟨width, height⟩ : d.width = c.width ∧ d.height = c.height := Prod.ext_iff.mp h.size
  have touched (hd : d.Proper) : (d.touch room (.invert x y)).1 = d.flip (d.wrapped x y) := by
    simp only [touch, invert_wrapped hd]
  refine ⟨(d.size_touch_invert room x y).trans h.size, fun fits => ?_, fun fits k l hk hl => ?_⟩
  · rw [touched (h.proper fits)]
    exact (h.proper fits).flip (d.onScreen_wrapped x y)
  · have hd := h.proper fits
    change k < c.width at hk
    change l < c.height at hl
    obtain ⟨column, row⟩ := d.natCast_wrapped x y
    have same : (k, l) = d.wrapped x y ↔
        x % c.width = (k : Int) % c.width ∧ y % c.height = (l : Int) % c.height := by
      rw [Int.emod_eq_of_lt (a := (k : Int)) (by omega) (by omega),
        Int.emod_eq_of_lt (a := (l : Int)) (by omega) (by omega), ← width, ← height, ← column, ← row,
        Prod.ext_iff]
      omega
    rw [touched hd, isLit_flip hd (d.onScreen_wrapped x y), h.isLit fits k l hk hl,
      show (c.next (.invert x y)).hits k l = _ from hits_concat c x y (k, l)]
    by_cases met : (k, l) = d.wrapped x y
    · rw [if_pos (same.mp met), decide_eq_true met, Bool.xor_true]
      rcases Nat.mod_two_eq_zero_or_one (c.hits k l) with even | odd
      · have next : (c.hits k l + 1) % 2 = 1 := by omega
        simp only [even, next, Nat.zero_ne_one, decide_false, decide_true, Bool.not_false]
      · have next : (c.hits k l + 1) % 2 = 0 := by omega
        simp only [odd, next, Nat.zero_ne_one, decide_false, decide_true, Bool.not_true]
    · rw [if_neg (mt same.mpr met), Nat.add_zero, decide_eq_false met, Bool.xor_false]

theorem Shows.touch (h : d.Shows room c) (t : Touch) : (d.touch room t).1.Shows room (c.next t) := by
  cases t with
  | resize width height =>
    show (d.resize room width height).1.Shows room (if 0 < width ∧ 0 < height then _ else c)
    by_cases positive : 0 < width ∧ 0 < height
    · rw [if_pos positive]
      by_cases fits : Number.Fits room (width.toNat * height.toNat)
      · rw [resize_of_fits positive fits]
        exact shows_blank _ _
      · obtain ⟨_, -, size⟩ := resize_of_large (d := d) positive fits
        exact ⟨size, fun small => absurd small fits, fun small => absurd small fits⟩
    · rw [if_neg positive, resize_of_empty positive]
      exact h
  | clear => exact ⟨h.size, fun fits => (h.proper fits).clear, fun _ x y _ _ => d.isLit_clear x y⟩
  | invert x y => exact h.invert x y

theorem Shows.touchAll (h : d.Shows room c) (touches : List Touch) :
    (d.touchAll room touches).Shows room (c.after touches) := by
  induction touches generalizing d c with
  | nil => exact h
  | cons t rest ih => exact ih (h.touch t)

/-! ## Pictures of the cells -/

theorem flatten_picture (hd : d.Proper) : d.picture.flatten = d.cells.cells.toList.map (· != 0) := by
  have sized := sized_picture hd
  have length : d.picture.flatten.length = d.cells.cells.size := by rw [sized.length_flatten, hd.size]
  apply List.ext_getElem?
  intro k
  by_cases inside : k < d.cells.cells.size
  · obtain ⟨x, y, hx, hy, rfl⟩ : ∃ x y, x < d.width ∧ y < d.height ∧ k = d.cellOf (x, y) := by
      refine ⟨k % d.width, k / d.width, Nat.mod_lt _ d.width_pos, ?_, ?_⟩
      · rw [hd.size] at inside
        exact Nat.div_lt_of_lt_mul inside
      · rw [cellOf, Nat.mul_comm, Nat.div_add_mod]
    have shown : d.picture.flatten[d.cellOf (x, y)]? = some (d.isLit x y) := by
      rw [← isLit_picture hd hx hy]
      exact sized.getElem?_flatten hx hy
    rw [shown, isLit_eq, List.getElem?_map, Array.getElem?_toList, Array.getElem?_eq_getElem inside]
    simp only [hx, decide_true, Bool.true_and, Option.any_some, Option.map_some]
  · rw [List.getElem?_eq_none (by omega),
      List.getElem?_eq_none (by rw [List.length_map, Array.length_toList]; omega)]

theorem litCount_eq (hd : d.Proper) : d.litCount = d.picture.flatten.count true := by
  rw [flatten_picture hd, List.count_eq_countP, List.countP_map, litCount, ← Array.countP_toList]
  congr 1
  funext b
  exact (beq_true _).symm

/-- What a screen has of a canvas for which there is room. -/
structure Draws (room : Nat) (d : Display) (c : Canvas) : Prop where
  size : d.size = (c.width, c.height)
  sized : Picture.Sized d.picture c.width c.height
  isLit_iff : ∀ x y, x < c.width → y < c.height →
    (Picture.isLit d.picture x y = true ↔ c.hits x y % 2 = 1)
  litCount : d.litCount = d.picture.flatten.count true
  /-- An inversion tells whether the pixel was lit. -/
  invert : ∀ x y : Int, (d.touch room (.invert x y)).2 =
    .ok (some (Picture.isLit d.picture (x % c.width).toNat (y % c.height).toNat))
  /-- A clear zeroes all cells, which does not fail. -/
  clear : d.cells.clear = .ok d.clear.cells
  resized : ∀ width height : Int, (d.touch room (.resize width height)).2 = .ok none ↔
    0 < width ∧ 0 < height ∧ Number.Fits room (width.toNat * height.toNat)
  refused : ∀ width height : Int, ¬ (0 < width ∧ 0 < height) →
    d.touch room (.resize width height) = (d, .error .emptyScreen)

theorem ok_touch_resize_iff {width height : Int} :
    (d.touch room (.resize width height)).2 = .ok none ↔
      0 < width ∧ 0 < height ∧ Number.Fits room (width.toNat * height.toNat) := by
  by_cases positive : 0 < width ∧ 0 < height
  · by_cases fits : Number.Fits room (width.toNat * height.toNat)
    · simp only [touch, resize_of_fits positive fits]
      exact iff_of_true rfl ⟨positive.1, positive.2, fits⟩
    · obtain ⟨cause, failed, -⟩ := resize_of_large (d := d) positive fits
      simp only [touch, failed]
      exact iff_of_false nofun fun taken => fits taken.2.2
  · simp only [touch, resize_of_empty positive]
    exact iff_of_false nofun fun taken => positive ⟨taken.1, taken.2.1⟩

theorem Shows.draws (h : d.Shows room c) (fits : c.Fits room) : d.Draws room c := by
  have hd := h.proper fits
  obtain ⟨width, height⟩ : d.width = c.width ∧ d.height = c.height := Prod.ext_iff.mp h.size
  have sized := sized_picture hd
  rw [width, height] at sized
  refine { size := h.size, sized := sized, isLit_iff := ?_, litCount := litCount_eq hd, invert := ?_
           clear := ?_, resized := fun _ _ => ok_touch_resize_iff, refused := ?_ }
  · intro x y hx hy
    rw [isLit_picture hd (width ▸ hx) (height ▸ hy), h.isLit fits x y hx hy, decide_eq_true_eq]
  · intro x y
    obtain ⟨column, row⟩ := d.onScreen_wrapped x y
    simp only [Display.touch, invert_wrapped hd, ← width, ← height]
    rw [← isLit_picture hd column row]
    rfl
  · refine cells_clear ?_
    rw [hd.whole]
    exact Int.natCast_nonneg _
  · intro width height empty
    rw [Display.touch, resize_of_empty empty]
    rfl

theorem ofSize_of_fits {width height : Int} (h : 0 < width ∧ 0 < height)
    (fits : Number.Fits room (width.toNat * height.toNat)) :
    ofSize room width height = .ok (blank width.toNat height.toNat (Int.pos_iff_toNat_pos.mp h.1)
      (Int.pos_iff_toNat_pos.mp h.2)) := by
  rw [ofSize, dif_pos h, count_of_fits h fits]

/-- Whatever has happened to a screen, it shows the parity of the inversions since it was last dark,
unless there is no room for the size that was taken last. -/
theorem draws_touchAll (room : Nat) {width height : Int} (positive : 0 < width ∧ 0 < height)
    (fits : Number.Fits room (width.toNat * height.toNat)) :
    ∃ d, ofSize room width height = .ok d ∧ ∀ touches : List Touch,
      let c : Canvas := Canvas.after { width := width.toNat, height := height.toNat } touches
      c.Fits room → (d.touchAll room touches).Draws room c :=
  ⟨_, ofSize_of_fits positive fits, fun touches fits =>
    ((shows_blank _ _).touchAll touches).draws fits⟩

/-- Three inversions of one pixel from different sides of the screen, and a size that is refused. -/
theorem draws_touchAll_wrapped :
    let touches : List Touch := [.invert 5 (-1), .resize 0 7, .invert (-3) 2, .invert 9 5]
    ∃ d, ofSize 12 4 3 = .ok d ∧ (d.touchAll 12 touches).size = (4, 3) ∧
      Picture.isLit (d.touchAll 12 touches).picture 1 2 = true ∧
      Picture.isLit (d.touchAll 12 touches).picture 2 2 = false := by
  intro touches
  have positive : (0 : Int) < 4 ∧ (0 : Int) < 3 := by decide
  obtain ⟨d, made, law⟩ := draws_touchAll 12 positive (by decide)
  have drawn := law touches (by show Number.Fits 12 (4 * 3); decide)
  have dark := mt (drawn.isLit_iff 2 2 (by decide) (by decide)).mp (by decide)
  exact ⟨d, made, drawn.size, (drawn.isLit_iff 1 2 (by decide) (by decide)).mpr (by decide),
    Bool.eq_false_iff.mpr dark⟩

/-- A size with more pixels than there are indices is refused and taken all the same, even where
there would be room for it. The rows of the picture are not of that size then, and an inversion that
wraps may fail. -/
theorem oversized_screen_faults :
    let room := 0x10000000000000000
    let d := blank 4 3 (by decide) (by decide)
    let oversized := d.touchAll room [.resize 0x4000000000000000 3]
    (d.touch room (.resize 0x4000000000000000 3)).2 = .error (.number .overflow) ∧
      oversized.size = (0x4000000000000000, 3) ∧
      oversized.picture = [List.replicate 12 false, [], []] ∧
      (oversized.touch room (.invert 12 0)).2 = .error (.fault (.outside 12)) := by
  refine ⟨rfl, rfl, ?_, rfl⟩
  decide

end Display

end Chip8
