import Chip8.Machine.Sprite
import Chip8.Proofs.Display
import Chip8.Proofs.Memory

/-! What a draw instruction inverts. A sprite on the screen is a stamp: an origin, a shape, bytes,
and whether it wraps. The pixels under the lit ones of a stamp are a list that does not depend on
what the screen shows, so a draw is one run of inversions with a mask known beforehand. -/

namespace Chip8

namespace SpriteShape

/-- How many bytes a row has. -/
def stride (s : SpriteShape) : Nat := if s.wide then 2 else 1

/-- Whether a sprite is lit at a column and a row. The most significant bit of a byte is its
leftmost pixel. -/
def isSet (s : SpriteShape) (byte? : Nat → Option UInt8) (column row : Nat) : Bool :=
  column < s.width && row < s.height &&
    (byte? (row * s.stride + column / 8)).any (·.toNat.testBit (7 - column % 8))

theorem index_lt_bytes {s : SpriteShape} {column row : Nat} (hc : column < s.width)
    (hr : row < s.height) : row * s.stride + column / 8 < s.bytes := by
  obtain ⟨height, wide⟩ := s
  cases wide with
  | false =>
    have narrow : column < 8 := hc
    have below : row < height := hr
    show row * 1 + column / 8 < height
    omega
  | true =>
    have broad : column < 16 := hc
    have below : row < height := hr
    show row * 2 + column / 8 < 2 * height
    omega

theorem isSet_congr {s : SpriteShape} {f g : Nat → Option UInt8} (h : ∀ k < s.bytes, f k = g k)
    (column row : Nat) : s.isSet f column row = s.isSet g column row := by
  unfold isSet
  by_cases inside : column < s.width ∧ row < s.height
  · rw [h _ (index_lt_bytes inside.1 inside.2)]
  · rw [← Bool.decide_and, decide_eq_false inside, Bool.false_and, Bool.false_and]

theorem width_le (s : SpriteShape) : s.width ≤ 16 := by
  unfold width
  split <;> omega

theorem height_ofHeight_le (hires lowRes : Bool) {height : Nat} (h : height < 16) :
    (ofHeight hires lowRes height).height ≤ 16 := by
  unfold ofHeight
  split
  · exact Nat.le_refl 16
  · exact Nat.le_of_lt h

end SpriteShape

/-! ## Points of a sprite -/

/-- Neighbouring bytes in pairs, the more significant one first. -/
def words : List UInt8 → List Nat
  | a :: b :: rest => (a.toNat * 0x100 + b.toNat) :: words rest
  | _ => []

/-- The rows of a sprite as numbers whose most significant bit is the leftmost pixel. -/
def spriteRows (wide : Bool) (bytes : List UInt8) : List Nat :=
  if wide then words bytes else bytes.map UInt8.toNat

/-- Column and row of every lit pixel, row by row from the top and from left to right. -/
def spritePoints (width : Nat) (rows : List Nat) : List (Nat × Nat) :=
  rows.zipIdx.flatMap fun (bits, row) =>
    ((List.range width).filter fun column => bits.testBit (width - 1 - column)).map (·, row)

theorem getElem?_words : ∀ (bytes : List UInt8) (row : Nat),
    (words bytes)[row]? = (bytes[row * 2]?).bind fun a =>
      (bytes[row * 2 + 1]?).map fun b => a.toNat * 0x100 + b.toNat
  | [], _ => rfl
  | [_], 0 => rfl
  | [_], _ + 1 => rfl
  | _ :: _ :: _, 0 => rfl
  | a :: b :: rest, row + 1 => by
    rw [words, List.getElem?_cons_succ, getElem?_words rest row, Nat.succ_mul]
    rfl

theorem length_words : ∀ bytes : List UInt8, (words bytes).length = bytes.length / 2
  | [] => rfl
  | [_] => by simp [words]
  | a :: b :: rest => by
    rw [words, List.length_cons, length_words rest, List.length_cons, List.length_cons]
    omega

theorem mem_spritePoints {width : Nat} {rows : List Nat} {p : Nat × Nat} :
    p ∈ spritePoints width rows ↔
      p.1 < width ∧ ∃ bits, rows[p.2]? = some bits ∧ bits.testBit (width - 1 - p.1) = true := by
  simp only [spritePoints, List.mem_flatMap, List.mem_map, List.mem_filter, List.mem_range]
  constructor
  · rintro ⟨⟨bits, row⟩, found, column, ⟨inside, lit⟩, rfl⟩
    exact ⟨inside, bits, List.mk_mem_zipIdx_iff_getElem?.mp found, lit⟩
  · rintro ⟨inside, bits, found, lit⟩
    exact ⟨(bits, p.2), List.mk_mem_zipIdx_iff_getElem?.mpr found, p.1, ⟨inside, lit⟩, rfl⟩

theorem nodup_spritePoints (width : Nat) (rows : List Nat) : (spritePoints width rows).Nodup := by
  rw [spritePoints, List.Nodup, List.pairwise_flatMap]
  constructor
  · rintro ⟨bits, row⟩ _
    rw [List.pairwise_map]
    refine (List.Pairwise.filter _ List.nodup_range).imp ?_
    intro a b apart same
    exact apart (Prod.ext_iff.mp same).1
  · have indices : (rows.zipIdx.map Prod.snd).Nodup := by
      rw [List.zipIdx_map_snd]
      exact List.nodup_range'
    rw [List.Nodup, List.pairwise_map] at indices
    refine indices.imp ?_
    intro a b apart p hp q hq same
    obtain ⟨_, _, rfl⟩ := List.mem_map.mp hp
    obtain ⟨_, _, rfl⟩ := List.mem_map.mp hq
    exact apart (Prod.ext_iff.mp same).2

/-- Bits of two bytes that make one row. -/
theorem testBit_pair (a b : UInt8) (k : Nat) : (a.toNat * 0x100 + b.toNat).testBit k =
    if k < 8 then b.toNat.testBit k else a.toNat.testBit (k - 8) := by
  rw [Nat.mul_comm]
  exact Nat.testBit_two_pow_mul_add a.toNat b.toNat_lt k

theorem mem_points_narrow {height : Nat} {bytes : List UInt8} (sized : bytes.length = height)
    {column row : Nat} : (column, row) ∈ spritePoints 8 (spriteRows false bytes) ↔
      SpriteShape.isSet ⟨height, false⟩ (bytes[·]?) column row = true := by
  simp only [mem_spritePoints, spriteRows, Bool.false_eq_true, if_false, List.getElem?_map, Option.map_eq_some_iff,
    SpriteShape.isSet, SpriteShape.width, SpriteShape.stride,
    Bool.and_eq_true, decide_eq_true_eq, Option.any_eq_true]
  constructor
  · rintro ⟨inside, _, ⟨b, found, rfl⟩, lit⟩
    have below := (List.getElem?_eq_some_iff.mp found).1
    rw [show row * 1 + column / 8 = row by omega, show 7 - column % 8 = 8 - 1 - column by omega]
    exact ⟨⟨inside, by omega⟩, b, found, lit⟩
  · rintro ⟨⟨inside, _⟩, b, found, lit⟩
    rw [show row * 1 + column / 8 = row by omega] at found
    rw [show 7 - column % 8 = 8 - 1 - column by omega] at lit
    exact ⟨inside, b.toNat, ⟨b, found, rfl⟩, lit⟩

theorem mem_points_wide {height : Nat} {bytes : List UInt8} (sized : bytes.length = 2 * height)
    {column row : Nat} : (column, row) ∈ spritePoints 16 (spriteRows true bytes) ↔
      SpriteShape.isSet ⟨height, true⟩ (bytes[·]?) column row = true := by
  simp only [mem_spritePoints, spriteRows, if_true, getElem?_words, Option.bind_eq_some_iff, Option.map_eq_some_iff,
    SpriteShape.isSet, SpriteShape.width, SpriteShape.stride,
    Bool.and_eq_true, decide_eq_true_eq, Option.any_eq_true]
  constructor
  · rintro ⟨inside, _, ⟨a, high, b, low, rfl⟩, lit⟩
    have below := (List.getElem?_eq_some_iff.mp low).1
    refine ⟨⟨inside, by omega⟩, ?_⟩
    rw [testBit_pair] at lit
    by_cases left : column < 8
    · rw [if_neg (by omega), show 16 - 1 - column - 8 = 7 - column % 8 by omega] at lit
      rw [show row * 2 + column / 8 = row * 2 by omega]
      exact ⟨a, high, lit⟩
    · rw [if_pos (by omega), show 16 - 1 - column = 7 - column % 8 by omega] at lit
      rw [show row * 2 + column / 8 = row * 2 + 1 by omega]
      exact ⟨b, low, lit⟩
  · rintro ⟨⟨inside, below⟩, byte, found, lit⟩
    have high : bytes[row * 2]? = some _ := List.getElem?_eq_getElem (by omega)
    have low : bytes[row * 2 + 1]? = some _ := List.getElem?_eq_getElem (by omega)
    refine ⟨inside, _, ⟨_, high, _, low, rfl⟩, ?_⟩
    rw [testBit_pair]
    by_cases left : column < 8
    · rw [show row * 2 + column / 8 = row * 2 by omega, high] at found
      cases found
      rw [if_neg (by omega), show 16 - 1 - column - 8 = 7 - column % 8 by omega]
      exact lit
    · rw [show row * 2 + column / 8 = row * 2 + 1 by omega, low] at found
      cases found
      rw [if_pos (by omega), show 16 - 1 - column = 7 - column % 8 by omega]
      exact lit

/-- The lit pixels of a sprite are its set bits. -/
theorem mem_points_iff {s : SpriteShape} {bytes : List UInt8} (sized : bytes.length = s.bytes)
    {column row : Nat} : (column, row) ∈ spritePoints s.width (spriteRows s.wide bytes) ↔
      s.isSet (bytes[·]?) column row = true := by
  obtain ⟨height, wide⟩ := s
  cases wide with
  | false => exact mem_points_narrow sized
  | true => exact mem_points_wide sized

namespace SpriteShape

theorem length_spriteRows {s : SpriteShape} {bytes : List UInt8} (sized : bytes.length = s.bytes) :
    (spriteRows s.wide bytes).length = s.height := by
  obtain ⟨height, wide⟩ := s
  cases wide with
  | false => exact (List.length_map _).trans sized
  | true =>
    have sized : bytes.length = 2 * height := sized
    show (words bytes).length = height
    rw [length_words, sized, Nat.mul_div_cancel_left height (by decide)]

theorem readRow_of_fits {s : SpriteShape} {memory : Memory} {address : Int}
    (fits : memory.Fits address s.bytes) {row bits : Nat}
    (found : (spriteRows s.wide (memory.slice address (address + s.bytes)))[row]? = some bits) :
    s.readRow memory address row = .ok bits := by
  have sized := Memory.length_slice fits
  have byte : ∀ {k : Nat} {b : UInt8},
      (memory.slice address (address + s.bytes))[k]? = some b → memory.read (address + k) = .ok b := by
    intro k b here
    have inside := (List.getElem?_eq_some_iff.mp here).1
    rw [Memory.getElem?_slice fits (by omega)] at here
    rw [Memory.read, here]
  unfold readRow
  cases wide : s.wide with
  | false =>
    rw [wide, spriteRows, if_neg Bool.false_ne_true, List.getElem?_map] at found
    obtain ⟨b, here, rfl⟩ := Option.map_eq_some_iff.mp found
    rw [if_neg Bool.false_ne_true, byte here]
    rfl
  | true =>
    rw [wide, spriteRows, if_pos rfl, getElem?_words] at found
    obtain ⟨a, high, rest⟩ := Option.bind_eq_some_iff.mp found
    obtain ⟨b, low, rfl⟩ := Option.map_eq_some_iff.mp rest
    have high := byte high
    have low := byte low
    push_cast at high low
    rw [← Int.add_assoc] at low
    rw [if_pos rfl, high]
    simp only [bind, Except.bind, low]
    rfl
end SpriteShape

/-! ## Stamps -/

/-- A sprite with the place it goes to. -/
structure Stamp where
  x : Nat
  y : Nat
  shape : SpriteShape
  bytes : List UInt8
  wrap : Bool
  deriving DecidableEq, Repr

/-! ## Checks within a run -/

namespace Execution

variable {ε σ α : Type}

theorem run_lift_ok (a : α) (s : σ) :
    (liftExcept (.ok a : Except ε α) : EStateM ε σ α).run s = .ok a s := rfl

theorem run_lift_error (e : ε) (s : σ) :
    (liftExcept (.error e : Except ε α) : EStateM ε σ α).run s = .error e s := rfl

end Execution

/-! ## Inversions -/

namespace Display

/-- The pixels of a screen that points around an origin fall on. -/
def pixelsAt (d : Display) (x y : Nat) (wrap : Bool) (points : List (Nat × Nat)) : List (Nat × Nat) :=
  points.filterMap fun p => d.pixelAt (x + p.1) (y + p.2) wrap

/-- The pixels under the lit ones of a stamp. -/
def under (d : Display) (s : Stamp) : List (Nat × Nat) :=
  d.pixelsAt s.x s.y s.wrap (spritePoints s.shape.width (spriteRows s.shape.wide s.bytes))

/-- Whether inversions one after the other find a lit pixel. -/
def hits (d : Display) : List (Nat × Nat) → Bool
  | [] => false
  | p :: ps => d.isLit p.1 p.2 || (d.flip p).hits ps

theorem onScreen_of_mem_pixelsAt {d : Display} {x y : Nat} {wrap : Bool} {points : List (Nat × Nat)}
    {p : Nat × Nat} (h : p ∈ d.pixelsAt x y wrap points) : d.onScreen p := by
  obtain ⟨_, _, found⟩ := List.mem_filterMap.mp h
  exact onScreen_of_pixelAt found

theorem Proper.flipAll_under {d : Display} (hd : d.Proper) (s : Stamp) :
    (d.flipAll (d.under s)).Proper :=
  hd.flipAll fun _ hp => onScreen_of_mem_pixelsAt hp

theorem run_invertAll {d : Display} (hd : d.Proper) (x y : Nat) (wrap : Bool)
    (points : List (Nat × Nat)) : (invertAll x y wrap points).run d =
      .ok (d.hits (d.pixelsAt x y wrap points)) (d.flipAll (d.pixelsAt x y wrap points)) := by
  induction points generalizing d with
  | nil => rfl
  | cons point rest ih =>
    obtain ⟨column, row⟩ := point
    rw [pixelsAt, List.filterMap_cons]
    cases found : d.pixelAt (x + column) (y + row) wrap with
    | none =>
      simp only [invertAll, EStateM.run_bind, EStateM.run_get, invert_of_clipped found,
        Execution.run_lift_ok, EStateM.run_set, ih hd, EStateM.run_pure]
      rfl
    | some p =>
      simp only [invertAll, EStateM.run_bind, EStateM.run_get, invert_of_pixelAt hd found,
        Execution.run_lift_ok, EStateM.run_set, ih (hd.flip (onScreen_of_pixelAt found)),
        EStateM.run_pure]
      cases lit : d.isLit p.1 p.2 <;> simp only [hits, lit] <;> rfl

theorem kind_of_invertAll {d d' : Display} {x y : Nat} {wrap : Bool} {points : List (Nat × Nat)}
    {fault : Fault} (h : (invertAll x y wrap points).run d = .error fault d') :
    fault.kind = .memory := by
  induction points generalizing d with
  | nil => cases h
  | cons point rest ih =>
    cases inverted : d.invert (x + point.1 : Nat) (y + point.2 : Nat) wrap with
    | error found =>
      simp only [invertAll, EStateM.run_bind, EStateM.run_get, inverted, Execution.run_lift_error] at h
      cases h
      exact kind_of_invert inverted
    | ok result =>
      simp only [invertAll, EStateM.run_bind, EStateM.run_get, inverted, Execution.run_lift_ok,
        EStateM.run_set] at h
      split at h
      · cases h
      · next failed =>
        cases h
        exact ih failed

theorem invertAll_append (x y : Nat) (wrap : Bool) (ps qs : List (Nat × Nat)) :
    invertAll x y wrap (ps ++ qs) =
    (do
      let hit ← invertAll x y wrap ps
      let hits ← invertAll x y wrap qs
      return hit || hits) := by
  induction ps with
  | nil => simp only [List.nil_append, invertAll, pure_bind, Bool.false_or, bind_pure]
  | cons p ps ih =>
    simp only [List.cons_append, invertAll, ih, bind_assoc, pure_bind, Bool.or_assoc]

/-- Inversions of different pixels do not disturb each other. -/
theorem hits_iff_of_nodup {d : Display} (hd : d.Proper) {ps : List (Nat × Nat)}
    (h : ∀ p ∈ ps, d.onScreen p) (nodup : ps.Nodup) :
    d.hits ps = true ↔ ∃ p ∈ ps, d.isLit p.1 p.2 = true := by
  induction ps generalizing d with
  | nil => simp only [hits, Bool.false_eq_true, List.not_mem_nil, false_and, exists_false]
  | cons p ps ih =>
    obtain ⟨hp, hps⟩ := List.forall_mem_cons.mp h
    obtain ⟨fresh, nodup⟩ := List.nodup_cons.mp nodup
    have kept : ∀ q ∈ ps, (d.flip p).isLit q.1 q.2 = d.isLit q.1 q.2 := by
      intro q hq
      have apart : q ≠ p := fun same => fresh (same ▸ hq)
      rw [isLit_flip hd hp]
      simp only [apart, decide_false, Bool.xor_false]
    rw [hits, Bool.or_eq_true, ih (hd.flip hp) hps nodup]
    constructor
    · rintro (lit | ⟨q, hq, lit⟩)
      · exact ⟨p, List.mem_cons_self, lit⟩
      · exact ⟨q, List.mem_cons_of_mem p hq, kept q hq ▸ lit⟩
    · rintro ⟨q, hq, lit⟩
      rcases List.mem_cons.mp hq with rfl | hq
      · exact .inl lit
      · exact .inr ⟨q, hq, (kept q hq).trans lit⟩

theorem eq_of_add_mod_eq {w o k l : Nat} (hk : k < w) (hl : l < w)
    (h : (o + k) % w = (o + l) % w) : k = l := by
  have cast : ((o : Int) + k) % w = (o + l) % w := by
    rw [← Int.natCast_add, ← Int.natCast_add, ← Int.natCast_emod, ← Int.natCast_emod, h]
  have rest : ((k : Int) % w) = l % w := Int.emod_add_cancel_left.mp cast
  rw [← Int.natCast_emod, ← Int.natCast_emod, Nat.mod_eq_of_lt hk, Nat.mod_eq_of_lt hl] at rest
  exact Int.ofNat_inj.mp rest

/-- Points closer together than the size of the screen fall on different pixels. -/
theorem pixelAt_inj {d : Display} {x y : Nat} {wrap : Bool} {p q pixel : Nat × Nat}
    (hp : d.onScreen p) (hq : d.onScreen q)
    (hp' : d.pixelAt (x + p.1) (y + p.2) wrap = some pixel)
    (hq' : d.pixelAt (x + q.1) (y + q.2) wrap = some pixel) : p = q := by
  unfold pixelAt at hp' hq'
  cases wrap with
  | true =>
    have same := Option.some.inj (hp'.trans hq'.symm)
    exact Prod.ext (eq_of_add_mod_eq hp.1 hq.1 (Prod.ext_iff.mp same).1)
      (eq_of_add_mod_eq hp.2 hq.2 (Prod.ext_iff.mp same).2)
  | false =>
    simp only [Bool.false_eq_true, if_false, Option.ite_none_right_eq_some, Option.some.injEq] at hp' hq'
    have same := Prod.ext_iff.mp (hp'.2.trans hq'.2.symm)
    exact Prod.ext (Nat.add_left_cancel same.1) (Nat.add_left_cancel same.2)

theorem nodup_pixelsAt {d : Display} {x y : Nat} {wrap : Bool} {points : List (Nat × Nat)}
    (h : ∀ p ∈ points, d.onScreen p) (nodup : points.Nodup) :
    (d.pixelsAt x y wrap points).Nodup := by
  rw [pixelsAt, List.Nodup, List.pairwise_filterMap]
  refine nodup.imp_of_mem ?_
  rintro p q hp hq apart pixel hp' pixel' hq' rfl
  exact apart (pixelAt_inj (h p hp) (h q hq) hp' hq')

end Display

/-! ## Runs on a screen -/

namespace Execution

/-- Nothing but the screen changes while something runs on it. -/
theorem of_onDisplay {α : Type} {m m' : Machine} {run : EStateM Fault Display α} {a : α}
    (h : (onDisplay run).run m = .ok a m') : ∃ d, m' = { m with display := d } := by
  simp only [EStateM.run, onDisplay] at h
  split at h
  · cases h
    exact ⟨_, rfl⟩
  · cases h

theorem of_onDisplay_error {α : Type} {m m' : Machine} {run : EStateM Fault Display α} {fault : Fault}
    (h : (onDisplay run).run m = .error fault m') :
    m' = { m with display := m'.display } ∧ run.run m.display = .error fault m'.display := by
  simp only [EStateM.run, onDisplay] at h
  split at h
  · cases h
  · next failed =>
    cases h
    exact ⟨rfl, failed⟩

theorem onDisplay_bind {α β : Type} (run : EStateM Fault Display α)
    (next : α → EStateM Fault Display β) :
    onDisplay (run >>= next) = onDisplay run >>= fun a => onDisplay (next a) := by
  funext m
  simp only [onDisplay, bind, EStateM.bind]
  cases run m.display <;> rfl

theorem onDisplay_pure {α : Type} (a : α) : onDisplay (pure a) = pure a := rfl

theorem run_drawRows {shape : SpriteShape} {address : Int} {m : Machine} {rows : List Nat} {k : Nat}
    (x y : Nat) (wrap : Bool)
    (read : ∀ j bits, rows[j]? = some bits → shape.readRow m.memory address (k + j) = .ok bits) :
    (drawRows shape address x y wrap (List.range' k rows.length)).run m =
      (onDisplay (Display.invertAll x y wrap ((rows.zipIdx k).flatMap fun (bits, row) =>
        (shape.litColumns bits).map (·, row)))).run m := by
  induction rows generalizing m k with
  | nil => rfl
  | cons bits rest ih =>
    have here : shape.readRow m.memory address k = .ok bits := read 0 bits rfl
    rw [List.length_cons, List.range'_succ, List.zipIdx_cons, List.flatMap_cons,
      Display.invertAll_append, onDisplay_bind]
    simp only [drawRows, EStateM.run_bind, EStateM.run_get, here, run_lift_ok]
    cases first : (onDisplay (Display.invertAll x y wrap
      ((shape.litColumns bits).map (·, k)))).run m with
    | error fault m' => rfl
    | ok hit m' =>
      obtain ⟨d, rfl⟩ := of_onDisplay first
      have later := ih (m := { m with display := d }) (k := k + 1) fun j bits found => by
        have := read (j + 1) bits found
        rwa [Nat.add_right_comm, Nat.add_assoc]
      dsimp only
      rw [later, onDisplay_bind]
      simp only [onDisplay_pure, EStateM.run_bind]

end Execution

/-! ## Draw instructions -/

namespace Machine

open Display

/-- The shape of the sprite that a draw instruction puts on the screen. -/
def shape (m : Machine) (height : Nat) : SpriteShape := .ofHeight m.hires m.lowRes height

/-- The stamp of given bytes. -/
def stampOf (m : Machine) (x y : Register) (height : Nat) (bytes : List UInt8) : Stamp where
  x := (m.getV x).toNat % m.display.width
  y := (m.getV y).toNat % m.display.height
  shape := m.shape height
  bytes := bytes
  wrap := !m.dialect.clip

/-- What a draw instruction puts on the screen, if its bytes lie within memory. -/
def stampAt (m : Machine) (x y : Register) (height : Nat) : Except Fault Stamp :=
  (m.memory.readBlock m.i (m.shape height).bytes).map (m.stampOf x y height)

/-- The machine with a stamp on its screen. -/
def stamped (m : Machine) (s : Stamp) : Machine :=
  { m with display := m.display.flipAll (m.display.under s) }.setFlag
    (m.display.hits (m.display.under s))

/-- Whether the pixel of a sprite in memory is lit. -/
def spriteBit (m : Machine) (height column row : Nat) : Bool :=
  (m.shape height).isSet (fun k => m.memory.byteAt? (m.i + k)) column row

/-- The pixel lies under a lit one of the sprite that a draw instruction puts on the screen. -/
def Covers (m : Machine) (x y : Register) (height : Nat) (p : Nat × Nat) : Prop :=
  ∃ column row, m.spriteBit height column row = true ∧
    m.display.pixelAt ((m.getV x).toNat % m.display.width + column)
      ((m.getV y).toNat % m.display.height + row) (!m.dialect.clip) = some p

theorem stampAt_of_fits {m : Machine} {height : Nat} (x y : Register)
    (h : m.memory.Fits m.i (m.shape height).bytes) : m.stampAt x y height =
      .ok (m.stampOf x y height (m.memory.slice m.i (m.i + (m.shape height).bytes))) := by
  rw [stampAt, Memory.readBlock_of_fits h]
  rfl

theorem stampAt_of_not_fits {m : Machine} {height : Nat} (x y : Register)
    (h : ¬ m.memory.Fits m.i (m.shape height).bytes) :
    ∃ fault : Fault, m.stampAt x y height = .error fault ∧ fault.kind = .memory := by
  obtain ⟨fault, failed, kind⟩ := Memory.readBlock_of_not_fits h
  rw [stampAt, failed]
  exact ⟨fault, rfl, kind⟩

theorem stampAt_eq_ok {m : Machine} {x y : Register} {height : Nat} {s : Stamp}
    (h : m.stampAt x y height = .ok s) : ∃ bytes : List UInt8, s = m.stampOf x y height bytes ∧
      bytes.length = (m.shape height).bytes ∧
      ∀ k < (m.shape height).bytes, bytes[k]? = m.memory.byteAt? (m.i + k) := by
  by_cases fits : m.memory.Fits m.i (m.shape height).bytes
  · rw [stampAt_of_fits x y fits] at h
    exact ⟨_, (Except.ok.inj h).symm, Memory.length_slice fits, fun _ => Memory.getElem?_slice fits⟩
  · obtain ⟨fault, failed, _⟩ := stampAt_of_not_fits x y fits
    rw [failed] at h
    cases h

theorem error_of_map {α β : Type} {e : Except Fault α} {f : α → β} {fault : Fault}
    (h : e.map f = .error fault) : e = .error fault := by
  cases e with
  | error found =>
    cases h
    rfl
  | ok _ => cases h

/-- Without its bytes in memory a draw ends before it has begun. -/
theorem run_draw_of_refused {m : Machine} {x y : Register} {height : Nat} {fault : Fault}
    (h : m.stampAt x y height = .error fault) :
    (Execution.draw x y height).run m = .error fault m := by
  have unread : m.memory.readBlock m.i (m.shape height).bytes = .error fault := error_of_map h
  have refused := Memory.checkSpan_of_unread unread
  unfold shape at refused
  simp only [Execution.draw, EStateM.run_bind, EStateM.run_get, refused, Execution.run_lift_error]

/-- Reading the rows of a sprite one by one while they are drawn is as good as reading all of them
before. -/
theorem run_draw_of_stampAt {m : Machine} {x y : Register} {height : Nat} {s : Stamp}
    (h : m.stampAt x y height = .ok s) : (Execution.draw x y height).run m =
      (Execution.onDisplay (Display.invertAll s.x s.y s.wrap
        (spritePoints s.shape.width (spriteRows s.shape.wide s.bytes))) >>= fun hit =>
          modify fun m => m.setFlag hit).run m := by
  by_cases fits : m.memory.Fits m.i (m.shape height).bytes
  · rw [stampAt_of_fits x y fits] at h
    cases h
    have rows := SpriteShape.length_spriteRows (Memory.length_slice fits)
    have drawn := Execution.run_drawRows (m := m) (k := 0) ((m.getV x).toNat % m.display.width)
      ((m.getV y).toNat % m.display.height) (!m.dialect.clip) fun j bits found =>
        (Nat.zero_add j).symm ▸ SpriteShape.readRow_of_fits fits found
    rw [rows, ← List.range_eq_range'] at drawn
    have checked := Memory.checkSpan_of_fits fits
    unfold shape at drawn checked
    simp only [Execution.draw, EStateM.run_bind, EStateM.run_get, checked, Execution.run_lift_ok, drawn]
    rfl
  · obtain ⟨fault, failed, _⟩ := stampAt_of_not_fits x y fits
    rw [failed] at h
    cases h

/-- On a screen with a cell for each pixel a draw goes to its end. -/
theorem run_draw_of_proper {m : Machine} (hd : m.display.Proper) {x y : Register} {height : Nat}
    {s : Stamp} (h : m.stampAt x y height = .ok s) :
    (Execution.draw x y height).run m = .ok () (m.stamped s) := by
  have run := Display.run_invertAll hd s.x s.y s.wrap
    (spritePoints s.shape.width (spriteRows s.shape.wide s.bytes))
  simp only [EStateM.run] at run
  rw [run_draw_of_stampAt h, EStateM.run_bind]
  simp only [EStateM.run, Execution.onDisplay, run]
  rfl

theorem mem_under_iff {m : Machine} {x y : Register} {height : Nat} {s : Stamp}
    (h : m.stampAt x y height = .ok s) {p : Nat × Nat} :
    p ∈ m.display.under s ↔ m.Covers x y height p := by
  obtain ⟨bytes, rfl, sized, read⟩ := stampAt_eq_ok h
  have bits : ∀ column row, (column, row) ∈ spritePoints (m.shape height).width
      (spriteRows (m.shape height).wide bytes) ↔ m.spriteBit height column row = true := by
    intro column row
    rw [mem_points_iff sized, SpriteShape.isSet_congr read]
    exact Iff.rfl
  simp only [Display.under, Display.pixelsAt, stampOf, List.mem_filterMap, Prod.exists, bits]
  exact Iff.rfl

theorem nodup_under {m : Machine} {x y : Register} {height : Nat} {s : Stamp} (small : height < 16)
    (wide : 16 ≤ m.display.width) (tall : 16 ≤ m.display.height)
    (h : m.stampAt x y height = .ok s) : (m.display.under s).Nodup := by
  obtain ⟨bytes, rfl, sized, _⟩ := stampAt_eq_ok h
  refine nodup_pixelsAt ?_ (nodup_spritePoints _ _)
  rintro ⟨column, row⟩ lit
  have set := (mem_points_iff sized).mp lit
  simp only [SpriteShape.isSet, Bool.and_eq_true, decide_eq_true_eq] at set
  have rows : (m.shape height).height ≤ 16 := SpriteShape.height_ofHeight_le m.hires m.lowRes small
  have columns := SpriteShape.width_le (m.shape height)
  exact ⟨Nat.lt_of_lt_of_le set.1.1 (Nat.le_trans columns wide),
    Nat.lt_of_lt_of_le set.1.2 (Nat.le_trans rows tall)⟩

end Machine

end Chip8
