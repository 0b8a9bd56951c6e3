import Chip8.Host.SurfaceView
import Chip8.Proofs.Display
import Chip8.Proofs.WrittenPalette

/-! The buffer of a window. It is written in place, three bytes at a time, and never becomes longer or
shorter than the pixels of the size that was last taken; so it always holds the last picture of that
size, pixel by pixel, and can be read back if the two colours differ. -/

namespace Chip8

/-! ## Blocks of one length -/

section Blocks

variable {α : Type} {blocks : List (List α)} {n : Nat}

theorem length_flatten_of_length (h : ∀ block ∈ blocks, block.length = n) :
    blocks.flatten.length = n * blocks.length := by
  rw [List.length_flatten, List.map_congr_left h, List.map_const', List.sum_replicate_nat, Nat.mul_comm]

theorem take_flatten_of_length (h : ∀ block ∈ blocks, block.length = n) (k : Nat) :
    blocks.flatten.take (n * k) = (blocks.take k).flatten := by
  induction blocks generalizing k with
  | nil => simp only [List.flatten_nil, List.take_nil]
  | cons block rest ih =>
    obtain ⟨rfl, later⟩ := List.forall_mem_cons.mp h
    cases k with
    | zero => rfl
    | succ k =>
      rw [List.take_succ_cons, List.flatten_cons, List.flatten_cons, Nat.mul_succ, Nat.add_comm,
        List.take_length_add_append, ih later]

theorem drop_flatten_of_length (h : ∀ block ∈ blocks, block.length = n) (k : Nat) :
    blocks.flatten.drop (n * k) = (blocks.drop k).flatten := by
  induction blocks generalizing k with
  | nil => simp only [List.flatten_nil, List.drop_nil]
  | cons block rest ih =>
    obtain ⟨rfl, later⟩ := List.forall_mem_cons.mp h
    cases k with
    | zero => rfl
    | succ k =>
      rw [List.drop_succ_cons, List.flatten_cons, Nat.mul_succ, Nat.add_comm,
        List.drop_length_add_append, ih later]

end Blocks

/-! ## Pictures of a size -/

namespace Picture

variable {picture : Picture} {width height x y : Nat}

structure Sized (picture : Picture) (width height : Nat) : Prop where
  rows : picture.length = height
  columns : ∀ row ∈ picture, row.length = width

def isLit (picture : Picture) (x y : Nat) : Bool := (picture[y]?.bind fun row => row[x]?).getD false

theorem Sized.length_flatten (h : Sized picture width height) :
    picture.flatten.length = width * height := by
  rw [length_flatten_of_length h.columns, h.rows]

theorem Sized.getElem?_flatten (h : Sized picture width height) (hx : x < width) (hy : y < height) :
    picture.flatten[y * width + x]? = some (picture.isLit x y) := by
  have above : y < picture.length := h.rows ▸ hy
  have inside : x < picture[y].length := by rwa [h.columns _ (List.getElem_mem above)]
  rw [Nat.mul_comm, ← List.getElem?_drop, drop_flatten_of_length h.columns,
    List.drop_eq_getElem_cons above, List.flatten_cons, List.getElem?_append_left inside, isLit,
    List.getElem?_eq_getElem above, Option.bind_some, List.getElem?_eq_getElem inside, Option.getD_some]

/-- A picture is known by its pixels. -/
theorem Sized.eq_map (h : Sized picture width height) :
    picture = (List.range height).map fun y => (List.range width).map fun x => picture.isLit x y := by
  apply List.ext_getElem
  · rw [List.length_map, List.length_range, h.rows]
  · intro y hy _
    have columns := h.columns picture[y] (List.getElem_mem hy)
    apply List.ext_getElem
    · simp only [List.getElem_map, List.length_map, List.length_range, columns]
    · intro x hx _
      simp only [List.getElem_map, List.getElem_range, isLit, List.getElem?_eq_getElem hy,
        Option.bind_some, List.getElem?_eq_getElem hx, Option.getD_some]

end Picture

/-- A screen gives pictures of its own size. -/
theorem Display.sized_picture {d : Display} (h : d.Proper) :
    Picture.Sized d.picture d.width d.height where
  rows := by rw [Display.picture, List.length_map, List.length_range]
  columns row member := by
    obtain ⟨y, hy, rfl⟩ := List.mem_map.mp member
    rw [Display.row_eq d h.size (List.mem_range.mp hy), List.length_map, List.length_range]

theorem Display.isLit_picture {d : Display} (h : d.Proper) {x y : Nat} (hx : x < d.width)
    (hy : y < d.height) : Picture.isLit d.picture x y = d.isLit x y := by
  have column : (d.row y)[x]? = some (d.isLit x y) := by
    rw [Display.row_eq d h.size hy, List.getElem?_map, List.getElem?_range hx, Option.map_some]
  rw [Picture.isLit, Display.picture, List.getElem?_map, List.getElem?_range hy, Option.map_some,
    Option.bind_some, column, Option.getD_some]

/-! ## Bytes -/

namespace Colour

theorem bytes_injective : Function.Injective bytes := by
  rintro ⟨r, g, b⟩ ⟨r', g', b'⟩ h
  simpa only [bytes, List.cons.injEq, and_true, mk.injEq] using h

variable {colours : List Colour}

theorem length_of_mem_map_bytes : ∀ block ∈ colours.map bytes, block.length = 3 := by
  intro block member
  obtain ⟨c, -, rfl⟩ := List.mem_map.mp member
  rfl

theorem length_flatMap_bytes (colours : List Colour) :
    (colours.flatMap bytes).length = 3 * colours.length := by
  rw [List.flatMap_def, length_flatten_of_length length_of_mem_map_bytes, List.length_map]

theorem take_flatMap_bytes (colours : List Colour) (k : Nat) :
    (colours.flatMap bytes).take (3 * k) = (colours.take k).flatMap bytes := by
  rw [List.flatMap_def, take_flatten_of_length length_of_mem_map_bytes, List.flatMap_def, List.map_take]

theorem drop_flatMap_bytes (colours : List Colour) (k : Nat) :
    (colours.flatMap bytes).drop (3 * k) = (colours.drop k).flatMap bytes := by
  rw [List.flatMap_def, drop_flatten_of_length length_of_mem_map_bytes, List.flatMap_def, List.map_drop]

end Colour

/-- The three bytes of a pixel. -/
def bytesAt (buffer : List UInt8) (k : Nat) : List UInt8 := (buffer.drop (3 * k)).take 3

theorem bytesAt_flatMap {colours : List Colour} {k : Nat} {c : Colour} (h : colours[k]? = some c) :
    bytesAt (colours.flatMap Colour.bytes) k = c.bytes := by
  obtain ⟨inside, rfl⟩ := List.getElem?_eq_some_iff.mp h
  rw [bytesAt, Colour.drop_flatMap_bytes, List.drop_eq_getElem_cons inside, List.flatMap_cons]
  rfl

/-- The picture that a buffer shows: what has the bytes of the lit colour is lit. -/
def readPicture (lit : Colour) (buffer : List UInt8) (width height : Nat) : Picture :=
  (List.range height).map fun y =>
    (List.range width).map fun x => bytesAt buffer (y * width + x) = lit.bytes

/-- Puts bytes in the place of three, or of as many as are left. -/
def overwrite (buffer : List UInt8) (place : Nat) (bytes : List UInt8) : List UInt8 :=
  buffer.take place ++ bytes ++ buffer.drop (place + 3)

namespace WindowView

variable {v : WindowView} {pixels : Array Colour} {k : Nat}

/-- Writes a pixel to the buffer and goes on to the place of the next. -/
def paintPixel (v : WindowView) (buffer : List UInt8 × Nat) (lit : Bool) : List UInt8 × Nat :=
  (overwrite buffer.1 buffer.2 (v.colour lit).bytes, buffer.2 + 3)

/-- Writes a picture to the buffer, row by row. -/
def paint (v : WindowView) (picture : Picture) : List UInt8 :=
  (picture.foldl (fun buffer row => row.foldl v.paintPixel buffer) (v.buffer, 0)).1

theorem toList_putPixel (h : k ≤ pixels.size) (c : Colour) :
    (putPixel pixels k c).toList = pixels.toList.take k ++ c :: pixels.toList.drop (k + 1) := by
  unfold putPixel
  split
  · next inside =>
    rw [Array.toList_setIfInBounds, List.set_eq_take_append_cons_drop,
      if_pos (by rwa [Array.length_toList])]
  · have last : pixels.toList.length = k := by rw [Array.length_toList]; omega
    rw [Array.toList_push, List.take_of_length_le (by omega), List.drop_of_length_le (by omega)]

theorem size_putPixel (h : k ≤ pixels.size) (c : Colour) : k + 1 ≤ (putPixel pixels k c).size := by
  rw [← Array.length_toList, toList_putPixel h, List.length_append, List.length_cons, List.length_take,
    Array.length_toList, Nat.min_eq_left h]
  omega

/-- A pixel is replaced by replacing its three bytes. -/
theorem overwrite_flatMap (h : k ≤ pixels.size) (c : Colour) :
    overwrite (pixels.toList.flatMap Colour.bytes) (3 * k) c.bytes =
      (putPixel pixels k c).toList.flatMap Colour.bytes := by
  rw [overwrite, ← Nat.mul_succ, Colour.take_flatMap_bytes, Colour.drop_flatMap_bytes,
    toList_putPixel h, List.flatMap_append, List.flatMap_cons, List.append_assoc]

/-- The loop over the bytes keeps up with the one over the colours: its place is three times theirs. -/
theorem foldl_paintPixel (v : WindowView) (h : k ≤ pixels.size) (lights : List Bool) :
    lights.foldl v.paintPixel (pixels.toList.flatMap Colour.bytes, 3 * k) =
      ((putPixels pixels k (lights.map v.colour)).toList.flatMap Colour.bytes,
        3 * (k + lights.length)) := by
  induction lights generalizing pixels k with
  | nil => rfl
  | cons lit rest ih =>
    rw [List.foldl_cons, paintPixel, overwrite_flatMap h, ← Nat.mul_succ, ih (size_putPixel h _),
      List.length_cons, Nat.succ_add_eq_add_succ]
    rfl

/-- A picture is drawn by overwriting the buffer from its start, three bytes a pixel. -/
theorem buffer_draw (v : WindowView) (picture : Picture) : (v.draw picture).buffer = v.paint picture := by
  rw [paint, ← List.foldl_flatten]
  exact congrArg Prod.fst (v.foldl_paintPixel (Nat.zero_le _) picture.flatten).symm

/-- Pixels that reach to the end of the buffer leave only what is in front of them. -/
theorem toList_putPixels {colours : List Colour} (h : k + colours.length = pixels.size) :
    (putPixels pixels k colours).toList = pixels.toList.take k ++ colours := by
  induction colours generalizing pixels k with
  | nil =>
    have all : pixels.toList.length ≤ k := Nat.le_of_eq h.symm
    rw [putPixels, List.append_nil, List.take_of_length_le all]
  | cons c rest ih =>
    rw [List.length_cons] at h
    have inside : k < pixels.size := by omega
    have front : (pixels.toList.take k).length = k := by
      rw [List.length_take, Array.length_toList]
      omega
    have size : (putPixel pixels k c).size = pixels.size := by
      rw [putPixel, if_pos inside, Array.size_setIfInBounds]
    rw [putPixels, ih (by rw [size]; omega), toList_putPixel (Nat.le_of_lt inside), List.take_append,
      front, List.take_of_length_le (by omega), Nat.add_sub_cancel_left, List.append_assoc]
    rfl

end WindowView

/-! ## Scenes -/

/-- The size that was taken last, and what was drawn since. -/
structure Scene where
  width : Nat := 0
  height : Nat := 0
  picture : Option Picture := none

namespace Scene

variable {τ : Type}

/-- A size for whose bytes there is no room is not taken. -/
def next (room : Nat) (s : Scene) : HostCall τ → Scene
  | .resolution width height =>
    if Number.Fits room (3 * (width * height)) then { width, height } else s
  | .draw picture => { s with picture := some picture }
  | _ => s

def after (room : Nat) (s : Scene) (calls : List (HostCall τ)) : Scene :=
  calls.foldl (next room) s

/-- Whatever is drawn has the size that was taken last. -/
def Fitting (room : Nat) (s : Scene) : List (HostCall τ) → Prop
  | [] => True
  | call :: rest =>
    (∀ picture, call = .draw picture → picture.Sized s.width s.height) ∧
      (s.next room call).Fitting room rest

/-- The pixels, row by row; all are dark before anything is drawn. -/
def lights (s : Scene) : List Bool :=
  s.picture.elim (List.replicate (s.width * s.height) false) List.flatten

def isLit (s : Scene) (x y : Nat) : Bool := s.picture.any fun picture => picture.isLit x y

def Sized (s : Scene) : Prop := ∀ picture, s.picture = some picture → picture.Sized s.width s.height

variable {s : Scene} {x y : Nat}

theorem Sized.length_lights (h : s.Sized) : s.lights.length = s.width * s.height := by
  unfold lights
  cases drawn : s.picture with
  | none => exact List.length_replicate
  | some picture => exact (h picture drawn).length_flatten

theorem Sized.getElem?_lights (h : s.Sized) (hx : x < s.width) (hy : y < s.height) :
    s.lights[y * s.width + x]? = some (s.isLit x y) := by
  unfold lights isLit
  cases drawn : s.picture with
  | none =>
    have inside : y * s.width + x < s.width * s.height := calc
      y * s.width + x < (y + 1) * s.width := by rw [Nat.succ_mul]; omega
      _ ≤ s.height * s.width := Nat.mul_le_mul_right _ hy
      _ = s.width * s.height := Nat.mul_comm _ _
    exact List.getElem?_replicate_of_lt inside
  | some picture => exact (h picture drawn).getElem?_flatten hx hy

end Scene

namespace WindowView

variable {τ : Type} {host : Host} {v : WindowView} {s : Scene} {call : HostCall τ}

/-! ## Calls -/

/-- The window after a row of calls. A call that it refuses leaves it as it is. -/
def after (host : Host) (v : WindowView) (calls : List (HostCall τ)) : WindowView :=
  calls.foldl (fun v call => (SurfaceView.serveWindow host v call).toOption.getD v) v

theorem toOption_setResolution (room : Nat) (v : WindowView) (width height : Nat) :
    (v.setResolution room width height).toOption =
      if Number.Fits room (3 * (width * height)) then
        some { v with
          width := width
          height := height
          pixels := Array.replicate (width * height) v.palette.dark }
      else none := by
  have product : (width : Int) * height = (width * height : Nat) := (Int.natCast_mul _ _).symm
  unfold setResolution
  rw [product]
  by_cases fits : Number.Fits room (3 * (width * height))
  · rw [if_pos fits, Number.count_of_fits (by decide) (Int.natCast_nonneg _) fits]
    rfl
  · rw [if_neg fits]
    cases asked : Number.count room 3 (width * height : Nat) with
    | error cause => rfl
    | ok n =>
      obtain ⟨rfl, found⟩ := Number.fits_of_count asked
      exact absurd found fits

/-- The buffer has the pixels of the scene and no others, in colours that stay the same. -/
structure Holds (colours : Palette) (v : WindowView) (s : Scene) : Prop where
  palette : v.palette = colours
  size : v.width = s.width ∧ v.height = s.height
  sized : s.Sized
  pixels : v.pixels.toList = s.lights.map v.colour

variable {colours : Palette}

theorem Holds.resolution (h : Holds colours v s) (width height : Nat) :
    Holds colours ((v.setResolution host.room width height).toOption.getD v)
      (s.next host.room (.resolution width height : HostCall τ)) := by
  rw [toOption_setResolution, Scene.next]
  split
  · refine ⟨h.palette, ⟨rfl, rfl⟩, nofun, ?_⟩
    show (Array.replicate (width * height) v.palette.dark).toList =
      (List.replicate (width * height) false).map v.colour
    rw [Array.toList_replicate, List.map_replicate]
    rfl
  · exact h

theorem Holds.draw (h : Holds colours v s) {picture : Picture}
    (fits : picture.Sized s.width s.height) :
    Holds colours (v.draw picture) (s.next host.room (.draw picture : HostCall τ)) := by
  have sized : Scene.Sized { s with picture := some picture } := fun _ drawn =>
    Option.some.inj drawn ▸ fits
  have count : v.pixels.size = s.width * s.height := by
    rw [← Array.length_toList, h.pixels, List.length_map, h.sized.length_lights]
  -- The picture covers the whole buffer, so nothing of what was there before remains.
  have full : 0 + (picture.flatten.map v.colour).length = v.pixels.size := by
    rw [Nat.zero_add, List.length_map, fits.length_flatten, count]
  exact ⟨h.palette, h.size, sized, toList_putPixels full⟩

theorem Holds.next (h : Holds colours v s)
    (fits : ∀ picture, call = .draw picture → picture.Sized s.width s.height) :
    Holds colours ((SurfaceView.serveWindow host v call).toOption.getD v) (s.next host.room call) := by
  cases call with
  | resolution width height => exact h.resolution width height
  | draw picture => exact h.draw (fits picture rfl)
  | title text =>
    show Holds colours ((v.setTitle host.window text).toOption.getD v) s
    unfold setTitle
    cases host.window.setCaption text with
    | error failure => exact h
    | ok _ => exact ⟨h.palette, h.size, h.sized, h.pixels⟩
  | refresh =>
    show Holds colours (((v.refresh host.window).map fun _ => v).toOption.getD v) s
    cases v.refresh host.window <;> exact h
  | buzzer _ => exact h
  | sleep _ => exact h
  | print _ => exact h

theorem Holds.after (h : Holds colours v s) {calls : List (HostCall τ)}
    (fitting : s.Fitting host.room calls) :
    Holds colours (v.after host calls) (s.after host.room calls) := by
  induction calls generalizing v s with
  | nil => exact h
  | cons call rest ih => exact ih (h.next fitting.1) fitting.2

variable {scale smoothing : Setting Int} {palette : Setting String}

theorem holds_of_new (opened : new host.window scale palette smoothing = .ok v) :
    Holds v.palette v {} := by
  obtain ⟨width, opens⟩ := opens_of_new opened
  rw [new_of_opens opens] at opened
  cases read : Palette.ofSetting palette with
  | error failure =>
    rw [read] at opened
    cases opened
  | ok colours =>
    rw [read] at opened
    obtain rfl := Except.ok.inj opened
    exact ⟨rfl, ⟨rfl, rfl⟩, nofun, rfl⟩

/-! ## What the buffer shows -/

/-- What a window in these colours has of a scene. -/
structure Shows (room : Nat) (colours : Palette) (v : WindowView) (s : Scene) : Prop where
  palette : v.palette = colours
  size : v.width = s.width ∧ v.height = s.height
  length : v.buffer.length = 3 * (s.width * s.height)
  drawn : ∀ picture, s.picture = some picture → ∀ x y, x < s.width → y < s.height →
    bytesAt v.buffer (y * s.width + x) =
      (if picture.isLit x y then colours.lit else colours.dark).bytes
  blank : s.picture = none → ∀ x y, x < s.width → y < s.height →
    bytesAt v.buffer (y * s.width + x) = colours.dark.bytes
  recovered : colours.dark ≠ colours.lit → ∀ picture, s.picture = some picture →
    readPicture colours.lit v.buffer s.width s.height = picture
  /-- Drawing writes to the buffer in place. -/
  painted : ∀ picture, (v.draw picture).buffer = v.paint picture
  /-- The only sizes that are refused are those for which there is no room. -/
  refused : ∀ width height : Nat, (v.setResolution room width height).toOption = none ↔
    ¬ Number.Fits room (3 * (width * height))

theorem Holds.bytesAt_eq (h : Holds colours v s) {x y : Nat} (hx : x < s.width) (hy : y < s.height) :
    bytesAt v.buffer (y * s.width + x) = (if s.isLit x y then colours.lit else colours.dark).bytes := by
  rw [buffer, h.pixels, ← h.palette]
  apply bytesAt_flatMap
  rw [List.getElem?_map, h.sized.getElem?_lights hx hy, Option.map_some, colour]

theorem Holds.readPicture_eq (h : Holds colours v s) (different : colours.dark ≠ colours.lit)
    {picture : Picture} (last : s.picture = some picture) :
    readPicture colours.lit v.buffer s.width s.height = picture := by
  have lit_iff (lit : Bool) :
      (if lit then colours.lit else colours.dark).bytes = colours.lit.bytes ↔ lit = true := by
    rw [Colour.bytes_injective.eq_iff]
    cases lit with
    | false => exact ⟨fun same => absurd same different, nofun⟩
    | true => exact ⟨fun _ => rfl, fun _ => rfl⟩
  conv_rhs => rw [(h.sized picture last).eq_map]
  apply List.map_congr_left
  intro y hy
  apply List.map_congr_left
  intro x hx
  rw [h.bytesAt_eq (List.mem_range.mp hx) (List.mem_range.mp hy), Scene.isLit, last, Option.any_some]
  simp only [lit_iff, Bool.decide_eq_true]

theorem Holds.shows (room : Nat) (h : Holds colours v s) : Shows room colours v s where
  palette := h.palette
  size := h.size
  length := by
    rw [buffer, Colour.length_flatMap_bytes, h.pixels, List.length_map, h.sized.length_lights]
  drawn picture last x y hx hy := by rw [h.bytesAt_eq hx hy, Scene.isLit, last, Option.any_some]
  blank fresh x y hx hy := by
    rw [h.bytesAt_eq hx hy, Scene.isLit, fresh]
    rfl
  recovered different picture last := h.readPicture_eq different last
  painted := v.buffer_draw
  refused width height := by
    rw [toOption_setResolution, ite_eq_right_iff]
    exact ⟨fun absent fits => Option.some_ne_none _ (absent fits), fun full fits => absurd fits full⟩

/-- After any row of calls the buffer shows the last picture of the size that was taken last, whatever
the host refuses. -/
theorem shows_after (host : Host) (opened : new host.window scale palette smoothing = .ok v)
    {calls : List (HostCall τ)} (fitting : Scene.Fitting host.room {} calls) :
    Shows host.room v.palette (v.after host calls) (Scene.after host.room {} calls) :=
  ((holds_of_new opened).after fitting).shows host.room

/-- Two pictures of different sizes, as many pixels in each. -/
theorem shows_after_resizing :
    ∃ v, new Host.desktop.window .absent .absent .absent = .ok v ∧
      let calls : List (HostCall Nat) := [.resolution 2 1, .draw [[true, true]], .resolution 1 2,
        .refresh, .draw [[false], [true]]]
      Scene.Fitting Host.desktop.room {} calls ∧ (v.after .desktop calls).buffer.length = 6 ∧
        bytesAt (v.after .desktop calls).buffer 0 = [0x22, 0x22, 0x22] ∧
        bytesAt (v.after .desktop calls).buffer 1 = [0xDD, 0xDD, 0xDD] := by
  have opened : new Host.desktop.window .absent .absent .absent = .ok _ := rfl
  refine ⟨_, opened, ?_⟩
  intro calls
  have fitting : Scene.Fitting Host.desktop.room {} calls := by
    refine ⟨nofun, ?_, nofun, nofun, ?_, trivial⟩
    · rintro _ ⟨⟩
      exact ⟨rfl, by decide⟩
    · rintro _ ⟨⟩
      exact ⟨rfl, by decide⟩
  have shows := shows_after .desktop opened fitting
  exact ⟨fitting, shows.length, shows.drawn _ rfl 0 0 (by decide) (by decide),
    shows.drawn _ rfl 0 1 (by decide) (by decide)⟩

end WindowView

end Chip8
