import Chip8.Host.TerminalView
import Chip8.Proofs.Painting
import Chip8.Proofs.TerminalText

/-! The pad of a terminal. As long as titles are of plain characters, everything on it is written inside
the rows and columns that its size was made for, with a row and a column left over; its top row is the
title, which no picture touches and which follows when another size takes another pad. -/

namespace Chip8

/-! ## Pads -/

/-- A text that was written on a pad, with the cells that it filled. -/
structure Writing where
  row : Int
  column : Int
  text : String
  reverse : Bool
  cells : List (Int × Int)
  deriving DecidableEq, Repr

namespace Writing

def call (w : Writing) : TerminalCall := .write w.row w.column w.text w.reverse

/-- A text that fills a cell for each of its characters. -/
def ofPlain (row column : Int) (text : String) (reverse : Bool) : Writing where
  row := row
  column := column
  text := text
  reverse := reverse
  cells := Spread.inRow row column text.length

def covers (w : Writing) (row column : Int) : Bool := w.cells.contains (row, column)

/-- The text was meant for the top row, or got there. -/
def onTop (w : Writing) : Bool := w.row = 0 || w.cells.any fun cell => cell.1 = 0

/-- This is what becomes of the text on a pad of a size. -/
def Taken (t : TerminalLibrary) (size : Int × Int) (w : Writing) : Prop :=
  t.spread size w.row w.column w.text = ⟨w.cells, .ok ()⟩

/-- In the rows from 0 to `height` and in the first `width` columns: so many characters from that place
on would be, and all cells are. -/
structure Inside (w : Writing) (width height : Nat) : Prop where
  top : 0 ≤ w.row
  bottom : w.row ≤ height
  left : 0 ≤ w.column
  right : w.column + w.text.length ≤ width
  cells : ∀ cell ∈ w.cells, 0 ≤ cell.1 ∧ cell.1 ≤ height ∧ 0 ≤ cell.2 ∧ cell.2 < width

/-- Below the top row, with all cells. -/
def Below (w : Writing) : Prop := 1 ≤ w.row ∧ ∀ cell ∈ w.cells, 1 ≤ cell.1

variable {row column : Int} {text : String} {reverse : Bool} {width height : Nat}

theorem covers_ofPlain_iff {r c : Int} : (ofPlain row column text reverse).covers r c = true ↔
    r = row ∧ column ≤ c ∧ c < column + text.length := by
  rw [covers, List.contains_iff_mem]
  exact Spread.mem_inRow

theorem inside_ofPlain (top : 0 ≤ row) (bottom : row ≤ height) (left : 0 ≤ column)
    (right : column + text.length ≤ width) : (ofPlain row column text reverse).Inside width height where
  top := top
  bottom := bottom
  left := left
  right := right
  cells cell member := by
    obtain ⟨same, low, high⟩ := Spread.mem_inRow.mp member
    omega

theorem below_ofPlain (below : 1 ≤ row) : (ofPlain row column text reverse).Below :=
  ⟨below, fun _ member => (Spread.mem_inRow.mp member).1 ▸ below⟩

theorem Below.not_onTop {w : Writing} (below : w.Below) : w.onTop = false := by
  obtain ⟨row, cells⟩ := below
  rw [onTop, Bool.or_eq_false_iff, List.any_eq_false]
  refine ⟨decide_eq_false (by omega), fun cell member top => ?_⟩
  have := cells cell member
  have := of_decide_eq_true top
  omega

/-- Plain characters inside a pad fill one cell each: a row and a column are left over. -/
theorem Inside.taken {t : TerminalLibrary} {room : Nat} {plain : Char → Bool}
    (h : (ofPlain row column text reverse).Inside width height) (regular : t.Regular room plain)
    (all : text.toList.all plain = true) :
    (ofPlain row column text reverse).Taken t ((height : Int) + 2, (width : Int) + 1) := by
  obtain ⟨top, bottom, left, right, -⟩ := h
  dsimp only [ofPlain] at top bottom left right
  exact regular.inRow _ _ row column text all top (by omega) left (by omega)

end Writing

structure Pad where
  rows : Int
  columns : Int
  written : List Writing := []

namespace Pad

def size (p : Pad) : Int × Int := (p.rows, p.columns)

/-- The pad in use after a call. What is written on a pad is lost with it; a pad that cannot be made
leaves the one before. -/
def next (t : TerminalLibrary) (pad : Option Pad) : TerminalCall → Option Pad
  | .newPad rows columns => if (t.makePad rows columns).isOk then some { rows, columns } else pad
  | .write row column text reverse =>
    pad.map fun p =>
      let cells := (t.spread p.size row column text).cells
      { p with written := p.written ++ [{ row, column, text, reverse, cells }] }
  | _ => pad

/-- The pad in use after a row of calls. -/
def after (t : TerminalLibrary) (pad : Option Pad) (calls : List TerminalCall) : Option Pad :=
  calls.foldl (next t) pad

/-- The last text in the top row. -/
def top (p : Pad) : Option Writing := (p.written.filter Writing.onTop).getLast?

/-- The characters of a title in a row of `width` columns: cut, or filled up with blanks. -/
def titleRow (title : String) (width : Nat) : List Char :=
  (title.toList ++ List.replicate width ' ').take width

/-- A pad for `height` rows of `width` columns below a title. -/
structure Framed (p : Pad) (width height : Nat) (title : String) : Prop where
  rows : p.rows = height + 2
  columns : p.columns = width + 1
  inside : ∀ w ∈ p.written, w.Inside width height
  /-- The top row was last filled with the title, cell by cell. -/
  top : ∃ w, p.top = some w ∧ w.text.length = width ∧ w.text.toList = titleRow title width ∧
    w.cells = Spread.inRow 0 0 width

variable {t : TerminalLibrary} {p : Pad} {width height : Nat} {title : String}

theorem next_call {w : Writing} (taken : w.Taken t p.size) :
    next t (some p) w.call = some { p with written := p.written ++ [w] } := by
  rw [Writing.Taken] at taken
  simp only [next, Writing.call, Option.map_some, taken]

theorem after_map_call (p : Pad) {writings : List Writing} (taken : ∀ w ∈ writings, w.Taken t p.size) :
    after t (some p) (writings.map Writing.call) =
      some { p with written := p.written ++ writings } := by
  induction writings generalizing p with
  | nil => rw [List.append_nil]; rfl
  | cons w rest ih =>
    obtain ⟨first, later⟩ := List.forall_mem_cons.mp taken
    show after t (next t (some p) w.call) (rest.map Writing.call) = _
    rw [next_call first, ih { p with written := p.written ++ [w] } later, List.append_assoc,
      List.singleton_append]

theorem length_titleRow (title : String) (width : Nat) : (titleRow title width).length = width := by
  rw [titleRow, List.length_take, List.length_append, List.length_replicate]
  omega

theorem toList_fit (title : String) (width : Nat) :
    (TerminalView.fit title width).toList = titleRow title width := by
  rw [TerminalView.fit, String.toList_ofList, TerminalView.takeChars, if_pos (Int.natCast_nonneg width),
    Int.toNat_natCast, titleRow, List.take_append, List.take_replicate, List.length_take]
  congr 2
  omega

theorem length_fit (title : String) (width : Nat) : (TerminalView.fit title width).length = width := by
  rw [← String.length_toList, toList_fit, length_titleRow]

/-- A plain title stays plain when it is cut or filled up. -/
theorem all_fit {room : Nat} {plain : Char → Bool} (regular : t.Regular room plain)
    (all : title.toList.all plain = true) (width : Nat) :
    (TerminalView.fit title width).toList.all plain = true := by
  rw [toList_fit]
  refine List.all_eq_true.mpr fun c member => ?_
  rcases List.mem_append.mp (List.mem_of_mem_take member) with own | filled
  · exact List.all_eq_true.mp all c own
  · rw [List.eq_of_mem_replicate filled]
    exact regular.blank

/-- A title as it is written in the top row. -/
def titleWriting (title : String) (width : Nat) : Writing :=
  .ofPlain 0 0 (TerminalView.fit title width) true

theorem inside_titleWriting (title : String) (width height : Nat) :
    (titleWriting title width).Inside width height := by
  apply Writing.inside_ofPlain (Int.le_refl 0) (Int.natCast_nonneg height) (Int.le_refl 0)
  rw [length_fit, Int.zero_add]

/-- A plain title fits a pad that has a row and a column more than it fills. -/
theorem taken_titleWriting {room : Nat} {plain : Char → Bool} (regular : t.Regular room plain)
    (all : title.toList.all plain = true) (width height : Nat) :
    (titleWriting title width).Taken t ((height : Int) + 2, (width : Int) + 1) :=
  (inside_titleWriting title width height).taken regular (all_fit regular all width)

/-- A title is written over what the top row had before. -/
theorem framed_titled (rows : p.rows = height + 2) (columns : p.columns = width + 1)
    (inside : ∀ w ∈ p.written, w.Inside width height) (title : String) :
    Framed { p with written := p.written ++ [titleWriting title width] } width height title where
  rows := rows
  columns := columns
  inside := List.forall_mem_append.mpr
    ⟨inside, List.forall_mem_singleton.mpr (inside_titleWriting title width height)⟩
  top := by
    have cells : (titleWriting title width).cells = Spread.inRow 0 0 width := by
      rw [titleWriting, Writing.ofPlain, length_fit]
    refine ⟨titleWriting title width, ?_, length_fit title width, toList_fit title width, cells⟩
    have kept : [titleWriting title width].filter Writing.onTop = [titleWriting title width] := rfl
    rw [Pad.top, List.filter_append, kept, List.getLast?_concat]

/-- What is written below the top row leaves the title. -/
theorem Framed.write (h : p.Framed width height title) {writings : List Writing}
    (inside : ∀ w ∈ writings, w.Inside width height) (below : ∀ w ∈ writings, w.Below) :
    Framed { p with written := p.written ++ writings } width height title where
  rows := h.rows
  columns := h.columns
  inside := List.forall_mem_append.mpr ⟨h.inside, inside⟩
  top := by
    have away : writings.filter Writing.onTop = [] := List.filter_eq_nil_iff.mpr fun w member =>
      Bool.not_eq_true _ ▸ (below w member).not_onTop
    rw [Pad.top, List.filter_append, away, List.append_nil]
    exact h.top

end Pad

/-! ## Pictures on a pad -/

section Items

variable {α β : Type} {items : List α} {a : α} {k start : Nat}

/-- If only the item at one place gives anything, it gives all. -/
theorem flatMap_zipIdx_eq (f : α → Nat → List β) (found : items[k]? = some a)
    (only : ∀ b j, j ≠ start + k → f b j = []) :
    ((items.zipIdx start).flatMap fun item => f item.1 item.2) = f a (start + k) := by
  induction items generalizing k start with
  | nil => cases found
  | cons b rest ih =>
    rw [List.zipIdx_cons, List.flatMap_cons]
    cases k with
    | zero =>
      obtain rfl := Option.some.inj found
      have later : ((rest.zipIdx (start + 1)).flatMap fun item => f item.1 item.2) = [] := by
        apply List.flatMap_eq_nil_iff.mpr
        intro item member
        have place := List.le_snd_of_mem_zipIdx member
        exact only item.1 item.2 (by omega)
      rw [later, List.append_nil, Nat.add_zero]
    | succ k =>
      have shifted : start + 1 + k = start + (k + 1) := by omega
      rw [only b start (by omega), List.nil_append, ih found (shifted ▸ only), shifted]

end Items

/-- Writings of a picture whose pixels are `scale` columns wide: each cell below the title, for
`height` rows of pixels in `width` columns, has one of them, reversed for a lit pixel. -/
structure Painted (writings : List Writing) (picture : Picture) (scale width height : Nat) : Prop where
  below : ∀ w ∈ writings, w.Below
  inside : ∀ w ∈ writings, w.Inside (width * scale) height
  once : ∀ x y k : Nat, x < width → y < height → k < scale →
    (writings.filter fun w => w.covers (y + 1) (x * scale + k)) =
      [{ row := y + 1
         column := x * scale
         text := String.ofList (List.replicate scale ' ')
         reverse := picture.isLit x y
         cells := Spread.inRow (y + 1) (x * scale) scale }]

namespace TerminalView

variable {v : TerminalView} {picture : Picture} {scale width height x y k : Nat}

/-- A pixel stands in blanks below the title. -/
def writing (v : TerminalView) (x y : Nat) (lit : Bool) : Writing :=
  .ofPlain (y + 1) (x * v.scale) v.pixelText lit

def writings (v : TerminalView) (picture : Picture) : List Writing :=
  picture.zipIdx.flatMap fun row => row.1.zipIdx.map fun pixel => v.writing pixel.2 row.2 pixel.1

theorem drawing_eq_map_call (v : TerminalView) (picture : Picture) :
    v.drawing picture = (v.writings picture).map Writing.call := by
  unfold drawing drawRow writings
  simp only [List.map_flatMap, List.map_map]
  rfl

theorem length_pixelText (wide : v.scale = scale) : v.pixelText.length = scale := by
  rw [pixelText, String.length_ofList, List.length_replicate, wide, Int.toNat_natCast]

/-- The cells of a pixel belong to no other pixel. -/
theorem covers_writing_iff (wide : v.scale = scale) (hk : k < scale) {x' y' : Nat} {lit : Bool} :
    (v.writing x' y' lit).covers (y + 1) (x * scale + k) = true ↔ y' = y ∧ x' = x := by
  have block : ((x * scale + k : Nat) : Int) = x * scale + k := by push_cast; rfl
  have rows : ((y : Int) + 1 = y' + 1) ↔ y' = y := by omega
  have columns : (x' : Int) * scale ≤ x * scale + k ∧ (x : Int) * scale + k < x' * scale + scale ↔
      x' = x := by
    have quotient : (x * scale + k) / scale = x := by
      rw [Nat.mul_comm, Nat.mul_add_div (by omega), Nat.div_eq_of_lt hk, Nat.add_zero]
    have bounds := Nat.div_eq_iff (k := scale) (x := x * scale + k) (y := x') (by omega)
    rw [quotient] at bounds
    rw [eq_comm, bounds]
    push_cast [← Int.ofNat_le]
    omega
  rw [writing, Writing.covers_ofPlain_iff, length_pixelText wide, wide, rows, columns]

theorem inside_of_mem_writings (wide : v.scale = scale) (sized : picture.Sized width height)
    {w : Writing} (member : w ∈ v.writings picture) :
    ∃ x y lit, w = v.writing x y lit ∧ (v.writing x y lit).Inside (width * scale) height := by
  obtain ⟨⟨row, y⟩, rowMember, member⟩ := List.mem_flatMap.mp member
  obtain ⟨⟨lit, x⟩, litMember, rfl⟩ := List.mem_map.mp member
  have hy : y < height := sized.rows ▸ List.snd_lt_of_mem_zipIdx rowMember
  have columns : row.length = width := sized.columns row (List.fst_mem_of_mem_zipIdx rowMember)
  have hx : x < width := columns ▸ List.snd_lt_of_mem_zipIdx litMember
  have left : 0 ≤ (x : Int) * scale := Int.mul_nonneg (Int.natCast_nonneg x) (Int.natCast_nonneg scale)
  have right : (x : Int) * scale + scale ≤ (width * scale : Nat) := by
    have := Nat.mul_le_mul_right scale hx
    rw [Nat.succ_mul] at this
    exact_mod_cast this
  refine ⟨x, y, lit, rfl, Writing.inside_ofPlain (by omega) (by omega) ?_ ?_⟩
  · rwa [wide]
  · rwa [length_pixelText wide, wide]

theorem painted_writings (wide : v.scale = scale) (sized : picture.Sized width height) :
    Painted (v.writings picture) picture scale width height where
  below w member := by
    obtain ⟨x, y, lit, rfl, -⟩ := inside_of_mem_writings wide sized member
    exact Writing.below_ofPlain (by omega)
  inside w member := by
    obtain ⟨x, y, lit, rfl, inside⟩ := inside_of_mem_writings wide sized member
    exact inside
  once x y k hx hy hk := by
    have above : y < picture.length := sized.rows ▸ hy
    have within : x < picture[y].length := by rwa [sized.columns _ (List.getElem_mem above)]
    have row : picture[y]? = some picture[y] := List.getElem?_eq_getElem above
    have pixel : picture[y][x]? = some (picture.isLit x y) := by
      rw [Picture.isLit, row, Option.bind_some, List.getElem?_eq_getElem within, Option.getD_some]
    let kept (x' y' : Nat) (lit : Bool) : List Writing :=
      [v.writing x' y' lit].filter fun w => w.covers (y + 1) (x * scale + k)
    have other {x' y' : Nat} {lit : Bool} (away : ¬(y' = y ∧ x' = x)) : kept x' y' lit = [] := by
      apply List.filter_eq_nil_iff.mpr
      intro w member
      rw [List.mem_singleton.mp member, covers_writing_iff wide hk]
      exact away
    let rowKept (row : List Bool) (y' : Nat) : List Writing :=
      row.zipIdx.flatMap fun pixel => kept pixel.2 y' pixel.1
    calc
      _ = picture.zipIdx.flatMap fun row => rowKept row.1 row.2 := by
        simp only [writings, List.filter_flatMap, List.map_eq_flatMap, rowKept, kept]
      _ = rowKept picture[y] (0 + y) := by
        apply flatMap_zipIdx_eq rowKept row
        intro row y' different
        apply List.flatMap_eq_nil_iff.mpr
        intro pixel _
        exact other fun same => different (by rw [same.1, Nat.zero_add])
      _ = kept (0 + x) (0 + y) (picture.isLit x y) := by
        apply flatMap_zipIdx_eq (fun lit x' => kept x' (0 + y) lit) pixel
        intro lit x' different
        exact other fun same => different (by rw [same.2, Nat.zero_add])
      _ = [v.writing x y (picture.isLit x y)] := by
        rw [Nat.zero_add, Nat.zero_add]
        apply List.filter_eq_self.mpr
        intro w member
        rw [List.mem_singleton.mp member, covers_writing_iff wide hk]
        exact ⟨rfl, rfl⟩
      _ = _ := by rw [writing, Writing.ofPlain, length_pixelText wide, pixelText, wide,
          Int.toNat_natCast]

/-! ## Calls that are made -/

/-- Plain titles, and pixels, are taken by a pad that has been made for the size of the view. -/
theorem serve_map_call {t : TerminalLibrary} {size : Int × Int} {writings : List Writing}
    (taken : ∀ w ∈ writings, w.Taken t size) :
    t.serve size (writings.map Writing.call) = (writings.map Writing.call, .ok ()) := by
  induction writings with
  | nil => rfl
  | cons w rest ih =>
    obtain ⟨first, later⟩ := List.forall_mem_cons.mp taken
    have answer : t.answer size w.call = .ok () := by
      show (t.spread size w.row w.column w.text).result = .ok ()
      rw [first]
    rw [List.map_cons, TerminalLibrary.serve, answer, ih later]

variable {host : Host} {plain : Char → Bool} {title : String} {pad : Int × Int}

/-- A title is taken if there is room for its row. -/
theorem setTitle_eq (v : TerminalView) (row : v.lineWidth = width) (fits : Number.Fits host.room width)
    (taken : (Pad.titleWriting title width).Taken host.terminal v.padSize) :
    v.setTitle host title = ⟨{ v with title }, [(Pad.titleWriting title width).call], .ok ()⟩ := by
  have counted : Number.count host.room 1 (width : Int) = .ok width := by
    apply Number.count_of_fits (by decide) (Int.natCast_nonneg width)
    rwa [Int.toNat_natCast, Nat.one_mul]
  have served := serve_map_call (List.forall_mem_singleton.mpr taken)
  change host.terminal.serve v.padSize [.write 0 0 (fit title width) true] = _ at served
  simp only [setTitle, row, counted, served]
  rfl

theorem setResolution_of_made (v : TerminalView) (width height : Int) {columns rows : Nat}
    (row : width * v.scale = columns) (tall : height = rows)
    (made : host.terminal.makePad (rows + 2) (columns + 1) = .ok ())
    (regular : host.terminal.Regular host.room plain) (all : v.title.toList.all plain = true) :
    v.setResolution host width height =
      ⟨{ v with width, height },
        [.newPad (rows + 2) (columns + 1), (Pad.titleWriting v.title columns).call], .ok ()⟩ := by
  subst tall
  have fits : Number.Fits host.room columns := (regular.fits _ _ made).mono (by omega)
  have taken := Pad.taken_titleWriting regular all columns rows
  have titled := setTitle_eq { v with width, height := rows } row fits (by
    show Writing.Taken _ ((rows : Int) + 2, width * v.scale + 1) _
    rwa [row])
  simp only [setResolution, padSize, row, TerminalLibrary.answer, made, titled]

theorem setResolution_of_refused (v : TerminalView) (width height : Int) {failure : Failure}
    (refused : host.terminal.makePad (height + 2) (width * v.scale + 1) = .error failure) :
    v.setResolution host width height =
      ⟨v, [.newPad (height + 2) (width * v.scale + 1)], .error failure⟩ := by
  simp only [setResolution, padSize, TerminalLibrary.answer, refused]

variable {setting cursor : Setting Int} {resizable : Bool} {v : TerminalView}
  {calls : List TerminalCall}

/-- A view starts without pixels, on a pad for its title. -/
theorem eq_of_new (regular : host.terminal.Regular host.room plain)
    (opened : new host setting cursor resizable = .ok (v, calls)) :
    host.terminal.makePad 2 1 = .ok () ∧ v = { scale := v.scale, resizable } ∧
      calls = [.start, .echo false, .single true, .cursor (cursorMode cursor), .newPad 2 1,
        (Pad.titleWriting "" 0).call] := by
  obtain ⟨scale, -, opened⟩ := of_bind_eq_ok opened
  obtain ⟨_, -, opened⟩ := of_bind_eq_ok opened
  obtain ⟨_, ready, opened⟩ := of_bind_eq_ok opened
  have line : (0 : Int) * scale = (0 : Nat) := Int.zero_mul scale
  cases made : host.terminal.makePad 2 1 with
  | error failure =>
    have refused : host.terminal.makePad (0 + 2) (0 * scale + 1) = .error failure := by rwa [line]
    rw [setResolution_of_refused { scale, resizable } 0 0 refused] at ready
    cases ready
  | ok _ =>
    have tall : (0 : Int) = (0 : Nat) := rfl
    rw [setResolution_of_made { scale, resizable } 0 0 line tall made regular rfl] at opened
    cases opened
    exact ⟨rfl, rfl, rfl⟩

end TerminalView

/-! ## Requests -/

namespace TerminalView

/-- What is asked of a view. -/
inductive Request where
  | title (text : String)
  | resolution (width height : Nat)
  | draw (picture : Picture)
  /-- The size is that of the terminal. -/
  | refresh (height width : Int)

def answer (host : Host) (v : TerminalView) : Request → Reply
  | .title text => v.setTitle host text
  | .resolution width height => v.setResolution host width height
  | .draw picture => v.draw host.terminal picture
  | .refresh height width => ⟨(v.refresh height width).1, (v.refresh height width).2, .ok ()⟩

end TerminalView

/-- A view and the pad that it writes on. -/
structure Desk where
  view : TerminalView
  pad : Option Pad

namespace Desk

open TerminalView

def next (host : Host) (d : Desk) (request : Request) : Desk :=
  let reply := d.view.answer host request
  ⟨reply.view, Pad.after host.terminal d.pad reply.calls⟩

def after (host : Host) (d : Desk) (requests : List Request) : Desk := requests.foldl (next host) d

end Desk

/-- The size and the title that were taken last, for pixels `scale` columns wide. -/
structure Board (scale : Nat) where
  width : Nat := 0
  height : Nat := 0
  title : String := ""

namespace Board

open TerminalView

variable {scale : Nat}

/-- A size is taken if the terminal makes a pad for it. -/
def next (t : TerminalLibrary) (b : Board scale) : Request → Board scale
  | .title title => { b with title }
  | .resolution width height =>
    if (t.makePad (height + 2) ((width * scale : Nat) + 1)).isOk then { b with width, height } else b
  | _ => b

def after (t : TerminalLibrary) (b : Board scale) (requests : List Request) : Board scale :=
  requests.foldl (next t) b

/-- Whatever is drawn has the size that was taken last, and all titles are plain. -/
def Fitting (t : TerminalLibrary) (plain : Char → Bool) (b : Board scale) : List Request → Prop
  | [] => True
  | request :: rest =>
    (∀ picture, request = .draw picture → picture.Sized b.width b.height) ∧
      (∀ title, request = .title title → title.toList.all plain = true) ∧
      (b.next t request).Fitting t plain rest

def columns (b : Board scale) : Nat := b.width * scale

end Board

namespace Desk

open TerminalView

variable {host : Host} {plain : Char → Bool} {scale : Nat} {b : Board scale} {d : Desk}

/-- The view keeps what was taken last, and its pad has the title. -/
structure Keeps (host : Host) (plain : Char → Bool) (b : Board scale) (d : Desk) : Prop where
  regular : host.terminal.Regular host.room plain
  scale : d.view.scale = scale
  width : d.view.width = b.width
  height : d.view.height = b.height
  title : d.view.title = b.title
  plain : b.title.toList.all plain = true
  room : Number.Fits host.room b.columns
  pad : ∃ pad, d.pad = some pad ∧ pad.Framed b.columns b.height b.title

/-- What a view makes of a number of pixels is their number of columns. -/
theorem Keeps.columns (h : Keeps host plain b d) (width : Nat) :
    (width : Int) * d.view.scale = (width * scale : Nat) := by
  rw [h.scale, Nat.cast_mul]

theorem Keeps.lineWidth (h : Keeps host plain b d) : d.view.lineWidth = b.columns := by
  rw [TerminalView.lineWidth, h.width, h.columns, Board.columns]

theorem Keeps.padSize (h : Keeps host plain b d) :
    d.view.padSize = ((b.height : Int) + 2, (b.columns : Int) + 1) := by
  rw [TerminalView.padSize, h.height, h.width, h.columns, Board.columns]

/-- The pad of a desk is as large as its view takes it to be. -/
theorem Keeps.size (h : Keeps host plain b d) {pad : Pad} {title : String}
    (framed : pad.Framed b.columns b.height title) : d.view.padSize = pad.size := by
  rw [h.padSize, Pad.size, framed.rows, framed.columns]

theorem Keeps.taken_titleWriting (h : Keeps host plain b d) {title : String}
    (all : title.toList.all plain = true) :
    (Pad.titleWriting title b.columns).Taken host.terminal d.view.padSize := by
  rw [h.padSize]
  exact Pad.taken_titleWriting h.regular all b.columns b.height

theorem Keeps.setTitle_eq (h : Keeps host plain b d) {title : String}
    (all : title.toList.all plain = true) : d.view.setTitle host title =
      ⟨{ d.view with title }, [(Pad.titleWriting title b.columns).call], .ok ()⟩ :=
  d.view.setTitle_eq h.lineWidth h.room (h.taken_titleWriting all)

theorem Keeps.titled (h : Keeps host plain b d) {title : String} (all : title.toList.all plain = true) :
    Keeps host plain (b.next host.terminal (.title title)) (d.next host (.title title)) := by
  obtain ⟨pad, current, framed⟩ := h.pad
  have next : d.next host (.title title) = ⟨{ d.view with title },
      some { pad with written := pad.written ++ [Pad.titleWriting title b.columns] }⟩ := by
    rw [Desk.next, answer, h.setTitle_eq all, current]
    exact congrArg (Desk.mk _) (Pad.next_call (h.size framed ▸ h.taken_titleWriting all))
  rw [next]
  exact ⟨h.regular, h.scale, h.width, h.height, rfl, all, h.room, _, rfl,
    Pad.framed_titled framed.rows framed.columns framed.inside title⟩

theorem Keeps.resized (h : Keeps host plain b d) (width height : Nat) :
    Keeps host plain (b.next host.terminal (.resolution width height))
      (d.next host (.resolution width height)) := by
  have row := h.columns width
  rw [Board.next]
  cases made : host.terminal.makePad (height + 2) ((width * scale : Nat) + 1) with
  | ok _ =>
    have room : Number.Fits host.room (width * scale) := (h.regular.fits _ _ made).mono (by omega)
    have all : d.view.title.toList.all plain = true := h.title ▸ h.plain
    have taken := Pad.taken_titleWriting h.regular all (width * scale) height
    have next : d.next host (.resolution width height) =
        ⟨{ d.view with width := width, height := height },
          some ⟨height + 2, (width * scale : Nat) + 1,
            [Pad.titleWriting d.view.title (width * scale)]⟩⟩ := by
      rw [Desk.next, answer, d.view.setResolution_of_made width height row rfl made h.regular all]
      refine congrArg (Desk.mk _) ?_
      have fresh : Pad.next host.terminal d.pad (.newPad (height + 2) ((width * scale : Nat) + 1)) =
          some ⟨height + 2, (width * scale : Nat) + 1, []⟩ := by
        rw [Pad.next, made]
        rfl
      rw [Pad.after, List.foldl_cons, fresh]
      exact Pad.next_call (p := ⟨height + 2, (width * scale : Nat) + 1, []⟩) taken
    rw [next]
    refine ⟨h.regular, h.scale, rfl, rfl, h.title, h.plain, room, _, rfl, ?_⟩
    rw [h.title]
    exact Pad.framed_titled (p := ⟨height + 2, (width * scale : Nat) + 1, []⟩) rfl rfl nofun b.title
  | error failure =>
    have next : d.next host (.resolution width height) = d := by
      rw [Desk.next, answer, d.view.setResolution_of_refused width height (row ▸ made), row]
      refine congrArg (Desk.mk _) ?_
      rw [Pad.after, List.foldl_cons, Pad.next, made]
      rfl
    rw [next]
    exact h

theorem Keeps.taken_of_mem (h : Keeps host plain b d) {picture : Picture}
    (sized : picture.Sized b.width b.height) {w : Writing} (member : w ∈ d.view.writings picture) :
    w.Taken host.terminal d.view.padSize := by
  obtain ⟨x, y, lit, rfl, inside⟩ := inside_of_mem_writings h.scale sized member
  have blanks : d.view.pixelText.toList.all plain = true := by
    rw [pixelText, String.toList_ofList]
    exact List.all_eq_true.mpr fun c member => List.eq_of_mem_replicate member ▸ h.regular.blank
  rw [h.padSize]
  exact inside.taken h.regular blanks

theorem Keeps.draw_eq (h : Keeps host plain b d) {picture : Picture}
    (sized : picture.Sized b.width b.height) : d.view.draw host.terminal picture =
      ⟨d.view, (d.view.writings picture).map Writing.call, .ok ()⟩ := by
  rw [draw, drawing_eq_map_call, serve_map_call fun w member => h.taken_of_mem sized member]

theorem Keeps.drawn (h : Keeps host plain b d) {picture : Picture}
    (sized : picture.Sized b.width b.height) :
    Keeps host plain (b.next host.terminal (.draw picture)) (d.next host (.draw picture)) := by
  obtain ⟨pad, current, framed⟩ := h.pad
  have painted := painted_writings h.scale sized
  have next : d.next host (.draw picture) =
      ⟨d.view, some { pad with written := pad.written ++ d.view.writings picture }⟩ := by
    rw [Desk.next, answer, h.draw_eq sized, current]
    exact congrArg (Desk.mk _) (Pad.after_map_call pad fun w member =>
      h.size framed ▸ h.taken_of_mem sized member)
  rw [next]
  exact ⟨h.regular, h.scale, h.width, h.height, h.title, h.plain, h.room, _, rfl,
    framed.write painted.inside painted.below⟩

theorem Keeps.refreshed (h : Keeps host plain b d) (height width : Int) :
    Keeps host plain (b.next host.terminal (.refresh height width))
      (d.next host (.refresh height width)) := by
  have next : d.next host (.refresh height width) = ⟨(d.view.refresh height width).1, d.pad⟩ := by
    unfold Desk.next answer refresh
    by_cases shown : d.view.screen = (height, width)
    · simp only [if_pos shown]
      rfl
    · simp only [if_neg shown]
      cases d.view.resizable <;> rfl
  rw [next]
  unfold refresh
  split
  · exact h
  · exact ⟨h.regular, h.scale, h.width, h.height, h.title, h.plain, h.room, h.pad⟩

theorem Keeps.next (h : Keeps host plain b d) {request : Request}
    (sized : ∀ picture, request = .draw picture → picture.Sized b.width b.height)
    (all : ∀ title, request = .title title → title.toList.all plain = true) :
    Keeps host plain (b.next host.terminal request) (d.next host request) := by
  cases request with
  | title text => exact h.titled (all text rfl)
  | resolution width height => exact h.resized width height
  | draw picture => exact h.drawn (sized picture rfl)
  | refresh height width => exact h.refreshed height width

theorem Keeps.after (h : Keeps host plain b d) {requests : List Request}
    (fitting : b.Fitting host.terminal plain requests) :
    Keeps host plain (b.after host.terminal requests) (d.after host requests) := by
  induction requests generalizing b d with
  | nil => exact h
  | cons request rest ih => exact ih (h.next fitting.1 fitting.2.1) fitting.2.2

variable {setting cursor : Setting Int} {resizable : Bool} {v : TerminalView}
  {calls : List TerminalCall}

theorem keeps_of_new (regular : host.terminal.Regular host.room plain)
    (opened : TerminalView.new host setting cursor resizable = .ok (v, calls))
    (wide : v.scale = scale) :
    Keeps host plain ({} : Board scale) ⟨v, Pad.after host.terminal none calls⟩ := by
  obtain ⟨made, same, rfl⟩ := eq_of_new regular opened
  have columns : ({} : Board scale).columns = 0 := Nat.zero_mul scale
  have taken : (Pad.titleWriting "" 0).Taken host.terminal (2, 1) :=
    Pad.taken_titleWriting regular rfl 0 0
  have room : Number.Fits host.room 0 := (regular.fits _ _ made).mono (Nat.zero_le _)
  have pad : Pad.after host.terminal none [.start, .echo false, .single true,
      .cursor (cursorMode cursor), .newPad 2 1, (Pad.titleWriting "" 0).call] =
      some ⟨2, 1, [Pad.titleWriting "" 0]⟩ := by
    have fresh : Pad.next host.terminal none (.newPad 2 1) = some ⟨2, 1, []⟩ := by
      rw [Pad.next, made]
      rfl
    show Pad.next host.terminal (Pad.next host.terminal none (.newPad 2 1))
      (Pad.titleWriting "" 0).call = _
    rw [fresh]
    exact Pad.next_call (p := ⟨2, 1, []⟩) taken
  refine ⟨regular, wide, ?_, ?_, ?_, rfl, ?_, _, pad, ?_⟩
  · rw [same]; rfl
  · rw [same]; rfl
  · rw [same]
  · rwa [columns]
  · rw [columns]
    exact Pad.framed_titled (p := ⟨2, 1, []⟩) rfl rfl nofun ""

/-! ## What a pad shows -/

/-- What the desk has of all that was asked of it. -/
structure Serves (host : Host) (plain : Char → Bool) (b : Board scale) (d : Desk) : Prop where
  title : d.view.title = b.title
  pad : ∃ pad, d.pad = some pad ∧ d.view.padSize = pad.size ∧ pad.Framed b.columns b.height b.title
  drawn : ∀ picture : Picture, picture.Sized b.width b.height →
    ∃ writings, d.view.draw host.terminal picture = ⟨d.view, writings.map Writing.call, .ok ()⟩ ∧
      (∀ w ∈ writings, w.Taken host.terminal d.view.padSize) ∧
      Painted writings picture scale b.width b.height
  /-- No plain title fails, and no size for which there is a pad. -/
  titled : ∀ text, text.toList.all plain = true → (d.view.setTitle host text).result = .ok ()
  resized : ∀ width height : Nat,
    host.terminal.makePad (height + 2) ((width * scale : Nat) + 1) = .ok () →
    (d.view.setResolution host width height).result = .ok ()

theorem Keeps.serves (h : Keeps host plain b d) : Serves host plain b d where
  title := h.title
  pad := by
    obtain ⟨pad, current, framed⟩ := h.pad
    exact ⟨pad, current, h.size framed, framed⟩
  drawn picture sized := ⟨_, h.draw_eq sized, fun w member => h.taken_of_mem sized member,
    painted_writings h.scale sized⟩
  titled text all := by rw [h.setTitle_eq all]
  resized width height made := by
    rw [d.view.setResolution_of_made width height (h.columns width) rfl made h.regular
      (h.title ▸ h.plain)]

/-- A pad keeps its frame and its title, whatever is asked of its view, as long as all titles are of
plain characters. -/
theorem serves_after (regular : host.terminal.Regular host.room plain)
    (opened : TerminalView.new host setting cursor resizable = .ok (v, calls)) (wide : v.scale = scale)
    {requests : List Request} (fitting : Board.Fitting host.terminal plain ({} : Board scale) requests) :
    Serves host plain (Board.after host.terminal ({} : Board scale) requests)
      (Desk.after host ⟨v, Pad.after host.terminal none calls⟩ requests) :=
  ((keeps_of_new regular opened wide).after fitting).serves

/-- A host with a usual terminal. -/
def usualHost : Host := { Host.desktop with terminal := .usual }

theorem usualHost_regular : usualHost.terminal.Regular usualHost.room TerminalLibrary.isPrintable :=
  TerminalLibrary.usual_regular (by decide)

/-- The title is cut when a size with fewer columns is taken. -/
theorem serves_after_shrinking :
    usualHost.terminal.Regular usualHost.room TerminalLibrary.isPrintable ∧
    ∃ v calls, TerminalView.new usualHost .absent .absent true = .ok (v, calls) ∧ v.scale = (2 : Nat) ∧
      let requests : List Request := [.title "Chip", .resolution 3 1, .draw [[true, false, true]],
        .refresh 24 80, .resolution 1 2]
      Board.Fitting usualHost.terminal TerminalLibrary.isPrintable ({} : Board 2) requests ∧
        ∃ pad, (Desk.after usualHost ⟨v, Pad.after usualHost.terminal none calls⟩ requests).pad =
            some pad ∧
          pad.rows = 4 ∧ pad.columns = 3 ∧ ∃ w, pad.top = some w ∧ w.text = "Ch" := by
  have opened : TerminalView.new usualHost .absent .absent true = .ok _ := rfl
  refine ⟨usualHost_regular, _, _, opened, rfl, ?_⟩
  intro requests
  have fitting : Board.Fitting usualHost.terminal TerminalLibrary.isPrintable ({} : Board 2)
      requests := by
    refine ⟨nofun, ?_, nofun, nofun, ?_, nofun, nofun, nofun, nofun, nofun, trivial⟩
    · rintro _ ⟨⟩
      decide
    · rintro _ ⟨⟩
      exact ⟨rfl, by decide⟩
  have served := serves_after usualHost_regular opened rfl fitting
  obtain ⟨pad, current, -, framed⟩ := served.pad
  obtain ⟨w, top, -, exact, -⟩ := framed.top
  have cut : w.text.toList = "Ch".toList :=
    exact.trans (by decide : Pad.titleRow "Chip" 2 = "Ch".toList)
  exact ⟨fitting, pad, current, framed.rows, framed.columns, w, top, String.toList_injective cut⟩

/-- A title of two lines, as long as its row, runs into the column that is left over and on into the
row below. -/
theorem broken_title_spills :
    ∃ v calls, TerminalView.new usualHost (.value 1) .absent true = .ok (v, calls) ∧
      let d := Desk.after usualHost ⟨v, Pad.after usualHost.terminal none calls⟩
        [.resolution 3 1, .title "A\nB"]
      d.view.title = "A\nB" ∧ ∃ pad w, d.pad = some pad ∧ pad.top = some w ∧ w.text = "A\nB" ∧
        w.covers 0 3 = true ∧ w.covers 1 0 = true ∧ ¬ w.Inside 3 1 := by
  have opened : TerminalView.new usualHost (.value 1) .absent true = .ok _ := rfl
  refine ⟨_, _, opened, rfl, _, _, rfl, rfl, by decide, by decide, by decide, fun inside => ?_⟩
  have cell := inside.cells (0, 3) (by decide)
  omega

end Desk

end Chip8
