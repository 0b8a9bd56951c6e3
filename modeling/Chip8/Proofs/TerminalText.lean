import Chip8.Host.Desktop

/-! Texts on a pad. Where a text ends up is up to the terminal: a line break, a tab, or a character
two cells wide takes the text elsewhere than a count of its characters says. What can be relied on is
that plain characters fill one cell each, one beside the other, as long as the last cell of the row
is left free. -/

namespace Chip8

/-! ## Cells -/

namespace Spread

theorem mem_inRow {row column r c : Int} {length : Nat} :
    (r, c) ∈ inRow row column length ↔ r = row ∧ column ≤ c ∧ c < column + length := by
  rw [inRow, List.mem_map]
  constructor
  · rintro ⟨k, among, same⟩
    obtain ⟨rfl, rfl⟩ := Prod.ext_iff.mp same
    have := List.mem_range.mp among
    exact ⟨rfl, by omega, by omega⟩
  · rintro ⟨rfl, left, right⟩
    refine ⟨(c - column).toNat, List.mem_range.mpr (by omega), Prod.ext rfl ?_⟩
    show column + ((c - column).toNat : Nat) = c
    omega

theorem inRow_succ (row column : Int) (length : Nat) :
    inRow row column (length + 1) = (row, column) :: inRow row (column + 1) length := by
  rw [inRow, inRow, List.range_succ_eq_map, List.map_cons, List.map_map]
  congr 1
  · rw [Int.natCast_zero, Int.add_zero]
  · apply List.map_congr_left
    intro k _
    refine Prod.ext rfl ?_
    show column + (k + 1 : Nat) = column + 1 + k
    omega

/-- Some cells are filled before the rest of a text. -/
def behind (rest : Spread) (cells : List (Int × Int)) : Spread :=
  { rest with cells := cells ++ rest.cells }

end Spread

/-! ## What is relied on -/

/-- A terminal on which plain characters are as wide as they are many. The blank is one of them. -/
structure TerminalLibrary.Regular (t : TerminalLibrary) (room : Nat) (plain : Char → Bool) : Prop where
  /-- A pad is kept in memory, and a row of text takes no more than the same row of a pad. -/
  fits : ∀ rows columns, t.makePad rows columns = .ok () → Number.Fits room columns.toNat
  blank : plain ' ' = true
  inRow : ∀ (rows columns row column : Int) (text : String), text.toList.all plain = true →
    0 ≤ row → row < rows → 0 ≤ column → column + text.length < columns →
    t.spread (rows, columns) row column text = ⟨Spread.inRow row column text.length, .ok ()⟩

/-! ## A usual terminal -/

namespace TerminalLibrary

def isPrintable (c : Char) : Bool := ' ' ≤ c && c ≤ '~'

/-- Writes characters one by one. Behind the last cell of a row the next row begins, and a line break
clears what is left of its row. There is nothing below the last row. -/
def typed (rows columns row column : Int) : List Char → Spread
  | [] => ⟨[], .ok ()⟩
  | c :: rest =>
    if isPrintable c then
      if column + 1 < columns then
        (typed rows columns row (column + 1) rest).behind [(row, column)]
      else if row + 1 < rows then (typed rows columns (row + 1) 0 rest).behind [(row, column)]
      else ⟨[(row, column)], .error .terminal⟩
    else if c = '\n' then
      let cleared := Spread.inRow row column (columns - column).toNat
      if row + 1 < rows then (typed rows columns (row + 1) 0 rest).behind cleared
      else ⟨cleared, .error .terminal⟩
    else ⟨[], .error .terminal⟩

/-- A terminal that knows the printable characters of ASCII and the line break. Its sizes are numbers of
32 bits with a sign, and its texts have no null character. -/
def usual : TerminalLibrary where
  makePad rows columns :=
    if 0x80000000 ≤ rows ∨ 0x80000000 ≤ columns then .error (.number .overflow)
    else if rows ≤ 0 ∨ columns ≤ 0 then .error .terminal
    else .ok ()
  spread size row column text :=
    if text.toList.contains '\x00' then ⟨[], .error .nullCharacter⟩
    else if 0 ≤ row ∧ row < size.1 ∧ 0 ≤ column ∧ column < size.2 then
      typed size.1 size.2 row column text.toList
    else ⟨[], .error .terminal⟩

theorem typed_of_printable {rows columns row column : Int} {text : List Char}
    (plain : text.all isPrintable = true) (inside : column + text.length < columns) :
    typed rows columns row column text = ⟨Spread.inRow row column text.length, .ok ()⟩ := by
  induction text generalizing column with
  | nil => rfl
  | cons c rest ih =>
    rw [List.all_cons, Bool.and_eq_true] at plain
    rw [List.length_cons, Int.natCast_add, Int.natCast_one] at inside
    rw [typed, if_pos plain.1, if_pos (by omega), ih plain.2 (by omega), List.length_cons,
      Spread.inRow_succ]
    rfl

theorem not_contains_null {text : List Char} (plain : text.all isPrintable = true) :
    text.contains '\x00' = false := by
  rw [← Bool.not_eq_true, List.contains_iff_mem]
  intro member
  have printable := List.all_eq_true.mp plain _ member
  exact absurd printable (by decide)

theorem usual_regular {room : Nat} (large : 0x80000000 ≤ room) : usual.Regular room isPrintable where
  fits rows columns made := by
    simp only [usual] at made
    split at made
    · cases made
    · have bound : Number.indexBound = 0x8000000000000000 := rfl
      constructor <;> omega
  blank := by decide
  inRow rows columns row column text plain top bottom left right := by
    have free : column < columns := by omega
    simp only [usual, not_contains_null plain, Bool.false_eq_true, if_false, top, bottom, left, free,
      and_self, if_true]
    rw [← String.length_toList] at right ⊢
    exact typed_of_printable plain right

end TerminalLibrary

end Chip8
