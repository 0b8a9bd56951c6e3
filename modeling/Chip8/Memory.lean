import Chip8.Number.Length

/-! Byte memory without wrap-around: an access that leaves it fails and changes nothing. A span is
checked at its two ends before the first byte moves; an empty span touches nothing and is always
in order. -/

namespace Chip8

structure Memory where
  cells : Array UInt8
  /-- The size asked for. A negative one holds no cells. -/
  size : Int
  cells_size : cells.size = size.toNat

/-- The lowest eight bits. -/
def lowByte (n : Int) : UInt8 := UInt8.ofNat (n % 256).toNat

/-- A number as a byte, if it is one. -/
def byte? (n : Int) : Option UInt8 :=
  if 0 ≤ n ∧ n < 256 then some (UInt8.ofNat n.toNat) else none

namespace Memory

def zeros (size : Int) : Memory where
  cells := Array.replicate size.toNat 0
  size := size
  cells_size := Array.size_replicate

/-- Zeros of a size for which there may be no room. -/
def ofSize (room : Nat) (size : Int) : Except NumberError Memory :=
  (Number.count room 1 size).map fun _ => zeros size

/-- The byte at an address, if there is one. -/
def byteAt? (m : Memory) (address : Int) : Option UInt8 :=
  if 0 ≤ address then m.cells[address.toNat]? else none

def check (m : Memory) (address : Int) : Except Fault Unit :=
  if 0 ≤ address ∧ address < m.size then .ok () else .error (.outside address)

def checkSpan (m : Memory) (address size : Int) : Except Fault Unit := do
  if 0 < size then
    m.check address
    m.check (address + size - 1)

def read (m : Memory) (address : Int) : Except Fault UInt8 :=
  match m.byteAt? address with
  | some b => .ok b
  | none => .error (.outside address)

/-- The byte on a cell. Negative numbers count back from the last; whoever asks has made sure that
there is such a cell. -/
def cellAt (m : Memory) (k : Int) : UInt8 :=
  m.cells.getD (if k < 0 then k + m.cells.size else k).toNat 0

/-- Two bytes, the more significant one first. -/
def read16 (m : Memory) (address : Int) : Except Fault UInt16 := do
  m.checkSpan address 2
  return (m.cellAt address).toUInt16 <<< 8 ||| (m.cellAt (address + 1)).toUInt16

/-- A place among `length` cells: negative places count back from the end, and places beyond an end
mean that end. -/
def place (length : Nat) (k : Int) : Nat :=
  if k < 0 then (k + length).toNat else min k.toNat length

/-- The bytes from one place up to another. -/
def slice (m : Memory) (start stop : Int) : List UInt8 :=
  (m.cells.extract (place m.cells.size start) (place m.cells.size stop)).toList

theorem place_natCast {length k : Nat} (h : k ≤ length) : place length (k : Nat) = k := by
  rw [place, if_neg (by omega), Int.toNat_natCast, Nat.min_eq_left h]

theorem slice_of_le (m : Memory) {start stop : Nat} (hs : start ≤ m.cells.size)
    (he : stop ≤ m.cells.size) :
    m.slice (start : Nat) (stop : Nat) = (m.cells.extract start stop).toList := by
  rw [slice, place_natCast hs, place_natCast he]

theorem byteAt?_natCast (m : Memory) (k : Nat) : m.byteAt? (k : Nat) = m.cells[k]? := by
  simp only [byteAt?, Int.natCast_nonneg, if_true, Int.toNat_natCast]

def readBlock (m : Memory) (address size : Int) : Except Fault (List UInt8) := do
  m.checkSpan address size
  return m.slice address (address + size)

/-- Puts a byte on one cell; there is nothing to do beyond the last. -/
def put (m : Memory) (k : Nat) (b : UInt8) : Memory where
  cells := m.cells.setIfInBounds k b
  size := m.size
  cells_size := by rw [Array.size_setIfInBounds, m.cells_size]

/-- Puts bytes on neighbouring cells from `k` on. -/
def putAll (m : Memory) (k : Nat) : List UInt8 → Memory
  | [] => m
  | b :: rest => (m.put k b).putAll (k + 1) rest

/-- Puts the bytes of a block, in their order, on the cells from one place up to another. -/
def assign (m : Memory) (start stop : Int) (block : List UInt8) : Memory :=
  m.putAll (place m.cells.size start)
    (block.take (place m.cells.size stop - place m.cells.size start))

def write (m : Memory) (address : Int) (b : UInt8) : Except Fault Memory := do
  m.check address
  return m.put address.toNat b

/-- Writes a number that has to be a byte; the address is looked at first. -/
def store (m : Memory) (address value : Int) : Except Failure Memory :=
  match m.check address with
  | .error fault => .error fault
  | .ok () =>
    match byte? value with
    | some b => .ok (m.put address.toNat b)
    | none => .error (.number .range)

def writeBlock (m : Memory) (address : Int) (block : List UInt8) : Except Fault Memory := do
  m.checkSpan address block.length
  return m.assign address (address + block.length) block

def zeroBlock (m : Memory) (address : Int) (size : Nat) : Except Fault Memory := do
  m.checkSpan address size
  return m.assign address (address + size) (List.replicate size 0)

theorem zeroBlock_eq (m : Memory) (address : Int) (size : Nat) :
    m.zeroBlock address size = m.writeBlock address (List.replicate size 0) := by
  rw [zeroBlock, writeBlock, List.length_replicate]

/-- Zeroes a span whose size has to be a length. -/
def zeroSpan (m : Memory) (address size : Int) : Except Failure Memory :=
  if size < 0 then .error (.number (if Number.isIndex size then .range else .overflow))
  else (m.zeroBlock address size.toNat).mapError .fault

def clear (m : Memory) : Except Failure Memory :=
  m.zeroSpan 0 m.size

/-- Zeroes everything from a cell on. -/
def zeroFrom (m : Memory) (start : Nat) : Memory where
  cells := m.cells.mapIdx fun k b => if k < start then b else 0
  size := m.size
  cells_size := by rw [Array.size_mapIdx, m.cells_size]

/-- Whether a program of a given length may be loaded at an address. -/
def checkProgram (m : Memory) (length : Nat) (address : Int) : Except Fault Unit :=
  if address < Layout.reservedTop then .error (.reserved address)
  else if m.size - address < length then
    .error (.tooLong length (m.size - address) address)
  else .ok ()

/-- Puts a program into memory. Outside it and the interpreter's area all bytes become zero. -/
def load (m : Memory) (program : List UInt8) (address : Int) : Except Fault Memory := do
  m.checkProgram program.length address
  (m.zeroFrom Layout.reservedTop).writeBlock address program

end Memory

end Chip8
