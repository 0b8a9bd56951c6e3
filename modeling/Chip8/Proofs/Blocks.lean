import Chip8.Proofs.Memory

/-! Blocks and single bytes. Only the two ends of a span are looked at before a block moves, and that
is enough: a span with both ends in memory lies there as a whole. So a block or a word is refused
exactly if one of its bytes would be, it moves what single accesses to its bytes would, and a write that
is refused has not begun. -/

namespace Chip8.Memory

variable {m m' : Memory} {start address : Int} {block : List UInt8} {n : Nat}

/-- An access that would leave memory, and fails for it. -/
def Refused {α : Type} (access : Except Fault α) : Prop :=
  ∃ fault, access = .error fault ∧ fault.kind = .memory

theorem not_refused_of_ok {α : Type} {access : Except Fault α} {a : α} (h : access = .ok a) :
    ¬ Refused access := by
  intro refused
  obtain ⟨_, failed, -⟩ := refused
  rw [h] at failed
  cases failed

/-! ## Single bytes -/

theorem read_eq_ok_iff {b : UInt8} : m.read address = .ok b ↔ m.byteAt? address = some b := by
  unfold read
  cases m.byteAt? address with
  | none => exact ⟨nofun, nofun⟩
  | some c => simp only [Except.ok.injEq, Option.some.injEq]

theorem read_of_outside (h : ¬ (0 ≤ address ∧ address < m.size)) :
    m.read address = .error (.outside address) := by
  rw [read, byteAt?_of_outside h]

theorem read_congr (same : m'.byteAt? address = m.byteAt? address) :
    m'.read address = m.read address := by
  rw [read, read, same]

theorem refused_read_iff : Refused (m.read address) ↔ ¬ (0 ≤ address ∧ address < m.size) := by
  constructor
  · intro refused inside
    obtain ⟨b, here⟩ := exists_read inside.1 inside.2
    exact not_refused_of_ok here refused
  · intro outside
    exact ⟨_, read_of_outside outside, rfl⟩

theorem write_of_inside (inside : 0 ≤ address ∧ address < m.size) (b : UInt8) :
    m.write address b = .ok (m.put address.toNat b) := by
  rw [write, check_of_inside inside]
  rfl

theorem write_of_outside (outside : ¬ (0 ≤ address ∧ address < m.size)) (b : UInt8) :
    m.write address b = .error (.outside address) := by
  rw [write, check_of_outside outside]
  rfl

/-! ## Spans -/

/-- The two ends of a span speak for every address between them. -/
theorem fits_iff_forall :
    m.Fits start n ↔ ∀ k : Nat, k < n → 0 ≤ start + k ∧ start + k < m.size := by
  constructor
  · intro fits k among
    obtain ⟨low, high⟩ := fits (by omega)
    omega
  · intro inside positive
    have first := inside 0 (by omega)
    have last := inside (n - 1) (by omega)
    omega

theorem exists_refused_of_not_fits (h : ¬ m.Fits start n) :
    ∃ k < n, Refused (m.read (start + (k : Nat))) := by
  rw [fits_iff_forall] at h
  obtain ⟨k, unfit⟩ := Classical.not_forall.mp h
  obtain ⟨among, outside⟩ := Classical.not_imp.mp unfit
  exact ⟨k, among, refused_read_iff.mpr outside⟩

theorem fits_block_iff : m.Fits start block.length ↔
    ¬ (block ≠ [] ∧ ¬ (0 ≤ start ∧ start + block.length ≤ m.size)) := by
  rw [← List.length_pos_iff]
  unfold Fits
  omega

/-! ## Reading -/

theorem refused_readBlock_iff : Refused (m.readBlock start n) ↔ ¬ m.Fits start n :=
  ⟨fun refused fits => not_refused_of_ok (readBlock_of_fits fits) refused, readBlock_of_not_fits⟩

/-- The bytes of a span, one by one. -/
theorem map_slice (fits : m.Fits start n) : (m.slice start (start + n)).map .ok =
    (List.range n).map fun k : Nat => m.read (start + k) := by
  apply List.ext_getElem
  · rw [List.length_map, List.length_map, List.length_range, length_slice fits]
  · intro k among _
    rw [List.length_map, length_slice fits] at among
    rw [List.getElem_map, List.getElem_map, List.getElem_range]
    refine (read_eq_ok_iff.mpr ?_).symm
    rw [← getElem?_slice fits among, List.getElem?_eq_getElem]

/-- What reading a block has to do with reading its bytes. -/
structure ReadsBytes (m : Memory) (start : Int) (n : Nat) : Prop where
  bytes : ∀ bytes, m.readBlock start n = .ok bytes ↔
    bytes.map .ok = (List.range n).map fun k : Nat => m.read (start + k)
  refused : Refused (m.readBlock start n) ↔
    0 < n ∧ ∃ k < n, Refused (m.read (start + (k : Nat)))

theorem readsBytes (m : Memory) (start : Int) (n : Nat) : m.ReadsBytes start n := by
  by_cases fits : m.Fits start n
  · have present : ∀ k < n, ¬ Refused (m.read (start + (k : Nat))) := fun k among refused =>
      refused_read_iff.mp refused (fits_iff_forall.mp fits k among)
    constructor
    · intro bytes
      rw [readBlock_of_fits fits, ← map_slice fits,
        List.map_inj_right fun _ _ => Except.ok.inj, Except.ok.injEq]
      exact eq_comm
    · rw [refused_readBlock_iff]
      exact ⟨fun unfit => absurd fits unfit, fun ⟨_, k, among, refused⟩ =>
        absurd refused (present k among)⟩
  · obtain ⟨k, among, missing⟩ := exists_refused_of_not_fits fits
    constructor
    · intro bytes
      obtain ⟨fault, failed, -⟩ := readBlock_of_not_fits fits
      rw [failed]
      refine ⟨nofun, fun listed => ?_⟩
      have found : m.read (start + k) ∈ bytes.map Except.ok :=
        listed ▸ List.mem_map_of_mem (List.mem_range.mpr among)
      obtain ⟨b, -, read⟩ := List.mem_map.mp found
      exact absurd missing (not_refused_of_ok read.symm)
    · rw [refused_readBlock_iff]
      exact ⟨fun _ => ⟨by omega, k, among, missing⟩, fun _ => fits⟩

/-! ## Words -/

theorem toNat_word (high low : UInt8) :
    (high.toUInt16 <<< 8 ||| low.toUInt16).toNat = 256 * high.toNat + low.toNat := by
  have shifted : high.toNat <<< 8 % 65536 = high.toNat <<< 8 := by
    have byte := high.toNat_lt
    rw [Nat.shiftLeft_eq]
    omega
  calc (high.toUInt16 <<< 8 ||| low.toUInt16).toNat
    _ = high.toNat <<< 8 % 65536 ||| low.toNat := by
      rw [UInt16.toNat_or, UInt16.toNat_shiftLeft]
      rfl
    _ = high.toNat <<< 8 + low.toNat := by
      rw [shifted, Nat.shiftLeft_add_eq_or_of_lt low.toNat_lt]
    _ = 256 * high.toNat + low.toNat := by
      rw [Nat.shiftLeft_eq, Nat.mul_comm]

/-- What reading a word has to do with reading its two bytes. -/
structure ReadsWord (m : Memory) (address : Int) : Prop where
  value : ∀ high low, m.read address = .ok high → m.read (address + 1) = .ok low →
    ∃ word, m.read16 address = .ok word ∧ word.toNat = 256 * high.toNat + low.toNat
  refused : Refused (m.read16 address) ↔
    Refused (m.read address) ∨ Refused (m.read (address + 1))

theorem readsWord (m : Memory) (address : Int) : m.ReadsWord address where
  value high low first second :=
    ⟨_, read16_of_bytes (read_eq_ok_iff.mp first) (read_eq_ok_iff.mp second), toNat_word high low⟩
  refused := by
    rw [refused_read_iff, refused_read_iff]
    by_cases fits : m.Fits address 2
    · obtain ⟨low, high⟩ := fits (by decide)
      obtain ⟨first, here⟩ := exists_read (m := m) low (by omega)
      obtain ⟨second, behind⟩ : ∃ b, m.read (address + 1) = .ok b :=
        exists_read (by omega) (by omega)
      have read := read16_of_bytes (read_eq_ok_iff.mp here) (read_eq_ok_iff.mp behind)
      exact ⟨fun refused => absurd refused (not_refused_of_ok read), fun outside => by omega⟩
    · refine ⟨fun _ => ?_, fun _ => read16_of_not_fits fits⟩
      unfold Fits at fits
      omega

/-! ## Writing -/

/-- Writes bytes one by one, up to the first that is refused: what is in memory then, and why it
stopped. -/
def writeEach (m : Memory) (address : Int) : List UInt8 → Memory × Option Fault
  | [] => (m, none)
  | b :: rest =>
    match m.write address b with
    | .error fault => (m, some fault)
    | .ok m' => m'.writeEach (address + 1) rest

/-- A block write as it goes on in one memory: byte by byte, once the ends have been looked at. -/
def writeInPlace (m : Memory) (start : Int) (block : List UInt8) : Memory × Option Fault :=
  match m.checkSpan start block.length with
  | .error fault => (m, some fault)
  | .ok () => m.writeEach start block

theorem writeEach_of_fits (fits : m.Fits start block.length) :
    m.writeEach start block = (m.putAll start.toNat block, none) := by
  induction block generalizing m start with
  | nil => rfl
  | cons b rest ih =>
    have inside : 0 ≤ start ∧ start + (rest.length + 1) ≤ m.size := fits (by simp)
    have later : (m.put start.toNat b).Fits (start + 1) rest.length := by
      intro _
      show 0 ≤ start + 1 ∧ start + 1 + rest.length ≤ m.size
      omega
    have written : m.write start b = .ok (m.put start.toNat b) := write_of_inside (by omega) b
    simp only [writeEach, written, putAll]
    rw [ih later, show (start + 1).toNat = start.toNat + 1 by omega]

theorem fits_of_writeEach (h : m.writeEach start block = (m', none)) : m.Fits start block.length := by
  induction block generalizing m start with
  | nil => exact nofun
  | cons b rest ih =>
    by_cases inside : 0 ≤ start ∧ start < m.size
    · -- The size is the same for the bytes behind this one.
      simp only [writeEach, write_of_inside inside] at h
      have later : (m.put start.toNat b).Fits (start + 1) rest.length := ih h
      have size : (m.put start.toNat b).size = m.size := rfl
      unfold Fits at later
      intro _
      rw [List.length_cons]
      omega
    · simp only [writeEach, write_of_outside inside, Prod.mk.injEq] at h
      cases h.2

theorem writeInPlace_of_fits (fits : m.Fits start block.length) :
    m.writeInPlace start block = (m.putAll start.toNat block, none) := by
  rw [writeInPlace, checkSpan_of_fits fits]
  exact writeEach_of_fits fits

theorem writeInPlace_of_refused {fault : Fault} (h : m.writeBlock start block = .error fault) :
    m.writeInPlace start block = (m, some fault) := by
  rw [writeInPlace, checkSpan_of_unwritten h]

theorem refused_writeBlock_iff : Refused (m.writeBlock start block) ↔ ¬ m.Fits start block.length :=
  ⟨fun refused fits => not_refused_of_ok (writeBlock_of_fits fits) refused, writeBlock_of_not_fits⟩

/-- A block is in memory from an address on, and nothing else has changed. -/
structure Written (m : Memory) (start : Int) (block : List UInt8) (m' : Memory) : Prop where
  size : m'.size = m.size
  bytes : ∀ k (_ : k < block.length), m'.read (start + k) = .ok block[k]
  others : ∀ address, ¬ (start ≤ address ∧ address < start + block.length) →
    m'.read address = m.read address

theorem written_of_writeBlock (h : m.writeBlock start block = .ok m') : m.Written start block m' where
  size := size_writeBlock h
  bytes k among := by
    rw [read_eq_ok_iff, byteAt?_writeBlock h, if_pos (by omega),
      show (start + k - start).toNat = k by omega, List.getElem?_eq_getElem among]
  others address outside := read_congr (by rw [byteAt?_writeBlock h, if_neg outside])

/-- What writing a block has to do with writing its bytes. -/
structure WritesBytes (m : Memory) (start : Int) (block : List UInt8) : Prop where
  refused : Refused (m.writeBlock start block) ↔
    block ≠ [] ∧ ¬ (0 ≤ start ∧ start + block.length ≤ m.size)
  /-- What is refused has changed nothing. -/
  untouched : ∀ fault, m.writeBlock start block = .error fault →
    m.writeInPlace start block = (m, some fault)
  written : ¬ (block ≠ [] ∧ ¬ (0 ≤ start ∧ start + block.length ≤ m.size)) →
    ∃ m', m.writeBlock start block = .ok m' ∧ m.writeInPlace start block = (m', none) ∧
      m.Written start block m'
  bytewise : ∀ m', m.writeBlock start block = .ok m' ↔ m.writeEach start block = (m', none)

theorem writesBytes (m : Memory) (start : Int) (block : List UInt8) : m.WritesBytes start block where
  refused := by rw [refused_writeBlock_iff, fits_block_iff, Classical.not_not]
  untouched _ failed := writeInPlace_of_refused failed
  written otherwise := by
    have fits := fits_block_iff.mpr otherwise
    have written := writeBlock_of_fits fits
    exact ⟨_, written, writeInPlace_of_fits fits, written_of_writeBlock written⟩
  bytewise m' := by
    constructor
    · intro written
      obtain ⟨fits, rfl⟩ := of_writeBlock written
      exact writeEach_of_fits fits
    · intro each
      have fits := fits_of_writeEach each
      rw [writeEach_of_fits fits, Prod.mk.injEq] at each
      rw [writeBlock_of_fits fits, each.1]

/-- Every access to several bytes does what accesses to single bytes do. -/
structure Bytewise (m : Memory) : Prop where
  writes : ∀ start block, m.WritesBytes start block
  reads : ∀ start n, m.ReadsBytes start n
  words : ∀ address, m.ReadsWord address
  zeros : ∀ (start : Int) (n : Nat),
    m.zeroSpan start n = (m.writeBlock start (List.replicate n 0)).mapError .fault

theorem accesses_bytewise (m : Memory) : m.Bytewise where
  writes := m.writesBytes
  reads := m.readsBytes
  words := m.readsWord
  zeros start n := by
    rw [zeroSpan, if_neg (by omega), Int.toNat_natCast, zeroBlock_eq]

end Chip8.Memory
