import Chip8.Memory

/-! Accesses to memory. A span is in order exactly if it is empty or lies within memory; then the
access succeeds, and a write changes the bytes of the span alone and never the size. -/

namespace Chip8.Memory

/-- A span that an access may name: an empty one, or one within memory. -/
def Fits (m : Memory) (address size : Int) : Prop :=
  0 < size → 0 ≤ address ∧ address + size ≤ m.size

instance (m : Memory) (address size : Int) : Decidable (m.Fits address size) :=
  inferInstanceAs (Decidable (0 < size → _))

/-! ## Checks -/

theorem check_of_inside {m : Memory} {address : Int} (h : 0 ≤ address ∧ address < m.size) :
    m.check address = .ok () := if_pos h

theorem check_of_outside {m : Memory} {address : Int} (h : ¬ (0 ≤ address ∧ address < m.size)) :
    m.check address = .error (.outside address) := if_neg h

theorem checkSpan_of_fits {m : Memory} {address size : Int} (h : m.Fits address size) :
    m.checkSpan address size = .ok () := by
  unfold checkSpan
  split
  · next positive =>
    obtain ⟨low, high⟩ := h positive
    rw [check_of_inside ⟨low, by omega⟩, check_of_inside (by omega)]
    rfl
  · rfl

theorem checkSpan_of_not_fits {m : Memory} {address size : Int} (h : ¬ m.Fits address size) :
    ∃ fault : Fault, m.checkSpan address size = .error fault ∧ fault.kind = .memory := by
  obtain ⟨positive, beyond⟩ := Classical.not_imp.mp h
  unfold checkSpan
  rw [if_pos positive]
  by_cases first : 0 ≤ address ∧ address < m.size
  · rw [check_of_inside first, check_of_outside (by omega)]
    exact ⟨_, rfl, rfl⟩
  · rw [check_of_outside first]
    exact ⟨_, rfl, rfl⟩

theorem of_guarded {α : Type} {check : Except Fault Unit} {a : α} {fault : Fault}
    (h : (check >>= fun _ => pure a) = .error fault) : check = .error fault := by
  cases check with
  | error found =>
    cases h
    rfl
  | ok _ => cases h

/-! ## Reading -/

theorem readBlock_of_fits {m : Memory} {address size : Int} (h : m.Fits address size) :
    m.readBlock address size = .ok (m.slice address (address + size)) := by
  rw [readBlock, checkSpan_of_fits h]
  rfl

/-- A read that is refused is refused by its check. -/
theorem checkSpan_of_unread {m : Memory} {address size : Int} {fault : Fault}
    (h : m.readBlock address size = .error fault) : m.checkSpan address size = .error fault :=
  of_guarded h

theorem readBlock_of_not_fits {m : Memory} {address size : Int} (h : ¬ m.Fits address size) :
    ∃ fault : Fault, m.readBlock address size = .error fault ∧ fault.kind = .memory := by
  obtain ⟨fault, failed, kind⟩ := checkSpan_of_not_fits h
  rw [readBlock, failed]
  exact ⟨fault, rfl, kind⟩

theorem kind_of_readBlock {m : Memory} {address size : Int} {fault : Fault}
    (h : m.readBlock address size = .error fault) : fault.kind = .memory := by
  by_cases fits : m.Fits address size
  · rw [readBlock_of_fits fits] at h
    cases h
  · obtain ⟨other, failed, kind⟩ := readBlock_of_not_fits fits
    obtain rfl := Except.error.inj (failed.symm.trans h)
    exact kind

theorem byteAt?_of_outside {m : Memory} {address : Int} (h : ¬ (0 ≤ address ∧ address < m.size)) :
    m.byteAt? address = none := by
  have size := m.cells_size
  unfold byteAt?
  split
  · exact Array.getElem?_eq_none (by omega)
  · rfl

theorem inside_of_byteAt? {m : Memory} {address : Int} {b : UInt8}
    (h : m.byteAt? address = some b) : 0 ≤ address ∧ address < m.size := by
  apply Classical.byContradiction
  intro outside
  rw [byteAt?_of_outside outside] at h
  cases h

/-- A memory is its size and its bytes. -/
theorem eq_of_bytes {m m' : Memory} (size : m.size = m'.size)
    (bytes : ∀ address, m.byteAt? address = m'.byteAt? address) : m = m' := by
  have cells : m.cells = m'.cells := by
    apply Array.ext_getElem?
    intro k
    rw [← byteAt?_natCast, ← byteAt?_natCast, bytes]
  cases m
  cases m'
  cases size
  cases cells
  rfl

theorem cellAt_of_byteAt? {m : Memory} {address : Int} {b : UInt8} (h : m.byteAt? address = some b) :
    m.cellAt address = b := by
  obtain ⟨low, -⟩ := inside_of_byteAt? h
  obtain ⟨k, rfl⟩ := Int.eq_ofNat_of_zero_le low
  rw [byteAt?_natCast] at h
  rw [cellAt, if_neg (by omega), Int.toNat_natCast, Array.getD_eq_getD_getElem?, h, Option.getD_some]

/-- A word is its two bytes. -/
theorem read16_of_bytes {m : Memory} {address : Int} {high low : UInt8}
    (first : m.byteAt? address = some high) (second : m.byteAt? (address + 1) = some low) :
    m.read16 address = .ok (high.toUInt16 <<< 8 ||| low.toUInt16) := by
  have here := inside_of_byteAt? first
  have behind := inside_of_byteAt? second
  rw [read16, checkSpan_of_fits fun _ => by omega, cellAt_of_byteAt? first, cellAt_of_byteAt? second]
  rfl

theorem read16_of_not_fits {m : Memory} {address : Int} (h : ¬ m.Fits address 2) :
    ∃ fault : Fault, m.read16 address = .error fault ∧ fault.kind = .memory := by
  obtain ⟨fault, failed, kind⟩ := checkSpan_of_not_fits h
  rw [read16, failed]
  exact ⟨fault, rfl, kind⟩

theorem exists_byteAt? {m : Memory} {address : Int} (low : 0 ≤ address) (high : address < m.size) :
    ∃ b, m.byteAt? address = some b := by
  obtain ⟨k, rfl⟩ := Int.eq_ofNat_of_zero_le low
  have inside : k < m.cells.size := by
    have cells := m.cells_size
    omega
  exact ⟨m.cells[k], by rw [byteAt?_natCast, Array.getElem?_eq_getElem inside]⟩

theorem exists_read {m : Memory} {address : Int} (low : 0 ≤ address) (high : address < m.size) :
    ∃ b, m.read address = .ok b := by
  obtain ⟨b, found⟩ := exists_byteAt? low high
  exact ⟨b, by rw [read, found]⟩

/-- A block that lies within memory is the part of its cells from its first on. -/
theorem slice_of_fits {m : Memory} {address : Int} {size : Nat} (positive : 0 < size)
    (h : m.Fits address size) : ∃ start : Nat, address = start ∧ start + size ≤ m.cells.size ∧
      m.slice address (address + size) = (m.cells.extract start (start + size)).toList := by
  obtain ⟨low, high⟩ := h (by omega)
  obtain ⟨start, rfl⟩ := Int.eq_ofNat_of_zero_le low
  have inside : start + size ≤ m.cells.size := by
    have := m.cells_size
    omega
  refine ⟨start, rfl, inside, ?_⟩
  rw [← Int.natCast_add]
  exact slice_of_le m (by omega) inside

theorem length_slice {m : Memory} {address : Int} {size : Nat} (h : m.Fits address size) :
    (m.slice address (address + size)).length = size := by
  rcases Nat.eq_zero_or_pos size with rfl | positive
  · rw [slice, Int.natCast_zero, Int.add_zero, Array.length_toList, Array.size_extract]
    omega
  · obtain ⟨start, rfl, inside, bytes⟩ := slice_of_fits positive h
    rw [bytes, Array.length_toList, Array.size_extract]
    omega

theorem getElem?_slice {m : Memory} {address : Int} {size k : Nat} (h : m.Fits address size)
    (hk : k < size) : (m.slice address (address + size))[k]? = m.byteAt? (address + k) := by
  obtain ⟨start, rfl, inside, bytes⟩ := slice_of_fits (by omega) h
  rw [bytes, ← Int.natCast_add, byteAt?_natCast, Array.getElem?_toList, Array.getElem?_extract,
    if_pos (by omega)]

theorem of_readBlock {m : Memory} {address size : Int} {bytes : List UInt8}
    (h : m.readBlock address size = .ok bytes) :
    m.Fits address size ∧ bytes = m.slice address (address + size) := by
  by_cases fits : m.Fits address size
  · rw [readBlock_of_fits fits] at h
    exact ⟨fits, (Except.ok.inj h).symm⟩
  · obtain ⟨fault, failed, _⟩ := readBlock_of_not_fits fits
    rw [failed] at h
    cases h

theorem length_readBlock {m : Memory} {address : Int} {size : Nat} {bytes : List UInt8}
    (h : m.readBlock address size = .ok bytes) : bytes.length = size := by
  obtain ⟨fits, rfl⟩ := of_readBlock h
  exact length_slice fits

/-! ## Writing -/

theorem size_putAll (m : Memory) (k : Nat) (block : List UInt8) : (m.putAll k block).size = m.size := by
  induction block generalizing m k with
  | nil => rfl
  | cons b rest ih => exact ih (m.put k b) (k + 1)

/-- What has passed the check goes to the cells that its address names. -/
theorem assign_of_fits {m : Memory} {address : Int} {block : List UInt8}
    (h : m.Fits address block.length) :
    m.assign address (address + block.length) block = m.putAll address.toNat block := by
  cases block with
  | nil => rw [assign, List.take_nil, putAll, putAll]
  | cons b rest =>
    obtain ⟨low, high⟩ := h (by simp)
    obtain ⟨start, rfl⟩ := Int.eq_ofNat_of_zero_le low
    have cells := m.cells_size
    rw [assign, ← Int.natCast_add, place_natCast (by omega), place_natCast (by omega),
      Nat.add_sub_cancel_left, List.take_length, Int.toNat_natCast]

theorem writeBlock_of_fits {m : Memory} {address : Int} {block : List UInt8}
    (h : m.Fits address block.length) :
    m.writeBlock address block = .ok (m.putAll address.toNat block) := by
  rw [writeBlock, checkSpan_of_fits h, assign_of_fits h]
  rfl

/-- A write that is refused is refused by its check. -/
theorem checkSpan_of_unwritten {m : Memory} {address : Int} {block : List UInt8} {fault : Fault}
    (h : m.writeBlock address block = .error fault) :
    m.checkSpan address block.length = .error fault := of_guarded h

theorem writeBlock_of_not_fits {m : Memory} {address : Int} {block : List UInt8}
    (h : ¬ m.Fits address block.length) :
    ∃ fault : Fault, m.writeBlock address block = .error fault ∧ fault.kind = .memory := by
  obtain ⟨fault, failed, kind⟩ := checkSpan_of_not_fits h
  rw [writeBlock, failed]
  exact ⟨fault, rfl, kind⟩

theorem kind_of_writeBlock {m : Memory} {address : Int} {block : List UInt8}
    {fault : Fault} (h : m.writeBlock address block = .error fault) : fault.kind = .memory := by
  by_cases fits : m.Fits address block.length
  · rw [writeBlock_of_fits fits] at h
    cases h
  · obtain ⟨other, failed, kind⟩ := writeBlock_of_not_fits fits
    obtain rfl := Except.error.inj (failed.symm.trans h)
    exact kind

theorem of_writeBlock {m m' : Memory} {address : Int} {block : List UInt8}
    (h : m.writeBlock address block = .ok m') :
    m.Fits address block.length ∧ m' = m.putAll address.toNat block := by
  by_cases fits : m.Fits address block.length
  · rw [writeBlock_of_fits fits] at h
    exact ⟨fits, (Except.ok.inj h).symm⟩
  · obtain ⟨fault, failed, _⟩ := writeBlock_of_not_fits fits
    rw [failed] at h
    cases h

theorem size_writeBlock {m m' : Memory} {address : Int} {block : List UInt8}
    (h : m.writeBlock address block = .ok m') : m'.size = m.size := by
  obtain ⟨_, rfl⟩ := of_writeBlock h
  exact size_putAll m _ block

theorem getElem?_putAll {m : Memory} {k : Nat} {block : List UInt8}
    (inside : k + block.length ≤ m.cells.size) (j : Nat) : (m.putAll k block).cells[j]? =
      if k ≤ j ∧ j < k + block.length then block[j - k]? else m.cells[j]? := by
  induction block generalizing m k with
  | nil => exact (if_neg (by rw [List.length_nil]; omega)).symm
  | cons b rest ih =>
    simp only [List.length_cons] at inside ⊢
    have later : k + 1 + rest.length ≤ (m.put k b).cells.size := by
      simp only [put, Array.size_setIfInBounds]
      omega
    rw [putAll, ih later]
    simp only [put]
    by_cases first : j = k
    · subst first
      rw [if_neg (by omega), if_pos (by omega), Nat.sub_self,
        Array.getElem?_setIfInBounds_self_of_lt (by omega)]
      rfl
    · rw [Array.getElem?_setIfInBounds_ne (Ne.symm first)]
      by_cases within : k ≤ j ∧ j < k + (rest.length + 1)
      · rw [if_pos (by omega), if_pos within, show j - k = j - (k + 1) + 1 by omega,
          List.getElem?_cons_succ]
      · rw [if_neg (by omega), if_neg within]

/-- After a write the block is there, and every other byte is as before. -/
theorem byteAt?_writeBlock {m m' : Memory} {start : Int} {block : List UInt8}
    (h : m.writeBlock start block = .ok m') (address : Int) : m'.byteAt? address =
      if start ≤ address ∧ address < start + block.length then block[(address - start).toNat]?
      else m.byteAt? address := by
  obtain ⟨fits, rfl⟩ := of_writeBlock h
  cases block with
  | nil => exact (if_neg (by rw [List.length_nil]; omega)).symm
  | cons b rest =>
    obtain ⟨low, high⟩ := fits (by simp)
    obtain ⟨k, rfl⟩ := Int.eq_ofNat_of_zero_le low
    have cells := m.cells_size
    rcases Int.lt_or_le address 0 with negative | positive
    · simp only [byteAt?, Int.not_le.mpr negative, if_false]
      rw [if_neg (by omega)]
    · obtain ⟨j, rfl⟩ := Int.eq_ofNat_of_zero_le positive
      rw [byteAt?_natCast, byteAt?_natCast, Int.toNat_natCast, getElem?_putAll (by omega)]
      by_cases within : k ≤ j ∧ j < k + (b :: rest).length
      · rw [if_pos within, if_pos (by omega), show ((j : Int) - k).toNat = j - k by omega]
      · rw [if_neg within, if_neg (by omega)]

/-- A program that is loaded is written into a memory of zeros. -/
theorem of_load {m m' : Memory} {program : List UInt8} {address : Int}
    (h : m.load program address = .ok m') :
    (m.zeroFrom Layout.reservedTop).writeBlock address program = .ok m' := by
  unfold load at h
  cases checked : m.checkProgram program.length address with
  | error fault =>
    rw [checked] at h
    cases h
  | ok _ =>
    rw [checked] at h
    exact h

theorem size_load {m m' : Memory} {program : List UInt8} {address : Int}
    (h : m.load program address = .ok m') : m'.size = m.size :=
  (size_writeBlock (of_load h)).trans rfl

end Chip8.Memory
