import Chip8.Proofs.PowerOn

/-! Loading programs. A program is accepted exactly if it lies above the interpreter's area and ends
within memory; this is known before the first byte changes, so that a load which is refused has
changed nothing. A program that is accepted finds nothing of the one before it. It starts at its
first byte, and the load does not ask whether this is a place for an opcode. -/

namespace Chip8

namespace Memory

variable {m m' : Memory} {program : List UInt8} {address : Int}

/-- There is room for a program from an address on, outside the interpreter's area. -/
def Room (m : Memory) (program : List UInt8) (address : Int) : Prop :=
  0x200 ≤ address ∧ address + program.length ≤ m.size

/-! ## Whether a program is accepted -/

theorem checkProgram_of_room (room : m.Room program address) :
    m.checkProgram program.length address = .ok () := by
  obtain ⟨above, inside⟩ := room
  unfold checkProgram Layout.reservedTop
  rw [if_neg (by omega), if_neg (by omega)]

theorem checkProgram_of_no_room (full : ¬ m.Room program address) :
    m.checkProgram program.length address = .error (if address < 0x200 then .reserved address
      else .tooLong program.length (m.size - address) address) := by
  unfold Room at full
  unfold checkProgram Layout.reservedTop
  split
  · next below => rw [if_pos (by omega)]
  · next above => rw [if_pos (by omega), if_neg (by omega)]

theorem load_of_room (room : m.Room program address) :
    m.load program address =
      .ok ((m.zeroFrom Layout.reservedTop).putAll address.toNat program) := by
  have fits : (m.zeroFrom Layout.reservedTop).Fits address program.length := by
    intro _
    obtain ⟨above, inside⟩ := room
    exact ⟨by omega, inside⟩
  rw [load, checkProgram_of_room room]
  exact writeBlock_of_fits fits

theorem load_of_no_room (full : ¬ m.Room program address) :
    m.load program address = .error (if address < 0x200 then .reserved address
      else .tooLong program.length (m.size - address) address) := by
  rw [load, checkProgram_of_no_room full]
  rfl

theorem room_of_load (h : m.load program address = .ok m') : m.Room program address := by
  apply Classical.byContradiction
  intro full
  rw [load_of_no_room full] at h
  cases h

/-! ## What is in memory then -/

theorem byteAt?_zeroFrom (m : Memory) (start : Nat) (k : Int) : (m.zeroFrom start).byteAt? k =
    if k < start then m.byteAt? k else if k < m.size then some 0 else none := by
  by_cases inside : 0 ≤ k ∧ k < m.size
  · obtain ⟨j, rfl⟩ := Int.eq_ofNat_of_zero_le inside.1
    have cell : j < m.cells.size := by
      have size := m.cells_size
      omega
    rw [byteAt?_natCast, byteAt?_natCast, if_pos inside.2]
    simp only [zeroFrom, Array.getElem?_mapIdx, Array.getElem?_eq_getElem cell, Option.map_some,
      Int.ofNat_lt]
    split <;> rfl
  · rw [byteAt?_of_outside (m := m.zeroFrom start) inside, byteAt?_of_outside inside]
    split
    · rfl
    · rw [if_neg (by omega)]

theorem byteAt?_load (h : m.load program address = .ok m') (k : Int) : m'.byteAt? k =
    if address ≤ k ∧ k < address + program.length then program[(k - address).toNat]?
    else if k < 0x200 then m.byteAt? k else if k < m.size then some 0 else none := by
  rw [byteAt?_writeBlock (of_load h), byteAt?_zeroFrom]
  rfl

/-! ## Loading in place -/

/-- A load as it goes on in one memory: what is left there, and the fault that stopped it. -/
def loadInPlace (m : Memory) (program : List UInt8) (address : Int) : Memory × Option Fault :=
  match m.checkProgram program.length address with
  | .error fault => (m, some fault)
  | .ok () =>
    match m.zeroBlock Layout.reservedTop (m.size - Layout.reservedTop).toNat with
    | .error fault => (m, some fault)
    | .ok zeroed =>
      match zeroed.writeBlock address program with
      | .error fault => (zeroed, some fault)
      | .ok written => (written, none)

theorem zeroBlock_eq_zeroFrom {start : Nat} (inside : start ≤ m.size) :
    m.zeroBlock start (m.size - start).toNat = .ok (m.zeroFrom start) := by
  have fits : m.Fits start (List.replicate (m.size - start).toNat (0 : UInt8)).length := by
    intro _
    rw [List.length_replicate]
    omega
  have written := writeBlock_of_fits fits
  rw [zeroBlock_eq, written]
  congr 1
  refine eq_of_bytes ((size_writeBlock written).trans rfl) fun k => ?_
  rw [byteAt?_writeBlock written, byteAt?_zeroFrom, List.length_replicate]
  by_cases zeroed : start ≤ k ∧ k < m.size
  · rw [if_pos (by omega), if_neg (by omega), if_pos zeroed.2,
      List.getElem?_replicate_of_lt (by omega)]
  · rw [if_neg (by omega)]
    split
    · rfl
    · rw [if_neg (by omega), byteAt?_of_outside (by omega)]

/-- Nothing fails once the first byte has changed. -/
theorem loadInPlace_of_room (room : m.Room program address) :
    ∃ m', m.load program address = .ok m' ∧ m.loadInPlace program address = (m', none) := by
  have loaded := load_of_room room
  have written := of_load loaded
  have zeroed : m.zeroBlock Layout.reservedTop (m.size - Layout.reservedTop).toNat = _ :=
    zeroBlock_eq_zeroFrom (by unfold Room at room; unfold Layout.reservedTop; omega)
  refine ⟨_, loaded, ?_⟩
  simp only [loadInPlace, checkProgram_of_room room, zeroed, written]

theorem loadInPlace_of_no_room (full : ¬ m.Room program address) :
    ∃ fault : Fault, fault.kind = .memory ∧ m.load program address = .error fault ∧
      m.loadInPlace program address = (m, some fault) := by
  refine ⟨_, ?_, load_of_no_room full, ?_⟩
  · split <;> rfl
  · simp only [loadInPlace, checkProgram_of_no_room full]

end Memory

/-- A dark screen has no lit pixel. -/
theorem Display.isLit_blank {width height : Nat} (hw : 0 < width) (hh : 0 < height) (x y : Nat) :
    (blank width height hw hh).isLit x y = false := by
  rw [isLit_eq]
  simp only [blank, Memory.zeros, Array.getElem?_replicate]
  split <;> simp

namespace Machine

variable {m m' : Machine} {program : List UInt8} {address : Int}

/-- A program is in memory and the machine is at its start. -/
structure Loaded (m : Machine) (program : List UInt8) (address : Int) (m' : Machine) : Prop where
  size : m'.memory.size = 0x1000
  reserved : ∀ k : Int, k < 0x200 → m'.memory.byteAt? k = m.memory.byteAt? k
  bytes : ∀ k : Nat, k < program.length → m'.memory.byteAt? (address + k) = program[k]?
  zeros : ∀ k : Int, 0x200 ≤ k → k < 0x1000 → ¬ (address ≤ k ∧ k < address + program.length) →
    m'.memory.byteAt? k = some 0
  calls : m'.calls = {}
  timers : m'.timers = {}
  processor : m'.toProcessor = .startingAt address
  screen : m'.display.size = (64, 32)
  dark : ∀ x y, m'.display.isLit x y = false
  dirty : m'.display.dirty = true
  keypad : m'.keypad = m.keypad
  dialect : m'.dialect = m.dialect
  hires : m'.hires = m.hires
  traced : m'.traced = m.traced
  random : m'.random = m.random

theorem loaded_of_loadProgram (memory : m.memory.size = Layout.memorySize)
    (limit : m.calls.limit = Layout.callDepth) (h : m.loadProgram program address = .ok m') :
    m.Loaded program address m' := by
  obtain ⟨loaded, written, rfl⟩ := of_loadProgram h
  obtain ⟨above, _⟩ := Memory.room_of_load written
  have bytes := Memory.byteAt?_load written
  refine {
    size := (Memory.size_load written).trans memory
    reserved := fun k low => ?_
    bytes := fun k inside => ?_
    zeros := fun k high inside outside => ?_
    calls := clear_eq limit
    timers := rfl
    processor := rfl
    screen := rfl
    dark := Display.isLit_blank _ _
    dirty := rfl
    keypad := rfl
    dialect := rfl
    hires := rfl
    traced := rfl
    random := rfl }
  · rw [bytes, if_neg (by omega), if_pos low]
  · rw [bytes, if_pos (by omega), show (address + k - address).toNat = k by omega]
  · rw [bytes, if_neg outside, if_neg (by omega), memory]
    exact if_pos inside

/-- Two machines agree on all that a load leaves alone, but perhaps only one of them is traced. -/
structure SameBackground (m n : Machine) : Prop where
  reserved : ∀ k : Int, k < 0x200 → n.memory.byteAt? k = m.memory.byteAt? k
  keypad : n.keypad = m.keypad
  dialect : n.dialect = m.dialect
  hires : n.hires = m.hires
  random : n.random = m.random

theorem SameBackground.loadProgram {n n' : Machine} (h : m.SameBackground n)
    (memory : n.memory.size = m.memory.size) (limit : n.calls.limit = m.calls.limit)
    (loaded : m.loadProgram program address = .ok m')
    (loaded' : n.loadProgram program address = .ok n') : n' = { m' with traced := n.traced } := by
  obtain ⟨image, written, rfl⟩ := of_loadProgram loaded
  obtain ⟨image', written', rfl⟩ := of_loadProgram loaded'
  have same : image' = image := by
    refine Memory.eq_of_bytes ?_ fun k => ?_
    · rw [Memory.size_load written', Memory.size_load written, memory]
    · rw [Memory.byteAt?_load written', Memory.byteAt?_load written, memory]
      by_cases low : k < 0x200
      · rw [h.reserved k low]
      · rw [if_neg low, if_neg low]
  simp only [same, CallStack.clear, limit, h.keypad, h.dialect, h.hires, h.random]

theorem loadProgram_of_room (room : m.memory.Room program address) :
    ∃ m', m.loadProgram program address = .ok m' ∧
      m.memory.loadInPlace program address = (m'.memory, none) := by
  obtain ⟨memory, written, inPlace⟩ := Memory.loadInPlace_of_room room
  have loaded : m.loadProgram program address = (Except.ok memory).map _ :=
    congrArg (Except.map _) written
  exact ⟨_, loaded, inPlace⟩

theorem loadProgram_of_no_room (full : ¬ m.memory.Room program address) :
    ∃ fault : Fault, fault.kind = .memory ∧ m.loadProgram program address = .error fault ∧
      m.memory.loadInPlace program address = (m.memory, some fault) := by
  obtain ⟨fault, kind, failed, inPlace⟩ := Memory.loadInPlace_of_no_room full
  have refused : m.loadProgram program address = (Except.error fault).map _ :=
    congrArg (Except.map _) failed
  exact ⟨fault, kind, refused, inPlace⟩

/-- A program is accepted exactly if it lies between the interpreter's area and the end of memory.
If it is refused, this is known before memory changes; if it is accepted, nothing is left of what the
machine did before. -/
theorem loads_exactly (dialect : Dialect) (hires traced : Bool) (random : ByteSource)
    (operations : List Operation) (program : List UInt8) (address : Int) :
    let m := (new dialect hires traced random).after operations
    let loaded := m.answer (.load program address)
    let inside := 0x200 ≤ address ∧ address + program.length ≤ 0x1000
    (inside → loaded.failure = none ∧ m.Loaded program address loaded.machine ∧
      m.memory.loadInPlace program address = (loaded.machine.memory, none)) ∧
    (¬ inside → ∃ fault : Fault, fault.kind = .memory ∧
      loaded = { machine := m, failure := some (.fault fault) } ∧
      m.memory.loadInPlace program address = (m.memory, some fault)) ∧
    (inside → ∀ dialect' hires' traced' random' operations',
      let n := (new dialect' hires' traced' random').after operations'
      m.SameBackground n →
        (n.answer (.load program address)).machine = { loaded.machine with traced := n.traced }) := by
  intro m loaded inside
  have make : (new dialect hires traced random).SameMake m := sameMake_after _ operations
  have room_iff : ∀ n : Machine, n.memory.size = Layout.memorySize →
      (n.memory.Room program address ↔ inside) := by
    intro n size
    rw [Memory.Room, size]
    rfl
  refine ⟨fun fits => ?_, fun beyond => ?_, fun fits => ?_⟩
  · obtain ⟨m', accepted, inPlace⟩ := loadProgram_of_room ((room_iff m make.memory).mpr fits)
    have answered : loaded = { machine := m' } := by simp only [loaded, answer, accepted]
    rw [answered]
    exact ⟨rfl, loaded_of_loadProgram make.memory make.limit accepted, inPlace⟩
  · obtain ⟨fault, kind, refused, inPlace⟩ :=
      loadProgram_of_no_room (mt (room_iff m make.memory).mp beyond)
    exact ⟨fault, kind, by simp only [loaded, answer, refused], inPlace⟩
  · intro dialect' hires' traced' random' operations' n same
    have make' : (new dialect' hires' traced' random').SameMake n := sameMake_after _ operations'
    obtain ⟨m', accepted, _⟩ := loadProgram_of_room ((room_iff m make.memory).mpr fits)
    obtain ⟨n', accepted', _⟩ := loadProgram_of_room ((room_iff n make'.memory).mpr fits)
    have equal := same.loadProgram (make'.memory.trans make.memory.symm)
      (make'.limit.trans make.limit.symm) accepted accepted'
    simp only [loaded, answer, accepted, accepted', equal]

/-- Behind the last byte there is room for a program without bytes, and for no other. -/
theorem loads_exactly_top :
    let m := new {} false false (.cycle [])
    (0x200 ≤ (0x1000 : Int) ∧ 0x1000 + (([] : List UInt8).length : Int) ≤ 0x1000) ∧
      (m.answer (.load [] 0x1000)).failure = none ∧
      ¬ (0x200 ≤ (0x1000 : Int) ∧ 0x1000 + (([0x60] : List UInt8).length : Int) ≤ 0x1000) ∧
      (m.answer (.load [0x60] 0x1000)).machine = m := by
  intro m
  have empty := (loads_exactly {} false false (.cycle []) [] [] 0x1000).1 (by decide)
  obtain ⟨fault, _, refused, _⟩ :=
    (loads_exactly {} false false (.cycle []) [] [0x60] 0x1000).2.1 (by decide)
  exact ⟨by decide, empty.1, by decide, congrArg Answer.machine refused⟩

/-! ## Where a program starts -/

/-- A step leaves the program counter where it is, or moves it to a place for an opcode. -/
theorem pc_step_cases (m : Machine) :
    m.step.machine.pc = m.pc ∨ isTarget m.step.machine.pc = true := by
  have stepped := m.stepped
  generalize m.step.machine = m', m.step.fault = fault at stepped ⊢
  cases stepped with
  | resolved _ _ target | completed _ _ _ _ target => exact .inr target
  | stranded _ _ _ executed => exact .inl (samePlace_of_execute executed).pc
  | refused _ _ _ failed => exact .inl (samePlace_of_execute_error failed).pc
  | waiting | stuck | unfetched | unknown => exact .inl rfl

theorem pc_answer_cases (m : Machine) {operation : Operation} (on : operation.continues) :
    (m.answer operation).machine.pc = m.pc ∨ isTarget (m.answer operation).machine.pc = true := by
  cases operation with
  | load | reset => cases on
  | step => exact m.pc_step_cases
  | setKey key pressed =>
    obtain ⟨keypad, answered⟩ := m.answer_setKey key pressed
    rw [answered]
    exact .inl rfl
  | tick | setDialect => exact .inl rfl

theorem pc_after_cases (m : Machine) {operations : List Operation}
    (on : ∀ operation ∈ operations, operation.continues) :
    (m.after operations).pc = m.pc ∨ isTarget (m.after operations).pc = true := by
  induction operations generalizing m with
  | nil => exact .inl rfl
  | cons operation rest ih =>
    obtain ⟨first, others⟩ := List.forall_mem_cons.mp on
    rcases ih (m.answer operation).machine others with kept | moved
    · have now := m.pc_answer_cases first
      rw [← kept] at now
      exact now
    · exact .inr moved

/-- A program starts where it is loaded, be this a place for an opcode or not, and only a step that
succeeds can leave a place that is none. So the program counter is an even address within memory at
all times exactly if the program was loaded to one. -/
theorem pc_since_load (accepted : m.loadProgram program address = .ok m') :
    m'.pc = address ∧
    (∀ operations, (∀ operation ∈ operations, operation.continues) →
      (m'.after operations).pc = address ∨ isTarget (m'.after operations).pc = true) ∧
    ((∀ operations, (∀ operation ∈ operations, operation.continues) →
        let pc := (m'.after operations).pc
        pc % 2 = 0 ∧ 0 ≤ pc ∧ pc ≤ 0xFFE) ↔
      address % 2 = 0 ∧ address ≤ 0xFFE) := by
  obtain ⟨memory, written, started⟩ := of_loadProgram accepted
  have pc : m'.pc = address := congrArg (fun m => m.pc) started
  have later : ∀ operations, (∀ operation ∈ operations, operation.continues) →
      (m'.after operations).pc = address ∨ isTarget (m'.after operations).pc = true :=
    fun _ on => pc ▸ m'.pc_after_cases on
  refine ⟨pc, later, ?_, ?_⟩
  · intro always
    obtain ⟨even, _, low⟩ := pc ▸ always [] (by simp)
    exact ⟨even, low⟩
  · rintro ⟨even, low⟩ operations on
    have place : isTarget address = true :=
      isTarget_iff.mpr ⟨even, by have := (Memory.room_of_load written).1; omega, low⟩
    rcases later operations on with kept | moved
    · rw [kept]
      exact isTarget_iff.mp place
    · exact isTarget_iff.mp moved

/-- A program that starts at the last place for an opcode. -/
theorem pc_since_load_last :
    let m := new {} false false (.cycle [])
    ∃ m', m.loadProgram [0x00, 0xE0] 0xFFE = .ok m' ∧ m'.step.machine.pc % 2 = 0 := by
  intro m
  obtain ⟨m', accepted⟩ : ∃ m', m.loadProgram [0x00, 0xE0] 0xFFE = .ok m' := ⟨_, rfl⟩
  have places := (pc_since_load accepted).2.2.mpr (by decide)
  exact ⟨m', accepted, (places [.step] (by decide)).1⟩

/-- A program is accepted at an odd address, and its first instruction has no place to go on. -/
theorem odd_start_accepted :
    let m := new {} false false (.cycle [])
    ∃ m', m.loadProgram [0x60, 0x01] 0x201 = .ok m' ∧ m'.pc = 0x201 ∧
      m'.step.fault = some (.badTarget 0x203 0x201) ∧ m'.step.machine.pc = 0x201 := by
  intro m
  obtain ⟨m', accepted⟩ : ∃ m', m.loadProgram [0x60, 0x01] 0x201 = .ok m' := ⟨_, rfl⟩
  have asked : m'.upcoming? = some (.setByte 0 1) := upcoming?_of_loadProgram accepted
  obtain ⟨memory, _, started⟩ := of_loadProgram accepted
  have pc : m'.pc = 0x201 := congrArg (fun m => m.pc) started
  obtain ⟨_, opcode, _, step⟩ := of_upcoming? asked
  obtain ⟨stayed, failed⟩ := perform_of_ok (m := m'.fetched opcode) (i := .setByte 0 1) rfl
  have next : ((m'.fetched opcode).setV 0 1).next = 0x203 := congrArg (· + 2) pc
  have nowhere : ¬ isTarget 0x203 = true := by decide
  rw [← step, next, if_neg nowhere] at stayed failed
  have origin : ((m'.fetched opcode).setV 0 1).origin = 0x201 := pc
  refine ⟨m', accepted, pc, ?_, ?_⟩
  · rw [failed, origin]
  · rw [stayed]
    exact pc

end Machine

end Chip8
