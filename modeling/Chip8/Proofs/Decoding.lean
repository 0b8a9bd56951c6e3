import Chip8.Instruction.Table
import Chip8.Proofs.Step

/-! Decoding. The table holds every form under a key of its own, and what the first nibble of an opcode
makes of the rest is the key of the form that covers it. So the search ends at the second access,
whatever the operands are, and never comes back to a family. -/

namespace Chip8

/-! ## Masks -/

/-- A mask acts on the first nibble of an opcode and on the rest by themselves. -/
theorem land_split (x n : Nat) {m : Nat} (hm : m < 0x1000) :
    x &&& (0x1000 * n + m) = 0x1000 * (x / 0x1000 &&& n) + (x % 0x1000 &&& m) := by
  show x &&& (2 ^ 12 * n + m) = 2 ^ 12 * (x / 2 ^ 12 &&& n) + (x % 2 ^ 12 &&& m)
  have hm : m < 2 ^ 12 := hm
  have hx : x % 2 ^ 12 < 2 ^ 12 := Nat.mod_lt x (by decide)
  apply Nat.eq_of_testBit_eq
  intro i
  have bits : x.testBit i =
      if i < 12 then (x % 2 ^ 12).testBit i else (x / 2 ^ 12).testBit (i - 12) := by
    rw [← Nat.testBit_two_pow_mul_add _ hx, Nat.div_add_mod]
  rw [Nat.testBit_and, bits, Nat.testBit_two_pow_mul_add _ hm,
    Nat.testBit_two_pow_mul_add _ (Nat.and_lt_two_pow _ hm)]
  split
  · rw [Nat.testBit_and]
  · rw [Nat.testBit_and]

/-- The masks of the families keep the first nibble. -/
theorem land_family (w : UInt16) {m : Nat} (hm : m < 0x1000) :
    w.toNat &&& (0xF000 + m) = w.toNat / 0x1000 * 0x1000 + (w.toNat % 0x1000 &&& m) := by
  have small := w.toNat_lt
  have whole := land_split w.toNat 0xF hm
  have first : w.toNat / 0x1000 &&& 0xF = w.toNat / 0x1000 % 0x10 :=
    Nat.and_two_pow_sub_one_eq_mod _ 4
  rw [first, Nat.mod_eq_of_lt (by omega), Nat.mul_comm 0x1000 (w.toNat / 0x1000)] at whole
  exact whole

theorem land_ends (w : UInt16) :
    w.toNat &&& 0xF00F = w.toNat / 0x1000 * 0x1000 + w.toNat % 0x10 := by
  have whole := land_family w (m := 0xF) (by decide)
  have last : w.toNat % 0x1000 &&& 0xF = w.toNat % 0x1000 % 0x10 :=
    Nat.and_two_pow_sub_one_eq_mod _ 4
  rw [last, Nat.mod_mod_of_dvd _ (by decide)] at whole
  exact whole

theorem land_byte (w : UInt16) :
    w.toNat &&& 0xF0FF = w.toNat / 0x1000 * 0x1000 + w.toNat % 0x100 := by
  have whole := land_family w (m := 0xFF) (by decide)
  have last : w.toNat % 0x1000 &&& 0xFF = w.toNat % 0x1000 % 0x100 :=
    Nat.and_two_pow_sub_one_eq_mod _ 8
  rw [last, Nat.mod_mod_of_dvd _ (by decide)] at whole
  exact whole

/-! ## Forms and their keys -/

namespace OpcodeForm

open OpcodeTable

/-- The key of a form. -/
def key : OpcodeForm → Nat
  | clear => 0x00E0
  | ret => 0x00EE
  | lowResolution => 0x00FE
  | highResolution => 0x00FF
  | jump => 0x1
  | call => 0x2
  | skipIfByte => 0x3
  | skipUnlessByte => 0x4
  | skipIfEqual => 0x5000
  | setByte => 0x6
  | addByte => 0x7
  | alu op => 0x8000 + op.nibble
  | skipUnlessEqual => 0x9000
  | setIndex => 0xA
  | jumpOffset => 0xB
  | random => 0xC
  | draw => 0xD
  | skipIfKey => 0xE09E
  | skipUnlessKey => 0xE0A1
  | readDelay => 0xF007
  | awaitKey => 0xF00A
  | setDelay => 0xF015
  | setSound => 0xF018
  | addIndex => 0xF01E
  | glyph => 0xF029
  | decimal => 0xF033
  | dump => 0xF055
  | fill => 0xF065

/-- What the table holds under the first nibble of a form. -/
def head : OpcodeForm → Entry
  | clear | ret | lowResolution | highResolution => .whole
  | skipIfEqual | alu _ | skipUnlessEqual => .masked 0xF00F
  | skipIfKey | skipUnlessKey => .masked 0xF0FF
  | readDelay | awaitKey | setDelay | setSound | addIndex | glyph | decimal | dump | fill =>
    .masked 0xF0FF
  | f => .form f

end OpcodeForm

namespace OpcodeTable

open Opcode

/-- The key that an entry makes of an opcode. -/
def Entry.part (w : UInt16) : Entry → Nat
  | form _ => family w
  | whole => w.toNat
  | masked mask => w.toNat &&& mask

variable {hires : Bool} {w : UInt16} {f : OpcodeForm} {e : Entry} {k : Nat}

theorem covers_iff : f.covers w = true ↔ f.head.part w = f.key := by
  have small := w.toNat_lt
  have ends := land_ends w
  have byte := land_byte w
  cases f with
  | alu op =>
    cases op <;>
      simp [OpcodeForm.covers, OpcodeForm.pattern, OpcodeForm.digit?, OpcodeForm.head,
        OpcodeForm.key, AluOp.nibble, Entry.part] <;> omega
  | _ =>
    simp [OpcodeForm.covers, OpcodeForm.pattern, OpcodeForm.digit?, OpcodeForm.head,
      OpcodeForm.key, Entry.part, family]
    omega

theorem lookup?_key (known : f.known hires = true) : lookup? hires f.key = some (.form f) := by
  cases f with
  | alu op => cases hires <;> cases op <;> rfl
  | lowResolution | highResolution => cases hires <;> first | rfl | cases known
  | _ => cases hires <;> rfl

/-- The first nibble of an entry's key: a family lies under it, and a form of several nibbles begins
with it. -/
def nibbleOf (key : Nat) : Nat := if key < 0x10 then key else key / 0x1000

/-- A place of the table that is as it should be. -/
def Placed (hires : Bool) (k : Nat) : Entry → Prop
  | .form f => f.known hires = true ∧ k = f.key
  | .whole => k = 0
  | .masked mask => 5 ≤ k ∧ k < 0x10 ∧ (mask = 0xF00F ∨ mask = 0xF0FF)

instance (hires : Bool) (k : Nat) : (e : Entry) → Decidable (Placed hires k e)
  | .form f => inferInstanceAs (Decidable (f.known hires = true ∧ k = f.key))
  | .whole => inferInstanceAs (Decidable (k = 0))
  | .masked mask => inferInstanceAs (Decidable (5 ≤ k ∧ k < 0x10 ∧ (mask = 0xF00F ∨ mask = 0xF0FF)))

theorem placed_of_lookup? (h : lookup? hires k = some e) : Placed hires k e := by
  have all : ∀ p ∈ entries hires, Placed hires p.1 p.2 := by cases hires <;> decide
  obtain ⟨before, after, split, _⟩ := List.lookup_eq_some_iff.mp h
  exact all (k, e) (by simp [split])

theorem form_of_le (beyond : 0x10 ≤ k) (h : lookup? hires k = some e) : ∃ f, e = .form f := by
  have placed := placed_of_lookup? h
  cases e with
  | form f => exact ⟨f, rfl⟩
  | whole =>
    obtain rfl : k = 0 := placed
    cases beyond
  | masked => exact absurd placed.2.1 (Nat.not_lt.mpr beyond)

/-- The entry of the first nibble. -/
theorem lookup?_nibbleOf : lookup? hires (nibbleOf f.key) = some f.head := by
  cases f with
  | alu op => cases hires <;> cases op <;> rfl
  | _ => cases hires <;> rfl

/-- What an entry makes of an opcode keeps the first nibble. -/
theorem nibbleOf_part (placed : Placed hires (family w) e) (large : e = .whole → 0x10 ≤ w.toNat) :
    nibbleOf (e.part w) = family w := by
  have small := w.toNat_lt
  have ends := land_ends w
  have byte := land_byte w
  unfold nibbleOf
  cases e with
  | form f =>
    rw [Entry.part, if_pos (by unfold family; omega)]
  | whole =>
    have large := large rfl
    rw [Entry.part, if_neg (by omega), family]
  | masked mask =>
    obtain ⟨low, _, rfl | rfl⟩ := placed
    · unfold family at low ⊢
      rw [Entry.part, if_neg (by omega)]
      omega
    · unfold family at low ⊢
      rw [Entry.part, if_neg (by omega)]
      omega

theorem le_part (placed : Placed hires (family w) e) (family : ∀ f, e ≠ .form f)
    (large : e = .whole → 0x10 ≤ w.toNat) : 0x10 ≤ e.part w := by
  have ends := land_ends w
  have byte := land_byte w
  cases e with
  | form f => exact absurd rfl (family f)
  | whole => exact large rfl
  | masked mask =>
    obtain ⟨low, _, rfl | rfl⟩ := placed <;>
    · unfold Opcode.family at low
      rw [Entry.part]
      omega

/-- A form whose key comes out of an opcode covers it. -/
theorem covers_of_part (first : lookup? hires (family w) = some e)
    (large : e = .whole → 0x10 ≤ w.toNat) (same : e.part w = f.key) : f.covers w = true := by
  have head : lookup? hires (nibbleOf f.key) = some f.head := lookup?_nibbleOf
  rw [← same, nibbleOf_part (placed_of_lookup? first) large, first] at head
  exact covers_iff.mpr (Option.some.inj head ▸ same)

theorem family_of_covers (covers : f.covers w = true) : family w = nibbleOf f.key := by
  have small := w.toNat_lt
  cases f with
  | alu op =>
    cases op <;>
      simp [OpcodeForm.covers, OpcodeForm.pattern, OpcodeForm.digit?] at covers <;>
      exact covers.1.symm
  | _ =>
    simp [OpcodeForm.covers, OpcodeForm.pattern, OpcodeForm.digit?] at covers
    first | exact covers.symm | exact covers.1.symm

/-! ## The search -/

/-- An access leaves another one to make only if it finds a family. -/
theorem of_next_eq_pending {s : Search} (h : s.next hires w = .pending k) :
    ∃ k' e, s = .pending k' ∧ lookup? hires k' = some e ∧ (∀ f, e ≠ .form f) ∧
      (e = .whole → 0x10 ≤ w.toNat) ∧ k = e.part w := by
  cases s with
  | found | unknown => cases h
  | pending k' =>
    simp only [Search.next] at h
    split at h
    · cases h
    · cases h
    · next held =>
      split at h
      · cases h
      · next large =>
        cases h
        exact ⟨k', .whole, rfl, held, nofun, fun _ => Nat.le_of_not_lt large, rfl⟩
    · next mask held =>
      cases h
      exact ⟨k', .masked mask, rfl, held, nofun, nofun, rfl⟩

theorem of_next_eq_found {s : Search} (h : s.next hires w = .found f) :
    s = .found f ∨ ∃ k, s = .pending k ∧ lookup? hires k = some (.form f) := by
  cases s with
  | found => exact .inl h
  | unknown => cases h
  | pending k =>
    simp only [Search.next] at h
    split at h
    · cases h
    · next held =>
      cases h
      exact .inr ⟨k, rfl, held⟩
    · split at h <;> cases h
    · cases h

theorem next_of_form (held : lookup? hires k = some (.form f)) :
    (Search.pending k).next hires w = .found f := by
  simp only [Search.next, held]

theorem next_of_family (held : lookup? hires k = some e) (family : ∀ f, e ≠ .form f)
    (large : e = .whole → 0x10 ≤ w.toNat) : (Search.pending k).next hires w = .pending (e.part w) := by
  cases e with
  | form f => exact absurd rfl (family f)
  | whole => simp only [Search.next, held, Nat.not_lt.mpr (large rfl), if_false, Entry.part]
  | masked mask => simp only [Search.next, held, Entry.part]

/-- Only the first two accesses have a key, and the second key is none of a family. -/
theorem of_search_eq_pending {n : Nat} (h : search hires w n = .pending k) :
    n = 0 ∧ k = family w ∨ n = 1 ∧ 0x10 ≤ k ∧ ∃ e, lookup? hires (family w) = some e ∧
      (e = .whole → 0x10 ≤ w.toNat) ∧ k = e.part w := by
  induction n generalizing k with
  | zero =>
    cases h
    exact .inl ⟨rfl, rfl⟩
  | succ n ih =>
    obtain ⟨k', e, before, held, families, large, rfl⟩ := of_next_eq_pending h
    rcases ih before with ⟨rfl, rfl⟩ | ⟨_, beyond, _⟩
    · have second := le_part (placed_of_lookup? held) families large
      exact .inr ⟨rfl, second, e, held, large, rfl⟩
    · obtain ⟨f, rfl⟩ := form_of_le beyond held
      exact absurd rfl (families f)

/-- A form that the search finds is known and covers the opcode. -/
theorem of_search_eq_found {n : Nat} (h : search hires w n = .found f) :
    f.known hires = true ∧ f.covers w = true := by
  induction n with
  | zero => cases h
  | succ n ih =>
    rcases of_next_eq_found h with before | ⟨k, before, held⟩
    · exact ih before
    · obtain ⟨known, same⟩ := placed_of_lookup? held
      refine ⟨known, ?_⟩
      rcases of_search_eq_pending before with ⟨_, rfl⟩ | ⟨_, _, e, first, large, rfl⟩
      · exact covers_of_part held nofun same
      · exact covers_of_part first large same

theorem le_key_of_whole (head : f.head = .whole) : 0x10 ≤ f.key := by
  cases f <;> first | decide | cases head

/-- The search finds every known form that covers an opcode. -/
theorem search_of_covers (known : f.known hires = true) (covers : f.covers w = true) (n : Nat) :
    search hires w (n + 2) = .found f := by
  have same := covers_iff.mp covers
  have first : lookup? hires (family w) = some f.head :=
    family_of_covers covers ▸ lookup?_nibbleOf
  have own : lookup? hires f.key = some (.form f) := lookup?_key known
  induction n with
  | zero =>
    have second : search hires w 1 = .found f ∨ search hires w 1 = .pending f.key := by
      cases head : f.head with
      | form g =>
        rw [head] at same
        have here : family w = f.key := same
        exact .inl (next_of_form (here ▸ own))
      | whole =>
        have large : 0x10 ≤ w.toNat := by
          have whole : f.head.part w = w.toNat := by rw [head, Entry.part]
          rw [← whole, same]
          exact le_key_of_whole head
        exact .inr (same ▸ next_of_family first (by simp [head]) fun _ => large)
      | masked mask => exact .inr (same ▸ next_of_family first (by simp [head]) (by simp [head]))
    rcases second with found | pending
    · rw [search, found, Search.next]
    · rw [search, pending, next_of_form own]
  | succ n ih => rw [search, ih, Search.next]

theorem search_ne_pending {n : Nat} (enough : 2 ≤ n) : search hires w n ≠ .pending k := by
  intro pending
  rcases of_search_eq_pending pending with ⟨rfl, _⟩ | ⟨rfl, _⟩ <;> omega

theorem covers_unique {g : OpcodeForm} (covers : f.covers w = true) (covers' : g.covers w = true) :
    f = g := by
  have known : ∀ f : OpcodeForm, f.known true = true := by intro f; cases f <;> rfl
  have found := search_of_covers (known f) covers 0
  rw [search_of_covers (known g) covers' 0] at found
  exact (Search.found.inj found).symm

end OpcodeTable

/-! ## The decoder -/

open OpcodeTable

variable {hires : Bool} {w : UInt16} {i : Instruction}

theorem AluOp.of_ofNibble? {n : Nat} {op : AluOp} (h : ofNibble? n = some op) : n = op.nibble := by
  unfold ofNibble? at h
  split at h <;> cases h <;> rfl

theorem Opcode.toNat_byte (w : UInt16) : (byte w).toNat = w.toNat % 0x100 := by
  simp [byte]

section

variable {f : OpcodeForm}

theorem n_of_covers (covers : f.covers w = true) (head : f.head = .masked 0xF00F) :
    (Opcode.n w).val = f.key % 16 := by
  have same : f.head.part w = f.key := covers_iff.mp covers
  rw [head, Entry.part, land_ends] at same
  show w.toNat % 16 = _
  omega

theorem byte_of_covers (covers : f.covers w = true) (head : f.head = .masked 0xF0FF) :
    (Opcode.byte w).toNat = f.key % 0x100 := by
  have same : f.head.part w = f.key := covers_iff.mp covers
  rw [head, Entry.part, land_byte] at same
  rw [Opcode.toNat_byte]
  omega

/-- The decoder knows the forms that the table knows. -/
theorem Instruction.decode?_of_covers (known : f.known hires = true) (covers : f.covers w = true) :
    decode? hires w = some (f.instruction w) := by
  have first := family_of_covers covers
  cases f with
  | clear | ret | lowResolution | highResolution =>
    have whole : w.toNat = _ := covers_iff.mp covers
    simp_all [decode?, OpcodeForm.key, OpcodeForm.instruction, nibbleOf, OpcodeForm.known]
  | alu op =>
    have last := n_of_covers covers rfl
    cases op <;>
      simp_all [decode?, OpcodeForm.key, OpcodeForm.instruction, nibbleOf, AluOp.nibble,
        AluOp.ofNibble?]
  | skipIfEqual | skipUnlessEqual =>
    have last := n_of_covers covers rfl
    simp_all [decode?, OpcodeForm.key, OpcodeForm.instruction, nibbleOf]
  | skipIfKey | skipUnlessKey | readDelay | awaitKey | setDelay | setSound | addIndex | glyph
  | decimal | dump | fill =>
    have low := byte_of_covers covers rfl
    simp_all [decode?, OpcodeForm.key, OpcodeForm.instruction, nibbleOf]
  | _ => simp_all [decode?, OpcodeForm.key, OpcodeForm.instruction, nibbleOf]

end

/-- The form of the opcodes of an instruction. -/
def Instruction.form : Instruction → OpcodeForm
  | clear => .clear
  | ret => .ret
  | lowResolution => .lowResolution
  | highResolution => .highResolution
  | jump _ => .jump
  | call _ => .call
  | skipIfByte _ _ => .skipIfByte
  | skipUnlessByte _ _ => .skipUnlessByte
  | skipIfEqual _ _ => .skipIfEqual
  | setByte _ _ => .setByte
  | addByte _ _ => .addByte
  | alu op _ _ => .alu op
  | skipUnlessEqual _ _ => .skipUnlessEqual
  | setIndex _ => .setIndex
  | jumpOffset _ => .jumpOffset
  | random _ _ => .random
  | draw _ _ _ => .draw
  | skipIfKey _ => .skipIfKey
  | skipUnlessKey _ => .skipUnlessKey
  | readDelay _ => .readDelay
  | awaitKey _ => .awaitKey
  | setDelay _ => .setDelay
  | setSound _ => .setSound
  | addIndex _ => .addIndex
  | glyph _ => .glyph
  | decimal _ => .decimal
  | dump _ => .dump
  | fill _ => .fill

/-- And it knows no others. -/
theorem Instruction.of_decode? (h : decode? hires w = some i) :
    i.form.known hires = true ∧ i.form.covers w = true ∧ i = i.form.instruction w := by
  have small := w.toNat_lt
  have byte := Opcode.toNat_byte w
  have last : (Opcode.n w).val = w.toNat % 16 := rfl
  unfold decode? at h
  -- One case for each line of the decoder; those without an instruction are none.
  repeat' split at h
  all_goals first
    | cases h; done
    | obtain ⟨op, known, rfl⟩ := Option.map_eq_some_iff.mp h
      have nibble := AluOp.of_ofNibble? known
      cases op <;>
        simp_all [form, OpcodeForm.known, OpcodeForm.covers, OpcodeForm.pattern, OpcodeForm.digit?,
          OpcodeForm.instruction, Opcode.family, AluOp.nibble]
    | cases h
      simp_all [form, OpcodeForm.known, OpcodeForm.covers, OpcodeForm.pattern, OpcodeForm.digit?,
        OpcodeForm.instruction, Opcode.family]
      try omega

/-! ## Faults of instructions -/

namespace Machine

variable {m m' : Machine} {fault : Fault}

theorem kind_of_jump {target : Int} (h : (Execution.jump target).run m = .error fault m') :
    fault.kind = .memory := by
  rw [Execution.run_jump] at h
  split at h <;> cases h
  rfl

theorem kind_of_draw {x y : Register} {height : Nat}
    (h : (Execution.draw x y height).run m = .error fault m') : fault.kind = .memory := by
  cases stamp : m.stampAt x y height with
  | error refused =>
    cases (run_draw_of_refused stamp).symm.trans h
    exact Memory.kind_of_readBlock (error_of_map stamp)
  | ok s =>
    rw [run_draw_of_stampAt stamp, EStateM.run_bind] at h
    split at h
    · cases h
    · next failed =>
      cases h
      obtain ⟨_, drawn⟩ := Execution.of_onDisplay_error failed
      exact Display.kind_of_invertAll drawn

/-- What an instruction fails with is never that it is unknown. -/
theorem kind_of_execute (h : m.execute i = .error fault m') : fault.kind ≠ .opcode := by
  cases i with
  | ret =>
    cases top : m.calls.items.getLast? with
    | none =>
      cases (Execution.run_ret_of_empty (List.getLast?_eq_none_iff.mp top)).symm.trans h
      exact nofun
    | some address =>
      have h := (Execution.run_ret_of_last top).symm.trans h
      split at h <;> cases h
      exact nofun
  | call target =>
    have h := (Execution.run_call m target).symm.trans h
    repeat' split at h
    all_goals cases h
    all_goals exact nofun
  | jump target | jumpOffset target =>
    rw [kind_of_jump h]
    exact nofun
  | draw x y height =>
    rw [kind_of_draw h]
    exact nofun
  | decimal x =>
    obtain ⟨unwritten, -⟩ := Execution.of_storeDecimal_error h
    rw [Memory.kind_of_writeBlock unwritten]
    exact nofun
  | dump x =>
    obtain ⟨unwritten, -⟩ := Execution.of_dump_error h
    rw [Memory.kind_of_writeBlock unwritten]
    exact nofun
  | fill x =>
    obtain ⟨unread, -⟩ := Execution.of_fill_error h
    rw [Memory.kind_of_readBlock unread]
    exact nofun
  | _ => cases h

theorem kind_of_perform : (m.perform i).fault.map Fault.kind ≠ some .opcode := by
  cases executed : m.execute i with
  | error fault _ =>
    rw [(perform_of_error executed).2]
    exact fun same => kind_of_execute executed (Option.some.inj same)
  | ok _ m' =>
    rw [(perform_of_ok executed).2]
    split <;> exact nofun

/-! ## Steps -/

/-- How a running machine takes the opcode that it finds. -/
structure Decodes (m : Machine) (w : UInt16) : Prop where
  /-- The step fails for its opcode exactly if no form covers it. -/
  unknown : m.step.fault.map Fault.kind = some .opcode ↔
    ∀ f : OpcodeForm, f.known m.hires = true → f.covers w = false
  /-- Otherwise it performs the instruction of the one form that does. -/
  performs : ∀ f : OpcodeForm, f.known m.hires = true → f.covers w = true →
    m.step = (m.fetched w).perform (f.instruction w)
  unique : ∀ f g : OpcodeForm, f.covers w = true → g.covers w = true → f = g
  /-- The form is the one that two accesses to the table find, or any number from two on. -/
  decoder : ∀ i, Instruction.decode? m.hires w = some i ↔
    ∃ f, search m.hires w 2 = .found f ∧ i = f.instruction w
  found : ∀ accesses f, search m.hires w (accesses + 2) = .found f ↔
    f.known m.hires = true ∧ f.covers w = true
  ends : ∀ accesses key, search m.hires w (accesses + 2) ≠ .pending key
  /-- Under the second key there is no family. -/
  forward : ∀ key, search m.hires w 1 = .pending key →
    ∀ e, lookup? m.hires key = some e → ∃ f, e = .form f

/-- A machine that runs at a place for an opcode knows the documented opcodes, and these alone. -/
theorem step_decodes (phase : m.phase = .running) (memory : m.memory.size = Layout.memorySize)
    (pc : isTarget m.pc = true) : ∃ w, m.fetch = .ok w ∧ m.Decodes w := by
  obtain ⟨w, fetched⟩ := exists_fetch memory pc
  have performs : ∀ f : OpcodeForm, f.known m.hires = true → f.covers w = true →
      m.step = (m.fetched w).perform (f.instruction w) := fun f known covers =>
    step_of_decoded phase fetched (Instruction.decode?_of_covers known covers)
  refine ⟨w, fetched, ?_⟩
  refine {
    unknown := ?_
    performs := performs
    unique := fun f g => covers_unique
    decoder := fun i => ?_
    found := fun accesses f => ⟨of_search_eq_found, fun h => search_of_covers h.1 h.2 accesses⟩
    ends := fun accesses key => search_ne_pending (by omega)
    forward := ?_ }
  · constructor
    · intro failed f known
      refine Bool.eq_false_iff.mpr fun covers => ?_
      rw [performs f known covers] at failed
      exact kind_of_perform failed
    · intro uncovered
      cases decoded : Instruction.decode? m.hires w with
      | none =>
        rw [step_of_undecoded phase fetched decoded]
        rfl
      | some i =>
        obtain ⟨known, covers, _⟩ := Instruction.of_decode? decoded
        rw [uncovered _ known] at covers
        cases covers
  · constructor
    · intro decoded
      obtain ⟨known, covers, same⟩ := Instruction.of_decode? decoded
      exact ⟨_, search_of_covers known covers 0, same⟩
    · rintro ⟨f, found, rfl⟩
      obtain ⟨known, covers⟩ := of_search_eq_found found
      exact Instruction.decode?_of_covers known covers
  · intro key pending e held
    rcases of_search_eq_pending pending with ⟨zero, _⟩ | ⟨_, beyond, _⟩
    · cases zero
    · exact form_of_le beyond held

/-- An opcode that looks like the key of a family is none. -/
theorem step_decodes_familyKey :
    let m : Machine := { new {} false false (.cycle []) with
      memory := (Memory.zeros 0x1000).putAll 0x200 [0x00, 0x05] }
    m.phase = .running ∧ m.memory.size = Layout.memorySize ∧ isTarget m.pc = true ∧
      m.step.fault.map Fault.kind = some .opcode := by
  intro m
  have memory : m.memory.size = Layout.memorySize := by decide
  obtain ⟨w, fetched, decodes⟩ := step_decodes (m := m) rfl memory (by decide)
  have five : m.fetch = .ok 0x0005 := of_toOption (by decide +kernel)
  obtain rfl := Except.ok.inj (five.symm.trans fetched)
  refine ⟨rfl, memory, by decide, decodes.unknown.mpr ?_⟩
  intro f _
  cases f with
  | alu op => cases op <;> decide
  | _ => decide

end Machine

end Chip8
