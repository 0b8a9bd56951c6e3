import Mathlib.Data.List.Basic
import Chip8.Machine.Report
import Chip8.Proofs.HexText

/-! What the words of a machine tell. Every value in them ends where a mark begins that it cannot
contain, so two machines whose words agree agree in each value; and the words depend on these values
alone. -/

namespace Chip8

open Text

/-! ## Values and lists of values -/

section Values

variable {α : Type} {c : Char} {s s' t t' : String} {f : α → String} {items items' : List α}

/-- A value ends at the first character that it cannot contain. -/
theorem value_inj (mark : String) (marks : mark.toList.head? = some c) (hs : c ∉ s.toList)
    (hs' : c ∉ s'.toList) : s ++ (mark ++ t) = s' ++ (mark ++ t') ↔ s = s' ∧ t = t' := by
  refine ⟨fun same => ?_, fun ⟨values, rests⟩ => by rw [values, rests]⟩
  obtain ⟨rest, split⟩ := List.head?_eq_some_iff.mp marks
  have chars := congrArg String.toList same
  simp only [String.toList_append, split, List.cons_append] at chars
  have value_of_text {l r : List Char} (h : c ∉ l) : (l ++ c :: r).takeWhile (· != c) = l := by
    have inside : ∀ d ∈ l, (d != c) = true := fun d member =>
      bne_iff_ne.mpr fun (same : d = c) => h (same ▸ member)
    rw [List.takeWhile_append_of_pos inside, List.takeWhile_cons_of_neg (by simp), List.append_nil]
  have first : s.toList = s'.toList := by rw [← value_of_text hs, chars, value_of_text hs']
  have second : rest ++ t.toList = rest ++ t'.toList := by
    rw [first] at chars
    exact (List.cons.inj (List.append_cancel_left chars)).2
  exact ⟨String.toList_injective first, String.toList_injective (List.append_cancel_left second)⟩

/-- The texts of a list in a row, each behind a blank. -/
def inRow (f : α → String) (items : List α) : String := String.join (items.map fun a => " " ++ f a)

theorem inRow_cons (f : α → String) (a : α) (items : List α) :
    inRow f (a :: items) = " " ++ (f a ++ inRow f items) := by
  rw [inRow, List.map_cons, String.join_cons, String.append_assoc, inRow]

/-- Behind a row stands either another item or what follows the row. -/
theorem exists_inRow_append (f : α → String) (items : List α) : ∃ t, inRow f items ++ " " = " " ++ t := by
  cases items with
  | nil => exact ⟨"", rfl⟩
  | cons a rest => exact ⟨f a ++ inRow f rest ++ " ", by rw [inRow_cons, String.append_assoc]⟩

theorem inRow_cons_ne_nil (f : α → String) (a : α) (items : List α) :
    inRow f (a :: items) ≠ inRow f [] := by
  intro same
  have chars := congrArg String.toList same
  rw [inRow_cons, String.toList_append] at chars
  exact absurd chars nofun

/-- Texts without blanks are told apart in a row. -/
theorem inRow_inj (injective : Function.Injective f) (plain : ∀ a, ' ' ∉ (f a).toList) :
    inRow f items = inRow f items' ↔ items = items' := by
  refine ⟨fun same => ?_, congrArg _⟩
  induction items generalizing items' with
  | nil =>
    cases items' with
    | nil => rfl
    | cons b rest => exact absurd same.symm (inRow_cons_ne_nil f b rest)
  | cons a rest ih =>
    cases items' with
    | nil => exact absurd same (inRow_cons_ne_nil f a rest)
    | cons b rest' =>
      rw [inRow_cons, inRow_cons, String.append_right_inj] at same
      obtain ⟨t, row⟩ := exists_inRow_append f rest
      obtain ⟨t', row'⟩ := exists_inRow_append f rest'
      -- With a blank behind both rows, every text in them ends at a blank.
      have closed : f a ++ (" " ++ t) = f b ++ (" " ++ t') := by
        rw [← row, ← row', ← String.append_assoc, ← String.append_assoc, same]
      obtain ⟨first, others⟩ := (value_inj " " rfl (plain a) (plain b)).mp closed
      obtain rfl := injective first
      have rests : inRow f rest ++ " " = inRow f rest' ++ " " := by rw [row, row', others]
      rw [ih ((String.append_left_inj " ").mp rests)]

/-- The texts of a list in a row; an empty list has a text of its own. -/
def listed (empty : String) (f : α → String) : List α → String
  | [] => empty
  | items => inRow f items

theorem not_mem_inRow (h : c ≠ ' ') (plain : ∀ a, c ∉ (f a).toList) (items : List α) :
    c ∉ (inRow f items).toList := by
  induction items with
  | nil => exact List.not_mem_nil
  | cons a rest ih =>
    rw [inRow_cons, String.toList_append, String.toList_append]
    simp only [List.mem_append, not_or]
    exact ⟨fun blank => h (List.mem_singleton.mp blank), plain a, ih⟩

theorem not_mem_listed {empty : String} (h : c ≠ ' ') (outside : c ∉ empty.toList)
    (plain : ∀ a, c ∉ (f a).toList) (items : List α) : c ∉ (listed empty f items).toList := by
  cases items with
  | nil => exact outside
  | cons a rest => exact not_mem_inRow h plain _

/-- A list without items is told from the others by a character that no item has. -/
theorem listed_inj {empty : String} (injective : Function.Injective f) (plain : ∀ a, ' ' ∉ (f a).toList)
    (h : c ≠ ' ') (own : c ∈ empty.toList) (strange : ∀ a, c ∉ (f a).toList) :
    listed empty f items = listed empty f items' ↔ items = items' := by
  have apart (a : α) (rest : List α) : empty ≠ inRow f (a :: rest) := fun same =>
    not_mem_inRow h strange (a :: rest) (same ▸ own)
  cases items with
  | nil =>
    cases items' with
    | nil => exact iff_of_true rfl rfl
    | cons b rest => exact iff_of_false (apart b rest) nofun
  | cons a rest =>
    cases items' with
    | nil => exact iff_of_false (apart a rest).symm nofun
    | cons b rest' => exact inRow_inj injective plain

end Values

/-! ## The values of a report -/

theorem not_mem_hex {c : Char} (sign : c ≠ '-') (digit : nibble? c = none) (width : Nat) (n : Int) :
    c ∉ (hex width n).toList := by
  rw [hex, String.toList_ofList]
  exact not_mem_hexChars sign digit width n

theorem not_mem_toString {c : Char} (h : c.isDigit = false) (n : Nat) : c ∉ (toString n).toList := by
  intro member
  rw [Nat.toString_eq_repr, Nat.toList_repr] at member
  have digit := Nat.isDigit_of_mem_toDigits (by decide) (by decide) member
  rw [h] at digit
  cases digit

theorem toString_inj {n n' : Nat} : toString n = toString n' ↔ n = n' := by
  refine ⟨fun same => ?_, congrArg _⟩
  have chars := congrArg String.toList same
  rw [Nat.toString_eq_repr, Nat.toString_eq_repr, Nat.toList_repr, Nat.toList_repr] at chars
  rw [← Nat.ofDigitChars_ten_toDigits (n := n), chars, Nat.ofDigitChars_ten_toDigits]

namespace Keypad

theorem mem_held_iff (k : Keypad) (key : Fin Layout.keyCount) : key ∈ k.held ↔ k.down.get key = true := by
  simp only [held, List.mem_filter, List.mem_finRange, true_and]
  rfl

theorem held_inj {k k' : Keypad} : k.held = k'.held ↔ k.down = k'.down := by
  refine ⟨fun same => ?_, fun same => by rw [held, held, same]⟩
  apply Vector.ext
  intro key inside
  have held := k.mem_held_iff ⟨key, inside⟩
  rw [same, k'.mem_held_iff] at held
  exact (Bool.eq_iff_iff.mpr held).symm

end Keypad

namespace Machine

variable {m m' : Machine} {instruction : String} {t t' : String}

theorem toList_registerText (v : Registers) :
    (registerText v).toList = v.toList.reverse.flatMap fun b => hexChars 2 b.toNat := by
  rw [registerText, String.toList_join, List.flatMap_map]
  simp only [hex, String.toList_ofList]

/-- Read as bytes from left to right the registers start with VF and end with V0. -/
theorem bytes?_registerText (v : Registers) :
    bytes? (registerText v).toList = some v.toList.reverse := by
  rw [toList_registerText, bytes?_flatMap]

theorem registerText_inj {v v' : Registers} : registerText v = registerText v' ↔ v = v' := by
  refine ⟨fun same => ?_, congrArg _⟩
  have bytes := congrArg (fun s : String => bytes? s.toList) same
  simp only [bytes?_registerText] at bytes
  exact Vector.toList_inj.mp (List.reverse_inj.mp (Option.some.inj bytes))

theorem length_registerText (v : Registers) : (registerText v).length = 32 := by
  rw [← String.length_toList, toList_registerText, List.length_flatMap]
  simp only [hexChars_byte, List.length_cons, List.length_nil, List.map_const', List.length_reverse,
    Vector.length_toList, List.sum_replicate_nat]

theorem not_mem_registerText {c : Char} (sign : c ≠ '-') (digit : nibble? c = none) (v : Registers) :
    c ∉ (registerText v).toList := by
  rw [toList_registerText]
  intro member
  obtain ⟨b, -, found⟩ := List.mem_flatMap.mp member
  exact not_mem_hexChars sign digit 2 b.toNat found

theorem callsText_eq (m : Machine) :
    m.callsText = listed " (Empty)" (fun address => "0x" ++ hex 3 address) m.calls.items := by
  unfold callsText
  cases m.calls.items with
  | nil => rfl
  | cons address rest =>
    simp only [listed, inRow, ← String.append_assoc]
    rfl

theorem keysText_eq (m : Machine) :
    m.keysText = listed " (None)" (fun key => hex 1 key.val) m.keypad.held := by
  unfold keysText
  cases m.keypad.held <;> rfl

/-! ## What a report tells -/

/-- Machines with the same registers, timers and last instruction. -/
structure SameLine (m m' : Machine) : Prop where
  v : m.v = m'.v
  i : m.i = m'.i
  delay : m.timers.delay = m'.timers.delay
  sound : m.timers.sound = m'.timers.sound
  origin : m.origin = m'.origin
  opcode : m.opcode = m'.opcode

/-- Machines with the same return addresses in the same order, in the same phase, with the same keys
held, and with screens of one size that have equally many pixels lit. -/
structure SameScene (m m' : Machine) : Prop where
  calls : m.calls.items = m'.calls.items
  phase : m.phase = m'.phase
  keys : m.keypad.down = m'.keypad.down
  screen : m.display.size = m'.display.size
  litCount : m.display.litCount = m'.display.litCount

theorem blank_not_mem_hex (width : Nat) (n : Int) : ' ' ∉ (hex width n).toList :=
  not_mem_hex (by decide) (by decide) width n

theorem registerLine_append_inj :
    m.registerLine instruction ++ t = m'.registerLine instruction ++ t' ↔
      SameLine m m' ∧ t = t' := by
  have plain (v : Registers) : ' ' ∉ (registerText v).toList :=
    not_mem_registerText (by decide) (by decide) v
  have value {width : Nat} {n n' : Int} {r r' : String} (mark : String)
      (marks : mark.toList.head? = some ' ') :
      hex width n ++ (mark ++ r) = hex width n' ++ (mark ++ r') ↔ n = n' ∧ r = r' := by
    rw [value_inj mark marks (blank_not_mem_hex width n) (blank_not_mem_hex width n'),
      (hex_injective width).eq_iff]
  unfold registerLine
  simp only [String.append_assoc]
  rw [String.append_right_inj, value_inj " I: 0x" rfl (plain _) (plain _), registerText_inj,
    value " DT: 0x" rfl, value " ST: 0x" rfl, value " PC: 0x" rfl, value " OP: 0x" rfl,
    value " IN: " rfl, String.append_right_inj, Int.natCast_inj, Int.natCast_inj, Int.natCast_inj,
    UInt8.toNat_inj, UInt8.toNat_inj, UInt16.toNat_inj]
  exact ⟨fun ⟨v, i, delay, sound, origin, opcode, rest⟩ =>
      ⟨⟨v, i, delay, sound, origin, opcode⟩, rest⟩,
    fun ⟨⟨v, i, delay, sound, origin, opcode⟩, rest⟩ => ⟨v, i, delay, sound, origin, opcode, rest⟩⟩

theorem not_mem_address {c : Char} (mark : c ∉ "0x".toList) (sign : c ≠ '-') (digit : nibble? c = none)
    (address : Int) : c ∉ ("0x" ++ hex 3 address).toList := by
  rw [String.toList_append, List.mem_append, not_or]
  exact ⟨mark, not_mem_hex sign digit 3 address⟩

theorem callsText_inj : m.callsText = m'.callsText ↔ m.calls.items = m'.calls.items := by
  have injective : Function.Injective fun address : Int => "0x" ++ hex 3 address := fun _ _ same =>
    hex_injective 3 ((String.append_right_inj "0x").mp same)
  rw [callsText_eq, callsText_eq]
  exact listed_inj (c := '(') injective (not_mem_address (by decide) (by decide) (by decide)) (by decide)
    (by decide) (not_mem_address (by decide) (by decide) (by decide))

theorem keysText_inj : m.keysText = m'.keysText ↔ m.keypad.down = m'.keypad.down := by
  have injective : Function.Injective fun key : Fin Layout.keyCount => hex 1 key.val := fun _ _ same =>
    Fin.ext (Int.ofNat_inj.mp (hex_injective 1 same))
  rw [keysText_eq, keysText_eq, ← Keypad.held_inj]
  exact listed_inj (c := '(') injective (fun key => blank_not_mem_hex 1 key.val) (by decide)
    (by decide) fun key => not_mem_hex (by decide) (by decide) 1 key.val

theorem newline_not_mem_callsText (m : Machine) : '\n' ∉ m.callsText.toList := by
  rw [callsText_eq]
  apply not_mem_listed (by decide) (by decide)
  intro address
  exact not_mem_address (by decide) (by decide) (by decide) address

theorem newline_not_mem_keysText (m : Machine) : '\n' ∉ m.keysText.toList := by
  rw [keysText_eq]
  apply not_mem_listed (by decide) (by decide)
  intro key
  exact not_mem_hex (by decide) (by decide) 1 key.val

theorem text_inj {p p' : Phase} : p.text = p'.text ↔ p = p' := by
  cases p <;> cases p' <;> decide

theorem newline_not_mem_text (p : Phase) : '\n' ∉ p.text.toList := by
  cases p <;> decide

/-- The words that follow the line of registers. -/
def sceneText (m : Machine) : String :=
  "\nStack:" ++ m.callsText ++ "\nState: " ++ m.phase.text ++ "\nKeys:" ++ m.keysText ++
    "\nDisplay: " ++ toString m.display.width ++ "x" ++ toString m.display.height ++ ", " ++
    toString m.display.litCount ++ " pixels lit"

theorem sceneText_inj : m.sceneText = m'.sceneText ↔ SameScene m m' := by
  unfold sceneText
  simp only [String.append_assoc]
  rw [String.append_right_inj,
    value_inj "\nState: " rfl m.newline_not_mem_callsText m'.newline_not_mem_callsText, callsText_inj,
    value_inj "\nKeys:" rfl (newline_not_mem_text _) (newline_not_mem_text _), text_inj,
    value_inj "\nDisplay: " rfl m.newline_not_mem_keysText m'.newline_not_mem_keysText, keysText_inj,
    value_inj "x" rfl (not_mem_toString rfl _) (not_mem_toString rfl _), toString_inj,
    value_inj ", " rfl (not_mem_toString rfl _) (not_mem_toString rfl _), toString_inj,
    String.append_left_inj, toString_inj]
  exact ⟨fun ⟨calls, phase, keys, width, height, lit⟩ => ⟨calls, phase, keys, Prod.ext width height, lit⟩,
    fun ⟨calls, phase, keys, screen, lit⟩ =>
      ⟨calls, phase, keys, congrArg Prod.fst screen, congrArg Prod.snd screen, lit⟩⟩

theorem report_false (m : Machine) (instruction : String) :
    m.report instruction false = m.registerLine instruction ++ "" := by
  rw [String.append_empty]
  rfl

theorem report_true (m : Machine) (instruction : String) :
    m.report instruction true = m.registerLine instruction ++ m.sceneText := by
  unfold report sceneText
  simp only [String.append_assoc, if_true]

/-- The field of V stands between two marks; it is VF first. -/
theorem exists_registerLine_append (m : Machine) (instruction t : String) :
    ∃ rest, m.registerLine instruction ++ t = "V: 0x" ++ registerText m.v ++ " I: 0x" ++ rest := by
  unfold registerLine
  simp only [String.append_assoc]
  exact ⟨_, rfl⟩

/-- The words of a machine lose nothing of the values that they are about. -/
theorem reports_tell (m m' : Machine) (instruction : String) :
    (m.report instruction false = m'.report instruction false ↔ SameLine m m') ∧
      (m.report instruction true = m'.report instruction true ↔ SameLine m m' ∧ SameScene m m') ∧
      ∀ verbose, ∃ field rest : String,
        m.report instruction verbose = "V: 0x" ++ field ++ " I: 0x" ++ rest ∧
          field.length = 32 ∧ bytes? field.toList = some m.v.toList.reverse := by
  refine ⟨?_, ?_, fun verbose => ?_⟩
  · rw [report_false, report_false, registerLine_append_inj, and_iff_left rfl]
  · rw [report_true, report_true, registerLine_append_inj, sceneText_inj]
  · obtain ⟨t, told⟩ : ∃ t, m.report instruction verbose = m.registerLine instruction ++ t := by
      cases verbose with
      | false => exact ⟨_, m.report_false instruction⟩
      | true => exact ⟨_, m.report_true instruction⟩
    obtain ⟨rest, led⟩ := m.exists_registerLine_append instruction t
    exact ⟨_, rest, told.trans led, length_registerText m.v, bytes?_registerText m.v⟩

end Machine

end Chip8
