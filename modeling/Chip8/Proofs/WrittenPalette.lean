import Chip8.Host.Desktop
import Chip8.Host.WindowView
import Chip8.Proofs.Fields
import Chip8.Proofs.Numeral

/-! Written palettes. A text is accepted exactly if it has one field or two, each of six characters
that write a number in base sixteen, and none of the numbers is below zero. Six hexadecimal digits are
such a field and give the colour that they spell; but so are fewer digits with a sign, a mark of the
base, underscores or blanks. -/

namespace Chip8

namespace Palette

variable {text field : String} {n : Int} {numbers : List Int} {fields : List String}

/-! ## Fields -/

/-- Six characters write a number in base sixteen. -/
structure Gives (field : String) (n : Int) : Prop where
  length : field.length = 6
  writes : Text.Writes 16 field n

theorem readField_eq_ok_iff : readField field = .ok n ↔ Gives field n := by
  unfold readField
  constructor
  · intro h
    split at h
    · cases h
    · next length =>
      split at h
      · cases h
      · next read =>
        obtain rfl := Except.ok.inj h
        exact ⟨not_not.mp length, Text.readInt?_eq_some_iff.mp read⟩
  · rintro ⟨length, writes⟩
    rw [if_neg (not_not.mpr length), Text.readInt?_eq_some_iff.mpr writes]

theorem of_readField_error {failure : Failure} (h : readField field = .error failure) :
    ∃ cause, failure = .palette cause := by
  unfold readField at h
  split at h
  · exact ⟨_, (Except.error.inj h).symm⟩
  · split at h
    · exact ⟨_, (Except.error.inj h).symm⟩
    · cases h

theorem Gives.lt (h : Gives field n) : n < 0x1000000 := by
  obtain ⟨length, w, -, written, rfl⟩ := h
  have short : w.chars.length ≤ 6 := by rw [written, String.length_toList, length]
  have bound := Text.Numeral.magnitude_lt (by decide : 1 < 16) w short
  unfold Text.Numeral.value
  split <;> omega

/-! ## Texts -/

/-- The numbers that a text gives between its commas. -/
def Lists : String → List Int → Prop := Text.Listed Gives

/-- The palette of up to two colours; the others are those that are set anyway. -/
def ofColours : List Colour → Palette
  | [] => {}
  | [dark] => { dark }
  | dark :: lit :: _ => { dark, lit }

def ofNumbers (numbers : List Int) : Palette := ofColours (numbers.map fun n => .ofNat n.toNat)

theorem mapM_readField_eq_ok_iff :
    fields.mapM readField = .ok numbers ↔ List.Forall₂ Gives fields numbers := by
  induction fields generalizing numbers with
  | nil =>
    rw [List.mapM_nil, List.forall₂_nil_left_iff]
    exact ⟨fun h => (Except.ok.inj h).symm, fun h => h ▸ rfl⟩
  | cons field fields ih =>
    rw [List.mapM_cons, List.forall₂_cons_left_iff]
    simp only [← readField_eq_ok_iff, ← ih]
    cases readField field <;> cases fields.mapM readField <;>
      simp [bind, Except.bind, pure, Except.pure, eq_comm]

theorem of_mapM_readField_error {failure : Failure} (h : fields.mapM readField = .error failure) :
    ∃ cause, failure = .palette cause := by
  induction fields with
  | nil => cases h
  | cons field fields ih =>
    rw [List.mapM_cons] at h
    cases first : readField field with
    | error failure =>
      rw [first] at h
      obtain rfl := Except.error.inj h
      exact of_readField_error first
    | ok n =>
      rw [first] at h
      cases rest : fields.mapM readField with
      | error failure =>
        rw [rest] at h
        obtain rfl := Except.error.inj h
        exact ih rest
      | ok numbers =>
        rw [rest] at h
        cases h

/-- Numbers become colours if none of them is below zero. -/
theorem mapM_colourOf (numbers : List Int) : numbers.mapM colourOf =
    if ∀ n ∈ numbers, 0 ≤ n then .ok (numbers.map fun n => .ofNat n.toNat)
    else .error (.number .range) := by
  induction numbers with
  | nil => rfl
  | cons n numbers ih =>
    rw [List.mapM_cons, ih, colourOf]
    by_cases negative : n < 0
    · have one : ¬ ∀ m ∈ n :: numbers, 0 ≤ m := fun natural =>
        absurd (natural n List.mem_cons_self) (Int.not_le.mpr negative)
      rw [if_pos negative, if_neg one]
      rfl
    · have first := Int.not_lt.mp negative
      by_cases rest : ∀ m ∈ numbers, 0 ≤ m
      · rw [if_neg negative, if_pos rest, if_pos (List.forall_mem_cons.mpr ⟨first, rest⟩)]
        rfl
      · rw [if_neg negative, if_neg rest,
          if_neg fun all => rest (List.forall_mem_cons.mp all).2]
        rfl

/-- All fields are read before any number is turned into a colour. -/
theorem read_eq (h : Text.Fields text fields) : read text =
    if 2 < fields.length then .error (.palette .count) else do
      let numbers ← fields.mapM readField
      let colours ← numbers.mapM colourOf
      return ofColours colours := by
  rw [read, ← h.eq_splitToList]
  match fields, h with
  | [], h => exact absurd rfl h.nonempty
  | [dark], _ =>
    rw [if_neg (by simp)]
    simp [ofColours]
  | [dark, lit], _ =>
    rw [if_neg (by simp)]
    simp [ofColours]
  | _ :: _ :: _ :: _, _ => exact (if_pos (by simp)).symm

/-- What is read of a text that gives one number or two. -/
theorem read_of_lists (listed : Lists text numbers) (few : numbers.length ≤ 2) :
    read text = if ∀ n ∈ numbers, 0 ≤ n then .ok (ofNumbers numbers) else .error (.number .range) := by
  obtain ⟨fields, apart, row⟩ := listed
  have enough : ¬ 2 < fields.length := Nat.not_lt.mpr (row.length_eq ▸ few)
  rw [read_eq apart, if_neg enough, mapM_readField_eq_ok_iff.mpr row]
  show (numbers.mapM colourOf >>= fun colours => pure (ofColours colours)) = _
  rw [mapM_colourOf]
  split <;> rfl

theorem read_of_unlisted (unlisted : ¬ ∃ numbers, Lists text numbers ∧ numbers.length ≤ 2) :
    ∃ cause, read text = .error (.palette cause) := by
  obtain ⟨fields, apart⟩ : ∃ fields, Text.Fields text fields := ⟨_, Text.fields_splitToList text⟩
  rw [read_eq apart]
  split
  · exact ⟨_, rfl⟩
  · next few =>
    cases row : fields.mapM readField with
    | ok numbers =>
      have row := mapM_readField_eq_ok_iff.mp row
      exact absurd ⟨numbers, ⟨fields, apart, row⟩, row.length_eq ▸ Nat.not_lt.mp few⟩ unlisted
    | error failure =>
      obtain ⟨cause, rfl⟩ := of_mapM_readField_error row
      exact ⟨cause, rfl⟩

/-! ## Hexadecimal digits -/

theorem decimalDigit?_of_ascii {code : Nat} (low : 0x30 ≤ code) (high : code ≤ 0x39) :
    Text.decimalDigit? code = some (code - 0x30) := by
  have table : ∀ value < 10, Text.decimalDigit? (0x30 + value) = some value := by decide
  have found := table (code - 0x30) (by omega)
  rwa [Nat.add_sub_cancel' low] at found

theorem digitValue?_of_nibble? {c : Char} {d : UInt8} (h : Text.nibble? c = some d) :
    ∃ value < 16, Text.digitValue? c = some value ∧ value.toUInt8 = d := by
  unfold Text.nibble? at h
  split at h
  · next digit =>
    have low : 0x30 ≤ c.toNat := digit.1
    have high : c.toNat ≤ 0x39 := digit.2
    have small : ¬ ('a' ≤ c ∧ c ≤ 'z') := fun letter => by
      have : 0x61 ≤ c.toNat := letter.1
      omega
    have capital : ¬ ('A' ≤ c ∧ c ≤ 'Z') := fun letter => by
      have : 0x41 ≤ c.toNat := letter.1
      omega
    refine ⟨c.toNat - 0x30, by omega, ?_, Option.some.inj h⟩
    rw [Text.digitValue?, if_neg small, if_neg capital, decimalDigit?_of_ascii low high]
  · split at h
    · next letter =>
      have low : 0x61 ≤ c.toNat := letter.1
      have high : c.toNat ≤ 0x66 := letter.2
      refine ⟨c.toNat - 0x61 + 10, by omega, if_pos ⟨letter.1, ?_⟩, Option.some.inj h⟩
      exact Char.le_trans letter.2 (by decide)
    · split at h
      · next letter =>
        have low : 0x41 ≤ c.toNat := letter.1
        have high : c.toNat ≤ 0x46 := letter.2
        have small : ¬ ('a' ≤ c ∧ c ≤ 'z') := fun letter => by
          have : 0x61 ≤ c.toNat := letter.1
          omega
        refine ⟨c.toNat - 0x41 + 10, by omega, ?_, Option.some.inj h⟩
        rw [Text.digitValue?, if_neg small]
        exact if_pos ⟨letter.1, Char.le_trans letter.2 (by decide)⟩
      · cases h

/-- A hexadecimal digit of ASCII is a digit in base sixteen. -/
theorem digit?_of_nibble? {c : Char} {d : UInt8} (h : Text.nibble? c = some d) :
    Text.digit? 16 c = some d.toNat ∧ d.toNat < 16 := by
  obtain ⟨value, small, digit, rfl⟩ := digitValue?_of_nibble? h
  have same : value.toUInt8.toNat = value := Nat.mod_eq_of_lt (by omega)
  rw [same, Text.digit?, digit]
  exact ⟨Option.filter_some_pos (decide_eq_true small), small⟩

/-- Six hexadecimal digits spell a colour, two of them each of its parts. -/
def Spells (field : String) (colour : Colour) : Prop :=
  ∃ r r' g g' b b' : UInt8, field.toList.map Text.nibble? =
      [some r, some r', some g, some g', some b, some b'] ∧
    colour = ⟨16 * r + r', 16 * g + g', 16 * b + b'⟩

theorem map_digit? {chars : List Char} {digits : List UInt8}
    (h : chars.map Text.nibble? = digits.map some) :
    chars.map (Text.digit? 16) = (digits.map UInt8.toNat).map some ∧ ∀ d ∈ digits, d.toNat < 16 := by
  induction chars generalizing digits with
  | nil =>
    obtain rfl : digits = [] := List.map_eq_nil_iff.mp h.symm
    exact ⟨rfl, nofun⟩
  | cons c chars ih =>
    cases digits with
    | nil => cases h
    | cons d digits =>
      obtain ⟨first, rest⟩ := List.cons.inj h
      obtain ⟨digit, small⟩ := digit?_of_nibble? first
      obtain ⟨others, smalls⟩ := ih rest
      exact ⟨congrArg₂ List.cons digit others, List.forall_mem_cons.mpr ⟨small, smalls⟩⟩

/-- Hexadecimal digits alone write the number that they are the digits of. -/
theorem writes_of_nibbles {digits : List UInt8} (more : digits ≠ [])
    (h : field.toList.map Text.nibble? = digits.map some) :
    Text.Writes 16 field (Nat.ofDigits 16 (digits.map UInt8.toNat).reverse : Nat) := by
  have full : field.toList ≠ [] := fun empty => more <| by
    rw [empty] at h
    exact List.map_eq_nil_iff.mp h.symm
  have grouped : Text.Grouped 16 [field.toList] (digits.map UInt8.toNat) := {
    nonempty := List.cons_ne_nil _ _
    full := fun member => full (List.mem_singleton.mp member).symm
    values := by
      rw [List.flatten_singleton]
      exact (map_digit? h).1 }
  let w : Text.Numeral := { groups := [field.toList] }
  have values : w.digits 16 = digits.map UInt8.toNat := Text.Grouped.digits_eq (w := w) grouped
  refine ⟨w, ⟨nofun, .inl rfl, .inl rfl, values ▸ grouped, ?_⟩, ?_, ?_⟩
  · simp [Text.tooLong]
  · show [] ++ ([] ++ ([] ++ ['_'].intercalate [field.toList])) ++ [] = field.toList
    rw [List.intercalate_singleton, List.append_nil]
    rfl
  · show ((w.magnitude 16 : Nat) : Int) = _
    rw [Text.Numeral.magnitude, values]

/-- Two digits make a byte. -/
theorem ofNat_pair {n : Nat} {d d' : UInt8} (h : n % 0x100 = 16 * d.toNat + d'.toNat) :
    UInt8.ofNat n = 16 * d + d' := by
  rw [← UInt8.toNat_inj, UInt8.toNat_add, UInt8.toNat_mul]
  show n % 256 = (16 * d.toNat % 256 + d'.toNat) % 256
  omega

theorem ofNat_digits {r r' g g' b b' : UInt8}
    (small : ∀ d ∈ [r, r', g, g', b, b'], d.toNat < 16) :
    Colour.ofNat (Nat.ofDigits 16 ([r, r', g, g', b, b'].map UInt8.toNat).reverse) =
      ⟨16 * r + r', 16 * g + g', 16 * b + b'⟩ := by
  have value : Nat.ofDigits 16 ([r, r', g, g', b, b'].map UInt8.toNat).reverse =
      0x10000 * (16 * r.toNat + r'.toNat) + 0x100 * (16 * g.toNat + g'.toNat) +
        (16 * b.toNat + b'.toNat) := by
    show b'.toNat + 16 * (b.toNat + 16 * (g'.toNat + 16 * (g.toNat + 16 * (r'.toNat + 16 *
      (r.toNat + 16 * 0))))) = _
    omega
  simp only [List.forall_mem_cons, List.not_mem_nil, false_implies, implies_true, and_true] at small
  rw [value, Colour.ofNat, Colour.mk.injEq]
  exact ⟨ofNat_pair (by omega), ofNat_pair (by omega), ofNat_pair (by omega)⟩

/-- What the digits spell is what is read. -/
theorem Spells.gives {colour : Colour} (h : Spells field colour) :
    ∃ n, Gives field n ∧ 0 ≤ n ∧ Colour.ofNat n.toNat = colour := by
  obtain ⟨r, r', g, g', b, b', digits, rfl⟩ := h
  have digits : field.toList.map Text.nibble? = [r, r', g, g', b, b'].map some := digits
  have length : field.length = 6 := by
    rw [← String.length_toList, ← List.length_map (f := Text.nibble?), digits]
    rfl
  refine ⟨_, ⟨length, writes_of_nibbles (List.cons_ne_nil _ _) digits⟩, Int.natCast_nonneg _, ?_⟩
  exact ofNat_digits (map_digit? digits).2

/-! ## Acceptance -/

theorem Gives.unique : Relator.RightUnique Gives := fun _ _ _ first second => by
  rw [← readField_eq_ok_iff] at first second
  exact Except.ok.inj (first.symm.trans second)

theorem lt_of_gives (row : List.Forall₂ Gives fields numbers) : ∀ n ∈ numbers, n < 0x1000000 := by
  induction row with
  | nil => nofun
  | cons gives _ ih => exact List.forall_mem_cons.mpr ⟨gives.lt, ih⟩

theorem ofNat_parts {n : Nat} (h : n < 0x1000000) : let colour := Colour.ofNat n
    n = 0x10000 * colour.red.toNat + 0x100 * colour.green.toNat + colour.blue.toNat := by
  show n = 0x10000 * (n / 0x10000 % 256) + 0x100 * (n / 0x100 % 256) + n % 256
  omega

theorem gives_of_spells {colours : List Colour} (row : List.Forall₂ Spells fields colours) :
    ∃ numbers, List.Forall₂ Gives fields numbers ∧ (∀ n ∈ numbers, 0 ≤ n) ∧
      (numbers.map fun n => Colour.ofNat n.toNat) = colours := by
  induction row with
  | nil => exact ⟨[], .nil, nofun, rfl⟩
  | cons spells _ ih =>
    obtain ⟨n, gives, natural, colour⟩ := spells.gives
    obtain ⟨numbers, row, naturals, colours⟩ := ih
    exact ⟨n :: numbers, .cons gives row, List.forall_mem_cons.mpr ⟨natural, naturals⟩,
      congrArg₂ List.cons colour colours⟩

theorem read_eq_ok_iff {palette : Palette} : read text = .ok palette ↔ ∃ numbers,
    Lists text numbers ∧ numbers.length ≤ 2 ∧ (∀ n ∈ numbers, 0 ≤ n) ∧ palette = ofNumbers numbers := by
  constructor
  · intro accepted
    by_cases listed : ∃ numbers, Lists text numbers ∧ numbers.length ≤ 2
    · obtain ⟨numbers, listed, few⟩ := listed
      rw [read_of_lists listed few] at accepted
      split at accepted
      · next natural => exact ⟨numbers, listed, few, natural, (Except.ok.inj accepted).symm⟩
      · cases accepted
    · obtain ⟨cause, refused⟩ := read_of_unlisted listed
      rw [refused] at accepted
      cases accepted
  · rintro ⟨numbers, listed, few, natural, rfl⟩
    rw [read_of_lists listed few, if_pos natural]

/-- A number below zero is refused as a number; everything else that is wrong with a text is reported
as an error of the palette. -/
theorem of_read_error {failure : Failure} (refused : read text = .error failure) :
    (failure = .number .range ∧
        ∃ numbers, Lists text numbers ∧ numbers.length ≤ 2 ∧ ∃ n ∈ numbers, n < 0) ∨
      ∃ cause, failure = .palette cause := by
  by_cases listed : ∃ numbers, Lists text numbers ∧ numbers.length ≤ 2
  · obtain ⟨numbers, listed, few⟩ := listed
    rw [read_of_lists listed few] at refused
    split at refused
    · cases refused
    · next negative =>
      push Not at negative
      exact .inl ⟨(Except.error.inj refused).symm, numbers, listed, few, negative⟩
  · obtain ⟨cause, reported⟩ := read_of_unlisted listed
    rw [reported] at refused
    exact .inr ⟨cause, (Except.error.inj refused).symm⟩

theorem read_eq_range_iff : read text = .error (.number .range) ↔
    ∃ numbers, Lists text numbers ∧ numbers.length ≤ 2 ∧ ∃ n ∈ numbers, n < 0 := by
  constructor
  · intro refused
    rcases of_read_error refused with ⟨-, negative⟩ | ⟨_, reported⟩
    · exact negative
    · cases reported
  · rintro ⟨numbers, listed, few, n, member, negative⟩
    rw [read_of_lists listed few, if_neg fun natural => absurd (natural n member) (not_le.mpr negative)]

end Palette

/-- Steps one after the other succeed if each does. -/
theorem of_bind_eq_ok {ε α β : Type} {first : Except ε α} {next : α → Except ε β} {b : β}
    (h : first >>= next = .ok b) : ∃ a, first = .ok a ∧ next a = .ok b := by
  cases first with
  | error failure => cases h
  | ok a => exact ⟨a, rfl, h⟩

namespace WindowView

/-- The library opens a window of this scale, which is as wide as this, and takes its caption. -/
structure Opens (library : WindowLibrary) (scale : Setting Int) (width : Int) : Prop where
  set : scale.get .number defaultWidth = .ok width
  window : library.openWindow width (Int.fdiv width 2) = .ok ()
  caption : library.setCaption About.name = .ok ()

variable {library : WindowLibrary}

theorem new_of_opens {scale : Setting Int} {width : Int} (opens : Opens library scale width)
    (palette : Setting String) (smoothing : Setting Int) :
    new library scale palette smoothing = (Palette.ofSetting palette).map fun palette =>
      { scale := width, title := About.name, palette, window := (width, Int.fdiv width 2),
        smoothing } := by
  rw [new, opens.set]
  show (library.openWindow width (Int.fdiv width 2) >>= _) = _
  rw [opens.window]
  show (Palette.ofSetting palette >>= _) = _
  cases Palette.ofSetting palette with
  | error failure => rfl
  | ok palette =>
    show (library.setCaption About.name >>= _) = _
    rw [opens.caption]
    rfl

theorem opens_of_new {scale smoothing : Setting Int} {palette : Setting String} {v : WindowView}
    (opened : new library scale palette smoothing = .ok v) : ∃ width, Opens library scale width := by
  obtain ⟨width, set, opened⟩ := of_bind_eq_ok opened
  obtain ⟨_, window, opened⟩ := of_bind_eq_ok opened
  obtain ⟨_, -, opened⟩ := of_bind_eq_ok opened
  obtain ⟨_, caption, -⟩ := of_bind_eq_ok opened
  exact ⟨width, set, window, caption⟩

variable {scale smoothing : Setting Int} {width : Int} {text : String}

/-- What a window makes of a written palette. -/
structure TakesPalette (library : WindowLibrary) (scale : Setting Int) (text : String)
    (smoothing : Setting Int) : Prop where
  accepts_iff : (∃ v, new library scale (.value text) smoothing = .ok v) ↔
    ∃ numbers, Palette.Lists text numbers ∧ numbers.length ≤ 2 ∧ ∀ n ∈ numbers, 0 ≤ n
  /-- The bytes of the numbers are the colours; a colour that is not given is the one set anyway. -/
  colours : ∀ v numbers, new library scale (.value text) smoothing = .ok v →
    Palette.Lists text numbers →
    v.palette = Palette.ofNumbers numbers ∧ ∀ n ∈ numbers, let colour := Colour.ofNat n.toNat
      n = 0x10000 * colour.red.toNat + 0x100 * colour.green.toNat + colour.blue.toNat
  /-- Fields of six hexadecimal digits are accepted, and the colours are those that they spell. -/
  spelled : ∀ fields colours, Text.Fields text fields →
    List.Forall₂ Palette.Spells fields colours → colours.length ≤ 2 →
    ∃ v, new library scale (.value text) smoothing = .ok v ∧ v.palette = Palette.ofColours colours
  refuses : ∀ failure, new library scale (.value text) smoothing = .error failure →
    (∃ cause, failure = .palette cause) ∨ failure = .number .range
  /-- A number below zero is not reported as an error of the palette. -/
  negative_iff : new library scale (.value text) smoothing = .error (.number .range) ↔
    ∃ numbers, Palette.Lists text numbers ∧ numbers.length ≤ 2 ∧ ∃ n ∈ numbers, n < 0

theorem new_eq_error_iff (opens : Opens library scale width) {failure : Failure} :
    new library scale (.value text) smoothing = .error failure ↔ Palette.read text = .error failure := by
  rw [new_of_opens opens]
  show (Palette.read text).map _ = _ ↔ _
  cases Palette.read text <;> simp [Except.map]

theorem palette_of_new (opens : Opens library scale width) {v : WindowView}
    (h : new library scale (.value text) smoothing = .ok v) : Palette.read text = .ok v.palette := by
  rw [new_of_opens opens] at h
  change (Palette.read text).map _ = _ at h
  cases read : Palette.read text with
  | error failure =>
    rw [read] at h
    cases h
  | ok palette =>
    rw [read] at h
    obtain rfl := Except.ok.inj h
    rfl

theorem exists_new (smoothing : Setting Int) (opens : Opens library scale width) {palette : Palette}
    (h : Palette.read text = .ok palette) :
    ∃ v, new library scale (.value text) smoothing = .ok v ∧ v.palette = palette := by
  rw [new_of_opens opens]
  show ∃ v, (Palette.read text).map _ = .ok v ∧ _
  rw [h]
  exact ⟨_, rfl, rfl⟩

/-- A window opens with exactly the palettes that give one number or two, none of them below zero. -/
theorem takes_palette (opens : Opens library scale width) (text : String) (smoothing : Setting Int) :
    TakesPalette library scale text smoothing := by
  refine ⟨?_, ?_, ?_, ?_, ?_⟩
  · constructor
    · rintro ⟨v, opened⟩
      obtain ⟨numbers, listed, few, natural, -⟩ := Palette.read_eq_ok_iff.mp (palette_of_new opens opened)
      exact ⟨numbers, listed, few, natural⟩
    · rintro ⟨numbers, listed, few, natural⟩
      have read := Palette.read_eq_ok_iff.mpr ⟨numbers, listed, few, natural, rfl⟩
      obtain ⟨v, opened, -⟩ := exists_new smoothing opens read
      exact ⟨v, opened⟩
  · intro v numbers opened listed
    obtain ⟨others, listed', -, natural, palette⟩ :=
      Palette.read_eq_ok_iff.mp (palette_of_new opens opened)
    obtain rfl := Text.Listed.unique Palette.Gives.unique listed listed'
    refine ⟨palette, fun n member => ?_⟩
    obtain ⟨fields, -, row⟩ := listed
    have small := Palette.lt_of_gives row n member
    have parts := Palette.ofNat_parts (n := n.toNat) (by omega)
    have := natural n member
    dsimp only at parts ⊢
    omega
  · intro fields colours apart row few
    obtain ⟨numbers, gives, natural, spelled⟩ := Palette.gives_of_spells row
    have few : numbers.length ≤ 2 := by rwa [← List.length_map, spelled]
    have read := Palette.read_eq_ok_iff.mpr ⟨numbers, ⟨fields, apart, gives⟩, few, natural, rfl⟩
    rw [Palette.ofNumbers, spelled] at read
    exact exists_new smoothing opens read
  · intro failure refused
    exact (Palette.of_read_error ((new_eq_error_iff opens).mp refused)).symm.imp id And.left
  · rw [new_eq_error_iff opens, Palette.read_eq_range_iff]

/-- A palette of two colours, the second with a mark of its base and with underscores. -/
theorem takes_palette_marked :
    Opens .desktop .absent 512 ∧ ∃ v, new .desktop .absent (.value "33ff66,0x_1_f") .absent = .ok v ∧
      v.palette = ⟨⟨0x33, 0xFF, 0x66⟩, ⟨0x00, 0x00, 0x1F⟩⟩ := by
  have opens : Opens .desktop .absent 512 := ⟨rfl, by decide, by decide⟩
  have takes : TakesPalette .desktop .absent "33ff66,0x_1_f" .absent := takes_palette opens _ _
  have listed : Palette.Lists "33ff66,0x_1_f" [0x33FF66, 0x1F] := by
    have first : Palette.Gives "33ff66" 0x33FF66 :=
      Palette.readField_eq_ok_iff.mp (by decide +kernel)
    have second : Palette.Gives "0x_1_f" 0x1F := Palette.readField_eq_ok_iff.mp (by decide +kernel)
    have apart : Text.Fields "33ff66,0x_1_f" ["33ff66", "0x_1_f"] :=
      ⟨by decide, by decide, by decide⟩
    exact ⟨_, apart, .cons first (.cons second .nil)⟩
  obtain ⟨v, opened⟩ := takes.accepts_iff.mpr ⟨_, listed, by decide, by decide⟩
  exact ⟨opens, v, opened, (takes.colours v _ opened listed).1⟩

/-- Five digits with a sign are taken for six digits: below zero they are refused, but not as an error of
the palette, and otherwise they are accepted. -/
theorem signed_palette :
    let opened (text : String) := new .desktop .absent (.value text) .absent
    opened "-12345" = .error (.number .range) ∧
      ¬ ((∃ v, opened "-12345" = .ok v) ∨ ∃ cause, opened "-12345" = .error (.palette cause)) ∧
      (∃ v, opened "+12345" = .ok v) ∧ ¬ ∃ colour, Palette.Spells "+12345" colour := by
  intro opened
  have opens : Opens .desktop .absent 512 := ⟨rfl, by decide, by decide⟩
  have refused : opened "-12345" = .error (.number .range) := by
    refine (new_eq_error_iff opens).mpr ?_
    simp only [Palette.read, String.splitToList_of_valid]
    decide +kernel
  have read : Palette.read "+12345" = .ok { dark := ⟨0x01, 0x23, 0x45⟩ } := by
    simp only [Palette.read, String.splitToList_of_valid]
    decide +kernel
  obtain ⟨v, accepted, -⟩ := exists_new .absent opens read
  refine ⟨refused, ?_, ⟨v, accepted⟩, ?_⟩
  · rw [refused]
    rintro (⟨_, accepted⟩ | ⟨_, reported⟩)
    · cases accepted
    · cases reported
  · rintro ⟨_, _, _, _, _, _, _, digits, -⟩
    cases digits

end WindowView

end Chip8
