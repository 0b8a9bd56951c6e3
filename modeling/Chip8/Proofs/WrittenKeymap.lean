import Mathlib.Data.List.Induction
import Chip8.Proofs.Fields
import Chip8.Proofs.Keymap

/-! Written keymaps. A text is accepted exactly if it has a field for every key, each of them stands
for a code, and the codes differ; otherwise it is refused for its number of fields, or for the first
field that stands for no code or for one that a field before it stands for. -/

namespace Chip8.Keymap

variable {lower : Bool} {text field : String} {m : Keymap} {codes : List Int} {failure : Failure}
  {before fields : List String}

/-! ## Rows of fields -/

/-- The codes that a row of fields stands for, all different. -/
structure Codes (lower : Bool) (fields : List String) (codes : List Int) : Prop where
  read : List.Forall₂ (fun field code => readCode lower field = .ok code) fields codes
  differ : codes.Nodup

/-- Why a field is refused behind fields that stand for some codes. -/
inductive Refuses (lower : Bool) (codes : List Int) (field : String) : Failure → Prop where
  | unread {failure : Failure} (h : readCode lower field = .error failure) :
    Refuses lower codes field failure
  | repeated {code : Int} (h : readCode lower field = .ok code) (known : code ∈ codes) :
    Refuses lower codes field (.keymap .duplicate)

/-- Every row of fields stands for codes as far as the first field that is refused, if there is one. -/
theorem codes_or_refuses (lower : Bool) (fields : List String) :
    (∃ codes, Codes lower fields codes) ∨ ∃ before field after codes failure,
      fields = before ++ field :: after ∧ Codes lower before codes ∧
        Refuses lower codes field failure := by
  -- From the back: whether a field is refused depends on the codes of all fields before it.
  induction fields using List.reverseRecOn with
  | nil => exact .inl ⟨[], .nil, List.nodup_nil⟩
  | append_singleton fields last ih =>
    rcases ih with ⟨codes, h⟩ | ⟨before, field, after, codes, failure, rfl, h, refused⟩
    · cases read : readCode lower last with
      | error failure => exact .inr ⟨fields, last, [], codes, failure, rfl, h, .unread read⟩
      | ok code =>
        by_cases known : code ∈ codes
        · exact .inr ⟨fields, last, [], codes, _, rfl, h, .repeated read known⟩
        · refine .inl ⟨codes ++ [code], List.rel_append h.read (.cons read .nil), ?_⟩
          rw [← List.concat_eq_append]
          exact h.differ.concat known
    · refine .inr ⟨before, field, after ++ [last], codes, failure, ?_, h, refused⟩
      rw [List.append_assoc, List.cons_append]

/-- Fields that stand for codes are read into entries for them, and reading goes on behind them. -/
theorem readFields_append (known : List (Int × Fin Layout.keyCount))
    {row : List (String × Fin Layout.keyCount)}
    (read : List.Forall₂ (fun field code => readCode lower field = .ok code) (row.map Prod.fst) codes)
    (differ : (known.map Prod.fst ++ codes).Nodup) (rest : List (String × Fin Layout.keyCount)) :
    readFields lower known (row ++ rest) =
      readFields lower (known ++ codes.zip (row.map Prod.snd)) rest := by
  induction row generalizing known codes with
  | nil =>
    cases read
    rw [List.zip_nil_left, List.append_nil, List.nil_append]
  | cons first row ih =>
    obtain ⟨field, key⟩ := first
    obtain ⟨code, codes, rfl, first, later⟩ : ∃ code later, codes = code :: later ∧
        readCode lower field = .ok code ∧ List.Forall₂ _ (row.map Prod.fst) later := by
      cases read with
      | cons first later => exact ⟨_, _, rfl, first, later⟩
    have fresh : known.any (·.1 == code) = false := by
      rw [List.any_eq_false]
      intro entry member same
      have : code ∈ known.map Prod.fst := List.mem_map.mpr ⟨entry, member, beq_iff_eq.mp same⟩
      exact List.disjoint_of_nodup_append differ this List.mem_cons_self
    have differ : ((known ++ [(code, key)]).map Prod.fst ++ codes).Nodup := by
      rwa [List.map_append, List.append_assoc]
    rw [List.cons_append, readFields, first]
    dsimp only
    rw [if_neg (Bool.eq_false_iff.mp fresh), ih _ later differ, List.append_assoc]
    rfl

theorem readFields_of_codes {row : List (String × Fin Layout.keyCount)}
    (h : Codes lower (row.map Prod.fst) codes) :
    readFields lower [] row = .ok (codes.zip (row.map Prod.snd)) := by
  have read := readFields_append [] h.read h.differ []
  rwa [List.append_nil] at read

theorem readFields_of_refuses {row : List (String × Fin Layout.keyCount)}
    {after : List String} (split : row.map Prod.fst = before ++ field :: after)
    (h : Codes lower before codes) (refused : Refuses lower codes field failure) :
    readFields lower [] row = .error failure := by
  obtain ⟨row, rest, rfl, rfl, rest_eq⟩ := List.map_eq_append_iff.mp split
  obtain ⟨⟨field, key⟩, rest, rfl, rfl, -⟩ := List.map_eq_cons_iff.mp rest_eq
  rw [readFields_append [] h.read h.differ, List.nil_append, readFields]
  cases refused with
  | unread failed => rw [failed]
  | @repeated code read known =>
    have length : codes.length ≤ (row.map Prod.snd).length := by
      rw [List.length_map, ← List.length_map (f := Prod.fst), h.read.length_eq]
    have stored : (codes.zip (row.map Prod.snd)).any (·.1 == code) = true := by
      rw [← List.map_fst_zip length] at known
      obtain ⟨entry, member, same⟩ := List.mem_map.mp known
      exact List.any_eq_true.mpr ⟨entry, member, beq_iff_eq.mpr same⟩
    rw [read]
    exact if_pos stored

/-! ## Texts -/

/-- The fields of a text, one for every key. -/
structure Fills (text : String) (fields : List String) : Prop where
  apart : Text.Fields text fields
  count : fields.length = Layout.keyCount

/-- An entry for every key, in order. -/
def ofCodes (codes : List Int) : Keymap := ⟨codes.zip (List.finRange _)⟩

theorem read_eq (lower : Bool) (h : Text.Fields text fields) :
    read text lower = if fields.length ≠ Layout.keyCount then .error (.keymap .count)
      else (readFields lower [] (fields.zip (List.finRange _))).map (⟨·⟩) := by
  rw [h.eq_splitToList]
  rfl

theorem Fills.zip (h : Fills text fields) :
    (fields.zip (List.finRange Layout.keyCount)).map Prod.fst = fields ∧
      (fields.zip (List.finRange Layout.keyCount)).map Prod.snd = List.finRange _ := by
  have length : fields.length = (List.finRange Layout.keyCount).length := by
    rw [h.count, List.length_finRange]
  exact ⟨List.map_fst_zip (Nat.le_of_eq length), List.map_snd_zip (Nat.le_of_eq length.symm)⟩

theorem read_of_codes (filled : Fills text fields) (h : Codes lower fields codes) :
    read text lower = .ok (ofCodes codes) := by
  obtain ⟨first, second⟩ := filled.zip
  rw [read_eq lower filled.apart, if_neg (not_not.mpr filled.count),
    readFields_of_codes (first.symm ▸ h), second]
  rfl

theorem read_of_refuses {after : List String} (filled : Fills text fields)
    (split : fields = before ++ field :: after) (h : Codes lower before codes)
    (refused : Refuses lower codes field failure) : read text lower = .error failure := by
  rw [read_eq lower filled.apart, if_neg (not_not.mpr filled.count),
    readFields_of_refuses (filled.zip.1.trans split) h refused]
  rfl

/-- A text is refused if it has too few or too many fields, or for the first of its fields that stands
for no code of its own. -/
inductive Stops (lower : Bool) (text : String) : Failure → Prop where
  | count {fields : List String} (h : Text.Fields text fields)
    (miscounted : fields.length ≠ Layout.keyCount) : Stops lower text (.keymap .count)
  | field {before after : List String} {field : String} {codes : List Int} {failure : Failure}
    (filled : Fills text (before ++ field :: after)) (h : Codes lower before codes)
    (refused : Refuses lower codes field failure) : Stops lower text failure

theorem Stops.read_eq (h : Stops lower text failure) : read text lower = .error failure := by
  cases h with
  | count h miscounted => rw [Keymap.read_eq lower h, if_pos miscounted]
  | field filled h refused => exact read_of_refuses filled rfl h refused

/-- Every text is accepted or refused in one of these ways. -/
theorem accepted_or_stops (lower : Bool) (text : String) :
    (∃ fields codes, Fills text fields ∧ Codes lower fields codes) ∨
      ∃ failure, Stops lower text failure := by
  obtain ⟨fields, h⟩ : ∃ fields, Text.Fields text fields := ⟨_, Text.fields_splitToList text⟩
  by_cases count : fields.length = Layout.keyCount
  · rcases codes_or_refuses lower fields with ⟨codes, read⟩ | ⟨_, _, _, _, failure, rfl, read, refused⟩
    · exact .inl ⟨fields, codes, ⟨h, count⟩, read⟩
    · exact .inr ⟨failure, .field ⟨h, count⟩ read refused⟩
  · exact .inr ⟨_, .count h count⟩

theorem read_eq_ok_iff : read text lower = .ok m ↔
    ∃ fields codes, Fills text fields ∧ Codes lower fields codes ∧ m = ofCodes codes := by
  constructor
  · intro accepted
    rcases accepted_or_stops lower text with ⟨fields, codes, filled, h⟩ | ⟨failure, stops⟩
    · rw [read_of_codes filled h] at accepted
      exact ⟨fields, codes, filled, h, (Except.ok.inj accepted).symm⟩
    · rw [stops.read_eq] at accepted
      cases accepted
  · rintro ⟨fields, codes, filled, h, rfl⟩
    exact read_of_codes filled h

theorem read_eq_error_iff : read text lower = .error failure ↔ Stops lower text failure := by
  refine ⟨fun refused => ?_, Stops.read_eq⟩
  rcases accepted_or_stops lower text with ⟨fields, codes, filled, h⟩ | ⟨other, stops⟩
  · rw [read_of_codes filled h] at refused
    cases refused
  · rw [stops.read_eq] at refused
    exact Except.error.inj refused ▸ stops

theorem of_readCode_error (h : readCode lower field = .error failure) :
    failure = .keymap .notInteger ∨ lower = true ∧ ∃ cause, failure = .number cause := by
  unfold readCode at h
  split at h
  · exact .inl (Except.error.inj h).symm
  · next number _ =>
    cases lower with
    | false => cases h
    | true =>
      cases lowered : lowerCode number with
      | ok code =>
        rw [if_pos rfl, lowered] at h
        cases h
      | error cause =>
        rw [if_pos rfl, lowered] at h
        exact .inr ⟨rfl, cause, (Except.error.inj h).symm⟩

/-- What is refused is reported as an error of the keymap, unless numbers stand for characters. -/
theorem of_read_error (h : read text lower = .error failure) :
    (∃ cause, failure = .keymap cause) ∨ lower = true ∧ ∃ cause, failure = .number cause := by
  cases read_eq_error_iff.mp h with
  | count => exact .inl ⟨_, rfl⟩
  | field _ _ refused =>
    cases refused with
    | unread failed => exact (of_readCode_error failed).imp (fun same => ⟨_, same⟩) id
    | repeated => exact .inl ⟨_, rfl⟩

/-! ## Entries -/

theorem Fills.length_eq (filled : Fills text fields) (h : Codes lower fields codes) :
    codes.length = Layout.keyCount := h.read.length_eq.symm.trans filled.count

theorem Bijective.length_eq (bijective : m.Bijective) : m.entries.length = Layout.keyCount := by
  rw [← List.length_map (f := Prod.snd), bijective.keys, List.length_finRange]

/-- The entries of different codes send each of them to the key in its place. -/
theorem key?_ofCodes_iff (count : codes.length = Layout.keyCount) (differ : codes.Nodup)
    {code : Int} {key : Fin Layout.keyCount} :
    (ofCodes codes).key? code = some key ↔ codes[key.val]? = some code := by
  have length : codes.length = (List.finRange Layout.keyCount).length := by
    rw [count, List.length_finRange]
  have bijective : (ofCodes codes).Bijective :=
    ⟨List.map_snd_zip length.ge, by rwa [ofCodes, List.map_fst_zip length.le]⟩
  have placed : (code, key) ∈ (ofCodes codes).entries ↔ codes[key.val]? = some code := by
    rw [ofCodes, List.mem_iff_getElem?]
    simp only [List.getElem?_zip_eq_some]
    constructor
    · rintro ⟨i, first, second⟩
      obtain ⟨_, rfl⟩ := List.getElem?_eq_some_iff.mp second
      simpa using first
    · intro first
      exact ⟨key.val, first, by simp⟩
  exact ⟨fun found => placed.mp (mem_of_key? found), fun h => bijective.key?_of_mem (placed.mpr h)⟩

/-! ## Numbers -/

/-- The numbers in a row of fields, one in each. -/
abbrev Numbers : List String → List Int → Prop :=
  List.Forall₂ fun field number => Text.readInt? (.fixed 10) field = some number

/-- The numbers that a text lists between its commas. -/
def Lists : String → List Int → Prop :=
  Text.Listed fun field number => Text.readInt? (.fixed 10) field = some number

theorem Lists.unique {numbers others : List Int} (h : Lists text numbers) (h' : Lists text others) :
    numbers = others :=
  Text.Listed.unique (fun _ _ _ first second => Option.some.inj (first.symm.trans second)) h h'

theorem readCode_false_eq_ok {code : Int} :
    readCode false field = .ok code ↔ Text.readInt? (.fixed 10) field = some code := by
  unfold readCode
  cases Text.readInt? (.fixed 10) field <;> simp

theorem codes_false_iff : Codes false fields codes ↔ Numbers fields codes ∧ codes.Nodup := by
  simp only [Numbers, ← readCode_false_eq_ok]
  exact ⟨fun h => ⟨h.read, h.differ⟩, fun h => ⟨h.1, h.2⟩⟩

theorem read_false_eq_ok_iff : read text false = .ok m ↔ ∃ numbers, Lists text numbers ∧
    numbers.length = Layout.keyCount ∧ numbers.Nodup ∧ m = ofCodes numbers := by
  rw [read_eq_ok_iff]
  constructor
  · rintro ⟨fields, codes, filled, h, rfl⟩
    exact ⟨codes, ⟨fields, filled.apart, (codes_false_iff.mp h).1⟩, filled.length_eq h, h.differ, rfl⟩
  · rintro ⟨numbers, ⟨fields, apart, read⟩, count, differ, rfl⟩
    exact ⟨fields, numbers, ⟨apart, read.length_eq.trans count⟩, codes_false_iff.mpr ⟨read, differ⟩, rfl⟩

/-- What comes of reading a keymap of numbers. -/
structure ReadsNumbers (text : String) : Prop where
  accepts_iff : (∃ m, read text false = .ok m) ↔
    ∃ numbers, Lists text numbers ∧ numbers.length = Layout.keyCount ∧ numbers.Nodup
  /-- The number in each place stands for the key in this place, and nothing else for any key. -/
  places : ∀ m, read text false = .ok m → ∀ numbers, Lists text numbers →
    m.entries = numbers.zip (List.finRange _) ∧ m.entries.length = Layout.keyCount ∧ m.Bijective ∧
      ∀ code key, m.key? code = some key ↔ numbers[key.val]? = some code
  refuses : ∀ failure, read text false = .error failure → ∃ cause, failure = .keymap cause

/-- A keymap of numbers is accepted exactly if it lists a number for every key, and no number twice;
whatever else is wrong with a text is reported as such. -/
theorem reads_numbers (text : String) : ReadsNumbers text := by
  refine ⟨?_, ?_, ?_⟩
  · simp only [read_false_eq_ok_iff]
    constructor
    · rintro ⟨m, numbers, listed, count, differ, -⟩
      exact ⟨numbers, listed, count, differ⟩
    · rintro ⟨numbers, listed, count, differ⟩
      exact ⟨_, numbers, listed, count, differ, rfl⟩
  · intro m accepted numbers listed
    have bijective := bijective_of_read accepted
    obtain ⟨others, listed', count, differ, rfl⟩ := read_false_eq_ok_iff.mp accepted
    obtain rfl := listed.unique listed'
    exact ⟨rfl, bijective.length_eq, bijective, fun _ _ => key?_ofCodes_iff count differ⟩
  · intro failure refused
    exact (of_read_error refused).resolve_right fun characters => nomatch characters.1

/-! ## Characters -/

/-- A number that is no character with a lower case of one character, and what is said of it. -/
def Unfit (number : Int) : NumberError → Prop
  | .overflow => number < -0x80000000 ∨ 0x7FFFFFFF < number
  | .range => -0x80000000 ≤ number ∧ number < 0 ∨ 0x10FFFF < number ∧ number ≤ 0x7FFFFFFF
  | .notOneCharacter => number = Text.dottedCapitalI
  | .memory | .divisionByZero => False

/-- The lower cases of a row of characters. -/
abbrev LowerCodes : List Int → List Int → Prop :=
  List.Forall₂ fun number code => lowerCode number = .ok code

/-- One character alone has a lower case of several. -/
theorem lowerCase_eq_singleton {code : Nat} (h : code ≠ Text.dottedCapitalI) :
    ∃ lower, Text.lowerCase code = [lower] := by
  rw [Text.lowerCase, if_neg h]
  split
  · exact ⟨_, rfl⟩
  · exact ⟨_, rfl⟩

theorem lowerCode_of_unfit {number : Int} {cause : NumberError} (h : Unfit number cause) :
    lowerCode number = .error cause := by
  cases cause with
  | overflow => exact if_pos h
  | range =>
    have index : ¬ (number < -0x80000000 ∨ 0x7FFFFFFF < number) := by
      unfold Unfit at h
      omega
    have noCharacter : number < 0 ∨ 0x10FFFF < number := h.imp And.right And.left
    rw [lowerCode, if_neg index, if_pos noCharacter]
  | notOneCharacter =>
    obtain rfl : number = Text.dottedCapitalI := h
    rfl
  | memory | divisionByZero => exact h.elim

theorem exists_lowerCode {number : Int} (h : ∀ cause, ¬ Unfit number cause) :
    ∃ code, lowerCode number = .ok code := by
  have index : ¬ (number < -0x80000000 ∨ 0x7FFFFFFF < number) := h .overflow
  have character : ¬ (number < 0 ∨ 0x10FFFF < number) := by
    have := h .range
    unfold Unfit at this
    omega
  have undotted : number.toNat ≠ Text.dottedCapitalI := fun same => h .notOneCharacter <| by
    rw [Unfit, ← same]
    omega
  obtain ⟨code, single⟩ := lowerCase_eq_singleton undotted
  refine ⟨code, ?_⟩
  rw [lowerCode, if_neg index, if_neg character, single]

theorem lowerCode_eq_error_iff {number : Int} {cause : NumberError} :
    lowerCode number = .error cause ↔ Unfit number cause := by
  refine ⟨fun failed => by_contra fun fit => ?_, lowerCode_of_unfit⟩
  have fits : ∀ other, ¬ Unfit number other := fun other unfit => by
    rw [lowerCode_of_unfit unfit] at failed
    exact fit (Except.error.inj failed ▸ unfit)
  obtain ⟨code, lowered⟩ := exists_lowerCode fits
  rw [lowered] at failed
  cases failed

theorem readCode_true_eq_ok {code : Int} : readCode true field = .ok code ↔
    ∃ number, Text.readInt? (.fixed 10) field = some number ∧ lowerCode number = .ok code := by
  unfold readCode
  cases Text.readInt? (.fixed 10) field with
  | none => simp
  | some number => cases lowered : lowerCode number <;> simp [lowered, Except.mapError]

theorem readCode_true_eq_number {cause : NumberError} :
    readCode true field = .error (.number cause) ↔
      ∃ number, Text.readInt? (.fixed 10) field = some number ∧ Unfit number cause := by
  simp only [← lowerCode_eq_error_iff]
  unfold readCode
  cases Text.readInt? (.fixed 10) field with
  | none => simp
  | some number => cases lowered : lowerCode number <;> simp [lowered, Except.mapError]

/-- The first of its fields at which a text cannot be read: the numbers before it are characters whose
lower cases differ, and the number in it is not fit for one. -/
inductive Derails (text : String) (cause : NumberError) : Prop where
  | at {before after : List String} {field : String} {numbers codes : List Int} {number : Int}
    (filled : Fills text (before ++ field :: after))
    (read : Numbers before numbers) (lowered : LowerCodes numbers codes) (differ : codes.Nodup)
    (derailed : Text.readInt? (.fixed 10) field = some number)
    (unfit : Unfit number cause)

/-- Two steps for every element are two rows of steps. -/
theorem forall₂_exists_iff {α β γ : Type} (R : α → β → Prop) (S : β → γ → Prop) (xs : List α)
    (zs : List γ) : List.Forall₂ (fun x z => ∃ y, R x y ∧ S y z) xs zs ↔
      ∃ ys, List.Forall₂ R xs ys ∧ List.Forall₂ S ys zs := by
  constructor
  · intro h
    induction h with
    | nil => exact ⟨[], .nil, .nil⟩
    | cons step _ ih =>
      obtain ⟨y, first, second⟩ := step
      obtain ⟨ys, firsts, seconds⟩ := ih
      exact ⟨y :: ys, .cons first firsts, .cons second seconds⟩
  · rintro ⟨ys, firsts, seconds⟩
    induction firsts generalizing zs with
    | nil =>
      cases seconds
      exact .nil
    | cons first _ ih =>
      cases seconds with
      | cons second seconds => exact .cons ⟨_, first, second⟩ (ih _ seconds)

theorem codes_true_iff : Codes true fields codes ↔
    ∃ numbers, Numbers fields numbers ∧ LowerCodes numbers codes ∧ codes.Nodup := by
  have rows := forall₂_exists_iff (fun field number => Text.readInt? (.fixed 10) field = some number)
    (fun number code => lowerCode number = .ok code) fields codes
  simp only [← readCode_true_eq_ok] at rows
  constructor
  · rintro ⟨read, differ⟩
    obtain ⟨numbers, read, lowered⟩ := rows.mp read
    exact ⟨numbers, read, lowered, differ⟩
  · rintro ⟨numbers, read, lowered, differ⟩
    exact ⟨rows.mpr ⟨numbers, read, lowered⟩, differ⟩

/-- What comes of reading a keymap of characters. -/
structure ReadsCharacters (text : String) : Prop where
  accepts_iff : ∀ m, read text true = .ok m ↔ ∃ numbers codes, Lists text numbers ∧
    numbers.length = Layout.keyCount ∧ LowerCodes numbers codes ∧ codes.Nodup ∧
    m.entries = codes.zip (List.finRange _)
  bijective : ∀ m, read text true = .ok m → m.entries.length = Layout.keyCount ∧ m.Bijective
  refuses : ∀ failure, read text true = .error failure →
    (∃ cause, failure = .keymap cause) ∨ ∃ cause, failure = .number cause
  derails_iff : ∀ cause, read text true = .error (.number cause) ↔ Derails text cause

/-- A keymap of characters is accepted exactly if it lists a character for every key and their lower
cases differ; and of what is refused, everything is reported as such except for a number that is not
fit for a character. -/
theorem reads_characters (text : String) : ReadsCharacters text := by
  refine ⟨?_, ?_, ?_, ?_⟩
  · intro m
    rw [read_eq_ok_iff]
    constructor
    · rintro ⟨fields, codes, filled, h, rfl⟩
      obtain ⟨numbers, read, lowered, differ⟩ := codes_true_iff.mp h
      exact ⟨numbers, codes, ⟨fields, filled.apart, read⟩, read.length_eq.symm.trans filled.count,
        lowered, differ, rfl⟩
    · rintro ⟨numbers, codes, ⟨fields, apart, read⟩, count, lowered, differ, same⟩
      have h := codes_true_iff.mpr ⟨numbers, read, lowered, differ⟩
      exact ⟨fields, codes, ⟨apart, read.length_eq.trans count⟩, h, congrArg Keymap.mk same⟩
  · intro m accepted
    have bijective := bijective_of_read accepted
    exact ⟨bijective.length_eq, bijective⟩
  · intro failure refused
    exact (of_read_error refused).imp id And.right
  · intro cause
    rw [read_eq_error_iff]
    constructor
    · rintro (_ | ⟨filled, h, refused⟩)
      obtain ⟨failed⟩ := refused
      obtain ⟨numbers, read, lowered, differ⟩ := codes_true_iff.mp h
      obtain ⟨number, derailed, unfit⟩ := readCode_true_eq_number.mp failed
      exact ⟨filled, read, lowered, differ, derailed, unfit⟩
    · rintro ⟨filled, read, lowered, differ, derailed, unfit⟩
      have h := codes_true_iff.mpr ⟨_, read, lowered, differ⟩
      exact .field filled h (.unread (readCode_true_eq_number.mpr ⟨_, derailed, unfit⟩))

/-- The number below zero is no character, and it is not reported as an error of the keymap. -/
theorem negative_code_derails :
    let text := "-1,49,50,51,113,119,101,97,115,100,122,99,52,114,102,118"
    read text true = .error (.number .range) ∧
      ¬ ((∃ m, read text true = .ok m ∧ m.Bijective) ∨
        ∃ cause, read text true = .error (.keymap cause)) := by
  intro text
  have derails : read text true = .error (.number .range) := by
    simp only [text, read, String.splitToList_of_valid]
    decide +kernel
  refine ⟨derails, ?_⟩
  rw [derails]
  rintro (⟨_, accepted, _⟩ | ⟨_, reported⟩)
  · cases accepted
  · cases reported

end Chip8.Keymap
