import Mathlib.Data.List.DropRight
import Mathlib.Data.Nat.Digits.Defs
import Chip8.Text.Integer

/-! How integers are written. A numeral has blanks around it, perhaps a sign and a mark of its base,
and digits in groups with an underscore between every two. A text can be read as an integer exactly if
it is a numeral, and what is read is the value of the numeral. -/

namespace Chip8.Text

variable {base d : Nat} {c : Char} {text rest core : List Char} {values : List Nat}

/-! ## Characters -/

theorem decimalDigit?_of_lt {code : Nat} (h : code < 0x30) : decimalDigit? code = none := by
  rw [decimalDigit?, Option.map_eq_none_iff, List.find?_eq_none]
  intro first member
  have least : ∀ first ∈ decimalZeros, 0x30 ≤ first := by decide
  have := least first member
  simp only [Bool.and_eq_true, decide_eq_true_eq]
  omega

theorem digitValue?_of_lt (h : c.toNat < 0x30) : digitValue? c = none := by
  have small : ¬ ('a' ≤ c ∧ c ≤ 'z') := fun letter => by
    have : 'a'.toNat ≤ c.toNat := letter.1
    exact absurd this (by have : 'a'.toNat = 0x61 := rfl; omega)
  have capital : ¬ ('A' ≤ c ∧ c ≤ 'Z') := fun letter => by
    have : 'A'.toNat ≤ c.toNat := letter.1
    exact absurd this (by have : 'A'.toNat = 0x41 := rfl; omega)
  rw [digitValue?, if_neg small, if_neg capital, decimalDigit?_of_lt h]

theorem digitValue?_of_isBlank (h : isBlank c = true) : digitValue? c = none := by
  have wide : wideBlanks.all (fun blank => digitValue? blank == none) = true := by decide +kernel
  rw [isBlank, Bool.or_eq_true, isAsciiBlank, Bool.or_eq_true, beq_iff_eq, Bool.and_eq_true,
    decide_eq_true_eq, decide_eq_true_eq, List.contains_iff_mem] at h
  rcases h with (rfl | ⟨-, control⟩) | member
  · exact digitValue?_of_lt (by decide)
  · refine digitValue?_of_lt ?_
    have : c.toNat ≤ '\r'.toNat := control
    have : '\r'.toNat = 0x0D := rfl
    omega
  · exact beq_iff_eq.mp (List.all_eq_true.mp wide c member)

theorem digitValue?_of_zero (h : decimalDigit? c.toNat = some 0) : digitValue? c ≠ none := by
  unfold digitValue?
  split
  · exact Option.some_ne_none _
  · split
    · exact Option.some_ne_none _
    · rw [h]
      exact Option.some_ne_none _

theorem digitValue?_of_digit? (h : digit? base c = some d) : digitValue? c ≠ none := by
  intro none
  rw [digit?, none] at h
  cases h

theorem isBlank_eq_false (h : digitValue? c ≠ none) : isBlank c = false :=
  Bool.eq_false_iff.mpr fun blank => h (digitValue?_of_isBlank blank)

theorem isBlank_of_markedBase? (h : markedBase? c = some base) : isBlank c = false := by
  unfold markedBase? at h
  split at h
  case h_7 => cases h
  all_goals decide

/-- A letter that marks a base is no digit of it. -/
theorem digit?_of_markedBase? (h : markedBase? c = some base) : digit? base c = none := by
  unfold markedBase? at h
  split at h
  case h_7 => cases h
  all_goals
    obtain rfl := Option.some.inj h
    decide

/-! ## Groups of digits -/

/-- Groups of digits: at least one, and none without a digit. -/
structure Grouped (base : Nat) (groups : List (List Char)) (values : List Nat) : Prop where
  nonempty : groups ≠ []
  full : [] ∉ groups
  values : groups.flatten.map (digit? base) = values.map some

/-- What an underscore or nothing stands between: a digit, and more digits behind it. -/
theorem digits?_underscore (base : Nat) (c : Char) (rest : List Char) :
    digits? base (c :: '_' :: rest) =
      (digit? base c).bind fun d => (digits? base rest).map (d :: ·) := by
  rw [digits?]
  cases digit? base c <;> cases digits? base rest <;> rfl

theorem digits?_cons (base : Nat) (c : Char) (more : rest ≠ []) (plain : rest.head? ≠ some '_') :
    digits? base (c :: rest) =
      (digit? base c).bind fun d => (digits? base rest).map (d :: ·) := by
  rw [digits?]
  · cases digit? base c <;> cases digits? base rest <;> rfl
  · exact more
  · rintro rest rfl
    exact plain rfl

theorem Grouped.single {d : Nat} (h : digit? base c = some d) : Grouped base [[c]] [d] where
  nonempty := List.cons_ne_nil _ _
  full := by simp
  values := congrArg ([·]) h

theorem Grouped.apart {groups : List (List Char)} {d : Nat} (first : digit? base c = some d)
    (h : Grouped base groups values) : Grouped base ([c] :: groups) (d :: values) where
  nonempty := List.cons_ne_nil _ _
  full := by simpa using h.full
  values := by
    rw [List.flatten_cons, List.map_append, h.values]
    exact congrArg (· :: _) first

theorem Grouped.extend {group : List Char} {groups : List (List Char)} {d : Nat}
    (first : digit? base c = some d) (h : Grouped base (group :: groups) values) :
    Grouped base ((c :: group) :: groups) (d :: values) where
  nonempty := List.cons_ne_nil _ _
  full := by
    have later : [] ∉ groups := fun member => h.full (List.mem_cons_of_mem _ member)
    simpa using later
  values := by
    rw [List.flatten_cons, List.cons_append, ← List.flatten_cons, List.map_cons, h.values]
    exact congrArg (· :: _) first

theorem grouped_of_digits? (h : digits? base text = some values) :
    ∃ groups, Grouped base groups values ∧ ['_'].intercalate groups = text := by
  induction text using digits?.induct generalizing values with
  | case1 => cases h
  | case2 c =>
    obtain ⟨d, digit, rfl⟩ := Option.map_eq_some_iff.mp h
    exact ⟨[[c]], .single digit, List.intercalate_singleton⟩
  | case3 c rest ih =>
    rw [digits?_underscore, Option.bind_eq_some_iff] at h
    obtain ⟨d, digit, h⟩ := h
    obtain ⟨later, read, rfl⟩ := Option.map_eq_some_iff.mp h
    obtain ⟨groups, grouped, rfl⟩ := ih read
    exact ⟨[c] :: groups, grouped.apart digit, List.intercalate_cons_of_ne_nil grouped.nonempty⟩
  | case4 c rest more plain ih =>
    have plain : rest.head? ≠ some '_' := fun head => by
      obtain ⟨later, rfl⟩ := List.head?_eq_some_iff.mp head
      exact plain later rfl
    rw [digits?_cons base c more plain, Option.bind_eq_some_iff] at h
    obtain ⟨d, digit, h⟩ := h
    obtain ⟨later, read, rfl⟩ := Option.map_eq_some_iff.mp h
    obtain ⟨groups, grouped, rfl⟩ := ih read
    obtain ⟨group, groups, rfl⟩ := List.exists_cons_of_ne_nil grouped.nonempty
    exact ⟨(c :: group) :: groups, grouped.extend digit, List.intercalate_cons_cons_left⟩

/-- The first digit ends the digits, or its group, or neither. -/
theorem Grouped.first {groups : List (List Char)} {d : Nat} (h : Grouped base groups (d :: values)) :
    ∃ c, digit? base c = some d ∧
      ((values = [] ∧ groups = [[c]]) ∨
        (∃ later, groups = [c] :: later ∧ Grouped base later values) ∨
        ∃ group later, groups = (c :: group) :: later ∧ group ≠ [] ∧
          Grouped base (group :: later) values) := by
  obtain ⟨group, later, rfl⟩ := List.exists_cons_of_ne_nil h.nonempty
  have full : group ≠ [] ∧ [] ∉ later := by simpa [eq_comm] using h.full
  obtain ⟨c, group, rfl⟩ := List.exists_cons_of_ne_nil full.1
  have values := h.values
  rw [List.flatten_cons, List.cons_append, List.map_cons, List.map_cons, List.cons.injEq] at values
  obtain ⟨digit, values⟩ := values
  refine ⟨c, digit, ?_⟩
  cases group with
  | cons next group =>
    have full : [] ∉ (next :: group) :: later := by simpa using full.2
    exact .inr (.inr ⟨_, _, rfl, List.cons_ne_nil _ _, List.cons_ne_nil _ _, full, values⟩)
  | nil =>
    cases later with
    | nil => exact .inl ⟨List.map_eq_nil_iff.mp values.symm, rfl⟩
    | cons _ _ => exact .inr (.inl ⟨_, rfl, List.cons_ne_nil _ _, full.2, values⟩)

theorem Grouped.exists_digit {groups : List (List Char)} (h : Grouped base groups values) :
    ∃ d later, values = d :: later := by
  obtain ⟨group, later, rfl⟩ := List.exists_cons_of_ne_nil h.nonempty
  have full : group ≠ [] := fun empty => h.full (empty ▸ List.mem_cons_self)
  refine List.exists_cons_of_ne_nil fun none => full ?_
  have values := h.values
  rw [none, List.map_nil, List.map_eq_nil_iff, List.flatten_cons, List.append_eq_nil_iff] at values
  exact values.1

theorem digits?_of_grouped {groups : List (List Char)} (h : Grouped base groups values) :
    digits? base (['_'].intercalate groups) = some values := by
  induction values generalizing groups with
  | nil =>
    obtain ⟨_, _, none⟩ := h.exists_digit
    cases none
  | cons d values ih =>
    obtain ⟨c, digit, ⟨rfl, rfl⟩ | ⟨later, rfl, grouped⟩ | ⟨group, later, rfl, more, grouped⟩⟩ := h.first
    · rw [List.intercalate_singleton]
      exact congrArg (Option.map ([·])) digit
    · rw [List.intercalate_cons_of_ne_nil grouped.nonempty]
      show digits? base (c :: '_' :: ['_'].intercalate later) = _
      rw [digits?_underscore, digit, ih grouped]
      rfl
    · obtain ⟨next, group, rfl⟩ := List.exists_cons_of_ne_nil more
      obtain ⟨d', values, rfl⟩ := grouped.exists_digit
      have plain : next ≠ '_' := by
        rintro rfl
        exact digitValue?_of_digit? (List.cons.inj grouped.values).1 (by decide)
      rw [List.intercalate_cons_cons_left, digits?_cons base c, digit, ih grouped]
      · rfl
      · rw [List.intercalate_cons_cons_left]
        exact List.cons_ne_nil _ _
      · rw [List.intercalate_cons_cons_left]
        simpa using plain

/-! ## Blanks, signs and marks -/

theorem trimBlanks_eq (text : List Char) :
    trimBlanks text = (text.dropWhile isBlank).rdropWhile isBlank := rfl

/-- What has no blank in it is what remains without the blanks around it. -/
theorem trimBlanks_append {before after : List Char} (blanks : ∀ c ∈ before ++ after, isBlank c = true)
    (plain : ∀ c ∈ core, isBlank c = false) : trimBlanks (before ++ core ++ after) = core := by
  obtain ⟨before_blank, after_blank⟩ := List.forall_mem_append.mp blanks
  rw [trimBlanks_eq, List.append_assoc, List.dropWhile_append_of_pos before_blank]
  cases core with
  | nil => rw [List.nil_append, List.dropWhile_eq_nil_iff.mpr after_blank, List.rdropWhile_nil]
  | cons c core =>
    have stays : List.rdropWhile isBlank (c :: core) = c :: core := by
      rw [List.rdropWhile_eq_self_iff]
      intro some blank
      rw [plain _ (List.getLast_mem some)] at blank
      cases blank
    have first : isBlank c = false := plain c List.mem_cons_self
    rw [List.cons_append, List.dropWhile_cons_of_neg (by simp [first]), ← List.cons_append,
      List.rdropWhile, List.reverse_append,
      List.dropWhile_append_of_pos fun c member => after_blank c (List.mem_reverse.mp member)]
    exact stays

theorem exists_blanks (text : List Char) : ∃ before after : List Char,
    (∀ c ∈ before ++ after, isBlank c = true) ∧ before ++ trimBlanks text ++ after = text := by
  refine ⟨text.takeWhile isBlank, (text.dropWhile isBlank).rtakeWhile isBlank, ?_, ?_⟩
  · rw [List.forall_mem_append]
    exact ⟨fun c => List.mem_takeWhile_imp, fun c => List.mem_rtakeWhile_imp⟩
  · rw [trimBlanks_eq, List.append_assoc, List.rdropWhile_append_rtakeWhile,
      List.takeWhile_append_dropWhile]

/-- Nothing, or a zero and a letter for the base, perhaps with an underscore behind it. -/
def IsMark (base : Nat) (mark : List Char) : Prop :=
  mark = [] ∨ ∃ c letter, decimalDigit? c.toNat = some 0 ∧ markedBase? letter = some base ∧
    (mark = [c, letter] ∨ mark = [c, letter, '_'])

theorem mem_intercalate {sep : List Char} {parts : List (List Char)} (h : c ∈ sep.intercalate parts) :
    c ∈ sep ∨ c ∈ parts.flatten := by
  induction parts with
  | nil => exact absurd h List.not_mem_nil
  | cons part rest ih =>
    rw [List.flatten_cons, List.mem_append]
    cases rest with
    | nil =>
      rw [List.intercalate_singleton] at h
      exact .inr (.inl h)
    | cons next rest =>
      rw [List.intercalate_cons_of_ne_nil (List.cons_ne_nil _ _), List.mem_append,
        List.mem_append] at h
      rcases h with (h | h) | h
      · exact .inr (.inl h)
      · exact .inl h
      · exact (ih h).imp id .inr

/-- Between the first digit and the last there are only digits and underscores. -/
theorem Grouped.of_mem {groups : List (List Char)} (h : Grouped base groups values)
    (member : c ∈ ['_'].intercalate groups) : c = '_' ∨ ∃ d, digit? base c = some d := by
  refine (mem_intercalate member).imp List.mem_singleton.mp fun digit => ?_
  have image := List.mem_map_of_mem (f := digit? base) digit
  rw [h.values] at image
  obtain ⟨d, _, same⟩ := List.mem_map.mp image
  exact ⟨d, same.symm⟩

theorem Grouped.head {groups : List (List Char)} (h : Grouped base groups values) :
    ∃ c rest d, ['_'].intercalate groups = c :: rest ∧ digit? base c = some d := by
  obtain ⟨d, values, rfl⟩ := h.exists_digit
  obtain ⟨c, digit, ⟨rfl, rfl⟩ | ⟨later, rfl, grouped⟩ | ⟨group, later, rfl, _⟩⟩ := h.first
  · exact ⟨c, [], d, List.intercalate_singleton, digit⟩
  · exact ⟨c, _, d, List.intercalate_cons_of_ne_nil grouped.nonempty, digit⟩
  · exact ⟨c, _, d, List.intercalate_cons_cons_left, digit⟩

theorem mark?_eq_some_iff : mark? text = some base ↔ ∃ c letter rest, text = c :: letter :: rest ∧
    decimalDigit? c.toNat = some 0 ∧ markedBase? letter = some base := by
  constructor
  · intro h
    unfold mark? at h
    split at h
    · next c letter rest =>
      obtain ⟨marks, h⟩ := Option.ite_none_right_eq_some.mp h
      exact ⟨c, letter, rest, rfl, marks, h⟩
    · cases h
  · rintro ⟨c, letter, rest, rfl, marks, h⟩
    exact (if_pos marks).trans h

/-- Digits alone bear no mark of their base. -/
theorem Grouped.unmarked {groups : List (List Char)} (h : Grouped base groups values) :
    mark? (['_'].intercalate groups) ≠ some base := by
  intro marked
  obtain ⟨c, letter, rest, split, -, named⟩ := mark?_eq_some_iff.mp marked
  have member : letter ∈ ['_'].intercalate groups := by
    rw [split]
    exact List.mem_cons_of_mem _ List.mem_cons_self
  rcases h.of_mem member with rfl | ⟨d, digit⟩
  · cases named
  · rw [digit?_of_markedBase? named] at digit
    cases digit

theorem dropMark_of_plain {letter : Char} (marked : mark? (c :: letter :: rest) = some base)
    (plain : rest.head? ≠ some '_') : dropMark base (c :: letter :: rest) = rest := by
  rw [dropMark, if_pos marked]
  dsimp only [List.drop]
  split
  · exact absurd rfl plain
  · rfl

theorem dropMark_append {mark : List Char} {groups : List (List Char)} (hm : IsMark base mark)
    (h : Grouped base groups values) :
    dropMark base (mark ++ ['_'].intercalate groups) = ['_'].intercalate groups := by
  rcases hm with rfl | ⟨c, letter, marks, named, rfl | rfl⟩
  · exact if_neg h.unmarked
  · have marked := mark?_eq_some_iff.mpr ⟨c, letter, ['_'].intercalate groups, rfl, marks, named⟩
    have plain : (['_'].intercalate groups).head? ≠ some '_' := fun underscore => by
      obtain ⟨first, rest, d, split, digit⟩ := h.head
      rw [split, List.head?_cons, Option.some.injEq] at underscore
      obtain rfl := underscore
      cases digit
    exact dropMark_of_plain marked plain
  · have marked := mark?_eq_some_iff.mpr ⟨c, letter, '_' :: ['_'].intercalate groups, rfl, marks, named⟩
    exact if_pos marked

theorem exists_mark (base : Nat) (text : List Char) :
    ∃ mark, IsMark base mark ∧ mark ++ dropMark base text = text := by
  unfold dropMark
  split
  · next marked =>
    obtain ⟨c, letter, rest, rfl, marks, named⟩ := mark?_eq_some_iff.mp marked
    dsimp only [List.drop]
    split
    · exact ⟨[c, letter, '_'], .inr ⟨c, letter, marks, named, .inr rfl⟩, rfl⟩
    · exact ⟨[c, letter], .inr ⟨c, letter, marks, named, .inl rfl⟩, rfl⟩
  · exact ⟨[], .inl rfl, rfl⟩

/-! ## Numerals -/

/-- An integer as it is written, part by part. -/
structure Numeral where
  before : List Char := []
  sign : List Char := []
  mark : List Char := []
  groups : List (List Char)
  after : List Char := []

namespace Numeral

def chars (w : Numeral) : List Char :=
  w.before ++ (w.sign ++ (w.mark ++ ['_'].intercalate w.groups)) ++ w.after

/-- The values of the digits, the most significant one first. -/
def digits (base : Nat) (w : Numeral) : List Nat := w.groups.flatten.filterMap (digit? base)

def magnitude (base : Nat) (w : Numeral) : Nat := Nat.ofDigits base (w.digits base).reverse

def value (base : Nat) (w : Numeral) : Int :=
  if w.sign = ['-'] then -(w.magnitude base : Int) else w.magnitude base

/-- What the parts of a numeral can be. -/
structure Proper (base : Nat) (w : Numeral) : Prop where
  blanks : ∀ c ∈ w.before ++ w.after, isBlank c = true
  sign : w.sign = [] ∨ w.sign = ['+'] ∨ w.sign = ['-']
  mark : IsMark base w.mark
  grouped : Grouped base w.groups (w.digits base)
  short : tooLong base (w.digits base) = false

end Numeral

theorem length_flatten_le (sep : List Char) (parts : List (List Char)) :
    parts.flatten.length ≤ (sep.intercalate parts).length := by
  induction parts with
  | nil => exact Nat.le_refl 0
  | cons part rest ih =>
    cases rest with
    | nil => rw [List.intercalate_singleton, List.flatten_singleton]
    | cons next rest =>
      rw [List.flatten_cons, List.intercalate_cons_of_ne_nil (List.cons_ne_nil _ _)]
      simp only [List.length_append]
      omega

/-- No numeral has more digits than characters. -/
theorem Numeral.length_digits_le (base : Nat) (w : Numeral) :
    (w.digits base).length ≤ w.chars.length := by
  have digits : (w.digits base).length ≤ w.groups.flatten.length := List.length_filterMap_le _ _
  have chars := length_flatten_le ['_'] w.groups
  simp only [Numeral.chars, List.length_append]
  omega

theorem Numeral.digit_lt {w : Numeral} (h : d ∈ w.digits base) : d < base := by
  obtain ⟨c, _, digit⟩ := List.mem_filterMap.mp h
  exact of_decide_eq_true (Option.filter_eq_some_iff.mp digit).2

/-- The value of a numeral has no more digits than the numeral has characters. -/
theorem Numeral.magnitude_lt (hb : 1 < base) (w : Numeral) {count : Nat}
    (short : w.chars.length ≤ count) : w.magnitude base < base ^ count := by
  have bound := Nat.ofDigits_lt_base_pow_length hb fun d member =>
    w.digit_lt (List.mem_reverse.mp member)
  rw [List.length_reverse] at bound
  exact bound.trans_le (Nat.pow_le_pow_right (by omega) ((w.length_digits_le base).trans short))

/-- A text writes an integer if it is a numeral of its value. -/
def Writes (base : Nat) (text : String) (n : Int) : Prop :=
  ∃ w : Numeral, w.Proper base ∧ w.chars = text.toList ∧ w.value base = n

/-! ## Reading -/

theorem ofDigits_eq (base : Nat) (values : List Nat) :
    ofDigits base values = Nat.ofDigits base values.reverse := by
  rw [Nat.ofDigits_eq_foldr, List.foldr_reverse, ofDigits]
  simp only [add_comm, Nat.cast_id]

theorem readNat?_fixed_eq_some {n : Nat} : readNat? (.fixed base) text = some n ↔
    ∃ values, digits? base (dropMark base text) = some values ∧ tooLong base values = false ∧
      ofDigits base values = n := by
  simp [readNat?, Option.bind_eq_some_iff]

theorem Grouped.digits_eq {w : Numeral} (h : Grouped base w.groups values) :
    w.digits base = values := by
  have same := congrArg (List.filterMap id) h.values
  rwa [List.filterMap_map, List.filterMap_map, Function.id_comp, Function.id_comp,
    List.filterMap_some] at same

/-- What stands between the blanks of a text that can be read is a numeral without blanks. -/
theorem writes_of_trimmed {s : String} {unsigned : List Char} {n : Nat} (sign : List Char)
    (signed : sign = [] ∨ sign = ['+'] ∨ sign = ['-'])
    (trimmed : trimBlanks s.toList = sign ++ unsigned)
    (read : readNat? (.fixed base) unsigned = some n) :
    Writes base s (if sign = ['-'] then -(n : Int) else n) := by
  obtain ⟨before, after, blanks, whole⟩ := exists_blanks s.toList
  obtain ⟨values, digits, short, rfl⟩ := readNat?_fixed_eq_some.mp read
  obtain ⟨groups, grouped, joined⟩ := grouped_of_digits? digits
  obtain ⟨mark, marks, split⟩ := exists_mark base unsigned
  let w : Numeral := { before, sign, mark, groups, after }
  have digits : w.digits base = values := Grouped.digits_eq (w := w) grouped
  refine ⟨w, ⟨blanks, signed, marks, ?_, ?_⟩, ?_, ?_⟩
  · rw [digits]
    exact grouped
  · rw [digits]
    exact short
  · show before ++ (sign ++ (mark ++ ['_'].intercalate groups)) ++ after = s.toList
    rw [joined, split, ← trimmed, whole]
  · rw [Numeral.value, Numeral.magnitude, digits, ofDigits_eq]

theorem writes_of_readInt? {s : String} {n : Int} (h : readInt? (.fixed base) s = some n) :
    Writes base s n := by
  unfold readInt? at h
  split at h
  · next unsigned trimmed =>
    cases read : readNat? (.fixed base) unsigned with
    | none =>
      rw [read] at h
      cases h
    | some m =>
      rw [read] at h
      obtain rfl := Option.some.inj h
      exact writes_of_trimmed ['-'] (.inr (.inr rfl)) trimmed read
  · next unsigned trimmed =>
    obtain ⟨m, read, rfl⟩ := Option.map_eq_some_iff.mp h
    exact writes_of_trimmed ['+'] (.inr (.inl rfl)) trimmed read
  · obtain ⟨m, read, rfl⟩ := Option.map_eq_some_iff.mp h
    exact writes_of_trimmed [] (.inl rfl) rfl read

namespace Numeral.Proper

variable {w : Numeral}

/-- A mark and the digits behind it start with a digit. -/
theorem head (h : w.Proper base) : ∃ c rest, w.mark ++ ['_'].intercalate w.groups = c :: rest ∧
    digitValue? c ≠ none := by
  rcases h.mark with unmarked | ⟨c, letter, marks, -, marked | marked⟩
  · obtain ⟨c, rest, d, split, digit⟩ := h.grouped.head
    exact ⟨c, rest, by rw [unmarked, List.nil_append, split], digitValue?_of_digit? digit⟩
  · exact ⟨c, _, by rw [marked, List.cons_append], digitValue?_of_zero marks⟩
  · exact ⟨c, _, by rw [marked, List.cons_append], digitValue?_of_zero marks⟩

theorem plain (h : w.Proper base) :
    ∀ c ∈ w.sign ++ (w.mark ++ ['_'].intercalate w.groups), isBlank c = false := by
  simp only [List.forall_mem_append]
  refine ⟨?_, ?_, ?_⟩
  · rcases h.sign with signed | signed | signed
    · rw [signed]
      exact fun _ member => absurd member List.not_mem_nil
    · rw [signed]
      exact List.forall_mem_singleton.mpr (by decide)
    · rw [signed]
      exact List.forall_mem_singleton.mpr (by decide)
  · rcases h.mark with unmarked | ⟨c, letter, marks, named, marked | marked⟩
    · rw [unmarked]
      exact fun _ member => absurd member List.not_mem_nil
    · rw [marked]
      simp [isBlank_eq_false (digitValue?_of_zero marks), isBlank_of_markedBase? named]
    · rw [marked]
      simp [isBlank_eq_false (digitValue?_of_zero marks), isBlank_of_markedBase? named,
        (by decide : isBlank '_' = false)]
  · intro c member
    rcases h.grouped.of_mem member with rfl | ⟨d, digit⟩
    · decide
    · exact isBlank_eq_false (digitValue?_of_digit? digit)

theorem readNat? (h : w.Proper base) :
    readNat? (.fixed base) (w.mark ++ ['_'].intercalate w.groups) = some (w.magnitude base) := by
  rw [readNat?_fixed_eq_some, dropMark_append h.mark h.grouped]
  exact ⟨_, digits?_of_grouped h.grouped, h.short, ofDigits_eq _ _⟩

theorem readInt? (h : w.Proper base) {s : String} (written : w.chars = s.toList) :
    readInt? (.fixed base) s = some (w.value base) := by
  have trimmed : trimBlanks s.toList = w.sign ++ (w.mark ++ ['_'].intercalate w.groups) := by
    rw [← written]
    exact trimBlanks_append h.blanks h.plain
  have read := h.readNat?
  rw [Text.readInt?, trimmed, value]
  rcases h.sign with unsigned | signed | signed
  · obtain ⟨c, rest, split, digit⟩ := h.head
    rw [split] at read ⊢
    rw [unsigned, List.nil_append]
    split
    · next same =>
      obtain ⟨rfl, -⟩ := List.cons.inj same
      exact absurd (digitValue?_of_lt (by decide)) digit
    · next same =>
      obtain ⟨rfl, -⟩ := List.cons.inj same
      exact absurd (digitValue?_of_lt (by decide)) digit
    · exact congrArg (Option.map Int.ofNat) read
  · rw [signed]
    exact congrArg (Option.map Int.ofNat) read
  · rw [signed]
    simp only [List.singleton_append, read]
    rfl

end Numeral.Proper

theorem readInt?_eq_some_iff {s : String} {n : Int} :
    readInt? (.fixed base) s = some n ↔ Writes base s n :=
  ⟨writes_of_readInt?, fun ⟨_, proper, written, same⟩ => same ▸ proper.readInt? written⟩

end Chip8.Text
