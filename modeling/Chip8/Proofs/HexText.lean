import Chip8.Text.Hex

/-! Hexadecimal text read back. Its digits spell the number again, whatever the width, and a byte has
two of them; so different numbers have different texts, and no text has a blank in it. -/

namespace Chip8.Text

/-! ## Digits -/

theorem nibble?_digitChar {k : Nat} (h : k < 16) : nibble? (Nat.digitChar k) = some (UInt8.ofNat k) := by
  have all : ∀ k : Fin 16, nibble? (Nat.digitChar k.val) = some (UInt8.ofNat k.val) := by decide
  exact all ⟨k, h⟩

/-- The number that hexadecimal digits spell. -/
def spelled (digits : List Char) : Nat :=
  digits.foldl (fun n c => 16 * n + ((nibble? c).getD 0).toNat) 0

theorem spelled_concat (digits : List Char) {k : Nat} (h : k < 16) :
    spelled (digits ++ [Nat.digitChar k]) = 16 * spelled digits + k := by
  have value : (UInt8.ofNat k).toNat = k := by
    rw [UInt8.toNat_ofNat']
    omega
  simp only [spelled, List.foldl_append, List.foldl_cons, List.foldl_nil, nibble?_digitChar h,
    Option.getD_some, value]

theorem spelled_toDigits (n : Nat) : spelled (Nat.toDigits 16 n) = n := by
  induction n using Nat.strongRecOn with
  | _ n ih =>
    rw [Nat.toDigits_eq_if (by decide)]
    split
    · next small => exact (spelled_concat [] small).trans (Nat.zero_add n)
    · rw [spelled_concat _ (Nat.mod_lt _ (by decide)), ih _ (by omega)]
      omega

theorem spelled_replicate_append (k : Nat) (digits : List Char) :
    spelled (List.replicate k '0' ++ digits) = spelled digits := by
  induction k with
  | zero => rfl
  | succ k ih => exact ih

theorem isSome_nibble?_of_mem {c : Char} {n : Nat} (h : c ∈ Nat.toDigits 16 n) :
    (nibble? c).isSome = true := by
  have digit {k : Nat} (small : k < 16) : (nibble? (Nat.digitChar k)).isSome = true := by
    rw [nibble?_digitChar small]
    rfl
  induction n using Nat.strongRecOn with
  | _ n ih =>
    rw [Nat.toDigits_eq_if (by decide)] at h
    split at h
    · next small => exact List.mem_singleton.mp h ▸ digit small
    · rcases List.mem_append.mp h with first | last
      · exact ih _ (by omega) first
      · exact List.mem_singleton.mp last ▸ digit (Nat.mod_lt _ (by decide))

/-! ## Numbers -/

/-- A number from its sign and its digits. -/
def readHex : List Char → Int
  | '-' :: digits => -(spelled digits : Int)
  | digits => spelled digits

theorem readHex_of_unsigned {digits : List Char} (h : '-' ∉ digits) : readHex digits = spelled digits := by
  unfold readHex
  split
  · exact absurd List.mem_cons_self h
  · rfl

theorem mem_hexChars {c : Char} {width : Nat} {n : Int} (h : c ∈ hexChars width n) :
    c = '-' ∧ n < 0 ∨ (nibble? c).isSome = true := by
  simp only [hexChars, List.mem_append, List.mem_replicate] at h
  rcases h with (sign | ⟨-, rfl⟩) | digit
  · split at sign
    · next negative => exact .inl ⟨List.mem_singleton.mp sign, negative⟩
    · exact absurd sign List.not_mem_nil
  · exact .inr rfl
  · exact .inr (isSome_nibble?_of_mem digit)

theorem not_mem_hexChars {c : Char} (sign : c ≠ '-') (digit : nibble? c = none) (width : Nat) (n : Int) :
    c ∉ hexChars width n := by
  intro member
  rcases mem_hexChars member with ⟨same, -⟩ | found
  · exact sign same
  · rw [digit] at found
    cases found

theorem readHex_hexChars (width : Nat) (n : Int) : readHex (hexChars width n) = n := by
  by_cases negative : n < 0
  · have signed : hexChars width n = '-' ::
        (List.replicate (width - 1 - (Nat.toDigits 16 n.natAbs).length) '0' ++
          Nat.toDigits 16 n.natAbs) := by
      simp only [hexChars, if_pos negative, List.append_assoc]
      rfl
    rw [signed, readHex, spelled_replicate_append, spelled_toDigits]
    omega
  · have unsigned : '-' ∉ hexChars width n := by
      intro member
      rcases mem_hexChars member with ⟨-, below⟩ | found
      · exact negative below
      · exact absurd found (by decide)
    rw [readHex_of_unsigned unsigned]
    simp only [hexChars, if_neg negative, List.nil_append, spelled_replicate_append, spelled_toDigits]
    omega

theorem hex_injective (width : Nat) : Function.Injective (hex width) := by
  intro n n' same
  have chars : hexChars width n = hexChars width n' := String.ofList_injective same
  rw [← readHex_hexChars width n, chars, readHex_hexChars]

/-! ## Bytes -/

/-- A byte has two digits, the more significant one first. -/
theorem hexChars_byte (b : UInt8) :
    hexChars 2 b.toNat = [Nat.digitChar (b.toNat / 16), Nat.digitChar (b.toNat % 16)] := by
  have small := b.toNat_lt
  have unsigned : ¬ (b.toNat : Int) < 0 := by omega
  simp only [hexChars, if_neg unsigned, List.nil_append, List.length_nil, Nat.sub_zero, Int.natAbs_natCast]
  by_cases single : b.toNat < 16
  · rw [Nat.toDigits_of_lt_base single, Nat.div_eq_of_lt single, Nat.mod_eq_of_lt single]
    rfl
  · rw [Nat.toDigits_of_base_le (by decide) (by omega), Nat.toDigits_of_lt_base (by omega)]
    rfl

theorem isGap_digitChar {k : Nat} (h : k < 16) : isGap (Nat.digitChar k) = false := by
  have all : ∀ k : Fin 16, isGap (Nat.digitChar k.val) = false := by decide
  exact all ⟨k, h⟩

theorem bytes?_flatMap (bytes : List UInt8) :
    bytes? (bytes.flatMap fun b => hexChars 2 b.toNat) = some bytes := by
  induction bytes with
  | nil => rfl
  | cons b rest ih =>
    have small := b.toNat_lt
    have high : b.toNat / 16 < 16 := by omega
    have low : b.toNat % 16 < 16 := Nat.mod_lt _ (by decide)
    have joined : 16 * UInt8.ofNat (b.toNat / 16) + UInt8.ofNat (b.toNat % 16) = b := by
      apply UInt8.toNat_inj.mp
      simp only [UInt8.toNat_add, UInt8.toNat_mul, UInt8.toNat_ofNat']
      show (16 * (b.toNat / 16 % 256) % 256 + b.toNat % 16 % 256) % 256 = b.toNat
      omega
    rw [List.flatMap_cons, hexChars_byte]
    simp only [List.cons_append, List.nil_append, bytes?, isGap_digitChar high, Bool.false_eq_true,
      if_false, nibble?_digitChar high, nibble?_digitChar low, ih]
    exact congrArg (fun c => some (c :: rest)) joined

end Chip8.Text
