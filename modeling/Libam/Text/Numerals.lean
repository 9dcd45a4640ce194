import Libam.Text.Bytes
import Mathlib.Data.Nat.Digits.Lemmas

/-! Numbers in print: `%u` and the hexadecimal conversions of `printf`, and how to
read them back. -/

namespace Libam.Text

section Digits

def digitChar (d : ℕ) : UInt8 := if d < 10 then .ofNat (0x30 + d) else .ofNat (0x57 + d)

def digitValue (c : UInt8) : ℕ := if c.toNat < 0x3A then c.toNat - 0x30 else c.toNat - 0x57

theorem digitChar_toNat {d : ℕ} (digit : d < 16) :
    (digitChar d).toNat = if d < 10 then 0x30 + d else 0x57 + d := by
  have size : UInt8.size = 256 := rfl
  rw [digitChar]
  split
  · exact UInt8.toNat_ofNat_of_lt' (by omega)
  · exact UInt8.toNat_ofNat_of_lt' (by omega)

theorem digitValue_digitChar {d : ℕ} (digit : d < 16) : digitValue (digitChar d) = d := by
  have value := digitChar_toNat digit
  rw [digitValue, value]
  split
  · rw [if_pos (by omega), Nat.add_sub_cancel_left]
  · rw [if_neg (by omega), Nat.add_sub_cancel_left]

theorem digitChar_printed {d : ℕ} (digit : d < 16) : 0x20 < digitChar d := by
  rw [UInt8.lt_iff_toNat_lt, digitChar_toNat digit]
  split
  · simp; omega
  · simp; omega

end Digits

section Numerals

variable {base width n : ℕ}

def numeral (base width n : ℕ) : List UInt8 :=
  let digits := (Nat.digits base n).reverse
  (List.replicate (width - digits.length) 0 ++ digits).map digitChar

def numeralValue (base : ℕ) (text : List UInt8) : ℕ :=
  Nat.ofDigits base (text.map digitValue).reverse

theorem digits_lt (low : 1 < base) (high : base ≤ 16) {d : ℕ}
    (member : d ∈ List.replicate (width - (Nat.digits base n).reverse.length) 0 ++
      (Nat.digits base n).reverse) :
    d < 16 := by
  rcases List.mem_append.mp member with padding | digit
  · rw [(List.mem_replicate.mp padding).2]
    decide
  · exact Nat.lt_of_lt_of_le (Nat.digits_lt_base low (List.mem_reverse.mp digit)) high

theorem numeral_digits (low : 1 < base) (high : base ≤ 16) {c : UInt8}
    (member : c ∈ numeral base width n) : ∃ d < 16, c = digitChar d := by
  simp only [numeral, List.mem_map] at member
  obtain ⟨d, inside, rfl⟩ := member
  exact ⟨d, digits_lt low high inside, rfl⟩

theorem numeral_printed (low : 1 < base) (high : base ≤ 16) {c : UInt8}
    (member : c ∈ numeral base width n) : 0x20 < c := by
  obtain ⟨d, digit, rfl⟩ := numeral_digits low high member
  exact digitChar_printed digit

theorem numeralValue_numeral (low : 1 < base) (high : base ≤ 16) :
    numeralValue base (numeral base width n) = n := by
  have values : (numeral base width n).map digitValue =
      List.replicate (width - (Nat.digits base n).length) 0 ++ (Nat.digits base n).reverse := by
    rw [numeral, List.map_map, List.length_reverse]
    refine (List.map_congr_left fun d member => ?_).trans (List.map_id _)
    exact digitValue_digitChar (digits_lt low high (by rwa [List.length_reverse]))
  rw [numeralValue, values, List.reverse_append, List.reverse_reverse, List.reverse_replicate,
    Nat.ofDigits_append_replicate_zero, Nat.ofDigits_digits]

theorem numeral_two (low : 1 < base) (small : n < base * base) :
    numeral base 2 n = [digitChar (n / base), digitChar (n % base)] := by
  by_cases zero : n = 0
  · simp [numeral, zero]
  by_cases single : n < base
  · rw [Nat.div_eq_of_lt single, Nat.mod_eq_of_lt single, numeral,
      Nat.digits_of_lt base n zero single]
    rfl
  · have leading : n / base ≠ 0 := (Nat.div_pos (Nat.not_lt.mp single) (by omega)).ne'
    have below : n / base < base := Nat.div_lt_of_lt_mul small
    rw [numeral, Nat.digits_def' low (by omega), Nat.digits_of_lt base _ leading below]
    rfl

end Numerals

section Hexadecimal

def hex (bytes : List UInt8) : List UInt8 := bytes.flatMap fun byte => numeral 16 2 byte.toNat

def unhex : List UInt8 → List UInt8
  | high :: low :: rest => .ofNat (16 * digitValue high + digitValue low) :: unhex rest
  | _ => []

theorem numeral_byte (byte : UInt8) :
    numeral 16 2 byte.toNat = [digitChar (byte.toNat / 16), digitChar (byte.toNat % 16)] :=
  numeral_two (by decide) byte.toNat_lt

@[simp] theorem length_numeral_byte (byte : UInt8) : (numeral 16 2 byte.toNat).length = 2 := by
  rw [numeral_byte]
  rfl

theorem unhex_cons (byte : UInt8) (rest : List UInt8) :
    unhex (numeral 16 2 byte.toNat ++ rest) = byte :: unhex rest := by
  have bound := byte.toNat_lt
  rw [numeral_byte, List.cons_append, List.cons_append, List.nil_append, unhex,
    digitValue_digitChar (by omega), digitValue_digitChar (by omega), Nat.div_add_mod,
    UInt8.ofNat_toNat]

theorem unhex_hex (bytes : List UInt8) : unhex (hex bytes) = bytes := by
  induction bytes with
  | nil => rfl
  | cons byte bytes ih => rw [hex, List.flatMap_cons, unhex_cons, ← hex, ih]

@[simp] theorem length_hex (bytes : List UInt8) : (hex bytes).length = 2 * bytes.length := by
  induction bytes with
  | nil => rfl
  | cons byte bytes ih =>
      rw [hex, List.flatMap_cons, ← hex, List.length_append, length_numeral_byte, ih,
        List.length_cons]
      omega

end Hexadecimal

end Libam.Text
