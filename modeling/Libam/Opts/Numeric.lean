import Libam.Opts.Model
import Mathlib.Data.List.TakeWhile

/-! Which numbers an option of type `AMOPT_UINT64` reads. -/

namespace Libam.Opts

open Libam.Strhash (CString)

def Digits (str : List UInt8) : Prop := str ≠ [] ∧ ∀ c ∈ str, isdigit c = true

theorem numericLoop_iff (str : List UInt8) (gotDigit : Bool) :
    numericLoop str gotDigit false = .success ↔ (gotDigit = true ∨ str ≠ []) ∧ ∀ c ∈ str,
    isdigit c = true := by
  induction str generalizing gotDigit with
  | nil => cases gotDigit <;> simp [numericLoop]
  | cons c str ih =>
      rw [numericLoop]
      cases digit : isdigit c with
      | false => simp [digit]
      | true => simp [digit, ih]

theorem amoptsValidateNumeric_iff (str : List UInt8) :
    amoptsValidateNumeric str false false = .success ↔ Digits str := by
  have same : amoptsValidateNumeric str false false = numericLoop str false false := by
    unfold amoptsValidateNumeric
    split <;> rfl
  rw [same, numericLoop_iff, Digits]
  simp

theorem not_isspace_of_isdigit {c : UInt8} (digit : isdigit c = true) :
    isspace c = false ∧ c ≠ 0x2D ∧ c ≠ 0x2B := by
  obtain ⟨bits⟩ := c
  revert bits
  decide +kernel

theorem sscanfLu_digits {input : List UInt8} (digits : Digits input) :
    sscanfLu input =
      some (if 2 ^ 64 ≤ decimal input then 0xFFFFFFFFFFFFFFFF else .ofNat (decimal input)) := by
  obtain ⟨nonempty, all⟩ := digits
  have whole : input.takeWhile isdigit = input := List.takeWhile_eq_self_iff.mpr all
  cases input with
  | nil => exact absurd rfl nonempty
  | cons c input =>
      obtain ⟨space, minus, plus⟩ := not_isspace_of_isdigit (all c List.mem_cons_self)
      have kept : (c :: input).dropWhile isspace = c :: input := by simp [space]
      unfold sscanfLu
      rw [kept]
      split
      rename_i negative rest here
      split at here
      · rename_i same
        exact absurd (List.cons.inj same).1 minus
      · rename_i same
        exact absurd (List.cons.inj same).1 plus
      · cases here
        rw [whole]
        simp only
        split <;> simp

/-- The parser accepts exactly the numbers of 64 bits, and stores them. -/
structure ReadsNumber (m : Memory) (dest : ℕ) (input : CString) : Prop where
  accepts : (amoptPraseUint64 m dest input).2 = .success ↔ Digits input.chars ∧
    decimal input.chars < 2 ^ 64
  stores : (amoptPraseUint64 m dest input).2 = .success →
    ∃ word, word.toNat = decimal input.chars ∧ (amoptPraseUint64 m dest input).1 = m.write dest
    (wordBytes word)

theorem amoptPraseUint64_digits (m : Memory) (dest : ℕ) {input : CString}
    (digits : Digits input.chars) :
    amoptPraseUint64 m dest input =
      (m.write dest (wordBytes (if 2 ^ 64 ≤ decimal input.chars then 0xFFFFFFFFFFFFFFFF
        else .ofNat (decimal input.chars))), .success) := by
  unfold amoptPraseUint64
  rw [(amoptsValidateNumeric_iff input.chars).mpr digits, sscanfLu_digits digits]

theorem amoptPraseUint64_refused (m : Memory) (dest : ℕ) {input : CString}
    (other : ¬ Digits input.chars) : amoptPraseUint64 m dest input = (m, .error) := by
  have refused : amoptsValidateNumeric input.chars false false = .error := by
    cases rc : amoptsValidateNumeric input.chars false false with
    | error => rfl
    | success => exact absurd ((amoptsValidateNumeric_iff input.chars).mp rc) other
  unfold amoptPraseUint64
  rw [refused]

/-- Only a number that does not fit into 64 bits is read wrongly: it is accepted. -/
theorem amopt_prase_uint64_iff (m : Memory) (dest : ℕ) (input : CString) :
    ReadsNumber m dest input ↔ ¬ (Digits input.chars ∧ 2 ^ 64 ≤ decimal input.chars) := by
  by_cases digits : Digits input.chars
  · have read := amoptPraseUint64_digits m dest digits
    by_cases large : 2 ^ 64 ≤ decimal input.chars
    · refine iff_of_false (fun reads => ?_) (not_not.mpr ⟨digits, large⟩)
      have small := (reads.accepts.mp (by rw [read])).2
      exact absurd large (Nat.not_le.mpr small)
    · have small := Nat.lt_of_not_le large
      refine iff_of_true ⟨?_, fun _ => ⟨.ofNat (decimal input.chars), ?_, ?_⟩⟩ fun both =>
        large both.2
      · exact iff_of_true (by rw [read]) ⟨digits, small⟩
      · exact UInt64.toNat_ofNat_of_lt' small
      · rw [read, if_neg large]
  · have refused := amoptPraseUint64_refused m dest digits
    refine iff_of_true ⟨?_, fun success => ?_⟩ fun both => digits both.1
    · exact iff_of_false (by simp [refused]) fun both => digits both.1
    · rw [refused] at success
      cases success

/-- The text 18446744073709551616, which is 2 ^ 64, is read as one less. -/
theorem amopt_prase_uint64_saturates : ¬ ReadsNumber ⟨fun _ => 0, fun _ => none⟩ 0
    ⟨[0x31, 0x38, 0x34, 0x34, 0x36, 0x37, 0x34, 0x34, 0x30, 0x37, 0x33, 0x37, 0x30,
      0x39, 0x35, 0x35, 0x31, 0x36, 0x31, 0x36], by decide⟩ := by
  rintro ⟨accepts, -⟩
  rw [amoptPraseUint64_digits _ _ ⟨by simp, by simp [isdigit]⟩] at accepts
  exact absurd (accepts.mp rfl).2 (by decide)

end Libam.Opts
