import Libam.Text.Numerals

/-! `amlog_hex`: a buffer as hexadecimal digits, and what the function returns. -/

namespace Libam.Log

open Libam.Text

variable {memory : ℕ → UInt8} {output : ℕ} {outputLength : ℤ} {buf : List UInt8}

section Model

/-- The loop, with the bytes from `p` on: the place it ends at in the buffer and in the output, and
the memory. -/
def hexLoop (memory : ℕ → UInt8) (p output : ℕ) (outputLength : ℤ) : List UInt8 →
    ℕ × ℕ × (ℕ → UInt8)
  | [] => (p, output, memory)
  | byte :: rest =>
      if outputLength > 2 then
        hexLoop (snprintf memory output 3 (numeral 16 2 byte.toNat)).1 (p + 1) (output + 2)
          (outputLength - 2) rest
      else (p, output, memory)

/-- `amlog_hex(buf, length, output, output_length)`: the result and the memory, in which `output` is
the address of the output. -/
def amlogHex (buf : List UInt8) (memory : ℕ → UInt8) (output : ℕ) (outputLength : ℤ) :
    ℤ × (ℕ → UInt8) :=
  let (p, output, memory) := hexLoop memory 0 output outputLength buf
  (p, poke memory output [0])

end Model

section Loop

def converted (length : ℕ) (outputLength : ℤ) : ℕ := min length ((outputLength.toNat - 1) / 2)

theorem converted_le (length : ℕ) (outputLength : ℤ) : converted length outputLength ≤ length :=
  Nat.min_le_left _ _

theorem converted_room (full : outputLength ≤ 2) (length : ℕ) :
    converted length outputLength = 0 := by
  rw [converted]
  omega

theorem converted_succ (room : outputLength > 2) (length : ℕ) :
    converted (length + 1) outputLength = converted length (outputLength - 2) + 1 := by
  simp only [converted]
  omega

theorem hexLoop_spec (memory : ℕ → UInt8) (p output : ℕ) (outputLength : ℤ) (buf : List UInt8) :
    let result := hexLoop memory p output outputLength buf
    let k := converted buf.length outputLength
    result.1 = p + k ∧ result.2.1 = output + 2 * k ∧
      poke result.2.2 result.2.1 [0] = poke memory output (hex (buf.take k) ++ [0]) := by
  induction buf generalizing memory p output outputLength with
  | nil => simp [hexLoop, converted, hex]
  | cons byte rest ih =>
      by_cases room : outputLength > 2
      · obtain ⟨place, reached, written⟩ :=
            ih (snprintf memory output 3 (numeral 16 2 byte.toNat)).1
          (p + 1) (output + 2) (outputLength - 2)
        simp only [hexLoop, if_pos room, List.length_cons, converted_succ room, List.take_succ_cons]
        refine ⟨by omega, by omega, ?_⟩
        rw [written, snprintf_fits (by simp)]
        have whole := @poke_over memory output (numeral 16 2 byte.toNat) [0]
          (hex (rest.take (converted rest.length (outputLength - 2))) ++ [0]) (by simp)
        rw [length_numeral_byte] at whole
        rw [whole, ← List.append_assoc]
        rfl
      · have none := converted_room (Int.not_lt.mp room) (rest.length + 1)
        simp [hexLoop, room, none, hex]

end Loop

section Specification

/-- The digits of as many bytes as there is room for, and a zero, within the output. -/
structure Written (buf : List UInt8) (memory : ℕ → UInt8) (output : ℕ) (outputLength : ℤ)
    (memory' : ℕ → UInt8) : Prop where
  text : read memory' output (2 * converted buf.length outputLength) =
    hex (buf.take (converted buf.length outputLength))
  terminated : memory' (output + 2 * converted buf.length outputLength) = 0
  within : Within output outputLength.toNat memory memory'
  decoded : unhex (read memory' output (2 * converted buf.length outputLength)) =
    buf.take (converted buf.length outputLength)

/-- What the header says of a call: the result is the length of the text. -/
structure Documented (buf : List UInt8) (memory : ℕ → UInt8) (output : ℕ) (outputLength : ℤ)
    (result : ℤ × (ℕ → UInt8)) : Prop where
  written : Written buf memory output outputLength result.2
  returned : result.1 = 2 * converted buf.length outputLength

theorem amlogHex_returned :
    (amlogHex buf memory output outputLength).1 = converted buf.length outputLength := by
  obtain ⟨place, -, -⟩ := hexLoop_spec memory 0 output outputLength buf
  simpa [amlogHex] using place

theorem amlogHex_memory : (amlogHex buf memory output outputLength).2 =
    poke memory output (hex (buf.take (converted buf.length outputLength)) ++ [0]) :=
  (hexLoop_spec memory 0 output outputLength buf).2.2

theorem amlogHex_written (room : 1 ≤ outputLength) :
    Written buf memory output outputLength (amlogHex buf memory output outputLength).2 := by
  have length : (hex (buf.take (converted buf.length outputLength))).length =
      2 * converted buf.length outputLength := by
    rw [length_hex, List.length_take, Nat.min_eq_left (converted_le _ _)]
  have text : read (amlogHex buf memory output outputLength).2 output
      (2 * converted buf.length outputLength) =
      hex (buf.take (converted buf.length outputLength)) := by
    rw [amlogHex_memory, ← length, read_poke_append]
  refine ⟨text, ?_, ?_, ?_⟩
  · rw [amlogHex_memory, ← length, poke_at (by simp)]
    simp
  · rw [amlogHex_memory]
    apply poke_within.mono (Nat.le_refl _)
    rw [List.length_append, length, converted, List.length_singleton]
    omega
  · rw [text, unhex_hex]

/-- The result is the number of bytes converted, half of the length of the text. -/
theorem amlogHex_documented (room : 1 ≤ outputLength) :
    Documented buf memory output outputLength (amlogHex buf memory output outputLength) ↔
      buf = [] ∨ outputLength ≤ 2 := by
  have half : Documented buf memory output outputLength (amlogHex buf memory output outputLength) ↔
      converted buf.length outputLength = 0 := by
    constructor
    · rintro ⟨-, returned⟩
      rw [amlogHex_returned] at returned
      omega
    · intro none
      refine ⟨amlogHex_written room, ?_⟩
      rw [amlogHex_returned]
      omega
  rw [half, ← List.length_eq_zero_iff, converted]
  omega

theorem amlogHex_documented_short :
    Documented [0xAB] (fun _ => 0) 0 2 (amlogHex [0xAB] (fun _ => 0) 0 2) :=
  (amlogHex_documented (by decide)).mpr (.inr (by decide))

/-- One byte in three places: the text `ab` has length 2, the result is 1. -/
theorem amlogHex_halves : read (amlogHex [0xAB] (fun _ => 0) 0 3).2 0 3 = [0x61, 0x62, 0] ∧
    (amlogHex [0xAB] (fun _ => 0) 0 3).1 = 1 ∧
    ¬ Documented [0xAB] (fun _ => 0) 0 3 (amlogHex [0xAB] (fun _ => 0) 0 3) := by
  refine ⟨?_, ?_, fun documented => ?_⟩
  · rw [amlogHex_memory]
    rfl
  · rw [amlogHex_returned]
    rfl
  · have returned := documented.returned
    rw [amlogHex_returned] at returned
    exact absurd returned (by decide)

end Specification

end Libam.Log
