import Libam.Fdopers.Streams
import Libam.Types

/-! `amfile_read`: a whole file in one buffer, read by `amfd_read` piece by piece. -/

namespace Libam.Fdopers

open Libam.Text

variable {content : List UInt8}

section Model

/-- What a call meets: whether `open` and the two `lseek` succeed, the memory that `malloc` gives,
and for each `read` whether it fails or how many bytes after the first it would give. -/
structure FileEnv where
  opens : Bool
  seeksEnd : Bool
  seeksSet : Bool
  malloc : Option (ℕ → UInt8)
  reads : ℕ → Option ℕ

/-- The bytes of a `read` that does not fail: one at least, unless the file ends there, and no more
than are asked for. -/
def readCount (content : List UInt8) (position wish : ℕ) (len : UInt32) : ℕ :=
  min (wish + 1) (min len.toNat (content.length - position))

theorem readCount_le (content : List UInt8) (position wish : ℕ) (len : UInt32) :
    readCount content position wish len ≤ len.toNat ∧
      readCount content position wish len ≤ content.length - position := by
  rw [readCount]
  omega

theorem asInt_of_pos {count : ℕ} {len : UInt32} (fits : count ≤ len.toNat)
    (negative : ¬ asInt count < 0) (zero : asInt count ≠ 0) : asInt count = count ∧ 0 < count ∧
      (len - UInt32.ofInt (asInt count)).toNat = len.toNat - count := by
  have bound := len.toNat_lt
  have word : count % 2 ^ 32 = count := Nat.mod_eq_of_lt (by omega)
  simp only [asInt, word] at negative zero
  split at negative
  · next small =>
      rw [if_pos small] at zero
      have same := asInt_of_lt small
      refine ⟨same, by omega, ?_⟩
      rw [same, UInt32.toNat_sub_of_le, toNat_ofInt (by omega)]
      rw [UInt32.le_iff_toNat_le, toNat_ofInt (by omega)]
      exact fits
  · omega

def amfdRead (content : List UInt8) (reads : ℕ → Option ℕ) (n position : ℕ) (memory : ℕ → UInt8)
    (b : ℕ) (len : UInt32) : Amrc × (ℕ → UInt8) :=
  if len > 0 then
    match reads n with
    | none => (.error, memory)
    | some wish =>
        let count := readCount content position wish len
        let memory := poke memory b ((content.drop position).take count)
        let ret := asInt count
        if ret < 0 then (.error, memory)
        else if ret = 0 then (.error, memory)
        else amfdRead content reads (n + 1) (position + count) memory (b + ret.toNat)
          (len - UInt32.ofInt ret)
  else (.success, memory)
termination_by len.toNat
decreasing_by
  next negative zero =>
    have fits := (readCount_le content position wish len).1
    obtain ⟨-, some_read, left⟩ := asInt_of_pos fits negative zero
    rw [left]
    exact Nat.sub_lt (Nat.lt_of_lt_of_le some_read fits) some_read

/-- `amfile_read` of a file with this content: NULL, or the buffer and `*length`. The size becomes a
`uint32_t` in both places; the result of the second `lseek` is not looked at. -/
def amfileRead (content : List UInt8) (env : FileEnv) : Option ((ℕ → UInt8) × UInt32) :=
  if env.opens = false then none
  else if env.seeksEnd = false then none
  else
    let fileSize := content.length
    let position := if env.seeksSet then 0 else fileSize
    match env.malloc with
    | none => none
    | some buf =>
        match amfdRead content env.reads 0 position buf 0 (.ofNat fileSize) with
        | (.error, _) => none
        | (.success, buf) => some (buf, .ofNat fileSize)

end Model

section Reading

variable {reads : ℕ → Option ℕ} {memory : ℕ → UInt8}

/-- Where `amfd_read` succeeds it has read all that it was asked for, and the file has it. -/
theorem amfdRead_success (n position b : ℕ) (len : UInt32) {memory' : ℕ → UInt8}
    (success : amfdRead content reads n position memory b len = (.success, memory')) :
    len.toNat ≤ content.length - position ∧
      memory' = poke memory b ((content.drop position).take len.toNat) := by
  fun_induction amfdRead content reads n position memory b len with
  | case1 => cases success
  | case2 => cases success
  | case3 => cases success
  | case4 n position memory b len more wish here count memory₁ ret negative zero ih =>
      obtain ⟨fits, there⟩ := readCount_le content position wish len
      obtain ⟨same, some_read, left⟩ := asInt_of_pos fits negative zero
      obtain ⟨enough, rest⟩ := ih success
      rw [left] at enough rest
      have length : ((content.drop position).take count).length = count := by
        rw [List.length_take, List.length_drop]
        exact Nat.min_eq_left there
      refine ⟨by omega, ?_⟩
      have place : b + ret.toNat = b + ((content.drop position).take count).length := by
        rw [length, show ret = count from same, Int.toNat_natCast]
      have split : (content.drop position).take len.toNat =
          (content.drop position).take count ++ (content.drop (position + count)).take
          (len.toNat - count) := by
        rw [← List.drop_drop, ← List.take_add, Nat.add_sub_cancel' fits]
      rw [rest, place, poke_poke, split]
  | case5 n position memory b len done =>
      cases success
      have zero : len.toNat = 0 := Nat.eq_zero_of_not_pos fun some_left =>
        done (positive_iff.mpr some_left)
      rw [zero, List.take_zero, poke_nil]
      exact ⟨Nat.zero_le _, rfl⟩

theorem amfdRead_total (never : ∀ n, ∃ wish, reads n = some wish ∧ wish + 1 < 2 ^ 31)
    (n position b : ℕ) (len : UInt32) (enough : len.toNat ≤ content.length - position) :
    (amfdRead content reads n position memory b len).1 = .success := by
  have count_small {n wish : ℕ} {position : ℕ} {len : UInt32} (here : reads n = some wish) :
      asInt (readCount content position wish len) = readCount content position wish len := by
    obtain ⟨wish', there, small⟩ := never n
    have same : wish = wish' := Option.some.inj (here.symm.trans there)
    apply asInt_of_lt
    rw [readCount]
    omega
  fun_induction amfdRead content reads n position memory b len with
  | case1 n position memory b len more failed =>
      obtain ⟨wish, there, -⟩ := never n
      rw [failed] at there
      cases there
  | case2 n position memory b len more wish here count memory₁ ret negative =>
      have same : ret = count := count_small here
      omega
  | case3 n position memory b len more wish here count memory₁ ret negative zero =>
      have same : ret = count := count_small here
      have some_left := positive_iff.mp more
      have some_read : 0 < count := by
        simp only [count, readCount]
        omega
      omega
  | case4 n position memory b len more wish here count memory₁ ret negative zero ih =>
      obtain ⟨fits, there⟩ := readCount_le content position wish len
      obtain ⟨-, -, left⟩ := asInt_of_pos fits negative zero
      exact ih (by rw [left]; omega)
  | case5 => rfl

end Reading

section Files

def Complete (content : List UInt8) (result : Option ((ℕ → UInt8) × UInt32)) : Prop :=
  ∀ buf length, result = some (buf, length) → length.toNat = content.length ∧
    read buf 0 content.length = content

def smooth : FileEnv := ⟨true, true, true, some fun _ => 0, fun _ => some 0⟩

theorem toNat_size (content : List UInt8) :
    (UInt32.ofNat content.length).toNat = content.length % 2 ^ 32 :=
  UInt32.toNat_ofNat'

theorem amfileRead_smooth (content : List UInt8) :
    ∃ buf, amfileRead content smooth = some (buf, .ofNat content.length) := by
  have enough : (UInt32.ofNat content.length).toNat ≤ content.length - 0 := by
    rw [toNat_size]
    exact Nat.mod_le _ _
  have success := @amfdRead_total content smooth.reads (fun _ => 0)
    (fun n => ⟨0, rfl, by decide⟩) 0 0 0 (.ofNat content.length) enough
  obtain ⟨rc, buf, ran⟩ : ∃ rc buf, amfdRead content smooth.reads 0 0 (fun _ => 0) 0
    (.ofNat content.length) = (rc, buf) := ⟨_, _, rfl⟩
  rw [ran] at success
  obtain rfl : rc = .success := success
  refine ⟨buf, ?_⟩
  simp only [amfileRead, smooth] at ran ⊢
  simp [ran]

theorem amfileRead_some {env : FileEnv} {buf : ℕ → UInt8} {length : UInt32}
    (returned : amfileRead content env = some (buf, length)) :
    length = .ofNat content.length ∧ ∃ block position,
      amfdRead content env.reads 0 position block 0 (.ofNat content.length) = (.success, buf) := by
  simp only [amfileRead] at returned
  generalize (if env.seeksSet then 0 else content.length) = position at returned
  split_ifs at returned
  split at returned
  · cases returned
  · next block _ =>
      split at returned
      · cases returned
      · next ran =>
          cases returned
          exact ⟨rfl, block, position, ran⟩

/-- From 4 GiB on a file comes back as the bytes that the size modulo 2^32 counts. -/
theorem amfileRead_complete_iff (content : List UInt8) :
    (∀ env, Complete content (amfileRead content env)) ↔ content.length < 2 ^ 32 := by
  constructor
  · intro complete
    obtain ⟨buf, ran⟩ := amfileRead_smooth content
    obtain ⟨whole, -⟩ := complete smooth buf _ ran
    rw [toNat_size] at whole
    omega
  · intro small env buf length returned
    obtain ⟨rfl, block, position, ran⟩ := amfileRead_some returned
    obtain ⟨there, filled⟩ := amfdRead_success 0 position 0 _ ran
    have size : (UInt32.ofNat content.length).toNat = content.length := by
      rw [toNat_size, Nat.mod_eq_of_lt small]
    rw [size] at there filled
    refine ⟨size, ?_⟩
    -- a file that has bytes is read from its start, as there are none to read after its end
    have start : (content.drop position).take content.length = content := by
      rcases Nat.eq_zero_or_pos content.length with empty | some_bytes
      · rw [List.length_eq_zero_iff.mp empty]
        rfl
      · obtain rfl : position = 0 := by omega
        rw [List.drop_zero, List.take_length]
    rw [filled, start, read_poke]

/-- A file of 4 GiB and 5 bytes: a buffer with a length of 5. -/
theorem amfileRead_truncates : ∃ buf,
    amfileRead (List.replicate (2 ^ 32 + 5) 0x61) smooth = some (buf, 5) ∧
    ¬ Complete (List.replicate (2 ^ 32 + 5) 0x61)
    (amfileRead (List.replicate (2 ^ 32 + 5) 0x61) smooth) := by
  obtain ⟨buf, ran⟩ := amfileRead_smooth (List.replicate (2 ^ 32 + 5) 0x61)
  rw [List.length_replicate] at ran
  refine ⟨buf, ran, fun complete => ?_⟩
  obtain ⟨whole, -⟩ := complete buf _ ran
  rw [List.length_replicate] at whole
  exact absurd whole (by decide)

end Files

end Libam.Fdopers
