import Libam.Fdopers.FirstFit

/-! Whole files: what `amfile_write` puts into a file is what `amfile_read` gives of it. -/

namespace Libam.Fdopers

open Libam.Syscalls Libam.Text
open Program (alone Event meets_alone)

section Writing

variable {k k' : Kernel} {events : List (Event Answer)} {filename bytes content : List UInt8}
  {fd ret : ℤ}

/-- `amfd_write` reports success where the system has taken all bytes; but from 2 GiB on it
reports failure in any case, with the exception of the length 2^32 - 1, where it takes a
failure for success. -/
theorem amfdWrite_success (fd : ℤ) (memory : ℕ → UInt8) (buf : ℕ) (len : UInt32) (k : Kernel) :
    (amfdWrite fd memory buf len).Meets (alone Kernel.serve) (fun rc after => ∃ ret : ℤ,
      after.2 = [⟨.write fd (read memory buf len.toNat), ret⟩] ∧
        (rc = .success ↔ len.toNat < 2 ^ 31 ∧ ret = len.toNat ∨ len.toNat = 2 ^ 32 - 1 ∧ ret = -1))
        (k, []) := by
  refine meets_alone fun (ret : ℤ) k' served => ⟨ret, rfl, ?_⟩
  have least : -1 ≤ ret := by
    simp only [Kernel.serve, Kernel.write] at served
    split_ifs at served <;> omega
  have bound := len.toNat_lt
  have word : len.toNat % 2 ^ 32 = len.toNat := Nat.mod_eq_of_lt bound
  have reported : (if ret = asInt32 len then Amrc.success else .error) = .success ↔
      ret = asInt32 len := by
    split <;> simp [*]
  refine reported.trans ?_
  simp only [asInt32, asInt, word]
  split <;> omega

theorem overwrite_nil (bytes : List UInt8) : overwrite [] 0 bytes = bytes := by simp [overwrite]

def Kernel.withFile (k : Kernel) (filename content : List UInt8) : Kernel :=
  { k with files := Function.update k.files filename (some content) }

def writeFlags : UInt32 := O_WRONLY ||| O_TRUNC ||| O_CREAT

/-- What `amfile_write` leaves: the file as it was, where it does not open, or the bytes that the
system has taken, and only these. -/
inductive Wrote (filename bytes : List UInt8) (k : Kernel) : Kernel × List (Event Answer) → Prop
  | refused : Wrote filename bytes k (k, [⟨.openFile filename writeFlags, (-1 : ℤ)⟩])
  | wrote {fd ret rc : ℤ} : -1 ≤ ret → ret ≤ bytes.length →
      Wrote filename bytes k (k.withFile filename (bytes.take ret.toNat),
        [⟨.openFile filename writeFlags, fd⟩, ⟨.write fd bytes, ret⟩, ⟨.close fd, rc⟩])

theorem openFile_cases (opens : k.openFile filename writeFlags ret = some k') :
    ret = -1 ∧ k' = k ∨
      0 ≤ ret ∧ k.look ret = none ∧ k' = (k.withFile filename []).put ret
      (some (.file filename 0)) := by
  have create : writeFlags &&& O_CREAT ≠ 0 := by decide
  have trunc : writeFlags &&& O_TRUNC ≠ 0 := by decide
  rw [Kernel.openFile] at opens
  split at opens
  · split_ifs at opens with failed
    · exact .inl ⟨failed, (Option.some.inj opens).symm⟩
    · exact .inr ((opens_cases opens).resolve_left fun refused => failed refused.1)
  · split_ifs at opens with failed
    · exact .inl ⟨failed, (Option.some.inj opens).symm⟩
    · exact .inr ((opens_cases opens).resolve_left fun refused => failed refused.1)

theorem write_cases (nonneg : 0 ≤ fd)
    (writes : ((k.withFile filename []).put fd (some (.file filename 0))).write fd bytes
      ret = some k') :
    -1 ≤ ret ∧ ret ≤ bytes.length ∧ ∃ position,
      k' = (k.withFile filename (bytes.take ret.toNat)).put fd
      (some (.file filename position)) := by
  rw [Kernel.write] at writes
  split_ifs at writes with failed taken
  · subst failed
    exact ⟨by omega, by omega, 0, (Option.some.inj writes).symm⟩
  · rw [look_put nonneg, if_pos rfl] at writes
    have there : ((k.withFile filename []).put fd (some (.file filename 0))).files
        filename = some [] := by
      simp [Kernel.withFile]
    simp only [there, Option.map_some, overwrite_nil] at writes
    refine ⟨by omega, taken.2, 0 + ret.toNat, ?_⟩
    rw [← Option.some.inj writes]
    simp [Kernel.put, Kernel.withFile]

theorem amfileWrite_wrote (filename : List UInt8) (memory : ℕ → UInt8) (data : ℕ) (length : UInt32)
    (k : Kernel) :
    (amfileWrite filename memory data length).Meets (alone Kernel.serve)
      (fun _ after => Wrote filename (read memory data length.toNat) k after) (k, []) := by
  refine meets_alone fun (fd : ℤ) k₁ opened => ?_
  obtain ⟨rfl, rfl⟩ | ⟨nonneg, free, rfl⟩ := openFile_cases opened
  · exact .refused
  rw [if_neg (by omega)]
  refine Program.meets_bind.mpr (meets_alone fun (ret : ℤ) k₂ written => ?_)
  refine meets_alone fun (rc : ℤ) k₃ closed => ?_
  obtain ⟨least, most, position, rfl⟩ := write_cases nonneg written
  have same : k₃ = _ := close_cases nonneg (show (k.withFile _ _).look fd = none from free) closed
  rw [same]
  exact .wrote least most

end Writing

section Reading

variable {k k' : Kernel} {events : List (Event Answer)} {filename content : List UInt8} {fd : ℤ}
  {position : ℕ}

/-- `amfd_read` of a file: all bytes that it was asked for, or an error; of the system it has moved
a position. -/
theorem amfdReadCalls_file (nonneg : 0 ≤ fd) (there : k.files filename = some content)
    (memory : ℕ → UInt8) (b : ℕ) (len : UInt32) (position : ℕ) (events : List (Event Answer)) :
    (amfdReadCalls fd memory b len).Meets (alone Kernel.serve) (fun result after =>
      (∃ position', after.1 = k.put fd (some (.file filename position'))) ∧
        (result.1 = .success → len.toNat ≤ content.length - position ∧
          result.2 = poke memory b ((content.drop position).take len.toNat)))
      (k.put fd (some (.file filename position)), events) := by
  fun_induction amfdReadCalls fd memory b len generalizing position events with
  | case1 memory b len more ih =>
      refine meets_alone fun answer k' served => ?_
      cases answer with
      | none =>
          cases served
          refine ⟨⟨position, rfl⟩, fun success => ?_⟩
          cases success
      | some answer =>
          obtain ⟨bytes, fits⟩ := answer
          simp only [Kernel.serve, Option.map_some, Kernel.read, look_put nonneg, if_true,
            put_files, there, Option.bind_some] at served
          split_ifs at served with given
          cases served
          rw [put_put]
          simp only
          split_ifs with negative zero
          · refine ⟨⟨_, rfl⟩, fun success => ?_⟩
            cases success
          · refine ⟨⟨_, rfl⟩, fun success => ?_⟩
            cases success
          · obtain ⟨same, some_read, left⟩ := asInt_of_pos fits negative zero
            refine (ih bytes fits negative zero (position + bytes.length) _).imp
              fun result after read => ?_
            obtain ⟨moved, whole⟩ := read
            refine ⟨moved, fun success => ?_⟩
            obtain ⟨enough, rest⟩ := whole success
            have inside : bytes.length ≤ content.length - position := by
              have length := congrArg List.length given.1
              rw [List.length_take, List.length_drop] at length
              omega
            have split : (content.drop position).take len.toNat =
                bytes ++ (content.drop (position + bytes.length)).take
                (len.toNat - bytes.length) := by
              calc
                _ = (content.drop position).take (bytes.length + (len.toNat - bytes.length)) := by
                  rw [Nat.add_sub_cancel' fits]
                _ = (content.drop position).take bytes.length ++
                      ((content.drop position).drop bytes.length).take
                      (len.toNat - bytes.length) := List.take_add
                _ = _ := by rw [← given.1, List.drop_drop]
            rw [left] at enough rest
            refine ⟨by omega, ?_⟩
            rw [rest, same, Int.toNat_natCast, poke_poke, split]
  | case2 memory b len done =>
      have none : len.toNat = 0 := Nat.eq_zero_of_not_pos fun some_left =>
        done (positive_iff.mpr some_left)
      refine ⟨⟨position, rfl⟩, fun _ => ?_⟩
      rw [none, List.take_zero, poke_nil]
      exact ⟨Nat.zero_le _, rfl⟩

theorem openFile_rdonly (there : k.files filename = some content) {ret : ℤ}
    (opens : k.openFile filename O_RDONLY ret = some k') :
    ret = -1 ∧ k' = k ∨ 0 ≤ ret ∧ k.look ret = none ∧ k' = k.put ret (some (.file filename 0)) := by
  have plain : ¬ O_RDONLY &&& O_TRUNC ≠ 0 := by decide
  simp only [Kernel.openFile, there, if_neg plain] at opens
  split_ifs at opens with failed
  · exact .inl ⟨failed, (Option.some.inj opens).symm⟩
  · exact opens_cases opens

/-- `lseek` in a file: it fails, or it tells the place that it was asked for. -/
theorem lseek_cases (nonneg : 0 ≤ fd) (there : k.files filename = some content) {whence : Whence}
    {ret : ℤ}
    (seeks : (k.put fd (some (.file filename position))).serve (.lseek fd whence) ret = some k') :
    (ret = -1 ∨ ret = if whence = .SEEK_SET then 0 else (content.length : ℤ)) ∧
      ∃ position', k' = k.put fd (some (.file filename position')) := by
  rw [Kernel.serve, Kernel.lseek] at seeks
  split_ifs at seeks with failed
  · exact ⟨.inl failed, position, (Option.some.inj seeks).symm⟩
  · simp only [look_put nonneg, if_true, put_files, there, Option.bind_some] at seeks
    split_ifs at seeks with told
    rw [← Option.some.inj seeks, put_put]
    cases whence <;> exact ⟨.inr told, _, rfl⟩

theorem amfileReadCalls_complete (filename : List UInt8) (there : k.files filename = some content)
    (small : content.length < 2 ^ 32) (events : List (Event Answer)) :
    (amfileReadCalls filename).Meets (alone Kernel.serve)
      (fun result after => after.1.files = k.files ∧
      ∀ block buf length, result = some (block, buf, length) →
        length.toNat = content.length ∧ read buf 0 content.length = content) (k, events) := by
  have nothing {k' : Kernel} (same : k'.files = k.files) : k'.files = k.files ∧
      ∀ block buf (length : UInt32),
      (none : Option (ℕ × (ℕ → UInt8) × UInt32)) = some (block, buf, length) →
        length.toNat = content.length ∧ read buf 0 content.length = content := by
    refine ⟨same, fun block buf length returned => ?_⟩
    cases returned
  refine meets_alone fun (fd : ℤ) k₁ opened => ?_
  obtain ⟨rfl, rfl⟩ | ⟨nonneg, free, rfl⟩ := openFile_rdonly there opened
  · exact nothing rfl
  rw [if_neg (by omega)]
  refine meets_alone fun (fileSize : ℤ) k₂ seen => ?_
  obtain ⟨size, position, rfl⟩ := lseek_cases nonneg there seen
  split
  · exact nothing rfl
  next told =>
  have size : fileSize = content.length := size.resolve_left told
  refine meets_alone fun _ k₃ rewound => ?_
  obtain ⟨-, position, rfl⟩ := lseek_cases nonneg there rewound
  refine meets_alone fun buf k₄ allocated => ?_
  cases buf with
  | none =>
      cases allocated
      exact nothing rfl
  | some buf =>
      obtain ⟨block, buf⟩ := buf
      simp only [Kernel.serve, Kernel.gives] at allocated
      split_ifs at allocated
      cases allocated
      let held : Kernel := { k with blocks := Function.update k.blocks block true }
      refine (amfdReadCalls_file (k := held) nonneg there buf 0 (.ofInt fileSize) position _).bind
        ?_
      intro result after got
      obtain ⟨rc, buf⟩ := result
      obtain ⟨k₅, events⟩ := after
      obtain ⟨⟨position', rfl⟩, whole⟩ := got
      refine meets_alone fun _ k₆ closed => ?_
      obtain rfl : k₆ = held := close_cases nonneg free closed
      split
      · refine meets_alone fun _ k₇ freed => ?_
        cases freed
        exact nothing rfl
      · next good =>
          have success : rc = .success := by
            cases rc with
            | success => rfl
            | error => exact absurd rfl good
          refine ⟨rfl, fun block' buf' length returned => ?_⟩
          cases returned
          obtain ⟨enough, (filled : buf = _)⟩ := whole success
          have length : (UInt32.ofInt fileSize).toNat = content.length := by
            rw [size]
            exact toNat_ofInt small
          rw [length] at enough filled
          refine ⟨length, ?_⟩
          -- a file that has bytes is read from its start, as there are none to read after its end
          have start : (content.drop position).take content.length = content := by
            rcases Nat.eq_zero_or_pos content.length with empty | some_bytes
            · rw [List.length_eq_zero_iff.mp empty]
              rfl
            · obtain rfl : position = 0 := by omega
              rw [List.drop_zero, List.take_length]
          rw [filled, start, read_poke]

/-- A file that is written and read back. Where it has been opened, whatever else has failed: what
is read are all the bytes that the system has taken of what was to be written, in a buffer with
their number. -/
theorem amfile_round_trip (filename : List UInt8) (memory : ℕ → UInt8) (data : ℕ) (length : UInt32)
    (k : Kernel) :
    (amfileWrite filename memory data length >>= fun _ => amfileReadCalls filename).Meets
      (alone Kernel.serve)
      (fun result after => ∀ block buf size, result = some (block, buf, size) →
        (∃ events, after.2 = ⟨.openFile filename writeFlags, (-1 : ℤ)⟩ :: events) ∨
        ∃ (fd ret rc : ℤ) (events : List (Event Answer)),
            after.2 = ⟨.openFile filename writeFlags, fd⟩ ::
            ⟨.write fd (read memory data length.toNat), ret⟩ :: ⟨.close fd, rc⟩ :: events ∧
          after.1.files filename = some (read memory data ret.toNat) ∧
          size.toNat = ret.toNat ∧ read buf 0 ret.toNat = read memory data ret.toNat) (k, []) := by
  refine (amfileWrite_wrote filename memory data length k).bind fun _ after wrote => ?_
  cases wrote with
  | refused =>
      refine (Program.grows _ k _).imp fun result after grown block buf size _ => ?_
      obtain ⟨more, longer⟩ := grown
      exact .inl ⟨more, longer⟩
  | @wrote fd ret rc least most =>
      have taken : (read memory data length.toNat).take ret.toNat = read memory data ret.toNat := by
        rw [length_read] at most
        have split := @read_add memory data ret.toNat (length.toNat - ret.toNat)
        rw [Nat.add_sub_cancel' (by omega)] at split
        rw [split, List.take_left' (length_read ..)]
      have there : (k.withFile filename ((read memory data length.toNat).take ret.toNat)).files
          filename =
          some (read memory data ret.toNat) := by
        rw [taken]
        exact Function.update_self ..
      have bound := length.toNat_lt
      have small : (read memory data ret.toNat).length < 2 ^ 32 := by
        rw [length_read] at most ⊢
        omega
      refine ((amfileReadCalls_complete filename there small _).and (Program.grows _ _ _)).imp ?_
      intro result after got block buf size returned
      obtain ⟨⟨files, complete⟩, more, longer⟩ := got
      obtain ⟨sized, whole⟩ := complete block buf size returned
      rw [length_read] at sized whole
      exact .inr ⟨fd, ret, rc, more, longer, by rw [files, there], sized, whole⟩

end Reading

end Libam.Fdopers
