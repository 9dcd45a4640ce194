import Libam.Strhash.AnyKey
import Libam.Arrays

/-! The memory of the buckets of a hash table, and the places that its calls compute. -/

namespace Libam.Strhash

open Libam.Arrays Libam.Interleaving

variable {V : Type} {hash start : Amstrhash V} {entries : List Pointer}

def Contains (capacity : UInt64) (slots : ℕ) : Prop :=
  Holds 0 24 (bucketBytes capacity).toNat slots

def Exact (capacity : ℕ) : Prop := capacity * 24 < wordSize

instance (capacity : ℕ) : Decidable (Exact capacity) :=
  inferInstanceAs (Decidable (capacity * 24 < wordSize))

theorem contains_iff (capacity : UInt64) :
    Contains capacity capacity.toNat ↔ Exact capacity.toNat := by
  have size : (bucketBytes capacity).toNat = (0 + 24 * capacity.toNat) % wordSize := by
    rw [bucketBytes, UInt64.toNat_mul, Nat.zero_add, Nat.mul_comm]
    rfl
  rw [Contains, size, Exact, Nat.mul_comm capacity.toNat]
  simpa only [Nat.zero_add] using holds_wrapped_iff (show 0 < wordSize by decide) 0 24
    capacity.toNat

/-- The memory is large enough for the buckets, and so is the place of every hash. -/
structure Covered (hash : Amstrhash V) : Prop where
  modulus : hash.capacity ≠ 0
  memory : Contains hash.capacity hash.capacity.toNat
  buckets : ∀ hashValue, ∃ bucket, amstrhashBucket hash hashValue = .ok bucket ∧
    Contains hash.capacity (bucket + 1)

theorem Filed.covered (filed : Filed hash entries) (exact : Exact hash.capacity.toNat) :
    Covered hash := by
  have memory := (contains_iff hash.capacity).mpr exact
  refine ⟨filed.capacity, memory, fun hv => ⟨place hash hv, filed.bucket hv, memory.mono ?_⟩⟩
  rw [← filed.slots]
  exact filed.place_lt hv

theorem Held.covered (held : Held hash) : Covered hash := by
  obtain ⟨entries, filed, -⟩ := held.laid.held
  exact filed.covered held.laid.sized

/-- The memory is large enough for the table that `amstrhash_init` returns, whatever
is done with it. -/
def InitCovers (capacity : UInt64) (flags : StrhashFlags) (attr : Option AmstrhashAttr)
    (handle lockReady array : Bool) (strings : Pointer → Option CString) (V : Type) : Prop :=
  match (amstrhashInit capacity flags attr handle lockReady array strings : Except Fault
    (Option (Amstrhash V))) with
  | .ok none => True
  | .ok (some start) => ∀ calls hash, Run stepAny ReadyAny start calls hash → Covered hash
  | .error _ => False

theorem initCovers_iff (capacity : UInt64) (flags : StrhashFlags) (attr : Option AmstrhashAttr)
    (handle lockReady array : Bool) (strings : Pointer → Option CString) :
    InitCovers capacity flags attr handle lockReady array strings V ↔
      ((handle && lockReady && array) = true → Exact capacity.toNat) := by
  obtain ⟨size, isSize⟩ : ∃ size, size = if capacity < 8 then 8 else capacity := ⟨_, rfl⟩
  have same : Exact size.toNat ↔ Exact capacity.toNat := by
    rw [isSize]
    split
    · next small =>
        have few : capacity.toNat < 8 := UInt64.lt_iff_toNat_lt.mp small
        exact iff_of_true (show 8 * 24 < 2 ^ 64 by decide)
          (show capacity.toNat * 24 < 2 ^ 64 by omega)
    · rfl
  have made := init_eq (V := V) isSize flags attr handle lockReady array strings
  rw [← same]
  by_cases allocated : (handle && lockReady && array) = true
  · rw [if_pos allocated] at made
    by_cases exact : Exact size.toNat
    · rw [if_pos (room_iff.mpr exact)] at made
      simp only [InitCovers, made]
      exact iff_of_true (fun calls hash run => (run_held made run).covered) fun _ => exact
    · rw [if_neg (mt room_iff.mp exact)] at made
      simp only [InitCovers, made]
      exact iff_of_false id fun fits => exact (fits allocated)
  · rw [if_neg allocated] at made
    simp only [InitCovers, made]
    exact iff_of_true trivial fun ready => absurd ready allocated

/-- The memory is large enough for the table after `amstrhash_upsize`, if that succeeds. -/
def UpsizeCovers (hash : Amstrhash V) (array : Bool) : Prop :=
  match amstrhashUpsize hash array with
  | .ok (_, .error) => True
  | .ok (bigger, .success) => Covered bigger
  | .error _ => False

theorem upsizeCovers_iff (held : Held hash) (array : Bool) :
    UpsizeCovers hash array ↔ (array = true → Exact (hash.capacity.toNat * 2)) := by
  obtain ⟨entries, filed, kept⟩ := held.laid.held
  have sized := held.laid.sized
  cases array with
  | false => simp [UpsizeCovers, amstrhashUpsize]
  | true =>
      by_cases exact : hash.capacity.toNat * 2 * 24 < wordSize
      · obtain ⟨buckets, upsized, filed'⟩ := amstrhashUpsize_spec filed kept.few_entries exact
        have doubled : (hash.capacity * 2).toNat = hash.capacity.toNat * 2 :=
          toNat_double (by omega)
        simp only [UpsizeCovers, upsized]
        exact iff_of_true (filed'.covered (by simpa only [Exact, doubled] using exact)) fun _ =>
          exact
      · have overflows := upsize_unfit (show hash.capacity.toNat * 2 < wordSize by omega) exact
        simp only [UpsizeCovers, overflows]
        exact iff_of_false id fun fits => exact (fits trivial)

end Libam.Strhash
