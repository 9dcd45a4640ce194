import Libam.Strhash.Refinement

/-! An insertion that fails leaves the contents of the table as they were. -/

namespace Libam.Strhash

open Libam.Lists Libam.Interleaving

variable {V : Type} {hash hash' start : Amstrhash V} {entries entries' : List Pointer}
  {key : Pointer} {str : CString} {value : Option V} {allocs : Allocations} {old : Option Pointer}

/-- The entries, their keys and values, the spare entries and the calls of `on_delete` are the same
ones; the array of the buckets may be a larger one. -/
structure Untouched (hash hash' : Amstrhash V) : Prop where
  listed : hash'.listed.Perm hash.listed
  ents : hash'.ents = hash.ents
  strings : hash'.strings = hash.strings
  size : hash'.size = hash.size
  freeEnts : hash'.freeEnts = hash.freeEnts
  freeSize : hash'.freeSize = hash.freeSize
  deleted : hash'.deleted = hash.deleted
  consistent : Consistent hash'

/-- The failure of an insertion: `old_key` is written with an entry that has the key of the call. -/
structure FailsCleanly (hash hash' : Amstrhash V) (op : Op V) (old : Option Pointer) : Prop where
  untouched : Untouched hash hash'
  duplicate : ∀ ent, old = some ent → Names hash op ent

theorem free_of_inserted (inv : Inv hash) (insertable : Insertable hash key allocs)
    {result : Amstrhash V × Result}
    (returned : apply hash (.insert key value allocs) = .ok result) : hash.lock = ⟨0, false⟩ := by
  apply inv.lock.resolve_right
  intro held
  cases returned.symm.trans (apply_blocked held.1 held.2 rfl insertable)

/-- A failed insertion has found an entry with the hash of its key, or there is none and an
allocation has failed. -/
theorem untouched_of_error (inv : Inv hash) (insertable : Insertable hash key allocs)
    (isKey : hash.strings key = some str)
    (failed : apply hash (.insert key value allocs) = .ok (hash', .inserted .error old)) :
    Untouched hash hash' ∧
    ((∃ ent, old = some ent ∧ ent ∈ hash.listed ∧ hash.hashAt ent = some (amshash str)) ∨
      old = none ∧ ∀ ent ∈ hash.listed, hash.hashAt ent ≠ some (amshash str)) := by
  have free := free_of_inserted inv insertable failed
  have ready : Ready hash (.insert key value allocs) hash := insertable
  obtain ⟨entries, filed, kept⟩ := inv.held
  obtain ⟨hash₁, entries₁, result, run, outcome, filed₁, kept₁⟩ := apply_spec free filed kept ready
  have consistent : Consistent ((Op.insert key value allocs).final hash hash₁ result) :=
    Inv.consistent ⟨⟨entries₁, filed₁.relock _ _, kept₁.relock _ _⟩, by
      rw [final_free _ rfl]
      exact .inl rfl⟩
  cases failed.symm.trans run
  have same : ((Op.insert key value allocs).final hash hash₁ (.inserted .error old)).listed =
    hash₁.listed := rfl
  cases outcome with
  | insert here inserted =>
      cases isKey.symm.trans here
      cases inserted with
      | refused member isEntry isHash keep =>
          refine ⟨⟨same ▸ .refl _, rfl, rfl, rfl, rfl, rfl, rfl, consistent⟩,
            .inl ⟨_, rfl, filed.all.mem_iff.mpr member, ?_⟩⟩
          rw [Amstrhash.hashAt, isEntry, Option.map_some, isHash]
      | failed absent fails =>
          refine ⟨⟨same ▸ filed₁.all.trans filed.all.symm, rfl, rfl, rfl, rfl, rfl,
            rfl, consistent⟩,
            .inr ⟨rfl, fun ent listed => absent ent (filed.all.mem_iff.mp listed)⟩⟩

/-- An insertion that fails leaves the table untouched, and what it writes to `old_key` is an entry
with its key if and only if no entry has the hash of the key without having its characters. -/
theorem amstrhash_insert_failed {ops : List (Op V)} (started : Started start)
    (run : Run step Ready start ops hash) (insertable : Insertable hash key allocs)
    (failed : apply hash (.insert key value allocs) = .ok (hash', .inserted .error old)) :
    Untouched hash hash' ∧
    (FailsCleanly hash hash' (.insert key value allocs) old ↔
      Distinguished hash (.insert key value allocs)) := by
  obtain ⟨str, isKey⟩ := insertable.mapped
  have inv := run_inv started run
  obtain ⟨untouched, found⟩ := untouched_of_error inv insertable isKey failed
  refine ⟨untouched, fun clean key' str' isKey' isStr ent listed same => ?_, fun distinct =>
    ⟨untouched, fun ent isOld => ?_⟩⟩
  · cases isKey'
    cases isKey.symm.trans isStr
    rcases found with ⟨other, isOld, inside, atOther⟩ | ⟨-, absent⟩
    · obtain ⟨entries, filed, kept⟩ := inv.held
      obtain rfl := kept.distinct ent (filed.all.mem_iff.mp listed) other
        (filed.all.mem_iff.mp inside) _ same atOther
      obtain ⟨-, key', str', isKey', isStr', text⟩ := clean.duplicate ent isOld
      cases isKey'
      cases isKey.symm.trans isStr'
      exact text
    · exact absurd same (absent ent listed)
  · rcases found with ⟨other, isOld', inside, atOther⟩ | ⟨none, -⟩
    · cases isOld.symm.trans isOld'
      exact ⟨inside, key, str, rfl, isKey, distinct key str rfl isKey ent inside atOther⟩
    · cases isOld.symm.trans none

def sampleAgain : Allocations := ⟨true, some ⟨80, by decide⟩, some ⟨96, by decide⟩⟩

structure SampleRefused (start hash hash' : Amstrhash ℕ) (key ent : Pointer) : Prop where
  started : Started start
  run : Run step Ready start [sampleInsert] hash
  listed : hash.listed = [ent]
  text : hash.textAt ent = some ⟨[69, 122], by decide⟩
  insertable : Insertable hash key sampleAgain
  failed : apply hash (.insert key (some 8) sampleAgain) = .ok (hash', .inserted .error (some ent))

/-- The insertions of "Ez" and of "FY", which has the same hash, fail with the entry of "Ez". -/
theorem sample_refused : ∃ (start hash again other : Amstrhash ℕ) (ent : Pointer),
    SampleRefused start hash again ⟨16, by decide⟩ ent ∧ SampleRefused start hash other
    ⟨32, by decide⟩ ent ∧
    hash.strings ⟨16, by decide⟩ = some ⟨[69, 122], by decide⟩ ∧
    hash.strings ⟨32, by decide⟩ = some ⟨[70, 89], by decide⟩ := by
  obtain ⟨start, hash, again, other, ent, made, fired, failed, failed', listed, text, isKey,
      isOther, fits, room,
      mapped, copy, unused, copy', unused'⟩ :
      ∃ (start hash again other : Amstrhash ℕ) (ent : Pointer),
      amstrhashInit 0 ⟨false, true, true, false, false⟩ none true true true sampleStrings = .ok
        (some start) ∧
        step start sampleInsert = some hash ∧
        apply hash (.insert ⟨16, by decide⟩ (some 8) sampleAgain) =
          .ok (again, .inserted .error (some ent)) ∧
        apply hash (.insert ⟨32, by decide⟩ (some 8) sampleAgain) =
          .ok (other, .inserted .error (some ent)) ∧
        hash.listed = [ent] ∧
        hash.textAt ent = some ⟨[69, 122], by decide⟩ ∧
        hash.strings ⟨16, by decide⟩ = some ⟨[69, 122], by decide⟩ ∧
        hash.strings ⟨32, by decide⟩ = some ⟨[70, 89], by decide⟩ ∧
        start.capacity.toNat * 2 * 24 < wordSize ∧ hash.capacity.toNat * 2 * 24 < wordSize ∧
        (∃ str, start.strings ⟨16, by decide⟩ = some str) ∧ start.strings ⟨48, by decide⟩ = none ∧
        start.ents ⟨64, by decide⟩ = none ∧ hash.strings ⟨80, by decide⟩ = none ∧
        hash.ents ⟨96, by decide⟩ = none :=
    ⟨_, _, _, _, _, rfl, rfl, rfl, rfl, rfl, rfl, rfl,
      rfl, by decide, by decide, ⟨_, rfl⟩, rfl, rfl, rfl, rfl⟩
  have started : Started start := ⟨_, _, _, _, _, _, _, made, by omega⟩
  have run : Run step Ready start [sampleInsert] hash :=
    Run.nil.snoc fired ⟨mapped, ⟨fun c same => Option.some.inj same ▸ copy, fun e same =>
      Option.some.inj same ▸ unused⟩, fun _ => fits⟩
  have insertable {key : Pointer} (known : ∃ str, hash.strings key = some str) :
      Insertable hash key sampleAgain :=
    ⟨known, ⟨fun c same => Option.some.inj same ▸ copy', fun e same =>
      Option.some.inj same ▸ unused'⟩, fun _ => room⟩
  exact ⟨start, hash, again, other, ent,
    ⟨started, run, listed, text, insertable ⟨_, isKey⟩, failed⟩,
    ⟨started, run, listed, text, insertable ⟨_, isOther⟩, failed'⟩, isKey, isOther⟩

/-- A second insertion of "Ez" fails with the entry of the first. -/
theorem amstrhash_insert_failed_sample : ∃ (start hash hash' : Amstrhash ℕ) (ent : Pointer),
    Started start ∧
    Run step Ready start [sampleInsert] hash ∧ hash.listed = [ent] ∧
    apply hash (.insert ⟨16, by decide⟩ (some 8) sampleAgain) = .ok
      (hash', .inserted .error (some ent)) ∧
    Untouched hash hash' ∧
    FailsCleanly hash hash' (.insert ⟨16, by decide⟩ (some 8) sampleAgain) (some ent) := by
  obtain ⟨start, hash, hash', -, ent, sample, -, isKey, -⟩ := sample_refused
  have failure := amstrhash_insert_failed sample.started sample.run sample.insertable sample.failed
  have distinct : Distinguished hash (.insert ⟨16, by decide⟩ (some 8) sampleAgain) := by
    intro key str same isStr other listed hashed
    cases same
    cases isKey.symm.trans isStr
    rw [sample.listed, List.mem_singleton] at listed
    rw [listed]
    exact sample.text
  exact ⟨start, hash, hash', ent, sample.started, sample.run, sample.listed,
    sample.failed, failure.1,
    failure.2.mpr distinct⟩

/-- "FY" is not in the table, and `old_key` is written. -/
theorem amstrhash_insert_blames : ∃ (start hash hash' : Amstrhash ℕ) (old : Option Pointer),
    Started start ∧
    Run step Ready start [sampleInsert] hash ∧ Insertable hash ⟨32, by decide⟩ sampleAgain ∧
    apply hash (.insert ⟨32, by decide⟩ (some 8) sampleAgain) = .ok (hash', .inserted .error old) ∧
    ¬ FailsCleanly hash hash' (.insert ⟨32, by decide⟩ (some 8) sampleAgain) old := by
  obtain ⟨start, hash, -, hash', ent, -, sample, -, isStr⟩ := sample_refused
  refine ⟨start, hash, hash', some ent, sample.started, sample.run, sample.insertable,
    sample.failed,
    fun clean => ?_⟩
  obtain ⟨-, key, str, isKey, isStr', text'⟩ := clean.duplicate ent rfl
  cases isKey
  cases isStr.symm.trans isStr'
  cases sample.text.symm.trans text'

end Libam.Strhash
