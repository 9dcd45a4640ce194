import Libam.Strhash.Termination

/-! What an insertion can do to a hash table, and that it keeps the buckets and the entries. -/

namespace Libam.Strhash

open Libam.Lists

variable {V : Type} {hash hash' : Amstrhash V} {entries entries' : List Pointer} {key : Pointer}
  {hv : UInt64} {value : Option V} {allocs : Allocations} {rc : Amrc} {old : Option Pointer}

section Outcomes

def Absent (hash : Amstrhash V) (entries : List Pointer) (hv : UInt64) : Prop :=
  ∀ ent ∈ entries, hash.hashAt ent ≠ some hv

def AddFails (hash : Amstrhash V) (key : Pointer) (hv : UInt64) (allocs : Allocations) : Prop :=
  (shouldResize hash (place hash hv) = true ∧ allocs.array = false) ∨
    EntFails hash (some key) allocs.copy allocs.ent

def overwriteEnt (hash : Amstrhash V) (key ent : Pointer) (entry : AmstrhashEntry V)
    (value : Option V) : Amstrhash V :=
  { hash.issueCallback (some key) entry.value true with
    ents := Function.update hash.ents ent (some { entry with value := value }) }

inductive Inserted (hash : Amstrhash V) (entries : List Pointer) (key : Pointer) (hv : UInt64)
    (value : Option V) (allocs : Allocations) : Amstrhash V → List Pointer → Amrc →
    Option Pointer → Prop
  | overwritten {ent : Pointer} {entry : AmstrhashEntry V} : ent ∈ entries →
      hash.ents ent = some entry →
      entry.keyHash = hv → hash.flags.overwrite = true →
      Inserted hash entries key hv value allocs (overwriteEnt hash key ent entry value)
      entries .success none
  | refused {ent : Pointer} {entry : AmstrhashEntry V} : ent ∈ entries →
      hash.ents ent = some entry →
      entry.keyHash = hv → hash.flags.overwrite = false →
      Inserted hash entries key hv value allocs hash entries .error (some ent)
  | failed {buckets : ℕ → AmstrhashBucket} {capacity : UInt64} {slots : ℕ} :
      Absent hash entries hv →
      AddFails hash key hv allocs → Inserted hash entries key hv value allocs
        { hash with buckets := buckets, capacity := capacity, slots := slots } entries .error none
  | added {buckets : ℕ → AmstrhashBucket} {capacity : UInt64} {slots : ℕ} {ent : Pointer} :
      Absent hash entries hv → ¬ AddFails hash key hv allocs → nextEnt hash allocs.ent = some ent →
      Inserted hash entries key hv value allocs
        { hash.added ent ⟨storedKey hash (some key) allocs.copy, hv, value⟩
            (storedStrings hash (some key) allocs.copy) with
          buckets := buckets, capacity := capacity, slots := slots } (ent :: entries) .success none

/-- What insertions rely on: a key in memory, allocations of unused memory, and an
array that fits. -/
structure Insertable (hash : Amstrhash V) (key : Pointer) (allocs : Allocations) : Prop where
  mapped : ∃ str, hash.strings key = some str
  unused : Unused hash allocs.copy allocs.ent
  fits : allocs.array = true → hash.capacity.toNat * 2 * 24 < wordSize

theorem Insertable.readable (insertable : Insertable hash key allocs) (k : Pointer)
    (same : some key = some k) : ∃ str, hash.strings k = some str :=
  Option.some.inj same ▸ insertable.mapped

end Outcomes

section Proofs

theorem Kept.rehoused (kept : Kept hash entries) (buckets : ℕ → AmstrhashBucket) (capacity : UInt64)
    (slots : ℕ) :
    Kept { hash with buckets := buckets, capacity := capacity, slots := slots } entries :=
  ⟨kept.size, kept.nodup, kept.distinct, kept.spare, kept.few, kept.mapped, kept.owned, kept.apart⟩

theorem entNew_spec {key : Option Pointer} (value : Option V) (filed : Filed hash entries)
    (kept : Kept hash entries) (readable : ∀ k, key = some k → ∃ str, hash.strings k = some str)
    (unused : Unused hash allocs.copy allocs.ent) (absent : Absent hash entries hv) :
    (EntFails hash key allocs.copy allocs.ent ∧
      amstrhashEntNew hash (place hash hv) key hv value allocs.copy allocs.ent = .ok
      (hash, .error)) ∨
    ∃ ent buckets, ¬ EntFails hash key allocs.copy allocs.ent ∧ nextEnt hash allocs.ent = some ent ∧
      amstrhashEntNew hash (place hash hv) key hv value allocs.copy allocs.ent =
        .ok ({ hash.added ent ⟨storedKey hash key allocs.copy, hv, value⟩
          (storedStrings hash key allocs.copy) with buckets := buckets }, .success) ∧
      Filed { hash.added ent ⟨storedKey hash key allocs.copy, hv, value⟩
        (storedStrings hash key allocs.copy) with buckets := buckets } (ent :: entries) ∧
      Kept (hash.added ent ⟨storedKey hash key allocs.copy, hv, value⟩
        (storedStrings hash key allocs.copy)) (ent :: entries) := by
  by_cases fails : EntFails hash key allocs.copy allocs.ent
  · exact .inl ⟨fails, entNew_failed kept unused readable fails _⟩
  · obtain ⟨copied, taken⟩ := not_or.mp fails
    obtain ⟨ent, next⟩ := Option.ne_none_iff_exists'.mp taken
    obtain ⟨buckets, run, filed'⟩ := entNew_added hv value filed kept unused readable copied next
    exact .inr ⟨ent, buckets, fails, next, run, filed',
      kept.added filed unused readable next absent⟩

/-- A key that was not found: the array may be doubled, and an entry is added unless an
allocation fails. -/
theorem addEnt_cases {key : Option Pointer} (value : Option V) (filed : Filed hash entries)
    (kept : Kept hash entries)
    (readable : ∀ k, key = some k → ∃ str, hash.strings k = some str)
    (unused : Unused hash allocs.copy allocs.ent)
    (fits : shouldResize hash (place hash hv) = true → allocs.array = true →
      hash.capacity.toNat * 2 * 24 < wordSize)
    (absent : Absent hash entries hv) : ∃ buckets capacity slots,
    (capacity = hash.capacity ∨
      capacity = hash.capacity * 2 ∧ shouldResize hash (place hash hv) = true ∧
      allocs.array = true) ∧
    (((shouldResize hash (place hash hv) = true ∧ allocs.array = false ∨
        EntFails hash key allocs.copy allocs.ent) ∧
        addEnt hash (place hash hv) key hv value allocs =
          .ok ({ hash with buckets := buckets, capacity := capacity, slots := slots }, .error) ∧
        Filed { hash with buckets := buckets, capacity := capacity, slots := slots } entries) ∨
      ∃ ent, ¬ (shouldResize hash (place hash hv) = true ∧ allocs.array = false ∨
          EntFails hash key allocs.copy allocs.ent) ∧ nextEnt hash allocs.ent = some ent ∧
        addEnt hash (place hash hv) key hv value allocs =
          .ok ({ hash.added ent ⟨storedKey hash key allocs.copy, hv, value⟩
            (storedStrings hash key allocs.copy) with
            buckets := buckets, capacity := capacity, slots := slots }, .success) ∧
        Filed { hash.added ent ⟨storedKey hash key allocs.copy, hv, value⟩
          (storedStrings hash key allocs.copy) with
          buckets := buckets, capacity := capacity, slots := slots } (ent :: entries) ∧
        Kept (hash.added ent ⟨storedKey hash key allocs.copy, hv, value⟩
          (storedStrings hash key allocs.copy))
          (ent :: entries)) := by
  by_cases resize : shouldResize hash (place hash hv) = true
  · cases array : allocs.array with
    | false =>
        refine ⟨hash.buckets, hash.capacity, hash.slots, .inl rfl,
          .inl ⟨.inl ⟨resize, rfl⟩, ?_, filed⟩⟩
        simp only [addEnt, resize, if_true, amstrhashUpsize, array, Bool.false_eq_true, if_false,
          bind, Except.bind]
        rfl
    | true =>
        obtain ⟨buckets, upsized, filed₁⟩ := amstrhashUpsize_spec filed kept.few_entries
          (fits resize array)
        obtain ⟨hash₁, def₁⟩ : ∃ hash₁, hash₁ = { hash with
          capacity := hash.capacity * 2, slots := slotsOf (hash.capacity * 2)
          buckets := buckets } := ⟨_, rfl⟩
        rw [← def₁] at upsized filed₁
        have kept₁ : Kept hash₁ entries := def₁ ▸ kept.rehoused _ _ _
        have unused₁ : Unused hash₁ allocs.copy allocs.ent := def₁ ▸ ⟨unused.copy, unused.ent⟩
        have readable₁ : ∀ k, key = some k → ∃ str, hash₁.strings k = some str := def₁ ▸ readable
        have absent₁ : Absent hash₁ entries hv := def₁ ▸ absent
        have entered : addEnt hash (place hash hv) key hv value allocs =
            amstrhashEntNew hash₁ (place hash₁ hv) key hv value allocs.copy allocs.ent := by
          simp only [addEnt, resize, if_true, array, upsized, bind, Except.bind, filed₁.bucket]
        rcases entNew_spec value filed₁ kept₁ readable₁ unused₁ absent₁ with
          ⟨fails, run⟩ | ⟨ent, buckets', fits', next, run, filed', kept'⟩
        · subst def₁
          exact ⟨buckets, _, _, .inr ⟨rfl, resize, rfl⟩,
            .inl ⟨.inr fails, entered.trans run, filed₁⟩⟩
        · subst def₁
          exact ⟨buckets', _, _, .inr ⟨rfl, resize, rfl⟩,
            .inr ⟨ent, not_or.mpr ⟨fun both => Bool.noConfusion both.2, fits'⟩,
            next, entered.trans run, filed', kept'.rehoused hash.buckets hash.capacity hash.slots⟩⟩
  · have entered : addEnt hash (place hash hv) key hv value allocs =
        amstrhashEntNew hash (place hash hv) key hv value allocs.copy allocs.ent := by
      simp only [addEnt, resize, Bool.false_eq_true, if_false]
    rcases entNew_spec value filed kept readable unused absent with
      ⟨fails, run⟩ | ⟨ent, buckets', fits', next, run, filed', kept'⟩
    · exact ⟨hash.buckets, hash.capacity, hash.slots, .inl rfl,
        .inl ⟨.inr fails, entered.trans run, filed⟩⟩
    · exact ⟨buckets', hash.capacity, hash.slots, .inl rfl, .inr ⟨ent,
        not_or.mpr ⟨fun both => resize both.1, fits'⟩, next, entered.trans run, filed', kept'⟩⟩

theorem addEnt_spec (value : Option V) (filed : Filed hash entries) (kept : Kept hash entries)
    (insertable : Insertable hash key allocs) (absent : Absent hash entries hv) :
    ∃ hash' entries' rc,
    addEnt hash (place hash hv) (some key) hv value allocs = .ok (hash', rc) ∧
      Inserted hash entries key hv value allocs hash' entries' rc none ∧ Filed hash' entries' ∧
      Kept hash' entries' := by
  obtain ⟨buckets, capacity, slots, -,
      ⟨fails, run, filed'⟩ | ⟨ent, fits, next, run, filed', kept'⟩⟩ :=
    addEnt_cases value filed kept insertable.readable insertable.unused
      (fun _ => insertable.fits) absent
  · exact ⟨_, entries, .error, run, .failed absent fails, filed', kept.rehoused _ _ _⟩
  · exact ⟨_, ent :: entries, .success, run, .added absent fits next, filed', kept'.rehoused _ _ _⟩

theorem hashAt_value {ent : Pointer} {entry : AmstrhashEntry V} (here : hash.ents ent = some entry)
    (value : Option V) (deleted : List (Option Pointer × Option V)) (a : Pointer) :
    ({ hash with
        ents := Function.update hash.ents ent (some { entry with value := value })
        deleted := deleted }).hashAt a = hash.hashAt a := by
  apply (hashAt_update hash ent a _).trans
  split
  · next same => rw [same, Amstrhash.hashAt, here, Option.map_some, Option.map_some]
  · rfl

theorem keyAt_value {ent : Pointer} {entry : AmstrhashEntry V} (here : hash.ents ent = some entry)
    (value : Option V) (deleted : List (Option Pointer × Option V)) (a : Pointer) :
    ({ hash with
        ents := Function.update hash.ents ent (some { entry with value := value })
        deleted := deleted }).keyAt a = hash.keyAt a := by
  apply (keyAt_update hash ent a _).trans
  split
  · next same => rw [same, Amstrhash.keyAt, here, Option.bind_some, Option.bind_some]
  · rfl

theorem kept_value {ent : Pointer} {entry : AmstrhashEntry V} (filed : Filed hash entries)
    (kept : Kept hash entries) (here : hash.ents ent = some entry) (value : Option V)
    (deleted : List (Option Pointer × Option V)) :
    Filed { hash with
          ents := Function.update hash.ents ent (some { entry with value := value })
          deleted := deleted } entries ∧
      Kept { hash with
          ents := Function.update hash.ents ent (some { entry with value := value })
          deleted := deleted } entries := by
  have hashes := hashAt_value here value deleted
  have keys := keyAt_value here value deleted
  refine ⟨filed.congr rfl rfl (fun _ _ => rfl) fun a _ => hashes a, kept.size, kept.nodup, ?_,
    kept.spare, kept.few,
    fun a member => ?_, ?_, ?_⟩
  · intro a first b second hv' atA atB
    rw [hashes] at atA atB
    exact kept.distinct a first b second hv' atA atB
  · by_cases same : a = ent
    · exact ⟨_, by rw [same]; exact Function.update_self ..⟩
    · obtain ⟨e, isEntry⟩ := kept.mapped a member
      exact ⟨e, (Function.update_of_ne same ..).trans isEntry⟩
  · intro copied a member k atA
    rw [keys] at atA
    exact kept.owned copied a member k atA
  · intro copied a first b second k atA atB
    rw [keys] at atA atB
    exact kept.apart copied a first b second k atA atB

theorem insertEnt_spec (hv : UInt64) (value : Option V) (filed : Filed hash entries)
    (kept : Kept hash entries) (insertable : Insertable hash key allocs) : ∃ hash' entries' rc old,
    insertEnt hash (some key) hv value allocs = .ok (hash', rc, old) ∧
      Inserted hash entries key hv value allocs hash' entries' rc old ∧ Filed hash' entries' ∧
      Kept hash' entries' := by
  obtain ⟨str, here⟩ := insertable.mapped
  obtain ⟨out, searched, found, missed⟩ := filed.find here hv
  cases out with
  | none =>
      obtain ⟨hash', entries', rc, run, inserted, filed', kept'⟩ :=
        addEnt_spec value filed kept insertable (missed rfl)
      refine ⟨hash', entries', rc, none, ?_, inserted, filed', kept'⟩
      simp only [insertEnt, filed.bucket, bind, Except.bind, searched, run]
      rfl
  | some ent =>
      obtain ⟨member, atEnt⟩ := found ent rfl
      obtain ⟨entry, isEntry, isHash⟩ := Option.map_eq_some_iff.mp atEnt
      by_cases overwrite : hash.flags.overwrite = true
      · obtain ⟨filed', kept'⟩ := kept_value filed kept isEntry value
          (hash.issueCallback (some key) entry.value true).deleted
        refine ⟨overwriteEnt hash key ent entry value, entries, .success, none, ?_,
          .overwritten member isEntry isHash overwrite, filed', kept'⟩
        simp only [insertEnt, filed.bucket, bind, Except.bind, searched, if_pos overwrite,
          Amstrhash.entry, isEntry]
        rfl
      · refine ⟨hash, entries, .error, some ent, ?_,
          .refused member isEntry isHash ((Bool.not_eq_true _).mp overwrite), filed, kept⟩
        simp only [insertEnt, filed.bucket, bind, Except.bind, searched, if_neg overwrite]
        rfl

end Proofs

end Libam.Strhash
