import Libam.Lists.Buckets
import Libam.Strhash.Model

/-! The entries in the buckets of a hash table: how an entry comes in and goes out, and the move of
all entries to a larger array. -/

namespace Libam.Strhash

open Libam.Lists

variable {V : Type} {hash : Amstrhash V} {entries done : List Pointer} {ent : Pointer} {hv : UInt64}

section Places

def Amstrhash.hashAt (hash : Amstrhash V) (ent : Pointer) : Option UInt64 :=
  (hash.ents ent).map (·.keyHash)

def place (hash : Amstrhash V) (hashValue : UInt64) : ℕ := (hashValue % hash.capacity).toNat

def Amstrhash.listed (hash : Amstrhash V) : List Pointer :=
  collected hash.slots fun i => (hash.buckets i).entries

structure Filed (hash : Amstrhash V) (entries : List Pointer) : Prop where
  capacity : hash.capacity ≠ 0
  slots : hash.slots = hash.capacity.toNat
  all : hash.listed.Perm entries
  placed : ∀ i < hash.slots, ∀ ent ∈ (hash.buckets i).entries, ∃ hv, hash.hashAt ent = some hv ∧
    place hash hv = i
  counted : ∀ i < hash.slots, (hash.buckets i).size.toNat = (hash.buckets i).entries.length

theorem Filed.perm {others : List Pointer} (filed : Filed hash entries)
    (perm : entries.Perm others) : Filed hash others :=
  ⟨filed.capacity, filed.slots, filed.all.trans perm, filed.placed, filed.counted⟩

theorem Filed.congr {hash' : Amstrhash V} (filed : Filed hash entries)
    (capacity : hash'.capacity = hash.capacity) (slots : hash'.slots = hash.slots)
    (buckets : ∀ i < hash.slots, hash'.buckets i = hash.buckets i)
    (hashes : ∀ ent ∈ entries, hash'.hashAt ent = hash.hashAt ent) : Filed hash' entries := by
  have listed : hash'.listed = hash.listed := by
    rw [Amstrhash.listed, Amstrhash.listed, slots]
    exact collected_congr fun i below => by rw [buckets i below]
  refine ⟨capacity ▸ filed.capacity, by rw [slots, capacity, filed.slots], listed ▸ filed.all,
    fun i below ent member => ?_, fun i below => ?_⟩
  · rw [slots] at below
    rw [buckets i below] at member
    obtain ⟨hv, here, isPlace⟩ := filed.placed i below ent member
    have inside := filed.all.mem_iff.mp (mem_collected.mpr ⟨i, below, member⟩)
    refine ⟨hv, (hashes ent inside).trans here, ?_⟩
    rw [place, capacity]
    exact isPlace
  · rw [slots] at below
    rw [buckets i below]
    exact filed.counted i below

theorem Filed.place_lt (filed : Filed hash entries) (hv : UInt64) : place hash hv < hash.slots := by
  have positive : 0 < hash.capacity.toNat := by
    refine Nat.pos_of_ne_zero fun zero => filed.capacity ?_
    exact UInt64.toNat_inj.mp zero
  rw [place, filed.slots, UInt64.toNat_mod]
  exact Nat.mod_lt _ positive

theorem Filed.bucket (filed : Filed hash entries) (hv : UInt64) :
    amstrhashBucket hash hv = .ok (place hash hv) := by
  have below := filed.place_lt hv
  rw [place] at below
  rw [amstrhashBucket, if_neg filed.capacity, if_pos below, place]

theorem Filed.mem_bucket (filed : Filed hash entries) (here : hash.hashAt ent = some hv) :
    ent ∈ (hash.buckets (place hash hv)).entries ↔ ent ∈ entries := by
  constructor
  · intro member
    exact filed.all.mem_iff.mp (mem_collected.mpr ⟨_, filed.place_lt hv, member⟩)
  · intro member
    obtain ⟨i, below, inside⟩ := mem_collected.mp (filed.all.mem_iff.mpr member)
    obtain ⟨hv', here', isPlace⟩ := filed.placed i below ent inside
    cases here.symm.trans here'
    exact isPlace ▸ inside

theorem Filed.mapped (filed : Filed hash entries) (member : ent ∈ entries) : ∃ entry,
    hash.ents ent = some entry := by
  obtain ⟨i, below, inside⟩ := mem_collected.mp (filed.all.mem_iff.mpr member)
  obtain ⟨hv, here, _⟩ := filed.placed i below ent inside
  obtain ⟨entry, mapped, _⟩ := Option.map_eq_some_iff.mp here
  exact ⟨entry, mapped⟩

end Places

section Changes

theorem Filed.link (filed : Filed hash entries) (here : hash.hashAt ent = some hv)
    (few : entries.length + 1 < wordSize) :
    Filed (hash.link (place hash hv) ent) (ent :: entries) := by
  have below := filed.place_lt hv
  have bound := length_le_collected (f := fun i => (hash.buckets i).entries) below
  have total := filed.all.length_eq
  rw [Amstrhash.listed] at total
  refine ⟨filed.capacity, filed.slots, ?_, fun i inRange e member => ?_, fun i inRange => ?_⟩
  · refine (collected_cons below ?_ fun j _ other => ?_).trans (filed.all.cons ent)
    · simp only [Amstrhash.link, Function.update_self]
      exact .refl _
    · simp only [Amstrhash.link, Function.update_of_ne other]
  · by_cases same : i = place hash hv
    · subst same
      simp only [Amstrhash.link, Function.update_self] at member
      rcases List.mem_cons.mp member with rfl | earlier
      · exact ⟨hv, here, rfl⟩
      · exact filed.placed _ inRange e earlier
    · simp only [Amstrhash.link, Function.update_of_ne same] at member
      exact filed.placed i inRange e member
  · by_cases same : i = place hash hv
    · subst same
      have counted := filed.counted _ inRange
      simp only [Amstrhash.link, Function.update_self, List.length_cons]
      rw [toNat_succ (by omega), counted]
    · simp only [Amstrhash.link, Function.update_of_ne same]
      exact filed.counted i inRange

def without (hash : Amstrhash V) (ent : Pointer) (bucket : ℕ) : ℕ → AmstrhashBucket :=
  Function.update (hash.unlink ent).buckets bucket
    { (hash.unlink ent).buckets bucket with size := ((hash.unlink ent).buckets bucket).size - 1 }

theorem without_entries (hash : Amstrhash V) (ent : Pointer) (bucket i : ℕ) :
    (without hash ent bucket i).entries = (hash.buckets i).entries.erase ent := by
  rw [without, Function.update_apply]
  split
  · next same => rw [same, Amstrhash.unlink]
  · rfl

theorem Filed.unlink (filed : Filed hash entries) (member : ent ∈ entries)
    (here : hash.hashAt ent = some hv) :
    Filed { hash with buckets := without hash ent (place hash hv) } (entries.erase ent) := by
  have below := filed.place_lt hv
  have inside := (filed.mem_bucket here).mpr member
  have elsewhere {i : ℕ} (inRange : i < hash.slots) (other : i ≠ place hash hv) :
      ent ∉ (hash.buckets i).entries := by
    intro found
    obtain ⟨hv', here', isPlace⟩ := filed.placed i inRange ent found
    cases here.symm.trans here'
    exact other isPlace.symm
  refine ⟨filed.capacity, filed.slots, ?_, fun i inRange e found => ?_, fun i inRange => ?_⟩
  · have split : hash.listed.Perm (ent :: collected hash.slots fun i =>
        (without hash ent (place hash hv) i).entries) := by
      refine collected_cons below ?_ fun j inRange other => ?_
      · rw [without_entries]
        exact List.perm_cons_erase inside
      · rw [without_entries, List.erase_of_not_mem (elsewhere inRange other)]
    exact (List.perm_cons ent).mp (split.symm.trans (filed.all.trans (List.perm_cons_erase member)))
  · simp only [without_entries] at found
    exact filed.placed i inRange e (List.mem_of_mem_erase found)
  · show (without hash ent (place hash hv) i).size.toNat =
        (without hash ent (place hash hv) i).entries.length
    have counted := filed.counted i inRange
    rw [without_entries]
    by_cases same : i = place hash hv
    · subst same
      have positive := List.length_pos_of_mem inside
      rw [without, Function.update_self, List.length_erase_of_mem inside]
      show ((hash.buckets (place hash hv)).size - 1).toNat = _
      rw [toNat_pred (by omega), counted]
    · rw [without, Function.update_of_ne same, List.erase_of_not_mem (elsewhere inRange same)]
      exact counted

end Changes

section Growth

theorem moveEntries_spec (moved : List Pointer) {size : UInt64} (filed : Filed hash done)
    (counted : size.toNat = moved.length)
    (mapped : ∀ ent ∈ moved, ∃ entry, hash.ents ent = some entry)
    (few : moved.length + done.length < wordSize) : ∃ buckets,
    moveEntries moved size hash = .ok { hash with buckets := buckets } ∧
      Filed { hash with buckets := buckets } (moved ++ done) := by
  induction moved generalizing hash done size with
  | nil =>
      have zero : size = 0 := UInt64.toNat_inj.mp counted
      refine ⟨hash.buckets, ?_, filed⟩
      rw [moveEntries, if_pos zero]
  | cons ent rest ih =>
      obtain ⟨entry, here⟩ := mapped ent List.mem_cons_self
      rw [List.length_cons] at counted few
      have positive : 0 < size := UInt64.lt_iff_toNat_lt.mpr (by
        rw [counted]
        exact Nat.succ_pos _)
      have atEnt : hash.hashAt ent = some entry.keyHash := by
        rw [Amstrhash.hashAt, here]
        rfl
      have linked := filed.link atEnt (show done.length + 1 < wordSize by omega)
      obtain ⟨buckets, run, filed'⟩ := ih linked
        (show (size - 1).toNat = rest.length by rw [toNat_pred (by omega), counted]; rfl)
        (fun e member => mapped e (List.mem_cons_of_mem _ member))
        (show rest.length + (ent :: done).length < wordSize by rw [List.length_cons]; omega)
      refine ⟨buckets, ?_, filed'.perm List.perm_middle⟩
      simp only [moveEntries, if_pos positive, Amstrhash.entry, here, bind, Except.bind,
        filed.bucket entry.keyHash]
      exact run

theorem moveBuckets_spec {old : Amstrhash V} (left i : ℕ) (filed : Filed hash done)
    (inside : i + left ≤ old.slots)
    (counted : ∀ j < old.slots, (old.buckets j).size.toNat = (old.buckets j).entries.length)
    (mapped : ∀ j < old.slots, ∀ ent ∈ (old.buckets j).entries, ∃ entry, hash.ents ent = some entry)
    (few : ((List.range' i left).flatMap fun j => (old.buckets j).entries).length +
      done.length < wordSize) :
    ∃ buckets, moveBuckets old left i hash = .ok { hash with buckets := buckets } ∧
      Filed { hash with buckets := buckets }
        (((List.range' i left).flatMap fun j => (old.buckets j).entries) ++ done) := by
  induction left generalizing hash done i with
  | zero => exact ⟨hash.buckets, rfl, filed⟩
  | succ left ih =>
      rw [List.range'_succ, List.flatMap_cons, List.length_append] at few
      have below : i < old.slots := by omega
      obtain ⟨buckets₁, run₁, filed₁⟩ := moveEntries_spec (old.buckets i).entries filed
        (counted i below)
        (mapped i below) (by omega)
      obtain ⟨buckets, run, filed'⟩ := ih (i + 1) filed₁ (by omega) mapped (by
        rw [List.length_append]
        omega)
      refine ⟨buckets, ?_, filed'.perm ?_⟩
      · simp only [moveBuckets, if_pos below, run₁, bind, Except.bind]
        exact run
      · rw [List.range'_succ, List.flatMap_cons, ← List.append_assoc]
        exact List.perm_append_comm.append_right _

theorem slotsOf_eq {capacity : UInt64} (fits : capacity.toNat * 24 < wordSize) :
    slotsOf capacity = capacity.toNat := by
  rw [slotsOf, bucketBytes, UInt64.toNat_mul]
  show capacity.toNat * 24 % wordSize / 24 = _
  rw [Nat.mod_eq_of_lt fits, Nat.mul_div_cancel _ (by decide)]

theorem filed_empty (hash : Amstrhash V) (positive : hash.capacity ≠ 0)
    (fits : hash.capacity.toNat * 24 < wordSize) (slots : hash.slots = slotsOf hash.capacity)
    (empty : ∀ i < hash.slots, hash.buckets i = ⟨[], 0⟩) : Filed hash [] := by
  refine ⟨positive, slots.trans (slotsOf_eq fits), ?_, fun i below ent member => ?_,
    fun i below => ?_⟩
  · rw [Amstrhash.listed, collected_nil fun i below => by rw [empty i below]]
  · rw [empty i below] at member
    cases member
  · rw [empty i below]
    rfl

theorem amstrhashUpsize_spec (filed : Filed hash entries) (few : entries.length < wordSize)
    (fits : hash.capacity.toNat * 2 * 24 < wordSize) : ∃ buckets,
    amstrhashUpsize hash true = .ok ({ hash with
      capacity := hash.capacity * 2, slots := slotsOf (hash.capacity * 2), buckets := buckets },
        .success) ∧
      Filed { hash with
        capacity := hash.capacity * 2, slots := slotsOf (hash.capacity * 2), buckets := buckets }
        entries := by
  have doubled : (hash.capacity * 2).toNat = hash.capacity.toNat * 2 := toNat_double (by omega)
  have positive : hash.capacity * 2 ≠ 0 := by
    intro zero
    have none : hash.capacity.toNat * 2 = 0 := by
      rw [← doubled, zero]
      rfl
    exact filed.capacity (UInt64.toNat_inj.mp (show hash.capacity.toNat = 0 by omega))
  have fits' : (hash.capacity * 2).toNat * 24 < wordSize := by rw [doubled]; exact fits
  have all : ((List.range' 0 hash.capacity.toNat).flatMap fun j => (hash.buckets j).entries).Perm
      entries := by
    have listed := filed.all
    rw [Amstrhash.listed, collected, filed.slots, List.range_eq_range'] at listed
    exact listed
  have filed₀ := filed_empty { hash with
    capacity := hash.capacity * 2, slots := slotsOf (hash.capacity * 2)
    buckets := fun _ => ⟨[], 0⟩ }
    positive fits' rfl fun _ _ => rfl
  obtain ⟨buckets, run, filed'⟩ := moveBuckets_spec hash.capacity.toNat 0 filed₀
    (show 0 + hash.capacity.toNat ≤ hash.slots by rw [filed.slots]; omega) filed.counted
    (fun j below ent member =>
      filed.mapped (filed.all.mem_iff.mp (mem_collected.mpr ⟨j, below, member⟩)))
    (by rw [all.length_eq]; exact few)
  refine ⟨buckets, ?_, ?_⟩
  · have room : (hash.capacity * 2).toNat ≤ slotsOf (hash.capacity * 2) :=
        Nat.le_of_eq (slotsOf_eq fits').symm
    simp only [amstrhashUpsize, if_true, amstrhashInitBuckets, if_pos room, bind, Except.bind, run]
    rfl
  · rw [List.append_nil] at filed'
    exact filed'.perm all

end Growth

end Libam.Strhash
