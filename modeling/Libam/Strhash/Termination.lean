import Libam.Strhash.Entries

/-! `amstrhash_term`: the loops over the buckets remove every entry, and then the
spare entries go. -/

namespace Libam.Strhash

open Libam.Lists

variable {V : Type} {hash hash' : Amstrhash V} {entries gone left : List Pointer} {useCb : Bool}

section Removal

def Amstrhash.taken (hash : Amstrhash V) (ent : Pointer) (entry : AmstrhashEntry V) (useCb : Bool) :
    Amstrhash V :=
  { hash.removed ent entry useCb with buckets := without hash ent (place hash entry.keyHash) }

inductive Removes (useCb : Bool) : Amstrhash V → List Pointer → Amstrhash V → Prop
  | nil (hash : Amstrhash V) : Removes useCb hash [] hash
  | cons {hash hash' : Amstrhash V} {ent : Pointer} {entry : AmstrhashEntry V}
      {gone : List Pointer} :
      hash.ents ent = some entry → Removes useCb (hash.taken ent entry useCb) gone hash' →
      Removes useCb hash (ent :: gone) hash'

theorem Removes.append {middle : Amstrhash V} {more : List Pointer}
    (first : Removes useCb hash gone middle) (second : Removes useCb middle more hash') :
    Removes useCb hash (gone ++ more) hash' := by
  induction first with
  | nil => exact second
  | cons here _ ih => exact .cons here (ih second)

theorem Kept.taken {ent : Pointer} {entry : AmstrhashEntry V} (kept : Kept hash entries)
    (member : ent ∈ entries) (here : hash.ents ent = some entry) (useCb : Bool) :
    Kept (hash.taken ent entry useCb) (entries.erase ent) := by
  have kept' := kept.removed member here useCb
  exact ⟨kept'.size, kept'.nodup, kept'.distinct, kept'.spare, kept'.few, kept'.mapped,
    kept'.owned, kept'.apart⟩

theorem Filed.taken {ent : Pointer} {entry : AmstrhashEntry V} (filed : Filed hash entries)
    (kept : Kept hash entries) (member : ent ∈ entries) (here : hash.ents ent = some entry)
    (useCb : Bool) :
    removeEnt hash ent useCb = .ok (hash.taken ent entry useCb) ∧
      Filed (hash.taken ent entry useCb) (entries.erase ent) :=
  removeEnt_spec filed kept member here useCb

theorem Removes.kept (removes : Removes useCb hash gone hash') (filed : Filed hash (gone ++ left))
    (kept : Kept hash (gone ++ left)) : Filed hash' left ∧ Kept hash' left := by
  induction removes with
  | nil => exact ⟨filed, kept⟩
  | cons here _ ih =>
      have filed' := (filed.taken kept List.mem_cons_self here useCb).2
      have kept' := kept.taken List.mem_cons_self here useCb
      rw [List.cons_append, List.erase_cons_head] at filed' kept'
      exact ih filed' kept'

/-- A removal leaves the configuration, the lock and the size of the array as they are. -/
theorem Removes.fixed (removes : Removes useCb hash gone hash') : hash'.flags = hash.flags ∧
    hash'.attr = hash.attr ∧ hash'.slots = hash.slots ∧ hash'.capacity = hash.capacity ∧
      hash'.lock = hash.lock ∧
      hash'.lockCalls = hash.lockCalls := by
  induction removes with
  | nil => exact ⟨rfl, rfl, rfl, rfl, rfl, rfl⟩
  | cons _ _ ih => exact ih

theorem taken_entries {ent : Pointer} (entry : AmstrhashEntry V) (useCb : Bool)
    (filed : Filed hash entries) {i j : ℕ} (inside : ent ∈ (hash.buckets i).entries)
    (below : i < hash.slots) (inRange : j < hash.slots) :
    ((hash.taken ent entry useCb).buckets j).entries =
      if j = i then (hash.buckets i).entries.erase ent else (hash.buckets j).entries := by
  rw [Amstrhash.taken]
  show (without hash ent (place hash entry.keyHash) j).entries = _
  rw [without_entries]
  split
  · next same => rw [same]
  · next other =>
      refine List.erase_of_not_mem fun found => other ?_
      obtain ⟨hv, atEnt, isJ⟩ := filed.placed j inRange ent found
      obtain ⟨hv', atEnt', isI⟩ := filed.placed i below ent inside
      cases atEnt.symm.trans atEnt'
      exact isJ.symm.trans isI

end Removal

section Loops

theorem termEntries_spec (listed : List Pointer) {i : ℕ} (filed : Filed hash entries)
    (kept : Kept hash entries) (below : i < hash.slots) (here : (hash.buckets i).entries = listed) :
    ∃ hash', termEntries i listed.length hash = .ok hash' ∧
      Removes (!hash.flags.noFreeCb) hash listed hash' ∧
      ∀ j < hash.slots, j ≠ i → (hash'.buckets j).entries = (hash.buckets j).entries := by
  induction listed generalizing hash entries with
  | nil =>
      refine ⟨hash, ?_, .nil hash, fun _ _ _ => rfl⟩
      simp only [List.length_nil, termEntries, here]
  | cons ent rest ih =>
      have inside : ent ∈ (hash.buckets i).entries := by
        rw [here]
        exact List.mem_cons_self
      have member : ent ∈ entries := filed.all.mem_iff.mp (mem_collected.mpr ⟨i, below, inside⟩)
      obtain ⟨entry, isEntry⟩ := filed.mapped member
      obtain ⟨run, filed'⟩ := filed.taken kept member isEntry (!hash.flags.noFreeCb)
      have left := taken_entries entry (!hash.flags.noFreeCb) filed inside below below
      rw [if_pos rfl, here, List.erase_cons_head] at left
      obtain ⟨hash', looped, removes, others⟩ := ih filed'
        (kept.taken member isEntry (!hash.flags.noFreeCb)) below left
      refine ⟨hash', ?_, .cons isEntry removes, fun j inRange other => ?_⟩
      · rw [List.length_cons]
        simp only [termEntries, here, amstrhashEntRemove, Bool.false_eq_true, if_false, pure,
          Except.pure, bind, Except.bind, run, looped]
      · rw [others j inRange other, taken_entries entry _ filed inside below inRange, if_neg other]

theorem termBuckets_spec (count i : ℕ) (filed : Filed hash entries) (kept : Kept hash entries)
    (inside : i + count ≤ hash.slots) : ∃ hash', termBuckets count i hash = .ok hash' ∧
      Removes (!hash.flags.noFreeCb) hash
      ((List.range' i count).flatMap fun j => (hash.buckets j).entries) hash' := by
  induction count generalizing hash entries i with
  | zero => exact ⟨hash, rfl, .nil hash⟩
  | succ count ih =>
      have below : i < hash.slots := by omega
      obtain ⟨hash₁, run, removes, others⟩ := termEntries_spec _ filed kept below rfl
      obtain ⟨flags, _, slots, _⟩ := removes.fixed
      have split : ∃ left, entries.Perm ((hash.buckets i).entries ++ left) := by
        have sub : (hash.buckets i).entries.Sublist hash.listed :=
          List.sublist_flatten_of_mem (List.mem_map.mpr ⟨i, List.mem_range.mpr below, rfl⟩)
        obtain ⟨left, perm⟩ := sub.exists_perm_append
        exact ⟨left, filed.all.symm.trans perm⟩
      obtain ⟨left, perm⟩ := split
      obtain ⟨filed₁, kept₁⟩ := removes.kept (filed.perm perm) (kept.perm perm)
      obtain ⟨hash', looped, more⟩ := ih (i + 1) filed₁ kept₁ (by rw [slots]; omega)
      refine ⟨hash', ?_, ?_⟩
      · simp only [termBuckets, if_pos below, run, bind, Except.bind, looped]
      · rw [flags] at more
        rw [List.range'_succ, List.flatMap_cons]
        apply removes.append
        have same : ((List.range' (i + 1) count).flatMap fun j => (hash₁.buckets j).entries) =
            (List.range' (i + 1) count).flatMap fun j => (hash.buckets j).entries := by
          apply List.flatMap_congr
          intro j member
          obtain ⟨low, high⟩ := List.mem_range'_1.mp member
          exact others j (by omega) (by omega)
        exact same ▸ more

theorem termSpares_spec (spares : List Pointer) (filed : Filed hash [])
    (isFree : hash.freeEnts = spares) (counted : hash.freeSize.toNat = spares.length)
    (mapped : ∀ ent ∈ spares, ∃ entry, hash.ents ent = some entry) (nodup : spares.Nodup) :
    ∃ buckets ents,
    termSpares spares hash = .ok
      { hash with buckets := buckets, ents := ents, freeEnts := [], freeSize := 0 } ∧
      Filed { hash with buckets := buckets, ents := ents, freeEnts := [], freeSize := 0 } [] ∧
      ∀ a, ents a = if a ∈ spares then none else hash.ents a := by
  induction spares generalizing hash with
  | nil =>
      have zero : hash.freeSize = 0 := UInt64.toNat_inj.mp counted
      refine ⟨hash.buckets, hash.ents, ?_, filed.congr rfl rfl (fun _ _ => rfl)
        (fun _ _ => rfl), by simp⟩
      rw [termSpares, ← zero, ← isFree]
  | cons ent rest ih =>
      obtain ⟨outside, nodupRest⟩ := List.nodup_cons.mp nodup
      obtain ⟨entry, here⟩ := mapped ent List.mem_cons_self
      rw [List.length_cons] at counted
      have filed₁ : Filed { hash.unlink ent with
          freeSize := hash.freeSize - 1, ents := Function.update hash.ents ent none } [] :=
        (filed.unlink_spare ent List.not_mem_nil).congr rfl rfl (fun _ _ => rfl) nofun
      obtain ⟨buckets, ents, run, filed', cleared⟩ := ih filed₁
        (by simp only [Amstrhash.unlink, isFree, List.erase_cons_head])
        (show (hash.freeSize - 1).toNat = rest.length by rw [toNat_pred (by omega), counted]; rfl)
        (fun a member => by
          obtain ⟨e, isEntry⟩ := mapped a (List.mem_cons_of_mem _ member)
          exact ⟨e, (Function.update_of_ne (fun same : a = ent => outside (same ▸ member)) ..).trans
            isEntry⟩)
        nodupRest
      refine ⟨buckets, ents, ?_, filed', fun a => ?_⟩
      · simp only [termSpares, Amstrhash.entry, here, bind, Except.bind]
        exact run
      · rw [cleared]
        by_cases later : a ∈ rest
        · rw [if_pos later, if_pos (List.mem_cons_of_mem _ later)]
        · rw [if_neg later]
          by_cases same : a = ent
          · rw [same, if_pos List.mem_cons_self]
            exact Function.update_self ..
          · rw [if_neg fun member => (List.mem_cons.mp member).elim same later]
            exact Function.update_of_ne same ..

end Loops

end Libam.Strhash
