import Libam.Strhash.Layout

/-! What a hash table holds besides its buckets, and how the search, a new entry, a removal and the
end of the table keep it. -/

namespace Libam.Strhash

open Libam.Lists

variable {V : Type} {hash : Amstrhash V} {entries : List Pointer} {ent : Pointer} {hv : UInt64}

section Holdings

def Amstrhash.keyAt (hash : Amstrhash V) (ent : Pointer) : Option Pointer :=
  (hash.ents ent).bind (·.key)

/-- The entries of the table have different hashes, the spare entries are other ones and as many as
counted, and copied keys belong to one entry each. -/
structure Kept (hash : Amstrhash V) (entries : List Pointer) : Prop where
  size : hash.size.toNat = entries.length
  nodup : (entries ++ hash.freeEnts).Nodup
  distinct : ∀ a ∈ entries, ∀ b ∈ entries, ∀ hv, hash.hashAt a = some hv →
    hash.hashAt b = some hv → a = b
  spare : hash.freeSize.toNat = hash.freeEnts.length
  few : hash.freeSize ≤ hash.attr.freeSize
  mapped : ∀ ent ∈ hash.freeEnts, ∃ entry, hash.ents ent = some entry
  owned : hash.flags.dupKeys = true → ∀ a ∈ entries, ∀ key, hash.keyAt a = some key →
    ∃ str, hash.strings key = some str
  apart : hash.flags.dupKeys = true → ∀ a ∈ entries, ∀ b ∈ entries, ∀ key, hash.keyAt a = some key →
    hash.keyAt b = some key → a = b

theorem pointers_few {pointers : List Pointer} (nodup : pointers.Nodup) :
    pointers.length < wordSize := by
  have inRange : (pointers.map fun p => p.1.toNat) ⊆ List.range' 1 (wordSize - 1) := by
    intro n member
    obtain ⟨p, _, rfl⟩ := List.mem_map.mp member
    have positive : 0 < p.1.toNat := Nat.pos_of_ne_zero fun zero => p.2 (UInt64.toNat_inj.mp zero)
    have below : p.1.toNat < wordSize := p.1.toNat_lt
    exact List.mem_range'_1.mpr ⟨positive, by omega⟩
  have different : (pointers.map fun p => p.1.toNat).Nodup :=
    nodup.map fun p q same => Subtype.ext (UInt64.toNat_inj.mp same)
  have bound := different.length_le_of_subset inRange
  rw [List.length_map, List.length_range'] at bound
  exact Nat.lt_of_le_of_lt bound (by decide)

theorem Kept.few_entries (kept : Kept hash entries) : entries.length < wordSize :=
  pointers_few (List.nodup_append'.mp kept.nodup).1

theorem Kept.perm {others : List Pointer} (kept : Kept hash entries) (perm : entries.Perm others) :
    Kept hash others := by
  have back {a : Pointer} (member : a ∈ others) : a ∈ entries := perm.mem_iff.mpr member
  exact ⟨kept.size.trans perm.length_eq, (perm.append_right _).nodup_iff.mp kept.nodup,
    fun a first b second => kept.distinct a (back first) b (back second), kept.spare,
    kept.few, kept.mapped,
    fun copied a member => kept.owned copied a (back member),
    fun copied a first b second => kept.apart copied a (back first) b (back second)⟩

theorem hashAt_update (hash : Amstrhash V) (a b : Pointer) (entry : Option (AmstrhashEntry V)) :
    ({ hash with ents := Function.update hash.ents a entry }).hashAt b =
      if b = a then entry.map (·.keyHash) else hash.hashAt b := by
  simp only [Amstrhash.hashAt, Function.update_apply]
  split <;> rfl

theorem keyAt_update (hash : Amstrhash V) (a b : Pointer) (entry : Option (AmstrhashEntry V)) :
    ({ hash with ents := Function.update hash.ents a entry }).keyAt b =
      if b = a then entry.bind (·.key) else hash.keyAt b := by
  simp only [Amstrhash.keyAt, Function.update_apply]
  split <;> rfl

end Holdings

section Search

variable {key : Pointer} {str : CString}

theorem sameString_self (here : hash.strings key = some str) :
    hash.sameString (some key) (some key) = .ok true := by
  simp only [Amstrhash.sameString, Amstrhash.string, here, bind, Except.bind, beq_self_eq_true]
  rfl

theorem findEnt_cases {key : Option Pointer}
    (readable : ∀ k, key = some k → ∃ str, hash.strings k = some str) (hv : UInt64)
    (listed : List Pointer) (mapped : ∀ ent ∈ listed, ∃ entry, hash.ents ent = some entry) :
    findEnt hash key hv listed = match listed.find? fun ent =>
    decide (hash.hashAt ent = some hv) with
      | none => .ok none
      | some ent =>
          if hash.keyAt ent = none ∧ key = none then .error .null else .ok (some ent) := by
  induction listed with
  | nil => rfl
  | cons ent rest ih =>
      obtain ⟨entry, isEntry⟩ := mapped ent List.mem_cons_self
      have later := ih fun e member => mapped e (List.mem_cons_of_mem _ member)
      have isKey : hash.keyAt ent = entry.key := by rw [Amstrhash.keyAt, isEntry, Option.bind_some]
      simp only [findEnt, Amstrhash.entry, isEntry, bind, Except.bind]
      by_cases same : entry.keyHash = hv
      · have found : decide (hash.hashAt ent = some hv) = true := by
          simp [Amstrhash.hashAt, isEntry, same]
        rw [if_neg (not_not.mpr same),
          List.find?_cons_of_pos (p := fun ent => decide (hash.hashAt ent = some hv)) found]
        simp only [isKey]
        by_cases own : entry.key = key
        · cases key with
          | none => simp [own, Amstrhash.sameString, Amstrhash.string, bind, Except.bind]
          | some k =>
              obtain ⟨str, here⟩ := readable k rfl
              simp only [own, ne_eq, not_true_eq_false, if_false, sameString_self here,
                if_true, reduceCtorEq, and_self]
              rfl
        · have different : ¬ (entry.key = none ∧ key = none) := fun both =>
              own (both.1.trans both.2.symm)
          rw [if_pos own, if_neg different]
          rfl
      · have other : ¬ decide (hash.hashAt ent = some hv) = true := by
          simp [Amstrhash.hashAt, isEntry, same]
        rw [if_pos same, later,
          List.find?_cons_of_neg (p := fun ent => decide (hash.hashAt ent = some hv)) other]

theorem findEnt_spec (here : hash.strings key = some str) (hv : UInt64) (listed : List Pointer)
    (mapped : ∀ ent ∈ listed, ∃ entry, hash.ents ent = some entry) :
    findEnt hash (some key) hv listed = .ok
    (listed.find? fun ent => decide (hash.hashAt ent = some hv)) := by
  rw [findEnt_cases (fun k same => ⟨str, Option.some.inj same ▸ here⟩) hv listed mapped]
  cases listed.find? fun ent => decide (hash.hashAt ent = some hv) with
  | none => rfl
  | some ent => exact if_neg fun both => nomatch both.2

theorem Filed.find (filed : Filed hash entries) (here : hash.strings key = some str) (hv : UInt64) :
    ∃ out, findEnt hash (some key) hv (hash.buckets (place hash hv)).entries = .ok out ∧
      (∀ ent, out = some ent → ent ∈ entries ∧ hash.hashAt ent = some hv) ∧
      (out = none → ∀ ent ∈ entries, hash.hashAt ent ≠ some hv) := by
  have inside {ent : Pointer} (member : ent ∈ (hash.buckets (place hash hv)).entries) :
      ent ∈ entries :=
    filed.all.mem_iff.mp (mem_collected.mpr ⟨_, filed.place_lt hv, member⟩)
  refine ⟨_, findEnt_spec here hv _ fun ent member => filed.mapped (inside member),
    fun ent found => ?_,
    fun absent ent member same => ?_⟩
  · exact ⟨inside (List.mem_of_find?_eq_some found),
      of_decide_eq_true (List.find?_some
        (p := fun ent => decide (hash.hashAt ent = some hv)) found)⟩
  · have missed := List.find?_eq_none.mp absent ent ((filed.mem_bucket same).mpr member)
    exact missed (decide_eq_true same)

end Search

section Additions

variable {key copy fresh : Option Pointer} {value : Option V}

def storedKey (hash : Amstrhash V) (key copy : Option Pointer) : Option Pointer :=
  if hash.flags.dupKeys ∧ key ≠ none then copy else key

def storedStrings (hash : Amstrhash V) (key copy : Option Pointer) : Pointer → Option CString :=
  match copy with
  | none => hash.strings
  | some c =>
      if hash.flags.dupKeys ∧ key ≠ none then Function.update hash.strings c (key.bind hash.strings)
      else hash.strings

def Amstrhash.added (hash : Amstrhash V) (ent : Pointer) (entry : AmstrhashEntry V)
    (strings : Pointer → Option CString) : Amstrhash V :=
  { hash with
    ents := Function.update hash.ents ent (some entry)
    strings := strings
    freeEnts := hash.freeEnts.tail
    freeSize := if hash.freeEnts = [] then hash.freeSize else hash.freeSize - 1
    size := hash.size + 1 }

def nextEnt (hash : Amstrhash V) (fresh : Option Pointer) : Option Pointer :=
  match hash.freeEnts with
  | [] => fresh
  | ent :: _ => some ent

structure Unused (hash : Amstrhash V) (copy fresh : Option Pointer) : Prop where
  copy : ∀ c, copy = some c → hash.strings c = none
  ent : ∀ e, fresh = some e → hash.ents e = none

theorem nextEnt_outside (filed : Filed hash entries) (kept : Kept hash entries)
    (unused : Unused hash copy fresh)
    (next : nextEnt hash fresh = some ent) : ent ∉ entries ++ hash.freeEnts.tail := by
  have nodup := kept.nodup
  cases spares : hash.freeEnts with
  | nil =>
      simp only [nextEnt, spares] at next
      rw [List.tail_nil, List.append_nil]
      intro member
      obtain ⟨entry, mapped⟩ := filed.mapped member
      cases (unused.ent ent next).symm.trans mapped
  | cons e rest =>
      simp only [nextEnt, spares, Option.some.injEq] at next
      subst next
      rw [spares] at nodup
      exact (List.nodup_middle.mp nodup).notMem

theorem Filed.unlink_spare (filed : Filed hash entries) (ent : Pointer) (outside : ent ∉ entries) :
    Filed { hash with buckets := (hash.unlink ent).buckets } entries := by
  refine filed.congr rfl rfl (fun i below => ?_) fun _ _ => rfl
  have notHere : ent ∉ (hash.buckets i).entries := fun member =>
    outside (filed.all.mem_iff.mp (mem_collected.mpr ⟨i, below, member⟩))
  simp only [Amstrhash.unlink, List.erase_of_not_mem notHere]

theorem obtainEnt_spec (hash : Amstrhash V) (fresh : Option Pointer) (filed : Filed hash entries)
    (spare : hash.freeSize.toNat = hash.freeEnts.length)
    (mapped : ∀ ent ∈ hash.freeEnts, ∃ entry, hash.ents ent = some entry)
    (outside : ∀ ent, nextEnt hash fresh = some ent → ent ∉ entries) :
    ∃ buckets, obtainEnt hash fresh = .ok ({ hash with
        buckets := buckets
        freeEnts := hash.freeEnts.tail
        freeSize := if hash.freeEnts = [] then hash.freeSize else hash.freeSize - 1 },
        nextEnt hash fresh) ∧
      Filed { hash with buckets := buckets } entries ∧
      (hash.freeEnts = [] → buckets = hash.buckets) := by
  cases spares : hash.freeEnts with
  | nil =>
      rw [spares] at spare
      have zero : hash.freeSize = 0 := UInt64.toNat_inj.mp spare
      refine ⟨hash.buckets, ?_, filed.congr rfl rfl (fun _ _ => rfl) fun _ _ => rfl, fun _ => rfl⟩
      simp only [obtainEnt, spares, if_pos zero, nextEnt, List.tail_nil, if_true]
      rw [← spares]
  | cons e rest =>
      have filed' := filed.unlink_spare e (outside e (by simp only [nextEnt, spares]))
      rw [spares] at spare
      have positive : 0 < hash.freeSize := UInt64.lt_iff_toNat_lt.mpr (by
        rw [spare, List.length_cons]
        exact Nat.succ_pos _)
      obtain ⟨entry, isEntry⟩ := mapped e (by rw [spares]; exact List.mem_cons_self)
      refine ⟨(hash.unlink e).buckets, ?_,
        filed'.congr rfl rfl (fun _ _ => rfl) fun _ _ => rfl, nofun⟩
      simp only [obtainEnt, spares, if_pos positive, Amstrhash.entry, isEntry, bind,
        Except.bind, nextEnt,
        List.tail_cons, if_neg (List.cons_ne_nil e rest), Amstrhash.unlink, List.erase_cons_head]
      rfl

theorem dupKey_spec (hash : Amstrhash V) (copy : Option Pointer)
    (mapped : ∀ k, key = some k → ∃ str, hash.strings k = some str) :
    dupKey hash key copy = if (hash.flags.dupKeys ∧ key ≠ none) ∧ copy = none then .ok none
      else .ok (some ({ hash with strings := storedStrings hash key copy },
        storedKey hash key copy)) := by
  by_cases copies : hash.flags.dupKeys ∧ key ≠ none
  · obtain ⟨k, rfl⟩ := Option.ne_none_iff_exists'.mp copies.2
    obtain ⟨str, here⟩ := mapped k rfl
    simp only [dupKey, if_pos copies, Amstrhash.string, here, bind, Except.bind]
    cases copy with
    | none =>
        rw [if_pos ⟨copies, rfl⟩]
        rfl
    | some c =>
        rw [if_neg fun both => nomatch both.2]
        simp only [storedStrings, storedKey, if_pos copies, Option.bind_some, here]
        rfl
  · rw [if_neg fun both => copies both.1, dupKey, if_neg copies, storedKey, if_neg copies]
    cases copy with
    | none => rfl
    | some c => rw [storedStrings, if_neg copies]

def EntFails (hash : Amstrhash V) (key copy fresh : Option Pointer) : Prop :=
  ((hash.flags.dupKeys ∧ key ≠ none) ∧ copy = none) ∨ nextEnt hash fresh = none

theorem obtainEnt_none (hash : Amstrhash V) (fresh : Option Pointer) (spares : hash.freeEnts = [])
    (zero : hash.freeSize = 0) :
    obtainEnt hash fresh = .ok (hash, fresh) := by
  simp only [obtainEnt, spares, if_pos zero]

theorem releaseKey_stored (unused : Unused hash copy fresh)
    (some : ¬ ((hash.flags.dupKeys ∧ key ≠ none) ∧ copy = none))
    (mapped : ∀ k, key = .some k → ∃ str, hash.strings k = .some str) :
    ({ hash with strings := storedStrings hash key copy }).releaseKey
    (storedKey hash key copy) = .ok hash := by
  by_cases copies : hash.flags.dupKeys ∧ key ≠ none
  · obtain ⟨k, rfl⟩ := Option.ne_none_iff_exists'.mp copies.2
    cases copy with
    | none => exact absurd ⟨copies, rfl⟩ some
    | some c =>
        obtain ⟨str, here⟩ := mapped k rfl
        have isStrings : storedStrings hash (.some k) (.some c) = Function.update hash.strings c
            (.some str) := by
          simp only [storedStrings, if_pos copies, Option.bind_some, here]
        have restored : Function.update hash.strings c none = hash.strings := by
          rw [← unused.copy c rfl, Function.update_eq_self]
        simp only [Amstrhash.releaseKey, if_pos copies.1, storedKey, if_pos copies, isStrings,
          Amstrhash.freeKey,
          Amstrhash.string, Function.update_self, bind, Except.bind, Function.update_idem, restored]
        rfl
  · have same : storedStrings hash key copy = hash.strings := by
      cases copy with
      | none => rfl
      | some c => exact if_neg copies
    rw [same, storedKey, if_neg copies, Amstrhash.releaseKey]
    split
    · next copied =>
        have noKey : key = none := by
          by_contra isKey
          exact copies ⟨copied, isKey⟩
        rw [noKey]
        rfl
    · rfl

theorem nextEnt_eq_none (none : nextEnt hash fresh = none) : hash.freeEnts = [] ∧
    fresh = .none := by
  cases spares : hash.freeEnts with
  | nil =>
      simp only [nextEnt, spares] at none
      exact ⟨rfl, none⟩
  | cons e rest => simp [nextEnt, spares] at none

theorem entNew_failed (kept : Kept hash entries) (unused : Unused hash copy fresh)
    (mapped : ∀ k, key = some k → ∃ str, hash.strings k = some str)
    (fails : EntFails hash key copy fresh) (bucket : ℕ) :
    amstrhashEntNew hash bucket key hv value copy fresh = .ok (hash, .error) := by
  by_cases noCopy : (hash.flags.dupKeys ∧ key ≠ none) ∧ copy = none
  · simp only [amstrhashEntNew, dupKey_spec hash copy mapped, if_pos noCopy, bind, Except.bind]
    rfl
  · obtain ⟨spares, rfl⟩ := nextEnt_eq_none (fails.resolve_left noCopy)
    have zero : hash.freeSize = 0 := by
      have spare := kept.spare
      rw [spares] at spare
      exact UInt64.toNat_inj.mp spare
    have obtained := obtainEnt_none { hash with strings := storedStrings hash key copy }
      none spares zero
    simp only [amstrhashEntNew, dupKey_spec hash copy mapped, if_neg noCopy, bind,
      Except.bind, obtained]
    rw [releaseKey_stored unused noCopy mapped]
    rfl

theorem entNew_added (hv : UInt64) (value : Option V) (filed : Filed hash entries)
    (kept : Kept hash entries) (unused : Unused hash copy fresh)
    (mapped : ∀ k, key = some k → ∃ str, hash.strings k = some str)
    (copied : ¬ ((hash.flags.dupKeys ∧ key ≠ none) ∧ copy = none))
    (next : nextEnt hash fresh = some ent) :
    ∃ buckets, amstrhashEntNew hash (place hash hv) key hv value copy fresh =
        .ok ({ hash.added ent ⟨storedKey hash key copy, hv, value⟩
          (storedStrings hash key copy) with
          buckets := buckets }, .success) ∧
      Filed { hash.added ent ⟨storedKey hash key copy, hv, value⟩ (storedStrings hash key copy) with
        buckets := buckets } (ent :: entries) := by
  have outside := nextEnt_outside filed kept unused next
  have filed₀ : Filed { hash with strings := storedStrings hash key copy } entries :=
    filed.congr rfl rfl (fun _ _ => rfl) fun _ _ => rfl
  obtain ⟨buckets, obtained, filed₁, _⟩ :=
    obtainEnt_spec { hash with strings := storedStrings hash key copy }
    fresh filed₀ kept.spare kept.mapped (fun e isNext member => by
      cases next.symm.trans isNext
      exact outside (List.mem_append_left _ member))
  have named : nextEnt { hash with strings := storedStrings hash key copy } fresh = some ent := next
  have filed₂ : Filed
      { hash.added ent ⟨storedKey hash key copy, hv, value⟩ (storedStrings hash key copy) with
      buckets := buckets } entries := by
    refine filed₁.congr rfl rfl (fun _ _ => rfl) fun e member => ?_
    have other : e ≠ ent := fun same => outside (List.mem_append_left _ (same ▸ member))
    simp only [Amstrhash.hashAt, Amstrhash.added, Function.update_of_ne other]
  have few := pointers_few (List.nodup_cons.mpr
    ⟨fun member => outside (List.mem_append_left _ member), (List.nodup_append'.mp kept.nodup).1⟩)
  have atEnt : ({ hash.added ent ⟨storedKey hash key copy, hv, value⟩
      (storedStrings hash key copy) with
      buckets := buckets }).hashAt ent = some hv := by
    simp only [Amstrhash.hashAt, Amstrhash.added, Function.update_self, Option.map_some]
  have linked := filed₂.link atEnt few
  refine ⟨_, ?_, linked⟩
  simp only [amstrhashEntNew, dupKey_spec hash copy mapped, if_neg copied, bind, Except.bind,
    obtained, named]
  rfl

theorem stored_new (unused : Unused hash copy fresh)
    (mapped : ∀ k, key = some k → ∃ str, hash.strings k = some str)
    (copied : hash.flags.dupKeys = true) {k : Pointer} (own : storedKey hash key copy = some k) :
    hash.strings k = none ∧ ∃ str, storedStrings hash key copy k = some str := by
  cases key with
  | none => simp [storedKey] at own
  | some original =>
      have both : hash.flags.dupKeys ∧ (some original) ≠ none := ⟨copied, nofun⟩
      rw [storedKey, if_pos both] at own
      subst own
      obtain ⟨str, here⟩ := mapped original rfl
      refine ⟨unused.copy k rfl, str, ?_⟩
      rw [storedStrings, if_pos both, Function.update_self, Option.bind_some, here]

theorem stored_old (unused : Unused hash copy fresh) {k : Pointer} {str : CString}
    (here : hash.strings k = some str) : storedStrings hash key copy k = some str := by
  cases copy with
  | none => exact here
  | some c =>
      rw [storedStrings]
      split
      · have other : k ≠ c := by
          intro same
          cases (unused.copy c rfl).symm.trans (same ▸ here)
        rw [Function.update_of_ne other, here]
      · exact here

theorem Kept.added (filed : Filed hash entries) (kept : Kept hash entries)
    (unused : Unused hash copy fresh)
    (mapped : ∀ k, key = some k → ∃ str, hash.strings k = some str)
    (next : nextEnt hash fresh = some ent) (absent : ∀ a ∈ entries, hash.hashAt a ≠ some hv) :
    Kept (hash.added ent ⟨storedKey hash key copy, hv, value⟩ (storedStrings hash key copy))
    (ent :: entries) := by
  have outside := nextEnt_outside filed kept unused next
  have notHere : ent ∉ entries := fun member => outside (List.mem_append_left _ member)
  have other {a : Pointer} (member : a ∈ entries) : a ≠ ent := fun same => notHere (same ▸ member)
  have nodup := kept.nodup
  have spare := kept.spare
  obtain ⟨nodupEntries, nodupFree, disjoint⟩ := List.nodup_append'.mp nodup
  refine ⟨?_, ?_, ?_, ?_, ?_, ?_, ?_, ?_⟩
  · have few := pointers_few (List.nodup_cons.mpr ⟨notHere, nodupEntries⟩)
    rw [List.length_cons] at few
    show (hash.size + 1).toNat = _
    rw [toNat_succ (by rw [kept.size]; exact few), kept.size, List.length_cons]
  · refine List.nodup_cons.mpr ⟨outside, List.nodup_append'.mpr ⟨nodupEntries, nodupFree.tail, ?_⟩⟩
    exact fun a first second => disjoint first (List.mem_of_mem_tail second)
  · intro a first b second hv' here there
    rw [Amstrhash.added] at here there
    have atA := (hashAt_update hash ent a (some ⟨storedKey hash key copy, hv, value⟩)).symm.trans
      here
    have atB := (hashAt_update hash ent b (some ⟨storedKey hash key copy, hv, value⟩)).symm.trans
      there
    rcases List.mem_cons.mp first with rfl | inA <;> rcases List.mem_cons.mp second with rfl | inB
    · rfl
    · rw [if_pos rfl] at atA
      rw [if_neg (other inB)] at atB
      cases atA
      exact absurd atB (absent b inB)
    · rw [if_pos rfl] at atB
      rw [if_neg (other inA)] at atA
      cases atB
      exact absurd atA (absent a inA)
    · rw [if_neg (other inA)] at atA
      rw [if_neg (other inB)] at atB
      exact kept.distinct a inA b inB hv' atA atB
  · show (if hash.freeEnts = [] then hash.freeSize else hash.freeSize - 1).toNat =
        hash.freeEnts.tail.length
    split
    · next spares => simp [spare, spares]
    · next spares =>
        have positive := List.length_pos_iff.mpr spares
        rw [toNat_pred (by omega), spare, List.length_tail]
  · show (if hash.freeEnts = [] then hash.freeSize else hash.freeSize - 1) ≤ hash.attr.freeSize
    have few := UInt64.le_iff_toNat_le.mp kept.few
    split
    · exact kept.few
    · next spares =>
        have positive := List.length_pos_iff.mpr spares
        apply UInt64.le_iff_toNat_le.mpr
        rw [toNat_pred (by omega)]
        omega
  · intro a member
    have inFree := List.mem_of_mem_tail member
    by_cases same : a = ent
    · exact ⟨_, by rw [same, Amstrhash.added]; exact Function.update_self ..⟩
    · obtain ⟨entry, here⟩ := kept.mapped a inFree
      exact ⟨entry, (Function.update_of_ne same ..).trans here⟩
  · intro copied a member k here
    have atA := (keyAt_update hash ent a (some ⟨storedKey hash key copy, hv, value⟩)).symm.trans
      here
    rcases List.mem_cons.mp member with rfl | inA
    · rw [if_pos rfl] at atA
      exact (stored_new unused mapped copied atA).2
    · rw [if_neg (other inA)] at atA
      obtain ⟨str, isString⟩ := kept.owned copied a inA k atA
      exact ⟨str, stored_old unused isString⟩
  · intro copied a first b second k here there
    have atA := (keyAt_update hash ent a (some ⟨storedKey hash key copy, hv, value⟩)).symm.trans
      here
    have atB := (keyAt_update hash ent b (some ⟨storedKey hash key copy, hv, value⟩)).symm.trans
      there
    have clash {c : Pointer} (inside : c ∈ entries) (old : hash.keyAt c = some k)
        (new : storedKey hash key copy = some k) : False := by
      obtain ⟨str, isString⟩ := kept.owned copied c inside k old
      cases (stored_new unused mapped copied new).1.symm.trans isString
    rcases List.mem_cons.mp first with rfl | inA <;> rcases List.mem_cons.mp second with rfl | inB
    · rfl
    · rw [if_pos rfl] at atA
      rw [if_neg (other inB)] at atB
      exact (clash inB atB atA).elim
    · rw [if_pos rfl] at atB
      rw [if_neg (other inA)] at atA
      exact (clash inA atA atB).elim
    · rw [if_neg (other inA)] at atA
      rw [if_neg (other inB)] at atB
      exact kept.apart copied a inA b inB k atA atB

end Additions

section Removals

variable {entry : AmstrhashEntry V}

def releasedStrings (hash : Amstrhash V) (key : Option Pointer) : Pointer → Option CString :=
  match key with
  | none => hash.strings
  | some k => if hash.flags.dupKeys then Function.update hash.strings k none else hash.strings

def Amstrhash.removed (hash : Amstrhash V) (ent : Pointer) (entry : AmstrhashEntry V)
    (useCb : Bool) : Amstrhash V :=
  { hash.issueCallback entry.key entry.value useCb with
    strings := releasedStrings hash entry.key
    size := hash.size - 1
    ents := Function.update hash.ents ent
      (if hash.freeSize ≥ hash.attr.freeSize then none else some ⟨none, entry.keyHash, none⟩)
    freeEnts := if hash.freeSize ≥ hash.attr.freeSize then hash.freeEnts else ent :: hash.freeEnts
    freeSize := if hash.freeSize ≥ hash.attr.freeSize then hash.freeSize else hash.freeSize + 1 }

theorem releaseKey_spec (hash : Amstrhash V) (entry : AmstrhashEntry V)
    (owned : hash.flags.dupKeys = true → ∀ k, entry.key = some k →
    ∃ str, hash.strings k = some str) :
    hash.releaseKey entry.key = .ok { hash with strings := releasedStrings hash entry.key } := by
  rw [Amstrhash.releaseKey]
  split
  · next copied =>
      cases isKey : entry.key with
      | none => rfl
      | some k =>
          obtain ⟨str, here⟩ := owned copied k isKey
          simp only [Amstrhash.freeKey, Amstrhash.string, here, bind, Except.bind, releasedStrings,
            if_pos copied]
          rfl
  · next notCopied =>
      have same : releasedStrings hash entry.key = hash.strings := by
        cases entry.key with
        | none => rfl
        | some k => exact if_neg notCopied
      rw [same]

theorem removeEnt_spec (filed : Filed hash entries) (kept : Kept hash entries)
    (member : ent ∈ entries) (here : hash.ents ent = some entry) (useCb : Bool) :
    removeEnt hash ent useCb = .ok { hash.removed ent entry useCb with
        buckets := without hash ent (place hash entry.keyHash) } ∧
      Filed { hash.removed ent entry useCb with
        buckets := without hash ent (place hash entry.keyHash) }
        (entries.erase ent) := by
  have atEnt : hash.hashAt ent = some entry.keyHash := by
    rw [Amstrhash.hashAt, here, Option.map_some]
  obtain ⟨nodup, _, disjoint⟩ := List.nodup_append'.mp kept.nodup
  constructor
  · have released := releaseKey_spec (hash.issueCallback entry.key entry.value useCb) entry
      fun copied k isKey => kept.owned copied ent member k (by
        rw [Amstrhash.keyAt, here, Option.bind_some, isKey])
    have bucket (h : Amstrhash V) (capacity : h.capacity = hash.capacity)
        (slots : h.slots = hash.slots) :
        amstrhashBucket h entry.keyHash = .ok (place hash entry.keyHash) := by
      rw [← filed.bucket, amstrhashBucket, amstrhashBucket, capacity, slots]
    have notFree : hash.freeEnts.erase ent = hash.freeEnts := List.erase_of_not_mem
      (disjoint member)
    simp only [removeEnt, Amstrhash.entry, here, bind, Except.bind, released]
    rw [bucket]
    · by_cases full : hash.freeSize ≥ hash.attr.freeSize
      · simp only [Amstrhash.issueCallback, Amstrhash.unlink, if_pos full,
          Function.update_idem, notFree,
          Amstrhash.removed]
        rfl
      · simp only [Amstrhash.issueCallback, Amstrhash.unlink, if_neg full, notFree,
          Amstrhash.removed]
        rfl
    · rfl
    · rfl
  · refine (filed.unlink member atEnt).congr rfl rfl (fun _ _ => rfl) fun a inside => ?_
    have other : a ≠ ent := fun same => (List.Nodup.not_mem_erase nodup) (same ▸ inside)
    simp only [Amstrhash.hashAt, Amstrhash.removed, Function.update_of_ne other]

theorem Kept.removed (kept : Kept hash entries) (member : ent ∈ entries)
    (here : hash.ents ent = some entry) (useCb : Bool) :
    Kept (hash.removed ent entry useCb) (entries.erase ent) := by
  obtain ⟨nodup, nodupFree, disjoint⟩ := List.nodup_append'.mp kept.nodup
  have back {a : Pointer} (inside : a ∈ entries.erase ent) : a ∈ entries ∧ a ≠ ent :=
    ⟨List.mem_of_mem_erase inside, fun same => nodup.not_mem_erase (same ▸ inside)⟩
  have entries_kept {a : Pointer} (other : a ≠ ent) :
      (hash.removed ent entry useCb).ents a = hash.ents a :=
    Function.update_of_ne other ..
  have hashes {a : Pointer} (other : a ≠ ent) :
      (hash.removed ent entry useCb).hashAt a = hash.hashAt a := by
    rw [Amstrhash.hashAt, entries_kept other, Amstrhash.hashAt]
  have keys {a : Pointer} (other : a ≠ ent) :
      (hash.removed ent entry useCb).keyAt a = hash.keyAt a := by
    rw [Amstrhash.keyAt, entries_kept other, Amstrhash.keyAt]
  have positive := List.length_pos_of_mem member
  refine ⟨?_, ?_, ?_, ?_, ?_, ?_, ?_, ?_⟩
  · show (hash.size - 1).toNat = _
    rw [toNat_pred (by rw [kept.size]; exact positive), kept.size, List.length_erase_of_mem member]
  · show (entries.erase ent ++ if hash.freeSize ≥ hash.attr.freeSize then hash.freeEnts
      else ent :: hash.freeEnts).Nodup
    split
    · exact kept.nodup.sublist (List.erase_sublist.append_right _)
    · have moved : (entries.erase ent ++ ent :: hash.freeEnts).Perm (entries ++ hash.freeEnts) :=
        List.perm_middle.trans ((List.perm_cons_erase member).symm.append_right _)
      exact moved.nodup_iff.mpr kept.nodup
  · intro a first b second hv' atA atB
    rw [hashes (back first).2] at atA
    rw [hashes (back second).2] at atB
    exact kept.distinct a (back first).1 b (back second).1 hv' atA atB
  · show (if hash.freeSize ≥ hash.attr.freeSize then hash.freeSize else hash.freeSize + 1).toNat =
      (if hash.freeSize ≥ hash.attr.freeSize then hash.freeEnts else ent :: hash.freeEnts).length
    split
    · exact kept.spare
    · have few := pointers_few (List.nodup_cons.mpr ⟨disjoint member, nodupFree⟩)
      rw [List.length_cons] at few ⊢
      rw [toNat_succ (by rw [kept.spare]; exact few), kept.spare]
  · show (if hash.freeSize ≥ hash.attr.freeSize then hash.freeSize else hash.freeSize + 1) ≤
        hash.attr.freeSize
    split
    · exact kept.few
    · next room =>
        have below : hash.freeSize.toNat < hash.attr.freeSize.toNat :=
          Nat.lt_of_not_le fun enough => room (UInt64.le_iff_toNat_le.mpr enough)
        have bound := hash.attr.freeSize.toNat_lt
        apply UInt64.le_iff_toNat_le.mpr
        rw [toNat_succ (show hash.freeSize.toNat + 1 < wordSize from
          Nat.lt_of_le_of_lt below bound)]
        exact below
  · intro a inFree
    by_cases full : hash.freeSize ≥ hash.attr.freeSize
    · have spare : a ∈ hash.freeEnts := by
        simp only [Amstrhash.removed, if_pos full] at inFree
        exact inFree
      obtain ⟨e, isEntry⟩ := kept.mapped a spare
      exact ⟨e, (entries_kept fun same => disjoint member (same ▸ spare)).trans isEntry⟩
    · simp only [Amstrhash.removed, if_neg full] at inFree ⊢
      by_cases same : a = ent
      · exact ⟨_, by rw [same, Function.update_self]⟩
      · obtain ⟨e, isEntry⟩ := kept.mapped a ((List.mem_cons.mp inFree).resolve_left same)
        exact ⟨e, (Function.update_of_ne same ..).trans isEntry⟩
  · intro copied a inside k isKey
    rw [keys (back inside).2] at isKey
    obtain ⟨str, isString⟩ := kept.owned copied a (back inside).1 k isKey
    refine ⟨str, ?_⟩
    show releasedStrings hash entry.key k = some str
    cases own : entry.key with
    | none => exact isString
    | some k' =>
        have other : k ≠ k' := by
          intro same
          refine (back inside).2 (kept.apart copied a (back inside).1 ent member k isKey ?_)
          rw [Amstrhash.keyAt, here, Option.bind_some, own, same]
        rw [releasedStrings]
        split
        · rw [Function.update_of_ne other, isString]
        · exact isString
  · intro copied a first b second k atA atB
    rw [keys (back first).2] at atA
    rw [keys (back second).2] at atB
    exact kept.apart copied a (back first).1 b (back second).1 k atA atB

end Removals

end Libam.Strhash
