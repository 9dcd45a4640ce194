import Libam.Strhash.Load
import Libam.Strhash.Refinement

/-! Sequences of calls on a hash table whose keys may be NULL, which is a key with a
hash of its own. -/

namespace Libam.Strhash

open Libam.Lists Libam.Interleaving

variable {V : Type} {hash hash' start : Amstrhash V} {entries entries' : List Pointer}
  {ent : Pointer} {entry : AmstrhashEntry V} {key : Option Pointer} {hv : UInt64} {value : Option V}
  {allocs : Allocations} {reply : LockReply}

section Operations

inductive KeyCall (V : Type)
  | insert (value : Option V) (allocs : Allocations)
  | find
  | removeKey

def applyKey (hash : Amstrhash V) (key : Option Pointer) (call : KeyCall V) (reply : LockReply) :
    Except Fault (Amstrhash V × Result) :=
  match call with
  | .insert value allocs => do
      let (hash, rc, oldKey) ← amstrhashInsert hash key value allocs reply
      return (hash, .inserted rc oldKey)
  | .find => do
      let (hash, ent) ← amstrhashFind hash key reply
      return (hash, .found ent)
  | .removeKey => do
      let (hash, rc) ← amstrhashRemoveKey hash key reply
      return (hash, .returned rc)

inductive AnyCall (V : Type)
  | keyed (key : Option Pointer) (call : KeyCall V) (reply : LockReply)
  | other (op : Op V) (reply : LockReply)

def applyAny (hash : Amstrhash V) : AnyCall V → Except Fault (Amstrhash V × Result)
  | .keyed key call reply => applyKey hash key call reply
  | .other op reply => apply hash op reply

def stepAny (hash : Amstrhash V) (call : AnyCall V) : Option (Amstrhash V) :=
  match applyAny hash call with
  | .ok (hash, _) => some hash
  | .error _ => none

/-- A key that is not NULL is in memory, and allocations return memory that is not in use. -/
structure Supplied (hash : Amstrhash V) (key : Option Pointer) (call : KeyCall V) : Prop where
  readable : ∀ k, key = some k → ∃ str, hash.strings k = some str
  unused : ∀ value allocs, call = .insert value allocs → Unused hash allocs.copy allocs.ent

def ReadyAny (hash : Amstrhash V) (call : AnyCall V) (_ : Amstrhash V) : Prop :=
  match call with
  | .keyed key call _ => Supplied hash key call
  | .other op _ => op.key = none ∧ Ready hash op hash

/-- What `calc_hash` returns for NULL. -/
def nullHash : UInt64 := 0xFFFFFFFFFFFFFFFF

end Operations

section Contents

def Amstrhash.contents (hash : Amstrhash V) (ent : Pointer) : Option (AmstrhashEntry V) :=
  if ent ∈ hash.listed then hash.ents ent else none

inductive Effect (V : Type)
  | none
  | assign (ent : Pointer) (value : Option V)
  | add (ent : Pointer) (entry : AmstrhashEntry V)
  | erase (ent : Pointer)

def Effect.after (contents : Pointer → Option (AmstrhashEntry V)) :
    Effect V → Pointer → Option (AmstrhashEntry V)
  | .none => contents
  | .assign ent value =>
      Function.update contents ent ((contents ent).map fun entry => { entry with value := value })
  | .add ent entry => Function.update contents ent (some entry)
  | .erase ent => Function.update contents ent Option.none

theorem Filed.contents_eq (filed : Filed hash entries) (ent : Pointer) :
    hash.contents ent = if ent ∈ entries then hash.ents ent else none := by
  simp only [Amstrhash.contents, filed.all.mem_iff]

theorem Filed.contents_some (filed : Filed hash entries) :
    hash.contents ent = some entry ↔ ent ∈ entries ∧ hash.ents ent = some entry := by
  rw [filed.contents_eq]
  split <;> simp [*]

theorem Filed.contents_same (filed : Filed hash entries) (filed' : Filed hash' entries)
    (ents : hash'.ents = hash.ents) : hash'.contents = hash.contents := by
  funext ent
  rw [filed'.contents_eq, filed.contents_eq, ents]

theorem Filed.contents_assign (filed : Filed hash entries) (filed' : Filed hash' entries)
    (member : ent ∈ entries) (here : hash.ents ent = some entry)
    (ents : hash'.ents = Function.update hash.ents ent (some { entry with value := value })) :
    hash'.contents = (Effect.assign ent value).after hash.contents := by
  funext a
  rw [Effect.after, filed'.contents_eq, ents, Function.update_apply, Function.update_apply,
    filed.contents_eq, filed.contents_eq]
  by_cases same : a = ent
  · rw [if_pos same, if_pos same, if_pos (same ▸ member), if_pos member, here, Option.map_some]
  · rw [if_neg same, if_neg same]

theorem Filed.contents_add (filed : Filed hash entries) (filed' : Filed hash' (ent :: entries))
    (ents : hash'.ents = Function.update hash.ents ent (some entry)) :
    hash'.contents = (Effect.add ent entry).after hash.contents := by
  funext a
  rw [Effect.after, filed'.contents_eq, ents, Function.update_apply, Function.update_apply,
    filed.contents_eq]
  by_cases same : a = ent
  · rw [if_pos same, if_pos same, if_pos (same ▸ List.mem_cons_self)]
  · simp only [List.mem_cons, same, false_or, if_false]

theorem Filed.contents_erase (filed : Filed hash entries) (nodup : entries.Nodup)
    (filed' : Filed hash' (entries.erase ent)) (ents : ∀ a, a ≠ ent → hash'.ents a = hash.ents a) :
    hash'.contents = (Effect.erase ent).after hash.contents := by
  funext a
  rw [Effect.after, filed'.contents_eq, Function.update_apply, filed.contents_eq]
  by_cases same : a = ent
  · rw [if_pos same, if_neg (same ▸ nodup.not_mem_erase)]
  · rw [if_neg same, ents a same]
    simp only [List.mem_erase_of_ne same]

end Contents

section Answers

def Lacks (hash : Amstrhash V) (hv : UInt64) : Prop :=
  ∀ ent entry, hash.contents ent = some entry → entry.keyHash ≠ hv

structure Hit (hash : Amstrhash V) (key : Option Pointer) (hv : UInt64) (ent : Pointer)
    (entry : AmstrhashEntry V) : Prop where
  held : hash.contents ent = some entry
  same : entry.keyHash = hv
  comparable : ¬ (entry.key = none ∧ key = none)

def Grows (hash : Amstrhash V) (hv : UInt64) : Prop := Lacks hash hv ∧
    shouldResize hash (place hash hv) = true

def Fits (hash : Amstrhash V) (hv : UInt64) : KeyCall V → Prop
  | .insert _ allocs =>
      Grows hash hv → allocs.array = true → hash.capacity.toNat * 2 * 24 < wordSize
  | _ => True

def AllocFails (hash : Amstrhash V) (key : Option Pointer) (hv : UInt64)
    (allocs : Allocations) : Prop :=
  shouldResize hash (place hash hv) = true ∧ allocs.array = false ∨
    EntFails hash key allocs.copy allocs.ent

inductive Handled (hash : Amstrhash V) (key : Option Pointer) (hv : UInt64) : KeyCall V → Result →
    Effect V → Prop
  | overwritten {ent : Pointer} {entry : AmstrhashEntry V} {value : Option V}
      {allocs : Allocations} :
      Hit hash key hv ent entry → hash.flags.overwrite = true →
      Handled hash key hv (.insert value allocs) (.inserted .success none) (.assign ent value)
  | refused {ent : Pointer} {entry : AmstrhashEntry V} {value : Option V} {allocs : Allocations} :
      Hit hash key hv ent entry → hash.flags.overwrite = false →
      Handled hash key hv (.insert value allocs) (.inserted .error (some ent)) .none
  | failed {value : Option V} {allocs : Allocations} : Lacks hash hv →
      AllocFails hash key hv allocs →
      Handled hash key hv (.insert value allocs) (.inserted .error none) .none
  | added {ent : Pointer} {stored : Option Pointer} {value : Option V} {allocs : Allocations} :
      Lacks hash hv →
      hash.contents ent = none → (stored = none ↔ key = none) →
      Handled hash key hv (.insert value allocs) (.inserted .success none)
      (.add ent ⟨stored, hv, value⟩)
  | missed : Lacks hash hv → Handled hash key hv .find (.found none) .none
  | found {ent : Pointer} {entry : AmstrhashEntry V} : Hit hash key hv ent entry →
      Handled hash key hv .find (.found (some ent)) .none
  | absent : Lacks hash hv → Handled hash key hv .removeKey (.returned .error) .none
  | removed {ent : Pointer} {entry : AmstrhashEntry V} : Hit hash key hv ent entry →
      Handled hash key hv .removeKey (.returned .success) (.erase ent)

/-- What holds of a table apart from its lock: an entry without a key has the hash of NULL. -/
structure Laid (hash : Amstrhash V) : Prop where
  held : ∃ entries, Filed hash entries ∧ Kept hash entries
  sized : hash.capacity.toNat * 24 < wordSize
  nulls : ∀ ent entry, hash.contents ent = some entry → entry.key = none → entry.keyHash = nullHash

theorem Laid.relock (laid : Laid hash) (lock : RwLock) (lockCalls : List LockCall) :
    Laid (hash.relock lock lockCalls) := by
  obtain ⟨⟨entries, filed, kept⟩, sized, nulls⟩ := laid
  exact ⟨⟨entries, filed.relock lock lockCalls, kept.relock lock lockCalls⟩, sized, nulls⟩

theorem Handled.nulls {call : KeyCall V} {result : Result} {effect : Effect V}
    (handled : Handled hash key hv call result effect) (laid : Laid hash)
    (isNull : key = none → hv = nullHash) (after : hash'.contents = effect.after hash.contents)
    (ent : Pointer) (entry : AmstrhashEntry V) (here : hash'.contents ent = some entry)
    (noKey : entry.key = none) : entry.keyHash = nullHash := by
  rw [after] at here
  cases handled with
  | @overwritten a old value allocs hit overwrite =>
      simp only [Effect.after, hit.held, Option.map_some, Function.update_apply] at here
      split at here
      · cases here
        exact laid.nulls a old hit.held noKey
      · exact laid.nulls ent entry here noKey
  | added lacks outside stored =>
      simp only [Effect.after, Function.update_apply] at here
      split at here
      · cases here
        exact isNull (stored.mp noKey)
      · exact laid.nulls ent entry here noKey
  | removed hit =>
      simp only [Effect.after, Function.update_apply] at here
      split at here
      · cases here
      · exact laid.nulls ent entry here noKey
  | _ => exact laid.nulls ent entry here noKey

theorem Filed.lacks_iff (filed : Filed hash entries) : Lacks hash hv ↔ Absent hash entries hv := by
  constructor
  · intro lacks ent member atEnt
    obtain ⟨entry, here, same⟩ := Option.map_eq_some_iff.mp atEnt
    exact lacks ent entry (filed.contents_some.mpr ⟨member, here⟩) same
  · intro absent ent entry here same
    obtain ⟨member, mapped⟩ := filed.contents_some.mp here
    exact absent ent member (by rw [Amstrhash.hashAt, mapped, Option.map_some, same])

theorem Filed.search (filed : Filed hash entries)
    (readable : ∀ k, key = some k → ∃ str, hash.strings k = some str) (hv : UInt64) :
    (Lacks hash hv ∧ findEnt hash key hv (hash.buckets (place hash hv)).entries = .ok none) ∨
    ∃ ent entry, ent ∈ entries ∧ hash.ents ent = some entry ∧ entry.keyHash = hv ∧
      findEnt hash key hv (hash.buckets (place hash hv)).entries =
        if entry.key = none ∧ key = none then .error .null else .ok (some ent) := by
  have inside {ent : Pointer} (member : ent ∈ (hash.buckets (place hash hv)).entries) :
      ent ∈ entries :=
    filed.all.mem_iff.mp (mem_collected.mpr ⟨_, filed.place_lt hv, member⟩)
  have searched := findEnt_cases readable hv (hash.buckets (place hash hv)).entries
    fun ent member => filed.mapped (inside member)
  cases first : (hash.buckets (place hash hv)).entries.find? fun ent =>
    decide (hash.hashAt ent = some hv) with
  | none =>
      rw [first] at searched
      refine .inl ⟨filed.lacks_iff.mpr fun ent member atEnt => ?_, searched⟩
      exact List.find?_eq_none.mp first ent ((filed.mem_bucket atEnt).mpr member)
        (decide_eq_true atEnt)
  | some ent =>
      rw [first] at searched
      have member := inside (List.mem_of_find?_eq_some first)
      have atEnt := of_decide_eq_true
        (List.find?_some (p := fun ent => decide (hash.hashAt ent = some hv)) first)
      obtain ⟨entry, here, same⟩ := Option.map_eq_some_iff.mp atEnt
      have isKey : hash.keyAt ent = entry.key := by rw [Amstrhash.keyAt, here, Option.bind_some]
      exact .inr ⟨ent, entry, member, here, same, by rw [← isKey]; exact searched⟩

end Answers

section Insertion

def Clash (hash : Amstrhash V) (key : Option Pointer) (hv : UInt64) : Prop :=
  key = none ∧ ∃ ent entry, hash.contents ent = some entry ∧ entry.keyHash = hv ∧ entry.key = none

theorem stored_none (fits : ¬ EntFails hash key allocs.copy allocs.ent) :
    storedKey hash key allocs.copy = none ↔ key = none := by
  obtain ⟨copied, -⟩ := not_or.mp fits
  rw [storedKey]
  split
  · next copies => exact ⟨fun noCopy => absurd ⟨copies, noCopy⟩ copied, fun noKey =>
      absurd noKey copies.2⟩
  · rfl

theorem sized_of_cases {capacity : UInt64} (laid : Laid hash)
    (fits : Fits hash hv (.insert value allocs)) (lacks : Lacks hash hv)
      (size : capacity = hash.capacity ∨
      capacity = hash.capacity * 2 ∧ shouldResize hash (place hash hv) = true ∧
      allocs.array = true) :
    capacity.toNat * 24 < wordSize := by
  rcases size with rfl | ⟨rfl, resize, array⟩
  · exact laid.sized
  · have bound := fits ⟨lacks, resize⟩ array
    rw [toNat_double (by omega)]
    exact bound

theorem insertEnt_handled (laid : Laid hash) (isNull : key = none → hv = nullHash)
    (supplied : Supplied hash key (.insert value allocs)) :
    (Clash hash key hv ∧ insertEnt hash key hv value allocs = .error .null) ∨
    (¬ Fits hash hv (.insert value allocs) ∧ insertEnt hash key hv value allocs = .error .bounds) ∨
    ∃ hash' rc old effect, insertEnt hash key hv value allocs = .ok (hash', rc, old) ∧
      Fits hash hv (.insert value allocs) ∧ Handled hash key hv (.insert value allocs)
      (.inserted rc old) effect ∧
      hash'.contents = effect.after hash.contents ∧ Laid hash' ∧ hash'.lock = hash.lock ∧
      hash'.flags = hash.flags := by
  obtain ⟨⟨entries, filed, kept⟩, sized, nulls⟩ := id laid
  rcases filed.search supplied.readable hv with ⟨lacks, searched⟩ | ⟨ent, entry, member, here,
    same, searched⟩
  · have entered : insertEnt hash key hv value allocs =
        (addEnt hash (place hash hv) key hv value allocs).bind fun r => .ok (r.1, r.2, none) := by
      simp only [insertEnt, filed.bucket, bind, Except.bind, searched]
      rfl
    by_cases fits : Fits hash hv (.insert value allocs)
    · right
      right
      have unused := supplied.unused value allocs rfl
      obtain ⟨buckets, capacity, slots, size,
          ⟨fails, run, filed'⟩ | ⟨ent, allocated, next, run, filed', kept'⟩⟩ :=
        addEnt_cases value filed kept supplied.readable unused (fun resize => fits ⟨lacks, resize⟩)
          (filed.lacks_iff.mp lacks)
      · have handled : Handled hash key hv (.insert value allocs) (.inserted .error none) .none :=
          .failed lacks fails
        have after := filed.contents_same filed' rfl
        exact ⟨_, _, _, _, by
            rw [entered, run]; rfl, fits, handled, after, ⟨⟨entries, filed', kept.rehoused _ _ _⟩,
          sized_of_cases laid fits lacks size, handled.nulls laid isNull after⟩, rfl, rfl⟩
      · have outside := nextEnt_outside filed kept unused next
        have free : hash.contents ent = none := by
          rw [filed.contents_eq, if_neg fun member => outside (List.mem_append_left _ member)]
        have handled : Handled hash key hv (.insert value allocs) (.inserted .success none) _ :=
          .added lacks free (stored_none (not_or.mp allocated).2)
        have after := filed.contents_add filed' rfl
        exact ⟨_, _, _, _, by rw [entered, run]; rfl, fits, handled, after,
          ⟨⟨ent :: entries, filed', kept'.rehoused _ _ _⟩, sized_of_cases laid fits lacks size,
            handled.nulls laid isNull after⟩, rfl, rfl⟩
    · refine .inr (.inl ⟨fits, ?_⟩)
      simp only [Fits, Classical.not_imp] at fits
      obtain ⟨⟨-, resize⟩, array, unfit⟩ := fits
      have exact : hash.capacity.toNat * 2 < wordSize := by omega
      rw [entered]
      simp only [addEnt, resize, if_true, array, upsize_unfit exact unfit, bind, Except.bind]
  · have held := filed.contents_some.mpr ⟨member, here⟩
    have fits : Fits hash hv (.insert value allocs) := fun grows =>
      absurd same (grows.1 ent entry held)
    by_cases clash : entry.key = none ∧ key = none
    · refine .inl ⟨⟨clash.2, ent, entry, held, same, clash.1⟩, ?_⟩
      simp only [insertEnt, filed.bucket, bind, Except.bind, searched, if_pos clash]
    · right
      right
      rw [if_neg clash] at searched
      by_cases overwrite : hash.flags.overwrite = true
      · obtain ⟨filed', kept'⟩ := kept_value filed kept here value
            (hash.issueCallback key entry.value true).deleted
        have handled : Handled hash key hv (.insert value allocs) (.inserted .success none) _ :=
          .overwritten ⟨held, same, clash⟩ overwrite
        have after := filed.contents_assign filed' member here rfl
        refine ⟨{ hash.issueCallback key entry.value true with
          ents := Function.update hash.ents ent (some { entry with value := value }) }, _, _, _, ?_,
            fits, handled,
          after, ⟨⟨entries, filed', kept'⟩, sized, handled.nulls laid isNull after⟩, rfl, rfl⟩
        simp only [insertEnt, filed.bucket, bind, Except.bind, searched, if_pos overwrite,
          Amstrhash.entry, here]
        rfl
      · refine ⟨hash, _, _, .none, ?_, fits, .refused ⟨held, same, clash⟩
          ((Bool.not_eq_true _).mp overwrite), rfl,
          laid, rfl, rfl⟩
        simp only [insertEnt, filed.bucket, bind, Except.bind, searched, if_neg overwrite]
        rfl

end Insertion

section Calls

variable {call : KeyCall V} {result : Result} {effect : Effect V}

structure Held (hash : Amstrhash V) : Prop where
  laid : Laid hash
  lock : hash.lock = ⟨0, false⟩ ∨ hash.flags.useLock = true ∧ hash.lock = ⟨0, true⟩

theorem Held.inv (held : Held hash) : Inv hash := ⟨held.laid.held, held.lock⟩

def Settles (hash : Amstrhash V) (key : Option Pointer) (hv : UInt64) (call : KeyCall V)
    (reply : LockReply) : Prop :=
  (Clash hash key hv ∧ applyKey hash key call reply = .error .null) ∨
  (¬ Fits hash hv call ∧ applyKey hash key call reply = .error .bounds) ∨
  ∃ hash' result effect, applyKey hash key call reply = .ok (hash', result) ∧ Fits hash hv call ∧
    Handled hash key hv call result effect ∧
    hash'.contents = effect.after hash.contents ∧ Held hash'

theorem Handled.locked {lock : RwLock} {lockCalls : List LockCall}
    (handled : Handled (hash.relock lock lockCalls) key hv call result effect) :
    Handled hash key hv call result effect := by
  have free {ent : Pointer} {entry : AmstrhashEntry V}
      (hit : Hit (hash.relock lock lockCalls) key hv ent entry) :
      Hit hash key hv ent entry :=
    ⟨hit.held, hit.same, hit.comparable⟩
  cases handled with
  | overwritten hit overwrite => exact .overwritten (free hit) overwrite
  | refused hit overwrite => exact .refused (free hit) overwrite
  | failed lacks fails => exact .failed lacks fails
  | added lacks outside stored => exact .added lacks outside stored
  | missed lacks => exact .missed lacks
  | found hit => exact .found (free hit)
  | absent lacks => exact .absent lacks
  | removed hit => exact .removed (free hit)

theorem Supplied.relock (supplied : Supplied hash key call) (lock : RwLock)
    (lockCalls : List LockCall) : Supplied (hash.relock lock lockCalls) key call :=
  ⟨supplied.readable, fun value allocs same =>
    ⟨(supplied.unused value allocs same).copy, (supplied.unused value allocs same).ent⟩⟩

theorem calcHash_null {key : Option Pointer} (hashed : calcHash hash key = .ok hv)
    (noKey : key = none) : hv = nullHash := by
  subst noKey
  exact (Except.ok.inj hashed).symm

theorem unlock_lock (held : hash.lock = ⟨0, hash.flags.useLock⟩) :
    hash.unlock.lock = ⟨0, false⟩ := by
  cases uses : hash.flags.useLock <;> simp [Amstrhash.unlock, uses, held]

theorem insert_settles (laid : Laid hash) (goes : Goes hash reply)
    (supplied : Supplied hash key (.insert value allocs)) (hashed : calcHash hash key = .ok hv) :
    Settles hash key hv (.insert value allocs) reply := by
  have started (r : Except Fault (Amstrhash V × Amrc × Option Pointer))
      (run : insertEnt (hash.relock ⟨0, hash.flags.useLock⟩ (hash.called [.wrlock])) key hv
        value allocs = r) :
      applyKey hash key (.insert value allocs) reply = r.bind fun r =>
      .ok (r.1.unlock, .inserted r.2.1 r.2.2) := by
    simp only [applyKey, amstrhashInsert, hashed, bind, Except.bind, wrlock_goes goes, run]
    cases r <;> rfl
  rcases insertEnt_handled (laid.relock ⟨0, hash.flags.useLock⟩ (hash.called [.wrlock]))
      (calcHash_null hashed)
      (supplied.relock _ _) with ⟨clash, run⟩ | ⟨unfit, run⟩ | ⟨locked, rc, old, effect, run, fits,
        handled, after,
        laid', lock, flags⟩
  · exact .inl ⟨clash, started _ run⟩
  · exact .inr (.inl ⟨unfit, started _ run⟩)
  · obtain ⟨lock', lockCalls, unlocked⟩ := unlock_relock locked
    refine .inr (.inr ⟨locked.unlock, _, effect, started _ run, fits, handled.locked,
      ?_, ?_, .inl ?_⟩)
    · rw [unlocked]
      exact after
    · rw [unlocked]
      exact laid'.relock _ _
    · exact unlock_lock (by rw [lock, flags]; rfl)

theorem find_settles (laid : Laid hash) (goes : Goes hash reply)
    (supplied : Supplied hash key .find) (hashed : calcHash hash key = .ok hv) :
    Settles hash key hv .find reply := by
  obtain ⟨entries, filed, -⟩ := laid.held
  obtain ⟨lock, taken, unlocked⟩ := rdlock_goes goes
  have locked := filed.relock lock (hash.called [.rdlock])
  replace unlocked := unlocked [.rdlock]
  obtain ⟨final, isFinal⟩ : ∃ final, final = hash.relock ⟨0, false⟩
      (hash.called ([.rdlock] ++ [.unlock])) := ⟨_, rfl⟩
  rw [← isFinal] at unlocked
  have held : Held final := isFinal ▸ ⟨laid.relock _ _, .inl rfl⟩
  have same : final.contents = hash.contents := isFinal ▸ rfl
  rcases locked.search supplied.readable hv with ⟨lacks, searched⟩ | ⟨ent, entry, member, here,
    equal, searched⟩
  · refine .inr (.inr ⟨final, .found none, .none, ?_, trivial, .missed lacks, same, held⟩)
    simp only [applyKey, amstrhashFind, amstrhashFindLock, hashed, bind, Except.bind,
      if_true, taken, locked.bucket, searched]
    exact congrArg (fun h => Except.ok (h, Result.found none)) unlocked
  · have inside := filed.contents_some.mpr ⟨member, here⟩
    by_cases clash : entry.key = none ∧ key = none
    · refine .inl ⟨⟨clash.2, ent, entry, inside, equal, clash.1⟩, ?_⟩
      simp only [applyKey, amstrhashFind, amstrhashFindLock, hashed, bind, Except.bind,
        if_true, taken, locked.bucket, searched, if_pos clash]
    · rw [if_neg clash] at searched
      refine .inr (.inr ⟨final, .found (some ent), .none, ?_, trivial,
        .found ⟨inside, equal, clash⟩, same, held⟩)
      simp only [applyKey, amstrhashFind, amstrhashFindLock, hashed, bind, Except.bind,
        if_true, taken, locked.bucket, searched]
      exact congrArg (fun h => Except.ok (h, Result.found (some ent))) unlocked

theorem removeKey_settles (laid : Laid hash) (goes : Goes hash reply)
    (supplied : Supplied hash key .removeKey) (hashed : calcHash hash key = .ok hv) :
    Settles hash key hv .removeKey reply := by
  obtain ⟨entries, filed, kept⟩ := laid.held
  have locked := filed.relock ⟨0, hash.flags.useLock⟩ (hash.called [.wrlock])
  have hashed' : calcHash (hash.relock ⟨0, hash.flags.useLock⟩ (hash.called [.wrlock]))
      key = .ok hv := by
    cases key <;> exact hashed
  rcases locked.search supplied.readable hv with ⟨lacks, searched⟩ | ⟨ent, entry, member, here,
    same, searched⟩
  · refine .inr (.inr ⟨hash.relock ⟨0, hash.flags.useLock⟩ (hash.called [.wrlock]),
      .returned .error, .none, ?_, trivial,
      .absent lacks, rfl, laid.relock _ _, ?_⟩)
    · simp only [applyKey, amstrhashRemoveKey, amstrhashFindLock, bind, Except.bind,
        wrlock_goes goes, hashed',
        Bool.false_eq_true, if_false, pure, Except.pure, locked.bucket, searched]
    · cases uses : hash.flags.useLock with
      | false => exact .inl rfl
      | true => exact .inr ⟨uses, rfl⟩
  · have inside := filed.contents_some.mpr ⟨member, here⟩
    by_cases clash : entry.key = none ∧ key = none
    · refine .inl ⟨⟨clash.2, ent, entry, inside, same, clash.1⟩, ?_⟩
      simp only [applyKey, amstrhashRemoveKey, amstrhashFindLock, bind, Except.bind,
        wrlock_goes goes, hashed',
        Bool.false_eq_true, if_false, pure, Except.pure, locked.bucket, searched, if_pos clash]
    · rw [if_neg clash] at searched
      have handled : Handled hash key hv .removeKey (.returned .success) _ :=
        .removed ⟨inside, same, clash⟩
      obtain ⟨run, -⟩ := locked.taken (kept.relock _ _) member here true
      have filed' := (filed.taken kept member here true).2
      have after : (hash.taken ent entry true).contents = (Effect.erase ent).after hash.contents :=
        filed.contents_erase (List.nodup_append'.mp kept.nodup).1 filed' fun a other =>
          Function.update_of_ne other ..
      refine .inr (.inr ⟨(hash.taken ent entry true).relock ⟨0, false⟩
        (hash.called ([.wrlock] ++ [.unlock])),
        .returned .success, .erase ent, ?_, trivial, handled, after,
        ⟨⟨entries.erase ent, filed'.relock _ _, (kept.taken member here true).relock _ _⟩,
          laid.sized,
          handled.nulls laid (calcHash_null hashed) after⟩, .inl rfl⟩)
      simp only [applyKey, amstrhashRemoveKey, amstrhashFindLock, bind, Except.bind,
        wrlock_goes goes, hashed',
        Bool.false_eq_true, if_false, pure, Except.pure, locked.bucket, searched,
        amstrhashEntRemove, run]
      exact congrArg (fun h => Except.ok (h, Result.returned Amrc.success))
        (unlock_writer hash (hash.taken ent entry true) rfl [.wrlock])

theorem applyKey_settles (laid : Laid hash) (goes : Goes hash reply)
    (supplied : Supplied hash key call) (hashed : calcHash hash key = .ok hv) :
    Settles hash key hv call reply := by
  cases call with
  | insert value allocs => exact insert_settles laid goes supplied hashed
  | find => exact find_settles laid goes supplied hashed
  | removeKey => exact removeKey_settles laid goes supplied hashed

theorem applyKey_blocked (uses : hash.flags.useLock = true) (held : hash.lock = ⟨0, true⟩)
    (hashed : calcHash hash key = .ok hv) : applyKey hash key call .waits = .error .blocked := by
  have writes : hash.wrlock = .error .blocked := by
    rw [Amstrhash.wrlock, if_pos uses, held]
    rfl
  have reads : hash.rdlock = .error .blocked := by
    rw [Amstrhash.rdlock, if_pos uses, held]
    rfl
  cases call with
  | insert value allocs => simp only [applyKey, amstrhashInsert, hashed, bind, Except.bind, writes]
  | find =>
      simp only [applyKey, amstrhashFind, amstrhashFindLock, hashed, bind, Except.bind,
        if_true, reads]
  | removeKey => simp only [applyKey, amstrhashRemoveKey, bind, Except.bind, writes]

theorem calcHash_readable (readable : ∀ k, key = some k → ∃ str, hash.strings k = some str) :
    ∃ hv, calcHash hash key = .ok hv := by
  cases key with
  | none => exact ⟨_, rfl⟩
  | some k =>
      obtain ⟨str, here⟩ := readable k rfl
      exact ⟨_, calcHash_spec hash here⟩

end Calls

section Runs

variable {op : Op V} {result : Result} {call : AnyCall V} {calls : List (AnyCall V)}

theorem Outcome.contents_le (filed : Filed hash entries) (kept : Kept hash entries)
    (filed' : Filed hash' entries') (outcome : Outcome hash entries op hash' entries' result)
    (keyless : op.key = none) {ent : Pointer} {entry' : AmstrhashEntry V}
    (here' : hash'.contents ent = some entry') :
    ∃ entry, hash.contents ent = some entry ∧ entry.key = entry'.key ∧
    entry.keyHash = entry'.keyHash := by
  obtain ⟨member', mapped'⟩ := filed'.contents_some.mp here'
  have stays (member : ent ∈ entries) (same : hash'.ents ent = hash.ents ent) :
      ∃ entry, hash.contents ent = some entry ∧ entry.key = entry'.key ∧
      entry.keyHash = entry'.keyHash :=
    ⟨entry', filed.contents_some.mpr ⟨member, same ▸ mapped'⟩, rfl, rfl⟩
  cases outcome with
  | insert => cases keyless
  | find => cases keyless
  | removeAbsent => cases keyless
  | removeKey => cases keyless
  | removeNull => exact stays member' rfl
  | @remove a entry member here =>
      by_cases same : ent = a
      · subst same
        exact absurd member' (List.nodup_append'.mp kept.nodup).1.not_mem_erase
      · exact stays (List.mem_of_mem_erase member') (Function.update_of_ne same ..)
  | @setEntValue a entry value member here =>
      by_cases same : ent = a
      · subst same
        cases (Function.update_self ..).symm.trans mapped'
        exact ⟨entry, filed.contents_some.mpr ⟨member, here⟩, rfl, rfl⟩
      · exact stays member' (Function.update_of_ne same ..)
  | term => cases member'
  | write => exact stays member' rfl

theorem other_held (held : Held hash) (keyless : op.key = none) (ready : Ready hash op hash)
    (returned : apply hash op reply = .ok (hash', result)) : Held hash' := by
  have inv' := held.inv.returned ready returned
  obtain ⟨entries, free, entries', lock, lockCalls, filed, kept, outcome, filed', kept', rfl⟩ :=
    outcome_of_returned held.inv ready returned
  refine ⟨⟨inv'.held, ?_, fun ent entry' here' noKey => ?_⟩, inv'.lock⟩
  · have other : op.inserts = false := by
      cases op with
      | insert => cases keyless
      | _ => rfl
    show free.capacity.toNat * 24 < wordSize
    rw [(outcome.keeps kept kept' other).1]
    exact held.laid.sized
  · obtain ⟨entry, here, key, keyHash⟩ := outcome.contents_le filed kept filed' keyless here'
    rw [← keyHash]
    exact held.laid.nulls ent entry here (key.trans noKey)

theorem held_step (held : Held hash) (ready : ReadyAny hash call hash')
    (fired : stepAny hash call = some hash') : Held hash' := by
  obtain ⟨result, returned⟩ : ∃ result, applyAny hash call = .ok (hash', result) := by
    unfold stepAny at fired
    split at fired
    · next out result returned =>
        cases fired
        exact ⟨result, returned⟩
    · cases fired
  cases call with
  | other op => exact other_held held ready.1 ready.2 returned
  | keyed key call reply =>
      obtain ⟨hv, hashed⟩ := calcHash_readable ready.readable
      rcases held.inv.goes_or_waits reply with goes | ⟨⟨uses, taken⟩, rfl⟩
      · rcases applyKey_settles held.laid goes ready hashed with ⟨-, run⟩ | ⟨-, run⟩ | ⟨next,
          result', effect, run,
          -, -, -, held'⟩
        · cases returned.symm.trans run
        · cases returned.symm.trans run
        · cases returned.symm.trans run
          exact held'
      · cases returned.symm.trans (applyKey_blocked uses taken hashed)

theorem held_made {capacity : UInt64} {flags : StrhashFlags} {attr : Option AmstrhashAttr}
    {handle lockReady array : Bool} {strings : Pointer → Option CString}
    (made : amstrhashInit capacity flags attr handle lockReady array strings = .ok (some start)) :
    Held start := by
  have started := (started_of_made made).1
  obtain ⟨inv, free, filed⟩ := inv_started started
  obtain ⟨_, _, _, _, _, _, _, _, sized⟩ := started
  refine ⟨⟨inv.held, sized, fun ent entry here => ?_⟩, .inl free⟩
  cases (filed.contents_some.mp here).1

theorem run_held {capacity : UInt64} {flags : StrhashFlags} {attr : Option AmstrhashAttr}
    {handle lockReady array : Bool} {strings : Pointer → Option CString}
    (made : amstrhashInit capacity flags attr handle lockReady array strings = .ok (some start))
    (run : Run stepAny ReadyAny start calls hash) : Held hash := by
  apply run.invariant Held (held_made made)
  intro hash call hash' held fired ready
  exact held_step held ready fired

end Runs

end Libam.Strhash
