import Libam.Concurrency.Linearizable
import Libam.Lockstep
import Libam.Strhash.Concurrent

/-! With `LIBAM_STRHASH_FLAG_USE_LOCK` a hash table is linearizable: the calls of many
threads are seen as calls, one after the other, on a table that has no lock and one user. An
insertion takes effect when it changes the table, a search when its loop ends, a removal
when it takes the entry out. -/

namespace Libam.Strhash

open Libam.Interleaving Libam.RwLocked Libam.History Libam.Lockstep

variable {V : Type}

section Guard

def Amstrhash.guard (useLock : Bool) (lock : RwLock) (lockCalls : List LockCall)
    (hash : Amstrhash V) : Amstrhash V :=
  { hash with
    flags := { hash.flags with useLock := useLock }, lock := lock, lockCalls := lockCalls }

variable (useLock : Bool) (lock : RwLock) (lockCalls : List LockCall) (hash : Amstrhash V)

def Guards (guarded hash : Amstrhash V) : Prop := guarded = hash.guard useLock lock lockCalls

def GuardsWith {R : Type} (guarded hash : Amstrhash V × R) : Prop :=
  Guards useLock lock lockCalls guarded.1 hash.1 ∧ guarded.2 = hash.2

variable {useLock lock lockCalls} in
theorem GuardsWith.bind {R A B : Type} {Q : A → B → Prop} {x y : Except Fault (Amstrhash V × R)}
    (first : Alike (GuardsWith useLock lock lockCalls) x y) {f : Amstrhash V × R → Except Fault A}
    {g : Amstrhash V × R → Except Fault B}
    (next : ∀ hash r, Alike Q (f (hash.guard useLock lock lockCalls, r)) (g (hash, r))) :
    Alike Q (x >>= f) (y >>= g) := by
  refine first.bind fun guarded plain same => ?_
  obtain ⟨table, r⟩ := guarded
  obtain ⟨hash, r'⟩ := plain
  have tables : table = hash.guard useLock lock lockCalls := same.1
  have results : r = r' := same.2
  rw [tables, results]
  exact next hash r'

theorem findEnt_guard (key : Option Pointer) (hashValue : UInt64) (entries : List Pointer) :
    findEnt (hash.guard useLock lock lockCalls) key hashValue entries = findEnt hash key
    hashValue entries := by
  induction entries with
  | nil => rfl
  | cons ent entries ih =>
      rw [findEnt, findEnt, ih]
      rfl

theorem moveEntries_guard (entries : List Pointer) (size : UInt64) :
    Alike (Guards useLock lock lockCalls)
    (moveEntries entries size (hash.guard useLock lock lockCalls))
    (moveEntries entries size hash) := by
  induction entries generalizing size hash with
  | nil => exact ite_related _ Iff.rfl (fun _ => .ok rfl) fun _ => .error _
  | cons ent entries ih =>
      refine ite_related _ Iff.rfl (fun _ => ?_) fun _ => .error _
      refine (alike_self (hash.entry ent)).bind fun entry _ same => ?_
      subst same
      refine (alike_self (amstrhashBucket hash entry.keyHash)).bind fun bucket _ same => ?_
      subst same
      exact ih (hash.link bucket ent) (size - 1)

theorem moveBuckets_guard (old : Amstrhash V) (left i : ℕ) : Alike (Guards useLock lock lockCalls)
    (moveBuckets (old.guard useLock lock lockCalls) left i (hash.guard useLock lock lockCalls))
    (moveBuckets old left i hash) := by
  induction left generalizing i hash with
  | zero => exact .ok rfl
  | succ left ih =>
      refine ite_related _ Iff.rfl (fun _ => ?_) fun _ => .error _
      refine (moveEntries_guard useLock lock lockCalls hash _ _).bind fun guarded next same => ?_
      subst same
      exact ih next (i + 1)

theorem amstrhashUpsize_guard (array : Bool) : Alike (GuardsWith useLock lock lockCalls)
    (amstrhashUpsize (hash.guard useLock lock lockCalls) array) (amstrhashUpsize hash array) := by
  refine ite_related _ Iff.rfl (fun _ => ?_) fun _ => .ok ⟨rfl, rfl⟩
  have inits : Alike (Guards useLock lock lockCalls)
      (amstrhashInitBuckets { hash.guard useLock lock lockCalls with
        capacity := hash.capacity * 2, slots := slotsOf (hash.capacity * 2) })
      (amstrhashInitBuckets
        { hash with capacity := hash.capacity * 2, slots := slotsOf (hash.capacity * 2) }) :=
    ite_related _ Iff.rfl (fun _ => .ok rfl) fun _ => .error _
  refine inits.bind fun guarded bigger same => ?_
  subst same
  refine (moveBuckets_guard useLock lock lockCalls bigger hash _ 0).bind
    fun guarded moved same => ?_
  subst same
  exact .ok ⟨rfl, rfl⟩

theorem freeKey_guard (key : Option Pointer) : Alike (Guards useLock lock lockCalls)
    ((hash.guard useLock lock lockCalls).freeKey key) (hash.freeKey key) := by
  cases key with
  | none => exact .ok rfl
  | some key => exact (alike_self (hash.string (some key))).bind fun _ _ _ => .ok rfl

theorem releaseKey_guard (key : Option Pointer) : Alike (Guards useLock lock lockCalls)
    ((hash.guard useLock lock lockCalls).releaseKey key) (hash.releaseKey key) :=
  ite_related _ Iff.rfl (fun _ => freeKey_guard useLock lock lockCalls hash key) fun _ => .ok rfl

theorem obtainEnt_guard (fresh : Option Pointer) : Alike (GuardsWith useLock lock lockCalls)
    (obtainEnt (hash.guard useLock lock lockCalls) fresh) (obtainEnt hash fresh) := by
  have same : (hash.guard useLock lock lockCalls).freeEnts = hash.freeEnts := rfl
  rw [obtainEnt, obtainEnt, same]
  cases hash.freeEnts with
  | nil => exact ite_related _ Iff.rfl (fun _ => .ok ⟨rfl, rfl⟩) fun _ => .error _
  | cons ent rest =>
      refine ite_related _ Iff.rfl (fun _ => ?_) fun _ => .error _
      exact (alike_self (hash.entry ent)).bind fun _ _ _ => .ok ⟨rfl, rfl⟩

def GuardsKey (guarded hash : Option (Amstrhash V × Option Pointer)) : Prop :=
  guarded = hash.map fun out => (out.1.guard useLock lock lockCalls, out.2)

theorem dupKey_guard (key copy : Option Pointer) : Alike (GuardsKey useLock lock lockCalls)
    (dupKey (hash.guard useLock lock lockCalls) key copy) (dupKey hash key copy) := by
  refine ite_related _ Iff.rfl (fun _ => ?_) fun _ => .ok rfl
  refine (alike_self (hash.string key)).bind fun str _ same => ?_
  subst same
  cases copy with
  | none => exact .ok rfl
  | some copy => exact .ok rfl

theorem amstrhashEntNew_guard (bucket : ℕ) (key : Option Pointer) (hashValue : UInt64)
    (value : Option V) (copy fresh : Option Pointer) : Alike (GuardsWith useLock lock lockCalls)
    (amstrhashEntNew (hash.guard useLock lock lockCalls) bucket key hashValue value copy fresh)
    (amstrhashEntNew hash bucket key hashValue value copy fresh) := by
  refine (dupKey_guard useLock lock lockCalls hash key copy).bind fun guarded copied same => ?_
  subst same
  cases copied with
  | none => exact .ok ⟨rfl, rfl⟩
  | some out =>
      refine GuardsWith.bind (obtainEnt_guard useLock lock lockCalls out.1 fresh)
        fun table ent => ?_
      cases ent with
      | none =>
          refine (releaseKey_guard useLock lock lockCalls table out.2).bind
            fun guarded released same => ?_
          subst same
          exact .ok ⟨rfl, rfl⟩
      | some ent => exact .ok ⟨rfl, rfl⟩

theorem addEnt_guard (bucket : ℕ) (key : Option Pointer) (hashValue : UInt64) (value : Option V)
    (allocs : Allocations) : Alike (GuardsWith useLock lock lockCalls)
    (addEnt (hash.guard useLock lock lockCalls) bucket key hashValue value allocs)
    (addEnt hash bucket key hashValue value allocs) := by
  refine ite_related _ Iff.rfl (fun _ => ?_) fun _ =>
    amstrhashEntNew_guard useLock lock lockCalls hash bucket key hashValue value
      allocs.copy allocs.ent
  refine GuardsWith.bind (amstrhashUpsize_guard useLock lock lockCalls hash allocs.array)
    fun larger rc => ?_
  cases rc with
  | error => exact .ok ⟨rfl, rfl⟩
  | success =>
      refine (alike_self (amstrhashBucket larger hashValue)).bind fun bucket _ same => ?_
      subst same
      exact amstrhashEntNew_guard useLock lock lockCalls larger bucket key hashValue value
        allocs.copy allocs.ent

theorem finishInsert_guard (key : Option Pointer) (hashValue : UInt64) (value : Option V)
    (allocs : Allocations) (bucket : ℕ) (found : Option Pointer) :
    Alike (GuardsWith useLock lock lockCalls)
    (finishInsert (hash.guard useLock lock lockCalls) key hashValue value allocs bucket found)
    (finishInsert hash key hashValue value allocs bucket found) := by
  cases found with
  | none =>
      exact GuardsWith.bind
        (addEnt_guard useLock lock lockCalls hash bucket key hashValue value allocs) fun _ _ =>
        .ok ⟨rfl, rfl⟩
  | some ent =>
      refine ite_related _ Iff.rfl (fun _ => ?_) fun _ => .ok ⟨rfl, rfl⟩
      refine (alike_self (hash.entry ent)).bind fun entry _ same => ?_
      subst same
      exact .ok ⟨rfl, rfl⟩

theorem removeEnt_guard (ent : Pointer) (useCb : Bool) : Alike (Guards useLock lock lockCalls)
    (removeEnt (hash.guard useLock lock lockCalls) ent useCb) (removeEnt hash ent useCb) := by
  refine (alike_self (hash.entry ent)).bind fun entry _ same => ?_
  subst same
  refine (releaseKey_guard useLock lock lockCalls (hash.issueCallback entry.key entry.value useCb)
    entry.key).bind
    fun guarded released same => ?_
  subst same
  refine (alike_self _).bind fun bucket _ same => ?_
  subst same
  exact ite_related _ Iff.rfl (fun _ => .ok rfl) fun _ => .ok rfl

end Guard

section Object

def Amstrhash.unguarded (hash : Amstrhash V) : Amstrhash V := hash.guard false ⟨0, false⟩ []

def tableObject (hash : Amstrhash V) : Object (Amstrhash V) (Invocation V)
    (Except Fault Result) where
  init := hash.unguarded
  apply table call :=
    match call.serve table with
    | .ok (table, result) => (table, .ok result)
    | .error fault => (table, .error fault)

def see (_ : Amstrhash V) : AmstrhashPc V → Act V →
    Option (Seen (Invocation V) (Except Fault Result))
  | .idle, .call call => some (.call call)
  | .returning result, .tick => some (.ret (.ok result))
  | _, _ => none

def AmstrhashPc.status : AmstrhashPc V → Status (Invocation V) (Except Fault Result)
  | .idle => .idle
  | .insertHash key value allocs => .called (.insert key value allocs)
  | .insertLock key _ value allocs => .called (.insert key value allocs)
  | .insertSearch key _ value allocs _ => .called (.insert key value allocs)
  | .insertEnd key _ value allocs _ _ => .called (.insert key value allocs)
  | .insertUnlock rc oldKey => .done (.ok (.inserted rc oldKey))
  | .findHash key => .called (.find key)
  | .findLock key _ => .called (.find key)
  | .findSearch key _ _ => .called (.find key)
  | .findUnlock out => .done (.ok (.found out))
  | .removeLock ent => .called (.remove (some ent))
  | .removeEnd ent => .called (.remove (some ent))
  | .removeUnlock => .done (.ok (.returned .success))
  | .removeKeyLock key => .called (.removeKey key)
  | .removeKeyHash key => .called (.removeKey key)
  | .removeKeySearch key _ _ => .called (.removeKey key)
  | .removeKeyEnd key _ _ => .called (.removeKey key)
  | .removeKeyUnlock => .done (.ok (.returned .success))
  | .returning result => .done (.ok result)

def AmstrhashPc.key : AmstrhashPc V → Option Pointer
  | .insertHash key _ _ => key
  | .insertLock key _ _ _ => key
  | .insertSearch key _ _ _ _ => key
  | .insertEnd key _ _ _ _ _ => key
  | .findHash key => key
  | .findLock key _ => key
  | .findSearch key _ _ => key
  | .removeKeyLock key => key
  | .removeKeyHash key => key
  | .removeKeySearch key _ _ => key
  | .removeKeyEnd key _ _ => key
  | _ => none

/-- Nobody frees or changes the string of a key while a call is given it. -/
def KeysKept {Tid : Type} (c : Config Tid (Amstrhash V) (AmstrhashPc V)) (_ : Tid × Act V)
    (c' : Config Tid (Amstrhash V) (AmstrhashPc V)) : Prop :=
  ∀ t, ∀ ptr ∈ (c'.pc t).key, c'.shared.strings ptr = c.shared.strings ptr

theorem keysKept_iff {Tid : Type} {c c' : Config Tid (Amstrhash V) (AmstrhashPc V)}
    {act : Tid × Act V} :
    (∀ t, (c'.pc t).key.all
      (fun ptr => decide (c'.shared.strings ptr = c.shared.strings ptr)) = true) ↔
      KeysKept c act c' := by
  simp only [KeysKept, Option.all_eq_true, decide_eq_true_iff, Option.mem_def]

instance {Tid : Type} [Fintype Tid] (c : Config Tid (Amstrhash V) (AmstrhashPc V))
    (act : Tid × Act V) (c' : Config Tid (Amstrhash V) (AmstrhashPc V)) :
    Decidable (KeysKept c act c') :=
  decidable_of_iff _ keysKept_iff

end Object

section Searching

variable {g g' : Amstrhash V} {key : Option Pointer} {hv : UInt64} {at' next : Search} {bucket : ℕ}
  {found : Option Pointer}

def Search.Ahead (g : Amstrhash V) (key : Option Pointer) (hv : UInt64) : Search → Prop
  | .bucket => True
  | .entry bucket i => amstrhashBucket g hv = .ok bucket ∧
      findEnt g key hv (g.buckets bucket).entries = findEnt g key hv
      ((g.buckets bucket).entries.drop i)

def Found (g : Amstrhash V) (key : Option Pointer) (hv : UInt64) (bucket : ℕ)
    (found : Option Pointer) : Prop :=
  amstrhashBucket g hv = .ok bucket ∧ findEnt g key hv (g.buckets bucket).entries = .ok found

theorem findEnt_cons (g : Amstrhash V) (key : Option Pointer) (hv : UInt64) (ent : Pointer)
    (entries : List Pointer) :
    findEnt g key hv (ent :: entries) = (matchesEnt g key hv ent).bind fun stops =>
      if stops then .ok (some ent) else findEnt g key hv entries := by
  rw [findEnt, matchesEnt]
  cases g.entry ent with
  | error fault => rfl
  | ok entry =>
      simp only [bind, Except.bind]
      split
      · rfl
      · split
        · rfl
        · rfl

theorem Search.Ahead.turn (ahead : at'.Ahead g key hv)
    (turned : searchStep g key hv at' = .ok (.inl next)) : next.Ahead g key hv := by
  cases at' with
  | bucket =>
      simp only [searchStep, bind, Except.bind] at turned
      cases placed : amstrhashBucket g hv with
      | error fault => simp [placed] at turned
      | ok bucket =>
          simp only [placed, pure, Except.pure, Except.ok.injEq, Sum.inl.injEq] at turned
          rw [← turned]
          exact ⟨placed, rfl⟩
  | entry bucket i =>
      obtain ⟨placed, same⟩ := ahead
      simp only [searchStep, bind, Except.bind] at turned
      cases here : (g.buckets bucket).entries[i]? with
      | none => simp [here, pure, Except.pure] at turned
      | some ent =>
          simp only [here] at turned
          cases stops : matchesEnt g key hv ent with
          | error fault => simp [stops] at turned
          | ok stop =>
              cases stop with
              | true => simp [stops, pure, Except.pure] at turned
              | false =>
                  simp only [stops, pure, Except.pure, Bool.false_eq_true, if_false,
                    Except.ok.injEq, Sum.inl.injEq] at turned
                  rw [← turned]
                  refine ⟨placed, same.trans ?_⟩
                  obtain ⟨inside, isEnt⟩ := List.getElem?_eq_some_iff.mp here
                  rw [List.drop_eq_getElem_cons inside, findEnt_cons, isEnt, stops]
                  rfl

theorem Search.Ahead.ends (ahead : at'.Ahead g key hv)
    (turned : searchStep g key hv at' = .ok (.inr (bucket, found))) :
    Found g key hv bucket found := by
  cases at' with
  | bucket =>
      simp only [searchStep, bind, Except.bind] at turned
      cases placed : amstrhashBucket g hv <;> simp [placed, pure, Except.pure] at turned
  | entry own i =>
      obtain ⟨placed, same⟩ := ahead
      simp only [searchStep, bind, Except.bind] at turned
      cases here : (g.buckets own).entries[i]? with
      | none =>
          simp only [here, pure, Except.pure, Except.ok.injEq, Sum.inr.injEq,
            Prod.mk.injEq] at turned
          obtain ⟨rfl, rfl⟩ := turned
          refine ⟨placed, same.trans ?_⟩
          rw [List.drop_of_length_le (List.getElem?_eq_none_iff.mp here)]
          rfl
      | some ent =>
          simp only [here] at turned
          cases stops : matchesEnt g key hv ent with
          | error fault => simp [stops] at turned
          | ok stop =>
              cases stop with
              | false => simp [stops, pure, Except.pure] at turned
              | true =>
                  simp only [stops, pure, Except.pure, if_true, Except.ok.injEq, Sum.inr.injEq,
                    Prod.mk.injEq] at turned
                  obtain ⟨rfl, rfl⟩ := turned
                  refine ⟨placed, same.trans ?_⟩
                  obtain ⟨inside, isEnt⟩ := List.getElem?_eq_some_iff.mp here
                  rw [List.drop_eq_getElem_cons inside, findEnt_cons, isEnt, stops]
                  rfl

theorem calcHash_congr (kept : ∀ ptr ∈ key, g'.strings ptr = g.strings ptr) :
    calcHash g' key = calcHash g key := by
  cases key with
  | none => rfl
  | some ptr =>
      have same := kept ptr rfl
      simp only [calcHash, Amstrhash.string, same]

def AmstrhashPc.Knows (g : Amstrhash V) : AmstrhashPc V → Prop
  | .insertLock key hv _ _ => calcHash g key = .ok hv
  | .insertSearch key hv _ _ at' => calcHash g key = .ok hv ∧ at'.Ahead g key hv
  | .insertEnd key hv _ _ bucket found => calcHash g key = .ok hv ∧ Found g key hv bucket found
  | .findLock key hv => calcHash g key = .ok hv
  | .findSearch key hv at' => calcHash g key = .ok hv ∧ at'.Ahead g key hv
  | .removeKeySearch key hv at' => calcHash g key = .ok hv ∧ at'.Ahead g key hv
  | .removeKeyEnd key hv ent => calcHash g key = .ok hv ∧ ∃ bucket, Found g key hv bucket (some ent)
  | _ => True

theorem Found.guard {key : Option Pointer} {hv : UInt64} {bucket : ℕ} {found : Option Pointer}
    {g : Amstrhash V} (there : Found g key hv bucket found) (useLock : Bool) (lock : RwLock)
    (lockCalls : List LockCall) : Found (g.guard useLock lock lockCalls) key hv bucket found := by
  refine ⟨there.1, ?_⟩
  rw [findEnt_guard]
  exact there.2

theorem Search.Ahead.guard {at' : Search} {key : Option Pointer} {hv : UInt64} {g : Amstrhash V}
    (ahead : at'.Ahead g key hv) (useLock : Bool) (lock : RwLock) (lockCalls : List LockCall) :
    at'.Ahead (g.guard useLock lock lockCalls) key hv := by
  cases at' with
  | bucket => trivial
  | entry bucket i =>
      refine ⟨ahead.1, ?_⟩
      rw [findEnt_guard, findEnt_guard]
      exact ahead.2

theorem AmstrhashPc.Knows.relock {g : Amstrhash V} {pc : AmstrhashPc V} (knows : pc.Knows g)
    (lock : RwLock) (lockCalls : List LockCall) : pc.Knows (g.relock lock lockCalls) := by
  have hashes : ∀ {key : Option Pointer} {hv : UInt64}, calcHash g key = .ok hv →
      calcHash (g.relock lock lockCalls) key = .ok hv := by
    intro key hv hashed
    rw [calcHash_congr fun _ _ => rfl]
    exact hashed
  cases pc with
  | insertLock key hv value allocs => exact hashes knows
  | insertSearch key hv value allocs at' =>
      exact ⟨hashes knows.1, knows.2.guard g.flags.useLock lock lockCalls⟩
  | insertEnd key hv value allocs bucket found =>
      exact ⟨hashes knows.1, knows.2.guard g.flags.useLock lock lockCalls⟩
  | findLock key hv => exact hashes knows
  | findSearch key hv at' => exact ⟨hashes knows.1, knows.2.guard g.flags.useLock lock lockCalls⟩
  | removeKeySearch key hv at' =>
      exact ⟨hashes knows.1, knows.2.guard g.flags.useLock lock lockCalls⟩
  | removeKeyEnd key hv ent =>
      obtain ⟨hashed, bucket, found⟩ := knows
      exact ⟨hashes hashed, bucket, found.guard g.flags.useLock lock lockCalls⟩
  | _ => trivial

theorem AmstrhashPc.Knows.outside {g g' : Amstrhash V} {pc : AmstrhashPc V} (knows : pc.Knows g)
    (out : pc.reads = false ∧ pc.writes = false)
    (kept : ∀ ptr ∈ pc.key, g'.strings ptr = g.strings ptr) : pc.Knows g' := by
  cases pc with
  | insertLock key hv value allocs => exact (calcHash_congr kept).trans knows
  | findLock key hv => exact (calcHash_congr kept).trans knows
  | insertSearch key hv value allocs at' => cases out.2
  | insertEnd key hv value allocs bucket found => cases out.2
  | findSearch key hv at' => cases out.1
  | removeKeySearch key hv at' => cases out.2
  | removeKeyEnd key hv ent => cases out.2
  | _ => trivial

end Searching

section Changes

variable {g g' : Amstrhash V} {pc pc' : AmstrhashPc V} {a : Act V}

/-- The table is changed by a call that has the lock for writing, and the flags and the
lock stay then. -/
theorem finishInsert_steady {key : Option Pointer} {hv : UInt64} {value : Option V}
    {allocs : Allocations} {bucket : ℕ} {found oldKey : Option Pointer} {rc : Amrc}
    (finished : finishInsert g key hv value allocs bucket found = .ok (g', rc, oldKey)) :
    g'.lock = g.lock ∧ g'.flags.useLock = g.flags.useLock := by
  have alike := finishInsert_guard g.flags.useLock g.lock g.lockCalls g key hv value
    allocs bucket found
  obtain ⟨guarded, run, same, -⟩ := alike.left finished
  cases finished.symm.trans run
  have equal : g' = g'.guard g.flags.useLock g.lock g.lockCalls := same
  have locks := congrArg Amstrhash.lock equal
  have flags := congrArg (fun g => g.flags.useLock) equal
  exact ⟨locks, flags⟩

theorem removeEnt_steady {ent : Pointer} {useCb : Bool} (removed : removeEnt g ent useCb = .ok g') :
    g'.lock = g.lock ∧ g'.flags.useLock = g.flags.useLock := by
  have alike := removeEnt_guard g.flags.useLock g.lock g.lockCalls g ent useCb
  obtain ⟨guarded, run, same⟩ := alike.left removed
  cases removed.symm.trans run
  have equal : g' = g'.guard g.flags.useLock g.lock g.lockCalls := same
  have locks := congrArg Amstrhash.lock equal
  have flags := congrArg (fun g => g.flags.useLock) equal
  exact ⟨locks, flags⟩

theorem move_change (moved : Move g pc a g' pc') (uses : g.flags.useLock = true) :
    (∃ lock lockCalls, g' = g.relock lock lockCalls) ∨ pc.writes = true := by
  have same : g = g.relock g.lock g.lockCalls := rfl
  cases moved with
  | insertLock locked => exact .inl ⟨_, _, (wrlock_eq uses locked).2⟩
  | insertEnd finished => exact .inr rfl
  | insertUnlock => exact .inr rfl
  | findLock locked => exact .inl ⟨_, _, (rdlock_eq uses locked).2⟩
  | findUnlock => exact .inl (unlock_eq g)
  | removeLock locked => exact .inl ⟨_, _, (wrlock_eq uses locked).2⟩
  | removeEnd removed => exact .inr rfl
  | removeUnlock => exact .inr rfl
  | removeKeyLock locked => exact .inl ⟨_, _, (wrlock_eq uses locked).2⟩
  | removeKeyEnd removed => exact .inr rfl
  | removeKeyUnlock => exact .inr rfl
  | _ => exact .inl ⟨_, _, same⟩

theorem move_uses (moved : Move g pc a g' pc') (uses : g.flags.useLock = true) :
    g'.flags.useLock = true := by
  cases moved with
  | insertLock locked => exact (wrlock_eq uses locked).2 ▸ uses
  | findLock locked => exact (rdlock_eq uses locked).2 ▸ uses
  | removeLock locked => exact (wrlock_eq uses locked).2 ▸ uses
  | removeKeyLock locked => exact (wrlock_eq uses locked).2 ▸ uses
  | insertEnd finished => exact (finishInsert_steady finished).2.trans uses
  | removeEnd removed => exact (removeEnt_steady removed).2.trans uses
  | removeKeyEnd removed => exact (removeEnt_steady removed).2.trans uses
  | insertUnlock =>
      obtain ⟨lock, lockCalls, same⟩ := unlock_eq g
      exact same ▸ uses
  | findUnlock =>
      obtain ⟨lock, lockCalls, same⟩ := unlock_eq g
      exact same ▸ uses
  | removeUnlock =>
      obtain ⟨lock, lockCalls, same⟩ := unlock_eq g
      exact same ▸ uses
  | removeKeyUnlock =>
      obtain ⟨lock, lockCalls, same⟩ := unlock_eq g
      exact same ▸ uses
  | _ => exact uses

theorem begin_outside (call : Invocation V) :
    call.begin.reads = false ∧ call.begin.writes = false := by
  cases call with
  | remove ent => cases ent <;> exact ⟨rfl, rfl⟩
  | _ => exact ⟨rfl, rfl⟩

theorem move_locks (moved : Move g pc a g' pc') (uses : g.flags.useLock = true) :
    Locks Amstrhash.readers Amstrhash.writer AmstrhashPc.reads AmstrhashPc.writes g pc g' pc' := by
  cases moved with
  | call call =>
      have outside := begin_outside call
      exact .quiet rfl rfl outside.1 outside.2
  | insertLock locked => exact wrlock_locks uses locked ⟨rfl, rfl⟩ ⟨rfl, rfl⟩
  | insertEnd finished =>
      have steady := finishInsert_steady finished
      exact .quiet (congrArg RwLock.readers steady.1) (congrArg RwLock.writer steady.1) rfl rfl
  | insertUnlock => exact unlock_locks uses (.inr rfl) ⟨rfl, rfl⟩
  | findLock locked =>
      obtain ⟨free, rfl⟩ := rdlock_eq uses locked
      exact .rdlock free rfl free ⟨rfl, rfl⟩ ⟨rfl, rfl⟩
  | findUnlock => exact unlock_locks uses (.inl rfl) ⟨rfl, rfl⟩
  | removeLock locked => exact wrlock_locks uses locked ⟨rfl, rfl⟩ ⟨rfl, rfl⟩
  | removeEnd removed =>
      have steady := removeEnt_steady removed
      exact .quiet (congrArg RwLock.readers steady.1) (congrArg RwLock.writer steady.1) rfl rfl
  | removeUnlock => exact unlock_locks uses (.inr rfl) ⟨rfl, rfl⟩
  | removeKeyLock locked => exact wrlock_locks uses locked ⟨rfl, rfl⟩ ⟨rfl, rfl⟩
  | removeKeyAbsent turned => exact .keep rfl rfl ⟨rfl, rfl⟩ ⟨rfl, rfl⟩
  | removeKeyEnd removed =>
      have steady := removeEnt_steady removed
      exact .quiet (congrArg RwLock.readers steady.1) (congrArg RwLock.writer steady.1) rfl rfl
  | removeKeyUnlock => exact unlock_locks uses (.inr rfl) ⟨rfl, rfl⟩
  | _ => exact .quiet rfl rfl rfl rfl

theorem move_knows (moved : Move g pc a g' pc') (uses : g.flags.useLock = true)
    (knows : pc.Knows g) : pc'.Knows g' := by
  have relocked : ∀ {key : Option Pointer} {hv : UInt64} (lock : RwLock)
      (lockCalls : List LockCall),
      calcHash g key = .ok hv → calcHash (g.relock lock lockCalls) key = .ok hv := by
    intro key hv lock lockCalls hashed
    rw [calcHash_congr fun _ _ => rfl]
    exact hashed
  cases moved with
  | call call =>
      cases call with
      | remove ent => cases ent <;> trivial
      | _ => trivial
  | insertHash hashed => exact hashed
  | insertLock locked =>
      rw [(wrlock_eq uses locked).2]
      exact ⟨relocked _ _ knows, trivial⟩
  | insertTurn turned => exact ⟨knows.1, knows.2.turn turned⟩
  | insertFound turned => exact ⟨knows.1, knows.2.ends turned⟩
  | findHash hashed => exact hashed
  | findLock locked =>
      rw [(rdlock_eq uses locked).2]
      exact ⟨relocked _ _ knows, trivial⟩
  | findTurn turned => exact ⟨knows.1, knows.2.turn turned⟩
  | removeKeyHash hashed => exact ⟨hashed, trivial⟩
  | removeKeyTurn turned => exact ⟨knows.1, knows.2.turn turned⟩
  | removeKeyFound turned => exact ⟨knows.1, _, knows.2.ends turned⟩
  | _ => trivial

end Changes

section Serving

variable {g g' : Amstrhash V} {key : Option Pointer} {hv : UInt64} {bucket : ℕ}
  {found : Option Pointer}

theorem unguarded_hash (hashed : calcHash g key = .ok hv) : calcHash g.unguarded key = .ok hv := by
  rw [calcHash_congr fun _ _ => rfl]
  exact hashed

theorem Found.unguarded (there : Found g key hv bucket found) :
    Found g.unguarded key hv bucket found :=
  there.guard false ⟨0, false⟩ []

theorem serve_insert {value : Option V} {allocs : Allocations} {rc : Amrc} {oldKey : Option Pointer}
    (hashed : calcHash g key = .ok hv) (there : Found g key hv bucket found)
    (finished : finishInsert g key hv value allocs bucket found = .ok (g', rc, oldKey)) :
    (Invocation.insert key value allocs).serve g.unguarded = .ok
    (g'.unguarded, .inserted rc oldKey) := by
  obtain ⟨⟨table, out⟩, run, rfl, rfl⟩ :=
    (finishInsert_guard false ⟨0, false⟩ [] g key hv value allocs bucket found).left finished
  have placed : amstrhashBucket g.unguarded hv = .ok bucket := there.1
  have searched := there.unguarded.2
  have inserted : insertEnt g.unguarded key hv value allocs = .ok (g'.unguarded, rc, oldKey) := by
    simp only [insertEnt, placed, bind, Except.bind, searched]
    cases found <;> exact run
  have locked : g.unguarded.wrlock = .ok g.unguarded := rfl
  simp only [Invocation.serve, amstrhashInsert, unguarded_hash hashed, locked, inserted,
    bind, Except.bind]
  rfl

theorem serve_find (hashed : calcHash g key = .ok hv) (there : Found g key hv bucket found) :
    (Invocation.find key).serve g.unguarded = .ok (g.unguarded, .found found) := by
  have placed : amstrhashBucket g.unguarded hv = .ok bucket := there.1
  have searched := there.unguarded.2
  have locked : g.unguarded.rdlock = .ok g.unguarded := rfl
  simp only [Invocation.serve, amstrhashFind, amstrhashFindLock, unguarded_hash hashed, locked,
    placed, searched, if_true, bind, Except.bind]
  rfl

theorem serve_remove {ent : Pointer} (removed : removeEnt g ent true = .ok g') :
    (Invocation.remove (some ent)).serve g.unguarded = .ok (g'.unguarded, .returned .success) := by
  obtain ⟨table, run, rfl⟩ := (removeEnt_guard false ⟨0, false⟩ [] g ent true).left removed
  have taken : removeEnt g.unguarded ent true = .ok g'.unguarded := run
  have locked : g.unguarded.wrlock = .ok g.unguarded := rfl
  simp only [Invocation.serve, amstrhashRemove, amstrhashEntRemove, locked, taken, if_true,
    bind, Except.bind]
  rfl

theorem unguarded_search (hashed : calcHash g key = .ok hv) (there : Found g key hv bucket found) :
    amstrhashFindLock g.unguarded key false = .ok (g.unguarded, found) := by
  have placed : amstrhashBucket g.unguarded hv = .ok bucket := there.1
  have searched := there.unguarded.2
  simp only [amstrhashFindLock, unguarded_hash hashed, bind, Except.bind, Bool.false_eq_true,
    if_false, pure, Except.pure, placed, searched]

theorem serve_removeKey_absent (hashed : calcHash g key = .ok hv)
    (there : Found g key hv bucket none) :
    (Invocation.removeKey key).serve g.unguarded = .ok (g.unguarded, .returned .error) := by
  have locked : g.unguarded.wrlock = .ok g.unguarded := rfl
  simp only [Invocation.serve, amstrhashRemoveKey, locked, unguarded_search hashed there,
    bind, Except.bind]
  rfl

theorem serve_removeKey {ent : Pointer} (hashed : calcHash g key = .ok hv)
    (there : Found g key hv bucket (some ent)) (removed : removeEnt g ent true = .ok g') :
    (Invocation.removeKey key).serve g.unguarded = .ok (g'.unguarded, .returned .success) := by
  obtain ⟨table, run, rfl⟩ := (removeEnt_guard false ⟨0, false⟩ [] g ent true).left removed
  have taken : removeEnt g.unguarded ent true = .ok g'.unguarded := run
  have locked : g.unguarded.wrlock = .ok g.unguarded := rfl
  simp only [Invocation.serve, amstrhashRemoveKey, amstrhashEntRemove, locked,
    unguarded_search hashed there, bind,
    Except.bind, Bool.false_eq_true, if_false, pure, Except.pure, taken]
  rfl

end Serving

section Runs

variable {Tid : Type} [Fintype Tid] [DecidableEq Tid]

/-- The lock excludes, every call knows what its search has found, and the object is the table
without the lock. -/
structure Shows (c : Config Tid (Amstrhash V) (AmstrhashPc V)) (table : Amstrhash V) : Prop where
  exclusive : Exclusive Amstrhash.readers Amstrhash.writer AmstrhashPc.reads AmstrhashPc.writes c
  uses : c.shared.flags.useLock = true
  knows : ∀ t, (c.pc t).Knows c.shared
  content : c.shared.unguarded = table

theorem knows_step {c : Config Tid (Amstrhash V) (AmstrhashPc V)} {act : Tid × Act V}
    {g : Amstrhash V} {l : AmstrhashPc V} {table : Amstrhash V} (shows : Shows c table)
    (moved : Move c.shared (c.pc act.1) act.2 g l)
    (kept : KeysKept c act ⟨g, Function.update c.pc act.1 l⟩) (t : Tid) :
    (Function.update c.pc act.1 l t).Knows g := by
  by_cases own : t = act.1
  · rw [own, Function.update_self]
    exact move_knows moved shows.uses (shows.knows act.1)
  · rw [Function.update_of_ne own]
    rcases move_change moved shows.uses with ⟨lock, lockCalls, rfl⟩ | writing
    · exact (shows.knows t).relock lock lockCalls
    · refine (shows.knows t).outside (shows.exclusive.others writing own) fun ptr isKey => ?_
      have unmoved : Function.update c.pc act.1 l t = c.pc t := Function.update_of_ne own ..
      exact kept t ptr (show ptr ∈ (Function.update c.pc act.1 l t).key from unmoved ▸ isKey)

theorem effect_of_serve {start g g' : Amstrhash V} {call : Invocation V} {result : Result}
    (served : call.serve g.unguarded = .ok (g'.unguarded, result)) :
    Explains (tableObject start) g.unguarded (.called call) none g'.unguarded
    (.done (.ok result)) := by
  have effect : Explains (tableObject start) g.unguarded (.called call) none _ _ :=
    .effect g.unguarded call
  simp only [tableObject, served] at effect
  exact effect

theorem move_explained {start g g' : Amstrhash V} {pc pc' : AmstrhashPc V} {a : Act V}
    (moved : Move g pc a g' pc') (uses : g.flags.useLock = true) (knows : pc.Knows g) :
    Explains (tableObject start) g.unguarded pc.status (see g pc a) g'.unguarded pc'.status := by
  have relocked : ∀ (lock : RwLock) (lockCalls : List LockCall),
      (g.relock lock lockCalls).unguarded = g.unguarded :=
    fun _ _ => rfl
  have given : g.unlock.unguarded = g.unguarded := by
    obtain ⟨lock, lockCalls, same⟩ := unlock_eq g
    rw [same, relocked]
  cases moved with
  | call call =>
      cases call with
      | remove ent =>
          cases ent with
          | none => exact .callEffect g.unguarded (Invocation.remove none)
          | some ent => exact .call g.unguarded (Invocation.remove (some ent))
      | insert key value allocs => exact .call g.unguarded (Invocation.insert key value allocs)
      | find key => exact .call g.unguarded (Invocation.find key)
      | removeKey key => exact .call g.unguarded (Invocation.removeKey key)
  | insertLock locked =>
      rw [(wrlock_eq uses locked).2, relocked]
      exact .quiet _ _
  | insertEnd finished => exact effect_of_serve (serve_insert knows.1 knows.2 finished)
  | insertUnlock =>
      rw [given]
      exact .quiet _ _
  | findLock locked =>
      rw [(rdlock_eq uses locked).2, relocked]
      exact .quiet _ _
  | findFound turned => exact effect_of_serve (serve_find knows.1 (knows.2.ends turned))
  | findUnlock =>
      rw [given]
      exact .quiet _ _
  | removeLock locked =>
      rw [(wrlock_eq uses locked).2, relocked]
      exact .quiet _ _
  | removeEnd removed => exact effect_of_serve (serve_remove removed)
  | removeUnlock =>
      rw [given]
      exact .quiet _ _
  | removeKeyLock locked =>
      rw [(wrlock_eq uses locked).2, relocked]
      exact .quiet _ _
  | removeKeyAbsent turned =>
      exact effect_of_serve (serve_removeKey_absent knows.1 (knows.2.ends turned))
  | removeKeyEnd removed =>
      obtain ⟨hashed, bucket, there⟩ := knows
      exact effect_of_serve (serve_removeKey hashed there removed)
  | removeKeyUnlock =>
      rw [given]
      exact .quiet _ _
  | returning result => exact .ret g.unguarded (Except.ok result)
  | _ => exact .quiet _ _

/-- Any interleaving of insertions, searches and removals of any threads on a table with a lock is
seen by its users as calls, one after the other, on the table without the lock. -/
theorem amstrhash_linearizable {start : Amstrhash V} (uses : start.flags.useLock = true)
    (free : start.lock = ⟨0, false⟩) {actions : List (Tid × Act V)}
    {c : Config Tid (Amstrhash V) (AmstrhashPc V)}
    (run : Run (Config.step next) KeysKept (shared Tid start) actions c) :
    Linearizable (tableObject start) (history next see (shared Tid start) actions) := by
  apply linearizable_run Shows (fun _ l => l.status) ?_ (fun _ => rfl) ?_ run
  · refine ⟨⟨?_, ?_, ?_, ?_⟩, uses, fun _ => trivial, rfl⟩
    · have none : count (fun l : AmstrhashPc V => l.reads) (shared Tid start).pc = 0 :=
        count_eq_zero.mpr fun _ => Bool.false_ne_true
      rw [none, Amstrhash.readers, shared, free]
    · intro t writing
      cases writing
    · have none : count (fun l : AmstrhashPc V => l.writes) (shared Tid start).pc = 0 :=
        count_eq_zero.mpr fun _ => Bool.false_ne_true
      omega
    · intro held
      rw [Amstrhash.writer, shared, free] at held
      cases held
  · intro c act g l table shows stepped kept
    have moved := next_move stepped
    refine ⟨fun _ _ => rfl, g.unguarded, ?_, ?_⟩
    · exact ⟨shows.exclusive.step (move_locks moved shows.uses) (not_both _),
        move_uses moved shows.uses,
        knows_step shows moved kept, rfl⟩
    · rw [← shows.content]
      exact move_explained moved shows.uses (shows.knows act.1)

/-- An insertion waits for a search that has the lock. -/
theorem amstrhash_linearizable_sample : ∃ start : Amstrhash ℕ, Linearizable (tableObject start)
    [((0 : Fin 3), .call (.find (some ⟨16, by decide⟩))),
      (1, .call (.insert (some ⟨16, by decide⟩) (some 7)
        ⟨true, some ⟨48, by decide⟩, some ⟨64, by decide⟩⟩)),
      (0, .ret (.ok (.found none))), (1, .ret (.ok (.inserted .success none)))] := by
  have run : Run (Config.step next) KeysKept
      (shared (Fin 3) (emptyTable 8 ⟨false, true, true, false, false⟩
        ⟨65, 4, 0, false⟩ sampleStrings : Amstrhash ℕ))
      ((0, .call (.find (some ⟨16, by decide⟩))) :: List.replicate 2 (0, .tick) ++
        (1, .call (.insert (some ⟨16, by decide⟩) (some 7)
          ⟨true, some ⟨48, by decide⟩, some ⟨64, by decide⟩⟩)) ::
        (1, .tick) :: List.replicate 4 (0, .tick) ++ List.replicate 6 (1, .tick)) _ :=
    run_of_runs (fun c act c' => decide (KeysKept c act c'))
      (fun _ _ _ checked => of_decide_eq_true checked)
      rfl (by decide)
  exact ⟨_, amstrhash_linearizable rfl rfl run⟩

end Runs

end Libam.Strhash
