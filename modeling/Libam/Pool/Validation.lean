import Libam.Pool.Disturbed

/-! Callers that write anywhere in the data of chunks, their own and those on free lists: which
writes the assertions of `chunk_magic_test` find. -/

namespace Libam.Pool.Clients.Validation

open Libam.Interleaving

section Histories

/-- What the last call of `alloc` or `free` for a chunk left: the size of the
request, and the data. -/
structure Stamp where
  size : UInt32
  data : ℕ → UInt8

structure History where
  pool : AmpoolInternal
  live : List Owned
  stamps : Addr → Stamp

def begin : History := ⟨ampoolInternal, [], fun _ => ⟨0, fun _ => 0⟩⟩

inductive Op
  | alloc (size : UInt32) (name : String) (fresh : Option (Addr × AmpoolChunk))
  | free (old : Owned)
  | write (c : Addr) (i : ℕ) (value : UInt8)

def dataOf (pool : AmpoolInternal) (c : Addr) : ℕ → UInt8 :=
  (pool.heap c).elim (fun _ => 0) fun block => block.chunk.data

def apply (cfg : Config) (s : History) : Op → Except Fault History
  | .alloc size name fresh => do
      let (pool, taken) ← ampoolOpAlloc cfg s.pool size name fresh
      match taken with
      | none => return { s with pool := pool }
      | some c =>
          return ⟨pool, ⟨c, size, name⟩ :: s.live, Function.update s.stamps c ⟨size, dataOf pool c⟩⟩
  | .free old => do
      let pool ← ampoolOpFree cfg s.pool old.chunk old.size
      return ⟨pool, s.live.erase old, Function.update s.stamps old.chunk
        ⟨old.size, dataOf pool old.chunk⟩⟩
  | .write c i value => do
      let block ← s.pool.block c
      let block ← block.storeByte (i, value)
      return { s with pool := s.pool.setBlock c (some block) }

def step (cfg : Config) (s : History) (op : Op) : Option History := (apply cfg s op).toOption

/-- Sizes from 1 to 2^32 - 16, and calls of `free` with a live block and its size. -/
def Right (s : History) (op : Op) (_ : History) : Prop :=
  match op with
  | .alloc size _ fresh => 0 < size.toNat ∧ size ≤ maxSize ∧ Unused s.pool size fresh
  | .free old => old ∈ s.live
  | .write .. => True

end Histories

section Statement

def Ends (size i : ℕ) : Prop :=
  i < min 32 ((size + 1) / 2) ∨ size - min 32 ((size + 1) / 2) ≤ i ∧ i < size

def Tail (size capacity i : ℕ) : Prop := size ≤ i ∧ i < capacity

/-- What is validated of a chunk: of a live one the tail, of a free one the ends of the data too. -/
def Covered (isUsed : Bool) (size capacity i : ℕ) : Prop :=
  Tail size capacity i ∨ (isUsed = false ∧ Ends size i)

def Changed (s : History) (c : Addr) (isUsed : Bool) : Prop :=
  ∃ block i, s.pool.heap c = some block ∧ Covered isUsed (s.stamps c).size.toNat block.capacity i ∧
    block.chunk.data i ≠ (s.stamps c).data i

structure FailsIff {α : Type} (result : Except Fault α) (changed : Prop) : Prop where
  fails : result = .error .assertion ↔ changed
  passes : (∃ value, result = .ok value) ↔ ¬ changed

structure Exact (cfg : Config) (s : History) : Prop where
  free : ∀ old ∈ s.live, FailsIff (ampoolOpFree cfg s.pool old.chunk old.size)
    (Changed s old.chunk true)
  alloc : ∀ size name fresh, 0 < size.toNat → size ≤ maxSize → Unused s.pool size fresh →
    FailsIff (ampoolOpAlloc cfg s.pool size name fresh) (∃ b c rest,
      ampoolGetBucket (alignSize size) = .ok b ∧ (s.pool.buckets b).freeList = c :: rest ∧
      Changed s c false)
  poolFree : FailsIff (ampoolPoolFree cfg s.pool)
    ((∃ old ∈ s.live, Changed s old.chunk true) ∨ ∃ b, ∃ c ∈ (s.pool.buckets b).freeList,
      Changed s c false)
  /-- The assertions of `bucket_term_list`, chunk by chunk. -/
  term : ∀ b isUsed, ∀ c ∈ (s.pool.buckets b).list isUsed, ∀ block, s.pool.heap c = some block →
    FailsIff (magicTest cfg c block
      (sizeMalloc (s.pool.buckets b).stats.elementSize block.chunk.size) (!isUsed))
      (Changed s c isUsed)

end Statement

section Invariant

variable {cfg : Config} {s s' : History} {b : BucketId} {c : Addr} {isUsed : Bool} {block : Block}

theorem failsIff_of {α : Type} {result : Except Fault α} {changed : Prop}
    (bad : changed → result = .error .assertion) (good : ¬ changed → ∃ value, result = .ok value) :
    FailsIff result changed := by
  by_cases holds : changed
  · have failed := bad holds
    exact ⟨by simp [failed, holds], by simp [failed, holds]⟩
  · obtain ⟨value, passed⟩ := good holds
    exact ⟨by simp [passed, holds], by simp [passed, holds]⟩

def plain (cfg : Config) : Config := { cfg with validate := false }

theorem covers_plain (cfg : Config) : cfg.Covers (plain cfg) := ⟨rfl, nofun⟩

structure Inv (cfg : Config) (s : History) : Prop where
  sound : Sound (plain cfg) s.pool
  owns : Owns s.pool s.live
  counted : Counted s.pool s.live
  stamped : ∀ b isUsed, ∀ c ∈ (s.pool.buckets b).list isUsed, ∀ block, s.pool.heap c = some block →
    (s.stamps c).size = block.chunk.size ∧ Kept cfg b c isUsed (block.withData (s.stamps c).data)

theorem inv_begin : Inv cfg begin :=
  ⟨sound_init, ⟨List.nodup_nil, fun _ => ⟨nofun, fun ⟨_, member⟩ => nomatch member⟩, nofun⟩,
    counted_start, fun _ isUsed _ member => by cases isUsed <;> cases member⟩

theorem covered_true (kept : Kept (plain cfg) b c isUsed block) (i : ℕ) :
    Covered true block.chunk.size.toNat block.capacity i ↔
      Overflow block.chunk.size (allocationSize b block.chunk) i := by
  simp [Covered, Tail, Overflow, kept.capacity]

theorem covered_false (kept : Kept (plain cfg) b c isUsed block) (i : ℕ) :
    Covered false block.chunk.size.toNat block.capacity i ↔
      Low block.chunk.size i ∨ High block.chunk.size i ∨
        Overflow block.chunk.size (allocationSize b block.chunk) i := by
  simp only [Covered, Ends, Tail, Low, High, Overflow, kept.capacity,
    validatedLen_toNat kept.fits.bound, true_and]
  tauto

/-- A chunk has its marks if and only if its validated bytes are those of one that has them. -/
theorem kept_iff (on : cfg.validate = true) {data : ℕ → UInt8}
    (kept : Kept (plain cfg) b c isUsed block)
    (stamped : Kept cfg b c isUsed (block.withData data)) : Kept cfg b c isUsed block ↔
      ∀ i, Covered isUsed block.chunk.size.toNat block.capacity i →
      block.chunk.data i = data i := by
  cases isUsed with
  | true =>
      constructor
      · intro whole i covered
        have beyond := (covered_true kept i).mp covered
        exact (whole.marked.bytes on i beyond).trans (stamped.marked.bytes on i beyond).symm
      · refine fun same => ⟨kept.fits, kept.capacity, ⟨kept.marked.magic, fun _ i beyond => ?_⟩⟩
        exact (same i ((covered_true kept i).mpr beyond)).trans (stamped.marked.bytes on i beyond)
  | false =>
      constructor
      · intro whole i covered
        have reached := (covered_false kept i).mp covered
        exact (whole.poisoned.2.bytes on i reached).trans
          (stamped.poisoned.2.bytes on i reached).symm
      · refine fun same => ⟨kept.fits, kept.capacity, kept.poisoned.1, ⟨kept.poisoned.2.magic,
          fun _ i reached => ?_⟩⟩
        exact (same i ((covered_false kept i).mpr reached)).trans
          (stamped.poisoned.2.bytes on i reached)

theorem Inv.disturbed_iff (inv : Inv cfg s) (on : cfg.validate = true)
    (listed : c ∈ (s.pool.buckets b).list isUsed) (mapped : s.pool.heap c = some block) :
    Disturbed cfg (plain cfg) b c isUsed block ↔ Changed s c isUsed := by
  obtain ⟨found, here, kept⟩ := inv.sound.lists b isUsed c listed
  rw [mapped] at here
  cases here
  obtain ⟨sized, stamped⟩ := inv.stamped b isUsed c listed block mapped
  have same := kept_iff on kept stamped
  constructor
  · intro disturbed
    have broken := disturbed.broken
    rw [same] at broken
    simp only [not_forall] at broken
    obtain ⟨i, covered, differs⟩ := broken
    exact ⟨block, i, mapped, sized ▸ covered, differs⟩
  · rintro ⟨found, i, here, covered, differs⟩
    rw [mapped] at here
    cases here
    refine ⟨kept, fun whole => differs (same.mp whole i ?_)⟩
    rw [← sized]
    exact covered

theorem Inv.kept (inv : Inv cfg s) (on : cfg.validate = true)
    (listed : c ∈ (s.pool.buckets b).list isUsed) (mapped : s.pool.heap c = some block)
    (same : ¬ Changed s c isUsed) : Kept cfg b c isUsed block := by
  obtain ⟨found, here, kept⟩ := inv.sound.lists b isUsed c listed
  rw [mapped] at here
  cases here
  by_contra broken
  exact same ((inv.disturbed_iff on listed mapped).mp ⟨kept, broken⟩)

theorem Inv.reusable (inv : Inv cfg s) (on : cfg.validate = true)
    (same : ∀ c rest, (s.pool.buckets b).freeList = c :: rest → ¬ Changed s c false) :
    Reusable cfg s.pool b :=
  fun c free _ found mapped =>
    (inv.kept on (mem_freeList found) mapped (same c free found)).poisoned.2

theorem Inv.marked (inv : Inv cfg s) (on : cfg.validate = true) {old : Owned}
    (member : old ∈ s.live) (same : ¬ Changed s old.chunk true) (b : BucketId) (block : Block)
    (mapped : s.pool.heap old.chunk = some block) (kept : Kept (plain cfg) b old.chunk true block) :
    Marked cfg old.chunk block.chunk (allocationSize b block.chunk) := by
  obtain ⟨b', found, used, here, kept', _⟩ := inv.owns.held inv.sound member
  rw [mapped] at here
  cases here
  obtain rfl := kept.bucket_eq kept'
  have listed : old.chunk ∈ (s.pool.buckets b).list true := used
  exact (inv.kept on listed mapped same).marked

end Invariant

section Assertions

variable {cfg : Config} {s : History}

theorem Inv.failsIff_alloc (inv : Inv cfg s) (on : cfg.validate = true) {size : UInt32}
    (name : String) {fresh : Option (Addr × AmpoolChunk)} (positive : 0 < size.toNat)
    (bound : size ≤ maxSize) (unused : Unused s.pool size fresh) :
      FailsIff (ampoolOpAlloc cfg s.pool size name fresh) (∃ b c rest,
      ampoolGetBucket (alignSize size) = .ok b ∧ (s.pool.buckets b).freeList = c :: rest ∧
        Changed s c false) := by
  refine failsIff_of (fun changed => ?_) fun same => ?_
  · obtain ⟨b, c, rest, bucket, found, changed⟩ := changed
    obtain ⟨block, mapped, _⟩ := inv.sound.lists b false c (mem_freeList found)
    exact ampoolOpAlloc_disturbed inv.sound positive bound bucket found mapped
      ((inv.disturbed_iff on (mem_freeList found) mapped).mpr changed) name fresh
  · have reusable (b : BucketId) (bucket : ampoolGetBucket (alignSize size) = .ok b) :
        Reusable cfg s.pool b :=
      inv.reusable on fun c rest found changed => same ⟨b, c, rest, bucket, found, changed⟩
    rcases ampoolOpAlloc_covered (covers_plain cfg) inv.sound positive bound unused
      reusable name with
      ⟨_, run⟩ | ⟨_, _, _, _, _, _, _, run⟩
    · exact ⟨_, run⟩
    · exact ⟨_, run⟩

theorem Inv.failsIff_free (inv : Inv cfg s) (on : cfg.validate = true) {old : Owned}
    (member : old ∈ s.live) :
    FailsIff (ampoolOpFree cfg s.pool old.chunk old.size) (Changed s old.chunk true) := by
  refine failsIff_of (fun changed => ?_) fun same => ?_
  · obtain ⟨b, block, used, mapped, _, sized, _⟩ := inv.owns.held inv.sound member
    have listed : old.chunk ∈ (s.pool.buckets b).list true := used
    exact ampoolOpFree_disturbed inv.sound mapped sized
      ((inv.disturbed_iff on listed mapped).mpr changed)
  · obtain ⟨_, _, _, _, _, run⟩ := ampoolOpFree_covered (covers_plain cfg) inv.owns inv.sound member
      (inv.marked on member same)
    exact ⟨_, run⟩

theorem Inv.failsIff_poolFree (inv : Inv cfg s) (on : cfg.validate = true) :
    FailsIff (ampoolPoolFree cfg s.pool) ((∃ old ∈ s.live, Changed s old.chunk true) ∨
      ∃ b, ∃ c ∈ (s.pool.buckets b).freeList, Changed s c false) := by
  refine failsIff_of (fun changed => ?_) fun same => ?_
  · have broken {b : BucketId} {isUsed : Bool} {c : Addr}
        (listed : c ∈ (s.pool.buckets b).list isUsed)
        (changed : Changed s c isUsed) : Broken cfg (plain cfg) s.pool b := by
      obtain ⟨block, mapped, _⟩ := inv.sound.lists b isUsed c listed
      exact ⟨isUsed, c, listed, block, mapped, (inv.disturbed_iff on listed mapped).mpr changed⟩
    rcases changed with ⟨old, member, changed⟩ | ⟨b, c, free, changed⟩
    · obtain ⟨b, _, used, _⟩ := inv.owns.held inv.sound member
      have listed : old.chunk ∈ (s.pool.buckets b).list true := used
      exact ampoolPoolFree_broken inv.sound (broken listed changed)
    · have listed : c ∈ (s.pool.buckets b).list false := free
      exact ampoolPoolFree_broken inv.sound (broken listed changed)
  · have whole (b : BucketId) : ¬ Broken cfg (plain cfg) s.pool b := by
      rintro ⟨isUsed, c, listed, block, mapped, disturbed⟩
      have changed := (inv.disturbed_iff on listed mapped).mp disturbed
      cases isUsed with
      | true =>
          have used : c ∈ s.live.map Owned.chunk := (inv.owns.used c).mpr ⟨b, listed⟩
          obtain ⟨old, member, rfl⟩ := List.mem_map.mp used
          exact same (.inl ⟨old, member, changed⟩)
      | false => exact same (.inr ⟨b, c, listed, changed⟩)
    have client : Clients.Inv cfg ⟨s.pool, s.live⟩ :=
      ⟨sound_of_not_broken inv.sound whole, inv.owns⟩
    exact (Counted.tallied (s := ⟨s.pool, s.live⟩) inv.counted client).free

theorem Inv.exact (inv : Inv cfg s) (on : cfg.validate = true) : Exact cfg s where
  free := fun _ member => inv.failsIff_free on member
  alloc := fun _ name _ positive bound unused => inv.failsIff_alloc on name positive bound unused
  poolFree := inv.failsIff_poolFree on
  term := fun b isUsed c listed block mapped => by
    rw [inv.sound.sizes]
    refine failsIff_of (fun changed => ?_) fun same => ?_
    · exact test_of_disturbed ((inv.disturbed_iff on listed mapped).mpr changed)
    · exact ⟨(), test_of_kept (inv.kept on listed mapped same)⟩

end Assertions

section Steps

variable {cfg weaker : Config} {s s' : History} {pool pool' : AmpoolInternal} {b : BucketId}
  {c : Addr} {size : UInt32} {name : String} {fresh : Option (Addr × AmpoolChunk)}
  {bucket : AmpoolBucket} {block : Block} {old : Owned} {value : Option Block}

theorem list_of_took (took : Took weaker pool size name fresh b bucket c block pool')
    {b' : BucketId} {isUsed : Bool} {d : Addr} (listed : d ∈ (pool'.buckets b').list isUsed)
    (other : d ≠ c) : d ∈ (pool.buckets b').list isUsed := by
  by_cases here : b' = b
  · subst here
    rw [took.buckets_self] at listed
    cases isUsed with
    | true =>
        have member : d ∈ c :: bucket.usedList := listed
        rw [took.source.used_eq.1] at member
        exact (List.mem_cons.mp member).resolve_left other
    | false =>
        have member : d ∈ bucket.freeList := listed
        cases took.source with
        | reuse found =>
            show d ∈ (pool.buckets b').freeList
            rw [found]
            exact List.mem_cons_of_mem _ member
        | malloc => exact member
  · rwa [took.buckets_of_ne here] at listed

theorem list_of_gave (gave : Gave weaker pool old b value pool') {b' : BucketId} {isUsed : Bool}
    {d : Addr} (listed : d ∈ (pool'.buckets b').list isUsed) (other : d ≠ old.chunk) :
    d ∈ (pool.buckets b').list isUsed := by
  by_cases here : b' = b
  · subst here
    rw [gave.buckets_self] at listed
    cases isUsed with
    | true => exact List.mem_of_mem_erase listed
    | false =>
        have member : d ∈ (bucketFreeSection (pool.buckets b') old.chunk old.size).freeList :=
          listed
        rw [bucketFreeSection] at member
        simp only at member
        split at member
        · exact (List.mem_cons.mp member).resolve_left other
        · exact member
  · rwa [gave.buckets_of_ne here] at listed

theorem Inv.alloc (inv : Inv cfg s) (unused : Unused s.pool size fresh)
    (took : Took (plain cfg) s.pool size name fresh b bucket c block pool')
    (prepared : Prepared cfg b c size name block) :
    Inv cfg ⟨pool', ⟨c, size, name⟩ :: s.live, Function.update s.stamps c
      ⟨size, dataOf pool' c⟩⟩ := by
  refine ⟨took.sound, took.owns inv.owns inv.sound unused,
    took.counted inv.sound unused inv.counted,
    fun b' isUsed d listed block' mapped => ?_⟩
  by_cases here : d = c
  · subst here
    obtain ⟨rfl, rfl⟩ := took.sound.unique listed took.used
    cases took.heap_self.symm.trans mapped
    simp only [Function.update_self, dataOf, took.heap_self, Option.elim_some]
    exact ⟨prepared.sized.symm, prepared.kept⟩
  · rw [took.heap_of_ne here] at mapped
    simp only [Function.update_of_ne here]
    exact inv.stamped b' isUsed d (list_of_took took listed here) block' mapped

theorem Inv.free (inv : Inv cfg s) (member : old ∈ s.live)
    (gave : Gave (plain cfg) s.pool old b value pool')
    (left : Left cfg b old.chunk old.size value) : Inv cfg ⟨pool', s.live.erase old,
      Function.update s.stamps old.chunk ⟨old.size, dataOf pool' old.chunk⟩⟩ := by
  refine ⟨gave.sound, gave.owns inv.owns inv.sound member,
    gave.counted inv.sound inv.owns member inv.counted,
    fun b' isUsed d listed block' mapped => ?_⟩
  by_cases here : d = old.chunk
  · subst here
    have heap : pool'.heap old.chunk = value := by
      rw [gave.after]
      exact Function.update_self ..
    rw [Left] at left
    split at left
    · subst left
      rw [heap] at mapped
      cases mapped
    · obtain ⟨after, rfl, kept, sized⟩ := left
      cases heap.symm.trans mapped
      obtain ⟨found, there, kept'⟩ := gave.sound.lists b' isUsed old.chunk listed
      cases heap.symm.trans there
      obtain rfl := kept'.bucket_eq (kept.weaken (covers_plain cfg))
      cases isUsed with
      | true => exact absurd rfl ((gave.mem_used inv.sound old.chunk).mp ⟨_, listed⟩).1
      | false =>
          simp only [Function.update_self, dataOf, heap, Option.elim_some]
          exact ⟨sized.symm, kept⟩
  · rw [gave.heap_of_ne here] at mapped
    simp only [Function.update_of_ne here]
    exact inv.stamped b' isUsed d (list_of_gave gave listed here) block' mapped

theorem kept_plain {isUsed : Bool} (kept : Kept (plain cfg) b c isUsed block) (data : ℕ → UInt8) :
    Kept (plain cfg) b c isUsed (block.withData data) := by
  refine ⟨kept.fits, kept.capacity, ?_⟩
  cases isUsed with
  | true => exact ⟨kept.marked.magic, nofun⟩
  | false => exact ⟨kept.poisoned.1, ⟨kept.poisoned.2.magic, nofun⟩⟩

theorem Inv.write (inv : Inv cfg s) (mapped : s.pool.heap c = some block) (data : ℕ → UInt8) :
    Inv cfg { s with pool := s.pool.setBlock c (some (block.withData data)) } := by
  have self : (s.pool.setBlock c (some (block.withData data))).heap
      c = some (block.withData data) :=
    Function.update_self ..
  have others {d : Addr} (other : d ≠ c) : (s.pool.setBlock c (some (block.withData data))).heap d =
      s.pool.heap d := Function.update_of_ne other ..
  -- What the chunk looks like now, told from what it was.
  have before {d : Addr} {now : Block}
      (there : (s.pool.setBlock c (some (block.withData data))).heap d = some now) :
      ∃ data' was, s.pool.heap d = some was ∧ now = was.withData data' := by
    by_cases here : d = c
    · subst here
      cases self.symm.trans there
      exact ⟨data, block, mapped, rfl⟩
    · rw [others here] at there
      exact ⟨now.chunk.data, now, there, rfl⟩
  have after {d : Addr} {was : Block} (there : s.pool.heap d = some was) :
      ∃ data', (s.pool.setBlock c (some (block.withData data))).heap
      d = some (was.withData data') := by
    by_cases here : d = c
    · subst here
      cases mapped.symm.trans there
      exact ⟨data, self⟩
    · exact ⟨was.chunk.data, (others here).trans there⟩
  refine ⟨⟨inv.sound.sizes, fun b isUsed d listed => ?_, inv.sound.nodup,
    fun d now e now' first second => ?_,
    fun d now held => ?_⟩, ⟨inv.owns.nodup, inv.owns.used, fun owned member => ?_⟩,
    inv.counted.setBlock mapped rfl, fun b isUsed d listed now held => ?_⟩
  · obtain ⟨was, there, kept⟩ := inv.sound.lists b isUsed d listed
    obtain ⟨data', now⟩ := after there
    exact ⟨_, now, kept_plain kept data'⟩
  · obtain ⟨_, was, there, rfl⟩ := before first
    obtain ⟨_, was', there', rfl⟩ := before second
    exact inv.sound.apart d was e was' there there'
  · obtain ⟨_, was, there, rfl⟩ := before held
    exact inv.sound.inside d was there
  · obtain ⟨was, there, sized, named⟩ := inv.owns.blocks owned member
    obtain ⟨_, now⟩ := after there
    exact ⟨_, now, sized, named⟩
  · obtain ⟨_, was, there, rfl⟩ := before held
    exact inv.stamped b isUsed d listed was there

theorem toOption_eq_some {result : Except Fault History} (some : result.toOption = some s') :
    result = .ok s' := by
  cases result with
  | error => cases some
  | ok value => exact congrArg _ (Option.some.inj some)

theorem Inv.step {op : Op} (inv : Inv cfg s) (on : cfg.validate = true) (right : Right s op s')
    (fired : step cfg s op = some s') : Inv cfg s' := by
  have run := toOption_eq_some fired
  cases op with
  | alloc size name fresh =>
      obtain ⟨positive, bound, unused⟩ := right
      have fails := inv.failsIff_alloc on name positive bound unused
      by_cases changed : ∃ b c rest, ampoolGetBucket (alignSize size) = .ok b ∧
          (s.pool.buckets b).freeList = c :: rest ∧ Changed s c false
      · simp only [apply, fails.fails.mpr changed, bind, Except.bind] at run
        cases run
      · have reusable (b : BucketId) (bucket : ampoolGetBucket (alignSize size) = .ok b) :
            Reusable cfg s.pool b :=
          inv.reusable on fun c rest found also => changed ⟨b, c, rest, bucket, found, also⟩
        rcases ampoolOpAlloc_covered (covers_plain cfg) inv.sound positive bound unused
          reusable name with
          ⟨_, alloc⟩ | ⟨_, _, _, _, _, took, prepared, alloc⟩
        · simp only [apply, alloc, bind, Except.bind, pure, Except.pure, Except.ok.injEq] at run
          subst run
          exact inv
        · simp only [apply, alloc, bind, Except.bind, pure, Except.pure, Except.ok.injEq] at run
          subst run
          exact inv.alloc unused took prepared
  | free old =>
      have fails := inv.failsIff_free on right
      by_cases changed : Changed s old.chunk true
      · simp only [apply, fails.fails.mpr changed, bind, Except.bind] at run
        cases run
      · obtain ⟨_, _, _, gave, left, free⟩ := ampoolOpFree_covered
          (covers_plain cfg) inv.owns inv.sound right
          (inv.marked on right changed)
        simp only [apply, free, bind, Except.bind, pure, Except.pure, Except.ok.injEq] at run
        subst run
        exact inv.free right gave left
  | write c i value =>
      cases mapped : s.pool.heap c with
      | none =>
          simp only [apply, AmpoolInternal.block, mapped, bind, Except.bind] at run
          cases run
      | some block =>
          simp only [apply, AmpoolInternal.block, mapped, bind, Except.bind, Block.storeByte] at run
          split at run
          · cases run
          · rename_i stored
            split at stored
            · cases stored
              cases run
              exact inv.write mapped _
            · cases stored

end Steps

section Runs

/-- With AMPOOL_VALIDATE_ON_FREE, the assertions fail for exactly the chunks of which a validated
byte has been written over. -/
theorem ampool_validation_exact (magic : UInt32) {ops : List Op} {s : History}
    (run : Run (step ⟨magic, true⟩) Right begin ops s) : Exact ⟨magic, true⟩ s := by
  have stays (s : History) (op : Op) (s' : History) (inv : Inv ⟨magic, true⟩ s)
      (fired : step ⟨magic, true⟩ s op = some s') (right : Right s op s') : Inv ⟨magic, true⟩ s' :=
    inv.step rfl right fired
  exact (run.invariant (Inv ⟨magic, true⟩) inv_begin stays).exact rfl

/-- A block of 5 bytes, and a write to the 8th byte of its 16. -/
theorem ampool_validation_exact_tail : ∃ s, Run (step ⟨0x3A7C51E9, true⟩) Right begin
    [.alloc 5 "first" (some (4096, .zero)), .write 4096 7 1] s ∧ s.live = [⟨4096, 5, "first"⟩] ∧
      Exact ⟨0x3A7C51E9, true⟩ s := by
  have unused : Unused begin.pool 5 (some (4096, .zero)) := by
    intro c chunk given
    cases given
    exact ⟨by decide, fun _ _ mapped => by cases mapped⟩
  have right : Right begin (.alloc 5 "first" (some (4096, .zero))) begin :=
    ⟨by decide, by decide, unused⟩
  have run : Run (step ⟨0x3A7C51E9, true⟩) Right begin
      ([.alloc 5 "first" (some (4096, .zero))] ++ [.write 4096 7 1]) _ :=
    .snoc (.snoc .nil rfl right) rfl trivial
  exact ⟨_, run, rfl, ampool_validation_exact 0x3A7C51E9 run⟩

end Runs

end Libam.Pool.Clients.Validation
