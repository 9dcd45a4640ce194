import Libam.Pool.Counts

/-! The totals of a bucket over its used and free chunks: when they hold, and what `bucket_term`
makes of them. -/

namespace Libam.Pool.Clients

open Libam.Interleaving

section Statement

/-- The totals of a bucket count its chunks with their sizes, and its termination takes all of
them off again. -/
structure Totals (cfg : Config) (pool : AmpoolInternal) (b : BucketId) : Prop where
  totalElementCount : (pool.buckets b).stats.totalElementCount.toNat =
    (pool.buckets b).usedList.length + (pool.buckets b).freeList.length
  totalSize : (pool.buckets b).stats.totalSize.toNat =
    sizesOf pool (pool.buckets b).usedList + sizesOf pool (pool.buckets b).freeList
  usedSize : (pool.buckets b).stats.usedSize ≤ (pool.buckets b).stats.totalSize
  usedElementCount :
    (pool.buckets b).stats.usedElementCount ≤ (pool.buckets b).stats.totalElementCount
  usedNoWrap : NoWrap true (pool.buckets b).stats ((pool.buckets b).usedList.map (size64 pool))
  freeNoWrap : NoWrap false
    ((pool.buckets b).stats.dropAll true ((pool.buckets b).usedList.map (size64 pool)))
    ((pool.buckets b).freeList.map (size64 pool))
  term : ∃ s, bucketTerm cfg pool b = .ok s ∧ (s.buckets b).stats.totalSize = 0 ∧
    (s.buckets b).stats.totalElementCount = 0

def SameSize (pool : AmpoolInternal) (size : UInt32) : Prop :=
  ∀ b c free block, ampoolGetBucket (alignSize size) = .ok b →
    (pool.buckets b).freeList = c :: free →
    pool.heap c = some block → block.chunk.size = size

def Stepped (size : UInt32) : Prop := alignSize size ≤ ampoolMaxStepped

/-- No call uses a free chunk for another size, and none gives an oversized chunk back. -/
def Steady (s : Client) (op : Op) (s' : Client) : Prop :=
  Ready s op s' ∧ match op with
    | .alloc size .. => SameSize s.pool size
    | .free old => Stepped old.size
    | .realloc old size .. => SameSize s.pool size ∧ Stepped old.size
    | .write .. => True

end Statement

section Counting

variable {cfg : Config} {pool pool' : AmpoolInternal} {live : List Owned} {b : BucketId} {c : Addr}
  {size : UInt32} {name : String} {fresh : Option (Addr × AmpoolChunk)} {bucket : AmpoolBucket}
  {block : Block} {old : Owned} {value : Option Block}

structure Totalled (pool : AmpoolInternal) : Prop where
  count : ∀ b, (pool.buckets b).stats.totalElementCount =
    .ofNat ((pool.buckets b).usedList.length + (pool.buckets b).freeList.length)
  size : ∀ b, (pool.buckets b).stats.totalSize =
    .ofNat (sizesOf pool (pool.buckets b).usedList + sizesOf pool (pool.buckets b).freeList)

theorem totalled_start : Totalled ampoolInternal := ⟨fun _ => rfl, fun _ => rfl⟩

theorem sizesOf_elsewhere {chunks : List Addr} (kept : ∀ d, d ≠ c → pool'.heap d = pool.heap d)
    (outside : c ∉ chunks) : sizesOf pool' chunks = sizesOf pool chunks :=
  sizesOf_congr fun d member => chunkSize_congr (kept d fun same => outside (same ▸ member))

theorem Took.totalled (took : Took cfg pool size name fresh b bucket c block pool')
    (sound : Sound cfg pool) (unused : Unused pool size fresh) (same : SameSize pool size)
    (totalled : Totalled pool) : Totalled pool' := by
  have kept (d : Addr) (other : d ≠ c) := took.heap_of_ne other
  have notUsed := took.source.not_used sound unused b
  have here : chunkSize pool' c = size.toNat := by
    rw [chunkSize_of_some took.heap_self, took.prepared.sized]
  have used : sizesOf pool' (pool'.buckets b).usedList =
      size.toNat + sizesOf pool (pool.buckets b).usedList := by
    rw [took.usedList_self, sizesOf_cons, here, sizesOf_elsewhere kept notUsed]
  have others {b' : BucketId} (other : b' ≠ b) (isUsed : Bool) :
      sizesOf pool' ((pool.buckets b').list isUsed) = sizesOf pool
      ((pool.buckets b').list isUsed) :=
    sizesOf_elsewhere kept fun listed => other (took.source.elsewhere sound unused listed)
  have found := took.prepared.kept.fits.bucket
  rw [took.prepared.sized] at found
  constructor
  · intro b'
    by_cases isHere : b' = b
    · subst isHere
      rw [took.usedList_self, took.buckets_self, List.length_cons]
      cases took.source with
      | @reuse free listed =>
          show (pool.buckets b').stats.totalElementCount = .ofNat (_ + 1 + free.length)
          rw [totalled.count, listed, List.length_cons]
          exact congrArg UInt64.ofNat (by omega)
      | malloc empty _ =>
          show (pool.buckets b').stats.totalElementCount + 1 =
            .ofNat ((pool.buckets b').usedList.length + 1 + (pool.buckets b').freeList.length)
          rw [totalled.count, empty]
          exact (UInt64.ofNat_add _ 1).symm
    · rw [took.buckets_of_ne isHere, totalled.count]
  · intro b'
    by_cases isHere : b' = b
    · subst isHere
      rw [used, took.buckets_self]
      cases took.source with
      | @reuse free listed =>
          obtain ⟨before, mapped, _⟩ := sound.lists b' false c (mem_freeList listed)
          have former : chunkSize pool c = size.toNat := by
            rw [chunkSize_of_some mapped, same b' c free before found listed mapped]
          have nodup := (sound.nodup b').of_append_right
          rw [listed] at nodup
          show (pool.buckets b').stats.totalSize = .ofNat (_ + sizesOf pool' free)
          rw [totalled.size, listed, sizesOf_cons, former,
            sizesOf_elsewhere kept (List.nodup_cons.mp nodup).1]
          exact congrArg UInt64.ofNat (by omega)
      | malloc empty _ =>
          show (pool.buckets b').stats.totalSize + size.toUInt64 =
            .ofNat (_ + sizesOf pool' (pool.buckets b').freeList)
          rw [totalled.size, empty, ← UInt64.ofNat_uInt32ToNat, ← UInt64.ofNat_add]
          exact congrArg UInt64.ofNat (by simp [sizesOf, Nat.add_comm])
    · rw [took.buckets_of_ne isHere, totalled.size]
      exact congrArg UInt64.ofNat (congrArg₂ _ (others isHere true).symm (others isHere false).symm)

theorem bucketSize_of_stepped (found : ampoolGetBucket (alignSize size) = .ok b)
    (stepped : Stepped size) : bucketSize b ≠ 0 := by
  rw [Ne, bucketSize_eq_zero]
  rintro rfl
  rw [Stepped] at stepped
  unfold ampoolGetBucket at found
  rw [if_pos stepped] at found
  split at found
  · cases found
  · dsimp only at found
    split at found <;> cases found

theorem Gave.totalled (gave : Gave cfg pool old b value pool') (sound : Sound cfg pool)
    (owns : Owns pool live) (member : old ∈ live) (stepped : Stepped old.size)
    (totalled : Totalled pool) : Totalled pool' := by
  have kept (d : Addr) (other : d ≠ old.chunk) := gave.heap_of_ne other
  have nodup := sound.nodup b
  have once : (pool.buckets b).usedList.Nodup := nodup.of_append_left
  have notFree : old.chunk ∉ (pool.buckets b).freeList := fun also => nodup.disjoint gave.used also
  have usedPerm := List.perm_cons_erase gave.used
  have listed : old.chunk ∈ (pool.buckets b).list true := gave.used
  obtain ⟨b₁, block, used, mapped, holds, sized, _⟩ := owns.held sound member
  have listed₁ : old.chunk ∈ (pool.buckets b₁).list true := used
  obtain rfl := (sound.unique listed₁ listed).1
  have found := holds.fits.bucket
  rw [sized] at found
  have element := bucketSize_of_stepped found stepped
  have former : chunkSize pool old.chunk = old.size.toNat := by rw [chunkSize_of_some mapped, sized]
  have later : chunkSize pool' old.chunk = old.size.toNat := by
    have left := gave.left
    rw [Left, if_neg element] at left
    obtain ⟨after, isAfter, _, sizedAfter⟩ := left
    have here : pool'.heap old.chunk = some after := by
      rw [gave.after, ← isAfter]
      exact Function.update_self ..
    rw [chunkSize_of_some here, sizedAfter]
  have freeList : (pool'.buckets b₁).freeList = old.chunk :: (pool.buckets b₁).freeList := by
    rw [gave.buckets_self, bucketFreeSection, sound.sizes,
      if_pos (UInt64.pos_iff_ne_zero.mpr element)]
  have stats : (pool'.buckets b₁).stats.totalElementCount =
      (pool.buckets b₁).stats.totalElementCount ∧
      (pool'.buckets b₁).stats.totalSize = (pool.buckets b₁).stats.totalSize := by
    rw [gave.buckets_self]
    exact ⟨rfl, rfl⟩
  have others {b' : BucketId} (other : b' ≠ b₁) (isUsed : Bool) :
      sizesOf pool' ((pool.buckets b').list isUsed) = sizesOf pool
      ((pool.buckets b').list isUsed) :=
    sizesOf_elsewhere kept fun also => other (sound.unique also listed).1
  constructor
  · intro b'
    by_cases isHere : b' = b₁
    · subst isHere
      rw [stats.1, totalled.count, freeList, gave.usedList_self, usedPerm.length_eq]
      simp only [List.length_cons]
      exact congrArg UInt64.ofNat (by omega)
    · rw [gave.buckets_of_ne isHere, totalled.count]
  · intro b'
    by_cases isHere : b' = b₁
    · subst isHere
      rw [stats.2, totalled.size, freeList, gave.usedList_self, sizesOf_perm usedPerm, sizesOf_cons,
        sizesOf_cons, former, later, sizesOf_elsewhere kept notFree,
        sizesOf_elsewhere kept fun also => (once.mem_erase_iff.mp also).1 rfl]
      exact congrArg UInt64.ofNat (by omega)
    · rw [gave.buckets_of_ne isHere, totalled.size]
      exact congrArg UInt64.ofNat (congrArg₂ _ (others isHere true).symm (others isHere false).symm)

theorem Totalled.setBlock (totalled : Totalled pool) {before : Block}
    (mapped : pool.heap c = some before) (sized : block.chunk.size = before.chunk.size) :
    Totalled (pool.setBlock c (some block)) := by
  have same (chunks : List Addr) : sizesOf (pool.setBlock c (some block)) chunks = sizesOf
      pool chunks :=
    sizesOf_congr fun d _ => chunkSize_setBlock mapped sized d
  refine ⟨totalled.count, fun b' => ?_⟩
  show (pool.buckets b').stats.totalSize = .ofNat (sizesOf _ (pool.buckets b').usedList +
    sizesOf _ (pool.buckets b').freeList)
  rw [same, same, totalled.size]

variable {s s' : Client} {op : Op} {taken : Option Addr}

theorem Outcome.totalled (outcome : Outcome cfg s op s' taken) (inv : Inv cfg s)
    (steady : Steady s op s') (totalled : Totalled s.pool) : Totalled s'.pool := by
  obtain ⟨sound, owns⟩ := inv
  obtain ⟨_, steady⟩ := steady
  cases outcome with
  | refused => exact totalled
  | allocated unused took => exact took.totalled sound unused steady totalled
  | freed member gave => exact gave.totalled sound owns member steady totalled
  | lost member gave => exact gave.totalled sound owns member steady.2 totalled
  | moved member unused took mapped copied sound₁ owns₁ gave =>
      have between := (took.totalled sound unused steady.1 totalled).setBlock took.heap_self
        (copied.sized.trans took.prepared.sized.symm)
      exact gave.totalled sound₁ owns₁ (List.mem_cons_of_mem _ member) steady.2 between
  | written member inside used mapped kept sized named => exact totalled.setBlock mapped rfl

end Counting

section Termination

variable {cfg : Config} {pool : AmpoolInternal}

/-- A bucket whose counters reach for these sizes can subtract them one after the other. -/
theorem noWrap_of_le (isUsed : Bool) (stats : AmpoolBucketStats) (sizes : List UInt64)
    (total : (sizes.map UInt64.toNat).sum ≤ stats.totalSize.toNat)
    (count : sizes.length ≤ stats.totalElementCount.toNat)
    (used : isUsed = true → (sizes.map UInt64.toNat).sum ≤ stats.usedSize.toNat ∧
      sizes.length ≤ stats.usedElementCount.toNat) :
    NoWrap isUsed stats sizes ∧
      (stats.dropAll isUsed sizes).totalSize.toNat =
        stats.totalSize.toNat - (sizes.map UInt64.toNat).sum ∧
      (stats.dropAll isUsed sizes).totalElementCount.toNat =
        stats.totalElementCount.toNat - sizes.length := by
  induction sizes generalizing stats with
  | nil => exact ⟨trivial, rfl, rfl⟩
  | cons size sizes ih =>
      simp only [List.map_cons, List.sum_cons, List.length_cons] at total count used ⊢
      have one : (1 : UInt64).toNat = 1 := rfl
      have enough : stats.Enough isUsed size := by
        refine ⟨UInt64.le_iff_toNat_le.mpr (by omega), UInt64.le_iff_toNat_le.mpr (by omega),
          fun inUse => ?_⟩
        have bound := used inUse
        exact ⟨UInt64.le_iff_toNat_le.mpr (by omega), UInt64.le_iff_toNat_le.mpr (by omega)⟩
      have totalAfter : (stats.drop isUsed size).totalSize.toNat =
          stats.totalSize.toNat - size.toNat :=
        UInt64.toNat_sub_of_le _ _ enough.1
      have countAfter : (stats.drop isUsed size).totalElementCount.toNat =
          stats.totalElementCount.toNat - 1 := UInt64.toNat_sub_of_le _ _ enough.2.1
      obtain ⟨rest, totalRest, countRest⟩ := ih (stats.drop isUsed size) (by omega) (by omega)
        fun inUse => by
          have bound := used inUse
          have sizeAfter : (stats.drop isUsed size).usedSize.toNat = stats.usedSize.toNat -
              size.toNat := by
            simp only [AmpoolBucketStats.drop, inUse, if_true]
            exact UInt64.toNat_sub_of_le _ _ (enough.2.2 inUse).1
          have usedAfter : (stats.drop isUsed size).usedElementCount.toNat =
              stats.usedElementCount.toNat - 1 := by
            simp only [AmpoolBucketStats.drop, inUse, if_true]
            exact UInt64.toNat_sub_of_le _ _ (enough.2.2 inUse).2
          omega
      refine ⟨⟨enough, rest⟩, totalRest.trans ?_, countRest.trans ?_⟩ <;> omega

theorem sum_size64 (pool : AmpoolInternal) (chunks : List Addr) :
    ((chunks.map (size64 pool)).map UInt64.toNat).sum = sizesOf pool chunks := by
  rw [List.map_map, sizesOf]
  refine congrArg List.sum (List.map_congr_left fun c _ => ?_)
  show (size64 pool c).toNat = chunkSize pool c
  rw [size64, UInt64.toNat_ofNat_of_lt']
  rw [chunkSize]
  split
  · decide
  · rename_i block _
    have bound := block.chunk.size.toNat_lt
    show _ < 2 ^ 64
    omega

theorem Totalled.totals (totalled : Totalled pool) {live : List Owned} (counted : Counted pool live)
    (sound : Sound cfg pool) (b : BucketId) : Totals cfg pool b := by
  have fits := sizesOf_lt sound (sound.nodup b) fun c member => by
    rcases List.mem_append.mp member with used | free
    · exact ⟨b, true, used⟩
    · exact ⟨b, false, free⟩
  have split : sizesOf pool ((pool.buckets b).usedList ++ (pool.buckets b).freeList) =
      sizesOf pool (pool.buckets b).usedList + sizesOf pool (pool.buckets b).freeList := by
    rw [sizesOf, List.map_append, List.sum_append, sizesOf, sizesOf]
  rw [split, List.length_append] at fits
  have count := congrArg UInt64.toNat (totalled.count b)
  have size := congrArg UInt64.toNat (totalled.size b)
  have usedSize := congrArg UInt64.toNat (counted.usedSize b)
  have usedCount := congrArg UInt64.toNat (counted.usedElementCount b)
  rw [UInt64.toNat_ofNat_of_lt' (by show _ < 2 ^ 64; omega)] at count size usedSize usedCount
  have usedSum := sum_size64 pool (pool.buckets b).usedList
  have freeSum := sum_size64 pool (pool.buckets b).freeList
  obtain ⟨usedNoWrap, usedTotal, usedElements⟩ := noWrap_of_le true (pool.buckets b).stats
    ((pool.buckets b).usedList.map (size64 pool))
    (by omega) (by rw [List.length_map]; omega) fun _ => by
      rw [List.length_map]
      omega
  rw [List.length_map] at usedElements
  obtain ⟨freeNoWrap, freeTotal, freeElements⟩ := noWrap_of_le false
    ((pool.buckets b).stats.dropAll true ((pool.buckets b).usedList.map (size64 pool)))
    ((pool.buckets b).freeList.map (size64 pool))
    (by omega) (by rw [List.length_map]; omega) (fun isUsed => by cases isUsed)
  rw [List.length_map] at freeElements
  refine ⟨count, size, UInt64.le_iff_toNat_le.mpr (by omega), UInt64.le_iff_toNat_le.mpr (by omega),
    usedNoWrap, freeNoWrap, ?_⟩
  obtain ⟨after, run, emptied⟩ := bucketTerm_spec sound (b := b) rfl fun _ _ _ => rfl
  refine ⟨after, run, ?_, ?_⟩
  · rw [emptied.stats, ← UInt64.toNat_inj, freeTotal]
    show _ = 0
    omega
  · rw [emptied.stats, ← UInt64.toNat_inj, freeElements]
    show _ = 0
    omega

end Termination

section Runs

variable {cfg : Config} {s : Client} {ops : List Op}

/-- In a run that uses free chunks only for their former sizes and gives no oversized chunk back,
the totals hold of every bucket. -/
theorem ampool_totals (run : Run (step cfg) Steady start ops s) (b : BucketId) :
    Totals cfg s.pool b := by
  have ready : Run (step cfg) Ready start ops s := run.mono fun _ _ _ steady => steady.1
  have totalled : Inv cfg s ∧ Totalled s.pool := by
    refine run.invariant (fun s => Inv cfg s ∧ Totalled s.pool) ⟨inv_start, totalled_start⟩
      fun s op s' both fired steady => ?_
    obtain ⟨taken, outcome⟩ := step_outcome both.1 steady.1 fired
    exact ⟨outcome.inv both.1, outcome.totalled both.1 steady both.2⟩
  exact totalled.2.totals (run_counted ready) totalled.1.sound b

def sameSize (pool : AmpoolInternal) (size : UInt32) : Bool :=
  match ampoolGetBucket (alignSize size) with
  | .error _ => true
  | .ok b =>
      match (pool.buckets b).freeList with
      | [] => true
      | c :: _ => (pool.heap c).all fun block => block.chunk.size == size

def keepsSizes (s : Client) (op : Op) (_ : Client) : Bool :=
  match op with
  | .alloc size .. => sameSize s.pool size
  | .free old => alignSize old.size ≤ ampoolMaxStepped
  | .realloc old size .. => sameSize s.pool size && alignSize old.size ≤ ampoolMaxStepped
  | .write .. => true

theorem sameSize_sound {pool : AmpoolInternal} {size : UInt32}
    (checked : sameSize pool size = true) : SameSize pool size := by
  intro b c free block bucket found mapped
  simpa [sameSize, bucket, found, mapped] using checked

theorem keepsSizes_sound (s : Client) (op : Op) (s' : Client) (ready : Ready s op s')
    (checked : keepsSizes s op s' = true) : Steady s op s' := by
  refine ⟨ready, ?_⟩
  cases op with
  | alloc size name fresh => exact sameSize_sound checked
  | free old => simpa [keepsSizes, Stepped] using checked
  | realloc old size name fresh =>
      simp only [keepsSizes, Bool.and_eq_true, decide_eq_true_eq] at checked
      exact ⟨sameSize_sound checked.1, checked.2⟩
  | write owned i value => trivial

/-- A chunk of 5 bytes is freed and used again for 5, and one of 20 bytes moves to another
bucket. -/
def sameSizes : List Op :=
  [.alloc 5 "first" (some (4096, .zero)), .alloc 20 "other" (some (6144, .zero)),
    .free ⟨4096, 5, "first"⟩, .alloc 5 "again" none,
    .realloc ⟨6144, 20, "other"⟩ 40 "moved" (some (8192, .zero))]

theorem ampool_totals_sample : ∃ s, Run (step ⟨0x3A7C51E9, true⟩) Steady start sameSizes s ∧
    s.live = [⟨8192, 40, "moved"⟩, ⟨4096, 5, "again"⟩] ∧
    (s.pool.buckets (.step 1)).freeList = [6144] ∧
    Totals ⟨0x3A7C51E9, true⟩ s.pool (.step 0) ∧ Totals ⟨0x3A7C51E9, true⟩ s.pool (.step 1) := by
  have checked : orderly ⟨0x3A7C51E9, true⟩ 0 start sameSizes = true := by decide +kernel
  have sizes : allowed (step ⟨0x3A7C51E9, true⟩) keepsSizes start sameSizes = true := by
    decide +kernel
  have computed : (runs (step ⟨0x3A7C51E9, true⟩) start sameSizes).map (fun s =>
      (s.live, (s.pool.buckets (.step 1)).freeList)) =
      some ([⟨8192, 40, "moved"⟩, ⟨4096, 5, "again"⟩], [6144]) := by decide +kernel
  obtain ⟨s, ready⟩ := run_of_orderly checked
  have run := ready.checked keepsSizes keepsSizes_sound sizes
  have shown := run.shown computed
  rw [Prod.mk.injEq] at shown
  exact ⟨s, run, shown.1, shown.2, ampool_totals run (.step 0), ampool_totals run (.step 1)⟩

/-- A chunk of 1 byte that is used again for 16: the bucket uses 16 bytes of a total of 1. -/
theorem ampool_totals_diverge : ∃ s, Run (step ⟨0, false⟩) Ready start
    [.alloc 1 "first" (some (4096, .zero)), .free ⟨4096, 1, "first"⟩, .alloc 16 "second" none] s ∧
      ¬ Totals ⟨0, false⟩ s.pool (.step 0) := by
  have checked : orderly ⟨0, false⟩ 0 start [.alloc 1 "first" (some (4096, .zero)),
      .free ⟨4096, 1, "first"⟩, .alloc 16 "second" none] = true := by decide +kernel
  obtain ⟨s, run⟩ := run_of_orderly checked
  refine ⟨s, run, fun totals => ?_⟩
  have computed : (runs (step ⟨0, false⟩) start [.alloc 1 "first" (some (4096, .zero)),
      .free ⟨4096, 1, "first"⟩, .alloc 16 "second" none]).map (fun s =>
        decide ((s.pool.buckets (.step 0)).stats.usedSize ≤
          (s.pool.buckets (.step 0)).stats.totalSize)) =
      some false := by rfl
  exact of_decide_eq_false (run.shown computed) totals.usedSize

end Runs

end Libam.Pool.Clients
