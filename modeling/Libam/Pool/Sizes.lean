import Libam.Pool.Clients

/-! The sizes that a pool can serve: the last fifteen wrap around when they are rounded up. -/

namespace Libam.Pool

section Rounding

variable {size : UInt32}

theorem alignSize_wraps (large : maxSize < size) : alignSize size = 0 := by
  have low : 0xFFFFFFF0 < size.toNat := UInt32.lt_iff_toNat_lt.mp large
  have high := size.toNat_lt
  have plain : size + ampoolAlign - 1 = size + 15 := by
    rw [ampoolAlign]
    grind
  have sum : (size + ampoolAlign - 1).toNat = size.toNat + 15 - 2 ^ 32 := by
    rw [plain, UInt32.toNat_add, show (15 : UInt32).toNat = 15 from rfl]
    omega
  rw [← UInt32.toNat_inj, alignSize, UInt32.toNat_and, sum,
    show (~~~(ampoolAlign - 1)).toNat = 0xFFFFFFF0 from rfl, and_not_mask _ (by omega),
    Nat.div_eq_of_lt (by omega)]
  rfl

theorem ampoolGetBucket_wraps (large : maxSize < size) :
    ampoolGetBucket (alignSize size) = .error .outOfBounds := by
  rw [alignSize_wraps large]
  rfl

theorem Fits.capacity {b : BucketId} {allocationSize : UInt32} (fits : Fits b size allocationSize) :
    size.toNat ≤ allocationSize.toNat ∧ allocationSize.toNat < size.toNat + 16 := by
  refine ⟨fits.size_le, ?_⟩
  rw [fits.aligned, alignSize_toNat fits.bound]
  omega

end Rounding

namespace Clients

open Libam.Interleaving

section Serving

variable {cfg : Config} {s s' : Client} {size : UInt32} {name : String}
  {fresh : Option (Addr × AmpoolChunk)}

/-- A `free` of the block at `c` with its size selects the bucket and passes the assertions. -/
structure Frees (cfg : Config) (s : Client) (c : Addr) (size : UInt32) (b : BucketId) : Prop where
  selected : ampoolGetBucket (alignSize size) = .ok b
  used : c ∈ (s.pool.buckets b).usedList
  asserted : ∃ block, s.pool.heap c = some block ∧ block.chunk.size = size ∧
    sizesFit (s.pool.buckets b).stats.elementSize
      (sizeMalloc (s.pool.buckets b).stats.elementSize block.chunk.size)
      block.chunk.size = true
  completes : ∃ pool, ampoolOpFree cfg s.pool c size = .ok pool

/-- A call of `alloc` selects a bucket that exists and passes the assertions; what it returns has
room, and can be freed at any time later. -/
structure Serves (cfg : Config) (s : Client) (size : UInt32) (name : String)
    (fresh : Option (Addr × AmpoolChunk)) (b : BucketId) : Prop where
  selected : ampoolGetBucket (alignSize size) = .ok b
  obtained : size.toNat ≤ (sizeMalloc (s.pool.buckets b).stats.elementSize size).toNat ∧
    (sizeMalloc (s.pool.buckets b).stats.elementSize size).toNat < size.toNat + 16
  asserted : sizesFit (s.pool.buckets b).stats.elementSize
    (sizeMalloc (s.pool.buckets b).stats.elementSize size) size = true
  completes : ∃ s' taken, apply cfg s (.alloc size name fresh) = .ok (s', taken) ∧ ∀ c,
    taken = some c →
    (∃ block, s'.pool.heap c = some block ∧ size.toNat ≤ block.capacity ∧
      block.capacity < size.toNat + 16) ∧
    ∀ ops later, Run (step cfg) Ready s' ops later → ⟨c, size, name⟩ ∈ later.live →
      Frees cfg later c size b

theorem Inv.frees {owned : Owned} (inv : Inv cfg s) (live : owned ∈ s.live) {b : BucketId}
    (selected : ampoolGetBucket (alignSize owned.size) = .ok b) :
    Frees cfg s owned.chunk owned.size b := by
  obtain ⟨sound, owns⟩ := inv
  obtain ⟨b', block, used, mapped, kept, sized, -⟩ := owns.held sound live
  obtain rfl : b' = b := by
    have same := kept.fits.bucket
    rw [sized, selected] at same
    exact (Except.ok.inj same).symm
  obtain ⟨-, -, pool, -, run⟩ := ampoolOpFree_spec owns sound live
  refine ⟨selected, used, ⟨block, mapped, sized, ?_⟩, pool, run⟩
  rw [sound.sizes]
  exact kept.fits.fit

theorem Inv.serves (inv : Inv cfg s) (positive : 0 < size.toNat) (bound : size ≤ maxSize)
    (unused : Unused s.pool size fresh) : ∃ b, Serves cfg s size name fresh b := by
  obtain ⟨b, fits⟩ := exists_fits positive bound
  have element := inv.sound.sizes b
  obtain ⟨s', taken, run, outcome⟩ :=
    apply_spec inv (show Ready s (.alloc size name fresh) s from ⟨positive, bound, unused⟩)
  have after := outcome.inv inv
  refine ⟨b, fits.bucket, by
      rw [element]; exact fits.capacity, by rw [element]; exact fits.fit, s', taken, run,
    ?_⟩
  intro c isTaken
  constructor
  · cases outcome with
    | refused => cases isTaken
    | @allocated _ _ _ b' bucket d block pool' unused took =>
        obtain rfl : d = c := Option.some.inj isTaken
        have kept := took.prepared.kept
        have room := kept.fits.capacity
        rw [took.prepared.sized, ← kept.capacity] at room
        exact ⟨block, took.heap_self, room⟩
  · intro ops later run live
    exact (inv_of_run after run).frees live fits.bucket

/-- Of all sizes a pool serves exactly those that can be rounded up to a multiple of 16. -/
theorem ampool_serves_iff {ops : List Op} (run : Run (step cfg) Ready start ops s)
    (nonzero : size ≠ 0) (unused : Unused s.pool size fresh) :
    (∃ b, Serves cfg s size name fresh b) ↔ size ≤ 0xFFFFFFF0 := by
  constructor
  · rintro ⟨b, serves⟩
    by_contra large
    have failed := ampoolGetBucket_wraps (UInt32.not_le.mp large)
    rw [serves.selected] at failed
    cases failed
  · intro bound
    have positive : 0 < size.toNat := by
      rcases Nat.eq_zero_or_pos size.toNat with zero | positive
      · exact absurd (UInt32.toNat_inj.mp zero) nonzero
      · exact positive
    exact (run_inv run).serves positive bound unused

/-- A block of 100 bytes from new memory, beside one that is live. -/
theorem ampool_serves_100 : ∃ s s' b, Run (step ⟨0xA5A5A5A5, true⟩) Ready start
    [.alloc 100 "first" (some (4096, .zero))] s ∧
      apply ⟨0xA5A5A5A5, true⟩ s (.alloc 100 "block" (some (8192, .zero))) = .ok (s', some 8192) ∧
      Serves ⟨0xA5A5A5A5, true⟩ s 100 "block" (some (8192, .zero)) b := by
  have checked : orderly ⟨0xA5A5A5A5, true⟩ 0 start ([.alloc 100 "first" (some (4096, .zero))] ++
      [.alloc 100 "block" (some (8192, .zero))]) = true := by decide +kernel
  have computed : (runs (step ⟨0xA5A5A5A5, true⟩) start
      [.alloc 100 "first" (some (4096, .zero))]).map
      (fun s => (apply ⟨0xA5A5A5A5, true⟩ s
        (.alloc 100 "block" (some (8192, .zero)))).toOption.map Prod.snd) =
      some (some (some 8192)) := by decide +kernel
  obtain ⟨s, run, ready⟩ := ready_of_orderly checked
  obtain ⟨b, serves⟩ : ∃ b, Serves ⟨0xA5A5A5A5, true⟩ s 100 "block" (some (8192, .zero)) b :=
    (ampool_serves_iff run (by decide) ready.2.2).mpr (by decide)
  obtain ⟨s', taken, applied, -⟩ := serves.completes
  have shown := run.shown computed
  simp only [applied, Except.toOption, Option.map_some, Option.some.injEq] at shown
  subst shown
  exact ⟨s, s', b, run, applied, serves⟩

/-- The largest size is rounded to 0, and the bucket is at index 2^32 - 1 of 32. -/
theorem ampool_alloc_wraps :
    apply ⟨0xA5A5A5A5, true⟩ start (.alloc 0xFFFFFFFF "block" none) = .error .outOfBounds ∧
    ¬ ∃ b, Serves ⟨0xA5A5A5A5, true⟩ start 0xFFFFFFFF "block" none b := by
  refine ⟨rfl, ?_⟩
  rintro ⟨b, serves⟩
  cases serves.selected

end Serving

end Clients

end Libam.Pool
