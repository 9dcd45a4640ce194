import Libam.Pool.Sizes

/-! Calls that get no memory: `alloc` leaves the pool as it is, `realloc` has lost the block
that it was given. -/

namespace Libam.Pool.Clients

open Libam.Interleaving

variable {cfg : Config} {s s' : Client} {op : Op} {ops : List Op}

def Asks (s : Client) : Op → Prop
  | .alloc size _ fresh => size ≠ 0 ∧ Unused s.pool size fresh
  | .realloc old size _ fresh => old ∈ s.live ∧ size ≠ 0 ∧ Unused s.pool size fresh
  | .free _ | .write .. => False

def IsAlloc : Op → Prop
  | .alloc .. => True
  | _ => False

theorem Asks.ready (asks : Asks s op) (returned : apply cfg s op = .ok (s', none)) :
    Ready s op s := by
  have rounded {size : UInt32} {name : String} {fresh : Option (Addr × AmpoolChunk)}
      {result : AmpoolInternal × Option Addr} (nonzero : size ≠ 0)
      (ran : ampoolOpAlloc cfg s.pool size name fresh = .ok result) : size ≤ maxSize := by
    by_contra large
    simp only [ampoolOpAlloc, if_neg nonzero, ampoolGetBucket_wraps (UInt32.not_le.mp large), bind,
      Except.bind] at ran
    cases ran
  have positive {size : UInt32} (nonzero : size ≠ 0) : 0 < size.toNat :=
    Nat.pos_of_ne_zero fun zero => nonzero (UInt32.toNat_inj.mp zero)
  cases op with
  | alloc size name fresh =>
      obtain ⟨nonzero, unused⟩ := asks
      cases ran : ampoolOpAlloc cfg s.pool size name fresh with
      | error fault => simp [apply, ran, bind, Except.bind] at returned
      | ok result => exact ⟨positive nonzero, rounded nonzero ran, unused⟩
  | realloc old size name fresh =>
      obtain ⟨member, nonzero, unused⟩ := asks
      cases ran : ampoolOpAlloc cfg s.pool size name fresh with
      | error fault => simp [apply, ampoolOpRealloc, ran, bind, Except.bind] at returned
      | ok result => exact ⟨member, positive nonzero, rounded nonzero ran, unused⟩
  | free old => exact asks.elim
  | write owned i value => exact asks.elim

/-- Of the calls that return NULL exactly those of `alloc` leave the pool and all
blocks as they were. -/
theorem ampool_refused_iff (run : Run (step cfg) Ready start ops s) (asks : Asks s op)
    (returned : apply cfg s op = .ok (s', none)) : s' = s ↔ IsAlloc op := by
  have inv := run_inv run
  obtain ⟨s₁, taken, applied, outcome⟩ := apply_spec inv (asks.ready returned)
  rw [returned] at applied
  cases applied
  cases outcome with
  | refused => exact ⟨fun _ => trivial, fun _ => rfl⟩
  | freed member gave => exact asks.elim
  | lost member gave =>
      refine ⟨fun same => ?_, False.elim⟩
      have live := congrArg (List.length ∘ Client.live) same
      have positive := List.length_pos_of_mem member
      simp only [Function.comp_apply, List.length_erase_of_mem member] at live
      omega
  | written member inside used mapped kept sized named => exact asks.elim

/-- An `alloc` of 1024 bytes that gets no memory, with one block live and one chunk free. -/
theorem ampool_refused_sample : ∃ s s', Run (step ⟨0x3A7C51E9, true⟩) Ready start
    [.alloc 16 "first" (some (4096, .zero)), .alloc 40 "other" (some (6144, .zero)),
      .free ⟨4096, 16, "first"⟩] s ∧
      s.live = [⟨6144, 40, "other"⟩] ∧ (s.pool.buckets (.step 0)).freeList = [4096] ∧
      apply ⟨0x3A7C51E9, true⟩ s (.alloc 1024 "block" none) = .ok (s', none) ∧
      (s' = s ↔ IsAlloc (.alloc 1024 "block" none)) := by
  have checked : orderly ⟨0x3A7C51E9, true⟩ 0 start ([.alloc 16 "first" (some (4096, .zero)),
      .alloc 40 "other" (some (6144, .zero)), .free ⟨4096, 16, "first"⟩] ++
      [.alloc 1024 "block" none]) = true := by decide +kernel
  have computed : (runs (step ⟨0x3A7C51E9, true⟩) start [.alloc 16 "first" (some (4096, .zero)),
      .alloc 40 "other" (some (6144, .zero)), .free ⟨4096, 16, "first"⟩]).map (fun s =>
        (s.live, (s.pool.buckets (.step 0)).freeList,
          (apply ⟨0x3A7C51E9, true⟩ s (.alloc 1024 "block" none)).toOption.map Prod.snd)) =
      some ([⟨6144, 40, "other"⟩], [4096], some none) := by decide +kernel
  obtain ⟨s, run, ready⟩ := ready_of_orderly checked
  obtain ⟨s', taken, applied, -⟩ := apply_spec (run_inv run) ready
  have shown := run.shown computed
  simp only [applied, Except.toOption, Option.map_some, Option.some.injEq, Prod.mk.injEq] at shown
  obtain ⟨live, free, rfl⟩ := shown
  exact ⟨s, s', run, live, free, applied, ampool_refused_iff run ⟨by decide, unused_none⟩ applied⟩

/-- A block of 16 bytes is no longer there after a `realloc` to 1024 bytes that returns NULL. -/
theorem ampool_realloc_loses : ∃ s s',
    Run (step ⟨0x3A7C51E9, true⟩) Ready start [.alloc 16 "block" (some (4096, .zero))] s ∧
      Asks s (.realloc ⟨4096, 16, "block"⟩ 1024 "block" none) ∧
      apply ⟨0x3A7C51E9, true⟩ s (.realloc ⟨4096, 16, "block"⟩ 1024 "block" none) = .ok (s', none) ∧
      s.live = [⟨4096, 16, "block"⟩] ∧ s'.live = [] ∧ s' ≠ s := by
  have checked : orderly ⟨0x3A7C51E9, true⟩ 0 start ([.alloc 16 "block" (some (4096, .zero))] ++
      [.realloc ⟨4096, 16, "block"⟩ 1024 "block" none]) = true := by decide +kernel
  have computed : (runs (step ⟨0x3A7C51E9, true⟩) start
      [.alloc 16 "block" (some (4096, .zero))]).map
      (fun s => (s.live, (apply ⟨0x3A7C51E9, true⟩ s
        (.realloc ⟨4096, 16, "block"⟩ 1024 "block" none)).toOption.map fun after =>
          (after.1.live, after.2))) =
      some ([⟨4096, 16, "block"⟩], some ([], none)) := by decide +kernel
  obtain ⟨s, run, ready⟩ := ready_of_orderly checked
  obtain ⟨s', taken, applied, -⟩ := apply_spec (run_inv run) ready
  have shown := run.shown computed
  simp only [applied, Except.toOption, Option.map_some, Option.some.injEq, Prod.mk.injEq] at shown
  obtain ⟨live, gone, rfl⟩ := shown
  have member : (⟨4096, 16, "block"⟩ : Owned) ∈ s.live := live ▸ List.mem_cons_self
  refine ⟨s, s', run, ⟨member, by decide, unused_none⟩, applied, live, gone, ?_⟩
  rintro rfl
  rw [live] at gone
  cases gone

end Libam.Pool.Clients
