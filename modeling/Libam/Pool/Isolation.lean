import Libam.Pool.Clients

/-! No call reaches the bytes of a live block that it is not about. -/

namespace Libam.Pool.Clients

open Libam.Interleaving

section Statement

def byte (s : Client) (c : Addr) (i : ℕ) : Option UInt8 :=
  (s.pool.heap c).map fun block => block.chunk.data i

def Untouched (live : List Owned) (s s' : Client) : Prop :=
  ∀ owned ∈ live, owned ∈ s'.live ∧
    ∀ i, i < owned.size.toNat → byte s' owned.chunk i = byte s owned.chunk i

/-- The block is none of the live ones, and shares no byte with any of them. -/
def Separate (s : Client) (c : Addr) (size : UInt32) : Prop :=
  ∀ owned ∈ s.live, owned.chunk ≠ c ∧
    (dataPtr c size.toNat ≤ dataPtr owned.chunk 0 ∨
      dataPtr owned.chunk owned.size.toNat ≤ dataPtr c 0)

/-- What a call that returned this does to the bytes of blocks. -/
def Isolated (s s' : Client) (taken : Option Addr) : Op → Prop
  | .alloc size name _ => Untouched s.live s s' ∧
      ∀ c, taken = some c → ⟨c, size, name⟩ ∈ s'.live ∧ Separate s c size ∧
        ∀ i, i < min size.toNat 1024 → byte s' c i = some 0
  | .free old => Untouched (s.live.erase old) s s'
  | .realloc old size name _ => Untouched (s.live.erase old) s s' ∧
      ∀ c, taken = some c → ⟨c, size, name⟩ ∈ s'.live ∧ Separate s c size ∧
        (∀ i, i < min old.size.toNat size.toNat → byte s' c i = byte s old.chunk i) ∧
        ∀ i, min old.size.toNat size.toNat ≤ i → i < size.toNat → byte s' c i = some 0
  | .write owned k value =>
      Untouched (s.live.erase owned) s s' ∧ byte s' owned.chunk k = some value ∧
      ∀ i, i < owned.size.toNat → i ≠ k → byte s' owned.chunk i = byte s owned.chunk i

end Statement

section Bytes

variable {cfg : Config} {s s' : Client} {op : Op} {taken : Option Addr}

theorem byte_of_heap {c d : Addr} (same : s'.pool.heap d = s.pool.heap c) (i : ℕ) :
    byte s' d i = byte s c i := by rw [byte, byte, same]

theorem byte_some {c : Addr} {block : Block} (mapped : s.pool.heap c = some block) (i : ℕ) :
    byte s c i = some (block.chunk.data i) := by rw [byte, mapped, Option.map_some]

theorem Took.separate {size : UInt32} {name : String} {fresh : Option (Addr × AmpoolChunk)}
    {b : BucketId} {bucket : AmpoolBucket} {c : Addr} {block : Block} {pool' : AmpoolInternal}
    (took : Took cfg s.pool size name fresh b bucket c block pool') (inv : Inv cfg s)
    (unused : Unused s.pool size fresh) : Separate s c size := by
  intro owned member
  have outside := took.not_live inv.owns inv.sound unused
  have other : owned.chunk ≠ c := fun same => outside (same ▸ List.mem_map_of_mem member)
  obtain ⟨b', held, _, mapped, kept, sized, _⟩ := inv.owns.held inv.sound member
  have there : pool'.heap owned.chunk = some held := by rw [took.heap_of_ne other, mapped]
  have apart := took.sound.apart c block owned.chunk held took.heap_self there other.symm
  have room := took.prepared.kept.fits.size_le
  have room' := kept.fits.size_le
  rw [took.prepared.sized, ← took.prepared.kept.capacity] at room
  rw [sized, ← kept.capacity] at room'
  refine ⟨other, ?_⟩
  simp only [Apart, dataPtr, sizeofAmpoolChunk] at apart ⊢
  omega

theorem Outcome.isolated (outcome : Outcome cfg s op s' taken) (inv : Inv cfg s) :
    Isolated s s' taken op := by
  have nodup := inv.owns.nodup
  cases outcome with
  | refused => exact ⟨fun owned member => ⟨member, fun _ _ => rfl⟩, nofun⟩
  | @allocated size name fresh b bucket c block pool' unused took =>
      have separate := took.separate inv unused
      refine ⟨fun owned member => ⟨List.mem_cons_of_mem _ member, fun i _ =>
        byte_of_heap (took.heap_of_ne (separate owned member).1) i⟩, fun d same => ?_⟩
      cases same
      refine ⟨List.mem_cons_self, separate, fun i below => ?_⟩
      rw [byte_some took.heap_self, took.prepared.zero i (by rw [min32_toNat]; exact below)]
  | freed member gave =>
      exact fun owned rest => ⟨rest, fun i _ =>
        byte_of_heap (gave.heap_of_ne (chunk_ne_of_mem_erase nodup member rest)) i⟩
  | lost member gave =>
      exact ⟨fun owned rest => ⟨rest, fun i _ =>
        byte_of_heap (gave.heap_of_ne (chunk_ne_of_mem_erase nodup member rest)) i⟩, nofun⟩
  | @moved old size name fresh b b' bucket c block oldBlock after value pool₁ pool' member unused
      took mapped copied sound owns gave =>
      have separate := took.separate inv unused
      have newHere : (pool₁.setBlock c (some after)).heap c = some after := Function.update_self ..
      have here : pool'.heap c = some after := by
        rw [gave.heap_of_ne (separate old member).1.symm, newHere]
      refine ⟨fun owned rest => ⟨List.mem_cons_of_mem _ rest, fun i _ => byte_of_heap ?_ i⟩,
        fun d same => ?_⟩
      · have other := (separate owned (List.mem_of_mem_erase rest)).1
        have copy : (pool₁.setBlock c (some after)).heap owned.chunk = pool₁.heap owned.chunk :=
          Function.update_of_ne other ..
        show pool'.heap owned.chunk = s.pool.heap owned.chunk
        rw [gave.heap_of_ne (chunk_ne_of_mem_erase nodup member rest), copy, took.heap_of_ne other]
      · cases same
        refine ⟨List.mem_cons_self, separate, fun i below => ?_, fun i low high => ?_⟩
        · rw [byte_some here, byte_some mapped, copied.copied i below]
        · rw [byte_some here, copied.zero i low high]
  | @written owned k value b block member inside used mapped kept sized named =>
      have self : (s.pool.setBlock owned.chunk
          (some (block.withData (Function.update block.chunk.data k value)))).heap owned.chunk =
          some (block.withData (Function.update block.chunk.data k value)) :=
          Function.update_self ..
      refine ⟨fun other rest => ⟨List.mem_of_mem_erase rest, fun i _ => byte_of_heap ?_ i⟩, ?_,
        fun i _ different => ?_⟩
      · exact Function.update_of_ne (chunk_ne_of_mem_erase nodup member rest) ..
      · rw [byte_some self]
        exact congrArg some (Function.update_self ..)
      · rw [byte_some self, byte_some mapped]
        exact congrArg some (Function.update_of_ne different ..)

end Bytes

section Runs

variable {cfg : Config} {s : Client} {ops : List Op} {op : Op}

/-- After any run, a call ends without a fault and touches only its own block. -/
theorem ampool_blocks_isolated (run : Run (step cfg) Ready start ops s) (ready : Ready s op s) :
    ∃ s' taken, apply cfg s op = .ok (s', taken) ∧ Isolated s s' taken op := by
  have inv := run_inv run
  obtain ⟨s', taken, applied, outcome⟩ := apply_spec inv ready
  exact ⟨s', taken, applied, outcome.isolated inv⟩

/-- Two blocks of 5 bytes, and a write to each. -/
def twoBlocks : List Op :=
  [.alloc 5 "first" (some (4096, .zero)), .alloc 5 "other" (some (6144, .zero)),
    .write ⟨4096, 5, "first"⟩ 2 65, .write ⟨6144, 5, "other"⟩ 0 66]

/-- A block of 5 bytes, moved to one of 20 while another block is live. -/
theorem ampool_blocks_isolated_sample : ∃ s s',
    Run (step ⟨0x3A7C51E9, true⟩) Ready start twoBlocks s ∧
      s.live = [⟨6144, 5, "other"⟩, ⟨4096, 5, "first"⟩] ∧
      byte s 4096 2 = some 65 ∧ byte s 6144 0 = some 66 ∧
      apply ⟨0x3A7C51E9, true⟩ s (.realloc ⟨4096, 5, "first"⟩ 20 "second" (some (8192, .zero))) =
        .ok (s', some 8192) ∧
      Isolated s s' (some 8192) (.realloc ⟨4096, 5, "first"⟩ 20 "second" (some (8192, .zero))) := by
  have checked : orderly ⟨0x3A7C51E9, true⟩ 0 start (twoBlocks ++
      [.realloc ⟨4096, 5, "first"⟩ 20 "second" (some (8192, .zero))]) = true := by decide +kernel
  have computed : (runs (step ⟨0x3A7C51E9, true⟩) start twoBlocks).map (fun s =>
      (s.live, byte s 4096 2, byte s 6144 0, (apply ⟨0x3A7C51E9, true⟩ s
        (.realloc ⟨4096, 5, "first"⟩ 20 "second" (some (8192, .zero)))).toOption.map Prod.snd)) =
      some ([⟨6144, 5, "other"⟩, ⟨4096, 5, "first"⟩], some 65, some 66, some (some 8192)) := by
    decide +kernel
  obtain ⟨s, run, ready⟩ := ready_of_orderly checked
  obtain ⟨s', taken, applied, isolated⟩ := ampool_blocks_isolated run ready
  have shown := run.shown computed
  simp only [applied, Except.toOption, Option.map_some, Option.some.injEq, Prod.mk.injEq] at shown
  obtain ⟨live, first, other, rfl⟩ := shown
  exact ⟨s, s', run, live, first, other, applied, isolated⟩

end Runs

end Libam.Pool.Clients
