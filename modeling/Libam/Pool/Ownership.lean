import Libam.Pool.Poison
import Libam.Concurrency.Custody
import Libam.Concurrency.Interleaving
import Mathlib.Algebra.Notation.Pi.Basic

/-! Who has a chunk of the pool: its owner, a running call, or nobody while it is free. -/

namespace Libam.Pool

open Libam.Custody Libam.Interleaving

variable {Thread : Type} {cfg : Config} {c : Addr}

def Pc.chunk : Pc → Option Addr
  | .idle | .allocEnter .. | .freeSub _ | .freeDec => none
  | .allocName call _ | .allocSize call | .allocMagic call _ | .allocClear call _ | .allocAdd call
  | .allocInc call | .freeSection call | .freeMagic call _ | .freeMemory call => some call.chunk
  | .freeEnter chunk _ => some chunk

structure View where
  chunk : AmpoolChunk
  mapped : Bool
  used : BucketId → ℕ
  free : BucketId → ℕ

def view (s : Ampool Thread) (c : Addr) : View where
  chunk := s.memory c
  mapped := s.mapped c
  used := fun b => (s.buckets b).usedList.count c
  free := fun b => (s.buckets b).freeList.count c

inductive Holder (Thread : Type)
  | owner
  | thread (i : Thread)

inductive Role
  | owned (size : UInt32)
  | running (pc : Pc)

def role (s : Ampool Thread) (c : Addr) : Holder Thread → Option Role
  | .owner => (s.held c).map .owned
  | .thread i => if (s.pc i).chunk = some c then some (.running (s.pc i)) else none

section Places

def InUse (v : View) (b : BucketId) : Prop := v.mapped = true ∧ v.used = Pi.single b 1 ∧ v.free = 0
def OnFree (v : View) (b : BucketId) : Prop := v.mapped = true ∧ v.used = 0 ∧ v.free = Pi.single b 1
def Loose (v : View) : Prop := v.mapped = true ∧ v.used = 0 ∧ v.free = 0
def Absent (v : View) : Prop := v.mapped = false ∧ v.used = 0 ∧ v.free = 0

structure Owned (cfg : Config) (c : Addr) (v : View) (call : Call) : Prop where
  fits : Fits call.bucket call.size call.sizeMalloc
  place : InUse v call.bucket
  size : v.chunk.size = call.size
  marked : Marked cfg c v.chunk call.sizeMalloc

def Running (cfg : Config) (c : Addr) (v : View) : Pc → Prop
  | .allocName call _ | .allocSize call =>
      Fits call.bucket call.size call.sizeMalloc ∧ InUse v call.bucket
  | .allocMagic call set =>
      Fits call.bucket call.size call.sizeMalloc ∧ InUse v call.bucket ∧ v.chunk.size = call.size ∧
        Allocating cfg c call.sizeMalloc v.chunk set
  | .allocClear call writes => Owned cfg c v call ∧ ∀ w ∈ writes, w.1 < call.size.toNat
  | .allocAdd call | .allocInc call | .freeSection call => Owned cfg c v call
  | .freeEnter chunk size => ∃ b allocationSize, Owned cfg c v ⟨b, chunk, size, allocationSize⟩
  | .freeMagic call set =>
      Fits call.bucket call.size call.sizeMalloc ∧ OnFree v call.bucket ∧
        call.bucket ≠ .oversized ∧ v.chunk.size = call.size ∧
        Freeing cfg c call.sizeMalloc v.chunk set
  | .freeMemory _ => Loose v
  | _ => True

def RoleOk (cfg : Config) (c : Addr) (v : View) : Role → Prop
  | .owned size => ∃ b allocationSize, Owned cfg c v ⟨b, c, size, allocationSize⟩
  | .running pc => Running cfg c v pc

def Rest (cfg : Config) (c : Addr) (v : View) : Prop :=
  Absent v ∨ ∃ b allocationSize, b ≠ .oversized ∧ OnFree v b ∧ Fits b v.chunk.size allocationSize ∧
    Poisoned cfg c v.chunk allocationSize

end Places

def Settled (s : Ampool Thread) (c : Addr) : Prop :=
  ∀ j call set, s.pc j = .freeMagic call set → call.chunk ≠ c

/-- No size is too large to align, and no call of `alloc` takes a chunk that a call of `free` is
still at work on. -/
def Undisturbed (s : Ampool Thread) (a : Action Thread) (_ : Ampool Thread) : Prop :=
  match a with
  | .alloc _ size _ => size ≤ maxSize
  | .advance i _ => ∀ size name b c, s.pc i = .allocEnter size name →
      ampoolGetBucket (alignSize size) = .ok b → (s.buckets b).freeList.head? = some c → Settled s c
  | _ => True

structure Inv (cfg : Config) (s : Ampool Thread) : Prop where
  sound : s.fault = none
  sizes : ∀ b, (s.buckets b).stats.elementSize = bucketSize b
  requests : ∀ i size name, s.pc i = .allocEnter size name → size ≤ maxSize
  kept : ∀ c, Kept (RoleOk cfg c) (Rest cfg c) (view s c) (role s c)

section Transfer

variable {s s' : Ampool Thread} {i : Thread}

structure Changes (s s' : Ampool Thread) (i : Thread) (c : Addr) : Prop where
  views : ∀ d, d ≠ c → view s' d = view s d
  helds : ∀ d, d ≠ c → s'.held d = s.held d
  pcs : ∀ j, j ≠ i → s'.pc j = s.pc j
  before : ∀ d, (s.pc i).chunk = some d → d = c
  after : ∀ d, (s'.pc i).chunk = some d → d = c

theorem Changes.role_eq (changes : Changes s s' i c) {d : Addr} (other : d ≠ c) :
    role s' d = role s d := by
  funext h
  cases h with
  | owner => simp only [role, changes.helds d other]
  | thread j =>
      by_cases same : j = i
      · subst same
        have gone : (s.pc j).chunk ≠ some d := fun here => other (changes.before d here)
        have absent : (s'.pc j).chunk ≠ some d := fun here => other (changes.after d here)
        simp [role, gone, absent]
      · simp only [role, changes.pcs j same]

/-- The chunk after the step: owned, in the hands of the call, or free. -/
theorem Inv.transfer (inv : Inv cfg s) (changes : Changes s s' i c)
    (others : ∀ j, j ≠ i → (s.pc j).chunk ≠ some c) (sound : s'.fault = none)
    (sizes : ∀ b, (s'.buckets b).stats.elementSize = bucketSize b)
    (request : ∀ size name, s'.pc i ≠ .allocEnter size name)
    (here : (s'.held c = none ∧ (s'.pc i).chunk = some c ∧ Running cfg c (view s' c) (s'.pc i)) ∨
      (∃ b size allocationSize, s'.held c = some size ∧ (s'.pc i).chunk = none ∧
        Owned cfg c (view s' c) ⟨b, c, size, allocationSize⟩) ∨
      (s'.held c = none ∧ (s'.pc i).chunk = none ∧ Rest cfg c (view s' c))) : Inv cfg s' := by
  refine ⟨sound, sizes, fun j size name entered => ?_, fun d => ?_⟩
  · by_cases same : j = i
    · subst same
      exact absurd entered (request size name)
    · exact inv.requests j size name (changes.pcs j same ▸ entered)
  by_cases same : d = c
  · subst same
    have threads : ∀ j, j ≠ i → role s' d (.thread j) = none := fun j other => by
      simp [role, changes.pcs j other, others j other]
    rcases here with ⟨held, has, running⟩ | ⟨b, size, allocationSize, held, gone, owned⟩ |
      ⟨held, gone, rest⟩
    · refine kept_of_held (h := .thread i) (r := .running (s'.pc i))
        (by simp only [role, has, if_true]) (fun h other => ?_)
        running
      cases h with
      | owner => simp [role, held]
      | thread j => exact threads j fun same => other (same ▸ rfl)
    · refine kept_of_held (h := .owner) (r := .owned size)
        (by simp only [role, held, Option.map_some]) (fun h other => ?_) ⟨b, allocationSize, owned⟩
      cases h with
      | owner => exact absurd rfl other
      | thread j =>
          by_cases same : j = i
          · subst same
            simp [role, gone]
          · exact threads j same
    · refine kept_of_rest (fun h => ?_) rest
      cases h with
      | owner => simp [role, held]
      | thread j =>
          by_cases same : j = i
          · subst same
            simp [role, gone]
          · exact threads j same
  · rw [changes.views d same, changes.role_eq same]
    exact inv.kept d

theorem Inv.quiet (inv : Inv cfg s) (views : ∀ d, view s' d = view s d) (held : s'.held = s.held)
    (pcs : ∀ j, j ≠ i → s'.pc j = s.pc j) (before : (s.pc i).chunk = none)
    (after : (s'.pc i).chunk = none) (sound : s'.fault = none)
    (sizes : ∀ b, (s'.buckets b).stats.elementSize = bucketSize b)
    (request : ∀ size name, s'.pc i = .allocEnter size name → size ≤ maxSize) : Inv cfg s' := by
  refine ⟨sound, sizes, fun j size name entered => ?_, fun d => ?_⟩
  · by_cases same : j = i
    · subst same
      exact request size name entered
    · exact inv.requests j size name (pcs j same ▸ entered)
  have roles : role s' d = role s d := by
    funext h
    cases h with
    | owner => simp only [role, held]
    | thread j =>
        by_cases same : j = i
        · subst same
          simp [role, before, after]
        · simp only [role, pcs j same]
  rw [views, roles]
  exact inv.kept d

end Transfer

section Steps

variable {s s' : Ampool Thread} {i : Thread}

theorem Inv.running (inv : Inv cfg s) (has : (s.pc i).chunk = some c) :
    Running cfg c (view s c) (s.pc i) ∧ s.held c = none ∧
      ∀ j, j ≠ i → (s.pc j).chunk ≠ some c := by
  have kept := inv.kept c
  have here : role s c (.thread i) = some (.running (s.pc i)) := by simp only [role, has, if_true]
  refine ⟨kept.held _ _ here, ?_, fun j other same => ?_⟩
  · simpa [role] using kept.others here .owner nofun
  · have gone := kept.others here (.thread j) fun same => other (Holder.thread.inj same)
    simp [role, same] at gone

theorem Inv.runningAt (inv : Inv cfg s) {pc : Pc} (place : s.pc i = pc)
    (working : pc.chunk = some c) :
    (s.pc i).chunk = some c ∧ Running cfg c (view s c) pc ∧ s.held c = none ∧
      ∀ j, j ≠ i → (s.pc j).chunk ≠ some c := by
  subst place
  exact ⟨working, inv.running working⟩

theorem Inv.owned (inv : Inv cfg s) {size : UInt32} (held : s.held c = some size) :
    (∃ b allocationSize, Owned cfg c (view s c) ⟨b, c, size, allocationSize⟩) ∧
      ∀ j, (s.pc j).chunk ≠ some c := by
  have kept := inv.kept c
  have here : role s c .owner = some (.owned size) := by simp only [role, held, Option.map_some]
  refine ⟨kept.held _ _ here, fun j same => ?_⟩
  have gone := kept.others here (.thread j) nofun
  simp [role, same] at gone

theorem changes_of (has : (s.pc i).chunk = some c) (views : ∀ d, d ≠ c → view s' d = view s d)
    (helds : ∀ d, d ≠ c → s'.held d = s.held d) (pcs : ∀ j, j ≠ i → s'.pc j = s.pc j)
    (after : (s'.pc i).chunk = none ∨ (s'.pc i).chunk = some c) : Changes s s' i c := by
  refine ⟨views, helds, pcs, fun d here => ?_, fun d here => ?_⟩
  · exact Option.some.inj (here.symm.trans has)
  · rcases after with gone | kept
    · rw [gone] at here
      cases here
    · exact Option.some.inj (here.symm.trans kept)

variable [DecidableEq Thread]

theorem Inv.write (inv : Inv cfg s) (has : (s.pc i).chunk = some c) {ch : AmpoolChunk} {pc : Pc}
    (still : pc.chunk = some c) (running : Running cfg c { view s c with chunk := ch } pc) :
    Inv cfg ((s.store c ch).goto i pc) := by
  obtain ⟨_, free, others⟩ := inv.running has
  have now : ((s.store c ch).goto i pc).pc i = pc := Function.update_self ..
  have seen : view ((s.store c ch).goto i pc) c = { view s c with chunk := ch } := by
    simp [view, Ampool.goto, Ampool.store]
  have changes : Changes s ((s.store c ch).goto i pc) i c := by
    refine changes_of has (fun d other => ?_) (fun _ _ => rfl)
      (fun j other => Function.update_of_ne other ..) (.inr (now.symm ▸ still))
    simp [view, Ampool.goto, Ampool.store, other]
  refine inv.transfer changes others inv.sound inv.sizes (fun size name same => ?_)
    (.inl ⟨free, now.symm ▸ still, ?_⟩)
  · rw [now] at same
    rw [same] at still
    cases still
  · rw [seen, now]
    exact running

theorem Inv.move (inv : Inv cfg s) (has : (s.pc i).chunk = some c) {pc : Pc}
    (still : pc.chunk = some c) (running : Running cfg c (view s c) pc) :
    Inv cfg (s.goto i pc) := by
  have same : s.store c (s.memory c) = s := by simp [Ampool.store]
  rw [← same]
  exact inv.write has still running

end Steps

end Libam.Pool
