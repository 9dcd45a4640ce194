import Libam.LStack.Model

/-! One call after the other on a stack that `amlstack_init` has set up over any memory: what was in
the consumer lock stays there. -/

namespace Libam.LStack

open Libam.Interleaving Libam.Chain

variable {N : Type} [DecidableEq N]

section Calls

def solo (s : Shared N × AmlstackPc N) (a : Act N) : Option (Shared N × AmlstackPc N) :=
  next s.1 s.2 a

def Completes (g : Shared N) (a : Act N) (g' : Shared N) (done : AmlstackPc N) : Prop :=
  ∃ n, runs solo (g, .idle) (a :: List.replicate n .tick) = some (g', done)

inductive Op (N : Type)
  | push (node : N)
  | pop

/-- Each call completes, and the pops return the nodes in the order of a last-in first-out stack;
pushes are of nodes that are not on it. The list are the nodes on the stack, the newest first. -/
def Lifo (g : Shared N) (nodes : List N) : List (Op N) → Prop
  | [] => g.stk.size = .ofNat nodes.length
  | .push node :: ops => g.stk.size = .ofNat nodes.length ∧ (node ∉ nodes →
      ∃ g', Completes g (.push node) g' (.pushDone node) ∧ Lifo g' (node :: nodes) ops)
  | .pop :: ops => g.stk.size = .ofNat nodes.length ∧
      match nodes with
      | [] => ∃ g', Completes g .pop g' (.popDone none) ∧ Lifo g' [] ops
      | top :: rest =>
          ∃ g', Completes g .pop g' (.popDone (some top)) ∧ g'.next top = none ∧ Lifo g' rest ops

end Calls

section Free

variable {g : Shared N} {nodes rest : List N} {node top : N}

structure Settled (g : Shared N) (nodes : List N) : Prop where
  unlocked : g.stk.consumerLock = 0
  linked : Linked g.next g.stk.head nodes
  distinct : nodes.Nodup
  sized : g.stk.size = .ofNat nodes.length

theorem Settled.push (settled : Settled g nodes) (outside : node ∉ nodes) :
    ∃ g', Completes g (.push node) g' (.pushDone node) ∧ Settled g' (node :: nodes) := by
  obtain ⟨unlocked, linked, distinct, sized⟩ := settled
  refine ⟨⟨⟨g.stk.size + 1, g.stk.consumerLock, some node⟩, Function.update g.next node g.stk.head,
    .push node :: g.log⟩, ⟨4, ?_⟩, unlocked, ⟨rfl, ?_⟩, List.nodup_cons.mpr ⟨outside, distinct⟩, ?_⟩
  · have swapped : solo (⟨g.stk, Function.update g.next node g.stk.head, g.log⟩,
        .pushSwap node g.stk.head) .tick =
        some (⟨{ g.stk with head := some node }, Function.update g.next node g.stk.head,
          .push node :: g.log⟩,
          AmlstackPc.pushInc node) := if_pos rfl
    rw [runs_step rfl, List.replicate_succ, runs_step rfl, List.replicate_succ, runs_step rfl,
      List.replicate_succ, runs_step swapped]
    rfl
  · simp only [Function.update_self]
    exact linked_update _ linked outside
  · rw [List.length_cons, UInt64.ofNat_add, sized]
    rfl

theorem Settled.pop_empty (settled : Settled g []) :
    ∃ g', Completes g .pop g' (.popDone none) ∧ Settled g' [] := by
  obtain ⟨unlocked, linked, distinct, sized⟩ := settled
  have empty : g.stk.head = none := linked
  refine ⟨g, ⟨3, ?_⟩, unlocked, linked, distinct, sized⟩
  obtain ⟨⟨size, consumerLock, head⟩, link, log⟩ := g
  obtain rfl : consumerLock = 0 := unlocked
  obtain rfl : head = none := empty
  rfl

theorem Settled.pop (settled : Settled g (top :: rest)) :
    ∃ g', Completes g .pop g' (.popDone (some top)) ∧ g'.next top = none ∧ Settled g' rest := by
  obtain ⟨unlocked, ⟨head, linked⟩, distinct, sized⟩ := settled
  obtain ⟨outside, distinct⟩ := List.nodup_cons.mp distinct
  obtain ⟨⟨size, consumerLock, first⟩, link, log⟩ := g
  obtain rfl : consumerLock = 0 := unlocked
  obtain rfl : first = some top := head
  refine ⟨⟨⟨size - 1, 0, link top⟩, Function.update link top none, .pop top :: log⟩, ⟨7, ?_⟩,
    Function.update_self .., rfl, linked_update _ linked outside, distinct, ?_⟩
  · have swapped : solo (⟨⟨size, 1, some top⟩, link, log⟩, .popSwap top (link top)) .tick =
        some (⟨⟨size, 1, link top⟩, link, .pop top :: log⟩, AmlstackPc.popClear top) := if_pos rfl
    rw [runs_step rfl, List.replicate_succ, runs_step rfl, List.replicate_succ, runs_step rfl,
      List.replicate_succ, runs_step rfl, List.replicate_succ, runs_step swapped]
    rfl
  · simp only at sized
    rw [sized, List.length_cons, UInt64.ofNat_add]
    exact UInt64.add_sub_cancel _ _

theorem Settled.lifo (settled : Settled g nodes) (ops : List (Op N)) : Lifo g nodes ops := by
  induction ops generalizing g nodes with
  | nil => exact settled.sized
  | cons op ops ih =>
      cases op with
      | push node =>
          refine ⟨settled.sized, fun outside => ?_⟩
          obtain ⟨g', completes, after⟩ := settled.push outside
          exact ⟨g', completes, ih after⟩
      | pop =>
          refine ⟨settled.sized, ?_⟩
          cases nodes with
          | nil =>
              obtain ⟨g', completes, after⟩ := settled.pop_empty
              exact ⟨g', completes, ih after⟩
          | cons top rest =>
              obtain ⟨g', completes, cleared, after⟩ := settled.pop
              exact ⟨g', completes, cleared, ih after⟩

omit [DecidableEq N] in
theorem settled_init {stk : Amlstack N} (unlocked : stk.consumerLock = 0) (link : N → Option N) :
    Settled ⟨amlstackInit stk, link, []⟩ [] :=
  ⟨unlocked, rfl, List.nodup_nil, rfl⟩

end Free

section Held

variable {g g' : Shared N}

theorem spins (held : g.stk.consumerLock ≠ 0) (n : ℕ) :
    runs solo (g, .idle) (.pop :: List.replicate n .tick) = some (g, .popLock) := by
  have called : solo (g, .idle) .pop = some (g, AmlstackPc.popLock) := rfl
  have again : solo (g, .popLock) .tick = some (g, AmlstackPc.popLock) := by
    simp [solo, next, amlstackAccess, held]
  rw [runs_step called]
  induction n with
  | zero => rfl
  | succ n ih => rw [List.replicate_succ, runs_step again, ih]

theorem not_completes_pop (held : g.stk.consumerLock ≠ 0) (out : Option N) :
    ¬ Completes g .pop g' (.popDone out) := by
  rintro ⟨n, ran⟩
  rw [spins held n] at ran
  cases ran

/-- Over any memory, a stack that `amlstack_init` has set up works if and only if its lock
was free before. -/
theorem amlstackInit_lifo_iff (stk : Amlstack N) (link : N → Option N) :
    (∀ ops, Lifo ⟨amlstackInit stk, link, []⟩ [] ops) ↔ stk.consumerLock = 0 := by
  constructor
  · intro lifo
    by_contra held
    obtain ⟨-, g', completes, -⟩ := lifo [.pop]
    exact not_completes_pop held none completes
  · intro unlocked ops
    exact (settled_init unlocked link).lifo ops

/-- An automatic variable with ones in it: the first pop spins for ever. -/
theorem amlstackInit_spins :
    ¬ Lifo (⟨amlstackInit ⟨0, 2 ^ 64 - 1, none⟩, fun _ => none, []⟩ : Shared ℕ) [] [.pop] := by
  rintro ⟨-, g', completes, -⟩
  refine not_completes_pop ?_ none completes
  decide

end Held

end Libam.LStack
