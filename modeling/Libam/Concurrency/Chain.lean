import Mathlib.Data.List.Nodup
import Mathlib.Logic.Function.Basic

/-! Chains of nodes through their links, and the stack that a record of pushes and pops leaves. -/

namespace Libam.Chain

variable {N : Type*}

section Links

def Linked (next : N → Option N) : Option N → List N → Prop
  | head, [] => head = none
  | head, node :: rest => head = some node ∧ Linked next (next node) rest

theorem linked_some {next : N → Option N} {node : N} {nodes : List N}
    (linked : Linked next (some node) nodes) :
    ∃ rest, nodes = node :: rest ∧ Linked next (next node) rest := by
  cases nodes with
  | nil => cases linked
  | cons first rest =>
      obtain ⟨same, linked⟩ := linked
      cases same
      exact ⟨rest, rfl, linked⟩

theorem linked_update [DecidableEq N] {next : N → Option N} {node : N} (link : Option N) :
    ∀ {nodes : List N} {head : Option N}, Linked next head nodes → node ∉ nodes →
      Linked (Function.update next node link) head nodes := by
  intro nodes
  induction nodes with
  | nil => exact fun linked _ => linked
  | cons first rest ih =>
      intro head linked outside
      simp only [List.mem_cons, not_or] at outside
      refine ⟨linked.1, ?_⟩
      rw [Function.update_of_ne (Ne.symm outside.1)]
      exact ih linked.2 outside.2

end Links

section Records

inductive Swap (N : Type*)
  | push (node : N)
  | pop (node : N)
  deriving DecidableEq, Repr

def Swap.node : Swap N → N
  | .push node => node
  | .pop node => node

variable [DecidableEq N]

def lastSwap (swaps : List (Swap N)) (node : N) : Option (Swap N) := swaps.find? fun swap =>
    swap.node = node

theorem lastSwap_self (swap : Swap N) (earlier : List (Swap N)) :
    lastSwap (swap :: earlier) swap.node = some swap :=
  List.find?_cons_of_pos (decide_eq_true rfl)

theorem lastSwap_other {swap : Swap N} {earlier : List (Swap N)} {node : N}
    (other : swap.node ≠ node) : lastSwap (swap :: earlier) node = lastSwap earlier node :=
  List.find?_cons_of_neg fun same => other (of_decide_eq_true same)

/-- The stack after a record of swaps, newest first. Only the top can be popped. -/
def lifo : List (Swap N) → Option (List N)
  | [] => some []
  | .push node :: earlier => (lifo earlier).map (node :: ·)
  | .pop node :: earlier =>
      match lifo earlier with
      | some (top :: rest) => if node = top then some rest else none
      | _ => none

@[simp] theorem lifo_push {earlier : List (Swap N)} {node : N} {nodes : List N} :
    lifo (.push node :: earlier) = some nodes ↔
      ∃ prior, lifo earlier = some prior ∧ node :: prior = nodes := by
  simp only [lifo, Option.map_eq_some_iff]

@[simp] theorem lifo_pop {earlier : List (Swap N)} {node : N} {nodes : List N} :
    lifo (.pop node :: earlier) = some nodes ↔ lifo earlier = some (node :: nodes) := by
  simp only [lifo]
  split
  · rename_i top rest before
    split
    · rename_i same
      simp [before, same]
    · rename_i other
      simp [before, Ne.symm other]
  · rename_i empty
    simpa using empty node nodes

theorem lifo_count {swaps : List (Swap N)} {nodes : List N} (after : lifo swaps = some nodes)
    (node : N) : swaps.count (.push node) = swaps.count (.pop node) + nodes.count node := by
  induction swaps generalizing nodes with
  | nil =>
      cases after
      rfl
  | cons swap earlier ih =>
      cases swap with
      | push pushed =>
          obtain ⟨prior, before, rfl⟩ := lifo_push.mp after
          have account := ih before
          simp only [List.count_cons, beq_iff_eq, Swap.push.injEq, reduceCtorEq, if_false]
          omega
      | pop popped =>
          have account := ih (lifo_pop.mp after)
          simp only [List.count_cons, beq_iff_eq, Swap.pop.injEq, reduceCtorEq,
            if_false] at account ⊢
          omega

theorem mem_lifo {swaps : List (Swap N)} {nodes : List N} (after : lifo swaps = some nodes)
    (node : N) : node ∈ nodes ↔ swaps.count (.pop node) < swaps.count (.push node) := by
  have account := lifo_count after node
  rw [← List.count_pos_iff]
  omega

end Records

end Libam.Chain
