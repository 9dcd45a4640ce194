import Libam.AvlTree.Model
import Libam.Lists.Amlist
import Libam.Types

/-! The tree of `libam_itree.c`: that of `libam_tree.c`, with all nodes on an ordered list. The list
links of a node are kept apart from its other fields. -/

namespace Libam.ITree

open Libam.Trees Libam.AvlTree Libam.Lists

variable {Addr : Type}

/-- `&tree->ordered_list` and `&node->link`. -/
inductive LinkAddr (Addr : Type)
  | anchor
  | node (a : Addr)
  deriving DecidableEq, Repr

/-- `amitree_t`, with the memory of all nodes: the list links, and all the rest. -/
structure Amitree (Addr : Type) where
  tree : Amtree Addr
  links : Links (LinkAddr Addr)

def follow {M : Type} : Option M → Except Fault M
  | none => .error .nullDeref
  | some m => .ok m

section Iteration

def amitreeIsEmpty (t : Amitree Addr) : Bool := t.tree.count == 0

/-- `container_of(link, amitree_node_t, link)`. -/
def containerOf : Option (LinkAddr Addr) → Except Fault (Option Addr)
  | some (.node a) => .ok (some a)
  | _ => .error .notANode

def amitreeSmallest (t : Amitree Addr) : Except Fault (Option Addr) :=
  if amitreeIsEmpty t then .ok none else containerOf (t.links .anchor).next

def amitreeLargest (t : Amitree Addr) : Except Fault (Option Addr) :=
  if amitreeIsEmpty t then .ok none else containerOf (t.links .anchor).prev

variable [DecidableEq Addr]

def amitreeLarger (t : Amitree Addr) (n : Addr) : Except Fault (Option Addr) :=
  if (t.links (.node n)).next = some .anchor then .ok none
  else containerOf (t.links (.node n)).next

def amitreeSmaller (t : Amitree Addr) (n : Addr) : Except Fault (Option Addr) :=
  if (t.links (.node n)).prev = some .anchor then .ok none
  else containerOf (t.links (.node n)).prev

end Iteration

variable [DecidableEq Addr]

def amitreeInit (t : Amitree Addr) : Amitree Addr × Amrc :=
  (⟨amtreeInit t.tree.node, amlistInit t.links .anchor⟩, .success)

def amitreeFindKey (fuel : ℕ) (t : Amitree Addr) (key : UInt64) : Except Fault (Option Addr) :=
  amtreeFindKey fuel t.tree key

def amitreeBalanceAdd (fuel : ℕ) (t : Amitree Addr) (n : Addr) : Except Fault (Amitree Addr) :=
  (amtreeBalanceAdd fuel t.tree n).map fun tree => { t with tree := tree }

def amitreeInsert (fuel : ℕ) (t : Amitree Addr) (n : Addr) :
    Except Fault (Amitree Addr × Option Addr) :=
  match t.tree.root with
  | none => do
      let tree := { t.tree with root := some n, count := 1 }
      let tree := tree.modify n fun nd =>
        { nd with parent := none, left := none, right := none, balance := 0 }
      let links ← follow (amlistAdd t.links .anchor (.node n))
      return (⟨tree, links⟩, none)
  | some root => do
      let (parent, duplicate) ← descend t.tree n fuel root
      if duplicate then return (t, some parent)
      let tree := t.tree.modify n fun nd => { nd with left := none, right := none, balance := 0 }
      let side := if (tree.node n).key < (tree.node parent).key then Side.left else Side.right
      let tree := tree.link (.child parent side) (some n)
      let links ← follow (match side with
        | .left => amlistAddTail t.links (.node parent) (.node n)
        | .right => amlistAdd t.links (.node parent) (.node n))
      let tree := { tree with count := tree.count + 1 }
      let t ← amitreeBalanceAdd fuel ⟨tree, links⟩ n
      return (t, none)

/-- The link goes first; what follows is `amtree_delete`. -/
def amitreeDelete (fuel : ℕ) (t : Amitree Addr) (node : Addr) : Except Fault (Amitree Addr) := do
  let links ← follow (amlistDel t.links (.node node))
  let links := Function.update links (.node node) ⟨none, none⟩
  let tree ← amtreeDelete fuel t.tree node
  return ⟨tree, links⟩

def amitreeDeleteKey (fuel : ℕ) (t : Amitree Addr) (key : UInt64) :
    Except Fault (Amitree Addr × Option Addr) := do
  match ← amitreeFindKey fuel t key with
  | none => return (t, none)
  | some targ =>
      let t ← amitreeDelete fuel t targ
      return (t, some targ)

/-- `memcpy` and `memset` cover the link too, and the neighbours in the list are told; what follows
is `amtree_swap`. -/
def amitreeSwap (t : Amitree Addr) (toRemove toInsert : Addr) : Except Fault (Amitree Addr) := do
  let links := Function.update t.links (.node toInsert) (t.links (.node toRemove))
  let links := Function.update links (.node toRemove) ⟨none, none⟩
  let next ← follow (links (.node toInsert)).next
  let links := setPrev links next (some (.node toInsert))
  let prev ← follow (links (.node toInsert)).prev
  let links := setNext links prev (some (.node toInsert))
  return ⟨amtreeSwap t.tree toRemove toInsert, links⟩

end Libam.ITree
