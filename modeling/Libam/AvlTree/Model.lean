import Libam.Trees.Zipper
import Mathlib.Logic.Function.Basic

/-! The intrusive AVL tree of `libam_tree.c` over a memory of nodes. -/

namespace Libam.AvlTree

open Libam.Trees

/-- `amtree_node_t`. A NULL pointer is `none`. -/
structure AmtreeNode (Addr : Type) where
  parent : Option Addr
  left : Option Addr
  right : Option Addr
  key : UInt64
  balance : ℤ
  deriving DecidableEq, Repr

/-- `amtree_t`, with the memory of all nodes in and out of the tree. -/
structure Amtree (Addr : Type) where
  root : Option Addr
  count : UInt32
  node : Addr → AmtreeNode Addr

/-- How a call can go wrong: a NULL pointer is followed, `abort()` is reached, a pointer to
something else is taken for a node, or a loop is cut off. -/
inductive Fault
  | nullDeref
  | abort
  | notANode
  | fuel
  deriving DecidableEq, Repr

variable {Addr : Type}

def deref : Option Addr → Except Fault Addr
  | none => .error .nullDeref
  | some a => .ok a

/-- `amtree_node_t**`: the root pointer of the tree or a child pointer of a node. -/
inductive Slot (Addr : Type)
  | root
  | child (parent : Addr) (side : Side)
  deriving DecidableEq, Repr

def Slot.owner : Slot Addr → Option Addr
  | .root => none
  | .child parent _ => some parent

def AmtreeNode.child (nd : AmtreeNode Addr) : Side → Option Addr
  | .left => nd.left
  | .right => nd.right

def AmtreeNode.setChild (nd : AmtreeNode Addr) (s : Side) (c : Option Addr) : AmtreeNode Addr :=
  match s with
  | .left => { nd with left := c }
  | .right => { nd with right := c }

def AmtreeNode.zero : AmtreeNode Addr := ⟨none, none, none, 0, 0⟩

def amtreeInit (node : Addr → AmtreeNode Addr) : Amtree Addr := ⟨none, 0, node⟩

namespace Amtree

variable [DecidableEq Addr]

def modify (t : Amtree Addr) (a : Addr) (f : AmtreeNode Addr → AmtreeNode Addr) : Amtree Addr :=
  { t with node := Function.update t.node a (f (t.node a)) }

def setBalance (t : Amtree Addr) (a : Addr) (b : ℤ) : Amtree Addr :=
  t.modify a fun nd => { nd with balance := b }

/-- `if (c != NULL) c->parent = parent`. -/
def setParent (t : Amtree Addr) (c parent : Option Addr) : Amtree Addr :=
  match c with
  | none => t
  | some c => t.modify c fun nd => { nd with parent := parent }

def load (t : Amtree Addr) : Slot Addr → Option Addr
  | .root => t.root
  | .child p s => (t.node p).child s

def store (t : Amtree Addr) (slot : Slot Addr) (c : Option Addr) : Amtree Addr :=
  match slot with
  | .root => { t with root := c }
  | .child p s => t.modify p fun nd => nd.setChild s c

def link (t : Amtree Addr) (slot : Slot Addr) (c : Option Addr) : Amtree Addr :=
  (t.store slot c).setParent c slot.owner

end Amtree

variable [DecidableEq Addr]

/-- Returns `compare` if equal, otherwise the proper child. -/
def amtreeCmp (t : Amtree Addr) (targ : AmtreeNode Addr) (compare : Addr) : Option Addr :=
  if targ.key > (t.node compare).key then (t.node compare).right
  else if targ.key < (t.node compare).key then (t.node compare).left
  else some compare

/-- The loop of `amtree_find`. -/
def amtreeFindFrom (t : Amtree Addr) (target : AmtreeNode Addr) :
    ℕ → Option Addr → Except Fault (Option Addr)
  | 0, _ => .error .fuel
  | _ + 1, none => .ok none
  | fuel + 1, some cur =>
      let next := amtreeCmp t target cur
      if next = some cur then .ok (some cur) else amtreeFindFrom t target fuel next

def amtreeFind (fuel : ℕ) (t : Amtree Addr) (target : AmtreeNode Addr) :
    Except Fault (Option Addr) :=
  amtreeFindFrom t target fuel t.root

def amtreeFindKey (fuel : ℕ) (t : Amtree Addr) (key : UInt64) : Except Fault (Option Addr) :=
  amtreeFind fuel t { AmtreeNode.zero with key := key }

def amtreeWhichChild (t : Amtree Addr) (parent child : Addr) : Slot Addr :=
  if (t.node parent).left = some child then .child parent .left else .child parent .right

/-- Where the pointer to `child` is: the root of the tree if the parent is NULL. -/
def slotOf (t : Amtree Addr) (parent : Option Addr) (child : Addr) : Slot Addr :=
  match parent with
  | none => .root
  | some parent => amtreeWhichChild t parent child

def rotate (s : Side) (t : Amtree Addr) (n c : Addr) : Amtree Addr :=
  let p := (t.node n).parent
  let g := (t.node c).child s.other
  let t := t.link (slotOf t p n) (some c)
  let t := t.link (.child n s) g
  let t := t.link (.child c s.other) (some n)
  if (t.node c).balance = 0 then (t.setBalance n s.sign).setBalance c (-s.sign)
  else (t.setBalance n 0).setBalance c 0

def amtreeRotateRight (t : Amtree Addr) (n cl : Addr) : Amtree Addr := rotate .left t n cl

def amtreeRotateLeft (t : Amtree Addr) (n cr : Addr) : Amtree Addr := rotate .right t n cr

/-- A double rotation that lifts the inner grandchild of `n` below `c`, its child on side `s`. -/
def rotateTwice (s : Side) (t : Amtree Addr) (n c : Addr) : Except Fault (Amtree Addr) := do
  let p := (t.node n).parent
  let g ← deref ((t.node c).child s.other)
  let gs := (t.node g).child s
  let go := (t.node g).child s.other
  let t := t.link (slotOf t p n) (some g)
  let t := t.link (.child c s.other) gs
  let t := t.link (.child n s) go
  let t := t.link (.child g s) (some c)
  let t := t.link (.child g s.other) (some n)
  let t :=
    if s.sign * (t.node g).balance > 0 then (t.setBalance n (-s.sign)).setBalance c 0
    else if (t.node g).balance = 0 then (t.setBalance n 0).setBalance c 0
    else (t.setBalance n 0).setBalance c s.sign
  return t.setBalance g 0

def amtreeRotateRightLeft (t : Amtree Addr) (n cr : Addr) : Except Fault (Amtree Addr) :=
  rotateTwice .right t n cr

def amtreeRotateLeftRight (t : Amtree Addr) (n cl : Addr) : Except Fault (Amtree Addr) :=
  rotateTwice .left t n cl

/-- The loop of `amtree_balance_add`, from a node `n` and its parent `p`. -/
def balanceAddFrom : ℕ → Amtree Addr → Option Addr → Option Addr → Except Fault (Amtree Addr)
  | 0, _, _, _ => .error .fuel
  | _ + 1, t, _, none => .ok t
  | fuel + 1, t, n, some p => do
      let t :=
        if (t.node p).left = n then t.setBalance p ((t.node p).balance - 1)
        else t.setBalance p ((t.node p).balance + 1)
      let b := (t.node p).balance
      if b = 0 then return t
      else if b = 1 ∨ b = -1 then
        let n ← deref n
        balanceAddFrom fuel t (t.node n).parent (t.node p).parent
      else if b = 2 then
        let n ← deref n
        if (t.node n).balance = 1 then return amtreeRotateLeft t p n
        else amtreeRotateRightLeft t p n
      else if b = -2 then
        let n ← deref n
        if (t.node n).balance = -1 then return amtreeRotateRight t p n
        else amtreeRotateLeftRight t p n
      else .error .abort

def amtreeBalanceAdd (fuel : ℕ) (t : Amtree Addr) (n : Addr) : Except Fault (Amtree Addr) :=
  balanceAddFrom fuel t (some n) (t.node n).parent

/-- The descent of `amtree_insert`: the last node visited, and whether it has the key. -/
def descend (t : Amtree Addr) (n : Addr) : ℕ → Addr → Except Fault (Addr × Bool)
  | 0, _ => .error .fuel
  | fuel + 1, parent =>
      let next := amtreeCmp t (t.node n) parent
      if next = some parent then .ok (parent, true)
      else
        match next with
        | none => .ok (parent, false)
        | some next => descend t n fuel next

/-- Returns NULL on success, the existing node on a duplicate. -/
def amtreeInsert (fuel : ℕ) (t : Amtree Addr) (n : Addr) :
    Except Fault (Amtree Addr × Option Addr) :=
  match t.root with
  | none =>
      let t := { t with root := some n, count := 1 }
      let t := t.modify n fun nd =>
        { nd with parent := none, left := none, right := none, balance := 0 }
      .ok (t, none)
  | some root => do
      let (parent, duplicate) ← descend t n fuel root
      if duplicate then return (t, some parent)
      let t := t.modify n fun nd => { nd with left := none, right := none, balance := 0 }
      let side := if (t.node n).key < (t.node parent).key then Side.left else Side.right
      let t := t.link (.child parent side) (some n)
      let t := { t with count := t.count + 1 }
      let t ← amtreeBalanceAdd fuel t n
      return (t, none)

/-- The switch of `amtree_balance_del`: NULL where it returns, else the node to go up from. -/
def balanceDelSwitch (t : Amtree Addr) (parent : Addr) :
    Except Fault (Amtree Addr × Option Addr) := do
  let b := (t.node parent).balance
  if b = 0 then return (t, some parent)
  else if b = 1 ∨ b = -1 then return (t, none)
  else if b = 2 then
    let c ← deref (t.node parent).right
    if (t.node c).balance ≠ -1 then
      let t := amtreeRotateLeft t parent c
      return (t, if (t.node c).balance ≠ 0 then none else some c)
    else
      let t ← amtreeRotateRightLeft t parent c
      let up ← deref (t.node parent).parent
      return (t, some up)
  else if b = -2 then
    let c ← deref (t.node parent).left
    if (t.node c).balance ≠ 1 then
      let t := amtreeRotateRight t parent c
      return (t, if (t.node c).balance ≠ 0 then none else some c)
    else
      let t ← amtreeRotateLeftRight t parent c
      let up ← deref (t.node parent).parent
      return (t, some up)
  else .error .abort

/-- The node's balance has already been adjusted. -/
def amtreeBalanceDel : ℕ → Amtree Addr → Addr → Except Fault (Amtree Addr)
  | 0, _, _ => .error .fuel
  | fuel + 1, t, parent => do
      let (t, up) ← balanceDelSwitch t parent
      match up with
      | none => return t
      | some parent =>
          match (t.node parent).parent with
          | none => return t
          | some next =>
              let t :=
                if (t.node next).left = some parent then
                  t.setBalance next ((t.node next).balance + 1)
                else t.setBalance next ((t.node next).balance - 1)
              amtreeBalanceDel fuel t next

def leftmost (t : Amtree Addr) : ℕ → Addr → Except Fault Addr
  | 0, _ => .error .fuel
  | fuel + 1, min =>
      match (t.node min).left with
      | none => .ok min
      | some next => leftmost t fuel next

def amtreeDelete (fuel : ℕ) (t : Amtree Addr) (node : Addr) : Except Fault (Amtree Addr) := do
  let p := (t.node node).parent
  let t := { t with count := t.count - 1 }
  match (t.node node).right, (t.node node).left with
  | some cr, some cl =>
      if (t.node cr).left = none then
        let t := t.link (slotOf t p node) (some cr)
        let t := t.link (.child cr .left) (some cl)
        let t := t.setBalance cr ((t.node node).balance - 1)
        amtreeBalanceDel fuel t cr
      else
        let min ← leftmost t fuel cr
        let minP ← deref (t.node min).parent
        let t := t.link (.child minP .left) (t.node min).right
        let t := t.setBalance minP ((t.node minP).balance + 1)
        let t := t.setBalance min (t.node node).balance
        let t := t.link (slotOf t p node) (some min)
        let t := t.link (.child min .left) (some cl)
        let t := t.link (.child min .right) (some cr)
        amtreeBalanceDel fuel t minP
  | cr, cl =>
      let c := cr.or cl
      match p with
      | none => return t.link .root c
      | some p =>
          let side := if (t.node p).left = some node then Side.left else Side.right
          let t := t.link (.child p side) c
          let t := t.setBalance p ((t.node p).balance - side.sign)
          amtreeBalanceDel fuel t p

/-- Returns the deleted node, NULL if the key is not in the tree. -/
def amtreeDeleteKey (fuel : ℕ) (t : Amtree Addr) (key : UInt64) :
    Except Fault (Amtree Addr × Option Addr) := do
  match ← amtreeFindKey fuel t key with
  | none => return (t, none)
  | some targ =>
      let t ← amtreeDelete fuel t targ
      return (t, some targ)

def amtreeSwap (t : Amtree Addr) (toRemove toInsert : Addr) : Amtree Addr :=
  let t := t.modify toInsert fun _ => t.node toRemove
  let t := t.modify toRemove fun _ => .zero
  let t := t.store (slotOf t (t.node toInsert).parent toRemove) (some toInsert)
  let t := t.setParent (t.node toInsert).left (some toInsert)
  t.setParent (t.node toInsert).right (some toInsert)

end Libam.AvlTree
