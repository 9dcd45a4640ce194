import Libam.ITree.Model

/-! The functions of `libam_itree.c`, statement by statement, over nodes that hold their own link.
`Libam.ITree.Parts` relates them to the tree and the list apart. -/

namespace Libam.ITree.Embedded

open Libam.AvlTree Libam.Lists

variable {Addr : Type}

structure AmitreeNode (Addr : Type) where
  parent : Option Addr
  left : Option Addr
  right : Option Addr
  link : AmlistHead (LinkAddr Addr)
  key : UInt64
  balance : ℤ
  deriving DecidableEq, Repr

def AmitreeNode.zero : AmitreeNode Addr := ⟨none, none, none, ⟨none, none⟩, 0, 0⟩

/-- `amitree_t`, with the memory of all nodes in and out of the tree. -/
structure Amitree (Addr : Type) where
  root : Option Addr
  orderedList : AmlistHead (LinkAddr Addr)
  count : UInt32
  node : Addr → AmitreeNode Addr

namespace Amitree

def links (t : Amitree Addr) : Links (LinkAddr Addr)
  | .anchor => t.orderedList
  | .node a => (t.node a).link

def withLinks (t : Amitree Addr) (links : Links (LinkAddr Addr)) : Amitree Addr :=
  { t with
    orderedList := links .anchor
    node := fun a => { t.node a with link := links (.node a) } }

variable [DecidableEq Addr]

def modify (t : Amitree Addr) (a : Addr) (f : AmitreeNode Addr → AmitreeNode Addr) : Amitree Addr :=
  { t with node := Function.update t.node a (f (t.node a)) }

def setParent (t : Amitree Addr) (a : Addr) (p : Option Addr) : Amitree Addr :=
  t.modify a fun nd => { nd with parent := p }

def setLeft (t : Amitree Addr) (a : Addr) (c : Option Addr) : Amitree Addr :=
  t.modify a fun nd => { nd with left := c }

def setRight (t : Amitree Addr) (a : Addr) (c : Option Addr) : Amitree Addr :=
  t.modify a fun nd => { nd with right := c }

def setBalance (t : Amitree Addr) (a : Addr) (b : ℤ) : Amitree Addr :=
  t.modify a fun nd => { nd with balance := b }

/-- `if (c != NULL) c->parent = p`. -/
def adopt (t : Amitree Addr) (c p : Option Addr) : Amitree Addr :=
  match c with
  | none => t
  | some c => t.setParent c p

/-- `*amitree_which_child(p, n) = c`, or `t->root = c` if `p` is NULL. -/
def replaceChild (t : Amitree Addr) (p : Option Addr) (n c : Addr) : Amitree Addr :=
  match p with
  | none => { t with root := some c }
  | some p => if (t.node p).left = some n then t.setLeft p (some c) else t.setRight p (some c)

end Amitree

section Lookup

variable [DecidableEq Addr]

/-- Returns `compare` if equal, otherwise the proper child. -/
def amitreeCmp (t : Amitree Addr) (targ : AmitreeNode Addr) (compare : Addr) : Option Addr :=
  if targ.key > (t.node compare).key then (t.node compare).right
  else if targ.key < (t.node compare).key then (t.node compare).left
  else some compare

/-- The loop of `amitree_find`. -/
def amitreeFindFrom (t : Amitree Addr) (target : AmitreeNode Addr) :
    ℕ → Option Addr → Except Fault (Option Addr)
  | 0, _ => .error .fuel
  | _ + 1, none => .ok none
  | fuel + 1, some cur =>
      let next := amitreeCmp t target cur
      if next = some cur then .ok (some cur) else amitreeFindFrom t target fuel next

def amitreeFind (fuel : ℕ) (t : Amitree Addr) (target : AmitreeNode Addr) :
    Except Fault (Option Addr) :=
  amitreeFindFrom t target fuel t.root

def amitreeFindKey (fuel : ℕ) (t : Amitree Addr) (key : UInt64) : Except Fault (Option Addr) :=
  amitreeFind fuel t { AmitreeNode.zero with key := key }

/-- The descent of `amitree_insert`: the last node visited, and whether it has the key. -/
def descend (t : Amitree Addr) (n : Addr) : ℕ → Addr → Except Fault (Addr × Bool)
  | 0, _ => .error .fuel
  | fuel + 1, parent =>
      let next := amitreeCmp t (t.node n) parent
      if next = some parent then .ok (parent, true)
      else
        match next with
        | none => .ok (parent, false)
        | some next => descend t n fuel next

omit [DecidableEq Addr] in
def leftmost (t : Amitree Addr) : ℕ → Addr → Except Fault Addr
  | 0, _ => .error .fuel
  | fuel + 1, min =>
      match (t.node min).left with
      | none => .ok min
      | some next => leftmost t fuel next

end Lookup

section Rotations

variable [DecidableEq Addr]

/-- Assumes a left child. -/
def amitreeRotateRight (t : Amitree Addr) (n cl : Addr) : Amitree Addr :=
  let p := (t.node n).parent
  let glr := (t.node cl).right
  let t := t.replaceChild p n cl
  let t := t.setParent cl p
  let t := t.setLeft n glr
  let t := t.adopt glr (some n)
  let t := t.setParent n (some cl)
  let t := t.setRight cl (some n)
  if (t.node cl).balance = 0 then (t.setBalance n (-1)).setBalance cl 1
  else (t.setBalance n 0).setBalance cl 0

def amitreeRotateLeft (t : Amitree Addr) (n cr : Addr) : Amitree Addr :=
  let p := (t.node n).parent
  let grl := (t.node cr).left
  let t := t.replaceChild p n cr
  let t := t.setParent cr p
  let t := t.setRight n grl
  let t := t.adopt grl (some n)
  let t := t.setParent n (some cr)
  let t := t.setLeft cr (some n)
  if (t.node cr).balance = 0 then (t.setBalance n 1).setBalance cr (-1)
  else (t.setBalance n 0).setBalance cr 0

def amitreeRotateRightLeft (t : Amitree Addr) (n cr : Addr) : Except Fault (Amitree Addr) := do
  let p := (t.node n).parent
  let grl ← deref (t.node cr).left
  let ggrlr := (t.node grl).right
  let ggrll := (t.node grl).left
  let t := t.replaceChild p n grl
  let t := t.setParent grl p
  let t := t.setLeft cr ggrlr
  let t := t.adopt ggrlr (some cr)
  let t := t.setRight n ggrll
  let t := t.adopt ggrll (some n)
  let t := t.setRight grl (some cr)
  let t := t.setParent cr (some grl)
  let t := t.setLeft grl (some n)
  let t := t.setParent n (some grl)
  let t :=
    if (t.node grl).balance > 0 then (t.setBalance n (-1)).setBalance cr 0
    else if (t.node grl).balance = 0 then (t.setBalance n 0).setBalance cr 0
    else (t.setBalance n 0).setBalance cr 1
  return t.setBalance grl 0

def amitreeRotateLeftRight (t : Amitree Addr) (n cl : Addr) : Except Fault (Amitree Addr) := do
  let p := (t.node n).parent
  let glr ← deref (t.node cl).right
  let gglrl := (t.node glr).left
  let gglrr := (t.node glr).right
  let t := t.replaceChild p n glr
  let t := t.setParent glr p
  let t := t.setRight cl gglrl
  let t := t.adopt gglrl (some cl)
  let t := t.setLeft n gglrr
  let t := t.adopt gglrr (some n)
  let t := t.setLeft glr (some cl)
  let t := t.setParent cl (some glr)
  let t := t.setRight glr (some n)
  let t := t.setParent n (some glr)
  let t :=
    if (t.node glr).balance < 0 then (t.setBalance n 1).setBalance cl 0
    else if (t.node glr).balance = 0 then (t.setBalance n 0).setBalance cl 0
    else (t.setBalance n 0).setBalance cl (-1)
  return t.setBalance glr 0

end Rotations

section Balance

variable [DecidableEq Addr]

/-- The loop of `amitree_balance_add`, from a node `n` and its parent `p`. -/
def balanceAddFrom : ℕ → Amitree Addr → Option Addr → Option Addr → Except Fault (Amitree Addr)
  | 0, _, _, _ => .error .fuel
  | _ + 1, t, _, none => .ok t
  | fuel + 1, t, n, some p => do
      let t :=
        if (t.node p).left = n then t.setBalance p ((t.node p).balance - 1)
        else t.setBalance p ((t.node p).balance + 1)
      let b := (t.node p).balance
      if b = 0 then return t
      else if b = 1 ∨ b = -1 then
        let n ← deref n
        balanceAddFrom fuel t (t.node n).parent (t.node p).parent
      else if b = 2 then
        let n ← deref n
        if (t.node n).balance = 1 then return amitreeRotateLeft t p n
        else amitreeRotateRightLeft t p n
      else if b = -2 then
        let n ← deref n
        if (t.node n).balance = -1 then return amitreeRotateRight t p n
        else amitreeRotateLeftRight t p n
      else .error .abort

def amitreeBalanceAdd (fuel : ℕ) (t : Amitree Addr) (n : Addr) : Except Fault (Amitree Addr) :=
  balanceAddFrom fuel t (some n) (t.node n).parent

/-- The switch of `amitree_balance_del`: NULL where it returns, else the node to go up from. -/
def balanceDelSwitch (t : Amitree Addr) (parent : Addr) :
    Except Fault (Amitree Addr × Option Addr) := do
  let b := (t.node parent).balance
  if b = 0 then return (t, some parent)
  else if b = 1 ∨ b = -1 then return (t, none)
  else if b = 2 then
    let c ← deref (t.node parent).right
    if (t.node c).balance ≠ -1 then
      let t := amitreeRotateLeft t parent c
      return (t, if (t.node c).balance ≠ 0 then none else some c)
    else
      let t ← amitreeRotateRightLeft t parent c
      let up ← deref (t.node parent).parent
      return (t, some up)
  else if b = -2 then
    let c ← deref (t.node parent).left
    if (t.node c).balance ≠ 1 then
      let t := amitreeRotateRight t parent c
      return (t, if (t.node c).balance ≠ 0 then none else some c)
    else
      let t ← amitreeRotateLeftRight t parent c
      let up ← deref (t.node parent).parent
      return (t, some up)
  else .error .abort

def amitreeBalanceDel : ℕ → Amitree Addr → Addr → Except Fault (Amitree Addr)
  | 0, _, _ => .error .fuel
  | fuel + 1, t, parent => do
      let (t, up) ← balanceDelSwitch t parent
      match up with
      | none => return t
      | some parent =>
          match (t.node parent).parent with
          | none => return t
          | some next =>
              let t :=
                if (t.node next).left = some parent then
                  t.setBalance next ((t.node next).balance + 1)
                else t.setBalance next ((t.node next).balance - 1)
              amitreeBalanceDel fuel t next

end Balance

section Calls

variable [DecidableEq Addr]

def amitreeInit (t : Amitree Addr) : Amitree Addr × Amrc :=
  let t := { t with root := none, orderedList := ⟨none, none⟩, count := 0 }
  (t.withLinks (amlistInit t.links .anchor), .success)

def amitreeInsert (fuel : ℕ) (t : Amitree Addr) (n : Addr) :
    Except Fault (Amitree Addr × Option Addr) :=
  match t.root with
  | none => do
      let t := { t with root := some n, count := 1 }
      let t := t.setParent n none
      let t := t.setLeft n none
      let t := t.setRight n none
      let t := t.setBalance n 0
      let links ← follow (amlistAdd t.links .anchor (.node n))
      return (t.withLinks links, none)
  | some root => do
      let (parent, duplicate) ← descend t n fuel root
      if duplicate then return (t, some parent)
      let t := t.setLeft n none
      let t := t.setRight n none
      let t := t.setBalance n 0
      let t := t.setParent n (some parent)
      let t ←
        if (t.node n).key < (t.node parent).key then do
          let t := t.setLeft parent (some n)
          let links ← follow (amlistAddTail t.links (.node parent) (.node n))
          pure (t.withLinks links)
        else do
          let t := t.setRight parent (some n)
          let links ← follow (amlistAdd t.links (.node parent) (.node n))
          pure (t.withLinks links)
      let t := { t with count := t.count + 1 }
      let t ← amitreeBalanceAdd fuel t n
      return (t, none)

def amitreeDelete (fuel : ℕ) (t : Amitree Addr) (node : Addr) : Except Fault (Amitree Addr) := do
  let p := (t.node node).parent
  let cr := (t.node node).right
  let cl := (t.node node).left
  let t := { t with count := t.count - 1 }
  let links ← follow (amlistDel t.links (.node node))
  let t := t.withLinks links
  let t := t.modify node fun nd => { nd with link := ⟨none, none⟩ }
  match cr, cl with
  | some cr, some cl =>
      if (t.node cr).left = none then
        let t := t.setParent cr p
        let t := t.replaceChild p node cr
        let t := t.setParent cl (some cr)
        let t := t.setLeft cr (some cl)
        let t := t.setBalance cr ((t.node node).balance - 1)
        amitreeBalanceDel fuel t cr
      else
        let min ← leftmost t fuel cr
        let minP ← deref (t.node min).parent
        let t := t.setLeft minP (t.node min).right
        let t := t.adopt (t.node min).right (some minP)
        let t := t.setBalance minP ((t.node minP).balance + 1)
        let t := t.setBalance min (t.node node).balance
        let t := t.setParent min p
        let t := t.replaceChild p node min
        let t := t.setParent cl (some min)
        let t := t.setLeft min (some cl)
        let t := t.setParent cr (some min)
        let t := t.setRight min (some cr)
        amitreeBalanceDel fuel t minP
  | cr, cl =>
      -- At least one child is missing, and `cl` is the other one.
      let cl := cr.or cl
      let t := t.adopt cl p
      match p with
      | none => return { t with root := cl }
      | some p =>
          if (t.node p).left = some node then
            let t := t.setLeft p cl
            let t := t.setBalance p ((t.node p).balance + 1)
            amitreeBalanceDel fuel t p
          else
            let t := t.setRight p cl
            let t := t.setBalance p ((t.node p).balance - 1)
            amitreeBalanceDel fuel t p

def amitreeDeleteKey (fuel : ℕ) (t : Amitree Addr) (key : UInt64) :
    Except Fault (Amitree Addr × Option Addr) := do
  match ← amitreeFindKey fuel t key with
  | none => return (t, none)
  | some targ =>
      let t ← amitreeDelete fuel t targ
      return (t, some targ)

def amitreeSwap (t : Amitree Addr) (toRemove toInsert : Addr) : Except Fault (Amitree Addr) := do
  let t := t.modify toInsert fun _ => t.node toRemove
  let t := t.modify toRemove fun _ => .zero
  let next ← follow (t.node toInsert).link.next
  let t := t.withLinks (setPrev t.links next (some (.node toInsert)))
  let prev ← follow (t.node toInsert).link.prev
  let t := t.withLinks (setNext t.links prev (some (.node toInsert)))
  let t := t.replaceChild (t.node toInsert).parent toRemove toInsert
  let t := t.adopt (t.node toInsert).left (some toInsert)
  return t.adopt (t.node toInsert).right (some toInsert)

end Calls

end Libam.ITree.Embedded
