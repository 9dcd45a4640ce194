import Libam.Lists.Amlist
import Libam.Pool.Sequential

/-! The hierarchy of the pools of `libam_pool.c`: `ampool_pool_alloc_flags_named`, `pool_free` and
`ampool_diag`. The links are in memory that goes away with its pool. -/

namespace Libam.Pool.Hierarchy

open Libam.Lists

inductive LinkAddr (P : Type)
  | rootPools
  | childrenList (pool : P)
  | siblingLink (pool : P)
  deriving DecidableEq, Repr

variable {P : Type}

/-- The rest of `ampool_internal_t`. -/
structure AmpoolNode (P : Type) where
  parent : Option P
  name : String
  validateOnFree : Bool
  pool : AmpoolInternal

/-- `globals` and all pools. The calls of `free` for a pool are recorded. -/
structure Globals (P : Type) where
  magic : UInt32
  links : Links (LinkAddr P)
  pools : P → Option (AmpoolNode P)
  freed : List P

structure AmpoolDiag (P : Type) where
  pool : P
  poolName : String
  parent : Option P
  parentName : Option String
  size : UInt64
  elements : UInt64
  deriving DecidableEq, Repr

inductive Fault
  | invalid
  | assertion
  | rounds
  deriving DecidableEq, Repr

section Memory

def LinkAddr.owner : LinkAddr P → Option P
  | .rootPools => none
  | .childrenList pool => some pool
  | .siblingLink pool => some pool

def Globals.valid (s : Globals P) (x : LinkAddr P) : Bool :=
  match x.owner with
  | none => true
  | some pool => (s.pools pool).isSome

def Globals.follow (s : Globals P) (x : Option (LinkAddr P)) : Except Fault (LinkAddr P) :=
  match x with
  | none => .error .invalid
  | some x => if s.valid x then .ok x else .error .invalid

def Globals.node (s : Globals P) (pool : P) : Except Fault (AmpoolNode P) :=
  match s.pools pool with
  | none => .error .invalid
  | some node => .ok node

def poolOf : LinkAddr P → Except Fault P
  | .siblingLink pool => .ok pool
  | _ => .error .invalid

variable [DecidableEq P]

def Globals.update (s : Globals P) (links : Option (Links (LinkAddr P))) :
    Except Fault (Globals P) :=
  match links with
  | none => .error .invalid
  | some links => .ok { s with links := links }

def Globals.add (s : Globals P) (head entry : LinkAddr P) : Except Fault (Globals P) := do
  let head ← s.follow (some head)
  let _ ← s.follow (s.links head).next
  s.update (amlistAdd s.links head entry)

def Globals.del (s : Globals P) (entry : LinkAddr P) : Except Fault (Globals P) := do
  let entry ← s.follow (some entry)
  let _ ← s.follow (s.links entry).prev
  let _ ← s.follow (s.links entry).next
  s.update (amlistDel s.links entry)

end Memory

section Allocation

variable [DecidableEq P]

/-- The magic number is made from the date of the build and the time. -/
def ampoolInit (magic : UInt32) : Globals P :=
  ⟨magic, amlistInit (fun _ => ⟨none, none⟩) .rootPools, fun _ => none, []⟩

def headOf : Option P → LinkAddr P
  | none => .rootPools
  | some parent => .childrenList parent

def ampoolPoolAllocFlagsNamed (s : Globals P) (parent : Option P) (validateOnFree : Bool)
    (name : String) (fresh : Option P) : Except Fault (Globals P × Option P) :=
  match fresh with
  | none => .ok (s, none)
  | some pool => do
      let s := { s with
        links := amlistInit (Function.update s.links (.siblingLink pool) ⟨none, none⟩)
          (.childrenList pool)
        pools := Function.update s.pools pool
          (some ⟨parent, name, validateOnFree, ampoolInternal⟩) }
      let s ← s.add (headOf parent) (.siblingLink pool)
      return (s, some pool)

end Allocation

section Teardown

variable [DecidableEq P]

/-- The loop over a list that ends when the list is empty, where `free` is `_ampool_pool_free`. -/
def freeAll (free : Globals P → P → Except Fault (Globals P)) (head : LinkAddr P) :
    ℕ → Globals P → Except Fault (Globals P)
  | 0, _ => .error .rounds
  | rounds + 1, s => do
      let head ← s.follow (some head)
      if (s.links head).next = some head then return s
      let first ← s.follow (s.links head).next
      let pool ← poolOf first
      let s ← free s pool
      freeAll free head rounds s

def ampoolPoolFree : ℕ → Globals P → P → Except Fault (Globals P)
  | 0, _, _ => .error .rounds
  | rounds + 1, s, pool => do
      let node ← s.node pool
      let s ← s.del (.siblingLink pool)
      match freeBuckets ⟨s.magic, node.validateOnFree⟩ allBuckets node.pool 0 0 with
      | .error _ => throw .assertion
      | .ok (_, deletedSize, deletedCount) => do
          let s ← freeAll (ampoolPoolFree rounds) (.childrenList pool) rounds s
          if deletedSize = node.pool.size ∧ deletedCount = node.pool.elementCount then
            return { s with pools := Function.update s.pools pool none, freed := s.freed ++ [pool] }
          else throw .assertion

def ampoolInternalTerm (rounds : ℕ) (s : Globals P) : Except Fault (Globals P) :=
  freeAll (ampoolPoolFree rounds) .rootPools rounds s

end Teardown

section Diagnosis

variable [DecidableEq P]

structure Diagnosis (P : Type) where
  pd : Option (AmpoolDiag P)
  seen : List (AmpoolDiag P)

/-- `amlist_for_each_entry` from `pos` on, where `diag` is `_ampool_diag`. -/
def diagChildren (s : Globals P) (diag : P → Option P → Diagnosis P → Except Fault (Diagnosis P))
    (parent : Option P) (head : LinkAddr P) : ℕ → Option (LinkAddr P) → Diagnosis P →
    Except Fault (Diagnosis P)
  | 0, _, _ => .error .rounds
  | rounds + 1, pos, d => do
      let pos ← s.follow pos
      if pos = head then return d
      let child ← poolOf pos
      let d ← diag child parent d
      diagChildren s diag parent head rounds (s.links pos).next d

/-- `_ampool_diag`, with a callback that succeeds. -/
def ampoolDiagFrom (s : Globals P) : ℕ → P → Option P → Diagnosis P → Except Fault (Diagnosis P)
  | 0, _, _, _ => .error .rounds
  | rounds + 1, pool, parent, d => do
      let node ← s.node pool
      let parentName ← match parent with
        | none => pure none
        | some parent => do
            let node ← s.node parent
            pure (some node.name)
      let pd : AmpoolDiag P :=
        ⟨pool, node.name, parent, parentName, node.pool.size, node.pool.elementCount⟩
      let d : Diagnosis P := ⟨some pd, d.seen ++ [pd]⟩
      diagChildren s (ampoolDiagFrom s rounds) (some pool) (.childrenList pool) rounds
        (s.links (.childrenList pool)).next d

def ampoolDiag (s : Globals P) (rounds : ℕ) : Except Fault (List (AmpoolDiag P)) := do
  let d ← diagChildren s (ampoolDiagFrom s rounds) none .rootPools rounds (s.links .rootPools).next
    ⟨none, []⟩
  return d.seen

end Diagnosis

end Libam.Pool.Hierarchy
