import Libam.AvlTree.Represents
import Libam.Lockstep
import Mathlib.Data.Set.Insert

/-! What the functions on a tree do depends on the nodes of the tree only: two memories that agree
on a set of nodes closed under pointers agree on it afterwards. -/

namespace Libam.AvlTree

open Libam.Trees Libam.Lockstep

variable {Addr : Type}

structure Same (S : Set Addr) (t t' : Amtree Addr) : Prop where
  root : t'.root = t.root
  count : t'.count = t.count
  node : ∀ a ∈ S, t'.node a = t.node a
  start : ∀ a ∈ t.root, a ∈ S
  parent : ∀ a ∈ S, ∀ p ∈ (t.node a).parent, p ∈ S
  child : ∀ a ∈ S, ∀ s, ∀ c ∈ (t.node a).child s, c ∈ S

section Writes

variable [DecidableEq Addr] {S : Set Addr} {t t' : Amtree Addr}

theorem Same.adjoin (same : Same S t t') {a : Addr} {f f' : AmtreeNode Addr → AmtreeNode Addr}
    (equal : f' (t'.node a) = f (t.node a)) (parent : ∀ p ∈ (f (t.node a)).parent, p ∈ insert a S)
    (child : ∀ s, ∀ c ∈ (f (t.node a)).child s, c ∈ insert a S) :
    Same (insert a S) (t.modify a f) (t'.modify a f') := by
  have written (t : Amtree Addr) (f : AmtreeNode Addr → AmtreeNode Addr) (b : Addr) :
      (t.modify a f).node b = if b = a then f (t.node a) else t.node b := by
    simp only [Amtree.modify, Function.update_apply]
  have old {b : Addr} (inside : b ∈ insert a S) (other : b ≠ a) : b ∈ S := inside.resolve_left other
  refine ⟨same.root, same.count, fun b inside => ?_, fun b root => .inr (same.start b root),
    fun b inside => ?_, fun b inside => ?_⟩
  · rw [written, written]
    split
    · exact equal
    · rename_i other
      exact same.node b (old inside other)
  · rw [written]
    split
    · exact parent
    · rename_i other
      exact fun p here => .inr (same.parent b (old inside other) p here)
  · rw [written]
    split
    · exact child
    · rename_i other
      exact fun s c here => .inr (same.child b (old inside other) s c here)

theorem Same.modify (same : Same S t t') {a : Addr} (inside : a ∈ S)
    (f : AmtreeNode Addr → AmtreeNode Addr) (parent : ∀ p ∈ (f (t.node a)).parent, p ∈ S)
    (child : ∀ s, ∀ c ∈ (f (t.node a)).child s, c ∈ S) : Same S (t.modify a f) (t'.modify a f) := by
  have adjoined : Same (insert a S) (t.modify a f) (t'.modify a f) :=
    same.adjoin (by rw [same.node a inside]) (fun p here => .inr (parent p here))
      fun s c here => .inr (child s c here)
  rwa [Set.insert_eq_of_mem inside] at adjoined

theorem Same.setBalance (same : Same S t t') {a : Addr} (inside : a ∈ S) (b : ℤ) :
    Same S (t.setBalance a b) (t'.setBalance a b) := by
  apply same.modify inside _ (same.parent a inside)
  intro s
  cases s
  · exact same.child a inside .left
  · exact same.child a inside .right

theorem Same.setParent (same : Same S t t') {c p : Option Addr} (inside : ∀ a ∈ c, a ∈ S)
    (parent : ∀ a ∈ p, a ∈ S) : Same S (t.setParent c p) (t'.setParent c p) := by
  cases c with
  | none => exact same
  | some c =>
      have here := inside c rfl
      refine same.modify here (fun nd => { nd with parent := p }) parent fun s => ?_
      cases s
      · exact same.child c here .left
      · exact same.child c here .right

theorem Same.store (same : Same S t t') {slot : Slot Addr} {c : Option Addr}
    (owner : ∀ p ∈ slot.owner, p ∈ S) (inside : ∀ a ∈ c, a ∈ S) :
    Same S (t.store slot c) (t'.store slot c) := by
  cases slot with
  | root => exact ⟨rfl, same.count, same.node, inside, same.parent, same.child⟩
  | child p s =>
      have here := owner p rfl
      refine same.modify here (fun nd => nd.setChild s c) ?_ fun s' => ?_
      · cases s <;> exact same.parent p here
      · cases s <;> cases s'
        · exact inside
        · exact same.child p here .right
        · exact same.child p here .left
        · exact inside

theorem Same.link (same : Same S t t') (slot : Slot Addr) {c : Option Addr}
    (owner : ∀ p ∈ slot.owner, p ∈ S) (inside : ∀ a ∈ c, a ∈ S) :
    Same S (t.link slot c) (t'.link slot c) :=
  (same.store owner inside).setParent inside owner

theorem Same.slotOf_eq (same : Same S t t') {p : Option Addr} (inside : ∀ a ∈ p, a ∈ S)
    (n : Addr) : slotOf t' p n = slotOf t p n := by
  cases p with
  | none => rfl
  | some p => simp only [slotOf, amtreeWhichChild, same.node p (inside p rfl)]

@[simp] theorem owner_slotOf (t : Amtree Addr) (p : Option Addr) (n : Addr) :
    (slotOf t p n).owner = p := by
  cases p with
  | none => rfl
  | some p =>
      simp only [slotOf, amtreeWhichChild]
      split <;> rfl

omit [DecidableEq Addr] in
@[simp] theorem owner_child (p : Addr) (s : Side) : (Slot.child p s).owner = some p := rfl

end Writes

section Rotations

variable [DecidableEq Addr] {S : Set Addr} {t t' : Amtree Addr}

theorem Same.rotate (same : Same S t t') (s : Side) {n c : Addr} (inN : n ∈ S) (inC : c ∈ S) :
    Same S (rotate s t n c) (rotate s t' n c) := by
  have above : ∀ p ∈ (slotOf t (t.node n).parent n).owner, p ∈ S := by
    rw [owner_slotOf]
    exact same.parent n inN
  have only {a : Addr} (inside : a ∈ S) : ∀ b ∈ some a, b ∈ S := by
    rintro _ ⟨⟩
    exact inside
  have linked := ((same.link _ above (only inC)).link (.child n s) (only inN)
    (same.child c inC s.other)).link (.child c s.other) (only inC) (only inN)
  simp only [AvlTree.rotate, same.node n inN, same.node c inC, same.slotOf_eq (same.parent n inN)]
  refine ite_related (Same S) (by rw [linked.node c inC]) (fun _ => ?_) fun _ => ?_
  · exact (linked.setBalance inN _).setBalance inC _
  · exact (linked.setBalance inN _).setBalance inC _

theorem Same.rotateTwice (same : Same S t t') (s : Side) {n c : Addr} (inN : n ∈ S) (inC : c ∈ S) :
    Alike (Same S) (rotateTwice s t n c) (rotateTwice s t' n c) := by
  simp only [AvlTree.rotateTwice, same.node n inN, same.node c inC]
  cases inner : (t.node c).child s.other with
  | none => exact .error _
  | some g =>
      have inG := same.child c inC s.other g inner
      have above : ∀ p ∈ (slotOf t (t.node n).parent n).owner, p ∈ S := by
        rw [owner_slotOf]
        exact same.parent n inN
      have only {a : Addr} (inside : a ∈ S) : ∀ b ∈ some a, b ∈ S := by
        rintro _ ⟨⟩
        exact inside
      have linked := ((((same.link _ above (only inG)).link (.child c s.other) (only inC)
        (same.child g inG s)).link (.child n s) (only inN)
        (same.child g inG s.other)).link (.child g s) (only inG) (only inC)).link
        (.child g s.other) (only inG) (only inN)
      simp only [deref, bind, Except.bind, same.node g inG, same.slotOf_eq (same.parent n inN)]
      refine .ok (Same.setBalance ?_ inG 0)
      refine ite_related (Same S) (by rw [linked.node g inG]) (fun _ => ?_) fun _ =>
        ite_related (Same S) (by rw [linked.node g inG]) (fun _ => ?_) fun _ => ?_
      · exact (linked.setBalance inN _).setBalance inC _
      · exact (linked.setBalance inN _).setBalance inC _
      · exact (linked.setBalance inN _).setBalance inC _

end Rotations

end Libam.AvlTree
