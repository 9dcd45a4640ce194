import Libam.ITree.Embedded
import Libam.AvlTree.Confined

/-! The tree and the list of `libam_itree.c` do not disturb each other: each function on the nodes
with their links is that of `libam_tree.c` on the rest, and a change of the list on the links. -/

namespace Libam.ITree.Embedded

open Libam.Trees Libam.AvlTree Libam.Lists Libam.Lockstep

variable {Addr : Type}

def AmitreeNode.fields (nd : AmitreeNode Addr) : AmtreeNode Addr :=
  ⟨nd.parent, nd.left, nd.right, nd.key, nd.balance⟩

namespace Amitree

def tree (t : Amitree Addr) : Amtree Addr := ⟨t.root, t.count, fun a => (t.node a).fields⟩

section Reads

variable (t : Amitree Addr) (a : Addr)

@[simp] theorem root_eq : t.root = t.tree.root := rfl

@[simp] theorem count_eq : t.count = t.tree.count := rfl

@[simp] theorem parent_eq : (t.node a).parent = (t.tree.node a).parent := rfl

@[simp] theorem left_eq : (t.node a).left = (t.tree.node a).left := rfl

@[simp] theorem right_eq : (t.node a).right = (t.tree.node a).right := rfl

@[simp] theorem key_eq : (t.node a).key = (t.tree.node a).key := rfl

@[simp] theorem balance_eq : (t.node a).balance = (t.tree.node a).balance := rfl

end Reads

@[simp] theorem tree_withLinks (t : Amitree Addr) (links : Links (LinkAddr Addr)) :
    (t.withLinks links).tree = t.tree := rfl

@[simp] theorem links_withLinks (t : Amitree Addr) (links : Links (LinkAddr Addr)) :
    (t.withLinks links).links = links := by
  funext x
  cases x <;> rfl

variable [DecidableEq Addr]

theorem tree_modify (t : Amitree Addr) (a : Addr) (f : AmitreeNode Addr → AmitreeNode Addr)
    (g : AmtreeNode Addr → AmtreeNode Addr) (same : ∀ nd, (f nd).fields = g nd.fields) :
    (t.modify a f).tree = t.tree.modify a g := by
  simp only [modify, tree, Amtree.modify, ← same, Amtree.mk.injEq, true_and]
  funext b
  simp only [Function.update_apply]
  split <;> rfl

theorem links_modify (t : Amitree Addr) (a : Addr) (f : AmitreeNode Addr → AmitreeNode Addr) :
    (t.modify a f).links = Function.update t.links (.node a) (f (t.node a)).link := by
  funext x
  cases x with
  | anchor => rfl
  | node b =>
      by_cases here : b = a
      · subst here
        simp [links, modify]
      · have other : LinkAddr.node b ≠ LinkAddr.node a := fun same => here (LinkAddr.node.inj same)
        simp [links, modify, here, other]

theorem links_kept (t : Amitree Addr) (a : Addr) (f : AmitreeNode Addr → AmitreeNode Addr)
    (same : ∀ nd, (f nd).link = nd.link) : (t.modify a f).links = t.links := by
  rw [links_modify, same]
  exact Function.update_eq_self (LinkAddr.node a) t.links

theorem modify_modify (t : Amitree Addr) (a : Addr) (f g : AmitreeNode Addr → AmitreeNode Addr) :
    (t.modify a f).modify a g = t.modify a fun nd => g (f nd) := by
  simp only [modify, Function.update_self, Function.update_idem]

section Writes

variable (t : Amitree Addr) (a d : Addr) (c p : Option Addr) (b : ℤ)

@[simp] theorem tree_setParent : (t.setParent a p).tree = t.tree.setParent (some a) p :=
  t.tree_modify a _ (fun nd => { nd with parent := p }) fun _ => rfl

@[simp] theorem tree_setLeft : (t.setLeft a c).tree = t.tree.store (.child a .left) c :=
  t.tree_modify a _ (fun nd => nd.setChild .left c) fun _ => rfl

@[simp] theorem tree_setRight : (t.setRight a c).tree = t.tree.store (.child a .right) c :=
  t.tree_modify a _ (fun nd => nd.setChild .right c) fun _ => rfl

@[simp] theorem tree_setBalance : (t.setBalance a b).tree = t.tree.setBalance a b :=
  t.tree_modify a _ (fun nd => { nd with balance := b }) fun _ => rfl

theorem adopt_some : t.adopt (some d) p = t.setParent d p := rfl

@[simp] theorem tree_adopt : (t.adopt c p).tree = t.tree.setParent c p := by
  cases c with
  | none => rfl
  | some c => exact t.tree_setParent c p

@[simp] theorem tree_replaceChild (n c : Addr) :
    (t.replaceChild p n c).tree = t.tree.store (slotOf t.tree p n) (some c) := by
  cases p with
  | none => rfl
  | some p =>
      by_cases left : (t.tree.node p).left = some n
      · simp only [replaceChild, slotOf, amtreeWhichChild, left_eq, left, if_true, tree_setLeft]
      · simp only [replaceChild, slotOf, amtreeWhichChild, left_eq, left, if_false, tree_setRight]

@[simp] theorem right_setLeft : ((t.setLeft a c).node d).right = (t.node d).right := by
  simp only [setLeft, modify, Function.update_apply]
  split <;> simp_all

@[simp] theorem links_setParent : (t.setParent a p).links = t.links :=
  t.links_kept a _ fun _ => rfl

@[simp] theorem links_setLeft : (t.setLeft a c).links = t.links :=
  t.links_kept a _ fun _ => rfl

@[simp] theorem links_setRight : (t.setRight a c).links = t.links :=
  t.links_kept a _ fun _ => rfl

@[simp] theorem links_setBalance : (t.setBalance a b).links = t.links :=
  t.links_kept a _ fun _ => rfl

@[simp] theorem links_adopt : (t.adopt c p).links = t.links := by
  cases c with
  | none => rfl
  | some c => exact t.links_setParent c p

@[simp] theorem links_replaceChild (n c : Addr) : (t.replaceChild p n c).links = t.links := by
  cases p with
  | none => rfl
  | some p =>
      simp only [replaceChild]
      split
      · exact t.links_setLeft p (some c)
      · exact t.links_setRight p (some c)

end Writes

end Amitree

section Rotations

variable [DecidableEq Addr] (t : Amitree Addr) (n c : Addr)

theorem store_setParent (t : Amtree Addr) (slot : Slot Addr) (c d p : Option Addr) :
    (t.setParent d p).store slot c = (t.store slot c).setParent d p := by
  cases slot with
  | root => cases d <;> rfl
  | child q s =>
      cases d with
      | none => rfl
      | some d =>
          simp only [Amtree.store, Amtree.setParent, Amtree.modify, Amtree.mk.injEq, true_and]
          funext a
          simp only [Function.update_apply]
          cases s <;> split <;> split <;> simp_all [AmtreeNode.setChild]

@[simp] theorem tree_amitreeRotateRight :
    (amitreeRotateRight t n c).tree = amtreeRotateRight t.tree n c := by
  simp [amitreeRotateRight, amtreeRotateRight, rotate, Amtree.link, apply_ite Amitree.tree,
    store_setParent, AmtreeNode.child, Side.other, Side.sign]

@[simp] theorem links_amitreeRotateRight : (amitreeRotateRight t n c).links = t.links := by
  simp [amitreeRotateRight, apply_ite Amitree.links]

@[simp] theorem tree_amitreeRotateLeft :
    (amitreeRotateLeft t n c).tree = amtreeRotateLeft t.tree n c := by
  simp [amitreeRotateLeft, amtreeRotateLeft, rotate, Amtree.link, apply_ite Amitree.tree,
    store_setParent, AmtreeNode.child, Side.other, Side.sign]

@[simp] theorem links_amitreeRotateLeft : (amitreeRotateLeft t n c).links = t.links := by
  simp [amitreeRotateLeft, apply_ite Amitree.links]

def Parted (links : Links (LinkAddr Addr)) (tree : Amtree Addr) (t : Amitree Addr) : Prop :=
  t.tree = tree ∧ t.links = links

theorem parted_amitreeRotateRightLeft :
    Alike (Parted t.links) (amtreeRotateRightLeft t.tree n c) (amitreeRotateRightLeft t n c) := by
  cases inner : (t.tree.node c).left with
  | none =>
      simp only [amitreeRotateRightLeft, amtreeRotateRightLeft, rotateTwice, AmtreeNode.child,
        Side.other, Amitree.left_eq, inner]
      exact .error _
  | some g =>
      simp only [amitreeRotateRightLeft, amtreeRotateRightLeft, rotateTwice, AmtreeNode.child,
        Side.other, Amitree.left_eq, inner, deref, bind, Except.bind]
      refine .ok ⟨?_, ?_⟩
      · simp [Amtree.link, store_setParent, Side.sign, apply_ite Amitree.tree]
      · simp [apply_ite Amitree.links]

theorem parted_amitreeRotateLeftRight :
    Alike (Parted t.links) (amtreeRotateLeftRight t.tree n c) (amitreeRotateLeftRight t n c) := by
  cases inner : (t.tree.node c).right with
  | none =>
      simp only [amitreeRotateLeftRight, amtreeRotateLeftRight, rotateTwice, AmtreeNode.child,
        Side.other, Amitree.right_eq, inner]
      exact .error _
  | some g =>
      simp only [amitreeRotateLeftRight, amtreeRotateLeftRight, rotateTwice, AmtreeNode.child,
        Side.other, Amitree.right_eq, inner, deref, bind, Except.bind]
      refine .ok ⟨?_, ?_⟩
      · simp [Amtree.link, store_setParent, Side.sign, apply_ite Amitree.tree]
      · simp [apply_ite Amitree.links]

end Rotations

end Libam.ITree.Embedded
