import Libam.ITree.Parts

/-! The functions of `libam_itree.c` in lockstep with those of `libam_tree.c`, on two memories that
agree on a set of nodes closed under pointers. -/

namespace Libam.ITree.Embedded

open Libam.Trees Libam.AvlTree Libam.Lists Libam.Lockstep

variable {Addr : Type}

structure Matches (S : Set Addr) (links : Links (LinkAddr Addr)) (t : Amtree Addr)
    (u : Amitree Addr) : Prop where
  same : Same S t u.tree
  links : u.links = links

section Nodes

variable {S : Set Addr} {links : Links (LinkAddr Addr)} {t : Amtree Addr} {u : Amitree Addr}

theorem Matches.root (both : Matches S links t u) : u.root = t.root := both.same.root

variable (both : Matches S links t u) {a : Addr} (inside : a ∈ S)

include both inside

theorem Matches.parent : (u.node a).parent = (t.node a).parent :=
  congrArg AmtreeNode.parent (both.same.node a inside)

theorem Matches.left : (u.node a).left = (t.node a).left :=
  congrArg AmtreeNode.left (both.same.node a inside)

theorem Matches.right : (u.node a).right = (t.node a).right :=
  congrArg AmtreeNode.right (both.same.node a inside)

theorem Matches.key : (u.node a).key = (t.node a).key :=
  congrArg AmtreeNode.key (both.same.node a inside)

theorem Matches.balance : (u.node a).balance = (t.node a).balance :=
  congrArg AmtreeNode.balance (both.same.node a inside)

variable [DecidableEq Addr]

theorem Matches.setBalance (b : ℤ) : Matches S links (t.setBalance a b) (u.setBalance a b) :=
  ⟨u.tree_setBalance a b ▸ both.same.setBalance inside b, (u.links_setBalance a b).trans both.links⟩

end Nodes

section Rotations

variable [DecidableEq Addr] {S : Set Addr} {links : Links (LinkAddr Addr)} {t : Amtree Addr}
  {u : Amitree Addr} (both : Matches S links t u) {n c : Addr} (inN : n ∈ S) (inC : c ∈ S)

include both inN inC

theorem Matches.rotateRight :
    Matches S links (amtreeRotateRight t n c) (amitreeRotateRight u n c) := by
  refine ⟨?_, (links_amitreeRotateRight u n c).trans both.links⟩
  rw [tree_amitreeRotateRight]
  exact both.same.rotate .left inN inC

theorem Matches.rotateLeft :
    Matches S links (amtreeRotateLeft t n c) (amitreeRotateLeft u n c) := by
  refine ⟨?_, (links_amitreeRotateLeft u n c).trans both.links⟩
  rw [tree_amitreeRotateLeft]
  exact both.same.rotate .right inN inC

theorem Matches.rotateRightLeft :
    Alike (Matches S links) (amtreeRotateRightLeft t n c) (amitreeRotateRightLeft u n c) := by
  apply ((both.same.rotateTwice .right inN inC).trans (parted_amitreeRotateRightLeft u n c)).mono
  rintro t' u' ⟨tree, same, rfl, kept⟩
  exact ⟨same, kept.trans both.links⟩

theorem Matches.rotateLeftRight :
    Alike (Matches S links) (amtreeRotateLeftRight t n c) (amitreeRotateLeftRight u n c) := by
  apply ((both.same.rotateTwice .left inN inC).trans (parted_amitreeRotateLeftRight u n c)).mono
  rintro t' u' ⟨tree, same, rfl, kept⟩
  exact ⟨same, kept.trans both.links⟩

end Rotations

section Balance

variable [DecidableEq Addr] {S : Set Addr} {links : Links (LinkAddr Addr)}

omit [DecidableEq Addr] in
theorem alike_deref {n : Option Addr} (inside : ∀ a ∈ n, a ∈ S) :
    Alike (fun a b => b = a ∧ a ∈ S) (deref n) (deref n) := by
  cases n with
  | none => exact .error _
  | some n => exact .ok ⟨rfl, inside n rfl⟩

theorem matches_balanceAddFrom (fuel : ℕ) {t : Amtree Addr} {u : Amitree Addr}
    (both : Matches S links t u) {n p : Option Addr} (inN : ∀ a ∈ n, a ∈ S) (inP : ∀ a ∈ p, a ∈ S) :
    Alike (Matches S links) (AvlTree.balanceAddFrom fuel t n p) (balanceAddFrom fuel u n p) := by
  induction fuel generalizing t u n p with
  | zero => exact .error _
  | succ fuel ih =>
      cases p with
      | none => exact .ok both
      | some p =>
          have inside := inP p rfl
          obtain ⟨t₁, def₁⟩ : ∃ t₁, t₁ = if (t.node p).left = n
              then t.setBalance p ((t.node p).balance - 1)
              else t.setBalance p ((t.node p).balance + 1) := ⟨_, rfl⟩
          obtain ⟨u₁, def₂⟩ : ∃ u₁, u₁ = if (u.node p).left = n
              then u.setBalance p ((u.node p).balance - 1)
              else u.setBalance p ((u.node p).balance + 1) := ⟨_, rfl⟩
          have both₁ : Matches S links t₁ u₁ := by
            rw [def₁, def₂, both.balance inside]
            exact ite_related _ (by rw [both.left inside])
              (fun _ => both.setBalance inside _) fun _ => both.setBalance inside _
          simp only [AvlTree.balanceAddFrom, balanceAddFrom, ← def₁, ← def₂, both₁.balance inside]
          refine ite_related _ Iff.rfl (fun _ => .ok both₁) fun _ =>
            ite_related _ Iff.rfl (fun _ => ?_) fun _ => ite_related _ Iff.rfl
              (fun _ => ?_) fun _ =>
            ite_related _ Iff.rfl (fun _ => ?_) fun _ => .error _
          · apply (alike_deref inN).bind
            rintro n _ ⟨rfl, inN⟩
            rw [both₁.parent inN, both₁.parent inside]
            exact ih both₁ (both₁.same.parent _ inN) (both₁.same.parent p inside)
          · apply (alike_deref inN).bind
            rintro n _ ⟨rfl, inN⟩
            exact ite_related _ (by rw [both₁.balance inN])
              (fun _ => .ok (both₁.rotateLeft inside inN))
              fun _ => both₁.rotateRightLeft inside inN
          · apply (alike_deref inN).bind
            rintro n _ ⟨rfl, inN⟩
            exact ite_related _ (by rw [both₁.balance inN])
              (fun _ => .ok (both₁.rotateRight inside inN))
              fun _ => both₁.rotateLeftRight inside inN

def Continues (S : Set Addr) (links : Links (LinkAddr Addr)) (x : Amtree Addr × Option Addr)
    (y : Amitree Addr × Option Addr) : Prop :=
  Matches S links x.1 y.1 ∧ y.2 = x.2 ∧ ∀ a ∈ x.2, a ∈ S

omit [DecidableEq Addr] in
theorem continues_rotated {t : Amtree Addr} {u : Amitree Addr} (both : Matches S links t u)
    {p : Addr} (inside : p ∈ S) {child : Option Addr} (inChild : ∀ a ∈ child, a ∈ S) (b : ℤ)
    {once : Amtree Addr → Addr → Addr → Amtree Addr}
    {once' : Amitree Addr → Addr → Addr → Amitree Addr}
    {twice : Amtree Addr → Addr → Addr → Except Fault (Amtree Addr)}
    {twice' : Amitree Addr → Addr → Addr → Except Fault (Amitree Addr)}
    (single : ∀ c ∈ S, Matches S links (once t p c) (once' u p c))
    (double : ∀ c ∈ S, Alike (Matches S links) (twice t p c) (twice' u p c)) :
    Alike (Continues S links)
      (do
        let c ← deref child
        if (t.node c).balance ≠ b then
          let t := once t p c
          return (t, if (t.node c).balance ≠ 0 then none else some c)
        else
          let t ← twice t p c
          let up ← deref (t.node p).parent
          return (t, some up))
      (do
        let c ← deref child
        if (u.node c).balance ≠ b then
          let u := once' u p c
          return (u, if (u.node c).balance ≠ 0 then none else some c)
        else
          let u ← twice' u p c
          let up ← deref (u.node p).parent
          return (u, some up)) := by
  apply (alike_deref inChild).bind
  rintro c _ ⟨rfl, inC⟩
  refine ite_related _ (by rw [both.balance inC]) (fun _ => ?_) fun _ => ?_
  · have turned := single _ inC
    refine .ok ⟨turned, ?_, ?_⟩
    · simp only [turned.balance inC]
    · intro a here
      simp only at here
      split at here
      · cases here
      · cases here
        exact inC
  · apply (double _ inC).bind
    intro t₁ u₁ both₁
    rw [both₁.parent inside]
    apply (alike_deref (both₁.same.parent p inside)).bind
    rintro up _ ⟨rfl, inUp⟩
    refine .ok ⟨both₁, rfl, ?_⟩
    rintro _ ⟨⟩
    exact inUp

theorem matches_balanceDelSwitch {t : Amtree Addr} {u : Amitree Addr} (both : Matches S links t u)
    {p : Addr} (inside : p ∈ S) :
    Alike (Continues S links) (AvlTree.balanceDelSwitch t p) (balanceDelSwitch u p) := by
  have only : ∀ a ∈ some p, a ∈ S := by
    rintro _ ⟨⟩
    exact inside
  have nowhere : ∀ a ∈ (none : Option Addr), a ∈ S := by
    rintro _ ⟨⟩
  simp only [AvlTree.balanceDelSwitch, balanceDelSwitch, both.balance inside, both.right inside,
    both.left inside]
  refine ite_related _ Iff.rfl (fun _ => .ok ⟨both, rfl, only⟩) fun _ =>
    ite_related _ Iff.rfl (fun _ => .ok ⟨both, rfl, nowhere⟩) fun _ =>
    ite_related _ Iff.rfl (fun _ => ?_) fun _ => ite_related _ Iff.rfl
      (fun _ => ?_) fun _ => .error _
  · exact continues_rotated both inside (both.same.child p inside .right) (-1)
      (fun c inC => both.rotateLeft inside inC) fun c inC => both.rotateRightLeft inside inC
  · exact continues_rotated both inside (both.same.child p inside .left) 1
      (fun c inC => both.rotateRight inside inC) fun c inC => both.rotateLeftRight inside inC

theorem matches_balanceDel (fuel : ℕ) {t : Amtree Addr} {u : Amitree Addr}
    (both : Matches S links t u) {p : Addr} (inside : p ∈ S) :
    Alike (Matches S links) (amtreeBalanceDel fuel t p) (amitreeBalanceDel fuel u p) := by
  induction fuel generalizing t u p with
  | zero => exact .error _
  | succ fuel ih =>
      apply (matches_balanceDelSwitch both inside).bind
      rintro ⟨t₁, up⟩ ⟨u₁, up'⟩ ⟨both₁, same, inUp⟩
      simp only at both₁ same inUp
      subst same
      cases up' with
      | none => exact .ok both₁
      | some c =>
          have inC := inUp c rfl
          simp only [both₁.parent inC]
          cases above : (t₁.node c).parent with
          | none => exact .ok both₁
          | some next =>
              have inNext := both₁.same.parent c inC next above
              simp only [both₁.balance inNext]
              refine ih ?_ inNext
              exact ite_related _ (by rw [both₁.left inNext])
                (fun _ => both₁.setBalance inNext _) fun _ => both₁.setBalance inNext _

end Balance

section Lookup

variable [DecidableEq Addr] {S : Set Addr} {links : Links (LinkAddr Addr)} {t : Amtree Addr}
  {u : Amitree Addr}

omit [DecidableEq Addr] in
theorem Matches.cmp (both : Matches S links t u) {targ : AmtreeNode Addr} {targ' : AmitreeNode Addr}
    (key : targ'.key = targ.key) {a : Addr} (inside : a ∈ S) :
    amitreeCmp u targ' a = amtreeCmp t targ a := by
  simp only [amitreeCmp, amtreeCmp, key, both.key inside, both.right inside, both.left inside]

omit [DecidableEq Addr] in
theorem Matches.cmp_inside (both : Matches S links t u) (targ : AmtreeNode Addr) {a : Addr}
    (inside : a ∈ S) : ∀ c ∈ amtreeCmp t targ a, c ∈ S := by
  intro c here
  simp only [amtreeCmp] at here
  split at here
  · exact both.same.child a inside .right c here
  · split at here
    · exact both.same.child a inside .left c here
    · cases here
      exact inside

def Finds (S : Set Addr) (x y : Option Addr) : Prop := y = x ∧ ∀ a ∈ x, a ∈ S

theorem matches_findFrom (both : Matches S links t u) {target : AmtreeNode Addr}
    {target' : AmitreeNode Addr} (key : target'.key = target.key) (fuel : ℕ) {cur : Option Addr}
    (inside : ∀ a ∈ cur, a ∈ S) :
    Alike (Finds S) (amtreeFindFrom t target fuel cur) (amitreeFindFrom u target' fuel cur) := by
  induction fuel generalizing cur with
  | zero => exact .error _
  | succ fuel ih =>
      cases cur with
      | none => exact .ok ⟨rfl, inside⟩
      | some cur =>
          have inCur := inside cur rfl
          simp only [amitreeFindFrom, amtreeFindFrom, both.cmp key inCur]
          exact ite_related _ Iff.rfl (fun _ => .ok ⟨rfl, inside⟩)
            fun _ => ih (both.cmp_inside target inCur)

theorem matches_find (both : Matches S links t u) {target : AmtreeNode Addr}
    {target' : AmitreeNode Addr} (key : target'.key = target.key) (fuel : ℕ) :
    Alike (Finds S) (amtreeFind fuel t target) (amitreeFind fuel u target') := by
  rw [amitreeFind, amtreeFind, both.root]
  exact matches_findFrom both key fuel both.same.start

theorem matches_findKey (both : Matches S links t u) (fuel : ℕ) (key : UInt64) :
    Alike (Finds S) (amtreeFindKey fuel t key) (amitreeFindKey fuel u key) :=
  matches_find both rfl fuel

theorem matches_descend (both : Matches S links t u) {n : Addr}
    (key : (u.node n).key = (t.node n).key) (fuel : ℕ) {parent : Addr} (inside : parent ∈ S) :
    Alike (fun x y => y = x ∧ x.1 ∈ S) (AvlTree.descend t n fuel parent)
      (descend u n fuel parent) := by
  induction fuel generalizing parent with
  | zero => exact .error _
  | succ fuel ih =>
      have next := both.cmp_inside (t.node n) inside
      simp only [AvlTree.descend, descend, both.cmp key inside]
      refine ite_related _ Iff.rfl (fun _ => .ok ⟨rfl, inside⟩) fun _ => ?_
      cases last : amtreeCmp t (t.node n) parent with
      | none => exact .ok ⟨rfl, inside⟩
      | some c => exact ih (next c last)

omit [DecidableEq Addr] in
theorem matches_leftmost (both : Matches S links t u) (fuel : ℕ) {min : Addr} (inside : min ∈ S) :
    Alike (fun x y => y = x ∧ x ∈ S) (AvlTree.leftmost t fuel min) (leftmost u fuel min) := by
  induction fuel generalizing min with
  | zero => exact .error _
  | succ fuel ih =>
      simp only [AvlTree.leftmost, leftmost, both.left inside]
      cases last : (t.node min).left with
      | none => exact .ok ⟨rfl, inside⟩
      | some next => exact ih (both.same.child min inside .left next last)

end Lookup

end Libam.ITree.Embedded
