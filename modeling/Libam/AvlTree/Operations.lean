import Libam.AvlTree.Rebalance

/-! Search, insertion, deletion and swap, each on the tree that the memory holds. -/

namespace Libam.AvlTree

open Libam.Trees

variable {Addr : Type}

section Frames

theorem Holds.congr {t t' : Amtree Addr} {T : SearchTree (Entry Addr)} (holds : Holds t T)
    (same : ∀ a ∈ addrs T, t'.node a = t.node a) : Holds t' T := by
  have slot (a : Addr) (s : Side) (c : Option Addr) (here : a ∈ addrs T)
      (child : ∀ u, c = some u → u ∈ addrs T) (slotted : Slotted t (.child a s) c) :
      Slotted t' (.child a s) c :=
    ⟨by simpa only [Amtree.load, same a here] using slotted.1,
      fun u root => by rw [same u (child u root)]; exact slotted.2 u root⟩
  induction T with
  | leaf => trivial
  | node l x b r ihl ihr =>
      have member (u : Addr) : u ∈ addrs (.node l x b r) ↔ u = x.addr ∨ u ∈ addrs l ∨ u ∈ addrs r :=
        mem_addrs_join .left l r x b u
      obtain ⟨carries, left, right, holdsLeft, holdsRight⟩ := holds
      have root : x.addr ∈ addrs (.node l x b r) := (member _).mpr (.inl rfl)
      have inLeft (u : Addr) (inside : u ∈ addrs l) : u ∈ addrs (.node l x b r) :=
        (member u).mpr (.inr (.inl inside))
      have inRight (u : Addr) (inside : u ∈ addrs r) : u ∈ addrs (.node l x b r) :=
        (member u).mpr (.inr (.inr inside))
      refine ⟨by simpa only [Carries, same _ root] using carries,
        slot _ _ _ root (fun u here => inLeft u (mem_addrs_of_ptr here)) left,
        slot _ _ _ root (fun u here => inRight u (mem_addrs_of_ptr here)) right,
        ihl holdsLeft (fun u inside => same u (inLeft u inside)) ?_,
        ihr holdsRight (fun u inside => same u (inRight u inside)) ?_⟩
      · intro a s c here child slotted
        exact slot a s c (inLeft a here) (fun u root => inLeft u (child u root)) slotted
      · intro a s c here child slotted
        exact slot a s c (inRight a here) (fun u root => inRight u (child u root)) slotted

theorem HoldsWay.congr {t t' : Amtree Addr} {above : List (Frame (Entry Addr))}
    (holds : HoldsWay t above) (sameRoot : t'.root = t.root)
    (same : ∀ a ∈ wayAddrs above, t'.node a = t.node a) : HoldsWay t' above := by
  induction above with
  | nil => trivial
  | cons f above ih =>
      obtain ⟨carries, beside, sibling, up, way⟩ := holds
      have root := same f.x.addr (by simp)
      have inSibling (u : Addr) (inside : u ∈ addrs f.sibling) : t'.node u = t.node u :=
        same u (by simp [inside])
      have inAbove (u : Addr) (inside : u ∈ wayAddrs above) : t'.node u = t.node u :=
        same u (by simp [inside])
      refine ⟨by simpa only [Carries, root] using carries,
        ⟨by simpa only [Amtree.load, root] using beside.1, fun u here => ?_⟩,
        sibling.congr inSibling, ⟨?_, fun u here => ?_⟩, ih way inAbove⟩
      · rw [inSibling u (mem_addrs_of_ptr here)]
        exact beside.2 u here
      · cases above with
        | nil => exact sameRoot.trans up.1
        | cons g above => simpa only [endSlot, Amtree.load, inAbove g.x.addr (by simp)] using up.1
      · cases here
        rw [root]
        exact up.2 _ rfl

end Frames

variable [DecidableEq Addr] {t : Amtree Addr} {above : List (Frame (Entry Addr))}

theorem store_self {t : Amtree Addr} {slot : Slot Addr} {c : Option Addr}
    (same : t.load slot = c) : t.store slot c = t := by
  subst same
  cases slot with
  | root => rfl
  | child p s =>
      have same : (t.node p).setChild s ((t.node p).child s) = t.node p := by cases s <;> rfl
      simp only [Amtree.store, Amtree.load, Amtree.modify, same, Function.update_eq_self]

theorem setParent_self {t : Amtree Addr} {c p : Option Addr}
    (same : ∀ a, c = some a → (t.node a).parent = p) : t.setParent c p = t := by
  cases c with
  | none => rfl
  | some a =>
      simp only [Amtree.setParent, Amtree.modify, ← same a rfl, Function.update_eq_self]

theorem link_self {t : Amtree Addr} {slot : Slot Addr} {c : Option Addr}
    (slotted : Slotted t slot c) : t.link slot c = t := by
  rw [Amtree.link, store_self slotted.1, setParent_self slotted.2]

theorem Pieces.assemble {l r : SearchTree (Entry Addr)} {y : Entry Addr} {b : ℤ}
    (pieces : Pieces t above [l, r] [y.addr]) (carries : Carries t y b) :
    Focus (((t.link (endSlot above) (some y.addr)).link (.child y.addr .left) (ptr l)).link
      (.child y.addr .right) (ptr r)) above (.node l y b r) := by
  obtain ⟨away, yWay⟩ := pieces.loose_away (a := y.addr) (by simp)
  have yl := away l (by simp)
  have yr := away r (by simp)
  have lr : (addrs r).Disjoint (addrs l) := by
    have distinct := pieces.distinct.of_append_left.of_append_right
    simp only [List.flatMap_cons, List.flatMap_nil, List.append_nil] at distinct
    exact fun a right left => List.disjoint_of_nodup_append distinct left right
  have pieces₁ : Pieces (t.link (endSlot above) (some y.addr)) above [l, r] [y.addr] :=
    pieces.link (.inl rfl) (by simp)
  have pieces₂ := pieces₁.link (c := ptr l) (.inr ⟨y.addr, by simp, .left, rfl⟩)
    fun _ root => .inr ⟨l, by simp, root⟩
  have pieces₃ := pieces₂.link (c := ptr r) (.inr ⟨y.addr, by simp, .right, rfl⟩)
    fun _ root => .inr ⟨r, by simp, root⟩
  have top := ((Slotted.link_same t (endSlot above) (some y.addr)).link (c := ptr l)
    (child_ne_endSlot yWay .left).symm (some_ne_of_not_mem yl)).link (c := ptr r)
    (child_ne_endSlot yWay .right).symm (some_ne_of_not_mem yr)
  have left := (Slotted.link_same (t.link (endSlot above) (some y.addr)) (.child y.addr .left)
    (ptr l)).link (child_other_ne y.addr .right) (ptr_ne_of_disjoint lr)
  refine ⟨pieces₃.way, top, ⟨by simpa using carries, left, .link_same .., pieces₃.holds l (by simp),
    pieces₃.holds r (by simp)⟩, (focus_perm ?_).mpr pieces₃.distinct⟩
  simpa [below] using addrs_node l y b r

end Libam.AvlTree
