import Mathlib.Data.List.Nodup
import Mathlib.Data.List.Pairwise
import Mathlib.Algebra.Ring.Int.Defs
import Mathlib.Tactic.Tauto

/-! Binary trees whose nodes carry a balance, the way up from a subtree to the root, and AVL
balance along that way. Every notion takes a side, so that a mirrored case is not a second one. -/

namespace Libam.Trees

variable {α : Type*}

inductive Side
  | left
  | right
  deriving DecidableEq, Repr

namespace Side

def other : Side → Side
  | left => right
  | right => left

def sign : Side → ℤ
  | left => -1
  | right => 1

@[simp] theorem other_ne (s : Side) : s.other ≠ s := by cases s <;> decide

end Side

inductive SearchTree (α : Type*)
  | leaf
  | node (left : SearchTree α) (x : α) (balance : ℤ) (right : SearchTree α)

namespace SearchTree

def join (s : Side) (t : SearchTree α) (x : α) (balance : ℤ) (u : SearchTree α) : SearchTree α :=
  match s with
  | .left => .node t x balance u
  | .right => .node u x balance t

def height : SearchTree α → ℕ
  | leaf => 0
  | node l _ _ r => max l.height r.height + 1

def toList : SearchTree α → List α
  | leaf => []
  | node l x _ r => l.toList ++ x :: r.toList

def Avl : SearchTree α → Prop
  | leaf => True
  | node l _ b r => l.Avl ∧ r.Avl ∧ b = r.height - l.height ∧ -1 ≤ b ∧ b ≤ 1

def rootBalance : SearchTree α → ℤ
  | leaf => 0
  | node _ _ b _ => b

theorem node_eq_join (s : Side) (l : SearchTree α) (x : α) (b : ℤ) (r : SearchTree α) :
    ∃ t u, node l x b r = join s t x b u := by
  cases s
  · exact ⟨l, r, rfl⟩
  · exact ⟨r, l, rfl⟩

theorem height_join (s : Side) (t : SearchTree α) (x : α) (b : ℤ) (u : SearchTree α) :
    (join s t x b u).height = max t.height u.height + 1 := by
  cases s
  · rfl
  · simp [join, height, max_comm]

@[simp] theorem rootBalance_join (s : Side) (t : SearchTree α) (x : α) (b : ℤ) (u : SearchTree α) :
    (join s t x b u).rootBalance = b := by
  cases s <;> rfl

theorem avl_join (s : Side) (t : SearchTree α) (x : α) (b : ℤ) (u : SearchTree α) :
    (join s t x b u).Avl ↔ t.Avl ∧ u.Avl ∧ b = s.sign * (t.height - u.height) ∧ -1 ≤ b ∧ b ≤ 1 := by
  cases s
  · simp [join, Avl, Side.sign]
  · simp only [join, Avl, Side.sign, one_mul]
    exact and_left_comm

theorem height_le_length (t : SearchTree α) : t.height ≤ t.toList.length := by
  induction t with
  | leaf => rfl
  | node l x b r ihl ihr =>
      simp only [height, toList, List.length_append, List.length_cons]
      omega

theorem toList_join (s : Side) (t : SearchTree α) (x : α) (b : ℤ) (u : SearchTree α) :
    (join s t x b u).toList.Perm (x :: (t.toList ++ u.toList)) := by
  cases s
  · exact List.perm_middle
  · exact List.perm_middle.trans (List.perm_append_comm.cons x)

theorem toList_rotate (s : Side) (t u v : SearchTree α) (x y : α) (b c b' c' : ℤ) :
    (join s t y c' (join s u x b' v)).toList = (join s (join s t y c u) x b v).toList := by
  cases s <;> simp [join, toList]

theorem toList_rotate_twice (s : Side) (t u v w : SearchTree α) (x y z : α) (b c d b' c' d' : ℤ) :
    (join s (join s t x b' u) z d' (join s v y c' w)).toList =
      (join s (join s t x b (join s u z d v)) y c w).toList := by
  cases s <;> simp [join, toList]

theorem avl_rotate (s : Side) {t u v : SearchTree α} {x y : α} {b c : ℤ}
    (avl : (join s t y c u).Avl) (avlV : v.Avl) (deep : (join s t y c u).height = v.height + 2)
    (outer : c ≠ -s.sign) :
    (join s t y (if c = 0 then -s.sign else 0) (join s u x (if c = 0 then s.sign else 0) v)).Avl ∧
      (join s t y b (join s u x b v)).height = v.height + (if c = 0 then 3 else 2) := by
  simp only [avl_join, height_join] at *
  obtain ⟨avlT, avlU, balance, low, high⟩ := avl
  cases s <;> simp only [Side.sign] at * <;> split_ifs <;>
    refine ⟨⟨avlT, ⟨avlU, avlV, ?_, ?_, ?_⟩, ?_, ?_, ?_⟩, ?_⟩ <;> omega

theorem avl_rotate_twice (s : Side) {t p q v : SearchTree α} {x y z : α} {b c d : ℤ}
    (avl : (join s t y c (join s p z d q)).Avl) (avlV : v.Avl)
    (deep : (join s t y c (join s p z d q)).height = v.height + 2) (inner : c = -s.sign) :
    (join s (join s t y (if s.sign * d > 0 then 0 else if d = 0 then 0 else s.sign) p) z 0
        (join s q x (if s.sign * d > 0 then -s.sign else 0) v)).Avl ∧
      (join s (join s t y b p) z b (join s q x b v)).height = v.height + 2 := by
  simp only [avl_join, height_join] at *
  obtain ⟨avlT, ⟨avlP, avlQ, balanceZ, lowZ, highZ⟩, balance, low, high⟩ := avl
  cases s <;> simp only [Side.sign] at * <;> split_ifs <;>
    refine ⟨⟨⟨avlT, avlP, ?_, ?_, ?_⟩, ⟨avlQ, avlV, ?_, ?_, ?_⟩, ?_, ?_, ?_⟩, ?_⟩ <;> omega

end SearchTree

structure Frame (α : Type*) where
  side : Side
  x : α
  balance : ℤ
  sibling : SearchTree α

def Frame.fill (f : Frame α) (t : SearchTree α) : SearchTree α :=
  SearchTree.join f.side t f.x f.balance f.sibling

def plug : List (Frame α) → SearchTree α → SearchTree α
  | [], t => t
  | f :: above, t => plug above (f.fill t)

def before : List (Frame α) → List α
  | [] => []
  | ⟨.left, _, _, _⟩ :: above => before above
  | ⟨.right, x, _, sibling⟩ :: above => before above ++ sibling.toList ++ [x]

def after : List (Frame α) → List α
  | [] => []
  | ⟨.left, x, _, sibling⟩ :: above => x :: sibling.toList ++ after above
  | ⟨.right, _, _, _⟩ :: above => after above

theorem toList_plug (above : List (Frame α)) (t : SearchTree α) :
    (plug above t).toList = before above ++ t.toList ++ after above := by
  induction above generalizing t with
  | nil => simp [plug, before, after]
  | cons f above ih =>
      obtain ⟨side, x, b, sibling⟩ := f
      rw [plug, ih]
      cases side <;> simp [Frame.fill, SearchTree.join, SearchTree.toList, before, after]

theorem plug_append (inner outer : List (Frame α)) (t : SearchTree α) :
    plug (inner ++ outer) t = plug outer (plug inner t) := by
  induction inner generalizing t with
  | nil => rfl
  | cons f inner ih => exact ih _

def around : List (Frame α) → List α
  | [] => []
  | f :: above => f.x :: (f.sibling.toList ++ around above)

theorem around_append (inner outer : List (Frame α)) :
    around (inner ++ outer) = around inner ++ around outer := by
  induction inner with
  | nil => rfl
  | cons f inner ih => simp [around, ih]

theorem plug_perm (above : List (Frame α)) (t : SearchTree α) :
    (plug above t).toList.Perm (t.toList ++ around above) := by
  induction above generalizing t with
  | nil => simp [plug, around]
  | cons f above ih =>
      have inner := SearchTree.toList_join f.side t f.x f.balance f.sibling
      calc (plug (f :: above) t).toList
        _ |>.Perm ((f.fill t).toList ++ around above) := ih _
        _ |>.Perm (f.x :: (t.toList ++ f.sibling.toList) ++ around above) := inner.append_right _
        _ |>.Perm (t.toList ++ around (f :: above)) := by
            have moved : (t.toList ++ f.x :: (f.sibling.toList ++ around above)).Perm
                (f.x :: (t.toList ++ (f.sibling.toList ++ around above))) := List.perm_middle
            simpa [around] using moved.symm

def Balanced : List (Frame α) → ℕ → Prop
  | [], _ => True
  | f :: above, h =>
      f.sibling.Avl ∧ f.balance = f.side.sign * (h - f.sibling.height) ∧
        -1 ≤ f.balance ∧ f.balance ≤ 1 ∧ Balanced above (max h f.sibling.height + 1)

theorem avl_plug (above : List (Frame α)) (t : SearchTree α) :
    (plug above t).Avl ↔ t.Avl ∧ Balanced above t.height := by
  induction above generalizing t with
  | nil => simp [plug, Balanced]
  | cons f above ih =>
      rw [plug, ih, Frame.fill, SearchTree.avl_join, SearchTree.height_join, Balanced]
      tauto

theorem balanced_replace (inner above : List (Frame α)) (s : Side) (x y : α) (b : ℤ)
    (t : SearchTree α) (h : ℕ) : Balanced (inner ++ ⟨s, x, b, t⟩ :: above) h ↔
      Balanced (inner ++ ⟨s, y, b, t⟩ :: above) h := by
  induction inner generalizing h with
  | nil => rfl
  | cons f inner ih => simp only [List.cons_append, Balanced, ih]

theorem before_lefts {above : List (Frame α)} (lefts : ∀ f ∈ above, f.side = .left) :
    before above = [] := by
  induction above with
  | nil => rfl
  | cons f above ih =>
      obtain ⟨side, x, b, t⟩ := f
      cases lefts _ (List.mem_cons_self ..)
      exact ih fun g inside => lefts g (List.mem_cons_of_mem _ inside)

theorem length_le_around (above : List (Frame α)) : above.length ≤ (around above).length := by
  induction above with
  | nil => rfl
  | cons f above ih =>
      simp only [around, List.length_cons, List.length_append]
      omega

theorem exists_plug {t : SearchTree α} {x : α} (member : x ∈ t.toList) :
    ∃ above l b r, t = plug above (.node l x b r) := by
  suffices general : ∀ above, ∃ inner l b r, plug above t = plug inner (.node l x b r) from
    general []
  induction t with
  | leaf => cases member
  | node l y b r ihl ihr =>
      intro above
      simp only [SearchTree.toList, List.mem_append, List.mem_cons] at member
      rcases member with inLeft | rfl | inRight
      · exact ihl inLeft (⟨.left, y, b, r⟩ :: above)
      · exact ⟨above, l, b, r, rfl⟩
      · exact ihr inRight (⟨.right, y, b, l⟩ :: above)

end Libam.Trees
