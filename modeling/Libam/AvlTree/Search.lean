import Libam.AvlTree.Operations

/-! Where the loops of search and insertion lead in a tree in key order. -/

namespace Libam.AvlTree

open Libam.Trees

variable {Addr : Type}

def InOrder (entries : List (Entry Addr)) : Prop :=
  entries.Pairwise fun e e' => e.key < e'.key

def lookup (k : UInt64) (entries : List (Entry Addr)) : Option Addr :=
  (entries.find? fun e => e.key == k).map Entry.addr

theorem lookup_absent {k : UInt64} {entries : List (Entry Addr)}
    (absent : ∀ e ∈ entries, e.key ≠ k) : lookup k entries = none := by
  simpa [lookup] using absent

theorem lookup_append {k : UInt64} (first second : List (Entry Addr)) :
    lookup k (first ++ second) = (lookup k first).or (lookup k second) := by
  simp [lookup, List.find?_append, Option.map_or]

theorem lookup_cons {k : UInt64} (e : Entry Addr) (rest : List (Entry Addr)) :
    lookup k (e :: rest) = if e.key = k then some e.addr else lookup k rest := by
  by_cases same : e.key = k <;> simp [lookup, same]

theorem lookup_eq_some {entries : List (Entry Addr)} (ordered : InOrder entries) (k : UInt64)
    (a : Addr) : lookup k entries = some a ↔ ⟨k, a⟩ ∈ entries := by
  induction entries with
  | nil => simp [lookup]
  | cons e rest ih =>
      obtain ⟨least, ordered⟩ := List.pairwise_cons.mp ordered
      rw [lookup_cons, List.mem_cons]
      by_cases same : e.key = k
      · subst same
        rw [if_pos rfl]
        have elsewhere : (⟨e.key, a⟩ : Entry Addr) ∉ rest := fun inside => by
          have later := least _ inside
          exact UInt64.lt_irrefl _ later
        obtain ⟨key, addr⟩ := e
        simp [elsewhere, eq_comm]
      · rw [if_neg same, ih ordered]
        have other : (⟨k, a⟩ : Entry Addr) ≠ e := fun here => same (here ▸ rfl)
        simp [other]

theorem inOrder_node {l r : SearchTree (Entry Addr)} {x : Entry Addr} {b : ℤ} :
    InOrder (SearchTree.node l x b r).toList ↔ InOrder l.toList ∧ InOrder r.toList ∧
      (∀ e ∈ l.toList, e.key < x.key) ∧ (∀ e ∈ r.toList, x.key < e.key) ∧
        ∀ e ∈ l.toList, ∀ e' ∈ r.toList, e.key < e'.key := by
  simp only [InOrder, SearchTree.toList, List.pairwise_append, List.pairwise_cons, List.mem_cons,
    forall_eq_or_imp]
  constructor
  · rintro ⟨left, ⟨least, right⟩, cross⟩
    exact ⟨left, right, fun e inside => (cross e inside).1, least, fun e inside =>
      (cross e inside).2⟩
  · rintro ⟨left, right, below, least, cross⟩
    exact ⟨left, ⟨least, right⟩, fun e inside => ⟨below e inside, cross e inside⟩⟩

theorem addrs_nodup_node {l r : SearchTree (Entry Addr)} {x : Entry Addr} {b : ℤ}
    (distinct : (addrs (.node l x b r)).Nodup) :
    x.addr ∉ addrs l ∧ x.addr ∉ addrs r ∧ (addrs l).Nodup ∧ (addrs r).Nodup := by
  rw [(addrs_node l x b r).nodup_iff, List.nodup_cons] at distinct
  simp only [below, List.mem_append, not_or] at distinct
  exact ⟨distinct.1.1, distinct.1.2, distinct.2.of_append_left, distinct.2.of_append_right⟩

variable [DecidableEq Addr] {t : Amtree Addr}

omit [DecidableEq Addr] in
theorem amtreeCmp_spec {l r : SearchTree (Entry Addr)} {x : Entry Addr} {b : ℤ}
    (targ : AmtreeNode Addr) (holds : Holds t (.node l x b r))
    (distinct : (addrs (.node l x b r)).Nodup) :
    (x.key < targ.key ∧ amtreeCmp t targ x.addr = ptr r ∧ ptr r ≠ some x.addr) ∨
    (targ.key < x.key ∧ amtreeCmp t targ x.addr = ptr l ∧ ptr l ≠ some x.addr) ∨
    (targ.key = x.key ∧ amtreeCmp t targ x.addr = some x.addr) := by
  obtain ⟨outL, outR, _, _⟩ := addrs_nodup_node distinct
  obtain ⟨carries, left, right, _, _⟩ := holds
  have key : (t.node x.addr).key = x.key := carries.1
  have leftPtr : (t.node x.addr).left = ptr l := left.1
  have rightPtr : (t.node x.addr).right = ptr r := right.1
  simp only [amtreeCmp, key, leftPtr, rightPtr]
  by_cases greater : x.key < targ.key
  · left
    exact ⟨greater, if_pos greater, fun root => outR (mem_addrs_of_ptr root)⟩
  right
  by_cases less : targ.key < x.key
  · left
    exact ⟨less, by rw [if_neg greater, if_pos less], fun root => outL (mem_addrs_of_ptr root)⟩
  · right
    refine ⟨?_, by rw [if_neg greater, if_neg less]⟩
    exact UInt64.le_antisymm (UInt64.not_lt.mp greater) (UInt64.not_lt.mp less)

theorem amtreeFindFrom_spec {fuel : ℕ} {T : SearchTree (Entry Addr)} (target : AmtreeNode Addr)
    (holds : Holds t T) (distinct : (addrs T).Nodup) (ordered : InOrder T.toList)
    (enough : T.height < fuel) :
    amtreeFindFrom t target fuel (ptr T) = .ok (lookup target.key T.toList) := by
  induction T generalizing fuel with
  | leaf =>
      obtain ⟨fuel, rfl⟩ := Nat.exists_eq_succ_of_ne_zero (Nat.ne_of_gt enough)
      rfl
  | node l x b r ihl ihr =>
      obtain ⟨fuel, rfl⟩ := Nat.exists_eq_succ_of_ne_zero (Nat.ne_of_gt (Nat.zero_lt_of_lt enough))
      obtain ⟨orderedL, orderedR, least, greatest, _⟩ := inOrder_node.mp ordered
      obtain ⟨_, _, distinctL, distinctR⟩ := addrs_nodup_node distinct
      simp only [SearchTree.height] at enough
      simp only [ptr, amtreeFindFrom, SearchTree.toList, lookup_append, lookup_cons]
      rcases amtreeCmp_spec target holds distinct with ⟨greater, next, other⟩ |
        ⟨less, next, other⟩ | ⟨same, next⟩
      · have left : lookup target.key l.toList = none := lookup_absent fun e inside here =>
          UInt64.lt_irrefl _ (UInt64.lt_trans (here ▸ least e inside) greater)
        rw [next, if_neg other, ihr holds.2.2.2.2 distinctR orderedR (by omega), left,
          if_neg fun here => UInt64.lt_irrefl _ (here ▸ greater)]
        rfl
      · have right : lookup target.key r.toList = none := lookup_absent fun e inside here =>
          UInt64.lt_irrefl _ (UInt64.lt_trans less (here ▸ greatest e inside))
        rw [next, if_neg other, ihl holds.2.2.2.1 distinctL orderedL (by omega), right,
          if_neg fun here => UInt64.lt_irrefl _ (here ▸ less), Option.or_none]
      · have left : lookup target.key l.toList = none := lookup_absent fun e inside here =>
          UInt64.lt_irrefl _ (same ▸ here ▸ least e inside)
        rw [next, if_pos rfl, left, if_pos same.symm]
        rfl

section Descent

/-- The loop of `amtree_insert` ends at the node with the key, or where the key belongs. -/
theorem descend_spec {fuel : ℕ} {above : List (Frame (Entry Addr))} {T : SearchTree (Entry Addr)}
    {n root : Addr} (focus : Focus t above T) (start : ptr T = some root)
    (ordered : InOrder T.toList) (beforeLt : ∀ e ∈ before above, e.key < (t.node n).key)
    (afterGt : ∀ e ∈ after above, (t.node n).key < e.key) (enough : T.height ≤ fuel) :
    (∃ e ∈ T.toList, e.key = (t.node n).key ∧ descend t n fuel root = .ok (e.addr, true)) ∨
    (∃ f above', descend t n fuel root = .ok (f.x.addr, false) ∧
      plug (f :: above') .leaf = plug above T ∧
      (∀ e ∈ before (f :: above'), e.key < (t.node n).key) ∧
      (∀ e ∈ after (f :: above'), (t.node n).key < e.key)) := by
  induction T generalizing fuel above root with
  | leaf => cases start
  | node l x b r ihl ihr =>
      cases start
      obtain ⟨fuel, rfl⟩ := Nat.exists_eq_succ_of_ne_zero
        (Nat.ne_of_gt (Nat.lt_of_lt_of_le (Nat.succ_pos _) enough))
      obtain ⟨orderedL, orderedR, least, greatest, _⟩ := inOrder_node.mp ordered
      have distinct := focus.distinct.of_append_left
      simp only [SearchTree.height] at enough
      rcases amtreeCmp_spec (t.node n) focus.holds distinct with ⟨greater, next, other⟩ |
        ⟨less, next, other⟩ | ⟨same, next⟩
      · have beforeRight : ∀ e ∈ before (⟨.right, x, b, l⟩ :: above), e.key < (t.node n).key := by
          intro e inside
          simp only [before, List.mem_append, List.mem_singleton] at inside
          rcases inside with (outer | inLeft) | rfl
          · exact beforeLt e outer
          · exact UInt64.lt_trans (least e inLeft) greater
          · exact greater
        cases leafR : ptr r with
        | none =>
            rw [leafR] at next other
            cases r with
            | node => cases leafR
            | leaf =>
                refine .inr ⟨⟨.right, x, b, l⟩, above, ?_, rfl, beforeRight, afterGt⟩
                simp only [descend, next, if_neg other]
        | some root' =>
            have inner := ihr ((focus_fill ⟨.right, x, b, l⟩).mpr focus) leafR orderedR beforeRight
              afterGt (show r.height ≤ fuel by omega)
            rw [leafR] at next other
            simp only [descend, next, if_neg other]
            rcases inner with ⟨e, inside, key, run⟩ | ⟨f, above', run, whole, low, high⟩
            · exact .inl ⟨e, by simp [SearchTree.toList, inside], key, run⟩
            · exact .inr ⟨f, above', run, whole, low, high⟩
      · have afterLeft : ∀ e ∈ after (⟨.left, x, b, r⟩ :: above), (t.node n).key < e.key := by
          intro e inside
          simp only [after, List.cons_append, List.mem_cons, List.mem_append] at inside
          rcases inside with rfl | inRight | outer
          · exact less
          · exact UInt64.lt_trans less (greatest e inRight)
          · exact afterGt e outer
        cases leafL : ptr l with
        | none =>
            rw [leafL] at next other
            cases l with
            | node => cases leafL
            | leaf =>
                refine .inr ⟨⟨.left, x, b, r⟩, above, ?_, rfl, beforeLt, afterLeft⟩
                simp only [descend, next, if_neg other]
        | some root' =>
            have inner := ihl ((focus_fill ⟨.left, x, b, r⟩).mpr focus) leafL orderedL beforeLt
              afterLeft (show l.height ≤ fuel by omega)
            rw [leafL] at next other
            simp only [descend, next, if_neg other]
            rcases inner with ⟨e, inside, key, run⟩ | ⟨f, above', run, whole, low, high⟩
            · exact .inl ⟨e, by simp [SearchTree.toList, inside], key, run⟩
            · exact .inr ⟨f, above', run, whole, low, high⟩
      · refine .inl ⟨x, by simp [SearchTree.toList], same.symm, ?_⟩
        simp only [descend, next, if_true]

omit [DecidableEq Addr] in
theorem leftmost_spec {fuel : ℕ} {T : SearchTree (Entry Addr)} {root : Addr} (holds : Holds t T)
    (start : ptr T = some root) (enough : T.height ≤ fuel) :
    ∃ inner y b r, T = plug inner (.node .leaf y b r) ∧ (∀ f ∈ inner, f.side = .left) ∧
      leftmost t fuel root = .ok y.addr := by
  suffices general : ∀ above : List (Frame (Entry Addr)), (∀ f ∈ above, f.side = .left) →
      ∃ inner y b r, plug above T = plug inner (.node .leaf y b r) ∧
        (∀ f ∈ inner, f.side = .left) ∧ leftmost t fuel root = .ok y.addr from
    general [] (by simp)
  induction T generalizing fuel root with
  | leaf => cases start
  | node l x b r ihl =>
      intro above lefts
      cases start
      obtain ⟨fuel, rfl⟩ := Nat.exists_eq_succ_of_ne_zero
        (Nat.ne_of_gt (Nat.lt_of_lt_of_le (Nat.succ_pos _) enough))
      obtain ⟨_, left, _, holdsL, _⟩ := holds
      have child : (t.node x.addr).left = ptr l := left.1
      simp only [SearchTree.height] at enough
      cases leafL : ptr l with
      | none =>
          cases l with
          | node => cases leafL
          | leaf => exact ⟨above, x, b, r, rfl, lefts, by simp only [leftmost, child, leafL]⟩
      | some next =>
          have inner := ihl holdsL leafL (show l.height ≤ fuel by omega)
            (⟨.left, x, b, r⟩ :: above) (by simpa using lefts)
          simp only [leftmost, child, leafL]
          exact inner

end Descent

end Libam.AvlTree
