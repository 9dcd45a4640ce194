import Libam.ITree.Model
import Libam.AvlTree.Runs

/-! The ordered list of an intrusive tree holds its nodes in key order, and visits them so. -/

namespace Libam.ITree

open Libam.Trees Libam.AvlTree Libam.Lists Libam.Interleaving

variable {Addr : Type}

def linksOf (nodes : List Addr) : List (LinkAddr Addr) := nodes.map .node

structure Threaded (t : Amitree Addr) (T : SearchTree (Entry Addr)) : Prop where
  sound : Sound t.tree T
  ring : Ring t.links .anchor (linksOf (addrs T))

theorem mem_linksOf {nodes : List Addr} {a : Addr} :
    LinkAddr.node a ∈ LinkAddr.anchor :: linksOf nodes ↔ a ∈ nodes := by
  simp [linksOf]

theorem linksOf_split {T : SearchTree (Entry Addr)} {l r : List (Entry Addr)}
    (contents : T.toList = l ++ r) :
    linksOf (addrs T) = linksOf (l.map Entry.addr) ++ linksOf (r.map Entry.addr) := by
  simp [linksOf, addrs, contents]

variable [DecidableEq Addr] {t : Amitree Addr} {T : SearchTree (Entry Addr)} {fuel : ℕ}

theorem amitreeInsert_spec {n : Addr} (threaded : Threaded t T) (outside : n ∉ addrs T)
    (enough : T.toList.length < fuel) :
    (∃ a, ⟨(t.tree.node n).key, a⟩ ∈ T.toList ∧ amitreeInsert fuel t n = .ok (t, some a)) ∨
    (∃ t' T', amitreeInsert fuel t n = .ok (t', none) ∧ Threaded t' T' ∧
      T'.toList.length = T.toList.length + 1) := by
  obtain ⟨sound, ring⟩ := threaded
  rcases amtreeInsert_spec sound outside enough with
    ⟨a, inside, _, root, begin, run⟩ | ⟨tree', T', l, r, run, sound', contents,
      contents', _, placed⟩
  · refine .inl ⟨a, inside, ?_⟩
    simp only [amitreeInsert, begin, run, bind, Except.bind]
    rfl
  right
  rw [linksOf_split contents] at ring
  have fresh : LinkAddr.node n ∉ LinkAddr.anchor ::
      (linksOf (l.map Entry.addr) ++ linksOf (r.map Entry.addr)) := by
    rw [← linksOf_split contents, mem_linksOf]
    exact outside
  obtain ⟨next, prev⟩ := ring.neighbours
  obtain ⟨links', added, ring'⟩ := ring_insert ring fresh
  refine ⟨⟨tree', links'⟩, T', ?_, ⟨sound', ?_⟩, by rw [contents', contents]; simp; omega⟩
  · rcases placed with ⟨empty, rfl, rfl⟩ | ⟨root, e, begin, last, side⟩
    · simp only [linksOf, List.map_nil, lastOf_nil, List.reverse_nil] at added next
      simp only [amtreeInsert, empty] at run
      cases run
      simp only [amitreeInsert, empty, amlistAdd, next, added, follow, bind, Except.bind]
      rfl
    · obtain ⟨t₁, def₁⟩ : ∃ t₁, t₁ =
        t.tree.modify n fun nd => { nd with left := none, right := none, balance := 0 } := ⟨_, rfl⟩
      have keys (a : Addr) : (t₁.node a).key = (t.tree.node a).key := by
        simp only [def₁, Amtree.modify, Function.update_apply]
        split <;> simp_all
      simp only [amtreeInsert, begin, last, bind, Except.bind, ← def₁, keys] at run
      simp only [amitreeInsert, begin, last, bind, Except.bind, ← def₁, keys]
      rcases side with ⟨less, r', rfl⟩ | ⟨greater, l', rfl⟩
      · -- The node before is that before the parent.
        simp only [linksOf, List.map_cons, lastOf_reverse_cons] at added prev
        have linked : amlistAddTail t.links (.node e.addr) (.node n) = some links' := by
          rw [amlistAddTail, prev]
          exact added
        rw [if_pos less] at run ⊢
        simp only [Bool.false_eq_true, if_false] at run
        simp only [linked, follow, amitreeBalanceAdd, Bool.false_eq_true, if_false]
        split at run
        · cases run
        · rename_i walked
          cases run
          rw [walked]
          rfl
      · -- The node after is that after the parent.
        have lastNode : lastOf LinkAddr.anchor (linksOf ((l' ++ [e]).map Entry.addr)) =
            .node e.addr := by
          simp [linksOf, lastOf]
        rw [lastNode] at added next
        have linked : amlistAdd t.links (.node e.addr) (.node n) = some links' := by
          rw [amlistAdd, next]
          exact added
        rw [if_neg greater] at run ⊢
        simp only [Bool.false_eq_true, if_false] at run
        simp only [linked, follow, amitreeBalanceAdd, Bool.false_eq_true, if_false]
        split at run
        · cases run
        · rename_i walked
          cases run
          rw [walked]
          rfl
  · rw [linksOf_split (l := l) contents']
    simpa [linksOf] using ring'

theorem amitreeDelete_spec {a : Addr} (threaded : Threaded t T) (inside : a ∈ addrs T)
    (enough : T.toList.length < fuel) :
    ∃ t' T', amitreeDelete fuel t a = .ok t' ∧ Threaded t' T' ∧
      T'.toList.length + 1 = T.toList.length := by
  obtain ⟨sound, ring⟩ := threaded
  obtain ⟨tree', T', l, x, r, run, sound', rfl, contents, contents'⟩ :=
    amtreeDelete_spec sound inside enough
  rw [linksOf_split contents] at ring
  simp only [List.map_cons, linksOf] at ring
  obtain ⟨links', deleted, ring'⟩ := ring_delete ring
  refine ⟨⟨tree', Function.update links' (.node x.addr) ⟨none, none⟩⟩, T', ?_, ⟨sound', ?_⟩,
    by rw [contents, contents']; simp; omega⟩
  · simp only [amitreeDelete, deleted, follow, run, bind, Except.bind]
    rfl
  · rw [linksOf_split contents']
    refine ring'.congr fun y member => Function.update_of_ne (fun same => ?_) ..
    have distinct := ring.distinct
    rw [(List.perm_middle.cons _).nodup_iff, (List.Perm.swap ..).nodup_iff] at distinct
    exact (List.nodup_cons.mp distinct).1 (same ▸ member)

theorem amitreeSwap_spec {a z : Addr} (threaded : Threaded t T) (inside : a ∈ addrs T)
    (outside : z ∉ addrs T) :
    ∃ t' T', amitreeSwap t a z = .ok t' ∧ Threaded t' T' ∧ T'.toList.length = T.toList.length := by
  obtain ⟨sound, ring⟩ := threaded
  obtain ⟨T', l, x, r, sound', rfl, contents, contents'⟩ := amtreeSwap_spec sound inside outside
  have fresh : LinkAddr.node z ∉ LinkAddr.anchor :: linksOf (addrs T) := by
    rwa [mem_linksOf]
  rw [linksOf_split contents] at ring fresh
  simp only [List.map_cons, linksOf] at ring fresh
  obtain ⟨next, prev⟩ := ring.pointers
  have replaced := ring_replace ring fresh
  generalize written : setNext (L := LinkAddr Addr) _ _ _ = links' at replaced
  have other : LinkAddr.node z ≠ LinkAddr.node x.addr := fun same => fresh (by simp [same])
  have apart : LinkAddr.node z ≠ lastOf LinkAddr.anchor
      (r.map Entry.addr |>.map LinkAddr.node).reverse := fun same => fresh <| by
    have member := lastOf_mem LinkAddr.anchor (r.map Entry.addr |>.map LinkAddr.node).reverse
    rw [← same, mem_reverse_cons] at member
    exact List.mem_cons.mpr ((List.mem_cons.mp member).imp_right fun later =>
      List.mem_append_right _ (List.mem_cons_of_mem _ later))
  refine ⟨⟨amtreeSwap t.tree x.addr z, links'⟩, T', ?_, ⟨sound', ?_⟩,
    by rw [contents, contents']; simp⟩
  · simp only [amitreeSwap, Function.update_self, Function.update_of_ne other, next, follow, bind,
      Except.bind, prev_setPrev, if_neg apart, prev, written]
    rfl
  · rw [linksOf_split contents']
    simpa only [linksOf, List.map_cons] using replaced

section Iteration

def Visits (next : Addr → Except Fault (Option Addr)) : Option Addr → List Addr → Prop
  | start, [] => start = none
  | start, a :: rest => start = some a ∧ ∃ after, next a = .ok after ∧ Visits next after rest

omit [DecidableEq Addr] in
theorem lastOf_linksOf_reverse (nodes : List Addr) :
    lastOf LinkAddr.anchor (linksOf nodes).reverse =
      (nodes.head?.map LinkAddr.node).getD LinkAddr.anchor := by
  cases nodes with
  | nil => rfl
  | cons a rest => simp only [linksOf, List.map_cons, lastOf_reverse_cons]; rfl

theorem visits_larger {l r : List Addr} (ring : Ring t.links .anchor (linksOf (l ++ r))) :
    Visits (amitreeLarger t) r.head? r := by
  induction r generalizing l with
  | nil => rfl
  | cons a rest ih =>
      refine ⟨rfl, rest.head?, ?_, ih (l := l ++ [a]) (by simpa using ring)⟩
      have split : linksOf (l ++ a :: rest) = linksOf l ++ .node a :: linksOf rest := by
        simp [linksOf]
      have next := (split ▸ ring).pointers.1
      rw [lastOf_linksOf_reverse] at next
      rw [amitreeLarger, next]
      cases rest <;> rfl

theorem visits_smaller {l r : List Addr} (ring : Ring t.links .anchor (linksOf (l.reverse ++ r))) :
    Visits (amitreeSmaller t) l.head? l := by
  induction l generalizing r with
  | nil => rfl
  | cons a rest ih =>
      refine ⟨rfl, rest.head?, ?_, ih (r := a :: r) (by simpa using ring)⟩
      have split : linksOf ((a :: rest).reverse ++ r) =
          (linksOf rest).reverse ++ .node a :: linksOf r := by simp [linksOf]
      have prev := (split ▸ ring).pointers.2
      rw [lastOf_linksOf_reverse] at prev
      rw [amitreeSmaller, prev]
      cases rest <;> rfl

omit [DecidableEq Addr] in
theorem isEmpty_spec (sound : Sound t.tree T) (small : T.toList.length < 2 ^ 32) :
    amitreeIsEmpty t = (addrs T).isEmpty := by
  have size := sound.size small
  rw [amitreeIsEmpty, Bool.eq_iff_iff, beq_iff_eq, List.isEmpty_iff, addrs, List.map_eq_nil_iff,
    ← List.length_eq_zero_iff, ← size]
  exact ⟨fun zero => by rw [zero]; rfl, fun zero => UInt32.toNat_inj.mp zero⟩

omit [DecidableEq Addr] in
theorem amitreeSmallest_spec (threaded : Threaded t T) (small : T.toList.length < 2 ^ 32) :
    amitreeSmallest t = .ok (addrs T).head? := by
  obtain ⟨sound, ring⟩ := threaded
  have next : (t.links .anchor).next = some (lastOf LinkAddr.anchor (linksOf (addrs T)).reverse) :=
    (Ring.neighbours (l := []) ring).1
  rw [lastOf_linksOf_reverse] at next
  rw [amitreeSmallest, isEmpty_spec sound small, next]
  cases addrs T <;> rfl

omit [DecidableEq Addr] in
theorem amitreeLargest_spec (threaded : Threaded t T) (small : T.toList.length < 2 ^ 32) :
    amitreeLargest t = .ok (addrs T).reverse.head? := by
  obtain ⟨sound, ring⟩ := threaded
  have split : linksOf (addrs T) = (linksOf (addrs T).reverse).reverse ++ [] := by simp [linksOf]
  have prev := (split ▸ ring).neighbours.2
  rw [List.reverse_nil, lastOf_nil, lastOf_linksOf_reverse] at prev
  rw [amitreeLargest, isEmpty_spec sound small, prev]
  cases nodes : (addrs T).reverse with
  | nil => simp [List.reverse_eq_nil_iff.mp nodes]
  | cons a rest =>
      have nonempty : addrs T ≠ [] := fun empty => by simp [empty] at nodes
      simp [nonempty, containerOf]

end Iteration

end Libam.ITree
