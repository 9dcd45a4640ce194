import Libam.Lists.Path
import Mathlib.Tactic.Tauto

/-! The circular doubly linked lists of `libam_list.h`. -/

namespace Libam.Lists

variable {L : Type}

/-- `struct amlist_head`. A NULL pointer is `none`. -/
structure AmlistHead (L : Type) where
  next : Option L
  prev : Option L
  deriving DecidableEq, Repr

abbrev Links (L : Type) := L → AmlistHead L

section Model

variable [DecidableEq L]

def setNext (m : Links L) (x : L) (next : Option L) : Links L :=
  Function.update m x { m x with next := next }

def setPrev (m : Links L) (x : L) (prev : Option L) : Links L :=
  Function.update m x { m x with prev := prev }

def amlistInit (m : Links L) (list : L) : Links L :=
  setPrev (setNext m list (some list)) list (some list)

/-- `__amlist_add`; none if it follows a NULL pointer. -/
def amlistAddBetween (m : Links L) (entry : L) (prev next : Option L) : Option (Links L) := do
  let next ← next
  let prev ← prev
  let m := setPrev m next (some entry)
  let m := setNext m entry (some next)
  let m := setPrev m entry (some prev)
  return setNext m prev (some entry)

def amlistAdd (m : Links L) (head entry : L) : Option (Links L) :=
  amlistAddBetween m entry (some head) (m head).next

def amlistAddTail (m : Links L) (head entry : L) : Option (Links L) :=
  amlistAddBetween m entry (m head).prev (some head)

/-- `__amlist_del`. -/
def amlistDelBetween (m : Links L) (prev next : Option L) : Option (Links L) := do
  let next' ← next
  let prev' ← prev
  return setNext (setPrev m next' prev) prev' next

def amlistDel (m : Links L) (entry : L) : Option (Links L) :=
  amlistDelBetween m (m entry).prev (m entry).next

end Model

structure Ring (m : Links L) (anchor : L) (nodes : List L) : Prop where
  forward : Path (fun x => (m x).next) anchor nodes anchor
  backward : Path (fun x => (m x).prev) anchor nodes.reverse anchor
  distinct : (anchor :: nodes).Nodup

section Facts

variable {m : Links L} {anchor e : L} {l r nodes : List L}

theorem reverse_split (l r : List L) : (l ++ r).reverse = r.reverse ++ l.reverse := by simp

theorem nodup_reverse (distinct : (anchor :: nodes).Nodup) : (anchor :: nodes.reverse).Nodup := by
  simpa using distinct

theorem Ring.neighbours (ring : Ring m anchor (l ++ r)) :
    (m (lastOf anchor l)).next = some (lastOf anchor r.reverse) ∧
      (m (lastOf anchor r.reverse)).prev = some (lastOf anchor l) := by
  have forward := path_last ring.forward
  have backward := path_last (reverse_split l r ▸ ring.backward)
  rw [List.head?_reverse] at backward
  refine ⟨forward.trans ?_, backward⟩
  cases r <;> simp [lastOf]

theorem Ring.inverse (ring : Ring m anchor nodes) {x y : L} (first : x ∈ anchor :: nodes)
    (second : y ∈ anchor :: nodes) : (m x).next = some y ↔ (m y).prev = some x := by
  have back : Path (fun x => (m x).next) anchor nodes.reverse.reverse anchor := by
    simpa using ring.forward
  constructor
  · intro next
    obtain ⟨z, next', prev⟩ := path_inverse ring.forward ring.backward x first
    cases next.symm.trans next'
    exact prev
  · intro prev
    obtain ⟨z, prev', next⟩ := path_inverse ring.backward back y (by simpa using second)
    cases prev.symm.trans prev'
    exact next

theorem Ring.unique {others : List L} (ring : Ring m anchor nodes) (other : Ring m anchor others) :
    nodes = others :=
  path_unique ring.forward other.forward (List.nodup_cons.mp ring.distinct).1
    (List.nodup_cons.mp other.distinct).1

variable [DecidableEq L]

theorem ring_init (m : Links L) (anchor : L) : Ring (amlistInit m anchor) anchor [] :=
  ⟨by simp [Path, amlistInit, setNext, setPrev], by simp [Path, amlistInit, setPrev], by simp⟩

@[simp] theorem next_setPrev (m : Links L) (x y : L) (p : Option L) :
    (setPrev m x p y).next = (m y).next := by
  simp only [setPrev, Function.update_apply]
  split <;> simp_all

@[simp] theorem prev_setNext (m : Links L) (x y : L) (n : Option L) :
    (setNext m x n y).prev = (m y).prev := by
  simp only [setNext, Function.update_apply]
  split <;> simp_all

theorem next_setNext (m : Links L) (x y : L) (n : Option L) :
    (setNext m x n y).next = if y = x then n else (m y).next := by
  simp only [setNext, Function.update_apply]
  split <;> simp_all

theorem prev_setPrev (m : Links L) (x y : L) (p : Option L) :
    (setPrev m x p y).prev = if y = x then p else (m y).prev := by
  simp only [setPrev, Function.update_apply]
  split <;> simp_all

omit [DecidableEq L] in
theorem mem_reverse_cons {x : L} : x ∈ anchor :: nodes.reverse ↔ x ∈ anchor :: nodes := by simp

theorem ring_insert (ring : Ring m anchor (l ++ r)) (outside : e ∉ anchor :: (l ++ r)) :
    ∃ m', amlistAddBetween m e (some (lastOf anchor l)) (some (lastOf anchor r.reverse)) = some m' ∧
      Ring m' anchor (l ++ e :: r) := by
  obtain ⟨next, prev⟩ := ring.neighbours
  have before : e ≠ lastOf anchor l := fun same => outside <| by
    have inside := lastOf_mem anchor l
    rw [← same] at inside
    exact List.mem_cons.mpr ((List.mem_cons.mp inside).imp_right (List.mem_append_left _))
  have after : e ≠ lastOf anchor r.reverse := fun same => outside <| by
    have inside := lastOf_mem anchor r.reverse
    rw [← same, mem_reverse_cons] at inside
    exact List.mem_cons.mpr ((List.mem_cons.mp inside).imp_right (List.mem_append_right _))
  refine ⟨_, rfl, ?_, ?_, ?_⟩
  · refine path_insert ring.forward ring.distinct outside ?_ ?_ fun x other last => ?_
    · simp [next_setNext, before, next]
    · simp [next_setNext]
    · simp [next_setNext, other, last]
  · have backward := reverse_split l r ▸ ring.backward
    rw [reverse_split, List.reverse_cons, List.append_assoc, List.singleton_append]
    refine path_insert backward (reverse_split l r ▸ nodup_reverse ring.distinct)
      (by simpa [and_comm, or_comm] using outside) ?_ ?_ fun x other last => ?_
    · simp [prev_setPrev, prev]
    · simp [prev_setPrev, Ne.symm after]
    · simp [prev_setPrev, other, last]
  · rw [(List.perm_middle.cons anchor).nodup_iff, (List.Perm.swap ..).nodup_iff]
    exact List.nodup_cons.mpr ⟨outside, ring.distinct⟩

omit [DecidableEq L] in
theorem Ring.pointers (ring : Ring m anchor (l ++ e :: r)) :
    (m e).next = some (lastOf anchor r.reverse) ∧ (m e).prev = some (lastOf anchor l) := by
  have split : l ++ e :: r = (l ++ [e]) ++ r := by simp
  have after := (split ▸ ring).neighbours.1
  have before := ring.neighbours.2
  rw [lastOf_reverse_cons] at before
  rw [show lastOf anchor (l ++ [e]) = e by simp [lastOf]] at after
  exact ⟨after, before⟩

omit [DecidableEq L] in
theorem Ring.congr {m' : Links L} (ring : Ring m anchor nodes)
    (same : ∀ x ∈ anchor :: nodes, m' x = m x) : Ring m' anchor nodes :=
  ⟨path_congr ring.forward fun x inside => by rw [same x inside],
    path_congr ring.backward fun x inside => by rw [same x (mem_reverse_cons.mp inside)],
    ring.distinct⟩

theorem ring_delete (ring : Ring m anchor (l ++ e :: r)) :
    ∃ m', amlistDel m e = some m' ∧ Ring m' anchor (l ++ r) := by
  obtain ⟨next, prev⟩ := ring.pointers
  have backward := reverse_split l (e :: r) ▸ ring.backward
  have distinct := reverse_split l (e :: r) ▸ nodup_reverse ring.distinct
  rw [List.reverse_cons, List.append_assoc, List.singleton_append] at backward distinct
  refine ⟨_, by rw [amlistDel, amlistDelBetween, next, prev]; rfl, ?_, ?_, ?_⟩
  · refine path_remove ring.forward ring.distinct ?_ fun x _ last => ?_
    · simp [next_setNext, next]
    · simp [next_setNext, last]
  · rw [reverse_split]
    refine path_remove backward distinct ?_ fun x _ last => ?_
    · simp [prev_setPrev, prev]
    · simp [prev_setPrev, last]
  · exact ring.distinct.sublist (List.Sublist.cons_cons _
      (List.Sublist.append_left (List.sublist_cons_self e r) l))

theorem ring_add (ring : Ring m anchor nodes) (outside : e ∉ anchor :: nodes) :
    ∃ m', amlistAdd m anchor e = some m' ∧ Ring m' anchor (e :: nodes) ∧
      ∀ x, x ≠ e → x ∉ anchor :: nodes → m' x = m x := by
  obtain ⟨next, _⟩ := Ring.neighbours (l := []) ring
  obtain ⟨m', added, ring'⟩ := ring_insert (l := []) ring outside
  rw [lastOf_nil] at next added
  rw [amlistAdd, next]
  refine ⟨m', added, ring', fun x other apart => ?_⟩
  have last : x ≠ lastOf anchor nodes.reverse := fun same =>
    apart (mem_reverse_cons.mp (same ▸ lastOf_mem anchor nodes.reverse))
  have head : x ≠ anchor := fun same => apart (same ▸ List.mem_cons_self)
  cases added
  simp only [setNext, setPrev, Function.update_of_ne, other, last, head, ne_eq, not_false_eq_true]

theorem amlistDel_frame (ring : Ring m anchor (l ++ e :: r)) {m' : Links L}
    (deleted : amlistDel m e = some m') {x : L} (apart : x ∉ anchor :: (l ++ r)) : m' x = m x := by
  obtain ⟨next, prev⟩ := ring.pointers
  have before : x ≠ lastOf anchor l := fun same => apart <| by
    have inside := lastOf_mem anchor l
    rw [← same] at inside
    exact List.mem_cons.mpr ((List.mem_cons.mp inside).imp_right (List.mem_append_left _))
  have after : x ≠ lastOf anchor r.reverse := fun same => apart <| by
    have inside := lastOf_mem anchor r.reverse
    rw [← same, mem_reverse_cons] at inside
    exact List.mem_cons.mpr ((List.mem_cons.mp inside).imp_right (List.mem_append_right _))
  rw [amlistDel, amlistDelBetween, next, prev] at deleted
  cases deleted
  simp only [setNext, setPrev, Function.update_of_ne, before, after, ne_eq, not_false_eq_true]

theorem ring_replace {z : L} (ring : Ring m anchor (l ++ e :: r))
    (outside : z ∉ anchor :: (l ++ e :: r)) :
    Ring (setNext (setPrev (Function.update (Function.update m z (m e)) e ⟨none, none⟩)
        (lastOf anchor r.reverse) (some z)) (lastOf anchor l) (some z)) anchor (l ++ z :: r) := by
  have backward := reverse_split l (e :: r) ▸ ring.backward
  have distinct := reverse_split l (e :: r) ▸ nodup_reverse ring.distinct
  rw [List.reverse_cons, List.append_assoc, List.singleton_append] at backward distinct
  have other : z ≠ e := fun same => outside (by simp [same])
  have before : z ≠ lastOf anchor l := fun same => outside <| by
    have inside := lastOf_mem anchor l
    rw [← same] at inside
    exact List.mem_cons.mpr ((List.mem_cons.mp inside).imp_right (List.mem_append_left _))
  have after : z ≠ lastOf anchor r.reverse := fun same => outside <| by
    have inside := lastOf_mem anchor r.reverse
    rw [← same, mem_reverse_cons] at inside
    exact List.mem_cons.mpr ((List.mem_cons.mp inside).imp_right fun later =>
      List.mem_append_right _ (List.mem_cons_of_mem _ later))
  refine ⟨?_, ?_, ?_⟩
  · refine path_replace ring.forward ring.distinct outside ?_ ?_ fun x first second last => ?_
    · simp [next_setNext, before, other]
    · simp [next_setNext]
    · simp [next_setNext, last, first, second]
  · rw [reverse_split, List.reverse_cons, List.append_assoc, List.singleton_append]
    refine path_replace backward distinct
      (by simpa [or_comm, or_left_comm, and_assoc] using outside) ?_ ?_
      fun x first second last => ?_
    · simp [prev_setPrev, after, other]
    · simp [prev_setPrev]
    · simp [prev_setPrev, last, first, second]
  · have whole := (List.perm_middle.cons anchor).nodup_iff.mp ring.distinct
    rw [(List.perm_middle.cons anchor).nodup_iff]
    simp only [List.nodup_cons, List.mem_cons, List.mem_append, not_or] at whole outside ⊢
    tauto

end Facts

end Libam.Lists
