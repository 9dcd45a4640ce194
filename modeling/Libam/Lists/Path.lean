import Mathlib.Data.List.Nodup
import Mathlib.Logic.Function.Basic

/-! Paths along one pointer of each node, and how they change when a node is put in, taken out or
replaced. A ring is a path from its anchor back to it, in each of two directions. -/

namespace Libam.Lists

variable {L : Type*}

def Path (f : L → Option L) : L → List L → L → Prop
  | a, [], b => f a = some b
  | a, x :: rest, b => f a = some x ∧ Path f x rest b

def lastOf (a : L) (nodes : List L) : L := nodes.getLast?.getD a

@[simp] theorem lastOf_nil (a : L) : lastOf a [] = a := rfl

theorem lastOf_cons (a x : L) (rest : List L) : lastOf a (x :: rest) = lastOf x rest := by
  cases rest with
  | nil => rfl
  | cons y rest => simp [lastOf, List.getLast?_cons]

theorem lastOf_mem (a : L) (nodes : List L) : lastOf a nodes ∈ a :: nodes := by
  induction nodes generalizing a with
  | nil => simp
  | cons x rest ih =>
      rw [lastOf_cons]
      exact List.mem_cons_of_mem _ (ih x)

theorem lastOf_reverse_cons (a x : L) (rest : List L) : lastOf a (x :: rest).reverse = x := by
  simp [lastOf]

theorem path_append {f : L → Option L} {a b x : L} {l r : List L} :
    Path f a (l ++ x :: r) b ↔ Path f a l x ∧ Path f x r b := by
  induction l generalizing a with
  | nil => rfl
  | cons y l ih => simp only [List.cons_append, Path, ih, and_assoc]

theorem path_last {f : L → Option L} {a b : L} {l r : List L} (path : Path f a (l ++ r) b) :
    f (lastOf a l) = some (r.head?.getD b) := by
  induction l generalizing a with
  | nil =>
      cases r with
      | nil => exact path
      | cons y r => exact path.1
  | cons x l ih =>
      rw [lastOf_cons]
      exact ih path.2

theorem path_congr {f g : L → Option L} {a b : L} {nodes : List L} (path : Path f a nodes b)
    (same : ∀ x ∈ a :: nodes, g x = f x) : Path g a nodes b := by
  induction nodes generalizing a with
  | nil => exact (same a (List.mem_cons_self ..)).trans path
  | cons x rest ih =>
      exact ⟨(same a (List.mem_cons_self ..)).trans path.1,
        ih path.2 fun y inside => same y (List.mem_cons_of_mem _ inside)⟩

theorem path_unique {f : L → Option L} {a b : L} {nodes others : List L} (path : Path f a nodes b)
    (other : Path f a others b) (before : b ∉ nodes) (before' : b ∉ others) : nodes = others := by
  induction nodes generalizing a others with
  | nil =>
      cases others with
      | nil => rfl
      | cons y others =>
          cases path.symm.trans other.1
          exact absurd List.mem_cons_self before'
  | cons x rest ih =>
      cases others with
      | nil =>
          cases path.1.symm.trans other
          exact absurd List.mem_cons_self before
      | cons y others =>
          cases path.1.symm.trans other.1
          have same := ih path.2 other.2 (fun inside => before (List.mem_cons_of_mem _ inside))
            fun inside => before' (List.mem_cons_of_mem _ inside)
          rw [same]

section Changes

variable {f g : L → Option L} {a b e : L} {l r : List L}

theorem path_insert (path : Path f a (l ++ r) b) (distinct : (a :: (l ++ r)).Nodup)
    (outside : e ∉ a :: (l ++ r)) (own : g e = f (lastOf a l)) (last : g (lastOf a l) = some e)
    (same : ∀ x, x ≠ e → x ≠ lastOf a l → g x = f x) : Path g a (l ++ e :: r) b := by
  induction l generalizing a with
  | nil =>
      refine ⟨last, ?_⟩
      have kept : ∀ x ∈ r, g x = f x := fun x inside =>
        same x (fun here => outside (by simp [← here, inside])) fun (here : x = a) =>
          (List.nodup_cons.mp distinct).1 (here ▸ inside)
      cases r with
      | nil => exact own.trans path
      | cons c r => exact ⟨own.trans path.1, path_congr path.2 kept⟩
  | cons c l ih =>
      rw [lastOf_cons] at own last same
      obtain ⟨first, rest⟩ := List.nodup_cons.mp distinct
      have start : g a = f a := by
        refine same a (fun here => outside (by simp [here])) fun here => first ?_
        rw [here]
        exact List.mem_append_left _ (lastOf_mem c l)
      exact ⟨start.trans path.1,
        ih path.2 rest (fun inside => outside (List.mem_cons_of_mem _ inside)) own last same⟩

theorem path_remove (path : Path f a (l ++ e :: r) b) (distinct : (a :: (l ++ e :: r)).Nodup)
    (last : g (lastOf a l) = f e) (same : ∀ x, x ≠ e → x ≠ lastOf a l → g x = f x) :
    Path g a (l ++ r) b := by
  induction l generalizing a with
  | nil =>
      obtain ⟨first, rest⟩ := List.nodup_cons.mp distinct
      have kept : ∀ x ∈ r, g x = f x := fun x inside =>
        same x (fun here => (List.nodup_cons.mp rest).1 (here ▸ inside)) fun (here : x = a) =>
          first (List.mem_cons_of_mem _ (here ▸ inside))
      obtain ⟨_, path⟩ := path
      cases r with
      | nil => exact last.trans path
      | cons c r => exact ⟨last.trans path.1, path_congr path.2 kept⟩
  | cons c l ih =>
      rw [lastOf_cons] at last same
      obtain ⟨first, rest⟩ := List.nodup_cons.mp distinct
      have start : g a = f a := by
        refine same a (fun here => first (by simp [here])) fun here => first ?_
        rw [here]
        exact List.mem_append_left _ (lastOf_mem c l)
      exact ⟨start.trans path.1, ih path.2 rest last same⟩

theorem path_replace {z : L} (path : Path f a (l ++ e :: r) b)
    (distinct : (a :: (l ++ e :: r)).Nodup) (outside : z ∉ a :: (l ++ e :: r)) (own : g z = f e)
    (last : g (lastOf a l) = some z)
    (same : ∀ x, x ≠ e → x ≠ z → x ≠ lastOf a l → g x = f x) : Path g a (l ++ z :: r) b := by
  induction l generalizing a with
  | nil =>
      obtain ⟨first, rest⟩ := List.nodup_cons.mp distinct
      have kept : ∀ x ∈ r, g x = f x := fun x inside =>
        same x (fun here => (List.nodup_cons.mp rest).1 (here ▸ inside))
          (fun here => outside (by simp [← here, inside])) fun (here : x = a) =>
            first (List.mem_cons_of_mem _ (here ▸ inside))
      refine ⟨last, ?_⟩
      obtain ⟨_, path⟩ := path
      cases r with
      | nil => exact own.trans path
      | cons c r => exact ⟨own.trans path.1, path_congr path.2 kept⟩
  | cons c l ih =>
      rw [lastOf_cons] at last same
      obtain ⟨first, rest⟩ := List.nodup_cons.mp distinct
      have start : g a = f a := by
        refine same a (fun here => first (by simp [here])) (fun here => outside (by simp [here]))
          fun here => first ?_
        rw [here]
        exact List.mem_append_left _ (lastOf_mem c l)
      exact ⟨start.trans path.1,
        ih path.2 rest (fun inside => outside (List.mem_cons_of_mem _ inside)) last same⟩

end Changes

theorem path_inverse {f g : L → Option L} {a b : L} {nodes : List L} (path : Path f a nodes b)
    (back : Path g b nodes.reverse a) : ∀ x ∈ a :: nodes, ∃ y, f x = some y ∧ g y = some x := by
  induction nodes generalizing a with
  | nil =>
      intro x inside
      cases List.mem_singleton.mp inside
      exact ⟨b, path, back⟩
  | cons c rest ih =>
      rw [List.reverse_cons, path_append] at back
      intro x inside
      rcases List.mem_cons.mp inside with rfl | later
      · exact ⟨c, path.1, back.2⟩
      · exact ih path.2 back.1 x later

end Libam.Lists
