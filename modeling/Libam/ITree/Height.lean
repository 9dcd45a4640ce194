import Libam.ITree.Runs
import Libam.Trees.Height
import Mathlib.Order.Bounds.Defs

/-! The height of the trees, and how often the loops of a search run. -/

namespace Libam.ITree

open Libam.Trees Libam.AvlTree Libam.Interleaving

variable {Addr : Type}

section Paths

def DownPath (t : Amtree Addr) : Option Addr → List Addr → Prop
  | _, [] => True
  | start, a :: rest => start = some a ∧ (rest = [] ∨ ∃ s, DownPath t ((t.node a).child s) rest)

def pathLengths (t : Amtree Addr) : Set ℕ :=
  {k | ∃ path, DownPath t t.root path ∧ path.length = k}

variable [DecidableEq Addr]

def findRounds (t : Amtree Addr) (target : AmtreeNode Addr) : ℕ → Option Addr → ℕ
  | 0, _ => 0
  | _ + 1, none => 0
  | fuel + 1, some cur =>
      let next := amtreeCmp t target cur
      if next = some cur then 1 else findRounds t target fuel next + 1

def descendRounds (t : Amtree Addr) (n : Addr) : ℕ → Addr → ℕ
  | 0, _ => 0
  | fuel + 1, parent =>
      let next := amtreeCmp t (t.node n) parent
      if next = some parent then 1
      else
        match next with
        | none => 1
        | some next => descendRounds t n fuel next + 1

end Paths

section Bounds

variable {t : Amtree Addr} {T : SearchTree (Entry Addr)}

theorem downPath_length_le (holds : Holds t T) {path : List Addr} (down : DownPath t (ptr T) path) :
    path.length ≤ T.height := by
  induction T generalizing path with
  | leaf =>
      cases path with
      | nil => exact Nat.le_refl 0
      | cons a rest => cases down.1
  | node l x b r ihl ihr =>
      cases path with
      | nil => exact Nat.zero_le _
      | cons a rest =>
          obtain ⟨start, below⟩ := down
          cases start
          obtain ⟨_, left, right, holdsL, holdsR⟩ := holds
          simp only [List.length_cons, SearchTree.height]
          rcases below with rfl | ⟨s, below⟩
          · simp
          · cases s with
            | left =>
                have child : (t.node x.addr).child .left = ptr l := left.1
                have short := ihl holdsL (child ▸ below)
                omega
            | right =>
                have child : (t.node x.addr).child .right = ptr r := right.1
                have short := ihr holdsR (child ▸ below)
                omega

theorem exists_downPath (holds : Holds t T) :
    ∃ path, DownPath t (ptr T) path ∧ path.length = T.height := by
  induction T with
  | leaf => exact ⟨[], trivial, rfl⟩
  | node l x b r ihl ihr =>
      obtain ⟨_, left, right, holdsL, holdsR⟩ := holds
      have childL : (t.node x.addr).child .left = ptr l := left.1
      have childR : (t.node x.addr).child .right = ptr r := right.1
      rcases Nat.le_total l.height r.height with less | less
      · obtain ⟨path, down, length⟩ := ihr holdsR
        exact ⟨x.addr :: path, ⟨rfl, .inr ⟨.right, childR ▸ down⟩⟩, by
          simp only [List.length_cons, length, SearchTree.height]
          omega⟩
      · obtain ⟨path, down, length⟩ := ihl holdsL
        exact ⟨x.addr :: path, ⟨rfl, .inr ⟨.left, childL ▸ down⟩⟩, by
          simp only [List.length_cons, length, SearchTree.height]
          omega⟩

theorem isGreatest_height (holds : Holds t T) (root : t.root = ptr T) :
    IsGreatest (pathLengths t) T.height := by
  refine ⟨?_, ?_⟩
  · rw [pathLengths, root]
    exact exists_downPath holds
  · rintro k ⟨path, down, rfl⟩
    exact downPath_length_le holds (root ▸ down)

theorem amtreeCmp_cases (target : AmtreeNode Addr) (a : Addr) :
    amtreeCmp t target a = some a ∨ ∃ s, amtreeCmp t target a = (t.node a).child s := by
  rw [amtreeCmp]
  split
  · exact .inr ⟨.right, rfl⟩
  · split
    · exact .inr ⟨.left, rfl⟩
    · exact .inl rfl

variable [DecidableEq Addr]

theorem findRounds_le (holds : Holds t T) (target : AmtreeNode Addr) (fuel : ℕ) :
    findRounds t target fuel (ptr T) ≤ T.height := by
  induction T generalizing fuel with
  | leaf => cases fuel <;> exact Nat.le_refl 0
  | node l x b r ihl ihr =>
      cases fuel with
      | zero => exact Nat.zero_le _
      | succ fuel =>
          obtain ⟨_, left, right, holdsL, holdsR⟩ := holds
          have shortL := ihl holdsL fuel
          have shortR := ihr holdsR fuel
          have childL : (t.node x.addr).child .left = ptr l := left.1
          have childR : (t.node x.addr).child .right = ptr r := right.1
          simp only [ptr, findRounds, SearchTree.height]
          split
          · omega
          · rename_i other
            rcases amtreeCmp_cases (t := t) target x.addr with same | ⟨s, next⟩
            · exact absurd same other
            · cases s
              · rw [next, childL]
                omega
              · rw [next, childR]
                omega

theorem descendRounds_le (holds : Holds t T) (n : Addr) (fuel : ℕ) {root : Addr}
    (start : ptr T = some root) : descendRounds t n fuel root ≤ T.height := by
  induction T generalizing fuel root with
  | leaf => cases start
  | node l x b r ihl ihr =>
      cases start
      cases fuel with
      | zero => exact Nat.zero_le _
      | succ fuel =>
          obtain ⟨_, left, right, holdsL, holdsR⟩ := holds
          have childL : (t.node x.addr).child .left = ptr l := left.1
          have childR : (t.node x.addr).child .right = ptr r := right.1
          simp only [descendRounds, SearchTree.height]
          split
          · omega
          · rename_i other
            split
            · omega
            · rename_i next found
              rcases amtreeCmp_cases (t := t) (t.node n) x.addr with same | ⟨s, child⟩
              · exact absurd same other
              · rw [found] at child
                cases s
                · have start : ptr l = some next := childL ▸ child.symm
                  have short := ihl holdsL fuel start
                  omega
                · have start : ptr r = some next := childR ▸ child.symm
                  have short := ihr holdsR fuel start
                  omega

end Bounds

section Claims

variable [DecidableEq Addr]

/-- The trees of runs of calls from an empty `amtree_t` or `amitree_t`. -/
inductive Reachable (fuel : ℕ) : Amtree Addr → Prop
  | amtree {node : Addr → AmtreeNode Addr} {ops : List (AvlTree.Op Addr)} {s : History Addr} :
      Run (AvlTree.step fuel) AvlTree.Ready (AvlTree.amtreeInit node, []) ops s → Reachable fuel s.1
  | amitree {memory t : Amitree Addr} {ops : List (Op Addr)} :
      Run (step fuel) Ready (amitreeInit memory).1 ops t → Reachable fuel t.tree

/-- What the height of a tree says of its count, and of the loops of a search. -/
structure Shallow (t : Amtree Addr) (h : ℕ) : Prop where
  longest : IsGreatest (pathLengths t) h
  fib : Nat.fib (h + 2) - 1 ≤ t.count.toNat
  log : h ≤ 2 * (Nat.log 2 t.count.toNat + 1)
  find : ∀ target, (∃ found, amtreeFind (h + 1) t target = .ok found) ∧
    ∀ fuel, findRounds t target fuel t.root ≤ h
  descend : ∀ n root, t.root = some root → (∃ last, descend t n h root = .ok last) ∧
    ∀ fuel, descendRounds t n fuel root ≤ h

theorem Reachable.sound {fuel : ℕ} (enough : 2 ^ 32 ≤ fuel) {t : Amtree Addr}
    (reachable : Reachable fuel t) : ∃ T, Sound t T ∧ T.toList.length < 2 ^ 32 := by
  cases reachable with
  | amtree run =>
      obtain ⟨T, sound, small, _⟩ := refines_run enough run
      exact ⟨T, sound, small⟩
  | amitree run =>
      obtain ⟨T, threaded, small⟩ := threaded_run enough run
      exact ⟨T, threaded.sound, small⟩

/-- A tree of height `h` has at least `fib (h + 2) - 1` nodes, and a search visits at most `h`. -/
theorem amtree_height_fib {fuel : ℕ} (enough : 2 ^ 32 ≤ fuel) {t : Amtree Addr}
    (reachable : Reachable fuel t) : ∃ h, Shallow t h := by
  obtain ⟨T, sound, small⟩ := reachable.sound enough
  have holds := sound.focus.holds
  have root : t.root = ptr T := sound.focus.slotted.1
  have thin := sound.avl.fib_le
  rw [← sound.size small] at thin
  refine ⟨T.height, isGreatest_height holds root, by omega, SearchTree.le_log_of_fib_le thin,
    fun target => ⟨⟨lookup target.key T.toList, ?_⟩, fun fuel => ?_⟩,
    fun n start here => ⟨?_, fun fuel => descendRounds_le holds n fuel (root.symm.trans here)⟩⟩
  · rw [amtreeFind, root]
    exact amtreeFindFrom_spec target holds sound.addrs_nodup sound.ordered (Nat.lt_succ_self _)
  · rw [root]
    exact findRounds_le holds target fuel
  · rcases descend_spec (n := n) sound.focus (root.symm.trans here) sound.ordered (by simp [before])
      (by simp [after]) (Nat.le_refl _) with ⟨_, _, _, run⟩ | ⟨_, _, run, _⟩
    · exact ⟨_, run⟩
    · exact ⟨_, run⟩

/-- Two nodes. -/
theorem amtree_height_fib_sample : ∃ t : Amtree ℕ, t.count = 2 ∧ ∃ h, Shallow t h := by
  have run : Run (AvlTree.step (2 ^ 32)) AvlTree.Ready (AvlTree.amtreeInit fun _ => fresh 0, [])
      ([.insert 1 (fresh 5)] ++ [.insert 2 (fresh 7)]) _ :=
    .snoc (.snoc .nil rfl ⟨fun reached => (by cases inTree_nonempty reached), by decide⟩) rfl
      ⟨fun reached => (by cases inTree_single rfl (by intro s; cases s <;> rfl) reached), by decide⟩
  exact ⟨_, rfl, amtree_height_fib (Nat.le_refl _) (.amtree run)⟩

end Claims

end Libam.ITree
