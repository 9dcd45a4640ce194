import Libam.ITree.Ordered

/-! Sequences of calls on one intrusive tree: the ordered list and the tree stay in agreement. -/

namespace Libam.ITree

open Libam.Trees Libam.AvlTree Libam.Lists Libam.Interleaving

variable {Addr : Type}

/-- A call. What a node holds before its insertion is the caller's. -/
inductive Op (Addr : Type)
  | insert (node : Addr) (fields : AmtreeNode Addr) (link : AmlistHead (LinkAddr Addr))
  | findKey (key : UInt64)
  | delete (node : Addr)
  | deleteKey (key : UInt64)
  | swap (toRemove toInsert : Addr)

/-- Deletes and swap-outs of nodes in the tree, inserts and swap-ins of nodes outside it, and fewer
than 2^32 nodes. -/
def Ready (t : Amitree Addr) (op : Op Addr) (_ : Amitree Addr) : Prop :=
  match op with
  | .insert node .. => ¬ InTree t.tree node ∧ t.tree.count.toNat + 1 < 2 ^ 32
  | .delete node => InTree t.tree node
  | .swap toRemove toInsert => InTree t.tree toRemove ∧ ¬ InTree t.tree toInsert
  | _ => True

variable [DecidableEq Addr]

def Amitree.write (t : Amitree Addr) (n : Addr) (fields : AmtreeNode Addr)
    (link : AmlistHead (LinkAddr Addr)) : Amitree Addr :=
  ⟨t.tree.modify n fun _ => fields, Function.update t.links (.node n) link⟩

def amitreeApply (fuel : ℕ) (t : Amitree Addr) : Op Addr → Except Fault (Amitree Addr × Option Addr)
  | .insert node fields link => amitreeInsert fuel (t.write node fields link) node
  | .findKey key => (amitreeFindKey fuel t key).map fun found => (t, found)
  | .delete node => (amitreeDelete fuel t node).map fun t => (t, none)
  | .deleteKey key => amitreeDeleteKey fuel t key
  | .swap toRemove toInsert => (amitreeSwap t toRemove toInsert).map fun t => (t, none)

def step (fuel : ℕ) (t : Amitree Addr) (op : Op Addr) : Option (Amitree Addr) :=
  match amitreeApply fuel t op with
  | .ok (t, _) => some t
  | .error _ => none

/-- The ordered list has the nodes of the tree from left to right, and the iterations visit them
in this order and in its reverse. -/
structure InSequence (t : Amitree Addr) (nodes : List Addr) : Prop where
  tree : ∃ T : SearchTree (Entry Addr), Slotted t.tree .root (ptr T) ∧ Holds t.tree T ∧
    addrs T = nodes
  members : ∀ a, a ∈ nodes ↔ InTree t.tree a
  increasing : nodes.Pairwise fun a b => (t.tree.node a).key < (t.tree.node b).key
  ring : Ring t.links .anchor (linksOf nodes)
  inverse : ∀ x ∈ LinkAddr.anchor :: linksOf nodes, ∀ y ∈ LinkAddr.anchor :: linksOf nodes,
    (t.links x).next = some y ↔ (t.links y).prev = some x
  larger : ∃ start, amitreeSmallest t = .ok start ∧ Visits (amitreeLarger t) start nodes
  smaller : ∃ start, amitreeLargest t = .ok start ∧ Visits (amitreeSmaller t) start nodes.reverse

section Facts

variable {fuel : ℕ} {t : Amitree Addr} {T : SearchTree (Entry Addr)}

theorem Threaded.write (threaded : Threaded t T) {n : Addr} (outside : n ∉ addrs T)
    (fields : AmtreeNode Addr) (link : AmlistHead (LinkAddr Addr)) :
    Threaded (t.write n fields link) T := by
  refine ⟨threaded.sound.modify outside fun _ => fields, threaded.ring.congr fun x member => ?_⟩
  refine Function.update_of_ne (fun same => ?_) ..
  rw [same, mem_linksOf] at member
  exact outside member

omit [DecidableEq Addr] in
theorem Threaded.increasing (threaded : Threaded t T) :
    (addrs T).Pairwise fun a b => (t.tree.node a).key < (t.tree.node b).key := by
  have keys (e : Entry Addr) (inside : e ∈ T.toList) : (t.tree.node e.addr).key = e.key :=
    (mem_entries threaded.sound.focus.holds e inside).2
  refine List.pairwise_map.mpr (threaded.sound.ordered.imp_of_mem fun first second less => ?_)
  rw [keys _ first, keys _ second]
  exact less

theorem Threaded.inSequence (threaded : Threaded t T) (small : T.toList.length < 2 ^ 32) :
    InSequence t (addrs T) := by
  have focus := threaded.sound.focus
  have reversed : linksOf (addrs T) = linksOf ((addrs T).reverse.reverse ++ []) := by simp
  exact {
    tree := ⟨T, focus.slotted, focus.holds, rfl⟩
    members := fun a => (inTree_iff focus a).symm
    increasing := threaded.increasing
    ring := threaded.ring
    inverse := fun _ first _ second => threaded.ring.inverse first second
    larger := ⟨_, amitreeSmallest_spec threaded small, visits_larger (l := []) threaded.ring⟩
    smaller := ⟨_, amitreeLargest_spec threaded small, visits_smaller (reversed ▸ threaded.ring)⟩ }

theorem apply_threaded (threaded : Threaded t T) (enough : 2 ^ 32 ≤ fuel)
    (small : T.toList.length < 2 ^ 32) {op : Op Addr} {after : Amitree Addr}
    (ready : Ready t op after) : ∃ t' result T', amitreeApply fuel t op = .ok (t', result) ∧
      Threaded t' T' ∧ T'.toList.length < 2 ^ 32 := by
  have sound := threaded.sound
  have inTree := inTree_iff sound.focus
  have room : T.toList.length < fuel := by omega
  have found (k : UInt64) : amitreeFindKey fuel t k = .ok (lookup k T.toList) :=
    amtreeFindKey_spec sound room k
  cases op with
  | insert n fields link =>
      obtain ⟨outside, below⟩ := ready
      rw [inTree] at outside
      rw [sound.size small] at below
      rcases amitreeInsert_spec (threaded.write outside fields link) outside room with
        ⟨a, _, run⟩ | ⟨t', T', run, threaded', longer⟩
      · exact ⟨_, _, T, run, threaded.write outside fields link, small⟩
      · exact ⟨t', _, T', run, threaded', by omega⟩
  | findKey k => exact ⟨t, _, T, by rw [amitreeApply, found]; rfl, threaded, small⟩
  | delete n =>
      obtain ⟨t', T', run, threaded', shorter⟩ := amitreeDelete_spec threaded
        ((inTree n).mp ready) room
      exact ⟨t', none, T', by rw [amitreeApply, run]; rfl, threaded', by omega⟩
  | deleteKey k =>
      cases stored : lookup k T.toList with
      | none =>
          refine ⟨t, none, T, ?_, threaded, small⟩
          simp only [amitreeApply, amitreeDeleteKey, found, stored, bind, Except.bind]
          rfl
      | some a =>
          have inside := (lookup_eq_some sound.ordered k a).mp stored
          obtain ⟨t', T', run, threaded', shorter⟩ :=
            amitreeDelete_spec threaded (List.mem_map_of_mem inside) room
          refine ⟨t', some a, T', ?_, threaded', by omega⟩
          simp only [amitreeApply, amitreeDeleteKey, found, stored, run, bind, Except.bind]
          rfl
  | swap a z =>
      obtain ⟨t', T', run, threaded', same⟩ := amitreeSwap_spec threaded ((inTree a).mp ready.1)
        fun inside => ready.2 ((inTree z).mpr inside)
      exact ⟨t', none, T', by rw [amitreeApply, run]; rfl, threaded', by omega⟩

theorem threaded_init (memory : Amitree Addr) : Threaded (amitreeInit memory).1 .leaf :=
  ⟨sound_init _, ring_init _ _⟩

theorem threaded_run (enough : 2 ^ 32 ≤ fuel) {memory : Amitree Addr} {ops : List (Op Addr)}
    (run : Run (step fuel) Ready (amitreeInit memory).1 ops t) :
    ∃ T, Threaded t T ∧ T.toList.length < 2 ^ 32 := by
  refine run.invariant (fun t => ∃ T, Threaded t T ∧ T.toList.length < 2 ^ 32)
    ⟨.leaf, threaded_init memory, by simp [SearchTree.toList]⟩ ?_
  rintro t op t' ⟨T, threaded, small⟩ fired ready
  obtain ⟨t'', result, T', applied, threaded', small'⟩ := apply_threaded threaded enough small ready
  simp only [step, applied, Option.some.injEq] at fired
  subst fired
  exact ⟨T', threaded', small'⟩

end Facts

section Claims

variable {fuel : ℕ}

/-- Every call ends, and the ordered list has exactly the nodes of the tree, in key order. -/
theorem amitree_in_order (enough : 2 ^ 32 ≤ fuel) {memory t : Amitree Addr} {ops : List (Op Addr)}
    (run : Run (step fuel) Ready (amitreeInit memory).1 ops t) :
    (∃ nodes, InSequence t nodes) ∧
    ∀ op after, Ready t op after → ∃ t' result, amitreeApply fuel t op = .ok (t', result) := by
  obtain ⟨T, threaded, small⟩ := threaded_run enough run
  refine ⟨⟨addrs T, threaded.inSequence small⟩, fun op after ready => ?_⟩
  obtain ⟨t', result, _, applied, _⟩ := apply_threaded threaded enough small ready
  exact ⟨t', result, applied⟩

/-- Two insertions and the deletion of the root. -/
theorem amitree_in_order_sample : ∃ t : Amitree ℕ, t.tree.root = some 2 ∧
    ∃ nodes, InSequence t nodes := by
  have run : Run (step (2 ^ 32)) Ready
      (amitreeInit ⟨amtreeInit fun _ => fresh 0, fun _ => ⟨none, none⟩⟩).1
      ([.insert 1 (fresh 7) ⟨none, none⟩, .insert 2 (fresh 5) ⟨none, none⟩] ++ [.delete 1]) _ :=
    .snoc (.snoc (.snoc .nil rfl ⟨fun reached => (by cases inTree_nonempty reached), by decide⟩) rfl
      ⟨fun reached => (by cases inTree_single rfl (by intro s; cases s <;> rfl) reached),
        by decide⟩)
      rfl (.root rfl)
  exact ⟨_, rfl, (amitree_in_order (Nat.le_refl _) run).1⟩

end Claims

end Libam.ITree
