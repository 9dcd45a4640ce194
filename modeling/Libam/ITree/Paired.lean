import Libam.ITree.Calls
import Libam.ITree.Runs

/-! An `amtree_t` and an `amitree_t` over paired nodes, with the same calls on both: they stay
isomorphic. A pair of nodes has one address, in two memories. -/

namespace Libam.ITree.Paired

open Libam.Trees Libam.AvlTree Libam.Lists Libam.Interleaving Libam.Lockstep
open Libam.ITree.Embedded (Matches Corresponds)

variable {Addr : Type}

/-- A call on both trees. What a pair of nodes outside the trees holds is the caller's. -/
inductive Op (Addr : Type)
  | write (pair : Addr) (reference : AmtreeNode Addr) (test : Embedded.AmitreeNode Addr)
  | insert (pair : Addr)
  | find (reference : AmtreeNode Addr) (test : Embedded.AmitreeNode Addr)
  | findKey (key : UInt64)
  | delete (pair : Addr)
  | deleteKey (key : UInt64)
  | swap (toRemove toInsert : Addr)

structure State (Addr : Type) where
  reference : Amtree Addr
  test : Embedded.Amitree Addr
  results : List (Option Addr × Option Addr)

/-- Both nodes that are inserted or looked for have the same key, deletes and swap-outs are of pairs
in the trees, writes and swap-ins of pairs outside. -/
def Ready (s : State Addr) (op : Op Addr) (_ : State Addr) : Prop :=
  match op with
  | .write pair .. => ¬ InTree s.reference pair
  | .insert pair => (s.test.node pair).key = (s.reference.node pair).key
  | .find reference test => test.key = reference.key
  | .delete pair => InTree s.reference pair
  | .swap toRemove toInsert => InTree s.reference toRemove ∧ ¬ InTree s.reference toInsert
  | _ => True

/-- The same count, corresponding roots, and the same fields of every pair in the trees. -/
structure Isomorphic (t : Amtree Addr) (u : Embedded.Amitree Addr) : Prop where
  count : u.count = t.count
  root : u.root = t.root
  inside : ∀ a, InTree u.tree a ↔ InTree t a
  key : ∀ a, InTree t a → (u.node a).key = (t.node a).key
  balance : ∀ a, InTree t a → (u.node a).balance = (t.node a).balance
  parent : ∀ a, InTree t a → (u.node a).parent = (t.node a).parent
  left : ∀ a, InTree t a → (u.node a).left = (t.node a).left
  right : ∀ a, InTree t a → (u.node a).right = (t.node a).right

variable [DecidableEq Addr]

def referenceApply (fuel : ℕ) (t : Amtree Addr) : Op Addr → Except Fault (Amtree Addr × Option Addr)
  | .write pair reference _ => .ok (t.modify pair fun _ => reference, none)
  | .insert pair => amtreeInsert fuel t pair
  | .find reference _ => (amtreeFind fuel t reference).map fun found => (t, found)
  | .findKey key => (amtreeFindKey fuel t key).map fun found => (t, found)
  | .delete pair => (amtreeDelete fuel t pair).map fun t => (t, none)
  | .deleteKey key => amtreeDeleteKey fuel t key
  | .swap toRemove toInsert => .ok (amtreeSwap t toRemove toInsert, none)

def testApply (fuel : ℕ) (u : Embedded.Amitree Addr) :
    Op Addr → Except Fault (Embedded.Amitree Addr × Option Addr)
  | .write pair _ test => .ok (u.modify pair fun _ => test, none)
  | .insert pair => Embedded.amitreeInsert fuel u pair
  | .find _ test => (Embedded.amitreeFind fuel u test).map fun found => (u, found)
  | .findKey key => (Embedded.amitreeFindKey fuel u key).map fun found => (u, found)
  | .delete pair => (Embedded.amitreeDelete fuel u pair).map fun u => (u, none)
  | .deleteKey key => Embedded.amitreeDeleteKey fuel u key
  | .swap toRemove toInsert => (Embedded.amitreeSwap u toRemove toInsert).map fun u => (u, none)

def step (fuel : ℕ) (s : State Addr) (op : Op Addr) : Option (State Addr) :=
  match referenceApply fuel s.reference op, testApply fuel s.test op with
  | .ok (t, r), .ok (u, r') => some ⟨t, u, (r, r') :: s.results⟩
  | _, _ => none

section Apart

variable {fuel : ℕ} {v v' : Amitree Addr} {r : Option Addr}

theorem tree_amitreeInsert {n : Addr} (run : amitreeInsert fuel v n = .ok (v', r)) :
    amtreeInsert fuel v.tree n = .ok (v'.tree, r) := by
  cases start : v.tree.root with
  | none =>
      simp only [amitreeInsert, amtreeInsert, start, bind, Except.bind] at run ⊢
      split at run
      · cases run
      · cases run
        rfl
  | some root =>
      simp only [amitreeInsert, amtreeInsert, start, bind, Except.bind] at run ⊢
      split at run
      · cases run
      · split at run
        · rename_i duplicate
          cases run
          exact if_pos duplicate
        · rename_i fresh
          rw [if_neg fresh]
          split at run
          · cases run
          · simp only [amitreeBalanceAdd] at run
            generalize amtreeBalanceAdd fuel (_ : Amtree Addr) n = walked at run ⊢
            cases walked with
            | error e => cases run
            | ok tree =>
                cases run
                rfl

theorem tree_amitreeDelete {n : Addr} (run : amitreeDelete fuel v n = .ok v') :
    amtreeDelete fuel v.tree n = .ok v'.tree := by
  simp only [amitreeDelete, bind, Except.bind] at run
  split at run
  · cases run
  · split at run
    · cases run
    · rename_i deleted
      cases run
      exact deleted

theorem tree_amitreeDeleteKey {key : UInt64} (run : amitreeDeleteKey fuel v key = .ok (v', r)) :
    amtreeDeleteKey fuel v.tree key = .ok (v'.tree, r) := by
  simp only [amitreeDeleteKey, amtreeDeleteKey, amitreeFindKey, bind, Except.bind] at run ⊢
  split at run
  · cases run
  · split at run
    · cases run
      rfl
    · split at run
      · cases run
      · rename_i deleted
        cases run
        simp only [tree_amitreeDelete deleted]
        rfl

theorem tree_amitreeSwap {a z : Addr} (run : amitreeSwap v a z = .ok v') :
    v'.tree = amtreeSwap v.tree a z := by
  simp only [amitreeSwap, bind, Except.bind] at run
  split at run
  · cases run
  · split at run
    · cases run
    · cases run
      rfl

end Apart

section Closing

variable {S : Set Addr} {t t' : Amtree Addr} {T : SearchTree (Entry Addr)}

omit [DecidableEq Addr] in
theorem parent_mem (focus : Focus t [] T) {a p : Addr} (inside : a ∈ addrs T)
    (parent : (t.node a).parent = some p) : p ∈ addrs T := by
  obtain ⟨x, member, rfl⟩ := List.mem_map.mp inside
  obtain ⟨above, l, b, r, rfl⟩ := exists_plug member
  have here : Focus t above (.node l x b r) := focus_plug.mpr focus
  have owner := here.slotted.2 x.addr rfl
  rw [parent] at owner
  cases above with
  | nil => cases owner
  | cons f above =>
      cases owner
      have perm := (plug_perm (f :: above) (.node l x b r)).map Entry.addr
      exact perm.mem_iff.mpr (by simp [around])

omit [DecidableEq Addr] in
theorem same_within (same : Same S t t') (focus : Focus t [] T) :
    Same {a | a ∈ addrs T} t t' := by
  have reached {a : Addr} (inside : a ∈ addrs T) : a ∈ S := by
    have path := (inTree_iff focus a).mpr inside
    clear inside
    induction path with
    | root here => exact same.start _ here
    | child s _ here ih => exact same.child _ ih s _ here
  exact ⟨same.root, same.count, fun a inside => same.node a (reached inside),
    fun a root => mem_addrs_of_ptr (focus.slotted.1.symm.trans root),
    fun a inside p parent => parent_mem focus inside parent,
    fun a inside s c child => child_mem focus.holds s inside child⟩

theorem same_outside (same : Same S t t') {a : Addr} (outside : a ∉ S)
    (f f' : AmtreeNode Addr → AmtreeNode Addr) : Same S (t.modify a f) (t'.modify a f') := by
  have kept (t : Amtree Addr) (f : AmtreeNode Addr → AmtreeNode Addr) (b : Addr) (inside : b ∈ S) :
      (t.modify a f).node b = t.node b :=
    Function.update_of_ne (fun here : b = a => outside (here ▸ inside)) ..
  refine ⟨same.root, same.count, fun b inside => ?_, same.start, fun b inside => ?_,
    fun b inside => ?_⟩
  · rw [kept t f b inside, kept t' f' b inside]
    exact same.node b inside
  · rw [kept t f b inside]
    exact same.parent b inside
  · rw [kept t f b inside]
    exact same.child b inside

omit [DecidableEq Addr] in
theorem isomorphic_of_same {u : Embedded.Amitree Addr} (same : Same {a | a ∈ addrs T} t u.tree)
    (focus : Focus t [] T) : Isomorphic t u := by
  have inside (a : Addr) (here : InTree t a) : (u.tree.node a) = t.node a :=
    same.node a ((inTree_iff focus a).mp here)
  refine ⟨same.count, same.root, fun a => ⟨fun here => ?_, fun here => ?_⟩,
    fun a here => congrArg AmtreeNode.key (inside a here),
    fun a here => congrArg AmtreeNode.balance (inside a here),
    fun a here => congrArg AmtreeNode.parent (inside a here),
    fun a here => congrArg AmtreeNode.left (inside a here),
    fun a here => congrArg AmtreeNode.right (inside a here)⟩
  · induction here with
    | root here => exact .root (same.root.symm.trans here)
    | child s _ here ih =>
        rw [inside _ ih] at here
        exact .child s ih here
  · induction here with
    | root here => exact .root (same.root.trans here)
    | child s earlier here ih =>
        rw [← inside _ earlier] at here
        exact .child s ih here

end Closing

section Steps

variable {fuel : ℕ} {s : State Addr} {T : SearchTree (Entry Addr)}

structure Agreeing (t : Amtree Addr) (u : Embedded.Amitree Addr) (T : SearchTree (Entry Addr)) :
    Prop where
  threaded : Threaded ⟨t, u.links⟩ T
  both : Matches {a | a ∈ addrs T} u.links t u

def Advances (fuel : ℕ) (s : State Addr) (op : Op Addr) (size : ℕ) : Prop :=
  ∃ t u r T, referenceApply fuel s.reference op = .ok (t, r) ∧
    testApply fuel s.test op = .ok (u, r) ∧ Agreeing t u T ∧ T.toList.length ≤ size + 1

omit [DecidableEq Addr] in
theorem agreeing_of_matches {S : Set Addr} {v : Amitree Addr} {u : Embedded.Amitree Addr}
    (threaded : Threaded v T) (both : Matches S v.links v.tree u) : Agreeing v.tree u T := by
  have links := both.links
  refine ⟨?_, same_within both.same threaded.sound.focus, rfl⟩
  rw [links]
  exact threaded

theorem amitreeInsert_present {v : Amitree Addr} (threaded : Threaded v T) {n : Addr}
    (inside : n ∈ addrs T) (enough : T.toList.length < fuel) :
    amitreeInsert fuel v n = .ok (v, some n) := by
  have sound := threaded.sound
  have height := T.height_le_length
  obtain ⟨x, member, rfl⟩ := List.mem_map.mp inside
  have own : (v.tree.node x.addr).key = x.key := (mem_entries sound.focus.holds x member).2
  cases start : ptr T with
  | none => cases T with
    | leaf => cases member
    | node => cases start
  | some root =>
      have begin : v.tree.root = some root := sound.focus.slotted.1.trans start
      rcases descend_spec (n := x.addr) sound.focus start sound.ordered (by simp [before])
        (by simp [after]) (show T.height ≤ fuel by omega) with
        ⟨e, member', key, run⟩ | ⟨f, above, _, whole, low, high⟩
      · -- The key is that of one node only.
        have first := (lookup_eq_some sound.ordered x.key x.addr).mpr member
        have second := (lookup_eq_some sound.ordered x.key e.addr).mpr (own ▸ key ▸ member')
        have same : x.addr = e.addr := Option.some.inj (first.symm.trans second)
        simp only [amitreeInsert, begin, run, bind, Except.bind, ← same]
        rfl
      · replace whole : plug (f :: above) .leaf = T := whole
        rw [← whole, toList_plug] at member
        simp only [SearchTree.toList, List.append_nil, List.mem_append] at member
        rw [own] at low high
        rcases member with lower | higher
        · exact absurd (low x lower) (UInt64.lt_irrefl _)
        · exact absurd (high x higher) (UInt64.lt_irrefl _)

theorem advances_insert (agreeing : Agreeing s.reference s.test T) (enough : T.toList.length < fuel)
    {n : Addr} (key : (s.test.node n).key = (s.reference.node n).key) :
    Advances fuel s (.insert n) T.toList.length := by
  obtain ⟨threaded, both⟩ := agreeing
  have alike := Embedded.matches_insert both key fuel
  have ran : ∃ v r T', amitreeInsert fuel ⟨s.reference, s.test.links⟩ n = .ok (v, r) ∧
      Threaded v T' ∧ T'.toList.length ≤ T.toList.length + 1 := by
    by_cases inside : n ∈ addrs T
    · exact ⟨_, _, T, amitreeInsert_present threaded inside enough, threaded, Nat.le_succ _⟩
    · rcases amitreeInsert_spec threaded inside enough with ⟨a, _, run⟩ | ⟨v, T', run,
        threaded', size⟩
      · exact ⟨_, _, T, run, threaded, Nat.le_succ _⟩
      · exact ⟨v, none, T', run, threaded', size.le⟩
  obtain ⟨v, r, T', run, threaded', size⟩ := ran
  obtain ⟨⟨u, r'⟩, run', same, S, both'⟩ := alike.right run
  simp only at same both'
  subst same
  exact ⟨v.tree, u, r', T', tree_amitreeInsert run, run', agreeing_of_matches threaded' both', size⟩

theorem advances_delete (agreeing : Agreeing s.reference s.test T) (enough : T.toList.length < fuel)
    {n : Addr} (inside : n ∈ addrs T) : ∃ t u T', amtreeDelete fuel s.reference n = .ok t ∧
      Embedded.amitreeDelete fuel s.test n = .ok u ∧ Agreeing t u T' ∧
      T'.toList.length ≤ T.toList.length + 1 := by
  obtain ⟨threaded, both⟩ := agreeing
  obtain ⟨v, T', run, threaded', size⟩ := amitreeDelete_spec threaded inside enough
  obtain ⟨u, run', both'⟩ := (Embedded.matches_delete both inside fuel).right run
  exact ⟨v.tree, u, T', tree_amitreeDelete run, run', agreeing_of_matches threaded' both', by omega⟩

theorem advances (agreeing : Agreeing s.reference s.test T) (enough : T.toList.length < fuel)
    {op : Op Addr} {after : State Addr} (ready : Ready s op after) :
    Advances fuel s op T.toList.length := by
  have focus := agreeing.threaded.sound.focus
  have inTree := inTree_iff focus
  have height := T.height_le_length
  have found (target : AmtreeNode Addr) :
      amtreeFind fuel s.reference target = .ok (lookup target.key T.toList) := by
    rw [amtreeFind, show s.reference.root = ptr T from focus.slotted.1]
    exact amtreeFindFrom_spec target focus.holds agreeing.threaded.sound.addrs_nodup
      agreeing.threaded.sound.ordered (by omega)
  cases op with
  | write pair reference test =>
      have outside : pair ∉ addrs T := fun inside => ready ((inTree pair).mpr inside)
      have threaded := agreeing.threaded.write outside reference test.link
      refine ⟨_, _, none, T, rfl, rfl, ⟨?_, ?_, rfl⟩, Nat.le_succ _⟩
      · rw [Embedded.Amitree.links_modify]
        exact threaded
      · rw [Embedded.Amitree.tree_modify _ pair _ (fun _ => test.fields) fun _ => rfl]
        exact same_outside agreeing.both.same outside _ _
  | insert pair => exact advances_insert agreeing enough ready
  | find reference test =>
      obtain ⟨_, run, rfl, _⟩ := (Embedded.matches_find agreeing.both ready fuel).right
        (found reference)
      exact ⟨s.reference, s.test, _, T, by rw [referenceApply, found]; rfl,
        by rw [testApply, run]; rfl, agreeing, Nat.le_succ _⟩
  | findKey key =>
      obtain ⟨_, run, rfl, _⟩ := (Embedded.matches_findKey agreeing.both fuel key).right (found _)
      exact ⟨s.reference, s.test, _, T, by rw [referenceApply, amtreeFindKey, found]; rfl,
        by rw [testApply, run]; rfl, agreeing, Nat.le_succ _⟩
  | delete pair =>
      obtain ⟨t, u, T', run, run', agreeing', size⟩ :=
        advances_delete agreeing enough ((inTree pair).mp ready)
      exact ⟨t, u, none,
        T', by rw [referenceApply, run]; rfl, by rw [testApply, run']; rfl, agreeing',
        size⟩
  | deleteKey key =>
      obtain ⟨_, run, rfl, _⟩ := (Embedded.matches_findKey agreeing.both fuel key).right (found _)
      cases stored : lookup key T.toList with
      | none =>
          refine ⟨s.reference, s.test, none, T, ?_, ?_, agreeing, Nat.le_succ _⟩
          · simp only [referenceApply, amtreeDeleteKey, amtreeFindKey, found, stored,
              bind, Except.bind]
            rfl
          · simp only [testApply, Embedded.amitreeDeleteKey, run, stored, bind, Except.bind]
            rfl
      | some a =>
          have inside := (lookup_eq_some agreeing.threaded.sound.ordered key a).mp stored
          obtain ⟨t, u, T', deleted, deleted', agreeing', size⟩ :=
            advances_delete agreeing enough (List.mem_map_of_mem inside)
          refine ⟨t, u, some a, T', ?_, ?_, agreeing', size⟩
          · simp only [referenceApply, amtreeDeleteKey, amtreeFindKey, found, stored, deleted, bind,
              Except.bind]
            rfl
          · simp only [testApply, Embedded.amitreeDeleteKey, run, stored, deleted',
              bind, Except.bind]
            rfl
  | swap a z =>
      have inside := (inTree a).mp ready.1
      obtain ⟨v, T', run, threaded, size⟩ := amitreeSwap_spec agreeing.threaded inside
        fun there => ready.2 ((inTree z).mpr there)
      obtain ⟨u, run', both⟩ := (Embedded.matches_swap agreeing.both inside z).right run
      have swapped := tree_amitreeSwap run
      exact ⟨v.tree, u, none, T', by rw [referenceApply, swapped], by rw [testApply, run']; rfl,
        agreeing_of_matches threaded both, by omega⟩

end Steps

section Claims

variable {fuel : ℕ}

def start (reference : Addr → AmtreeNode Addr) (test : Embedded.Amitree Addr) : State Addr :=
  ⟨amtreeInit reference, (Embedded.amitreeInit test).1, []⟩

theorem agreeing_start (reference : Addr → AmtreeNode Addr) (test : Embedded.Amitree Addr) :
    Agreeing (start reference test).reference (start reference test).test .leaf := by
  have links : (start reference test).test.links = amlistInit _ .anchor :=
    Embedded.Amitree.links_withLinks _ _
  refine ⟨⟨sound_init reference, ?_⟩, ⟨rfl, rfl, ?_, ?_, ?_, ?_⟩, rfl⟩
  · rw [links]
    exact ring_init _ _
  · exact fun a inside => absurd inside (mem_addrs_leaf a)
  · rintro a ⟨⟩
  · exact fun a inside => absurd inside (mem_addrs_leaf a)
  · exact fun a inside => absurd inside (mem_addrs_leaf a)

theorem agreeing_run {reference : Addr → AmtreeNode Addr} {test : Embedded.Amitree Addr}
    {ops : List (Op Addr)} {s : State Addr}
    (run : Run (step fuel) Ready (start reference test) ops s) (enough : ops.length < fuel) :
    (∃ T, Agreeing s.reference s.test T ∧ T.toList.length ≤ ops.length) ∧
      ∀ r ∈ s.results, r.2 = r.1 := by
  induction run with
  | nil => exact ⟨⟨.leaf, agreeing_start reference test, Nat.le_refl _⟩, by simp [start]⟩
  | snoc earlier fired ready ih =>
      rename_i prior s s' op
      rw [List.length_append, List.length_singleton] at enough ⊢
      obtain ⟨⟨T, agreeing, size⟩, results⟩ := ih (by omega)
      have room : T.toList.length < fuel := by omega
      obtain ⟨t, u, r, T', applied, applied', agreeing', size'⟩ := advances agreeing room ready
      simp only [step, applied, applied', Option.some.injEq] at fired
      subst fired
      refine ⟨⟨T', agreeing', by omega⟩, ?_⟩
      simpa using results

/-- Every call ends on both trees with the same result and leaves isomorphic trees. -/
theorem amitree_lockstep {reference : Addr → AmtreeNode Addr} {test : Embedded.Amitree Addr}
    {ops : List (Op Addr)} {s : State Addr}
    (run : Run (step fuel) Ready (start reference test) ops s) (enough : ops.length < fuel) :
    Isomorphic s.reference s.test ∧ (∀ r ∈ s.results, r.2 = r.1) ∧
    ∀ op after, Ready s op after → ∃ t u r,
      referenceApply fuel s.reference op = .ok (t, r) ∧ testApply fuel s.test op = .ok (u, r) := by
  obtain ⟨⟨T, agreeing, size⟩, results⟩ := agreeing_run run enough
  refine ⟨isomorphic_of_same agreeing.both.same agreeing.threaded.sound.focus, results,
    fun op after ready => ?_⟩
  have room : T.toList.length < fuel := by omega
  obtain ⟨t, u, r, _, applied, applied', _⟩ := advances agreeing room ready
  exact ⟨t, u, r, applied, applied'⟩

def freshTest (k : UInt64) : Embedded.AmitreeNode ℕ :=
  { Embedded.AmitreeNode.zero with key := k, balance := 9, left := some 4 }

/-- An insertion, a duplicate of it, and a swap of the two. -/
theorem amitree_lockstep_sample : ∃ s : State ℕ, s.test.root = some 2 ∧
    Isomorphic s.reference s.test := by
  have alone {t : Amtree ℕ} (root : t.root = some 1) (single : ∀ s, (t.node 1).child s = none) :
      ¬ InTree t 2 := fun reached => by cases inTree_single root single reached
  have run : Run (step 20) Ready
      (start (fun _ => fresh 0) ⟨none, ⟨none, none⟩, 0, fun _ => freshTest 0⟩)
      ([.write 1 (fresh 5) (freshTest 5), .insert 1, .write 2 (fresh 5) (freshTest 5), .insert 2] ++
        [.swap 1 2]) _ :=
    .snoc (.snoc (.snoc (.snoc (.snoc .nil rfl fun reached => by cases inTree_nonempty reached)
      rfl rfl) rfl (alone rfl fun s => by cases s <;> rfl)) rfl (by exact rfl))
      rfl ⟨.root rfl, alone rfl fun s => by cases s <;> rfl⟩
  exact ⟨_, rfl, (amitree_lockstep run (by decide)).1⟩

end Claims

end Libam.ITree.Paired
