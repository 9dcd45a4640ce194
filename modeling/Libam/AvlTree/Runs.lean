import Libam.AvlTree.Updates
import Libam.Concurrency.Interleaving

/-! Sequences of calls on one tree: the tree stays well formed, and it is a finite map from keys to
node objects. -/

namespace Libam.AvlTree

open Libam.Trees Libam.Interleaving

variable {Addr : Type}

/-- A call. The fields of a node that is inserted are the caller's until then. -/
inductive Op (Addr : Type)
  | insert (node : Addr) (fields : AmtreeNode Addr)
  | findKey (key : UInt64)
  | delete (node : Addr)
  | deleteKey (key : UInt64)
  | swap (toRemove toInsert : Addr)

inductive InTree (t : Amtree Addr) : Addr → Prop
  | root {a : Addr} : t.root = some a → InTree t a
  | child {a b : Addr} (s : Side) : InTree t a → (t.node a).child s = some b → InTree t b

/-- Linked both ways, in key order, balanced and counted. -/
def WellFormed (t : Amtree Addr) : Prop :=
  ∃ T : SearchTree (Entry Addr), Slotted t .root (ptr T) ∧ Holds t T ∧ InOrder T.toList ∧ T.Avl ∧
    t.count.toNat = T.toList.length

section Membership

variable {t : Amtree Addr} {T : SearchTree (Entry Addr)}

theorem child_mem (holds : Holds t T) {a b : Addr} (s : Side) (inside : a ∈ addrs T)
    (child : (t.node a).child s = some b) : b ∈ addrs T := by
  induction T with
  | leaf => simp at inside
  | node l x c r ihl ihr =>
      have member (u : Addr) : u ∈ addrs (.node l x c r) ↔ u = x.addr ∨ u ∈ addrs l ∨ u ∈ addrs r :=
        mem_addrs_join .left l r x c u
      obtain ⟨_, left, right, holdsL, holdsR⟩ := holds
      rw [member]
      rcases (member a).mp inside with rfl | inLeft | inRight
      · cases s
        · exact .inr (.inl (mem_addrs_of_ptr (left.1.symm.trans child)))
        · exact .inr (.inr (mem_addrs_of_ptr (right.1.symm.trans child)))
      · exact .inr (.inl (ihl holdsL inLeft))
      · exact .inr (.inr (ihr holdsR inRight))

theorem inTree_below (holds : Holds t T) {root : Addr} (start : ptr T = some root)
    (reached : InTree t root) {a : Addr} (inside : a ∈ addrs T) : InTree t a := by
  induction T generalizing root with
  | leaf => cases start
  | node l x c r ihl ihr =>
      cases start
      obtain ⟨_, left, right, holdsL, holdsR⟩ := holds
      rcases (mem_addrs_join .left l r x c a).mp inside with rfl | inLeft | inRight
      · exact reached
      · cases child : ptr l with
        | none => cases l with
          | leaf => simp at inLeft
          | node => cases child
        | some b => exact ihl holdsL child (.child .left reached (left.1.trans child)) inLeft
      · cases child : ptr r with
        | none => cases r with
          | leaf => simp at inRight
          | node => cases child
        | some b => exact ihr holdsR child (.child .right reached (right.1.trans child)) inRight

theorem inTree_iff (focus : Focus t [] T) (a : Addr) : InTree t a ↔ a ∈ addrs T := by
  constructor
  · intro reached
    induction reached with
    | root here => exact mem_addrs_of_ptr (focus.slotted.1.symm.trans here)
    | child s _ here ih => exact child_mem focus.holds s ih here
  · intro inside
    cases start : ptr T with
    | none => cases T with
      | leaf => simp at inside
      | node => cases start
    | some root =>
        exact inTree_below focus.holds start (.root (focus.slotted.1.trans start)) inside

theorem mem_entries (holds : Holds t T) (e : Entry Addr) :
    e ∈ T.toList → e.addr ∈ addrs T ∧ (t.node e.addr).key = e.key := by
  intro inside
  refine ⟨List.mem_map_of_mem inside, ?_⟩
  induction T with
  | leaf => cases inside
  | node l x c r ihl ihr =>
      obtain ⟨carries, _, _, holdsL, holdsR⟩ := holds
      simp only [SearchTree.toList, List.mem_append, List.mem_cons] at inside
      rcases inside with inLeft | rfl | inRight
      · exact ihl holdsL inLeft
      · exact carries.1
      · exact ihr holdsR inRight

theorem mem_entries_iff (focus : Focus t [] T) (k : UInt64) (a : Addr) :
    (⟨k, a⟩ : Entry Addr) ∈ T.toList ↔ InTree t a ∧ (t.node a).key = k := by
  rw [inTree_iff focus]
  constructor
  · exact mem_entries focus.holds ⟨k, a⟩
  · rintro ⟨inside, rfl⟩
    obtain ⟨e, member, rfl⟩ := List.mem_map.mp inside
    rwa [(mem_entries focus.holds e member).2]

theorem inTree_nonempty {t : Amtree Addr} {a : Addr} (reached : InTree t a) : t.root.isSome := by
  induction reached with
  | root here => simp [here]
  | child s _ here ih => exact ih

theorem inTree_single {t : Amtree Addr} {r a : Addr} (root : t.root = some r)
    (single : ∀ s, (t.node r).child s = none) (reached : InTree t a) : a = r := by
  induction reached with
  | root here => exact Option.some.inj (here.symm.trans root)
  | child s _ here ih =>
      subst ih
      rw [single s] at here
      cases here

end Membership

variable [DecidableEq Addr]

def amtreeApply (fuel : ℕ) (t : Amtree Addr) : Op Addr → Except Fault (Amtree Addr × Option Addr)
  | .insert node fields => amtreeInsert fuel (t.modify node fun _ => fields) node
  | .findKey key => (amtreeFindKey fuel t key).map fun found => (t, found)
  | .delete node => (amtreeDelete fuel t node).map fun t => (t, none)
  | .deleteKey key => amtreeDeleteKey fuel t key
  | .swap toRemove toInsert => .ok (amtreeSwap t toRemove toInsert, none)

abbrev History (Addr : Type) := Amtree Addr × List (Option Addr)

def step (fuel : ℕ) (s : History Addr) (op : Op Addr) : Option (History Addr) :=
  match amtreeApply fuel s.1 op with
  | .ok (t, result) => some (t, result :: s.2)
  | .error _ => none

/-- Deletes and swap-outs of nodes in the tree, inserts and swap-ins of nodes outside it, and fewer
than 2^32 nodes. -/
def Ready (s : History Addr) (op : Op Addr) (_ : History Addr) : Prop :=
  match op with
  | .insert node _ => ¬ InTree s.1 node ∧ s.1.count.toNat + 1 < 2 ^ 32
  | .delete node => InTree s.1 node
  | .swap toRemove toInsert => InTree s.1 toRemove ∧ ¬ InTree s.1 toInsert
  | _ => True

/-- What a call does to a map from keys to node objects, and what it returns. -/
def mapApply (op : Op Addr) (M : UInt64 → Option Addr) : (UInt64 → Option Addr) × Option Addr :=
  match op with
  | .insert node fields =>
      match M fields.key with
      | some stored => (M, some stored)
      | none => (Function.update M fields.key (some node), none)
  | .findKey key => (M, M key)
  | .delete node => (fun k => if M k = some node then none else M k, none)
  | .deleteKey key => (Function.update M key none, M key)
  | .swap toRemove toInsert => (fun k => if M k = some toRemove then some toInsert else M k, none)

/-- The map after a sequence of calls, and what they return, newest first. -/
def mapRun (ops : List (Op Addr)) : (UInt64 → Option Addr) × List (Option Addr) :=
  ops.foldl (fun s op => ((mapApply op s.1).1, (mapApply op s.1).2 :: s.2)) (fun _ => none, [])

section Refinement

variable {fuel : ℕ} {t : Amtree Addr} {T : SearchTree (Entry Addr)} {M : UInt64 → Option Addr}

def Stores (M : UInt64 → Option Addr) (T : SearchTree (Entry Addr)) : Prop :=
  ∀ k a, M k = some a ↔ (⟨k, a⟩ : Entry Addr) ∈ T.toList

omit [DecidableEq Addr] in
theorem Sound.addrs_nodup (sound : Sound t T) : (addrs T).Nodup :=
  sound.focus.distinct.of_append_left

omit [DecidableEq Addr] in
theorem Sound.size (sound : Sound t T) (small : T.toList.length < 2 ^ 32) :
    t.count.toNat = T.toList.length := by
  rw [sound.count, UInt32.toNat_ofNat']
  exact Nat.mod_eq_of_lt small

omit [DecidableEq Addr] in
theorem Sound.key_unique (sound : Sound t T) {e e' : Entry Addr} (first : e ∈ T.toList)
    (second : e' ∈ T.toList) (same : e.addr = e'.addr) : e = e' :=
  List.inj_on_of_nodup_map sound.addrs_nodup first second same

omit [DecidableEq Addr] in
theorem Sound.mem_without (sound : Sound t T) {l r : List (Entry Addr)} {x : Entry Addr}
    (contents : T.toList = l ++ x :: r) (e : Entry Addr) :
    e ∈ l ++ r ↔ e ∈ T.toList ∧ e.addr ≠ x.addr := by
  have distinct := sound.addrs_nodup
  rw [addrs, contents, (List.perm_middle.map _).nodup_iff, List.map_cons,
    List.nodup_cons] at distinct
  have outside : ∀ e ∈ l ++ r, e.addr ≠ x.addr := fun e inside same =>
    distinct.1 (List.mem_map.mpr ⟨e, inside, same⟩)
  rw [contents, List.perm_middle.mem_iff, List.mem_cons]
  constructor
  · exact fun inside => ⟨.inr inside, outside e inside⟩
  · rintro ⟨rfl | inside, other⟩
    · exact absurd rfl other
    · exact inside

theorem amtreeFindKey_spec (sound : Sound t T) (enough : T.toList.length < fuel) (k : UInt64) :
    amtreeFindKey fuel t k = .ok (lookup k T.toList) := by
  have height := T.height_le_length
  have found := amtreeFindFrom_spec { AmtreeNode.zero with key := k } sound.focus.holds
    sound.addrs_nodup sound.ordered (show T.height < fuel by omega)
  rw [amtreeFindKey, amtreeFind, show t.root = ptr T from sound.focus.slotted.1]
  exact found

theorem Sound.modify (sound : Sound t T) {n : Addr} (outside : n ∉ addrs T)
    (f : AmtreeNode Addr → AmtreeNode Addr) : Sound (t.modify n f) T := by
  obtain ⟨focus, avl, ordered, count⟩ := sound
  have same : ∀ a ∈ addrs T, (t.modify n f).node a = t.node a := fun a inside => by
    have other : a ≠ n := fun here => outside (here ▸ inside)
    simp [Amtree.modify, other]
  refine ⟨⟨trivial, ⟨focus.slotted.1, fun a root => ?_⟩, focus.holds.congr same, focus.distinct⟩,
    avl, ordered, count⟩
  rw [same a (mem_addrs_of_ptr root)]
  exact focus.slotted.2 a root

def Agrees (fuel : ℕ) (t : Amtree Addr) (M : UInt64 → Option Addr) (op : Op Addr) : Prop :=
  ∃ t' T', amtreeApply fuel t op = .ok (t', (mapApply op M).2) ∧ Sound t' T' ∧
    T'.toList.length < 2 ^ 32 ∧ Stores (mapApply op M).1 T'

omit [DecidableEq Addr] in
theorem Stores.lookup (stores : Stores M T) (sound : Sound t T) (k : UInt64) :
    lookup k T.toList = M k := by
  cases found : M k with
  | none =>
      apply lookup_absent
      intro e inside same
      have stored := (stores k e.addr).mpr (same ▸ inside)
      rw [found] at stored
      cases stored
  | some a => exact (lookup_eq_some sound.ordered k a).mpr ((stores k a).mp found)

theorem agrees_insert (sound : Sound t T) (stores : Stores M T) (enough : 2 ^ 32 ≤ fuel)
    {n : Addr} (outside : n ∉ addrs T) (fields : AmtreeNode Addr)
    (small : T.toList.length + 1 < 2 ^ 32) : Agrees fuel t M (.insert n fields) := by
  have own : ((t.modify n fun _ => fields).node n).key = fields.key := by simp [Amtree.modify]
  have written := sound.modify outside fun _ => fields
  rcases amtreeInsert_spec written outside (show T.toList.length < fuel by omega) with
    ⟨a, inside, run, _⟩ | ⟨t', T', l, r, run, sound', contents, contents', absent, _⟩
  · rw [own] at inside
    have found := (stores fields.key a).mpr inside
    refine ⟨_, T, ?_, written, by omega, ?_⟩
    · simp only [mapApply, found]
      exact run
    · simpa only [mapApply, found] using stores
  · rw [own] at contents' absent
    have missing : M fields.key = none := by
      rw [← stores.lookup sound]
      exact lookup_absent absent
    refine ⟨t', T', ?_, sound', ?_, fun k a => ?_⟩
    · simp only [mapApply, missing]
      exact run
    · rw [contents', List.perm_middle.length_eq, List.length_cons, ← contents]
      exact small
    · simp only [mapApply, missing]
      rw [contents', List.perm_middle.mem_iff, List.mem_cons, ← contents, ← stores k a]
      by_cases same : k = fields.key
      · subst same
        simp [missing, eq_comm]
      · simp [same]

theorem agrees_delete (sound : Sound t T) (stores : Stores M T) (enough : 2 ^ 32 ≤ fuel)
    {n : Addr} (inside : n ∈ addrs T) (small : T.toList.length < 2 ^ 32) :
    ∃ t' T', amtreeDelete fuel t n = .ok t' ∧ Sound t' T' ∧ T'.toList.length < 2 ^ 32 ∧
      Stores (fun k => if M k = some n then none else M k) T' := by
  obtain ⟨t', T', l, x, r, run, sound', rfl, contents, contents'⟩ :=
    amtreeDelete_spec sound inside (show T.toList.length < fuel by omega)
  refine ⟨t', T', run, sound', ?_, fun k a => ?_⟩
  · rw [contents, List.perm_middle.length_eq, List.length_cons, ← contents'] at small
    omega
  · rw [contents', sound.mem_without contents, ← stores k a]
    simp only
    split <;> rename_i here
    · simp [here, eq_comm]
    · simp only [iff_self_and]
      rintro stored rfl
      exact here stored

theorem agrees_swap (sound : Sound t T) (stores : Stores M T) {a z : Addr} (inside : a ∈ addrs T)
    (outside : z ∉ addrs T) (small : T.toList.length < 2 ^ 32) :
    Agrees fuel t M (.swap a z) := by
  obtain ⟨T', l, x, r, sound', rfl, contents, contents'⟩ := amtreeSwap_spec sound inside outside
  refine ⟨_, T', rfl, sound', ?_, fun k b => ?_⟩
  · rw [contents] at small
    rw [contents']
    simpa using small
  · have member : x ∈ T.toList := by simp [contents]
    rw [contents', List.perm_middle.mem_iff, List.mem_cons,
      sound.mem_without contents, ← stores k b]
    simp only [mapApply, Entry.mk.injEq]
    split <;> rename_i here
    · have same := sound.key_unique ((stores k _).mp here) member rfl
      have key : k = x.key := congrArg Entry.key same
      rw [here]
      constructor
      · rintro ⟨⟩
        exact .inl ⟨key, rfl⟩
      · rintro (⟨_, rfl⟩ | ⟨stored, other⟩)
        · rfl
        · exact absurd (Option.some.inj stored).symm other
    · have other : k ≠ x.key := by
        rintro rfl
        exact here ((stores _ _).mpr member)
      simp only [other, false_and, false_or, iff_self_and]
      rintro stored rfl
      exact here stored

theorem apply_agrees (sound : Sound t T) (stores : Stores M T) (enough : 2 ^ 32 ≤ fuel)
    (small : T.toList.length < 2 ^ 32) {results : List (Option Addr)} {op : Op Addr}
    {after : History Addr} (ready : Ready (t, results) op after) : Agrees fuel t M op := by
  have inTree := inTree_iff sound.focus
  have found (k : UInt64) : amtreeFindKey fuel t k = .ok (M k) := by
    rw [amtreeFindKey_spec sound (by omega), stores.lookup sound]
  cases op with
  | insert n fields =>
      obtain ⟨outside, room⟩ := ready
      rw [sound.size small] at room
      exact agrees_insert sound stores enough (fun inside => outside ((inTree n).mpr inside)) fields
        room
  | findKey k =>
      refine ⟨t, T, ?_, sound, small, stores⟩
      simp only [amtreeApply, found]
      rfl
  | delete n =>
      obtain ⟨t', T', run, sound', small', stores'⟩ :=
        agrees_delete sound stores enough ((inTree n).mp ready) small
      refine ⟨t', T', ?_, sound', small', stores'⟩
      simp only [amtreeApply, run]
      rfl
  | deleteKey k =>
      cases stored : M k with
      | none =>
          refine ⟨t, T, ?_, sound, small, ?_⟩
          · simp only [amtreeApply, amtreeDeleteKey, found, stored, mapApply, bind, Except.bind]
            rfl
          · have same : Function.update M k none = M := by rw [← stored, Function.update_eq_self]
            simpa only [mapApply, same] using stores
      | some a =>
          have entry := (stores k a).mp stored
          obtain ⟨t', T', run, sound', small', stores'⟩ :=
            agrees_delete sound stores enough (List.mem_map_of_mem entry) small
          refine ⟨t', T', ?_, sound', small', fun k' b => ?_⟩
          · simp only [amtreeApply, amtreeDeleteKey, found, stored, mapApply, bind,
              Except.bind, run]
            rfl
          · rw [← stores' k' b]
            have only : M k' = some a ↔ k' = k := by
              refine ⟨fun here => ?_, fun here => here ▸ stored⟩
              exact congrArg Entry.key (sound.key_unique ((stores k' a).mp here) entry rfl)
            simp only [mapApply, Function.update_apply, only]
  | swap a z =>
      exact agrees_swap sound stores ((inTree a).mp ready.1)
        (fun inside => ready.2 ((inTree z).mpr inside)) small

end Refinement

section Claims

variable {fuel : ℕ}

/-- The tree holds what the map says, and the calls have returned what it says. -/
def Refines (ops : List (Op Addr)) (s : History Addr) : Prop :=
  ∃ T, Sound s.1 T ∧ T.toList.length < 2 ^ 32 ∧ Stores (mapRun ops).1 T ∧ (mapRun ops).2 = s.2

theorem mapRun_snoc (ops : List (Op Addr)) (op : Op Addr) : mapRun (ops ++ [op]) =
    ((mapApply op (mapRun ops).1).1, (mapApply op (mapRun ops).1).2 :: (mapRun ops).2) := by
  simp [mapRun]

omit [DecidableEq Addr] in
theorem sound_init (node : Addr → AmtreeNode Addr) : Sound (amtreeInit node) .leaf :=
  ⟨⟨trivial, ⟨rfl, fun _ root => by cases root⟩,
    trivial, by simp [addrs, SearchTree.toList, wayAddrs, around]⟩, trivial, List.Pairwise.nil, rfl⟩

theorem refines_run (enough : 2 ^ 32 ≤ fuel) {node : Addr → AmtreeNode Addr} {ops : List (Op Addr)}
    {s : History Addr} (run : Run (step fuel) Ready (amtreeInit node, []) ops s) :
    Refines ops s := by
  induction run with
  | nil =>
      exact ⟨.leaf, sound_init
        node, by simp [SearchTree.toList], fun k a => by simp [mapRun, SearchTree.toList],
      rfl⟩
  | snoc earlier fired ready ih =>
      rename_i prior s s' op
      obtain ⟨T, sound, small, stores, results⟩ := ih
      obtain ⟨t', T', applied, sound', small', stores'⟩ :=
        apply_agrees sound stores enough small ready
      simp only [step, applied, Option.some.injEq] at fired
      subst fired
      rw [Refines, mapRun_snoc]
      exact ⟨T', sound', small', stores', by rw [results]⟩

/-- Every call ends, without `abort()` and without following a NULL pointer, and leaves a
well-formed tree. -/
theorem amtree_well_formed (enough : 2 ^ 32 ≤ fuel) {node : Addr → AmtreeNode Addr}
    {ops : List (Op Addr)} {s : History Addr}
    (run : Run (step fuel) Ready (amtreeInit node, []) ops s) :
    WellFormed s.1 ∧ ∀ op after, Ready s op after → ∃ t' result,
      amtreeApply fuel s.1 op = .ok (t', result) := by
  obtain ⟨T, sound, small, stores, _⟩ := refines_run enough run
  refine ⟨⟨T, sound.focus.slotted, sound.focus.holds, sound.ordered, sound.avl, sound.size small⟩,
    fun op after ready => ?_⟩
  obtain ⟨t', T', applied, _⟩ := apply_agrees sound stores enough small ready
  exact ⟨t', _, applied⟩

def fresh (k : UInt64) : AmtreeNode ℕ := { AmtreeNode.zero with key := k }

/-- Two insertions and the deletion of the root. -/
theorem amtree_well_formed_sample : ∃ s : History ℕ, s.1.root = some 2 ∧ WellFormed s.1 := by
  have run : Run (step (2 ^ 32)) Ready (amtreeInit fun _ => fresh 0, [])
      ([.insert 1 (fresh 5), .insert 2 (fresh 7)] ++ [.delete 1]) _ :=
    .snoc (.snoc (.snoc .nil rfl ⟨fun reached => (by cases inTree_nonempty reached), by decide⟩) rfl
      ⟨fun reached => (by cases inTree_single rfl (by intro s; cases s <;> rfl) reached),
        by decide⟩)
      rfl (.root rfl)
  exact ⟨_, rfl, (amtree_well_formed (Nat.le_refl _) run).1⟩

/-- The tree is the map. -/
theorem amtree_refines_map (enough : 2 ^ 32 ≤ fuel) {node : Addr → AmtreeNode Addr}
    {ops : List (Op Addr)} {s : History Addr}
    (run : Run (step fuel) Ready (amtreeInit node, []) ops s) :
    s.2 = (mapRun ops).2 ∧
    (∀ k a, (mapRun ops).1 k = some a ↔ InTree s.1 a ∧ (s.1.node a).key = k) ∧
    (∀ n a, ¬ InTree s.1 n → (mapRun ops).1 (s.1.node n).key = some a →
      amtreeInsert fuel s.1 n = .ok (s.1, some a)) ∧
    ∀ k, (mapRun ops).1 k = none → amtreeDeleteKey fuel s.1 k = .ok (s.1, none) := by
  obtain ⟨T, sound, small, stores, results⟩ := refines_run enough run
  refine ⟨results.symm, fun k a => (stores k a).trans (mem_entries_iff sound.focus k a),
    fun n a outside stored => ?_, fun k missing => ?_⟩
  · have away : n ∉ addrs T := fun inside => outside ((inTree_iff sound.focus n).mpr inside)
    have entry := (stores _ a).mp stored
    rcases amtreeInsert_spec sound away (show T.toList.length < fuel by omega) with
      ⟨b, inside, run, _⟩ | ⟨_, _, _, _, _, _, _, _, absent, _⟩
    · have same := ((stores _ b).mpr inside).symm.trans stored
      cases same
      exact run
    · exact absurd rfl (absent _ entry)
  · simp only [amtreeDeleteKey, amtreeFindKey_spec sound (show T.toList.length < fuel by omega),
      stores.lookup sound, missing, bind, Except.bind]
    rfl

/-- The second insertion finds the key taken. -/
theorem amtree_refines_map_sample : ∃ s : History ℕ, s.2 = [some 1, some 1, none] ∧
    InTree s.1 1 ∧ (s.1.node 1).key = 5 := by
  have run : Run (step (2 ^ 32)) Ready (amtreeInit fun _ => fresh 0, [])
      ([.insert 1 (fresh 5), .insert 2 (fresh 5)] ++ [.findKey 5]) _ :=
    .snoc (.snoc (.snoc .nil rfl ⟨fun reached => (by cases inTree_nonempty reached), by decide⟩) rfl
      ⟨fun reached => (by cases inTree_single rfl (by intro s; cases s <;> rfl) reached),
        by decide⟩)
      rfl trivial
  have refined := amtree_refines_map (Nat.le_refl _) run
  exact ⟨_, refined.1.trans rfl, (refined.2.1 5 1).mp rfl⟩
end Claims

end Libam.AvlTree
