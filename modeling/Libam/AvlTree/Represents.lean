import Libam.AvlTree.Model

/-! What it means that the memory holds a tree, seen from any of its nodes, and how writes to single
pointers change it. -/

namespace Libam.AvlTree

open Libam.Trees

variable {Addr : Type}

structure Entry (Addr : Type) where
  key : UInt64
  addr : Addr
  deriving DecidableEq, Repr

def ptr : SearchTree (Entry Addr) → Option Addr
  | .leaf => none
  | .node _ x _ _ => some x.addr

def addrs (T : SearchTree (Entry Addr)) : List Addr := T.toList.map Entry.addr

def wayAddrs (above : List (Frame (Entry Addr))) : List Addr := (around above).map Entry.addr

@[simp] theorem ptr_join (s : Side) (T U : SearchTree (Entry Addr)) (x : Entry Addr) (b : ℤ) :
    ptr (.join s T x b U) = some x.addr := by
  cases s <;> rfl

@[simp] theorem mem_addrs_leaf (a : Addr) : a ∉ addrs (.leaf : SearchTree (Entry Addr)) := by
  simp [addrs, SearchTree.toList]

@[simp] theorem mem_addrs_join (s : Side) (T U : SearchTree (Entry Addr)) (x : Entry Addr) (b : ℤ)
    (a : Addr) : a ∈ addrs (.join s T x b U) ↔ a = x.addr ∨ a ∈ addrs T ∨ a ∈ addrs U := by
  have perm := (SearchTree.toList_join s T x b U).map Entry.addr
  simp only [addrs, perm.mem_iff]
  simp

@[simp] theorem mem_wayAddrs_cons (f : Frame (Entry Addr)) (above : List (Frame (Entry Addr)))
    (a : Addr) :
    a ∈ wayAddrs (f :: above) ↔ a = f.x.addr ∨ a ∈ addrs f.sibling ∨ a ∈ wayAddrs above := by
  simp [wayAddrs, addrs, around]

theorem mem_addrs_of_ptr {T : SearchTree (Entry Addr)} {a : Addr} (root : ptr T = some a) :
    a ∈ addrs T := by
  cases T with
  | leaf => cases root
  | node l x b r =>
      cases root
      simp [addrs, SearchTree.toList]

def Slotted (t : Amtree Addr) (slot : Slot Addr) (c : Option Addr) : Prop :=
  t.load slot = c ∧ ∀ a, c = some a → (t.node a).parent = slot.owner

def Carries (t : Amtree Addr) (x : Entry Addr) (b : ℤ) : Prop :=
  (t.node x.addr).key = x.key ∧ (t.node x.addr).balance = b

def Holds (t : Amtree Addr) : SearchTree (Entry Addr) → Prop
  | .leaf => True
  | .node l x b r =>
      Carries t x b ∧ Slotted t (.child x.addr .left) (ptr l) ∧
        Slotted t (.child x.addr .right) (ptr r) ∧ Holds t l ∧ Holds t r

def endSlot : List (Frame (Entry Addr)) → Slot Addr
  | [] => .root
  | f :: _ => .child f.x.addr f.side

def HoldsWay (t : Amtree Addr) : List (Frame (Entry Addr)) → Prop
  | [] => True
  | f :: above =>
      Carries t f.x f.balance ∧
        Slotted t (.child f.x.addr f.side.other) (ptr f.sibling) ∧ Holds t f.sibling ∧
        Slotted t (endSlot above) (some f.x.addr) ∧ HoldsWay t above

theorem holds_join (t : Amtree Addr) (s : Side) (T U : SearchTree (Entry Addr)) (x : Entry Addr)
    (b : ℤ) :
    Holds t (.join s T x b U) ↔
      Carries t x b ∧ Slotted t (.child x.addr s) (ptr T) ∧
        Slotted t (.child x.addr s.other) (ptr U) ∧ Holds t T ∧ Holds t U := by
  cases s
  · rfl
  · simp only [SearchTree.join, Holds, Side.other]
    tauto

section Writes

variable [DecidableEq Addr]

@[simp] theorem load_setBalance (t : Amtree Addr) (a : Addr) (b : ℤ) (slot : Slot Addr) :
    (t.setBalance a b).load slot = t.load slot := by
  cases slot with
  | root => rfl
  | child p s =>
      simp only [Amtree.load, Amtree.setBalance, Amtree.modify, Function.update_apply]
      cases s <;> split <;> simp_all [AmtreeNode.child]

@[simp] theorem parent_setBalance (t : Amtree Addr) (a c : Addr) (b : ℤ) :
    ((t.setBalance a b).node c).parent = (t.node c).parent := by
  simp only [Amtree.setBalance, Amtree.modify, Function.update_apply]
  split <;> simp_all

@[simp] theorem key_setBalance (t : Amtree Addr) (a c : Addr) (b : ℤ) :
    ((t.setBalance a b).node c).key = (t.node c).key := by
  simp only [Amtree.setBalance, Amtree.modify, Function.update_apply]
  split <;> simp_all

theorem balance_setBalance (t : Amtree Addr) (a c : Addr) (b : ℤ) :
    ((t.setBalance a b).node c).balance = if c = a then b else (t.node c).balance := by
  simp only [Amtree.setBalance, Amtree.modify, Function.update_apply]
  split <;> simp_all

@[simp] theorem key_setParent (t : Amtree Addr) (c p : Option Addr) (a : Addr) :
    ((t.setParent c p).node a).key = (t.node a).key := by
  cases c with
  | none => rfl
  | some c =>
      simp only [Amtree.setParent, Amtree.modify, Function.update_apply]
      split <;> simp_all

@[simp] theorem balance_setParent (t : Amtree Addr) (c p : Option Addr) (a : Addr) :
    ((t.setParent c p).node a).balance = (t.node a).balance := by
  cases c with
  | none => rfl
  | some c =>
      simp only [Amtree.setParent, Amtree.modify, Function.update_apply]
      split <;> simp_all

theorem parent_setParent (t : Amtree Addr) (c p : Option Addr) (a : Addr) :
    ((t.setParent c p).node a).parent = if c = some a then p else (t.node a).parent := by
  cases c with
  | none => rfl
  | some c =>
      simp only [Amtree.setParent, Amtree.modify, Function.update_apply, Option.some.injEq,
        eq_comm (a := c)]
      split <;> simp_all

@[simp] theorem load_setParent (t : Amtree Addr) (c p : Option Addr) (slot : Slot Addr) :
    (t.setParent c p).load slot = t.load slot := by
  cases c with
  | none => rfl
  | some c =>
      cases slot with
      | root => rfl
      | child q s =>
          simp only [Amtree.load, Amtree.setParent, Amtree.modify, Function.update_apply]
          cases s <;> split <;> simp_all [AmtreeNode.child]

@[simp] theorem key_store (t : Amtree Addr) (slot : Slot Addr) (c : Option Addr) (a : Addr) :
    ((t.store slot c).node a).key = (t.node a).key := by
  cases slot with
  | root => rfl
  | child p s =>
      simp only [Amtree.store, Amtree.modify, Function.update_apply]
      cases s <;> split <;> simp_all [AmtreeNode.setChild]

@[simp] theorem balance_store (t : Amtree Addr) (slot : Slot Addr) (c : Option Addr) (a : Addr) :
    ((t.store slot c).node a).balance = (t.node a).balance := by
  cases slot with
  | root => rfl
  | child p s =>
      simp only [Amtree.store, Amtree.modify, Function.update_apply]
      cases s <;> split <;> simp_all [AmtreeNode.setChild]

@[simp] theorem parent_store (t : Amtree Addr) (slot : Slot Addr) (c : Option Addr) (a : Addr) :
    ((t.store slot c).node a).parent = (t.node a).parent := by
  cases slot with
  | root => rfl
  | child p s =>
      simp only [Amtree.store, Amtree.modify, Function.update_apply]
      cases s <;> split <;> simp_all [AmtreeNode.setChild]

theorem load_store (t : Amtree Addr) (slot slot' : Slot Addr) (c : Option Addr) :
    (t.store slot c).load slot' = if slot' = slot then c else t.load slot' := by
  cases slot with
  | root =>
      cases slot' with
      | root => simp [Amtree.store, Amtree.load]
      | child p s => simp [Amtree.store, Amtree.load]
  | child p s =>
      cases slot' with
      | root => simp [Amtree.store, Amtree.load, Amtree.modify]
      | child q u =>
          simp only [Amtree.store, Amtree.load, Amtree.modify, Function.update_apply,
            Slot.child.injEq]
          cases s <;> cases u <;> by_cases same : q = p <;>
            simp [same, AmtreeNode.child, AmtreeNode.setChild]

@[simp] theorem count_link (t : Amtree Addr) (slot : Slot Addr) (c : Option Addr) :
    (t.link slot c).count = t.count := by
  cases slot <;> cases c <;> rfl

@[simp] theorem count_setBalance (t : Amtree Addr) (a : Addr) (b : ℤ) :
    (t.setBalance a b).count = t.count := rfl

theorem Slotted.link_same (t : Amtree Addr) (slot : Slot Addr) (c : Option Addr) :
    Slotted (t.link slot c) slot c := by
  refine ⟨by simp [Amtree.link, load_store], fun a here => ?_⟩
  simp [Amtree.link, parent_setParent, here]

theorem Slotted.link {t : Amtree Addr} {slot slot' : Slot Addr} {c c' : Option Addr}
    (slotted : Slotted t slot' c') (other : slot' ≠ slot) (apart : ∀ a, c' = some a → c ≠ some a) :
    Slotted (t.link slot c) slot' c' := by
  refine ⟨by simpa [Amtree.link, load_store, other] using slotted.1, fun a here => ?_⟩
  simpa [Amtree.link, parent_setParent, apart a here] using slotted.2 a here

@[simp] theorem slotted_setBalance (t : Amtree Addr) (a : Addr) (b : ℤ) (slot : Slot Addr)
    (c : Option Addr) : Slotted (t.setBalance a b) slot c ↔ Slotted t slot c := by
  simp [Slotted]

@[simp] theorem carries_link (t : Amtree Addr) (slot : Slot Addr) (c : Option Addr)
    (x : Entry Addr) (b : ℤ) : Carries (t.link slot c) x b ↔ Carries t x b := by
  simp [Carries, Amtree.link]

@[simp] theorem balance_link (t : Amtree Addr) (slot : Slot Addr) (c : Option Addr) (a : Addr) :
    ((t.link slot c).node a).balance = (t.node a).balance := by
  simp [Amtree.link]

theorem Carries.setBalance {t : Amtree Addr} {x : Entry Addr} {b : ℤ} (carries : Carries t x b)
    (b' : ℤ) : Carries (t.setBalance x.addr b') x b' := by
  simpa [Carries, balance_setBalance] using carries.1

theorem Carries.setBalance_other {t : Amtree Addr} {x : Entry Addr} {b : ℤ}
    (carries : Carries t x b) {a : Addr} (other : x.addr ≠ a) (b' : ℤ) :
    Carries (t.setBalance a b') x b := by
  simpa [Carries, balance_setBalance, other] using carries

def below : SearchTree (Entry Addr) → List Addr
  | .leaf => []
  | .node l _ _ r => addrs l ++ addrs r

omit [DecidableEq Addr] in
theorem addrs_node (l : SearchTree (Entry Addr)) (x : Entry Addr) (b : ℤ)
    (r : SearchTree (Entry Addr)) :
    (addrs (.node l x b r)).Perm (x.addr :: below (.node l x b r)) := by
  simpa [addrs, below, SearchTree.join] using (SearchTree.toList_join .left l x b r).map Entry.addr

omit [DecidableEq Addr] in
theorem below_subset {T : SearchTree (Entry Addr)} {a : Addr} (inner : a ∈ below T) :
    a ∈ addrs T := by
  cases T with
  | leaf => cases inner
  | node l x b r => exact (addrs_node l x b r).mem_iff.mpr (List.mem_cons_of_mem _ inner)

omit [DecidableEq Addr] in
theorem root_not_below {T : SearchTree (Entry Addr)} {a : Addr} (distinct : (addrs T).Nodup)
    (root : ptr T = some a) : a ∉ below T := by
  cases T with
  | leaf => cases root
  | node l x b r =>
      cases root
      exact (List.nodup_cons.mp ((addrs_node l x b r).nodup_iff.mp distinct)).1

/-- A tree stays if no node of it gets a new child and no node below its root a new parent. -/
theorem Holds.link {t : Amtree Addr} {T : SearchTree (Entry Addr)} (holds : Holds t T)
    {slot : Slot Addr} {c : Option Addr} (outside : ∀ p, slot.owner = some p → p ∉ addrs T)
    (apart : ∀ a, c = some a → a ∉ below T) : Holds (t.link slot c) T := by
  induction T with
  | leaf => trivial
  | node l x b r ihl ihr =>
      obtain ⟨carries, left, right, holdsLeft, holdsRight⟩ := holds
      have other (s : Side) : Slot.child x.addr s ≠ slot := by
        rintro rfl
        exact outside x.addr rfl (by simp [addrs, SearchTree.toList])
      have member (u : Addr) : u ∈ addrs (.node l x b r) ↔ u = x.addr ∨ u ∈ addrs l ∨ u ∈ addrs r :=
        mem_addrs_join .left l r x b u
      have fresh (u : Addr) (here : c = some u) : u ∉ addrs l ∧ u ∉ addrs r := by
        simpa [below, not_or] using apart u here
      refine ⟨by simpa using carries, left.link (other _) fun u here clash => ?_,
        right.link (other _) fun u here clash => ?_, ihl holdsLeft (fun p owner inside => ?_)
          (fun u here inside => ?_), ihr holdsRight (fun p owner inside => ?_)
          (fun u here inside => ?_)⟩
      · exact (fresh u clash).1 (mem_addrs_of_ptr here)
      · exact (fresh u clash).2 (mem_addrs_of_ptr here)
      · exact outside p owner ((member p).mpr (.inr (.inl inside)))
      · exact (fresh u here).1 (below_subset inside)
      · exact outside p owner ((member p).mpr (.inr (.inr inside)))
      · exact (fresh u here).2 (below_subset inside)

theorem Holds.setBalance {t : Amtree Addr} {T : SearchTree (Entry Addr)} (holds : Holds t T)
    {a : Addr} (outside : a ∉ addrs T) (b : ℤ) : Holds (t.setBalance a b) T := by
  induction T with
  | leaf => trivial
  | node l x balance r ihl ihr =>
      obtain ⟨carries, left, right, holdsLeft, holdsRight⟩ := holds
      have member := mem_addrs_join .left l r x balance a
      simp only [SearchTree.join] at member
      rw [member, not_or, not_or] at outside
      exact ⟨carries.setBalance_other (Ne.symm outside.1) b, by simpa using left,
        by simpa using right, ihl holdsLeft outside.2.1, ihr holdsRight outside.2.2⟩

omit [DecidableEq Addr] in
theorem wayAddrs_cons_nodup {f : Frame (Entry Addr)} {above : List (Frame (Entry Addr))}
    (distinct : (wayAddrs (f :: above)).Nodup) :
    f.x.addr ∉ addrs f.sibling ∧ f.x.addr ∉ wayAddrs above ∧
      (∀ a ∈ addrs f.sibling, a ∉ wayAddrs above) ∧ (addrs f.sibling).Nodup ∧
      (wayAddrs above).Nodup := by
  have split : wayAddrs (f :: above) = f.x.addr :: (addrs f.sibling ++ wayAddrs above) := by
    simp [wayAddrs, addrs, around]
  rw [split, List.nodup_cons, List.nodup_append'] at distinct
  obtain ⟨root, sibling, rest, disjoint⟩ := distinct
  simp only [List.mem_append, not_or] at root
  exact ⟨root.1, root.2, fun a first second => disjoint first second, sibling, rest⟩

theorem HoldsWay.link {t : Amtree Addr} {above : List (Frame (Entry Addr))}
    (holds : HoldsWay t above) (distinct : (wayAddrs above).Nodup) {slot : Slot Addr}
    {c : Option Addr}
    (placed : slot = endSlot above ∨ ∃ p s, slot = .child p s ∧ p ∉ wayAddrs above)
    (apart : ∀ a, c = some a → a ∉ wayAddrs above) : HoldsWay (t.link slot c) above := by
  induction above with
  | nil => trivial
  | cons f above ih =>
      obtain ⟨carries, beside, sibling, up, way⟩ := holds
      obtain ⟨ownSibling, ownAbove, cross, distinctSibling, distinctAbove⟩ :=
        wayAddrs_cons_nodup distinct
      -- The slot belongs to this node or to none of the way.
      obtain ⟨p, s, rfl, owner, away⟩ : ∃ p s, slot = .child p s ∧
          (p = f.x.addr → s = f.side) ∧ p ∉ addrs f.sibling ∧ p ∉ wayAddrs above := by
        rcases placed with rfl | ⟨p, s, rfl, outside⟩
        · exact ⟨_, _, rfl, fun _ => rfl, ownSibling, ownAbove⟩
        · simp only [mem_wayAddrs_cons, not_or] at outside
          exact ⟨p, s, rfl, fun same => absurd same outside.1, outside.2⟩
      have fresh (u : Addr) (here : c = some u) :
          u ≠ f.x.addr ∧ u ∉ addrs f.sibling ∧ u ∉ wayAddrs above := by
        simpa [not_or] using apart u here
      refine ⟨by simpa using carries, beside.link ?_ ?_, sibling.link ?_ ?_, up.link ?_ ?_,
        ih way distinctAbove (.inr ⟨p, s, rfl, away.2⟩) fun u here => (fresh u here).2.2⟩
      · intro same
        cases same
        exact Side.other_ne _ (owner rfl)
      · exact fun u here clash => (fresh u clash).2.1 (mem_addrs_of_ptr here)
      · rintro _ ⟨⟩
        exact away.1
      · exact fun u here inside => (fresh u here).2.1 (below_subset inside)
      · intro same
        cases above with
        | nil => cases same
        | cons g above =>
            cases same
            simp at away
      · rintro u ⟨⟩ clash
        exact (fresh _ clash).1 rfl

theorem HoldsWay.setBalance {t : Amtree Addr} {above : List (Frame (Entry Addr))}
    (holds : HoldsWay t above) {a : Addr} (outside : a ∉ wayAddrs above) (b : ℤ) :
    HoldsWay (t.setBalance a b) above := by
  induction above with
  | nil => trivial
  | cons f above ih =>
      obtain ⟨carries, beside, sibling, up, way⟩ := holds
      simp only [mem_wayAddrs_cons, not_or] at outside
      exact ⟨carries.setBalance_other (Ne.symm outside.1) b, by simpa using beside,
        sibling.setBalance outside.2.1 b, by simpa using up, ih way outside.2.2⟩

end Writes

section Pieces

structure Pieces (t : Amtree Addr) (above : List (Frame (Entry Addr)))
    (trees : List (SearchTree (Entry Addr))) (loose : List Addr) : Prop where
  way : HoldsWay t above
  holds : ∀ T ∈ trees, Holds t T
  distinct : (loose ++ trees.flatMap addrs ++ wayAddrs above).Nodup

variable {t : Amtree Addr} {above : List (Frame (Entry Addr))}
  {trees : List (SearchTree (Entry Addr))} {loose : List Addr}

theorem Pieces.loose_away (pieces : Pieces t above trees loose) {a : Addr} (member : a ∈ loose) :
    (∀ T ∈ trees, a ∉ addrs T) ∧ a ∉ wayAddrs above := by
  have away := List.disjoint_of_nodup_append
    (List.append_assoc loose _ _ ▸ pieces.distinct) member
  exact ⟨fun T inside here =>
    away (List.mem_append_left _ (List.mem_flatMap.mpr ⟨T, inside, here⟩)),
    fun here => away (List.mem_append_right _ here)⟩

theorem Pieces.way_away (pieces : Pieces t above trees loose) {a : Addr}
    (member : a ∈ wayAddrs above) : ∀ T ∈ trees, a ∉ addrs T := by
  intro T inside here
  exact List.disjoint_of_nodup_append pieces.distinct
    (List.mem_append_right _ (List.mem_flatMap.mpr ⟨T, inside, here⟩)) member

theorem Pieces.trees_distinct (pieces : Pieces t above trees loose) :
    (∀ T ∈ trees, (addrs T).Nodup) ∧
      ∀ T ∈ trees, ∀ U ∈ trees, T ≠ U → (addrs T).Disjoint (addrs U) := by
  have distinct := pieces.distinct.of_append_left.of_append_right
  rw [List.nodup_flatMap] at distinct
  refine ⟨distinct.1, fun T first U second other => ?_⟩
  have symmetric : Std.Symm (Function.onFun List.Disjoint (addrs : SearchTree (Entry Addr) → _)) :=
    ⟨fun _ _ disjoint _ left right => disjoint right left⟩
  exact distinct.2.forall first second other

theorem Pieces.way_distinct (pieces : Pieces t above trees loose) : (wayAddrs above).Nodup :=
  pieces.distinct.of_append_right

theorem Pieces.root_away (pieces : Pieces t above trees loose) {T : SearchTree (Entry Addr)}
    {a : Addr} (member : T ∈ trees) (root : ptr T = some a) :
    (∀ U ∈ trees, a ∉ below U) ∧ a ∉ wayAddrs above := by
  refine ⟨fun U inside below => ?_, fun here =>
    pieces.way_away here T member (mem_addrs_of_ptr root)⟩
  by_cases same : T = U
  · subst same
    exact root_not_below (pieces.trees_distinct.1 T member) root below
  · exact pieces.trees_distinct.2 T member U inside same (mem_addrs_of_ptr root)
      (below_subset below)

variable [DecidableEq Addr]

/-- Linking a single node or a whole piece below a single node, or to the end of the way,
breaks no piece. -/
theorem Pieces.link (pieces : Pieces t above trees loose) {slot : Slot Addr} {c : Option Addr}
    (placed : slot = endSlot above ∨ ∃ p ∈ loose, ∃ s, slot = .child p s)
    (target : ∀ a, c = some a → a ∈ loose ∨ ∃ T ∈ trees, ptr T = some a) :
    Pieces (t.link slot c) above trees loose := by
  have apart (a : Addr) (here : c = some a) : (∀ U ∈ trees, a ∉ below U) ∧ a ∉ wayAddrs above := by
    rcases target a here with single | ⟨T, inside, root⟩
    · have away := pieces.loose_away single
      exact ⟨fun U inside inner => away.1 U inside (below_subset inner), away.2⟩
    · exact pieces.root_away inside root
  have outside (T : SearchTree (Entry Addr)) (inside : T ∈ trees) (p : Addr)
      (owner : slot.owner = some p) : p ∉ addrs T := by
    rcases placed with rfl | ⟨q, single, s, rfl⟩
    · cases above with
      | nil => cases owner
      | cons f above =>
          cases owner
          exact pieces.way_away (by simp) T inside
    · cases owner
      exact (pieces.loose_away single).1 T inside
  refine ⟨pieces.way.link pieces.way_distinct ?_ fun a here => (apart a here).2,
    fun T inside => (pieces.holds T inside).link (outside T inside) fun a here =>
      (apart a here).1 T inside, pieces.distinct⟩
  rcases placed with rfl | ⟨q, single, s, rfl⟩
  · exact .inl rfl
  · exact .inr ⟨q, s, rfl, (pieces.loose_away single).2⟩

theorem Pieces.setBalance (pieces : Pieces t above trees loose) {a : Addr} (member : a ∈ loose)
    (b : ℤ) : Pieces (t.setBalance a b) above trees loose :=
  ⟨pieces.way.setBalance (pieces.loose_away member).2 b, fun T inside =>
    (pieces.holds T inside).setBalance ((pieces.loose_away member).1 T inside) b, pieces.distinct⟩

end Pieces

section Focus

structure Focus (t : Amtree Addr) (above : List (Frame (Entry Addr)))
    (T : SearchTree (Entry Addr)) : Prop where
  way : HoldsWay t above
  slotted : Slotted t (endSlot above) (ptr T)
  holds : Holds t T
  distinct : (addrs T ++ wayAddrs above).Nodup

variable {t : Amtree Addr} {above : List (Frame (Entry Addr))} {T : SearchTree (Entry Addr)}

theorem focus_perm {trees : List (SearchTree (Entry Addr))} {loose : List Addr} 
    (perm : (addrs T).Perm (loose ++ trees.flatMap addrs)) :
    (addrs T ++ wayAddrs above).Nodup ↔
      (loose ++ trees.flatMap addrs ++ wayAddrs above).Nodup :=
  (perm.append_right _).nodup_iff

theorem addrs_join (s : Side) (T U : SearchTree (Entry Addr)) (x : Entry Addr) (b : ℤ) :
    (addrs (.join s T x b U)).Perm (x.addr :: (addrs T ++ addrs U)) := by
  simpa [addrs] using (SearchTree.toList_join s T x b U).map Entry.addr

theorem focus_fill (f : Frame (Entry Addr)) :
    Focus t (f :: above) T ↔ Focus t above (f.fill T) := by
  have distinct : (addrs T ++ wayAddrs (f :: above)).Nodup ↔
      (addrs (f.fill T) ++ wayAddrs above).Nodup := by
    have split : wayAddrs (f :: above) = f.x.addr :: (addrs f.sibling ++ wayAddrs above) := by
      simp [wayAddrs, addrs, around]
    apply List.Perm.nodup_iff
    calc addrs T ++ wayAddrs (f :: above)
      _ |>.Perm (f.x.addr :: (addrs T ++ (addrs f.sibling ++ wayAddrs above))) :=
          split ▸ List.perm_middle
      _ = f.x.addr :: (addrs T ++ addrs f.sibling) ++ wayAddrs above := by simp
      _ |>.Perm (addrs (f.fill T) ++ wayAddrs above) :=
          ((addrs_join f.side T f.sibling f.x f.balance).symm.append_right _)
  constructor
  · rintro ⟨⟨carries, beside, sibling, up, way⟩, slotted, holds, apart⟩
    refine ⟨way, ?_, (holds_join ..).mpr ⟨carries, slotted, beside, holds, sibling⟩,
      distinct.mp apart⟩
    rw [Frame.fill, ptr_join]
    exact up
  · rintro ⟨way, up, holds, apart⟩
    obtain ⟨carries, slotted, beside, holds, sibling⟩ := (holds_join ..).mp holds
    rw [Frame.fill, ptr_join] at up
    exact ⟨⟨carries, beside, sibling, up, way⟩, slotted, holds, distinct.mpr apart⟩

theorem focus_plug : Focus t above T ↔ Focus t [] (plug above T) := by
  induction above generalizing T with
  | nil => rfl
  | cons f above ih => rw [focus_fill, ih, plug]

variable [DecidableEq Addr]

/-- The parent pointer of a node and `amtree_which_child` lead to the pointer to the node. -/
theorem Focus.slotOf (focus : Focus t above T) {a : Addr} (root : ptr T = some a) :
    slotOf t (t.node a).parent a = endSlot above := by
  rw [focus.slotted.2 a root]
  cases above with
  | nil => rfl
  | cons f above =>
      have points := focus.slotted.1
      obtain ⟨_, beside, _⟩ := focus.way
      have apart : ptr f.sibling ≠ some a := fun same =>
        List.disjoint_of_nodup_append focus.distinct (mem_addrs_of_ptr root)
          (by simp [mem_addrs_of_ptr same])
      have besides := beside.1
      obtain ⟨side, x, b, sibling⟩ := f
      cases side with
      | left =>
          have here : (t.node x.addr).left = some a := points.trans root
          simp [endSlot, Slot.owner, AvlTree.slotOf, amtreeWhichChild, here]
      | right =>
          have there : (t.node x.addr).left = ptr sibling := besides
          simp [endSlot, Slot.owner, AvlTree.slotOf, amtreeWhichChild, there, apart]

end Focus

end Libam.AvlTree
