import Libam.AvlTree.Search

/-! Insertion, deletion and swap keep the memory a well-formed tree and change its
contents by one node. -/

namespace Libam.AvlTree

open Libam.Trees

variable {Addr : Type}

/-- The memory holds an AVL tree in key order and counts its nodes. -/
structure Sound (t : Amtree Addr) (T : SearchTree (Entry Addr)) : Prop where
  focus : Focus t [] T
  avl : T.Avl
  ordered : InOrder T.toList
  count : t.count = .ofNat T.toList.length

theorem Focus.withCount {t : Amtree Addr} {above : List (Frame (Entry Addr))}
    {T : SearchTree (Entry Addr)} (focus : Focus t above T) (count : UInt32) :
    Focus { t with count := count } above T := by
  obtain ⟨way, slotted, holds, distinct⟩ := focus
  refine ⟨way.congr rfl fun _ _ => rfl, ?_, holds.congr fun _ _ => rfl, distinct⟩
  cases above with
  | nil => exact slotted
  | cons f above => exact slotted

theorem focus_append {t : Amtree Addr} {inner outer : List (Frame (Entry Addr))}
    {T : SearchTree (Entry Addr)} : Focus t (inner ++ outer) T ↔ Focus t outer (plug inner T) := by
  rw [focus_plug, plug_append]
  exact focus_plug.symm

theorem length_around_le (above : List (Frame (Entry Addr))) (T : SearchTree (Entry Addr)) :
    above.length + T.toList.length ≤ (plug above T).toList.length := by
  have size := (plug_perm above T).length_eq
  have way := length_le_around above
  rw [List.length_append] at size
  omega

variable [DecidableEq Addr] {t : Amtree Addr}

section Insert

theorem focus_attach {f : Frame (Entry Addr)} {above : List (Frame (Entry Addr))} {n : Addr}
    (focus : Focus t (f :: above) .leaf) (outside : n ∉ wayAddrs (f :: above)) :
    Focus ((t.modify n fun nd => { nd with left := none, right := none, balance := 0 }).link
      (.child f.x.addr f.side) (some n)) (f :: above)
      (.node .leaf ⟨(t.node n).key, n⟩ 0 .leaf) := by
  obtain ⟨t₁, def₁⟩ : ∃ t₁, t₁ =
    t.modify n fun nd => { nd with left := none, right := none, balance := 0 } := ⟨_, rfl⟩
  have at_n : t₁.node n = { t.node n with left := none, right := none, balance := 0 } := by
    simp [def₁, Amtree.modify]
  have elsewhere (a : Addr) (other : a ≠ n) : t₁.node a = t.node a := by
    simp [def₁, Amtree.modify, other]
  have way : HoldsWay t₁ (f :: above) := focus.way.congr (by simp [def₁, Amtree.modify])
    fun a inside => elsewhere a fun same => outside (same ▸ inside)
  have pieces : Pieces t₁ (f :: above) [.leaf, .leaf] [n] := by
    refine ⟨way, by simp [Holds], ?_⟩
    have distinct := focus.distinct.of_append_right
    simpa [addrs, SearchTree.toList] using And.intro outside distinct
  have carries : Carries t₁ ⟨(t.node n).key, n⟩ 0 := by simp [Carries, at_n]
  have assembled := pieces.assemble carries
  have other (s : Side) : Slot.child n s ≠ endSlot (f :: above) := child_ne_endSlot outside s
  have left : Slotted (t₁.link (endSlot (f :: above)) (some n)) (.child n .left) none :=
    Slotted.link ⟨by simp [Amtree.load, AmtreeNode.child, at_n], by simp⟩ (other _) (by simp)
  have right : Slotted (t₁.link (endSlot (f :: above)) (some n)) (.child n .right) none :=
    Slotted.link ⟨by simp [Amtree.load, AmtreeNode.child, at_n], by simp⟩ (other _) (by simp)
  simp only [ptr] at assembled
  rw [link_self left, link_self right] at assembled
  rwa [← def₁]

/-- Where a new node goes: into an empty tree, or next to the node at which the descent ends. -/
def Placed (fuel : ℕ) (t : Amtree Addr) (n : Addr) (l r : List (Entry Addr)) : Prop :=
  (t.root = none ∧ l = [] ∧ r = []) ∨
    ∃ root e, t.root = some root ∧ descend t n fuel root = .ok (e.addr, false) ∧
      (((t.node n).key < (t.node e.addr).key ∧ ∃ r', r = e :: r') ∨
        (¬ (t.node n).key < (t.node e.addr).key ∧ ∃ l', l = l' ++ [e]))

/-- `amtree_insert` finds the key's node, or adds the new node where its key belongs. -/
theorem amtreeInsert_spec {fuel : ℕ} {T : SearchTree (Entry Addr)} {n : Addr} (sound : Sound t T)
    (outside : n ∉ addrs T) (enough : T.toList.length < fuel) :
    (∃ a, ⟨(t.node n).key, a⟩ ∈ T.toList ∧ amtreeInsert fuel t n = .ok (t, some a) ∧
      ∃ root, t.root = some root ∧ descend t n fuel root = .ok (a, true)) ∨
    (∃ t' T' l r, amtreeInsert fuel t n = .ok (t', none) ∧ Sound t' T' ∧ T.toList = l ++ r ∧
      T'.toList = l ++ ⟨(t.node n).key, n⟩ :: r ∧ (∀ e ∈ T.toList, e.key ≠ (t.node n).key) ∧
      Placed fuel t n l r) := by
  obtain ⟨focus, avl, ordered, count⟩ := sound
  cases start : ptr T with
  | none =>
      cases T with
      | node => cases start
      | leaf =>
          have empty : t.root = none := focus.slotted.1
          have run : amtreeInsert fuel t n =
              .ok (({ t with root := some n, count := 1 } : Amtree Addr).modify n fun nd =>
                { nd with parent := none, left := none, right := none, balance := 0 }, none) := by
            simp only [amtreeInsert, empty]
          right
          refine ⟨_, .node .leaf ⟨(t.node n).key, n⟩ 0 .leaf, [], [], run, ⟨⟨trivial, ?_, ?_, ?_⟩,
            ?_, ?_, rfl⟩, rfl, rfl, by simp [SearchTree.toList], .inl ⟨empty, rfl, rfl⟩⟩
          · simp [Slotted, endSlot, ptr, Amtree.load, Amtree.modify, Slot.owner]
          · simp [Holds, Carries, Slotted, ptr, Amtree.load, Amtree.modify, AmtreeNode.child]
          · simp [addrs, SearchTree.toList, wayAddrs, around]
          · simp [SearchTree.Avl, SearchTree.height]
          · simp [InOrder, SearchTree.toList]
  | some root =>
      have begin : t.root = some root := focus.slotted.1.trans start
      have height := T.height_le_length
      rcases descend_spec (n := n) focus start ordered (by simp [before])
        (by simp [after]) (show T.height ≤ fuel by omega) with ⟨e, inside, key, run⟩ | ⟨f, above,
          run, whole, low, high⟩
      · left
        refine ⟨e.addr, key ▸ inside, ?_, root, begin, run⟩
        simp only [amtreeInsert, begin, run, bind, Except.bind]
        rfl
      right
      replace whole : plug (f :: above) .leaf = T := whole
      have here : Focus t (f :: above) .leaf := focus_plug.mpr (whole ▸ focus)
      have contents : T.toList = before (f :: above) ++ after (f :: above) := by
        rw [← whole, toList_plug]
        simp [SearchTree.toList]
      have away : n ∉ wayAddrs (f :: above) := fun inside => by
        have perm := (plug_perm (f :: above) .leaf).map Entry.addr
        rw [whole] at perm
        exact outside (perm.mem_iff.mpr (by simpa [SearchTree.toList, wayAddrs] using inside))
      obtain ⟨t₁, def₁⟩ : ∃ t₁, t₁ =
        t.modify n fun nd => { nd with left := none, right := none, balance := 0 } := ⟨_, rfl⟩
      have keys (a : Addr) : (t₁.node a).key = (t.node a).key := by
        simp only [def₁, Amtree.modify, Function.update_apply]
        split <;> simp_all
      have key : (t.node f.x.addr).key = f.x.key := here.way.1.1
      -- The comparison repeats the last one of the descent.
      have side : (if (t₁.node n).key < (t₁.node f.x.addr).key then Side.left else Side.right) =
          f.side := by
        rw [keys, keys, key]
        obtain ⟨s, x, b, sibling⟩ := f
        cases s with
        | left => exact if_pos (high x (by simp [after]))
        | right =>
            have less := low x (by simp [before])
            exact if_neg fun greater => UInt64.lt_irrefl _ (UInt64.lt_trans less greater)
      obtain ⟨t₂, def₂⟩ : ∃ t₂, t₂ = t₁.link (.child f.x.addr f.side) (some n) := ⟨_, rfl⟩
      have attached : Focus t₂ (f :: above) (.node .leaf ⟨(t.node n).key, n⟩ 0 .leaf) := by
        rw [def₂, def₁]
        exact focus_attach here away
      have counted := attached.withCount (t₂.count + 1)
      have whole' : InOrder
          (plug (f :: above) (.node .leaf ⟨(t.node n).key, n⟩ 0 .leaf)).toList := by
        rw [contents, InOrder, List.pairwise_append] at ordered
        rw [InOrder, toList_plug, List.append_assoc, List.pairwise_append]
        refine ⟨ordered.1, List.pairwise_cons.mpr ⟨high, ordered.2.1⟩,
          fun e inside e' inside' => ?_⟩
        rcases List.mem_cons.mp inside' with rfl | later
        · exact low e inside
        · exact ordered.2.2 e inside e' later
      obtain ⟨t', T', walked, sameCount, represented, avl', contents'⟩ :=
        balanceAddFrom_spec (h := 0) counted (by simp [SearchTree.Avl, SearchTree.height]) rfl
          ((avl_plug (f :: above) .leaf).mp (whole ▸ avl)).2 (.inl rfl)
          (show (f :: above).length < fuel by
            have length := length_around_le (f :: above) .leaf
            rw [whole] at length
            omega)
      refine ⟨t', T', _, _, ?_, ⟨represented, avl', contents' ▸ whole', ?_⟩, contents, ?_, ?_,
        .inr ⟨root, f.x, begin, run, ?_⟩⟩
      · simp only [amtreeInsert, begin, run, bind, Except.bind, ← def₁, side, ← def₂,
          amtreeBalanceAdd, attached.slotted.2 n rfl]
        rw [show some n = ptr
          (.node .leaf ⟨(t.node n).key, n⟩ 0 .leaf : SearchTree (Entry Addr)) from rfl,
          walked]
        rfl
      · rw [sameCount, contents', toList_plug, def₂, def₁]
        simp only [count_link]
        rw [show (t.modify n _).count = t.count from rfl, count, contents, ← UInt32.ofNat_one,
          ← UInt32.ofNat_add]
        congr 1
        simp [SearchTree.toList]
        omega
      · rw [contents', toList_plug]
        simp [SearchTree.toList]
      · intro e inside same
        rw [contents, List.mem_append] at inside
        rcases inside with earlier | later
        · exact UInt64.lt_irrefl _ (same ▸ low e earlier)
        · exact UInt64.lt_irrefl _ (same ▸ high e later)
      · rw [key]
        obtain ⟨s, x, b, sibling⟩ := f
        cases s with
        | left => exact .inl ⟨high x (by simp [after]), _, rfl⟩
        | right =>
            have less := low x (by simp [before])
            exact .inr ⟨fun greater => UInt64.lt_irrefl _ (UInt64.lt_trans less greater), _, rfl⟩

end Insert

section Delete

def Deletes (fuel : ℕ) (t : Amtree Addr) (node : Addr) (rest : List (Entry Addr)) : Prop :=
  ∃ t' T', amtreeDelete fuel t node = .ok t' ∧ t'.count = t.count - 1 ∧ Focus t' [] T' ∧ T'.Avl ∧
    T'.toList = rest

theorem Focus.setBalance_root {above : List (Frame (Entry Addr))} {l r : SearchTree (Entry Addr)}
    {x : Entry Addr} {b : ℤ} (focus : Focus t above (.node l x b r)) (b' : ℤ) :
    Focus (t.setBalance x.addr b') above (.node l x b' r) :=
  (focus_fill _).mp (((focus_fill ⟨.left, x, b, r⟩).mpr focus).setBalance b')

theorem Focus.setBalance_away {above : List (Frame (Entry Addr))} {T : SearchTree (Entry Addr)}
    (focus : Focus t above T) {a : Addr} (outside : a ∉ addrs T) (away : a ∉ wayAddrs above)
    (b : ℤ) : Focus (t.setBalance a b) above T :=
  ⟨focus.way.setBalance away b, by simpa using focus.slotted, focus.holds.setBalance outside b,
    focus.distinct⟩

omit [DecidableEq Addr] in
theorem Focus.node {above : List (Frame (Entry Addr))} {l r : SearchTree (Entry Addr)}
    {x : Entry Addr} {b : ℤ} (focus : Focus t above (.node l x b r)) :
    (t.node x.addr).balance = b ∧ (t.node x.addr).parent = (endSlot above).owner ∧
      (t.node x.addr).left = ptr l ∧ (t.node x.addr).right = ptr r :=
  Focus.root (s := .left) focus

omit [DecidableEq Addr] in
theorem Focus.apart {above : List (Frame (Entry Addr))} {l r : SearchTree (Entry Addr)}
    {x : Entry Addr} {b : ℤ} (focus : Focus t above (.node l x b r)) :
    (x.addr :: (addrs l ++ addrs r ++ wayAddrs above)).Nodup := by
  have perm := (addrs_node l x b r).append_right (wayAddrs above)
  exact perm.nodup_iff.mp focus.distinct

theorem amtreeDelete_single {fuel : ℕ} {above : List (Frame (Entry Addr))}
    {l r C : SearchTree (Entry Addr)} {x : Entry Addr} {b : ℤ}
    (focus : Focus t above (.node l x b r)) (avl : (plug above (.node l x b r)).Avl)
    (single : (l = C ∧ r = .leaf) ∨ (l = .leaf ∧ r = C)) (enough : above.length < fuel) :
    Deletes fuel t x.addr (before above ++ (l.toList ++ r.toList) ++ after above) := by
  obtain ⟨balance, parent, left, right⟩ := focus.node
  obtain ⟨t₀, def₀⟩ : ∃ t₀ : Amtree Addr, t₀ = { t with count := t.count - 1 } := ⟨_, rfl⟩
  have counted : Focus t₀ above (.node l x b r) := def₀ ▸ focus.withCount (t.count - 1)
  have count₀ : t₀.count = t.count - 1 := by rw [def₀]
  have node₀ : t₀.node = t.node := by rw [def₀]
  obtain ⟨avlNode, balanced⟩ := (avl_plug ..).mp avl
  have avlC : C.Avl := by rcases single with ⟨rfl, _⟩ | ⟨_, rfl⟩; exacts [avlNode.1, avlNode.2.1]
  have contentsC : C.toList = l.toList ++ r.toList := by
    rcases single with ⟨rfl, rfl⟩ | ⟨rfl, rfl⟩ <;> simp [SearchTree.toList]
  have heightC : (SearchTree.node l x b r).height = C.height + 1 := by
    rcases single with ⟨rfl, rfl⟩ | ⟨rfl, rfl⟩ <;> simp [SearchTree.height]
  have child : (ptr r).or (ptr l) = ptr C := by
    rcases single with ⟨rfl, rfl⟩ | ⟨rfl, rfl⟩ <;> simp [ptr]
  have holdsC : Holds t₀ C := by
    obtain ⟨_, _, _, holdsL, holdsR⟩ := counted.holds
    rcases single with ⟨rfl, _⟩ | ⟨_, rfl⟩
    · exact holdsL
    · exact holdsR
  have run (owner : Option Addr) (here : (t.node x.addr).parent = owner) :
      amtreeDelete fuel t x.addr =
      owner.elim (.ok (t₀.link .root (ptr C))) fun p =>
        let side := if (t.node p).left = some x.addr then Side.left else Side.right
        let t₁ := t₀.link (.child p side) (ptr C)
        amtreeBalanceDel fuel (t₁.setBalance p ((t₁.node p).balance - side.sign)) p := by
    simp only [amtreeDelete, right, left, ← def₀, here]
    rcases single with ⟨rfl, rfl⟩ | ⟨rfl, rfl⟩
    · cases l <;> cases owner <;> rfl
    · cases r <;> cases owner <;> rfl
  have pieces : Pieces t₀ above [C] [] := by
    refine ⟨counted.way, by simpa using holdsC, ?_⟩
    have distinct := counted.apart.of_cons
    rcases single with ⟨rfl, rfl⟩ | ⟨rfl, rfl⟩ <;> simpa [addrs, SearchTree.toList] using distinct
  have pieces₁ : Pieces (t₀.link (endSlot above) (ptr C)) above [C] [] :=
    pieces.link (.inl rfl) fun _ root => .inr ⟨C, by simp, root⟩
  have placed : Focus (t₀.link (endSlot above) (ptr C)) above C :=
    ⟨pieces₁.way, .link_same .., pieces₁.holds C (by simp), by simpa using pieces₁.distinct⟩
  cases above with
  | nil =>
      refine ⟨_, C, run none parent, by simp [count₀], placed, avlC, ?_⟩
      simp [before, after, contentsC]
  | cons f above =>
      have side : (if (t.node f.x.addr).left = some x.addr then Side.left else Side.right) =
          f.side := by
        have same := focus.left_eq (n := x.addr) rfl
        cases here : f.side <;> simp [same, here]
      have run := run (some f.x.addr) parent
      simp only [Option.elim_some, endSlot, side] at run placed
      obtain ⟨t₁, def₁⟩ : ∃ t₁, t₁ = t₀.link (.child f.x.addr f.side) (ptr C) := ⟨_, rfl⟩
      rw [← def₁] at run placed
      obtain ⟨c, defC⟩ : ∃ c, c = f.balance - f.side.sign := ⟨_, rfl⟩
      rw [placed.way.1.2, ← defC] at run
      have filled : Focus (t₁.setBalance f.x.addr c) above (.join f.side C f.x c f.sibling) :=
        (focus_fill _).mp (placed.setBalance c)
      obtain ⟨avlSibling, balanceF, lowF, highF, rest⟩ := balanced
      rw [heightC] at balanceF rest
      have contents : (plug above (.join f.side C f.x c f.sibling)).toList =
          before (f :: above) ++ (l.toList ++ r.toList) ++ after (f :: above) := by
        rw [← contentsC, ← toList_plug, plug, toList_plug, toList_plug]
        cases here : f.side <;> simp [Frame.fill, SearchTree.join, here, SearchTree.toList]
      have count₁ : t₁.count = t.count - 1 := by rw [def₁, count_link, count₀]
      cases here : f.side with
      | left =>
          rw [here] at filled contents balanceF defC
          simp only [Side.sign] at balanceF defC
          obtain ⟨t', T', walked, sameCount, represented, avl', contents'⟩ :=
            amtreeBalanceDel_spec filled avlC avlSibling (by omega) (by omega) (by omega)
              (show max (C.height + 1) f.sibling.height + 1 = _ by split <;> omega) rest
              (Nat.lt_of_succ_lt enough)
          exact ⟨t', T', run.trans walked, sameCount.trans count₁, represented, avl',
            contents'.trans contents⟩
      | right =>
          rw [here] at filled contents balanceF defC
          simp only [Side.sign] at balanceF defC
          obtain ⟨t', T', walked, sameCount, represented, avl', contents'⟩ :=
            amtreeBalanceDel_spec filled avlSibling avlC (by omega) (by omega) (by omega)
              (show max (C.height + 1) f.sibling.height + 1 = _ by split <;> omega) rest
              (Nat.lt_of_succ_lt enough)
          exact ⟨t', T', run.trans walked, sameCount.trans count₁, represented, avl',
            contents'.trans contents⟩

/-- A node whose right child has no left child: that child takes its place. -/
theorem amtreeDelete_near {fuel : ℕ} {above : List (Frame (Entry Addr))}
    {l rr : SearchTree (Entry Addr)} {x y : Entry Addr} {b c : ℤ} {cl : Addr}
    (focus : Focus t above (.node l x b (.node .leaf y c rr)))
    (avl : (plug above (.node l x b (.node .leaf y c rr))).Avl) (child : ptr l = some cl)
    (enough : above.length < fuel) :
    Deletes fuel t x.addr
      (before above ++ (l.toList ++ (SearchTree.node .leaf y c rr).toList) ++ after above) := by
  obtain ⟨_, parent, left, right⟩ := focus.node
  obtain ⟨t₀, def₀⟩ : ∃ t₀ : Amtree Addr, t₀ = { t with count := t.count - 1 } := ⟨_, rfl⟩
  have counted : Focus t₀ above (.node l x b (.node .leaf y c rr)) :=
    def₀ ▸ focus.withCount (t.count - 1)
  have count₀ : t₀.count = t.count - 1 := by rw [def₀]
  have node₀ : t₀.node = t.node := by rw [def₀]
  have place : slotOf t₀ (t.node x.addr).parent x.addr = endSlot above := node₀ ▸ counted.slotOf rfl
  obtain ⟨avlNode, balanced⟩ := (avl_plug ..).mp avl
  obtain ⟨avlL, ⟨_, avlR, balanceY, _, _⟩, balanceX, lowX, highX⟩ := avlNode
  obtain ⟨_, _, _, holdsL, carriesY, leftY, rightY, _, holdsR⟩ := counted.holds
  have noLeft : (t.node y.addr).left = none := node₀ ▸ leftY.1
  obtain ⟨t₁, def₁⟩ : ∃ t₁, t₁ = t₀.link (endSlot above) (some y.addr) := ⟨_, rfl⟩
  obtain ⟨t₂, def₂⟩ : ∃ t₂, t₂ = t₁.link (.child y.addr .left) (ptr l) := ⟨_, rfl⟩
  have balance₂ : (t₂.node x.addr).balance = b := by
    rw [def₂, def₁, balance_link, balance_link]
    exact counted.node.1
  have run : amtreeDelete fuel t x.addr =
      amtreeBalanceDel fuel (t₂.setBalance y.addr (b - 1)) y.addr := by
    rw [child] at left
    have right : (t.node x.addr).right = some y.addr := right
    simp only [amtreeDelete, right, left, ← def₀, noLeft, if_true, place, ← def₁]
    rw [← child, ← def₂, balance₂]
  have apart : ([y.addr] ++ [l, rr].flatMap addrs ++ wayAddrs above).Nodup := by
    have distinct := counted.apart.of_cons
    refine (List.Perm.nodup_iff ?_).mp distinct
    rw [List.perm_iff_count]
    intro a
    have inner := (addrs_node .leaf y c rr).count_eq a
    simp [below, addrs, SearchTree.toList, List.count_cons] at inner ⊢
    omega
  have pieces : Pieces t₀ above [l, rr] [y.addr] := ⟨counted.way, by simp [holdsL, holdsR], apart⟩
  have assembled := pieces.assemble carriesY
  rw [← def₁, ← def₂] at assembled
  obtain ⟨away, yWay⟩ := pieces.loose_away (a := y.addr) (by simp)
  have disjoint : (addrs l).Disjoint (addrs rr) := by
    have distinct := pieces.distinct.of_append_left.of_append_right
    simp only [List.flatMap_cons, List.flatMap_nil, List.append_nil] at distinct
    exact List.disjoint_of_nodup_append distinct
  have kept : Slotted t₂ (.child y.addr .right) (ptr rr) := by
    rw [def₂, def₁]
    exact (rightY.link (child_ne_endSlot yWay _) (ptr_ne_of_not_mem (away rr (by simp)))).link
      (child_other_ne y.addr .left) (ptr_ne_of_disjoint disjoint)
  rw [link_self kept] at assembled
  simp only [SearchTree.height] at balanceY balanceX balanced
  obtain ⟨t', T', walked, sameCount, represented, avl', contents⟩ :=
    amtreeBalanceDel_spec (assembled.setBalance_root (b - 1)) avlL avlR (by omega) (by omega)
      (by omega) (show max l.height (max 0 rr.height + 1) + 1 = _ by split <;> omega)
      balanced enough
  refine ⟨t', T', run.trans walked, ?_, represented, avl', ?_⟩
  · rw [sameCount, count_setBalance, def₂, def₁, count_link, count_link, count₀]
  · rw [contents, toList_plug]
    simp [SearchTree.toList]

omit [DecidableEq Addr] in
theorem ptr_plug_cons (f : Frame (Entry Addr)) (inner : List (Frame (Entry Addr)))
    (T U : SearchTree (Entry Addr)) (b : ℤ) :
    ptr (plug ({ f with balance := b } :: inner) U) = ptr (plug (f :: inner) T) := by
  have spread : ∀ (above : List (Frame (Entry Addr))) (T U : SearchTree (Entry Addr)),
      ptr T = ptr U →
      ptr (plug above T) = ptr (plug above U) := by
    intro above
    induction above with
    | nil => exact fun _ _ same => same
    | cons g above ih =>
        intro T U _
        exact ih _ _ (by rw [Frame.fill, Frame.fill, ptr_join, ptr_join])
  exact spread inner _ _ (by rw [Frame.fill, Frame.fill, ptr_join, ptr_join])

omit [DecidableEq Addr] in
theorem ptr_plug_some (above : List (Frame (Entry Addr))) (T : SearchTree (Entry Addr)) {a : Addr}
    (root : ptr T = some a) : ∃ b, ptr (plug above T) = some b := by
  induction above generalizing T a with
  | nil => exact ⟨a, root⟩
  | cons f above ih => exact ih _ (ptr_join ..)

omit [DecidableEq Addr] in
theorem plug_addrs (inner above : List (Frame (Entry Addr))) (T : SearchTree (Entry Addr)) :
    (addrs (plug inner T) ++ wayAddrs above).Perm (addrs T ++ wayAddrs (inner ++ above)) := by
  have perm := ((plug_perm inner T).map Entry.addr).append_right (wayAddrs above)
  simpa [addrs, wayAddrs, around_append] using perm

theorem focus_cut {f : Frame (Entry Addr)} {above : List (Frame (Entry Addr))}
    {yr : SearchTree (Entry Addr)} {y : Entry Addr} {c : ℤ}
    (focus : Focus t (f :: above) (.node .leaf y c yr)) (left : f.side = .left) (b : ℤ) :
    Focus ((t.link (.child f.x.addr .left) (ptr yr)).setBalance f.x.addr b)
      ({ f with balance := b } :: above) yr ∧
    Carries ((t.link (.child f.x.addr .left) (ptr yr)).setBalance f.x.addr b) y c ∧
    (y.addr :: (addrs yr ++ wayAddrs ({ f with balance := b } :: above))).Nodup := by
  have apart := focus.apart
  obtain ⟨carries, _, _, _, holds⟩ := focus.holds
  have distinct : (y.addr :: (addrs yr ++ wayAddrs (f :: above))).Nodup := by
    simpa [addrs, SearchTree.toList] using apart
  have pieces : Pieces t (f :: above) [yr] [y.addr] :=
    ⟨focus.way, by simpa using holds, by simpa using distinct⟩
  have pieces₁ : Pieces (t.link (endSlot (f :: above)) (ptr yr)) (f :: above) [yr] [y.addr] :=
    pieces.link (.inl rfl) fun _ root => .inr ⟨yr, by simp, root⟩
  have cut : Focus (t.link (endSlot (f :: above)) (ptr yr)) (f :: above) yr :=
    ⟨pieces₁.way, .link_same .., pieces₁.holds yr (by simp), distinct.of_cons⟩
  simp only [endSlot, left] at cut
  refine ⟨cut.setBalance b, Carries.setBalance_other (by simpa using carries) ?_ b,
    by simpa [wayAddrs, around] using distinct⟩
  intro same
  exact (List.nodup_cons.mp distinct).1 (by simp [same])

/-- A node whose right child has a left child: the smallest node on the right takes its place. -/
theorem amtreeDelete_deep {fuel : ℕ} {above inner : List (Frame (Entry Addr))}
    {f : Frame (Entry Addr)} {l yr : SearchTree (Entry Addr)} {x y : Entry Addr}
    {b c : ℤ} {cl : Addr}
    (focus : Focus t above (.node l x b (plug (f :: inner) (.node .leaf y c yr))))
    (avl : (plug above (.node l x b (plug (f :: inner) (.node .leaf y c yr)))).Avl)
    (child : ptr l = some cl) (lefts : ∀ g ∈ f :: inner, g.side = .left)
    (smallest : ∀ cr, ptr (plug (f :: inner) (.node .leaf y c yr)) = some cr →
      leftmost { t with count := t.count - 1 } fuel cr = .ok y.addr)
    (deeper : ∀ cr, ptr (plug (f :: inner) (.node .leaf y c yr)) = some cr →
      (t.node cr).left ≠ none)
    (enough : inner.length + above.length + 1 < fuel) :
    Deletes fuel t x.addr (before above ++
      (l.toList ++ (plug (f :: inner) (.node .leaf y c yr)).toList) ++ after above) := by
  obtain ⟨cr, root⟩ := ptr_plug_some (f :: inner) (.node .leaf y c yr) rfl
  obtain ⟨_, parent, left, right⟩ := focus.node
  obtain ⟨t₀, def₀⟩ : ∃ t₀ : Amtree Addr, t₀ = { t with count := t.count - 1 } := ⟨_, rfl⟩
  have counted : Focus t₀ above (.node l x b (plug (f :: inner) (.node .leaf y c yr))) :=
    def₀ ▸ focus.withCount (t.count - 1)
  have count₀ : t₀.count = t.count - 1 := by rw [def₀]
  have node₀ : t₀.node = t.node := by rw [def₀]
  -- The view from the smallest node.
  have deep : Focus t₀ (f :: inner ++ ⟨.right, x, b, l⟩ :: above) (.node .leaf y c yr) :=
    focus_append.mpr ((focus_fill ⟨.right, x, b, l⟩).mpr counted)
  have parentY : (t.node y.addr).parent = some f.x.addr := node₀ ▸ deep.node.2.1
  have rightY : (t.node y.addr).right = ptr yr := node₀ ▸ deep.node.2.2.2
  have balanceF : (t₀.node f.x.addr).balance = f.balance := deep.way.1.2
  obtain ⟨cut, carriesY, distinct⟩ := focus_cut deep (lefts f (by simp)) (f.balance + 1)
  obtain ⟨t₂, def₂⟩ : ∃ t₂, t₂ =
      (t₀.link (.child f.x.addr .left) (ptr yr)).setBalance f.x.addr (f.balance + 1) := ⟨_, rfl⟩
  rw [← def₂] at cut carriesY
  obtain ⟨f', defF⟩ : ∃ f' : Frame (Entry Addr),
      f' = { f with balance := f.balance + 1 } := ⟨_, rfl⟩
  rw [← defF] at cut distinct
  have shallow : Focus t₂ above (.node l x b (plug (f' :: inner) yr)) :=
    (focus_fill ⟨.right, x, b, l⟩).mp (focus_append.mp cut)
  have root' : ptr (plug (f' :: inner) yr) = some cr :=
    defF ▸ (ptr_plug_cons f inner (.node .leaf y c yr) yr _).trans root
  -- The smallest node takes the place of the deleted one.
  have fresh : (y.addr ::
      (addrs (.node l x b (plug (f' :: inner) yr)) ++ wayAddrs above)).Nodup := by
    have perm := plug_addrs (f' :: inner ++ [⟨.right, x, b, l⟩]) above yr
    rw [plug_append] at perm
    apply (perm.cons _).nodup_iff.mpr
    simpa using distinct
  obtain ⟨outside, whole⟩ := List.nodup_cons.mp fresh
  simp only [List.mem_append, not_or] at outside
  obtain ⟨t₃, def₃⟩ : ∃ t₃, t₃ = t₂.setBalance y.addr b := ⟨_, rfl⟩
  have balanced₃ : Focus t₃ above (.node l x b (plug (f' :: inner) yr)) :=
    def₃ ▸ shallow.setBalance_away outside.1 outside.2 b
  have place : slotOf t₃ (t.node x.addr).parent x.addr = endSlot above := by
    rw [parent, ← balanced₃.node.2.1]
    exact balanced₃.slotOf rfl
  obtain ⟨t₄, def₄⟩ : ∃ t₄, t₄ = ((t₃.link (endSlot above) (some y.addr)).link
    (.child y.addr .left) (some cl)).link (.child y.addr .right) (some cr) := ⟨_, rfl⟩
  have run : amtreeDelete fuel t x.addr = amtreeBalanceDel fuel t₄ f.x.addr := by
    rw [child] at left
    rw [root] at right
    have balanceX := shallow.node.1
    simp only [amtreeDelete, right, left, ← def₀, deeper cr root, if_false]
    rw [def₀, smallest cr root, ← def₀]
    simp only [bind, Except.bind, deref, parentY, rightY, balance_link, balanceF, ← def₂, balanceX,
      ← def₃, place, ← def₄]
  have carriesY₃ : Carries t₃ y b := def₃ ▸ carriesY.setBalance b
  have pieces : Pieces t₃ above [l, plug (f' :: inner) yr] [y.addr] := by
    obtain ⟨_, _, _, holdsL, holdsR⟩ := balanced₃.holds
    refine ⟨balanced₃.way, by simp [holdsL, holdsR], ?_⟩
    have perm := ((addrs_node l x b (plug (f' :: inner) yr)).append_right (wayAddrs above)).cons
      y.addr
    have rest := (perm.nodup_iff.mp fresh).sublist (List.Sublist.cons_cons y.addr
      (List.sublist_cons_self x.addr _))
    simpa [below] using rest
  have assembled := pieces.assemble carriesY₃
  rw [child, root', ← def₄] at assembled
  have final : Focus t₄ (inner ++ ⟨.right, y, b, l⟩ :: above)
      (.node yr f.x (f.balance + 1) f.sibling) := by
    have view := (focus_fill ⟨.right, y, b, l⟩).mpr assembled
    rw [plug, ← focus_append] at view
    rwa [Frame.fill, defF, lefts f (by simp)] at view
  have nested : plug (f :: inner ++ ⟨.right, x, b, l⟩ :: above) (.node .leaf y c yr) =
      plug above (.node l x b (plug (f :: inner) (.node .leaf y c yr))) := by
    rw [plug_append]
    rfl
  obtain ⟨⟨_, avlYr, _⟩, avlSibling, balanceF', lowF, highF, rest⟩ :=
    (avl_plug (f :: inner ++ ⟨.right, x, b, l⟩ :: above) (.node .leaf y c yr)).mp (nested ▸ avl)
  have along := (balanced_replace inner above .right x y b l _).mp rest
  rw [lefts f (by simp)] at balanceF'
  simp only [Side.sign, SearchTree.height] at balanceF' along
  obtain ⟨t', T', walked, sameCount, represented, avl', contents⟩ :=
    amtreeBalanceDel_spec final avlYr avlSibling (by omega) (by omega) (by omega)
      (show max (max 0 yr.height + 1) f.sibling.height + 1 = _ by split <;> omega) along
      (by simp only [List.length_append, List.length_cons]; omega)
  refine ⟨t', T', run.trans walked, ?_, represented, avl', ?_⟩
  · simp only [sameCount, def₄, def₃, def₂, count_link, count_setBalance, count₀]
  · have inside : (plug inner (.node yr f.x (f.balance + 1) f.sibling)).toList =
        yr.toList ++ f.x :: f.sibling.toList ++ after inner := by
      rw [toList_plug, before_lefts fun g member => lefts g (List.mem_cons_of_mem _ member)]
      simp [SearchTree.toList]
    have removed : (plug (f :: inner) (.node .leaf y c yr)).toList =
        y :: (yr.toList ++ f.x :: f.sibling.toList ++ after inner) := by
      have left := lefts f (by simp)
      obtain ⟨s, z, d, sibling⟩ := f
      cases left
      rw [toList_plug, before_lefts lefts]
      simp [SearchTree.toList, after]
    rw [contents, plug_append, plug, toList_plug, Frame.fill, removed]
    simp [SearchTree.join, SearchTree.toList, inside]

omit [DecidableEq Addr] in
theorem plug_left (f : Frame (Entry Addr)) (inner : List (Frame (Entry Addr)))
    {T : SearchTree (Entry Addr)} {a : Addr} (root : ptr T = some a)
    (lefts : ∀ g ∈ f :: inner, g.side = .left) :
    ∃ l x b r a, plug (f :: inner) T = .node l x b r ∧ ptr l = some a := by
  induction inner generalizing f T a with
  | nil =>
      have side := lefts f (by simp)
      exact ⟨T, f.x, f.balance, f.sibling,
        a, by simp [plug, Frame.fill, side, SearchTree.join], root⟩
  | cons g inner ih =>
      exact ih g (T := f.fill T) (ptr_join ..) fun h inside =>
        lefts h (List.mem_cons_of_mem _ inside)

theorem amtreeDelete_cases {fuel : ℕ} {above : List (Frame (Entry Addr))}
    {l r : SearchTree (Entry Addr)} {x : Entry Addr} {b : ℤ} (focus : Focus t above (.node l x b r))
    (avl : (plug above (.node l x b r)).Avl)
    (enough : (plug above (.node l x b r)).toList.length < fuel) :
    Deletes fuel t x.addr (before above ++ (l.toList ++ r.toList) ++ after above) := by
  have size := length_around_le above (.node l x b r)
  simp only [SearchTree.toList, List.length_append, List.length_cons] at size
  cases childL : ptr l with
  | none =>
      cases l with
      | node => cases childL
      | leaf => exact amtreeDelete_single focus avl (.inr ⟨rfl, rfl⟩) (by omega)
  | some cl =>
      cases childR : ptr r with
      | none =>
          cases r with
          | node => cases childR
          | leaf => exact amtreeDelete_single focus avl (.inl ⟨rfl, rfl⟩) (by omega)
      | some cr =>
          have counted := focus.withCount (t.count - 1)
          have height := r.height_le_length
          obtain ⟨inner, y, c, yr, rfl, lefts, run⟩ :=
            leftmost_spec counted.holds.2.2.2.2 childR (show r.height ≤ fuel by omega)
          cases inner with
          | nil => exact amtreeDelete_near focus avl childL (by omega)
          | cons f inner =>
              have within := length_around_le (f :: inner) (.node .leaf y c yr)
              simp only [List.length_cons] at within
              refine amtreeDelete_deep focus avl childL lefts (fun cr' same => ?_)
                (fun cr' same => ?_) (by omega)
              · rw [childR] at same
                cases same
                exact run
              · obtain ⟨l', x', b', r', a, whole, nonempty⟩ :=
                  plug_left f inner (T := .node .leaf y c yr) rfl lefts
                rw [whole] at same focus
                cases same
                have left : (t.node x'.addr).left = ptr l' := focus.holds.2.2.2.2.2.1.1
                rw [left, nonempty]
                simp

theorem amtreeDelete_spec {fuel : ℕ} {T : SearchTree (Entry Addr)} {a : Addr} (sound : Sound t T)
    (member : a ∈ addrs T) (enough : T.toList.length < fuel) :
    ∃ t' T' l x r, amtreeDelete fuel t a = .ok t' ∧ Sound t' T' ∧ x.addr = a ∧
      T.toList = l ++ x :: r ∧ T'.toList = l ++ r := by
  obtain ⟨focus, avl, ordered, count⟩ := sound
  obtain ⟨x, inside, rfl⟩ := List.mem_map.mp member
  obtain ⟨above, l, b, r, rfl⟩ := exists_plug inside
  obtain ⟨t', T', run, sameCount, represented, avl', contents⟩ :=
    amtreeDelete_cases (focus_plug.mpr focus) avl enough
  have whole : (plug above (.node l x b r)).toList =
      (before above ++ l.toList) ++ x :: (r.toList ++ after above) := by
    rw [toList_plug]
    simp [SearchTree.toList]
  have left : T'.toList = (before above ++ l.toList) ++ (r.toList ++ after above) := by
    rw [contents]
    simp
  refine ⟨t', T', _, x, _, run, ⟨represented, avl', ?_, ?_⟩, rfl, whole, left⟩
  · rw [whole] at ordered
    rw [left]
    exact ordered.sublist (List.Sublist.append_left (List.sublist_cons_self x _) _)
  · have fewer (k : ℕ) : UInt32.ofNat (k + 1) - 1 = .ofNat k := by
      rw [UInt32.ofNat_add]
      exact UInt32.add_sub_cancel ..
    rw [sameCount, count, whole, left]
    simp only [List.length_append, List.length_cons, ← Nat.add_assoc, fewer]

end Delete

section Swap

theorem focus_swap {above : List (Frame (Entry Addr))} {l r : SearchTree (Entry Addr)}
    {x : Entry Addr} {b : ℤ} {z : Addr} (focus : Focus t above (.node l x b r))
    (outside : z ∉ addrs (.node l x b r)) (away : z ∉ wayAddrs above) :
    Focus (amtreeSwap t x.addr z) above (.node l ⟨x.key, z⟩ b r) := by
  obtain ⟨balance, parent, left, right⟩ := focus.node
  obtain ⟨⟨key, _⟩, _, _, holdsL, holdsR⟩ := focus.holds
  have apart := focus.apart
  have member := mem_addrs_join .left l r x b z
  simp only [SearchTree.join] at member
  simp only [member, not_or] at outside
  obtain ⟨zx, zl, zr⟩ := outside
  obtain ⟨xAway, distinct⟩ := List.nodup_cons.mp apart
  simp only [List.mem_append, not_or] at xAway
  obtain ⟨⟨xl, xr⟩, xWay⟩ := xAway
  obtain ⟨t₂, def₂⟩ : ∃ t₂, t₂ = (t.modify z fun _ => t.node x.addr).modify x.addr fun _ => .zero :=
    ⟨_, rfl⟩
  have at_z : t₂.node z = t.node x.addr := by simp [def₂, Amtree.modify, zx]
  have elsewhere (a : Addr) (first : a ≠ x.addr) (second : a ≠ z) : t₂.node a = t.node a := by
    simp [def₂, Amtree.modify, first, second]
  have beside (T : SearchTree (Entry Addr)) (noX : x.addr ∉ addrs T) (noZ : z ∉ addrs T) (a : Addr)
      (inside : a ∈ addrs T) : t₂.node a = t.node a :=
    elsewhere a (fun same => noX (same ▸ inside)) fun same => noZ (same ▸ inside)
  have pieces : Pieces t₂ above [l, r] [z] := by
    refine ⟨focus.way.congr (by simp [def₂, Amtree.modify]) fun a inside =>
      elsewhere a (fun same => xWay (same ▸ inside)) fun same => away (same ▸ inside), ?_, ?_⟩
    · simp only [List.forall_mem_cons, List.not_mem_nil, false_implies, implies_true, and_true]
      exact ⟨holdsL.congr (beside l xl zl), holdsR.congr (beside r xr zr)⟩
    · simpa [zl, zr, away] using distinct
  have carries : Carries t₂ ⟨x.key, z⟩ b := by simp [Carries, at_z, key, balance]
  have assembled := pieces.assemble carries
  have place : slotOf t₂ (t₂.node z).parent x.addr = endSlot above := by
    have before := focus.slotOf rfl
    rw [at_z]
    rw [parent] at before ⊢
    cases above with
    | nil => rfl
    | cons f above =>
        have same : t₂.node f.x.addr = t.node f.x.addr :=
          elsewhere _ (fun same => xWay (by simp [same])) fun same => away (by simp [same])
        simpa only [endSlot, Slot.owner, slotOf, amtreeWhichChild, same] using before
  -- The new node's own pointers are already those of the old one.
  have own (s : Side) (slot : Slot Addr) (other : Slot.child z s ≠ slot) (c : Option Addr) :
      ((t₂.store slot c).node z).child s = (t.node x.addr).child s := by
    have loaded := load_store t₂ slot (.child z s) c
    rw [if_neg other] at loaded
    exact loaded.trans (by rw [Amtree.load, at_z])
  obtain ⟨t₃, def₃⟩ : ∃ t₃, t₃ = t₂.link (endSlot above) (some z) := ⟨_, rfl⟩
  have stored : t₂.store (endSlot above) (some z) = t₃ := by
    rw [def₃, Amtree.link, setParent_self]
    rintro _ ⟨⟩
    rw [parent_store, at_z, parent]
  have left₃ : (t₃.node z).left = ptr l := by
    rw [← stored]
    exact (own .left _ (child_ne_endSlot away _) _).trans left
  have right₃ : (t₃.node z).right = ptr r := by
    rw [← stored]
    exact (own .right _ (child_ne_endSlot away _) _).trans right
  obtain ⟨t₄, def₄⟩ : ∃ t₄, t₄ = t₃.link (.child z .left) (ptr l) := ⟨_, rfl⟩
  have linked : t₃.setParent (ptr l) (some z) = t₄ := by
    have loaded : t₃.load (.child z .left) = ptr l := left₃
    rw [def₄, Amtree.link, store_self loaded]
    rfl
  have right₄ : (t₄.node z).right = ptr r := by
    have kept := load_setParent t₃ (ptr l) (some z) (.child z .right)
    rw [linked] at kept
    exact kept.trans right₃
  have final : t₄.setParent (ptr r) (some z) = t₄.link (.child z .right) (ptr r) := by
    have loaded : t₄.load (.child z .right) = ptr r := right₄
    rw [Amtree.link, store_self loaded]
    rfl
  simp only [amtreeSwap, ← def₂, place, stored, left₃, linked, right₄, final]
  rwa [← def₃, ← def₄] at assembled

@[simp] theorem count_amtreeSwap (t : Amtree Addr) (a z : Addr) :
    (amtreeSwap t a z).count = t.count := by
  have store (t : Amtree Addr) (slot : Slot Addr) (c : Option Addr) :
      (t.store slot c).count = t.count := by
    cases slot <;> rfl
  have setParent (t : Amtree Addr) (c p : Option Addr) : (t.setParent c p).count = t.count := by
    cases c <;> rfl
  simp only [amtreeSwap, setParent, store]
  rfl

theorem amtreeSwap_spec {T : SearchTree (Entry Addr)} {a z : Addr} (sound : Sound t T)
    (member : a ∈ addrs T) (outside : z ∉ addrs T) :
    ∃ T' l x r, Sound (amtreeSwap t a z) T' ∧ x.addr = a ∧ T.toList = l ++ x :: r ∧
      T'.toList = l ++ ⟨x.key, z⟩ :: r := by
  obtain ⟨focus, avl, ordered, count⟩ := sound
  obtain ⟨x, inside, rfl⟩ := List.mem_map.mp member
  obtain ⟨above, l, b, r, rfl⟩ := exists_plug inside
  have away : z ∉ addrs (.node l x b r) ++ wayAddrs above := fun there => outside <| by
    have perm := plug_addrs above [] (.node l x b r)
    simp only [List.append_nil, wayAddrs, around, List.map_nil] at perm
    exact perm.mem_iff.mpr there
  simp only [List.mem_append, not_or] at away
  have swapped := focus_swap (focus_plug.mpr focus) away.1 away.2
  have whole (y : Entry Addr) : (plug above (.node l y b r)).toList =
      (before above ++ l.toList) ++ y :: (r.toList ++ after above) := by
    rw [toList_plug]
    simp [SearchTree.toList]
  refine ⟨_, _, x, _, ⟨focus_plug.mp swapped, ?_, ?_, ?_⟩, rfl, whole x, whole ⟨x.key, z⟩⟩
  · exact (avl_plug ..).mpr ((avl_plug above (.node l x b r)).mp avl)
  · have keys : (plug above (.node l ⟨x.key, z⟩ b r)).toList.map Entry.key =
        (plug above (.node l x b r)).toList.map Entry.key := by
      rw [whole, whole]
      simp
    rw [InOrder, ← List.pairwise_map (f := Entry.key)] at ordered ⊢
    rwa [keys]
  · rw [count_amtreeSwap, count, whole, whole]
    simp

end Swap

end Libam.AvlTree
