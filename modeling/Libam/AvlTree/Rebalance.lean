import Libam.AvlTree.Rotations

/-! The two loops that walk up after an insertion and after a deletion restore AVL balance. -/

namespace Libam.AvlTree

open Libam.Trees

variable {Addr : Type} [DecidableEq Addr] {t : Amtree Addr} {above : List (Frame (Entry Addr))}

@[simp] theorem count_rotate (s : Side) (t : Amtree Addr) (n c : Addr) :
    (rotate s t n c).count = t.count := by
  simp only [rotate]
  split <;> simp

omit [DecidableEq Addr] in
theorem exists_join {T : SearchTree (Entry Addr)} {h : ℕ} (tall : T.height = h + 1) (s : Side) :
    ∃ A y c B, T = .join s A y c B := by
  cases T with
  | leaf => cases tall
  | node l x b r =>
      obtain ⟨A, B, same⟩ := SearchTree.node_eq_join s l x b r
      exact ⟨A, x, b, B, same⟩

omit [DecidableEq Addr] in
theorem Focus.root {s : Side} {T V : SearchTree (Entry Addr)} {x : Entry Addr} {b : ℤ}
    (focus : Focus t above (.join s T x b V)) :
    (t.node x.addr).balance = b ∧ (t.node x.addr).parent = (endSlot above).owner ∧
      (t.node x.addr).child s = ptr T ∧ (t.node x.addr).child s.other = ptr V := by
  obtain ⟨carries, left, right, _, _⟩ := (holds_join ..).mp focus.holds
  exact ⟨carries.2, focus.slotted.2 _ (ptr_join ..), left.1, right.1⟩

theorem Focus.setBalance {f : Frame (Entry Addr)} {T : SearchTree (Entry Addr)}
    (focus : Focus t (f :: above) T) (b : ℤ) :
    Focus (t.setBalance f.x.addr b) ({ f with balance := b } :: above) T := by
  obtain ⟨⟨carries, beside, sibling, up, way⟩, slotted, holds, distinct⟩ := focus
  have away := wayAddrs_cons_nodup distinct.of_append_right
  have outside : f.x.addr ∉ addrs T := fun inside =>
    List.disjoint_of_nodup_append distinct inside (by simp)
  exact ⟨⟨carries.setBalance b, by simpa using beside, sibling.setBalance away.1 b,
    by simpa using up, way.setBalance away.2.1 b⟩, by simpa [endSlot] using slotted,
    holds.setBalance outside b, by simpa [wayAddrs, around] using distinct⟩

omit [DecidableEq Addr] in
theorem Focus.left_eq {f : Frame (Entry Addr)} {T : SearchTree (Entry Addr)} {n : Addr}
    (focus : Focus t (f :: above) T) (root : ptr T = some n) :
    (t.node f.x.addr).left = some n ↔ f.side = .left := by
  have points := focus.slotted.1
  obtain ⟨_, beside, _⟩ := focus.way
  have besides := beside.1
  obtain ⟨side, x, b, sibling⟩ := f
  cases side with
  | left =>
      have here : (t.node x.addr).left = some n := points.trans root
      simp [here]
  | right =>
      have there : (t.node x.addr).left = ptr sibling := besides
      simp only [there, reduceCtorEq, iff_false]
      intro same
      exact List.disjoint_of_nodup_append focus.distinct (mem_addrs_of_ptr root)
        (by simp [mem_addrs_of_ptr same])

theorem rotate_repairs {s : Side} {T V : SearchTree (Entry Addr)} {x : Entry Addr} {b : ℤ}
    (focus : Focus t above (.join s T x b V)) (avl : T.Avl) (avlV : V.Avl)
    (deep : T.height = V.height + 2) (outer : T.rootBalance ≠ -s.sign) :
    ∃ n T', ptr T = some n ∧ ptr T' = some n ∧ Focus (rotate s t x.addr n) above T' ∧ T'.Avl ∧
      T'.toList = (SearchTree.join s T x b V).toList ∧
      T'.rootBalance = (if T.rootBalance = 0 then -s.sign else 0) ∧
      T'.height = V.height + (if T.rootBalance = 0 then 3 else 2) := by
  obtain ⟨A, y, c, B, rfl⟩ := exists_join deep s
  rw [SearchTree.rootBalance_join] at outer ⊢
  have repaired := SearchTree.avl_rotate s (x := x) (b := b) avl avlV deep outer
  refine ⟨y.addr, _, ptr_join .., ?_, focus_rotate focus, repaired.1, SearchTree.toList_rotate ..,
    SearchTree.rootBalance_join .., ?_⟩
  · exact ptr_join ..
  · simpa only [SearchTree.height_join] using repaired.2

theorem rotateTwice_repairs {s : Side} {T V : SearchTree (Entry Addr)} {x : Entry Addr} {b : ℤ}
    (focus : Focus t above (.join s T x b V)) (avl : T.Avl) (avlV : V.Avl)
    (deep : T.height = V.height + 2) (inner : T.rootBalance = -s.sign) :
    ∃ n t' T' u, ptr T = some n ∧ rotateTwice s t x.addr n = .ok t' ∧ t'.count = t.count ∧
      Focus t' above T' ∧ T'.Avl ∧ T'.toList = (SearchTree.join s T x b V).toList ∧
      T'.height = V.height + 2 ∧ ptr T' = some u ∧ (t'.node x.addr).parent = some u := by
  obtain ⟨A, y, c, B, rfl⟩ := exists_join deep s
  rw [SearchTree.rootBalance_join] at inner
  obtain ⟨P, z, d, Q, rfl⟩ : ∃ P z d Q, B = .join s P z d Q := by
    have balanced := (SearchTree.avl_join ..).mp avl
    refine exists_join (h := B.height - 1) ?_ s
    cases s <;> simp only [Side.sign] at inner balanced <;> omega
  obtain ⟨t', rotated, count, after⟩ := focus_rotateTwice focus
  have repaired := SearchTree.avl_rotate_twice s (x := x) (b := b) avl avlV deep inner
  refine ⟨y.addr, t', _, z.addr, ptr_join .., rotated, count, after, repaired.1,
    SearchTree.toList_rotate_twice .., ?_, ptr_join .., ?_⟩
  · simpa only [SearchTree.height_join] using repaired.2
  · obtain ⟨_, _, right, _⟩ := (holds_join ..).mp after.holds
    exact right.2 _ (ptr_join ..)

section Growing

/-- One level more at the end of the way: the loop of `amtree_balance_add`. -/
theorem balanceAddFrom_spec {fuel : ℕ} {above : List (Frame (Entry Addr))} {t : Amtree Addr}
    {T : SearchTree (Entry Addr)} {h : ℕ} (focus : Focus t above T) (avl : T.Avl)
    (grown : T.height = h + 1) (balanced : Balanced above h) (leans : h = 0 ∨ T.rootBalance ≠ 0)
    (enough : above.length < fuel) :
    ∃ t' T', balanceAddFrom fuel t (ptr T) (endSlot above).owner = .ok t' ∧ t'.count = t.count ∧
      Focus t' [] T' ∧ T'.Avl ∧ T'.toList = (plug above T).toList := by
  induction above generalizing fuel t T h with
  | nil =>
      obtain ⟨fuel, rfl⟩ := Nat.exists_eq_succ_of_ne_zero (Nat.ne_of_gt enough)
      exact ⟨t, T, rfl, rfl, focus, avl, rfl⟩
  | cons f above ih =>
      obtain ⟨fuel, rfl⟩ := Nat.exists_eq_succ_of_ne_zero (Nat.ne_of_gt (Nat.zero_lt_of_lt enough))
      obtain ⟨avlSibling, balance, low, high, rest⟩ := balanced
      obtain ⟨n, root⟩ : ∃ n, ptr T = some n := by
        obtain ⟨A, y, c, B, rfl⟩ := exists_join grown f.side
        exact ⟨_, ptr_join ..⟩
      obtain ⟨b, defB⟩ : ∃ b, b = f.balance + f.side.sign := ⟨_, rfl⟩
      obtain ⟨t₁, def₁⟩ : ∃ t₁, t₁ = t.setBalance f.x.addr b := ⟨_, rfl⟩
      have adjusted : (if (t.node f.x.addr).left = some n then
            t.setBalance f.x.addr ((t.node f.x.addr).balance - 1)
          else t.setBalance f.x.addr ((t.node f.x.addr).balance + 1)) = t₁ := by
        rw [focus.way.1.2, def₁, defB]
        cases here : f.side <;> simp [focus.left_eq root, here, Side.sign, sub_eq_add_neg]
      have count : t₁.count = t.count := by simp [def₁]
      have filled : Focus t₁ above (.join f.side T f.x b f.sibling) :=
        (focus_fill _).mp (def₁ ▸ focus.setBalance b)
      have current := filled.root
      have whole (above' : List (Frame (Entry Addr))) (T' : SearchTree (Entry Addr))
          (same : T'.toList = (SearchTree.join f.side T f.x b f.sibling).toList) :
          (plug above T').toList = (plug (f :: above) T).toList := by
        simp only [toList_plug, plug, same]
        cases here : f.side <;> simp [Frame.fill, SearchTree.join, here, SearchTree.toList]
      -- What the new balance says about the heights.
      have heights : (b = 0 → f.sibling.height = h + 1) ∧
          (b = 1 ∨ b = -1 → f.sibling.height = h ∧ b = f.side.sign) ∧
          (b ≠ 0 → ¬(b = 1 ∨ b = -1) → b = 2 * f.side.sign ∧ h = f.sibling.height + 1) ∧
          b = f.side.sign * ((h + 1 : ℕ) - f.sibling.height) := by
        cases here : f.side <;> simp only [here, Side.sign] at * <;> omega
      simp only [root, endSlot, Slot.owner, balanceAddFrom, adjusted, current.1, bind, Except.bind,
        pure, Except.pure, deref]
      by_cases level : b = 0
      · -- The lower side has caught up.
        have same := heights.1 level
        refine ⟨t₁, _, if_pos level, count, focus_plug.mp filled, (avl_plug ..).mpr ⟨?_, ?_⟩,
          whole above _ rfl⟩
        · exact (SearchTree.avl_join ..).mpr
            ⟨avl, avlSibling, grown ▸ heights.2.2.2, by omega, by omega⟩
        · rw [SearchTree.height_join, grown]
          rwa [show max (h + 1) f.sibling.height = max h f.sibling.height by omega]
      rw [if_neg level]
      by_cases tall : b = 1 ∨ b = -1
      · -- This node has grown too.
        have same := heights.2.1 tall
        have up : (t₁.node n).parent = some f.x.addr := by
          obtain ⟨_, slotted, _⟩ := (holds_join ..).mp filled.holds
          exact slotted.2 n root
        obtain ⟨t', T', walked, sameCount, represented, avlWhole, contents⟩ := ih
          (h := max h f.sibling.height + 1) filled
          ((SearchTree.avl_join ..).mpr
            ⟨avl, avlSibling, grown ▸ heights.2.2.2, by omega, by omega⟩)
          (by rw [SearchTree.height_join]; omega) rest
          (.inr (by rw [SearchTree.rootBalance_join]; exact level)) (Nat.lt_of_succ_lt_succ enough)
        refine ⟨t', T', ?_, sameCount.trans count, represented, avlWhole,
          contents.trans (whole above _ rfl)⟩
        rw [if_pos tall, up, current.2.1, ← walked, ptr_join]
      rw [if_neg tall]
      obtain ⟨twice, deeper⟩ := heights.2.2.1 level tall
      have leaning : T.rootBalance ≠ 0 := leans.resolve_left (by omega)
      have deep : T.height = f.sibling.height + 2 := by omega
      have rootBalance : (t₁.node n).balance = T.rootBalance := by
        obtain ⟨_, _, _, holds, _⟩ := (holds_join ..).mp filled.holds
        obtain ⟨A, y, c, B, rfl⟩ := exists_join grown f.side
        obtain ⟨carries, _⟩ := (holds_join ..).mp holds
        cases (ptr_join ..).symm.trans root
        rw [SearchTree.rootBalance_join]
        exact carries.2
      obtain ⟨t', T', rotated, sameCount, after, avlAfter, contents, height⟩ :
          ∃ t' T', (if T.rootBalance = f.side.sign then .ok (rotate f.side t₁ f.x.addr n)
              else rotateTwice f.side t₁ f.x.addr n) = Except.ok t' ∧ t'.count = t₁.count ∧
            Focus t' above T' ∧ T'.Avl ∧
            T'.toList = (SearchTree.join f.side T f.x b f.sibling).toList ∧
            T'.height = f.sibling.height + 2 := by
        by_cases outer : T.rootBalance = f.side.sign
        · obtain ⟨n', T', root', _, after, avlAfter, contents, _, height⟩ := rotate_repairs filled
            avl avlSibling deep (by rw [outer]; cases f.side <;> decide)
          cases root.symm.trans root'
          rw [if_neg leaning] at height
          exact ⟨_, T', if_pos outer, count_rotate .., after, avlAfter, contents, height⟩
        · have inner : T.rootBalance = -f.side.sign := by
            obtain ⟨A, y, c, B, rfl⟩ := exists_join grown f.side
            have small := ((SearchTree.avl_join ..).mp avl).2.2
            rw [SearchTree.rootBalance_join] at *
            cases here : f.side <;> simp only [here, Side.sign] at * <;> omega
          obtain ⟨n', t', T', _, root', rotated, sameCount, after, avlAfter, contents, height, _⟩ :=
            rotateTwice_repairs filled avl avlSibling deep inner
          cases root.symm.trans root'
          exact ⟨t', T', (if_neg outer).trans rotated, sameCount, after, avlAfter, contents, height⟩
      refine ⟨t', plug above T', ?_, sameCount.trans count, focus_plug.mp after,
        (avl_plug ..).mpr ⟨avlAfter, ?_⟩, whole above T' contents⟩
      · rw [← rotated, rootBalance, twice]
        cases f.side <;> simp [Side.sign, amtreeRotateLeft, amtreeRotateRight,
          amtreeRotateRightLeft, amtreeRotateLeftRight] <;> rfl
      · rwa [height, show f.sibling.height + 2 = max h f.sibling.height + 1 by omega]

end Growing

section Shrinking

def shrinkCase (s : Side) (t : Amtree Addr) (parent c : Addr) :
    Except Fault (Amtree Addr × Option Addr) := do
  if (t.node c).balance ≠ -s.sign then
    let t := rotate s t parent c
    return (t, if (t.node c).balance ≠ 0 then none else some c)
  else
    let t ← rotateTwice s t parent c
    let up ← deref (t.node parent).parent
    return (t, some up)

omit [DecidableEq Addr] in
theorem Holds.rootBalance {T : SearchTree (Entry Addr)} {n : Addr} (holds : Holds t T)
    (root : ptr T = some n) : (t.node n).balance = T.rootBalance := by
  cases T with
  | leaf => cases root
  | node l x b r =>
      cases root
      exact holds.1.2

theorem shrinkCase_spec {s : Side} {T V : SearchTree (Entry Addr)} {x : Entry Addr} {b : ℤ}
    (focus : Focus t above (.join s T x b V)) (avl : T.Avl) (avlV : V.Avl)
    (deep : T.height = V.height + 2) :
    ∃ n t' up T', ptr T = some n ∧ shrinkCase s t x.addr n = .ok (t', up) ∧ t'.count = t.count ∧
      Focus t' above T' ∧ T'.Avl ∧ T'.toList = (SearchTree.join s T x b V).toList ∧
      ((up = none ∧ T'.height = V.height + 3) ∨
        (∃ u, up = some u ∧ ptr T' = some u ∧ T'.height + 1 = V.height + 3)) := by
  obtain ⟨_, _, _, holds, _⟩ := (holds_join ..).mp focus.holds
  by_cases outer : T.rootBalance ≠ -s.sign
  · obtain ⟨n, T', root, root', after, avlAfter, contents, lean, height⟩ :=
      rotate_repairs focus avl avlV deep outer
    refine ⟨n, _, if ((rotate s t x.addr n).node n).balance ≠ 0 then none else some n, T', root, ?_,
      count_rotate .., after, avlAfter, contents, ?_⟩
    · rw [shrinkCase, holds.rootBalance root, if_pos outer]
      rfl
    · rw [after.holds.rootBalance root', lean]
      by_cases flat : T.rootBalance = 0
      · left
        rw [if_pos flat] at height ⊢
        exact ⟨if_pos (by cases s <;> decide), height⟩
      · right
        rw [if_neg flat] at height ⊢
        exact ⟨n, rfl, root', by omega⟩
  · obtain ⟨n, t', T', u, root, rotated, count, after, avlAfter, contents, height, root', up⟩ :=
      rotateTwice_repairs focus avl avlV deep (not_not.mp outer)
    refine ⟨n, t', some u, T', root, ?_, count, after, avlAfter, contents,
      .inr ⟨u, rfl, root', by omega⟩⟩
    rw [shrinkCase, holds.rootBalance root, if_neg outer, rotated]
    simp only [bind, Except.bind, up, deref]
    rfl

/-- The switch of `amtree_balance_del` on a node whose subtree was `H` levels high: either the
subtree is as high again, or one level is lost above it too. -/
theorem balanceDelSwitch_spec {t : Amtree Addr} {above : List (Frame (Entry Addr))}
    {l r : SearchTree (Entry Addr)} {x : Entry Addr} {b : ℤ} {H : ℕ}
    (focus : Focus t above (.node l x b r)) (avlL : l.Avl) (avlR : r.Avl)
    (balance : b = r.height - l.height) (low : -2 ≤ b) (high : b ≤ 2)
    (height : H = max l.height r.height + 1 + if b = 0 then 1 else 0) :
    ∃ t' up T', balanceDelSwitch t x.addr = .ok (t', up) ∧ t'.count = t.count ∧
      Focus t' above T' ∧ T'.Avl ∧ T'.toList = (SearchTree.node l x b r).toList ∧
      ((up = none ∧ T'.height = H) ∨
        (∃ u, up = some u ∧ ptr T' = some u ∧ T'.height + 1 = H)) := by
  have current := (Focus.root (s := .left) focus).1
  simp only [balanceDelSwitch, current, bind, Except.bind, pure, Except.pure]
  by_cases level : b = 0
  · rw [if_pos level] at height
    refine ⟨t, _, _, if_pos level, rfl, focus, ⟨avlL, avlR, balance, by omega, by omega⟩, rfl,
      .inr ⟨x.addr, rfl, rfl, ?_⟩⟩
    rw [height]
    rfl
  rw [if_neg level] at height ⊢
  by_cases same : b = 1 ∨ b = -1
  · exact ⟨t, none, _, if_pos same, rfl, focus, ⟨avlL, avlR, balance, by omega, by omega⟩, rfl,
      .inl ⟨rfl, height.symm⟩⟩
  rw [if_neg same]
  have points := Focus.root (s := .left) focus
  by_cases deeper : b = 2
  · -- The right side is the deeper one.
    have deep : r.height = l.height + 2 := by omega
    obtain ⟨n, t', up, T', root, run, count, after, avlAfter, contents, heights⟩ :=
      shrinkCase_spec (s := .right) focus avlR avlL deep
    refine ⟨t', up, T', ?_, count, after, avlAfter, contents, ?_⟩
    · have right : (t.node x.addr).right = some n := points.2.2.2.trans root
      rw [if_pos deeper, right, ← run]
      rfl
    · rwa [show H = l.height + 3 by omega]
  · have deep : l.height = r.height + 2 := by omega
    obtain ⟨n, t', up, T', root, run, count, after, avlAfter, contents, heights⟩ :=
      shrinkCase_spec (s := .left) focus avlL avlR deep
    refine ⟨t', up, T', ?_, count, after, avlAfter, contents, ?_⟩
    · have left : (t.node x.addr).left = some n := points.2.2.1.trans root
      rw [if_neg deeper, if_pos (by omega), left, ← run]
      rfl
    · rwa [show H = r.height + 3 by omega]

/-- A subtree that has become one level lower at its node `x`, or not: `amtree_balance_del`. -/
theorem amtreeBalanceDel_spec {fuel : ℕ} {above : List (Frame (Entry Addr))} {t : Amtree Addr}
    {l r : SearchTree (Entry Addr)} {x : Entry Addr} {b : ℤ} {H : ℕ}
    (focus : Focus t above (.node l x b r)) (avlL : l.Avl) (avlR : r.Avl)
    (balance : b = r.height - l.height) (low : -2 ≤ b) (high : b ≤ 2)
    (height : H = max l.height r.height + 1 + if b = 0 then 1 else 0)
    (balanced : Balanced above H) (enough : above.length < fuel) :
    ∃ t' T', amtreeBalanceDel fuel t x.addr = .ok t' ∧ t'.count = t.count ∧
      Focus t' [] T' ∧ T'.Avl ∧ T'.toList = (plug above (.node l x b r)).toList := by
  induction above generalizing fuel t l r x b H with
  | nil =>
      obtain ⟨fuel, rfl⟩ := Nat.exists_eq_succ_of_ne_zero (Nat.ne_of_gt enough)
      obtain ⟨t', up, T', switched, count, after, avlAfter, contents, heights⟩ :=
        balanceDelSwitch_spec focus avlL avlR balance low high height
      refine ⟨t', T', ?_, count, after, avlAfter, contents⟩
      simp only [amtreeBalanceDel, switched, bind, Except.bind]
      rcases heights with ⟨rfl, _⟩ | ⟨u, rfl, root, _⟩
      · rfl
      · simp only [after.slotted.2 u root]
        rfl
  | cons f above ih =>
      obtain ⟨fuel, rfl⟩ := Nat.exists_eq_succ_of_ne_zero (Nat.ne_of_gt (Nat.zero_lt_of_lt enough))
      obtain ⟨t', up, T', switched, count, after, avlAfter, contents, heights⟩ :=
        balanceDelSwitch_spec focus avlL avlR balance low high height
      have whole : (plug (f :: above) T').toList = (plug (f :: above) (.node l x b r)).toList := by
        simp only [toList_plug, contents]
      simp only [amtreeBalanceDel, switched, bind, Except.bind]
      rcases heights with ⟨rfl, same⟩ | ⟨u, rfl, root, lower⟩
      · exact ⟨t', _, rfl, count, focus_plug.mp after,
          (avl_plug ..).mpr ⟨avlAfter, same ▸ balanced⟩,
          whole⟩
      obtain ⟨avlSibling, balanceF, lowF, highF, rest⟩ := balanced
      obtain ⟨c, defC⟩ : ∃ c, c = f.balance - f.side.sign := ⟨_, rfl⟩
      obtain ⟨t₁, def₁⟩ : ∃ t₁, t₁ = t'.setBalance f.x.addr c := ⟨_, rfl⟩
      have adjusted : (if (t'.node f.x.addr).left = some u then
            t'.setBalance f.x.addr ((t'.node f.x.addr).balance + 1)
          else t'.setBalance f.x.addr ((t'.node f.x.addr).balance - 1)) = t₁ := by
        rw [after.way.1.2, def₁, defC]
        cases here : f.side <;> simp [after.left_eq root, here, Side.sign]
      have filled : Focus t₁ above (.join f.side T' f.x c f.sibling) :=
        (focus_fill _).mp (def₁ ▸ after.setBalance c)
      have contents' : (plug above (.join f.side T' f.x c f.sibling)).toList =
          (plug (f :: above) T').toList := by
        simp only [toList_plug, plug]
        cases here : f.side <;> simp [Frame.fill, SearchTree.join, here, SearchTree.toList]
      simp only [after.slotted.2 u root, endSlot, Slot.owner, adjusted]
      cases here : f.side with
      | left =>
          rw [here] at filled contents' balanceF defC
          simp only [Side.sign] at balanceF defC
          obtain ⟨t'', T'', walked, sameCount, represented, avlWhole, contents''⟩ :=
            ih filled avlAfter avlSibling (by omega) (by omega) (by omega)
              (by split <;> omega) rest (Nat.lt_of_succ_lt_succ enough)
          exact ⟨t'', T'', walked, by rw [sameCount, def₁, count_setBalance, count], represented,
            avlWhole, contents''.trans (contents'.trans whole)⟩
      | right =>
          rw [here] at filled contents' balanceF defC
          simp only [Side.sign] at balanceF defC
          obtain ⟨t'', T'', walked, sameCount, represented, avlWhole, contents''⟩ :=
            ih filled avlSibling avlAfter (by omega) (by omega) (by omega)
              (by split <;> omega) rest (Nat.lt_of_succ_lt_succ enough)
          exact ⟨t'', T'', walked, by rw [sameCount, def₁, count_setBalance, count], represented,
            avlWhole, contents''.trans (contents'.trans whole)⟩

end Shrinking

end Libam.AvlTree
