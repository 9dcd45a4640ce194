import Libam.AvlTree.Represents

/-! The rotations relink three or five pointers and keep everything else. -/

namespace Libam.AvlTree

open Libam.Trees

variable {Addr : Type} {t : Amtree Addr} {above : List (Frame (Entry Addr))}

theorem child_ne_endSlot {p : Addr} (away : p ∉ wayAddrs above) (s : Side) :
    Slot.child p s ≠ endSlot above := by
  cases above with
  | nil => simp [endSlot]
  | cons f above =>
      simp only [mem_wayAddrs_cons, not_or] at away
      simp [endSlot, away.1]

theorem child_ne_of_ne {p q : Addr} (distinct : p ≠ q) (s u : Side) :
    Slot.child p s ≠ Slot.child q u := by
  simp [distinct]

theorem child_other_ne (p : Addr) (s : Side) : Slot.child p s.other ≠ Slot.child p s := by
  simp

theorem ptr_ne_of_not_mem {T : SearchTree (Entry Addr)} {a : Addr} (outside : a ∉ addrs T) :
    ∀ u, ptr T = some u → some a ≠ some u := by
  rintro u root ⟨⟩
  exact outside (mem_addrs_of_ptr root)

theorem ptr_ne_of_disjoint {T U : SearchTree (Entry Addr)}
    (disjoint : (addrs U).Disjoint (addrs T)) : ∀ u, ptr T = some u → ptr U ≠ some u :=
  fun _ root clash => disjoint (mem_addrs_of_ptr clash) (mem_addrs_of_ptr root)

theorem some_ne_of_ne {a b : Addr} (distinct : a ≠ b) : ∀ u, some b = some u → some a ≠ some u := by
  rintro u ⟨⟩
  simpa using distinct

theorem some_ne_of_not_mem {T : SearchTree (Entry Addr)} {a : Addr} (outside : a ∉ addrs T) :
    ∀ u, some a = some u → ptr T ≠ some u := by
  rintro u ⟨⟩ root
  exact outside (mem_addrs_of_ptr root)

variable [DecidableEq Addr]

theorem count_join (s : Side) (T U : SearchTree (Entry Addr)) (x : Entry Addr) (b : ℤ) (a : Addr) :
    (addrs (.join s T x b U)).count a =
      (addrs T).count a + (addrs U).count a + (if x.addr = a then 1 else 0) := by
  rw [(addrs_join s T U x b).count_eq]
  simp [List.count_cons]

structure Turned (t : Amtree Addr) (above : List (Frame (Entry Addr))) (s : Side) (x y : Addr)
    (T U V : SearchTree (Entry Addr)) : Prop where
  pieces : Pieces t above [T, U, V] [x, y]
  top : Slotted t (endSlot above) (some y)
  xs : Slotted t (.child x s) (ptr U)
  xo : Slotted t (.child x s.other) (ptr V)
  ys : Slotted t (.child y s) (ptr T)
  yo : Slotted t (.child y s.other) (some x)

theorem turned_links {s : Side} {T U V : SearchTree (Entry Addr)} {x y : Addr}
    (pieces : Pieces t above [T, U, V] [x, y]) (xo : Slotted t (.child x s.other) (ptr V))
    (ys : Slotted t (.child y s) (ptr T)) :
    Turned (((t.link (endSlot above) (some y)).link (.child x s) (ptr U)).link
      (.child y s.other) (some x))
      above s x y T U V := by
  have perm := pieces.distinct
  simp only [List.flatMap_cons, List.flatMap_nil, List.append_nil, List.cons_append,
    List.nil_append, List.nodup_cons, List.mem_cons, List.mem_append, not_or, List.append_assoc,
    List.nodup_append'] at perm
  obtain ⟨⟨xy, xT, xU, xV, xWay⟩, ⟨yT, yU, yV, yWay⟩, -, ⟨-, -, UVW⟩, TUVW⟩ := perm
  have UV : (addrs U).Disjoint (addrs V) := fun a first second =>
    UVW first (List.mem_append_left _ second)
  have UT : (addrs U).Disjoint (addrs T) := fun a first second =>
    TUVW second (List.mem_append_left _ first)
  -- The place of `x` takes `y`.
  obtain ⟨t₁, def₁⟩ : ∃ t₁, t₁ = t.link (endSlot above) (some y) := ⟨_, rfl⟩
  have pieces₁ : Pieces t₁ above [T, U, V] [x, y] :=
    def₁ ▸ pieces.link (.inl rfl) (by simp)
  have top₁ : Slotted t₁ (endSlot above) (some y) := def₁ ▸ .link_same ..
  have xo₁ : Slotted t₁ (.child x s.other) (ptr V) :=
    def₁ ▸ xo.link (child_ne_endSlot xWay _) (ptr_ne_of_not_mem yV)
  have ys₁ : Slotted t₁ (.child y s) (ptr T) :=
    def₁ ▸ ys.link (child_ne_endSlot yWay _) (ptr_ne_of_not_mem yT)
  -- `x` takes the inner subtree.
  obtain ⟨t₂, def₂⟩ : ∃ t₂, t₂ = t₁.link (.child x s) (ptr U) := ⟨_, rfl⟩
  have pieces₂ : Pieces t₂ above [T, U, V] [x, y] :=
    def₂ ▸ pieces₁.link (.inr ⟨_, by simp, s, rfl⟩) fun _ root => .inr ⟨U, by simp, root⟩
  have top₂ : Slotted t₂ (endSlot above) (some y) :=
    def₂ ▸ top₁.link (child_ne_endSlot xWay _).symm (some_ne_of_not_mem yU)
  have xs₂ : Slotted t₂ (.child x s) (ptr U) := def₂ ▸ .link_same ..
  have xo₂ : Slotted t₂ (.child x s.other) (ptr V) :=
    def₂ ▸ xo₁.link (child_other_ne _ _) (ptr_ne_of_disjoint UV)
  have ys₂ : Slotted t₂ (.child y s) (ptr T) :=
    def₂ ▸ ys₁.link (child_ne_of_ne (Ne.symm xy) _ _) (ptr_ne_of_disjoint UT)
  -- `y` takes `x`.
  obtain ⟨t₃, def₃⟩ : ∃ t₃, t₃ = t₂.link (.child y s.other) (some x) := ⟨_, rfl⟩
  have pieces₃ : Pieces t₃ above [T, U, V] [x, y] :=
    def₃ ▸ pieces₂.link (.inr ⟨_, by simp, s.other, rfl⟩) (by simp)
  have top₃ : Slotted t₃ (endSlot above) (some y) :=
    def₃ ▸ top₂.link (child_ne_endSlot yWay _).symm (some_ne_of_ne xy)
  have xs₃ : Slotted t₃ (.child x s) (ptr U) :=
    def₃ ▸ xs₂.link (child_ne_of_ne xy _ _) (ptr_ne_of_not_mem xU)
  have xo₃ : Slotted t₃ (.child x s.other) (ptr V) :=
    def₃ ▸ xo₂.link (child_ne_of_ne xy _ _) (ptr_ne_of_not_mem xV)
  have ys₃ : Slotted t₃ (.child y s) (ptr T) :=
    def₃ ▸ ys₂.link (child_other_ne _ _).symm (ptr_ne_of_not_mem xT)
  have yo₃ : Slotted t₃ (.child y s.other) (some x) := def₃ ▸ .link_same ..
  rw [← def₁, ← def₂, ← def₃]
  exact ⟨pieces₃, top₃, xs₃, xo₃, ys₃, yo₃⟩

theorem focus_rotate {s : Side} {T U V : SearchTree (Entry Addr)} {x y : Entry Addr} {b c : ℤ}
    (focus : Focus t above (.join s (.join s T y c U) x b V)) :
    Focus (rotate s t x.addr y.addr) above
      (.join s T y (if c = 0 then -s.sign else 0)
        (.join s U x (if c = 0 then s.sign else 0) V)) := by
  have place := focus.slotOf (ptr_join ..)
  obtain ⟨way, top, holds, distinct⟩ := focus
  obtain ⟨carriesX, xs, xo, holdsY, holdsV⟩ := (holds_join ..).mp holds
  obtain ⟨carriesY, ys, yo, holdsT, holdsU⟩ := (holds_join ..).mp holdsY
  have perm : ([x.addr, y.addr] ++ [T, U, V].flatMap addrs ++ wayAddrs above).Nodup := by
    refine (focus_perm ?_).mp distinct
    rw [List.perm_iff_count]
    intro a
    simp [count_join, List.count_cons]
    omega
  have pieces : Pieces t above [T, U, V] [x.addr, y.addr] :=
    ⟨way, by simp [holdsT, holdsU, holdsV], perm⟩
  have xy : x.addr ≠ y.addr := by
    have distinct := pieces.distinct
    simp only [List.cons_append, List.nodup_cons, List.mem_cons, not_or] at distinct
    exact distinct.1.1
  have inner : (t.node y.addr).child s.other = ptr U := yo.1
  simp only [rotate, place, inner]
  obtain ⟨t', moved⟩ : ∃ t',
      t' = ((t.link (endSlot above) (some y.addr)).link (.child x.addr s) (ptr U)).link
      (.child y.addr s.other) (some x.addr) := ⟨_, rfl⟩
  have turned : Turned t' above s x.addr y.addr T U V := moved ▸ turned_links pieces xo ys
  have carriesX' : Carries t' x b := by simpa [moved] using carriesX
  have carriesY' : Carries t' y c := by simpa [moved] using carriesY
  rw [← moved, carriesY'.2]
  have balanced (bx by' : ℤ) : Focus ((t'.setBalance x.addr bx).setBalance y.addr by') above
      (.join s T y by' (.join s U x bx V)) := by
    have pieces' := (turned.pieces.setBalance (a := x.addr) (by simp) bx).setBalance
      (a := y.addr) (by simp) by'
    have carriesX'' := (carriesX'.setBalance bx).setBalance_other xy by'
    have carriesY'' := (carriesY'.setBalance_other (Ne.symm xy) bx).setBalance by'
    refine ⟨pieces'.way, by simpa using turned.top, ?_, ?_⟩
    · simp only [holds_join, ptr_join, slotted_setBalance]
      exact ⟨carriesY'', turned.ys, turned.yo, pieces'.holds T (by simp), carriesX'',
        turned.xs, turned.xo,
        pieces'.holds U (by simp), pieces'.holds V (by simp)⟩
    · refine (focus_perm ?_).mpr pieces'.distinct
      rw [List.perm_iff_count]
      intro a
      simp [count_join, List.count_cons]
      omega
  split
  · exact balanced _ _
  · exact balanced _ _

structure TurnedTwice (t : Amtree Addr) (above : List (Frame (Entry Addr))) (s : Side)
    (x y z : Addr) (T P Q V : SearchTree (Entry Addr)) : Prop where
  pieces : Pieces t above [T, P, Q, V] [x, y, z]
  top : Slotted t (endSlot above) (some z)
  xs : Slotted t (.child x s) (ptr Q)
  xo : Slotted t (.child x s.other) (ptr V)
  ys : Slotted t (.child y s) (ptr T)
  yo : Slotted t (.child y s.other) (ptr P)
  zs : Slotted t (.child z s) (some y)
  zo : Slotted t (.child z s.other) (some x)

theorem turnedTwice_links {s : Side} {T P Q V : SearchTree (Entry Addr)} {x y z : Addr}
    (pieces : Pieces t above [T, P, Q, V] [x, y, z]) (xo : Slotted t (.child x s.other) (ptr V))
    (ys : Slotted t (.child y s) (ptr T)) :
    TurnedTwice (((((t.link (endSlot above) (some z)).link (.child y s.other) (ptr P)).link
      (.child x s) (ptr Q)).link
      (.child z s) (some y)).link (.child z s.other) (some x)) above s x y z T P Q V := by
  have perm := pieces.distinct
  simp only [List.flatMap_cons, List.flatMap_nil, List.append_nil, List.cons_append,
    List.nil_append, List.nodup_cons, List.mem_cons, List.mem_append, not_or, List.append_assoc,
    List.nodup_append'] at perm
  obtain ⟨⟨xy, xz, xT, xP, xQ, xV, xWay⟩, ⟨yz, yT, yP, yQ, yV, yWay⟩, ⟨zT, zP, zQ, zV, zWay⟩, -,
    ⟨-, ⟨-, -, QVW⟩, PQVW⟩, TPQVW⟩ := perm
  have QV : (addrs Q).Disjoint (addrs V) := fun a first second =>
    QVW first (List.mem_append_left _ second)
  have PV : (addrs P).Disjoint (addrs V) := fun a first second =>
    PQVW first (List.mem_append_right _ (List.mem_append_left _ second))
  have QP : (addrs Q).Disjoint (addrs P) := fun a first second =>
    PQVW second (List.mem_append_left _ first)
  have PT : (addrs P).Disjoint (addrs T) := fun a first second =>
    TPQVW second (List.mem_append_left _ first)
  have QT : (addrs Q).Disjoint (addrs T) := fun a first second =>
    TPQVW second (List.mem_append_right _ (List.mem_append_left _ first))
  -- The place of `x` takes `z`.
  obtain ⟨t₁, def₁⟩ : ∃ t₁, t₁ = t.link (endSlot above) (some z) := ⟨_, rfl⟩
  have pieces₁ : Pieces t₁ above [T, P, Q, V] [x, y, z] :=
    def₁ ▸ pieces.link (.inl rfl) (by simp)
  have top₁ : Slotted t₁ (endSlot above) (some z) := def₁ ▸ .link_same ..
  have xo₁ : Slotted t₁ (.child x s.other) (ptr V) :=
    def₁ ▸ xo.link (child_ne_endSlot xWay _) (ptr_ne_of_not_mem zV)
  have ys₁ : Slotted t₁ (.child y s) (ptr T) :=
    def₁ ▸ ys.link (child_ne_endSlot yWay _) (ptr_ne_of_not_mem zT)
  -- `y` and `x` take the subtrees of `z`.
  obtain ⟨t₂, def₂⟩ : ∃ t₂, t₂ = t₁.link (.child y s.other) (ptr P) := ⟨_, rfl⟩
  have pieces₂ : Pieces t₂ above [T, P, Q, V] [x, y, z] :=
    def₂ ▸ pieces₁.link (.inr ⟨_, by simp, _, rfl⟩) fun _ root => .inr ⟨P, by simp, root⟩
  have top₂ : Slotted t₂ (endSlot above) (some z) :=
    def₂ ▸ top₁.link (child_ne_endSlot yWay _).symm (some_ne_of_not_mem zP)
  have xo₂ : Slotted t₂ (.child x s.other) (ptr V) :=
    def₂ ▸ xo₁.link (child_ne_of_ne xy _ _) (ptr_ne_of_disjoint PV)
  have ys₂ : Slotted t₂ (.child y s) (ptr T) :=
    def₂ ▸ ys₁.link (child_other_ne _ _).symm (ptr_ne_of_disjoint PT)
  have yo₂ : Slotted t₂ (.child y s.other) (ptr P) := def₂ ▸ .link_same ..
  obtain ⟨t₃, def₃⟩ : ∃ t₃, t₃ = t₂.link (.child x s) (ptr Q) := ⟨_, rfl⟩
  have pieces₃ : Pieces t₃ above [T, P, Q, V] [x, y, z] :=
    def₃ ▸ pieces₂.link (.inr ⟨_, by simp, _, rfl⟩) fun _ root => .inr ⟨Q, by simp, root⟩
  have top₃ : Slotted t₃ (endSlot above) (some z) :=
    def₃ ▸ top₂.link (child_ne_endSlot xWay _).symm (some_ne_of_not_mem zQ)
  have xo₃ : Slotted t₃ (.child x s.other) (ptr V) :=
    def₃ ▸ xo₂.link (child_other_ne _ _) (ptr_ne_of_disjoint QV)
  have ys₃ : Slotted t₃ (.child y s) (ptr T) :=
    def₃ ▸ ys₂.link (child_ne_of_ne (Ne.symm xy) _ _) (ptr_ne_of_disjoint QT)
  have yo₃ : Slotted t₃ (.child y s.other) (ptr P) :=
    def₃ ▸ yo₂.link (child_ne_of_ne (Ne.symm xy) _ _) (ptr_ne_of_disjoint QP)
  have xs₃ : Slotted t₃ (.child x s) (ptr Q) := def₃ ▸ .link_same ..
  -- `z` takes `y` and `x`.
  obtain ⟨t₄, def₄⟩ : ∃ t₄, t₄ = t₃.link (.child z s) (some y) := ⟨_, rfl⟩
  have pieces₄ : Pieces t₄ above [T, P, Q, V] [x, y, z] :=
    def₄ ▸ pieces₃.link (.inr ⟨_, by simp, _, rfl⟩) (by simp)
  have top₄ : Slotted t₄ (endSlot above) (some z) :=
    def₄ ▸ top₃.link (child_ne_endSlot zWay _).symm (some_ne_of_ne yz)
  have xo₄ : Slotted t₄ (.child x s.other) (ptr V) :=
    def₄ ▸ xo₃.link (child_ne_of_ne xz _ _) (ptr_ne_of_not_mem yV)
  have ys₄ : Slotted t₄ (.child y s) (ptr T) :=
    def₄ ▸ ys₃.link (child_ne_of_ne yz _ _) (ptr_ne_of_not_mem yT)
  have yo₄ : Slotted t₄ (.child y s.other) (ptr P) :=
    def₄ ▸ yo₃.link (child_ne_of_ne yz _ _) (ptr_ne_of_not_mem yP)
  have xs₄ : Slotted t₄ (.child x s) (ptr Q) :=
    def₄ ▸ xs₃.link (child_ne_of_ne xz _ _) (ptr_ne_of_not_mem yQ)
  have zs₄ : Slotted t₄ (.child z s) (some y) := def₄ ▸ .link_same ..
  obtain ⟨t₅, def₅⟩ : ∃ t₅, t₅ = t₄.link (.child z s.other) (some x) := ⟨_, rfl⟩
  have pieces₅ : Pieces t₅ above [T, P, Q, V] [x, y, z] :=
    def₅ ▸ pieces₄.link (.inr ⟨_, by simp, _, rfl⟩) (by simp)
  have top₅ : Slotted t₅ (endSlot above) (some z) :=
    def₅ ▸ top₄.link (child_ne_endSlot zWay _).symm (some_ne_of_ne xz)
  have xo₅ : Slotted t₅ (.child x s.other) (ptr V) :=
    def₅ ▸ xo₄.link (child_ne_of_ne xz _ _) (ptr_ne_of_not_mem xV)
  have ys₅ : Slotted t₅ (.child y s) (ptr T) :=
    def₅ ▸ ys₄.link (child_ne_of_ne yz _ _) (ptr_ne_of_not_mem xT)
  have yo₅ : Slotted t₅ (.child y s.other) (ptr P) :=
    def₅ ▸ yo₄.link (child_ne_of_ne yz _ _) (ptr_ne_of_not_mem xP)
  have xs₅ : Slotted t₅ (.child x s) (ptr Q) :=
    def₅ ▸ xs₄.link (child_ne_of_ne xz _ _) (ptr_ne_of_not_mem xQ)
  have zs₅ : Slotted t₅ (.child z s) (some y) :=
    def₅ ▸ zs₄.link (child_other_ne _ _).symm (some_ne_of_ne xy)
  have zo₅ : Slotted t₅ (.child z s.other) (some x) := def₅ ▸ .link_same ..
  rw [← def₁, ← def₂, ← def₃, ← def₄, ← def₅]
  exact ⟨pieces₅, top₅, xs₅, xo₅, ys₅, yo₅, zs₅, zo₅⟩

theorem focus_rotateTwice {s : Side} {T P Q V : SearchTree (Entry Addr)} {x y z : Entry Addr}
    {b c d : ℤ}
    (focus : Focus t above (.join s (.join s T y c (.join s P z d Q)) x b V)) :
    ∃ t', rotateTwice s t x.addr y.addr = .ok t' ∧ t'.count = t.count ∧
      Focus t' above (.join s
        (.join s T y (if s.sign * d > 0 then 0 else if d = 0 then 0 else s.sign) P) z 0
        (.join s Q x (if s.sign * d > 0 then -s.sign else 0) V)) := by
  have place := focus.slotOf (ptr_join ..)
  obtain ⟨way, top, holds, distinct⟩ := focus
  obtain ⟨carriesX, xs, xo, holdsY, holdsV⟩ := (holds_join ..).mp holds
  obtain ⟨carriesY, ys, yo, holdsT, holdsZ⟩ := (holds_join ..).mp holdsY
  obtain ⟨carriesZ, zs, zo, holdsP, holdsQ⟩ := (holds_join ..).mp holdsZ
  have perm : ([x.addr, y.addr, z.addr] ++ [T, P, Q, V].flatMap addrs ++ wayAddrs above).Nodup := by
    refine (focus_perm ?_).mp distinct
    rw [List.perm_iff_count]
    intro a
    simp [count_join, List.count_cons]
    omega
  have pieces : Pieces t above [T, P, Q, V] [x.addr, y.addr, z.addr] :=
    ⟨way, by simp [holdsT, holdsP, holdsQ, holdsV], perm⟩
  have ⟨xy, xz, yz⟩ : x.addr ≠ y.addr ∧ x.addr ≠ z.addr ∧ y.addr ≠ z.addr := by
    have distinct := pieces.distinct
    simp only [List.cons_append, List.nodup_cons, List.mem_cons, not_or] at distinct
    exact ⟨distinct.1.1, distinct.1.2.1, distinct.2.1.1⟩
  have inner : (t.node y.addr).child s.other = some z.addr := yo.1.trans (ptr_join ..)
  have innerS : (t.node z.addr).child s = ptr P := zs.1
  have innerO : (t.node z.addr).child s.other = ptr Q := zo.1
  simp only [rotateTwice, inner, deref, bind, Except.bind, pure, Except.pure, innerS, innerO, place]
  obtain ⟨t', moved⟩ : ∃ t',
      t' = ((((t.link (endSlot above) (some z.addr)).link (.child y.addr s.other) (ptr P)).link
      (.child x.addr s) (ptr Q)).link (.child z.addr s) (some y.addr)).link (.child z.addr s.other)
      (some x.addr) :=
    ⟨_, rfl⟩
  have turned : TurnedTwice t' above s x.addr y.addr z.addr T P Q V :=
    moved ▸ turnedTwice_links pieces xo ys
  have count : t'.count = t.count := by simp [moved]
  have carriesX' : Carries t' x b := by simpa [moved] using carriesX
  have carriesY' : Carries t' y c := by simpa [moved] using carriesY
  have carriesZ' : Carries t' z d := by simpa [moved] using carriesZ
  simp only [← moved, carriesZ'.2]
  have balanced (bx by' : ℤ) :
      Focus (((t'.setBalance x.addr bx).setBalance y.addr by').setBalance z.addr 0) above
        (.join s (.join s T y by' P) z 0 (.join s Q x bx V)) := by
    have pieces' := ((turned.pieces.setBalance (a := x.addr) (by simp) bx).setBalance
      (a := y.addr) (by simp) by').setBalance (a := z.addr) (by simp) 0
    have carriesX'' := ((carriesX'.setBalance bx).setBalance_other xy by').setBalance_other xz 0
    have carriesY'' :=
      ((carriesY'.setBalance_other (Ne.symm xy) bx).setBalance by').setBalance_other
      yz 0
    have carriesZ'' := ((carriesZ'.setBalance_other (Ne.symm xz) bx).setBalance_other
      (Ne.symm yz) by').setBalance 0
    refine ⟨pieces'.way, by simpa using turned.top, ?_, ?_⟩
    · simp only [holds_join, ptr_join, slotted_setBalance]
      exact ⟨carriesZ'', turned.zs, turned.zo,
        ⟨carriesY'', turned.ys, turned.yo, pieces'.holds T (by simp),
        pieces'.holds P (by simp)⟩, carriesX'', turned.xs, turned.xo, pieces'.holds Q (by simp),
        pieces'.holds V (by simp)⟩
    · refine (focus_perm ?_).mpr pieces'.distinct
      rw [List.perm_iff_count]
      intro a
      simp [count_join, List.count_cons]
      omega
  refine ⟨_, rfl, ?_, ?_⟩
  · split_ifs <;> simp [count]
  · split_ifs
    · exact balanced _ _
    · exact balanced _ _
    · exact balanced _ _

end Libam.AvlTree
