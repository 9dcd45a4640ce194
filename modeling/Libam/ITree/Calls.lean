import Libam.ITree.Matching

/-! The calls of `libam_itree.c` on nodes with links, in lockstep with the calls on a tree and a
list apart. -/

namespace Libam.ITree.Embedded

open Libam.Trees Libam.AvlTree Libam.Lists Libam.Lockstep

variable {Addr : Type} [DecidableEq Addr] {S : Set Addr} {links : Links (LinkAddr Addr)}
  {t : Amtree Addr} {u : Amitree Addr}

section Linking

@[simp] theorem slotOf_setParent (t : Amtree Addr) (c q p : Option Addr) (n : Addr) :
    slotOf (t.setParent c q) p n = slotOf t p n := by
  cases p with
  | none => rfl
  | some p =>
      have left : ((t.setParent c q).node p).left = (t.node p).left :=
        load_setParent t c q (.child p .left)
      simp only [slotOf, amtreeWhichChild, left]

omit [DecidableEq Addr] in
theorem only_inside {a : Addr} (inside : a ∈ S) : ∀ b ∈ some a, b ∈ S := by
  rintro _ ⟨⟩
  exact inside

theorem Matches.place (both : Matches S links t u) {p : Option Addr} {c : Addr}
    (inP : ∀ a ∈ p, a ∈ S) (inC : c ∈ S) (n : Addr) :
    Matches S links (t.link (slotOf t p n) (some c)) ((u.setParent c p).replaceChild p n c) := by
  refine ⟨?_, by simp [both.links]⟩
  have tree : ((u.setParent c p).replaceChild p n c).tree =
      u.tree.link (slotOf u.tree p n) (some c) := by
    simp [Amtree.link, store_setParent]
  rw [tree, both.same.slotOf_eq inP]
  exact both.same.link _ (by simpa using inP) (only_inside inC)

theorem Matches.linkLeft (both : Matches S links t u) {p : Addr} {c : Option Addr} (inP : p ∈ S)
    (inC : ∀ a ∈ c, a ∈ S) :
    Matches S links (t.link (.child p .left) c) ((u.adopt c (some p)).setLeft p c) := by
  refine ⟨?_, by simp [both.links]⟩
  have tree : ((u.adopt c (some p)).setLeft p c).tree = u.tree.link (.child p .left) c := by
    simp [Amtree.link, store_setParent]
  rw [tree]
  exact both.same.link _ (only_inside inP) inC

theorem Matches.linkRight (both : Matches S links t u) {p : Addr} {c : Option Addr} (inP : p ∈ S)
    (inC : ∀ a ∈ c, a ∈ S) :
    Matches S links (t.link (.child p .right) c) ((u.adopt c (some p)).setRight p c) := by
  refine ⟨?_, by simp [both.links]⟩
  have tree : ((u.adopt c (some p)).setRight p c).tree = u.tree.link (.child p .right) c := by
    simp [Amtree.link, store_setParent]
  rw [tree]
  exact both.same.link _ (only_inside inP) inC

theorem Matches.linkRoot (both : Matches S links t u) {c : Option Addr} (inC : ∀ a ∈ c, a ∈ S) :
    Matches S links (t.link .root c) { u.adopt c none with root := c } := by
  refine ⟨?_, (u.links_adopt c none).trans both.links⟩
  have tree : ({ u.adopt c none with root := c } : Amitree Addr).tree = u.tree.link .root c := by
    rw [Amtree.link, ← store_setParent, Slot.owner, ← u.tree_adopt]
    rfl
  rw [tree]
  exact both.same.link _ (by rintro _ ⟨⟩) inC

theorem Matches.leftFirst (both : Matches S links t u) {p : Addr} {c : Option Addr} (inP : p ∈ S)
    (inC : ∀ a ∈ c, a ∈ S) :
    Matches S links (t.link (.child p .left) c) ((u.setLeft p c).adopt c (some p)) := by
  refine ⟨?_, by simp [both.links]⟩
  have tree : ((u.setLeft p c).adopt c (some p)).tree = u.tree.link (.child p .left) c := by
    simp [Amtree.link]
  rw [tree]
  exact both.same.link _ (only_inside inP) inC

end Linking

section Delete

theorem matches_unlinked (both : Matches S links t u) (node : Addr)
    (links' : Links (LinkAddr Addr)) :
    Matches S (Function.update links' (.node node) ⟨none, none⟩)
      { t with count := t.count - 1 }
      ((({ u with count := u.count - 1 } : Amitree Addr).withLinks links').modify node
        fun nd => { nd with link := ⟨none, none⟩ }) := by
  obtain ⟨same, _⟩ := both
  refine ⟨?_, by rw [Amitree.links_modify, Amitree.links_withLinks]⟩
  have tree := (({ u with count := u.count - 1 } : Amitree Addr).withLinks links').tree_modify node
    (fun nd => { nd with link := ⟨none, none⟩ }) id fun _ => rfl
  have unchanged (t : Amtree Addr) : t.modify node id = t := by simp [Amtree.modify]
  rw [tree, unchanged]
  exact ⟨same.root, congrArg (· - 1) same.count, same.node, same.start, same.parent, same.child⟩

theorem matches_outer (both : Matches S links t u) (node : Addr) (fuel : ℕ) (p c : Option Addr) :
    (∀ a ∈ p, a ∈ S) → (∀ a ∈ c, a ∈ S) → Alike (Matches S links)
      (match p with
        | none => return t.link .root c
        | some p =>
            let side := if (t.node p).left = some node then Side.left else Side.right
            let t := t.link (.child p side) c
            let t := t.setBalance p ((t.node p).balance - side.sign)
            amtreeBalanceDel fuel t p)
      (let u := u.adopt c p
      match p with
        | none => return { u with root := c }
        | some p =>
            if (u.node p).left = some node then
              let u := u.setLeft p c
              let u := u.setBalance p ((u.node p).balance + 1)
              amitreeBalanceDel fuel u p
            else
              let u := u.setRight p c
              let u := u.setBalance p ((u.node p).balance - 1)
              amitreeBalanceDel fuel u p) := by
  intro inP inC
  cases p with
  | none => exact .ok (both.linkRoot inC)
  | some p =>
      have here := inP p rfl
      have left : ((u.adopt c (some p)).node p).left = (t.node p).left := by
        have kept := load_setParent u.tree c (some p) (.child p .left)
        rw [← u.tree_adopt] at kept
        exact kept.trans (both.left here)
      simp only [left]
      by_cases side : (t.node p).left = some node
      · have linked := both.linkLeft here inC
        simp only [if_pos side, linked.balance here]
        exact matches_balanceDel fuel (linked.setBalance here _) here
      · have linked := both.linkRight here inC
        simp only [if_neg side, linked.balance here]
        exact matches_balanceDel fuel (linked.setBalance here _) here

theorem matches_delete (both : Matches S links t u) {node : Addr} (inside : node ∈ S) (fuel : ℕ) :
    Alike (fun v u' => Matches S v.links v.tree u') (ITree.amitreeDelete fuel ⟨t, links⟩ node)
      (amitreeDelete fuel u node) := by
  have seen : ({ u with count := u.count - 1 } : Amitree Addr).links = links := both.links
  simp only [ITree.amitreeDelete, amitreeDelete, seen]
  cases deleted : amlistDel links (.node node) with
  | none => exact .error _
  | some links' =>
      have both₁ := matches_unlinked both node links'
      have inP := both.same.parent node inside
      have inR := both.same.child node inside .right
      have inL := both.same.child node inside .left
      obtain ⟨u₁, def₁⟩ : ∃ u₁, u₁ =
        (({ u with count := u.count - 1 } : Amitree Addr).withLinks links').modify node
          fun nd => { nd with link := ⟨none, none⟩ } := ⟨_, rfl⟩
      obtain ⟨links₁, def₂⟩ : ∃ links₁, links₁ =
        Function.update links' (.node node) ⟨none, none⟩ := ⟨_, rfl⟩
      obtain ⟨t₁, def₃⟩ : ∃ t₁ : Amtree Addr, t₁ = { t with count := t.count - 1 } := ⟨_, rfl⟩
      have nodes : t.node = t₁.node := by rw [def₃]
      rw [← def₁, ← def₂, ← def₃] at both₁
      simp only [follow, bind, Except.bind, both.parent inside, both.right inside,
        both.left inside, ← def₁, ← def₂]
      refine Alike.bind_ok_left (R := Matches S links₁) ?_ fun _ _ both' => both'
      simp only [AvlTree.amtreeDelete, ← def₃]
      rw [nodes] at inP inR inL ⊢
      have outer (c : Option Addr) := matches_outer both₁ node fuel (t₁.node node).parent c inP
      cases right : (t₁.node node).right with
      | none =>
          cases left : (t₁.node node).left with
          | none => exact outer none (left ▸ inL)
          | some cl => exact outer (some cl) (only_inside (inL cl left))
      | some cr =>
          cases left : (t₁.node node).left with
          | none => exact outer (some cr) (only_inside (inR cr right))
          | some cl =>
              have inCr := inR cr right
              have inCl := inL cl left
              refine ite_related _ (by rw [both₁.left inCr]) (fun _ => ?_) fun _ => ?_
              · have placed := (both₁.place inP inCr node).linkLeft inCr (only_inside inCl)
                rw [Amitree.adopt_some] at placed
                rw [placed.balance inside]
                exact matches_balanceDel fuel (placed.setBalance inCr _) inCr
              · apply (matches_leftmost both₁ fuel inCr).bind
                rintro _ min ⟨rfl, inMin⟩
                rw [both₁.parent inMin]
                apply (alike_deref (both₁.same.parent _ inMin)).bind
                rintro _ minP ⟨rfl, inMinP⟩
                have cut := both₁.leftFirst inMinP (both₁.same.child _ inMin .right)
                rw [AmtreeNode.child] at cut
                simp only [Amitree.right_setLeft, both₁.right inMin, cut.balance inMinP]
                have lighter := cut.setBalance inMinP
                  (((t₁.link (.child minP .left) (t₁.node min).right).node minP).balance + 1)
                simp only [lighter.balance inside]
                obtain ⟨t₂, def₄⟩ : ∃ t₂, t₂ =
                  (t₁.link (.child minP .left) (t₁.node min).right).setBalance minP
                    (((t₁.link (.child minP .left) (t₁.node min).right).node minP).balance + 1) :=
                  ⟨_, rfl⟩
                simp only [← def₄] at lighter ⊢
                have placed := (((lighter.setBalance inMin (t₂.node node).balance).place inP inMin
                  node).linkLeft inMin (only_inside inCl)).linkRight inMin (only_inside inCr)
                exact matches_balanceDel fuel placed inMinP

end Delete

section Insert

def Corresponds (x : ITree.Amitree Addr × Option Addr) (y : Amitree Addr × Option Addr) : Prop :=
  y.2 = x.2 ∧ ∃ S, Matches S x.1.links x.1.tree y.1

omit [DecidableEq Addr] in
theorem Matches.withLinks (both : Matches S links t u) (links' : Links (LinkAddr Addr)) :
    Matches S links' t (u.withLinks links') :=
  ⟨both.same, u.links_withLinks links'⟩

omit [DecidableEq Addr] in
theorem Matches.withCount (both : Matches S links t u) :
    Matches S links { t with count := t.count + 1 } { u with count := u.count + 1 } := by
  obtain ⟨same, linked⟩ := both
  exact ⟨⟨same.root, congrArg (· + 1) same.count, same.node, same.start, same.parent, same.child⟩,
    linked⟩

def newLeaf (p : Option Addr) (nd : AmitreeNode Addr) : AmitreeNode Addr :=
  { nd with parent := p, left := none, right := none, balance := 0 }

theorem matches_single (both : Matches S links t u) {n : Addr}
    (key : (u.node n).key = (t.node n).key) :
    Matches {n} links
      (({ t with root := some n, count := 1 } : Amtree Addr).modify n fun nd =>
        { nd with parent := none, left := none, right := none, balance := 0 })
      ((((({ u with root := some n, count := 1 } : Amitree Addr).setParent n none).setLeft n
        none).setRight n none).setBalance n 0) := by
  have written : (((({ u with root := some n, count := 1 } : Amitree Addr).setParent n none).setLeft
      n
      none).setRight n none).setBalance n 0 =
        ({ u with root := some n, count := 1 } : Amitree Addr).modify n (newLeaf none) := by
    simp only [Amitree.setParent, Amitree.setLeft, Amitree.setRight, Amitree.setBalance,
      Amitree.modify_modify]
    rfl
  have kept := ({ u with root := some n, count := 1 } : Amitree Addr).links_kept n (newLeaf none)
    fun _ => rfl
  rw [written]
  refine ⟨⟨rfl, rfl, ?_, ?_, ?_, ?_⟩, kept.trans both.links⟩
  · rintro a rfl
    simp [Amitree.tree, Amitree.modify, Amtree.modify, AmitreeNode.fields, newLeaf, -Amitree.key_eq,
      key]
  · rintro a ⟨⟩
    rfl
  · rintro a rfl
    simp [Amtree.modify]
  · rintro a rfl s
    cases s <;> simp [Amtree.modify, AmtreeNode.child]

theorem matches_below (both : Matches S links t u) {n parent : Addr}
    (key : (u.node n).key = (t.node n).key) (inside : parent ∈ S) :
    Matches (insert n S) links
      ((t.modify n fun nd => { nd with left := none, right := none, balance := 0 }).setParent
        (some n) (some parent))
      ((((u.setLeft n none).setRight n none).setBalance n 0).setParent n (some parent)) := by
  have written : (((u.setLeft n none).setRight n none).setBalance n 0).setParent n (some parent) =
      u.modify n (newLeaf (some parent)) := by
    simp only [Amitree.setParent, Amitree.setLeft, Amitree.setRight, Amitree.setBalance,
      Amitree.modify_modify]
    rfl
  have reference : (t.modify n fun nd =>
      { nd with left := none, right := none, balance := 0 }).setParent
      (some n) (some parent) = t.modify n fun nd =>
        { nd with parent := some parent, left := none, right := none, balance := 0 } := by
    simp only [Amtree.setParent, Amtree.modify, Function.update_self, Function.update_idem]
  rw [written, reference]
  refine ⟨?_, (u.links_kept n (newLeaf (some parent)) fun _ => rfl).trans both.links⟩
  rw [u.tree_modify n (newLeaf (some parent)) (fun nd =>
    { nd with parent := some parent, left := none, right := none, balance := 0 }) fun _ => rfl]
  refine both.same.adjoin ?_ ?_ ?_
  · have same : (u.tree.node n).key = (t.node n).key := key
    rw [same]
  · rintro _ ⟨⟩
    exact .inr inside
  · rintro s c here
    cases s <;> cases here

theorem matches_balanceAdd (both : Matches S links t u) {n : Addr} (inside : n ∈ S) (fuel : ℕ) :
    Alike (fun v u' => Matches S v.links v.tree u') (ITree.amitreeBalanceAdd fuel ⟨t, links⟩ n)
      (amitreeBalanceAdd fuel u n) := by
  rw [ITree.amitreeBalanceAdd, amtreeBalanceAdd, amitreeBalanceAdd, both.parent inside]
  exact (matches_balanceAddFrom fuel both (only_inside inside)
    (both.same.parent n inside)).map_left fun _ _ both' => both'

/-- The last steps of an insertion: the list, the count, and the balances above. -/
theorem matches_linked (both : Matches S links t u) {n : Addr} (inside : n ∈ S) (fuel : ℕ)
    (added : Option (Links (LinkAddr Addr))) :
    Alike Corresponds
      (do
        let links ← follow added
        let v ← ITree.amitreeBalanceAdd fuel ⟨{ t with count := t.count + 1 }, links⟩ n
        return (v, none))
      (do
        let links ← follow added
        let u ← pure (u.withLinks links)
        let u := { u with count := u.count + 1 }
        let u ← amitreeBalanceAdd fuel u n
        return (u, none)) := by
  cases added with
  | none => exact .error _
  | some links' =>
      have counted := (both.withLinks links').withCount
      exact (matches_balanceAdd counted inside fuel).bind fun v u' both' => .ok ⟨rfl, S, both'⟩

theorem matches_insert (both : Matches S links t u) {n : Addr}
    (key : (u.node n).key = (t.node n).key) (fuel : ℕ) :
    Alike Corresponds (ITree.amitreeInsert fuel ⟨t, links⟩ n) (amitreeInsert fuel u n) := by
  simp only [ITree.amitreeInsert, amitreeInsert, both.root]
  cases start : t.root with
  | none =>
      have single := matches_single both key
      simp only [single.links]
      cases added : amlistAdd links .anchor (.node n) with
      | none => exact .error _
      | some links' => exact .ok ⟨rfl, _, single.withLinks links'⟩
  | some root =>
      apply (matches_descend both key fuel (both.same.start root start)).bind
      rintro ⟨parent, duplicate⟩ _ ⟨rfl, inside⟩
      refine ite_related _ Iff.rfl (fun _ => .ok ⟨rfl, S, both⟩) fun _ => ?_
      have below := matches_below both key inside
      have inN : n ∈ insert n S := .inl rfl
      have inParent : parent ∈ insert n S := .inr inside
      obtain ⟨t₁, def₁⟩ : ∃ t₁, t₁ =
        t.modify n fun nd => { nd with left := none, right := none, balance := 0 } := ⟨_, rfl⟩
      obtain ⟨u₁, def₂⟩ : ∃ u₁, u₁ =
        (((u.setLeft n none).setRight n none).setBalance n 0).setParent n (some parent) := ⟨_, rfl⟩
      rw [← def₁, ← def₂] at below
      have keyN := (below.key inN).trans (key_setParent ..)
      have keyP := (below.key inParent).trans (key_setParent ..)
      simp only [← def₁, ← def₂, keyN, keyP]
      by_cases less : (t₁.node n).key < (t₁.node parent).key
      · have linked : Matches (insert n S) links (t₁.link (.child parent .left) (some n))
            (u₁.setLeft parent (some n)) := by
          rw [Amtree.link, owner_child, ← store_setParent]
          refine ⟨?_, (u₁.links_setLeft parent (some n)).trans below.links⟩
          rw [u₁.tree_setLeft]
          exact below.same.store (only_inside inParent) (only_inside inN)
        simp only [if_pos less, linked.links]
        exact matches_linked linked inN fuel _
      · have linked : Matches (insert n S) links (t₁.link (.child parent .right) (some n))
            (u₁.setRight parent (some n)) := by
          rw [Amtree.link, owner_child, ← store_setParent]
          refine ⟨?_, (u₁.links_setRight parent (some n)).trans below.links⟩
          rw [u₁.tree_setRight]
          exact below.same.store (only_inside inParent) (only_inside inN)
        simp only [if_neg less, linked.links]
        exact matches_linked linked inN fuel _

end Insert

section Others

theorem matches_deleteKey (both : Matches S links t u) (fuel : ℕ) (key : UInt64) :
    Alike Corresponds (ITree.amitreeDeleteKey fuel ⟨t, links⟩ key)
    (amitreeDeleteKey fuel u key) := by
  apply (matches_findKey both fuel key).bind
  rintro _ found ⟨rfl, inside⟩
  cases found with
  | none => exact .ok ⟨rfl, S, both⟩
  | some targ =>
      exact (matches_delete both (inside targ rfl) fuel).bind fun v u' both' => .ok ⟨rfl, S, both'⟩

theorem matches_moved (both : Matches S links t u) {a : Addr} (inside : a ∈ S) (z : Addr) :
    Matches (insert z S)
      (Function.update (Function.update links (.node z) (links (.node a))) (.node a) ⟨none, none⟩)
      ((t.modify z fun _ => t.node a).modify a fun _ => .zero)
      ((u.modify z fun _ => u.node a).modify a fun _ => .zero) := by
  have copied : Same (insert z S) (t.modify z fun _ => t.node a)
      (u.tree.modify z fun _ => u.tree.node a) :=
    both.same.adjoin (both.same.node a inside)
      (fun p here => .inr (both.same.parent a inside p here))
      fun s c here => .inr (both.same.child a inside s c here)
  refine ⟨?_, ?_⟩
  · rw [Amitree.tree_modify _ a (fun _ => .zero) (fun _ => .zero) fun _ => rfl,
      Amitree.tree_modify _ z (fun _ => u.node a) (fun _ => u.tree.node a) fun _ => rfl]
    refine copied.modify (.inr inside) _ ?_ ?_
    · rintro p ⟨⟩
    · rintro s c here
      cases s <;> cases here
  · rw [Amitree.links_modify, Amitree.links_modify, both.links]
    have own : (u.node a).link = links (.node a) := congrFun both.links (.node a)
    rw [own]
    rfl

theorem Matches.adopt (both : Matches S links t u) {c p : Option Addr} (inC : ∀ a ∈ c, a ∈ S)
    (inP : ∀ a ∈ p, a ∈ S) : Matches S links (t.setParent c p) (u.adopt c p) := by
  refine ⟨?_, (u.links_adopt c p).trans both.links⟩
  rw [u.tree_adopt]
  exact both.same.setParent inC inP

theorem Matches.replaceChild (both : Matches S links t u) {p : Option Addr} {c : Addr}
    (inP : ∀ a ∈ p, a ∈ S) (inC : c ∈ S) (n : Addr) :
    Matches S links (t.store (slotOf t p n) (some c)) (u.replaceChild p n c) := by
  refine ⟨?_, (u.links_replaceChild p n c).trans both.links⟩
  rw [u.tree_replaceChild, both.same.slotOf_eq inP]
  exact both.same.store (by simpa using inP) (only_inside inC)

theorem matches_swap (both : Matches S links t u) {a : Addr} (inside : a ∈ S) (z : Addr) :
    Alike (fun v u' => Matches (insert z S) v.links v.tree u') (ITree.amitreeSwap ⟨t, links⟩ a z)
      (amitreeSwap u a z) := by
  have moved := matches_moved both inside z
  have inZ : z ∈ insert z S := .inl rfl
  simp only [ITree.amitreeSwap, amitreeSwap, amtreeSwap]
  obtain ⟨t₂, def₁⟩ : ∃ t₂, t₂ = (t.modify z fun _ => t.node a).modify a fun _ => .zero := ⟨_, rfl⟩
  obtain ⟨u₂, def₂⟩ : ∃ u₂, u₂ = (u.modify z fun _ => u.node a).modify a fun _ => .zero := ⟨_, rfl⟩
  obtain ⟨links₂, def₃⟩ : ∃ links₂, links₂ =
    Function.update (Function.update links (.node z) (links (.node a))) (.node a) ⟨none, none⟩ :=
    ⟨_, rfl⟩
  rw [← def₁, ← def₂, ← def₃] at moved
  simp only [← def₁, ← def₂, ← def₃]
  have link : (u₂.node z).link = links₂ (.node z) := congrFun moved.links (.node z)
  rw [link, moved.links]
  cases ahead : (links₂ (.node z)).next with
  | none => exact .error _
  | some next =>
      obtain ⟨links₃, def₄⟩ : ∃ links₃, links₃ = setPrev links₂ next (some (.node z)) := ⟨_, rfl⟩
      simp only [follow, bind, Except.bind, ← def₄]
      have seen : ((u₂.withLinks links₃).node z).link = links₃ (.node z) := rfl
      rw [seen]
      cases behind : (links₃ (.node z)).prev with
      | none => exact .error _
      | some prev =>
          have told := (moved.withLinks links₃).withLinks (setNext links₃ prev (some (.node z)))
          have placed := told.replaceChild (moved.same.parent z inZ) inZ a
          have left := placed.adopt (placed.same.child z inZ .left) (only_inside inZ)
          have right := left.adopt (left.same.child z inZ .right) (only_inside inZ)
          simp only [AmtreeNode.child] at left right
          simp only [Amitree.links_withLinks, told.parent inZ, placed.left inZ, left.right inZ]
          exact .ok right

end Others

end Libam.ITree.Embedded
