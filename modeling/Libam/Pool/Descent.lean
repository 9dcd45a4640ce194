import Libam.Pool.Hierarchy
import Libam.Trees.Forest

/-! The pools as a forest: what the links of `globals` and of the pools hold, and what
`_ampool_pool_free` takes out of them. -/

namespace Libam.Pool.Hierarchy

open Libam.Lists Libam.Trees

variable {P : Type} {s s' : Globals P} {par : Option P} {F under rest : Forest P} {p : P}
  {head : LinkAddr P} {l r : List (LinkAddr P)}

section Relation

def Placed (s : Globals P) (par : Option P) (a : P) : Prop :=
  ∃ node, s.pools a = some node ∧ node.parent = par ∧ node.pool = ampoolInternal

def Holds (s : Globals P) : Option P → Forest P → Prop
  | _, .nil => True
  | par, .cons a under rest => Placed s par a ∧
      Ring s.links (.childrenList a) (under.roots.map .siblingLink) ∧ Holds s (some a) under ∧
      Holds s par rest

def Inner : Forest P → LinkAddr P → Prop
  | .nil, _ => False
  | .cons a under rest, x =>
      x = .childrenList a ∨ x ∈ under.roots.map .siblingLink ∨ Inner under x ∨ Inner rest x

theorem Holds.congr (holds : Holds s par F) (pools : ∀ a ∈ F.nodes, s'.pools a = s.pools a)
    (links : ∀ x, Inner F x → s'.links x = s.links x) : Holds s' par F := by
  induction F generalizing par with
  | nil => trivial
  | cons a under rest first second =>
      obtain ⟨⟨node, here, placed⟩, ring, below, beside⟩ := holds
      refine ⟨⟨node, (pools a List.mem_cons_self).trans here, placed⟩,
        ring.congr fun x member => ?_,
        first below (fun b member => pools b ?_) fun x inner => links x (.inr (.inr (.inl inner))),
        second beside (fun b member => pools b ?_) fun x inner =>
        links x (.inr (.inr (.inr inner)))⟩
      · rcases List.mem_cons.mp member with rfl | listed
        · exact links _ (.inl rfl)
        · exact links x (.inr (.inl listed))
      · exact List.mem_cons_of_mem _ (List.mem_append_left _ member)
      · exact List.mem_cons_of_mem _ (List.mem_append_right _ member)

theorem owner_of_inner {x : LinkAddr P} (inner : Inner F x) : ∃ a ∈ F.nodes, x.owner = some a := by
  induction F with
  | nil => cases inner
  | cons a under rest first second =>
      rcases inner with rfl | listed | below | beside
      · exact ⟨a, List.mem_cons_self, rfl⟩
      · obtain ⟨b, member, rfl⟩ := List.mem_map.mp listed
        exact ⟨b, List.mem_cons_of_mem
          _ (List.mem_append_left _ (Forest.mem_nodes_of_mem_roots member)), rfl⟩
      · obtain ⟨b, member, owner⟩ := first below
        exact ⟨b, List.mem_cons_of_mem _ (List.mem_append_left _ member), owner⟩
      · obtain ⟨b, member, owner⟩ := second beside
        exact ⟨b, List.mem_cons_of_mem _ (List.mem_append_right _ member), owner⟩

theorem nodup_cons {a : P} (nodup : (Forest.cons a under rest).nodes.Nodup) :
    a ∉ under.nodes ∧ a ∉ rest.nodes ∧ under.nodes.Nodup ∧ rest.nodes.Nodup ∧
      under.nodes.Disjoint rest.nodes := by
  simp only [Forest.nodes, List.nodup_cons, List.nodup_append', List.mem_append, not_or] at nodup
  obtain ⟨⟨notUnder, notRest⟩, nodupUnder, nodupRest, disjoint⟩ := nodup
  exact ⟨notUnder, notRest, nodupUnder, nodupRest, disjoint⟩

theorem not_inner_root (nodup : F.nodes.Nodup) {a : P} (root : a ∈ F.roots) :
    ¬ Inner F (.siblingLink a) := by
  induction F with
  | nil => cases root
  | cons b under rest first second =>
      obtain ⟨notUnder, notRest, nodupUnder, nodupRest, disjoint⟩ := nodup_cons nodup
      have outside : a ∉ under.nodes := by
        rcases List.mem_cons.mp root with rfl | later
        · exact notUnder
        · exact fun inside => disjoint inside (Forest.mem_nodes_of_mem_roots later)
      rintro (same | listed | below | beside)
      · cases same
      · obtain ⟨c, member, same⟩ := List.mem_map.mp listed
        cases same
        exact outside (Forest.mem_nodes_of_mem_roots member)
      · obtain ⟨c, member, same⟩ := owner_of_inner below
        cases same
        exact outside member
      · rcases List.mem_cons.mp root with rfl | later
        · obtain ⟨c, member, same⟩ := owner_of_inner beside
          cases same
          exact notRest member
        · exact second nodupRest later beside

theorem Holds.live (holds : Holds s par F) {a : P} (member : a ∈ F.nodes) : ∃ par,
    Placed s par a := by
  induction F generalizing par with
  | nil => cases member
  | cons b under rest first second =>
      obtain ⟨placed, _, below, beside⟩ := holds
      rcases List.mem_cons.mp member with rfl | inside
      · exact ⟨par, placed⟩
      · exact (List.mem_append.mp inside).elim (first below) (second beside)

theorem valid_of_placed {a : P} (placed : ∃ par, Placed s par a) :
    s.valid (.siblingLink a) = true := by
  obtain ⟨par, node, here, _⟩ := placed
  simp only [Globals.valid, LinkAddr.owner, here, Option.isSome_some]

end Relation

section Freeing

variable [DecidableEq P]

structure Freed (s s' : Globals P) (gone : List P) : Prop where
  magic : s'.magic = s.magic
  pools : ∀ a, s'.pools a = if a ∈ gone then none else s.pools a
  freed : s'.freed = s.freed ++ gone

theorem Freed.trans {s₁ : Globals P} {first second : List P} (left : Freed s s₁ first)
    (right : Freed s₁ s' second) : Freed s s' (first ++ second) := by
  refine ⟨right.magic.trans left.magic, fun a => ?_, ?_⟩
  · rw [right.pools, left.pools]
    by_cases inFirst : a ∈ first <;> by_cases inSecond : a ∈ second <;> simp [inFirst, inSecond]
  · rw [right.freed, left.freed, List.append_assoc]

theorem Freed.valid {gone : List P} (freed : Freed s s' gone) {x : LinkAddr P}
    (apart : ∀ a ∈ gone, x.owner ≠ some a) : s'.valid x = s.valid x := by
  unfold Globals.valid
  cases owner : x.owner with
  | none => rfl
  | some a => simp only [freed.pools, if_neg fun member => apart a member owner]

omit [DecidableEq P] in
theorem follow_of_valid {x : LinkAddr P} (valid : s.valid x = true) :
    s.follow (some x) = .ok x := by
  simp only [Globals.follow, valid, if_true]

theorem del_spec {e : LinkAddr P} (ring : Ring s.links head (l ++ e :: r))
    (valid : s.valid e = true) (valids : ∀ x ∈ head :: (l ++ r), s.valid x = true) : ∃ links,
      s.del e = .ok { s with links := links } ∧ Ring links head (l ++ r) ∧
      ∀ x, x ∉ head :: (l ++ r) → links x = s.links x := by
  obtain ⟨next, prev⟩ := ring.pointers
  obtain ⟨links, deleted, ring'⟩ := ring_delete ring
  refine ⟨links, ?_, ring', fun x apart => amlistDel_frame ring deleted apart⟩
  have before : s.valid (lastOf head l) = true := by
    refine valids _ (List.mem_cons.mpr ?_)
    exact (List.mem_cons.mp (lastOf_mem head l)).imp_right (List.mem_append_left _)
  have after : s.valid (lastOf head r.reverse) = true := by
    refine valids _ (List.mem_cons.mpr ?_)
    have inside := mem_reverse_cons.mp (lastOf_mem head r.reverse)
    exact (List.mem_cons.mp inside).imp_right (List.mem_append_right _)
  simp only [Globals.del, follow_of_valid valid, bind, Except.bind, prev, next,
    follow_of_valid before, follow_of_valid after, deleted, Globals.update]

theorem freeBuckets_init (cfg : Config) :
    ∃ after, freeBuckets cfg allBuckets ampoolInternal 0 0 = .ok (after, 0, 0) := ⟨_, rfl⟩

def FreesAll (F : Forest P) : Prop :=
  ∀ (s : Globals P) (par : Option P) (head : LinkAddr P) (rounds depth : ℕ), Holds s par F →
    Ring s.links head (F.roots.map .siblingLink) → s.valid head = true →
    (∀ a ∈ F.nodes, head.owner ≠ some a) → F.nodes.Nodup → F.nodes.length < rounds →
    F.nodes.length < depth → ∃ s', freeAll (ampoolPoolFree depth) head rounds s = .ok s' ∧
      Freed s s' F.post ∧ Ring s'.links head [] ∧
      ∀ x, x ≠ head → (∀ a ∈ F.nodes, x.owner ≠ some a) → s'.links x = s.links x

/-- `_ampool_pool_free` of a pool in any list, when the loop frees what is below it. -/
theorem freeOne_spec (all : FreesAll under) (placed : Placed s par p)
    (ring : Ring s.links head (l ++ .siblingLink p :: r))
    (valids : ∀ x ∈ head :: (l ++ r), s.valid x = true)
    (apart : ∀ x ∈ head :: (l ++ r), ∀ a ∈ p :: under.nodes, x.owner ≠ some a)
    (ringUnder : Ring s.links (.childrenList p) (under.roots.map .siblingLink))
    (holds : Holds s (some p) under) (nodup : (p :: under.nodes).Nodup) {depth : ℕ}
    (enough : under.nodes.length + 1 < depth) : ∃ s', ampoolPoolFree depth s p = .ok s' ∧
      Freed s s' (under.post ++ [p]) ∧ Ring s'.links head (l ++ r) ∧
      ∀ x, x ∉ head :: (l ++ r) → (∀ a ∈ p :: under.nodes, x.owner ≠ some a) →
      s'.links x = s.links x := by
  obtain ⟨outside, nodupUnder⟩ := List.nodup_cons.mp nodup
  cases depth with
  | zero => omega
  | succ depth =>
      obtain ⟨links, deleted, ring₁, frame₁⟩ := del_spec ring (valid_of_placed ⟨par, placed⟩) valids
      obtain ⟨node, here, _, empty⟩ := placed
      have owned {x : LinkAddr P} (a : P) (member : a ∈ p :: under.nodes)
          (owner : x.owner = some a) :
          links x = s.links x := frame₁ x fun near => apart x near a member owner
      have ringUnder₁ : Ring links (.childrenList p) (under.roots.map .siblingLink) := by
        apply ringUnder.congr
        intro x member
        rcases List.mem_cons.mp member with rfl | listed
        · exact owned p List.mem_cons_self rfl
        · obtain ⟨b, root, rfl⟩ := List.mem_map.mp listed
          exact owned b (List.mem_cons_of_mem _ (Forest.mem_nodes_of_mem_roots root)) rfl
      have holds₁ : Holds { s with links := links } (some p) under := by
        refine holds.congr (fun _ _ => rfl) fun x inner => ?_
        obtain ⟨b, member, owner⟩ := owner_of_inner inner
        exact owned b (List.mem_cons_of_mem _ member) owner
      obtain ⟨s₂, looped, freed, _, frame₂⟩ := all { s with links := links } (some p)
        (.childrenList p) depth
        depth holds₁ ringUnder₁
        (by simp only [Globals.valid, LinkAddr.owner, here, Option.isSome_some])
        (fun a member same => outside (Option.some.inj same ▸ member)) nodupUnder
        (by omega) (by omega)
      have far {x : LinkAddr P} (away : ∀ a ∈ p :: under.nodes, x.owner ≠ some a) :
          s₂.links x = links x :=
        frame₂ x (fun same => away p List.mem_cons_self (same ▸ rfl))
          fun a member => away a (List.mem_cons_of_mem _ member)
      obtain ⟨emptied, buckets⟩ := freeBuckets_init ⟨s.magic, node.validateOnFree⟩
      refine ⟨{ s₂ with pools := Function.update s₂.pools p none, freed := s₂.freed ++ [p] },
        ?_, ?_, ?_, ?_⟩
      · simp only [ampoolPoolFree, Globals.node, here, bind, Except.bind, deleted, empty,
          buckets, looped]
        rfl
      · refine ⟨freed.magic, fun a => ?_, ?_⟩
        · show Function.update s₂.pools p none a = _
          by_cases same : a = p
          · simp [same]
          · rw [Function.update_of_ne same, freed.pools]
            simp [same]
        · show s₂.freed ++ [p] = _
          rw [freed.freed, List.append_assoc]
      · exact ring₁.congr fun x member => far (apart x member)
      · intro x away notOwned
        exact (far notOwned).trans (frame₁ x away)

theorem freesAll (F : Forest P) : FreesAll F := by
  induction F with
  | nil =>
      intro s par head rounds depth _ ring valid _ _ enough _
      cases rounds with
      | zero => omega
      | succ rounds =>
          have empty : (s.links head).next = some head := ring.forward
          refine ⟨s, ?_, ⟨rfl, fun a => by simp [Forest.post], by simp [Forest.post]⟩, ring,
            fun _ _ _ => rfl⟩
          simp only [freeAll, follow_of_valid valid, bind, Except.bind, empty, if_true]
          rfl
  | cons a under rest first second =>
      intro s par head rounds depth holds ring valid apart nodup enough deep
      obtain ⟨placed, ringUnder, below, beside⟩ := holds
      obtain ⟨notUnder, notRest, nodupUnder, nodupRest, disjoint⟩ := nodup_cons nodup
      simp only [Forest.nodes, List.length_cons, List.length_append] at enough deep
      have valids : ∀ x ∈ head :: ([] ++ rest.roots.map .siblingLink), s.valid x = true := by
        intro x member
        rcases List.mem_cons.mp member with rfl | listed
        · exact valid
        · obtain ⟨b, root, rfl⟩ := List.mem_map.mp listed
          exact valid_of_placed (beside.live (Forest.mem_nodes_of_mem_roots root))
      have away : ∀ x ∈ head :: ([] ++ rest.roots.map .siblingLink), ∀ b ∈ a :: under.nodes,
          x.owner ≠ some b := by
        intro x member b inside
        rcases List.mem_cons.mp member with rfl | listed
        · apply apart b
          rcases List.mem_cons.mp inside with rfl | deeper
          · exact List.mem_cons_self
          · exact List.mem_cons_of_mem _ (List.mem_append_left _ deeper)
        · obtain ⟨c, root, rfl⟩ := List.mem_map.mp listed
          have later := Forest.mem_nodes_of_mem_roots root
          rintro same
          cases same
          rcases List.mem_cons.mp inside with rfl | deeper
          · exact notRest later
          · exact disjoint deeper later
      cases rounds with
      | zero => omega
      | succ rounds =>
          obtain ⟨s₁, run, freed, ring₁, frame₁⟩ :=
            freeOne_spec (l := []) first placed ring valids away
            ringUnder below (List.nodup_cons.mpr ⟨notUnder, nodupUnder⟩)
            (show under.nodes.length + 1 < depth by omega)
          have gone {b : P} (member : b ∈ rest.nodes) : b ∉ under.post ++ [a] := by
            intro inside
            rcases List.mem_append.mp inside with deeper | self
            · exact disjoint ((Forest.post_perm under).mem_iff.mp deeper) member
            · exact notRest (List.mem_singleton.mp self ▸ member)
          have holds₁ : Holds s₁ par rest := by
            refine beside.congr (fun b member => by rw [freed.pools, if_neg (gone member)])
              fun x inner => ?_
            obtain ⟨b, member, owner⟩ := owner_of_inner inner
            refine frame₁ x (fun near => ?_) fun c inside same => ?_
            · rcases List.mem_cons.mp near with rfl | listed
              · exact apart b (List.mem_cons_of_mem _ (List.mem_append_right _ member)) owner
              · obtain ⟨c, root, rfl⟩ := List.mem_map.mp listed
                exact not_inner_root nodupRest root inner
            · rw [owner] at same
              cases same
              rcases List.mem_cons.mp inside with rfl | deeper
              · exact notRest member
              · exact disjoint deeper member
          have valid₁ : s₁.valid head = true := by
            rw [freed.valid fun b member => ?_, valid]
            rcases List.mem_append.mp member with deeper | self
            · exact apart b (List.mem_cons_of_mem _ (List.mem_append_left _
                ((Forest.post_perm under).mem_iff.mp deeper)))
            · exact apart b (List.mem_singleton.mp self ▸ List.mem_cons_self)
          obtain ⟨s₂, looped, freed₂, ring₂, frame₂⟩ :=
            second s₁ par head rounds depth holds₁ ring₁ valid₁
            (fun b member => apart b (List.mem_cons_of_mem _ (List.mem_append_right _ member)))
            nodupRest
            (by omega) (by omega)
          have next : (s.links head).next = some (.siblingLink a) := ring.forward.1
          have other : ¬ some (LinkAddr.siblingLink a) = some head := by
            intro same
            cases same
            exact apart a List.mem_cons_self rfl
          refine ⟨s₂, ?_, ?_, ring₂, fun x different notOwned => ?_⟩
          · simp only [freeAll, follow_of_valid valid, bind, Except.bind, next, if_neg other,
              follow_of_valid (valid_of_placed ⟨par, placed⟩), poolOf, run, looped]
          · have both := freed.trans freed₂
            rw [List.append_assoc] at both
            exact both
          · rw [frame₂ x different fun b member => notOwned b (List.mem_cons_of_mem _
              (List.mem_append_right _ member))]
            refine frame₁ x (fun near => ?_) fun b inside => ?_
            · rcases List.mem_cons.mp near with same | listed
              · exact different same
              · obtain ⟨b, root, rfl⟩ := List.mem_map.mp listed
                exact notOwned b (List.mem_cons_of_mem _ (List.mem_append_right _
                  (Forest.mem_nodes_of_mem_roots root))) rfl
            · apply notOwned b
              rcases List.mem_cons.mp inside with rfl | deeper
              · exact List.mem_cons_self
              · exact List.mem_cons_of_mem _ (List.mem_append_left _ deeper)

end Freeing

end Libam.Pool.Hierarchy
