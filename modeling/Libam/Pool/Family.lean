import Libam.Pool.Descent

/-! Changes of the forest of pools: a pool that goes with all of its descendants, and a new one
below any other. -/

namespace Libam.Pool.Hierarchy

open Libam.Lists Libam.Trees

variable {P : Type} {s s' : Globals P} {par : Option P} {F under rest : Forest P} {p : P}
  {l : List (LinkAddr P)}

section Changes

structure Standing (s : Globals P) (par : Option P) (l : List (LinkAddr P))
    (F : Forest P) : Prop where
  holds : Holds s par F
  nodup : F.nodes.Nodup
  ring : Ring s.links (headOf par) (l ++ F.roots.map .siblingLink)
  valids : ∀ x ∈ headOf par :: l, s.valid x = true
  apart : ∀ x ∈ headOf par :: l, ∀ a ∈ F.nodes, x.owner ≠ some a

/-- The forest becomes another one; what is neither in it nor in its list nor of the
pool `p` stays. -/
structure Turns (s s' : Globals P) (p : P) (par : Option P) (l : List (LinkAddr P))
    (F F' : Forest P) : Prop where
  holds : Holds s' par F'
  ring : Ring s'.links (headOf par) (l ++ F'.roots.map .siblingLink)
  pools : ∀ a, a ∉ F.nodes → a ≠ p → s'.pools a = s.pools a
  links : ∀ x, x ∉ headOf par :: l → (∀ a ∈ F.nodes, x.owner ≠ some a) → x.owner ≠ some p →
    s'.links x = s.links x

theorem owner_headOf {a : P} : (headOf par).owner = some a ↔ par = some a := by
  cases par <;> simp [headOf, LinkAddr.owner]

variable {a : P}

theorem mem_of_under {b : P} (inside : b ∈ under.nodes) : b ∈ (Forest.cons a under rest).nodes :=
  List.mem_cons_of_mem _ (List.mem_append_left _ inside)

theorem mem_of_rest {b : P} (inside : b ∈ rest.nodes) : b ∈ (Forest.cons a under rest).nodes :=
  List.mem_cons_of_mem _ (List.mem_append_right _ inside)

theorem Standing.inner (standing : Standing s par l (.cons a under rest)) :
    Standing s (some a) [] under := by
  obtain ⟨notUnder, _, nodupUnder, _, _⟩ := nodup_cons standing.nodup
  obtain ⟨placed, ringUnder, below, _⟩ := standing.holds
  refine ⟨below, nodupUnder, ringUnder, fun x near => ?_, fun x near b inside => ?_⟩
  · cases List.mem_singleton.mp near
    exact valid_of_placed ⟨par, placed⟩
  · cases List.mem_singleton.mp near
    rintro same
    cases same
    exact notUnder inside

theorem Standing.next (standing : Standing s par l (.cons a under rest)) :
    Standing s par (l ++ [.siblingLink a]) rest := by
  obtain ⟨_, notRest, _, nodupRest, _⟩ := nodup_cons standing.nodup
  obtain ⟨placed, _, _, beside⟩ := standing.holds
  have near {x : LinkAddr P} (member : x ∈ headOf par :: (l ++ [.siblingLink a])) :
      x ∈ headOf par :: l ∨ x = .siblingLink a := by
    rw [← List.cons_append] at member
    exact (List.mem_append.mp member).imp_right List.mem_singleton.mp
  refine ⟨beside, nodupRest, ?_, fun x member => ?_, fun x member b inside => ?_⟩
  · rw [List.append_assoc]
    exact standing.ring
  · rcases near member with before | rfl
    · exact standing.valids x before
    · exact valid_of_placed ⟨par, placed⟩
  · rcases near member with before | rfl
    · exact standing.apart x before b (mem_of_rest inside)
    · rintro same
      cases same
      exact notRest inside

theorem Turns.inner {under' : Forest P} (turns : Turns s s' p (some a) [] under under')
    (standing : Standing s par l (.cons a under rest)) (other : a ≠ p) (outside : p ∉ rest.nodes)
    (away : ∀ x ∈ headOf par :: l, x.owner ≠ some p) :
    Turns s s' p par l (.cons a under rest) (.cons a under' rest) := by
  obtain ⟨notUnder, notRest, _, nodupRest, disjoint⟩ := nodup_cons standing.nodup
  obtain ⟨⟨node, here, placed⟩, _, _, beside⟩ := standing.holds
  have kept {x : LinkAddr P} (head : x ≠ .childrenList a)
      (away : ∀ b ∈ under.nodes, x.owner ≠ some b)
      (notNew : x.owner ≠ some p) : s'.links x = s.links x :=
    turns.links x (fun near => head (List.mem_singleton.mp near)) away notNew
  have own {b : P} (listed : b = a ∨ b ∈ rest.nodes) : b ∉ under.nodes ∧ b ≠ p := by
    rcases listed with rfl | later
    · exact ⟨notUnder, other⟩
    · exact ⟨fun inside => disjoint inside later, fun same => outside (same ▸ later)⟩
  refine ⟨⟨⟨node, (turns.pools a notUnder other).trans here, placed⟩, turns.ring, turns.holds, ?_⟩,
    ?_, ?_, ?_⟩
  · refine beside.congr (fun b member => turns.pools b (own (.inr member)).1 (own (.inr member)).2)
      fun x inner => ?_
    obtain ⟨b, member, owner⟩ := owner_of_inner inner
    refine kept (fun same => ?_) (fun c inside same => ?_) fun same => ?_
    · subst same
      cases owner
      exact notRest member
    · cases owner.symm.trans same
      exact (own (.inr member)).1 inside
    · cases owner.symm.trans same
      exact outside member
  · apply standing.ring.congr
    intro x near
    rw [← List.cons_append] at near
    rcases List.mem_append.mp near with before | listed
    · refine kept (fun same => ?_) (fun b inside => standing.apart x before b (mem_of_under inside))
        (away x before)
      exact standing.apart x before a List.mem_cons_self (same ▸ rfl)
    · obtain ⟨b, root, rfl⟩ := List.mem_map.mp listed
      have listed : b = a ∨ b ∈ rest.nodes :=
        (List.mem_cons.mp root).imp_right Forest.mem_nodes_of_mem_roots
      refine kept nofun (fun c inside same => ?_) fun same => ?_
      · cases same
        exact (own listed).1 inside
      · cases same
        exact (own listed).2 rfl
  · exact fun b away => turns.pools b fun inside => away (mem_of_under inside)
  · intro x _ notOwned
    refine kept (fun same => notOwned a List.mem_cons_self (same ▸ rfl)) fun b inside => ?_
    exact notOwned b (mem_of_under inside)

theorem Turns.next {rest' : Forest P} (turns : Turns s s' p par (l ++ [.siblingLink a]) rest rest')
    (standing : Standing s par l (.cons a under rest)) (other : a ≠ p) (outside : p ∉ under.nodes) :
    Turns s s' p par l (.cons a under rest) (.cons a under rest') := by
  obtain ⟨notUnder, notRest, _, _, disjoint⟩ := nodup_cons standing.nodup
  obtain ⟨⟨node, here, placed⟩, ringUnder, below, _⟩ := standing.holds
  have far {x : LinkAddr P} {b : P} (owner : x.owner = some b) (own : b ∈ a :: under.nodes)
      (link : x ≠ .siblingLink a) : x ∉ headOf par :: (l ++ [.siblingLink a]) := by
    intro near
    rw [← List.cons_append] at near
    rcases List.mem_append.mp near with before | last
    · refine standing.apart x before b ?_ owner
      exact (List.mem_cons.mp own).elim (fun same => same ▸ List.mem_cons_self) mem_of_under
    · exact link (List.mem_singleton.mp last)
  have kept {x : LinkAddr P} {b : P} (owner : x.owner = some b) (own : b ∈ a :: under.nodes)
      (link : x ≠ .siblingLink a) : s'.links x = s.links x := by
    refine turns.links x (far owner own link) (fun c inside same => ?_) fun same => ?_
    · cases owner.symm.trans same
      exact (List.mem_cons.mp own).elim (fun same => notRest (same ▸ inside)) fun deeper =>
        disjoint deeper inside
    · cases owner.symm.trans same
      exact (List.mem_cons.mp own).elim (fun same => other same.symm) outside
  refine ⟨⟨⟨node, (turns.pools a notRest other).trans here, placed⟩, ?_, ?_, turns.holds⟩, ?_, ?_,
    ?_⟩
  · apply ringUnder.congr
    intro x near
    rcases List.mem_cons.mp near with rfl | listed
    · exact kept rfl List.mem_cons_self nofun
    · obtain ⟨b, root, rfl⟩ := List.mem_map.mp listed
      have inside := Forest.mem_nodes_of_mem_roots root
      apply kept rfl (List.mem_cons_of_mem _ inside)
      intro same
      cases same
      exact notUnder inside
  · refine below.congr (fun b member => turns.pools b (fun inside => disjoint member inside)
      fun same => outside (same ▸ member)) fun x inner => ?_
    obtain ⟨b, member, owner⟩ := owner_of_inner inner
    apply kept owner (List.mem_cons_of_mem _ member)
    intro same
    subst same
    cases owner
    exact notUnder member
  · have ring := turns.ring
    rw [List.append_assoc] at ring
    exact ring
  · exact fun b away => turns.pools b fun inside => away (mem_of_rest inside)
  · intro x away notOwned
    refine turns.links x (fun near => ?_) fun b inside => notOwned b (mem_of_rest inside)
    rw [← List.cons_append] at near
    rcases List.mem_append.mp near with before | last
    · exact away before
    · exact notOwned a List.mem_cons_self (List.mem_singleton.mp last ▸ rfl)

end Changes

section Frees

variable [DecidableEq P]

def Unlinked (s s' : Globals P) (p : P) : Prop :=
  ∃ node l r, s.pools p = some node ∧ Ring s.links (headOf node.parent) (l ++ .siblingLink p :: r) ∧
    Ring s'.links (headOf node.parent) (l ++ r)

/-- The pool is the first one in the list of its parent, before those that were there. -/
def Linked (s s' : Globals P) (par : Option P) (p : P) : Prop :=
  ∃ l, Ring s.links (headOf par) l ∧ Ring s'.links (headOf par) (.siblingLink p :: l)

omit [DecidableEq P] in
theorem mem_of_gone {a b : P} (member : b ∈ under.post ++ [a]) : b ∈ a :: under.nodes := by
  rcases List.mem_append.mp member with deeper | self
  · exact List.mem_cons_of_mem _ ((Forest.post_perm under).mem_iff.mp deeper)
  · exact List.mem_singleton.mp self ▸ List.mem_cons_self

theorem free_root (standing : Standing s par l (.cons p under rest)) {depth : ℕ}
    (enough : (Forest.cons p under rest).nodes.length < depth) :
      ∃ s', ampoolPoolFree depth s p = .ok s' ∧
      Freed s s' (under.post ++ [p]) ∧ Turns s s' p par l (.cons p under rest) rest ∧
      Unlinked s s' p := by
  obtain ⟨notUnder, notRest, nodupUnder, nodupRest, disjoint⟩ := nodup_cons standing.nodup
  obtain ⟨placed, ringUnder, below, beside⟩ := standing.holds
  have after := standing.next
  have gone {b : P} (member : b ∈ rest.nodes) : b ∉ p :: under.nodes := by
    intro inside
    rcases List.mem_cons.mp inside with rfl | deeper
    · exact notRest member
    · exact disjoint deeper member
  have own {b : P} (inside : b ∈ p :: under.nodes) : b ∈ (Forest.cons p under rest).nodes :=
    (List.mem_cons.mp inside).elim (fun same => same ▸ List.mem_cons_self) mem_of_under
  have near {x : LinkAddr P} (member : x ∈ headOf par :: (l ++ rest.roots.map .siblingLink)) :
      x ∈ headOf par :: l ∨ ∃ b ∈ rest.roots, LinkAddr.siblingLink b = x := by
    rw [← List.cons_append] at member
    exact (List.mem_append.mp member).imp_right List.mem_map.mp
  have valids : ∀ x ∈ headOf par :: (l ++ rest.roots.map .siblingLink), s.valid x = true := by
    intro x member
    rcases near member with before | ⟨b, root, rfl⟩
    · exact standing.valids x before
    · exact valid_of_placed (beside.live (Forest.mem_nodes_of_mem_roots root))
  have apart : ∀ x ∈ headOf par :: (l ++ rest.roots.map .siblingLink), ∀ b ∈ p :: under.nodes,
      x.owner ≠ some b := by
    intro x member b inside
    rcases near member with before | ⟨c, root, rfl⟩
    · exact standing.apart x before b (own inside)
    · intro same
      cases same
      exact gone (Forest.mem_nodes_of_mem_roots root) inside
  have nodup : (p :: under.nodes).Nodup := List.nodup_cons.mpr ⟨notUnder, nodupUnder⟩
  simp only [Forest.nodes, List.length_cons, List.length_append] at enough
  obtain ⟨s', run, freed, ring, frame⟩ :=
    freeOne_spec (freesAll under) placed standing.ring valids apart
    ringUnder below nodup (show under.nodes.length + 1 < depth by omega)
  refine ⟨s', run, freed, ⟨?_, ring, fun b away _ => ?_, fun x away notOwned _ => ?_⟩, ?_⟩
  · refine beside.congr (fun b member => ?_) fun x inner => ?_
    · rw [freed.pools, if_neg fun inside => gone member (mem_of_gone inside)]
    · obtain ⟨b, member, owner⟩ := owner_of_inner inner
      refine frame x (fun listed => ?_) fun c inside same => ?_
      · rcases near listed with before | ⟨c, root, rfl⟩
        · exact standing.apart x before b (mem_of_rest member) owner
        · exact not_inner_root nodupRest root inner
      · cases owner.symm.trans same
        exact gone member inside
  · rw [freed.pools, if_neg fun inside => away (own (mem_of_gone inside))]
  · refine frame x (fun listed => ?_) fun b inside => notOwned b (own inside)
    rcases near listed with before | ⟨b, root, rfl⟩
    · exact away before
    · exact notOwned b (mem_of_rest (Forest.mem_nodes_of_mem_roots root)) rfl
  · obtain ⟨node, here, parent, _⟩ := placed
    exact ⟨node, l, _, here, parent ▸ standing.ring, parent ▸ ring⟩

theorem free_spec (standing : Standing s par l F) (member : p ∈ F.nodes) {depth : ℕ}
    (enough : F.nodes.length < depth) : ∃ s', ampoolPoolFree depth s p = .ok s' ∧
      Freed s s' ((F.subforest p).post ++ [p]) ∧ Turns s s' p par l F (F.remove p) ∧
      Unlinked s s' p := by
  induction F generalizing par l with
  | nil => cases member
  | cons a under rest first second =>
      by_cases here : a = p
      · subst here
        rw [Forest.subforest, Forest.remove, if_pos rfl, if_pos rfl]
        exact free_root standing enough
      · obtain ⟨_, _, _, _, disjoint⟩ := nodup_cons standing.nodup
        have elsewhere := (List.mem_cons.mp member).resolve_left (Ne.symm here)
        simp only [Forest.nodes, List.length_cons, List.length_append] at enough
        rw [Forest.subforest, Forest.remove, if_neg here, if_neg here]
        by_cases inside : p ∈ under.nodes
        · obtain ⟨s', run, freed, turns, unlinked⟩ := first standing.inner inside (by omega)
          rw [if_pos inside, Forest.remove_of_not_mem (disjoint inside)]
          refine ⟨s', run, freed, turns.inner standing here (disjoint inside) fun x near => ?_,
            unlinked⟩
          exact standing.apart x near p (mem_of_under inside)
        · have later := (List.mem_append.mp elsewhere).resolve_left inside
          obtain ⟨s', run, freed, turns, unlinked⟩ := second standing.next later (by omega)
          rw [if_neg inside, Forest.remove_of_not_mem inside]
          exact ⟨s', run, freed, turns.next standing here inside, unlinked⟩

end Frees

section Additions

variable [DecidableEq P] {a : P}

theorem add_first (standing : Standing s par [] F) (placed : Placed s par a)
    (children : Ring s.links (.childrenList a) []) (outside : a ∉ F.nodes) (other : par ≠ some a) :
    ∃ s', s.add (headOf par) (.siblingLink a) = .ok s' ∧ s'.magic = s.magic ∧ s'.freed = s.freed ∧
      s'.pools = s.pools ∧ Turns s s' a par [] F (.cons a .nil F) := by
  have notHead : (headOf par).owner ≠ some a := fun same => other (owner_headOf.mp same)
  have fresh : LinkAddr.siblingLink a ∉ headOf par :: ([] ++ F.roots.map .siblingLink) := by
    intro near
    rcases List.mem_cons.mp near with same | listed
    · exact notHead (same ▸ rfl)
    · obtain ⟨b, root, same⟩ := List.mem_map.mp listed
      cases same
      exact outside (Forest.mem_nodes_of_mem_roots root)
  obtain ⟨links, added, ring, frame⟩ := ring_add standing.ring fresh
  have first : ∃ x, (s.links (headOf par)).next = some x ∧ s.valid x = true := by
    have forward := standing.ring.forward
    have holds := standing.holds
    cases F with
    | nil => exact ⟨_, forward, standing.valids _ List.mem_cons_self⟩
    | cons b under rest => exact ⟨_, forward.1, valid_of_placed ⟨par, holds.1⟩⟩
  obtain ⟨x, next, valid⟩ := first
  refine ⟨{ s with links := links }, ?_, rfl, rfl, rfl,
    ⟨⟨placed, ?_, trivial, ?_⟩, ring, fun _ _ _ => rfl, ?_⟩⟩
  · simp only [Globals.add, follow_of_valid (standing.valids _ List.mem_cons_self), bind,
      Except.bind, next,
      follow_of_valid valid, added, Globals.update]
  · apply children.congr
    intro y near
    cases List.mem_singleton.mp near
    refine frame _ (fun same => by cases same) fun near => ?_
    rcases List.mem_cons.mp near with same | listed
    · exact notHead (same ▸ rfl)
    · obtain ⟨b, _, same⟩ := List.mem_map.mp listed
      cases same
  · refine standing.holds.congr (fun _ _ => rfl) fun y inner => ?_
    obtain ⟨b, member, owner⟩ := owner_of_inner inner
    refine frame y (fun same => ?_) fun near => ?_
    · subst same
      cases owner
      exact outside member
    · rcases List.mem_cons.mp near with rfl | listed
      · exact standing.apart _ List.mem_cons_self b member owner
      · obtain ⟨c, root, rfl⟩ := List.mem_map.mp listed
        exact not_inner_root standing.nodup root inner
  · intro y away notOwned notNew
    refine frame y (fun same => notNew (same ▸ rfl)) fun near => ?_
    rcases List.mem_cons.mp near with same | listed
    · exact away (same ▸ List.mem_cons_self)
    · obtain ⟨b, root, rfl⟩ := List.mem_map.mp listed
      exact notOwned b (Forest.mem_nodes_of_mem_roots root) rfl

theorem add_below {b : P} (standing : Standing s par l F) (placed : Placed s (some b) a)
    (children : Ring s.links (.childrenList a) []) (outside : a ∉ F.nodes) (member : b ∈ F.nodes)
    (away : ∀ x ∈ headOf par :: l, x.owner ≠ some a) : ∃ s',
    s.add (.childrenList b) (.siblingLink a) = .ok s' ∧ s'.magic = s.magic ∧ s'.freed = s.freed ∧
      s'.pools = s.pools ∧ Turns s s' a par l F (F.addBelow b a) := by
  induction F generalizing par l with
  | nil => cases member
  | cons c under rest first second =>
      simp only [Forest.nodes, List.mem_cons, List.mem_append, not_or] at outside
      obtain ⟨other, notUnder, notRest⟩ := outside
      obtain ⟨_, _, _, _, disjoint⟩ := nodup_cons standing.nodup
      rw [Forest.addBelow]
      by_cases here : c = b
      · subst here
        obtain ⟨s', run, magic, freed, pools, turns⟩ :=
          add_first standing.inner placed children notUnder
          fun same => other (Option.some.inj same).symm
        rw [if_pos rfl]
        exact ⟨s', run, magic, freed, pools, turns.inner standing (Ne.symm other) notRest away⟩
      · have elsewhere := (List.mem_cons.mp member).resolve_left (Ne.symm here)
        rw [if_neg here]
        by_cases inside : b ∈ under.nodes
        · obtain ⟨s', run, magic, freed, pools, turns⟩ :=
              first standing.inner notUnder inside fun x near => by
            cases List.mem_singleton.mp near
            exact fun same => other (Option.some.inj same).symm
          rw [Forest.addBelow_of_not_mem (disjoint inside)]
          exact ⟨s', run, magic, freed, pools, turns.inner standing (Ne.symm other) notRest away⟩
        · have later := (List.mem_append.mp elsewhere).resolve_left inside
          obtain ⟨s', run, magic, freed, pools, turns⟩ :=
            second standing.next notRest later fun x near => by
            rw [← List.cons_append] at near
            rcases List.mem_append.mp near with before | last
            · exact away x before
            · cases List.mem_singleton.mp last
              exact fun same => other (Option.some.inj same).symm
          rw [Forest.addBelow_of_not_mem inside]
          exact ⟨s', run, magic, freed, pools, turns.next standing (Ne.symm other) notUnder⟩

end Additions

end Libam.Pool.Hierarchy
