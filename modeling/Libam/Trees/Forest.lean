import Mathlib.Data.List.Nodup
import Mathlib.Data.List.Perm.Basic

/-! Forests of any shape: a first tree, with what is below its root, and the trees beside it. -/

namespace Libam.Trees

inductive Forest (α : Type)
  | nil
  | cons (root : α) (under rest : Forest α)
  deriving DecidableEq, Repr

namespace Forest

variable {α : Type}

section Lists

def roots : Forest α → List α
  | nil => []
  | cons a _ rest => a :: rest.roots

def nodes : Forest α → List α
  | nil => []
  | cons a under rest => a :: (under.nodes ++ rest.nodes)

def post : Forest α → List α
  | nil => []
  | cons a under rest => under.post ++ a :: rest.post

def edges (top : Option α) : Forest α → List (Option α × α)
  | nil => []
  | cons a under rest => (top, a) :: (under.edges (some a) ++ rest.edges top)

theorem mem_nodes_of_mem_roots {F : Forest α} {a : α} (member : a ∈ F.roots) : a ∈ F.nodes := by
  induction F with
  | nil => cases member
  | cons b under rest _ ih =>
      rcases List.mem_cons.mp member with rfl | later
      · exact List.mem_cons_self
      · exact List.mem_cons_of_mem _ (List.mem_append_right _ (ih later))

theorem post_perm (F : Forest α) : F.post.Perm F.nodes := by
  induction F with
  | nil => exact .refl _
  | cons a under rest first second =>
      exact List.perm_middle.trans ((first.append second).cons a)

theorem edges_snd (F : Forest α) (top : Option α) : (F.edges top).map Prod.snd = F.nodes := by
  induction F generalizing top with
  | nil => rfl
  | cons a under rest first second =>
      simp only [edges, nodes, List.map_cons, List.map_append, first, second]

theorem snd_mem_of_edges {F : Forest α} {top : Option α} {e : Option α × α}
    (member : e ∈ F.edges top) : e.2 ∈ F.nodes := by
  rw [← edges_snd F top]
  exact List.mem_map_of_mem member

theorem fst_of_edges {F : Forest α} {top : Option α} {a b : α}
    (member : (some a, b) ∈ F.edges top) : top = some a ∨ a ∈ F.nodes := by
  induction F generalizing top with
  | nil => cases member
  | cons c under rest first second =>
      rcases List.mem_cons.mp member with same | inside
      · exact .inl (Prod.mk.inj same).1.symm
      · rcases List.mem_append.mp inside with below | beside
        · refine .inr ?_
          rcases first below with here | deeper
          · exact Option.some.inj here ▸ List.mem_cons_self
          · exact List.mem_cons_of_mem _ (List.mem_append_left _ deeper)
        · apply (second beside).imp_right
          intro later
          exact List.mem_cons_of_mem _ (List.mem_append_right _ later)

theorem edges_before (F : Forest α) (top : Option α) {l r : List (Option α × α)} {e : Option α × α}
    (split : F.edges top = l ++ e :: r) : e.1 = top ∨ ∃ a ∈ l.map Prod.snd, e.1 = some a := by
  induction F generalizing top l r with
  | nil => simp [edges] at split
  | cons a under rest first second =>
      rw [edges] at split
      cases l with
      | nil =>
          cases split
          exact .inl rfl
      | cons e₀ l =>
          rw [List.cons_append] at split
          obtain ⟨rfl, tails⟩ := List.cons.inj split
          rcases List.append_eq_append_iff.mp
            tails with ⟨between, isL, isRest⟩ | ⟨between, isUnder, isR⟩
          · rcases second top isRest with here | ⟨b, member, here⟩
            · exact .inl here
            · refine .inr ⟨b, ?_, here⟩
              rw [isL, List.map_cons, List.map_append]
              exact List.mem_cons_of_mem _ (List.mem_append_right _ member)
          · cases between with
            | nil =>
                rw [List.nil_append] at isR
                rcases second top (l := []) isR.symm with here | ⟨b, member, _⟩
                · exact .inl here
                · cases member
            | cons e₁ between =>
                obtain ⟨rfl, _⟩ := List.cons.inj isR
                rcases first (some a) isUnder with here | ⟨b, member, here⟩
                · exact .inr ⟨a, List.mem_cons_self, here⟩
                · exact .inr ⟨b, List.mem_cons_of_mem _ member, here⟩

end Lists

section Operations

variable [DecidableEq α]

def subforest (a : α) : Forest α → Forest α
  | nil => nil
  | cons b under rest =>
      if b = a then under else if a ∈ under.nodes then under.subforest a else rest.subforest a

def remove (a : α) : Forest α → Forest α
  | nil => nil
  | cons b under rest => if b = a then rest else cons b (under.remove a) (rest.remove a)

def addBelow (b a : α) : Forest α → Forest α
  | nil => nil
  | cons c under rest =>
      if c = b then cons c (cons a nil under) rest else cons c (under.addBelow b a)
        (rest.addBelow b a)

def add (top : Option α) (a : α) (F : Forest α) : Forest α :=
  match top with
  | none => cons a nil F
  | some b => F.addBelow b a

theorem remove_of_not_mem {a : α} {F : Forest α} (outside : a ∉ F.nodes) : F.remove a = F := by
  induction F with
  | nil => rfl
  | cons b under rest first second =>
      simp only [nodes, List.mem_cons, List.mem_append, not_or] at outside
      rw [remove, if_neg (Ne.symm outside.1), first outside.2.1, second outside.2.2]

theorem addBelow_of_not_mem {a b : α} {F : Forest α} (outside : b ∉ F.nodes) :
    F.addBelow b a = F := by
  induction F with
  | nil => rfl
  | cons c under rest first second =>
      simp only [nodes, List.mem_cons, List.mem_append, not_or] at outside
      rw [addBelow, if_neg (Ne.symm outside.1), first outside.2.1, second outside.2.2]

theorem subforest_subset {a : α} {F : Forest α} : ∀ b ∈ (F.subforest a).nodes, b ∈ F.nodes := by
  induction F with
  | nil => exact fun b member => member
  | cons c under rest first second =>
      intro b member
      rw [subforest] at member
      split at member
      · exact List.mem_cons_of_mem _ (List.mem_append_left _ member)
      · split at member
        · exact List.mem_cons_of_mem _ (List.mem_append_left _ (first b member))
        · exact List.mem_cons_of_mem _ (List.mem_append_right _ (second b member))

theorem mem_subforest_of_edges {a b c : α} {F : Forest α} {top : Option α} (nodup : F.nodes.Nodup)
    (outside : ∀ d ∈ F.nodes, top ≠ some d) (member : a ∈ F.nodes)
    (edge : (some b, c) ∈ F.edges top) (above : b ∈ a :: (F.subforest a).nodes) :
    c ∈ (F.subforest a).nodes := by
  have inside : b ∈ F.nodes :=
    (List.mem_cons.mp above).elim (fun same => same ▸ member) (subforest_subset b)
  induction F generalizing top with
  | nil => cases member
  | cons d under rest first second =>
      simp only [nodes, List.nodup_cons, List.nodup_append', List.mem_append, not_or] at nodup
      obtain ⟨⟨notUnder, notRest⟩, nodupUnder, nodupRest, disjoint⟩ := nodup
      have notTop := outside b inside
      have edges := (List.mem_cons.mp edge).resolve_left fun same =>
        notTop (Prod.mk.inj same).1.symm
      rw [subforest] at above ⊢
      have besideTop : ∀ e ∈ rest.nodes, top ≠ some e := fun e later =>
        outside e (List.mem_cons_of_mem _ (List.mem_append_right _ later))
      have notBeside (deeper : b ∈ d :: under.nodes) : (some b, c) ∉ rest.edges top :=
        fun beside => by
        have later := (fst_of_edges beside).resolve_left notTop
        rcases List.mem_cons.mp deeper with rfl | below
        · exact notRest later
        · exact disjoint below later
      by_cases here : d = a
      · subst here
        rw [if_pos rfl] at above ⊢
        exact snd_mem_of_edges ((List.mem_append.mp edges).resolve_right (notBeside above))
      · rw [if_neg here] at above ⊢
        have elsewhere := (List.mem_cons.mp member).resolve_left (Ne.symm here)
        by_cases below : a ∈ under.nodes
        · rw [if_pos below] at above ⊢
          have deeper : b ∈ under.nodes :=
            (List.mem_cons.mp above).elim (fun same => same ▸ below) (subforest_subset b)
          have edges := (List.mem_append.mp edges).resolve_right
            (notBeside (List.mem_cons_of_mem _ deeper))
          refine first nodupUnder (fun e deep same => ?_) below edges above deeper
          exact notUnder (Option.some.inj same ▸ deep)
        · have later := (List.mem_append.mp elsewhere).resolve_left below
          rw [if_neg below] at above ⊢
          have beside : b ∈ rest.nodes :=
            (List.mem_cons.mp above).elim (fun same => same ▸ later) (subforest_subset b)
          refine second nodupRest besideTop later ?_ above beside
          apply (List.mem_append.mp edges).resolve_left
          intro deep
          rcases fst_of_edges deep with same | deeper
          · exact notRest (Option.some.inj same ▸ beside)
          · exact disjoint deeper beside

theorem remove_perm {a : α} {F : Forest α} (nodup : F.nodes.Nodup) (member : a ∈ F.nodes) :
    F.nodes.Perm ((a :: (F.subforest a).nodes) ++ (F.remove a).nodes) := by
  induction F with
  | nil => cases member
  | cons b under rest first second =>
      simp only [nodes, List.nodup_cons, List.nodup_append', List.mem_append, not_or] at nodup
      obtain ⟨⟨notUnder, notRest⟩, nodupUnder, nodupRest, disjoint⟩ := nodup
      by_cases here : b = a
      · subst here
        rw [subforest, remove, if_pos rfl, if_pos rfl]
        exact .refl _
      · have elsewhere := (List.mem_cons.mp member).resolve_left (Ne.symm here)
        rw [subforest, remove, if_neg here, if_neg here]
        by_cases inside : a ∈ under.nodes
        · rw [if_pos inside, remove_of_not_mem (disjoint inside)]
          have split := ((first nodupUnder inside).append_right rest.nodes).cons b
          apply split.trans
          simp only [nodes, List.append_assoc]
          exact List.perm_middle.symm
        · have later := (List.mem_append.mp elsewhere).resolve_left inside
          rw [if_neg inside, remove_of_not_mem inside]
          have split := ((second nodupRest later).append_left (b :: under.nodes))
          apply split.trans
          simp only [nodes, ← List.append_assoc, ← List.cons_append]
          exact List.perm_append_comm.append_right _

theorem addBelow_perm {a b : α} {F : Forest α} (nodup : F.nodes.Nodup) (member : b ∈ F.nodes) :
    (F.addBelow b a).nodes.Perm (a :: F.nodes) := by
  induction F with
  | nil => cases member
  | cons c under rest first second =>
      simp only [nodes, List.nodup_cons, List.nodup_append', List.mem_append, not_or] at nodup
      obtain ⟨_, nodupUnder, nodupRest, disjoint⟩ := nodup
      by_cases here : c = b
      · rw [addBelow, if_pos here]
        simp only [nodes, List.nil_append, List.cons_append]
        exact .swap a c _
      · have elsewhere := (List.mem_cons.mp member).resolve_left (Ne.symm here)
        rw [addBelow, if_neg here]
        by_cases inside : b ∈ under.nodes
        · rw [addBelow_of_not_mem (disjoint inside)]
          exact (((first nodupUnder inside).append_right rest.nodes).cons c).trans (.swap a c _)
        · have later := (List.mem_append.mp elsewhere).resolve_left inside
          rw [addBelow_of_not_mem inside]
          have split := ((second nodupRest later).append_left (c :: under.nodes))
          exact split.trans List.perm_middle

theorem subforest_addBelow {a b : α} {F : Forest α} (nodup : F.nodes.Nodup) (member : b ∈ F.nodes) :
    (F.addBelow b a).subforest b = cons a nil (F.subforest b) := by
  induction F with
  | nil => cases member
  | cons c under rest first second =>
      simp only [nodes, List.nodup_cons, List.nodup_append', List.mem_append, not_or] at nodup
      obtain ⟨_, nodupUnder, nodupRest, _⟩ := nodup
      by_cases here : c = b
      · rw [addBelow, if_pos here, subforest, if_pos here, subforest, if_pos here]
      · have elsewhere := (List.mem_cons.mp member).resolve_left (Ne.symm here)
        rw [addBelow, if_neg here, subforest, if_neg here, subforest, if_neg here]
        by_cases inside : b ∈ under.nodes
        · have still : b ∈ (under.addBelow b a).nodes :=
            (addBelow_perm nodupUnder inside).mem_iff.mpr (List.mem_cons_of_mem _ inside)
          rw [if_pos still, if_pos inside, first nodupUnder inside]
        · have later := (List.mem_append.mp elsewhere).resolve_left inside
          rw [addBelow_of_not_mem inside, if_neg inside, if_neg inside, second nodupRest later]

end Operations

end Forest

end Libam.Trees
