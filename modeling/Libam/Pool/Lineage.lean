import Libam.Concurrency.Interleaving
import Libam.Pool.Family
import Mathlib.Logic.Relation

/-! Sequences of calls that allocate and free pools: the pools are a forest below the root list, a
pool goes with all of its descendants, and a diagnosis visits every pool once. -/

namespace Libam.Pool.Hierarchy

open Libam.Lists Libam.Trees Libam.Interleaving

variable {P : Type} {s s' : Globals P} {par : Option P} {F under rest : Forest P} {a p q : P}

section Descent

/-- All pools are this forest in the list `root_pools`. -/
structure Forested (s : Globals P) (F : Forest P) : Prop where
  holds : Holds s none F
  nodup : F.nodes.Nodup
  ring : Ring s.links .rootPools (F.roots.map .siblingLink)
  live : ∀ a, (s.pools a).isSome = true ↔ a ∈ F.nodes

def Child (s : Globals P) (p q : P) : Prop := ∃ node, s.pools q = some node ∧ node.parent = some p

def Descends (s : Globals P) : P → P → Prop := Relation.ReflTransGen (Child s)

theorem Forested.standing (forested : Forested s F) : Standing s none [] F := by
  refine ⟨forested.holds, forested.nodup, forested.ring, fun x near => ?_, fun x near b _ => ?_⟩
  · cases List.mem_singleton.mp near
    rfl
  · cases List.mem_singleton.mp near
    intro same
    cases same

theorem Holds.edge (holds : Holds s par F) (member : a ∈ F.nodes) :
    ∃ node, s.pools a = some node ∧ (node.parent, a) ∈ F.edges par ∧
    node.pool = ampoolInternal := by
  induction F generalizing par with
  | nil => cases member
  | cons b under rest first second =>
      obtain ⟨⟨node, here, parent, empty⟩, _, below, beside⟩ := holds
      rcases List.mem_cons.mp member with rfl | inside
      · exact ⟨node, here, parent ▸ List.mem_cons_self, empty⟩
      · rcases List.mem_append.mp inside with deeper | later
        · obtain ⟨node, here, edge, empty⟩ := first below deeper
          exact ⟨node, here, List.mem_cons_of_mem _ (List.mem_append_left _ edge), empty⟩
        · obtain ⟨node, here, edge, empty⟩ := second beside later
          exact ⟨node, here, List.mem_cons_of_mem _ (List.mem_append_right _ edge), empty⟩

theorem Holds.subforest [DecidableEq P] (holds : Holds s par F) (member : p ∈ F.nodes) :
    Holds s (some p) (F.subforest p) := by
  induction F generalizing par with
  | nil => cases member
  | cons b under rest first second =>
      obtain ⟨_, _, below, beside⟩ := holds
      rw [Forest.subforest]
      by_cases here : b = p
      · rw [if_pos here]
        exact here ▸ below
      · have elsewhere := (List.mem_cons.mp member).resolve_left (Ne.symm here)
        rw [if_neg here]
        by_cases inside : p ∈ under.nodes
        · rw [if_pos inside]
          exact first below inside
        · rw [if_neg inside]
          exact second beside ((List.mem_append.mp elsewhere).resolve_left inside)

theorem Holds.children [DecidableEq P] (holds : Holds s par F) (member : p ∈ F.nodes) :
    Ring s.links (.childrenList p) ((F.subforest p).roots.map .siblingLink) := by
  induction F generalizing par with
  | nil => cases member
  | cons b under rest first second =>
      obtain ⟨_, ringUnder, below, beside⟩ := holds
      rw [Forest.subforest]
      by_cases here : b = p
      · rw [if_pos here]
        exact here ▸ ringUnder
      · have elsewhere := (List.mem_cons.mp member).resolve_left (Ne.symm here)
        rw [if_neg here]
        by_cases inside : p ∈ under.nodes
        · rw [if_pos inside]
          exact first below inside
        · rw [if_neg inside]
          exact second beside ((List.mem_append.mp elsewhere).resolve_left inside)

theorem Holds.descends (holds : Holds s (some p) F) (member : a ∈ F.nodes) : Descends s p a := by
  induction F generalizing p with
  | nil => cases member
  | cons b under rest first second =>
      obtain ⟨⟨node, here, parent, _⟩, _, below, beside⟩ := holds
      have child : Child s p b := ⟨node, here, parent⟩
      rcases List.mem_cons.mp member with rfl | inside
      · exact .single child
      · rcases List.mem_append.mp inside with deeper | later
        · exact .head child (first below deeper)
        · exact second beside later

theorem Forested.descends_iff [DecidableEq P] (forested : Forested s F) (member : p ∈ F.nodes) :
    q ∈ p :: (F.subforest p).nodes ↔ Descends s p q := by
  constructor
  · intro inside
    rcases List.mem_cons.mp inside with rfl | below
    · exact .refl
    · exact (forested.holds.subforest member).descends below
  · intro descends
    induction descends with
    | refl => exact List.mem_cons_self
    | tail _ child ih =>
        obtain ⟨node, here, parent⟩ := child
        have live := (forested.live _).mp (Option.isSome_iff_exists.mpr ⟨node, here⟩)
        obtain ⟨node', here', edge, _⟩ := forested.holds.edge live
        cases here.symm.trans here'
        rw [parent] at edge
        exact List.mem_cons_of_mem _
          (Forest.mem_subforest_of_edges forested.nodup (fun _ _ same => by cases same)
            member edge ih)

end Descent

section Calls

variable [DecidableEq P]

theorem forested_init (magic : UInt32) : Forested (ampoolInit magic : Globals P) .nil :=
  ⟨trivial, List.nodup_nil, ring_init _ _, fun a => by simp [ampoolInit, Forest.nodes]⟩

theorem forested_free (forested : Forested s F) (member : p ∈ F.nodes) {depth : ℕ}
    (enough : F.nodes.length < depth) : ∃ s', ampoolPoolFree depth s p = .ok s' ∧
      Freed s s' ((F.subforest p).post ++ [p]) ∧ Forested s' (F.remove p) ∧ Unlinked s s' p := by
  obtain ⟨s', run, freed, turns, unlinked⟩ := free_spec forested.standing member enough
  have split := Forest.remove_perm forested.nodup member
  obtain ⟨_, nodup, disjoint⟩ := List.nodup_append'.mp (split.nodup_iff.mp forested.nodup)
  refine ⟨s', run, freed, ⟨turns.holds, nodup, turns.ring, fun a => ?_⟩, unlinked⟩
  have gone : a ∈ (F.subforest p).post ++ [p] ↔ a ∈ p :: (F.subforest p).nodes :=
    (List.perm_append_comm.trans ((Forest.post_perm _).cons p)).mem_iff
  rw [freed.pools]
  by_cases inside : a ∈ p :: (F.subforest p).nodes
  · rw [if_pos (gone.mpr inside)]
    exact ⟨(fun alive => by cases alive), fun left => absurd left (disjoint inside)⟩
  · rw [if_neg fun listed => inside (gone.mp listed), forested.live, split.mem_iff, List.mem_append]
    exact or_iff_right inside

theorem forested_alloc (forested : Forested s F)
    (parent : ∀ q, par = some q → (s.pools q).isSome = true) (fresh : s.pools a = none)
    (validateOnFree : Bool) (name : String) : ∃ s',
    ampoolPoolAllocFlagsNamed s par validateOnFree name (some a) = .ok (s', some a) ∧
      Forested s' (F.add par a) ∧ (F.add par a).nodes.Perm (a :: F.nodes) ∧ s'.freed = s.freed ∧
      s'.pools = Function.update s.pools a (some ⟨par, name, validateOnFree, ampoolInternal⟩) := by
  obtain ⟨s₁, def₁⟩ : ∃ s₁, s₁ = { s with
      links := amlistInit (Function.update s.links (.siblingLink a) ⟨none, none⟩) (.childrenList a)
      pools := Function.update s.pools a (some ⟨par, name, validateOnFree, ampoolInternal⟩) } :=
      ⟨_, rfl⟩
  have outside : a ∉ F.nodes := by
    rw [← forested.live, fresh]
    intro alive
    cases alive
  have links {x : LinkAddr P} (other : x.owner ≠ some a) : s₁.links x = s.links x := by
    have notHead : x ≠ .childrenList a := fun same => other (same ▸ rfl)
    have notLink : x ≠ .siblingLink a := fun same => other (same ▸ rfl)
    rw [def₁]
    simp only [amlistInit, setPrev, setNext, Function.update_of_ne notHead,
      Function.update_of_ne notLink]
  have pools {b : P} (member : b ∈ F.nodes) : s₁.pools b = s.pools b := by
    rw [def₁]
    exact Function.update_of_ne (fun same : b = a => outside (same ▸ member)) _ _
  have holds : Holds s₁ none F := by
    refine forested.holds.congr (fun b member => pools member) fun x inner => links ?_
    obtain ⟨b, member, owner⟩ := owner_of_inner inner
    rintro same
    cases owner.symm.trans same
    exact outside member
  have ring : Ring s₁.links .rootPools (F.roots.map .siblingLink) := by
    refine forested.ring.congr fun x near => links ?_
    rcases List.mem_cons.mp near with rfl | listed
    · intro same
      cases same
    · obtain ⟨b, root, rfl⟩ := List.mem_map.mp listed
      rintro same
      cases same
      exact outside (Forest.mem_nodes_of_mem_roots root)
  have standing : Standing s₁ none [] F := by
    refine ⟨holds, forested.nodup, ring, fun x near => ?_, fun x near b _ => ?_⟩
    · cases List.mem_singleton.mp near
      rfl
    · cases List.mem_singleton.mp near
      intro same
      cases same
  have placed : Placed s₁ par a := by
    refine ⟨⟨par, name, validateOnFree, ampoolInternal⟩, ?_, rfl, rfl⟩
    rw [def₁]
    exact Function.update_self _ _ _
  have children : Ring s₁.links (.childrenList a) [] := by
    rw [def₁]
    exact ring_init _ _
  have added : ∃ s', s₁.add (headOf par) (.siblingLink a) = .ok s' ∧ s'.freed = s₁.freed ∧
      s'.pools = s₁.pools ∧ Turns s₁ s' a none [] F (F.add par a) ∧
      (F.add par a).nodes.Perm (a :: F.nodes) := by
    cases par with
    | none =>
        obtain ⟨s', run, _, freed, pools', turns⟩ := add_first standing placed children outside
          (Option.some_ne_none a).symm
        exact ⟨s', run, freed, pools', turns, .refl _⟩
    | some q =>
        have member := (forested.live q).mp (parent q rfl)
        obtain ⟨s', run, _, freed, pools', turns⟩ :=
          add_below standing placed children outside member
          fun x near => by
            cases List.mem_singleton.mp near
            intro same
            cases same
        exact ⟨s', run, freed, pools', turns, Forest.addBelow_perm forested.nodup member⟩
  obtain ⟨s', run, freed, pools', turns, perm⟩ := added
  refine ⟨s', ?_, ⟨turns.holds, ?_, turns.ring, fun b => ?_⟩, perm, ?_, ?_⟩
  · rw [def₁] at run
    simp only [ampoolPoolAllocFlagsNamed, bind, Except.bind, run]
    rfl
  · exact perm.nodup_iff.mpr (List.nodup_cons.mpr ⟨outside, forested.nodup⟩)
  · rw [pools', perm.mem_iff, List.mem_cons, ← forested.live, def₁]
    by_cases same : b = a
    · subst same
      simp [Function.update_self]
    · simp [same]
  · rw [freed, def₁]
  · rw [pools', def₁]

theorem Forested.linked (forested : Forested s F) (forested' : Forested s' (F.add par a))
    (parent : ∀ q, par = some q → (s.pools q).isSome = true)
    (perm : (F.add par a).nodes.Perm (a :: F.nodes)) : Linked s s' par a := by
  cases par with
  | none => exact ⟨_, forested.ring, forested'.ring⟩
  | some q =>
      have member := (forested.live q).mp (parent q rfl)
      have ring := forested'.holds.children (perm.mem_iff.mpr (List.mem_cons_of_mem _ member))
      rw [Forest.add, Forest.subforest_addBelow forested.nodup member] at ring
      exact ⟨_, forested.holds.children member, ring⟩

end Calls

section Reports

variable [DecidableEq P] {head : LinkAddr P}

/-- What `_ampool_diag` reports of a pool that it reached from a parent. -/
def report (s : Globals P) (edge : Option P × P) : AmpoolDiag P :=
  match s.pools edge.2 with
  | none => ⟨edge.2, "", edge.1, none, 0, 0⟩
  | some node => ⟨edge.2, node.name, edge.1, (edge.1.bind s.pools).map (·.name), node.pool.size,
      node.pool.elementCount⟩

theorem diagChildren_spec {x : LinkAddr P} (holds : Holds s par F) (nodup : F.nodes.Nodup)
    (path : Path (fun x => (s.links x).next) x (F.roots.map .siblingLink) head)
    (valid : s.valid head = true) (apart : ∀ a ∈ F.nodes, head.owner ≠ some a)
    (parent : ∀ q, par = some q → (s.pools q).isSome = true) (d : Diagnosis P) {rounds depth : ℕ}
    (enough : F.nodes.length < rounds) (deep : F.nodes.length < depth) :
    ∃ d', diagChildren s (ampoolDiagFrom s depth) par head rounds (s.links x).next d = .ok d' ∧
      d'.seen = d.seen ++ (F.edges par).map (report s) := by
  induction F generalizing par head x rounds depth d with
  | nil =>
      obtain ⟨rounds, rfl⟩ : ∃ n, rounds = n + 1 := ⟨rounds - 1, by omega⟩
      have next : (s.links x).next = some head := path
      refine ⟨d, ?_, by simp [Forest.edges]⟩
      simp only [diagChildren, next, follow_of_valid valid, bind, Except.bind, if_true]
      rfl
  | cons a under rest first second =>
      obtain ⟨⟨node, here, placed⟩, ringUnder, below, beside⟩ := holds
      obtain ⟨notUnder, _, nodupUnder, nodupRest, _⟩ := nodup_cons nodup
      simp only [Forest.nodes, List.length_cons, List.length_append] at enough deep
      obtain ⟨rounds, rfl⟩ : ∃ n, rounds = n + 1 := ⟨rounds - 1, by omega⟩
      obtain ⟨depth, rfl⟩ : ∃ n, depth = n + 1 := ⟨depth - 1, by omega⟩
      have next : (s.links x).next = some (.siblingLink a) := path.1
      have other : ¬ LinkAddr.siblingLink a = head := fun same =>
        apart a List.mem_cons_self (same ▸ rfl)
      obtain ⟨d₁, ran, seen₁⟩ := first below nodupUnder ringUnder.forward
        (by simp only [Globals.valid, LinkAddr.owner, here, Option.isSome_some])
        (fun b inside same => notUnder (Option.some.inj same ▸ inside))
        (fun q same => by rw [← Option.some.inj same, here]; rfl)
        ⟨some (report s (par, a)), d.seen ++ [report s (par, a)]⟩
        (show under.nodes.length < depth by omega) (show under.nodes.length < depth by omega)
      have entered : ampoolDiagFrom s (depth + 1) a par d = .ok d₁ := by
        have reported : report s (par, a) = ⟨a, node.name, par, (par.bind s.pools).map (·.name),
            node.pool.size, node.pool.elementCount⟩ := by
          simp only [report, here]
        rw [reported] at ran
        cases par with
        | none =>
            simp only [ampoolDiagFrom, Globals.node, here, bind, Except.bind, pure, Except.pure]
            exact ran
        | some q =>
            obtain ⟨above, isAbove⟩ := Option.isSome_iff_exists.mp (parent q rfl)
            simp only [Option.bind_some, isAbove, Option.map_some] at ran
            simp only [ampoolDiagFrom, Globals.node, here, bind, Except.bind, pure,
              Except.pure, isAbove]
            exact ran
      obtain ⟨d₂, ran₂, seen₂⟩ := second beside nodupRest path.2 valid
        (fun b later => apart b (mem_of_rest later)) parent d₁
        (show rest.nodes.length < rounds by omega)
        (show rest.nodes.length < depth + 1 by omega)
      refine ⟨d₂, ?_, ?_⟩
      · simp only [diagChildren, next, follow_of_valid (valid_of_placed ⟨par, node, here, placed⟩),
          bind,
          Except.bind, if_neg other, poolOf, entered]
        exact ran₂
      · rw [seen₂, seen₁]
        simp only [Forest.edges, List.map_cons, List.map_append, List.append_assoc,
          List.cons_append, List.nil_append]

/-- `ampool_diag` saw every pool once, after its parent, with the parent's name. -/
structure Diagnosed (s : Globals P) (seen : List (AmpoolDiag P)) : Prop where
  once : (seen.map (·.pool)).Nodup
  every : ∀ a, a ∈ seen.map (·.pool) ↔ (s.pools a).isSome = true
  ordered : ∀ l d r, seen = l ++ d :: r → ∀ q, d.parent = some q → q ∈ l.map (·.pool)
  right : ∀ d ∈ seen, ∃ node, s.pools d.pool = some node ∧ d.poolName = node.name ∧
    d.parent = node.parent ∧ d.parentName = (node.parent.bind s.pools).map (·.name) ∧
    d.size = node.pool.size ∧ d.elements = node.pool.elementCount

omit [DecidableEq P] in
theorem report_pool (s : Globals P) (edge : Option P × P) : (report s edge).pool = edge.2 := by
  unfold report
  split <;> rfl

omit [DecidableEq P] in
theorem report_parent (s : Globals P) (edge : Option P × P) : (report s edge).parent = edge.1 := by
  unfold report
  split <;> rfl

omit [DecidableEq P] in
theorem Holds.edges_parent (holds : Holds s par F) {edge : Option P × P}
    (member : edge ∈ F.edges par) : ∃ node, s.pools edge.2 = some node ∧ node.parent = edge.1 := by
  induction F generalizing par with
  | nil => cases member
  | cons b under rest first second =>
      obtain ⟨⟨node, here, parent, _⟩, _, below, beside⟩ := holds
      rcases List.mem_cons.mp member with rfl | inside
      · exact ⟨node, here, parent⟩
      · exact (List.mem_append.mp inside).elim (first below) (second beside)

theorem forested_diag (forested : Forested s F) {rounds : ℕ} (enough : F.nodes.length < rounds) :
    ∃ seen, ampoolDiag s rounds = .ok seen ∧ Diagnosed s seen := by
  obtain ⟨d, ran, isSeen⟩ :=
    diagChildren_spec forested.holds forested.nodup forested.ring.forward rfl
    (fun _ _ => nofun) nofun ⟨none, []⟩ enough enough
  rw [List.nil_append] at isSeen
  have pools : ((F.edges none).map (report s)).map (·.pool) = F.nodes := by
    rw [List.map_map, ← Forest.edges_snd F none]
    exact List.map_congr_left fun edge _ => report_pool s edge
  refine ⟨(F.edges none).map (report s), ?_, ?_, fun a => ?_, ?_, ?_⟩
  · simp only [ampoolDiag, ran, bind, Except.bind, isSeen]
    rfl
  · rw [pools]
    exact forested.nodup
  · rw [pools, forested.live]
  · intro l d r split q isParent
    obtain ⟨before, tail, edges, isL, isTail⟩ := List.map_eq_append_iff.mp split
    obtain ⟨edge, after, rfl, rfl, _⟩ := List.map_eq_cons_iff.mp isTail
    rw [report_parent] at isParent
    rcases F.edges_before none edges with top | ⟨b, member, here⟩
    · cases top.symm.trans isParent
    · cases here.symm.trans isParent
      rw [← isL, List.map_map]
      obtain ⟨e, inside, rfl⟩ := List.mem_map.mp member
      exact List.mem_map.mpr ⟨e, inside, report_pool s e⟩
  · intro d member
    obtain ⟨edge, inside, rfl⟩ := List.mem_map.mp member
    obtain ⟨node, here, parent⟩ := forested.holds.edges_parent inside
    refine ⟨node, by rw [report_pool, here], ?_, by rw [report_parent, parent], ?_, ?_, ?_⟩
    · simp only [report, here]
    · simp only [report, here, parent]
    · simp only [report, here]
    · simp only [report, here]

end Reports

section Sequences

variable [DecidableEq P]

inductive Op (P : Type)
  | alloc (parent : Option P) (validateOnFree : Bool) (name : String) (fresh : Option P)
  | free (pool : P)

def apply (rounds : ℕ) (s : Globals P) : Op P → Except Fault (Globals P)
  | .alloc parent validateOnFree name fresh => do
      let (s, _) ← ampoolPoolAllocFlagsNamed s parent validateOnFree name fresh
      return s
  | .free pool => ampoolPoolFree rounds s pool

/-- Calls use pools that are live, and `malloc` returns memory that is not in use. -/
def Ready (s : Globals P) (op : Op P) (_ : Globals P) : Prop :=
  match op with
  | .alloc parent _ _ fresh =>
      (∀ q, parent = some q → (s.pools q).isSome = true) ∧ ∀ a, fresh = some a → s.pools a = none
  | .free pool => (s.pools pool).isSome = true

def step (rounds : ℕ) (s : Globals P) (op : Op P) : Option (Globals P) :=
  match apply rounds s op with
  | .ok s => some s
  | .error _ => none

theorem forested_apply (forested : Forested s F) {op : Op P} (ready : Ready s op s) {rounds : ℕ}
    (enough : F.nodes.length < rounds) :
    ∃ s' F', apply rounds s op = .ok s' ∧ Forested s' F' ∧
    F'.nodes.length ≤ F.nodes.length + 1 := by
  cases op with
  | alloc parent validateOnFree name fresh =>
      obtain ⟨above, unused⟩ := ready
      cases fresh with
      | none => exact ⟨s, F, rfl, forested, Nat.le_succ _⟩
      | some a =>
          obtain ⟨s', run, forested', perm, _⟩ := forested_alloc forested above
            (unused a rfl) validateOnFree name
          refine ⟨s', _, ?_, forested', perm.length_eq.le⟩
          simp only [apply, run, bind, Except.bind]
          rfl
  | free pool =>
      have member := (forested.live pool).mp ready
      obtain ⟨s', run, _, forested', _⟩ := forested_free forested member enough
      have split := (Forest.remove_perm forested.nodup member).length_eq
      rw [List.length_append] at split
      exact ⟨s', _, run, forested', by omega⟩

theorem run_forested {magic : UInt32} {rounds : ℕ} {ops : List (Op P)}
    (enough : ops.length < rounds) (run : Run (step rounds) Ready (ampoolInit magic) ops s) : ∃ F,
    Forested s F ∧ F.nodes.length ≤ ops.length := by
  induction run with
  | nil => exact ⟨.nil, forested_init magic, Nat.le_refl 0⟩
  | snoc _ fired ready ih =>
      rw [List.length_append, List.length_singleton] at enough
      obtain ⟨F, forested, few⟩ := ih (by omega)
      obtain ⟨s', F', applied, forested', grown⟩ := forested_apply forested ready
        (show F.nodes.length < rounds by omega)
      simp only [step, applied, Option.some.injEq] at fired
      refine ⟨F', fired ▸ forested', ?_⟩
      rw [List.length_append, List.length_singleton]
      omega

/-- The call frees a pool and its descendants, each once, and takes it out of its list. -/
def FreesDescendants (s s' : Globals P) (p : P) : Prop :=
  ∃ gone, gone.Nodup ∧ (∀ q, q ∈ gone ↔ Descends s p q) ∧ Freed s s' gone ∧ Unlinked s s' p

/-- The call adds an empty pool with this parent and name, first in the list of the parent, and
leaves the others as they are. -/
structure AddsPool (s s' : Globals P) (parent : Option P) (validateOnFree : Bool) (name : String)
    (p : P) : Prop where
  pools : s'.pools = Function.update s.pools p (some ⟨parent, name, validateOnFree, ampoolInternal⟩)
  freed : s'.freed = s.freed
  linked : Linked s s' parent p

/-- The pools are a forest after every run, a new pool is where it was asked for, a pool goes with
those below it, and a diagnosis visits every pool after its parent. -/
theorem ampool_hierarchy {magic : UInt32} {rounds : ℕ} {ops : List (Op P)}
    (enough : ops.length < rounds) (run : Run (step rounds) Ready (ampoolInit magic) ops s) :
    (∃ F, Forested s F) ∧ (∀ op, Ready s op s → ∃ s', apply rounds s op = .ok s') ∧
      (∀ parent validateOnFree name p,
        Ready s (.alloc parent validateOnFree name (some p)) s → ∃ s',
        ampoolPoolAllocFlagsNamed s parent validateOnFree name (some p) = .ok (s', some p) ∧
          AddsPool s s' parent validateOnFree name p) ∧
      (∀ p, (s.pools p).isSome = true → ∃ s', apply rounds s (.free p) = .ok s' ∧
        FreesDescendants s s' p) ∧
      ∃ seen, ampoolDiag s rounds = .ok seen ∧ Diagnosed s seen := by
  obtain ⟨F, forested, few⟩ := run_forested enough run
  have enough : F.nodes.length < rounds := by omega
  refine ⟨⟨F, forested⟩, fun op ready => ?_, ?_, fun p live => ?_, forested_diag forested enough⟩
  · obtain ⟨s', _, applied, _⟩ := forested_apply forested ready enough
    exact ⟨s', applied⟩
  · intro parent validateOnFree name p ⟨above, unused⟩
    obtain ⟨s', added, forested', perm, freed, pools⟩ :=
      forested_alloc forested above (unused p rfl) validateOnFree name
    exact ⟨s', added, pools, freed, forested.linked forested' above perm⟩
  · have member := (forested.live p).mp live
    obtain ⟨s', applied, freed, _, unlinked⟩ := forested_free forested member enough
    have perm : ((F.subforest p).post ++ [p]).Perm (p :: (F.subforest p).nodes) :=
      List.perm_append_comm.trans ((Forest.post_perm _).cons p)
    have split := (Forest.remove_perm forested.nodup member).nodup_iff.mp forested.nodup
    refine ⟨s', applied, _, perm.nodup_iff.mpr (List.nodup_append'.mp split).1, fun q => ?_,
      freed, unlinked⟩
    rw [perm.mem_iff]
    exact forested.descends_iff member

/-- A pool with one below it, and a third one that is freed. -/
theorem ampool_hierarchy_sample : ∃ s s₁ s₂ : Globals ℕ,
    Run (step 5) Ready (ampoolInit 0x3A7C51E9) [.alloc none true "first" (some 1),
      .alloc (some 1) false "second" (some 2), .alloc none true "third" (some 3), .free 3] s ∧
      (∃ F, Forested s F) ∧ s.pools 1 = some ⟨none, "first", true, ampoolInternal⟩ ∧ s.freed = [3] ∧
      (∃ seen, ampoolDiag s 5 = .ok seen ∧ Diagnosed s seen ∧
        seen = [⟨1, "first", none, none, 0, 0⟩, ⟨2, "second", some 1, some "first", 0, 0⟩]) ∧
      ampoolPoolAllocFlagsNamed s (some 2) true "fourth" (some 4) = .ok (s₁, some 4) ∧
      AddsPool s s₁ (some 2) true "fourth" 4 ∧ apply 5 s (.free 1) = .ok s₂ ∧
      FreesDescendants s s₂ 1 := by
  obtain ⟨r₁, r₂, r₃, s, fired₁, fired₂, fired₃, fired₄, live₁, fresh₂, fresh₃, live₃, first,
      second, fresh₄, freed,
      diagnosed⟩ : ∃ r₁ r₂ r₃ s : Globals ℕ,
      step 5 (ampoolInit 0x3A7C51E9) (.alloc none true "first" (some 1)) = some r₁ ∧
        step 5 r₁ (.alloc (some 1) false "second" (some 2)) = some r₂ ∧
        step 5 r₂ (.alloc none true "third" (some 3)) = some r₃ ∧ step 5 r₃ (.free 3) = some s ∧
        (r₁.pools 1).isSome = true ∧ r₁.pools 2 = none ∧ r₂.pools 3 = none ∧
        (r₃.pools 3).isSome = true ∧
        s.pools 1 = some ⟨none, "first", true, ampoolInternal⟩ ∧ (s.pools 2).isSome = true ∧
        s.pools 4 = none ∧
        s.freed = [3] ∧ ampoolDiag s 5 =
          .ok [⟨1, "first", none, none, 0, 0⟩, ⟨2, "second", some 1, some "first", 0, 0⟩] :=
    ⟨_, _, _, _, rfl, rfl, rfl, rfl, rfl, rfl, rfl, rfl, rfl, rfl, rfl, rfl, rfl⟩
  have run : Run (step 5) Ready (ampoolInit 0x3A7C51E9) _ s :=
    (((Run.nil.snoc fired₁ ⟨nofun, fun _ _ => rfl⟩).snoc
      fired₂ ⟨fun q same => Option.some.inj same ▸ live₁, fun a same =>
        Option.some.inj same ▸ fresh₂⟩).snoc
      fired₃ ⟨nofun, fun a same => Option.some.inj same ▸ fresh₃⟩).snoc fired₄ live₃
  obtain ⟨forested, -, allocates, frees, seen, diag, right⟩ := ampool_hierarchy (by decide) run
  obtain ⟨s₁, added, adds⟩ := allocates (some 2) true "fourth" 4
    ⟨fun q same => Option.some.inj same ▸ second, fun a same => Option.some.inj same ▸ fresh₄⟩
  obtain ⟨s₂, removed, descendants⟩ := frees 1 (by rw [first]; rfl)
  cases diagnosed.symm.trans diag
  exact ⟨s, s₁, s₂, run, forested, first, freed, ⟨_, diag, right, rfl⟩, added, adds,
    removed, descendants⟩

theorem ampoolInternalTerm_spec {magic : UInt32} {rounds : ℕ} {ops : List (Op P)}
    (enough : ops.length < rounds) (run : Run (step rounds) Ready (ampoolInit magic) ops s) :
      ∃ s' gone, ampoolInternalTerm rounds s = .ok s' ∧
      gone.Nodup ∧ (∀ a, a ∈ gone ↔ (s.pools a).isSome = true) ∧ Freed s s' gone ∧
      Forested s' .nil := by
  obtain ⟨F, forested, few⟩ := run_forested enough run
  obtain ⟨s', ran, freed, ring, _⟩ := freesAll F s none .rootPools rounds rounds forested.holds
    forested.ring rfl (fun _ _ => nofun) forested.nodup (by omega) (by omega)
  have gone (a : P) : a ∈ F.post ↔ (s.pools a).isSome = true := by
    rw [(Forest.post_perm F).mem_iff, forested.live]
  refine ⟨s', F.post, ran, (Forest.post_perm F).nodup_iff.mpr forested.nodup, gone, freed,
    trivial, List.nodup_nil, ring, fun a => ?_⟩
  rw [freed.pools]
  by_cases member : a ∈ F.post
  · simp [member, Forest.nodes]
  · rw [gone] at member
    simp [gone, member, Forest.nodes]

end Sequences

end Libam.Pool.Hierarchy
