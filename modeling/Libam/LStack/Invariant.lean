import Libam.LStack.Model
import Mathlib.Data.Nat.ModEq

/-! The linked stack is last-in first-out in the order of its swaps, whatever nodes are reused. -/

namespace Libam.LStack

open Libam.Interleaving Libam.Chain

variable {N : Type}

/-- The node that a running call has in its hands: not yet pushed, or already popped. -/
def AmlstackPc.held : AmlstackPc N → Option N
  | .pushRead node => some node
  | .pushLink node _ => some node
  | .pushSwap node _ => some node
  | .popClear head => some head
  | .popDec head => some head
  | .popUnlock out => out
  | .popDone out => out
  | _ => none

def AmlstackPc.popped : AmlstackPc N → Option N
  | .popClear head => some head
  | .popDec head => some head
  | .popUnlock out => out
  | .popDone out => out
  | _ => none

theorem AmlstackPc.held_of_popped {pc : AmlstackPc N} {head : N} (popped : pc.popped = some head) :
    pc.held = some head := by
  cases pc with
  | popClear => exact popped
  | popDec => exact popped
  | popUnlock => exact popped
  | popDone => exact popped
  | _ => cases popped

def AmlstackPc.locked : AmlstackPc N → Bool
  | .popRead => true
  | .popNext _ => true
  | .popSwap _ _ => true
  | .popClear _ => true
  | .popDec _ => true
  | .popUnlock _ => true
  | .aborted => true
  | _ => false

def AmlstackPc.incrementing : AmlstackPc N → Bool
  | .pushInc _ => true
  | _ => false

def AmlstackPc.decrementing : AmlstackPc N → Bool
  | .popClear _ => true
  | .popDec _ => true
  | _ => false

/-- What a call knows of the stack: its own link while it pushes, the link of its
top while it pops. -/
def AmlstackPc.Knows (next : N → Option N) (nodes : List N) : AmlstackPc N → Prop
  | .pushSwap node head => next node = head
  | .popNext head => head ∈ nodes
  | .popSwap head link => head ∈ nodes ∧ next head = link
  | _ => True

section Lock

variable [DecidableEq N] {g g' : Shared N} {pc pc' : AmlstackPc N} {a : Act N}

theorem move_lock (moved : Move g pc a g' pc') (held : pc.locked = true → g.stk.consumerLock = 1) :
    g'.stk.consumerLock + (if pc.locked then 1 else 0) =
      g.stk.consumerLock + (if pc'.locked then 1 else 0) := by
  cases moved <;> simp_all [AmlstackPc.locked]

theorem move_lock_le (moved : Move g pc a g' pc') (single : g.stk.consumerLock ≤ 1) :
    g'.stk.consumerLock ≤ 1 := by
  cases moved <;> simp_all

theorem move_not_aborted (moved : Move g pc a g' .aborted)
    (held : pc.locked = true → g.stk.consumerLock = 1) : pc = .aborted := by
  cases moved with
  | popAbort out free => exact absurd (held rfl) free

variable {Tid : Type} [Fintype Tid] [DecidableEq Tid]

structure Locked (c : Config Tid (Shared N) (AmlstackPc N)) : Prop where
  single : c.shared.stk.consumerLock ≤ 1
  holders : c.shared.stk.consumerLock = count (fun l => l.locked) c.pc

omit [DecidableEq N] [DecidableEq Tid] in
theorem Locked.held {c : Config Tid (Shared N) (AmlstackPc N)} (sound : Locked c) {t : Tid}
    (inside : (c.pc t).locked = true) : c.shared.stk.consumerLock = 1 := by
  have some_holder : 0 < count (fun l : AmlstackPc N => l.locked) c.pc :=
    count_pos.mpr ⟨t, inside⟩
  have single := sound.single
  have holders := sound.holders
  omega

omit [DecidableEq N] [DecidableEq Tid] in
theorem Locked.alone {c : Config Tid (Shared N) (AmlstackPc N)} (sound : Locked c) {t u : Tid}
    (first : (c.pc t).locked = true) (second : (c.pc u).locked = true) : t = u := by
  have few : count (fun l : AmlstackPc N => l.locked) c.pc ≤ 1 := sound.holders ▸ sound.single
  exact count_le_one few first second

theorem locked_step (c : Config Tid (Shared N) (AmlstackPc N)) (act : Tid × Act N)
    (c' : Config Tid (Shared N) (AmlstackPc N)) (sound : Locked c)
    (fired : c.step next act = some c') : Locked c' := by
  obtain ⟨g, l, accessed, rfl⟩ := Config.step_eq_some.mp fired
  have moved := next_move accessed
  refine ⟨move_lock_le moved sound.single, ?_⟩
  have change := move_lock moved sound.held
  have counted := count_update (fun l : AmlstackPc N => l.locked) c.pc act.1 l
  have before := sound.holders
  simp only
  omega

theorem locked_not_aborted (c : Config Tid (Shared N) (AmlstackPc N)) (act : Tid × Act N)
    (c' : Config Tid (Shared N) (AmlstackPc N)) (sound : Locked c)
    (quiet : ∀ t, c.pc t ≠ .aborted) (fired : c.step next act = some c') (t : Tid) :
    c'.pc t ≠ .aborted := by
  obtain ⟨g, l, accessed, rfl⟩ := Config.step_eq_some.mp fired
  have moved := next_move accessed
  refine (Function.forall_update_iff c.pc fun _ l => l ≠ .aborted).mpr ⟨?_, fun u _ => quiet u⟩ t
  intro aborted
  exact quiet act.1 (move_not_aborted (aborted ▸ moved) sound.held)

end Lock

section Stack

variable [DecidableEq N] {Tid : Type}

/-- A node may be pushed when it is neither on the stack nor in the hands of a running call. -/
def Pushable (c : Config Tid (Shared N) (AmlstackPc N)) (act : Tid × Act N)
    (_ : Config Tid (Shared N) (AmlstackPc N)) : Prop :=
  match act.2 with
  | .push node => node ∉ (lifo c.shared.log).getD [] ∧ ∀ t, (c.pc t).held ≠ some node
  | _ => True

instance [Fintype Tid] (c : Config Tid (Shared N) (AmlstackPc N)) (act : Tid × Act N)
    (c' : Config Tid (Shared N) (AmlstackPc N)) : Decidable (Pushable c act c') :=
  match act with
  | (_, .push node) => inferInstanceAs
      (Decidable (node ∉ (lifo c.shared.log).getD [] ∧ ∀ t, (c.pc t).held ≠ some node))
  | (_, .pop) => inferInstanceAs (Decidable True)
  | (_, .tick) => inferInstanceAs (Decidable True)

/-- The chain from `head` is what the record leaves, and apart from the nodes in the
hands of calls. -/
structure Stacked (c : Config Tid (Shared N) (AmlstackPc N)) (nodes : List N) : Prop where
  recorded : lifo c.shared.log = some nodes
  linked : Linked c.shared.next c.shared.stk.head nodes
  distinct : nodes.Nodup
  apart : ∀ t node, (c.pc t).held = some node → node ∉ nodes
  owned : ∀ t u node, (c.pc t).held = some node → (c.pc u).held = some node → t = u
  known : ∀ t, (c.pc t).Knows c.shared.next nodes

variable [DecidableEq Tid]

theorem stacked_update {c : Config Tid (Shared N) (AmlstackPc N)} {nodes nodes' : List N}
    (stacked : Stacked c nodes) {t : Tid} {g : Shared N} {l : AmlstackPc N}
    (recorded : lifo g.log = some nodes') (linked : Linked g.next g.stk.head nodes')
    (distinct : nodes'.Nodup)
    (others : ∀ u, u ≠ t → (∀ node, (c.pc u).held = some node → node ∉ nodes') ∧
      (c.pc u).Knows g.next nodes')
    (own : ∀ node, l.held = some node →
      node ∉ nodes' ∧ ∀ u, u ≠ t → (c.pc u).held ≠ some node)
    (knows : l.Knows g.next nodes') :
    Stacked ⟨g, Function.update c.pc t l⟩ nodes' := by
  refine ⟨recorded, linked, distinct, ?_, ?_, ?_⟩
  · refine (Function.forall_update_iff c.pc fun _ (l : AmlstackPc N) => ∀ node, l.held = some node →
      node ∉ nodes').mpr ?_
    exact ⟨fun node held => (own node held).1, fun u other => (others u other).1⟩
  · refine alone_update (fun (l : AmlstackPc N) node => l.held = some node) stacked.owned ?_
    exact fun node held => (own node held).2
  · refine (Function.forall_update_iff c.pc fun _ (l : AmlstackPc N) => l.Knows g.next nodes').mpr
      ?_
    exact ⟨knows, fun u other => (others u other).2⟩

theorem stacked_quiet {c : Config Tid (Shared N) (AmlstackPc N)} {nodes : List N}
    (stacked : Stacked c nodes) {t : Tid} {l : AmlstackPc N} (size : UInt64) (consumerLock : ℕ)
    (own : ∀ node, l.held = some node → node ∉ nodes ∧ ∀ u, u ≠ t → (c.pc u).held ≠ some node)
    (knows : l.Knows c.shared.next nodes) :
    Stacked ⟨{ c.shared with stk := ⟨size, consumerLock, c.shared.stk.head⟩ },
      Function.update c.pc t l⟩ nodes :=
  stacked_update stacked stacked.recorded stacked.linked stacked.distinct
    (fun u _ => ⟨stacked.apart u, stacked.known u⟩) own knows

omit [DecidableEq Tid] in
theorem Stacked.keep {c : Config Tid (Shared N) (AmlstackPc N)} {nodes : List N}
    (stacked : Stacked c nodes) {t : Tid} {l : AmlstackPc N} (same : l.held = (c.pc t).held) :
    ∀ node, l.held = some node → node ∉ nodes ∧ ∀ u, u ≠ t → (c.pc u).held ≠ some node :=
  fun node held => ⟨stacked.apart t node (same ▸ held), fun u other theirs =>
    other (stacked.owned u t node theirs (same ▸ held))⟩

omit [DecidableEq Tid] in
/-- What the others know survives a change of the link of a node that is not theirs. -/
theorem knows_update {c : Config Tid (Shared N) (AmlstackPc N)} {nodes : List N}
    (stacked : Stacked c nodes) {t u : Tid} {node : N} (link : Option N)
    (held : (c.pc t).held = some node) (other : u ≠ t) :
    (c.pc u).Knows (Function.update c.shared.next node link) nodes := by
  have known := stacked.known u
  have theirs : (c.pc u).held ≠ some node := fun theirs =>
    other (stacked.owned u t node theirs held)
  have outside := stacked.apart t node held
  cases point : c.pc u with
  | pushSwap own head =>
      rw [point] at known theirs
      have distinct : own ≠ node := fun same => theirs (congrArg some same)
      simpa [AmlstackPc.Knows, Function.update_of_ne distinct] using known
  | popSwap head link' =>
      rw [point] at known
      have distinct : head ≠ node := fun same => outside (same ▸ known.1)
      simpa [AmlstackPc.Knows, Function.update_of_ne distinct] using known
  | popNext head =>
      rw [point] at known
      exact known
  | _ => trivial

theorem stacked_push {c : Config Tid (Shared N) (AmlstackPc N)} {nodes : List N}
    (stacked : Stacked c nodes) {t : Tid} {node : N}
    (ready : c.pc t = .pushSwap node c.shared.stk.head) :
    Stacked ⟨{ c.shared with
        stk := { c.shared.stk with head := some node }, log := .push node :: c.shared.log },
      Function.update c.pc t (.pushInc node)⟩ (node :: nodes) := by
  have held : (c.pc t).held = some node := by rw [ready]; rfl
  have linked : c.shared.next node = c.shared.stk.head := by
    have known := stacked.known t
    rwa [ready] at known
  refine stacked_update stacked (lifo_push.mpr ⟨nodes, stacked.recorded, rfl⟩)
    ⟨rfl, linked ▸ stacked.linked⟩
    (List.nodup_cons.mpr ⟨stacked.apart t node held, stacked.distinct⟩) ?_
    (by simp [AmlstackPc.held])
    trivial
  intro u other
  constructor
  · intro mine theirs member
    rcases List.mem_cons.mp member with rfl | inside
    · exact other (stacked.owned u t _ theirs held)
    · exact stacked.apart u mine theirs inside
  · have known := stacked.known u
    cases point : c.pc u with
    | pushSwap own head => rwa [point] at known
    | popNext head =>
        rw [point] at known
        exact List.mem_cons_of_mem _ known
    | popSwap head link =>
        rw [point] at known
        exact ⟨List.mem_cons_of_mem _ known.1, known.2⟩
    | _ => trivial

theorem stacked_pop [Fintype Tid] {c : Config Tid (Shared N) (AmlstackPc N)} {nodes : List N}
    (stacked : Stacked c nodes) (sound : Locked c) {t : Tid} {head : N} {link : Option N}
    (ready : c.pc t = .popSwap head link) (top : c.shared.stk.head = some head) :
    ∃ rest, nodes = head :: rest ∧
      Stacked ⟨{ c.shared with
          stk := { c.shared.stk with head := link }, log := .pop head :: c.shared.log },
        Function.update c.pc t (.popClear head)⟩ rest := by
  have known := stacked.known t
  have linked := stacked.linked
  rw [ready] at known
  rw [top] at linked
  obtain ⟨rest, rfl, below⟩ := linked_some linked
  have distinct := List.nodup_cons.mp stacked.distinct
  refine ⟨rest, rfl, stacked_update stacked (lifo_pop.mpr stacked.recorded) ?_ distinct.2 ?_ ?_
    trivial⟩
  · exact known.2 ▸ below
  · intro u other
    refine ⟨fun node theirs member =>
      stacked.apart u node theirs (List.mem_cons_of_mem _ member), ?_⟩
    -- No other call is between its read of the top and its swap: the lock is taken.
    have outside : (c.pc u).locked = false := by
      by_contra inside
      exact other (sound.alone (by simpa using inside) (by rw [ready]; rfl))
    have known := stacked.known u
    cases point : c.pc u with
    | pushSwap own head => rwa [point] at known
    | popNext head => rw [point] at outside; cases outside
    | popSwap head link => rw [point] at outside; cases outside
    | _ => trivial
  · intro node same
    cases same
    exact ⟨distinct.1, fun u _ theirs => stacked.apart u head theirs (List.mem_cons_self ..)⟩

theorem stacked_link {c : Config Tid (Shared N) (AmlstackPc N)} {nodes : List N}
    (stacked : Stacked c nodes) {t : Tid} {node : N} {l : AmlstackPc N} (link : Option N)
    (held : (c.pc t).held = some node) (same : l.held = some node)
    (knows : l.Knows (Function.update c.shared.next node link) nodes) :
    Stacked ⟨{ c.shared with next := Function.update c.shared.next node link },
      Function.update c.pc t l⟩ nodes :=
  stacked_update stacked stacked.recorded
    (linked_update link stacked.linked (stacked.apart t node held)) stacked.distinct
    (fun u other => ⟨stacked.apart u, knows_update stacked link held other⟩)
    (stacked.keep (same.trans held.symm)) knows

def Sized (g g' : Shared N) (pc pc' : AmlstackPc N) (nodes nodes' : List N) : Prop :=
  g'.stk.size + .ofNat nodes.length + (if pc'.incrementing then 1 else 0) +
      (if pc.decrementing then 1 else 0) =
    g.stk.size + .ofNat nodes'.length + (if pc.incrementing then 1 else 0) +
      (if pc'.decrementing then 1 else 0)

theorem stacked_step [Fintype Tid] {c : Config Tid (Shared N) (AmlstackPc N)} {nodes : List N}
    {t : Tid} {a : Act N} {g : Shared N} {l : AmlstackPc N} (stacked : Stacked c nodes)
    (sound : Locked c) (moved : Move c.shared (c.pc t) a g l)
    (pushable : ∀ node, a = .push node → node ∉ nodes ∧ ∀ u, (c.pc u).held ≠ some node) :
    ∃ nodes', Stacked ⟨g, Function.update c.pc t l⟩ nodes' ∧
      Sized c.shared g (c.pc t) l nodes nodes' := by
  have known := stacked.known t
  have keep := stacked.keep (t := t) (l := l)
  generalize point : c.pc t = pc at moved
  rw [point] at known keep
  cases moved with
  | pushCall node =>
      refine ⟨nodes, stacked_quiet stacked _ _ ?_ trivial, rfl⟩
      rintro _ ⟨⟩
      exact ⟨(pushable node rfl).1, fun u _ => (pushable node rfl).2 u⟩
  | pushRead node => exact ⟨nodes, stacked_quiet stacked _ _ (keep rfl) trivial, rfl⟩
  | pushLink node head =>
      have held : (c.pc t).held = some node := point ▸ rfl
      exact ⟨nodes, stacked_link stacked head held rfl (Function.update_self ..), rfl⟩
  | pushSwap node =>
      refine ⟨node :: nodes, stacked_push stacked point, ?_⟩
      simp [Sized, AmlstackPc.incrementing, AmlstackPc.decrementing]
      grind
  | pushRetry node head stale => exact ⟨nodes, stacked_quiet stacked _ _ (keep rfl) trivial, rfl⟩
  | pushInc node =>
      refine ⟨nodes, stacked_quiet stacked _ _ (by rintro _ ⟨⟩) trivial, ?_⟩
      simp only [Sized, AmlstackPc.incrementing, AmlstackPc.decrementing]
      grind
  | pushReturn node => exact ⟨nodes, stacked_quiet stacked _ _ (by rintro _ ⟨⟩) trivial, rfl⟩
  | popCall => exact ⟨nodes, stacked_quiet stacked _ _ (by rintro _ ⟨⟩) trivial, rfl⟩
  | popLock free => exact ⟨nodes, stacked_quiet stacked _ _ (by rintro _ ⟨⟩) trivial, rfl⟩
  | popSpin held => exact ⟨nodes, stacked_quiet stacked _ _ (by rintro _ ⟨⟩) trivial, rfl⟩
  | popEmpty empty => exact ⟨nodes, stacked_quiet stacked _ _ (by rintro _ ⟨⟩) trivial, rfl⟩
  | popRead head top =>
      obtain ⟨rest, rfl, _⟩ := linked_some (top ▸ stacked.linked)
      exact ⟨_, stacked_quiet stacked _ _ (by rintro _ ⟨⟩) (List.mem_cons_self ..), rfl⟩
  | popNext head => exact ⟨nodes, stacked_quiet stacked _ _ (by rintro _ ⟨⟩) ⟨known, rfl⟩, rfl⟩
  | popSwap head link top =>
      obtain ⟨rest, rfl, popped⟩ := stacked_pop stacked sound point top
      refine ⟨rest, popped, ?_⟩
      simp [Sized, AmlstackPc.incrementing, AmlstackPc.decrementing]
      grind
  | popRetry head link stale =>
      exact ⟨nodes, stacked_quiet stacked _ _ (by rintro _ ⟨⟩) trivial, rfl⟩
  | popClear head =>
      have held : (c.pc t).held = some head := point ▸ rfl
      exact ⟨nodes, stacked_link stacked none held rfl trivial, rfl⟩
  | popDec head =>
      refine ⟨nodes, stacked_quiet stacked _ _ (keep rfl) trivial, ?_⟩
      simp only [Sized, AmlstackPc.incrementing, AmlstackPc.decrementing]
      grind
  | popUnlock out held => exact ⟨nodes, stacked_quiet stacked _ _ (keep rfl) trivial, rfl⟩
  | popAbort out free => exact ⟨nodes, stacked_quiet stacked _ _ (by rintro _ ⟨⟩) trivial, rfl⟩
  | popReturn out => exact ⟨nodes, stacked_quiet stacked _ _ (by rintro _ ⟨⟩) trivial, rfl⟩

def PoppedLast (c : Config Tid (Shared N) (AmlstackPc N)) : Prop :=
  ∀ t head, (c.pc t).popped = some head → lastSwap c.shared.log head = some (.pop head)

theorem poppedLast_step {c : Config Tid (Shared N) (AmlstackPc N)} {nodes : List N} {t : Tid}
    {a : Act N} {g : Shared N} {l : AmlstackPc N} (stacked : Stacked c nodes) (last : PoppedLast c)
    (moved : Move c.shared (c.pc t) a g l) : PoppedLast ⟨g, Function.update c.pc t l⟩ := by
  have quiet (same : g.log = c.shared.log)
      (own : ∀ head, l.popped = some head → (c.pc t).popped = some head) :
      PoppedLast ⟨g, Function.update c.pc t l⟩ := by
    refine (Function.forall_update_iff c.pc fun _ (l : AmlstackPc N) => ∀ head,
      l.popped = some head →
      lastSwap g.log head = some (.pop head)).mpr ⟨?_, ?_⟩ <;> rw [same]
    · exact fun head popped => last t head (own head popped)
    · exact fun u _ => last u
  -- A swap of a node that another call has popped would find it on the stack, or in two hands.
  have swapped (swap : Swap N) (log : g.log = swap :: c.shared.log)
      (own : ∀ head, l.popped = some head → swap = .pop head)
      (apart : ∀ u head, u ≠ t → (c.pc u).held = some head → swap.node ≠ head) :
      PoppedLast ⟨g, Function.update c.pc t l⟩ := by
    refine (Function.forall_update_iff c.pc fun _ (l : AmlstackPc N) => ∀ head,
      l.popped = some head →
      lastSwap g.log head = some (.pop head)).mpr ⟨?_, ?_⟩ <;> rw [log]
    · intro head popped
      rw [own head popped]
      exact lastSwap_self (.pop head) _
    · intro u other head popped
      rw [lastSwap_other (apart u head other (AmlstackPc.held_of_popped popped))]
      exact last u head popped
  generalize point : c.pc t = pc at moved
  rw [point] at quiet
  cases moved with
  | pushSwap node =>
      refine swapped (.push node) rfl (fun _ popped => by cases popped)
        fun u head other held same => ?_
      exact other (stacked.owned u t head held (by rw [point]; exact congrArg some same))
  | popSwap top link atTop =>
      refine swapped (.pop top) rfl (fun _ popped => by cases popped; rfl)
        fun u head _ held same => ?_
      obtain ⟨rest, rfl, _⟩ := linked_some (atTop ▸ stacked.linked)
      exact stacked.apart u head held (same ▸ List.mem_cons_self)
  | _ => exact quiet rfl (by simp [AmlstackPc.popped])

end Stack

section Runs

variable [DecidableEq N] {Tid : Type} [Fintype Tid] [DecidableEq Tid]

/-- The chain, the size and the lock agree with the calls. -/
structure Sound (c : Config Tid (Shared N) (AmlstackPc N)) : Prop where
  locked : Locked c
  live : ∀ t, c.pc t ≠ .aborted
  stacked : ∃ nodes, Stacked c nodes ∧
    c.shared.stk.size + .ofNat (count (fun l => l.incrementing) c.pc) =
      .ofNat nodes.length + .ofNat (count (fun l => l.decrementing) c.pc)

omit [DecidableEq Tid] in
theorem sound_start (stk : Amlstack N) (links : N → Option N) (unlocked : stk.consumerLock = 0) :
    Sound (start Tid stk links) := by
  have none (p : AmlstackPc N → Bool) (idle : p .idle = false) :
      count (fun l => p l) (fun _ : Tid => AmlstackPc.idle) = 0 :=
    count_eq_zero.mpr fun _ => by simp [idle]
  have holders := none (·.locked) rfl
  refine ⟨⟨by
      simp [start, amlstackInit, unlocked], by simp [start, amlstackInit, unlocked, holders]⟩,
    fun t => by simp [start], [], ?_, ?_⟩
  · exact ⟨rfl, rfl, List.nodup_nil, fun _ _ held => (by cases held),
      fun _ _ _ held => (by cases held), fun _ => trivial⟩
  · rw [start, none (·.incrementing) rfl, none (·.decrementing) rfl]
    rfl

theorem sound_step (c : Config Tid (Shared N) (AmlstackPc N)) (act : Tid × Act N)
    (c' : Config Tid (Shared N) (AmlstackPc N)) (sound : Sound c)
    (fired : c.step next act = some c') (pushable : Pushable c act c') : Sound c' := by
  obtain ⟨locked, live, nodes, stacked, sized⟩ := sound
  refine ⟨locked_step c act c' locked fired, locked_not_aborted c act c' locked live fired, ?_⟩
  obtain ⟨g, l, accessed, rfl⟩ := Config.step_eq_some.mp fired
  have fresh : ∀ node, act.2 = .push node → node ∉ nodes ∧ ∀ u, (c.pc u).held ≠ some node := by
    intro node push
    simpa [Pushable, push, stacked.recorded] using pushable
  obtain ⟨nodes', after, change⟩ := stacked_step stacked locked (next_move accessed) fresh
  refine ⟨nodes', after, ?_⟩
  have incrementing := count_update (fun l : AmlstackPc N => l.incrementing) c.pc act.1 l
  have decrementing := count_update (fun l : AmlstackPc N => l.decrementing) c.pc act.1 l
  replace incrementing := congrArg UInt64.ofNat incrementing
  replace decrementing := congrArg UInt64.ofNat decrementing
  simp only [UInt64.ofNat_add, apply_ite UInt64.ofNat] at incrementing decrementing
  simp only [Sized] at change
  simp only
  grind

/-- The chain holds what the swaps leave, last in first out, and the node that a pop has in its
hands is the one that its swap took from the top. -/
theorem amlstack_lifo {stk : Amlstack N} (unlocked : stk.consumerLock = 0) (links : N → Option N)
    {actions : List (Tid × Act N)} {c : Config Tid (Shared N) (AmlstackPc N)}
    (run : Run (Config.step next) Pushable (start Tid stk links) actions c) :
    (∃ nodes, lifo c.shared.log = some nodes ∧
      Linked c.shared.next c.shared.stk.head nodes ∧ nodes.Nodup ∧
      (∀ node, node ∈ nodes ↔
        c.shared.log.count (.pop node) < c.shared.log.count (.push node)) ∧
      c.shared.stk.size + .ofNat (count (fun l => l.incrementing) c.pc) =
        .ofNat nodes.length + .ofNat (count (fun l => l.decrementing) c.pc)) ∧
    (∀ t head, (c.pc t).popped = some head → lastSwap c.shared.log head = some (.pop head)) ∧
    ∀ t, c.pc t ≠ .aborted := by
  have sound : Sound c ∧ PoppedLast c := by
    refine run.invariant (fun c => Sound c ∧ PoppedLast c)
      ⟨sound_start stk links unlocked, nofun⟩ ?_
    intro c act c' ⟨sound, last⟩ fired pushable
    refine ⟨sound_step c act c' sound fired pushable, ?_⟩
    obtain ⟨g, l, accessed, rfl⟩ := Config.step_eq_some.mp fired
    obtain ⟨-, -, nodes, stacked, -⟩ := sound
    exact poppedLast_step stacked last (next_move accessed)
  obtain ⟨⟨_, live, nodes, stacked, sized⟩, last⟩ := sound
  exact ⟨⟨nodes, stacked.recorded, stacked.linked, stacked.distinct, mem_lifo stacked.recorded,
    sized⟩, last, live⟩

/-- A pop reads the top and its link, a push changes the top under it, and the node popped then is
pushed again. -/
theorem amlstack_lifo_sample : ∃ c c' : Config (Fin 2) (Shared ℕ) (AmlstackPc ℕ),
    Run (Config.step next) Pushable (start (Fin 2) (⟨0, 0, none⟩ : Amlstack ℕ) fun _ => none)
      [(0, .push 1), (0, .tick), (0, .tick), (0, .tick), (0, .tick), (0, .tick), (0, .pop),
        (0, .tick), (0, .tick), (0, .tick), (1, .push 2), (1, .tick), (1, .tick), (1, .tick),
        (0, .tick), (0, .tick), (0, .tick), (0, .tick), (0, .tick), (0, .tick), (1, .tick),
        (0, .tick)] c ∧
      c.pc 0 = .popDone (some 2) ∧ c.shared.log = [.pop 2, .push 2, .push 1] ∧
      lastSwap c.shared.log 2 = some (.pop 2) ∧
    Run (Config.step next) Pushable c
      [(0, .tick), (1, .tick), (1, .push 2), (1, .tick), (1, .tick), (1, .tick)] c' ∧
      lifo c'.shared.log = some [2, 1] ∧ c'.pc 0 ≠ .aborted := by
  have checks (c : Config (Fin 2) (Shared ℕ) (AmlstackPc ℕ)) (act : Fin 2 × Act ℕ)
      (c' : Config (Fin 2) (Shared ℕ) (AmlstackPc ℕ))
      (checked : decide (Pushable c act c') = true) :
      Pushable c act c' := of_decide_eq_true checked
  have first : Run (Config.step next) Pushable
      (start (Fin 2) (⟨0, 0, none⟩ : Amlstack ℕ) fun _ => none)
      ([(0, .push 1), (0, .tick), (0, .tick), (0, .tick), (0, .tick), (0, .tick), (0, .pop),
        (0, .tick), (0, .tick), (0, .tick), (1, .push 2), (1, .tick), (1, .tick), (1, .tick),
        (0, .tick), (0, .tick), (0, .tick), (0, .tick), (0, .tick), (0, .tick), (1, .tick),
        (0, .tick)]) _ :=
    run_of_runs _ checks rfl (by decide)
  have whole : Run (Config.step next) Pushable
      (start (Fin 2) (⟨0, 0, none⟩ : Amlstack ℕ) fun _ => none)
      (_ ++ [(0, .tick), (1, .tick), (1, .push 2), (1, .tick), (1, .tick), (1, .tick)]) _ :=
    Run.extend _ checks first rfl (by decide)
  exact ⟨_, _, first, rfl, rfl, (amlstack_lifo rfl _ first).2.1 0 2 rfl, run_of_runs _ checks rfl
    (by decide), rfl,
    (amlstack_lifo rfl _ whole).2.2 0⟩

end Runs

end Libam.LStack
