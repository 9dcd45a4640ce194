import Libam.Log.Registry
import Mathlib.Tactic.Tauto

/-! The lock that `amlog_sink_unregister` takes and releases. -/

namespace Libam.Log.Registry

open Libam.Lists Libam.Interleaving

variable {Tid Ptr : Type} {t u : Tid} {l l' : Loc Ptr} {a : Act Ptr}

section Properties

def Loc.target : Loc Ptr → Option Ptr
  | .outside => none
  | .choose sink => some sink
  | .readLock sink => some sink
  | .wrlock sink _ => some sink
  | .del sink _ => some sink
  | .readUnlock sink _ => some sink
  | .unlock sink _ _ => some sink
  | .free sink => some sink

def Loc.acquired : Loc Ptr → Option Side
  | .del _ acquired => some acquired
  | .readUnlock _ acquired => some acquired
  | .unlock _ acquired _ => some acquired
  | _ => none

def Loc.unlinked : Loc Ptr → Option Ptr
  | .readUnlock sink _ => some sink
  | .unlock sink _ _ => some sink
  | .free sink => some sink
  | _ => none

def OnList (g : Shared Tid Ptr) (side : Side) (sink : Ptr) : Prop :=
  ∃ nodes, Ring g.links (.anchor side) nodes ∧ .sink sink ∈ nodes

structure Start (c : Config Tid (Shared Tid Ptr) (Loc Ptr)) : Prop where
  shared : c.shared = .initial
  outside : ∀ t, c.pc t = .outside

def Distinct (c : Config Tid (Shared Tid Ptr) (Loc Ptr)) (act : Tid × Act Ptr)
    (_ : Config Tid (Shared Tid Ptr) (Loc Ptr)) : Prop :=
  ∀ sink, act.2 = .unregister (some sink) →
    (c.shared.sinks sink).isSome ∧ ∀ t, (c.pc t).target ≠ some sink

/-- A sink is unlinked under the lock of the list that it is on, and the lock that is released is
the one that was acquired. -/
structure Guarded (c : Config Tid (Shared Tid Ptr) (Loc Ptr)) (act : Tid × Act Ptr)
    (_ : Config Tid (Shared Tid Ptr) (Loc Ptr)) : Prop where
  held : ∀ sink acquired, c.pc act.1 = .del sink acquired →
    ∃ side, OnList c.shared side sink ∧ c.shared.writer side = some act.1
  same : ∀ sink acquired released, c.pc act.1 = .unlock sink acquired released → released = acquired

/-- A call reads the static variable when the last choice was made for a sink of the same
kind as its own. -/
def Steady (c : Config Tid (Shared Tid Ptr) (Loc Ptr)) (act : Tid × Act Ptr)
    (_ : Config Tid (Shared Tid Ptr) (Loc Ptr)) : Prop :=
  ∀ sink content, (c.pc act.1 = .readLock sink ∨ ∃ acquired,
    c.pc act.1 = .readUnlock sink acquired) →
    c.shared.sinks sink = some content → c.shared.lock = some content.side

end Properties

section Invariants

variable {c : Config Tid (Shared Tid Ptr) (Loc Ptr)} {nodes : Side → List Ptr}

theorem target_of_unlinked {sink : Ptr} (gone : l.unlinked = some sink) : l.target = some sink := by
  cases l <;> first | exact gone | cases gone

/-- The two lists hold the sinks of their kind that no call has unlinked, and the calls have
registered sinks of their own. -/
structure Listed (c : Config Tid (Shared Tid Ptr) (Loc Ptr)) (nodes : Side → List Ptr) : Prop where
  ring : ∀ side, Ring c.shared.links (.anchor side) ((nodes side).map .sink)
  members : ∀ side sink, sink ∈ nodes side ↔
    (∃ content, c.shared.sinks sink = some content ∧ content.side = side) ∧ ∀ t,
    (c.pc t).unlinked ≠ some sink
  distinct : ∀ t u sink, (c.pc t).target = some sink → (c.pc u).target = some sink → t = u
  live : ∀ t sink, (c.pc t).target = some sink → (c.shared.sinks sink).isSome

def Held (c : Config Tid (Shared Tid Ptr) (Loc Ptr)) : Prop :=
  ∀ side t, c.shared.writer side = some t ↔ (c.pc t).acquired = some side

def Matched (c : Config Tid (Shared Tid Ptr) (Loc Ptr)) : Prop :=
  ∀ t sink side content, (c.pc t).unlinked = some sink → (c.pc t).acquired = some side →
    c.shared.sinks sink = some content → content.side = side

def Astray (g : Shared Tid Ptr) : Loc Ptr → Prop
  | .wrlock sink lock => ∃ content, g.sinks sink = some content ∧ content.side ≠ lock
  | .del sink acquired => ∃ content, g.sinks sink = some content ∧ content.side ≠ acquired
  | .unlock _ acquired released => released ≠ acquired
  | _ => False

theorem Listed.onList (listed : Listed c nodes) {side : Side} {sink : Ptr} :
    OnList c.shared side sink ↔ sink ∈ nodes side := by
  constructor
  · rintro ⟨others, ring, inside⟩
    rw [ring.unique (listed.ring side)] at inside
    simpa using inside
  · intro inside
    exact ⟨_, listed.ring side, List.mem_map_of_mem inside⟩

theorem Listed.waiting (listed : Listed c nodes) {sink : Ptr} {content : AmlogSink Ptr}
    (here : c.shared.sinks sink = some content) (own : (c.pc t).target = some sink)
    (waits : (c.pc t).unlinked = none) : sink ∈ nodes content.side := by
  refine (listed.members _ _).mpr ⟨⟨content, here, rfl⟩, fun u gone => ?_⟩
  cases listed.distinct t u sink own (target_of_unlinked gone)
  cases waits.symm.trans gone

theorem Listed.apart (listed : Listed c nodes) {side other : Side} (differ : side ≠ other)
    {sink : Ptr} (inside : sink ∈ nodes side) : sink ∉ nodes other := by
  intro inside'
  obtain ⟨⟨content, here, rfl⟩, _⟩ := (listed.members _ _).mp inside
  obtain ⟨⟨content', here', same⟩, _⟩ := (listed.members _ _).mp inside'
  cases here.symm.trans here'
  exact differ same

end Invariants

section Steps

variable {c : Config Tid (Shared Tid Ptr) (Loc Ptr)} {nodes : Side → List Ptr} {g : Shared Tid Ptr}

theorem Listed.add [DecidableEq Ptr] (listed : Listed c nodes) {side : Side} {sink : Ptr}
    {content : AmlogSink Ptr} {links : Links (Link Ptr)} (kind : content.side = side)
    (fresh : c.shared.sinks sink = none)
    (added : amlistAdd c.shared.links (.anchor side) (.sink sink) = some links) :
    Listed ⟨{ c.shared with
      links := links, sinks := Function.update c.shared.sinks sink (some content) }, c.pc⟩
      (Function.update nodes side (sink :: nodes side)) := by
  have unlisted (other : Side) : sink ∉ nodes other := fun inside => by
    obtain ⟨⟨_, here, _⟩, _⟩ := (listed.members other sink).mp inside
    cases fresh.symm.trans here
  have unused (t : Tid) : (c.pc t).target ≠ some sink := fun own => by
    have live := listed.live t sink own
    rw [fresh] at live
    cases live
  obtain ⟨_, added', ring, frame⟩ := ring_add (e := Link.sink sink) (listed.ring side)
    (by simpa using unlisted side)
  cases added.symm.trans added'
  refine ⟨fun other => ?_, fun other x => ?_, listed.distinct, fun t x own => ?_⟩
  · by_cases same : other = side
    · subst same
      rw [Function.update_self]
      exact ring
    · rw [Function.update_of_ne same]
      refine (listed.ring other).congr fun x inside => frame x ?_ ?_
      · rintro rfl
        exact unlisted other (by simpa using inside)
      · intro inside'
        rcases List.mem_cons.mp inside with rfl | listedX
        · simp [same] at inside'
        · obtain ⟨y, member, rfl⟩ := List.mem_map.mp listedX
          exact listed.apart same member (by simpa using inside')
  · by_cases new : x = sink
    · subst new
      have nobody (t : Tid) : (c.pc t).unlinked ≠ some x := fun gone =>
        unused t (target_of_unlinked gone)
      by_cases same : other = side
      · subst same
        simp [kind, nobody]
      · simp [same, unlisted other, kind, Ne.symm same]
    · have member : x ∈ Function.update nodes side (sink :: nodes side) other ↔
          x ∈ nodes other := by
        by_cases same : other = side
        · subst same
          simp [new]
        · rw [Function.update_of_ne same]
      simpa only [member, Function.update_of_ne new] using listed.members other x
  · have old : x ≠ sink := fun same => unused t (same ▸ own)
    simpa only [Function.update_of_ne old] using listed.live t x own

variable [DecidableEq Tid]

/-- A step that changes no list and no sink, and leaves a call where it is in this respect. -/
theorem Listed.keep (listed : Listed c nodes) (links : g.links = c.shared.links)
    (sinks : g.sinks = c.shared.sinks) (point : c.pc t = l) (target : l'.target = l.target)
    (unlinked : l'.unlinked = l.unlinked) : Listed ⟨g, Function.update c.pc t l'⟩ nodes := by
  have targets (u : Tid) : (Function.update c.pc t l' u).target = (c.pc u).target :=
    update_kept Loc.target (target.trans (congrArg Loc.target point.symm)) u
  have gone (u : Tid) : (Function.update c.pc t l' u).unlinked = (c.pc u).unlinked :=
    update_kept Loc.unlinked (unlinked.trans (congrArg Loc.unlinked point.symm)) u
  refine ⟨?_, ?_, ?_, ?_⟩
  · simpa only [links] using listed.ring
  · simpa only [sinks, gone] using listed.members
  · simpa only [targets] using listed.distinct
  · simpa only [targets, sinks] using listed.live

theorem Listed.unregister (listed : Listed c nodes) {sink : Ptr}
    (live : (c.shared.sinks sink).isSome) (unused : ∀ t, (c.pc t).target ≠ some sink)
    (outside : c.pc t = .outside) :
    Listed ⟨c.shared, Function.update c.pc t (.choose sink)⟩ nodes := by
  have target {u : Tid} {x : Ptr}
      (own : (Function.update c.pc t (.choose sink) u).target = some x) :
      u = t ∧ sink = x ∨ (c.pc u).target = some x := by
    by_cases self : u = t
    · rw [self, Function.update_self] at own
      exact .inl ⟨self, Option.some.inj own⟩
    · rw [Function.update_of_ne self] at own
      exact .inr own
  refine ⟨listed.ring, fun side x => ?_, ?_, fun u x own => ?_⟩
  · have gone (u : Tid) : (Function.update c.pc t (.choose sink) u).unlinked = (c.pc u).unlinked :=
      update_kept Loc.unlinked (by rw [outside]; rfl) u
    simpa only [gone] using listed.members side x
  · refine alone_update (fun (l : Loc Ptr) x => l.target = some x) listed.distinct
      fun x own u _ => ?_
    cases own
    exact unused u
  · rcases target own with ⟨_, rfl⟩ | before
    · exact live
    · exact listed.live u x before

variable [DecidableEq Ptr]

theorem Listed.del (listed : Listed c nodes) {sink : Ptr} {acquired : Side}
    {links : Links (Link Ptr)} (point : c.pc t = .del sink acquired)
    (deleted : amlistDel c.shared.links (.sink sink) = some links) :
    Listed ⟨{ c.shared with links := links }, Function.update c.pc t (.readUnlock sink acquired)⟩
      (fun side => (nodes side).filter (· ≠ sink)) := by
  have own : (c.pc t).target = some sink := congrArg Loc.target point
  obtain ⟨content, here⟩ := Option.isSome_iff_exists.mp (listed.live t sink own)
  have inside := listed.waiting here own (congrArg Loc.unlinked point)
  have targets (u : Tid) : (Function.update c.pc t (.readUnlock sink acquired) u).target =
      (c.pc u).target :=
    update_kept Loc.target (by rw [own]; rfl) u
  refine ⟨fun side => ?_, fun side x => ?_, by simpa only [targets] using listed.distinct,
    by simpa only [targets] using listed.live⟩
  · obtain ⟨before, after, split⟩ := List.append_of_mem inside
    have ring := listed.ring content.side
    rw [split, List.map_append, List.map_cons] at ring
    have whole : sink ∉ before ++ after := by
      have distinct := (List.perm_middle.nodup_iff.mp (List.nodup_cons.mp ring.distinct).2)
      intro again
      exact (List.nodup_cons.mp distinct).1 (by simpa using again)
    obtain ⟨_, deleted', ring'⟩ := ring_delete ring
    cases deleted.symm.trans deleted'
    by_cases same : side = content.side
    · subst same
      have rest : (nodes content.side).filter (· ≠ sink) = before ++ after := by
        rw [split, List.filter_append, List.filter_cons_of_neg (by simp), ← List.filter_append]
        exact List.filter_eq_self.mpr fun x member => by
          simpa using fun here : x = sink => whole (here ▸ member)
      rw [rest, List.map_append]
      exact ring'
    · have rest : (nodes side).filter (· ≠ sink) = nodes side :=
        List.filter_eq_self.mpr fun x member => by
          simpa using fun here : x = sink => listed.apart (Ne.symm same) inside (here ▸ member)
      rw [rest]
      refine (listed.ring side).congr fun x member => amlistDel_frame ring deleted fun touched => ?_
      have touched : x ∈ Link.anchor content.side :: (nodes content.side).map Link.sink := by
        rw [split]
        simp only [List.map_append, List.map_cons, List.mem_cons, List.mem_append] at touched ⊢
        tauto
      rcases List.mem_cons.mp member with rfl | listedX
      · simp [same] at touched
      · obtain ⟨y, memberY, rfl⟩ := List.mem_map.mp listedX
        exact listed.apart same memberY (by simpa using touched)
  · rw [List.mem_filter, listed.members side x]
    by_cases here : x = sink
    · subst here
      have gone : (Function.update c.pc t (.readUnlock x acquired) t).unlinked = some x := by
        rw [Function.update_self]
        rfl
      exact ⟨fun inside => absurd rfl (of_decide_eq_true inside.2), fun inside =>
        absurd gone (inside.2 t)⟩
    · have gone (u : Tid) :
          (Function.update c.pc t (.readUnlock sink acquired) u).unlinked = some x ↔
          (c.pc u).unlinked = some x := by
        by_cases self : u = t
        · rw [self, Function.update_self, point]
          simp [Loc.unlinked, Ne.symm here]
        · rw [Function.update_of_ne self]
      simp only [ne_eq, gone, here, not_false_eq_true, decide_true, and_true]

theorem Listed.free (listed : Listed c nodes) {sink : Ptr} (point : c.pc t = .free sink) :
    Listed ⟨{ c.shared with sinks := Function.update c.shared.sinks sink none },
      Function.update c.pc t .outside⟩
      nodes := by
  have own : (c.pc t).target = some sink := congrArg Loc.target point
  have gone : (c.pc t).unlinked = some sink := congrArg Loc.unlinked point
  have target {u : Tid} {x : Ptr} (own' : (Function.update c.pc t .outside u).target = some x) :
      u ≠ t ∧ (c.pc u).target = some x := by
    by_cases self : u = t
    · rw [self, Function.update_self] at own'
      cases own'
    · rw [Function.update_of_ne self] at own'
      exact ⟨self, own'⟩
  refine ⟨listed.ring, fun side x => ?_, fun u v x first second => ?_, fun u x first => ?_⟩
  · rw [listed.members side x]
    by_cases here : x = sink
    · subst here
      simp only [Function.update_self, reduceCtorEq, false_and, exists_false, iff_false]
      exact fun inside => inside.2 t gone
    · simp only [Function.update_of_ne here]
      refine and_congr_right fun _ => forall_congr' fun u => not_congr ?_
      by_cases self : u = t
      · rw [self, Function.update_self, gone]
        simp [Loc.unlinked, Ne.symm here]
      · rw [Function.update_of_ne self]
  · exact listed.distinct u v x (target first).2 (target second).2
  · obtain ⟨other, first⟩ := target first
    have kept : x ≠ sink := fun same => other (listed.distinct u t x first (same ▸ own))
    simpa only [Function.update_of_ne kept] using listed.live u x first

variable {c' : Config Tid (Shared Tid Ptr) (Loc Ptr)}

theorem Listed.step (listed : Listed c nodes) (fair : Distinct c (t, a) c')
    (moved : Move t c.shared (c.pc t) a g l') :
    ∃ nodes', Listed ⟨g, Function.update c.pc t l'⟩ nodes' := by
  generalize point : c.pc t = l at moved
  cases moved with
  | refused =>
      rw [← point, Function.update_eq_self]
      exact ⟨nodes, listed⟩
  | add _ _ side sink content links kind _ fresh added =>
      rw [← point, Function.update_eq_self]
      exact ⟨_, listed.add kind fresh added⟩
  | unregister sink =>
      obtain ⟨live, unused⟩ := fair sink rfl
      exact ⟨nodes, listed.unregister live unused point⟩
  | choose | readLock | wrlock | readUnlock => exact ⟨nodes, listed.keep rfl rfl point rfl rfl⟩
  | del _ _ _ deleted => exact ⟨_, listed.del point deleted⟩
  | unlock sink acquired released =>
      refine ⟨nodes, listed.keep ?_ ?_ point rfl rfl⟩
      · unfold Shared.release
        split <;> rfl
      · unfold Shared.release
        split <;> rfl
  | free => exact ⟨nodes, listed.free point⟩

omit [DecidableEq Tid] [DecidableEq Ptr] in
theorem Held.fresh (held : Held c) {side : Side} (free : c.shared.writer side = none) (u : Tid) :
    (c.pc u).acquired ≠ some side := by
  intro has
  cases free.symm.trans ((held side u).mpr has)

omit [DecidableEq Ptr] in
theorem Held.keep (held : Held c) (writer : g.writer = c.shared.writer)
    (acquired : l'.acquired = (c.pc t).acquired) : Held ⟨g, Function.update c.pc t l'⟩ := by
  intro side u
  have same : (Function.update c.pc t l' u).acquired = (c.pc u).acquired :=
    update_kept Loc.acquired acquired u
  simpa only [writer, same] using held side u

theorem Held.step (held : Held c) (guarded : Guarded c (t, a) c')
    (moved : Move t c.shared (c.pc t) a g l') : Held ⟨g, Function.update c.pc t l'⟩ := by
  generalize point : c.pc t = l at moved
  cases moved with
  | wrlock sink lock free =>
      intro side u
      have nobody := held.fresh free
      have before := held side u
      by_cases self : u = t <;> by_cases same : side = lock
      · subst self same
        simp [Loc.acquired]
      · subst self
        rw [point] at before
        simpa [same, Ne.symm same, Loc.acquired] using before
      · subst same
        simp [self, Ne.symm self, nobody u]
      · simpa [same, self] using before
  | unlock sink acquired released =>
      cases guarded.same sink acquired released point
      have own : c.shared.writer acquired = some t := (held acquired t).mpr
        (congrArg Loc.acquired point)
      rw [Shared.release, if_pos own]
      intro side u
      have before := held side u
      by_cases self : u = t <;> by_cases same : side = acquired
      · subst self same
        simp [Loc.acquired]
      · subst self
        rw [point] at before
        simpa [same, Ne.symm same, Loc.acquired] using before
      · subst same
        rw [own] at before
        simpa [self, Ne.symm self] using before
      · simpa [same, self] using before
  | _ => exact held.keep rfl (congrArg Loc.acquired point.symm :)

theorem Listed.kept (listed : Listed c nodes) (moved : Move t c.shared (c.pc t) a g l') {sink : Ptr}
    (own : (c.pc u).target = some sink) (still : u = t → l'.target = some sink) :
    g.sinks sink = c.shared.sinks sink := by
  generalize point : c.pc t = l at moved
  cases moved with
  | add _ _ side x content links kind _ fresh added =>
      refine Function.update_of_ne (fun same => ?_) _ _
      have live := listed.live u sink own
      rw [same, fresh] at live
      cases live
  | free x =>
      refine Function.update_of_ne (fun same => ?_) _ _
      have first : (c.pc t).target = some sink := by rw [point, same]; rfl
      cases still (listed.distinct u t sink own first)
  | unlock =>
      unfold Shared.release
      split <;> rfl
  | _ => rfl

theorem Matched.step (listed : Listed c nodes) (held : Held c) (matched : Matched c)
    (guarded : Guarded c (t, a) c') (moved : Move t c.shared (c.pc t) a g l') :
    Matched ⟨g, Function.update c.pc t l'⟩ := by
  intro u sink side content gone acquired here
  by_cases self : u = t
  · subst self
    simp only [Function.update_self] at gone acquired
    generalize point : c.pc u = l at moved
    cases moved with
    | del x side' links =>
        cases gone
        cases acquired
        obtain ⟨side', inside, writer⟩ := guarded.held _ _ point
        have taken := (held side' u).mp writer
        rw [point] at taken
        cases taken
        obtain ⟨⟨_, here', same⟩, _⟩ := (listed.members _ _).mp (listed.onList.mp inside)
        cases here.symm.trans here'
        exact same
    | readUnlock x side' released =>
        refine matched u sink side content ?_ ?_ here
        · rw [point]
          exact gone
        · rw [point]
          exact acquired
    | unlock => cases acquired
    | _ => cases gone
  · simp only [Function.update_of_ne self] at gone acquired
    have kept := listed.kept moved (target_of_unlinked gone) fun same => absurd same self
    exact matched u sink side content gone acquired (kept.symm.trans here)

omit [DecidableEq Tid] [DecidableEq Ptr] in
theorem Listed.guarded (listed : Listed c nodes) (held : Held c)
    (straight : ¬ Astray c.shared (c.pc t)) : Guarded c (t, a) c' := by
  refine ⟨fun sink acquired point => ?_, fun sink acquired released point => ?_⟩
  · rw [show c.pc t = .del sink acquired from point] at straight
    have own : (c.pc t).target = some sink := congrArg Loc.target point
    obtain ⟨content, here⟩ := Option.isSome_iff_exists.mp (listed.live t sink own)
    have right : content.side = acquired := by
      by_contra wrong
      exact straight ⟨content, here, wrong⟩
    refine ⟨acquired, listed.onList.mpr ?_, (held acquired t).mpr (congrArg Loc.acquired point)⟩
    rw [← right]
    exact listed.waiting here own (congrArg Loc.unlinked point)
  · rw [show c.pc t = .unlock sink acquired released from point] at straight
    exact not_not.mp straight

theorem Listed.astray_other (listed : Listed c nodes) (moved : Move t c.shared (c.pc t) a g l')
    (other : u ≠ t) : Astray g (c.pc u) ↔ Astray c.shared (c.pc u) := by
  have kept (sink : Ptr) (own : (c.pc u).target = some sink) : g.sinks sink = c.shared.sinks sink :=
    listed.kept moved own fun same => absurd same other
  generalize c.pc u = l at kept
  cases l with
  | wrlock sink lock => simp only [Astray, kept sink rfl]
  | del sink acquired => simp only [Astray, kept sink rfl]
  | _ => exact Iff.rfl

theorem Matched.astray_enters (matched : Matched c)
    (moved : Move t c.shared (c.pc t) a g l') (unsteady : ¬ Steady c (t, a) c') : Astray g l' := by
  unfold Steady at unsteady
  push Not at unsteady
  obtain ⟨sink, content, reads, here, wrong⟩ := unsteady
  rcases reads with point | ⟨acquired, point⟩
  · rw [show c.pc t = .readLock sink from point] at moved
    cases moved with
    | readLock _ lock read =>
        exact ⟨content, here, fun same => wrong (read.trans (congrArg some same.symm))⟩
  · have right := matched t sink acquired content (congrArg Loc.unlinked point)
        (congrArg Loc.acquired point) here
    rw [show c.pc t = .readUnlock sink acquired from point] at moved
    cases moved with
    | readUnlock _ _ released read =>
        exact fun same => wrong (read.trans (congrArg some (same.trans right.symm)))

/-- It is not seen to have gone astray before it unlinks its sink or releases a lock. -/
theorem Listed.astray_lasts (listed : Listed c nodes) (held : Held c)
    (guarded : Guarded c (t, a) c') (moved : Move t c.shared (c.pc t) a g l')
    (astray : Astray c.shared (c.pc t)) : Astray g l' := by
  generalize point : c.pc t = l at moved astray
  cases moved with
  | wrlock => exact astray
  | del sink acquired =>
      obtain ⟨content, here, wrong⟩ := astray
      obtain ⟨side, inside, writer⟩ := guarded.held sink acquired point
      have taken : acquired = side := by
        have own := (held side t).mp writer
        rw [point] at own
        exact Option.some.inj own
      obtain ⟨⟨_, here', same⟩, _⟩ := (listed.members _ _).mp (listed.onList.mp inside)
      cases here.symm.trans here'
      exact absurd (same.trans taken.symm) wrong
  | unlock sink acquired released => exact absurd (guarded.same sink acquired released point) astray
  | _ => exact astray.elim

theorem Matched.astray_origin (matched : Matched c) (moved : Move t c.shared (c.pc t) a g l')
    (steady : Steady c (t, a) c')
    (live : ∀ sink, (c.pc t).target = some sink → (c.shared.sinks sink).isSome)
    (astray : Astray g l') : Astray c.shared (c.pc t) := by
  generalize point : c.pc t = l at moved
  cases moved with
  | readLock sink lock read =>
      obtain ⟨content, here, wrong⟩ := astray
      have right := steady sink content (.inl point) here
      cases read.symm.trans right
      exact absurd rfl wrong
  | wrlock => exact astray
  | readUnlock sink acquired released read =>
      obtain ⟨content, here⟩ := Option.isSome_iff_exists.mp (live sink (congrArg Loc.target point))
      have right := steady sink content (.inr ⟨acquired, point⟩) here
      have same := matched t sink acquired content (congrArg Loc.unlinked point)
        (congrArg Loc.acquired point) here
      cases read.symm.trans right
      exact absurd same astray
  | _ => exact astray.elim

end Steps

section Runs

variable [DecidableEq Tid] [DecidableEq Ptr] {start c : Config Tid (Shared Tid Ptr) (Loc Ptr)}
  {acts : List (Tid × Act Ptr)}

omit [DecidableEq Tid] [DecidableEq Ptr] in
theorem Start.invariants (started : Start start) : Listed start (fun _ => []) ∧ Held start ∧
    Matched start := by
  obtain ⟨g, pc⟩ := start
  obtain ⟨rfl, outside⟩ := started
  refine ⟨⟨fun side => ⟨rfl, rfl, by simp⟩, fun side sink => ?_, fun t u sink own => ?_,
    fun t sink own => ?_⟩,
    fun side t => ?_, fun t sink side content gone => ?_⟩
  · simp [Shared.initial]
  · rw [outside t] at own
    cases own
  · rw [outside t] at own
    cases own
  · rw [outside t]
    simp [Shared.initial, Loc.acquired]
  · rw [outside t] at gone
    cases gone

theorem run_listed (started : Start start) (run : Run step Distinct start acts c) : ∃ nodes,
    Listed c nodes := by
  refine run.invariant (fun c => ∃ nodes, Listed c nodes)
    ⟨_, started.invariants.1⟩ fun c act c' listed fired fair => ?_
  obtain ⟨nodes, listed⟩ := listed
  obtain ⟨g, l', moved, rfl⟩ := step_cases fired
  exact listed.step fair moved

structure Outcome (start : Config Tid (Shared Tid Ptr) (Loc Ptr)) (acts : List (Tid × Act Ptr))
    (c : Config Tid (Shared Tid Ptr) (Loc Ptr)) : Prop where
  guarded : Run step Guarded start acts c →
    Held c ∧ Matched c ∧ (Run step Steady start acts c ∨ ∃ t, Astray c.shared (c.pc t))
  steady : Run step Steady start acts c →
    Run step Guarded start acts c ∧ ∀ t, ¬ Astray c.shared (c.pc t)

theorem run_outcome (started : Start start) (run : Run step Distinct start acts c) :
    Outcome start acts c := by
  induction run with
  | nil =>
      have outside (t : Tid) : ¬ Astray start.shared (start.pc t) := by
        rw [started.outside t]
        exact id
      exact ⟨fun _ => ⟨started.invariants.2.1, started.invariants.2.2, .inl .nil⟩, fun _ =>
        ⟨.nil, outside⟩⟩
  | @snoc prior c c' act earlier fired fair ih =>
      obtain ⟨nodes, listed⟩ := run_listed started earlier
      obtain ⟨t, a⟩ := act
      obtain ⟨g, l', moved, rfl⟩ := step_cases fired
      have elsewhere {u : Tid} (other : u ≠ t) : Astray g (Function.update c.pc t l' u) ↔
          Astray c.shared (c.pc u) := by
        rw [Function.update_of_ne other]
        exact listed.astray_other moved other
      have self : Astray g (Function.update c.pc t l' t) ↔ Astray g l' := by
        rw [Function.update_self]
      refine ⟨fun all => ?_, fun all => ?_⟩
      · obtain ⟨before, guarded⟩ := earlier.last all
        obtain ⟨held, matched, outcome⟩ := ih.guarded before
        refine ⟨held.step guarded moved, matched.step listed held guarded moved, ?_⟩
        rcases outcome with steady | ⟨u, astray⟩
        · by_cases now : Steady c (t, a) ⟨g, Function.update c.pc t l'⟩
          · exact .inl (steady.snoc fired now)
          · exact .inr ⟨t, self.mpr (matched.astray_enters moved now)⟩
        · by_cases mover : u = t
          · subst mover
            exact .inr ⟨u, self.mpr (listed.astray_lasts held guarded moved astray)⟩
          · exact .inr ⟨u, (elsewhere mover).mpr astray⟩
      · obtain ⟨before, now⟩ := earlier.last all
        obtain ⟨guarded, straight⟩ := ih.steady before
        obtain ⟨held, matched, _⟩ := ih.guarded guarded
        refine ⟨guarded.snoc fired (listed.guarded held (straight t)), fun u astray => ?_⟩
        by_cases mover : u = t
        · subst mover
          exact straight u (matched.astray_origin moved now (listed.live u) (self.mp astray))
        · exact straight u ((elsewhere mover).mp astray)

/-- Calls on distinct sinks, in any interleaving with each other and with registrations: if each
call reads the static variable while the last choice of a lock was made for a sink of the kind of
its own, then each sink is unlinked under the lock of its list, and that lock is the one released.
When all calls have returned, this is so in no other run. -/
theorem amlog_sink_unregister_locks (started : Start start) (run : Run step Distinct start acts c) :
    (Run step Steady start acts c → Run step Guarded start acts c) ∧
      ((∀ t, c.pc t = .outside) →
        (Run step Guarded start acts c ↔ Run step Steady start acts c)) := by
  have outcome := run_outcome started run
  refine ⟨fun steady => (outcome.steady steady).1, fun outside => ⟨fun guarded => ?_, fun steady =>
    (outcome.steady steady).1⟩⟩
  rcases (outcome.guarded guarded).2.2 with steady | ⟨t, astray⟩
  · exact steady
  · rw [outside t] at astray
    exact astray.elim

end Runs

section Samples

def distinct (c : Config (Fin 2) (Shared (Fin 2) ℕ) (Loc ℕ)) (act : Fin 2 × Act ℕ) : Bool :=
  match act.2 with
  | .unregister (some sink) =>
      (c.shared.sinks sink).isSome && decide (∀ t, (c.pc t).target ≠ some sink)
  | _ => true

def steady (c : Config (Fin 2) (Shared (Fin 2) ℕ) (Loc ℕ)) (act : Fin 2 × Act ℕ) : Bool :=
  match c.pc act.1 with
  | .readLock sink => (c.shared.sinks sink).all fun content => c.shared.lock = some content.side
  | .readUnlock sink _ => (c.shared.sinks sink).all fun content => c.shared.lock = some content.side
  | _ => true

variable {c c' : Config (Fin 2) (Shared (Fin 2) ℕ) (Loc ℕ)} {act : Fin 2 × Act ℕ}

theorem distinct_sound (checked : distinct c act = true) : Distinct c act c' := by
  intro sink call
  rw [distinct, call] at checked
  obtain ⟨live, unused⟩ := Bool.and_eq_true_iff.mp checked
  exact ⟨live, of_decide_eq_true unused⟩

theorem steady_sound (checked : steady c act = true) : Steady c act c' := by
  intro sink content reads here
  rcases reads with point | ⟨acquired, point⟩
  · simpa [steady, point, here] using checked
  · simpa [steady, point, here] using checked

def sampleStart : Config (Fin 2) (Shared (Fin 2) ℕ) (Loc ℕ) := ⟨.initial, fun _ => .outside⟩

def sampleSinks (first second : Tid) : List (Tid × Act ℕ) :=
  [(first, .registerDirect (some 5) none (some 9) none),
    (second, .registerQueued (some 6) none (some 10) (some 11) none)]

def sampleUnlinked (first second : Tid) : List (Tid × Act ℕ) :=
  sampleSinks first second ++
    [(first, .unregister (some 5)), (first, .tick), (first, .tick), (first, .tick), (first, .tick)]

/-- The other call chooses its lock after that. -/
theorem amlog_sink_unregister_locks_sample : ∃ acts c, Run step Distinct sampleStart acts c ∧
    c.pc 1 = .unlock 6 .queued .queued ∧ Run step Guarded sampleStart acts c := by
  have run : Run step Distinct sampleStart
      (sampleUnlinked 0 1 ++ [(1, .unregister (some 6)), (0, .tick), (0, .tick),
      (1, .tick), (1, .tick), (1, .tick), (0, .tick), (1, .tick), (1, .tick)]) _ :=
    run_of_runs (fun c act _ => distinct c act) (fun _ _ _ => distinct_sound) rfl rfl
  have calm : Run step Steady sampleStart
      (sampleUnlinked 0 1 ++ [(1, .unregister (some 6)), (0, .tick), (0, .tick),
      (1, .tick), (1, .tick), (1, .tick), (0, .tick), (1, .tick), (1, .tick)]) _ :=
    run_of_runs (fun c act _ => steady c act) (fun _ _ _ => steady_sound) rfl rfl
  exact ⟨_, _, run, rfl, (amlog_sink_unregister_locks ⟨rfl, fun _ => rfl⟩ run).1 calm⟩

/-- The other call chooses its lock before that. The first one releases `queued_rwlock`, which it
does not hold, and when both calls have returned `direct_rwlock` is still locked. -/
theorem amlog_sink_unregister_keeps_lock : ∃ acts c, Run step Distinct sampleStart acts c ∧
    (∀ t, c.pc t = .outside) ∧ c.shared.writer .direct = some 0 ∧
    ¬ Run step Guarded sampleStart acts c := by
  obtain ⟨acts, c, run, outside, locked⟩ : ∃ acts c, Run step Distinct sampleStart acts c ∧
      (∀ t, c.pc t = .outside) ∧ c.shared.writer .direct = some 0 := by
    have run : Run step Distinct sampleStart
        (sampleUnlinked 0 1 ++ [(1, .unregister (some 6)), (1, .tick), (0, .tick),
        (0, .tick), (0, .tick), (1, .tick), (1, .tick), (1, .tick), (1, .tick), (1, .tick),
        (1, .tick)]) _ :=
      run_of_runs (fun c act _ => distinct c act) (fun _ _ _ => distinct_sound) rfl rfl
    exact ⟨_, _, run, by decide, rfl⟩
  refine ⟨acts, c, run, outside, locked, fun guarded => ?_⟩
  have held := ((run_outcome ⟨rfl, fun _ => rfl⟩ run).guarded guarded).1
  have acquired := (held .direct 0).mp locked
  rw [outside 0] at acquired
  cases acquired

end Samples

end Libam.Log.Registry
