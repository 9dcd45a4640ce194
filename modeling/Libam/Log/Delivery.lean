import Libam.Log.Buffers

/-! What the log thread passes to the direct sinks: the lines that were placed in its queue, in
their order. -/

namespace Libam.Log

open Libam.Interleaving

variable {Ptr : Type} [DecidableEq Ptr] {g g' : Logger Ptr} {l l' : Loc Ptr} {a : Act Ptr}
  {thread thread' : LogThread}

def DirectSink.admits (sink : DirectSink Ptr) (ent : AmlogLine) : Bool :=
  !skips sink.level sink.mask ent

def Loc.left (g : Logger Ptr) : Loc Ptr → List (DirectSink Ptr)
  | .lockLine _ => g.directSinks
  | .deliver _ rest => rest
  | .passOn _ sink _ rest => sink :: rest
  | _ => []

def Loc.current (thread : LogThread) (l : Loc Ptr) : List AmlogLine :=
  l.held.toList.map thread.lineBuffer

/-- In the loop over the direct sinks of a call of `amlog_sink_message`. -/
def Loc.directing : Loc Ptr → Bool
  | .lockDirect _ => true
  | .direct _ _ => true
  | .callback _ _ _ => true
  | _ => false

/-- The log thread stands at `l`: the lines that were placed are those it has done with, its own one
and those in its queue, and each sink was called with the ones for it. -/
structure Delivered (g : Logger Ptr) (thread : LogThread) (l : Loc Ptr) : Prop where
  ordered : ∃ done, g.placed = done ++ (l.current thread ++ thread.inQueue.map thread.lineBuffer) ∧
    ∀ sink ∈ g.directSinks, g.received sink.handle =
      done.filter sink.admits ++ if sink ∈ l.left g then []
      else (l.current thread).filter sink.admits
  suffix : l.left g <:+ g.directSinks
  copied : ∀ i sink ent rest, l = .passOn i sink ent rest → ent = thread.lineBuffer i ∧
    sink.admits ent = true
  handles : (g.directSinks.map (·.handle)).Nodup

section Moves

/-- A move that neither places nor passes on a line, nor changes one that is waiting. -/
theorem Delivered.congr (delivered : Delivered g thread l) (placed : g'.placed = g.placed)
    (sinks : g'.directSinks = g.directSinks) (received : g'.received = g.received)
    (queue : thread'.inQueue = thread.inQueue) (left : l'.left g' = l.left g)
    (held : l'.held = l.held)
    (copied : ∀ i sink ent rest, l' = .passOn i sink ent rest → l = .passOn i sink ent rest)
    (lines : ∀ i, i ∈ thread.inQueue ∨ l.held = some i →
      thread'.lineBuffer i = thread.lineBuffer i) :
    Delivered g' thread' l' := by
  have current : l'.current thread' = l.current thread := by
    rw [Loc.current, Loc.current, held]
    cases here : l.held with
    | none => rfl
    | some i => simp [lines i (.inr here)]
  have waiting : thread'.inQueue.map thread'.lineBuffer = thread.inQueue.map thread.lineBuffer := by
    rw [queue]
    exact List.map_congr_left fun i inside => lines i (.inl inside)
  refine ⟨?_, ?_, fun i sink ent rest point => ?_, sinks ▸ delivered.handles⟩
  · rw [placed, sinks, received, left, current, waiting]
    exact delivered.ordered
  · rw [left, sinks]
    exact delivered.suffix
  · have point' := copied i sink ent rest point
    rw [lines i (.inr (by rw [point']; rfl))]
    exact delivered.copied i sink ent rest point'

omit [DecidableEq Ptr] in
theorem handles_injective {sinks : List (DirectSink Ptr)} (handles : (sinks.map (·.handle)).Nodup)
    {a b : DirectSink Ptr} (first : a ∈ sinks) (second : b ∈ sinks)
    (same : a.handle = b.handle) : a = b :=
  List.inj_on_of_nodup_map handles first second same

theorem Delivered.visited {i : ℕ} {sink : DirectSink Ptr} {rest : List (DirectSink Ptr)}
    (delivered : Delivered g thread l) (left : l.left g = sink :: rest) (held : l.held = some i)
    (placed : g'.placed = g.placed) (sinks : g'.directSinks = g.directSinks)
    (calls : ∀ other ∈ g.directSinks, g'.received other.handle = g.received other.handle ++
      if other = sink then [thread.lineBuffer i].filter sink.admits else []) :
    Delivered g' thread (.deliver i rest) := by
  obtain ⟨done, isPlaced, received⟩ := delivered.ordered
  have suffix : sink :: rest <:+ g.directSinks := left ▸ delivered.suffix
  have fresh : sink ∉ rest := by
    have nodup := delivered.handles.of_map.sublist suffix.sublist
    exact (List.nodup_cons.mp nodup).1
  have current : l.current thread = [thread.lineBuffer i] := by
    rw [Loc.current, held]
    rfl
  rw [current] at isPlaced
  refine ⟨⟨done, placed.trans isPlaced, fun other member => ?_⟩,
    sinks ▸ (List.suffix_cons sink rest).trans suffix,
    nofun, sinks ▸ delivered.handles⟩
  rw [sinks] at member
  rw [calls other member, received other member, left, current]
  show _ = done.filter other.admits ++ if other ∈ rest then []
      else [thread.lineBuffer i].filter other.admits
  by_cases same : other = sink
  · subst same
    rw [if_pos List.mem_cons_self, if_pos rfl, if_neg fresh, List.append_nil]
  · rw [if_neg same, List.append_nil]
    simp only [List.mem_cons, same, false_or]

theorem Delivered.own (delivered : Delivered g thread l) (here : g.logThread = some thread)
    (own : l.threaded = true) (moved : Move g l a g' l') (here' : g'.logThread = some thread') :
    Delivered g' thread' l' := by
  cases moved with
  | deqEmpty _ at' empty =>
      cases here.symm.trans here'
      exact delivered.congr rfl rfl rfl rfl rfl rfl nofun fun _ _ => rfl
  | deqLine _ i rest at' first =>
      cases here.symm.trans at'
      cases here'
      obtain ⟨done, placed, received⟩ := delivered.ordered
      refine ⟨⟨done, ?_, fun sink member => ?_⟩, List.suffix_rfl, nofun, delivered.handles⟩
      · rw [placed, first]
        rfl
      · rw [received sink member, if_pos (show sink ∈ (Loc.lockLine i).left _ from member)]
        rfl
  | running _ at' keeps =>
      cases here.symm.trans here'
      exact delivered.congr rfl rfl rfl rfl rfl rfl nofun fun _ _ => rfl
  | stopped _ at' stops =>
      cases here.symm.trans here'
      exact delivered.congr rfl rfl rfl rfl rfl rfl nofun fun _ _ => rfl
  | lockLine i =>
      cases here.symm.trans here'
      exact delivered.congr rfl rfl rfl rfl rfl rfl nofun fun _ _ => rfl
  | deliverEnd i =>
      cases here.symm.trans here'
      exact delivered.congr rfl rfl rfl rfl rfl rfl nofun fun _ _ => rfl
  | deliverSkip i sink rest _ at' skipped =>
      cases here.symm.trans at'
      cases here.symm.trans here'
      apply delivered.visited rfl rfl rfl rfl
      intro other member
      simp [DirectSink.admits, skipped]
  | deliverCopy i sink rest _ at' admitted =>
      cases here.symm.trans at'
      cases here.symm.trans here'
      refine ⟨delivered.ordered, delivered.suffix, fun j other ent rest' point => ?_,
        delivered.handles⟩
      cases point
      exact ⟨rfl, by simpa [DirectSink.admits] using admitted⟩
  | passOn i sink ent rest =>
      cases here.symm.trans here'
      obtain ⟨isLine, admitted⟩ := delivered.copied i sink ent rest rfl
      have member : sink ∈ g.directSinks := delivered.suffix.subset List.mem_cons_self
      refine delivered.visited rfl rfl rfl rfl ?_
      intro other inside
      show Function.update g.received sink.handle _ other.handle = _
      by_cases same : other = sink
      · rw [same, Function.update_self, if_pos rfl, ← isLine]
        simp [admitted]
      · have apart : other.handle ≠ sink.handle := fun handle =>
          same (handles_injective delivered.handles inside member handle)
        rw [Function.update_of_ne apart, if_neg same, List.append_nil]
  | enqLine i _ at' room =>
      cases here.symm.trans at'
      cases here'
      obtain ⟨done, placed, received⟩ := delivered.ordered
      refine ⟨⟨done ++ [thread.lineBuffer i], ?_, fun sink member => ?_⟩, List.nil_suffix, nofun,
        delivered.handles⟩
      · rw [placed, List.append_assoc]
        rfl
      · rw [received sink member, List.filter_append]
        simp [Loc.left, Loc.current, Loc.held]
  | enqWait i _ at' full =>
      cases here.symm.trans here'
      exact delivered
  | _ => cases own

omit [DecidableEq Ptr] in
theorem left_congr (sinks : g'.directSinks = g.directSinks) (l : Loc Ptr) :
    l.left g' = l.left g := by
  cases l with
  | lockLine i => exact sinks
  | _ => rfl

/-- A move that leaves the queue of the log thread, and the lines in it, as they are. -/
theorem Delivered.frame (delivered : Delivered g thread l) (placed : g'.placed = g.placed)
    (sinks : g'.directSinks = g.directSinks) (received : g'.received = g.received)
    (queue : thread'.inQueue = thread.inQueue)
    (lines : ∀ i, i ∈ thread.inQueue ∨ l.held = some i →
      thread'.lineBuffer i = thread.lineBuffer i) :
    Delivered g' thread' l :=
  delivered.congr placed sinks received queue (left_congr sinks l) rfl
    (fun _ _ _ _ point => point) lines

theorem Delivered.append (delivered : Delivered g thread l) {i : ℕ}
    (placed : g'.placed = g.placed ++ [thread.lineBuffer i])
    (sinks : g'.directSinks = g.directSinks) (received : g'.received = g.received) :
    Delivered g' { thread with inQueue := thread.inQueue ++ [i] } l := by
  obtain ⟨done, isPlaced, calls⟩ := delivered.ordered
  refine ⟨⟨done, ?_, fun sink member => ?_⟩, ?_, delivered.copied, sinks ▸ delivered.handles⟩
  · show g'.placed = done ++ (l.current thread ++ (thread.inQueue ++ [i]).map thread.lineBuffer)
    rw [placed, isPlaced, List.map_append]
    simp only [List.append_assoc, List.map_cons, List.map_nil]
  · rw [received, left_congr sinks]
    exact calls sink (sinks ▸ member)
  · rw [left_congr sinks, sinks]
    exact delivered.suffix

/-- What other threads do: they place lines behind those of the queue, and write only the lines
that they hold. -/
theorem Delivered.others {k k' : Loc Ptr} (delivered : Delivered g thread l)
    (here : g.logThread = some thread) (moved : Move g k a g' k') (foreign : k.threaded = false)
    (threadless : k.directing = false) (here' : g'.logThread = some thread')
    (apart : ∀ i, k.held = some i → i ∉ thread.inQueue ∧ l.held ≠ some i) :
    Delivered g' thread' l := by
  cases moved with
  | takeLine call sink rest _ i out own at' first =>
      cases here.symm.trans at'
      cases here'
      exact delivered.frame rfl rfl rfl rfl fun _ _ => rfl
  | copyLine call i rest _ at' =>
      cases here.symm.trans at'
      cases here'
      obtain ⟨outside, notHeld⟩ := apart i rfl
      refine delivered.frame rfl rfl rfl rfl fun j used => Function.update_of_ne (fun same => ?_) ..
      subst same
      exact used.elim outside notHeld
  | placeLine call i rest _ at' room =>
      cases here.symm.trans at'
      cases here'
      exact delivered.append rfl rfl rfl
  | stop _ at' =>
      cases here.symm.trans at'
      cases here'
      exact delivered.frame rfl rfl rfl rfl fun _ _ => rfl
  | noLine _ _ _ _ _ _ _ _ _ missed | noForeign _ _ _ _ _ _ _ _ missed =>
      obtain ⟨aborted, rfl, -⟩ := noLine_cases missed
      cases here.symm.trans here'
      exact delivered.frame rfl rfl rfl rfl fun _ _ => rfl
  | release => cases here'
  | callback => cases threadless
  | _ =>
      first
        | (cases here.symm.trans here'
           exact delivered.frame rfl rfl rfl rfl fun _ _ => rfl)
        | cases foreign

end Moves

section Runs

variable {Tid : Type} [Fintype Tid] [DecidableEq Tid] {log : Tid}
  {start c c' : Config Tid (Logger Ptr) (Loc Ptr)} {acts : List (Tid × Act Ptr)}
  {Ok : Config Tid (Logger Ptr) (Loc Ptr) → Tid × Act Ptr → Config Tid (Logger Ptr)
    (Loc Ptr) → Prop}

def Delivering (log : Tid) (c : Config Tid (Logger Ptr) (Loc Ptr)) : Prop :=
  ∀ thread, c.shared.logThread = some thread →
    (∀ t, (c.pc t).directing = false) ∧ Delivered c.shared thread (c.pc log)

theorem move_logThread (moved : Move g l a g' l') (here' : g'.logThread = some thread') :
    ∃ thread, g.logThread = some thread :=
  (move_lines moved here').imp fun _ both => both.1

theorem move_directing (moved : Move g l a g' l') (here : g.logThread = some thread)
    (threadless : l.directing = false) : l'.directing = false := by
  cases moved with
  | noThread call none => cases here.symm.trans none
  | noLine _ _ _ _ _ _ _ _ _ missed | noForeign _ _ _ _ _ _ _ _ missed =>
      obtain ⟨-, -, rfl | rfl⟩ := noLine_cases missed <;> rfl
  | _ => first | rfl | cases threadless

omit [Fintype Tid] in
theorem delivering_started (started : Started log start) : Delivering log start := by
  obtain ⟨⟨g, flags, outcomes, fresh, threaded, success⟩, atLog, others⟩ := started
  have shared := init_success threaded success
  intro thread here
  constructor
  · intro t
    by_cases isLog : t = log
    · rw [isLog, atLog]
      rfl
    · rw [others t isLog]
      rfl
  · have queue : thread.inQueue = [] := by
      rw [shared] at here
      rw [← Option.some.inj here]
    rw [atLog]
    refine ⟨⟨[], ?_, fun sink member => ?_⟩, List.nil_suffix, nofun, ?_⟩
    · rw [queue, shared]
      exact fresh.record.2.1
    · rw [shared]
      exact fresh.record.2.2 sink.handle
    · rw [shared]
      exact fresh.handles

theorem Delivering.step {t : Tid} (delivering : Delivering log c) (accounted : Accounted c)
    (roles : ∀ t, (c.pc t).threaded = true ↔ t = log) (fired : step c (t, a) = some c') :
    Delivering log c' := by
  obtain ⟨g', l', moved, rfl⟩ := step_cases fired
  intro thread' here'
  obtain ⟨thread, here⟩ := move_logThread moved here'
  obtain ⟨threadless, delivered⟩ := delivering thread here
  constructor
  · exact (Function.forall_update_iff c.pc fun _ (l : Loc Ptr) => l.directing = false).mpr
      ⟨move_directing moved here (threadless t), fun u _ => threadless u⟩
  · show Delivered g' thread' (Function.update c.pc t l' log)
    by_cases mover : log = t
    · subst mover
      rw [Function.update_self]
      exact delivered.own here ((roles log).mpr rfl) moved here'
    · rw [Function.update_of_ne mover]
      have foreign : (c.pc t).threaded = false :=
        Bool.eq_false_iff.mpr fun own => mover ((roles t).mp own).symm
      have conserved := accounted.conserved here
      apply delivered.others here moved foreign (threadless t) here'
      intro i holds
      have unique (place : Place Tid) (atPlace : InPlace c thread i place) : .thread t = place :=
        (conserved.once i (conserved.known i (.thread t) holds)).unique holds atPlace
      refine ⟨fun inside => ?_, fun other => mover ?_⟩
      · cases unique .inQueue inside
      · cases unique (.thread log) other
        rfl

theorem run_delivering (started : Started log start) (run : Run step Ok start acts c) :
    Delivering log c := by
  induction run with
  | nil => exact delivering_started started
  | snoc earlier fired _ ih =>
      exact ih.step (run_accounted started earlier) (run_threaded started earlier) fired

end Runs

end Libam.Log
