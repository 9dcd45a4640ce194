import Libam.Pool.Calls

/-! The names and sizes of chunks while threads allocate and free: a chunk joins the used list
before it has its own. -/

namespace Libam.Pool.Diagnosis

open Libam.Custody Libam.Interleaving

section Requests

structure Request where
  name : String
  size : UInt32
  deriving DecidableEq, Repr

variable {Thread : Type}

def requested (requests : Addr → Option Request) : Pc → Pc → Addr → Option Request
  | .allocEnter size name, .allocName call _ =>
      Function.update requests call.chunk (some ⟨name, size⟩)
  | .freeSection call, _ => Function.update requests call.chunk none
  | _, _ => requests

def requestsAfter (s : Ampool Thread) (requests : Addr → Option Request) (s' : Ampool Thread) :
    Action Thread → Addr → Option Request
  | .advance i _ => requested requests (s.pc i) (s'.pc i)
  | _ => requests

def Unwritten (s : Ampool Thread) (c : Addr) : Prop :=
  ∃ i call, call.chunk = c ∧ ((∃ name, s.pc i = .allocName call name) ∨ s.pc i = .allocSize call)

end Requests

section Stages

inductive Stage
  | unnamed (name : String) (size : UInt32)
  | unsized (size : UInt32)
  | written (size : UInt32)
  | leaving (b : BucketId)
  | loose

def stageOf : Pc → Option (Addr × Stage)
  | .allocName call name => some (call.chunk, .unnamed name call.size)
  | .allocSize call => some (call.chunk, .unsized call.size)
  | .allocMagic call _ | .allocClear call _ | .allocAdd call | .allocInc call =>
      some (call.chunk, .written call.size)
  | .freeEnter c size => some (c, .written size)
  | .freeSection call => some (call.chunk, .leaving call.bucket)
  | .freeMemory call => some (call.chunk, .loose)
  | .idle | .allocEnter .. | .freeMagic .. | .freeSub _ | .freeDec => none

def stageAt (pc : Pc) (c : Addr) : Option Stage :=
  (stageOf pc).bind fun has => if has.1 = c then some has.2 else none

variable {Thread : Type}

def stage (s : Ampool Thread) (c : Addr) : Holder Thread → Option Stage
  | .owner => (s.held c).map .written
  | .thread i => stageAt (s.pc i) c

structure Sight where
  place : View
  request : Option Request

def labelOf (chunk : AmpoolChunk) : AmpoolChunk :=
  { AmpoolChunk.zero with name := chunk.name, size := chunk.size }

def sight (s : Ampool Thread) (requests : Addr → Option Request) (c : Addr) : Sight :=
  ⟨{ view s c with chunk := labelOf (s.memory c) }, requests c⟩

def Sight.label (v : Sight) : Request := ⟨v.place.chunk.name, v.place.chunk.size⟩

def Listed (v : Sight) (size : UInt32) : Prop :=
  ∃ b, ampoolGetBucket (alignSize size) = .ok b ∧ InUse v.place b

def StageOk (v : Sight) : Stage → Prop
  | .unnamed name size => Listed v size ∧ v.request = some ⟨name, size⟩
  | .unsized size => Listed v size ∧ v.request = some ⟨v.label.name, size⟩
  | .written size => Listed v size ∧ v.label.size = size ∧ v.request = some v.label
  | .leaving b => InUse v.place b ∧ v.request = some v.label
  | .loose => Loose v.place

def Unlisted (v : Sight) : Prop := Absent v.place ∨ ∃ b, OnFree v.place b

def Labelled (s : Ampool Thread) (requests : Addr → Option Request) : Prop :=
  ∀ c, Kept StageOk Unlisted (sight s requests c) (stage s c)

end Stages

section Changes

deriving instance DecidableEq for Holder

variable {Thread : Type} {s s' : Ampool Thread} {requests requests' : Addr → Option Request}
  {c : Addr} {i : Thread} {pc : Pc}

theorem stageAt_self {st : Stage} (has : stageOf pc = some (c, st)) : stageAt pc c = some st := by
  simp [stageAt, has]

theorem stageAt_other {d : Addr} {st : Stage} (has : stageOf pc = some (c, st)) (other : d ≠ c) :
    stageAt pc d = none := by
  simp [stageAt, has, other.symm]

theorem stageAt_none (without : stageOf pc = none) (d : Addr) : stageAt pc d = none := by
  simp [stageAt, without]

theorem sight_store_other {ch : AmpoolChunk} {d : Addr} (other : d ≠ c) :
    sight (s.store c ch) requests d = sight s requests d := by
  simp [sight, view, Ampool.store, other]

theorem sight_store_self {ch : AmpoolChunk} : sight (s.store c ch) requests c =
    ⟨{ (sight s requests c).place with chunk := labelOf ch }, requests c⟩ := by
  simp [sight, view, Ampool.store]

theorem sight_store_label {ch : AmpoolChunk} (same : labelOf ch = labelOf (s.memory c)) (d : Addr) :
    sight (s.store c ch) requests d = sight s requests d := by
  by_cases here : d = c
  · subst here
    rw [sight_store_self, same]
    rfl
  · exact sight_store_other here

theorem Labelled.quiet (inv : Labelled s requests)
    (sights : ∀ d, sight s' requests' d = sight s requests d)
    (stages : ∀ d, stage s' d = stage s d) : Labelled s' requests' := by
  intro d
  rw [sights, stages]
  exact inv d

theorem stage_congr (pcs : s'.pc = s.pc) (held : s'.held = s.held) (d : Addr) :
    stage s' d = stage s d := by
  funext h
  cases h with
  | owner => simp only [stage, held]
  | thread j => simp only [stage, pcs]

theorem Labelled.change (inv : Labelled s requests)
    (sights : ∀ d, d ≠ c → sight s' requests' d = sight s requests d)
    (stages : ∀ d, d ≠ c → stage s' d = stage s d)
    (here : Kept StageOk Unlisted (sight s' requests' c) (stage s' c)) : Labelled s' requests' := by
  intro d
  by_cases same : d = c
  · rw [same]
    exact here
  · rw [sights d same, stages d same]
    exact inv d

variable [DecidableEq Thread]

theorem stage_goto (d : Addr) :
    stage (s.goto i pc) d = Function.update (stage s d) (.thread i) (stageAt pc d) := by
  funext h
  cases h with
  | owner => rfl
  | thread j =>
      by_cases same : j = i
      · subst same
        simp [stage, Ampool.goto]
      · simp [stage, Ampool.goto, same]

theorem stage_goto_same (same : stageOf pc = stageOf (s.pc i)) (d : Addr) :
    stage (s.goto i pc) d = stage s d := by
  rw [stage_goto, show stageAt pc d = stage s d (.thread i) by simp only [stage, stageAt, same]]
  exact Function.update_eq_self ..

theorem stage_goto_other (st st' : Stage)
    (before : stageOf (s.pc i) = some (c, st) ∨ stageOf (s.pc i) = none)
    (after : stageOf pc = some (c, st') ∨ stageOf pc = none) {d : Addr} (other : d ≠ c) :
    stage (s.goto i pc) d = stage s d := by
  have nothing {p : Pc} {st : Stage} (only : stageOf p = some (c, st) ∨ stageOf p = none) :
      stageAt p d = none := by
    rcases only with has | without
    · exact stageAt_other has other
    · exact stageAt_none without d
  rw [stage_goto, nothing after, ← nothing before]
  exact Function.update_eq_self ..

theorem Labelled.proceed (inv : Labelled s requests) {st : Stage} (st' : Stage)
    (before : stageOf (s.pc i) = some (c, st)) (after : stageOf pc = some (c, st'))
    (same : s'.pc = s.pc) (held : s'.held = s.held)
    (sights : ∀ d, d ≠ c → sight s' requests' d = sight s requests d)
    (ok : StageOk (sight s' requests' c) st') : Labelled (s'.goto i pc) requests' := by
  refine inv.change (c := c) sights (fun d other => ?_) ?_
  · rw [stage_goto_other st st' (.inl (same ▸ before)) (.inl after) other, stage_congr same held]
  · rw [stage_goto, stageAt_self after, stage_congr same held]
    exact kept_update_some ((inv c).others (stageAt_self before)) ok

theorem Labelled.finish (inv : Labelled s requests) {st : Stage}
    (before : stageOf (s.pc i) = some (c, st)) (after : stageOf pc = none) (same : s'.pc = s.pc)
    (held : s'.held = s.held) (sights : ∀ d, d ≠ c → sight s' requests' d = sight s requests d)
    (rest : Unlisted (sight s' requests' c)) : Labelled (s'.goto i pc) requests' := by
  refine inv.change (c := c) sights (fun d other => ?_) ?_
  · rw [stage_goto_other st st (.inl (same ▸ before)) (.inr after) other, stage_congr same held]
  · rw [stage_goto, stageAt_none after, stage_congr same held]
    exact kept_update_none ((inv c).others (stageAt_self before)) rest

theorem Labelled.claim (inv : Labelled s requests) (st : Stage) (before : stageOf (s.pc i) = none)
    (nobody : ∀ h, stage s c h = none) (after : stageOf pc = some (c, st))
    (same : s'.pc = s.pc) (held : s'.held = s.held)
    (sights : ∀ d, d ≠ c → sight s' requests' d = sight s requests d)
    (ok : StageOk (sight s' requests' c) st) : Labelled (s'.goto i pc) requests' := by
  refine inv.change (c := c) sights (fun d other => ?_) ?_
  · rw [stage_goto_other st st (.inr (same ▸ before)) (.inl after) other, stage_congr same held]
  · rw [stage_goto, stageAt_self after, stage_congr same held]
    exact kept_update_some (fun h _ => nobody h) ok

theorem stage_held {held : Option UInt32} (d : Addr) :
    stage { s with held := Function.update s.held c held } d =
      if d = c then Function.update (stage s d) .owner (held.map .written) else stage s d := by
  by_cases same : d = c
  · subst same
    rw [if_pos rfl]
    funext h
    cases h <;> simp [stage]
  · rw [if_neg same]
    funext h
    cases h <;> simp [stage, same]

theorem Labelled.giveOut (inv : Labelled s requests) (pc : Pc) {size : UInt32}
    (before : stageOf (s.pc i) = some (c, .written size)) (after : stageOf pc = none) :
    Labelled ({ s with held := Function.update s.held c (some size) }.goto i pc) requests := by
  have had : stage s c (.thread i) = some (.written size) := stageAt_self before
  refine inv.change (c := c) (fun _ _ => rfl) (fun d other => ?_) ?_
  · refine (stage_goto_other (s := { s with held := Function.update s.held c (some size) })
      (.written size) (.written size) (.inl before) (.inr after) other).trans ?_
    rw [stage_held, if_neg other]
  · rw [stage_goto, stageAt_none after, stage_held, if_pos rfl,
      Function.update_comm (by simp), Option.map_some]
    refine kept_update_some (fun h other => ?_) ((inv c).held _ _ had)
    by_cases self : h = .thread i
    · rw [self, Function.update_self]
    · rw [Function.update_of_ne self, (inv c).others had h self]

theorem Labelled.giveBack (inv : Labelled s requests) {size : UInt32} (held : s.held c = some size)
    (before : stageOf (s.pc i) = none) (after : stageOf pc = some (c, .written size)) :
    Labelled ({ s with held := Function.update s.held c none }.goto i pc) requests := by
  have had : stage s c .owner = some (.written size) := by rw [stage, held, Option.map_some]
  refine inv.change (c := c) (fun _ _ => rfl) (fun d other => ?_) ?_
  · refine (stage_goto_other (s := { s with held := Function.update s.held c none })
      (.written size) (.written size) (.inr before) (.inl after) other).trans ?_
    rw [stage_held, if_neg other]
  · rw [stage_goto, stageAt_self after, stage_held, if_pos rfl, Option.map_none]
    refine kept_update_some (fun h _ => ?_) ((inv c).held _ _ had)
    by_cases self : h = .owner
    · rw [self, Function.update_self]
    · rw [Function.update_of_ne self, (inv c).others had h self]

end Changes

section Steps

variable {Thread : Type} [DecidableEq Thread] {cfg : Config} {s s' : Ampool Thread}
  {requests : Addr → Option Request} {c : Addr} {i : Thread}

theorem Labelled.store (inv : Labelled s requests) {ch : AmpoolChunk}
    (label : labelOf ch = labelOf (s.memory c)) {pc : Pc} (same : stageOf pc = stageOf (s.pc i)) :
    Labelled ((s.store c ch).goto i pc) requests :=
  inv.quiet (fun d => sight_store_label label d) fun d =>
    (stage_goto_same (s := s.store c ch) same d).trans rfl

theorem Labelled.goto (inv : Labelled s requests) (pc : Pc) (same : stageOf pc = stageOf (s.pc i)) :
    Labelled (s.goto i pc) requests :=
  inv.quiet (fun _ => rfl) fun d => stage_goto_same same d

omit [DecidableEq Thread] in
theorem label_data (chunk : AmpoolChunk) (data : ℕ → UInt8) :
    labelOf { chunk with data := data } = labelOf chunk := rfl

omit [DecidableEq Thread] in
theorem label_chunkMagicSet {magic : UInt32} {chunk chunk' : AmpoolChunk} {allocationSize : UInt32}
    {toAllocated setData setOverflow : Bool} {set set' : MagicSet}
    (stepped : chunkMagicSet magic c chunk allocationSize toAllocated setData setOverflow set =
      (chunk', set')) : labelOf chunk' = labelOf chunk := by
  rw [chunkMagicSet] at stepped
  simp only at stepped
  split at stepped <;> cases stepped <;> rfl

omit [DecidableEq Thread] in
/-- The lists of a bucket change for one chunk, and so does the request that owns it. -/
theorem sight_setBucket_other {b : BucketId} {bucket : AmpoolBucket} {request : Option Request}
    {d : Addr} (other : d ≠ c) (used : bucket.usedList.count d = (s.buckets b).usedList.count d)
    (free : bucket.freeList.count d = (s.buckets b).freeList.count d) :
    sight (s.setBucket b bucket) (Function.update requests c request) d = sight s requests d := by
  rw [sight, view_setBucket_other b bucket used free, Function.update_of_ne other]
  rfl

theorem StageOk.taken {v : Sight} {st : Stage} (ok : StageOk v st) :
    v.place.mapped = true ∧ v.place.free = 0 := by
  cases st with
  | unnamed | unsized | written =>
      obtain ⟨_, _, place⟩ := ok.1
      exact ⟨place.1, place.2.2⟩
  | leaving => exact ⟨ok.1.1, ok.1.2.2⟩
  | loose => exact ⟨ok.1, ok.2.2⟩

omit [DecidableEq Thread] in
theorem Labelled.nobody (inv : Labelled s requests)
    (untaken : ¬ ((view s c).mapped = true ∧ (view s c).free = 0)) :
    (∀ h, stage s c h = none) ∧ Unlisted (sight s requests c) := by
  have nobody : ∀ h, stage s c h = none := fun h => by
    cases has : stage s c h with
    | none => rfl
    | some st => exact absurd ((inv c).held h st has).taken untaken
  exact ⟨nobody, (inv c).rest nobody⟩

theorem Labelled.take (inv : Labelled s requests) (without : stageOf (s.pc i) = none)
    (nobody : ∀ h, stage s c h = none) {t : Ampool Thread}
    (frame : t.held = s.held ∧ t.pc = s.pc ∧ t.buckets = s.buckets)
    (sights : ∀ d, d ≠ c → sight t requests d = sight s requests d) {b : BucketId}
    {bucket : AmpoolBucket}
    (used : ∀ d, d ≠ c → bucket.usedList.count d = (s.buckets b).usedList.count d)
    (free : ∀ d, d ≠ c → bucket.freeList.count d = (s.buckets b).freeList.count d)
    (place : InUse (view (t.setBucket b bucket) c) b) {size : UInt32}
    (found : ampoolGetBucket (alignSize size) = .ok b) (name : String) (allocationSize : UInt32) :
    Labelled ((t.setBucket b bucket).goto i (.allocName ⟨b, c, size, allocationSize⟩ name))
      (Function.update requests c (some ⟨name, size⟩)) := by
  obtain ⟨held, pcs, buckets⟩ := frame
  refine inv.claim (.unnamed name size) without nobody rfl pcs held (fun d other => ?_)
    ⟨⟨b, found, place⟩, Function.update_self ..⟩
  rw [sight_setBucket_other other (buckets ▸ used d other) (buckets ▸ free d other)]
  exact sights d other

theorem Labelled.takeFresh (inv : Labelled s requests) (without : stageOf (s.pc i) = none)
    (unmapped : s.mapped c = false) {ch : AmpoolChunk} {b : BucketId} {bucket : AmpoolBucket}
    (used : bucket.usedList = c :: (s.buckets b).usedList)
    (free : bucket.freeList = (s.buckets b).freeList) {size : UInt32}
    (found : ampoolGetBucket (alignSize size) = .ok b) (name : String) (allocationSize : UInt32) :
    Labelled (((s.malloc (some (c, ch))).setBucket b bucket).goto i
      (.allocName ⟨b, c, size, allocationSize⟩ name))
      (Function.update requests c (some ⟨name, size⟩)) := by
  have apart : (view s c).mapped ≠ true := by simp [view, unmapped]
  obtain ⟨nobody, rest⟩ := inv.nobody (c := c) fun taken => apart taken.1
  have absent : Absent (view s c) := by
    rcases rest with absent | ⟨_, onFree⟩
    · exact absent
    · exact absurd onFree.1 apart
  refine inv.take (t := s.malloc (some (c, ch))) without nobody ⟨rfl, rfl, rfl⟩ (fun d other => ?_)
    (fun d other => ?_) (fun d _ => ?_) (inUse_fresh absent used free) found name allocationSize
  · simp [sight, view, Ampool.malloc, Ampool.store, other]
  · rw [used, List.count_cons_of_ne (Ne.symm other)]
  · rw [free]

theorem Labelled.takeListed (inv : Labelled s requests) (without : stageOf (s.pc i) = none)
    {b : BucketId} {rest : List Addr} (list : (s.buckets b).freeList = c :: rest)
    {bucket : AmpoolBucket} (used : bucket.usedList = c :: (s.buckets b).usedList)
    (free : bucket.freeList = rest) {size : UInt32}
    (found : ampoolGetBucket (alignSize size) = .ok b) (name : String) (allocationSize : UInt32) :
    Labelled ((s.setBucket b bucket).goto i (.allocName ⟨b, c, size, allocationSize⟩ name))
      (Function.update requests c (some ⟨name, size⟩)) := by
  have listed : (view s c).free b ≠ 0 := by simp [view, list]
  obtain ⟨nobody, place⟩ := inv.nobody (c := c) fun taken => listed (congrFun taken.2 b)
  have onFree : OnFree (view s c) b := by
    rcases place with absent | ⟨b', onFree⟩
    · exact absurd (congrFun absent.2.2 b) listed
    · have same : b = b' := by
        by_contra other
        exact listed ((congrFun onFree.2.2 b).trans (Pi.single_eq_of_ne other 1))
      exact same ▸ onFree
  refine inv.take without nobody ⟨rfl, rfl, rfl⟩ (fun _ _ => rfl) (fun d other => ?_)
    (fun d other => ?_) (inUse_listed onFree list used free) found name allocationSize
  · rw [used, List.count_cons_of_ne (Ne.symm other)]
  · rw [free, list, List.count_cons_of_ne (Ne.symm other)]

theorem Labelled.allocEnter (inv : Labelled s requests) {size : UInt32} {name : String}
    (entered : s.pc i = .allocEnter size name) {fresh : Option (Addr × AmpoolChunk)}
    (new : ∀ block ∈ fresh, s.mapped block.1 = false) :
    Labelled (allocEnter cfg s i size name fresh)
      (requested requests (.allocEnter size name) ((allocEnter cfg s i size name fresh).pc i)) := by
  have without : stageOf (s.pc i) = none := by rw [entered, stageOf]
  have faulted (fault : Fault) : Labelled { s with fault := some fault }
      (requested requests (.allocEnter size name) (s.pc i)) := by
    rw [entered]
    exact inv.quiet (fun _ => rfl) (stage_congr rfl rfl)
  cases found : ampoolGetBucket (alignSize size) with
  | error fault =>
      simp only [Pool.allocEnter, found]
      exact faulted fault
  | ok b =>
      cases fit : sizesFit (s.buckets b).stats.elementSize
        (sizeMalloc (s.buckets b).stats.elementSize size) size with
      | false =>
          simp only [Pool.allocEnter, found, fit, Bool.not_false, if_true]
          exact faulted .assertion
      | true =>
          simp only [Pool.allocEnter, found, fit, Bool.not_true, Bool.false_eq_true, if_false]
          cases list : (s.buckets b).freeList with
          | nil =>
              simp only [bucketAllocSection, list, List.isEmpty_nil, if_true]
              cases fresh with
              | none =>
                  simp only [Option.map_none, Ampool.malloc, Ampool.goto, Function.update_self]
                  exact inv.goto .idle (by rw [without, stageOf])
              | some block =>
                  simp only [Option.map_some, Ampool.goto, Function.update_self, requested]
                  exact inv.takeFresh without (new block rfl) rfl list.symm found name _
          | cons c rest =>
              simp only [bucketAllocSection, list, List.isEmpty_cons, Bool.false_eq_true, if_false]
              by_cases intact : chunkMagicTest cfg.magic c (s.memory c)
                  (sizeMalloc (s.buckets b).stats.elementSize size) true cfg.validate
                  cfg.validate = true
              · simp only [intact, if_true, Ampool.goto, Function.update_self, requested]
                exact inv.takeListed without list rfl rfl found name _
              · simp only [intact]
                exact faulted .assertion

theorem Labelled.freeEnter (inv : Labelled s requests) {size : UInt32}
    (entered : s.pc i = .freeEnter c size) : Labelled (freeEnter cfg s i c size) requests := by
  have before : stageOf (s.pc i) = some (c, .written size) := by rw [entered, stageOf]
  have faulted (fault : Fault) : Labelled { s with fault := some fault } requests :=
    inv.quiet (fun _ => rfl) (stage_congr rfl rfl)
  obtain ⟨⟨b, found, place⟩, -, own⟩ := (inv c).held (.thread i) _ (stageAt_self before)
  simp only [Pool.freeEnter, found]
  split
  · exact faulted _
  split
  · exact inv.proceed _ before rfl rfl rfl (fun _ _ => rfl) ⟨place, own⟩
  · exact faulted _

theorem Labelled.freeSection (inv : Labelled s requests) {call : Call}
    (entered : s.pc i = .freeSection call) :
    Labelled ((s.setBucket call.bucket (bucketFreeSection (s.buckets call.bucket) call.chunk
        (s.memory call.chunk).size)).goto i
      (if 0 < (s.buckets call.bucket).stats.elementSize then .freeMagic call .start
        else .freeMemory call)) (Function.update requests call.chunk none) := by
  have before : stageOf (s.pc i) = some (call.chunk, .leaving call.bucket) := by
    rw [entered, stageOf]
  obtain ⟨place, -⟩ := (inv call.chunk).held (.thread i) _ (stageAt_self before)
  have freed := place_freeSection (s := s) place (s.memory call.chunk).size
  have sights : ∀ d, d ≠ call.chunk → sight (s.setBucket call.bucket (bucketFreeSection
      (s.buckets call.bucket) call.chunk (s.memory call.chunk).size))
      (Function.update requests call.chunk none) d = sight s requests d := fun d other => by
    rw [sight, view_freeSection_other other, Function.update_of_ne other]
    rfl
  split
  · rename_i stepped
    rw [if_pos stepped] at freed
    exact inv.finish before rfl rfl rfl sights (.inr ⟨_, freed⟩)
  · rename_i oversized
    rw [if_neg oversized] at freed
    exact inv.proceed _ before rfl rfl rfl sights freed

theorem Labelled.step {a : Action Thread} (inv : Labelled s requests)
    (fired : Pool.step cfg s a = some s') : Labelled s' (requestsAfter s requests s' a) := by
  cases (step_move fired).2 with
  | allocCall i size name place =>
      exact inv.goto (.allocEnter size name) (by rw [place, stageOf, stageOf])
  | freeCall i chunk size place held => exact inv.giveBack held (by rw [place, stageOf]) rfl
  | write c offset value size held inside =>
      exact inv.quiet (sight_store_label (label_data _ _)) (stage_congr rfl rfl)
  | allocNothing i fresh name place =>
      simp only [requestsAfter, place, Ampool.goto, Function.update_self, requested]
      exact inv.goto .idle (by rw [place, stageOf, stageOf])
  | allocEnter i fresh size name place positive new =>
      rw [requestsAfter, place]
      exact inv.allocEnter place new
  | allocName i fresh call name place =>
      rw [requestsAfter, place]
      have before : stageOf (s.pc i) = some (call.chunk, .unnamed name call.size) := by
        rw [place, stageOf]
      obtain ⟨listed, own⟩ := (inv call.chunk).held (.thread i) _ (stageAt_self before)
      refine inv.proceed (.unsized call.size) before rfl rfl rfl
        (fun d other => sight_store_other other) ?_
      rw [sight_store_self]
      exact ⟨listed, own⟩
  | allocSize i fresh call place =>
      rw [requestsAfter, place]
      have before : stageOf (s.pc i) = some (call.chunk, .unsized call.size) := by
        rw [place, stageOf]
      obtain ⟨listed, own⟩ := (inv call.chunk).held (.thread i) _ (stageAt_self before)
      refine inv.proceed (.written call.size) before rfl rfl rfl
        (fun d other => sight_store_other other) ?_
      rw [sight_store_self]
      exact ⟨listed, rfl, own⟩
  | allocMagic i fresh call set set' chunk place stepped =>
      rw [requestsAfter, place]
      apply inv.store (label_chunkMagicSet stepped)
      rw [place, afterSet]
      split <;> rfl
  | allocCleared i fresh call place =>
      rw [requestsAfter, place]
      exact inv.goto _ (by rw [place, stageOf, stageOf])
  | allocClear i fresh call k value writes place =>
      rw [requestsAfter, place]
      exact inv.store (label_data _ _) (by rw [place, stageOf, stageOf])
  | allocAdd i fresh call place =>
      rw [requestsAfter, place]
      have same : stageOf (.allocInc call) = stageOf (s.pc i) := by rw [place, stageOf, stageOf]
      exact (inv.goto _ same).quiet (fun _ => rfl) (stage_congr rfl rfl)
  | allocInc i fresh call place =>
      rw [requestsAfter, place]
      have before : stageOf (s.pc i) = some (call.chunk, .written call.size) := by
        rw [place, stageOf]
      exact (inv.giveOut .idle before rfl).quiet (fun _ => rfl) (stage_congr rfl rfl)
  | freeEnter i fresh chunk size place =>
      rw [requestsAfter, place]
      exact inv.freeEnter place
  | freeSection i fresh call place =>
      rw [requestsAfter, place]
      exact inv.freeSection place
  | freeMagic i fresh call set set' chunk place stepped =>
      rw [requestsAfter, place]
      apply inv.store (label_chunkMagicSet stepped)
      rw [place, afterSet]
      split <;> rfl
  | freeMemory i fresh call place =>
      rw [requestsAfter, place]
      have before : stageOf (s.pc i) = some (call.chunk, .loose) := by rw [place, stageOf]
      have loose : Loose (view s call.chunk) := (inv call.chunk).held
        (.thread i) _ (stageAt_self before)
      have sights (d : Addr) (other : d ≠ call.chunk) :
          sight { s with mapped := Function.update s.mapped call.chunk false } requests d =
            sight s requests d := by
        simp [sight, view, other]
      exact inv.finish before rfl rfl rfl sights
        (.inl ⟨Function.update_self .., loose.2.1, loose.2.2⟩)
  | freeSub i fresh size place =>
      rw [requestsAfter, place]
      have same : stageOf .freeDec = stageOf (s.pc i) := by rw [place, stageOf, stageOf]
      exact (inv.goto _ same).quiet (fun _ => rfl) (stage_congr rfl rfl)
  | freeDec i fresh place =>
      rw [requestsAfter, place]
      have same : stageOf .idle = stageOf (s.pc i) := by rw [place, stageOf, stageOf]
      exact (inv.goto _ same).quiet (fun _ => rfl) (stage_congr rfl rfl)

omit [DecidableEq Thread] in
theorem labelled_init (memory : Addr → AmpoolChunk) :
    Labelled (ampoolPoolAlloc Thread memory) fun _ => none := by
  intro c
  refine kept_of_rest (fun h => ?_) (.inl ⟨rfl, rfl, rfl⟩)
  cases h <;> rfl

omit [DecidableEq Thread] in
theorem unwritten_of_stage {h : Holder Thread} {st : Stage} (has : stage s c h = some st)
    (early : (∃ name size, st = .unnamed name size) ∨ ∃ size, st = .unsized size) :
    Unwritten s c := by
  cases h with
  | owner =>
      obtain ⟨size, -, rfl⟩ := Option.map_eq_some_iff.mp has
      rcases early with ⟨_, _, clash⟩ | ⟨_, clash⟩ <;> cases clash
  | thread i =>
      obtain ⟨⟨d, st'⟩, at', same⟩ := Option.bind_eq_some_iff.mp has
      simp only [Option.ite_none_right_eq_some, Option.some.injEq] at same
      obtain ⟨rfl, rfl⟩ := same
      rcases early with ⟨name, size, rfl⟩ | ⟨size, rfl⟩ <;> cases entered : s.pc i <;>
        rw [entered, stageOf] at at' <;> cases at'
      · exact ⟨i, _, rfl, .inl ⟨_, entered⟩⟩
      · exact ⟨i, _, rfl, .inr entered⟩

omit [DecidableEq Thread] in
theorem Labelled.current (inv : Labelled s requests) {b : BucketId}
    (listed : c ∈ (s.buckets b).usedList) (written : ¬ Unwritten s c) :
    requests c = some ⟨(s.memory c).name, (s.memory c).size⟩ := by
  have used : (view s c).used b ≠ 0 := (List.count_pos_iff.mpr listed).ne'
  by_cases nobody : ∀ h, stage s c h = none
  · rcases (inv c).rest nobody with absent | ⟨_, free⟩
    · exact absurd (congrFun absent.2.1 b) used
    · exact absurd (congrFun free.2.1 b) used
  · obtain ⟨h, has⟩ := not_forall.mp nobody
    obtain ⟨st, has⟩ := Option.ne_none_iff_exists'.mp has
    have ok := (inv c).held h st has
    cases st with
    | unnamed name size => exact absurd (unwritten_of_stage has (.inl ⟨name, size, rfl⟩)) written
    | unsized size => exact absurd (unwritten_of_stage has (.inr ⟨size, rfl⟩)) written
    | written => exact ok.2.2
    | leaving => exact ok.2
    | loose => exact absurd (congrFun ok.2.1 b) used

end Steps

end Libam.Pool.Diagnosis
