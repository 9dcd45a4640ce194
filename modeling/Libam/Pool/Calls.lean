import Libam.Pool.Ownership

/-! Threads that allocate and free: where no call takes a chunk too early, no call writes to a chunk
that is not its own. -/

namespace Libam.Pool

open Libam.Custody Libam.Interleaving

variable {Thread : Type} {cfg : Config} {c : Addr} {s s' : Ampool Thread} {i : Thread}

section Views

@[simp] theorem view_goto [DecidableEq Thread] (pc : Pc) (d : Addr) :
    view (s.goto i pc) d = view s d := rfl

theorem view_store (ch : AmpoolChunk) (d : Addr) :
    view (s.store c ch) d = if d = c then { view s d with chunk := ch } else view s d := by
  by_cases same : d = c <;> simp [view, Ampool.store, same]

theorem view_setBucket (b : BucketId) (bucket : AmpoolBucket) (d : Addr) :
    view (s.setBucket b bucket) d = { view s d with
      used := Function.update (view s d).used b (bucket.usedList.count d)
      free := Function.update (view s d).free b (bucket.freeList.count d) } := by
  simp only [view, Ampool.setBucket, View.mk.injEq, true_and]
  constructor <;> funext b' <;> by_cases same : b' = b <;> simp [same]

theorem view_setBucket_other (b : BucketId) (bucket : AmpoolBucket) {d : Addr}
    (used : bucket.usedList.count d = (s.buckets b).usedList.count d)
    (free : bucket.freeList.count d = (s.buckets b).freeList.count d) :
    view (s.setBucket b bucket) d = view s d := by
  have usedSame : Function.update (view s d).used b
      (bucket.usedList.count d) = (view s d).used := by
    rw [used]
    exact Function.update_eq_self ..
  have freeSame : Function.update (view s d).free b
      (bucket.freeList.count d) = (view s d).free := by
    rw [free]
    exact Function.update_eq_self ..
  rw [view_setBucket, usedSame, freeSame]

theorem sizes_setBucket (sizes : ∀ b, (s.buckets b).stats.elementSize = bucketSize b) {b : BucketId}
    {bucket : AmpoolBucket} (same : bucket.stats.elementSize = bucketSize b) (b' : BucketId) :
    ((s.setBucket b bucket).buckets b').stats.elementSize = bucketSize b' := by
  by_cases here : b' = b
  · subst here
    simpa [Ampool.setBucket] using same
  · simpa [Ampool.setBucket, here] using sizes b'

theorem inUse_fresh (absent : Absent (view s c)) {ch : AmpoolChunk} {b : BucketId}
    {bucket : AmpoolBucket} (used : bucket.usedList = c :: (s.buckets b).usedList)
    (free : bucket.freeList = (s.buckets b).freeList) :
    InUse (view ((s.malloc (some (c, ch))).setBucket b bucket) c) b := by
  have unused : (s.buckets b).usedList.count c = 0 := congrFun absent.2.1 b
  rw [view_setBucket, used, free]
  refine ⟨Function.update_self .., ?_, ?_⟩
  · show Function.update (view s c).used b (List.count c (c :: _)) = _
    rw [absent.2.1, List.count_cons_self, unused]
    rfl
  · exact (Function.update_eq_self ..).trans absent.2.2

theorem inUse_listed {b : BucketId} (onFree : OnFree (view s c) b) {free : List Addr}
    (list : (s.buckets b).freeList = c :: free) {bucket : AmpoolBucket}
    (used : bucket.usedList = c :: (s.buckets b).usedList) (left : bucket.freeList = free) :
    InUse (view (s.setBucket b bucket) c) b := by
  have unused : (s.buckets b).usedList.count c = 0 := congrFun onFree.2.1 b
  have once : (s.buckets b).freeList.count c = 1 := by
    have count := congrFun onFree.2.2 b
    rwa [Pi.single_eq_same] at count
  rw [list, List.count_cons_self] at once
  rw [view_setBucket, used, left]
  refine ⟨onFree.1, ?_, ?_⟩
  · show Function.update (view s c).used b (List.count c (c :: _)) = _
    rw [onFree.2.1, List.count_cons_self, unused]
    rfl
  · show Function.update (view s c).free b (List.count c free) = _
    rw [onFree.2.2, show List.count c free = 0 by omega, Pi.single, Function.update_idem]
    exact Function.update_eq_self ..

theorem view_freeSection_other {b : BucketId} {size : UInt32} {d : Addr} (other : d ≠ c) :
    view (s.setBucket b (bucketFreeSection (s.buckets b) c size)) d = view s d := by
  refine view_setBucket_other _ _ ?_ ?_
  · rw [bucketFreeSection, List.count_erase_of_ne other]
  · rw [bucketFreeSection]
    simp only
    split
    · rw [List.count_cons_of_ne (Ne.symm other)]
    · rfl

theorem place_freeSection {b : BucketId} (place : InUse (view s c) b) (size : UInt32) :
    if 0 < (s.buckets b).stats.elementSize
    then OnFree (view (s.setBucket b (bucketFreeSection (s.buckets b) c size)) c) b
    else Loose (view (s.setBucket b (bucketFreeSection (s.buckets b) c size)) c) := by
  have once : (s.buckets b).usedList.count c = 1 := by
    have count := congrFun place.2.1 b
    rwa [Pi.single_eq_same] at count
  have never : (s.buckets b).freeList.count c = 0 := congrFun place.2.2 b
  have used : Function.update (view s c).used b
      ((s.buckets b).usedList.erase c |>.count c) = 0 := by
    rw [place.2.1, List.count_erase_self, once, Pi.single, Function.update_idem]
    exact Function.update_eq_self ..
  rw [view_setBucket, bucketFreeSection]
  simp only [used, place.2.2]
  split
  · refine ⟨place.1, rfl, ?_⟩
    rw [List.count_cons_self, never]
    rfl
  · refine ⟨place.1, rfl, ?_⟩
    rw [never]
    exact Function.update_eq_self ..

end Views

section Free

def Taken (s : Ampool Thread) (c : Addr) : Prop :=
  (∃ b, InUse (view s c) b) ∨ Loose (view s c) ∨
    ∃ j call set, s.pc j = .freeMagic call set ∧ call.chunk = c ∧ OnFree (view s c) call.bucket

theorem taken_of_running {j : Thread} (has : (s.pc j).chunk = some c)
    (running : Running cfg c (view s c) (s.pc j)) : Taken s c := by
  cases place : s.pc j with
  | idle | allocEnter | freeSub | freeDec => simp [place, Pc.chunk] at has
  | allocName | allocSize =>
      rw [place] at running
      exact .inl ⟨_, running.2⟩
  | allocMagic =>
      rw [place] at running
      exact .inl ⟨_, running.2.1⟩
  | allocClear =>
      rw [place] at running
      exact .inl ⟨_, running.1.place⟩
  | allocAdd | allocInc | freeSection =>
      rw [place] at running
      exact .inl ⟨_, running.place⟩
  | freeEnter =>
      rw [place] at running
      obtain ⟨_, _, owned⟩ := running
      exact .inl ⟨_, owned.place⟩
  | freeMagic call set =>
      rw [place] at running has
      exact .inr (.inr ⟨j, call, set, place, Option.some.inj has, running.2.1⟩)
  | freeMemory =>
      rw [place] at running
      exact .inr (.inl running)

theorem Inv.nobody (inv : Inv cfg s) (untaken : ¬ Taken s c) :
    Rest cfg c (view s c) ∧ s.held c = none ∧ ∀ j, (s.pc j).chunk ≠ some c := by
  have kept := inv.kept c
  have free : s.held c = none := by
    cases held : s.held c with
    | none => rfl
    | some size =>
        obtain ⟨_, _, owned⟩ := (inv.owned held).1
        exact absurd (.inl ⟨_, owned.place⟩) untaken
  have idle : ∀ j, (s.pc j).chunk ≠ some c := fun j has =>
    untaken (taken_of_running has (inv.running has).1)
  refine ⟨kept.rest fun h => ?_, free, idle⟩
  cases h with
  | owner => simp [role, free]
  | thread j => simp [role, idle j]

theorem Inv.absent (inv : Inv cfg s) (unmapped : s.mapped c = false) :
    Absent (view s c) ∧ s.held c = none ∧ ∀ j, (s.pc j).chunk ≠ some c := by
  have clash (mapped : (view s c).mapped = true) : False := by simp [view, unmapped] at mapped
  have untaken : ¬ Taken s c := by
    rintro (⟨_, used⟩ | loose | ⟨_, _, _, _, _, free⟩)
    · exact clash used.1
    · exact clash loose.1
    · exact clash free.1
  obtain ⟨rest, apart⟩ := inv.nobody untaken
  refine ⟨?_, apart⟩
  rcases rest with absent | ⟨_, _, _, free, _⟩
  · exact absent
  · exact (clash free.1).elim

theorem Inv.settled (inv : Inv cfg s) (settled : Settled s c) {b : BucketId}
    (listed : c ∈ (s.buckets b).freeList) : (b ≠ .oversized ∧ OnFree (view s c) b ∧
      ∃ allocationSize, Fits b (s.memory c).size allocationSize ∧
        Poisoned cfg c (s.memory c) allocationSize) ∧
      s.held c = none ∧ ∀ j, (s.pc j).chunk ≠ some c := by
  have count : 0 < (view s c).free b := List.count_pos_iff.mpr listed
  have clash (free : (view s c).free = 0) : False := by simp [free] at count
  have untaken : ¬ Taken s c := by
    rintro (⟨_, used⟩ | loose | ⟨j, call, set, working, same, _⟩)
    · exact clash used.2.2
    · exact clash loose.2.2
    · exact settled j call set working same
  obtain ⟨rest, apart⟩ := inv.nobody untaken
  refine ⟨?_, apart⟩
  rcases rest with absent | ⟨b', allocationSize, stepped, free, fits, poisoned⟩
  · exact (clash absent.2.2).elim
  · have same : b = b' := by
      by_contra other
      simp [free.2.2, other] at count
    subst same
    exact ⟨stepped, free, allocationSize, fits, poisoned⟩

end Free

section Steps

theorem Inv.ownerWrite (inv : Inv cfg s) {size : UInt32} (held : s.held c = some size) {offset : ℕ}
    (inside : offset < size.toNat) (value : UInt8) :
    Inv cfg (s.store c
      { s.memory c with data := Function.update (s.memory c).data offset value }) := by
  obtain ⟨⟨b, allocationSize, owned⟩, others⟩ := inv.owned held
  refine ⟨inv.sound, inv.sizes, inv.requests, fun d => ?_⟩
  by_cases same : d = c
  · subst same
    refine kept_of_held (h := .owner) (r := .owned size) (by simp [role, Ampool.store, held])
      (fun h other => ?_) ⟨b, allocationSize, ?_⟩
    · cases h with
      | owner => exact absurd rfl other
      | thread j => simp [role, Ampool.store, others j]
    · rw [view_store, if_pos rfl]
      refine ⟨owned.fits, owned.place, owned.size, owned.marked.magic, fun valid k beyond => ?_⟩
      have apart : k ≠ offset := by
        have low : (s.memory d).size.toNat ≤ k := beyond.1
        have size' : (s.memory d).size = size := owned.size
        rw [size'] at low
        omega
      simp only [Function.update_of_ne apart]
      exact owned.marked.bytes valid k beyond
  · rw [view_store, if_neg same]
    exact inv.kept d

variable [DecidableEq Thread]

theorem Inv.idle (inv : Inv cfg s) (before : (s.pc i).chunk = none) {pc : Pc}
    (after : pc.chunk = none) (request : ∀ size name, pc = .allocEnter size name → size ≤ maxSize) :
    Inv cfg (s.goto i pc) := by
  have now : (s.goto i pc).pc i = pc := Function.update_self ..
  refine inv.quiet (i := i) (fun _ => rfl) rfl
    (fun j other => Function.update_of_ne other ..) before
    (by rw [now, after]) inv.sound inv.sizes fun size name same => ?_
  rw [now] at same
  exact request size name same

omit [DecidableEq Thread] in
theorem Inv.count (inv : Inv cfg s) (size elementCount : UInt64) :
    Inv cfg { s with size := size, elementCount := elementCount } :=
  ⟨inv.sound, inv.sizes, inv.requests, inv.kept⟩

theorem Inv.giveOut (inv : Inv cfg s) {call : Call} (entered : s.pc i = .allocInc call) :
    Inv cfg ({ s with held := Function.update s.held call.chunk (some call.size) }.goto
      i .idle) := by
  obtain ⟨has, running, _, others⟩ := inv.runningAt entered rfl
  have now : ({ s with held := Function.update s.held call.chunk (some call.size) }.goto i .idle :
      Ampool Thread).pc i = .idle := Function.update_self ..
  refine inv.transfer
    (changes_of has (fun _ _ => rfl) (fun d other => Function.update_of_ne other ..)
    (fun j other => Function.update_of_ne other ..) (.inl (by rw [now, Pc.chunk]))) others inv.sound
    inv.sizes (fun _ _ => ?_) (.inr (.inl ⟨call.bucket, call.size, call.sizeMalloc,
      Function.update_self .., by rw [now, Pc.chunk], ?_⟩))
  · rw [now]
    intro same
    cases same
  · exact ⟨running.fits, running.place, running.size, running.marked⟩

theorem Inv.free (inv : Inv cfg s) {size : UInt32} (held : s.held c = some size)
    (idle : (s.pc i).chunk = none) :
    Inv cfg ({ s with held := Function.update s.held c none }.goto i (.freeEnter c size)) := by
  obtain ⟨owned, others⟩ := inv.owned held
  have now : ({ s with held := Function.update s.held c none }.goto i (.freeEnter c size) :
      Ampool Thread).pc i = .freeEnter c size := Function.update_self ..
  refine inv.transfer ⟨fun _ _ => rfl, fun d other => Function.update_of_ne other ..,
    fun j other => Function.update_of_ne other .., fun d here => ?_, fun d here => ?_⟩
    (fun j _ => others j) inv.sound inv.sizes (fun _ _ => ?_)
    (.inl ⟨Function.update_self .., ?_, ?_⟩)
  · rw [idle] at here
    cases here
  · rw [now] at here
    exact (Option.some.inj here).symm
  · rw [now]
    intro same
    cases same
  · rw [now]
    rfl
  · rw [now]
    exact owned

theorem Inv.take (inv : Inv cfg s) (idle : (s.pc i).chunk = none) (unheld : s.held c = none)
    (others : ∀ j, (s.pc j).chunk ≠ some c) {t : Ampool Thread}
    (views : ∀ d, d ≠ c → view t d = view s d)
    (frame : t.held = s.held ∧ t.pc = s.pc ∧ t.fault = s.fault ∧ t.buckets = s.buckets)
    {b : BucketId} {bucket : AmpoolBucket} (element : bucket.stats.elementSize = bucketSize b)
    (used : ∀ d, d ≠ c → bucket.usedList.count d = (s.buckets b).usedList.count d)
    (free : ∀ d, d ≠ c → bucket.freeList.count d = (s.buckets b).freeList.count d)
    (place : InUse (view (t.setBucket b bucket) c) b) {size allocationSize : UInt32}
    (fits : Fits b size allocationSize) (name : String) :
    Inv cfg ((t.setBucket b bucket).goto i (.allocName ⟨b, c, size, allocationSize⟩ name)) := by
  obtain ⟨held, pcs, fault, buckets⟩ := frame
  have now : ((t.setBucket b bucket).goto i (.allocName ⟨b, c, size, allocationSize⟩ name)).pc i =
      .allocName ⟨b, c, size, allocationSize⟩ name := Function.update_self ..
  refine inv.transfer (i := i) ⟨fun d other => ?_, fun d _ => congrFun held d, fun j other => ?_,
    fun d here => ?_, fun d here => ?_⟩ (fun j _ => others j) (fault.trans inv.sound)
    (sizes_setBucket (fun b => ?_) element) (fun _ _ => ?_) (.inl ⟨?_, ?_, ?_⟩)
  · rw [view_goto, view_setBucket_other _ _ (buckets ▸ used d other) (buckets ▸ free d other)]
    exact views d other
  · exact (Function.update_of_ne other ..).trans (congrFun pcs j)
  · rw [idle] at here
    cases here
  · rw [now] at here
    exact (Option.some.inj here).symm
  · rw [buckets]
    exact inv.sizes b
  · rw [now]
    intro same
    cases same
  · exact (congrFun held c).trans unheld
  · rw [now]
    rfl
  · rw [now]
    exact ⟨fits, place⟩

theorem Inv.allocEnter (inv : Inv cfg s) {size : UInt32} {name : String}
    (entered : s.pc i = .allocEnter size name) (positive : size ≠ 0)
    {fresh : Option (Addr × AmpoolChunk)} (new : ∀ block ∈ fresh, s.mapped block.1 = false)
    (undisturbed : ∀ b c, ampoolGetBucket (alignSize size) = .ok b →
      (s.buckets b).freeList.head? = some c → Settled s c) :
    Inv cfg (allocEnter cfg s i size name fresh) := by
  have idle : (s.pc i).chunk = none := by rw [entered, Pc.chunk]
  have nonzero : 0 < size.toNat := Nat.pos_of_ne_zero fun zero =>
    positive (UInt32.toNat_inj.mp zero)
  obtain ⟨b, fits⟩ := exists_fits nonzero (inv.requests i size name entered)
  have fit : sizesFit (s.buckets b).stats.elementSize
      (sizeMalloc (s.buckets b).stats.elementSize size)
      size = true := by
    rw [inv.sizes b]
    exact fits.fit
  simp only [Pool.allocEnter, fits.bucket, fit, Bool.not_true, Bool.false_eq_true, if_false]
  rw [inv.sizes b]
  cases list : (s.buckets b).freeList with
  | nil =>
      simp only [bucketAllocSection, list, List.isEmpty_nil, if_true]
      cases fresh with
      | none => exact inv.idle idle rfl fun _ _ same => by cases same
      | some block =>
          obtain ⟨c, ch⟩ := block
          obtain ⟨absent, unheld, others⟩ := inv.absent (new _ rfl)
          refine inv.take (t := s.malloc (some (c, ch))) idle unheld others (fun d other => ?_)
            ⟨rfl, rfl, rfl, rfl⟩ ?_ (fun d other => ?_) (fun d other => ?_)
            (inUse_fresh absent rfl list.symm) fits name
          · simp [view, Ampool.malloc, Ampool.store, other]
          · exact inv.sizes b
          · exact List.count_cons_of_ne (Ne.symm other)
          · rw [list]
  | cons c free =>
      obtain ⟨⟨stepped, onFree, allocationSize, fits', poisoned⟩, unheld, others⟩ :=
        inv.settled (undisturbed b c fits.bucket (by rw [list]; rfl)) (b := b) (by simp [list])
      have sameSize : sizeMalloc (bucketSize b) size = allocationSize := by
        rw [← fits'.sizeMalloc, sizeMalloc, sizeMalloc]
        simp [bucketSize_eq_zero, stepped]
      simp only [bucketAllocSection, list, List.isEmpty_cons, Bool.false_eq_true,
        if_false, sameSize, (test_poisoned_iff fits').mpr poisoned, if_true]
      refine inv.take idle unheld others (fun _ _ => rfl) ⟨rfl, rfl, rfl, rfl⟩ ?_
        (fun d other => ?_) (fun d other => ?_) (inUse_listed onFree list rfl rfl)
        (sameSize ▸ fits) name
      · exact inv.sizes b
      · exact List.count_cons_of_ne (Ne.symm other)
      · rw [list, List.count_cons_of_ne (Ne.symm other)]

theorem Inv.freeEnter (inv : Inv cfg s) {size : UInt32} (entered : s.pc i = .freeEnter c size) :
    Inv cfg (freeEnter cfg s i c size) := by
  obtain ⟨has, running, -⟩ := inv.runningAt entered rfl
  obtain ⟨b, allocationSize, fits, place, same, marked⟩ := running
  have same' : (s.memory c).size = size := same
  have test := (test_marked_iff (same ▸ fits)).mpr marked
  have fit := fits.fit
  simp only [Pool.freeEnter, fits.bucket, inv.sizes b, same', fits.sizeMalloc, fit, Bool.not_true,
    Bool.false_eq_true, if_false]
  rw [show chunkMagicTest cfg.magic c (s.memory c) allocationSize false cfg.validate
    cfg.validate = true
    from test, if_pos rfl]
  exact inv.move has rfl ⟨fits, place, same, marked⟩

/-- The section of `free`: the chunk goes to the free list, or out of the pool. -/
theorem Inv.freeSection (inv : Inv cfg s) {call : Call} (entered : s.pc i = .freeSection call) :
    Inv cfg ((s.setBucket call.bucket (bucketFreeSection (s.buckets call.bucket) call.chunk
        (s.memory call.chunk).size)).goto i
      (if 0 < (s.buckets call.bucket).stats.elementSize then .freeMagic call .start
        else .freeMemory call)) := by
  obtain ⟨has, running, unheld, others⟩ := inv.runningAt entered rfl
  obtain ⟨fits, place, same, marked⟩ := running
  have freed := place_freeSection place (s.memory call.chunk).size
  obtain ⟨pc, defpc⟩ : ∃ pc, pc = (if 0 < (s.buckets call.bucket).stats.elementSize
    then Pc.freeMagic call .start else .freeMemory call) := ⟨_, rfl⟩
  have chunk : pc.chunk = some call.chunk := by
    rw [defpc]
    split <;> rfl
  rw [← defpc]
  obtain ⟨bucket, defbucket⟩ : ∃ bucket, bucket = bucketFreeSection
    (s.buckets call.bucket) call.chunk (s.memory call.chunk).size := ⟨_, rfl⟩
  rw [← defbucket] at freed ⊢
  have now : ((s.setBucket call.bucket bucket).goto i pc).pc i = pc := Function.update_self ..
  refine inv.transfer (changes_of has (fun d other => ?_) (fun _ _ => rfl)
      (fun j other => Function.update_of_ne other ..) (.inr (now.symm ▸ chunk))) others inv.sound
    (sizes_setBucket inv.sizes (by rw [defbucket]; exact inv.sizes _)) (fun _ _ => ?_)
    (.inl ⟨unheld, now.symm ▸ chunk, ?_⟩)
  · rw [view_goto, defbucket, view_freeSection_other other]
  · rw [now]
    intro enter
    rw [enter] at chunk
    cases chunk
  · rw [now, view_goto, defpc]
    split
    · rename_i stepped
      rw [if_pos stepped] at freed
      have apart : call.bucket ≠ .oversized := fun oversized => by
        rw [inv.sizes, bucketSize_eq_zero.mpr oversized] at stepped
        exact UInt64.lt_irrefl 0 stepped
      exact ⟨fits, freed, apart, same, freeing_start⟩
    · rename_i oversized
      rw [if_neg oversized] at freed
      exact freed

theorem Inv.letGo (inv : Inv cfg s) (has : (s.pc i).chunk = some c) {t : Ampool Thread}
    (views : ∀ d, d ≠ c → view t d = view s d)
    (frame : t.held = s.held ∧ t.pc = s.pc ∧ t.fault = s.fault)
    (sizes : ∀ b, (t.buckets b).stats.elementSize = bucketSize b)
    (rest : Rest cfg c (view t c)) (size : UInt32) : Inv cfg (t.goto i (.freeSub size)) := by
  obtain ⟨held, pcs, fault⟩ := frame
  obtain ⟨_, unheld, others⟩ := inv.running has
  have now : (t.goto i (.freeSub size)).pc i = .freeSub size := Function.update_self ..
  refine inv.transfer (i := i)
    (changes_of has views (fun d _ => congrFun held d) (fun j other => ?_)
    (.inl (by rw [now, Pc.chunk]))) others (fault.trans inv.sound) sizes (fun _ _ => ?_)
    (.inr (.inr ⟨(congrFun held c).trans unheld, by rw [now, Pc.chunk], rest⟩))
  · exact (Function.update_of_ne other ..).trans (congrFun pcs j)
  · rw [now]
    intro same
    cases same

theorem Inv.freeMagic (inv : Inv cfg s) {call : Call} {set : MagicSet}
    (entered : s.pc i = .freeMagic call set) {chunk : AmpoolChunk} {set' : MagicSet}
    (stepped : chunkMagicSet cfg.magic call.chunk (s.memory call.chunk) call.sizeMalloc false
      cfg.validate cfg.validate set = (chunk, set')) :
    Inv cfg ((s.store call.chunk chunk).goto i
      (afterSet set' (.freeMagic call) (.freeSub call.size))) := by
  obtain ⟨has, running, -⟩ := inv.runningAt entered rfl
  obtain ⟨fits, place, apart, same, freeing⟩ := running
  obtain ⟨ch', set'', stepped', size', freeing'⟩ := freeing.step (same ▸ fits)
  obtain ⟨rfl, rfl⟩ := Prod.mk.inj (stepped.symm.trans stepped')
  rw [afterSet]
  split
  · rename_i last
    refine inv.letGo (t := s.store call.chunk chunk) has
      (fun d other => by rw [view_store, if_neg other]) ⟨rfl, rfl, rfl⟩ inv.sizes ?_ call.size
    rw [view_store, if_pos rfl]
    exact .inr ⟨call.bucket, call.sizeMalloc, apart, place, (size'.trans same) ▸ fits,
      freeing'.poisoned last.1 last.2⟩
  · exact inv.write has rfl ⟨fits, place, apart, size'.trans same, freeing'⟩

theorem Inv.allocMagic (inv : Inv cfg s) {call : Call} {set : MagicSet}
    (entered : s.pc i = .allocMagic call set) {chunk : AmpoolChunk} {set' : MagicSet}
    (stepped : chunkMagicSet cfg.magic call.chunk (s.memory call.chunk) call.sizeMalloc true
      cfg.validate cfg.validate set = (chunk, set')) :
    Inv cfg ((s.store call.chunk chunk).goto i (afterSet set' (.allocMagic call)
      (.allocClear call (memsetZero 0 (min32 call.size ampoolMaxMemset).toNat)))) := by
  obtain ⟨has, running, -⟩ := inv.runningAt entered rfl
  obtain ⟨fits, place, same, allocating⟩ := running
  obtain ⟨ch', set'', stepped', size', allocating'⟩ := allocating.step (same ▸ fits)
  obtain ⟨rfl, rfl⟩ := Prod.mk.inj (stepped.symm.trans stepped')
  rw [afterSet]
  split
  · rename_i last
    refine inv.write has rfl ⟨⟨fits, place, size'.trans same, allocating'.marked last.1 last.2⟩,
      fun w member => ?_⟩
    have inside := memsetZero_lt member
    have short : (min32 call.size ampoolMaxMemset).toNat ≤ call.size.toNat := by
      rw [min32]
      split
      · rename_i less
        exact Nat.le_of_lt (UInt32.lt_iff_toNat_lt.mp less)
      · exact Nat.le_refl _
    omega
  · exact inv.write has rfl ⟨fits, place, size'.trans same, allocating'⟩

end Steps

section Runs

variable [DecidableEq Thread]

theorem Inv.step {a : Action Thread} (inv : Inv cfg s) (undisturbed : Undisturbed s a s')
    (fired : step cfg s a = some s') : Inv cfg s' := by
  cases (step_move fired).2 with
  | allocCall i size name place =>
      apply inv.idle (by rw [place, Pc.chunk]) rfl
      intro size' name' same
      cases same
      exact undisturbed
  | freeCall i chunk size place held => exact inv.free held (by rw [place, Pc.chunk])
  | write c offset value size held inside => exact inv.ownerWrite held inside value
  | allocNothing i fresh name place =>
      exact inv.idle (by rw [place, Pc.chunk]) rfl fun _ _ same => by cases same
  | allocEnter i fresh size name place positive new =>
      exact inv.allocEnter place positive new fun b c bucket head =>
        undisturbed size name b c place bucket head
  | allocName i fresh call name place =>
      obtain ⟨has, running, -⟩ := inv.runningAt place rfl
      exact inv.write has rfl running
  | allocSize i fresh call place =>
      obtain ⟨has, running, -⟩ := inv.runningAt place rfl
      exact inv.write has rfl ⟨running.1, running.2, rfl, allocating_start⟩
  | allocMagic i fresh call set set' chunk place stepped => exact inv.allocMagic place stepped
  | allocCleared i fresh call place =>
      obtain ⟨has, running, -⟩ := inv.runningAt place rfl
      exact inv.move has rfl running.1
  | allocClear i fresh call k value writes place =>
      obtain ⟨has, running, -⟩ := inv.runningAt place rfl
      obtain ⟨owned, inside⟩ := running
      have bound : k < (view s call.chunk).chunk.size.toNat := by
        rw [owned.size]
        exact inside (k, value) List.mem_cons_self
      exact inv.write has rfl
        ⟨⟨owned.fits, owned.place, owned.size, owned.marked.write bound value⟩,
        fun w member => inside w (List.mem_cons_of_mem _ member)⟩
  | allocAdd i fresh call place =>
      obtain ⟨has, running, -⟩ := inv.runningAt place rfl
      have still : (Pc.allocInc call).chunk = some call.chunk := rfl
      exact (inv.move has still running).count _ s.elementCount
  | allocInc i fresh call place => exact (inv.giveOut place).count s.size _
  | freeEnter i fresh chunk size place => exact inv.freeEnter place
  | freeSection i fresh call place => exact inv.freeSection place
  | freeMagic i fresh call set set' chunk place stepped => exact inv.freeMagic place stepped
  | freeMemory i fresh call place =>
      obtain ⟨has, running, -⟩ := inv.runningAt place rfl
      refine inv.letGo (t := { s with mapped := Function.update s.mapped call.chunk false }) has
        (fun d other => ?_) ⟨rfl, rfl, rfl⟩ inv.sizes
        (.inl ⟨?_, running.2.1, running.2.2⟩) call.size
      · simp [view, other]
      · simp [view]
  | freeSub i fresh size place =>
      have after : Pc.freeDec.chunk = none := rfl
      exact (inv.idle (by rw [place, Pc.chunk]) after fun _ _ same => by cases same).count
        _ s.elementCount
  | freeDec i fresh place =>
      have after : Pc.idle.chunk = none := rfl
      exact (inv.idle (by rw [place, Pc.chunk]) after fun _ _ same => by cases same).count s.size _

omit [DecidableEq Thread] in
theorem inv_init (memory : Addr → AmpoolChunk) : Inv cfg (ampoolPoolAlloc Thread memory) := by
  refine ⟨rfl, fun _ => rfl, fun _ _ _ entered => (by cases entered), fun c => ?_⟩
  refine kept_of_rest (fun h => ?_) (.inl ⟨rfl, rfl, rfl⟩)
  cases h <;> rfl

/-- A chunk that a call of `free` still marks is not handed out: it is on no used list, no other
call works on it, and nobody owns it. -/
def NoLateWrite (s : Ampool Thread) : Prop :=
  ∀ i call set, s.pc i = .freeMagic call set → (∀ b, call.chunk ∉ (s.buckets b).usedList) ∧
    (∀ j, j ≠ i → (s.pc j).chunk ≠ some call.chunk) ∧ s.held call.chunk = none

/-- No call of `free` writes to a chunk that was handed out since, and no assertion fails. -/
theorem ampool_no_late_write {memory : Addr → AmpoolChunk} {actions : List (Action Thread)}
    (run : Run (step cfg) Undisturbed (ampoolPoolAlloc Thread memory) actions s) :
    s.fault = none ∧ NoLateWrite s := by
  have inv : Inv cfg s := Run.invariant (Inv cfg) (inv_init memory)
    (fun _ a _ inv fired undisturbed => inv.step (a := a) undisturbed fired) run
  refine ⟨inv.sound, fun i call set working => ?_⟩
  obtain ⟨-, running, unheld, others⟩ := inv.runningAt working rfl
  refine ⟨fun b listed => ?_, others, unheld⟩
  have none : (s.buckets b).usedList.count call.chunk = 0 := congrFun running.2.1.2.1 b
  exact List.count_eq_zero.mp none listed

def Pc.marked : Pc → Option Addr
  | .freeMagic call _ => some call.chunk
  | _ => none

def undisturbed [Fintype Thread] (s : Ampool Thread) : Action Thread → Bool
  | .alloc _ size _ => decide (size ≤ maxSize)
  | .advance i _ =>
      match s.pc i with
      | .allocEnter size _ =>
          match ampoolGetBucket (alignSize size) with
          | .ok b => decide (∀ c ∈ (s.buckets b).freeList.head?, ∀ j, (s.pc j).marked ≠ some c)
          | .error _ => true
      | _ => true
  | _ => true

omit [DecidableEq Thread] in
theorem undisturbed_sound [Fintype Thread] {a : Action Thread} (checked : undisturbed s a = true) :
    Undisturbed s a s' := by
  cases a with
  | alloc i size name => exact of_decide_eq_true (p := size ≤ maxSize) checked
  | free => trivial
  | write => trivial
  | advance i fresh =>
      intro size name b c place bucket head j call set marks same
      simp only [undisturbed, place, bucket, decide_eq_true_eq] at checked
      apply checked c head j
      rw [marks, Pc.marked, same]

def steps {Thread : Type} (i : Thread) (count : ℕ) : List (Action Thread) :=
  List.replicate count (.advance i none)

def allocAndFree : List (Action Bool) :=
  [.alloc false 16 "first", .advance false (some (64, .zero))] ++ steps false 23 ++
    [.free false 64 16] ++ steps false 2

/-- A block is freed and its chunk handed to the other thread, which writes into it while the first
thread marks another chunk. -/
def takeFreed : List (Action Bool) :=
  allocAndFree ++ steps false 22 ++ [.alloc true 1 "second"] ++ steps true 1 ++
    [.alloc false 16 "third", .advance false (some (128, .zero))] ++ steps false 23 ++
    [.free false 128 16] ++ steps false 4 ++ steps true 23 ++ steps false 6 ++ [.write 64 0 7]

theorem ampool_no_late_write_sample : ∃ s : Ampool Bool,
    Run (step ⟨0x12345678, true⟩) Undisturbed (ampoolPoolAlloc Bool fun _ => .zero) takeFreed s ∧
      (s.buckets (.step 0)).usedList = [64] ∧ s.held 64 = some 1 ∧ (s.memory 64).data 0 = 7 ∧
      (s.pc false).marked = some 128 ∧ s.fault = none ∧ NoLateWrite s := by
  have computed : (runs (step ⟨0x12345678, true⟩) (ampoolPoolAlloc Bool fun _ => .zero)
      takeFreed).map (fun s =>
      decide ((s.buckets (.step 0)).usedList = [64] ∧ s.held 64 = some 1 ∧
        (s.memory 64).data 0 = 7 ∧ (s.pc false).marked = some 128)) = some true := by decide +kernel
  have checked : allowed (step ⟨0x12345678, true⟩) (fun s a _ => undisturbed s a)
      (ampoolPoolAlloc Bool fun _ => .zero) takeFreed = true := by decide +kernel
  obtain ⟨s, computed, reached⟩ := Option.map_eq_some_iff.mp computed
  obtain ⟨used, held, written, marked⟩ := of_decide_eq_true reached
  have run : Run (step ⟨0x12345678, true⟩) Undisturbed (ampoolPoolAlloc Bool fun _ => .zero)
      takeFreed s :=
    run_of_runs _ (fun _ _ _ => undisturbed_sound) computed checked
  exact ⟨s, run, used, held, written, marked, ampool_no_late_write run⟩

def takeEarly : List (Action Bool) :=
  allocAndFree ++ steps false 19 ++ [.alloc true 1 "second"] ++ steps true 24 ++ steps false 1

/-- The other thread takes the chunk before it is marked free, and an assertion fails; or it takes
the chunk before the last mark, which then lands in its block. -/
theorem ampool_late_write :
    (∃ actions s, Run (step ⟨0x12345678, true⟩) Any
      (ampoolPoolAlloc Bool fun _ => .zero) actions s ∧
      s.fault = some .assertion) ∧
    ∃ actions s s', Run (step ⟨0x12345678, true⟩) Any
      (ampoolPoolAlloc Bool fun _ => .zero) actions s ∧
      step ⟨0x12345678, true⟩ s (.advance false none) = some s' ∧
      (s.buckets (.step 0)).usedList = [64] ∧ s.held 64 = some 1 ∧
      (s.memory 64).data 1 ≠ (s'.memory 64).data 1 := by
  constructor
  · have computed : (runs (step ⟨0x12345678, true⟩) (ampoolPoolAlloc Bool fun _ => .zero)
        (allocAndFree ++ [.alloc true 16 "second", .advance true none])).map Ampool.fault =
        some (some .assertion) := by decide
    obtain ⟨s, run, fault⟩ := Option.map_eq_some_iff.mp computed
    exact ⟨_, s, run_any run, fault⟩
  · have computed : ((runs (step ⟨0x12345678, true⟩) (ampoolPoolAlloc Bool fun _ => .zero)
        takeEarly).bind fun s => (step ⟨0x12345678, true⟩ s (.advance false none)).map fun s' =>
          decide ((s.buckets (.step 0)).usedList = [64] ∧ s.held 64 = some 1 ∧
            (s.memory 64).data 1 ≠ (s'.memory 64).data 1)) = some true := by decide +kernel
    obtain ⟨s, run, rest⟩ := Option.bind_eq_some_iff.mp computed
    obtain ⟨s', fired, late⟩ := Option.map_eq_some_iff.mp rest
    exact ⟨_, s, s', run_any run, fired, of_decide_eq_true late⟩

end Runs

end Libam.Pool
