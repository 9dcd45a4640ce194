import Libam.Strhash.Calls

/-! When a hash table grows, and how full it can be. -/

namespace Libam.Strhash

open Libam.Lists Libam.Interleaving

variable {V : Type} {hash hash' start : Amstrhash V} {entries entries' : List Pointer}
  {key : Pointer} {hv : UInt64} {value : Option V} {allocs : Allocations} {op : Op V}

section Arrays

theorem room_iff {capacity : UInt64} :
    capacity.toNat ≤ slotsOf capacity ↔ capacity.toNat * 24 < wordSize := by
  constructor
  · intro room
    have bytes := (bucketBytes capacity).toNat_lt
    have places : capacity.toNat * 24 ≤ (bucketBytes capacity).toNat :=
      (Nat.le_div_iff_mul_le (by decide)).mp room
    exact Nat.lt_of_le_of_lt places bytes
  · intro fits
    rw [slotsOf_eq fits]

theorem upsize_unfit (exact : hash.capacity.toNat * 2 < wordSize)
    (unfit : ¬ hash.capacity.toNat * 2 * 24 < wordSize) :
    amstrhashUpsize hash true = .error .bounds := by
  have short : ¬ (hash.capacity * 2).toNat ≤ slotsOf (hash.capacity * 2) := by
    rw [room_iff, toNat_double exact]
    exact unfit
  simp only [amstrhashUpsize, if_true, amstrhashInitBuckets, if_neg short, bind, Except.bind]

def Roomy (hash : Amstrhash V) : Prop :=
  hash.attr.percentThreashold.toNat * hash.capacity.toNat < wordSize ∧
    hash.capacity.toNat * 2 < wordSize

theorem insertEnt_unfit (exact : hash.flags.fixedSize = false → hash.capacity.toNat * 2 < wordSize)
    (unfit : ¬ hash.capacity.toNat * 2 * 24 < wordSize) (array : allocs.array = true)
    (key : Option Pointer) (hv : UInt64) (value : Option V) :
    insertEnt hash key hv value allocs = .error .bounds ∨
      insertEnt hash key hv value allocs = insertEnt hash key hv value
      { allocs with array := false } := by
  cases place : amstrhashBucket hash hv with
  | error fault => exact .inr (by simp only [insertEnt, place, bind, Except.bind])
  | ok bucket =>
      cases search : findEnt hash key hv (hash.buckets bucket).entries with
      | error fault => exact .inr (by simp only [insertEnt, place, search, bind, Except.bind])
      | ok out =>
          cases out with
          | some ent => exact .inr (by simp only [insertEnt, place, search, bind, Except.bind])
          | none =>
              by_cases resizes : shouldResize hash bucket = true
              · left
                have grows : hash.flags.fixedSize = false := by
                  by_contra fixed
                  simp [shouldResize, fixed] at resizes
                simp only [insertEnt, place, search, bind, Except.bind, addEnt, resizes,
                  if_true, array, upsize_unfit (exact grows) unfit]
              · right
                simp only [insertEnt, place, search, bind, Except.bind, addEnt, resizes,
                  Bool.false_eq_true, if_false]

def Usable (hash : Amstrhash V) (op : Op V) : Prop :=
  match op with
  | .insert key _ allocs =>
      (∃ str, hash.strings key = some str) ∧ Unused hash allocs.copy allocs.ent
  | op => Ready hash op hash

theorem wrlock_fixed {locked : Amstrhash V} (taken : hash.wrlock = .ok locked) :
    locked.capacity = hash.capacity ∧ locked.flags = hash.flags := by
  simp only [Amstrhash.wrlock, reduceCtorEq, and_false, if_false] at taken
  split at taken
  · split at taken
    · cases taken
      exact ⟨rfl, rfl⟩
    · cases taken
  · cases taken
    exact ⟨rfl, rfl⟩

theorem insertable_of_returned (mapped : ∃ str, hash.strings key = some str)
    (unused : Unused hash allocs.copy allocs.ent)
    (exact : hash.flags.fixedSize = false → hash.capacity.toNat * 2 < wordSize)
    {result : Amstrhash V × Result}
    (returned : apply hash (.insert key value allocs) = .ok result) :
    ∃ allocs', Insertable hash key allocs' ∧
    apply hash (.insert key value allocs') = .ok result := by
  by_cases fits : allocs.array = true → hash.capacity.toNat * 2 * 24 < wordSize
  · exact ⟨allocs, ⟨mapped, unused, fits⟩, returned⟩
  obtain ⟨array, unfit⟩ := Classical.not_imp.mp fits
  refine ⟨{ allocs with array := false },
    ⟨mapped, ⟨unused.copy, unused.ent⟩, fun none => by cases none⟩, ?_⟩
  obtain ⟨str, here⟩ := mapped
  simp only [apply, amstrhashInsert, calcHash_spec hash here, bind, Except.bind] at returned ⊢
  cases taken : hash.wrlock with
  | error fault =>
      simp only [taken] at returned
      cases returned
  | ok locked =>
      simp only [taken] at returned ⊢
      obtain ⟨capacity, flags⟩ := wrlock_fixed taken
      have exact' : locked.flags.fixedSize = false → locked.capacity.toNat * 2 < wordSize := by
        rw [capacity, flags]
        exact exact
      have unfit' : ¬ locked.capacity.toNat * 2 * 24 < wordSize := by
        rw [capacity]
        exact unfit
      rcases insertEnt_unfit exact' unfit' array (some key) (amshash str) value with faults | same
      · simp only [faults] at returned
        cases returned
      · rw [← same]
        exact returned

end Arrays

section Growth

def limit (hash : Amstrhash V) : UInt64 := (hash.attr.percentThreashold * hash.capacity) / 100

inductive Growth (hash hash' : Amstrhash V) : Prop
  | keeps : hash'.capacity = hash.capacity → hash'.size.toNat ≤ hash.size.toNat → Growth hash hash'
  | adds : hash'.capacity = hash.capacity → hash'.size = hash.size + 1 →
      (hash.flags.fixedSize = false → hash.size + 1 < limit hash) → Growth hash hash'
  | doubles : hash'.capacity = hash.capacity * 2 → hash.flags.fixedSize = false →
      hash'.size.toNat ≤ hash.size.toNat + 1 → Growth hash hash'

theorem entNew_growth (value : Option V) (filed : Filed hash entries) (kept : Kept hash entries)
    (insertable : Insertable hash key allocs) (absent : Absent hash entries hv) {rc : Amrc}
    (run : amstrhashEntNew hash (place hash hv) (some key) hv value allocs.copy allocs.ent =
      .ok (hash', rc)) :
    hash'.capacity = hash.capacity ∧ (hash'.size = hash.size ∨ hash'.size = hash.size + 1) := by
  rcases entNew_spec value filed kept insertable.readable insertable.unused absent with
    ⟨-, failed⟩ | ⟨ent, buckets, -, -, added, -⟩
  · cases run.symm.trans failed
    exact ⟨rfl, .inl rfl⟩
  · cases run.symm.trans added
    exact ⟨rfl, .inr rfl⟩

theorem addEnt_growth (value : Option V) (filed : Filed hash entries) (kept : Kept hash entries)
    (insertable : Insertable hash key allocs) (absent : Absent hash entries hv) {rc : Amrc}
    (run : addEnt hash (place hash hv) (some key) hv value allocs = .ok (hash', rc))
    (counts : hash'.size.toNat ≤ hash.size.toNat + 1) : Growth hash hash' := by
  by_cases resize : shouldResize hash (place hash hv) = true
  · have grows : hash.flags.fixedSize = false := by
      by_contra fixed
      simp [shouldResize, fixed] at resize
    cases array : allocs.array with
    | false =>
        simp only [addEnt, resize, if_true, amstrhashUpsize, array, Bool.false_eq_true, if_false,
          bind, Except.bind, pure, Except.pure, Except.ok.injEq, Prod.mk.injEq] at run
        exact .keeps (by rw [← run.1]) (by rw [← run.1])
    | true =>
        obtain ⟨buckets, upsized, filed₁⟩ := amstrhashUpsize_spec filed kept.few_entries
          (insertable.fits array)
        simp only [addEnt, resize, if_true, array, upsized, bind, Except.bind, filed₁.bucket] at run
        have rest : Insertable { hash with
            capacity := hash.capacity * 2, slots := slotsOf (hash.capacity * 2),
              buckets := buckets } key
              { allocs with array := false } :=
          ⟨insertable.mapped, ⟨insertable.unused.copy, insertable.unused.ent⟩,
            fun array => by cases array⟩
        have doubled := (entNew_growth value filed₁ (kept.rehoused _ _ _) rest absent run).1
        exact .doubles doubled grows counts
  · have entered : addEnt hash (place hash hv) (some key) hv value allocs =
        amstrhashEntNew hash (place hash hv) (some key) hv value allocs.copy allocs.ent := by
      simp only [addEnt, resize, Bool.false_eq_true, if_false]
    obtain ⟨capacity, same | more⟩ := entNew_growth value filed kept insertable absent
      (entered.symm.trans run)
    · exact .keeps capacity (by rw [same])
    · refine .adds capacity more ?_
      intro grows
      simp only [shouldResize, grows, Bool.not_false, Bool.true_and, Bool.or_eq_true,
        decide_eq_true_eq, not_or, ge_iff_le, UInt64.not_le] at resize
      exact resize.1

theorem insertEnt_growth (hv : UInt64) (value : Option V) (filed : Filed hash entries)
    (kept : Kept hash entries) (insertable : Insertable hash key allocs) {rc : Amrc}
    {old : Option Pointer}
    (run : insertEnt hash (some key) hv value allocs = .ok (hash', rc, old)) :
    Growth hash hash' := by
  obtain ⟨hash₁, entries₁, rc₁, old₁, run₁, inserted, -, kept₁⟩ :=
    insertEnt_spec hv value filed kept insertable
  cases run.symm.trans run₁
  have counts : hash'.size.toNat ≤ hash.size.toNat + 1 := by
    rw [kept₁.size, kept.size]
    cases inserted <;> simp
  obtain ⟨str, here⟩ := insertable.mapped
  obtain ⟨out, searched, found, missed⟩ := filed.find here hv
  cases out with
  | none =>
      simp only [insertEnt, filed.bucket, bind, Except.bind, searched] at run
      cases added : addEnt hash (place hash hv) (some key) hv value allocs with
      | error fault =>
          simp only [added] at run
          cases run
      | ok result =>
          simp only [added, pure, Except.pure, Except.ok.injEq, Prod.mk.injEq] at run
          obtain ⟨rfl, rfl, -⟩ := run
          exact addEnt_growth value filed kept insertable (missed rfl) added counts
  | some ent =>
      have present := found ent rfl
      cases inserted with
      | overwritten => exact .keeps rfl le_rfl
      | refused => exact .keeps rfl le_rfl
      | failed absent => exact absurd present.2 (absent ent present.1)
      | added absent => exact absurd present.2 (absent ent present.1)

theorem Growth.relock (growth : Growth hash hash') (lock lock' : RwLock)
    (calls calls' : List LockCall) :
    Growth (hash.relock lock calls) (hash'.relock lock' calls') := by
  cases growth with
  | keeps capacity size => exact .keeps capacity size
  | adds capacity size below => exact .adds capacity size below
  | doubles capacity grows size => exact .doubles capacity grows size

def Op.inserts : Op V → Bool
  | .insert .. => true
  | _ => false

theorem Outcome.keeps {result : Result} (kept : Kept hash entries)
    (kept' : Kept hash' entries') (outcome : Outcome hash entries op hash' entries' result)
    (other : op.inserts = false) :
    hash'.capacity = hash.capacity ∧ hash'.size.toNat ≤ hash.size.toNat := by
  have sizes : entries'.length ≤ entries.length → hash'.size.toNat ≤ hash.size.toNat :=
    fun fewer => by
    rw [kept'.size, kept.size]
    exact fewer
  cases outcome with
  | insert => cases other
  | remove => exact ⟨rfl, sizes List.length_erase_le⟩
  | removeKey => exact ⟨rfl, sizes List.length_erase_le⟩
  | term removes => exact ⟨removes.fixed.2.2.2.1, sizes (Nat.zero_le _)⟩
  | _ => exact ⟨rfl, le_rfl⟩

theorem unlock_relock (hash : Amstrhash V) :
    ∃ lock lockCalls, hash.unlock = hash.relock lock lockCalls := by
  unfold Amstrhash.unlock
  split
  · exact ⟨_, _, rfl⟩
  · exact ⟨hash.lock, hash.lockCalls, rfl⟩

theorem insert_growth (free : hash.lock = ⟨0, false⟩) (filed : Filed hash entries)
    (kept : Kept hash entries) (insertable : Insertable hash key allocs) {result : Result}
    (returned : apply hash (.insert key value allocs) = .ok (hash', result)) :
    Growth hash hash' := by
  obtain ⟨str, here⟩ := insertable.mapped
  simp only [apply, amstrhashInsert, calcHash_spec hash here, bind, Except.bind,
    wrlock_goes (.inl free)] at returned
  cases run : insertEnt (hash.relock ⟨0, hash.flags.useLock⟩ (hash.called [.wrlock]))
    (some key) (amshash str)
    value allocs with
  | error fault =>
      simp only [run] at returned
      cases returned
  | ok out =>
      obtain ⟨inner, rc, old⟩ := out
      simp only [run, pure, Except.pure, Except.ok.injEq, Prod.mk.injEq] at returned
      have growth := insertEnt_growth (amshash str) value
        (filed.relock ⟨0, hash.flags.useLock⟩ (hash.called [.wrlock]))
        (kept.relock ⟨0, hash.flags.useLock⟩ (hash.called [.wrlock]))
        (show Insertable (hash.relock _ _) key allocs from
          ⟨insertable.mapped, ⟨insertable.unused.copy, insertable.unused.ent⟩, insertable.fits⟩) run
      obtain ⟨lock, lockCalls, unlocked⟩ := unlock_relock inner
      rw [← returned.1, unlocked]
      exact growth.relock hash.lock lock hash.lockCalls lockCalls

end Growth

section Steps

theorem ready_of_returned (usable : Usable hash op)
    (exact : hash.flags.fixedSize = false → hash.capacity.toNat * 2 < wordSize)
    {result : Amstrhash V × Result} (returned : apply hash op = .ok result) :
    ∃ op', Ready hash op' hash ∧ apply hash op' = .ok result ∧ op'.inserts = op.inserts := by
  cases op with
  | insert key value allocs =>
      obtain ⟨mapped, unused⟩ := usable
      obtain ⟨allocs', insertable, returned'⟩ := insertable_of_returned mapped unused exact returned
      exact ⟨.insert key value allocs', insertable, returned', rfl⟩
  | find key => exact ⟨.find key, usable, returned, rfl⟩
  | remove ent => exact ⟨.remove ent, usable, returned, rfl⟩
  | removeKey key => exact ⟨.removeKey key, usable, returned, rfl⟩
  | setEntValue ent value => exact ⟨.setEntValue ent value, usable, returned, rfl⟩
  | term => exact ⟨.term, usable, returned, rfl⟩
  | write address str => exact ⟨.write address str, usable, returned, rfl⟩

structure Grown (hash : Amstrhash V) (op : Op V) (hash' : Amstrhash V) : Prop where
  inv : Inv hash'
  flags : hash'.flags = hash.flags
  attr : hash'.attr = hash.attr
  growth : Growth hash hash'
  keeps : op.inserts = false → hash'.capacity = hash.capacity

theorem step_grown (inv : Inv hash) (usable : Usable hash op)
    (exact : hash.flags.fixedSize = false → hash.capacity.toNat * 2 < wordSize)
    (fired : step hash op = some hash') : Grown hash op hash' := by
  obtain ⟨result, returned⟩ := returned_of_step fired
  obtain ⟨op', ready, returned', inserts⟩ := ready_of_returned usable exact returned
  have inv' := inv.returned ready returned'
  obtain ⟨entries, filed, kept⟩ := inv.held
  rcases inv.lock with free | ⟨uses, held⟩
  · obtain ⟨hash₁, entries₁, result₁, run, outcome, filed₁, kept₁⟩ :=
        apply_spec free filed kept ready
    cases returned'.symm.trans run
    have attr : hash₁.attr = hash.attr := outcome.attr
    have flags : hash₁.flags = hash.flags := outcome.flags
    cases op' with
    | insert key value allocs =>
        exact ⟨inv', flags, attr, insert_growth free filed kept ready returned', fun other => by
          cases inserts.trans other⟩
    | _ =>
        obtain ⟨capacity, size⟩ := outcome.keeps kept kept₁ rfl
        exact ⟨inv', flags, attr, .keeps capacity size, fun _ => capacity⟩
  · cases bare : op'.bare with
    | false => cases returned'.symm.trans (apply_blocked uses held bare ready)
    | true =>
        obtain ⟨hash₁, entries₁, result₁, run, outcome, filed₁, kept₁, -⟩ :=
          apply_bare bare filed kept ready
        cases returned'.symm.trans run
        have other : op'.inserts = false := by
          cases op' with
          | insert => cases bare
          | _ => rfl
        obtain ⟨capacity, size⟩ := outcome.keeps kept kept₁ other
        exact ⟨inv', outcome.flags, outcome.attr, .keeps capacity size, fun _ => capacity⟩

end Steps

section Bounds

variable {op : Op V}

theorem limit_exact (room : Roomy hash) :
    (limit hash).toNat = hash.attr.percentThreashold.toNat * hash.capacity.toNat / 100 := by
  rw [limit, UInt64.toNat_div, UInt64.toNat_mul, Nat.mod_eq_of_lt room.1]
  rfl

theorem Growth.below (growth : Growth hash hash') (flexible : hash.flags.fixedSize = false)
    (attr : hash'.attr = hash.attr) (room : Roomy hash)
    (enough : 100 ≤ hash.attr.percentThreashold.toNat * hash.capacity.toNat)
    (below : hash.size.toNat < hash.attr.percentThreashold.toNat * hash.capacity.toNat / 100) :
    hash'.size.toNat < hash'.attr.percentThreashold.toNat * hash'.capacity.toNat / 100 := by
  rw [attr]
  cases growth with
  | keeps capacity size =>
      rw [capacity]
      exact Nat.lt_of_le_of_lt size below
  | adds capacity size next =>
      rw [capacity, size, ← limit_exact room]
      exact UInt64.lt_iff_toNat_lt.mp (next flexible)
  | doubles capacity _ size =>
      rw [capacity, toNat_double room.2, ← Nat.mul_assoc]
      omega

structure Loaded (start hash : Amstrhash V) : Prop where
  inv : Inv hash
  flags : hash.flags = start.flags
  attr : hash.attr = start.attr
  fixed : start.flags.fixedSize = true → hash.capacity = start.capacity
  room : start.flags.fixedSize = false → Roomy hash
  enough : start.flags.fixedSize = false →
    100 ≤ hash.attr.percentThreashold.toNat * hash.capacity.toNat
  below : start.flags.fixedSize = false →
    hash.size.toNat < hash.attr.percentThreashold.toNat * hash.capacity.toNat / 100
  power : start.flags.fixedSize = false → ∃ k, hash.capacity.toNat = start.capacity.toNat * 2 ^ k

def Growing (hash : Amstrhash V) (op : Op V) (hash' : Amstrhash V) : Prop :=
  Usable hash op ∧ (hash.flags.fixedSize = false → Roomy hash')

theorem Loaded.step (loaded : Loaded start hash) (growing : Growing hash op hash')
    (fired : step hash op = some hash') : Loaded start hash' := by
  have flexible (loose : start.flags.fixedSize = false) : hash.flags.fixedSize = false := by
    rw [loaded.flags]
    exact loose
  have exact (loose : hash.flags.fixedSize = false) : hash.capacity.toNat * 2 < wordSize :=
    (loaded.room (loaded.flags ▸ loose)).2
  have grown := step_grown loaded.inv growing.1 exact fired
  have capacity (loose : start.flags.fixedSize = false) :
      hash'.capacity.toNat = hash.capacity.toNat ∨
      hash'.capacity.toNat = hash.capacity.toNat * 2 := by
    cases grown.growth with
    | keeps same => exact .inl (congrArg _ same)
    | adds same => exact .inl (congrArg _ same)
    | doubles same => exact .inr (same ▸ toNat_double (loaded.room loose).2)
  refine ⟨grown.inv, grown.flags.trans loaded.flags, grown.attr.trans loaded.attr, fun fixed => ?_,
    fun loose => growing.2 (flexible loose), fun loose => ?_, fun loose => ?_, fun loose => ?_⟩
  · cases grown.growth with
    | keeps same => exact same.trans (loaded.fixed fixed)
    | adds same => exact same.trans (loaded.fixed fixed)
    | doubles _ loose => cases fixed.symm.trans (loaded.flags ▸ loose)
  · rw [grown.attr]
    refine (loaded.enough loose).trans (Nat.mul_le_mul_left _ ?_)
    rcases capacity loose with same | doubled <;> omega
  · exact grown.growth.below (flexible loose) grown.attr (loaded.room loose) (loaded.enough loose)
      (loaded.below loose)
  · obtain ⟨k, isPower⟩ := loaded.power loose
    rcases capacity loose with same | doubled
    · exact ⟨k, same.trans isPower⟩
    · exact ⟨k + 1, by rw [doubled, isPower, Nat.pow_succ, Nat.mul_assoc]⟩

end Bounds

section Runs

theorem started_of_made {capacity : UInt64} {flags : StrhashFlags} {attr : Option AmstrhashAttr}
    {handle lockReady array : Bool} {strings : Pointer → Option CString}
    (made : amstrhashInit capacity flags attr handle lockReady array strings = .ok (some start)) :
    Started start ∧ start.size = 0 := by
  obtain ⟨size, -, room, rfl⟩ := init_made made
  exact ⟨⟨_, _, _, _, _, _, _, made, room_iff.mp room⟩, rfl⟩

/-- A table that can grow is never as full as its percentage says, it grows by doubling, at most
once in an insertion and in no other call, and a table of fixed size does not grow. -/
theorem amstrhash_load_bounded {capacity : UInt64} {flags : StrhashFlags}
    {attr : Option AmstrhashAttr}
    {handle lockReady array : Bool} {strings : Pointer → Option CString} {ops : List (Op V)}
    (made : amstrhashInit capacity flags attr handle lockReady array strings = .ok (some start))
    (room : start.flags.fixedSize = false → Roomy start)
    (enough : start.flags.fixedSize = false →
      100 ≤ start.attr.percentThreashold.toNat * start.capacity.toNat)
    (run : Run step Growing start ops hash) :
    (start.flags.fixedSize = true → hash.capacity = start.capacity) ∧
    (start.flags.fixedSize = false →
      hash.size.toNat < start.attr.percentThreashold.toNat * hash.capacity.toNat / 100 ∧
      ∃ k, hash.capacity.toNat = start.capacity.toNat * 2 ^ k) ∧
    ∀ op hash', Growing hash op hash' → step hash op = some hash' → hash'.capacity = hash.capacity ∨
      op.inserts = true ∧ start.flags.fixedSize = false ∧
        hash'.capacity.toNat = hash.capacity.toNat * 2 := by
  obtain ⟨started, empty⟩ := started_of_made made
  have initial : Loaded start start := by
    refine ⟨(inv_started started).1, rfl, rfl, fun _ => rfl, room, enough, fun loose => ?_,
      fun _ => ⟨0, by simp⟩⟩
    rw [empty]
    exact Nat.div_pos (enough loose) (by decide)
  have loaded : Loaded start hash := by
    apply run.invariant (Loaded start) initial
    intro before op after loaded fired growing
    exact loaded.step growing fired
  refine ⟨loaded.fixed, fun loose => ⟨loaded.attr ▸ loaded.below loose, loaded.power loose⟩,
    fun op hash' growing fired => ?_⟩
  have exact (loose : hash.flags.fixedSize = false) : hash.capacity.toNat * 2 < wordSize :=
    (loaded.room (loaded.flags ▸ loose)).2
  have grown := step_grown loaded.inv growing.1 exact fired
  cases grown.growth with
  | keeps same => exact .inl same
  | adds same => exact .inl same
  | doubles same loose =>
      cases inserts : op.inserts with
      | false => exact .inl (grown.keeps inserts)
      | true =>
          have flexible : start.flags.fixedSize = false := loaded.flags ▸ loose
          exact .inr ⟨rfl, flexible, same ▸ toNat_double (loaded.room flexible).2⟩

/-- The first insertion at 13 percent of 8 buckets doubles the capacity. -/
theorem amstrhash_load_bounded_sample : ∃ start hash : Amstrhash ℕ, hash.capacity = 16 ∧
    (start.flags.fixedSize = true → hash.capacity = start.capacity) ∧
    (start.flags.fixedSize = false →
      hash.size.toNat < start.attr.percentThreashold.toNat * hash.capacity.toNat / 100 ∧
      ∃ k, hash.capacity.toNat = start.capacity.toNat * 2 ^ k) ∧
    ∀ op hash', Growing hash op hash' → step hash op = some hash' → hash'.capacity = hash.capacity ∨
      op.inserts = true ∧ start.flags.fixedSize = false ∧
        hash'.capacity.toNat = hash.capacity.toNat * 2 := by
  obtain ⟨start, hash, made, fired, grown, percent, first, percent', mapped, copy, unused⟩ :
      ∃ start hash : Amstrhash ℕ,
      amstrhashInit 0 ⟨false, true, true, false, false⟩ (some ⟨13, 4, 0, false⟩) true true true
          sampleStrings =
          .ok (some start) ∧
        step start sampleInsert = some hash ∧ hash.capacity = 16 ∧
        start.attr.percentThreashold = 13 ∧
        start.capacity = 8 ∧ hash.attr.percentThreashold = 13 ∧
        (∃ str, start.strings ⟨16, by decide⟩ = some str) ∧ start.strings ⟨48, by decide⟩ = none ∧
        start.ents ⟨64, by decide⟩ = none :=
    ⟨_, _, rfl, rfl, rfl, rfl, rfl, rfl, ⟨_, rfl⟩, rfl, rfl⟩
  have growing : Growing start sampleInsert hash := by
    refine ⟨⟨mapped, fun c same => Option.some.inj same ▸ copy, fun e same =>
      Option.some.inj same ▸ unused⟩,
      fun _ => ?_⟩
    rw [Roomy, percent', grown]
    decide
  refine ⟨start, hash, grown, amstrhash_load_bounded made (fun _ => ?_) (fun _ => ?_)
    (Run.nil.snoc fired growing)⟩
  · rw [Roomy, percent, first]
    decide
  · rw [percent, first]
    decide

end Runs

end Libam.Strhash
