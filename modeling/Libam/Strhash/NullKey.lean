import Libam.Strhash.AnyKey

/-! NULL as a key of a hash table: when the table keeps it apart from the strings, and when the
search for it compares two NULL pointers. -/

namespace Libam.Strhash

open Libam.Lists Libam.Interleaving

variable {V : Type} {hash hash' start : Amstrhash V} {ent : Pointer} {entry : AmstrhashEntry V}
  {key : Option Pointer} {hv : UInt64} {call : KeyCall V} {reply : LockReply} {result : Result}
  {effect : Effect V}

section Promises

def NullEnt (hash : Amstrhash V) (ent : Pointer) : Prop := ∃ entry, hash.contents ent = some entry ∧
    entry.key = none

def NullCell (hash : Amstrhash V) : Option (Option V) → Prop
  | none => ∀ ent, ¬ NullEnt hash ent
  | some value =>
      ∃ ent entry, hash.contents ent = some entry ∧ entry.key = none ∧ entry.value = value ∧
      ∀ other, NullEnt hash other → other = ent

def SameEntries (p : Option Pointer → Prop) (hash hash' : Amstrhash V) : Prop :=
  ∀ ent entry, p entry.key → (hash.contents ent = some entry ↔ hash'.contents ent = some entry)

def KeyCall.request : KeyCall V → Request Unit (Option V)
  | .insert value _ => .insert () value
  | .find => .find ()
  | .removeKey => .remove ()

inductive NullAnswers (hash : Amstrhash V) : Result → Reply (Option V) → Prop
  | inserted : NullAnswers hash (.inserted .success none) .accepted
  | refused {ent : Pointer} : NullEnt hash ent →
      NullAnswers hash (.inserted .error (some ent)) .refused
  | missed : NullAnswers hash (.found none) (.found none)
  | found {ent : Pointer} {entry : AmstrhashEntry V} : hash.contents ent = some entry →
      entry.key = none →
      NullAnswers hash (.found (some ent)) (.found (some entry.value))
  | removed : NullAnswers hash (.returned .success) .accepted
  | absent : NullAnswers hash (.returned .error) .refused

/-- A call with NULL does what it would do to a map with one key, unless memory runs out, and
nothing to the strings. -/
def ServesNull (hash : Amstrhash V) (call : KeyCall V) (reply : LockReply) : Prop :=
  ∃ hash' result, applyKey hash none call reply = .ok (hash', result) ∧
    SameEntries (· ≠ none) hash hash' ∧
    ∀ cell, NullCell hash cell →
      (NullCell hash' ((call.request.serve hash.flags.overwrite fun _ => cell).1 ()) ∧
        NullAnswers hash result (call.request.serve hash.flags.overwrite fun _ => cell).2) ∨
      (∃ value allocs, call = .insert value allocs ∧ AllocFails hash none nullHash allocs) ∧
        result = .inserted .error none ∧ cell = none ∧ NullCell hash' none

def StringAnswer (hash hash' : Amstrhash V) (hv : UInt64) : KeyCall V → Result → Prop
  | .insert value _, .inserted .success _ =>
      ∃ ent entry, hash'.contents ent = some entry ∧ entry.key ≠ none ∧
      entry.keyHash = hv ∧ entry.value = value
  | _, .inserted _ (some ent) => ¬ NullEnt hash ent
  | _, .found (some ent) => ¬ NullEnt hash ent
  | _, _ => True

def SparesNull (hash : Amstrhash V) (key : Pointer) (hv : UInt64) (call : KeyCall V)
    (reply : LockReply) : Prop :=
  ∃ hash' result, applyKey hash (some key) call reply = .ok (hash', result) ∧
    SameEntries (· = none) hash hash' ∧
    StringAnswer hash hash' hv call result

def Separate (hash : Amstrhash V) (hv : UInt64) (call : KeyCall V) (reply : LockReply) :
    Option Pointer → Prop
  | none => ServesNull hash call reply
  | some key => SparesNull hash key hv call reply

/-- No entry has the hash of NULL when the key is NULL, and else none with the hash of the key
has a NULL key. -/
def Unmixed (hash : Amstrhash V) (hv : UInt64) : Option Pointer → Prop
  | none => Lacks hash hv
  | some _ => ∀ ent entry, hash.contents ent = some entry → entry.keyHash = hv → entry.key ≠ none

end Promises

section Proofs

theorem Laid.distinct (laid : Laid hash) {a b : Pointer} {first second : AmstrhashEntry V}
    (inA : hash.contents a = some first) (inB : hash.contents b = some second)
    (same : first.keyHash = second.keyHash) : a = b := by
  obtain ⟨entries, filed, kept⟩ := laid.held
  obtain ⟨memberA, atA⟩ := filed.contents_some.mp inA
  obtain ⟨memberB, atB⟩ := filed.contents_some.mp inB
  refine kept.distinct a memberA b memberB first.keyHash ?_ ?_
  · rw [Amstrhash.hashAt, atA, Option.map_some]
  · rw [Amstrhash.hashAt, atB, Option.map_some, same]

theorem Laid.no_null (laid : Laid hash) (hit : Hit hash none nullHash ent entry) :
    NullCell hash none := by
  rintro other ⟨null, here, noKey⟩
  obtain rfl := laid.distinct here hit.held ((laid.nulls other null here noKey).trans hit.same.symm)
  cases here.symm.trans hit.held
  exact hit.comparable ⟨noKey, rfl⟩

theorem Lacks.no_null (laid : Laid hash) (lacks : Lacks hash nullHash) : NullCell hash none := by
  rintro ent ⟨entry, here, noKey⟩
  exact lacks ent entry here (laid.nulls ent entry here noKey)

theorem NullCell.eq_none {cell : Option (Option V)} (isCell : NullCell hash cell)
    (noNull : NullCell hash none) : cell = none := by
  cases cell with
  | none => rfl
  | some value =>
      obtain ⟨ent, entry, here, noKey, -⟩ := isCell
      exact absurd ⟨entry, here, noKey⟩ (noNull ent)

theorem NullCell.congr (same : hash'.contents = hash.contents) {cell : Option (Option V)}
    (isCell : NullCell hash cell) : NullCell hash' cell := by
  cases cell <;> simpa only [NullCell, NullEnt, same] using isCell

theorem sameEntries_of_eq (same : hash'.contents = hash.contents) (p : Option Pointer → Prop) :
    SameEntries p hash hash' := by
  intro ent entry _
  rw [same]

theorem assign_some {value : Option V} (held : hash.contents ent = some entry)
    (after : hash'.contents = (Effect.assign ent value).after hash.contents) (a : Pointer) :
    hash'.contents a = if a = ent then some { entry with value := value } else hash.contents a := by
  rw [after, Effect.after, Function.update_apply, held, Option.map_some]

theorem add_some (after : hash'.contents = (Effect.add ent entry).after hash.contents)
    (a : Pointer) : hash'.contents a = if a = ent then some entry else hash.contents a := by
  rw [after, Effect.after, Function.update_apply]

theorem erase_some (after : hash'.contents = (Effect.erase ent).after hash.contents) (a : Pointer) :
    hash'.contents a = if a = ent then none else hash.contents a := by
  rw [after, Effect.after, Function.update_apply]

theorem sameEntries_of_one (ent : Pointer) {p : Option Pointer → Prop}
    (elsewhere : ∀ a, a ≠ ent → hash'.contents a = hash.contents a)
    (before : ∀ entry, hash.contents ent = some entry → ¬ p entry.key)
    (after : ∀ entry, hash'.contents ent = some entry → ¬ p entry.key) :
    SameEntries p hash hash' := by
  intro a entry isKind
  by_cases same : a = ent
  · subst same
    exact ⟨fun here => absurd isKind (before entry here), fun here =>
      absurd isKind (after entry here)⟩
  · rw [elsewhere a same]

theorem Handled.serves_null (handled : Handled hash none nullHash call result effect)
    (laid : Laid hash) (lacks : Lacks hash nullHash)
    (after : hash'.contents = effect.after hash.contents) :
    SameEntries (· ≠ none) hash hash' ∧ ∀ cell, NullCell hash cell →
      (NullCell hash' ((call.request.serve hash.flags.overwrite fun _ => cell).1 ()) ∧
        NullAnswers hash result (call.request.serve hash.flags.overwrite fun _ => cell).2) ∨
      (∃ value allocs, call = .insert value allocs ∧ AllocFails hash none nullHash allocs) ∧
        result = .inserted .error none ∧ cell = none ∧ NullCell hash' none := by
  have noNull := lacks.no_null laid
  cases handled with
  | overwritten hit => exact absurd hit.same (lacks _ _ hit.held)
  | refused hit => exact absurd hit.same (lacks _ _ hit.held)
  | found hit => exact absurd hit.same (lacks _ _ hit.held)
  | removed hit => exact absurd hit.same (lacks _ _ hit.held)
  | @failed value allocs _ fails =>
      refine ⟨sameEntries_of_eq after _, fun cell isCell =>
        .inr ⟨⟨value, allocs, rfl, fails⟩, rfl, ?_, ?_⟩⟩
      · exact isCell.eq_none noNull
      · exact noNull.congr after
  | missed =>
      refine ⟨sameEntries_of_eq after _, fun cell isCell => ?_⟩
      obtain rfl := isCell.eq_none noNull
      exact .inl ⟨noNull.congr after, .missed⟩
  | absent =>
      refine ⟨sameEntries_of_eq after _, fun cell isCell => ?_⟩
      obtain rfl := isCell.eq_none noNull
      exact .inl ⟨noNull.congr after, .absent⟩
  | @added a stored value allocs _ outside isNull =>
      have contents := add_some after
      have noKey : stored = none := isNull.mpr rfl
      have new : hash'.contents a = some ⟨stored, nullHash, value⟩ := by rw [contents, if_pos rfl]
      refine ⟨sameEntries_of_one a (fun b other => by rw [contents, if_neg other]) ?_ ?_,
        fun cell isCell => ?_⟩
      · intro entry here
        cases outside.symm.trans here
      · intro entry here
        cases new.symm.trans here
        exact not_not.mpr noKey
      · obtain rfl := isCell.eq_none noNull
        refine .inl ⟨⟨a, _, new, noKey, rfl, ?_⟩, .inserted⟩
        rintro other ⟨null, here, isNone⟩
        by_contra different
        rw [contents, if_neg different] at here
        exact noNull other ⟨null, here, isNone⟩

theorem Handled.mixes_null (handled : Handled hash none nullHash call result effect)
    (laid : Laid hash) (after : hash'.contents = effect.after hash.contents)
    (present : ¬ Lacks hash nullHash) :
    ¬ ∀ cell, NullCell hash cell →
      (NullCell hash' ((call.request.serve hash.flags.overwrite fun _ => cell).1 ()) ∧
        NullAnswers hash result (call.request.serve hash.flags.overwrite fun _ => cell).2) ∨
      (∃ value allocs, call = .insert value allocs ∧ AllocFails hash none nullHash allocs) ∧
        result = .inserted .error none ∧ cell = none ∧ NullCell hash' none := by
  intro serves
  cases handled with
  | failed lacks => exact present lacks
  | added lacks => exact present lacks
  | missed lacks => exact present lacks
  | absent lacks => exact present lacks
  | @overwritten ent entry value allocs hit overwrite =>
      rcases serves none (laid.no_null hit) with ⟨⟨other, null, here, noKey, -⟩, -⟩ | ⟨-, failed, -⟩
      · rw [assign_some hit.held after] at here
        split at here
        · cases here
          exact hit.comparable ⟨noKey, rfl⟩
        · exact laid.no_null hit other ⟨null, here, noKey⟩
      · cases failed
  | refused hit overwrite =>
      rcases serves none (laid.no_null hit) with ⟨-, answers⟩ | ⟨-, failed, -⟩
      · cases answers
      · cases failed
  | found hit =>
      rcases serves none (laid.no_null hit) with ⟨-, answers⟩ | ⟨-, failed, -⟩
      · cases answers
      · cases failed
  | removed hit =>
      rcases serves none (laid.no_null hit) with ⟨-, answers⟩ | ⟨-, failed, -⟩
      · cases answers
      · cases failed

theorem Handled.spares_null {k : Pointer} (handled : Handled hash (some k) hv call result effect)
    (unmixed : ∀ ent entry, hash.contents ent = some entry → entry.keyHash = hv → entry.key ≠ none)
    (after : hash'.contents = effect.after hash.contents) :
    SameEntries (· = none) hash hash' ∧ StringAnswer hash hash' hv call result := by
  have named {ent : Pointer} {entry : AmstrhashEntry V} (hit : Hit hash (some k) hv ent entry) :
      ¬ NullEnt hash ent := by
    rintro ⟨entry', here, noKey⟩
    cases here.symm.trans hit.held
    exact unmixed ent entry hit.held hit.same noKey
  cases handled with
  | @overwritten ent entry value allocs hit overwrite =>
      have contents := assign_some hit.held after
      have isKey := unmixed ent entry hit.held hit.same
      have new : hash'.contents ent = some { entry with value := value } := by
        rw [contents, if_pos rfl]
      refine ⟨sameEntries_of_one ent (fun b other => by rw [contents, if_neg other]) ?_ ?_,
        ent, _, new, isKey, hit.same, rfl⟩
      · intro other here
        cases hit.held.symm.trans here
        exact isKey
      · intro other here
        cases new.symm.trans here
        exact isKey
  | refused hit => exact ⟨sameEntries_of_eq after _, named hit⟩
  | failed => exact ⟨sameEntries_of_eq after _, trivial⟩
  | @added a stored value allocs _ outside isNull =>
      have contents := add_some after
      have isKey : stored ≠ none := fun noKey => nomatch isNull.mp noKey
      have new : hash'.contents a = some ⟨stored, hv, value⟩ := by rw [contents, if_pos rfl]
      refine ⟨sameEntries_of_one a (fun b other => by rw [contents, if_neg other]) ?_ ?_,
        a, _, new, isKey, rfl, rfl⟩
      · intro entry here
        cases outside.symm.trans here
      · intro entry here
        cases new.symm.trans here
        exact isKey
  | missed => exact ⟨sameEntries_of_eq after _, trivial⟩
  | found hit => exact ⟨sameEntries_of_eq after _, named hit⟩
  | absent => exact ⟨sameEntries_of_eq after _, trivial⟩
  | @removed ent entry hit =>
      have contents := erase_some after
      refine ⟨sameEntries_of_one ent (fun b other => by rw [contents, if_neg other]) ?_ ?_, trivial⟩
      · intro other here
        cases hit.held.symm.trans here
        exact unmixed ent entry hit.held hit.same
      · intro other here
        rw [contents, if_pos rfl] at here
        cases here

theorem Handled.mixes_string {k : Pointer} (handled : Handled hash (some k) hv call result effect)
    (laid : Laid hash) (after : hash'.contents = effect.after hash.contents)
    (held : hash.contents ent = some entry) (same : entry.keyHash = hv) (noKey : entry.key = none)
    (entries : SameEntries (· = none) hash hash') : ¬ StringAnswer hash hash' hv call result := by
  intro answer
  cases handled with
  | failed lacks => exact lacks ent entry held same
  | added lacks => exact lacks ent entry held same
  | missed lacks => exact lacks ent entry held same
  | absent lacks => exact lacks ent entry held same
  | @overwritten a old value allocs hit overwrite =>
      obtain rfl := laid.distinct held hit.held (same.trans hit.same.symm)
      obtain ⟨other, new, here, isKey, sameHash, -⟩ := answer
      rw [assign_some held after] at here
      split at here
      · cases here
        exact isKey noKey
      · next different => exact different (laid.distinct here held (sameHash.trans same.symm))
  | refused hit =>
      obtain rfl := laid.distinct held hit.held (same.trans hit.same.symm)
      exact answer ⟨entry, held, noKey⟩
  | found hit =>
      obtain rfl := laid.distinct held hit.held (same.trans hit.same.symm)
      exact answer ⟨entry, held, noKey⟩
  | removed hit =>
      obtain rfl := laid.distinct held hit.held (same.trans hit.same.symm)
      have gone := (entries ent entry noKey).mp held
      rw [erase_some after, if_pos rfl] at gone
      cases gone

theorem Handled.separate_iff (handled : Handled hash key hv call result effect) (laid : Laid hash)
    (hashed : calcHash hash key = .ok hv) (run : applyKey hash key call reply = .ok (hash', result))
    (after : hash'.contents = effect.after hash.contents) :
    Separate hash hv call reply key ↔ Unmixed hash hv key := by
  cases key with
  | none =>
      obtain rfl := calcHash_null hashed rfl
      constructor
      · rintro ⟨hash₁, result₁, run₁, -, serves⟩
        cases run.symm.trans run₁
        by_contra mixed
        exact handled.mixes_null laid after mixed serves
      · intro lacks
        exact ⟨hash', result, run, handled.serves_null laid lacks after⟩
  | some k =>
      constructor
      · rintro ⟨hash₁, result₁, run₁, entries, answer⟩ ent entry held same noKey
        cases run.symm.trans run₁
        exact handled.mixes_string laid after held same noKey entries answer
      · intro unmixed
        exact ⟨hash', result, run, handled.spares_null unmixed after⟩

theorem Separate.returns (separate : Separate hash hv call reply key) :
    ∃ hash' result, applyKey hash key call reply = .ok (hash', result) := by
  cases key with
  | none =>
      obtain ⟨hash', result, run, -⟩ := separate
      exact ⟨hash', result, run⟩
  | some k =>
      obtain ⟨hash', result, run, -⟩ := separate
      exact ⟨hash', result, run⟩

theorem Unmixed.not_clash (unmixed : Unmixed hash hv key) : ¬ Clash hash key hv := by
  rintro ⟨rfl, ent, entry, held, same, -⟩
  exact unmixed ent entry held same

theorem Handled.not_clash (handled : Handled hash key hv call result effect) (laid : Laid hash) :
    ¬ Clash hash key hv := by
  rintro ⟨noKey, ent, entry, held, same, isNull⟩
  have missed {ent' : Pointer} {entry' : AmstrhashEntry V}
      (hit : Hit hash key hv ent' entry') : False := by
    obtain rfl := laid.distinct held hit.held (same.trans hit.same.symm)
    cases held.symm.trans hit.held
    exact hit.comparable ⟨isNull, noKey⟩
  cases handled with
  | overwritten hit => exact missed hit
  | refused hit => exact missed hit
  | found hit => exact missed hit
  | removed hit => exact missed hit
  | failed lacks => exact lacks ent entry held same
  | added lacks => exact lacks ent entry held same
  | missed lacks => exact lacks ent entry held same
  | absent lacks => exact lacks ent entry held same

theorem fits_of_clash (clash : Clash hash key hv) : Fits hash hv call := by
  obtain ⟨-, ent, entry, held, same, -⟩ := clash
  cases call with
  | insert value allocs => exact fun grows => absurd same (grows.1 ent entry held)
  | _ => trivial

end Proofs

section Runs

variable {capacity : UInt64} {flags : StrhashFlags} {attr : Option AmstrhashAttr}
  {handle lockReady array : Bool} {strings : Pointer → Option CString} {calls : List (AnyCall V)}

theorem clash_iff (laid : Laid hash) (hashed : calcHash hash key = .ok hv) :
    Clash hash key hv ↔ key = none ∧ ∃ ent, NullEnt hash ent := by
  constructor
  · rintro ⟨noKey, ent, entry, here, -, isNull⟩
    exact ⟨noKey, ent, entry, here, isNull⟩
  · rintro ⟨noKey, ent, entry, here, isNull⟩
    have same := (laid.nulls ent entry here isNull).trans (calcHash_null hashed noKey).symm
    exact ⟨noKey, ent, entry, here, same, isNull⟩

theorem null_iff_of_goes (laid : Laid hash) (goes : Goes hash reply)
    (supplied : Supplied hash key call) (hashed : calcHash hash key = .ok hv) :
      (applyKey hash key call reply = .error .null ↔ Clash hash key hv) ∧
      (Separate hash hv call reply key ↔ Unmixed hash hv key ∧ Fits hash hv call) := by
  rcases applyKey_settles laid goes supplied hashed with ⟨clash, fails⟩ | ⟨unfit, fails⟩ |
    ⟨hash', result, effect, returned, fits, handled, after, -⟩
  · refine ⟨⟨fun _ => clash, fun _ => fails⟩, fun separate => ?_, fun ⟨unmixed, _⟩ => ?_⟩
    · obtain ⟨_, _, returned⟩ := separate.returns
      cases fails.symm.trans returned
    · exact absurd clash unmixed.not_clash
  · refine ⟨⟨fun null => ?_, fun clash => ?_⟩, fun separate => ?_, fun ⟨_, fits⟩ =>
      absurd fits unfit⟩
    · cases fails.symm.trans null
    · exact absurd (fits_of_clash clash) unfit
    · obtain ⟨_, _, returned⟩ := separate.returns
      cases fails.symm.trans returned
  · have separate := handled.separate_iff laid hashed returned after
    refine ⟨⟨fun null => ?_, fun clash => ?_⟩,
      separate.trans ⟨fun unmixed => ⟨unmixed, fits⟩, And.left⟩⟩
    · cases returned.symm.trans null
    · exact absurd clash (handled.not_clash laid)

/-- In every table that calls with any keys lead to: a call can compare two NULL pointers if
and only if it searches NULL in a table that has it, and NULL and the strings are kept apart
if and only if no entry that the call meets is of the other kind, the lock lets it go on, and
no array is too large. -/
theorem amstrhash_null_key_iff
    (made : amstrhashInit capacity flags attr handle lockReady array strings = .ok (some start))
    (run : Run stepAny ReadyAny start calls hash) (supplied : Supplied hash key call)
    (hashed : calcHash hash key = .ok hv) :
    ((∃ reply, applyKey hash key call reply = .error .null) ↔ key = none ∧ ∃ ent,
      NullEnt hash ent) ∧
      ∀ reply, Separate hash hv call reply key ↔ Unmixed hash hv key ∧ Goes hash reply ∧
      Fits hash hv call := by
  have held := run_held made run
  have waits {reply : LockReply} (waiting : (hash.flags.useLock = true ∧ hash.lock = ⟨0, true⟩) ∧
      reply = .waits) :
      applyKey hash key call reply = .error .blocked := by
    rw [waiting.2]
    exact applyKey_blocked waiting.1.1 waiting.1.2 hashed
  rw [← clash_iff held.laid hashed]
  refine ⟨⟨?_, fun clash => ⟨.refused, ?_⟩⟩, fun reply => ?_⟩
  · rintro ⟨reply, null⟩
    rcases held.inv.goes_or_waits reply with goes | waiting
    · exact (null_iff_of_goes held.laid goes supplied hashed).1.mp null
    · cases (waits waiting).symm.trans null
  · have goes : Goes hash .refused := (held.inv.goes_or_waits .refused).resolve_right fun waiting =>
        nomatch waiting.2
    exact (null_iff_of_goes held.laid goes supplied hashed).1.mpr clash
  · rcases held.inv.goes_or_waits reply with goes | waiting
    · rw [(null_iff_of_goes held.laid goes supplied hashed).2]
      exact ⟨fun ⟨unmixed, fits⟩ => ⟨unmixed, goes, fits⟩, fun ⟨unmixed, _, fits⟩ =>
        ⟨unmixed, fits⟩⟩
    · constructor
      · intro separate
        obtain ⟨_, _, returned⟩ := separate.returns
        cases (waits waiting).symm.trans returned
      · rintro ⟨-, free | ⟨-, refused⟩, -⟩
        · cases free.symm.trans waiting.1.2
        · cases refused.symm.trans waiting.2

/-- The insertion of NULL into a new table, with the memory for its entry. -/
def sampleNull (ent : Pointer) : AnyCall ℕ :=
  .keyed none (.insert (some 7) ⟨true, none, some ent⟩) .waits

/-- The removal of a key that the table does not have, which keeps the lock. -/
def sampleMiss (key : Pointer) : AnyCall ℕ := .keyed (some key) .removeKey .waits

theorem sample_null : ∃ (ent key : Pointer) (start hash kept : Amstrhash ℕ),
    amstrhashInit 0 ⟨false, true, true, false, false⟩ none true true true sampleStrings = .ok
      (some start) ∧
      Run stepAny ReadyAny start [sampleNull ent] hash ∧
      applyKey hash none .find .waits = .error .null ∧
      Run stepAny ReadyAny start [sampleNull ent, sampleMiss key] kept ∧ kept.lock = ⟨0, true⟩ ∧
      applyKey kept none .find .refused = .error .null := by
  obtain ⟨ent, key, start, hash, kept, made, fired, unused, compared, missed, mapped, lock, again⟩ :
      ∃ (ent key : Pointer) (start hash kept : Amstrhash ℕ),
      amstrhashInit 0 ⟨false, true, true, false, false⟩ none true true true sampleStrings = .ok
        (some start) ∧
        stepAny start (sampleNull ent) = some hash ∧ start.ents ent = none ∧
        applyKey hash none .find .waits = .error .null ∧ stepAny hash (sampleMiss key) = some kept ∧
        (∃ str, hash.strings key = some str) ∧ kept.lock = ⟨0, true⟩ ∧
        applyKey kept none .find .refused = .error .null :=
    ⟨⟨64, by decide⟩, ⟨16, by decide⟩, _, _, _, rfl, rfl, rfl, rfl, rfl, ⟨_, rfl⟩, rfl, rfl⟩
  have readable : ∀ k, (none : Option Pointer) = some k → ∃ str, start.strings k = some str := by
    intro k isKey
    cases isKey
  have inserted : Run stepAny ReadyAny start [sampleNull ent] hash := by
    refine Run.nil.snoc fired ⟨readable, ?_⟩
    intro value allocs same
    cases same
    refine ⟨fun copy isCopy => ?_, fun e isEnt => ?_⟩
    · cases isCopy
    · cases isEnt
      exact unused
  refine ⟨ent, key, start, hash, kept, made, inserted, compared,
    inserted.snoc missed ⟨?_, ?_⟩, lock, again⟩
  · intro k isKey
    cases isKey
    exact mapped
  · intro value allocs isInsert
    cases isInsert

theorem supplied_find (hash : Amstrhash V) : Supplied hash none .find := by
  constructor
  · intro k isKey
    cases isKey
  · intro value allocs isInsert
    cases isInsert

/-- The search for NULL by the thread that has kept the lock. -/
theorem amstrhash_null_key_iff_sample : ∃ (ent key : Pointer) (start hash : Amstrhash ℕ),
    amstrhashInit 0 ⟨false, true, true, false, false⟩ none true true true sampleStrings = .ok
      (some start) ∧
      Run stepAny ReadyAny start [sampleNull ent, sampleMiss key] hash ∧ hash.lock = ⟨0, true⟩ ∧
      applyKey hash none .find .refused = .error .null ∧ (∃ ent, NullEnt hash ent) ∧
      Goes hash .refused ∧ ¬ Separate hash nullHash .find .refused none := by
  obtain ⟨ent, key, start, _, hash, made, _, _, run, lock, again⟩ := sample_null
  obtain ⟨null, separate⟩ := amstrhash_null_key_iff made run (supplied_find hash) rfl
  obtain ⟨-, other, isNull⟩ := null.mp ⟨_, again⟩
  have held := run_held made run
  refine ⟨ent, key, start, hash, made, run, lock, again, ⟨other, isNull⟩, ?_, fun kept => ?_⟩
  · exact (held.inv.goes_or_waits .refused).resolve_right fun waiting => nomatch waiting.2
  · obtain ⟨entry, here, noKey⟩ := isNull
    exact ((separate .refused).mp kept).1 other entry here (held.laid.nulls other entry here noKey)

/-- The search of the NULL key that was inserted. -/
theorem amstrhash_null_compared : ∃ (ent : Pointer) (start hash : Amstrhash ℕ),
    amstrhashInit 0 ⟨false, true, true, false, false⟩ none true true true sampleStrings = .ok
      (some start) ∧
      Run stepAny ReadyAny start [sampleNull ent] hash ∧ Supplied hash none .find ∧
      applyKey hash none .find .waits = .error .null ∧
      ¬ Separate hash nullHash .find .waits none := by
  obtain ⟨ent, _, start, hash, _, made, run, compared, -⟩ := sample_null
  refine ⟨ent, start, hash, made, run, supplied_find hash, compared, fun separate => ?_⟩
  obtain ⟨_, _, returned⟩ := separate.returns
  cases compared.symm.trans returned

end Runs

end Libam.Strhash
