import Libam.Strhash.Refinement

/-! What a caller can see of a hash table does not depend on its capacity. The map that a table
stands for finds a key by its hash, as the table does. -/

namespace Libam.Strhash

open Libam.Lists Libam.Interleaving

variable {V : Type} {hash hash' start : Amstrhash V} {entries entries' : List Pointer}
  {ent : Pointer} {op : Op V} {result : Result} {dict dict' : CString → Option (Option V)}

section Abstract

/-- A call by the strings that it is given; a removal is given the key or the entry that
is found for it. -/
inductive Call (V : Type)
  | insert (str : CString) (value : Option V)
  | find (str : CString)
  | remove (str : CString) (byKey : Bool)
  | write

/-- What a caller sees: the return code, the key and the value of the entry it is given, and the
calls of `on_delete`. -/
structure Answer (V : Type) where
  rc : Option Amrc
  found : Option (Option CString × Option (Option V))
  deleted : List (Option CString × Option V)
  deriving DecidableEq, Repr

def Vacant (dict : CString → Option (Option V)) (hv : UInt64) : Prop :=
  ∀ held, dict held ≠ none → amshash held ≠ hv

def Apart (dict : CString → Option (Option V)) : Prop :=
  ∀ a b, dict a ≠ none → dict b ≠ none → amshash a = amshash b → a = b

/-- What a call does to a map that takes a key for any other with its hash. -/
inductive Serves (overwrite onDelete : Bool) (dict : CString → Option (Option V)) :
    Call V → (CString → Option (Option V)) → Answer V → Prop
  | overwritten {str held : CString} {value old : Option V} : dict held = some old →
      amshash held = amshash str →
      overwrite = true → Serves overwrite onDelete dict (.insert str value)
        (Function.update dict held (some value))
        ⟨some .success, none, if onDelete then [(some str, old)] else []⟩
  | refused {str held : CString} {value old : Option V} : dict held = some old →
      amshash held = amshash str →
      overwrite = false → Serves overwrite onDelete dict (.insert str value) dict
        ⟨some .error, some (some held, some old), []⟩
  | added {str : CString} {value : Option V} : Vacant dict (amshash str) →
      Serves overwrite onDelete dict (.insert str value) (Function.update dict str (some value))
        ⟨some .success, none, []⟩
  | found {str held : CString} {old : Option V} : dict held = some old →
      amshash held = amshash str →
      Serves overwrite onDelete dict (.find str) dict ⟨none, some (some held, some old), []⟩
  | missed {str : CString} : Vacant dict (amshash str) →
      Serves overwrite onDelete dict (.find str) dict ⟨none, none, []⟩
  | removed {str held : CString} {byKey : Bool} {old : Option V} : dict held = some old →
      amshash held = amshash str →
      Serves overwrite onDelete dict (.remove str byKey) (Function.update dict held none)
        ⟨some .success, none, if onDelete then [(some held, old)] else []⟩
  | absent {str : CString} {byKey : Bool} : Vacant dict (amshash str) →
      Serves overwrite onDelete dict (.remove str byKey) dict ⟨some .error, none, []⟩
  | written : Serves overwrite onDelete dict .write dict ⟨none, none, []⟩

variable {overwrite onDelete : Bool} {call : Call V}

theorem Vacant.not_held {str held : CString} {old : Option V} (vacant : Vacant dict (amshash str))
    (isOld : dict held = some old) : ¬ amshash held = amshash str :=
  vacant held (by rw [isOld]; nofun)

theorem Apart.same (apart : Apart dict) {str a b : CString} {first second : Option V}
    (isFirst : dict a = some first) (isSecond : dict b = some second)
    (hashA : amshash a = amshash str) (hashB : amshash b = amshash str) : a = b ∧
    first = second := by
  have same := apart a b (by rw [isFirst]; nofun) (by rw [isSecond]; nofun) (hashA.trans hashB.symm)
  subst same
  exact ⟨rfl, Option.some.inj (isFirst.symm.trans isSecond)⟩

theorem Serves.unique {dict₁ dict₂ : CString → Option (Option V)} {first second : Answer V}
    (apart : Apart dict) (one : Serves overwrite onDelete dict call dict₁ first)
    (two : Serves overwrite onDelete dict call dict₂ second) : dict₁ = dict₂ ∧ first = second := by
  cases one with
  | overwritten isOld same can =>
      cases two with
      | overwritten isOld' same' =>
          obtain ⟨rfl, rfl⟩ := apart.same isOld isOld' same same'
          exact ⟨rfl, rfl⟩
      | refused _ _ cannot => cases can.symm.trans cannot
      | added vacant => exact absurd same (vacant.not_held isOld)
  | refused isOld same cannot =>
      cases two with
      | overwritten _ _ can => cases can.symm.trans cannot
      | refused isOld' same' =>
          obtain ⟨rfl, rfl⟩ := apart.same isOld isOld' same same'
          exact ⟨rfl, rfl⟩
      | added vacant => exact absurd same (vacant.not_held isOld)
  | added vacant =>
      cases two with
      | overwritten isOld same => exact absurd same (vacant.not_held isOld)
      | refused isOld same => exact absurd same (vacant.not_held isOld)
      | added => exact ⟨rfl, rfl⟩
  | found isOld same =>
      cases two with
      | found isOld' same' =>
          obtain ⟨rfl, rfl⟩ := apart.same isOld isOld' same same'
          exact ⟨rfl, rfl⟩
      | missed vacant => exact absurd same (vacant.not_held isOld)
  | missed vacant =>
      cases two with
      | found isOld same => exact absurd same (vacant.not_held isOld)
      | missed => exact ⟨rfl, rfl⟩
  | removed isOld same =>
      cases two with
      | removed isOld' same' =>
          obtain ⟨rfl, rfl⟩ := apart.same isOld isOld' same same'
          exact ⟨rfl, rfl⟩
      | absent vacant => exact absurd same (vacant.not_held isOld)
  | absent vacant =>
      cases two with
      | removed isOld same => exact absurd same (vacant.not_held isOld)
      | absent => exact ⟨rfl, rfl⟩
  | written =>
      cases two
      exact ⟨rfl, rfl⟩

end Abstract

section Answers

inductive Asks (hash : Amstrhash V) : Op V → Call V → Prop
  | insert {key : Pointer} {str : CString} {value : Option V} {allocs : Allocations} :
      hash.strings key = some str → Asks hash (.insert key value allocs) (.insert str value)
  | find {key : Pointer} {str : CString} : hash.strings key = some str →
      Asks hash (.find key) (.find str)
  | removeKey {key : Pointer} {str : CString} : hash.strings key = some str →
      Asks hash (.removeKey key) (.remove str true)
  | remove {key : Pointer} {str : CString} {ent : Option Pointer} {hash' : Amstrhash V} :
      hash.strings key = some str → amstrhashFindLock hash (some key) false = .ok (hash', ent) →
      Asks hash (.remove ent) (.remove str false)
  | write {address : Pointer} {str : Option CString} : Asks hash (.write address str) .write

def Amstrhash.pairAt (hash : Amstrhash V) (ent : Pointer) : Option CString × Option (Option V) :=
  (hash.textAt ent, hash.valueAt ent)

/-- The keys that `on_delete` is called with are read before the call ends. -/
def answer (hash hash' : Amstrhash V) (result : Result) : Answer V where
  rc := match result with
    | .inserted rc _ => some rc
    | .returned rc => some rc
    | _ => none
  found := match result with
    | .inserted _ oldKey => oldKey.map hash'.pairAt
    | .found ent => ent.map hash'.pairAt
    | _ => none
  deleted := (hash'.deleted.drop hash.deleted.length).map fun call =>
    (call.1.bind hash.strings, call.2)

theorem found_entry {key : Pointer} {str : CString} {out : Option Pointer}
    (filed : Filed hash entries) (isKey : hash.strings key = some str)
    (lookup : amstrhashFindLock hash (some key) false = .ok (hash', out)) :
    (∀ e, out = some e → e ∈ entries ∧ hash.hashAt e = some (amshash str)) ∧
      (out = none → Absent hash entries (amshash str)) := by
  obtain ⟨out', searched, found, missed⟩ := filed.find isKey (amshash str)
  simp only [amstrhashFindLock, calcHash_spec hash isKey, bind, Except.bind, Bool.false_eq_true,
    if_false, pure, Except.pure, filed.bucket, searched, Except.ok.injEq, Prod.mk.injEq] at lookup
  exact lookup.2 ▸ ⟨found, missed⟩

theorem Represents.vacant {hv : UInt64} (represents : Represents hash entries dict)
    (absent : Absent hash entries hv) : Vacant dict hv := by
  intro held present same
  obtain ⟨value, isValue⟩ := Option.ne_none_iff_exists'.mp present
  obtain ⟨a, inside, text, -⟩ := (represents.agrees held value).mp isValue
  obtain ⟨str, text', hashA⟩ := represents.named a inside
  cases text.symm.trans text'
  exact absent a inside (same ▸ hashA)

theorem Represents.apart (represents : Represents hash entries dict) (kept : Kept hash entries) :
    Apart dict := by
  have entry {str : CString} (present : dict str ≠ none) :
      ∃ a ∈ entries, hash.textAt a = some str ∧ hash.hashAt a = some (amshash str) := by
    obtain ⟨value, isValue⟩ := Option.ne_none_iff_exists'.mp present
    obtain ⟨a, inside, text, -⟩ := (represents.agrees str value).mp isValue
    obtain ⟨str', text', hashA⟩ := represents.named a inside
    cases text.symm.trans text'
    exact ⟨a, inside, text, hashA⟩
  intro a b inA inB same
  obtain ⟨first, inside, text, hashA⟩ := entry inA
  obtain ⟨second, inside', text', hashB⟩ := entry inB
  obtain rfl := kept.distinct first inside second inside' _ hashA (same ▸ hashB)
  exact Option.some.inj (text.symm.trans text')

theorem Represents.holder {hv : UInt64} {entry : AmstrhashEntry V}
    (represents : Represents hash entries dict) (member : ent ∈ entries)
    (here : hash.ents ent = some entry) (same : entry.keyHash = hv) :
    ∃ held, hash.textAt ent = some held ∧ dict held = some entry.value ∧ amshash held = hv := by
  obtain ⟨held, text, atEnt⟩ := represents.named ent member
  refine ⟨held, text, represents.lookup member text here, ?_⟩
  rw [Amstrhash.hashAt, here, Option.map_some, same] at atEnt
  exact (Option.some.inj atEnt).symm

theorem answer_taken {entry : AmstrhashEntry V} {held : CString} (here : hash.ents ent = some entry)
    (text : hash.textAt ent = some held) :
      answer hash (hash.taken ent entry true) (.returned .success) =
      ⟨some .success, none, if hash.attr.onDelete then [(some held, entry.value)] else []⟩ := by
  have key : entry.key.bind hash.strings = some held := by
    rw [← text, Amstrhash.textAt, Amstrhash.keyAt, here, Option.bind_some]
  cases called : hash.attr.onDelete with
  | false => simp [answer, Amstrhash.taken, Amstrhash.removed, Amstrhash.issueCallback, called]
  | true => simp [answer, Amstrhash.taken, Amstrhash.removed, Amstrhash.issueCallback, called, key]

theorem answer_same {rc : Option Amrc} {found : Option (Option CString × Option (Option V))}
    (isRc : (answer hash hash result).rc = rc) (isFound : (answer hash hash result).found = found) :
    answer hash hash result = ⟨rc, found, []⟩ := by
  rw [← isRc, ← isFound]
  simp only [answer, List.drop_length, List.map_nil]

end Answers

section Outcomes

variable {call : Call V}

/-- What a call does to a table and shows of it, it does to the map that the table stands for. -/
theorem Outcome.serves (filed : Filed hash entries) (kept : Kept hash entries)
    (suited : Suited hash op) (represents : Represents hash entries dict) (asks : Asks hash op call)
    (outcome : Outcome hash entries op hash' entries' result) :
      ∃ dict', Represents hash' entries' dict' ∧
      Serves hash.flags.overwrite hash.attr.onDelete dict call dict'
      (answer hash hash' result) := by
  cases outcome with
  | @insert key str value allocs rc old _ _ isKey inserted =>
      cases asks with
      | insert isStr =>
          cases isKey.symm.trans isStr
          cases inserted with
          | @overwritten ent entry member here same overwrite =>
              obtain ⟨held, text, isOld, sameHash⟩ := represents.holder member here same
              have shown : answer hash (overwriteEnt hash key ent entry value)
                  (.inserted .success none) =
                  ⟨some .success, none,
                    if hash.attr.onDelete then [(some str, entry.value)] else []⟩ := by
                cases called : hash.attr.onDelete with
                | false => simp [answer, overwriteEnt, Amstrhash.issueCallback, called]
                | true => simp [answer, overwriteEnt, Amstrhash.issueCallback, called, isKey]
              rw [shown]
              exact ⟨_, represents.assign kept member here text value _,
                .overwritten isOld sameHash overwrite⟩
          | @refused ent entry member here same keep =>
              obtain ⟨held, text, isOld, sameHash⟩ := represents.holder member here same
              have pair : hash.pairAt ent = (some held, some entry.value) := by
                rw [Amstrhash.pairAt, text, Amstrhash.valueAt, here, Option.map_some]
              have shown : answer hash hash (.inserted .error (some ent)) =
                  ⟨some .error, some (some held, some entry.value), []⟩ :=
                  answer_same rfl (congrArg some pair)
              rw [shown]
              exact ⟨dict, represents, .refused isOld sameHash keep⟩
          | failed absent fails => exact absurd fails (suited.2 str isKey)
          | @added buckets capacity slots ent absent fits next =>
              have insertable : Insertable hash key allocs := suited.1
              refine ⟨_, represents.added filed kept insertable.unused isKey absent
                (fun fails => fits (.inr fails)) next
                buckets capacity slots, ?_⟩
              have shown : answer hash
                  { hash.added ent ⟨storedKey hash (some key) allocs.copy, amshash str, value⟩
                  (storedStrings hash (some key) allocs.copy) with
                  buckets := buckets, capacity := capacity, slots := slots }
                    (.inserted .success none) =
                  ⟨some .success, none, []⟩ := by
                simp [answer, Amstrhash.added]
              rw [shown]
              exact .added (represents.vacant absent)
  | @find key str out isKey found missed =>
      cases asks with
      | find isStr =>
          cases isKey.symm.trans isStr
          cases out with
          | none =>
              rw [answer_same rfl rfl]
              exact ⟨dict, represents, .missed (represents.vacant (missed rfl))⟩
          | some ent =>
              obtain ⟨member, atEnt⟩ := found ent rfl
              obtain ⟨entry, here⟩ := filed.mapped member
              have same : entry.keyHash = amshash str := by
                rw [Amstrhash.hashAt, here, Option.map_some] at atEnt
                exact Option.some.inj atEnt
              obtain ⟨held, text, isOld, sameHash⟩ := represents.holder member here same
              have pair : hash.pairAt ent = (some held, some entry.value) := by
                rw [Amstrhash.pairAt, text, Amstrhash.valueAt, here, Option.map_some]
              have shown : answer hash hash (.found (some ent)) =
                  ⟨none, some (some held, some entry.value), []⟩ :=
                  answer_same rfl (congrArg some pair)
              rw [shown]
              exact ⟨dict, represents, .found isOld sameHash⟩
  | removeNull =>
      cases asks with
      | remove isKey lookup =>
          rw [answer_same rfl rfl]
          exact ⟨dict, represents,
            .absent (represents.vacant ((found_entry filed isKey lookup).2 rfl))⟩
  | @remove ent entry member here =>
      cases asks with
      | remove isKey lookup =>
          obtain ⟨-, atEnt⟩ := (found_entry filed isKey lookup).1 ent rfl
          rw [Amstrhash.hashAt, here, Option.map_some] at atEnt
          obtain ⟨held, text, isOld, sameHash⟩ := represents.holder member here
            (Option.some.inj atEnt)
          rw [answer_taken here text]
          exact ⟨_, represents.taken kept member here text true, .removed isOld sameHash⟩
  | removeAbsent isKey absent =>
      cases asks with
      | removeKey isStr =>
          cases isKey.symm.trans isStr
          rw [answer_same rfl rfl]
          exact ⟨dict, represents, .absent (represents.vacant absent)⟩
  | removeKey isKey member here same =>
      cases asks with
      | removeKey isStr =>
          cases isKey.symm.trans isStr
          obtain ⟨held, text, isOld, sameHash⟩ := represents.holder member here same
          rw [answer_taken here text]
          exact ⟨_, represents.taken kept member here text true, .removed isOld sameHash⟩
  | setEntValue => cases asks
  | term => cases asks
  | @write address str =>
      cases asks
      have shown : answer hash
          { hash with strings := Function.update hash.strings address str } .none =
          ⟨none, none, []⟩ := by
        simp [answer]
      rw [shown]
      exact ⟨dict, represents.written str fun a member =>
        suited.2 a (filed.all.mem_iff.mpr member), .written⟩

theorem Asks.bare (filed : Filed hash entries) (represents : Represents hash entries dict)
    (asks : Asks hash op call) :
    op.bare = true ↔ call = .write ∨ ∃ str, call = .remove str false ∧
    Vacant dict (amshash str) := by
  cases asks with
  | insert => simp [Op.bare]
  | find => simp [Op.bare]
  | removeKey => simp [Op.bare]
  | write => simp [Op.bare]
  | @remove key str out _ isKey lookup =>
      obtain ⟨found, missed⟩ := found_entry filed isKey lookup
      cases out with
      | none =>
          refine iff_of_true rfl (.inr ⟨str, rfl, represents.vacant (missed rfl)⟩)
      | some ent =>
          apply iff_of_false (by simp [Op.bare])
          rintro (isWrite | ⟨str', same, vacant⟩)
          · cases isWrite
          · cases same
            obtain ⟨member, atEnt⟩ := found ent rfl
            obtain ⟨entry, here⟩ := filed.mapped member
            rw [Amstrhash.hashAt, here, Option.map_some] at atEnt
            obtain ⟨held, -, isOld, sameHash⟩ := represents.holder member here
              (Option.some.inj atEnt)
            exact vacant.not_held isOld sameHash

def Call.leaves (call : Call V) (rc : Option Amrc) : RwLock :=
  match call, rc with
  | .remove _ true, some .error => ⟨0, true⟩
  | _, _ => ⟨0, false⟩

theorem Asks.leaves (asks : Asks hash op call)
    (outcome : Outcome hash entries op hash' entries' result) (before after : Amstrhash V) :
    op.leaves result = call.leaves (answer before after result).rc := by
  cases asks with
  | removeKey => cases outcome <;> rfl
  | remove => cases outcome <;> rfl
  | _ => rfl

end Outcomes

section Runs

abbrev Watched (V : Type) := Amstrhash V × List (Answer V × UInt64)

def stepWatched (s : Watched V) (op : Op V) : Option (Watched V) :=
  match apply s.1 op with
  | .ok (hash, result) => some (hash, s.2 ++ [(answer s.1 hash result, amstrhashGetSize hash)])
  | .error _ => none

def stepTwins (s : Watched V × Watched V) (ops : Op V × Op V) : Option (Watched V × Watched V) :=
  match stepWatched s.1 ops.1, stepWatched s.2 ops.2 with
  | some first, some second => some (first, second)
  | _, _ => none

def SameCall (s : Watched V × Watched V) (ops : Op V × Op V) (_ : Watched V × Watched V) : Prop :=
  Suited s.1.1 ops.1 ∧ Suited s.2.1 ops.2 ∧ ∃ call, Asks s.1.1 ops.1 call ∧ Asks s.2.1 ops.2 call

/-- The tables differ in their capacity, their thresholds, their room for spare entries and in
whether they grow, and in nothing else that was chosen for them. -/
structure Alike (a b : Amstrhash V) : Prop where
  useLock : a.flags.useLock = b.flags.useLock
  dupKeys : a.flags.dupKeys = b.flags.dupKeys
  overwrite : a.flags.overwrite = b.flags.overwrite
  noFreeCb : a.flags.noFreeCb = b.flags.noFreeCb
  onDelete : a.attr.onDelete = b.attr.onDelete

theorem Alike.congr {a b a' b' : Amstrhash V} (alike : Alike a b) (flags : a'.flags = a.flags)
    (attr : a'.attr = a.attr) (flags' : b'.flags = b.flags) (attr' : b'.attr = b.attr) :
    Alike a' b' := by
  obtain ⟨useLock, dupKeys, overwrite, noFreeCb, onDelete⟩ := alike
  rw [← flags, ← flags'] at useLock dupKeys overwrite noFreeCb
  rw [← attr, ← attr'] at onDelete
  exact ⟨useLock, dupKeys, overwrite, noFreeCb, onDelete⟩

structure Twins (a b : Amstrhash V) (dict : CString → Option (Option V)) : Prop where
  first : Stands a dict
  second : Stands b dict
  lock : a.lock = b.lock
  state : a.lock = ⟨0, false⟩ ∨ a.flags.useLock = true ∧ a.lock = ⟨0, true⟩
  alike : Alike a b

theorem Twins.inv {a b : Amstrhash V} (twins : Twins a b dict) : Inv a ∧ Inv b := by
  obtain ⟨entries, filed, kept, -⟩ := twins.first
  obtain ⟨entries', filed', kept', -⟩ := twins.second
  exact ⟨⟨⟨entries, filed, kept⟩, twins.state⟩, ⟨entries', filed', kept'⟩,
    twins.alike.useLock ▸ twins.lock ▸ twins.state⟩

theorem Stands.same_size {a b : Amstrhash V} (first : Stands a dict) (second : Stands b dict) :
    a.size = b.size := by
  obtain ⟨entries, filed, kept, represents⟩ := first
  obtain ⟨entries', filed', kept', represents'⟩ := second
  obtain ⟨keys, isKey, counts⟩ := represents.size filed kept
  obtain ⟨keys', isKey', counts'⟩ := represents'.size filed' kept'
  have same : keys = keys' := Finset.ext fun str => (isKey str).trans (isKey' str).symm
  exact UInt64.toNat_inj.mp (counts.trans (same ▸ counts'.symm))

theorem Stands.apart (stands : Stands hash dict) : Apart dict := by
  obtain ⟨entries, -, kept, represents⟩ := stands
  exact represents.apart kept

theorem Stands.called {call : Call V} (stands : Stands hash dict) (inv : Inv hash)
    (suited : Suited hash op) (asks : Asks hash op call)
    (returned : apply hash op = .ok (hash', result)) : ∃ dict', Stands hash' dict' ∧
      Serves hash.flags.overwrite hash.attr.onDelete dict call dict' (answer hash hash' result) ∧
      hash'.flags = hash.flags ∧ hash'.attr = hash.attr ∧
      op.leaves result = call.leaves (answer hash hash' result).rc := by
  obtain ⟨entries, filed, kept, represents⟩ := stands
  obtain ⟨entries₁, free, entries', lock, lockCalls, filed₁, kept₁, outcome, filed', kept', rfl⟩ :=
    outcome_of_returned inv suited.1 returned
  have represents₁ := represents.perm (filed.all.symm.trans filed₁.all)
  obtain ⟨dict', represents', serves⟩ := outcome.serves filed₁ kept₁ suited represents₁ asks
  exact ⟨dict', ⟨entries', filed'.relock lock lockCalls, kept'.relock lock lockCalls,
    represents'.relock lock lockCalls⟩, serves, outcome.flags, outcome.attr,
    asks.leaves outcome _ _⟩

theorem Twins.bare {a b : Amstrhash V} {opA opB : Op V} {call : Call V} (twins : Twins a b dict)
    (asksA : Asks a opA call) (asksB : Asks b opB call) : opA.bare = true ↔ opB.bare = true := by
  obtain ⟨_, filed, _, represents⟩ := twins.first
  obtain ⟨_, filed', _, represents'⟩ := twins.second
  exact (asksA.bare filed represents).trans (asksB.bare filed' represents').symm

theorem Twins.called {a b a' b' : Amstrhash V} {opA opB : Op V} {call : Call V}
    {resultA resultB : Result} (twins : Twins a b dict) (suitedA : Suited a opA)
    (suitedB : Suited b opB) (asksA : Asks a opA call) (asksB : Asks b opB call)
    (returnedA : apply a opA = .ok (a', resultA)) (returnedB : apply b opB = .ok (b', resultB)) :
      ∃ dict', Twins a' b' dict' ∧
      answer a a' resultA = answer b b' resultB ∧ a'.size = b'.size := by
  obtain ⟨invA, invB⟩ := twins.inv
  obtain ⟨dictA, standsA, servesA, flagsA, attrA, leavesA⟩ :=
    twins.first.called invA suitedA asksA returnedA
  obtain ⟨dictB, standsB, servesB, flagsB, attrB, leavesB⟩ :=
    twins.second.called invB suitedB asksB returnedB
  rw [twins.alike.overwrite, twins.alike.onDelete] at servesA
  obtain ⟨rfl, same⟩ := servesA.unique twins.first.apart servesB
  have lockA := returned_lock invA suitedA.1 returnedA
  have lockB := returned_lock invB suitedB.1 returnedB
  have lock : a'.lock = b'.lock := by
    rw [lockA, lockB, leavesA, leavesB, same, twins.lock, twins.alike.useLock]
    simp only [twins.bare asksA asksB]
  have inv' := invA.returned suitedA.1 returnedA
  exact ⟨dictA, ⟨standsA, standsB, lock, inv'.lock, twins.alike.congr flagsA attrA flagsB attrB⟩,
    same,
    standsA.same_size standsB⟩

def Unobservable (s : Watched V × Watched V) : Prop :=
  (∃ dict, Twins s.1.1 s.2.1 dict) ∧ s.1.2 = s.2.2

theorem Unobservable.step {s s' : Watched V × Watched V} {ops : Op V × Op V} (same : Unobservable s)
    (call : SameCall s ops s') (fired : stepTwins s ops = some s') : Unobservable s' := by
  obtain ⟨⟨dict, twins⟩, seen⟩ := same
  obtain ⟨suitedA, suitedB, call, asksA, asksB⟩ := call
  cases returnedA : apply s.1.1 ops.1 with
  | error fault => simp [stepTwins, stepWatched, returnedA] at fired
  | ok outA =>
      cases returnedB : apply s.2.1 ops.2 with
      | error fault => simp [stepTwins, stepWatched, returnedB] at fired
      | ok outB =>
          simp only [stepTwins, stepWatched, returnedA, returnedB, Option.some.injEq] at fired
          subst fired
          obtain ⟨dict', twins', same, size⟩ :=
            twins.called suitedA suitedB asksA asksB returnedA returnedB
          refine ⟨⟨dict', twins'⟩, ?_⟩
          show s.1.2 ++ _ = s.2.2 ++ _
          rw [seen, same, amstrhashGetSize, amstrhashGetSize, size]

/-- Two tables that differ in their capacity, their thresholds, their room for spare entries and in
whether they grow are the same to their callers: the same calls give the same return codes, keys,
values, sizes and calls of `on_delete`, and the next call returns in both runs or in none. -/
theorem amstrhash_resize_unobservable {startA startB : Amstrhash V} {ops : List (Op V × Op V)}
    {s : Watched V × Watched V} (startedA : Started startA) (startedB : Started startB)
    (alike : Alike startA startB)
    (run : Run stepTwins SameCall ((startA, []), (startB, [])) ops s) :
    s.1.2 = s.2.2 ∧ ∀ next s', SameCall s next s' →
      ((∃ out, apply s.1.1 next.1 = .ok out) ↔ ∃ out, apply s.2.1 next.2 = .ok out) := by
  have freeA := (inv_started startedA).2.1
  have freeB := (inv_started startedB).2.1
  have initial : Unobservable ((startA, []), (startB, [])) :=
    ⟨⟨fun _ => none, stands_started startedA, stands_started startedB, freeA.trans freeB.symm,
      .inl freeA, alike⟩, rfl⟩
  have same : Unobservable s := by
    apply run.invariant Unobservable initial
    intro before ops after same fired call
    exact same.step call fired
  obtain ⟨⟨dict, twins⟩, seen⟩ := same
  refine ⟨seen, fun next s' ⟨suitedA, suitedB, call, asksA, asksB⟩ => ?_⟩
  obtain ⟨invA, invB⟩ := twins.inv
  rw [returns_iff invA suitedA.1, returns_iff invB suitedB.1, twins.bare asksA asksB, twins.lock]

/-- An insertion into a table of fixed size and into one that doubles its capacity. -/
theorem amstrhash_resize_unobservable_sample :
    ∃ (startA startB : Amstrhash ℕ) (s : Watched ℕ × Watched ℕ),
    startA.flags.fixedSize = true ∧ startB.flags.fixedSize = false ∧
    s.1.1.capacity = 8 ∧ s.2.1.capacity = 32 ∧ s.1.2.length = 1 ∧
    s.1.2 = s.2.2 ∧ ∀ next s', SameCall s next s' →
      ((∃ out, apply s.1.1 next.1 = .ok out) ↔ ∃ out, apply s.2.1 next.2 = .ok out) := by
  obtain ⟨startA, startB, s, madeA, madeB, fired, fixed, grows, small, large, seen, sizeA, sizeB,
      mapped, copy, unused,
      mapped', copy', unused', keyA, keyB, spareA, spareB, useLock, overwrite, onDelete⟩ :
      ∃ (startA startB : Amstrhash ℕ) (s : Watched ℕ × Watched ℕ),
      amstrhashInit 0 ⟨true, true, true, false, false⟩ none true true true sampleStrings = .ok
      (some startA) ∧
      amstrhashInit 16 ⟨false, true, true, false, false⟩ (some ⟨1, 2, 3, false⟩) true true true
          sampleStrings =
          .ok (some startB) ∧
      stepTwins ((startA, []), (startB, [])) (sampleInsert, sampleInsert) = some s ∧
      startA.flags.fixedSize = true ∧ startB.flags.fixedSize = false ∧
      s.1.1.capacity = 8 ∧ s.2.1.capacity = 32 ∧ s.1.2.length = 1 ∧
      startA.capacity = 8 ∧ startB.capacity = 16 ∧
      startA.strings ⟨16, by decide⟩ = some ⟨[69, 122], by decide⟩ ∧
      startA.strings ⟨48, by decide⟩ = none ∧
      startA.ents ⟨64, by decide⟩ = none ∧
      startB.strings ⟨16, by decide⟩ = some ⟨[69, 122], by decide⟩ ∧
      startB.strings ⟨48, by decide⟩ = none ∧
      startB.ents ⟨64, by decide⟩ = none ∧ startA.flags.dupKeys = startB.flags.dupKeys ∧
      startA.flags.noFreeCb = startB.flags.noFreeCb ∧ startA.freeEnts = [] ∧ startB.freeEnts = [] ∧
      startA.flags.useLock = startB.flags.useLock ∧
      startA.flags.overwrite = startB.flags.overwrite ∧
      startA.attr.onDelete = startB.attr.onDelete :=
    ⟨_, _, _, rfl, rfl, rfl, rfl, rfl, rfl, rfl, rfl, rfl, rfl, rfl, rfl, rfl, rfl, rfl, rfl, rfl,
      rfl, rfl, rfl, rfl, rfl, rfl⟩
  have startedA : Started startA := ⟨_, _, _, _, _, _, _, madeA, by rw [sizeA]; decide⟩
  have startedB : Started startB := ⟨_, _, _, _, _, _, _, madeB, by rw [sizeB]; decide⟩
  have suited {start : Amstrhash ℕ}
      (mapped : start.strings ⟨16, by decide⟩ = some ⟨[69, 122], by decide⟩)
      (copy : start.strings ⟨48, by decide⟩ = none) (unused : start.ents ⟨64, by decide⟩ = none)
      (fits : start.capacity.toNat * 2 * 24 < wordSize) (spare : start.freeEnts = []) :
      Suited start sampleInsert := by
    refine ⟨⟨⟨_, mapped⟩,
      ⟨fun c same => Option.some.inj same ▸ copy, fun e same => Option.some.inj same ▸ unused⟩,
      fun _ => fits⟩, fun str _ => ?_⟩
    rintro (⟨-, noArray⟩ | ⟨-, noCopy⟩ | noEnt)
    · cases noArray
    · cases noCopy
    · rw [nextEnt, spare] at noEnt
      cases noEnt
  have call : SameCall ((startA, []), (startB, [])) (sampleInsert, sampleInsert) s :=
    ⟨suited mapped copy unused (by rw [sizeA]; decide) spareA, suited mapped' copy' unused'
      (by rw [sizeB]; decide) spareB,
      _, .insert mapped, .insert mapped'⟩
  exact ⟨startA, startB, s, fixed, grows, small, large, seen,
    amstrhash_resize_unobservable startedA startedB
    ⟨useLock, keyA, overwrite, keyB, onDelete⟩ (Run.nil.snoc fired call)⟩

end Runs

end Libam.Strhash
