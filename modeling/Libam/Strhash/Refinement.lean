import Libam.Strhash.Dictionary

/-! Sequences of calls follow a map from strings to values for as long as no key of a call has the
hash of another key of the table, and the lock is free. -/

namespace Libam.Strhash

open Libam.Lists Libam.Interleaving

variable {V : Type} {hash hash' start : Amstrhash V} {entries entries' : List Pointer}
  {ent : Pointer} {op : Op V} {dict : CString → Option (Option V)} {result : Result}

section Requests

def Op.key : Op V → Option Pointer
  | .insert key _ _ => some key
  | .find key => some key
  | .removeKey key => some key
  | _ => none

def Op.request (hash : Amstrhash V) : Op V → Option (Request CString (Option V))
  | .insert key value _ => (hash.strings key).map fun str => .insert str value
  | .find key => (hash.strings key).map .find
  | .remove none => some .nothing
  | .remove (some ent) => (hash.textAt ent).map .remove
  | .removeKey key => (hash.strings key).map .remove
  | .setEntValue ent value => (hash.textAt ent).map fun str => .assign str value
  | .term => some .clear
  | .write .. => some .nothing

def Names (hash : Amstrhash V) (op : Op V) (ent : Pointer) : Prop :=
  ent ∈ hash.listed ∧ ∃ key str, op.key = some key ∧ hash.strings key = some str ∧
    hash.textAt ent = some str

inductive Answers (hash : Amstrhash V) (op : Op V) : Result → Reply (Option V) → Prop
  | inserted : Answers hash op (.inserted .success none) .accepted
  | refused {ent : Pointer} : Names hash op ent →
      Answers hash op (.inserted .error (some ent)) .refused
  | missed : Answers hash op (.found none) (.found none)
  | found {ent : Pointer} {value : Option V} : Names hash op ent → hash.valueAt ent = some value →
      Answers hash op (.found (some ent)) (.found (some value))
  | removed : Answers hash op (.returned .success) .accepted
  | absent : Answers hash op (.returned .error) .refused
  | null : Answers hash op (.returned .error) .done
  | done : Answers hash op .none .done

/-- The entries with the hash of the call's key have the characters of this key. -/
def Distinguished (hash : Amstrhash V) (op : Op V) : Prop :=
  ∀ key str, op.key = some key → hash.strings key = some str →
    ∀ ent ∈ hash.listed, hash.hashAt ent = some (amshash str) → hash.textAt ent = some str

/-- Allocations succeed, and strings that are keys of the table do not change. -/
def Suited (hash : Amstrhash V) (op : Op V) : Prop :=
  Ready hash op hash ∧ match op with
    | .insert key _ allocs =>
        ∀ str, hash.strings key = some str → ¬ AddFails hash key (amshash str) allocs
    | .write address _ => ∀ ent ∈ hash.listed, hash.keyAt ent ≠ some address
    | _ => True

end Requests

section Steps

theorem stored_text {key : Pointer} {str : CString} {copy fresh : Option Pointer}
    (unused : Unused hash copy fresh) (isKey : hash.strings key = some str)
    (fits : ¬ EntFails hash (some key) copy fresh) :
    (storedKey hash (some key) copy).bind (storedStrings hash (some key) copy) = some str := by
  obtain ⟨copied, _⟩ := not_or.mp fits
  by_cases copies : hash.flags.dupKeys = true ∧ some key ≠ none
  · obtain ⟨c, isCopy⟩ := Option.ne_none_iff_exists'.mp fun noCopy => copied ⟨copies, noCopy⟩
    rw [storedKey, if_pos copies, isCopy, Option.bind_some, storedStrings, if_pos copies,
      Function.update_self, Option.bind_some, isKey]
  · rw [storedKey, if_neg copies, Option.bind_some]
    exact stored_old unused isKey

theorem Represents.added {key : Pointer} {str : CString} {value : Option V} {allocs : Allocations}
    (represents : Represents hash entries dict) (filed : Filed hash entries)
    (kept : Kept hash entries) (unused : Unused hash allocs.copy allocs.ent)
    (isKey : hash.strings key = some str) (absent : Absent hash entries (amshash str))
    (fits : ¬ EntFails hash (some key) allocs.copy allocs.ent)
    (next : nextEnt hash allocs.ent = some ent) (buckets : ℕ → AmstrhashBucket) (capacity : UInt64)
    (slots : ℕ) :
    Represents { hash.added ent ⟨storedKey hash (some key) allocs.copy, amshash str, value⟩
        (storedStrings hash (some key) allocs.copy) with
      buckets := buckets, capacity := capacity, slots := slots } (ent :: entries)
      (Function.update dict str (some value)) := by
  have outside := nextEnt_outside filed kept unused next
  obtain ⟨grown, isGrown⟩ : ∃ grown, grown = { hash.added ent
    ⟨storedKey hash (some key) allocs.copy, amshash str, value⟩
    (storedStrings hash (some key) allocs.copy) with
      buckets := buckets, capacity := capacity, slots := slots } := ⟨_, rfl⟩
  rw [← isGrown]
  have own : grown.ents ent = some ⟨storedKey hash (some key) allocs.copy, amshash str, value⟩ := by
    rw [isGrown]
    exact Function.update_self ..
  have strings : grown.strings = storedStrings hash (some key) allocs.copy := by
    rw [isGrown]
    rfl
  have others {a : Pointer} (member : a ∈ entries) : grown.ents a = hash.ents a := by
    have away : a ≠ ent := fun same => outside (List.mem_append_left _ (same ▸ member))
    rw [isGrown]
    exact Function.update_of_ne away ..
  refine (represents.congr (fun a => others) fun a member => ?_).cons
    (represents.absent absent) ?_ ?_ ?_
  · obtain ⟨str', atA, _⟩ := represents.named a member
    rw [atA]
    obtain ⟨k, isK, isStr⟩ := Option.bind_eq_some_iff.mp atA
    rw [Amstrhash.textAt, Amstrhash.keyAt, others member, ← Amstrhash.keyAt, isK,
      Option.bind_some, strings]
    exact stored_old unused isStr
  · rw [Amstrhash.textAt, Amstrhash.keyAt, own, Option.bind_some, strings]
    exact stored_text unused isKey fits
  · rw [Amstrhash.hashAt, own, Option.map_some]
  · rw [Amstrhash.valueAt, own, Option.map_some]

theorem Represents.written (represents : Represents hash entries dict) {address : Pointer}
    (str : Option CString) (foreign : ∀ a ∈ entries, hash.keyAt a ≠ some address) :
    Represents { hash with strings := Function.update hash.strings address str } entries dict := by
  refine represents.congr (fun _ _ => rfl) fun a member => ?_
  show (hash.keyAt a).bind (Function.update hash.strings address str) =
      (hash.keyAt a).bind hash.strings
  cases atA : hash.keyAt a with
  | none => rfl
  | some k =>
      have other : k ≠ address := fun same => foreign a member (same ▸ atA)
      exact Function.update_of_ne other ..

theorem Outcome.represents (filed : Filed hash entries) (kept : Kept hash entries)
    (suited : Suited hash op) (represents : Represents hash entries dict)
    (distinguished : Distinguished hash op)
    (outcome : Outcome hash entries op hash' entries' result) :
      ∃ request, op.request hash = some request ∧
      Represents hash' entries' (request.serve hash.flags.overwrite dict).1 ∧
      Answers hash op result (request.serve hash.flags.overwrite dict).2 := by
  have listed {a : Pointer} (member : a ∈ entries) : a ∈ hash.listed := filed.all.mem_iff.mpr member
  have atEnt {a : Pointer} {entry : AmstrhashEntry V} (here : hash.ents a = some entry) :
      hash.hashAt a = some entry.keyHash := by rw [Amstrhash.hashAt, here, Option.map_some]
  cases outcome with
  | @insert key str value allocs rc old _ _ isKey inserted =>
      refine ⟨.insert str value, by simp only [Op.request, isKey, Option.map_some], ?_⟩
      cases inserted with
      | @overwritten ent entry member here same overwrite =>
          have text := distinguished key str rfl isKey ent (listed member) (same ▸ atEnt here)
          rw [Request.serve, if_pos (.inr overwrite)]
          exact ⟨represents.assign kept member here text value _, .inserted⟩
      | @refused ent entry member here same keep =>
          have text := distinguished key str rfl isKey ent (listed member) (same ▸ atEnt here)
          have present := represents.lookup member text here
          rw [Request.serve, if_neg (by simp [present, keep])]
          exact ⟨represents, .refused ⟨listed member, key, str, rfl, isKey, text⟩⟩
      | failed absent fails => exact absurd fails (suited.2 str isKey)
      | @added buckets capacity slots ent absent fits next =>
          have missing := represents.absent absent
          rw [Request.serve, if_pos (.inl missing)]
          have insertable : Insertable hash key allocs := suited.1
          refine ⟨represents.added filed kept insertable.unused isKey absent
            (fun fails => fits (.inr fails)) next _ _ _,
            .inserted⟩
  | @find key str out isKey found missed =>
      refine ⟨.find str, by simp only [Op.request, isKey, Option.map_some], represents, ?_⟩
      cases out with
      | none =>
          rw [Request.serve, represents.absent (missed rfl)]
          exact .missed
      | some ent =>
          obtain ⟨member, same⟩ := found ent rfl
          have text := distinguished key str rfl isKey ent (listed member) same
          obtain ⟨entry, here⟩ := filed.mapped member
          rw [Request.serve, represents.lookup member text here]
          refine .found ⟨listed member, key, str, rfl, isKey, text⟩ ?_
          rw [Amstrhash.valueAt, here, Option.map_some]
  | removeNull => exact ⟨.nothing, rfl, represents, .null⟩
  | @remove ent entry member here =>
      obtain ⟨str, text, _⟩ := represents.named ent member
      have present := represents.lookup member text here
      refine ⟨.remove str, by simp only [Op.request, text, Option.map_some], ?_⟩
      rw [Request.serve, if_neg (by rw [present]; exact Option.some_ne_none _)]
      exact ⟨represents.taken kept member here text true, .removed⟩
  | @removeAbsent key str isKey absent =>
      refine ⟨.remove str, by simp only [Op.request, isKey, Option.map_some], ?_⟩
      rw [Request.serve, if_pos (represents.absent absent)]
      exact ⟨represents, .absent⟩
  | @removeKey key ent str entry isKey member here same =>
      have text := distinguished key str rfl isKey ent (listed member) (same ▸ atEnt here)
      have present := represents.lookup member text here
      refine ⟨.remove str, by simp only [Op.request, isKey, Option.map_some], ?_⟩
      rw [Request.serve, if_neg (by rw [present]; exact Option.some_ne_none _)]
      exact ⟨represents.taken kept member here text true, .removed⟩
  | @setEntValue ent entry value member here =>
      obtain ⟨str, text, _⟩ := represents.named ent member
      refine ⟨.assign str value, by simp only [Op.request, text, Option.map_some], ?_, .done⟩
      exact represents.assign kept member here text value hash.deleted
  | term removes gone cleared => exact ⟨.clear, rfl, ⟨by simp, by simp [Request.serve]⟩, .done⟩
  | @write address str =>
      exact ⟨.nothing, rfl, represents.written str fun a member =>
        suited.2 a (listed member), .done⟩

end Steps

section Exactness

def Stands (hash : Amstrhash V) (dict : CString → Option (Option V)) : Prop :=
  ∃ entries, Filed hash entries ∧ Kept hash entries ∧ Represents hash entries dict

/-- The call returns, answers as the map does, and leaves a table that stands for the new map. -/
def Served (hash : Amstrhash V) (dict : CString → Option (Option V)) (op : Op V) : Prop :=
  ∃ hash' result request, apply hash op = .ok (hash', result) ∧ op.request hash = some request ∧
    Stands hash' (request.serve hash.flags.overwrite dict).1 ∧
    Answers hash op result (request.serve hash.flags.overwrite dict).2

/-- No other key has the hash of the call's key, and the lock is free if the call needs it. -/
def Servable (hash : Amstrhash V) (op : Op V) : Prop :=
  Distinguished hash op ∧ (op.bare = true ∨ hash.lock = ⟨0, false⟩)

theorem Represents.relock (represents : Represents hash entries dict) (lock : RwLock)
    (lockCalls : List LockCall) : Represents (hash.relock lock lockCalls) entries dict :=
  represents.congr (fun _ _ => rfl) fun _ _ => rfl

theorem Stands.served (stands : Stands hash dict) (suited : Suited hash op)
    (servable : Servable hash op) : Served hash dict op := by
  obtain ⟨entries, filed, kept, represents⟩ := stands
  obtain ⟨distinguished, free⟩ := servable
  by_cases bare : op.bare = true
  · obtain ⟨hash', entries', result, run, outcome, filed', kept', _⟩ :=
        apply_bare bare filed kept suited.1
    obtain ⟨request, isRequest, represents', answers⟩ :=
      outcome.represents filed kept suited represents distinguished
    exact ⟨hash', result, request, run, isRequest, ⟨entries', filed', kept', represents'⟩, answers⟩
  · obtain ⟨hash', entries', result, run, outcome, filed', kept'⟩ :=
      apply_spec (free.resolve_left bare) filed kept suited.1
    obtain ⟨request, isRequest, represents', answers⟩ :=
      outcome.represents filed kept suited represents distinguished
    exact ⟨_, result, request, run, isRequest,
      ⟨entries', filed'.relock _ _, kept'.relock _ _, represents'.relock _ _⟩, answers⟩

/-- A call whose key has the hash of another key of the table takes the one for the other. -/
theorem Outcome.confused (filed : Filed hash entries) (kept : Kept hash entries)
    (represents : Represents hash entries dict) {key : Pointer} {str : CString}
    (isKey : op.key = some key) (isStr : hash.strings key = some str) (member : ent ∈ entries)
    (same : hash.hashAt ent = some (amshash str)) (other : hash.textAt ent ≠ some str)
    (outcome : Outcome hash entries op hash' entries' result) {request : Request CString (Option V)}
    (isRequest : op.request hash = some request)
    (answers : Answers hash op result (request.serve hash.flags.overwrite dict).2) :
    ¬ Stands hash' (request.serve hash.flags.overwrite dict).1 := by
  have missing : dict str = none := by
    apply Option.eq_none_iff_forall_ne_some.mpr
    intro value found
    obtain ⟨a, inside, atA, _⟩ := (represents.agrees str value).mp found
    obtain ⟨str', atA', hashA⟩ := represents.named a inside
    cases atA.symm.trans atA'
    exact other (kept.distinct a inside ent member _ hashA same ▸ atA)
  have present : ¬ Absent hash entries (amshash str) := fun absent => absent ent member same
  cases outcome with
  | insert here inserted =>
      cases isKey
      cases isStr.symm.trans here
      simp only [Op.request, isStr, Option.map_some, Option.some.injEq] at isRequest
      subst isRequest
      rw [Request.serve, if_pos (.inl missing)] at answers ⊢
      cases inserted with
      | refused => cases answers
      | failed absent => exact absurd absent present
      | added absent => exact absurd absent present
      | @overwritten e entry inside atE =>
          -- The new map has the key, and no entry of the table does.
          rintro ⟨others, filed', _, represents'⟩
          obtain ⟨a, inside', atA, _⟩ := (represents'.agrees str _).mp (Function.update_self ..)
          have inEntries : a ∈ entries := filed.all.mem_iff.mp (filed'.all.mem_iff.mpr inside')
          have text : hash.textAt a = some str := (textAt_value atE _ _ a).symm.trans atA
          obtain ⟨str', text', hashA⟩ := represents.named a inEntries
          cases text.symm.trans text'
          exact other (kept.distinct a inEntries ent member _ hashA same ▸ text)
  | find here found missed =>
      cases isKey
      cases isStr.symm.trans here
      simp only [Op.request, isStr, Option.map_some, Option.some.injEq] at isRequest
      subst isRequest
      simp only [Request.serve, missing] at answers
      cases answers
      exact absurd (missed rfl) present
  | removeAbsent here absent =>
      cases isKey
      cases isStr.symm.trans here
      exact absurd absent present
  | removeKey here =>
      cases isKey
      cases isStr.symm.trans here
      simp only [Op.request, isStr, Option.map_some, Option.some.injEq] at isRequest
      subst isRequest
      rw [Request.serve, if_pos missing] at answers
      cases answers
  | _ => cases isKey

theorem Stands.served_iff (stands : Stands hash dict)
    (lock : hash.lock = ⟨0, false⟩ ∨ hash.flags.useLock = true ∧ hash.lock = ⟨0, true⟩)
    (suited : Suited hash op) : Served hash dict op ↔ Servable hash op := by
  refine ⟨?_, stands.served suited⟩
  obtain ⟨entries, filed, kept, represents⟩ := stands
  rintro ⟨hash', result, request, run, isRequest, stands', answers⟩
  have ready : op.bare = true ∨ hash.lock = ⟨0, false⟩ := by
    refine (Bool.eq_false_or_eq_true op.bare).imp_right fun needs =>
      lock.resolve_right fun held => ?_
    cases run.symm.trans (apply_blocked held.1 held.2 needs suited.1)
  refine ⟨fun key str isKey isStr ent listed same => ?_, ready⟩
  by_contra other
  have member : ent ∈ entries := filed.all.mem_iff.mp listed
  have needs : op.bare ≠ true := by
    intro bare
    cases op with
    | insert => cases bare
    | find => cases bare
    | removeKey => cases bare
    | _ => cases isKey
  obtain ⟨hash₁, entries₁, result₁, run₁, outcome, _, _⟩ :=
    apply_spec (ready.resolve_left needs) filed kept suited.1
  cases run.symm.trans run₁
  apply outcome.confused filed kept represents isKey isStr member same other isRequest answers
  obtain ⟨entries₂, filed₂, kept₂, represents₂⟩ := stands'
  exact ⟨entries₂, filed₂.relock hash₁.lock hash₁.lockCalls,
    kept₂.relock hash₁.lock hash₁.lockCalls,
    represents₂.relock hash₁.lock hash₁.lockCalls⟩

end Exactness

section Runs

abbrev Pair (V : Type) := Amstrhash V × (CString → Option (Option V))

def stepBoth (s : Pair V) (op : Op V) : Option (Pair V) :=
  match apply s.1 op, op.request s.1 with
  | .ok (hash, _), some request => some (hash, (request.serve s.1.flags.overwrite s.2).1)
  | _, _ => none

def ServableStep (s : Pair V) (op : Op V) (_ : Pair V) : Prop := Suited s.1 op ∧ Servable s.1 op

theorem stands_started (started : Started start) : Stands start fun _ => none := by
  obtain ⟨inv, -, filed⟩ := inv_started started
  obtain ⟨entries, filed', kept⟩ := inv.held
  have none := (filed'.all.symm.trans filed.all).eq_nil
  subst none
  exact ⟨[], filed, kept, nofun, by simp⟩

theorem run_stands {ops : List (Op V)} {s : Pair V} (started : Started start)
    (run : Run stepBoth ServableStep (start, fun _ => none) ops s) : Stands s.1 s.2 ∧
      (s.1.lock = ⟨0, false⟩ ∨ s.1.flags.useLock = true ∧ s.1.lock = ⟨0, true⟩) := by
  refine run.invariant (fun s => Stands s.1 s.2 ∧ (s.1.lock = ⟨0, false⟩ ∨
    s.1.flags.useLock = true ∧ s.1.lock = ⟨0, true⟩)) ?_ fun s op s' inv fired ok => ?_
  · exact ⟨stands_started started, (inv_started started).1.lock⟩
  · obtain ⟨stands, lock⟩ := inv
    obtain ⟨hash', result, request, applied, isRequest, stands', _⟩ := stands.served ok.1 ok.2
    simp only [stepBoth, applied, isRequest, Option.some.injEq] at fired
    subst fired
    obtain ⟨entries, filed, kept, _⟩ := stands
    refine ⟨stands', ?_⟩
    rcases inv_step ⟨⟨entries, filed, kept⟩, lock⟩ ok.1.1 with ⟨hash₁, _, applied₁,
      inv₁⟩ | ⟨blocked, _⟩
    · cases applied.symm.trans applied₁
      exact inv₁.lock
    · cases applied.symm.trans blocked

/-- As long as no key of a call has the hash of another key of the table and the lock is free for
every call that needs it, the table stands for the map that the calls describe, its size is the
number of keys, and the next call answers as the map does if and only if the same holds for it. -/
theorem amstrhash_refines_map {ops : List (Op V)} {s : Pair V} (started : Started start)
    (run : Run stepBoth ServableStep (start, fun _ => none) ops s) : Stands s.1 s.2 ∧
      (∃ keys : Finset CString, (∀ str, str ∈ keys ↔ s.2 str ≠ none) ∧
        (amstrhashGetSize s.1).toNat = keys.card) ∧
      ∀ op, Suited s.1 op → (Served s.1 s.2 op ↔ Servable s.1 op) := by
  obtain ⟨stands, lock⟩ := run_stands started run
  obtain ⟨entries, filed, kept, represents⟩ := stands
  exact ⟨⟨entries, filed, kept, represents⟩, represents.size filed kept, fun op suited =>
    Stands.served_iff ⟨entries, filed, kept, represents⟩ lock suited⟩

theorem sample_pair : ∃ (start : Amstrhash ℕ) (s : Pair ℕ) (hash : Amstrhash ℕ) (ent : Pointer),
    Started start ∧
    Run stepBoth ServableStep (start, fun _ => none) [sampleInsert] s ∧
    Suited s.1 (.find ⟨32, by decide⟩) ∧
      apply s.1 (.find ⟨32, by decide⟩) = .ok (hash, .found (some ent)) ∧
      s.1.textAt ent = some ⟨[69, 122], by decide⟩ ∧
      s.1.strings ⟨32, by decide⟩ = some ⟨[70, 89], by decide⟩ ∧
      s.2 ⟨[70, 89], by decide⟩ = none := by
  obtain ⟨start, s, hash, ent, made, fired, lock, capacity, listed, mapped, copy, unused, keeps,
      spares, found, text,
      searched, missing⟩ :
      ∃ (start : Amstrhash ℕ) (s : Pair ℕ) (hash : Amstrhash ℕ) (ent : Pointer),
      amstrhashInit 0 ⟨false, true, true, false, false⟩ none true true true sampleStrings = .ok
        (some start) ∧
        stepBoth (start, fun _ => none) sampleInsert = some s ∧ start.lock = ⟨0, false⟩ ∧
        start.capacity = 8 ∧
        start.listed = [] ∧ (∃ str, start.strings ⟨16, by decide⟩ = some str) ∧
        start.strings ⟨48, by decide⟩ = none ∧ start.ents ⟨64, by decide⟩ = none ∧
        (∀ n, shouldResize start n = false) ∧ start.freeEnts = [] ∧
        apply s.1 (.find ⟨32, by decide⟩) = .ok (hash, .found (some ent)) ∧
        s.1.textAt ent = some ⟨[69, 122], by decide⟩ ∧
        s.1.strings ⟨32, by decide⟩ = some ⟨[70, 89], by decide⟩ ∧
        s.2 ⟨[70, 89], by decide⟩ = none :=
    ⟨_, _, _, _, rfl, rfl, rfl, rfl, rfl, ⟨_, rfl⟩, rfl, rfl, fun _ => rfl, rfl, rfl, rfl, rfl, rfl⟩
  have started : Started start := ⟨_, _, _, _, _, _, _, made, by rw [capacity]; decide⟩
  have suited : Suited start sampleInsert := by
    refine ⟨⟨mapped, ⟨fun c same => Option.some.inj same ▸ copy, fun e same =>
      Option.some.inj same ▸ unused⟩,
      fun _ => by rw [capacity]; decide⟩, fun str _ => ?_⟩
    rintro (⟨resizes, _⟩ | ⟨_, noCopy⟩ | noEnt)
    · rw [keeps] at resizes
      cases resizes
    · cases noCopy
    · rw [nextEnt, spares] at noEnt
      cases noEnt
  have distinguished : Distinguished start sampleInsert := fun _ _ _ _ ent member => by
    rw [listed] at member
    cases member
  exact ⟨start, s, hash, ent, started, Run.nil.snoc fired ⟨suited, distinguished, .inr lock⟩,
    ⟨⟨_, searched⟩, trivial⟩, found, text, searched, missing⟩

theorem amstrhash_refines_map_sample : ∃ (start : Amstrhash ℕ) (s : Pair ℕ), Started start ∧
    Run stepBoth ServableStep (start, fun _ => none) [sampleInsert] s ∧ Stands s.1 s.2 ∧
      (∃ keys : Finset CString, (∀ str, str ∈ keys ↔ s.2 str ≠ none) ∧
        (amstrhashGetSize s.1).toNat = keys.card) ∧
      ∀ op, Suited s.1 op → (Served s.1 s.2 op ↔ Servable s.1 op) := by
  obtain ⟨start, s, _, _, started, run, _⟩ := sample_pair
  exact ⟨start, s, started, run, amstrhash_refines_map started run⟩

/-- The table has "Ez" and not "FY", and the search of "FY" finds the entry of "Ez". -/
theorem amstrhash_confuses_keys :
    ∃ (start : Amstrhash ℕ) (s : Pair ℕ) (hash : Amstrhash ℕ) (ent : Pointer),
    Started start ∧ Run stepBoth ServableStep (start, fun _ => none) [sampleInsert] s ∧
      Suited s.1 (.find ⟨32, by decide⟩) ∧ apply s.1 (.find ⟨32, by decide⟩) = .ok
      (hash, .found (some ent)) ∧
      s.1.textAt ent = some ⟨[69, 122], by decide⟩ ∧
      s.1.strings ⟨32, by decide⟩ = some ⟨[70, 89], by decide⟩ ∧ s.2 ⟨[70, 89], by decide⟩ = none ∧
      ¬ Served s.1 s.2 (.find ⟨32, by decide⟩) := by
  obtain ⟨start, s, hash, ent, started, run, suited, found, text, searched, missing⟩ := sample_pair
  refine ⟨start, s, hash, ent, started, run, suited, found, text, searched, missing, ?_⟩
  rintro ⟨hash', result, request, applied, isRequest, _, answers⟩
  cases found.symm.trans applied
  simp only [Op.request, searched, Option.map_some, Option.some.injEq] at isRequest
  subst isRequest
  simp only [Request.serve, missing] at answers
  cases answers

end Runs

end Libam.Strhash
