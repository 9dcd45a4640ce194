import Libam.Strhash.Calls

/-! What a hash table is for, a map from strings to values, and how a table stands for one. -/

namespace Libam.Strhash

open Libam.Lists Libam.Interleaving

variable {V : Type} {hash hash' start : Amstrhash V} {entries entries' : List Pointer}
  {ent : Pointer}

section Abstract

variable {K W : Type}

inductive Request (K W : Type)
  | insert (key : K) (value : W)
  | find (key : K)
  | remove (key : K)
  | assign (key : K) (value : W)
  | clear
  | nothing

inductive Reply (W : Type)
  | accepted
  | refused
  | found (value : Option W)
  | done

def Request.serve [DecidableEq K] (overwrite : Bool) (dict : K → Option W) : Request K W →
    (K → Option W) × Reply W
  | .insert key value =>
      if dict key = none ∨ overwrite = true then (Function.update dict key (some value), .accepted)
      else (dict, .refused)
  | .find key => (dict, .found (dict key))
  | .remove key =>
      if dict key = none then (dict, .refused) else (Function.update dict key none, .accepted)
  | .assign key value => (Function.update dict key (some value), .done)
  | .clear => (fun _ => none, .done)
  | .nothing => (dict, .done)

end Abstract

section Contents

def Amstrhash.textAt (hash : Amstrhash V) (ent : Pointer) : Option CString :=
  (hash.keyAt ent).bind hash.strings

def Amstrhash.valueAt (hash : Amstrhash V) (ent : Pointer) : Option (Option V) :=
  (hash.ents ent).map (·.value)

structure Represents (hash : Amstrhash V) (entries : List Pointer)
    (dict : CString → Option (Option V)) : Prop where
  named : ∀ ent ∈ entries, ∃ str, hash.textAt ent = some str ∧ hash.hashAt ent = some (amshash str)
  agrees : ∀ str value, dict str = some value ↔
    ∃ ent ∈ entries, hash.textAt ent = some str ∧ hash.valueAt ent = some value

variable {dict : CString → Option (Option V)} {str : CString} {entry : AmstrhashEntry V}
  {value : Option V}

theorem Represents.unique (represents : Represents hash entries dict) (kept : Kept hash entries)
    {a b : Pointer} (first : a ∈ entries) (second : b ∈ entries) (atA : hash.textAt a = some str)
    (atB : hash.textAt b = some str) : a = b := by
  obtain ⟨strA, textA, hashA⟩ := represents.named a first
  obtain ⟨strB, textB, hashB⟩ := represents.named b second
  cases atA.symm.trans textA
  cases atB.symm.trans textB
  exact kept.distinct a first b second _ hashA hashB

theorem Represents.lookup (represents : Represents hash entries dict) (member : ent ∈ entries)
    (text : hash.textAt ent = some str) (here : hash.ents ent = some entry) :
    dict str = some entry.value := by
  refine (represents.agrees str entry.value).mpr ⟨ent, member, text, ?_⟩
  rw [Amstrhash.valueAt, here, Option.map_some]

theorem Represents.absent (represents : Represents hash entries dict)
    (absent : Absent hash entries (amshash str)) : dict str = none := by
  apply Option.eq_none_iff_forall_ne_some.mpr
  intro value found
  obtain ⟨ent, member, text, _⟩ := (represents.agrees str value).mp found
  obtain ⟨str', text', atEnt⟩ := represents.named ent member
  cases text.symm.trans text'
  exact absent ent member atEnt

theorem Represents.size (represents : Represents hash entries dict) (filed : Filed hash entries)
    (kept : Kept hash entries) :
    ∃ keys : Finset CString, (∀ str, str ∈ keys ↔ dict str ≠ none) ∧
    hash.size.toNat = keys.card := by
  obtain ⟨nodup, _⟩ := List.nodup_append'.mp kept.nodup
  obtain ⟨text, isText⟩ : ∃ text : Pointer → CString, ∀ a ∈ entries,
      hash.textAt a = some (text a) := by
    refine ⟨fun a => (hash.textAt a).getD ⟨[], List.not_mem_nil⟩, fun a member => ?_⟩
    obtain ⟨str, atA, _⟩ := represents.named a member
    simp only [atA, Option.getD_some]
  have different : (entries.map text).Nodup := by
    apply nodup.map_on
    intro a first b second same
    exact represents.unique kept first second (isText a first) (same ▸ isText b second)
  refine ⟨(entries.map text).toFinset, fun str => ?_, ?_⟩
  · rw [List.mem_toFinset, List.mem_map]
    constructor
    · rintro ⟨a, member, rfl⟩
      obtain ⟨entry, here⟩ := filed.mapped member
      rw [represents.lookup member (isText a member) here]
      nofun
    · intro present
      obtain ⟨value, isValue⟩ := Option.ne_none_iff_exists'.mp present
      obtain ⟨a, member, atA, _⟩ := (represents.agrees str value).mp isValue
      exact ⟨a, member, Option.some.inj ((isText a member).symm.trans atA)⟩
  · rw [kept.size, List.toFinset_card_of_nodup different, List.length_map]

end Contents

section Changes

variable {dict : CString → Option (Option V)} {str : CString} {entry : AmstrhashEntry V}
  {value : Option V}

theorem textAt_value (here : hash.ents ent = some entry) (value : Option V)
    (deleted : List (Option Pointer × Option V)) (a : Pointer) :
    ({ hash with
        ents := Function.update hash.ents ent (some { entry with value := value })
        deleted := deleted }).textAt a = hash.textAt a :=
  congrArg (Option.bind · hash.strings) (keyAt_value here value deleted a)

theorem Represents.assign (represents : Represents hash entries dict) (kept : Kept hash entries)
    (member : ent ∈ entries) (here : hash.ents ent = some entry) (text : hash.textAt ent = some str)
    (value : Option V) (deleted : List (Option Pointer × Option V)) :
    Represents
      { hash with
        ents := Function.update hash.ents ent (some { entry with value := value })
        deleted := deleted }
      entries (Function.update dict str (some value)) := by
  obtain ⟨next, isNext⟩ : ∃ next, next = { hash with
    ents := Function.update hash.ents ent (some { entry with value := value })
    deleted := deleted } := ⟨_, rfl⟩
  rw [← isNext]
  have hashes (a : Pointer) : next.hashAt a = hash.hashAt a := by
    rw [isNext]
    exact hashAt_value here value deleted a
  have texts (a : Pointer) : next.textAt a = hash.textAt a := by
    rw [isNext]
    exact textAt_value here value deleted a
  have values (a : Pointer) : next.valueAt a = if a = ent then some value else hash.valueAt a := by
    simp only [isNext, Amstrhash.valueAt, Function.update_apply]
    split <;> rfl
  constructor
  · intro a inside
    rw [texts, hashes]
    exact represents.named a inside
  · intro str' value'
    rw [Function.update_apply]
    split
    · next same =>
        subst same
        constructor
        · intro isValue
          refine ⟨ent, member, (texts ent).trans text, ?_⟩
          rw [values, if_pos rfl, Option.some.inj isValue]
        · rintro ⟨a, inside, atA, isValue⟩
          rw [texts] at atA
          rw [values, if_pos (represents.unique kept inside member atA text)] at isValue
          exact isValue
    · next other =>
        rw [represents.agrees]
        have away {a : Pointer} (atA : hash.textAt a = some str') : a ≠ ent := by
          rintro rfl
          exact other (Option.some.inj (atA.symm.trans text))
        constructor
        · rintro ⟨a, inside, atA, isValue⟩
          exact ⟨a, inside, (texts a).trans atA, by rw [values, if_neg (away atA), isValue]⟩
        · rintro ⟨a, inside, atA, isValue⟩
          rw [texts] at atA
          rw [values, if_neg (away atA)] at isValue
          exact ⟨a, inside, atA, isValue⟩

theorem Represents.congr (represents : Represents hash entries dict)
    (ents : ∀ a ∈ entries, hash'.ents a = hash.ents a)
    (strings : ∀ a ∈ entries, hash'.textAt a = hash.textAt a) : Represents hash' entries dict := by
  refine ⟨fun a member => ?_, fun str value => (represents.agrees str value).trans ?_⟩
  · rw [strings a member, Amstrhash.hashAt, ents a member]
    exact represents.named a member
  · refine exists_congr fun a => and_congr_right fun member => ?_
    rw [strings a member, Amstrhash.valueAt, Amstrhash.valueAt, ents a member]

theorem Represents.perm (represents : Represents hash entries dict) {others : List Pointer}
    (perm : entries.Perm others) : Represents hash others dict := by
  refine ⟨fun a member => represents.named a (perm.mem_iff.mpr member), fun str value => ?_⟩
  rw [represents.agrees]
  exact exists_congr fun a => and_congr_left fun _ => perm.mem_iff

theorem Represents.cons (represents : Represents hash entries dict) (absent : dict str = none)
    (text : hash.textAt ent = some str) (atEnt : hash.hashAt ent = some (amshash str))
    (isValue : hash.valueAt ent = some value) :
    Represents hash (ent :: entries) (Function.update dict str (some value)) := by
  constructor
  · intro a member
    rcases List.mem_cons.mp member with rfl | inside
    · exact ⟨str, text, atEnt⟩
    · exact represents.named a inside
  · intro str' value'
    rw [Function.update_apply]
    split
    · next same =>
        subst same
        constructor
        · intro isValue'
          exact ⟨ent, List.mem_cons_self, text, by rw [isValue, Option.some.inj isValue']⟩
        · rintro ⟨a, member, atA, isValue'⟩
          rcases List.mem_cons.mp member with rfl | inside
          · exact isValue.symm.trans isValue'
          · cases absent.symm.trans ((represents.agrees _ _).mpr ⟨a, inside, atA, isValue'⟩)
    · next other =>
        rw [represents.agrees]
        constructor
        · rintro ⟨a, inside, found⟩
          exact ⟨a, List.mem_cons_of_mem _ inside, found⟩
        · rintro ⟨a, member, atA, isValue'⟩
          rcases List.mem_cons.mp member with rfl | inside
          · exact absurd (Option.some.inj (atA.symm.trans text)) other
          · exact ⟨a, inside, atA, isValue'⟩

theorem Represents.erase (represents : Represents hash entries dict) (kept : Kept hash entries)
    (member : ent ∈ entries) (text : hash.textAt ent = some str) :
    Represents hash (entries.erase ent) (Function.update dict str none) := by
  obtain ⟨nodup, _⟩ := List.nodup_append'.mp kept.nodup
  refine ⟨fun a inside => represents.named a (List.mem_of_mem_erase inside), fun str' value' => ?_⟩
  rw [Function.update_apply]
  split
  · next same =>
      subst same
      refine ⟨nofun, ?_⟩
      rintro ⟨a, inside, atA, _⟩
      have isEnt := represents.unique kept (List.mem_of_mem_erase inside) member atA text
      exact absurd (isEnt ▸ inside) nodup.not_mem_erase
  · next other =>
      rw [represents.agrees]
      constructor
      · rintro ⟨a, inside, atA, isValue⟩
        have away : a ≠ ent := by
          rintro rfl
          exact other (Option.some.inj (atA.symm.trans text))
        exact ⟨a, (List.mem_erase_of_ne away).mpr inside, atA, isValue⟩
      · rintro ⟨a, inside, found⟩
        exact ⟨a, List.mem_of_mem_erase inside, found⟩

theorem Represents.taken (represents : Represents hash entries dict) (kept : Kept hash entries)
    (member : ent ∈ entries) (here : hash.ents ent = some entry) (text : hash.textAt ent = some str)
    (useCb : Bool) :
    Represents (hash.taken ent entry useCb) (entries.erase ent)
    (Function.update dict str none) := by
  obtain ⟨nodup, _⟩ := List.nodup_append'.mp kept.nodup
  have away {a : Pointer} (inside : a ∈ entries.erase ent) : a ≠ ent := fun same =>
    nodup.not_mem_erase (same ▸ inside)
  have same {a : Pointer} (other : a ≠ ent) : (hash.taken ent entry useCb).ents a = hash.ents a :=
    Function.update_of_ne other ..
  refine (represents.erase kept member text).congr (fun a inside => same (away inside))
    fun a inside => ?_
  have inEntries := List.mem_of_mem_erase inside
  rw [Amstrhash.textAt, Amstrhash.textAt, Amstrhash.keyAt, same (away inside)]
  show (hash.keyAt a).bind (releasedStrings hash entry.key) = (hash.keyAt a).bind hash.strings
  cases atA : hash.keyAt a with
  | none => rfl
  | some k =>
      show releasedStrings hash entry.key k = hash.strings k
      cases own : entry.key with
      | none => rfl
      | some k' =>
          rw [releasedStrings]
          split
          · next copied =>
              have other : k ≠ k' := by
                rintro rfl
                refine away inside (kept.apart copied a inEntries ent member k atA ?_)
                rw [Amstrhash.keyAt, here, Option.bind_some, own]
              exact Function.update_of_ne other ..
          · rfl

end Changes

end Libam.Strhash
