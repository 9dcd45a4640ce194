import Libam.Opts.Registration

/-! The items that an argument vector splits into, and the loop of `amopts_read` over them. -/

namespace Libam.Opts

open Libam.Strhash (CString)

section Names

inductive Names (opn : AmoptOption) (arg : List UInt8) : Prop
  | long (name : CString) (here : opn.formLong = some name)
      (same : arg = 0x2D :: 0x2D :: name.chars)
  | short (given : opn.formShort ≠ 0) (same : arg = [0x2D, opn.formShort])

theorem Names.congr {a b : AmoptOption} {arg : List UInt8} (named : Names a arg)
    (long : a.formLong = b.formLong) (short : a.formShort = b.formShort) : Names b arg := by
  cases named with
  | long name here same => exact .long name (long ▸ here) same
  | short given same => exact .short (short ▸ given) (short ▸ same)

structure DistinctNames (opns : List AmoptOption) : Prop where
  given : ∀ opn ∈ opns, ∃ name, opn.formLong = some name
  long : opns.Pairwise fun a b => a.formLong ≠ b.formLong
  short : opns.Pairwise fun a b => a.formShort ≠ 0 → a.formShort ≠ b.formShort
  dash : ∀ opn ∈ opns, opn.formShort ≠ 0x2D

variable {opns : List AmoptOption}

theorem pairwise_index {α : Type} {R : α → α → Prop} {l : List α} (pairwise : l.Pairwise R)
    {i j : ℕ} {a b : α} (first : l[i]? = some a) (second : l[j]? = some b) (related : ¬ R a b)
    (related' : ¬ R b a) : i = j := by
  obtain ⟨below, rfl⟩ := List.getElem?_eq_some_iff.mp first
  obtain ⟨below', rfl⟩ := List.getElem?_eq_some_iff.mp second
  rcases Nat.lt_trichotomy i j with before | same | after
  · exact absurd (List.pairwise_iff_getElem.mp pairwise i j below below' before) related
  · exact same
  · exact absurd (List.pairwise_iff_getElem.mp pairwise j i below' below after) related'

theorem DistinctNames.unique (distinct : DistinctNames opns) {i j : ℕ} {a b : AmoptOption}
    {arg : List UInt8} (first : opns[i]? = some a) (second : opns[j]? = some b)
    (named : Names a arg) (named' : Names b arg) : i = j := by
  have dash (opn : AmoptOption) (k : ℕ) (here : opns[k]? = some opn) : opn.formShort ≠ 0x2D :=
    distinct.dash opn (List.mem_of_getElem? here)
  cases named with
  | long name here same =>
      cases named' with
      | long name' here' same' =>
          have equal : name.chars = name'.chars := by simpa using same.symm.trans same'
          have names : a.formLong = b.formLong := by
            rw [here, here']
            exact congrArg some (CString.mk.injEq .. ▸ equal)
          exact pairwise_index distinct.long first second (not_not.mpr names)
            (not_not.mpr names.symm)
      | short given' same' =>
          have equal := (List.cons.inj (List.cons.inj (same.symm.trans same')).2).1
          exact absurd equal.symm (dash b j second)
  | short given same =>
      cases named' with
      | long name' here' same' =>
          have equal := (List.cons.inj (List.cons.inj (same.symm.trans same')).2).1
          exact absurd equal (dash a i first)
      | short given' same' =>
          have equal : a.formShort = b.formShort := by simpa using same.symm.trans same'
          exact pairwise_index distinct.short first second (fun apart => apart given equal)
            (fun apart => apart given' equal.symm)

end Names

section Searches

theorem searchList_cases {matches' : AmoptOption → Except Fault Bool} {p : AmoptOption → Prop}
    (l : List AmoptOption)
    (decides : ∀ opn ∈ l, ∃ found, matches' opn = .ok found ∧ (found = true ↔ p opn)) :
    (searchList matches' l = .ok none ∧ ∀ opn ∈ l, ¬ p opn) ∨
    ∃ k opn, searchList matches' l = .ok (some (k, opn)) ∧ l[k]? = some opn ∧ p opn := by
  induction l with
  | nil => exact .inl ⟨rfl, by simp⟩
  | cons opn l ih =>
      obtain ⟨found, here, iff⟩ := decides opn List.mem_cons_self
      rw [searchList, here]
      cases found with
      | true => exact .inr ⟨0, opn, rfl, rfl, iff.mp rfl⟩
      | false =>
          have other : ¬ p opn := fun met => nomatch iff.mpr met
          rcases ih fun opn inside => decides opn (List.mem_cons_of_mem _ inside) with
            ⟨none, nobody⟩ | ⟨k, found, some, place, met⟩
          · refine .inl ⟨by simp [none, Except.map], ?_⟩
            simpa [other] using nobody
          · exact .inr ⟨k + 1, found, by simp [some, Except.map], place, met⟩

theorem searchArg_cases {opt : Amopt}
    (given : ∀ opn ∈ opt.optList, ∃ name, opn.formLong = some name)
    (dash : ∀ opn ∈ opt.optList, opn.formShort ≠ 0x2D) (arg : CString) :
    (searchArg opt arg.chars = .ok none ∧ ∀ opn ∈ opt.optList, ¬ Names opn arg.chars) ∨
    ∃ k opn, searchArg opt arg.chars = .ok (some (k, opn)) ∧ opt.optList[k]? = some opn ∧
    Names opn arg.chars := by
  obtain ⟨chars, nonzero⟩ := arg
  dsimp only
  unfold searchArg
  split
  · rename_i name
    refine searchList_cases _ fun opn inside => ?_
    obtain ⟨formLong, here⟩ := given opn inside
    refine ⟨name == formLong.chars, by rw [here], ?_⟩
    rw [beq_iff_eq]
    constructor
    · intro same
      exact .long formLong here (by rw [same])
    · rintro (⟨name', here', same⟩ | ⟨-, same⟩)
      · cases here.symm.trans here'
        exact (List.cons.inj (List.cons.inj same).2).2
      · exact absurd (List.cons.inj (List.cons.inj same).2).1.symm (dash opn inside)
  · rename_i name other
    unfold amoptsSearchShort
    split
    · rename_i c
      refine searchList_cases _ fun opn _ => ⟨c == opn.formShort, rfl, ?_⟩
      have written : c ≠ 0 := by
        rintro rfl
        simp at nonzero
      rw [beq_iff_eq]
      constructor
      · rintro rfl
        exact .short written rfl
      · rintro (⟨name', -, same⟩ | ⟨-, same⟩)
        · exact absurd (List.cons.inj same).2 (other name'.chars)
        · exact (List.cons.inj (List.cons.inj same).2).1
    · rename_i long
      refine .inl ⟨rfl, ?_⟩
      rintro opn - (⟨name', -, same⟩ | ⟨-, same⟩)
      · exact other name'.chars (List.cons.inj same).2
      · exact long opn.formShort (List.cons.inj same).2
  · rename_i long short
    refine .inl ⟨rfl, ?_⟩
    rintro opn - (⟨name', -, same⟩ | ⟨-, same⟩)
    · exact long name'.chars same
    · exact short [opn.formShort] same

end Searches

section Items

variable {lib : Library} {opns : List AmoptOption}

/-- The argument vector splits from left to right into the names of flags, and names of other
options with the argument that follows. An item is the place of its option, and that argument. -/
inductive Splits (opns : List AmoptOption) : List CString → List (ℕ × Option CString) → Prop
  | nil : Splits opns [] []
  | flag {arg : CString} {rest : List CString} {items : List (ℕ × Option CString)} {k : ℕ}
      {opn : AmoptOption}
      (here : opns[k]? = some opn) (named : Names opn arg.chars)
      (type : typeOf opn.type = some .flag)
      (tail : Splits opns rest items) : Splits opns (arg :: rest) ((k, none) :: items)
  | value {arg value : CString} {rest : List CString} {items : List (ℕ × Option CString)} {k : ℕ}
      {opn : AmoptOption} (here : opns[k]? = some opn) (named : Names opn arg.chars)
      (type : typeOf opn.type ≠ some .flag) (tail : Splits opns rest items) :
      Splits opns (arg :: value :: rest) ((k, some value) :: items)

def applyItem (lib : Library) (opns : List AmoptOption) (m : Memory) (item : ℕ × Option CString) :
    Option Memory :=
  match opns[item.1]?, item.2 with
  | none, _ => none
  | some opn, none => some (m.write opn.dest [1])
  | some opn, some value =>
      match lib.parser opn with
      | none => none
      | some parse =>
          match parse m opn.dest value with
          | (_, .error) => none
          | (m', .success) => some m'

def applyItems (lib : Library) (opns : List AmoptOption) : Memory →
    List (ℕ × Option CString) → Option Memory
  | m, [] => some m
  | m, item :: items => (applyItem lib opns m item).bind fun m => applyItems lib opns m items

def registered (lib : Library) (opn : AmoptOption) (isSet : Bool) : AmoptOption :=
  { opn with parse := lib.parser opn, isSet := isSet }

def HasValue (opn : AmoptOption) : Prop := typeOf opn.type = some .flag ∨ opn.defaultValue.isSome

instance (opn : AmoptOption) : Decidable (HasValue opn) := inferInstanceAs (Decidable (_ ∨ _))

def Gives (items : List (ℕ × Option CString)) (k : ℕ) : Prop := ∃ value, (k, some value) ∈ items

instance (items : List (ℕ × Option CString)) (k : ℕ) : Decidable (Gives items k) :=
  decidable_of_iff (∃ item ∈ items, item.1 = k ∧ item.2.isSome) ⟨by
    rintro ⟨⟨j, value⟩, inside, rfl, some⟩
    obtain ⟨v, rfl⟩ := Option.isSome_iff_exists.mp some
    exact ⟨v, inside⟩, by
    rintro ⟨v, inside⟩
    exact ⟨_, inside, rfl, rfl⟩⟩

structure ListAfter (lib : Library) (opns : List AmoptOption) (items : List (ℕ × Option CString))
    (l : List AmoptOption) : Prop where
  length : l.length = opns.length
  option : ∀ k opn, opns[k]? = some opn →
    l[k]? = some (registered lib opn (decide (HasValue opn ∨ Gives items k)))

variable {items : List (ℕ × Option CString)} {l : List AmoptOption} {k : ℕ}

theorem gives_append (items : List (ℕ × Option CString)) (item : ℕ × Option CString) (k : ℕ) :
    Gives (items ++ [item]) k ↔ Gives items k ∨ item.1 = k ∧ item.2.isSome := by
  obtain ⟨j, _ | value⟩ := item
  · simp [Gives]
  · simp [Gives, exists_or, eq_comm]

theorem ListAfter.lookup (after : ListAfter lib opns items l) {found : AmoptOption}
    (here : l[k]? = some found) :
    ∃ opn isSet, opns[k]? = some opn ∧ found = registered lib opn isSet := by
  obtain ⟨below, -⟩ := List.getElem?_eq_some_iff.mp here
  obtain ⟨opn, there⟩ : ∃ opn, opns[k]? = some opn :=
    ⟨_, List.getElem?_eq_getElem (after.length ▸ below)⟩
  exact ⟨opn, _, there, Option.some.inj (here.symm.trans (after.option k opn there))⟩

theorem ListAfter.flag (after : ListAfter lib opns items l) :
    ListAfter lib opns (items ++ [(k, none)]) l := by
  refine ⟨after.length, fun j opn here => ?_⟩
  have same : Gives (items ++ [(k, none)]) j ↔ Gives items j := by simp [gives_append]
  rw [after.option j opn here, decide_eq_decide.mpr (or_congr_right same)]

theorem ListAfter.value (after : ListAfter lib opns items l) (value : CString) :
    ListAfter lib opns (items ++ [(k, some value)])
    (l.modify k fun opn => { opn with isSet := true }) := by
  refine ⟨by rw [List.length_modify, after.length], fun j opn here => ?_⟩
  rw [List.getElem?_modify, after.option j opn here]
  by_cases same : k = j
  · have gives : Gives (items ++ [(k, some value)]) j := (gives_append ..).mpr (.inr ⟨same, rfl⟩)
    rw [decide_eq_true (p := HasValue opn ∨ Gives (items ++ [(k, some value)]) j) (.inr gives)]
    simp only [same, reduceIte]
    rfl
  · have equal : Gives (items ++ [(k, some value)]) j ↔ Gives items j := by
      simp [gives_append, same]
    rw [decide_eq_decide.mpr (or_congr_right equal)]
    simp only [same, reduceIte]
    rfl

end Items

section Loop

variable {lib : Library} {opns : List AmoptOption} {done : List (ℕ × Option CString)} {opt : Amopt}
  {k : ℕ} {opn : AmoptOption} {arg value : CString} {rest : List CString}

structure Standard (opns : List AmoptOption) : Prop where
  names : DistinctNames opns
  known : ∀ opn ∈ opns, ∃ type, typeOf opn.type = some type ∧ type ≠ .custom
  validate : ∀ opn ∈ opns, opn.validate = none

theorem Standard.search (standard : Standard opns) (after : ListAfter lib opns done opt.optList)
    (arg : CString) :
    (searchArg opt arg.chars = .ok none ∧ ∀ (k : ℕ) opn, opns[k]? = some opn →
      ¬ Names opn arg.chars) ∨
    ∃ k opn isSet, searchArg opt arg.chars = .ok (some (k, registered lib opn isSet)) ∧
      opns[k]? = some opn ∧ Names opn arg.chars := by
  have found (opn' : AmoptOption) (inside : opn' ∈ opt.optList) :
      ∃ opn isSet, opn ∈ opns ∧ opn' = registered lib opn isSet := by
    obtain ⟨k, here⟩ := List.getElem?_of_mem inside
    obtain ⟨opn, isSet, there, same⟩ := after.lookup here
    exact ⟨opn, isSet, List.mem_of_getElem? there, same⟩
  have given (opn' : AmoptOption) (inside : opn' ∈ opt.optList) : ∃ name,
      opn'.formLong = some name := by
    obtain ⟨opn, isSet, member, rfl⟩ := found opn' inside
    exact standard.names.given opn member
  have dash (opn' : AmoptOption) (inside : opn' ∈ opt.optList) : opn'.formShort ≠ 0x2D := by
    obtain ⟨opn, isSet, member, rfl⟩ := found opn' inside
    exact standard.names.dash opn member
  rcases searchArg_cases given dash arg with ⟨missed, nobody⟩ | ⟨k, opn', hit, here, named⟩
  · refine .inl ⟨missed, fun k opn here named => ?_⟩
    exact nobody _ (List.mem_of_getElem? (after.option k opn here)) (named.congr rfl rfl)
  · obtain ⟨opn, isSet, there, rfl⟩ := after.lookup here
    exact .inr ⟨k, opn, isSet, hit, there, named.congr rfl rfl⟩

theorem amoptsReadValue_eq {parse : AmoptPrase} (given : lib.parser opn = some parse)
    (plain : opn.validate = none) (opt : Amopt) (k : ℕ) (isSet : Bool) (value : CString) :
    amoptsReadValue opt k (registered lib opn isSet) value =
      match parse opt.memory opn.dest value with
      | (memory, .error) => .ok ({ opt with memory := memory }, .error)
      | (memory, .success) => .ok ({ opt with memory := memory }.setOption k, .success) := by
  unfold amoptsReadValue
  rw [show (registered lib opn isSet).parse = some parse from given,
    show (registered lib opn isSet).validate = none from plain]
  rfl

theorem Standard.parser (standard : Standard opns) (here : opns[k]? = some opn) :
    ∃ parse, lib.parser opn = some parse := by
  obtain ⟨type, same, standard⟩ := standard.known opn (List.mem_of_getElem? here)
  unfold Library.parser
  rw [same]
  cases type with
  | custom => exact absurd rfl standard
  | _ => exact ⟨_, rfl⟩

theorem Standard.search_named (standard : Standard opns)
    (after : ListAfter lib opns done opt.optList) (here : opns[k]? = some opn)
    (named : Names opn arg.chars) :
    ∃ isSet, searchArg opt arg.chars = .ok (some (k, registered lib opn isSet)) := by
  rcases standard.search after arg with ⟨-, nobody⟩ | ⟨j, found, isSet, hit, there, named'⟩
  · exact absurd named (nobody k opn here)
  · obtain rfl := standard.names.unique here there named named'
    cases here.symm.trans there
    exact ⟨isSet, hit⟩

theorem readArgs_flag (standard : Standard opns) (after : ListAfter lib opns done opt.optList)
    (here : opns[k]? = some opn) (named : Names opn arg.chars)
    (type : typeOf opn.type = some .flag) :
    readArgs opt (arg :: rest) = readArgs
    { opt with memory := opt.memory.write opn.dest [1] } rest := by
  obtain ⟨isSet, hit⟩ := standard.search_named after here named
  rw [readArgs, hit]
  exact if_pos type

theorem readArgs_value (standard : Standard opns) (after : ListAfter lib opns done opt.optList)
    (here : opns[k]? = some opn) (named : Names opn arg.chars)
    (type : typeOf opn.type ≠ some .flag) :
    (∃ m, applyItem lib opns opt.memory (k, some value) = some m ∧
      readArgs opt (arg :: value :: rest) = readArgs ({ opt with memory := m }.setOption k) rest) ∨
    applyItem lib opns opt.memory (k, some value) = none ∧
      ∃ opt', readArgs opt (arg :: value :: rest) = .ok (opt', .error) := by
  obtain ⟨isSet, hit⟩ := standard.search_named after here named
  obtain ⟨parse, given⟩ : ∃ parse, lib.parser opn = some parse := standard.parser here
  have plain : opn.validate = none := standard.validate opn (List.mem_of_getElem? here)
  rw [readArgs, hit]
  dsimp only
  rw [if_neg (show typeOf (registered lib opn isSet).type ≠ some .flag from type),
    amoptsReadValue_eq given plain]
  rcases parsed : parse opt.memory opn.dest value with ⟨m, _ | _⟩
  · exact .inl ⟨m, by simp only [applyItem, here, given, parsed], rfl⟩
  · exact .inr ⟨by simp only [applyItem, here, given, parsed], _, rfl⟩

theorem readArgs_missing (standard : Standard opns) (after : ListAfter lib opns done opt.optList)
    (here : opns[k]? = some opn) (named : Names opn arg.chars)
    (type : typeOf opn.type ≠ some .flag) : readArgs opt [arg] = .ok (opt, .error) := by
  obtain ⟨isSet, hit⟩ := standard.search_named after here named
  rw [readArgs, hit]
  exact if_neg (show typeOf (registered lib opn isSet).type ≠ some .flag from type)

theorem readArgs_of_splits (standard : Standard opns) {argv : List CString}
    {items : List (ℕ × Option CString)} {m : Memory} (splits : Splits opns argv items)
    (after : ListAfter lib opns done opt.optList)
    (accepted : applyItems lib opns opt.memory items = some m) :
    ∃ l, readArgs opt argv = .ok (⟨l, m, opt.finalVal⟩, .success) ∧
    ListAfter lib opns (done ++ items) l := by
  induction splits generalizing opt done with
  | nil =>
      cases accepted
      exact ⟨opt.optList, rfl, (List.append_nil done).symm ▸ after⟩
  | @flag arg rest items k opn here named type tail ih =>
      rw [readArgs_flag standard after here named type]
      simp only [applyItems, applyItem, here, Option.bind_some] at accepted
      have after' : ListAfter lib opns (done ++ [(k, none)])
          { opt with memory := opt.memory.write opn.dest [1] }.optList := after.flag
      have later := ih after' accepted
      rwa [List.append_assoc] at later
  | @value arg value rest items k opn here named type tail ih =>
      rw [applyItems, Option.bind_eq_some_iff] at accepted
      obtain ⟨m', first, others⟩ := accepted
      rcases readArgs_value standard after here named
        type with ⟨m'', taken, continues⟩ | ⟨refused, -⟩
      · cases first.symm.trans taken
        rw [continues]
        have after' : ListAfter lib opns (done ++ [(k, some value)])
            ({ opt with memory := m' }.setOption k).optList :=
          after.value value
        have later := ih after' others
        rwa [List.append_assoc] at later
      · cases first.symm.trans refused

/-- What is read splits and is accepted; and the loop always ends. -/
theorem splits_of_readArgs (standard : Standard opns) (argv : List CString)
    (after : ListAfter lib opns done opt.optList) :
    ∃ opt' rc, readArgs opt argv = .ok (opt', rc) ∧ (rc = .success →
      ∃ items, Splits opns argv items ∧
      applyItems lib opns opt.memory items = some opt'.memory) := by
  induction size : argv.length using Nat.strong_induction_on generalizing argv opt done with
  | _ n ih =>
      subst size
      cases argv with
      | nil => exact ⟨opt, .success, rfl, fun _ => ⟨[], .nil, rfl⟩⟩
      | cons arg rest =>
          rcases standard.search after arg with ⟨missed, -⟩ | ⟨k, opn, isSet, -, here, named⟩
          · exact ⟨opt, .error, by rw [readArgs, missed], nofun⟩
          by_cases type : typeOf opn.type = some .flag
          · rw [readArgs_flag standard after here named type]
            have after' : ListAfter lib opns (done ++ [(k, none)])
                { opt with memory := opt.memory.write opn.dest [1] }.optList := after.flag
            obtain ⟨opt', rc, read, found⟩ := ih rest.length (by simp) rest after' rfl
            refine ⟨opt', rc, read, fun success => ?_⟩
            obtain ⟨items, splits, accepted⟩ := found success
            refine ⟨(k, none) :: items, .flag here named type splits, ?_⟩
            simpa only [applyItems, applyItem, here, Option.bind_some] using accepted
          cases rest with
          | nil => exact ⟨opt, .error, readArgs_missing standard after here named type, nofun⟩
          | cons value rest =>
              rcases readArgs_value standard after here named type with ⟨m, taken, continues⟩ | ⟨-,
                opt', refused⟩
              · rw [continues]
                have after' : ListAfter lib opns (done ++ [(k, some value)])
                    ({ opt with memory := m }.setOption k).optList := after.value value
                have shorter : rest.length < (arg :: value :: rest).length := by
                  simp only [List.length_cons]
                  omega
                obtain ⟨opt', rc, read, found⟩ := ih rest.length shorter rest after' rfl
                refine ⟨opt', rc, read, fun success => ?_⟩
                obtain ⟨items, splits, accepted⟩ := found success
                refine ⟨(k, some value) :: items, .value here named type splits, ?_⟩
                rw [applyItems, taken]
                exact accepted
              · exact ⟨opt', .error, refused, nofun⟩

end Loop

end Libam.Opts
