import Libam.Opts.Splitting

/-! What `amopts_read` accepts, and what it leaves in the structure. -/

namespace Libam.Opts

open Libam.Strhash (CString)

section Places

variable {lib : Library} {m m' : Memory} {opn other : AmoptOption}

def width (opn : AmoptOption) : ℕ := if typeOf opn.type = some .flag then 1 else 8

def Covers (opn : AmoptOption) (i : ℕ) : Prop := opn.dest ≤ i ∧ i < opn.dest + width opn

def Apart (a b : AmoptOption) : Prop := a.dest + width a ≤ b.dest ∨ b.dest + width b ≤ a.dest

def At (m : Memory) (dest : ℕ) (values : List UInt8) : Prop := ∀ (i : ℕ) v, values[i]? = some v →
    m.bytes (dest + i) = v

theorem at_write (m : Memory) (dest : ℕ) (values : List UInt8) :
    At (m.write dest values) dest values := by
  intro i v here
  simp [Memory.write, here]

theorem write_outside (m : Memory) {dest i : ℕ} {values : List UInt8}
    (outside : ¬ (dest ≤ i ∧ i < dest + values.length)) :
    (m.write dest values).bytes i = m.bytes i := by
  simp only [Memory.write]
  split
  · rename_i after
    rw [List.getElem?_eq_none (by omega), Option.getD_none]
  · rfl

structure Touches (opn : AmoptOption) (m m' : Memory) : Prop where
  outside : ∀ i, ¬ Covers opn i → m'.bytes i = m.bytes i
  strings : ∀ address str, m.strings address = some str → m'.strings address = some str

/-- The word that a value is parsed to; that of a string points to a copy of it. -/
inductive Parsed (lib : Library) (m : Memory) (opn : AmoptOption) (value : CString)
    (word : UInt64) : Prop
  | uint64 (type : typeOf opn.type = some .uint64) (scanned : sscanfLu value.chars = some word)
  | udouble (type : typeOf opn.type = some .udouble)
      (scanned : lib.sscanfLf value.chars = some word)
  | string (type : typeOf opn.type = some .string) (copied : m.strings word = some value)

def Holds (lib : Library) (m : Memory) (opn : AmoptOption) (value : CString) : Prop :=
  ∃ word, Parsed lib m opn value word ∧ At m opn.dest (wordBytes word)

theorem Touches.holds (touches : Touches opn m m') (apart : Apart opn other)
    (wide : width other = 8) {value : CString} (holds : Holds lib m other value) :
    Holds lib m' other value := by
  obtain ⟨word, parsed, placed⟩ := holds
  have kept : Parsed lib m' other value word := by
    cases parsed with
    | uint64 type scanned => exact .uint64 type scanned
    | udouble type scanned => exact .udouble type scanned
    | string type copied => exact .string type (touches.strings word value copied)
  refine ⟨word, kept, fun i v here => ?_⟩
  have below : i < 8 := by
    obtain ⟨inside, -⟩ := List.getElem?_eq_some_iff.mp here
    simpa [wordBytes] using inside
  rw [touches.outside, placed i v here]
  rintro ⟨first, last⟩
  unfold Apart at apart
  omega

theorem Touches.flag (touches : Touches opn m m') (apart : Apart opn other)
    (narrow : width other = 1) : m'.bytes other.dest = m.bytes other.dest := by
  apply touches.outside _
  rintro ⟨first, last⟩
  unfold Apart at apart
  omega

theorem touches_write_flag (m : Memory) (flag : typeOf opn.type = some .flag) (value : UInt8) :
    Touches opn m (m.write opn.dest [value]) ∧
    (m.write opn.dest [value]).bytes opn.dest = value := by
  refine ⟨⟨fun i outside => write_outside m ?_, fun _ _ here => here⟩,
    at_write m opn.dest [value] 0 value rfl⟩
  rwa [Covers, width, if_pos flag] at outside

theorem touches_write_word (m : Memory) (other : typeOf opn.type ≠ some .flag) (word : UInt64) :
    Touches opn m (m.write opn.dest (wordBytes word)) := by
  refine ⟨fun i outside => write_outside m ?_, fun _ _ here => here⟩
  rwa [Covers, width, if_neg other] at outside

/-- A parser of a standard type that accepts a value puts it into the place of the option. -/
theorem parser_spec {parse : AmoptPrase} {type : AmoptType} (known : typeOf opn.type = some type)
    (standard : type ≠ .custom) (valued : type ≠ .flag) (given : lib.parser opn = some parse)
    {value : CString} (parsed : parse m opn.dest value = (m', .success)) : Touches opn m m' ∧
    Holds lib m' opn value := by
  have other : typeOf opn.type ≠ some .flag := by
    rw [known]
    exact fun same => valued (Option.some.inj same)
  unfold Library.parser at given
  rw [known] at given
  cases type with
  | flag => exact absurd rfl valued
  | custom => exact absurd rfl standard
  | uint64 =>
      cases given
      unfold amoptPraseUint64 at parsed
      split at parsed
      · cases parsed
      split at parsed
      · cases parsed
      rename_i word scanned
      cases parsed
      exact ⟨touches_write_word m other word, word, .uint64 known scanned, at_write _ _ _⟩
  | udouble =>
      cases given
      unfold amoptPraseUdouble at parsed
      split at parsed
      · cases parsed
      split at parsed
      · cases parsed
      rename_i word scanned
      cases parsed
      exact ⟨touches_write_word m other word, word, .udouble known scanned, at_write _ _ _⟩
  | string =>
      cases given
      unfold amoptPraseString at parsed
      split at parsed
      · cases parsed
      rename_i dup copied
      cases parsed
      have touches := touches_write_word
        { m with strings := Function.update m.strings dup (some value) } other dup
      have fresh := lib.strdup_fresh m.strings value dup copied
      refine ⟨⟨touches.outside, fun address str here => ?_⟩, dup, .string known ?_, at_write _ _ _⟩
      · have elsewhere : address ≠ dup := by
          rintro rfl
          cases fresh.symm.trans here
        exact (Function.update_of_ne elsewhere ..).trans here
      · exact Function.update_self ..

end Places

section Contents

variable {lib : Library} {opns : List AmoptOption} {items : List (ℕ × Option CString)}
  {m₀ m m' : Memory}

def lastValue (items : List (ℕ × Option CString)) (k : ℕ) : Option CString :=
  (items.filterMap fun item => if item.1 = k then item.2 else none).getLast?

/-- What the structure holds after the items: the last value or the default of each option that has
one, which flags were given or have a default, and elsewhere what it held before. -/
structure Contents (lib : Library) (m₀ : Memory) (opns : List AmoptOption)
    (items : List (ℕ × Option CString)) (m : Memory) : Prop where
  value : ∀ (k : ℕ) opn, opns[k]? = some opn → typeOf opn.type ≠ some .flag → ∀ value,
    (lastValue items k).or opn.defaultValue = some value → Holds lib m opn value
  flag : ∀ (k : ℕ) opn, opns[k]? = some opn → typeOf opn.type = some .flag →
    m.bytes opn.dest = if (k, none) ∈ items ∨ opn.defaultValue.isSome then 1 else 0
  others : ∀ i, (∀ opn ∈ opns, ¬ Covers opn i) → m.bytes i = m₀.bytes i

theorem lastValue_append (items : List (ℕ × Option CString)) (item : ℕ × Option CString) (k : ℕ) :
    lastValue (items ++ [item]) k = if item.1 = k ∧
    item.2.isSome then item.2 else lastValue items k := by
  obtain ⟨j, _ | value⟩ := item
  · simp [lastValue]
  · by_cases same : j = k <;> simp [lastValue, same]

theorem width_flag {opn : AmoptOption} (flag : typeOf opn.type = some .flag) :
    width opn = 1 := if_pos flag

theorem width_word {opn : AmoptOption} (other : typeOf opn.type ≠ some .flag) :
    width opn = 8 := if_neg other

theorem Apart.symm {a b : AmoptOption} (apart : Apart a b) : Apart b a := Or.symm apart

theorem apart_of_ne (apart : opns.Pairwise Apart) {i j : ℕ} {a b : AmoptOption}
    (first : opns[i]? = some a) (second : opns[j]? = some b) (other : i ≠ j) : Apart a b := by
  by_contra near
  exact other (pairwise_index apart first second near (mt Apart.symm near))

theorem applyItem_spec (standard : Standard opns) {k : ℕ} {given : Option CString}
    {opn : AmoptOption} (here : opns[k]? = some opn)
    (fits : typeOf opn.type = some .flag ↔ given = none)
    (applied : applyItem lib opns m (k, given) = some m') :
    Touches opn m m' ∧ (given = none → m'.bytes opn.dest = 1) ∧
      ∀ value, given = some value → Holds lib m' opn value := by
  unfold applyItem at applied
  rw [here] at applied
  cases given with
  | none =>
      cases applied
      obtain ⟨touches, written⟩ := touches_write_flag m (fits.mpr rfl) 1
      exact ⟨touches, fun _ => written, nofun⟩
  | some value =>
      obtain ⟨type, known, standard'⟩ := standard.known opn (List.mem_of_getElem? here)
      have valued : type ≠ .flag := by
        rintro rfl
        cases fits.mp known
      obtain ⟨parse, found⟩ : ∃ parse, lib.parser opn = some parse := standard.parser here
      simp only [found] at applied
      split at applied
      · cases applied
      rename_i parsed
      cases applied
      obtain ⟨touches, holds⟩ := parser_spec known standard' valued found parsed
      refine ⟨touches, nofun, ?_⟩
      rintro _ ⟨⟩
      exact holds

theorem Contents.item (contents : Contents lib m₀ opns items m) (standard : Standard opns)
    (apart : opns.Pairwise Apart) {k : ℕ} {given : Option CString} {opn : AmoptOption}
    (here : opns[k]? = some opn) (fits : typeOf opn.type = some .flag ↔ given = none)
    (applied : applyItem lib opns m (k, given) = some m') :
    Contents lib m₀ opns (items ++ [(k, given)]) m' := by
  obtain ⟨touches, flagged, valued⟩ := applyItem_spec standard here fits applied
  constructor
  · intro j other there type value last
    by_cases same : k = j
    · subst same
      cases here.symm.trans there
      have some := mt fits.mpr type
      obtain ⟨value', rfl⟩ := Option.ne_none_iff_exists'.mp some
      rw [lastValue_append, if_pos ⟨rfl, rfl⟩] at last
      cases last
      exact valued value rfl
    · rw [lastValue_append, if_neg fun both => same both.1] at last
      have before := contents.value j other there type value last
      exact touches.holds (apart_of_ne apart here there same) (width_word type) before
  · intro j other there type
    by_cases same : k = j
    · subst same
      cases here.symm.trans there
      obtain rfl := fits.mp type
      rw [flagged rfl, if_pos (.inl (List.mem_append_right _ List.mem_cons_self))]
    · have equal : (j, none) ∈ items ++ [(k, given)] ↔ (j, none) ∈ items := by simp [Ne.symm same]
      rw [touches.flag (apart_of_ne apart here there same) (width_flag type),
        contents.flag j other there type]
      simp only [equal]
  · intro i outside
    rw [touches.outside i (outside opn (List.mem_of_getElem? here)), contents.others i outside]

theorem Contents.run (contents : Contents lib m₀ opns items m) (standard : Standard opns)
    (apart : opns.Pairwise Apart) {argv : List CString} {more : List (ℕ × Option CString)}
    (splits : Splits opns argv more) (applied : applyItems lib opns m more = some m') :
    Contents lib m₀ opns (items ++ more) m' := by
  induction splits generalizing items m with
  | nil =>
      cases applied
      rwa [List.append_nil]
  | @flag arg rest more k opn here named type tail ih =>
      rw [applyItems, Option.bind_eq_some_iff] at applied
      obtain ⟨between, first, others⟩ := applied
      have later := ih (contents.item standard apart here (iff_of_true type rfl) first) others
      rwa [List.append_assoc] at later
  | @value arg value rest more k opn here named type tail ih =>
      rw [applyItems, Option.bind_eq_some_iff] at applied
      obtain ⟨between, first, others⟩ := applied
      have later := ih (contents.item standard apart here
        (iff_of_false type (Option.some_ne_none value)) first) others
      rwa [List.append_assoc] at later

end Contents

section Registration

variable {lib : Library} {opns : List AmoptOption} {opt opt' : Amopt} {opn : AmoptOption}
  {m₀ : Memory}

inductive Registers (lib : Library) : Amopt → List AmoptOption → Amopt → Prop
  | nil (opt : Amopt) : Registers lib opt [] opt
  | cons {opt opt' opt'' : Amopt} {opn opn' : AmoptOption} {opns : List AmoptOption}
      (done : amoptsRegisterOption lib opt opn = .ok (opt', opn', .success))
      (rest : Registers lib opt' opns opt'') :
      Registers lib opt (opn :: opns) opt''

theorem register_spec {opn' : AmoptOption}
    (done : amoptsRegisterOption lib opt opn = .ok (opt', opn', .success))
    (standard : typeOf opn.type ≠ some .custom) :
    opt'.optList = opt.optList ++ [registered lib opn (decide (HasValue opn))] ∧
    opt'.finalVal = opt.finalVal ∧
    Touches opn opt.memory opt'.memory ∧
    (typeOf opn.type = some .flag →
      opt'.memory.bytes opn.dest = if opn.defaultValue.isSome then 1 else 0) ∧
    (typeOf opn.type ≠ some .flag → ∀ value, opn.defaultValue = some value →
      Holds lib opt'.memory opn value) := by
  have valid := (amoptsRegisterOption_success.mp ⟨opt', opn', done⟩).1
  obtain ⟨-, -, -, ⟨type, known⟩, -, combines⟩ := amoptsValidate_success.mp valid
  obtain ⟨parse, given⟩ := @parser_given lib opn ⟨type, known⟩ combines
  have usual : type ≠ .custom := fun same => standard (same ▸ known)
  unfold amoptsRegisterOption at done
  rw [valid] at done
  dsimp only at done
  split at done
  · rename_i flag
    cases done
    obtain ⟨touches, written⟩ := touches_write_flag opt.memory flag
      (if opn.defaultValue.isNone then 0 else 1)
    refine ⟨?_, rfl, touches, fun _ => ?_, fun other => absurd flag other⟩
    · rw [decide_eq_true (p := HasValue opn) (.inl flag)]
      rfl
    · apply written.trans
      cases opn.defaultValue <;> rfl
  rename_i other
  split at done
  · rename_i missing
    cases done
    refine ⟨?_, rfl, ⟨fun _ _ => rfl, fun _ _ here => here⟩, fun flag => absurd flag other,
      fun _ value here => ?_⟩
    · have none : ¬ HasValue opn := by
        rintro (flag | some)
        · exact other flag
        · rw [missing] at some
          cases some
      rw [decide_eq_false none]
      rfl
    · cases missing.symm.trans here
  rename_i value here
  rw [given] at done
  dsimp only at done
  split at done
  · cases done
  rename_i memory parsed
  cases done
  have valued : type ≠ .flag := fun same => other (same ▸ known)
  obtain ⟨touches, holds⟩ := parser_spec known usual valued given parsed
  refine ⟨?_, rfl, touches, fun flag => absurd flag other, fun _ value' here' => ?_⟩
  · rw [decide_eq_true (p := HasValue opn) (.inr (by rw [here]; rfl)), registered, given]
  · cases here.symm.trans here'
    exact holds

theorem Contents.register (contents : Contents lib m₀ opns [] opt.memory)
    (apart : ∀ other ∈ opns, Apart other opn) {opn' : AmoptOption}
    (done : amoptsRegisterOption lib opt opn = .ok (opt', opn', .success))
    (standard : typeOf opn.type ≠ some .custom) :
    Contents lib m₀ (opns ++ [opn]) [] opt'.memory := by
  obtain ⟨-, -, touches, flagged, valued⟩ := register_spec done standard
  have earlierOrNew (k : ℕ) (other : AmoptOption) (here : (opns ++ [opn])[k]? = some other) :
      opns[k]? = some other ∨ other = opn := by
    rcases Nat.lt_or_ge k opns.length with before | after
    · exact .inl (List.getElem?_append_left before ▸ here)
    · rw [List.getElem?_append_right after] at here
      exact .inr (List.mem_singleton.mp (List.mem_of_getElem? here))
  constructor
  · intro k other here type value default
    rcases earlierOrNew k other here with earlier | rfl
    · exact touches.holds (apart other (List.mem_of_getElem? earlier)).symm (width_word type)
        (contents.value k other earlier type value default)
    · exact valued type value default
  · intro k other here type
    rcases earlierOrNew k other here with earlier | rfl
    · rw [touches.flag (apart other (List.mem_of_getElem? earlier)).symm (width_flag type)]
      exact contents.flag k other earlier type
    · simpa using flagged type
  · intro i outside
    rw [touches.outside i (outside opn (by simp)),
      contents.others i fun other inside => outside other (by simp [inside])]

theorem Registers.spec {opns' : List AmoptOption} (registers : Registers lib opt opns' opt')
    (list : opt.optList = opns.map fun opn => registered lib opn (decide (HasValue opn)))
    (contents : Contents lib m₀ opns [] opt.memory) (apart : (opns ++ opns').Pairwise Apart)
    (standard : ∀ opn ∈ opns', typeOf opn.type ≠ some .custom) :
    opt'.optList = (opns ++ opns').map (fun opn => registered lib opn (decide (HasValue opn))) ∧
    opt'.finalVal = opt.finalVal ∧ Contents lib m₀ (opns ++ opns') [] opt'.memory ∧
    ∀ opn ∈ opns', amoptsValidate opn = .ok .success := by
  induction registers generalizing opns with
  | nil opt =>
      rw [List.append_nil]
      exact ⟨list, rfl, contents, by simp⟩
  | @cons opt between opt' opn opn' opns' done rest ih =>
      have usual := standard opn List.mem_cons_self
      obtain ⟨added, final, -⟩ := register_spec done usual
      have near : ∀ other ∈ opns, Apart other opn := fun other inside =>
        (List.pairwise_append.mp apart).2.2 other inside opn List.mem_cons_self
      rw [List.append_cons] at apart ⊢
      have list' : between.optList = (opns ++ [opn]).map fun opn =>
          registered lib opn (decide (HasValue opn)) := by
        rw [added, list, List.map_append, List.map_singleton]
      obtain ⟨lists, finals, whole, valid⟩ := ih list' (contents.register near done usual) apart
        fun other inside => standard other (List.mem_cons_of_mem _ inside)
      refine ⟨lists, finals.trans final, whole, ?_⟩
      rintro other (_ | ⟨_, inside⟩)
      · exact (amoptsRegisterOption_success.mp ⟨_, _, done⟩).1
      · exact valid other inside

end Registration

section Calls

variable {lib : Library} {opns : List AmoptOption}

/-- Options with distinct names and places, of the standard types and without
callbacks of their own. -/
structure Suitable (opns : List AmoptOption) : Prop where
  long : opns.Pairwise fun a b => a.formLong ≠ b.formLong
  short : opns.Pairwise fun a b => a.formShort ≠ 0 → a.formShort ≠ b.formShort
  dash : ∀ opn ∈ opns, opn.formShort ≠ 0x2D
  apart : opns.Pairwise Apart
  custom : ∀ opn ∈ opns, typeOf opn.type ≠ some .custom
  validate : ∀ opn ∈ opns, opn.validate = none

theorem Suitable.standard (suitable : Suitable opns)
    (valid : ∀ opn ∈ opns, amoptsValidate opn = .ok .success) : Standard opns := by
  refine ⟨⟨fun opn inside => ?_, suitable.long, suitable.short, suitable.dash⟩, fun opn inside =>
    ?_, suitable.validate⟩
  · obtain ⟨-, ⟨name, here, -⟩, -⟩ := amoptsValidate_success.mp (valid opn inside)
    exact ⟨name, here⟩
  · obtain ⟨-, -, -, ⟨type, known⟩, -⟩ := amoptsValidate_success.mp (valid opn inside)
    exact ⟨type, known, fun same => suitable.custom opn inside (same ▸ known)⟩

/-- The argument vector splits into these items, each value is accepted by the parser of its
option, every option that needs a value has one, and the final validator accepts the memory
they make of `m`. -/
structure Accepts (lib : Library) (opns : List AmoptOption) (final : Option AmoptVal) (m : Memory)
    (argv : List CString) (items : List (ℕ × Option CString)) (m' : Memory) : Prop where
  splits : Splits opns argv items
  parsed : applyItems lib opns m items = some m'
  complete : ∀ (k : ℕ) opn, opns[k]? = some opn → typeOf opn.type ≠ some .flag →
    opn.defaultValue = none → Gives items k
  final : ∀ validate, final = some validate → (validate m' none).2 = .success

/-- Each option that is no flag holds its last value or its default, each flag is 1 exactly if it
was given or has a default, and all else is as `amopts_init` found it. -/
structure Result (lib : Library) (m₀ : Memory) (opns : List AmoptOption)
    (items : List (ℕ × Option CString)) (m : Memory) : Prop where
  value : ∀ (k : ℕ) opn, opns[k]? = some opn → typeOf opn.type ≠ some .flag →
    ∃ value, (lastValue items k).or opn.defaultValue = some value ∧ Holds lib m opn value
  flag : ∀ (k : ℕ) opn, opns[k]? = some opn → typeOf opn.type = some .flag →
    m.bytes opn.dest = if (k, none) ∈ items ∨ opn.defaultValue.isSome then 1 else 0
  others : ∀ i, (∀ opn ∈ opns, ¬ Covers opn i) → m.bytes i = m₀.bytes i

theorem lastValue_of_gives {items : List (ℕ × Option CString)} {k : ℕ} (gives : Gives items k) :
    ∃ value, lastValue items k = some value := by
  obtain ⟨value, inside⟩ := gives
  apply Option.ne_none_iff_exists'.mp
  rw [lastValue, ne_eq, List.getLast?_eq_none_iff, List.filterMap_eq_nil_iff]
  intro none
  cases (if_pos rfl).symm.trans (none _ inside)

theorem all_set_iff {items : List (ℕ × Option CString)} {l : List AmoptOption}
    (after : ListAfter lib opns items l) :
    (l.all fun opn => opn.isSet) = true ↔
      ∀ (k : ℕ) opn, opns[k]? = some opn → typeOf opn.type ≠ some .flag → opn.defaultValue = none →
      Gives items k := by
  rw [List.all_eq_true]
  constructor
  · intro all k opn here type missing
    have set : decide (HasValue opn ∨ Gives items k) = true :=
      all _ (List.mem_of_getElem? (after.option k opn here))
    rcases of_decide_eq_true set with (flag | default) | gives
    · exact absurd flag type
    · rw [missing] at default
      cases default
    · exact gives
  · intro complete found inside
    obtain ⟨k, here⟩ := List.getElem?_of_mem inside
    obtain ⟨opn, -, there, -⟩ := after.lookup here
    cases here.symm.trans (after.option k opn there)
    apply decide_eq_true
    by_cases type : typeOf opn.type = some .flag
    · exact .inl (.inl type)
    cases default : opn.defaultValue with
    | none => exact .inr (complete k opn there type default)
    | some value => exact .inl (.inr (by rw [default]; rfl))

theorem amoptsRead_eq {opt opt' : Amopt} {argv : List CString}
    (read : readArgs opt argv = .ok (opt', .success))
    (pure : ∀ validate, opt'.finalVal = some validate → ∀ m member, (validate m member).1 = m) :
    ∃ rc, amoptsRead opt argv = .ok (opt', rc) ∧
      (rc = .success ↔ (opt'.optList.all fun opn => opn.isSet) = true ∧
      ∀ validate, opt'.finalVal = some validate → (validate opt'.memory none).2 = .success) := by
  unfold amoptsRead
  rw [read]
  dsimp only
  split
  · rename_i set
    cases final : opt'.finalVal with
    | none => exact ⟨.success, rfl, iff_of_true rfl ⟨set, nofun⟩⟩
    | some validate =>
        refine ⟨(validate opt'.memory none).2, ?_, ?_⟩
        · dsimp only
          rw [pure validate final opt'.memory none, ← final]
        · simp [set]
  · rename_i unset
    exact ⟨.error, rfl, iff_of_false nofun fun both => unset both.1⟩

theorem amoptsRead_error {opt opt' : Amopt} {argv : List CString}
    (read : readArgs opt argv = .ok (opt', .error)) : amoptsRead opt argv = .ok (opt', .error) := by
  unfold amoptsRead
  rw [read]

/-- `amopts_read` succeeds exactly on the argument vectors that split into accepted items, and
leaves what they say. -/
theorem amopts_read_iff (lib : Library) (m₀ : Memory) (final : Option AmoptVal)
    (opns : List AmoptOption) (argv : List CString) {opt : Amopt} (suitable : Suitable opns)
    (registers : Registers lib (amoptsInit m₀ final) opns opt)
    (pure : ∀ validate, final = some validate → ∀ m member, (validate m member).1 = m) :
    (∀ m', (∃ opt', amoptsRead opt argv = .ok (opt', .success) ∧ opt'.memory = m') ↔
      ∃ items, Accepts lib opns final opt.memory argv items m') ∧
    ∀ items m', Accepts lib opns final opt.memory argv items m' → Result lib m₀ opns items m' := by
  have empty : Contents lib m₀ [] [] (amoptsInit m₀ final).memory :=
    ⟨by simp, by simp, fun _ _ => rfl⟩
  obtain ⟨list, finalVal, contents, valid⟩ :=
    registers.spec rfl empty suitable.apart suitable.custom
  rw [List.nil_append] at list contents
  have standard := suitable.standard valid
  have after : ListAfter lib opns [] opt.optList := by
    refine ⟨by rw [list, List.length_map], fun k opn here => ?_⟩
    rw [list, List.getElem?_map, here]
    simp [Gives]
  -- What splits is read, and then it only matters what is set and what the final validator says.
  have complete {items : List (ℕ × Option CString)} {m' : Memory} (splits : Splits opns argv items)
      (parsed : applyItems lib opns opt.memory items = some m') :
      ∃ l rc, amoptsRead opt argv = .ok (⟨l, m', final⟩, rc) ∧
        (rc = .success ↔ Accepts lib opns final opt.memory argv items m') := by
    obtain ⟨l, read, set⟩ := readArgs_of_splits standard splits after parsed
    rw [finalVal] at read
    obtain ⟨rc, done, success⟩ := amoptsRead_eq read pure
    refine ⟨l, rc, done, success.trans ?_⟩
    rw [all_set_iff set, List.nil_append]
    exact ⟨fun both => ⟨splits, parsed, both.1, both.2⟩, fun accepts =>
      ⟨accepts.complete, accepts.final⟩⟩
  constructor
  · intro m'
    constructor
    · rintro ⟨opt', done, rfl⟩
      obtain ⟨between, rc, read, found⟩ := splits_of_readArgs standard argv after
      cases rc with
      | error => cases (amoptsRead_error read).symm.trans done
      | success =>
          obtain ⟨items, splits, parsed⟩ := found rfl
          obtain ⟨l, rc, done', success⟩ := complete splits parsed
          cases done'.symm.trans done
          exact ⟨items, success.mp rfl⟩
    · rintro ⟨items, accepts⟩
      obtain ⟨l, rc, done, success⟩ := complete accepts.splits accepts.parsed
      exact ⟨_, (success.mpr accepts) ▸ done, rfl⟩
  · intro items m' accepts
    have whole := contents.run standard suitable.apart accepts.splits accepts.parsed
    rw [List.nil_append] at whole
    refine ⟨fun k opn here type => ?_, whole.flag, whole.others⟩
    have some : ∃ value, (lastValue items k).or opn.defaultValue = some value := by
      cases default : opn.defaultValue with
      | none =>
          obtain ⟨value, last⟩ := lastValue_of_gives (accepts.complete k opn here type default)
          exact ⟨value, by rw [last]; rfl⟩
      | some value =>
          cases last : lastValue items k with
          | none => exact ⟨value, rfl⟩
          | some value' => exact ⟨value', rfl⟩
    obtain ⟨value, last⟩ := some
    exact ⟨value, last, whole.value k opn here type value last⟩

def sampleOptions : List AmoptOption :=
  [⟨0x76, some ⟨[0x76, 0x65, 0x72], by decide⟩, none, 0, none, 0, none, none, false⟩,
    ⟨0x6E, some ⟨[0x6E, 0x75, 0x6D], by decide⟩, none, 1, none, 8, none, none, false⟩]

def sampleLibrary : Library := ⟨fun _ => none, fun _ _ => none, nofun⟩

def sampleArgv : List CString :=
  [⟨[0x2D, 0x2D, 0x6E, 0x75, 0x6D], by decide⟩, ⟨[0x37], by decide⟩, ⟨[0x2D, 0x76], by decide⟩]

theorem amopts_read_iff_sample : ∃ opt opt',
    Registers sampleLibrary (amoptsInit ⟨fun _ => 0, fun _ => none⟩ none) sampleOptions opt ∧
    amoptsRead opt sampleArgv = .ok (opt', .success) := by
  obtain ⟨opt, registers⟩ : ∃ opt,
      Registers sampleLibrary (amoptsInit ⟨fun _ => 0, fun _ => none⟩ none)
      sampleOptions opt := ⟨_, .cons rfl (.cons rfl (.nil _))⟩
  have suitable : Suitable sampleOptions := by
    constructor <;> simp [sampleOptions, Apart, AmoptOption.dest, width, typeOf]
  obtain ⟨items, defItems⟩ : ∃ items, items = [(1, sampleArgv[1]?), (0, none)] := ⟨_, rfl⟩
  have splits : Splits sampleOptions sampleArgv items := by
    rw [defItems]
    exact .value rfl (.long _ rfl rfl) (by decide) (.flag rfl (.short (by decide) rfl) rfl .nil)
  have parsed : ∃ m, applyItems sampleLibrary sampleOptions opt.memory items = some m := by
    rw [defItems]
    exact ⟨_, rfl⟩
  obtain ⟨m, parsed⟩ := parsed
  have complete (k : ℕ) (opn : AmoptOption) (here : sampleOptions[k]? = some opn)
      (type : typeOf opn.type ≠ some .flag) (_ : opn.defaultValue = none) : Gives items k := by
    match k with
    | 0 =>
        cases here
        exact absurd rfl type
    | 1 => exact ⟨_, defItems ▸ List.mem_cons_self⟩
    | _ + 2 => cases here
  obtain ⟨reads, -⟩ := amopts_read_iff sampleLibrary ⟨fun _ => 0, fun _ => none⟩ none sampleOptions
    sampleArgv suitable
    registers nofun
  obtain ⟨opt', done, -⟩ := (reads m).mpr ⟨items, splits, parsed, complete, nofun⟩
  exact ⟨opt, opt', registers, done⟩

end Calls

end Libam.Opts
