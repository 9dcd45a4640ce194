import Libam.Opts.Model

/-! Which descriptors `amopts_register_option` handles safely, and what it promises of
those it accepts. -/

namespace Libam.Opts

open Libam.Strhash (CString)

section Characters

/-- Printable, no quote and no `=`, and no space unless that is allowed. -/
def fine (isSpaceOk : Bool) (c : UInt8) : Bool :=
  isprint c && c != 0x22 && c != 0x27 && c != 0x3D && (isSpaceOk || !isspace c)

theorem readProblem_eq (c : UInt8) : readProblem c =
    if 128 ≤ c then .error .bounds else .ok (c != 0 && !fine true c) := by
  obtain ⟨bits⟩ := c
  revert bits
  decide +kernel

theorem lt_of_fine {isSpaceOk : Bool} {c : UInt8}
    (accepted : fine isSpaceOk c = true) : c < 128 := by
  simp only [fine, isprint, Bool.and_eq_true, decide_eq_true_eq] at accepted
  exact UInt8.lt_of_le_of_lt accepted.1.1.1.1.2 (by decide)

theorem amoptsValidateChar_eq (isSpaceOk : Bool) (c : UInt8) : amoptsValidateChar c isSpaceOk =
    if 128 ≤ c then .error .bounds else require (c == 0 || fine isSpaceOk c) := by
  unfold amoptsValidateChar
  by_cases zero : c = 0
  · rw [if_pos zero, zero]
    rfl
  rw [if_neg zero, readProblem_eq]
  by_cases high : 128 ≤ c
  · rw [if_pos high, if_pos high]
  rw [if_neg high, if_neg high, beq_false_of_ne zero, bne, beq_false_of_ne zero]
  cases plain : fine true c with
  | false =>
      have refused : fine isSpaceOk c = false := by
        simp only [fine, Bool.true_or, Bool.and_true] at plain
        rw [fine, plain, Bool.false_and]
      rw [refused]
      rfl
  | true =>
      have left : fine isSpaceOk c = (isSpaceOk || !isspace c) := by
        simp only [fine, Bool.true_or, Bool.and_true] at plain
        rw [fine, plain, Bool.true_and]
      rw [left]
      rfl

def Stray (isSpaceOk : Bool) (str : List UInt8) : Prop :=
  ∃ c, str.find? (fun c => !fine isSpaceOk c) = some c ∧ 128 ≤ c

def Accepted (isSpaceOk : Bool) (str : List UInt8) : Prop := ∀ c ∈ str, fine isSpaceOk c = true

end Characters

section Checks

def Faults (rc : Except Fault Amrc) : Prop := ∃ fault, rc = .error fault

@[simp] theorem faults_ok (rc : Amrc) : ¬ Faults (.ok rc) := by
  rintro ⟨fault, same⟩
  cases same

@[simp] theorem faults_error (fault : Fault) : Faults (.error fault) := ⟨fault, rfl⟩

@[simp] theorem faults_require (condition : Bool) : ¬ Faults (require condition) := faults_ok _

@[simp] theorem faults_proceed (rc next : Except Fault Amrc) :
    Faults (proceed rc next) ↔ Faults rc ∨ rc = .ok .success ∧ Faults next := by
  rcases rc with fault | _ | _ <;> simp [proceed]

@[simp] theorem proceed_eq_success (rc next : Except Fault Amrc) :
    proceed rc next = .ok .success ↔ rc = .ok .success ∧ next = .ok .success := by
  rcases rc with fault | _ | _ <;> simp [proceed]

@[simp] theorem require_eq_success (condition : Bool) : require condition = .ok .success ↔
    condition = true := by
  cases condition <;> simp [require]

theorem amoptsValidateChar_faults (isSpaceOk : Bool) (c : UInt8) :
    Faults (amoptsValidateChar c isSpaceOk) ↔ 128 ≤ c := by
  rw [amoptsValidateChar_eq]
  split <;> simp [*]

theorem amoptsValidateChar_success (isSpaceOk : Bool) (c : UInt8) :
    amoptsValidateChar c isSpaceOk = .ok .success ↔ c = 0 ∨ fine isSpaceOk c = true := by
  rw [amoptsValidateChar_eq]
  split
  · rename_i high
    apply iff_of_false nofun
    rintro (rfl | accepted)
    · exact absurd high (by decide)
    · exact absurd (lt_of_fine accepted) (UInt8.not_lt.mpr high)
  · simp

theorem validateChars_faults (isSpaceOk : Bool) {str : List UInt8} (nonzero : 0 ∉ str) :
    Faults (validateChars isSpaceOk str) ↔ Stray isSpaceOk str := by
  induction str with
  | nil => simp [validateChars, Stray]
  | cons c str ih =>
      have other : c ≠ 0 := fun zero => nonzero (zero ▸ List.mem_cons_self)
      have rest := ih fun inside => nonzero (List.mem_cons_of_mem c inside)
      rw [validateChars, faults_proceed, amoptsValidateChar_faults,
        amoptsValidateChar_success, rest]
      cases accepted : fine isSpaceOk c with
      | true =>
          have low : ¬ 128 ≤ c := UInt8.not_le.mpr (lt_of_fine accepted)
          simp [Stray, accepted, low]
      | false => simp [Stray, accepted, other]

theorem validateChars_success (isSpaceOk : Bool) {str : List UInt8} (nonzero : 0 ∉ str) :
    validateChars isSpaceOk str = .ok .success ↔ Accepted isSpaceOk str := by
  induction str with
  | nil => simp [validateChars, Accepted]
  | cons c str ih =>
      have other : c ≠ 0 := fun zero => nonzero (zero ▸ List.mem_cons_self)
      have rest := ih fun inside => nonzero (List.mem_cons_of_mem c inside)
      rw [validateChars, proceed_eq_success, amoptsValidateChar_success, rest]
      simp [Accepted, other]

theorem amoptsValidatePrintable_faults (str : Option CString) (isSpaceOk : Bool) :
    Faults (amoptsValidatePrintable str isSpaceOk) ↔ ∃ s, str = some s ∧
    Stray isSpaceOk s.chars := by
  cases str with
  | none => simp [amoptsValidatePrintable]
  | some str => simp [amoptsValidatePrintable, validateChars_faults isSpaceOk str.nonzero]

theorem amoptsValidatePrintable_success (str : Option CString) (isSpaceOk : Bool) :
    amoptsValidatePrintable str isSpaceOk = .ok .success ↔ ∀ s, str = some s →
    Accepted isSpaceOk s.chars := by
  cases str with
  | none => simp [amoptsValidatePrintable]
  | some str => simp [amoptsValidatePrintable, validateChars_success isSpaceOk str.nonzero]

theorem validateLength_faults (str : Option CString) : Faults (validateLength str) ↔
    str = none := by
  cases str <;> simp [validateLength]

theorem validateLength_success (str : Option CString) :
    validateLength str = .ok .success ↔ ∃ s, str = some s ∧ s.chars.length < 20 := by
  cases str <;> simp [validateLength]

end Checks

section Descriptors

variable {opn : AmoptOption}

def ShortAccepted (opn : AmoptOption) : Prop := opn.formShort = 0 ∨ fine false opn.formShort = true

def LongAccepted (opn : AmoptOption) : Prop :=
  ∃ s, opn.formLong = some s ∧ Accepted false s.chars ∧ s.chars.length < 20

def HelpAccepted (opn : AmoptOption) : Prop := ∀ s, opn.helpString = some s → Accepted true s.chars

def DefaultAccepted (opn : AmoptOption) : Prop := ∀ s, opn.defaultValue = some s →
    Accepted true s.chars

structure Combines (opn : AmoptOption) : Prop where
  parse : typeOf opn.type = some .custom ↔ opn.parse ≠ none
  validate : typeOf opn.type = some .flag → opn.validate = none

theorem longAccepted_iff (opn : AmoptOption) :
    LongAccepted opn ↔ amoptsValidatePrintable opn.formLong false = .ok .success ∧
      validateLength opn.formLong = .ok .success := by
  rw [amoptsValidatePrintable_success, validateLength_success, LongAccepted]
  constructor
  · rintro ⟨s, here, accepted, short⟩
    refine ⟨fun s' here' => ?_, s, here, short⟩
    cases here.symm.trans here'
    exact accepted
  · rintro ⟨accepted, s, here, short⟩
    exact ⟨s, here, accepted s here, short⟩

theorem combines_iff (opn : AmoptOption) :
    Combines opn ↔ (¬ typeOf opn.type = some .custom ∨ ∃ parse, opn.parse = some parse) ∧
      (typeOf opn.type = some .custom ∨ opn.parse = none) ∧
      (¬ typeOf opn.type = some .flag ∨ opn.validate = none) := by
  rw [← Option.ne_none_iff_exists']
  constructor
  · rintro ⟨parse, validate⟩
    refine ⟨?_, ?_, ?_⟩
    · exact Decidable.not_or_of_imp parse.mp
    · exact (Decidable.em _).imp_right fun other => not_not.mp fun some => other (parse.mpr some)
    · exact Decidable.not_or_of_imp validate
  · rintro ⟨custom, other, flag⟩
    refine ⟨⟨fun type => custom.resolve_left (not_not.mpr type), fun some =>
      other.resolve_right some⟩, fun type => ?_⟩
    exact flag.resolve_left (not_not.mpr type)

theorem amoptsValidate_success : amoptsValidate opn = .ok .success ↔
    ShortAccepted opn ∧ LongAccepted opn ∧ HelpAccepted opn ∧
    (∃ type, typeOf opn.type = some type) ∧
    DefaultAccepted opn ∧ Combines opn := by
  simp only [amoptsValidate, proceed_eq_success, amoptsValidateChar_success, require_eq_success,
    longAccepted_iff,
    amoptsValidatePrintable_success opn.helpString,
    amoptsValidatePrintable_success opn.defaultValue, combines_iff,
    Option.isSome_iff_exists, Bool.not_eq_true', Bool.and_eq_false_iff, beq_eq_false_iff_ne,
    bne_eq_false_iff_eq,
    Option.isNone_eq_false_iff, Option.isSome_eq_false_iff, Option.isNone_iff_eq_none,
    ShortAccepted, HelpAccepted, DefaultAccepted, and_assoc, ne_eq]

theorem amoptsValidate_faults : Faults (amoptsValidate opn) ↔
    128 ≤ opn.formShort ∨ ShortAccepted opn ∧
    ((opn.formLong = none ∨ ∃ s, opn.formLong = some s ∧ Stray false s.chars) ∨ LongAccepted opn ∧
    ((∃ s, opn.helpString = some s ∧ Stray true s.chars) ∨ HelpAccepted opn ∧
    (∃ type, typeOf opn.type = some type) ∧ ∃ s, opn.defaultValue = some s ∧
    Stray true s.chars)) := by
  have long : (Faults (amoptsValidatePrintable opn.formLong false) ∨
      amoptsValidatePrintable opn.formLong false = .ok .success ∧
      Faults (validateLength opn.formLong)) ↔
      opn.formLong = none ∨ ∃ s, opn.formLong = some s ∧ Stray false s.chars := by
    rw [amoptsValidatePrintable_faults, validateLength_faults, or_comm]
    refine or_congr_left ⟨And.right, fun missing => ⟨?_, missing⟩⟩
    rw [amoptsValidatePrintable_success, missing]
    exact fun s here => nomatch here
  rw [← long, longAccepted_iff]
  simp only [amoptsValidate, faults_proceed, faults_require, and_false, or_false, false_or,
    amoptsValidateChar_faults,
    amoptsValidateChar_success, require_eq_success, amoptsValidatePrintable_faults opn.helpString,
    amoptsValidatePrintable_success opn.helpString, amoptsValidatePrintable_faults opn.defaultValue,
    Option.isSome_iff_exists, ShortAccepted, HelpAccepted]
  -- What remains differs in how the two checks of the long form are grouped.
  simp only [or_assoc, and_or_left, and_assoc]

end Descriptors

section Registration

variable {lib : Library} {opt : Amopt} {opn : AmoptOption}

structure Documented (opn : AmoptOption) : Prop where
  long : ∃ s, opn.formLong = some s ∧ s.chars ≠ [] ∧ s.chars.length < 20 ∧
    ∀ c ∈ s.chars, isprint c = true ∧ isspace c = false ∧ c ≠ 0x22 ∧ c ≠ 0x27 ∧ c ≠ 0x3D
  short : opn.formShort ≠ 0 → isprint opn.formShort = true ∧ isspace opn.formShort = false ∧
    opn.formShort ≠ 0x22 ∧ opn.formShort ≠ 0x27 ∧ opn.formShort ≠ 0x3D
  help : ∀ s, opn.helpString = some s → ∀ c ∈ s.chars, isprint c = true
  type : ∃ type, typeOf opn.type = some type
  parse : typeOf opn.type = some .custom ↔ opn.parse ≠ none
  validate : typeOf opn.type = some .flag → opn.validate = none

/-- Nothing outside the table is read and no NULL is followed, and what is accepted meets the
constraints. -/
structure RegistersSafely (lib : Library) (opt : Amopt) (opn : AmoptOption) : Prop where
  total : ∀ fault, amoptsRegisterOption lib opt opn ≠ .error fault
  documented : ∀ opt' opn', amoptsRegisterOption lib opt opn = .ok (opt', opn', .success) →
    Documented opn

def DefaultRefused (lib : Library) (opt : Amopt) (opn : AmoptOption) : Prop :=
  typeOf opn.type ≠ some .flag ∧ ∃ value parse, opn.defaultValue = some value ∧
    lib.parser opn = some parse ∧
    (parse opt.memory opn.dest value).2 = .error

/-- What `amopts_validate` does not check by itself: each text it comes to has no byte from 128 on
before its first character that is refused, the long form is there when it comes to it, and an empty
one fails elsewhere. -/
structure Checkable (lib : Library) (opt : Amopt) (opn : AmoptOption) : Prop where
  short : opn.formShort < 128
  given : ShortAccepted opn → opn.formLong ≠ none
  long : ShortAccepted opn → ∀ s, opn.formLong = some s → ¬ Stray false s.chars
  help : ShortAccepted opn → LongAccepted opn → ∀ s, opn.helpString = some s → ¬ Stray true s.chars
  value : ShortAccepted opn → LongAccepted opn → HelpAccepted opn →
    (∃ type, typeOf opn.type = some type) →
    ∀ s, opn.defaultValue = some s → ¬ Stray true s.chars
  named : ShortAccepted opn → LongAccepted opn → HelpAccepted opn →
    (∃ type, typeOf opn.type = some type) →
    DefaultAccepted opn → Combines opn → (∀ s, opn.formLong = some s → s.chars ≠ []) ∨
    DefaultRefused lib opt opn

theorem parser_given (known : ∃ type, typeOf opn.type = some type) (combines : Combines opn) :
    ∃ parse, lib.parser opn = some parse := by
  obtain ⟨type, here⟩ := known
  unfold Library.parser
  rw [here]
  cases type with
  | custom => exact Option.ne_none_iff_exists'.mp (combines.parse.mp here)
  | _ => exact ⟨_, rfl⟩

theorem amoptsRegisterOption_valid (valid : amoptsValidate opn = .ok .success) :
    ∃ opt' opn' rc, amoptsRegisterOption lib opt opn = .ok (opt', opn', rc) ∧
      (rc = .error ↔ DefaultRefused lib opt opn) := by
  obtain ⟨-, -, -, known, -, combines⟩ := amoptsValidate_success.mp valid
  obtain ⟨parse, given⟩ := @parser_given lib opn known combines
  unfold amoptsRegisterOption
  rw [valid]
  simp only
  split
  · rename_i flag
    exact ⟨_, _, _, rfl, iff_of_false nofun fun refused => refused.1 flag⟩
  rename_i other
  split
  · rename_i missing
    refine ⟨_, _, _, rfl, iff_of_false nofun ?_⟩
    rintro ⟨-, value, -, here, -⟩
    cases missing.symm.trans here
  rename_i value here
  rw [given]
  simp only
  split
  · rename_i memory parsed
    refine ⟨_, _, _, rfl, iff_of_true rfl ⟨other, value, parse, here, given, ?_⟩⟩
    exact congrArg Prod.snd parsed
  · rename_i memory parsed
    refine ⟨_, _, _, rfl, iff_of_false nofun ?_⟩
    rintro ⟨-, value', parse', here', given', refused⟩
    cases here.symm.trans here'
    cases given.symm.trans given'
    cases refused.symm.trans (congrArg Prod.snd parsed)

theorem amoptsRegisterOption_error {fault : Fault} :
    amoptsRegisterOption lib opt opn = .error fault ↔ amoptsValidate opn = .error fault := by
  constructor
  · intro failed
    rcases checked : amoptsValidate opn with other | _ | _
    · unfold amoptsRegisterOption at failed
      rw [checked] at failed
      exact congrArg Except.error (Except.error.inj failed)
    · obtain ⟨opt', opn', rc, done, -⟩ := @amoptsRegisterOption_valid lib opt opn checked
      cases failed.symm.trans done
    · unfold amoptsRegisterOption at failed
      rw [checked] at failed
      cases failed
  · intro checked
    unfold amoptsRegisterOption
    rw [checked]

theorem amoptsRegisterOption_success :
    (∃ opt' opn', amoptsRegisterOption lib opt opn = .ok (opt', opn', .success)) ↔
    amoptsValidate opn = .ok .success ∧ ¬ DefaultRefused lib opt opn := by
  constructor
  · rintro ⟨opt', opn', done⟩
    have valid : amoptsValidate opn = .ok .success := by
      rcases checked : amoptsValidate opn with fault | _ | _
      · cases (amoptsRegisterOption_error.mpr checked).symm.trans done
      · rfl
      · unfold amoptsRegisterOption at done
        rw [checked] at done
        cases done
    obtain ⟨_, _, _, result, refused⟩ := @amoptsRegisterOption_valid lib opt opn valid
    cases result.symm.trans done
    exact ⟨valid, mt refused.mpr nofun⟩
  · rintro ⟨valid, kept⟩
    obtain ⟨opt', opn', rc, result, refused⟩ := @amoptsRegisterOption_valid lib opt opn valid
    cases rc with
    | error => exact absurd (refused.mp rfl) kept
    | success => exact ⟨opt', opn', result⟩

theorem fine_false_iff (c : UInt8) : fine false c = true ↔
    isprint c = true ∧ isspace c = false ∧ c ≠ 0x22 ∧ c ≠ 0x27 ∧ c ≠ 0x3D := by
  simp only [fine, Bool.false_or, Bool.and_eq_true, bne_iff_ne, Bool.not_eq_true']
  constructor
  · rintro ⟨⟨⟨⟨printable, double⟩, single⟩, equals⟩, space⟩
    exact ⟨printable, space, double, single, equals⟩
  · rintro ⟨printable, space, double, single, equals⟩
    exact ⟨⟨⟨⟨printable, double⟩, single⟩, equals⟩, space⟩

theorem isprint_of_fine {isSpaceOk : Bool} {c : UInt8} (accepted : fine isSpaceOk c = true) :
    isprint c = true := by
  simp only [fine, Bool.and_eq_true] at accepted
  exact accepted.1.1.1.1

/-- An accepted descriptor meets the constraints, but for a long form that is empty. -/
theorem documented_iff (valid : amoptsValidate opn = .ok .success) :
    Documented opn ↔ ∀ s, opn.formLong = some s → s.chars ≠ [] := by
  obtain ⟨short, ⟨name, here, accepted, length⟩, help, known, -, combines⟩ :=
    amoptsValidate_success.mp valid
  constructor
  · intro documented s here'
    obtain ⟨s', there, nonempty, -⟩ := documented.long
    cases here'.symm.trans there
    exact nonempty
  · intro nonempty
    refine ⟨⟨name, here, nonempty name here, length, fun c inside => (fine_false_iff c).mp
      (accepted c inside)⟩, ?_, ?_,
      known, combines.parse, combines.validate⟩
    · intro given
      exact (fine_false_iff _).mp (short.resolve_left given)
    · intro s there c inside
      exact isprint_of_fine (help s there c inside)

theorem checkable_total :
    (∀ fault, amoptsRegisterOption lib opt opn ≠ .error fault) ↔ ¬ Faults (amoptsValidate opn) := by
  simp only [ne_eq, amoptsRegisterOption_error, Faults, not_exists]

theorem not_faults_iff : ¬ Faults (amoptsValidate opn) ↔
    opn.formShort < 128 ∧ (ShortAccepted opn → opn.formLong ≠ none) ∧
    (ShortAccepted opn → ∀ s, opn.formLong = some s → ¬ Stray false s.chars) ∧
    (ShortAccepted opn → LongAccepted opn → ∀ s, opn.helpString = some s → ¬ Stray true s.chars) ∧
    (ShortAccepted opn → LongAccepted opn → HelpAccepted opn →
      (∃ type, typeOf opn.type = some type) →
      ∀ s, opn.defaultValue = some s → ¬ Stray true s.chars) := by
  rw [amoptsValidate_faults, ← UInt8.not_le]
  grind

/-- Registration is safe exactly where the validation has no gap for the descriptor. -/
theorem amopts_register_safe_iff (lib : Library) (opt : Amopt) (opn : AmoptOption) :
    RegistersSafely lib opt opn ↔ Checkable lib opt opn := by
  have gaps : (∀ opt' opn', amoptsRegisterOption lib opt opn = .ok (opt', opn', .success) →
      Documented opn) ↔
      (amoptsValidate opn = .ok .success →
        (∀ s, opn.formLong = some s → s.chars ≠ []) ∨ DefaultRefused lib opt opn) := by
    constructor
    · intro documented valid
      by_cases refused : DefaultRefused lib opt opn
      · exact .inr refused
      · obtain ⟨opt', opn', done⟩ := amoptsRegisterOption_success.mpr ⟨valid, refused⟩
        exact .inl ((documented_iff valid).mp (documented opt' opn' done))
    · intro named opt' opn' done
      obtain ⟨valid, kept⟩ := amoptsRegisterOption_success.mp ⟨opt', opn', done⟩
      exact (documented_iff valid).mpr ((named valid).resolve_right kept)
  rw [amoptsValidate_success] at gaps
  constructor
  · rintro ⟨total, documented⟩
    obtain ⟨short, given, long, help, value⟩ := not_faults_iff.mp (checkable_total.mp total)
    refine ⟨short, given, long, help, value, ?_⟩
    intro shortAccepted longAccepted helpAccepted known defaultAccepted combines
    exact gaps.mp documented
      ⟨shortAccepted, longAccepted, helpAccepted, known, defaultAccepted, combines⟩
  · rintro ⟨short, given, long, help, value, named⟩
    refine ⟨checkable_total.mpr (not_faults_iff.mpr ⟨short, given, long, help, value⟩), gaps.mpr ?_⟩
    rintro ⟨shortAccepted, longAccepted, helpAccepted, known, defaultAccepted, combines⟩
    exact named shortAccepted longAccepted helpAccepted known defaultAccepted combines

/-- A long form of one byte of 200, in a descriptor of a flag that is plain otherwise. -/
theorem amopts_register_leaves_table :
    ¬ RegistersSafely ⟨fun _ => none, fun _ _ => none,
      nofun⟩ (amoptsInit ⟨fun _ => 0, fun _ => none⟩ none)
      ⟨0, some ⟨[200], by decide⟩, none, 0, none, 0, none, none, false⟩ := by
  rintro ⟨total, -⟩
  exact total .bounds rfl

end Registration

end Libam.Opts
