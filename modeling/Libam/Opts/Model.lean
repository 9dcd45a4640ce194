import Libam.Strhash.Model

/-! The command-line options of `libam_opts.c`. Messages that are printed are left out. -/

namespace Libam.Opts

open Libam.Strhash (CString)

inductive Fault
  | bounds
  | null
  deriving DecidableEq, Repr

section Characters

def isprint (c : UInt8) : Bool := 0x20 ≤ c && c ≤ 0x7E

def isspace (c : UInt8) : Bool := c == 0x20 || (0x09 ≤ c && c ≤ 0x0D)

def isdigit (c : UInt8) : Bool := 0x30 ≤ c && c ≤ 0x39

/-- The number of entries of `is_problem`, `UINT8_MAX`. -/
def problemSize : ℕ := 255

/-- The table `is_problem` as `amopts_init` fills it: a newline, the two quotes
and `=` come last. -/
def isProblem : List Bool :=
  let table := (List.range problemSize).map fun i => decide (1 ≤ i) && !isprint (.ofNat i)
  (((table.set 0x0A true).set 0x22 true).set 0x27 true).set 0x3D true

/-- `is_problem[(int)c]`; a `char` has a sign. -/
def readProblem (c : UInt8) : Except Fault Bool :=
  if 0 ≤ c.toInt8.toInt then
    match isProblem[c.toInt8.toInt.toNat]? with
    | some problem => .ok problem
    | none => .error .bounds
  else .error .bounds

end Characters

section Memory

/-- The bytes of the structure of the caller, and the strings that `strdup` has allocated. -/
structure Memory where
  bytes : ℕ → UInt8
  strings : UInt64 → Option CString

def Memory.write (m : Memory) (dest : ℕ) (values : List UInt8) : Memory :=
  { m with bytes := fun i => if dest ≤ i then values[i - dest]?.getD (m.bytes i) else m.bytes i }

def wordBytes (word : UInt64) : List UInt8 := (List.range 8).map fun i =>
    (word >>> .ofNat (8 * i)).toUInt8

/-- What `sscanf` makes of a text with `%lf`, as the bits of a `double`, and where
`strdup` puts a copy. -/
structure Library where
  sscanfLf : List UInt8 → Option UInt64
  strdup : (UInt64 → Option CString) → CString → Option UInt64
  strdup_fresh : ∀ strings str address, strdup strings str = some address → strings address = none

/-- `amopt_prase_t`: the memory, the place of the member in it and the input. -/
abbrev AmoptPrase := Memory → ℕ → CString → Memory × Amrc

abbrev AmoptVal := Memory → Option ℕ → Memory × Amrc

end Memory

section Descriptors

inductive AmoptType
  | flag
  | uint64
  | udouble
  | string
  | custom
  deriving DecidableEq, Repr

def typeOf (type : UInt32) : Option AmoptType :=
  [.flag, .uint64, .udouble, .string, .custom][type.toNat]?

structure AmoptOption where
  formShort : UInt8
  formLong : Option CString
  helpString : Option CString
  type : UInt32
  defaultValue : Option CString
  offset : UInt64
  validate : Option AmoptVal
  parse : Option AmoptPrase
  isSet : Bool

structure Amopt where
  optList : List AmoptOption
  memory : Memory
  finalVal : Option AmoptVal

def amoptsInit (memory : Memory) (finalValidate : Option AmoptVal) : Amopt :=
  ⟨[], memory, finalValidate⟩

def AmoptOption.dest (opn : AmoptOption) : ℕ := opn.offset.toNat

end Descriptors

section Validation

def proceed (rc next : Except Fault Amrc) : Except Fault Amrc :=
  match rc with
  | .error fault => .error fault
  | .ok .error => .ok .error
  | .ok .success => next

def require (condition : Bool) : Except Fault Amrc := .ok (if condition then .success else .error)

def amoptsValidateChar (c : UInt8) (isSpaceOk : Bool) : Except Fault Amrc :=
  if c = 0 then .ok .success
  else
    match readProblem c with
    | .error fault => .error fault
    | .ok true => .ok .error
    | .ok false => require (isSpaceOk || !isspace c)

/-- The loop of `amopts_validate_printable`. -/
def validateChars (isSpaceOk : Bool) : List UInt8 → Except Fault Amrc
  | [] => .ok .success
  | c :: str => proceed (amoptsValidateChar c isSpaceOk) (validateChars isSpaceOk str)

def amoptsValidatePrintable (str : Option CString) (isSpaceOk : Bool) : Except Fault Amrc :=
  match str with
  | none => .ok .success
  | some str => validateChars isSpaceOk str.chars

/-- `strlen(form_long) >= 20` is an error. -/
def validateLength (str : Option CString) : Except Fault Amrc :=
  match str with
  | none => .error .null
  | some str => require (str.chars.length < 20)

def amoptsValidate (opn : AmoptOption) : Except Fault Amrc :=
  proceed (amoptsValidateChar opn.formShort false) <|
  proceed (amoptsValidatePrintable opn.formLong false) <|
  proceed (validateLength opn.formLong) <|
  proceed (amoptsValidatePrintable opn.helpString true) <|
  proceed (require (typeOf opn.type).isSome) <|
  proceed (amoptsValidatePrintable opn.defaultValue true) <|
  proceed (require !(typeOf opn.type == some .custom && opn.parse.isNone)) <|
  proceed (require !(typeOf opn.type != some .custom && opn.parse.isSome)) <|
  require !(typeOf opn.type == some .flag && opn.validate.isSome)

end Validation

section Parsing

/-- The loop of `amopts_validate_numeric`. -/
def numericLoop : List UInt8 → Bool → Bool → Amrc
  | [], gotDigit, _ => if gotDigit then .success else .error
  | c :: str, gotDigit, isDotOk =>
      if isDotOk && c == 0x2E then numericLoop str gotDigit false
      else if !isdigit c then .error
      else numericLoop str true isDotOk

def amoptsValidateNumeric (str : List UInt8) (isNegativeOk isDotOk : Bool) : Amrc :=
  match str with
  | 0x2D :: rest =>
      if isNegativeOk then numericLoop rest false isDotOk else numericLoop str false isDotOk
  | _ => numericLoop str false isDotOk

def decimal (digits : List UInt8) : ℕ := digits.foldl (fun n c => 10 * n + (c.toNat - 0x30)) 0

/-- `sscanf` with `%lu`: white space, a sign and digits; too large a number becomes the largest. -/
def sscanfLu (input : List UInt8) : Option UInt64 :=
  let (negative, rest) :=
    match input.dropWhile isspace with
    | 0x2D :: rest => (true, rest)
    | 0x2B :: rest => (false, rest)
    | rest => (false, rest)
  match rest.takeWhile isdigit with
  | [] => none
  | digits =>
      if 2 ^ 64 ≤ decimal digits then some 0xFFFFFFFFFFFFFFFF
      else some (if negative then -.ofNat (decimal digits) else .ofNat (decimal digits))

def amoptPraseFlag : AmoptPrase := fun m dest _ => (m.write dest [1], .success)

def amoptPraseUint64 : AmoptPrase := fun m dest input =>
  match amoptsValidateNumeric input.chars false false with
  | .error => (m, .error)
  | .success =>
      match sscanfLu input.chars with
      | none => (m, .error)
      | some word => (m.write dest (wordBytes word), .success)

def amoptPraseUdouble (lib : Library) : AmoptPrase := fun m dest input =>
  match amoptsValidateNumeric input.chars false true with
  | .error => (m, .error)
  | .success =>
      match lib.sscanfLf input.chars with
      | none => (m, .error)
      | some word => (m.write dest (wordBytes word), .success)

def amoptPraseString (lib : Library) : AmoptPrase := fun m dest input =>
  match lib.strdup m.strings input with
  | none => (m, .error)
  | some dup =>
      (({ m with strings := Function.update m.strings dup (some input) } : Memory).write dest
        (wordBytes dup), .success)

/-- The callback that `amopts_register_option` chooses. -/
def Library.parser (lib : Library) (opn : AmoptOption) : Option AmoptPrase :=
  match typeOf opn.type with
  | some .flag => some amoptPraseFlag
  | some .uint64 => some amoptPraseUint64
  | some .udouble => some (amoptPraseUdouble lib)
  | some .string => some (amoptPraseString lib)
  | some .custom => opn.parse
  | none => opn.parse

end Parsing

section Registration

/-- `amopts_register_option`, with what it leaves in the descriptor. -/
def amoptsRegisterOption (lib : Library) (opt : Amopt) (opn : AmoptOption) :
    Except Fault (Amopt × AmoptOption × Amrc) :=
  match amoptsValidate opn with
  | .error fault => .error fault
  | .ok .error => .ok (opt, opn, .error)
  | .ok .success =>
      let opn := { opn with parse := lib.parser opn, isSet := false }
      if typeOf opn.type = some .flag then
        let opn := { opn with isSet := true }
        let memory := opt.memory.write opn.dest [if opn.defaultValue.isNone then 0 else 1]
        .ok ({ opt with memory := memory, optList := opt.optList ++ [opn] }, opn, .success)
      else
        match opn.defaultValue with
        | none => .ok ({ opt with optList := opt.optList ++ [opn] }, opn, .success)
        | some value =>
            match opn.parse with
            | none => .error .null
            | some parse =>
                match parse opt.memory opn.dest value with
                | (memory, .error) => .ok ({ opt with memory := memory }, opn, .error)
                | (memory, .success) =>
                    let opn := { opn with isSet := true }
                    .ok ({ opt with memory := memory, optList := opt.optList ++ [opn] },
                      opn, .success)

end Registration

section Reading

/-- The loops of the two searches: the first option that matches, and its place in the list. -/
def searchList (matches' : AmoptOption → Except Fault Bool) : List AmoptOption →
    Except Fault (Option (ℕ × AmoptOption))
  | [] => .ok none
  | opn :: opns =>
      match matches' opn with
      | .error fault => .error fault
      | .ok true => .ok (some (0, opn))
      | .ok false => (searchList matches' opns).map (Option.map fun found => (found.1 + 1, found.2))

def amoptsSearchLong (opt : Amopt) (name : List UInt8) : Except Fault (Option (ℕ × AmoptOption)) :=
  searchList (fun opn =>
    match opn.formLong with
    | none => .error .null
    | some formLong => .ok (name == formLong.chars)) opt.optList

def amoptsSearchShort (opt : Amopt) (name : List UInt8) : Except Fault (Option (ℕ × AmoptOption)) :=
  match name with
  | [c] => searchList (fun opn => .ok (c == opn.formShort)) opt.optList
  | _ => .ok none

def searchArg (opt : Amopt) (arg : List UInt8) : Except Fault (Option (ℕ × AmoptOption)) :=
  match arg with
  | 0x2D :: 0x2D :: name => amoptsSearchLong opt name
  | 0x2D :: name => amoptsSearchShort opt name
  | _ => .ok none

/-- `opn->is_set = 1`. -/
def Amopt.setOption (opt : Amopt) (k : ℕ) : Amopt :=
  { opt with optList := opt.optList.modify k fun opn => { opn with isSet := true } }

def amoptsReadValue (opt : Amopt) (k : ℕ) (opn : AmoptOption) (value : CString) :
    Except Fault (Amopt × Amrc) :=
  match opn.parse with
  | none => .error .null
  | some parse =>
      match parse opt.memory opn.dest value with
      | (memory, .error) => .ok ({ opt with memory := memory }, .error)
      | (memory, .success) =>
          match opn.validate with
          | none => .ok ({ opt with memory := memory }.setOption k, .success)
          | some validate =>
              match validate memory (some opn.dest) with
              | (memory, .error) => .ok ({ opt with memory := memory }, .error)
              | (memory, .success) => .ok ({ opt with memory := memory }.setOption k, .success)

/-- The loop of `amopts_read` over `argv`. -/
def readArgs (opt : Amopt) : List CString → Except Fault (Amopt × Amrc)
  | [] => .ok (opt, .success)
  | arg :: rest =>
      match searchArg opt arg.chars with
      | .error fault => .error fault
      | .ok none => .ok (opt, .error)
      | .ok (some (k, opn)) =>
          if typeOf opn.type = some .flag then readArgs
            { opt with memory := opt.memory.write opn.dest [1] } rest
          else
            match rest with
            | [] => .ok (opt, .error)
            | value :: rest =>
                match amoptsReadValue opt k opn value with
                | .error fault => .error fault
                | .ok (opt, .error) => .ok (opt, .error)
                | .ok (opt, .success) => readArgs opt rest

def amoptsRead (opt : Amopt) (argv : List CString) : Except Fault (Amopt × Amrc) :=
  match readArgs opt argv with
  | .error fault => .error fault
  | .ok (opt, .error) => .ok (opt, .error)
  | .ok (opt, .success) =>
      if opt.optList.all fun opn => opn.isSet then
        match opt.finalVal with
        | none => .ok (opt, .success)
        | some finalVal =>
            let (memory, rc) := finalVal opt.memory none
            .ok ({ opt with memory := memory }, rc)
      else .ok (opt, .error)

end Reading

end Libam.Opts
