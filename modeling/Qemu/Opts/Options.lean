import Qemu.Lib.Doubled
import Qemu.Lib.Bytes

namespace Qemu.Opts

open Lib

/-!
# Option strings (`qemu-option.c`)

* `getOptName`, `getOptValue` — a name or a value is cut from a text;
* `qemuOptSet` — an option is added to a set of options;
* `qemuOptsCreate` — a set of options is added to a list;
* `plainOption`, `assignedOption`, `doParseLoop` — a text is read, option by option;
* `qemuOptsParse` — a set of options is made of a text.

Strings are the bytes in front of the NUL.
-/

/-- A string of the C program, without its terminating zero. -/
abbrev Str := List Byte

/-- A string of the source. -/
def str (s : List Char) : Str := s.map fun c => BitVec.ofNat 8 c.toNat

/-- `,` -/
def comma : Byte := 0x2C

/-- `=` -/
def equals : Byte := 0x3D

/-! ### Names and values -/

/-- `get_opt_name`: the name, and the text from the delimiter on. -/
def getOptName (bufSize : Nat) (p : Str) (delim : Byte) : Str × Str :=
  ((p.takeWhile (· ≠ delim)).take (bufSize - 1), p.dropWhile (· ≠ delim))

/-- `get_opt_value`: the value, and the text from the single comma on. -/
def getOptValue (bufSize : Nat) (p : Str) : Str × Str :=
  ((readDoubled comma p).1.take (bufSize - 1), (readDoubled comma p).2)

/-- `pstrcpy` -/
def pstrcpy (bufSize : Nat) (s : Str) : Str := s.take (bufSize - 1)

/-- `strncmp` with the length of the prefix. -/
def startsWith (pre s : Str) : Bool := pre.isPrefixOf s

/-- `strstr`: the text from the first place on where `pat` is. -/
def strstr (pat : Str) : Str → Option Str
  | [] => if pat = [] then some [] else none
  | c :: s => if startsWith pat (c :: s) then some (c :: s) else strstr pat s

/-! ### Options -/

/-- `enum QemuOptType` -/
inductive QemuOptType
  | string
  | bool
  | number
  | size

/-- `QemuOptDesc` -/
structure QemuOptDesc where
  name : Str
  type : QemuOptType

/-- The union of `QemuOpt`. -/
inductive OptValue
  | boolean (b : Bool)
  | uint (n : BitVec 64)

/-- `QemuOpt` -/
structure QemuOpt where
  name : Str
  str : Option Str
  desc : Option QemuOptDesc
  value : Option OptValue

/-- `QemuOpts` -/
structure QemuOpts where
  id : Option Str
  head : List QemuOpt

/-- `QemuOptsList` -/
structure QemuOptsList where
  name : Str
  head : List QemuOpts
  desc : List QemuOptDesc

/-- What numbers and sizes are read with: `strtoull`, and the sizes with a unit, which are read with
    `strtod`. -/
structure OptLibc where
  strtoull : Str → BitVec 64 × Str
  size : Str → Option (BitVec 64)

/-- `parse_option_bool` -/
def parseOptionBool : Option Str → Option Bool
  | some value =>
    if value = str ['o', 'n'] then some true
    else if value = str ['o', 'f', 'f'] then some false
    else none
  | none => some true

/-- `parse_option_number` -/
def parseOptionNumber (libc : OptLibc) : Option Str → Option (BitVec 64)
  | some value => if (libc.strtoull value).2 = [] then some (libc.strtoull value).1 else none
  | none => none

/-- `qemu_opt_parse` -/
def qemuOptParse (libc : OptLibc) (opt : QemuOpt) : Option QemuOpt :=
  match opt.desc with
  | none => some opt
  | some desc =>
    match desc.type with
    | .string => some opt
    | .bool => (parseOptionBool opt.str).map fun b => { opt with value := some (.boolean b) }
    | .number =>
      (parseOptionNumber libc opt.str).map fun n => { opt with value := some (.uint n) }
    | .size => (opt.str.bind libc.size).map fun n => { opt with value := some (.uint n) }

/-- `qemu_opt_set`; `none` stands for the error, which leaves the options as they are. -/
def qemuOptSet (libc : OptLibc) (list : QemuOptsList) (opts : QemuOpts) (name : Str)
    (value : Option Str) : Option QemuOpts :=
  let desc := list.desc.find? fun d => d.name = name
  -- an empty list of descriptions allows any name
  if desc.isNone ∧ list.desc ≠ [] then none
  else
    (qemuOptParse libc { name, str := value, desc, value := none }).map fun opt =>
      { opts with head := opts.head ++ [opt] }

/-- `qemu_opts_find` -/
def qemuOptsFind (list : QemuOptsList) (id : Str) : Option QemuOpts :=
  list.head.find? fun opts => opts.id = some id

/-- `qemu_opts_create`, which does not return options that exist; they are put at the end of the
    list. -/
def qemuOptsCreate (list : QemuOptsList) (id : Option Str) : Option QemuOpts :=
  match id with
  | some i => if (qemuOptsFind list i).isSome then none else some { id, head := [] }
  | none => some { id, head := [] }

/-! ### Texts -/

/-- An option of a text: its name and value, and the text behind it. -/
structure OptionText where
  option : Str
  value : Str
  rest : Str

/-- "foo,more": the implicitly named option, or a flag. -/
def plainOption (implied : Option Str) (p : Str) : OptionText :=
  match implied with
  | some name =>
    let r := getOptValue 1024 p
    { option := pstrcpy 128 name, value := r.1, rest := r.2 }
  | none =>
    let r := getOptName 128 p comma
    if startsWith (str ['n', 'o']) r.1 then
      { option := r.1.drop 2, value := str ['o', 'f', 'f'], rest := r.2 }
    else { option := r.1, value := str ['o', 'n'], rest := r.2 }

/-- "foo=bar,more"; `none` stands for the `break`. -/
def assignedOption (p : Str) : Option OptionText :=
  let r := getOptName 128 p equals
  match r.2 with
  | [] => none
  | c :: p =>
    if c ≠ equals then none
    else
      let v := getOptValue 1024 p
      some { option := r.1, value := v.1, rest := v.2 }

/-- The body of the loop of `qemu_opts_do_parse`, as far as it reads the text.  `implied` is
    `firstname` as long as `p` is `params`. -/
def optionText (implied : Option Str) (p : Str) : Option OptionText :=
  let pe := p.idxOf? equals
  let pc := p.idxOf? comma
  if pe = none ∨ (∃ e ∈ pe, ∃ c ∈ pc, c < e) then some (plainOption implied p)
  else assignedOption p

theorem length_dropWhile_le (p : Str) (f : Byte → Bool) : (p.dropWhile f).length ≤ p.length :=
  (List.dropWhile_suffix f).length_le

theorem plainOption_length (implied : Option Str) (p : Str) :
    (plainOption implied p).rest.length ≤ p.length := by
  cases implied with
  | some name => exact length_readDoubled_le comma p
  | none =>
    unfold plainOption
    dsimp only
    split_ifs <;> exact length_dropWhile_le p _

theorem assignedOption_length {p : Str} {o : OptionText} (h : assignedOption p = some o) :
    o.rest.length ≤ p.length := by
  unfold assignedOption at h
  dsimp only at h
  cases hp : (getOptName 128 p equals).2 with
  | nil =>
    rw [hp] at h
    cases h
  | cons c p' =>
    have hle : (c :: p').length ≤ p.length := hp ▸ length_dropWhile_le p _
    rw [hp] at h
    dsimp only at h
    split_ifs at h
    obtain rfl := Option.some.inj h
    exact (length_readDoubled_le comma p').trans ((Nat.le_succ _).trans hle)

theorem optionText_length {implied : Option Str} {p : Str} {o : OptionText}
    (h : optionText implied p = some o) : o.rest.length ≤ p.length := by
  unfold optionText at h
  dsimp only at h
  split_ifs at h
  · obtain rfl := Option.some.inj h
    exact plainOption_length implied p
  · exact assignedOption_length h

/-- `"id"` -/
def optId : Str := str ['i', 'd']

/-- The loop of `qemu_opts_do_parse`; `none` stands for the error. -/
def doParseLoop (libc : OptLibc) (list : QemuOptsList) (implied : Option Str) (opts : QemuOpts)
    (p : Str) : Option QemuOpts :=
  if p = [] then some opts
  else
    match _h : optionText implied p with
    | none => some opts
    | some o =>
      let opts :=
        if o.option ≠ optId then qemuOptSet libc list opts o.option (some o.value) else some opts
      match opts, _ho : o.rest with
      | none, _ => none
      | some opts, [] => some opts
      | some opts, c :: p =>
        if c ≠ comma then some opts else doParseLoop libc list none opts p
termination_by p.length
decreasing_by
  have hle := optionText_length _h
  rw [_ho, List.length_cons] at hle
  omega

/-- `qemu_opts_do_parse` -/
def qemuOptsDoParse (libc : OptLibc) (list : QemuOptsList) (opts : QemuOpts) (params : Str)
    (firstname : Option Str) : Option QemuOpts :=
  doParseLoop libc list firstname opts params

/-- The id that `qemu_opts_parse` finds in a text. -/
def findId (params : Str) : Option Str :=
  if startsWith (optId ++ [equals]) params then some (getOptValue 1024 (params.drop 3)).1
  else (strstr (comma :: (optId ++ [equals])) params).map fun p => (getOptValue 1024 (p.drop 4)).1

/-- `qemu_opts_parse`: the list with the new options, and these. -/
def qemuOptsParse (libc : OptLibc) (list : QemuOptsList) (params : Str) (firstname : Option Str) :
    QemuOptsList × Option QemuOpts :=
  match qemuOptsCreate list (findId params) with
  | none => (list, none)
  | some opts =>
    match qemuOptsDoParse libc list opts params firstname with
    | none => (list, none)
    | some opts => ({ list with head := list.head ++ [opts] }, some opts)

end Qemu.Opts
