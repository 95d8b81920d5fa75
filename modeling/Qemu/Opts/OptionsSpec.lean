import Qemu.Opts.Options

namespace Qemu.Opts

open Lib

/-!
# What an option string is parsed to

* `quoteOptions` — options as a text, with the commas of the values doubled;
* `optionText_quote`, `doParseLoop_quote` — the text is read back option by option;
* `findId_eq_none_iff` — where the search for an id finds one;
* `qemu_opts_parse_pairs` — a text makes the options it was written for, if it has an id or no value
  looks like one.

The id is searched in the text as it is, so that a value with ",id=" in it is taken for an id.
-/

/-! ### Texts -/

/-- A pair as it is written: `name=value`, with the commas of the value doubled. -/
def quoteOption (o : Str × Str) : Str := o.1 ++ equals :: doubled comma o.2

/-- The options behind the first one. -/
def optionsTail : List (Str × Str) → Str
  | [] => []
  | o :: l => comma :: (quoteOption o ++ optionsTail l)

/-- "name=value,name=value", with the commas of the values doubled. -/
def quoteOptions : List (Str × Str) → Str
  | [] => []
  | o :: l => quoteOption o ++ optionsTail l

/-- An id as an option. -/
def idOption (id : Option Str) : List (Str × Str) := (id.map fun i => (optId, i)).toList

/-- The options with the id, if there is one, in front. -/
def quoteParams (id : Option Str) (pairs : List (Str × Str)) : Str :=
  quoteOptions (idOption id ++ pairs)

/-- A name that `get_opt_name` reads whole. -/
structure IsName (n : Str) : Prop where
  nonempty : n ≠ []
  short : n.length < 128
  noComma : comma ∉ n
  noEquals : equals ∉ n
  noNul : 0 ∉ n

/-- A value that `get_opt_value` reads whole. -/
structure IsValue (v : Str) : Prop where
  short : v.length < 1024
  noNul : 0 ∉ v

/-- `",id="` -/
def idMark : Str := comma :: (optId ++ [equals])

/-- The option that a pair makes where the list has no descriptions. -/
def optOf (o : Str × Str) : QemuOpt where
  name := o.1
  str := some o.2
  desc := none
  value := none

/-- The options with exactly this id and these pairs. -/
def optsOf (id : Option Str) (pairs : List (Str × Str)) : QemuOpts where
  id := id
  head := pairs.map optOf

/-- The id is not in use; without an id, no value has the mark of one. -/
def ReadsBack (list : QemuOptsList) (pairs : List (Str × Str)) : Option Str → Prop
  | some i => ∀ opts ∈ list.head, opts.id ≠ some i
  | none => ∀ o ∈ pairs, ¬idMark <:+: o.2

section

variable {n v s pat rest : Str} {c x : Byte} {o : Str × Str} {l pairs : List (Str × Str)}
  {libc : OptLibc} {list : QemuOptsList} {implied : Option Str} {opts : QemuOpts}

theorem isName_id : IsName optId := by
  constructor <;> decide

/-! ### Searches -/

theorem idxOf?_append_self (h : x ∉ n) (l : Str) : (n ++ x :: l).idxOf? x = some n.length := by
  induction n with
  | nil => simp [List.idxOf?, List.findIdx?_cons]
  | cons c n ih =>
    obtain ⟨hc, hn⟩ : x ≠ c ∧ x ∉ n := by rwa [List.mem_cons, not_or] at h
    have hbeq : (c == x) = false := beq_false_of_ne (Ne.symm hc)
    have hrest : List.findIdx? (· == x) (n ++ x :: l) = some n.length := ih hn
    rw [List.cons_append, List.idxOf?, List.findIdx?_cons, hbeq, hrest]
    rfl

theorem le_idxOf?_append (h : x ∉ n) {l : Str} {i : Nat} (hi : i ∈ (n ++ l).idxOf? x) :
    n.length ≤ i := by
  induction n generalizing i with
  | nil => exact Nat.zero_le i
  | cons c n ih =>
    obtain ⟨hc, hn⟩ : x ≠ c ∧ x ∉ n := by rwa [List.mem_cons, not_or] at h
    have hbeq : (c == x) = false := beq_false_of_ne (Ne.symm hc)
    rw [List.cons_append, List.idxOf?, List.findIdx?_cons, hbeq] at hi
    obtain ⟨j, hj, rfl⟩ := Option.map_eq_some_iff.mp hi
    exact Nat.succ_le_succ (ih hn hj)

/-- `strstr` fails where the pattern is not. -/
theorem strstr_eq_none_iff (hpat : pat ≠ []) : strstr pat s = none ↔ ¬pat <:+: s := by
  induction s with
  | nil =>
    rw [strstr, if_neg hpat]
    exact ⟨fun _ h => hpat (List.infix_nil.mp h), fun _ => rfl⟩
  | cons c s ih =>
    rw [strstr, List.infix_cons_iff, startsWith]
    split_ifs with h
    · have hprefix := List.isPrefixOf_iff_prefix.mp h
      exact ⟨fun hs => (by cases hs), fun hn => absurd (Or.inl hprefix) hn⟩
    · rw [ih, not_or]
      exact ⟨fun hn => ⟨fun hp => h (List.isPrefixOf_iff_prefix.mpr hp), hn⟩, And.right⟩

/-- A word up to a delimiter is in front of a text with the delimiter if it is the first word of
    it. -/
theorem prefix_word (hs : x ∉ s) (hn : x ∉ n) (l : Str) : s ++ [x] <+: n ++ x :: l ↔ s = n := by
  induction s generalizing n with
  | nil =>
    cases n with
    | nil => exact ⟨fun _ => rfl, fun _ => ⟨l, rfl⟩⟩
    | cons c n =>
      rw [List.nil_append, List.cons_append, List.cons_prefix_cons]
      exact ⟨fun h => absurd (h.1 ▸ List.mem_cons_self) hn, fun h => by cases h⟩
  | cons a s ih =>
    obtain ⟨ha, hs⟩ : x ≠ a ∧ x ∉ s := by rwa [List.mem_cons, not_or] at hs
    cases n with
    | nil =>
      rw [List.cons_append, List.nil_append, List.cons_prefix_cons]
      exact ⟨fun h => absurd h.1.symm ha, fun h => by cases h⟩
    | cons c n =>
      obtain ⟨-, hn⟩ : x ≠ c ∧ x ∉ n := by rwa [List.mem_cons, not_or] at hn
      rw [List.cons_append, List.cons_append, List.cons_prefix_cons, ih hs hn, List.cons.injEq]

/-! ### Reading a text back -/

theorem stops_optionsTail (h : ∀ o ∈ l, IsName o.1) : Stops comma (optionsTail l) := by
  cases l with
  | nil => exact fun c l hl => by cases hl
  | cons o l =>
    intro c t hl
    obtain ⟨rfl, rfl⟩ := List.cons.inj hl
    refine ⟨rfl, fun hhead => ?_⟩
    have hname := h o List.mem_cons_self
    obtain ⟨c, n, hn⟩ := List.exists_cons_of_ne_nil hname.nonempty
    rw [quoteOption, hn] at hhead
    refine hname.noComma ?_
    rw [hn, ← Option.some.inj hhead]
    exact List.mem_cons_self

/-- A name is read up to its `=`. -/
theorem getOptName_word (hn : IsName n) (l : Str) :
    getOptName 128 (n ++ equals :: l) equals = (n, equals :: l) := by
  have hall : ∀ c ∈ n, decide (c ≠ equals) = true := fun c hc =>
    decide_eq_true fun heq => hn.noEquals (heq ▸ hc)
  have hstop : decide (equals ≠ equals) = false := rfl
  rw [getOptName, List.takeWhile_append_of_pos hall, List.dropWhile_append_of_pos hall,
    List.takeWhile_cons_of_neg (by rw [hstop]; exact Bool.false_ne_true),
    List.dropWhile_cons_of_neg (by rw [hstop]; exact Bool.false_ne_true), List.append_nil,
    List.take_of_length_le (Nat.le_of_lt_succ hn.short)]

theorem getOptValue_doubled (hv : IsValue v) (h : Stops comma rest) :
    getOptValue 1024 (doubled comma v ++ rest) = (v, rest) := by
  rw [getOptValue, readDoubled_doubled h]
  exact Prod.ext (List.take_of_length_le (Nat.le_of_lt_succ hv.short)) rfl

/-- **An option.** -/
theorem optionText_quote (hn : IsName o.1) (hv : IsValue o.2) (h : Stops comma rest) :
    optionText implied (quoteOption o ++ rest) =
      some { option := o.1, value := o.2, rest := rest } := by
  have htext : quoteOption o ++ rest = o.1 ++ equals :: (doubled comma o.2 ++ rest) :=
    List.append_assoc ..
  have hequals := idxOf?_append_self hn.noEquals (doubled comma o.2 ++ rest)
  rw [htext, optionText, if_neg, assignedOption, getOptName_word hn]
  · dsimp only
    rw [if_neg (not_not_intro rfl), getOptValue_doubled hv h]
  · rw [hequals]
    rintro (hnone | ⟨e, he, c, hc, hlt⟩)
    · cases hnone
    · obtain rfl := Option.some.inj he
      -- the first comma is behind the name
      exact absurd (le_idxOf?_append hn.noComma hc) (Nat.not_le.mpr hlt)

theorem qemuOptSet_free (hlist : list.desc = []) (opts : QemuOpts) (o : Str × Str) :
    qemuOptSet libc list opts o.1 (some o.2) =
      some { opts with head := opts.head ++ [optOf o] } := by
  rw [qemuOptSet, hlist, if_neg fun h => h.2 rfl]
  rfl

/-- A round of the loop. -/
theorem doParseLoop_round {p : Str} {t : OptionText} {opts' : QemuOpts} (hp : p ≠ [])
    (ht : optionText implied p = some t)
    (hset : (if t.option ≠ optId then qemuOptSet libc list opts t.option (some t.value)
      else some opts) = some opts') :
    doParseLoop libc list implied opts p =
      match t.rest with
      | [] => some opts'
      | c :: p => if c ≠ comma then some opts' else doParseLoop libc list none opts' p := by
  rw [doParseLoop, if_neg hp]
  split
  · rename_i hnone
    rw [ht] at hnone
    cases hnone
  · rename_i t' ht'
    obtain rfl := Option.some.inj (ht.symm.trans ht')
    dsimp only
    rw [hset]
    cases hrest : t.rest <;> rfl

theorem quoteOption_ne_nil (o : Str × Str) (rest : Str) : quoteOption o ++ rest ≠ [] := by
  simp [quoteOption]

/-- **The text of some options.**  All but the id are stored. -/
theorem doParseLoop_quote (hlist : list.desc = []) (hl : ∀ o ∈ l, IsName o.1 ∧ IsValue o.2) :
    doParseLoop libc list implied opts (quoteOptions l) =
      some { opts with head := opts.head ++ (l.filter fun o => o.1 ≠ optId).map optOf } := by
  induction l generalizing implied opts with
  | nil =>
    rw [quoteOptions, doParseLoop, if_pos rfl, List.filter_nil, List.map_nil, List.append_nil]
  | cons o l ih =>
    obtain ⟨⟨hn, hv⟩, hrest⟩ := List.forall_mem_cons.mp hl
    have hstops := stops_optionsTail fun o ho => (hrest o ho).1
    have hset : (if o.1 ≠ optId then qemuOptSet libc list opts o.1 (some o.2) else some opts) =
        some { opts with head := opts.head ++ ([o].filter fun o => o.1 ≠ optId).map optOf } := by
      by_cases hid : o.1 = optId
      · rw [if_neg (not_not_intro hid)]
        simp [hid]
      · rw [if_pos hid, qemuOptSet_free hlist]
        simp [hid]
    rw [quoteOptions, doParseLoop_round (quoteOption_ne_nil o _) (optionText_quote hn hv hstops)
      hset]
    cases l with
    | nil => rfl
    | cons o' l =>
      have hsplit : o :: o' :: l = [o] ++ (o' :: l) := rfl
      rw [hsplit, List.filter_append, List.map_append, ← List.append_assoc]
      exact ih hrest

/-! ### The id -/

/-- An id in front is the one that `strstr` or the test of the first three characters finds. -/
theorem findId_idOption {i : Str} (hi : IsValue i) (h : ∀ o ∈ pairs, IsName o.1) :
    findId (quoteParams (some i) pairs) = some i := by
  have htext : quoteParams (some i) pairs =
      (optId ++ [equals]) ++ (doubled comma i ++ optionsTail pairs) :=
    List.append_assoc ..
  have hstart : startsWith (optId ++ [equals]) (quoteParams (some i) pairs) = true := by
    rw [htext]
    exact List.isPrefixOf_iff_prefix.mpr (List.prefix_append ..)
  rw [findId, if_pos hstart, htext, List.drop_left' (show (optId ++ [equals]).length = 3 from rfl),
    getOptValue_doubled hi (stops_optionsTail h)]

theorem not_prefix_quoteOption (hn : IsName o.1) (hid : o.1 ≠ optId) (rest : Str) :
    ¬optId ++ [equals] <+: quoteOption o ++ rest := by
  have htext : quoteOption o ++ rest = o.1 ++ equals :: (doubled comma o.2 ++ rest) :=
    List.append_assoc ..
  rw [htext, prefix_word (by decide) hn.noEquals]
  exact Ne.symm hid

/-- The mark of an id is in a text of options if it is in a value. -/
theorem infix_quoteOption (hn : IsName o.1) (h : Stops comma rest) :
    idMark <:+: quoteOption o ++ rest ↔ idMark <:+: o.2 ∨ idMark <:+: rest := by
  have htext : quoteOption o ++ rest = (o.1 ++ [equals]) ++ (doubled comma o.2 ++ rest) := by
    simp [quoteOption]
  have hfront : comma ∉ o.1 ++ [equals] := by
    rw [List.mem_append, not_or]
    exact ⟨hn.noComma, by decide⟩
  have hinfix : idMark <:+: (o.1 ++ [equals]) ++ (doubled comma o.2 ++ rest) ↔
      idMark <:+: doubled comma o.2 ++ rest := infix_append_of_notMem hfront _
  rw [htext]
  exact hinfix.trans (infix_doubled (by decide) (by decide) h)

/-- The mark of an id is in the other options if it is in a value of theirs. -/
theorem infix_optionsTail (h : ∀ o ∈ l, IsName o.1 ∧ o.1 ≠ optId) :
    idMark <:+: optionsTail l ↔ ∃ o ∈ l, idMark <:+: o.2 := by
  induction l with
  | nil =>
    refine ⟨fun h => absurd (List.infix_nil.mp h) (List.cons_ne_nil _ _), ?_⟩
    rintro ⟨o, ho, -⟩
    cases ho
  | cons o l ih =>
    obtain ⟨⟨hn, hid⟩, hrest⟩ := List.forall_mem_cons.mp h
    have hstart : ¬idMark <+: comma :: (quoteOption o ++ optionsTail l) := fun hp =>
      not_prefix_quoteOption hn hid _ (List.cons_prefix_cons.mp hp).2
    rw [optionsTail, List.infix_cons_iff, or_iff_right hstart,
      infix_quoteOption hn (stops_optionsTail fun o ho => (hrest o ho).1), ih hrest]
    exact (List.exists_mem_cons_iff (fun o => idMark <:+: o.2) o l).symm

/-- **Searching the id.**  None is found where no value has the mark of one. -/
theorem findId_eq_none_iff (h : ∀ o ∈ pairs, IsName o.1 ∧ o.1 ≠ optId) :
    findId (quoteOptions pairs) = none ↔ ∀ o ∈ pairs, ¬idMark <:+: o.2 := by
  cases pairs with
  | nil => exact ⟨fun _ o ho => (by cases ho), fun _ => rfl⟩
  | cons o l =>
    obtain ⟨⟨hn, hid⟩, hrest⟩ := List.forall_mem_cons.mp h
    have hstart := not_prefix_quoteOption hn hid (optionsTail l)
    have hsearch : idMark <:+: quoteOptions (o :: l) ↔ ∃ o' ∈ o :: l, idMark <:+: o'.2 := by
      rw [quoteOptions, infix_quoteOption hn (stops_optionsTail fun o ho => (hrest o ho).1),
        infix_optionsTail hrest]
      exact (List.exists_mem_cons_iff (fun o => idMark <:+: o.2) o l).symm
    have hnone : strstr idMark (quoteOptions (o :: l)) = none ↔ _ := strstr_eq_none_iff (by decide)
    have hfirst : ¬startsWith (optId ++ [equals]) (quoteOptions (o :: l)) = true := fun h =>
      hstart (List.isPrefixOf_iff_prefix.mp h)
    rw [findId, if_neg hfirst, Option.map_eq_none_iff]
    rw [hsearch] at hnone
    exact hnone.trans (by push Not; rfl)

/-! ### Parsing -/

theorem qemuOptsCreate_some (i : Str) : qemuOptsCreate list (some i) =
    if ∃ opts ∈ list.head, opts.id = some i then none else some { id := some i, head := [] } := by
  have hfind : (qemuOptsFind list i).isSome = true ↔ ∃ opts ∈ list.head, opts.id = some i := by
    simp [qemuOptsFind, List.find?_isSome]
  rw [qemuOptsCreate]
  exact if_congr hfind rfl rfl

/-- The options that a text comes to. -/
theorem qemuOptsParse_quote (hlist : list.desc = []) (id : Option Str)
    (hid : ∀ i ∈ id, IsValue i) (hpairs : ∀ o ∈ pairs, IsName o.1 ∧ o.1 ≠ optId ∧ IsValue o.2)
    (firstname : Option Str) :
    qemuOptsParse libc list (quoteParams id pairs) firstname =
      match qemuOptsCreate list (findId (quoteParams id pairs)) with
      | none => (list, none)
      | some opts =>
        let made := { opts with head := opts.head ++ pairs.map optOf }
        ({ list with head := list.head ++ [made] }, some made) := by
  have hall : ∀ o ∈ idOption id ++ pairs, IsName o.1 ∧ IsValue o.2 := by
    intro o ho
    rcases List.mem_append.mp ho with ho | ho
    · obtain ⟨i, hi, rfl⟩ : ∃ i ∈ id, (optId, i) = o := by
        simpa [idOption] using ho
      exact ⟨isName_id, hid i hi⟩
    · exact ⟨(hpairs o ho).1, (hpairs o ho).2.2⟩
  have hkept : (idOption id ++ pairs).filter (fun o => o.1 ≠ optId) = pairs := by
    rw [List.filter_append, List.filter_eq_self.mpr fun o ho => decide_eq_true (hpairs o ho).2.1]
    cases id <;> simp [idOption]
  unfold qemuOptsParse
  cases qemuOptsCreate list (findId (quoteParams id pairs)) with
  | none => rfl
  | some opts =>
    have hparse : qemuOptsDoParse libc list opts (quoteParams id pairs) firstname = _ :=
      doParseLoop_quote hlist hall
    rw [hkept] at hparse
    dsimp only
    rw [hparse]

/-- **Parsing options.**  A text makes the options it was written for if and only if it has an id
    that is not in use, or none, and no value has ",id=" in it. -/
theorem qemu_opts_parse_pairs (libc : OptLibc) (list : QemuOptsList) (hlist : list.desc = [])
    (firstname : Option Str) (id : Option Str) (hid : ∀ i ∈ id, IsValue i)
    (pairs : List (Str × Str)) (hpairs : ∀ o ∈ pairs, IsName o.1 ∧ o.1 ≠ optId ∧ IsValue o.2) :
    qemuOptsParse libc list (quoteParams id pairs) firstname =
        ({ list with head := list.head ++ [optsOf id pairs] }, some (optsOf id pairs)) ↔
      ReadsBack list pairs id := by
  rw [qemuOptsParse_quote hlist id hid hpairs]
  cases id with
  | some i =>
    rw [findId_idOption (hid i rfl) fun o ho => (hpairs o ho).1, qemuOptsCreate_some]
    by_cases hused : ∃ opts ∈ list.head, opts.id = some i
    · rw [if_pos hused]
      obtain ⟨opts, hopts, heq⟩ := hused
      exact ⟨fun h => (by cases (Prod.ext_iff.mp h).2), fun h => absurd heq (h opts hopts)⟩
    · rw [if_neg hused]
      exact ⟨fun _ opts hopts heq => hused ⟨opts, hopts, heq⟩, fun _ => rfl⟩
  | none =>
    have hnames : ∀ o ∈ pairs, IsName o.1 ∧ o.1 ≠ optId := fun o ho =>
      ⟨(hpairs o ho).1, (hpairs o ho).2.1⟩
    have hfind : findId (quoteParams none pairs) = none ↔ ReadsBack list pairs none :=
      findId_eq_none_iff hnames
    rw [← hfind]
    cases hid : findId (quoteParams none pairs) with
    | none => exact ⟨fun _ => rfl, fun _ => rfl⟩
    | some i =>
      -- the options have an id that was not given, or there are none
      refine ⟨fun h => ?_, fun h => (by cases h)⟩
      rw [qemuOptsCreate_some] at h
      split_ifs at h
      · cases (Prod.ext_iff.mp h).2
      · have hopts := Option.some.inj (Prod.ext_iff.mp h).2
        cases congrArg QemuOpts.id hopts

end

/-! ### Samples -/

/-- A C library whose numbers are all zero. -/
def sampleLibc : OptLibc where
  strtoull := fun s => (0, s)
  size := fun _ => none

/-- A list without descriptions, with no options yet. -/
def emptyList : QemuOptsList where
  name := str ['d', 'r', 'i', 'v', 'e']
  head := []
  desc := []

/-- `file` is "a,b=c". -/
def filePair : Str × Str := (str ['f', 'i', 'l', 'e'], str ['a', ',', 'b', '=', 'c'])

/-- A value with a comma, behind an id. -/
theorem qemu_opts_parse_pairs_comma :
    qemuOptsParse sampleLibc emptyList (quoteParams (some (str ['d', '0'])) [filePair]) none =
      ({ emptyList with head := [optsOf (some (str ['d', '0'])) [filePair]] },
        some (optsOf (some (str ['d', '0'])) [filePair])) := by
  refine (qemu_opts_parse_pairs sampleLibc emptyList rfl none (some (str ['d', '0'])) ?_ [filePair]
    ?_).mpr fun opts h => (by cases h)
  · intro i hi
    obtain rfl := Option.some.inj hi
    constructor <;> decide
  · intro o ho
    obtain rfl := List.mem_singleton.mp ho
    exact ⟨by constructor <;> decide, by decide, by constructor <;> decide⟩

/-- `file` is "a,id=b". -/
def markedPair : Str × Str :=
  (str ['f', 'i', 'l', 'e'], str ['a', ',', 'i', 'd', '=', 'b'])

/-- The options get an id that was not given. -/
theorem qemu_opts_parse_finds_id :
    qemuOptsParse sampleLibc emptyList (quoteParams none [markedPair]) none =
        ({ emptyList with head := [optsOf (some (str ['b'])) [markedPair]] },
          some (optsOf (some (str ['b'])) [markedPair])) ∧
      qemuOptsParse sampleLibc emptyList (quoteParams none [markedPair]) none ≠
        ({ emptyList with head := [optsOf none [markedPair]] },
          some (optsOf none [markedPair])) := by
  have hparse : qemuOptsParse sampleLibc emptyList (quoteParams none [markedPair]) none =
      ({ emptyList with head := [optsOf (some (str ['b'])) [markedPair]] },
        some (optsOf (some (str ['b'])) [markedPair])) := by
    have hfind : findId (quoteParams none [markedPair]) = some (str ['b']) := by decide
    rw [qemuOptsParse_quote rfl none (fun i hi => (by cases hi)) fun o ho => ?_, hfind]
    · rfl
    · obtain rfl := List.mem_singleton.mp ho
      exact ⟨by constructor <;> decide, by decide, by constructor <;> decide⟩
  refine ⟨hparse, fun h => ?_⟩
  have hopts := Option.some.inj (Prod.ext_iff.mp (hparse.symm.trans h)).2
  cases congrArg QemuOpts.id hopts

end Qemu.Opts
