import Qemu.Lib.Precopy
import Qemu.Migration.RamSave

namespace Qemu.Migration

open Lib

/-!
# The destination's RAM after a migration

* `RamRecord` — the stream as a list of records, and what each does to the destination;
* `BlockFits` — releasing the host's memory of a page that holds zeroes harms no other page;
* `Migrating`, `RoundEnd` — the invariant: the destination, with the stream so far, agrees with the
  source on all pages that are not dirty;
* `ram_migrates` — after stage 3 the destination has the source's RAM.
-/

section

variable {cfg : RamConfig}

/-! ### Pages -/

theorem RamConfig.pageSize_pos (cfg : RamConfig) : 0 < cfg.pageSize := Nat.two_pow_pos _

theorem RamConfig.four_dvd (cfg : RamConfig) : 4 ∣ cfg.pageSize :=
  Nat.pow_dvd_pow 2 (show 2 ≤ cfg.targetPageBits from Nat.le_trans (by decide) cfg.flag_bits)

theorem append_inj {v w : Nat} {a b : BitVec v} {c d : BitVec w} (h : a ++ c = b ++ d) :
    a = b ∧ c = d := by
  have hleft := congrArg (BitVec.extractLsb' w v) h
  have hright := congrArg (BitVec.extractLsb' 0 w) h
  rw [BitVec.extractLsb'_append_eq_left, BitVec.extractLsb'_append_eq_left] at hleft
  rw [BitVec.extractLsb'_append_eq_right, BitVec.extractLsb'_append_eq_right] at hright
  exact ⟨hleft, hright⟩

/-- All bytes of such a page are the same. -/
theorem isDupPage_eq {ch : Byte} {page : List Byte} (h : isDupPage ch page = true)
    (hlen : 4 ∣ page.length) : ∀ b ∈ page, b = ch := by
  fun_induction isDupPage ch page with
  | case1 b₀ b₁ b₂ b₃ array ih =>
    obtain ⟨hword, harray⟩ := Bool.and_eq_true_iff.mp h
    obtain ⟨hword, rfl⟩ := append_inj (of_decide_eq_true hword)
    obtain ⟨hword, rfl⟩ := append_inj hword
    obtain ⟨rfl, rfl⟩ := append_inj hword
    have hrest := ih harray ((Nat.dvd_add_left (Nat.dvd_refl 4)).mp hlen)
    simpa only [List.forall_mem_cons, true_and] using hrest
  | case2 page hshort =>
    have hnil : page = [] := by
      rcases page with _ | ⟨b₀, _ | ⟨b₁, _ | ⟨b₂, _ | ⟨b₃, array⟩⟩⟩⟩
      · rfl
      · exact absurd hlen (show ¬4 ∣ 1 by decide)
      · exact absurd hlen (show ¬4 ∣ 2 by decide)
      · exact absurd hlen (show ¬4 ∣ 3 by decide)
      · exact absurd rfl (hshort b₀ b₁ b₂ b₃ array)
    rw [hnil]
    exact fun b hb => absurd hb List.not_mem_nil

theorem mem_page (ram : Nat → Byte) (addr : Nat) :
    ram addr ∈ cfg.page ram (addr / cfg.pageSize) := by
  refine List.mem_map.mpr ⟨addr % cfg.pageSize, ?_, ?_⟩
  · exact List.mem_range.mpr (Nat.mod_lt _ cfg.pageSize_pos)
  · rw [Nat.mul_comm, Nat.div_add_mod]

theorem div_pageSize (addr page : Nat) : addr / cfg.pageSize = page ↔
    page * cfg.pageSize ≤ addr ∧ addr < page * cfg.pageSize + cfg.pageSize := by
  have hpos := cfg.pageSize_pos
  rw [Nat.div_eq_iff hpos]
  omega

theorem storeAt_page (ram ram' : Nat → Byte) (page addr : Nat) :
    storeAt ram (page * cfg.pageSize) (cfg.page ram' page) addr =
      if addr / cfg.pageSize = page then ram' addr else ram addr := by
  rw [RamConfig.page, storeAt_bytesAt]
  simp only [div_pageSize addr page]

/-! ### Records -/

/-- What one turn of the loop reads. -/
inductive RamRecord
  | memSize
  | dup (page : Nat) (ch : Byte)
  | full (page : Nat) (bytes : List Byte)

/-- The bytes of a record. -/
def RamRecord.bytes (cfg : RamConfig) : RamRecord → List Byte
  | .memSize => putBe64 (ramWord cfg cfg.lastPage RAM_SAVE_FLAG_MEM_SIZE)
  | .dup page ch => putBe64 (ramWord cfg page RAM_SAVE_FLAG_COMPRESS) ++ putByte ch
  | .full page bytes => putBe64 (ramWord cfg page RAM_SAVE_FLAG_PAGE) ++ bytes

/-- What it does to the memory. -/
def RamRecord.apply (cfg : RamConfig) (ram : Nat → Byte) : RamRecord → Nat → Byte
  | .memSize => ram
  | .dup page ch =>
    if ch = 0 ∧ cfg.releases then cfg.dontNeed (cfg.fill ram page ch) page else cfg.fill ram page ch
  | .full page bytes => storeAt ram (page * cfg.pageSize) bytes

/-- It is of a page that exists, and has all of its bytes. -/
def RamRecord.Ok (cfg : RamConfig) : RamRecord → Prop
  | .memSize => True
  | .dup page _ => page < cfg.lastPage
  | .full page bytes => page < cfg.lastPage ∧ bytes.length = cfg.pageSize

theorem flag_lt (cfg : RamConfig) : 32 ≤ cfg.pageSize :=
  Nat.pow_le_pow_right Nat.two_pos cfg.flag_bits

/-- An address and flags are one word, which does not wrap. -/
theorem ramWord_toNat {page flags : Nat} (hpage : page ≤ cfg.lastPage) (hflags : flags < 32) :
    (ramWord cfg page flags).toNat = page * cfg.pageSize + flags := by
  have hlt : flags < 2 ^ cfg.targetPageBits := Nat.lt_of_lt_of_le hflags (flag_lt cfg)
  have hbound : page * cfg.pageSize < 2 ^ 64 :=
    Nat.lt_of_le_of_lt (Nat.mul_le_mul_right _ hpage) cfg.offset_lt
  -- both sides are multiples of 32
  obtain ⟨m, hm⟩ : 32 ∣ cfg.pageSize := Nat.pow_dvd_pow 2 cfg.flag_bits
  have hmul : page * cfg.pageSize = 32 * (page * m) := by rw [hm, Nat.mul_left_comm]
  rw [ramWord, ← Nat.shiftLeft_add_eq_or_of_lt hlt, Nat.shiftLeft_eq, BitVec.toNat_ofNat]
  exact Nat.mod_eq_of_lt (show page * cfg.pageSize + flags < 2 ^ 64 by omega)

theorem ramWord_mod {page flags : Nat} (hpage : page ≤ cfg.lastPage) (hflags : flags < 32) :
    (ramWord cfg page flags).toNat % cfg.pageSize = flags := by
  rw [ramWord_toNat hpage hflags, Nat.mul_add_mod_self_right,
    Nat.mod_eq_of_lt (Nat.lt_of_lt_of_le hflags (flag_lt cfg))]

theorem ramWord_div {page flags : Nat} (hpage : page ≤ cfg.lastPage) (hflags : flags < 32) :
    (ramWord cfg page flags).toNat / cfg.pageSize = page := by
  rw [ramWord_toNat hpage hflags, Nat.mul_comm, Nat.mul_add_div cfg.pageSize_pos,
    Nat.div_eq_of_lt (Nat.lt_of_lt_of_le hflags (flag_lt cfg)), Nat.add_zero]

theorem ramBlock_some {blocks : List Nat} {page : Nat} (h : page < blocks.sum) :
    ∃ b, ramBlock blocks page = some b := by
  induction blocks generalizing page with
  | nil => exact absurd h (Nat.not_lt_zero page)
  | cons length blocks ih =>
    unfold ramBlock
    split_ifs with hlt
    · exact ⟨_, rfl⟩
    · rw [List.sum_cons] at h
      obtain ⟨b, hb⟩ := ih (show page - length < blocks.sum by omega)
      rw [hb]
      exact ⟨_, rfl⟩

/-- Different pages are at different places. -/
theorem ramBlock_inj {blocks : List Nat} {p q : Nat} (hp : p < blocks.sum)
    (h : ramBlock blocks p = ramBlock blocks q) : p = q := by
  induction blocks generalizing p q with
  | nil => exact absurd hp (Nat.not_lt_zero p)
  | cons length blocks ih =>
    rw [List.sum_cons] at hp
    unfold ramBlock at h
    by_cases hlt : p < length
    · rw [if_pos hlt] at h
      split_ifs at h with hlt'
      · exact congrArg Prod.snd (Option.some.inj h)
      · obtain ⟨b, -, hb⟩ := Option.map_eq_some_iff.mp h.symm
        exact absurd (congrArg Prod.fst hb) (Nat.succ_ne_zero b.1)
    · obtain ⟨b, hb⟩ := ramBlock_some (show p - length < blocks.sum by omega)
      rw [if_neg hlt, hb] at h
      split_ifs at h with hlt'
      · exact absurd (congrArg Prod.fst (Option.some.inj h)) (Nat.succ_ne_zero b.1)
      · obtain ⟨c, hc, hbc⟩ := Option.map_eq_some_iff.mp h.symm
        obtain ⟨hfst, hsnd⟩ := Prod.mk.inj hbc
        have hcb : c = b := Prod.ext (Nat.succ.inj hfst) hsnd
        have hpq : p - length = q - length := ih (by omega) (by rw [hb, hc, hcb])
        omega

theorem hostPage_inj (heq : cfg.hostPageBits = cfg.targetPageBits) {p q : Nat}
    (hp : p < cfg.lastPage) (h : cfg.hostPage p = cfg.hostPage q) : p = q := by
  refine ramBlock_inj hp ?_
  unfold RamConfig.hostPage at h
  rw [heq, Nat.sub_self] at h
  simpa only [Nat.pow_zero, Nat.div_one, Prod.mk.eta, Option.map_id'] using h

/-- One record that is loaded. -/
theorem ramLoadLoop_turn {flags page fuel : Nat} {ram ram' : Nat → Byte}
    {bs bs' : List Byte} {a : (Nat → Byte) × RamLoadStatus} (hpage : page ≤ cfg.lastPage)
    (hflags : flags < 32) (hsize : ¬(flags &&& RAM_SAVE_FLAG_MEM_SIZE ≠ 0 ∧ page ≠ cfg.lastPage))
    (hread : (ramLoadPage cfg flags page ram).Consumes bs (some ram'))
    (hrest : (if flags &&& RAM_SAVE_FLAG_EOS ≠ 0 then pure (ram', .ok)
      else ramLoadLoop cfg fuel ram' : Reader _).Consumes bs' a) :
    (ramLoadLoop cfg (fuel + 1) ram).Consumes 
      (putBe64 (ramWord cfg page flags) ++ (bs ++ bs')) a := by
  unfold ramLoadLoop
  refine (Reader.takes_be64 _).whole.bind ?_
  rw [ramWord_mod hpage hflags, ramWord_div hpage hflags, if_neg hsize]
  refine hread.bind ?_
  show Reader.Consumes _ ([] ++ bs') a
  refine Reader.takes_hasError.whole.bind ?_
  rw [if_neg Bool.false_ne_true]
  exact hrest

/-- A record is what a turn of the loop reads, and what it does. -/
theorem ramLoadLoop_record {r : RamRecord} (hr : r.Ok cfg) {fuel : Nat} {ram : Nat → Byte}
    {bs : List Byte} {a : (Nat → Byte) × RamLoadStatus}
    (h : (ramLoadLoop cfg fuel (r.apply cfg ram)).Consumes bs a) :
    (ramLoadLoop cfg (fuel + 1) ram).Consumes (r.bytes cfg ++ bs) a := by
  cases r with
  | memSize =>
    have hread : (ramLoadPage cfg RAM_SAVE_FLAG_MEM_SIZE cfg.lastPage ram).Consumes [] (some ram) :=
      Reader.Consumes.pure (some ram)
    exact ramLoadLoop_turn (Nat.le_refl _) (by decide) (fun hne => hne.2 rfl) hread h
  | dup page ch =>
    obtain ⟨b, hb⟩ := ramBlock_some hr
    rw [RamRecord.bytes, List.append_assoc]
    refine ramLoadLoop_turn (Nat.le_of_lt hr) (by decide) (fun hne => hne.1 rfl) ?_ h
    have hbyte := (Reader.takes_byte ch).map (g := fun ch =>
      (ramBlock cfg.blocks page).map fun _ =>
        if ch = 0 ∧ cfg.releases then cfg.dontNeed (cfg.fill ram page ch) page
        else cfg.fill ram page ch)
    rw [hb] at hbyte
    unfold ramLoadPage
    rw [if_pos (by decide), hb]
    exact hbyte.whole
  | full page bytes =>
    obtain ⟨hpage, hlen⟩ := hr
    obtain ⟨b, hb⟩ := ramBlock_some hpage
    rw [RamRecord.bytes, List.append_assoc]
    refine ramLoadLoop_turn (Nat.le_of_lt hpage) (by decide) (fun hne => hne.1 rfl) ?_ h
    have hbuffer := (Reader.takes_buffer bytes).map (g := fun bytes =>
      (ramBlock cfg.blocks page).map fun _ => storeAt ram (page * cfg.pageSize) bytes)
    rw [hb, hlen] at hbuffer
    unfold ramLoadPage
    rw [if_neg (show ¬(RAM_SAVE_FLAG_PAGE &&& RAM_SAVE_FLAG_COMPRESS ≠ 0) by decide),
      if_pos (by decide), hb]
    exact hbuffer.whole

theorem ramWord_eos (cfg : RamConfig) :
    BitVec.ofNat 64 RAM_SAVE_FLAG_EOS = ramWord cfg 0 RAM_SAVE_FLAG_EOS := by
  rw [ramWord, Nat.zero_shiftLeft, Nat.zero_or]

theorem ramLoadLoop_eos (fuel : Nat) (ram : Nat → Byte) :
    (ramLoadLoop cfg (fuel + 1) ram).Consumes (putBe64 (BitVec.ofNat 64 RAM_SAVE_FLAG_EOS))
      (ram, .ok) := by
  have hread : (ramLoadPage cfg RAM_SAVE_FLAG_EOS 0 ram).Consumes [] (some ram) :=
    Reader.Consumes.pure (some ram)
  rw [ramWord_eos cfg]
  refine @ramLoadLoop_turn cfg _ _ fuel _ _ _ [] _ (Nat.zero_le _) (by decide)
    (fun hne => hne.1 rfl) hread ?_
  exact Reader.Consumes.pure _

theorem RamRecord.bytes_pos (cfg : RamConfig) (r : RamRecord) : 0 < (r.bytes cfg).length := by
  have hword : ∀ w l, 0 < (putBe64 w ++ l).length := by
    intro w l
    rw [List.length_append]
    exact Nat.lt_of_lt_of_le (show 0 < (putBe64 w).length from Nat.le_of_ble_eq_true rfl)
      (Nat.le_add_right _ _)
  cases r with
  | memSize => exact Nat.le_of_ble_eq_true rfl
  | dup page ch => exact hword _ _
  | full page bytes => exact hword _ _

/-- The loop of `ram_load` and the records that it takes. -/
def ramReader (cfg : RamConfig) : SectionReader RamRecord (Nat → Byte) RamLoadStatus where
  loop := ramLoadLoop cfg
  done := .ok
  bytes := RamRecord.bytes cfg
  eos := putBe64 (BitVec.ofNat 64 RAM_SAVE_FLAG_EOS)
  apply := RamRecord.apply cfg
  Ok := RamRecord.Ok cfg
  bytes_pos := RamRecord.bytes_pos cfg
  loop_record hr h := ramLoadLoop_record hr h
  loop_eos := ramLoadLoop_eos

/-! ### The scan -/

/-- A scan that finds a page found it dirty. -/
theorem scanLoop_true {dirty : Nat → Bool} {lastPage savedPage left page : Nat} {currentPage : Nat}
    (h : scanLoop dirty lastPage savedPage left currentPage = (page, true)) :
    dirty page = true ∧ (page = currentPage ∨ page = page % lastPage) ∧ left ≠ 0 := by
  induction left generalizing currentPage with
  | zero => cases h
  | succ left ih =>
    unfold scanLoop at h
    split_ifs at h with hdirty
    · obtain rfl : currentPage = page := congrArg Prod.fst h
      exact ⟨hdirty, Or.inl rfl, Nat.succ_ne_zero left⟩
    · obtain ⟨hpage, hbound, -⟩ := ih h
      refine ⟨hpage, Or.inr ?_, Nat.succ_ne_zero left⟩
      obtain rfl | hbound := hbound
      · exact (Nat.mod_mod _ _).symm
      · exact hbound

/-- The pages that the loop has gone over without a result. -/
theorem scanLoop_false {dirty : Nat → Bool} {lastPage savedPage left page currentPage : Nat}
    (hleft : left ≤ lastPage) (hcurrent : currentPage = (savedPage + (lastPage - left)) % lastPage)
    (h : scanLoop dirty lastPage savedPage left currentPage = (page, false)) :
    page = (savedPage + lastPage) % lastPage ∧
      ∀ i < left, dirty ((savedPage + (lastPage - left) + i) % lastPage) = false := by
  induction left generalizing currentPage with
  | zero =>
    obtain rfl : currentPage = page := congrArg Prod.fst h
    exact ⟨hcurrent, fun i hi => absurd hi (Nat.not_lt_zero i)⟩
  | succ left ih =>
    unfold scanLoop at h
    split_ifs at h with hdirty
    · cases congrArg Prod.snd h
    · obtain ⟨hpage, hrest⟩ := ih (Nat.le_of_succ_le hleft) rfl h
      refine ⟨hpage, fun i hi => ?_⟩
      cases i with
      | zero =>
        rw [Nat.add_zero, ← hcurrent]
        exact Bool.eq_false_iff.mpr hdirty
      | succ i =>
        have hnext := hrest i (Nat.lt_of_succ_lt_succ hi)
        rwa [show savedPage + (lastPage - left) + i = savedPage + (lastPage - (left + 1)) + (i + 1)
          by omega] at hnext

/-- The page that the scan begins with: the static variable begins with 0, and stays below. -/
def RamState.Current (cfg : RamConfig) (s : RamState) : Prop :=
  s.currentPage = 0 ∨ s.currentPage < cfg.lastPage

theorem ramScan_true {s : RamState} {page : Nat} (hcurrent : s.Current cfg)
    (h : ramScan cfg s = (page, true)) : s.dirty page = true ∧ page < cfg.lastPage := by
  obtain ⟨hdirty, hpage, hne⟩ := scanLoop_true h
  have hpos : 0 < cfg.lastPage := Nat.pos_of_ne_zero hne
  refine ⟨hdirty, ?_⟩
  obtain rfl | hpage := hpage
  · obtain hzero | hlt := hcurrent
    · rwa [hzero]
    · exact hlt
  · rw [hpage]
    exact Nat.mod_lt page hpos

/-- The scan goes once around all pages. -/
theorem ramScan_false {s : RamState} {page : Nat} (hcurrent : s.Current cfg)
    (h : ramScan cfg s = (page, false)) :
    (page = 0 ∨ page < cfg.lastPage) ∧ ∀ p < cfg.lastPage, s.dirty p = false := by
  by_cases hzero : cfg.lastPage = 0
  · unfold ramScan at h
    rw [hzero] at h ⊢
    obtain rfl : s.currentPage = page := congrArg Prod.fst h
    refine ⟨?_, fun p hp => absurd hp (Nat.not_lt_zero p)⟩
    rwa [RamState.Current, hzero] at hcurrent
  have hpos : 0 < cfg.lastPage := Nat.pos_of_ne_zero hzero
  have hlt : s.currentPage < cfg.lastPage := by
    obtain heq | hlt := hcurrent
    · rwa [heq]
    · exact hlt
  have hstart : s.currentPage = (s.currentPage + (cfg.lastPage - cfg.lastPage)) % cfg.lastPage := by
    rw [Nat.sub_self, Nat.add_zero, Nat.mod_eq_of_lt hlt]
  obtain ⟨hpage, hclean⟩ := scanLoop_false (Nat.le_refl _) hstart h
  refine ⟨Or.inr (hpage ▸ Nat.mod_lt _ hpos), fun p hp => ?_⟩
  -- the distance of the page from the one that the scan begins with
  obtain ⟨i, hi, hmod⟩ : ∃ i < cfg.lastPage, (s.currentPage + i) % cfg.lastPage = p := by
    by_cases hle : s.currentPage ≤ p
    · refine ⟨p - s.currentPage, by omega, ?_⟩
      rw [Nat.add_sub_of_le hle, Nat.mod_eq_of_lt hp]
    · refine ⟨p + cfg.lastPage - s.currentPage, by omega, ?_⟩
      rw [Nat.add_sub_of_le (by omega), Nat.add_mod_right, Nat.mod_eq_of_lt hp]
  have hdirty := hclean i hi
  rwa [Nat.sub_self, Nat.add_zero, hmod] at hdirty

/-! ### What is sent -/

/-- A page that holds zeroes. -/
def ZeroPage (cfg : RamConfig) (ram : Nat → Byte) (page : Nat) : Prop :=
  ∀ addr, addr / cfg.pageSize = page → ram addr = 0

instance ZeroPage.decidable (cfg : RamConfig) (ram : Nat → Byte) (page : Nat) :
    Decidable (ZeroPage cfg ram page) :=
  decidable_of_iff (∀ i < cfg.pageSize, ram (page * cfg.pageSize + i) = 0) <| by
    constructor
    · rintro h addr rfl
      have hi := h (addr % cfg.pageSize) (Nat.mod_lt addr cfg.pageSize_pos)
      rwa [Nat.div_add_mod'] at hi
    · intro h i hi
      refine h _ ?_
      rw [Nat.mul_comm, Nat.mul_add_div cfg.pageSize_pos, Nat.div_eq_of_lt hi, Nat.add_zero]

/-- The page that is sent next does not make the destination release the memory of another one
that is not sent any more. -/
def BlockFits (cfg : RamConfig) (s : RamState) : Prop :=
  ∀ page, ramScan cfg s = (page, true) → cfg.releases = true → ZeroPage cfg s.ram page →
    ∀ p < cfg.lastPage, p ≠ page → cfg.hostPage p = cfg.hostPage page →
      s.dirty p = true ∨ ZeroPage cfg s.ram p

instance BlockFits.decidable (cfg : RamConfig) (s : RamState) : Decidable (BlockFits cfg s) :=
  decidable_of_iff ((ramScan cfg s).2 = true → cfg.releases = true →
      ZeroPage cfg s.ram (ramScan cfg s).1 → ∀ p < cfg.lastPage, p ≠ (ramScan cfg s).1 →
      cfg.hostPage p = cfg.hostPage (ramScan cfg s).1 → s.dirty p = true ∨ ZeroPage cfg s.ram p) <|
    by
      constructor
      · intro h page hscan
        have hfits := h (congrArg Prod.snd hscan)
        rwa [hscan] at hfits
      · intro h hscan
        exact h _ (Prod.ext rfl hscan)

/-- The record of a page. -/
def pageRecord (cfg : RamConfig) (ram : Nat → Byte) (page : Nat) : RamRecord :=
  if isDupPage ((cfg.page ram page).headD 0) (cfg.page ram page) then
    .dup page ((cfg.page ram page).headD 0)
  else .full page (cfg.page ram page)

theorem pageRecord_bytes (ram : Nat → Byte) (page : Nat) :
    (pageRecord cfg ram page).bytes cfg = ramPageBytes cfg ram page := by
  unfold pageRecord ramPageBytes
  dsimp only
  split_ifs
  · rfl
  · rfl

theorem pageRecord_ok (ram : Nat → Byte) {page : Nat} (h : page < cfg.lastPage) :
    (pageRecord cfg ram page).Ok cfg := by
  unfold pageRecord
  split_ifs
  · exact h
  · exact ⟨h, length_bytesAt ..⟩

/-- A page of one byte; where that is zero, the page of the host holds zeroes. -/
theorem apply_dup (dst : Nat → Byte) (page addr : Nat) (ch : Byte) :
    (RamRecord.dup page ch).apply cfg dst addr =
      if addr / cfg.pageSize = page then ch
      else if (ch = 0 ∧ cfg.releases = true) ∧
        cfg.hostPage (addr / cfg.pageSize) = cfg.hostPage page then 0
      else dst addr := by
  have hfill : cfg.fill dst page ch addr =
      if addr / cfg.pageSize = page then ch else dst addr := rfl
  unfold RamRecord.apply
  dsimp only
  by_cases hzero : ch = 0 ∧ cfg.releases = true
  · rw [if_pos hzero, RamConfig.dontNeed, hfill]
    by_cases hpage : addr / cfg.pageSize = page
    · rw [if_pos (congrArg cfg.hostPage hpage), if_pos hpage, hzero.1]
    · rw [if_neg hpage, if_neg hpage]
      simp only [hzero, true_and, and_self]
  · rw [if_neg hzero, hfill]
    simp only [hzero, false_and, if_false]

/-- The record brings the page, and may release the memory of others. -/
theorem pageRecord_apply (ram dst : Nat → Byte) (page addr : Nat) :
    ((pageRecord cfg ram page).apply cfg dst addr =
      if addr / cfg.pageSize = page then ram addr else dst addr) ∨
    (cfg.releases = true ∧ ZeroPage cfg ram page ∧ addr / cfg.pageSize ≠ page ∧
      cfg.hostPage (addr / cfg.pageSize) = cfg.hostPage page ∧
      (pageRecord cfg ram page).apply cfg dst addr = 0) := by
  unfold pageRecord
  by_cases hdup : isDupPage ((cfg.page ram page).headD 0) (cfg.page ram page) = true
  swap
  · rw [if_neg hdup, RamRecord.apply, storeAt_page]
    exact Or.inl rfl
  rw [if_pos hdup]
  -- all bytes of the page are the one that is sent
  have hbyte : ∀ a, a / cfg.pageSize = page → ram a = (cfg.page ram page).headD 0 := by
    rintro a rfl
    have hlen : (cfg.page ram (a / cfg.pageSize)).length = cfg.pageSize := length_bytesAt ..
    exact isDupPage_eq hdup (hlen.symm ▸ cfg.four_dvd) _ (mem_page ram a)
  generalize (cfg.page ram page).headD 0 = ch at hbyte
  rw [apply_dup]
  by_cases hpage : addr / cfg.pageSize = page
  · rw [if_pos hpage, if_pos hpage, hbyte addr hpage]
    exact Or.inl rfl
  · rw [if_neg hpage, if_neg hpage]
    split_ifs with hhost
    · obtain ⟨⟨rfl, hreleases⟩, hhost⟩ := hhost
      exact Or.inr ⟨hreleases, hbyte, hpage, hhost, rfl⟩
    · exact Or.inl rfl

/-! ### Rounds -/

/-- An address is in a dirty page, or behind the end of RAM. -/
def RamState.DirtyAddr (cfg : RamConfig) (s : RamState) (addr : Nat) : Prop :=
  s.dirty (addr / cfg.pageSize) = true ∨ cfg.lastPage ≤ addr / cfg.pageSize

/-- With the stream so far, the destination agrees with the source on all pages that are not
dirty. -/
structure Migrating (cfg : RamConfig) (dst : Nat → Byte) (n : Nat) (s : RamState) : Prop where
  current : s.Current cfg
  synced : ∃ ram, (ramReader cfg).Open dst n s.file ram ∧ Synced (s.DirtyAddr cfg) s.ram ram

/-- The same between two rounds, when the stream consists of whole sections. -/
structure RoundEnd (cfg : RamConfig) (dst : Nat → Byte) (n : Nat) (s : RamState) : Prop where
  current : s.Current cfg
  synced : ∃ ram, (ramReader cfg).Closed dst n s.file ram ∧ Synced (s.DirtyAddr cfg) s.ram ram

section

variable {dst : Nat → Byte} {n : Nat} {s s' : RamState}

theorem RoundEnd.migrating (h : RoundEnd cfg dst n s) : Migrating cfg dst n s := by
  obtain ⟨ram, hfile, hsynced⟩ := h.synced
  exact ⟨h.current, ram, hfile.open, hsynced⟩

theorem Migrating.eos (h : Migrating cfg dst n s) : RoundEnd cfg dst (n + 1)
    { s with file := s.file ++ putBe64 (BitVec.ofNat 64 RAM_SAVE_FLAG_EOS) } := by
  obtain ⟨ram, hfile, hsynced⟩ := h.synced
  exact ⟨h.current, ram, hfile.eos, hsynced⟩

/-- A page is sent. -/
theorem Migrating.block (h : Migrating cfg dst n s) (hfits : BlockFits cfg s)
    (hblock : ramSaveBlock cfg s = (s', true)) :
    Migrating cfg dst n s' ∧ ramSaveRemaining cfg s' < ramSaveRemaining cfg s := by
  unfold ramSaveBlock at hblock
  split at hblock
  · cases congrArg Prod.snd hblock
  rename_i page hscan
  obtain ⟨hdirty, hpage⟩ := ramScan_true h.current hscan
  obtain ⟨ram, hfile, hsynced⟩ := h.synced
  obtain rfl := congrArg Prod.fst hblock
  refine ⟨⟨Or.inr hpage, (pageRecord cfg s.ram page).apply cfg ram, ?_, ?_⟩,
    countP_update_lt (List.mem_range.mpr hpage) hdirty⟩
  · dsimp only
    rw [← pageRecord_bytes]
    exact hfile.record (pageRecord_ok s.ram hpage)
  · refine hsynced.send fun addr haddr => ?_
    obtain ⟨hclean, hin⟩ := not_or.mp haddr
    dsimp only at hclean
    obtain happly | ⟨hreleases, hzero, hne, hhost, happly⟩ := pageRecord_apply s.ram ram page addr
    · by_cases heq : addr / cfg.pageSize = page
      · exact Or.inl (happly.trans (if_pos heq))
      · rw [Function.update_of_ne heq] at hclean
        exact Or.inr ⟨not_or.mpr ⟨hclean, hin⟩, happly.trans (if_neg heq)⟩
    -- the memory of the page was released
    · rw [Function.update_of_ne hne] at hclean
      obtain hother | hother := hfits page hscan hreleases hzero _
        (Nat.lt_of_not_le hin) hne hhost
      · exact absurd hother hclean
      · exact Or.inl (happly.trans (hother addr rfl).symm)

theorem Migrating.noBlock (h : Migrating cfg dst n s) (hblock : ramSaveBlock cfg s = (s', false)) :
    Migrating cfg dst n s' ∧ ∀ page < cfg.lastPage, s'.dirty page = false := by
  unfold ramSaveBlock at hblock
  split at hblock
  · rename_i page hscan
    obtain ⟨hpage, hclean⟩ := ramScan_false h.current hscan
    obtain rfl := congrArg Prod.fst hblock
    exact ⟨⟨hpage, h.synced⟩, hclean⟩
  · cases congrArg Prod.snd hblock

end

/-- All blocks that a loop sends meet the condition. -/
def LoopFits (cfg : RamConfig) (limit : Nat → Bool) : Nat → Nat → RamState → Prop
  | 0, _, _ => True
  | fuel + 1, i, s =>
    limit i = false → BlockFits cfg s ∧ ∀ s', ramSaveBlock cfg s = (s', true) →
      LoopFits cfg limit fuel (i + 1)
        { s' with bytesTransferred := s'.bytesTransferred + cfg.pageSize }

instance LoopFits.decidable (cfg : RamConfig) (limit : Nat → Bool) :
    ∀ fuel i s, Decidable (LoopFits cfg limit fuel i s)
  | 0, _, _ => isTrue trivial
  | fuel + 1, i, s =>
    have := LoopFits.decidable cfg limit fuel (i + 1)
      { (ramSaveBlock cfg s).1 with
        bytesTransferred := (ramSaveBlock cfg s).1.bytesTransferred + cfg.pageSize }
    decidable_of_iff (limit i = false → BlockFits cfg s ∧ ((ramSaveBlock cfg s).2 = true →
        LoopFits cfg limit fuel (i + 1) { (ramSaveBlock cfg s).1 with
          bytesTransferred := (ramSaveBlock cfg s).1.bytesTransferred + cfg.pageSize })) <| by
      refine imp_congr_right fun _ => and_congr_right fun _ => ⟨fun h s' hs' => ?_, fun h hs => ?_⟩
      · have hrest := h (congrArg Prod.snd hs')
        rwa [hs'] at hrest
      · exact h _ (Prod.ext rfl hs)

/-- A loop ends at the rate limit or when no page is dirty; the bound of its turns is not met. -/
theorem saveLoop_migrating {dst : Nat → Byte} {n : Nat} {s : RamState} (h : Migrating cfg dst n s)
    {limit : Nat → Bool} {fuel i : Nat} (hfuel : ramSaveRemaining cfg s < fuel)
    (hfits : LoopFits cfg limit fuel i s) :
    ∃ s', saveLoop cfg limit fuel i s = some s' ∧ Migrating cfg dst n s' ∧
      ((∃ j, limit j = true) ∨ ∀ page < cfg.lastPage, s'.dirty page = false) := by
  induction fuel generalizing i s with
  | zero => exact absurd hfuel (Nat.not_lt_zero _)
  | succ fuel ih =>
    unfold saveLoop
    by_cases hlimit : limit i = true
    · rw [if_pos hlimit]
      exact ⟨s, rfl, h, Or.inl ⟨i, hlimit⟩⟩
    obtain ⟨hblockFits, hrest⟩ := hfits (Bool.eq_false_iff.mpr hlimit)
    rw [if_neg hlimit]
    cases hblock : ramSaveBlock cfg s with
    | mk s₁ found =>
      cases found with
      | false =>
        obtain ⟨h₁, hclean⟩ := h.noBlock hblock
        exact ⟨s₁, rfl, h₁, Or.inr hclean⟩
      | true =>
        obtain ⟨h₁, hlt⟩ := h.block hblockFits hblock
        have hcount : Migrating cfg dst n
            { s₁ with bytesTransferred := s₁.bytesTransferred + cfg.pageSize } :=
          ⟨h₁.current, h₁.synced⟩
        exact ih hcount (show ramSaveRemaining cfg s₁ < fuel by omega) (hrest s₁ hblock)

/-- The blocks of a round meet the condition. -/
def RoundFits (cfg : RamConfig) (stage : Int) (limit : Nat → Bool) (s : RamState) : Prop :=
  LoopFits cfg limit cfg.turns 0 (if stage = 1 then ramSaveSetup cfg s else s) ∧
    (stage = 3 → ∀ s', saveLoop cfg limit cfg.turns 0 s = some s' →
      LoopFits cfg (fun _ => false) cfg.turns 0 s')

instance RoundFits.decidable (cfg : RamConfig) (stage : Int) (limit : Nat → Bool) (s : RamState) :
    Decidable (RoundFits cfg stage limit s) :=
  inferInstanceAs (Decidable (_ ∧ (stage = 3 → ∀ s' ∈ saveLoop cfg limit cfg.turns 0 s,
    LoopFits cfg (fun _ => false) cfg.turns 0 s')))

section

variable {dst : Nat → Byte} {n : Nat} {s s' : RamState}

theorem ramSaveRemaining_lt (cfg : RamConfig) (s : RamState) :
    ramSaveRemaining cfg s < cfg.turns := by
  have hle := List.countP_le_length (p := s.dirty) (l := List.range cfg.lastPage)
  rw [List.length_range] at hle
  exact Nat.lt_succ_of_le hle

/-- After the first part every page is dirty. -/
theorem Migrating.setup (dst : Nat → Byte) (hcurrent : s.Current cfg) (hfile : s.file = []) :
    Migrating cfg dst 0 (ramSaveSetup cfg s) := by
  refine ⟨hcurrent, dst, ?_, ?_⟩
  · unfold ramSaveSetup
    dsimp only
    rw [hfile]
    have hopen : (ramReader cfg).Open dst 0 [] dst := (SectionReader.Closed.nil dst).open
    exact hopen.record (r := .memSize) trivial
  · refine Synced.of_dirty fun addr => ?_
    unfold RamState.DirtyAddr ramSaveSetup
    by_cases hpage : addr / cfg.pageSize < cfg.lastPage
    · exact Or.inl (by simp only [hpage, decide_true, Bool.true_or])
    · exact Or.inr (Nat.le_of_not_lt hpage)

/-- A store of the guest marks its page as dirty. -/
theorem RoundEnd.store (h : RoundEnd cfg dst n s) (addr : Nat) (value : Byte) :
    RoundEnd cfg dst n { s with
      ram := Function.update s.ram addr value
      dirty := Function.update s.dirty (addr / cfg.pageSize) true } := by
  obtain ⟨ram, hfile, hsynced⟩ := h.synced
  refine ⟨h.current, ram, hfile, hsynced.write fun a ha => ?_⟩
  obtain ⟨hclean, hin⟩ := not_or.mp ha
  dsimp only at hclean ⊢
  have hpage : a / cfg.pageSize ≠ addr / cfg.pageSize := by
    intro heq
    rw [heq, Function.update_self] at hclean
    exact hclean rfl
  rw [Function.update_of_ne hpage] at hclean
  refine ⟨not_or.mpr ⟨hclean, hin⟩, Function.update_of_ne ?_ _ _⟩
  rintro rfl
  exact hpage rfl

/-- A round adds a section to the stream, and stage 3 leaves no page dirty. -/
theorem ramSaveLive_roundEnd {stage : Int} {limit : Nat → Bool} (hstage : 0 ≤ stage)
    (h : Migrating cfg dst n (if stage = 1 then ramSaveSetup cfg s else s))
    (hfits : RoundFits cfg stage limit s) :
    ∃ s', ramSaveLive cfg stage limit s = some s' ∧ RoundEnd cfg dst (n + 1) s' ∧
      (stage = 3 → ∀ page < cfg.lastPage, s'.dirty page = false) := by
  obtain ⟨hloop, hlast⟩ := hfits
  obtain ⟨s₁, heq₁, h₁, -⟩ := saveLoop_migrating h (ramSaveRemaining_lt cfg _) hloop
  unfold ramSaveLive
  rw [if_neg (Int.not_lt.mpr hstage), heq₁, Option.bind_some]
  by_cases hthree : stage = 3
  · rw [if_neg (by omega)] at heq₁
    obtain ⟨s₂, heq₂, h₂, hend⟩ :=
      saveLoop_migrating h₁ (ramSaveRemaining_lt cfg _) (hlast hthree s₁ heq₁)
    have hstop : Migrating cfg dst n { s₂ with tracking := false } := ⟨h₂.current, h₂.synced⟩
    rw [if_pos hthree, heq₂]
    refine ⟨_, rfl, hstop.eos, fun _ => ?_⟩
    exact hend.resolve_left fun ⟨_, hj⟩ => Bool.false_ne_true hj
  · rw [if_neg hthree]
    exact ⟨_, rfl, h₁.eos, fun h => absurd h hthree⟩

end

/-! ### Runs -/

/-- The condition of one step. -/
def RamAction.Fits (cfg : RamConfig) (s : RamState) : RamAction → Prop
  | .store _ _ => True
  | .save stage limit => RoundFits cfg stage limit s

instance RamAction.Fits.decidable (cfg : RamConfig) (s : RamState) :
    ∀ a : RamAction, Decidable (a.Fits cfg s)
  | .store _ _ => isTrue trivial
  | .save stage limit => inferInstanceAs (Decidable (RoundFits cfg stage limit s))

/-- What happens between stage 1 and stage 3. -/
def RamAction.Live : RamAction → Prop
  | .store _ _ => True
  | .save stage _ => stage = 2

/-- The number of sections that actions write. -/
def ramRounds (actions : List RamAction) : Nat :=
  actions.countP fun a => match a with
    | .store _ _ => false
    | .save _ _ => true

/-- A migration: stage 1, stores and rounds of stage 2 in any order, stage 3. -/
def ramMigration (first last : Nat → Bool) (live : List RamAction) : List RamAction :=
  .save 1 first :: (live ++ [.save 3 last])

theorem ramRounds_append (as bs : List RamAction) :
    ramRounds (as ++ bs) = ramRounds as + ramRounds bs := List.countP_append

/-- What happens between stage 1 and stage 3 keeps the invariant. -/
theorem RamAction.exec_roundEnd {dst : Nat → Byte} {n : Nat} {s : RamState}
    (h : RoundEnd cfg dst n s) {a : RamAction} (hfits : a.Fits cfg s) (hlive : a.Live) :
    ∃ s', a.exec cfg s = some s' ∧ RoundEnd cfg dst (n + ramRounds [a]) s' := by
  cases a with
  | store addr value => exact ⟨_, rfl, h.store addr value⟩
  | save stage limit =>
    obtain rfl : stage = 2 := hlive
    obtain ⟨s', heq, h', -⟩ := ramSaveLive_roundEnd (by decide) h.migrating hfits
    exact ⟨s', heq, h'⟩

/-- **Migration of RAM.**  If releasing the host's memory of pages that hold zeroes harms no page
that is not sent any more, then the destination has the source's RAM at stage 3. -/
theorem ram_migrates {s₀ : RamState} (hcurrent : s₀.Current cfg) (hfile : s₀.file = [])
    {first last : Nat → Bool} {live : List RamAction} (hlive : ∀ a ∈ live, a.Live)
    (hfits : StepsMeet (RamAction.exec cfg) (RamAction.Fits cfg) s₀ (ramMigration first last live))
    (dst : Nat → Byte) :
    ∃ s, runFrom (RamAction.exec cfg) s₀ (ramMigration first last live) = some s ∧
      ∃ ram, ramLoads cfg (ramRounds (ramMigration first last live)) dst ⟨s.file, false⟩ =
          ((ram, .ok), ⟨[], false⟩) ∧
        ∀ addr, addr / cfg.pageSize < cfg.lastPage → ram addr = s.ram addr := by
  -- stage 1
  obtain ⟨hfits₁, hrest⟩ := hfits
  obtain ⟨s₁, heq₁, h₁, -⟩ :=
    ramSaveLive_roundEnd (by decide) (Migrating.setup dst hcurrent hfile) hfits₁
  -- stage 2 and the stores
  obtain ⟨hmid, hlast⟩ := (hrest s₁ heq₁).of_append
  have hstep : ∀ l s a, RoundEnd cfg dst (1 + ramRounds l) s → a.Fits cfg s ∧ a.Live →
      ∃ s', a.exec cfg s = some s' ∧ RoundEnd cfg dst (1 + ramRounds (l ++ [a])) s' := by
    rintro l s a h ⟨hfits, hlive⟩
    rw [ramRounds_append, ← Nat.add_assoc]
    exact RamAction.exec_roundEnd h hfits hlive
  obtain ⟨s₂, hrun₂, h₂⟩ := runFrom_history hstep (l := []) h₁ (hmid.and_mem hlive)
  -- stage 3
  obtain ⟨s₃, heq₃, h₃, hclean⟩ :=
    ramSaveLive_roundEnd (by decide) h₂.migrating (hlast s₂ hrun₂).1
  obtain ⟨ram, hclosed, hsynced⟩ := h₃.synced
  refine ⟨s₃, ?_, ram, ?_, fun addr haddr => hsynced.complete (not_or.mpr ⟨?_, ?_⟩)⟩
  · show (ramSaveLive cfg 1 first s₀).bind _ = some s₃
    rw [heq₁, Option.bind_some]
    show runFrom _ s₁ (live ++ [.save 3 last]) = some s₃
    rw [runFrom_append, hrun₂, Option.bind_some]
    show (ramSaveLive cfg 3 last s₂).bind some = some s₃
    rw [heq₃, Option.bind_some]
  · have hrounds : ramRounds (ramMigration first last live) = 1 + ramRounds ([] ++ live) + 1 := by
      rw [ramMigration, ← List.singleton_append, ramRounds_append, ramRounds_append,
        List.nil_append, Nat.add_assoc]
      rfl
    rw [hrounds]
    exact hclosed.loads
  · rw [hclean rfl _ haddr]
    exact Bool.false_ne_true
  · exact Nat.not_le.mpr haddr

theorem blockFits_of_eq (heq : cfg.hostPageBits = cfg.targetPageBits) (s : RamState) :
    BlockFits cfg s :=
  fun _ _ _ _ _ hp hne hhost => absurd (hostPage_inj heq hp hhost) hne

theorem loopFits_of_eq (heq : cfg.hostPageBits = cfg.targetPageBits) (limit : Nat → Bool)
    (fuel i : Nat) (s : RamState) : LoopFits cfg limit fuel i s := by
  induction fuel generalizing i s with
  | zero => exact trivial
  | succ fuel ih => exact fun _ => ⟨blockFits_of_eq heq s, fun _ _ => ih _ _⟩

theorem RamAction.fits_of_eq (heq : cfg.hostPageBits = cfg.targetPageBits) (s : RamState)
    (a : RamAction) : a.Fits cfg s := by
  cases a with
  | store addr value => exact trivial
  | save stage limit =>
    exact ⟨loopFits_of_eq heq _ _ _ _, fun _ _ _ => loopFits_of_eq heq _ _ _ _⟩

end

/-- Three pages of 32 bytes in two blocks, on a host with pages of 64 bytes. -/
def pairedPages : RamConfig := ⟨5, 6, [2, 1], true, by decide, by decide, by decide⟩

/-- The first page holds zeroes, and no two bytes of the others are the same. -/
def ramThreePages : RamState where
  ram addr := if addr < 32 then 0 else BitVec.ofNat 8 addr
  dirty _ := false
  tracking := false
  currentPage := 0
  bytesTransferred := 0
  file := []

/-- Both pages of the first block are written to, and a round sends one of them. -/
def pairedActions : List RamAction := [.store 40 9, .store 0 0, .save 2 (· = 1), .store 70 1]

/-- Three pages, of which two share a page of the host, and stores between the rounds. -/
theorem ram_migrates_paired :
    ∃ s, runFrom (RamAction.exec pairedPages) ramThreePages
        (ramMigration (fun _ => false) (fun _ => true) pairedActions) = some s ∧
      ∃ ram, ramLoads pairedPages
          (ramRounds (ramMigration (fun _ => false) (fun _ => true) pairedActions))
          (fun _ => 5) ⟨s.file, false⟩ = ((ram, .ok), ⟨[], false⟩) ∧
        ∀ addr, addr / pairedPages.pageSize < pairedPages.lastPage → ram addr = s.ram addr := by
  refine ram_migrates (Or.inl rfl) rfl ?_ (by decide +kernel) (fun _ => 5)
  intro a ha
  simp only [pairedActions, List.mem_cons, List.not_mem_nil, or_false] at ha
  rcases ha with rfl | rfl | rfl | rfl
  · exact trivial
  · exact trivial
  · exact rfl
  · exact trivial

/-- Two pages of 1 KiB, the first one holds zeroes. -/
def ramTwoPages : RamState where
  ram addr := if addr < 1024 then 0 else 1
  dirty _ := false
  tracking := false
  currentPage := 0
  bytesTransferred := 0
  file := []

/-- On a host with pages of 4 KiB, the first page is sent again, and the second one is lost. -/
theorem ram_migrates_fails :
    ¬∀ (cfg : RamConfig) (s₀ : RamState) (first last : Nat → Bool) (live : List RamAction)
      (dst : Nat → Byte), s₀.Current cfg → s₀.file = [] → (∀ a ∈ live, a.Live) →
      ∃ s, runFrom (RamAction.exec cfg) s₀ (ramMigration first last live) = some s ∧
        ∃ ram, ramLoads cfg (ramRounds (ramMigration first last live)) dst ⟨s.file, false⟩ =
            ((ram, .ok), ⟨[], false⟩) ∧
          ∀ addr, addr / cfg.pageSize < cfg.lastPage → ram addr = s.ram addr := by
  intro h
  obtain ⟨s, hs, ram, hload, hram⟩ := h ⟨10, 12, [2], true, by decide, by decide, by decide⟩
    ramTwoPages (fun _ => false) (fun _ => false) [.store 0 0] (fun _ => 0) (Or.inl rfl) rfl
    (List.forall_mem_singleton.mpr trivial)
  have hrun : (runFrom (RamAction.exec ⟨10, 12, [2], true, by decide, by decide, by decide⟩)
      ramTwoPages (ramMigration (fun _ => false) (fun _ => false) [.store 0 0])).map (fun s =>
        (s.ram 1024, (ramLoads ⟨10, 12, [2], true, by decide, by decide, by decide⟩ 2
          (fun _ => 0) ⟨s.file, false⟩).1.1 1024)) = some (1, 0) := by decide +kernel
  have hone := hram 1024 (by decide)
  rw [hs, Option.map_some] at hrun
  obtain ⟨hsrc, hdst⟩ := Prod.mk.inj (Option.some.inj hrun)
  have hload' := congrArg (fun r => r.1.1 1024) hload
  rw [hsrc] at hone
  exact absurd (hone.symm.trans (hload'.symm.trans hdst)) (by decide)

end Qemu.Migration
