import Qemu.Arm.Mmu

open Qemu.Lib

namespace Qemu.Arm

/-!
# What the TLB allows

* `MmuState.Sound` — an access that hits is one that the translation allows now, with the same
  physical page;
* `FillOk`, `MmuAction.Good` — the condition on a step: a fill takes the permissions of one access
  for those of all, and writes to the registers of the protection unit do not flush;
* `translatePage_congr`, `getPhysAddr_allows` — a fill against the other addresses of its page and
  against the other kinds of access;
* `SameMmu`, `setCp15_write` — what the translation reads, and what a write to the coprocessor
  leaves of it;
* `armTlb_sound` — every run whose steps are good.
-/

/-- The permission that an access needs: what can be read can be executed. -/
def Prot.allows (p : Prot) : AccessType → Bool
  | .read => p.read
  | .write => p.write
  | .fetch => p.exec || p.read

/-- The physical page of an access, and the permissions, if the translation succeeds. -/
def translatePage (env : CPUARMState) (ldl : Word → Word) (address : Word) (κ : AccessType)
    (isUser : Bool) : Option (Word × Prot) :=
  ((getPhysAddr env ldl address κ isUser).map fun r => (tlbPage r.1, r.2)).toOption

/-- Every access that hits would be translated now, to the page that it hits, with the permission
    that it needs. -/
def MmuState.Sound (s : MmuState) : Prop :=
  ∀ κ isUser address page, s.tlb.hit κ isUser address = some page →
    ∃ physAddr prot, getPhysAddr s.env s.tables address κ isUser = .ok (physAddr, prot) ∧
      tlbPage physAddr = page ∧ prot.allows κ = true

/-! ### Conditions on a step -/

/-- The page is marked execute-never. -/
def v6Xn (env : CPUARMState) (ldl : Word → Word) (address : Word) : Bool :=
  match v6Walk env ldl address with
  | .ok w => w.xn
  | .error _ => false

/-- The region has at least 1 KiB, or is not in the page of the address. -/
def WholePages (base address : Word) : Prop :=
  9 ≤ ((base >>> 1) &&& 0x1f).toNat ∨ tlbPage base ≠ tlbPage address

/-- The addresses of the page are moved together, and are all in the same regions. -/
def PageUniform (env : CPUARMState) (address : Word) : Prop :=
  (address < 0x02000000 → env.cp15.c13Fcse.toNat % 1024 = 0) ∧
  (env.cp15.c1Sys.getLsbD 0 = true → armFeature env .mpu = true → ∀ n,
    (env.cp15.c6Region n).getLsbD 0 = true →
      WholePages (env.cp15.c6Region n) (fcseAddress env address))

/-- What the permissions of a region for one kind of access allow, those for another do. -/
def MpuAgree (env : CPUARMState) (n : Fin 8) (isUser : Bool) (κ κ' : AccessType) : Prop :=
  (mpuProt (mpuPerms env κ) n isUser).any (·.allows κ') = true →
    (mpuProt (mpuPerms env κ') n isUser).any (·.allows κ') = true

/-- The condition on a fill: the page is uniform, and the permissions of this access are those of
    the others. -/
def FillOk (env : CPUARMState) (ldl : Word → Word) (address : Word) (κ : AccessType)
    (isUser : Bool) : Prop :=
  PageUniform env address ∧
  (env.cp15.c1Sys.getLsbD 0 = true →
    if armFeature env .mpu then
      ∀ n ∈ mpuRegion env (fcseAddress env address), ∀ κ', MpuAgree env n isUser κ κ'
    else env.cp15.c1Sys.getLsbD 23 = true → κ ≠ .fetch →
      v6Xn env ldl (fcseAddress env address) = false)

/-- The TLB has no entry. -/
def Tlb.Empty (tlb : Tlb) : Prop := ∀ isUser i, tlb isUser i = .empty

/-- The condition on a step.  Nothing is asked while the page tables are newer than the TLB. -/
def MmuAction.Good (s : MmuState) : MmuAction → Prop
  | .access κ isUser address => s.stale = true ∨ (s.tlb.hit κ isUser address).isSome = true ∨
    match getPhysAddr s.env s.tables address κ isUser with
    | .ok _ => FillOk s.env s.tables address κ isUser
    -- the registers of the fault status are those of the permissions
    | .error _ => armFeature s.env .mpu = false ∨ s.tlb.Empty
  | .setCp15 insn _ => s.stale = true ∨ armFeature s.env .mpu = false ∨ s.tlb.Empty ∨
    cp15Crn insn ≠ 5 ∧ cp15Crn insn ≠ 6
  | .storeTables _ => True

/-! ### Pages -/

variable {a a' : Word}

/-- Addresses of one page have the same bits from 10 on. -/
theorem tlbPage_eq_iff : tlbPage a = tlbPage a' ↔ ∀ i, 10 ≤ i → a.getLsbD i = a'.getLsbD i := by
  have hmask : ∀ i < 32, (0xfffffc00 : Word).getLsbD i = decide (10 ≤ i) := by decide
  constructor
  · intro h i hi
    by_cases h32 : i < 32
    · have hb := congrArg (fun w => BitVec.getLsbD w i) h
      simpa only [tlbPage, BitVec.getLsbD_and, hmask i h32, decide_eq_true hi, Bool.and_true] using
        hb
    · rw [BitVec.getLsbD_of_ge _ _ (not_lt.mp h32), BitVec.getLsbD_of_ge _ _ (not_lt.mp h32)]
  · intro h
    apply BitVec.eq_of_getLsbD_eq
    intro i hi
    simp only [tlbPage, BitVec.getLsbD_and, hmask i hi]
    by_cases h10 : 10 ≤ i
    · rw [h i h10]
    · rw [decide_eq_false h10, Bool.and_false, Bool.and_false]

/-- Pages of 1 KiB. -/
theorem tlbPage_toNat : tlbPage a = tlbPage a' ↔ a.toNat / 1024 = a'.toNat / 1024 := by
  have hshift : tlbPage a = tlbPage a' ↔ a >>> 10 = a' >>> 10 := by
    rw [tlbPage_eq_iff]
    constructor
    · intro h
      apply BitVec.eq_of_getLsbD_eq
      intro i hi
      rw [BitVec.getLsbD_ushiftRight, BitVec.getLsbD_ushiftRight]
      exact h (10 + i) (Nat.le_add_right 10 i)
    · intro h i hi
      have hb := congrArg (fun w => BitVec.getLsbD w (i - 10)) h
      simp only [BitVec.getLsbD_ushiftRight] at hb
      rwa [Nat.add_sub_cancel' hi] at hb
  rw [hshift, ← BitVec.toNat_inj, BitVec.toNat_ushiftRight, BitVec.toNat_ushiftRight,
    Nat.shiftRight_eq_div_pow, Nat.shiftRight_eq_div_pow]

theorem shift_and_congr (h : tlbPage a = tlbPage a') (n : ℕ) (m : Word)
    (hm : ∀ i < 32, m.getLsbD i = true → 10 ≤ n + i) : (a >>> n) &&& m = (a' >>> n) &&& m := by
  apply BitVec.eq_of_getLsbD_eq
  intro i hi
  simp only [BitVec.getLsbD_and, BitVec.getLsbD_ushiftRight]
  cases hb : m.getLsbD i with
  | false => rw [Bool.and_false, Bool.and_false]
  | true => rw [tlbPage_eq_iff.mp h (n + i) (hm i hi hb)]

theorem tlbPage_or_and (h : tlbPage a = tlbPage a') (frame m : Word) :
    tlbPage (frame ||| (a &&& m)) = tlbPage (frame ||| (a' &&& m)) := by
  rw [tlbPage_eq_iff]
  intro i hi
  simp only [BitVec.getLsbD_or, BitVec.getLsbD_and, tlbPage_eq_iff.mp h i hi]

variable {env : CPUARMState}

/-- Addresses of a page stay in one page, if the process number is a multiple of a page. -/
theorem fcseAddress_page (h : tlbPage a = tlbPage a')
    (hfcse : a < 0x02000000 → env.cp15.c13Fcse.toNat % 1024 = 0) :
    tlbPage (fcseAddress env a) = tlbPage (fcseAddress env a') := by
  rw [tlbPage_toNat] at h ⊢
  unfold fcseAddress
  rw [BitVec.lt_def] at hfcse
  simp only [BitVec.lt_def]
  have h2 : (0x02000000 : Word).toNat = 32768 * 1024 := rfl
  rw [h2] at hfcse ⊢
  split_ifs with h1 h1' h1'
  · rw [BitVec.toNat_add, BitVec.toNat_add]
    have := hfcse h1
    omega
  · omega
  · omega
  · exact h

/-! ### The addresses of a page -/

/-- `c2_mask` is one that `set_cp15` makes, or that of a reset. -/
def C2Wf (env : CPUARMState) : Prop := ∃ val, env.cp15.c2Mask = c2MaskOf (val &&& 7)

theorem c2Wf_reset (h : env.cp15.c2Mask = 0) : C2Wf env := ⟨0, h⟩

/-- The mask selects by address bits above the page offset. -/
theorem C2Wf.low (h : C2Wf env) {i : Nat} (hi : i < 10) : env.cp15.c2Mask.getLsbD i = false := by
  obtain ⟨val, hval⟩ := h
  have hle : (val &&& 7).toNat ≤ 7 := by
    rw [BitVec.toNat_and]
    exact Nat.and_le_right
  rw [hval, c2MaskOf, BitVec.getLsbD_not, BitVec.ushiftRight_eq', BitVec.getLsbD_ushiftRight]
  have hones : (0xffffffff : Word).getLsbD ((val &&& 7).toNat + i) = true := by
    have h32 : ∀ j < 32, (0xffffffff : Word).getLsbD j = true := by decide
    exact h32 _ (by omega)
  rw [hones, Bool.not_true, Bool.and_false]

/-- One entry of the first level is for all addresses of a page. -/
theorem getLevel1TableAddress_congr (hc2 : C2Wf env) (h : tlbPage a = tlbPage a') :
    getLevel1TableAddress env a = getLevel1TableAddress env a' := by
  have hsel : a &&& env.cp15.c2Mask = a' &&& env.cp15.c2Mask := by
    apply BitVec.eq_of_getLsbD_eq
    intro i _
    simp only [BitVec.getLsbD_and]
    by_cases hi : 10 ≤ i
    · rw [tlbPage_eq_iff.mp h i hi]
    · rw [hc2.low (not_le.mp hi), Bool.and_false, Bool.and_false]
  unfold getLevel1TableAddress
  rw [hsel, shift_and_congr h 18 0x3ffc (by decide)]

theorem v5Walk_congr (hc2 : C2Wf env) (ldl : Word → Word) (h : tlbPage a = tlbPage a') :
    v5Walk env ldl a = v5Walk env ldl a' := by
  unfold v5Walk v5Level2
  simp only [getLevel1TableAddress_congr hc2 h, shift_and_congr h 10 0x3fc (by decide),
    shift_and_congr h 8 0xffc (by decide), shift_and_congr h 13 6 (by decide)]

theorem v6Walk_congr (hc2 : C2Wf env) (ldl : Word → Word) (h : tlbPage a = tlbPage a') :
    v6Walk env ldl a = v6Walk env ldl a' := by
  unfold v6Walk
  simp only [getLevel1TableAddress_congr hc2 h, shift_and_congr h 10 0x3fc (by decide)]

theorem mpuMask_getLsbD : ∀ n : ℕ, n < 32 → ∀ i : ℕ, i < 32 →
    ((((1 : Word) <<< n) <<< (1 : ℕ)) - 1).getLsbD i = decide (i ≤ n) := by
  decide +kernel

/-- A region matches if it agrees with the address above its size. -/
theorem mpuMatch_iff {base : Word} : mpuMatch base a = true ↔ base.getLsbD 0 = true ∧
    ∀ i < 32, ((base >>> 1) &&& 0x1f).toNat < i → base.getLsbD i = a.getLsbD i := by
  have hn : ((base >>> 1) &&& 0x1f).toNat < 32 := by
    rw [BitVec.toNat_and]
    exact lt_of_le_of_lt Nat.and_le_right (by decide)
  unfold mpuMatch
  rw [Bool.and_eq_true, beq_iff_eq]
  refine and_congr_right fun _ => ?_
  rw [BitVec.shiftLeft_eq']
  -- the bit of the difference, above the size of the region
  have hbit : ∀ i < 32, ((base ^^^ a) &&&
      ~~~((((1 : Word) <<< ((base >>> 1) &&& 0x1f).toNat) <<< (1 : ℕ)) - 1)).getLsbD i =
      (xor (base.getLsbD i) (a.getLsbD i) &&
        !decide (i ≤ ((base >>> 1) &&& 0x1f).toNat)) := by
    intro i hi
    rw [BitVec.getLsbD_and, BitVec.getLsbD_not, mpuMask_getLsbD _ hn i hi, BitVec.getLsbD_xor,
      decide_eq_true hi, Bool.true_and]
  constructor
  · intro h i hi hlt
    have hb := hbit i hi
    rw [h, decide_eq_false (not_le.mpr hlt), Bool.not_false, Bool.and_true] at hb
    simpa using hb.symm
  · intro h
    apply BitVec.eq_of_getLsbD_eq
    intro i hi
    rw [hbit i hi]
    by_cases hle : i ≤ ((base >>> 1) &&& 0x1f).toNat
    · rw [decide_eq_true hle, Bool.not_true, Bool.and_false]
      simp
    · simp [h i hi (not_le.mp hle)]

/-- A region of whole pages has all of a page or none of it. -/
theorem mpuMatch_congr {base : Word} (h : tlbPage a = tlbPage a')
    (hw : base.getLsbD 0 = true → WholePages base a) : mpuMatch base a = mpuMatch base a' := by
  rw [Bool.eq_iff_iff, mpuMatch_iff, mpuMatch_iff]
  refine and_congr_right fun h0 => ?_
  by_cases h9 : 9 ≤ ((base >>> 1) &&& 0x1f).toNat
  · refine forall_congr' fun i => forall_congr' fun _ => forall_congr' fun hi => ?_
    rw [tlbPage_eq_iff.mp h i (by omega)]
  -- a small region, in another page
  · have hne := (hw h0).resolve_left h9
    refine iff_of_false (fun hm => hne ?_) (fun hm => hne ?_)
    · refine tlbPage_eq_iff.mpr fun i hi => ?_
      by_cases h32 : i < 32
      · exact hm i h32 (by omega)
      · rw [BitVec.getLsbD_of_ge _ _ (not_lt.mp h32), BitVec.getLsbD_of_ge _ _ (not_lt.mp h32)]
    · refine (tlbPage_eq_iff.mpr fun i hi => ?_).trans h.symm
      by_cases h32 : i < 32
      · exact hm i h32 (by omega)
      · rw [BitVec.getLsbD_of_ge _ _ (not_lt.mp h32), BitVec.getLsbD_of_ge _ _ (not_lt.mp h32)]

theorem Walk.permission_page (w : Walk) (env : CPUARMState) (h : tlbPage a = tlbPage a')
    (κ : AccessType) (isUser : Bool) :
    (w.permission env a κ isUser).map (fun r => (tlbPage r.1, r.2)) =
      (w.permission env a' κ isUser).map (fun r => (tlbPage r.1, r.2)) := by
  simp only [Walk.permission]
  split_ifs
  · rfl
  · simp only [Except.map, Walk.physAddr, tlbPage_or_and h]

/-- **All addresses of a page are translated alike.** -/
theorem translatePage_congr (hc2 : C2Wf env) (ldl : Word → Word) (h : tlbPage a = tlbPage a')
    (hok : PageUniform env a) (κ : AccessType) (isUser : Bool) :
    translatePage env ldl a κ isUser = translatePage env ldl a' κ isUser := by
  have hf := fcseAddress_page h hok.1
  unfold translatePage
  congr 1
  unfold getPhysAddr
  -- without translation, with the regions of an MPU, and by the walks of v6 and v5
  cases hmmu : env.cp15.c1Sys.getLsbD 0 with
  | false => simp only [if_true, Except.map, hf]
  | true =>
    simp only [Bool.true_eq_false, if_false]
    split_ifs with hmpu hv6
    · have hregion : mpuRegion env (fcseAddress env a) = mpuRegion env (fcseAddress env a') := by
        unfold mpuRegion
        congr 1
        funext n
        exact mpuMatch_congr hf (hok.2 hmmu hmpu n)
      unfold getPhysAddrMpu
      rw [hregion]
      cases mpuRegion env (fcseAddress env a') with
      | none => rfl
      | some n =>
        simp only
        cases mpuProt (mpuPerms env κ) n isUser with
        | none => rfl
        | some prot => simp only [Except.map, hf]
    · unfold getPhysAddrV6
      rw [v6Walk_congr hc2 ldl hf]
      cases v6Walk env ldl (fcseAddress env a') with
      | error e => rfl
      | ok w =>
        simp only [Except.bind, Walk.permissionV6]
        split_ifs
        · rfl
        · rfl
        · rfl
        · exact w.permission_page env hf κ isUser
    · unfold getPhysAddrV5
      rw [v5Walk_congr hc2 ldl hf]
      cases v5Walk env ldl (fcseAddress env a') with
      | error e => rfl
      | ok w => exact w.permission_page env hf κ isUser

/-! ### The other kinds of access -/

theorem checkAp_fetch (env : CPUARMState) (ap : BitVec 3) (domain : Word) (isUser : Bool) :
    checkAp env ap domain .fetch isUser = checkAp env ap domain .read isUser := by
  unfold checkAp
  simp only [reduceCtorEq, if_false]

theorem checkAp_read (env : CPUARMState) (ap : BitVec 3) (domain : Word) (isUser : Bool) :
    checkAp env ap domain .read isUser = .none ∨ checkAp env ap domain .read isUser = .ro ∨
      checkAp env ap domain .read isUser = .rw := by
  unfold checkAp
  simp only [reduceCtorEq, if_false]
  split_ifs <;> simp

/-- A write has what a read has, or nothing. -/
theorem checkAp_write (env : CPUARMState) (ap : BitVec 3) (domain : Word) (isUser : Bool) :
    checkAp env ap domain .write isUser =
      if checkAp env ap domain .read isUser = .rw then .rw else .none := by
  have hap : ap = 0 ∨ ap = 1 ∨ ap = 2 ∨ ap = 3 ∨ ap = 4 ∨ ap = 5 ∨ ap = 6 ∨ ap = 7 := by
    revert ap
    decide
  unfold checkAp
  simp only [reduceCtorEq, if_false, if_true]
  by_cases hd : domain = 3
  · rw [if_pos hd, if_pos hd, if_pos rfl]
  · rw [if_neg hd, if_neg hd]
    rcases hap with rfl | rfl | rfl | rfl | rfl | rfl | rfl | rfl <;>
      simp only [BitVec.reduceEq, if_true, if_false] <;>
      split_ifs <;> simp_all [Prot.none, Prot.ro, Prot.rw]

theorem checkAp_allows (env : CPUARMState) (ap : BitVec 3) (domain : Word) (κ κ' : AccessType)
    (isUser : Bool) (h : (checkAp env ap domain κ isUser).allows κ' = true) :
    (checkAp env ap domain κ' isUser).allows κ' = true := by
  cases κ <;> cases κ' <;> simp only [checkAp_fetch, checkAp_write, Prot.allows] at h ⊢ <;>
    rcases checkAp_read env ap domain isUser with hr | hr | hr <;> rw [hr] at h ⊢ <;>
    revert h <;> decide

variable {isUser : Bool} {physAddr : Word} {prot : Prot} {κ κ' : AccessType}

/-- An access that is allowed by the permissions found for another one has the same frame, and is
    allowed. -/
theorem Walk.permission_allows {w : Walk} (h : w.permission env a κ isUser = .ok (physAddr, prot))
    (hallow : prot.allows κ' = true) :
    ∃ prot', w.permission env a κ' isUser = .ok (physAddr, prot') ∧ prot'.allows κ' = true := by
  simp only [Walk.permission] at h ⊢
  split_ifs at h with hnone
  obtain ⟨rfl, rfl⟩ := Prod.mk.inj (Except.ok.inj h)
  have hallow' := checkAp_allows env w.ap w.domain κ κ' isUser hallow
  have hne : checkAp env w.ap w.domain κ' isUser ≠ .none := by
    intro hn
    rw [hn] at hallow'
    cases κ' <;> cases hallow'
  exact ⟨_, if_neg hne, hallow'⟩

variable {ldl : Word → Word}

theorem getPhysAddrV5_allows (h : getPhysAddrV5 env ldl a κ isUser = .ok (physAddr, prot))
    (hallow : prot.allows κ' = true) :
    ∃ prot', getPhysAddrV5 env ldl a κ' isUser = .ok (physAddr, prot') ∧
      prot'.allows κ' = true := by
  unfold getPhysAddrV5 at h ⊢
  cases hw : v5Walk env ldl a with
  | error e =>
    rw [hw] at h
    cases h
  | ok w =>
    rw [hw] at h
    exact Walk.permission_allows h hallow

/-- A page that can be fetched from, or was filled by a fetch, is not marked execute-never. -/
theorem getPhysAddrV6_allows (h : getPhysAddrV6 env ldl a κ isUser = .ok (physAddr, prot))
    (hxn : κ ≠ .fetch → v6Xn env ldl a = false) (hallow : prot.allows κ' = true) :
    ∃ prot', getPhysAddrV6 env ldl a κ' isUser = .ok (physAddr, prot') ∧
      prot'.allows κ' = true := by
  unfold getPhysAddrV6 at h ⊢
  unfold v6Xn at hxn
  cases hw : v6Walk env ldl a with
  | error e =>
    rw [hw] at h
    cases h
  | ok w =>
    rw [hw] at h hxn
    simp only [Except.bind, Walk.permissionV6] at h hxn ⊢
    split_ifs at h with hx haf
    have hx' : w.xn = false := by
      by_cases hκ : κ = .fetch
      · exact Bool.eq_false_iff.mpr fun hxn => hx ⟨hxn, hκ⟩
      · exact hxn hκ
    rw [if_neg (fun hc => by rw [hx'] at hc; cases hc.1), if_neg haf]
    exact w.permission_allows h hallow

/-- The same of the regions of a protection unit, where they agree on the two accesses. -/
theorem getPhysAddrMpu_allows (h : getPhysAddrMpu env a κ isUser = .ok (physAddr, prot))
    (hagree : ∀ n ∈ mpuRegion env a, MpuAgree env n isUser κ κ') (hallow : prot.allows κ' = true) :
    ∃ prot', getPhysAddrMpu env a κ' isUser = .ok (physAddr, prot') ∧ prot'.allows κ' = true := by
  unfold getPhysAddrMpu at h ⊢
  cases hr : mpuRegion env a with
  | none =>
    rw [hr] at h
    cases h
  | some n =>
    rw [hr] at h
    simp only at h ⊢
    cases hp : mpuProt (mpuPerms env κ) n isUser with
    | none =>
      rw [hp] at h
      cases h
    | some p =>
      rw [hp] at h
      obtain ⟨rfl, rfl⟩ := Prod.mk.inj (Except.ok.inj h)
      have hany := hagree n hr
      unfold MpuAgree at hany
      rw [hp] at hany
      have hany' := hany hallow
      cases hp' : mpuProt (mpuPerms env κ') n isUser with
      | none =>
        rw [hp'] at hany'
        cases hany'
      | some p' =>
        rw [hp'] at hany'
        exact ⟨p', rfl, hany'⟩

/-- **A fill allows no more than the translation.** -/
theorem getPhysAddr_allows (h : getPhysAddr env ldl a κ isUser = .ok (physAddr, prot))
    (hok : FillOk env ldl a κ isUser) (hallow : prot.allows κ' = true) :
    ∃ prot', getPhysAddr env ldl a κ' isUser = .ok (physAddr, prot') ∧ prot'.allows κ' = true := by
  have hok := hok.2
  unfold getPhysAddr at h ⊢
  simp only at h ⊢
  cases hmmu : env.cp15.c1Sys.getLsbD 0 with
  | false =>
    rw [hmmu, if_pos rfl] at h
    rw [if_pos rfl]
    obtain ⟨rfl, -⟩ := Prod.mk.inj (Except.ok.inj h)
    exact ⟨.rw, rfl, by cases κ' <;> rfl⟩
  | true =>
    have hok := hok hmmu
    rw [hmmu] at h
    simp only [Bool.true_eq_false, if_false] at h ⊢
    split_ifs at h hok ⊢ with hmpu hv6
    · exact getPhysAddrMpu_allows h (fun n hn => hok n hn κ') hallow
    · exact getPhysAddrV6_allows h (hok hv6) hallow
    · exact getPhysAddrV5_allows h hallow

/-! ### What the translation depends on -/

/-- The two states translate alike. -/
structure SameMmu (env env' : CPUARMState) : Prop where
  features : env'.features = env.features
  c1Sys : env'.cp15.c1Sys = env.cp15.c1Sys
  c2Base0 : env'.cp15.c2Base0 = env.cp15.c2Base0
  c2Base1 : env'.cp15.c2Base1 = env.cp15.c2Base1
  c2Mask : env'.cp15.c2Mask = env.cp15.c2Mask
  c2BaseMask : env'.cp15.c2BaseMask = env.cp15.c2BaseMask
  c3 : env'.cp15.c3 = env.cp15.c3
  c13Fcse : env'.cp15.c13Fcse = env.cp15.c13Fcse
  mpu : armFeature env .mpu = true → env'.cp15.c5Insn = env.cp15.c5Insn ∧
    env'.cp15.c5Data = env.cp15.c5Data ∧ env'.cp15.c6Region = env.cp15.c6Region

variable {env' : CPUARMState}

theorem SameMmu.armFeature (h : SameMmu env env') (f : ArmFeature) :
    armFeature env' f = armFeature env f := by
  unfold Arm.armFeature
  rw [h.features]

theorem SameMmu.v5Walk (h : SameMmu env env') (ldl : Word → Word) (a : Word) :
    v5Walk env' ldl a = v5Walk env ldl a := by
  unfold Arm.v5Walk v5Level2 domainAccess getLevel1TableAddress
  simp only [h.armFeature, h.c2Base0, h.c2Base1, h.c2Mask, h.c2BaseMask, h.c3]

theorem SameMmu.v6Walk (h : SameMmu env env') (ldl : Word → Word) (a : Word) :
    v6Walk env' ldl a = v6Walk env ldl a := by
  unfold Arm.v6Walk domainAccess getLevel1TableAddress
  simp only [h.c2Base0, h.c2Base1, h.c2Mask, h.c2BaseMask, h.c3]

theorem SameMmu.permission (h : SameMmu env env') (w : Walk) (a : Word) (κ : AccessType)
    (isUser : Bool) : w.permission env' a κ isUser = w.permission env a κ isUser := by
  unfold Walk.permission checkAp
  simp only [h.armFeature, h.c1Sys]

theorem SameMmu.getPhysAddrMpu (h : SameMmu env env') (hmpu : Arm.armFeature env .mpu = true)
    (a : Word) (κ : AccessType) (isUser : Bool) :
    getPhysAddrMpu env' a κ isUser = getPhysAddrMpu env a κ isUser := by
  obtain ⟨hinsn, hdata, hregion⟩ := h.mpu hmpu
  unfold Arm.getPhysAddrMpu mpuRegion mpuPerms
  rw [hinsn, hdata, hregion]

/-- The whole translation. -/
theorem SameMmu.getPhysAddr (h : SameMmu env env') (ldl : Word → Word) (a : Word) (κ : AccessType)
    (isUser : Bool) : getPhysAddr env' ldl a κ isUser = getPhysAddr env ldl a κ isUser := by
  have hfcse : fcseAddress env' a = fcseAddress env a := by
    unfold fcseAddress
    rw [h.c13Fcse]
  unfold Arm.getPhysAddr getPhysAddrV6 getPhysAddrV5 Walk.permissionV6
  simp only [hfcse, h.c1Sys, h.armFeature, h.v5Walk, h.v6Walk, h.permission]
  cases hmpu : Arm.armFeature env .mpu with
  | true => rw [h.getPhysAddrMpu hmpu]
  | false => rfl

theorem SameMmu.c2Wf (h : SameMmu env env') (hc2 : C2Wf env) : C2Wf env' := by
  obtain ⟨val, hval⟩ := hc2
  exact ⟨val, h.c2Mask.trans hval⟩

theorem SameMmu.refl (env : CPUARMState) : SameMmu env env :=
  ⟨rfl, rfl, rfl, rfl, rfl, rfl, rfl, rfl, fun _ => ⟨rfl, rfl, rfl⟩⟩

theorem mmuFault_sameMmu (hmpu : armFeature env .mpu = false) (address ret : Word)
    (κ : AccessType) : SameMmu env (mmuFault env address ret κ) := by
  have hno (p : Prop) : armFeature env .mpu = true → p := fun h => by
    rw [hmpu] at h
    cases h
  cases κ <;> exact ⟨rfl, rfl, rfl, rfl, rfl, rfl, rfl, rfl, hno _⟩

theorem mmuFault_c2Mask (env : CPUARMState) (address ret : Word) (κ : AccessType) :
    (mmuFault env address ret κ).cp15.c2Mask = env.cp15.c2Mask := by
  cases κ <;> rfl

/-! ### Writes to the coprocessor -/

/-- What a write to the coprocessor does to the translation: the TLB is flushed, the registers of
    the table base change, the registers of the protection unit are written, or nothing. -/
structure Cp15Write (env : CPUARMState) (mpuRegs : Prop) (r : CPUARMState × Bool) : Prop where
  c2Wf : C2Wf env → C2Wf r.1
  effect : r.2 = true ∨ sameC2 env.cp15 r.1.cp15 = false ∨
    (armFeature env .mpu = true ∧ mpuRegs) ∨ SameMmu env r.1

variable {P : Prop} {r : CPUARMState × Bool}

theorem SameMmu.cp15Write (h : SameMmu env r.1) :
    Cp15Write env P r := ⟨h.c2Wf, .inr (.inr (.inr h))⟩

theorem setReg_write {c : Cp15} (h : setReg env c = some r)
    (hc : SameMmu env { env with cp15 := c }) : Cp15Write env P r := by
  obtain rfl := Option.some.inj h
  exact hc.cp15Write

theorem setRegFlush_write {c : Cp15} (h : setRegFlush env c = some r)
    (hc : c.c2Mask = env.cp15.c2Mask) : Cp15Write env P r := by
  obtain rfl := Option.some.inj h
  exact ⟨fun ⟨val, hval⟩ => ⟨val, hc.trans hval⟩, .inl rfl⟩

variable {crm op2 val : Word}

theorem setCp15C0_write {op1 : Word} (h : setCp15C0 env op1 crm op2 val = some r) :
    Cp15Write env P r := by
  unfold setCp15C0 at h
  extract_lets c at h
  split_ifs at h
  all_goals
    exact setReg_write h ⟨rfl, rfl, rfl, rfl, rfl, rfl, rfl, rfl, fun _ => ⟨rfl, rfl, rfl⟩⟩

theorem setCp15C1_write (h : setCp15C1 env crm op2 val = some r) : Cp15Write env P r := by
  unfold setCp15C1 at h
  extract_lets c op2 at h
  split_ifs at h
  all_goals first
    | exact setReg_write h ⟨rfl, rfl, rfl, rfl, rfl, rfl, rfl, rfl, fun _ => ⟨rfl, rfl, rfl⟩⟩
    | exact setRegFlush_write h rfl

/-- The registers of the table base: if they are the same, so is the translation. -/
theorem setCp15C2_write (h : setCp15C2 env op2 val = some r) : Cp15Write env P r := by
  have hbase {c : Cp15} (hr : setReg env c = some r) (hwf : C2Wf env → C2Wf r.1)
      (hc : c.c2Base0 = env.cp15.c2Base0 → c.c2Base1 = env.cp15.c2Base1 →
        c.c2Mask = env.cp15.c2Mask → c.c2BaseMask = env.cp15.c2BaseMask →
          SameMmu env { env with cp15 := c }) : Cp15Write env P r := by
    obtain rfl := Option.some.inj hr
    refine ⟨hwf, .inr ?_⟩
    cases hs : sameC2 env.cp15 c with
    | false => exact .inl rfl
    | true =>
      simp only [sameC2, Bool.and_eq_true, beq_iff_eq] at hs
      obtain ⟨⟨⟨h0, h1⟩, hm⟩, hbm⟩ := hs
      exact .inr (.inr (hc h0.symm h1.symm hm.symm hbm.symm))
  have hmask {c : Cp15} (hr : setReg env c = some r) (hc : c.c2Mask = env.cp15.c2Mask) :
      C2Wf env → C2Wf r.1 := by
    obtain rfl := Option.some.inj hr
    exact fun ⟨v, hv⟩ => ⟨v, hc.trans hv⟩
  unfold setCp15C2 at h
  extract_lets c val' at h
  split_ifs at h
  · exact setReg_write h ⟨rfl, rfl, rfl, rfl, rfl, rfl, rfl, rfl, fun _ => ⟨rfl, rfl, rfl⟩⟩
  · exact setReg_write h ⟨rfl, rfl, rfl, rfl, rfl, rfl, rfl, rfl, fun _ => ⟨rfl, rfl, rfl⟩⟩
  · exact hbase h (hmask h rfl) fun h0 h1 hm hbm =>
      ⟨rfl, rfl, h0, h1, hm, hbm, rfl, rfl, fun _ => ⟨rfl, rfl, rfl⟩⟩
  · exact hbase h (hmask h rfl) fun h0 h1 hm hbm =>
      ⟨rfl, rfl, h0, h1, hm, hbm, rfl, rfl, fun _ => ⟨rfl, rfl, rfl⟩⟩
  · refine hbase h ?_ fun h0 h1 hm hbm =>
      ⟨rfl, rfl, h0, h1, hm, hbm, rfl, rfl, fun _ => ⟨rfl, rfl, rfl⟩⟩
    obtain rfl := Option.some.inj h
    exact fun _ => ⟨val, rfl⟩

/-- The registers of the faults are, with protection regions, those of the permissions. -/
theorem setReg_mpuWrite {env : CPUARMState} {c : Cp15} {P : Prop} {r : CPUARMState × Bool}
    (h : setReg env c = some r) (hP : P)
    (hc : armFeature env .mpu = false → SameMmu env { env with cp15 := c })
    (hmask : c.c2Mask = env.cp15.c2Mask) : Cp15Write env P r := by
  obtain rfl := Option.some.inj h
  cases hmpu : armFeature env .mpu with
  | true => exact ⟨fun ⟨v, hv⟩ => ⟨v, hmask.trans hv⟩, .inr (.inr (.inl ⟨hmpu, hP⟩))⟩
  | false => exact (hc hmpu).cp15Write

theorem setCp15C5_write (h : setCp15C5 env op2 val = some r) (hP : P) : Cp15Write env P r := by
  have hno (hmpu : armFeature env .mpu = false) (p : Prop) : armFeature env .mpu = true → p :=
    fun ht => by
      rw [hmpu] at ht
      cases ht
  unfold setCp15C5 at h
  extract_lets c op2 ext at h
  split_ifs at h
  all_goals
    exact setReg_mpuWrite h hP
      (fun hmpu => ⟨rfl, rfl, rfl, rfl, rfl, rfl, rfl, rfl, hno hmpu _⟩) rfl

theorem setCp15C6_write (h : setCp15C6 env crm op2 val = some r) (hP : P) : Cp15Write env P r := by
  have hno (hmpu : armFeature env .mpu = false) (p : Prop) : armFeature env .mpu = true → p :=
    fun ht => by
      rw [hmpu] at ht
      cases ht
  unfold setCp15C6 at h
  extract_lets c op2 at h
  split_ifs at h
  all_goals
    exact setReg_mpuWrite h hP
      (fun hmpu => ⟨rfl, rfl, rfl, rfl, rfl, rfl, rfl, rfl, hno hmpu _⟩) rfl

theorem setCp15C8_write (h : setCp15C8 env op2 = some r) : Cp15Write env P r := by
  unfold setCp15C8 at h
  split_ifs at h
  exact setRegFlush_write h rfl

theorem setCp15C9_write {op1 : Word} (h : setCp15C9 env op1 crm op2 val = some r) :
    Cp15Write env P r := by
  unfold setCp15C9 at h
  extract_lets c at h
  split_ifs at h
  all_goals
    exact setReg_write h ⟨rfl, rfl, rfl, rfl, rfl, rfl, rfl, rfl, fun _ => ⟨rfl, rfl, rfl⟩⟩

/-- The process ID: a value that differs flushes the TLB. -/
theorem setCp15C13_write (h : setCp15C13 env op2 val = some r) : Cp15Write env P r := by
  unfold setCp15C13 at h
  extract_lets c at h
  split_ifs at h
  · obtain rfl := Option.some.inj h
    by_cases hval : env.cp15.c13Fcse = val
    · exact SameMmu.cp15Write
        ⟨rfl, rfl, rfl, rfl, rfl, rfl, rfl, hval.symm, fun _ => ⟨rfl, rfl, rfl⟩⟩
    · exact ⟨fun ⟨v, hv⟩ => ⟨v, hv⟩, .inl (decide_eq_true hval)⟩
  · obtain rfl := Option.some.inj h
    exact SameMmu.cp15Write ⟨rfl, rfl, rfl, rfl, rfl, rfl, rfl, rfl, fun _ => ⟨rfl, rfl, rfl⟩⟩
  all_goals
    exact setReg_write h ⟨rfl, rfl, rfl, rfl, rfl, rfl, rfl, rfl, fun _ => ⟨rfl, rfl, rfl⟩⟩

theorem setCp15C15_write (h : setCp15C15 env crm op2 val = some r) : Cp15Write env P r := by
  unfold setCp15C15 at h
  extract_lets c at h
  split_ifs at h
  all_goals first
    | exact setReg_write h ⟨rfl, rfl, rfl, rfl, rfl, rfl, rfl, rfl, fun _ => ⟨rfl, rfl, rfl⟩⟩
    | -- the halt of the CPU
      obtain rfl := Option.some.inj h
      exact SameMmu.cp15Write ⟨rfl, rfl, rfl, rfl, rfl, rfl, rfl, rfl, fun _ => ⟨rfl, rfl, rfl⟩⟩

/-- **Writes to the coprocessor** change the translation with a flush, in the registers of the table
    base, or in those of the protection unit. -/
theorem setCp15_write {insn : Word} (h : setCp15 env insn val = some r) :
    Cp15Write env (cp15Crn insn = 5 ∨ cp15Crn insn = 6) r := by
  unfold setCp15 at h
  extract_lets op1 op2 crm at h
  split at h
  case h_1 => exact setCp15C0_write h
  case h_2 => exact setCp15C1_write h
  case h_3 => exact setCp15C2_write h
  case h_4 => exact setRegFlush_write h rfl
  case h_5 => cases h
  case h_6 hcrn => exact setCp15C5_write h (.inl hcrn)
  case h_7 hcrn => exact setCp15C6_write h (.inr hcrn)
  case h_8 =>
    exact setReg_write h ⟨rfl, rfl, rfl, rfl, rfl, rfl, rfl, rfl, fun _ => ⟨rfl, rfl, rfl⟩⟩
  case h_9 => exact setCp15C8_write h
  case h_10 => exact setCp15C9_write h
  case h_11 => cases h
  case h_12 => exact setCp15C13_write h
  case h_13 => cases h
  case h_14 => exact setCp15C15_write h
  case h_15 => exact setReg_write h (SameMmu.refl env)

/-! ### Entries -/

theorem tlbSetPage_addr (vaddr paddr : Word) (prot : Prot) (κ : AccessType) :
    (tlbSetPage vaddr paddr prot).addr κ = if prot.allows κ then some vaddr else none := by
  cases κ <;> rfl

/-- A hit after a fill is a hit of the new entry or one from before. -/
theorem Tlb.hit_set {tlb : Tlb} {isUser' : Bool} {paddr page : Word}
    (h : (tlb.set isUser a (tlbSetPage (tlbPage a) paddr prot)).hit κ isUser' a' = some page) :
    (isUser' = isUser ∧ tlbPage a' = tlbPage a ∧ prot.allows κ = true ∧ page = paddr) ∨
      tlb.hit κ isUser' a' = some page := by
  unfold Tlb.hit Tlb.set at h
  by_cases hu : isUser' = isUser
  · subst hu
    rw [Function.update_self] at h
    by_cases hi : tlbIndex a' = tlbIndex a
    · rw [hi, Function.update_self] at h
      simp only [tlbSetPage_addr] at h
      split_ifs at h with hallow hhit hno
      · exact .inl ⟨rfl, (Option.some.inj hhit).symm, hallow, (Option.some.inj h).symm⟩
      · exact hno.elim
    · rw [Function.update_of_ne hi] at h
      exact .inr h
  · rw [Function.update_of_ne hu] at h
    exact .inr h

theorem Tlb.Empty.hit {tlb : Tlb} (h : tlb.Empty) (κ : AccessType) (isUser : Bool) (a : Word) :
    tlb.hit κ isUser a = none := by
  unfold Tlb.hit
  rw [h isUser (tlbIndex a)]
  cases κ <;> rfl

theorem tlbFlush_empty : Tlb.Empty tlbFlush := fun _ _ => rfl

/-! ### Steps -/

variable {s : MmuState}

theorem MmuState.sound_of_empty (h : s.tlb.Empty) : s.Sound := by
  intro κ isUser a page hhit
  rw [h.hit] at hhit
  cases hhit

theorem MmuState.Sound.sameMmu (h : s.Sound) (henv : SameMmu s.env env) {stale : Bool} :
    ({ s with env, stale } : MmuState).Sound := by
  intro κ isUser a page hhit
  obtain ⟨physAddr, prot, ht, hrest⟩ := h κ isUser a page hhit
  exact ⟨physAddr, prot, (henv.getPhysAddr s.tables a κ isUser).trans ht, hrest⟩

/-- **A fill**: the new entry is sound for every address of its page and every kind of access. -/
theorem MmuState.Sound.fill (h : s.Sound) (hc2 : C2Wf s.env)
    (ht : getPhysAddr s.env s.tables a κ isUser = .ok (physAddr, prot))
    (hok : FillOk s.env s.tables a κ isUser) :
    ({ s with
      tlb := s.tlb.set isUser a (tlbSetPage (tlbPage a) (tlbPage physAddr) prot) } :
        MmuState).Sound := by
  intro κ' isUser' a' page hhit
  obtain ⟨rfl, hpage, hallow, rfl⟩ | hold := Tlb.hit_set hhit
  · obtain ⟨prot', ht', hallow'⟩ := getPhysAddr_allows ht hok hallow
    -- from the address of the fill to that of the hit
    have hcongr := translatePage_congr hc2 s.tables hpage.symm hok.1 κ' isUser'
    unfold translatePage at hcongr
    rw [ht'] at hcongr
    cases ha' : getPhysAddr s.env s.tables a' κ' isUser' with
    | error e =>
      rw [ha'] at hcongr
      cases hcongr
    | ok p =>
      rw [ha'] at hcongr
      obtain ⟨hp, hprot⟩ := Prod.mk.inj (Option.some.inj hcongr)
      exact ⟨p.1, p.2, rfl, hp.symm, by rwa [← hprot]⟩
  · exact h κ' isUser' a' page hold

/-- What holds along a run: unless the page tables are newer, the TLB is sound. -/
structure MmuState.Inv (s : MmuState) : Prop where
  sound : s.stale = false → s.Sound
  c2Wf : C2Wf s.env

variable {s' : MmuState}

/-- An access fills the TLB with what the page tables say. -/
theorem access_inv (h : s.Inv) (hgood : (MmuAction.access κ isUser a).Good s)
    (hexec : (MmuAction.access κ isUser a).exec s = some s') : s'.Inv := by
  simp only [MmuAction.exec] at hexec
  split_ifs at hexec with hhit
  · obtain rfl := Option.some.inj hexec
    exact h
  · obtain rfl := Option.some.inj hexec
    simp only [MmuAction.Good] at hgood
    unfold cpuArmHandleMmuFault
    cases ht : getPhysAddr s.env s.tables a κ isUser with
    | ok p =>
      refine ⟨fun hstale => ?_, h.c2Wf⟩
      have hok := (hgood.resolve_left (by rw [hstale]; decide)).resolve_left hhit
      rw [ht] at hok
      exact (h.sound hstale).fill h.c2Wf ht hok
    | error ret =>
      refine ⟨fun hstale => ?_, ?_⟩
      · have hok := (hgood.resolve_left (by rw [hstale]; decide)).resolve_left hhit
        rw [ht] at hok
        obtain hmpu | hempty := hok
        · exact (h.sound hstale).sameMmu (mmuFault_sameMmu hmpu a ret κ)
        · exact MmuState.sound_of_empty hempty
      · obtain ⟨val, hval⟩ := h.c2Wf
        exact ⟨val, (mmuFault_c2Mask s.env a ret κ).trans hval⟩

/-- A write to the coprocessor that changes the translation flushes the TLB. -/
theorem setCp15_inv (h : s.Inv) {insn : Word} (hgood : (MmuAction.setCp15 insn val).Good s)
    (hexec : (MmuAction.setCp15 insn val).exec s = some s') : s'.Inv := by
  simp only [MmuAction.exec, Option.map_eq_some_iff] at hexec
  obtain ⟨⟨env, flush⟩, hset, rfl⟩ := hexec
  have hw := setCp15_write hset
  refine ⟨fun hstale => ?_, hw.c2Wf h.c2Wf⟩
  cases flush with
  | true => exact MmuState.sound_of_empty tlbFlush_empty
  | false =>
    simp only [Bool.not_false, Bool.true_and, Bool.or_eq_false_iff, Bool.not_eq_false'] at hstale
    obtain ⟨hold, hc2⟩ := hstale
    obtain hflush | hc2' | ⟨hmpu, hregs⟩ | hsame := hw.effect
    · cases hflush
    · exact absurd (hc2.symm.trans hc2') (by decide)
    -- the registers of the protection unit: the TLB was empty
    · obtain hstale | hno | hempty | hne := hgood
      · exact absurd (hold.symm.trans hstale) (by decide)
      · exact absurd (hmpu.symm.trans hno) (by decide)
      · exact MmuState.sound_of_empty hempty
      · exact absurd hregs (not_or.mpr hne)
    · exact (h.sound hold).sameMmu hsame

theorem MmuAction.exec_inv {α : MmuAction} (h : s.Inv) (hgood : α.Good s)
    (hexec : α.exec s = some s') : s'.Inv := by
  cases α with
  | access κ isUser a => exact access_inv h hgood hexec
  | setCp15 insn val => exact setCp15_inv h hgood hexec
  | storeTables tables =>
    obtain rfl := Option.some.inj hexec
    exact ⟨fun hstale => Bool.noConfusion hstale, h.c2Wf⟩

/-- **The TLB is sound**: after a run of good steps, with no write to the page tables or to the
    registers of the table base since the last flush, every access that hits would be translated
    now, to the page that it hits. -/
theorem armTlb_sound {s₀ s : MmuState} {as : List MmuAction} (hempty : s₀.tlb.Empty)
    (hc2 : C2Wf s₀.env) (hgood : StepsMeet MmuAction.exec (fun s α => α.Good s) s₀ as)
    (hrun : runFrom MmuAction.exec s₀ as = some s) (hstale : s.stale = false) : s.Sound := by
  have hinv : s₀.Inv := ⟨fun _ => MmuState.sound_of_empty hempty, hc2⟩
  have hs : s.Inv :=
    runFrom_preserves (fun _ _ _ hI hg he => MmuAction.exec_inv hI hg he) hinv hgood hrun
  exact hs.sound hstale

/-- A CPU with page tables in the format of version 6, each word of which is `desc`. -/
def sectionState (desc : Word) : MmuState where
  env := { (default : CPUARMState) with
    cp15 := { (default : Cp15) with c1Sys := 0x800001, c3 := 1, c2BaseMask := 0xffffc000 } }
  tables := fun _ => desc
  tlb := tlbFlush
  stale := false

/-- A section that can be executed: a fetch hits what a read has filled. -/
theorem armTlb_sound_section : ∃ s, runFrom MmuAction.exec (sectionState 0xc02)
    [.access .read true 0x400, .access .fetch true 0x7fc] = some s ∧
      s.tlb.hit .fetch true 0x7fc = some 0x400 ∧ s.Sound := by
  have hgood : StepsMeet MmuAction.exec (fun s α => α.Good s) (sectionState 0xc02)
      [.access .read true 0x400, .access .fetch true 0x7fc] := by
    refine ⟨.inr (.inr ⟨⟨fun _ => rfl, fun _ hmpu => ?_⟩, fun _ _ _ => rfl⟩), fun s₁ h₁ => ?_⟩
    · exact absurd hmpu (by decide)
    · obtain rfl := Option.some.inj h₁
      exact ⟨.inr (.inl (by decide)), fun _ _ => trivial⟩
  exact ⟨_, rfl, by decide, armTlb_sound tlbFlush_empty (c2Wf_reset rfl) hgood rfl rfl⟩

/-- A section that is execute-never: after a read, an instruction fetch hits, and its translation is
    a permission fault. -/
theorem armTlb_executeNever : ∃ s, runFrom MmuAction.exec (sectionState 0xc12)
    [.access .read true 0x400] = some s ∧ s.stale = false ∧
      s.tlb.hit .fetch true 0x400 = some 0x400 ∧
      getPhysAddr s.env s.tables 0x400 .fetch true = .error (faultStatus 13 1) := by
  exact ⟨_, rfl, rfl, by decide, rfl⟩

end Qemu.Arm
