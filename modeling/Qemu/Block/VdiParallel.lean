import Qemu.Block.VdiRuns

namespace Qemu.Block

open Lib

/-!
# Writes to VDI images at the same time

* `VdiAios` — an image, and the requests for it, each of which is waiting, has a write to the file
  under way, or is done;
* `VdiAios.step` — a request is submitted, its write reaches the file, or is completed;
* `VdiAios.Inv` — what has reached the file is there, and the blocks that are being filled hold
  nothing yet of other requests;
* `vdi_parallel` — every request can be read when all are done.
-/

/-! ### Requests -/

/-- A request.  The write that is under way has reached the file or not. -/
inductive VdiPhase
  | waiting
  | busy (acb : VdiAcb) (io : VdiIo) (landed : Bool)
  | done

instance VdiPhase.decidableDone : ∀ p : VdiPhase, Decidable (p = .done)
  | .waiting => isFalse fun h => (by cases h)
  | .busy _ _ _ => isFalse fun h => (by cases h)
  | .done => isTrue rfl

/-- An image with requests that are under way. -/
structure VdiAios where
  image : Vdi
  phase : Nat → VdiPhase

/-- A step: a request begins, an operation of the host lands, or its callback runs. -/
inductive VdiStep
  | submit (i : Nat)
  | land (i : Nat)
  | complete (i : Nat)

/-- What is left to do after a callback. -/
def VdiPhase.after (r : VdiAcb × Option VdiIo) : VdiPhase :=
  match r.2 with
  | some io => .busy r.1 io false
  | none => .done

/-- A request changes the image and goes on. -/
def VdiAios.set (s : VdiAios) (i : Nat) (image : Vdi) (phase : VdiPhase) : VdiAios where
  image := image
  phase := Function.update s.phase i phase

/-- The callback of a request is called. -/
def VdiAios.callback (s : VdiAios) (i : Nat) (acb : VdiAcb) : VdiAios :=
  let r := vdiAioWriteCb s.image acb
  s.set i r.1 (.after r.2)

/-- A step of one of the requests, if it is its turn. -/
def VdiAios.step (reqs : List (Nat × List Sector)) (s : VdiAios) : VdiStep → Option VdiAios
  | .submit i =>
    match reqs[i]?, s.phase i with
    | some req, .waiting => some (s.callback i (vdiAioSetup req.1 req.2))
    | _, _ => none
  | .land i =>
    match s.phase i with
    | .busy acb io false => some (s.set i (s.image.land io) (.busy acb io true))
    | _ => none
  | .complete i =>
    match s.phase i with
    | .busy acb _ true => some (s.callback i acb)
    | _ => none

/-- The requests before the first step. -/
def VdiAios.start (image : Vdi) : VdiAios where
  image := image
  phase := fun _ => .waiting

/-- Requests that have no sector in common. -/
def VdiDisjoint (req req' : Nat × List Sector) : Prop :=
  ∀ v, req.1 ≤ v → v < req.1 + req.2.length → req'.1 ≤ v → ¬v < req'.1 + req'.2.length

/-! ### Blocks that are filled -/

/-- The place of a new block that has not reached the file. -/
def VdiPhase.newPlace (image : Vdi) : VdiPhase → Option Nat
  | .busy _ (.block entry _) false => some (image.blockSector entry)
  | _ => none

/-- Where sectors of a block are about to be written. -/
def VdiPhase.offset : VdiPhase → Option Nat
  | .busy _ (.data offset _) false => some offset
  | _ => none

/-- Sectors do not reach the file as long as another request has the block that they are in under
    way as a whole. -/
def VdiAios.Filled (n : Nat) (s : VdiAios) : VdiStep → Prop
  | .land i => ∀ offset ∈ (s.phase i).offset, ∀ j < n, j ≠ i →
      ∀ place ∈ (s.phase j).newPlace s.image, ¬(place ≤ offset ∧ offset < place + vdiBlockSectors)
  | _ => True

instance VdiAios.decidableFilled (n : Nat) (s : VdiAios) :
    ∀ op, Decidable (VdiAios.Filled n s op)
  | .submit _ => isTrue trivial
  | .land i => inferInstanceAs (Decidable (∀ offset ∈ (s.phase i).offset, ∀ j < n, j ≠ i →
      ∀ place ∈ (s.phase j).newPlace s.image,
        ¬(place ≤ offset ∧ offset < place + vdiBlockSectors)))
  | .complete _ => isTrue trivial

/-- The block that is filled. -/
def VdiPhase.filling : VdiPhase → Option Nat
  | .busy acb (.block _ _) false => some (acb.sectorNum / vdiBlockSectors)
  | _ => none

/-- The sector up to which the data of a request has reached the file. -/
def VdiPhase.upto (req : Nat × List Sector) : VdiPhase → Nat
  | .waiting => req.1
  | .busy acb _ landed => if landed then acb.sectorNum + acb.nSectors else acb.sectorNum
  | .done => req.1 + req.2.length

/-- The sector of a request has reached the file. -/
def VdiAios.Landed (reqs : List (Nat × List Sector)) (s : VdiAios) (i v : Nat) : Prop :=
  ∃ req, reqs[i]? = some req ∧ req.1 ≤ v ∧ v < (s.phase i).upto req

/-! ### A write that is under way -/

/-- The part of a request that is written is in one block. -/
structure VdiAcb.InBlock (s : Vdi) (a : Nat) (acb : VdiAcb) : Prop where
  block_lt : acb.sectorNum / vdiBlockSectors < s.blocks
  alloc : s.bmap (acb.sectorNum / vdiBlockSectors) ≠ VDI_UNALLOCATED
  le : acb.sectorNum % vdiBlockSectors + acb.nSectors ≤ vdiBlockSectors
  start : acb.sectorNum = a ∨ acb.sectorNum % vdiBlockSectors = 0

/-- A write is the one of the part that a request has come to. -/
def VdiIo.Of (s : Vdi) (a : Nat) (data : List Sector) (acb : VdiAcb) : VdiIo → Prop
  | .data offset l => acb.InBlock s a ∧
      offset = s.blockSector (s.bmap (acb.sectorNum / vdiBlockSectors)) +
        acb.sectorNum % vdiBlockSectors ∧
      l = (data.drop (acb.sectorNum - a)).take acb.nSectors
  | .block entry l => acb.InBlock s a ∧
      entry = s.bmap (acb.sectorNum / vdiBlockSectors) ∧ l.length = vdiBlockSectors ∧
      ∀ k < acb.nSectors,
        l.getD (acb.sectorNum % vdiBlockSectors + k) 0 = data.getD (acb.sectorNum + k - a) 0
  | .header _ => acb.nSectors = 0
  | .bmap first n => acb.nSectors = 0 ∧ first + n ≤ vdiBmapSectors s.blocks

/-- A request that is under way. -/
structure VdiAcb.Busy (s : Vdi) (a : Nat) (data : List Sector) (acb : VdiAcb) (io : VdiIo) :
    Prop where
  ge : a ≤ acb.sectorNum
  le : acb.sectorNum + acb.nSectors ≤ a + data.length
  buf : acb.buf = data.drop (acb.sectorNum - a)
  next : acb.sectorNum + acb.nSectors = a + data.length ∨
    (acb.sectorNum + acb.nSectors) % vdiBlockSectors = 0
  bmap : ∀ first ∈ acb.bmapFirst, first < s.blocks ∧ acb.bmapLast < s.blocks
  io_of : io.Of s a data acb

section

variable {s s' : Vdi} {a v : Nat} {data : List Sector} {acb : VdiAcb} {io : VdiIo}

theorem VdiAcb.InBlock.block_eq (h : acb.InBlock s a) (hge : acb.sectorNum ≤ v)
    (hlt : v < acb.sectorNum + acb.nSectors) :
    v / vdiBlockSectors = acb.sectorNum / vdiBlockSectors := by
  have hle := h.le
  unfold vdiBlockSectors at *
  omega

theorem VdiAcb.InBlock.of_same (h : acb.InBlock s a) (hblocks : s'.blocks = s.blocks)
    (hmap : ∀ b, s.bmap b ≠ VDI_UNALLOCATED → s'.bmap b = s.bmap b) : acb.InBlock s' a :=
  ⟨hblocks ▸ h.block_lt, by rw [hmap _ h.alloc]; exact h.alloc, h.le, h.start⟩

/-- A request goes on where the image is as it was for it. -/
theorem VdiAcb.Busy.of_same (h : acb.Busy s a data io) (hblocks : s'.blocks = s.blocks)
    (hdata : s'.dataSector = s.dataSector)
    (hmap : ∀ b, s.bmap b ≠ VDI_UNALLOCATED → s'.bmap b = s.bmap b) : acb.Busy s' a data io := by
  have hplace : ∀ entry, s'.blockSector entry = s.blockSector entry := fun entry => by
    rw [Vdi.blockSector, hdata, Vdi.blockSector]
  refine ⟨h.ge, h.le, h.buf, h.next, fun first hfirst => hblocks ▸ h.bmap first hfirst, ?_⟩
  have hof := h.io_of
  cases io with
  | data offset l =>
    refine ⟨hof.1.of_same hblocks hmap, ?_, hof.2.2⟩
    rw [hmap _ hof.1.alloc, hplace]
    exact hof.2.1
  | block entry l =>
    refine ⟨hof.1.of_same hblocks hmap, ?_, hof.2.2⟩
    rw [hmap _ hof.1.alloc]
    exact hof.2.1
  | header _ => exact hof
  | bmap first n => exact ⟨hof.1, hblocks ▸ hof.2⟩

theorem VdiAcb.Busy.inBlock (h : acb.Busy s a data io) (hpos : 0 < acb.nSectors) :
    acb.InBlock s a := by
  have hof := h.io_of
  cases io with
  | data offset l => exact hof.1
  | block entry l => exact hof.1
  | header _ => exact absurd (hof ▸ hpos) (Nat.lt_irrefl 0)
  | bmap first n => exact absurd (hof.1 ▸ hpos) (Nat.lt_irrefl 0)

/-- The part that reaches the file. -/
theorem VdiAcb.Busy.land_new (h : acb.Busy s a data io) (hs : s.Valid) (hge : acb.sectorNum ≤ v)
    (hlt : v < acb.sectorNum + acb.nSectors) : (s.land io).sector v = data.getD (v - a) 0 := by
  obtain ⟨k, rfl⟩ := Nat.exists_eq_add_of_le hge
  have hk : k < acb.nSectors := Nat.lt_of_add_lt_add_left hlt
  have hle := h.le
  have hge := h.ge
  have hdiv := Nat.div_add_mod acb.sectorNum vdiBlockSectors
  rw [Nat.mul_comm] at hdiv
  have hof := h.io_of
  cases io with
  | data offset l =>
    obtain ⟨hin, rfl, rfl⟩ := hof
    have hlen : ((data.drop (acb.sectorNum - a)).take acb.nSectors).length = acb.nSectors := by
      rw [List.length_take, List.length_drop]
      omega
    rw [hs.land_data hin.block_lt hin.alloc (by rw [hlen]; exact hin.le), hdiv,
      storeAt_add _ _ (by omega), List.getD_eq_getElem _ _ (by omega)]
    simp only [List.getElem_take, List.getElem_drop]
    congr 1
    omega
  | block entry l =>
    obtain ⟨hin, rfl, hlen, hl⟩ := hof
    have hlt : acb.sectorNum % vdiBlockSectors + k < l.length := by
      have hle := hin.le
      omega
    have hsum : acb.sectorNum + k = acb.sectorNum / vdiBlockSectors * vdiBlockSectors +
        (acb.sectorNum % vdiBlockSectors + k) := by omega
    rw [← hl k hk, List.getD_eq_getElem _ _ hlt, hs.land_block hin.block_lt hin.alloc hlen, hsum,
      storeAt_add _ _ hlt]
  | header _ => exact absurd (hof ▸ hk) (Nat.not_lt_zero _)
  | bmap first n => exact absurd (hof.1 ▸ hk) (Nat.not_lt_zero _)

/-- What is not in the part, and not in a new block, is as it was. -/
theorem VdiAcb.Busy.land_other (h : acb.Busy s a data io) (hs : s.Valid)
    (hout : ¬(acb.sectorNum ≤ v ∧ v < acb.sectorNum + acb.nSectors))
    (hblock : ∀ b ∈ (VdiPhase.busy acb io false).filling, v / vdiBlockSectors ≠ b) :
    (s.land io).sector v = s.sector v := by
  have hle := h.le
  have hge := h.ge
  have hdiv := Nat.div_add_mod acb.sectorNum vdiBlockSectors
  rw [Nat.mul_comm] at hdiv
  have hof := h.io_of
  cases io with
  | data offset l =>
    obtain ⟨hin, rfl, rfl⟩ := hof
    have hlen : ((data.drop (acb.sectorNum - a)).take acb.nSectors).length = acb.nSectors := by
      rw [List.length_take, List.length_drop]
      omega
    rw [hs.land_data hin.block_lt hin.alloc (by rw [hlen]; exact hin.le), hdiv]
    rcases Nat.lt_or_ge v acb.sectorNum with hlt | hge
    · exact storeAt_of_lt hlt
    · exact storeAt_of_le (by omega)
  | block entry l =>
    obtain ⟨hin, rfl, hlen, hl⟩ := hof
    have hne : v / vdiBlockSectors ≠ acb.sectorNum / vdiBlockSectors := hblock _ rfl
    rw [hs.land_block hin.block_lt hin.alloc hlen]
    rcases Nat.lt_or_gt_of_ne hne with hlt | hgt
    · refine storeAt_of_lt ?_
      unfold vdiBlockSectors at *
      omega
    · refine storeAt_of_le ?_
      rw [hlen]
      unfold vdiBlockSectors at *
      omega
  | header _ => rw [hs.land_header_sector]
  | bmap first n => rw [hs.land_bmap_sector hof.2]

end

/-! ### Callbacks -/

/-- What a request has come to when its callback is called. -/
structure VdiAcb.Next (s : Vdi) (a : Nat) (data : List Sector) (c : Nat) (acb : VdiAcb) : Prop where
  sectorNum : acb.advance.sectorNum = c
  buf : acb.advance.buf = data.drop (c - a)
  ge : a ≤ c
  le : c ≤ a + data.length
  edge : c = a ∨ c % vdiBlockSectors = 0 ∨ c = a + data.length
  bmap : ∀ first ∈ acb.bmapFirst, first < s.blocks ∧ acb.bmapLast < s.blocks

/-- What a callback does: it may give a place to a block, and does nothing else to the image. -/
structure VdiCalled (s : Vdi) (a : Nat) (data : List Sector) (c : Nat)
    (r : Vdi × VdiAcb × Option VdiIo) : Prop where
  valid : r.1.Valid
  blocks : r.1.blocks = s.blocks
  dataSector : r.1.dataSector = s.dataSector
  bmap : ∀ b, s.bmap b ≠ VDI_UNALLOCATED → r.1.bmap b = s.bmap b
  sector : ∀ v, s.bmap (v / vdiBlockSectors) ≠ VDI_UNALLOCATED → r.1.sector v = s.sector v
  upto : (VdiPhase.after r.2).upto (a, data) = c
  filling : ∀ b ∈ (VdiPhase.after r.2).filling, s.bmap b = VDI_UNALLOCATED
  busy : ∀ io ∈ r.2.2, r.2.1.Busy r.1 a data io

section

variable {s : Vdi} {a c : Nat} {data : List Sector} {acb : VdiAcb}

theorem VdiAcb.Next.start (s : Vdi) (a : Nat) (data : List Sector) :
    (vdiAioSetup a data).Next s a data a := by
  refine ⟨rfl, ?_, le_rfl, Nat.le_add_right _ _, .inl rfl, fun first hfirst => (by cases hfirst)⟩
  rw [Nat.sub_self]
  rfl

theorem VdiAcb.Busy.next_step {io : VdiIo} (h : acb.Busy s a data io) :
    acb.Next s a data (acb.sectorNum + acb.nSectors) := by
  have hge := h.ge
  refine ⟨rfl, ?_, by omega, h.le, .inr h.next.symm, h.bmap⟩
  show acb.buf.drop acb.nSectors = _
  rw [h.buf, List.drop_drop]
  congr 1
  omega

/-- A request of which the data is written. -/
theorem vdiFinish_called (hs : s.Valid) (hc : acb.sectorNum = a + data.length)
    (hbuf : acb.buf = [])
    (hbmap : ∀ first ∈ acb.bmapFirst, first < s.blocks ∧ acb.bmapLast < s.blocks) :
    VdiCalled s a data (a + data.length) (s, vdiFinish s acb) := by
  have hdrop : ([] : List Sector) = data.drop (acb.sectorNum - a) := by
    rw [hc, Nat.add_sub_cancel_left, List.drop_length]
  have hge : a ≤ acb.sectorNum := hc ▸ Nat.le_add_right a _
  cases hmod : acb.headerModified with
  | true =>
    rw [vdiFinish_header s hmod]
    refine ⟨hs, rfl, rfl, fun _ _ => rfl, fun _ _ => rfl, hc, fun b hb => (by cases hb), ?_⟩
    rintro io ⟨⟩
    exact ⟨hge, hc.le, hbuf.trans hdrop, .inl hc, hbmap, rfl⟩
  | false =>
    cases hfirst : acb.bmapFirst with
    | some first =>
      obtain ⟨hlt, hlt'⟩ := hbmap first hfirst
      have hmap : first / vdiSectorEntries +
          (acb.bmapLast / vdiSectorEntries - first / vdiSectorEntries + 1) ≤
          vdiBmapSectors s.blocks := by
        unfold vdiBmapSectors vdiSectorEntries
        omega
      rw [vdiFinish_bmap s hmod hfirst]
      refine ⟨hs, rfl, rfl, fun _ _ => rfl, fun _ _ => rfl, hc, fun b hb => (by cases hb), ?_⟩
      rintro io ⟨⟩
      exact ⟨hge, hc.le, hbuf.trans hdrop, .inl hc, fun _ hnone => (by cases hnone), rfl, hmap⟩
    | none =>
      rw [vdiFinish_none s hmod hfirst]
      exact ⟨hs, rfl, rfl, fun _ _ => rfl, fun _ _ => rfl, rfl, fun b hb => (by cases hb),
        fun io hio => (by cases hio)⟩

/-- A part in the buffer of a new block. -/
theorem vdiBlock_getD {n k : Nat} {buffer : Nat → Sector} (hge : a ≤ c) (hk : k < n)
    (hle : c + n ≤ a + data.length) (hmod : c % vdiBlockSectors + n ≤ vdiBlockSectors) :
    (bytesAt (storeAt buffer (c % vdiBlockSectors) ((data.drop (c - a)).take n)) 0
      vdiBlockSectors).getD (c % vdiBlockSectors + k) 0 = data.getD (c + k - a) 0 := by
  have hlen : ((data.drop (c - a)).take n).length = n := by
    rw [List.length_take, List.length_drop]
    omega
  have hsum : c + k - a = c - a + k := by omega
  rw [List.getD_eq_getElem _ _ (by rw [length_bytesAt]; omega), hsum,
    List.getD_eq_getElem _ _ (by omega)]
  simp only [bytesAt, List.getElem_map, List.getElem_range, Nat.zero_add]
  rw [storeAt_add _ _ (by omega)]
  simp only [List.getElem_take, List.getElem_drop]

/-- The next part of a request. -/
theorem vdiWritePart_called (hs : s.Valid) (h : acb.Next s a data c) (hc : c < a + data.length)
    (hin : a + data.length ≤ s.size) {r : Vdi × VdiAcb × VdiIo}
    (hr : r = vdiWritePart s acb.advance) : VdiCalled s a data c (r.1, r.2.1, some r.2.2) := by
  obtain ⟨hlt, hle, hblock, hend, hstart⟩ := vdiPart_edge hc h.edge
  have hge := h.ge
  have hlen : acb.advance.buf.length = a + data.length - c := by
    rw [h.buf, List.length_drop]
    omega
  have hb : c / vdiBlockSectors < s.blocks := Vdi.block_lt (by omega)
  have hmod : c % vdiBlockSectors + vdiPart c (a + data.length - c) ≤ vdiBlockSectors := by
    unfold vdiBlockSectors at *
    omega
  have hstart' : c = a ∨ c % vdiBlockSectors = 0 := by
    unfold vdiBlockSectors at *
    omega
  have hnext : c + vdiPart c (a + data.length - c) = a + data.length ∨
      (c + vdiPart c (a + data.length - c)) % vdiBlockSectors = 0 := by
    unfold vdiBlockSectors at *
    omega
  rw [vdiWritePart_eq, hlen] at hr
  obtain rfl := h.sectorNum
  split_ifs at hr with hfree
  -- the block is given a place
  · have hne := hs.allocated_ne hb hfree
    subst hr
    refine ⟨hs.newBlock hb hfree, rfl, rfl, fun b halloc => ?_, fun v halloc => ?_, rfl,
      fun b hfill => ?_, ?_⟩
    · refine Vdi.newBlock_bmap_of_ne s ?_
      rintro rfl
      exact halloc hfree
    · refine hs.newBlock_sector hb hfree ?_
      intro heq
      exact halloc (heq ▸ hfree)
    · obtain rfl := Option.some.inj hfill
      exact hfree
    rintro io ⟨⟩
    have hself := Vdi.newBlock_bmap_self s (acb.advance.sectorNum / vdiBlockSectors)
    refine ⟨hge, hle, h.buf, hnext, ?_, ⟨hb, ?_, hmod, hstart'⟩, hself.symm, length_bytesAt .., ?_⟩
    · intro first hfirst
      refine ⟨?_, hb⟩
      change first ∈ (if acb.blockBuffer.isNone = true then _ else acb.bmapFirst) at hfirst
      split_ifs at hfirst with hnew
      · obtain rfl := Option.some.inj hfirst
        exact hb
      · exact (h.bmap first hfirst).1
    · exact fun heq => hne (hself.symm.trans heq)
    · intro k hk
      change k < vdiPart acb.advance.sectorNum (a + data.length - acb.advance.sectorNum) at hk
      show (bytesAt (storeAt _ (acb.advance.sectorNum % vdiBlockSectors)
        (acb.advance.buf.take _)) 0 vdiBlockSectors).getD
          (acb.advance.sectorNum % vdiBlockSectors + k) 0 =
        data.getD (acb.advance.sectorNum + k - a) 0
      rw [h.buf]
      exact vdiBlock_getD hge hk hle hmod
  · subst hr
    refine ⟨hs, rfl, rfl, fun _ _ => rfl, fun _ _ => rfl, rfl, fun b hb => (by cases hb), ?_⟩
    rintro io ⟨⟩
    refine ⟨hge, hle, h.buf, hnext, h.bmap, ⟨hb, hfree, hmod, hstart'⟩, rfl, ?_⟩
    rw [← h.buf]

/-- What a callback does to the image and the request. -/
theorem vdiAioWriteCb_called (hs : s.Valid) (h : acb.Next s a data c)
    (hin : a + data.length ≤ s.size) : VdiCalled s a data c (vdiAioWriteCb s acb) := by
  have hge := h.ge
  have hlen : acb.advance.buf.length = a + data.length - c := by
    rw [h.buf, List.length_drop]
    omega
  rcases Nat.lt_or_ge c (a + data.length) with hc | hend
  · have hne : acb.advance.buf.length ≠ 0 := by omega
    rw [vdiAioWriteCb, if_neg hne]
    exact vdiWritePart_called hs h hc hin rfl
  · obtain rfl : c = a + data.length := Nat.le_antisymm h.le hend
    have hnil : acb.advance.buf.length = 0 := by omega
    rw [vdiAioWriteCb, if_pos hnil]
    exact vdiFinish_called hs h.sectorNum (List.length_eq_zero_iff.mp hnil) h.bmap

end

/-! ### The invariant -/

/-- What has reached the file is there.  A block that is filled belongs to one request, and no
    sector of another one in it has reached the file. -/
structure VdiAios.Inv (reqs : List (Nat × List Sector)) (size : Nat) (s : VdiAios) : Prop where
  valid : s.image.Valid
  size_eq : s.image.size = size
  busy : ∀ i req acb io landed, reqs[i]? = some req → s.phase i = .busy acb io landed →
    acb.Busy s.image req.1 req.2 io
  absent : ∀ i, reqs[i]? = none → s.phase i = .waiting
  sector : ∀ i req v, reqs[i]? = some req → req.1 ≤ v → v < (s.phase i).upto req →
    s.image.sector v = req.2.getD (v - req.1) 0
  alloc : ∀ i v, s.Landed reqs i v → s.image.bmap (v / vdiBlockSectors) ≠ VDI_UNALLOCATED
  fresh : ∀ i k b v, b ∈ (s.phase i).filling → k ≠ i → s.Landed reqs k v →
    v / vdiBlockSectors ≠ b
  single : ∀ i k b, b ∈ (s.phase i).filling → b ∈ (s.phase k).filling → i = k

section

variable {reqs : List (Nat × List Sector)} {size i : Nat} {req : Nat × List Sector}
  {s s' : VdiAios}

theorem VdiPhase.eq_of_filling {p : VdiPhase} {b : Nat} (h : b ∈ p.filling) :
    ∃ acb entry data, p = .busy acb (.block entry data) false ∧
      b = acb.sectorNum / vdiBlockSectors := by
  unfold VdiPhase.filling at h
  split at h
  · exact ⟨_, _, _, rfl, (Option.some.inj h).symm⟩
  · cases h

theorem VdiPhase.filling_landed (acb : VdiAcb) (io : VdiIo) :
    (VdiPhase.busy acb io true).filling = none := by
  cases io <;> rfl

theorem VdiAios.set_self (s : VdiAios) (i : Nat) (image : Vdi) (p : VdiPhase) :
    (s.set i image p).phase i = p :=
  Function.update_self ..

theorem VdiAios.set_of_ne (s : VdiAios) {i k : Nat} (image : Vdi) (p : VdiPhase) (h : k ≠ i) :
    (s.set i image p).phase k = s.phase k :=
  Function.update_of_ne h ..

theorem VdiAios.Inv.filling_alloc (h : s.Inv reqs size) {b : Nat} (hb : b ∈ (s.phase i).filling) :
    s.image.bmap b ≠ VDI_UNALLOCATED := by
  obtain ⟨acb, entry, data, hphase, rfl⟩ := VdiPhase.eq_of_filling hb
  cases hreq : reqs[i]? with
  | none =>
    rw [h.absent i hreq] at hphase
    cases hphase
  | some req => exact ((h.busy i req _ _ _ hreq hphase).io_of).1.alloc

theorem VdiAios.start_inv {image : Vdi} (h : image.Valid) :
    (VdiAios.start image).Inv reqs image.size := by
  refine ⟨h, rfl, fun i req acb io landed _ hbusy => (by cases hbusy), fun _ _ => rfl,
    fun i req v _ hge hlt => absurd hlt (Nat.not_lt.mpr hge), ?_, fun i k b v hb => (by cases hb),
    fun i k b hb => (by cases hb)⟩
  rintro i v ⟨req, -, hge, hlt⟩
  exact absurd hlt (Nat.not_lt.mpr hge)

/-- A request goes on, and what is in the image and what has reached it stay. -/
theorem VdiAios.Inv.called (h : s.Inv reqs size) (hreq : reqs[i]? = some req)
    {r : Vdi × VdiAcb × Option VdiIo}
    (hr : VdiCalled s.image req.1 req.2 ((s.phase i).upto req) r) :
    (s.set i r.1 (.after r.2)).Inv reqs size := by
  have hlanded : ∀ k v, (s.set i r.1 (.after r.2)).Landed reqs k v → s.Landed reqs k v := by
    rintro k v ⟨req', hreq', hge, hlt⟩
    refine ⟨req', hreq', hge, ?_⟩
    by_cases hself : k = i
    · subst hself
      obtain rfl := Option.some.inj (hreq.symm.trans hreq')
      rw [VdiAios.set_self] at hlt
      exact hr.upto ▸ hlt
    · rwa [VdiAios.set_of_ne _ _ _ hself] at hlt
  have hsize : r.1.size = s.image.size := by
    rw [Vdi.size, hr.blocks, Vdi.size]
  refine ⟨hr.valid, hsize.trans h.size_eq, ?_, ?_, ?_, ?_, ?_, ?_⟩
  · intro k req' acb io landed hreq' hphase
    by_cases hself : k = i
    · subst hself
      obtain rfl := Option.some.inj (hreq.symm.trans hreq')
      rw [VdiAios.set_self, VdiPhase.after] at hphase
      split at hphase
      · rename_i io' hio
        injection hphase with hacb hio' _
        subst hacb hio'
        exact hr.busy _ hio
      · cases hphase
    · rw [VdiAios.set_of_ne _ _ _ hself] at hphase
      exact (h.busy k req' acb io landed hreq' hphase).of_same hr.blocks hr.dataSector hr.bmap
  · intro k hnone
    have hself : k ≠ i := by
      rintro rfl
      rw [hreq] at hnone
      cases hnone
    rw [VdiAios.set_of_ne _ _ _ hself]
    exact h.absent k hnone
  · intro k req' v hreq' hge hlt
    obtain ⟨_, hreq'', -, hlt'⟩ := hlanded k v ⟨req', hreq', hge, hlt⟩
    obtain rfl := Option.some.inj (hreq'.symm.trans hreq'')
    show r.1.sector v = _
    rw [hr.sector v (h.alloc k v ⟨req', hreq', hge, hlt'⟩)]
    exact h.sector k req' v hreq' hge hlt'
  · intro k v hv
    have halloc := h.alloc k v (hlanded k v hv)
    show r.1.bmap _ ≠ _
    rw [hr.bmap _ halloc]
    exact halloc
  · intro j k b v hb hne hv
    by_cases hself : j = i
    · subst hself
      rw [VdiAios.set_self] at hb
      rintro rfl
      exact h.alloc k v (hlanded k v hv) (hr.filling _ hb)
    · rw [VdiAios.set_of_ne _ _ _ hself] at hb
      exact h.fresh j k b v hb hne (hlanded k v hv)
  -- a block that gets a place now is not one that has its place already
  · have hnew : ∀ k, k ≠ i → ∀ b ∈ (VdiPhase.after r.2).filling, b ∉ (s.phase k).filling :=
      fun k _ b hb hb' => h.filling_alloc hb' (hr.filling b hb)
    intro j k b hb hb'
    by_cases hj : j = i <;> by_cases hk : k = i
    · rw [hj, hk]
    · rw [hj, VdiAios.set_self] at hb
      rw [VdiAios.set_of_ne _ _ _ hk] at hb'
      exact absurd hb' (hnew k hk b hb)
    · rw [hk, VdiAios.set_self] at hb'
      rw [VdiAios.set_of_ne _ _ _ hj] at hb
      exact absurd hb (hnew j hj b hb')
    · rw [VdiAios.set_of_ne _ _ _ hj] at hb
      rw [VdiAios.set_of_ne _ _ _ hk] at hb'
      exact h.single j k b hb hb'

theorem VdiAios.Inv.upto_le (h : s.Inv reqs size) (hreq : reqs[i]? = some req) :
    (s.phase i).upto req ≤ req.1 + req.2.length := by
  cases hphase : s.phase i with
  | waiting => exact Nat.le_add_right _ _
  | busy acb io landed =>
    have hle := (h.busy i req acb io landed hreq hphase).le
    cases landed with
    | true => exact hle
    | false => exact (Nat.le_add_right _ _).trans hle
  | done => exact le_rfl

/-- Different requests of a list are disjoint. -/
theorem VdiDisjoint.getElem (h : reqs.Pairwise VdiDisjoint) {i k : Nat}
    {req req' : Nat × List Sector} (hreq : reqs[i]? = some req) (hreq' : reqs[k]? = some req')
    (hne : i ≠ k) : VdiDisjoint req req' := by
  obtain ⟨hi, rfl⟩ := List.getElem?_eq_some_iff.mp hreq
  obtain ⟨hk, rfl⟩ := List.getElem?_eq_some_iff.mp hreq'
  rcases Nat.lt_or_gt_of_ne hne with hlt | hgt
  · exact List.pairwise_iff_getElem.mp h i k hi hk hlt
  · intro v hge hlt hge' hlt'
    exact List.pairwise_iff_getElem.mp h k i hk hi hgt v hge' hlt' hge hlt

/-- A part that reaches the file is not in a block that another request fills. -/
theorem VdiAios.Inv.land_fresh (h : s.Inv reqs size) (hreq : reqs[i]? = some req) {acb : VdiAcb}
    {io : VdiIo} (hphase : s.phase i = .busy acb io false)
    (hfilled : s.Filled reqs.length (.land i)) {j b v : Nat} (hb : b ∈ (s.phase j).filling)
    (hne : i ≠ j) (hge : acb.sectorNum ≤ v) (hlt : v < acb.sectorNum + acb.nSectors) :
    v / vdiBlockSectors ≠ b := by
  obtain ⟨acb', entry, l, hphase', rfl⟩ := VdiPhase.eq_of_filling hb
  obtain ⟨req', hreq'⟩ : ∃ req', reqs[j]? = some req' := by
    cases hreq' : reqs[j]? with
    | none =>
      rw [h.absent j hreq'] at hphase'
      cases hphase'
    | some req' => exact ⟨req', rfl⟩
  have hj : j < reqs.length := (List.getElem?_eq_some_iff.mp hreq').1
  have hof := (h.busy i req acb io false hreq hphase).io_of
  have hof' := (h.busy j req' acb' _ false hreq' hphase').io_of
  cases io with
  | data offset data =>
    obtain ⟨hin, rfl, -⟩ := hof
    rw [hin.block_eq hge hlt]
    intro heq
    -- the sectors would be in the place of the new block
    refine hfilled _ (by rw [hphase]; exact rfl) j hj hne.symm (s.image.blockSector entry)
      (by rw [hphase']; exact rfl) ?_
    rw [heq, ← hof'.2.1]
    exact ⟨Nat.le_add_right _ _, Nat.add_lt_add_left (Nat.mod_lt _ vdiBlockSectors_pos) _⟩
  | block entry' data =>
    rw [hof.1.block_eq hge hlt]
    intro heq
    have hself : acb.sectorNum / vdiBlockSectors ∈ (s.phase i).filling := by
      rw [hphase]
      exact rfl
    exact hne (h.single i j _ hself (heq ▸ hb))
  | header _ =>
    have hzero : acb.nSectors = 0 := hof
    omega
  | bmap first n =>
    have hzero : acb.nSectors = 0 := hof.1
    omega

/-- A write reaches the file. -/
theorem VdiAios.Inv.land (h : s.Inv reqs size) (hdisj : reqs.Pairwise VdiDisjoint)
    (hreq : reqs[i]? = some req) {acb : VdiAcb} {io : VdiIo}
    (hphase : s.phase i = .busy acb io false) (hfilled : s.Filled reqs.length (.land i)) :
    (s.set i (s.image.land io) (.busy acb io true)).Inv reqs size := by
  have hbusy := h.busy i req acb io false hreq hphase
  -- the sectors that have reached the file are those from before, and the part
  have hlanded : ∀ k v, (s.set i (s.image.land io) (.busy acb io true)).Landed reqs k v →
      s.Landed reqs k v ∨
        k = i ∧ acb.sectorNum ≤ v ∧ v < acb.sectorNum + acb.nSectors := by
    rintro k v ⟨req', hreq', hge, hlt⟩
    by_cases hself : k = i
    · subst hself
      obtain rfl := Option.some.inj (hreq.symm.trans hreq')
      rw [VdiAios.set_self] at hlt
      rcases Nat.lt_or_ge v acb.sectorNum with hbefore | hpart
      · exact .inl ⟨req, hreq, hge, by rw [hphase]; exact hbefore⟩
      · exact .inr ⟨rfl, hpart, hlt⟩
    · rw [VdiAios.set_of_ne _ _ _ hself] at hlt
      exact .inl ⟨req', hreq', hge, hlt⟩
  have hfilling : ∀ k b, b ∈ ((s.set i (s.image.land io) (.busy acb io true)).phase k).filling →
      k ≠ i ∧ b ∈ (s.phase k).filling := by
    intro k b hb
    by_cases hself : k = i
    · rw [hself, VdiAios.set_self, VdiPhase.filling_landed] at hb
      cases hb
    · rw [VdiAios.set_of_ne _ _ _ hself] at hb
      exact ⟨hself, hb⟩
  have hblocks : (s.image.land io).blocks = s.image.blocks := by
    unfold Vdi.blocks
    rw [Vdi.land_header]
  have hdata : (s.image.land io).dataSector = s.image.dataSector := by
    unfold Vdi.dataSector
    rw [Vdi.land_header]
  have hmap : ∀ b, s.image.bmap b ≠ VDI_UNALLOCATED → (s.image.land io).bmap b = s.image.bmap b :=
    fun b _ => by rw [Vdi.land_bmap]
  have hsize : (s.image.land io).size = s.image.size := by
    rw [Vdi.size, hblocks, Vdi.size]
  refine ⟨h.valid.land io, hsize.trans h.size_eq, ?_, ?_, ?_, ?_, ?_, ?_⟩
  · intro k req' acb' io' landed hreq' hphase'
    by_cases hself : k = i
    · subst hself
      obtain rfl := Option.some.inj (hreq.symm.trans hreq')
      rw [VdiAios.set_self] at hphase'
      injection hphase' with hacb hio _
      subst hacb hio
      exact hbusy.of_same hblocks hdata hmap
    · rw [VdiAios.set_of_ne _ _ _ hself] at hphase'
      exact (h.busy k req' acb' io' landed hreq' hphase').of_same hblocks hdata hmap
  · intro k hnone
    have hself : k ≠ i := by
      rintro rfl
      rw [hreq] at hnone
      cases hnone
    rw [VdiAios.set_of_ne _ _ _ hself]
    exact h.absent k hnone
  · intro k req' v hreq' hge hlt
    show (s.image.land io).sector v = _
    rcases hlanded k v ⟨req', hreq', hge, hlt⟩ with hold | ⟨rfl, hpart, hlt'⟩
    · have hold' := hold
      obtain ⟨_, hreq'', -, hlt'⟩ := hold'
      obtain rfl := Option.some.inj (hreq'.symm.trans hreq'')
      rw [hbusy.land_other h.valid ?_ ?_]
      · exact h.sector k req' v hreq' hge hlt'
      -- the part is not of another request, and in front of it there is what was written
      · rintro ⟨hpart, hpart'⟩
        by_cases hself : k = i
        · subst hself
          rw [hphase] at hlt'
          exact Nat.not_lt.mpr hpart hlt'
        · exact VdiDisjoint.getElem hdisj hreq' hreq hself v hge
            (Nat.lt_of_lt_of_le hlt' (h.upto_le hreq')) (hbusy.ge.trans hpart)
            (Nat.lt_of_lt_of_le hpart' hbusy.le)
      · intro b hb
        by_cases hself : k = i
        · subst hself
          obtain rfl := Option.some.inj (hreq.symm.trans hreq')
          rw [hphase] at hlt'
          obtain ⟨acb', entry, l, heq, rfl⟩ := VdiPhase.eq_of_filling hb
          injection heq with hacb hio _
          subst hacb hio
          have hlt'' : v < acb.sectorNum := hlt'
          have hstart := hbusy.io_of.1.start
          unfold vdiBlockSectors at *
          omega
        · exact h.fresh i k b v (by rw [hphase]; exact hb) hself hold
    · obtain rfl := Option.some.inj (hreq.symm.trans hreq')
      exact hbusy.land_new h.valid hpart hlt'
  · intro k v hv
    show (s.image.land io).bmap _ ≠ _
    rw [Vdi.land_bmap]
    rcases hlanded k v hv with hold | ⟨rfl, hpart, hlt⟩
    · exact h.alloc k v hold
    · have hin := hbusy.inBlock (by omega)
      rw [hin.block_eq hpart hlt]
      exact hin.alloc
  · intro j k b v hb hne hv
    obtain ⟨-, hb'⟩ := hfilling j b hb
    rcases hlanded k v hv with hold | ⟨rfl, hpart, hlt⟩
    · exact h.fresh j k b v hb' hne hold
    · exact h.land_fresh hreq hphase hfilled hb' hne hpart hlt
  · intro j k b hb hb'
    exact h.single j k b (hfilling j b hb).2 (hfilling k b hb').2

/-- A step keeps the invariant. -/
theorem VdiAios.Inv.step (h : s.Inv reqs size) (hdisj : reqs.Pairwise VdiDisjoint)
    (hin : ∀ req ∈ reqs, req.1 + req.2.length ≤ size) {op : VdiStep}
    (hfilled : s.Filled reqs.length op) (hstep : s.step reqs op = some s') : s'.Inv reqs size := by
  have hcalled : ∀ i req acb, reqs[i]? = some req →
      acb.Next s.image req.1 req.2 ((s.phase i).upto req) → (s.callback i acb).Inv reqs size := by
    intro i req acb hreq hnext
    refine h.called hreq (vdiAioWriteCb_called h.valid hnext ?_)
    rw [h.size_eq]
    exact hin req (List.mem_of_getElem? hreq)
  -- a request that is busy is one of them
  have hbusy : ∀ i acb io landed, s.phase i = .busy acb io landed → ∃ req, reqs[i]? = some req := by
    intro i acb io landed hphase
    cases hreq : reqs[i]? with
    | none =>
      rw [h.absent i hreq] at hphase
      cases hphase
    | some req => exact ⟨req, rfl⟩
  unfold VdiAios.step at hstep
  cases op with
  | submit i =>
    dsimp only at hstep
    split at hstep
    · rename_i req hreq hphase
      obtain rfl := Option.some.inj hstep
      refine hcalled i req _ hreq ?_
      rw [hphase]
      exact VdiAcb.Next.start ..
    · cases hstep
  | land i =>
    dsimp only at hstep
    split at hstep
    · rename_i acb io hphase
      obtain ⟨req, hreq⟩ := hbusy i _ _ _ hphase
      obtain rfl := Option.some.inj hstep
      exact h.land hdisj hreq hphase hfilled
    · cases hstep
  | complete i =>
    dsimp only at hstep
    split at hstep
    · rename_i acb io hphase
      obtain ⟨req, hreq⟩ := hbusy i _ _ _ hphase
      obtain rfl := Option.some.inj hstep
      refine hcalled i req _ hreq ?_
      rw [hphase]
      exact (h.busy i req acb io true hreq hphase).next_step
    · cases hstep

end

/-- **Writes at the same time.**  If no sectors reach the file while another request has their block
    under way as a whole, then all requests can be read when they are done. -/
theorem vdi_parallel {image : Vdi} (hvalid : image.Valid) {reqs : List (Nat × List Sector)}
    (hin : ∀ req ∈ reqs, req.1 + req.2.length ≤ image.size) (hdisj : reqs.Pairwise VdiDisjoint)
    {ops : List VdiStep} {s : VdiAios}
    (hfilled : StepsMeet (VdiAios.step reqs) (VdiAios.Filled reqs.length) (.start image) ops)
    (hrun : runFrom (VdiAios.step reqs) (.start image) ops = some s)
    (hdone : ∀ i < reqs.length, s.phase i = .done) :
    ∀ req ∈ reqs, vdiRead s.image req.1 req.2.length = some req.2 := by
  have hinv : s.Inv reqs image.size := runFrom_preserves
    (fun _ _ _ h hmeet hstep => VdiAios.Inv.step h hdisj hin hmeet hstep)
    (VdiAios.start_inv hvalid) hfilled hrun
  intro req hreq
  obtain ⟨i, hi, rfl⟩ := List.getElem_of_mem hreq
  rw [vdiRead_eq (by rw [hinv.size_eq]; exact hin _ hreq)]
  refine congrArg some (List.ext_getElem (length_bytesAt ..) fun k hk hk' => ?_)
  simp only [bytesAt, List.getElem_map, List.getElem_range]
  rw [hinv.sector i reqs[i] _ (List.getElem?_eq_getElem hi) (Nat.le_add_right _ _)
    (by rw [hdone i hi]; exact Nat.add_lt_add_left hk' _), Nat.add_sub_cancel_left,
    List.getD_eq_getElem _ _ hk']

/-- Two requests for the same new block, which reaches the file first. -/
def vdiBlockFirst : VdiAios :=
  (runFrom (VdiAios.step [(0, [1]), (1, [2])]) (.start (vdiNew 0 1))
    [.submit 0, .submit 1, .land 0, .land 1, .complete 1, .complete 0, .land 0, .complete 0,
      .land 0, .complete 0]).get (by decide +kernel)

/-- Two requests, to two blocks. -/
theorem vdi_parallel_two :
    vdiRead vdiBlockFirst.image 0 1 = some [1] ∧ vdiRead vdiBlockFirst.image 1 1 = some [2] := by
  have hread : ∀ req ∈ [((0 : Nat), [(1 : Sector)]), (1, [2])],
      vdiRead vdiBlockFirst.image req.1 req.2.length = some req.2 :=
    vdi_parallel (vdiNew_valid (by decide)) (by decide) (by simp [VdiDisjoint]) (by decide +kernel)
      (Option.some_get _).symm (by decide +kernel)
  exact ⟨hread _ List.mem_cons_self, hread _ (List.mem_cons_of_mem _ List.mem_cons_self)⟩

/-- The second request is lost if its sector reaches the file before the block. -/
theorem vdi_parallel_lost : ¬∀ s,
    runFrom (VdiAios.step [(0, [1]), (1, [2])]) (.start (vdiNew 0 1))
      [.submit 0, .submit 1, .land 1, .land 0, .complete 1, .complete 0, .land 0, .complete 0,
        .land 0, .complete 0] = some s →
      (∀ i < 2, s.phase i = .done) →
        ∀ req ∈ [((0 : Nat), [(1 : Sector)]), (1, [2])],
          vdiRead s.image req.1 req.2.length = some req.2 := by
  intro h
  have hread := h _ (Option.some_get (by decide +kernel)).symm (by decide +kernel) (1, [2])
    (List.mem_cons_of_mem _ List.mem_cons_self)
  revert hread
  decide +kernel

end Qemu.Block
