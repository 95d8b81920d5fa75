import Qemu.Hw.Sd

namespace Qemu.Hw

open Lib

/-!
# A block of an SD card and its backing device (`sd_blk_read`, `sd_blk_write`)

* `bdrvRead`, `bdrvWrite` — a sector of the device (`block.c`); what the driver answers is a
  parameter, and so is what a request leaves that has failed.
* `SdBlk.blkRead`, `SdBlk.blkWrite` — a block of at most 512 bytes, which can lie in two sectors.
* `SdBlk.Reads`, `SdBlk.Writes` — what they should do.
* `sd_blk` — the answers with which they do it, whatever the bytes are.

Addresses are below the size of a card, hence without overflow.
-/

def EIO : Int := 5
def EACCES : Int := 13
def ENOMEDIUM : Int := 123

/-! ### The block layer -/

/-- What a driver answers while one request is made of it. -/
structure BdrvCall where
  inserted : Bool
  length : Int
  ret : Int
deriving DecidableEq

/-- What a request leaves that has failed: the buffer of a read, the bytes that a write has
    changed. -/
structure BdrvFault where
  buf : CArray Byte 512
  landed : Nat → Bool

/-- What of `BlockDriverState` a request reads. -/
structure BlockDriverState where
  drv : Bool
  growable : Bool
  readOnly : Bool
deriving DecidableEq

/-- `bdrv_is_inserted` -/
def bdrvIsInserted (bs : BlockDriverState) (call : BdrvCall) : Bool := bs.drv && call.inserted

/-- `bdrv_check_byte_request` -/
def bdrvCheckByteRequest (bs : BlockDriverState) (call : BdrvCall) (offset : Int) (size : Nat) :
    Int :=
  if !bdrvIsInserted bs call then -ENOMEDIUM
  else if bs.growable then 0
  else if offset < 0 then - EIO
  else if call.length < offset ∨ call.length - offset < size then - EIO
  else 0

/-- `bdrv_check_request` -/
def bdrvCheckRequest (bs : BlockDriverState) (call : BdrvCall) (sector nbSectors : Nat) : Int :=
  bdrvCheckByteRequest bs call ↑(sector * 512) (nbSectors * 512)

/-- One sector into a buffer; the value returned, and the buffer. -/
def bdrvRead (bs : BlockDriverState) (call : BdrvCall) (fault : BdrvFault) (cell : Nat → Byte)
    (sector : Nat) (buf : CArray Byte 512) : Int × CArray Byte 512 :=
  if !bs.drv then (-ENOMEDIUM, buf)
  else if bdrvCheckRequest bs call sector 1 ≠ 0 then (- EIO, buf)
  else (call.ret, if call.ret < 0 then fault.buf else ⟨fun i => cell (sector * 512 + i)⟩)

/-- One sector from a buffer; the value returned, and the bytes of the device. -/
def bdrvWrite (bs : BlockDriverState) (call : BdrvCall) (fault : BdrvFault) (cell : Nat → Byte)
    (sector : Nat) (buf : CArray Byte 512) : Int × (Nat → Byte) :=
  if !bs.drv then (-ENOMEDIUM, cell)
  else if bs.readOnly then (-EACCES, cell)
  else if bdrvCheckRequest bs call sector 1 ≠ 0 then (- EIO, cell)
  else
    (call.ret, fun k =>
      if k / 512 = sector ∧ (0 ≤ call.ret ∨ fault.landed (k % 512)) then buf.cell (k % 512)
      else cell k)

/-! ### The card -/

/-- The card's buffers, the bytes of its backing device, and what the requests have returned. -/
structure SdBlk where
  buf : CArray Byte 512
  data : CArray Byte 512
  cell : Nat → Byte
  rets : List Int

/-- The backing device, and its answers to the requests that one call can make. -/
structure SdHost where
  bdrv : Option BlockDriverState
  read1 : BdrvCall
  write1 : BdrvCall
  read2 : BdrvCall
  write2 : BdrvCall
deriving DecidableEq

/-- What a failed request leaves behind. -/
structure SdFaults where
  read1 : BdrvFault
  write1 : BdrvFault
  read2 : BdrvFault
  write2 : BdrvFault

namespace SdBlk

/-- `bdrv_read(sd->bdrv, sector, sd->buf, 1)` -/
def read (m : SdBlk) (bs : BlockDriverState) (call : BdrvCall) (fault : BdrvFault)
    (sector : Nat) : Int × SdBlk :=
  let r := bdrvRead bs call fault m.cell sector m.buf
  (r.1, { m with buf := r.2, rets := m.rets ++ [r.1] })

/-- `bdrv_write(sd->bdrv, sector, sd->buf, 1)` -/
def write (m : SdBlk) (bs : BlockDriverState) (call : BdrvCall) (fault : BdrvFault)
    (sector : Nat) : Int × SdBlk :=
  let r := bdrvWrite bs call fault m.cell sector m.buf
  (r.1, { m with cell := r.2, rets := m.rets ++ [r.1] })

/-- `sd_blk_read` -/
def blkRead (host : SdHost) (faults : SdFaults) (m : SdBlk) (addr len : Nat) : Option SdBlk :=
  match host.bdrv with
  | none => some m
  | some bs =>
    let r := m.read bs host.read1 faults.read1 (addr / 512)
    if r.1 = -1 then some r.2
    else if addr / 512 * 512 + 512 < addr + len then
      (r.2.data.memcpy 0 r.2.buf (addr % 512) (512 - addr % 512)).bind fun data =>
        let r := { r.2 with data := data }.read bs host.read2 faults.read2 ((addr + len) / 512)
        if r.1 = -1 then some r.2
        else
          (r.2.data.memcpy (512 - addr % 512) r.2.buf 0 ((addr + len) % 512)).bind fun data =>
            some { r.2 with data := data }
    else
      (r.2.data.memcpy 0 r.2.buf (addr % 512) len).bind fun data => some { r.2 with data := data }

/-- The block lies in two sectors. -/
def blkWriteTwo (host : SdHost) (faults : SdFaults) (m : SdBlk) (addr len : Nat) : Option SdBlk :=
  (m.buf.memcpy (addr % 512) m.data 0 (512 - addr % 512)).bind fun buf =>
    host.bdrv.bind fun bs =>
      let r := { m with buf := buf }.write bs host.write1 faults.write1 (addr / 512)
      if r.1 = -1 then some r.2
      else
        let r := r.2.read bs host.read2 faults.read2 ((addr + len) / 512)
        if r.1 = -1 then some r.2
        else
          (r.2.buf.memcpy 0 r.2.data (512 - addr % 512) ((addr + len) % 512)).bind fun buf =>
            some ({ r.2 with buf := buf }.write bs host.write2 faults.write2
              ((addr + len) / 512)).2

/-- The block lies in one sector. -/
def blkWriteOne (host : SdHost) (faults : SdFaults) (m : SdBlk) (addr len : Nat) : Option SdBlk :=
  (m.buf.memcpy (addr % 512) m.data 0 len).bind fun buf =>
    match host.bdrv with
    | none => some { m with buf := buf }
    | some bs => some ({ m with buf := buf }.write bs host.write1 faults.write1 (addr / 512)).2

/-- `sd_blk_write` behind the read that completes a sector. -/
def blkWriteSectors (host : SdHost) (faults : SdFaults) (m : SdBlk) (addr len : Nat) :
    Option SdBlk :=
  if addr / 512 * 512 + 512 < addr + len then blkWriteTwo host faults m addr len
  else blkWriteOne host faults m addr len

/-- `sd_blk_write` -/
def blkWrite (host : SdHost) (faults : SdFaults) (m : SdBlk) (addr len : Nat) : Option SdBlk :=
  if addr % 512 ≠ 0 ∨ len < 512 then
    match host.bdrv with
    | none => some m
    | some bs =>
      let r := m.read bs host.read1 faults.read1 (addr / 512)
      if r.1 = -1 then some r.2 else blkWriteSectors host faults r.2 addr len
  else blkWriteSectors host faults m addr len

/-! ### What they should do -/

/-- The device stays as it is; without an error, the bytes of the block have been read. -/
structure Reads (host : SdHost) (addr len : Nat) (m m' : SdBlk) : Prop where
  cell : m'.cell = m.cell
  data : host.bdrv.isSome = true → (∀ ret ∈ m'.rets, 0 ≤ ret) → ∀ k < 512,
    m'.data.cell k = if k < len then m.cell (addr + k) else m.data.cell k

/-- A byte is as before or, in the block, the card's; without an error, all of the block are the
    card's. -/
structure Writes (host : SdHost) (addr len : Nat) (m m' : SdBlk) : Prop where
  only : ∀ k, m'.cell k = m.cell k ∨
    addr ≤ k ∧ k < addr + len ∧ m'.cell k = m.data.cell (k - addr)
  all : host.bdrv.isSome = true → (∀ ret ∈ m'.rets, 0 ≤ ret) →
    ∀ k, addr ≤ k → k < addr + len → m'.cell k = m.data.cell (k - addr)

end SdBlk

/-- With these answers a block is read and written as it should be, whatever the bytes are. -/
def SdHost.Right (host : SdHost) (addr len : Nat) : Prop :=
  ∀ (faults : SdFaults) (buf data : CArray Byte 512) (cell : Nat → Byte),
    (∃ m', SdBlk.blkRead host faults ⟨buf, data, cell, []⟩ addr len = some m' ∧
      SdBlk.Reads host addr len ⟨buf, data, cell, []⟩ m') ∧
    ∃ m', SdBlk.blkWrite host faults ⟨buf, data, cell, []⟩ addr len = some m' ∧
      SdBlk.Writes host addr len ⟨buf, data, cell, []⟩ m'

/-! ### The answers -/

/-- The value that `bdrv_read` returns. -/
def bdrvReadRet (bs : BlockDriverState) (call : BdrvCall) (sector : Nat) : Int :=
  if !bs.drv then -ENOMEDIUM
  else if bdrvCheckRequest bs call sector 1 ≠ 0 then - EIO
  else call.ret

/-- `bdrv_write` asks the driver. -/
def BdrvAccepts (bs : BlockDriverState) (call : BdrvCall) (sector : Nat) : Prop :=
  bs.drv = true ∧ bs.readOnly = false ∧ bdrvCheckRequest bs call sector 1 = 0

/-- The value that `bdrv_write` returns. -/
def bdrvWriteRet (bs : BlockDriverState) (call : BdrvCall) (sector : Nat) : Int :=
  if !bs.drv then -ENOMEDIUM
  else if bs.readOnly then -EACCES
  else if bdrvCheckRequest bs call sector 1 ≠ 0 then - EIO
  else call.ret

/-- A read fails with another value than `-1`. -/
def BdrvMissed (bs : BlockDriverState) (call : BdrvCall) (sector : Nat) : Prop :=
  bdrvReadRet bs call sector < 0 ∧ bdrvReadRet bs call sector ≠ -1

/-- No sector is written to the driver whose read has failed with another value than `-1`. -/
def SdHost.Noticed (host : SdHost) (addr len : Nat) : Prop :=
  ∀ bs ∈ host.bdrv,
    ((addr % 512 ≠ 0 ∨ len < 512) → BdrvMissed bs host.read1 (addr / 512) →
      ¬BdrvAccepts bs host.write1 (addr / 512)) ∧
    (addr / 512 * 512 + 512 < addr + len → bdrvReadRet bs host.read1 (addr / 512) ≠ -1 →
      bdrvWriteRet bs host.write1 (addr / 512) ≠ -1 →
      BdrvMissed bs host.read2 ((addr + len) / 512) →
      ¬BdrvAccepts bs host.write2 ((addr + len) / 512))

section

variable (bs : BlockDriverState) (call : BdrvCall) (fault : BdrvFault) (sector : Nat) (m : SdBlk)

@[simp] theorem read_fst : (m.read bs call fault sector).1 = bdrvReadRet bs call sector := by
  simp only [SdBlk.read, bdrvRead, bdrvReadRet]
  split_ifs <;> rfl

@[simp] theorem read_cell : (m.read bs call fault sector).2.cell = m.cell := rfl

@[simp] theorem read_data : (m.read bs call fault sector).2.data = m.data := rfl

@[simp] theorem read_rets : (m.read bs call fault sector).2.rets =
    m.rets ++ [bdrvReadRet bs call sector] := by
  rw [← read_fst bs call fault sector m]
  rfl

theorem read_buf (h : 0 ≤ bdrvReadRet bs call sector) (i : Nat) :
    (m.read bs call fault sector).2.buf.cell i = m.cell (sector * 512 + i) := by
  simp only [bdrvReadRet, ENOMEDIUM, EIO] at h
  simp only [SdBlk.read, bdrvRead]
  split_ifs at h with hdrv hcheck
  · exact absurd h (by decide)
  · exact absurd h (by decide)
  · rw [if_neg hdrv, if_neg hcheck]
    exact congrArg (fun a : CArray Byte 512 => a.cell i) (if_neg (Int.not_lt.mpr h))

@[simp] theorem write_fst : (m.write bs call fault sector).1 = bdrvWriteRet bs call sector := by
  simp only [SdBlk.write, bdrvWrite, bdrvWriteRet]
  split_ifs <;> rfl

@[simp] theorem write_buf : (m.write bs call fault sector).2.buf = m.buf := rfl

@[simp] theorem write_rets : (m.write bs call fault sector).2.rets =
    m.rets ++ [bdrvWriteRet bs call sector] := by
  rw [← write_fst bs call fault sector m]
  rfl

theorem write_of_accepts (h : BdrvAccepts bs call sector) (k : Nat) :
    (m.write bs call fault sector).2.cell k =
      if k / 512 = sector ∧ (0 ≤ call.ret ∨ fault.landed (k % 512)) then m.buf.cell (k % 512)
      else m.cell k := by
  obtain ⟨hdrv, hro, hcheck⟩ := h
  simp only [SdBlk.write, bdrvWrite, hdrv, hro, hcheck]
  rfl

theorem write_of_not_accepts (h : ¬BdrvAccepts bs call sector) :
    (m.write bs call fault sector).2.cell = m.cell := by
  simp only [SdBlk.write, bdrvWrite]
  split_ifs with hdrv hro hcheck
  · rfl
  · rfl
  · rfl
  · exact absurd ⟨by simpa using hdrv, by simpa using hro, not_not.mp hcheck⟩ h

theorem BdrvAccepts.of_ret (h : 0 ≤ bdrvWriteRet bs call sector) :
    BdrvAccepts bs call sector ∧ 0 ≤ call.ret := by
  simp only [bdrvWriteRet, ENOMEDIUM, EACCES, EIO] at h
  split_ifs at h with hdrv hro hcheck
  · exact absurd h (by decide)
  · exact absurd h (by decide)
  · exact absurd h (by decide)
  · exact ⟨⟨by simpa using hdrv, by simpa using hro, not_not.mp hcheck⟩, h⟩

theorem write_other {k : Nat} (hk : k / 512 ≠ sector) :
    (m.write bs call fault sector).2.cell k = m.cell k := by
  by_cases h : BdrvAccepts bs call sector
  · rw [write_of_accepts bs call fault sector m h, if_neg fun h => hk h.1]
  · rw [write_of_not_accepts bs call fault sector m h]

theorem write_sector (h : 0 ≤ bdrvWriteRet bs call sector) {k : Nat} (hk : k / 512 = sector) :
    (m.write bs call fault sector).2.cell k = m.buf.cell (k % 512) := by
  obtain ⟨haccepts, hret⟩ := BdrvAccepts.of_ret bs call sector h
  rw [write_of_accepts bs call fault sector m haccepts, if_pos ⟨hk, Or.inl hret⟩]

variable {bs call fault sector m}

/-- If each byte is as before or as it should be, it stays so under the write of a sector as it
    should be. -/
theorem write_between {old new : Nat → Byte} (hcell : ∀ k, m.cell k = old k ∨ m.cell k = new k)
    (hbuf : BdrvAccepts bs call sector → ∀ i < 512, m.buf.cell i = new (sector * 512 + i))
    (k : Nat) : (m.write bs call fault sector).2.cell k = old k ∨
      (m.write bs call fault sector).2.cell k = new k := by
  by_cases haccepts : BdrvAccepts bs call sector
  · rw [write_of_accepts bs call fault sector m haccepts]
    by_cases hland : k / 512 = sector ∧ (0 ≤ call.ret ∨ fault.landed (k % 512) = true)
    · rw [if_pos hland, hbuf haccepts _ (Nat.mod_lt _ (by decide)), ← hland.1, Nat.div_add_mod']
      exact Or.inr rfl
    · rw [if_neg hland]
      exact hcell k
  · rw [write_of_not_accepts bs call fault sector m haccepts]
    exact hcell k

end

/-! ### Reads -/

variable {host : SdHost} {faults : SdFaults} {addr len : Nat}

theorem block_end (hlen : len ≤ 512) (htwo : addr / 512 * 512 + 512 < addr + len) :
    (addr + len) / 512 = addr / 512 + 1 ∧ (addr + len) % 512 = addr % 512 + len - 512 ∧
      (addr + len) / 512 * 512 = addr + (512 - addr % 512) ∧ addr % 512 ≠ 0 ∧
      512 < addr % 512 + len := by
  omega

/-- A read takes the bytes asked for, or says that it did not. -/
theorem blkRead_reads (hlen : len ≤ 512) (m : SdBlk) :
    ∃ m', SdBlk.blkRead host faults m addr len = some m' ∧ SdBlk.Reads host addr len m m' := by
  cases hbdrv : host.bdrv with
  | none =>
    refine ⟨m, by rw [SdBlk.blkRead, hbdrv], rfl, fun h => ?_⟩
    rw [hbdrv] at h
    cases h
  | some bs =>
    simp only [SdBlk.blkRead, hbdrv, read_fst]
    by_cases hstop : bdrvReadRet bs host.read1 (addr / 512) = -1
    · refine ⟨_, if_pos hstop, rfl, fun _ hrets => ?_⟩
      have := hrets (bdrvReadRet bs host.read1 (addr / 512)) (by simp)
      omega
    · rw [if_neg hstop]
      by_cases htwo : addr / 512 * 512 + 512 < addr + len
      · obtain ⟨hdiv, hmod, -, hpos, hover⟩ := block_end hlen htwo
        rw [if_pos htwo]
        -- the first part
        refine CArray.exists_bind_memcpy (by omega) (by omega)
          fun data hdata => ?_
        by_cases hstop2 : bdrvReadRet bs host.read2 ((addr + len) / 512) = -1
        · refine ⟨_, if_pos hstop2, rfl, fun _ hrets => ?_⟩
          have := hrets (bdrvReadRet bs host.read2 ((addr + len) / 512)) (by simp)
          omega
        · rw [if_neg hstop2]
          -- the second one
          refine CArray.exists_bind_memcpy (by omega) (by omega)
            fun data2 hdata2 => ⟨_, rfl, rfl, fun _ hrets k hk => ?_⟩
          have hret1 := hrets (bdrvReadRet bs host.read1 (addr / 512)) (by simp)
          have hret2 := hrets (bdrvReadRet bs host.read2 ((addr + len) / 512)) (by simp)
          simp only [hdata2, hdata, read_buf _ _ _ _ _ hret1, read_buf _ _ _ _ _ hret2, read_data,
            read_cell]
          by_cases hfirst : k < 512 - addr % 512
          · rw [if_neg (by omega), if_pos (by omega), if_pos (by omega)]
            exact congrArg m.cell (by omega)
          · by_cases hin : k < len
            · rw [if_pos (by omega), if_pos hin]
              exact congrArg m.cell (by omega)
            · rw [if_neg (by omega), if_neg (by omega), if_neg hin]
      · rw [if_neg htwo]
        refine CArray.exists_bind_memcpy (by omega) (by omega)
          fun data hdata => ⟨_, rfl, rfl, fun _ hrets k hk => ?_⟩
        have hret := hrets (bdrvReadRet bs host.read1 (addr / 512)) (by simp)
        simp only [hdata, read_buf _ _ _ _ _ hret, read_data]
        by_cases hin : k < len
        · rw [if_pos (by omega), if_pos hin]
          exact congrArg m.cell (by omega)
        · rw [if_neg (by omega), if_neg hin]

/-! ### Writes -/

/-- The device with the block. -/
def SdBlk.newCell (m : SdBlk) (addr len k : Nat) : Byte :=
  if addr ≤ k ∧ k < addr + len then m.data.cell (k - addr) else m.cell k

theorem newCell_in {m : SdBlk} {k : Nat} (hlo : addr ≤ k) (hhi : k < addr + len) :
    m.newCell addr len k = m.data.cell (k - addr) := if_pos ⟨hlo, hhi⟩

theorem newCell_out {m : SdBlk} {k : Nat} (h : ¬(addr ≤ k ∧ k < addr + len)) :
    m.newCell addr len k = m.cell k := if_neg h

/-- Old or new bytes everywhere, and new ones when no request failed. -/
theorem SdBlk.Writes.of_between {m m' : SdBlk}
    (h : ∀ k, m'.cell k = m.cell k ∨ m'.cell k = m.newCell addr len k)
    (hall : host.bdrv.isSome = true → (∀ ret ∈ m'.rets, 0 ≤ ret) →
      ∀ k, addr ≤ k → k < addr + len → m'.cell k = m.data.cell (k - addr)) :
    SdBlk.Writes host addr len m m' := by
  refine ⟨fun k => ?_, hall⟩
  by_cases hk : addr ≤ k ∧ k < addr + len
  · refine (h k).imp_right fun hnew => ⟨hk.1, hk.2, ?_⟩
    rw [hnew, newCell_in hk.1 hk.2]
  · refine Or.inl ((h k).elim id fun hnew => ?_)
    rw [hnew, newCell_out hk]

/-- Outside of the block the buffer is as the block's first sector. -/
def SdBlk.BufFirst (m : SdBlk) (addr len : Nat) : Prop :=
  ∀ i < 512, ¬(addr ≤ addr / 512 * 512 + i ∧ addr / 512 * 512 + i < addr + len) →
    m.buf.cell i = m.cell (addr / 512 * 512 + i)

/-- A block in one sector is written. -/
theorem blkWriteOne_writes (m : SdBlk) (hone : addr % 512 + len ≤ 512)
    (hbuf : ∀ bs ∈ host.bdrv, BdrvAccepts bs host.write1 (addr / 512) → m.BufFirst addr len) :
    ∃ m', SdBlk.blkWriteOne host faults m addr len = some m' ∧
      SdBlk.Writes host addr len m m' := by
  refine CArray.exists_bind_memcpy hone (by omega) fun buf hcopy => ?_
  cases hbdrv : host.bdrv with
  | none =>
    refine ⟨_, rfl, SdBlk.Writes.of_between (fun _ => Or.inl rfl) fun h => ?_⟩
    rw [hbdrv] at h
    cases h
  | some bs =>
    have hnew : BdrvAccepts bs host.write1 (addr / 512) →
        ∀ i < 512, buf.cell i = m.newCell addr len (addr / 512 * 512 + i) := by
      intro haccepts i hi
      rw [hcopy]
      by_cases hin : addr % 512 ≤ i ∧ i < addr % 512 + len
      · rw [if_pos hin, newCell_in (by omega) (by omega)]
        exact congrArg m.data.cell (by omega)
      · have hout : ¬(addr ≤ addr / 512 * 512 + i ∧ addr / 512 * 512 + i < addr + len) := by omega
        rw [if_neg hin, newCell_out hout]
        exact hbuf bs hbdrv haccepts i hi hout
    refine ⟨_, rfl, SdBlk.Writes.of_between (write_between (fun _ => Or.inl rfl) hnew) ?_⟩
    intro _ hrets k hlo hhi
    have hret := hrets (bdrvWriteRet bs host.write1 (addr / 512)) (by simp)
    have hk : k / 512 = addr / 512 := by omega
    rw [write_sector _ _ _ _ _ hret hk,
      hnew (BdrvAccepts.of_ret _ _ _ hret).1 _ (Nat.mod_lt _ (by decide)), ← hk,
      Nat.div_add_mod', newCell_in hlo hhi]

/-- So is a block over two. -/
theorem blkWriteTwo_writes (m : SdBlk) (hlen : len ≤ 512)
    (htwo : addr / 512 * 512 + 512 < addr + len) {bs : BlockDriverState}
    (hbdrv : host.bdrv = some bs)
    (hbuf : BdrvAccepts bs host.write1 (addr / 512) → m.BufFirst addr len)
    (hread : bdrvWriteRet bs host.write1 (addr / 512) ≠ -1 →
      BdrvMissed bs host.read2 ((addr + len) / 512) →
        ¬BdrvAccepts bs host.write2 ((addr + len) / 512)) :
    ∃ m', SdBlk.blkWriteTwo host faults m addr len = some m' ∧
      SdBlk.Writes host addr len m m' := by
  obtain ⟨hdiv, hmod, hbase, hpos, hover⟩ := block_end hlen htwo
  refine CArray.exists_bind_memcpy (by omega) (by omega) fun buf hcopy => ?_
  rw [hbdrv, Option.bind_some]
  have hnew : BdrvAccepts bs host.write1 (addr / 512) →
      ∀ i < 512, buf.cell i = m.newCell addr len (addr / 512 * 512 + i) := by
    intro haccepts i hi
    rw [hcopy]
    by_cases hin : addr % 512 ≤ i
    · rw [if_pos (by omega), newCell_in (by omega) (by omega)]
      exact congrArg m.data.cell (by omega)
    · rw [if_neg (by omega), newCell_out (by omega)]
      exact hbuf haccepts i hi (by omega)
  have hfirst : ∀ k, ({ m with buf := buf }.write bs host.write1 faults.write1
      (addr / 512)).2.cell k = m.cell k ∨ ({ m with buf := buf }.write bs host.write1
      faults.write1 (addr / 512)).2.cell k = m.newCell addr len k :=
    write_between (fun _ => Or.inl rfl) hnew
  simp only [write_fst, read_fst]
  by_cases hstop : bdrvWriteRet bs host.write1 (addr / 512) = -1
  · rw [if_pos hstop]
    refine ⟨_, rfl, SdBlk.Writes.of_between hfirst fun _ hrets => ?_⟩
    have := hrets (bdrvWriteRet bs host.write1 (addr / 512)) (by simp)
    omega
  rw [if_neg hstop]
  by_cases hstop2 : bdrvReadRet bs host.read2 ((addr + len) / 512) = -1
  · rw [if_pos hstop2]
    refine ⟨_, rfl, SdBlk.Writes.of_between hfirst fun _ hrets => ?_⟩
    have := hrets (bdrvReadRet bs host.read2 ((addr + len) / 512)) (by simp)
    omega
  rw [if_neg hstop2]
  refine CArray.exists_bind_memcpy (by omega) (by omega) fun buf2 hcopy2 => ?_
  have hnew2 : BdrvAccepts bs host.write2 ((addr + len) / 512) →
      ∀ i < 512, buf2.cell i = m.newCell addr len ((addr + len) / 512 * 512 + i) := by
    intro haccepts i hi
    -- the read is right, and the first write has not changed this sector
    have hret : 0 ≤ bdrvReadRet bs host.read2 ((addr + len) / 512) := by
      by_contra hneg
      exact hread hstop ⟨by omega, hstop2⟩ haccepts
    rw [hcopy2, read_buf _ _ _ _ _ hret, write_other _ _ _ _ _ (by omega), hbase]
    by_cases hin : i < (addr + len) % 512
    · rw [if_pos (by omega), newCell_in (by omega) (by omega)]
      exact congrArg m.data.cell (by omega)
    · rw [if_neg (by omega), newCell_out (by omega)]
  refine ⟨_, rfl, SdBlk.Writes.of_between (write_between hfirst hnew2) ?_⟩
  intro _ hrets k hlo hhi
  have hret := hrets (bdrvWriteRet bs host.write1 (addr / 512)) (by simp)
  have hret2 := hrets (bdrvWriteRet bs host.write2 ((addr + len) / 512)) (by simp)
  by_cases hk : k / 512 = addr / 512
  · rw [write_other _ _ _ _ _ (by omega)]
    show (SdBlk.write _ bs host.write1 faults.write1 (addr / 512)).2.cell k = _
    rw [write_sector _ _ _ _ _ hret hk,
      hnew (BdrvAccepts.of_ret _ _ _ hret).1 _ (Nat.mod_lt _ (by decide)), ← hk,
      Nat.div_add_mod', newCell_in hlo hhi]
  · have hk2 : k / 512 = (addr + len) / 512 := by omega
    rw [write_sector _ _ _ _ _ hret2 hk2,
      hnew2 (BdrvAccepts.of_ret _ _ _ hret2).1 _ (Nat.mod_lt _ (by decide)), ← hk2,
      Nat.div_add_mod', newCell_in hlo hhi]

/-- If the reads that have failed are noticed, a block is written as it should be. -/
theorem blkWrite_writes (hlen : len ≤ 512) (hnoticed : host.Noticed addr len) (m : SdBlk) :
    ∃ m', SdBlk.blkWrite host faults m addr len = some m' ∧ SdBlk.Writes host addr len m m' := by
  -- behind the first read, if there is one
  have hsectors : ∀ m : SdBlk,
      (∀ bs ∈ host.bdrv, bdrvReadRet bs host.read1 (addr / 512) ≠ -1 ∨
        ¬(addr / 512 * 512 + 512 < addr + len)) →
      (addr / 512 * 512 + 512 < addr + len → host.bdrv ≠ none) →
      (∀ bs ∈ host.bdrv, BdrvAccepts bs host.write1 (addr / 512) → m.BufFirst addr len) →
      ∃ m', SdBlk.blkWriteSectors host faults m addr len = some m' ∧
        SdBlk.Writes host addr len m m' := by
    intro m hret hsome hbuf
    unfold SdBlk.blkWriteSectors
    by_cases htwo : addr / 512 * 512 + 512 < addr + len
    · rw [if_pos htwo]
      obtain ⟨bs, hbdrv⟩ := Option.ne_none_iff_exists'.mp (hsome htwo)
      exact blkWriteTwo_writes m hlen htwo hbdrv (hbuf bs hbdrv)
        ((hnoticed bs hbdrv).2 htwo ((hret bs hbdrv).resolve_right (not_not.mpr htwo)))
    · rw [if_neg htwo]
      exact blkWriteOne_writes m (by omega) hbuf
  unfold SdBlk.blkWrite
  by_cases hpart : addr % 512 ≠ 0 ∨ len < 512
  · rw [if_pos hpart]
    cases hbdrv : host.bdrv with
    | none =>
      refine ⟨m, rfl, SdBlk.Writes.of_between (fun _ => Or.inl rfl) fun h => ?_⟩
      rw [hbdrv] at h
      cases h
    | some bs =>
      simp only [read_fst]
      by_cases hstop : bdrvReadRet bs host.read1 (addr / 512) = -1
      · rw [if_pos hstop]
        refine ⟨_, rfl, SdBlk.Writes.of_between (fun _ => Or.inl rfl) fun _ hrets => ?_⟩
        have := hrets (bdrvReadRet bs host.read1 (addr / 512)) (by simp)
        omega
      · rw [if_neg hstop]
        obtain ⟨m', hm', hwrites⟩ := hsectors (m.read bs host.read1 faults.read1 (addr / 512)).2
          (fun bs' h => by rw [hbdrv] at h; cases h; exact Or.inl hstop)
          (fun _ h => by rw [hbdrv] at h; cases h)
          (fun bs' h haccepts i _ _ => by
            rw [hbdrv] at h
            cases h
            refine read_buf _ _ _ _ _ (not_lt.mp fun hneg => ?_) i
            exact (hnoticed bs hbdrv).1 hpart ⟨hneg, hstop⟩ haccepts)
        exact ⟨m', hm', hwrites.only, hwrites.all⟩
  -- a whole sector
  · rw [if_neg hpart]
    exact hsectors m (fun _ _ => Or.inr (by omega)) (fun h => absurd h (by omega))
      fun _ _ _ i hi hout => absurd (by omega) hout

/-! ### Reads that fail unnoticed -/

/-- Bytes of which none is zero. -/
def SdFaults.ones : SdFaults :=
  ⟨⟨.const 512 1, fun _ => true⟩, ⟨.const 512 1, fun _ => true⟩, ⟨.const 512 1, fun _ => true⟩,
    ⟨.const 512 1, fun _ => true⟩⟩

theorem read_missed {bs : BlockDriverState} {call : BdrvCall} {fault : BdrvFault} {sector : Nat}
    {m : SdBlk} (hmissed : BdrvMissed bs call sector) (hfault : ∀ i, fault.buf.cell i = 1)
    (hbuf : ∀ i < 512, m.buf.cell i = 1) :
    ∀ i < 512, (m.read bs call fault sector).2.buf.cell i = 1 := by
  intro i hi
  have hneg := hmissed.1
  simp only [bdrvReadRet] at hneg
  simp only [SdBlk.read, bdrvRead]
  split_ifs at hneg ⊢ with hdrv hcheck
  · exact hbuf i hi
  · exact hbuf i hi
  · exact hfault i

theorem write_landed {bs : BlockDriverState} {call : BdrvCall} {fault : BdrvFault} {sector : Nat}
    {m : SdBlk} (h : BdrvAccepts bs call sector) (hfault : ∀ i, fault.landed i = true) {k : Nat}
    (hk : k / 512 = sector) : (m.write bs call fault sector).2.cell k = m.buf.cell (k % 512) := by
  rw [write_of_accepts bs call fault sector m h, if_pos ⟨hk, Or.inr (hfault _)⟩]

/-- Around the block, the first sector becomes what the buffer is. -/
theorem blkWriteSectors_first (m : SdBlk) (hlen : len ≤ 512) {bs : BlockDriverState}
    (hbdrv : host.bdrv = some bs) (haccepts : BdrvAccepts bs host.write1 (addr / 512)) {k : Nat}
    (hk : k / 512 = addr / 512) (hout : ¬(addr ≤ k ∧ k < addr + len)) :
    ∃ m', SdBlk.blkWriteSectors host .ones m addr len = some m' ∧
      m'.cell k = m.buf.cell (k % 512) := by
  unfold SdBlk.blkWriteSectors
  by_cases htwo : addr / 512 * 512 + 512 < addr + len
  · obtain ⟨hdiv, hmod, -, hpos, hover⟩ := block_end hlen htwo
    rw [if_pos htwo]
    refine CArray.exists_bind_memcpy (by omega) (by omega) fun buf hcopy => ?_
    rw [hbdrv, Option.bind_some]
    simp only [write_fst, read_fst]
    have hcell : ({ m with buf := buf }.write bs host.write1 SdFaults.ones.write1
        (addr / 512)).2.cell k = m.buf.cell (k % 512) := by
      rw [write_landed haccepts (fun _ => rfl) hk]
      exact (hcopy _).trans (if_neg (by omega))
    split_ifs
    · exact ⟨_, rfl, hcell⟩
    · exact ⟨_, rfl, hcell⟩
    · refine CArray.exists_bind_memcpy (by omega) (by omega) fun buf2 _ => ⟨_, rfl, ?_⟩
      rw [write_other _ _ _ _ _ (by omega)]
      exact hcell
  · rw [if_neg htwo]
    refine CArray.exists_bind_memcpy (by omega) (by omega) fun buf hcopy => ?_
    simp only [hbdrv]
    refine ⟨_, rfl, ?_⟩
    rw [write_landed haccepts (fun _ => rfl) hk]
    exact (hcopy _).trans (if_neg (by omega))

/-- Behind the block, the second sector becomes what the stale buffer is. -/
theorem blkWriteTwo_second (m : SdBlk) (hlen : len ≤ 512)
    (htwo : addr / 512 * 512 + 512 < addr + len) {bs : BlockDriverState}
    (hbdrv : host.bdrv = some bs) (hbuf : ∀ i < 512, m.buf.cell i = 1)
    (hdata : ∀ i, m.data.cell i = 1) (hstop : bdrvWriteRet bs host.write1 (addr / 512) ≠ -1)
    (hmissed : BdrvMissed bs host.read2 ((addr + len) / 512))
    (haccepts : BdrvAccepts bs host.write2 ((addr + len) / 512)) :
    ∃ m', SdBlk.blkWriteTwo host .ones m addr len = some m' ∧ m'.cell (addr + len) = 1 := by
  obtain ⟨hdiv, hmod, -, hpos, hover⟩ := block_end hlen htwo
  refine CArray.exists_bind_memcpy (by omega) (by omega) fun buf hcopy => ?_
  rw [hbdrv, Option.bind_some]
  simp only [write_fst, read_fst, if_neg hstop, if_neg hmissed.2]
  refine CArray.exists_bind_memcpy (by omega) (by omega) fun buf2 hcopy2 => ⟨_, rfl, ?_⟩
  rw [write_landed haccepts (fun _ => rfl) rfl]
  refine (hcopy2 _).trans ((if_neg (by omega)).trans ?_)
  refine read_missed hmissed (fun _ => rfl) (fun i hi => ?_) _ (Nat.mod_lt _ (by decide))
  rw [write_buf]
  refine (hcopy i).trans ?_
  split_ifs
  · exact hdata _
  · exact hbuf i hi

/-- The device is zero from a byte on. -/
def onesBelow (k : Nat) : Nat → Byte := fun j => if j < k then 1 else 0

/-- A right host notices each missed read. -/
theorem noticed_of_right (hlen : len ≤ 512) (h : host.Right addr len) :
    host.Noticed addr len := by
  intro bs hbdrv
  have hbdrv : host.bdrv = some bs := hbdrv
  constructor
  · intro hpart hmissed haccepts
    -- the byte before the block or, in an aligned sector, the one behind it
    obtain ⟨k, hk, hout⟩ : ∃ k, k / 512 = addr / 512 ∧ ¬(addr ≤ k ∧ k < addr + len) := by
      by_cases haddr : addr % 512 = 0
      · exact ⟨addr + len, by omega, by omega⟩
      · exact ⟨addr / 512 * 512, by omega, by omega⟩
    obtain ⟨m', hm', hwrites⟩ := (h .ones (.const 512 1) (.const 512 1) (fun _ => 0)).2
    obtain ⟨m'', hm'', hcell⟩ := blkWriteSectors_first
      (SdBlk.read ⟨.const 512 1, .const 512 1, fun _ => 0, []⟩ bs host.read1 SdFaults.ones.read1
        (addr / 512)).2 hlen hbdrv haccepts hk hout
    simp only [SdBlk.blkWrite, if_pos hpart, hbdrv, read_fst, if_neg hmissed.2, hm''] at hm'
    cases hm'
    rw [read_missed hmissed (fun _ => rfl) (fun _ _ => rfl) _ (Nat.mod_lt _ (by decide))] at hcell
    rcases hwrites.only k with hold | ⟨hlo, hhi, -⟩
    · rw [hcell] at hold
      exact absurd hold (by decide : (1 : Byte) ≠ 0)
    · exact hout ⟨hlo, hhi⟩
  · intro htwo hret1 hstop hmissed haccepts
    obtain ⟨-, -, hbase, hpos, -⟩ := block_end hlen htwo
    obtain ⟨m', hm', hwrites⟩ :=
      (h .ones (.const 512 1) (.const 512 1) (onesBelow ((addr + len) / 512 * 512))).2
    obtain ⟨m'', hm'', hcell⟩ := blkWriteTwo_second
      (SdBlk.read ⟨.const 512 1, .const 512 1, onesBelow ((addr + len) / 512 * 512), []⟩ bs
        host.read1 SdFaults.ones.read1 (addr / 512)).2 hlen htwo hbdrv (fun i hi => by
          -- the first sector is without a zero
          by_cases hneg : bdrvReadRet bs host.read1 (addr / 512) < 0
          · exact read_missed ⟨hneg, hret1⟩ (fun _ => rfl) (fun _ _ => rfl) i hi
          · rw [read_buf _ _ _ _ _ (not_lt.mp hneg)]
            exact if_pos (by omega)) (fun _ => rfl) hstop hmissed haccepts
    simp only [SdBlk.blkWrite, if_pos (Or.inl hpos : addr % 512 ≠ 0 ∨ len < 512), hbdrv, read_fst,
      if_neg hret1, SdBlk.blkWriteSectors, if_pos htwo, hm''] at hm'
    cases hm'
    rcases hwrites.only (addr + len) with hold | ⟨-, hhi, -⟩
    · rw [hcell] at hold
      exact absurd (hold.trans (if_neg (by omega))) (by decide)
    · exact absurd hhi (Nat.lt_irrefl _)

/-- A block is read and written as it should be, whatever its bytes and the card's are, if and only
    if no sector is written whose read has failed with another value than `-1`. -/
theorem sd_blk (host : SdHost) (addr len : Nat) (hlen : len ≤ 512) :
    host.Right addr len ↔ host.Noticed addr len :=
  ⟨noticed_of_right hlen, fun h _ buf data cell =>
    ⟨blkRead_reads hlen _, blkWrite_writes hlen h ⟨buf, data, cell, []⟩⟩⟩

/-- A driver without errors, for a block in two sectors. -/
theorem sd_blk_aligned : SdHost.Right ⟨some ⟨true, false, false⟩, ⟨true, 2048, 0⟩, ⟨true, 2048, 0⟩,
    ⟨true, 2048, 0⟩, ⟨true, 2048, 0⟩⟩ 500 100 :=
  (sd_blk _ 500 100 (by decide)).mpr fun bs hbs => by
    cases hbs
    exact ⟨fun _ hmissed => absurd hmissed.1 (by decide),
      fun _ _ _ hmissed => absurd hmissed.1 (by decide)⟩

/-- The host cannot read the sector (`-EIO`), and the stale buffer is written around the block. -/
theorem sd_blk_stale : ¬SdHost.Right ⟨some ⟨true, false, false⟩, ⟨true, 2048, - EIO⟩,
    ⟨true, 2048, 0⟩, ⟨true, 2048, 0⟩, ⟨true, 2048, 0⟩⟩ 8 16 := fun h =>
  (noticed_of_right (by decide) h ⟨true, false, false⟩ rfl).1 (Or.inl (by decide))
    ⟨by decide, by decide⟩ ⟨rfl, rfl, by decide⟩

end Qemu.Hw
