import Qemu.Lib.Reader
import Mathlib.Data.List.Nodup
import Mathlib.Data.List.TakeWhile

namespace Qemu.Migration

open Lib

/-!
# The stream of a saved machine (`savevm.c`)

* `SaveStateEntry`, `SavevmHandlers` — what devices have registered to be saved and loaded.
* `qemuSavevmStateBegin`, `qemuSavevmStateIterate`, `qemuSavevmStateComplete` — the three parts of
  a stream, on a file that takes everything that is written.
* `qemuLoadvmState` — a stream is loaded.

The handlers work on a state `σ`, the machine's.  Those that save may write anything.
-/

variable {σ : Type}

/-! ### Handlers -/

/-- A handler that loads: it reads the file from the front.  The value it returns is an error if
it is negative. -/
structure LoadStateHandler (σ : Type) where
  run : BitVec 32 → σ → Reader (Int × σ)
  sequential : ∀ versionId s, Reader.Sequential (run versionId s)

/-- A description with what `vmstate_save_state` and `vmstate_load_state` do for it. -/
structure Description (σ : Type) where
  address : Nat
  name : List Byte
  versionId : BitVec 32
  save : σ → List Byte × σ
  load : LoadStateHandler σ

/-- `idstr` is the part of the array in front of the NUL. -/
structure SaveStateEntry (σ : Type) where
  idstr : List Byte
  idstr_noNul : 0 ∉ idstr
  idstr_length : idstr.length < 256
  instanceId : BitVec 32
  versionId : BitVec 32
  sectionId : BitVec 32
  device : Nat
  setParams : Option (Int → Int → σ → σ)
  saveLiveState : Option (Byte → σ → Int × List Byte × σ)
  saveState : Option (σ → List Byte × σ)
  loadState : LoadStateHandler σ
  vmsd : Option (Description σ)

/-- What the reader looks for. -/
def SaveStateEntry.key (se : SaveStateEntry σ) : List Byte × BitVec 32 := (se.idstr, se.instanceId)

/-- The entry with a section id. -/
def SaveStateEntry.number (se : SaveStateEntry σ) (id : Nat) : SaveStateEntry σ :=
  { se with sectionId := BitVec.ofNat 32 id }

/-! ### Registration -/

/-- The list `savevm_handlers` and `global_section_id`. -/
structure SavevmHandlers (σ : Type) where
  entries : List (SaveStateEntry σ)
  globalSectionId : Nat
  fresh : ∀ se ∈ entries, se.sectionId.toNat < globalSectionId
  nodup : (entries.map SaveStateEntry.sectionId).Nodup

/-- At the start nothing is registered. -/
def SavevmHandlers.empty : SavevmHandlers σ where
  entries := []
  globalSectionId := 0
  fresh _ h := absurd h List.not_mem_nil
  nodup := List.nodup_nil

/-- `QTAILQ_INSERT_TAIL` of an entry with the next section id.  The counter is an `int` that must
not overflow. -/
def SavevmHandlers.insertTail (hs : SavevmHandlers σ) (se : SaveStateEntry σ) :
    Option (SavevmHandlers σ) :=
  if h : hs.globalSectionId < 2 ^ 31 then
    have hnew : (se.number hs.globalSectionId).sectionId.toNat = hs.globalSectionId := by
      unfold SaveStateEntry.number
      rw [BitVec.toNat_ofNat]
      omega
    some {
      entries := hs.entries ++ [se.number hs.globalSectionId]
      globalSectionId := hs.globalSectionId + 1
      fresh := by
        intro e he
        rcases List.mem_append.mp he with he | he
        · exact Nat.lt_succ_of_lt (hs.fresh e he)
        · rw [List.mem_singleton.mp he, hnew]
          exact Nat.lt_succ_self _
      nodup := by
        rw [List.map_append, List.map_singleton]
        apply hs.nodup.append (List.nodup_singleton _)
        apply List.disjoint_singleton.mpr
        intro hmem
        obtain ⟨e, he, heq⟩ := List.mem_map.mp hmem
        have hlt := hs.fresh e he
        rw [heq, hnew] at hlt
        exact Nat.lt_irrefl _ hlt }
  else none

/-- `QTAILQ_REMOVE` of the entries that match. -/
def SavevmHandlers.remove (hs : SavevmHandlers σ) (p : SaveStateEntry σ → Bool) :
    SavevmHandlers σ where
  entries := hs.entries.filter fun se => !p se
  globalSectionId := hs.globalSectionId
  fresh se h := hs.fresh se (List.mem_of_mem_filter h)
  nodup := hs.nodup.sublist (List.filter_sublist.map _)

/-- `pstrcpy` to an array of 256 bytes. -/
def pstrcpy (str : List Byte) : List Byte := (str.takeWhile (· ≠ 0)).take 255

theorem pstrcpy_noNul (str : List Byte) : 0 ∉ pstrcpy str := by
  intro h
  simpa using List.mem_takeWhile_imp (List.mem_of_mem_take h)

theorem pstrcpy_length (str : List Byte) : (pstrcpy str).length < 256 :=
  lt_of_le_of_lt (List.length_take_le _ _) (by decide)

/-- `calculate_new_instance_id`. -/
def calculateNewInstanceId (hs : SavevmHandlers σ) (idstr : List Byte) : BitVec 32 :=
  hs.entries.foldl (fun instanceId se =>
    if se.idstr = idstr ∧ instanceId.sle se.instanceId then se.instanceId + 1 else instanceId) 0

/-- The instance id an entry gets. -/
def newInstanceId (hs : SavevmHandlers σ) (idstr : List Byte) (instanceId : BitVec 32) :
    BitVec 32 :=
  if instanceId = -1 then calculateNewInstanceId hs (idstr.takeWhile (· ≠ 0)) else instanceId

/-- `register_savevm_live` -/
def registerSavevmLive (hs : SavevmHandlers σ) (idstr : List Byte)
    (instanceId versionId : BitVec 32) (setParams : Option (Int → Int → σ → σ))
    (saveLiveState : Option (Byte → σ → Int × List Byte × σ))
    (saveState : Option (σ → List Byte × σ)) (loadState : LoadStateHandler σ) (device : Nat) :
    Option (SavevmHandlers σ) :=
  hs.insertTail {
    idstr := pstrcpy idstr
    idstr_noNul := pstrcpy_noNul idstr
    idstr_length := pstrcpy_length idstr
    instanceId := newInstanceId hs idstr instanceId
    versionId := versionId
    sectionId := 0
    device := device
    setParams := setParams
    saveLiveState := saveLiveState
    saveState := saveState
    loadState := loadState
    vmsd := none }

/-- `register_savevm` -/
def registerSavevm (hs : SavevmHandlers σ) (idstr : List Byte) (instanceId versionId : BitVec 32)
    (saveState : Option (σ → List Byte × σ)) (loadState : LoadStateHandler σ) (device : Nat) :
    Option (SavevmHandlers σ) :=
  registerSavevmLive hs idstr instanceId versionId none none saveState loadState device

/-- `unregister_savevm` -/
def unregisterSavevm (hs : SavevmHandlers σ) (idstr : List Byte) (device : Nat) :
    SavevmHandlers σ :=
  hs.remove fun se => se.idstr == idstr && se.device == device

/-- Nothing calls `load_state` of an entry with a description. -/
def vmstateRegister (hs : SavevmHandlers σ) (instanceId : BitVec 32) (vmsd : Description σ)
    (device : Nat) : Option (SavevmHandlers σ) :=
  hs.insertTail {
    idstr := pstrcpy vmsd.name
    idstr_noNul := pstrcpy_noNul vmsd.name
    idstr_length := pstrcpy_length vmsd.name
    instanceId := newInstanceId hs vmsd.name instanceId
    versionId := vmsd.versionId
    sectionId := 0
    device := device
    setParams := none
    saveLiveState := none
    saveState := none
    loadState := vmsd.load
    vmsd := some vmsd }

/-- `vmstate_unregister` -/
def vmstateUnregister (hs : SavevmHandlers σ) (vmsd device : Nat) : SavevmHandlers σ :=
  hs.remove fun se => se.vmsd.any (·.address == vmsd) && se.device == device

/-! ### Saving -/

/-- `QEMU_VM_FILE_MAGIC` -/
def QEMU_VM_FILE_MAGIC : BitVec 32 := 0x5145564d

/-- `QEMU_VM_FILE_VERSION_COMPAT` -/
def QEMU_VM_FILE_VERSION_COMPAT : BitVec 32 := 2

/-- `QEMU_VM_FILE_VERSION` -/
def QEMU_VM_FILE_VERSION : BitVec 32 := 3

/-- `QEMU_VM_EOF` -/
def QEMU_VM_EOF : Byte := 0

/-- `QEMU_VM_SECTION_START` -/
def QEMU_VM_SECTION_START : Byte := 1

/-- `QEMU_VM_SECTION_PART` -/
def QEMU_VM_SECTION_PART : Byte := 2

/-- `QEMU_VM_SECTION_END` -/
def QEMU_VM_SECTION_END : Byte := 3

/-- `QEMU_VM_SECTION_FULL` -/
def QEMU_VM_SECTION_FULL : Byte := 4

/-- The header of a section that names its entry. -/
def startHeader (type : Byte) (se : SaveStateEntry σ) : List Byte :=
  putByte type ++ (putBe32 se.sectionId ++ (putByte (BitVec.ofNat 8 se.idstr.length) ++
    (se.idstr ++ (putBe32 se.instanceId ++ putBe32 se.versionId))))

/-- The header of a section that goes on with one that was started. -/
def partHeader (type : Byte) (se : SaveStateEntry σ) : List Byte :=
  putByte type ++ putBe32 se.sectionId

/-- `vmstate_save`, where there is something to call. -/
def vmstateSave (se : SaveStateEntry σ) : Option (σ → List Byte × σ) :=
  match se.vmsd with
  | none => se.saveState
  | some vmsd => some vmsd.save

/-- A section that names its entry. -/
def putStart (type : Byte) (se : SaveStateEntry σ) (payload : List Byte) : List Byte :=
  startHeader type se ++ payload

/-- A section that goes on with one that was started. -/
def putPart (type : Byte) (se : SaveStateEntry σ) (payload : List Byte) : List Byte :=
  partHeader type se ++ payload

section

-- what is made of a section: its bytes in a stream, the section itself in a trace
variable {β : Type} (put : Byte → SaveStateEntry σ → List Byte → List β)

/-- Every live entry writes a section of one type. -/
def saveLive (type : Byte) : List (SaveStateEntry σ) → σ → List β × σ
  | [], s => ([], s)
  | se :: rest, s =>
    match se.saveLiveState with
    | none => saveLive type rest s
    | some save =>
      let (_, payload, s) := save type s
      let (out, s) := saveLive type rest s
      (put type se payload ++ out, s)

/-- The loop of `qemu_savevm_state_iterate` from an entry on; `ret` is what the last handler
returned. -/
def iterateLoop : List (SaveStateEntry σ) → Int → σ → Int × List β × σ
  | [], ret, s => (ret, [], s)
  | se :: rest, ret, s =>
    match se.saveLiveState with
    | none => iterateLoop rest ret s
    | some save =>
      let (ret, payload, s) := save QEMU_VM_SECTION_PART s
      -- a handler that has more to send keeps the later ones waiting
      let (ret, out, s) := if ret = 0 then (ret, [], s) else iterateLoop rest ret s
      (ret, put QEMU_VM_SECTION_PART se payload ++ out, s)

/-- Every entry that is not only live writes all it has. -/
def saveFull : List (SaveStateEntry σ) → σ → List β × σ
  | [], s => ([], s)
  | se :: rest, s =>
    match vmstateSave se with
    | none => saveFull rest s
    | some save =>
      let (payload, s) := save s
      let (out, s) := saveFull rest s
      (put QEMU_VM_SECTION_FULL se payload ++ out, s)

end

/-- The calls of `set_params`. -/
def setParams (blkEnable shared : Int) (entries : List (SaveStateEntry σ)) (s : σ) : σ :=
  entries.foldl (fun s se =>
    match se.setParams with
    | none => s
    | some set => set blkEnable shared s) s

/-- `qemu_savevm_state_begin` -/
def qemuSavevmStateBegin (hs : SavevmHandlers σ) (blkEnable shared : Int) (s : σ) :
    List Byte × σ :=
  let s := setParams blkEnable shared hs.entries s
  let (out, s) := saveLive putStart QEMU_VM_SECTION_START hs.entries s
  (putBe32 QEMU_VM_FILE_MAGIC ++ (putBe32 QEMU_VM_FILE_VERSION ++ out), s)

/-- `qemu_savevm_state_iterate` -/
def qemuSavevmStateIterate (hs : SavevmHandlers σ) (s : σ) : Int × List Byte × σ :=
  let (ret, out, s) := iterateLoop putPart hs.entries 1 s
  (if ret = 0 then 0 else 1, out, s)

/-- `qemu_savevm_state_complete` -/
def qemuSavevmStateComplete (hs : SavevmHandlers σ) (s : σ) : List Byte × σ :=
  let (live, s) := saveLive putPart QEMU_VM_SECTION_END hs.entries s
  let (full, s) := saveFull putStart hs.entries s
  (live ++ (full ++ putByte QEMU_VM_EOF), s)

/-- The calls of `qemu_savevm_state_iterate`, one after each run of the machine. -/
def iterateCalls (hs : SavevmHandlers σ) : List (σ → σ) → σ → List Byte × σ
  | [], s => ([], s)
  | run :: runs, s =>
    let (_, out, s) := qemuSavevmStateIterate hs (run s)
    let (more, s) := iterateCalls hs runs s
    (out ++ more, s)

/-- A whole stream: the machine runs before each iteration, and once more before the end. -/
def savevmStream (hs : SavevmHandlers σ) (blkEnable shared : Int) (runs : List (σ → σ))
    (run : σ → σ) (s : σ) : List Byte :=
  let (begun, s) := qemuSavevmStateBegin hs blkEnable shared s
  let (parts, s) := iterateCalls hs runs s
  let (completed, _) := qemuSavevmStateComplete hs (run s)
  begun ++ (parts ++ completed)

/-! ### Loading -/

def EIO : Int := 5
def EINVAL : Int := 22
def ENOTSUP : Int := 95

/-- `LoadStateEntry` -/
structure LoadStateEntry (σ : Type) where
  se : SaveStateEntry σ
  sectionId : BitVec 32
  versionId : BitVec 32

/-- `find_se` -/
def findSe (hs : SavevmHandlers σ) (idstr : List Byte) (instanceId : BitVec 32) :
    Option (SaveStateEntry σ) :=
  hs.entries.find? fun se => se.idstr == idstr && se.instanceId == instanceId

/-- `vmstate_load` -/
def vmstateLoad (se : SaveStateEntry σ) (versionId : BitVec 32) (t : σ) : Reader (Int × σ) :=
  match se.vmsd with
  | none => se.loadState.run versionId t
  | some vmsd => vmsd.load.run versionId t

/-- The string that stands in `idstr` after `len` bytes were to be read into it.  Where the file
ends too early, the array keeps what the stack held. -/
def idstrRead (stack : List Byte) (len : Byte) (bytes : List Byte) : List Byte :=
  ((bytes ++ stack.drop bytes.length).take len.toNat).takeWhile (· ≠ 0)

/-- What a section changes, and the value that ends the loop if it is negative. -/
structure Loaded (σ : Type) where
  ret : Int
  loadvmHandlers : List (LoadStateEntry σ)
  state : σ

section

variable (hs : SavevmHandlers σ) (stack : List Byte)

/-- What a section that names its entry goes on with, after `find_se`. -/
def loadFound (les : List (LoadStateEntry σ)) (t : σ) (sectionId versionId : BitVec 32) :
    Option (SaveStateEntry σ) → Reader (Loaded σ)
  | none => pure ⟨-EINVAL, les, t⟩
  | some se =>
    if se.versionId < versionId then pure ⟨-EINVAL, les, t⟩
    else do
      let (ret, t) ← vmstateLoad se versionId t
      pure ⟨ret, ⟨se, sectionId, versionId⟩ :: les, t⟩

/-- The cases `QEMU_VM_SECTION_START` and `QEMU_VM_SECTION_FULL`. -/
def loadStart (les : List (LoadStateEntry σ)) (t : σ) : Reader (Loaded σ) := do
  let sectionId ← Reader.getBe32
  let len ← Reader.getByte
  let bytes ← Reader.getBuffer len.toNat
  let instanceId ← Reader.getBe32
  let versionId ← Reader.getBe32
  loadFound les t sectionId versionId (findSe hs (idstrRead stack len bytes) instanceId)

/-- What a section that goes on with another does, after that is looked up. -/
def loadKnown (les : List (LoadStateEntry σ)) (t : σ) :
    Option (LoadStateEntry σ) → Reader (Loaded σ)
  | none => pure ⟨-EINVAL, les, t⟩
  | some le => do
    let (ret, t) ← vmstateLoad le.se le.versionId t
    pure ⟨ret, les, t⟩

/-- The cases `QEMU_VM_SECTION_PART` and `QEMU_VM_SECTION_END`. -/
def loadPart (les : List (LoadStateEntry σ)) (t : σ) : Reader (Loaded σ) := do
  let sectionId ← Reader.getBe32
  loadKnown les t (les.find? fun le => le.sectionId == sectionId)

/-- One section of `qemu_loadvm_state`, by its type. -/
def loadSection (type : Byte) (les : List (LoadStateEntry σ)) (t : σ) : Reader (Loaded σ) :=
  if type = QEMU_VM_SECTION_START ∨ type = QEMU_VM_SECTION_FULL then loadStart hs stack les t
  else if type = QEMU_VM_SECTION_PART ∨ type = QEMU_VM_SECTION_END then loadPart les t
  else pure ⟨-EINVAL, les, t⟩

/-- The loop over the sections, with fuel. -/
def loadLoop : Nat → List (LoadStateEntry σ) → σ → Reader (Option (Int × σ))
  | 0, _, _ => pure none
  | fuel + 1, les, t => do
    let type ← Reader.getByte
    if type = QEMU_VM_EOF then pure (some (0, t))
    else do
      let r ← loadSection hs stack type les t
      if r.ret < 0 then pure (some (r.ret, r.state))
      else loadLoop fuel r.loadvmHandlers r.state

/-- What happens at `out`. -/
def loadOut : Option (Int × σ) → Reader (Option (Int × σ))
  | none => pure none
  | some (ret, t) => do
    let error ← Reader.hasError
    pure (some (if error then - EIO else ret, t))

/-- `qemu_loadvm_state`, with fuel for its loop. -/
def loadFile (fuel : Nat) (t : σ) : Reader (Option (Int × σ)) := do
  let magic ← Reader.getBe32
  if magic ≠ QEMU_VM_FILE_MAGIC then pure (some (-EINVAL, t))
  else do
    let version ← Reader.getBe32
    if version = QEMU_VM_FILE_VERSION_COMPAT then pure (some (-ENOTSUP, t))
    else if version ≠ QEMU_VM_FILE_VERSION then pure (some (-ENOTSUP, t))
    else do
      let r ← loadLoop hs stack fuel [] t
      loadOut r

/-- `qemu_loadvm_state`: the value it returns and the state it leaves.  Each turn of the loop takes
a byte, so this fuel is enough (`loadFile_isSome`). -/
def qemuLoadvmState (data : List Byte) (t : σ) : Option (Int × σ) :=
  (loadFile hs stack (data.length + 1) t ⟨data, false⟩).1

end

end Qemu.Migration
