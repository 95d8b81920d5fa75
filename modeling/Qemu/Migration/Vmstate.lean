import Qemu.Lib.Reader

namespace Qemu.Migration

open Lib

/-!
# Devices described as data (`vmstate_save_state` and `vmstate_load_state` of `savevm.c`)

* `VMStateField`, `VMStateDescription` — what a description says.
* `vmstateSaveState`, `vmstateLoadState` — the two walks over a description.

The address of an object is its number, so that the device that is saved and the one that is loaded
have the same addresses.  A cell of the memory holds a byte or a pointer.
-/

/-! ### Memory -/

/-- An address: an object, and an offset in it. -/
structure Addr where
  object : Nat
  offset : Int
deriving DecidableEq

/-- An address some bytes on. -/
def Addr.add (a : Addr) (n : Int) : Addr := { a with offset := a.offset + n }

/-- The memory of the devices: bytes, and where pointers lead. -/
structure Mem where
  byte : Addr → Byte
  ptr : Addr → Addr

/-- A cell. -/
inductive Loc
  | byte (a : Addr)
  | pointer (a : Addr)

/-- A value as an `int`. -/
def cInt (x : Int) : Int := x.bmod (2 ^ 32)

/-- `*(int32_t *)a`. -/
def Mem.int32 (m : Mem) (a : Addr) : Int :=
  (be32 (m.byte (a.add 3)) (m.byte (a.add 2)) (m.byte (a.add 1)) (m.byte a)).toInt

/-- `*(uint16_t *)a`. -/
def Mem.uint16 (m : Mem) (a : Addr) : Int :=
  (be32 0 0 (m.byte (a.add 1)) (m.byte a)).toNat

/-- The bytes from an address on. -/
def Mem.load (m : Mem) (a : Addr) (n : Nat) : List Byte :=
  (List.range n).map fun i : Nat => m.byte (a.add i)

/-- Bytes are stored from an address on. -/
def Mem.store (m : Mem) (a : Addr) (bs : List Byte) : Mem :=
  { m with byte := fun x =>
      if x.object = a.object ∧ a.offset ≤ x.offset then
        (bs[(x.offset - a.offset).toNat]?).getD (m.byte x)
      else m.byte x }

/-! ### Descriptions -/

/-- `cells` is what the two functions are there for: the cells that hold the value at an address,
when it has this size. -/
structure VMStateInfo where
  get : Addr → Int → Mem → Reader (Int × Mem)
  put : Addr → Int → Mem → List Byte
  cells : Addr → Int → Set Loc

/-- `vmstate_info_buffer`. -/
def vmstateInfoBuffer : VMStateInfo where
  get a size m := Reader.getBuffer size.toNat >>= fun bs => pure (0, m.store a bs)
  put a size m := m.load a size.toNat
  cells a size := { l | ∃ i : Nat, i < size.toNat ∧ l = .byte (a.add i) }

/-- `VMS_POINTER` -/
def VMS_POINTER : Nat := 0x002

/-- `VMS_ARRAY` -/
def VMS_ARRAY : Nat := 0x004

/-- `VMS_VARRAY_INT32` -/
def VMS_VARRAY_INT32 : Nat := 0x010

/-- `VMS_ARRAY_OF_POINTER` -/
def VMS_ARRAY_OF_POINTER : Nat := 0x040

/-- `VMS_VARRAY_UINT16` -/
def VMS_VARRAY_UINT16 : Nat := 0x080

/-- `VMS_VBUFFER` -/
def VMS_VBUFFER : Nat := 0x100

/-- `VMS_MULTIPLY` -/
def VMS_MULTIPLY : Nat := 0x200

/-- `VMStateField` -/
structure VMStateField where
  offset : Nat
  size : Nat
  start : Nat
  num : Int
  numOffset : Nat
  sizeOffset : Nat
  flags : Nat
  versionId : Int
  fieldExists : Option (Addr → Mem → Int → Bool)

/-- What a description holds besides its fields. -/
structure VMStateHead where
  versionId : Int
  minimumVersionId : Int
  minimumVersionIdOld : Int
  loadStateOld : Addr → Int → Mem → Reader (Int × Mem)
  preLoad : Option (Addr → Mem → Int × Mem)
  postLoad : Option (Addr → Int → Mem → Int × Mem)
  preSave : Option (Addr → Mem → Mem)
  postSave : Option (Addr → Mem → Mem)

mutual

/-- `VMStateDescription`, whose fields may be descriptions themselves. -/
inductive VMStateDescription
  | mk (head : VMStateHead) (fields : VMStateFields)

/-- The fields up to the one without a name.  `VMS_STRUCT` tells the two kinds apart. -/
inductive VMStateFields
  | nil
  | leaf (field : VMStateField) (info : VMStateInfo) (rest : VMStateFields)
  | struct (field : VMStateField) (vmsd : VMStateDescription) (rest : VMStateFields)

end

/-- What it has besides its fields. -/
def VMStateDescription.head : VMStateDescription → VMStateHead
  | mk head _ => head

/-! ### The elements of a field -/

namespace VMStateField

variable (field : VMStateField)

/-- The field has the flag. -/
def has (flag : Nat) : Bool := field.flags &&& flag != 0

/-- `size`. -/
def elemSize (a : Addr) (m : Mem) : Int :=
  if field.has VMS_VBUFFER then
    let size := m.int32 (a.add field.sizeOffset)
    if field.has VMS_MULTIPLY then cInt (size * field.size) else size
  else cInt field.size

/-- `n_elems`. -/
def count (a : Addr) (m : Mem) : Int :=
  if field.has VMS_ARRAY then field.num
  else if field.has VMS_VARRAY_INT32 then m.int32 (a.add field.numOffset)
  else if field.has VMS_VARRAY_UINT16 then m.uint16 (a.add field.numOffset)
  else 1

/-- `base_addr`. -/
def baseAddr (a : Addr) (m : Mem) : Addr :=
  if field.has VMS_POINTER then (m.ptr (a.add field.offset)).add field.start
  else a.add field.offset

/-- `addr` of the element `i`. -/
def elemAddr (base : Addr) (size : Int) (m : Mem) (i : Nat) : Addr :=
  let addr := base.add (cInt (size * i))
  if field.has VMS_ARRAY_OF_POINTER then m.ptr addr else addr

/-- The test of `vmstate_save_state`. -/
def isSaved (versionId : Int) (a : Addr) (m : Mem) : Bool :=
  match field.fieldExists with
  | none => true
  | some test => test a m versionId

/-- The test of `vmstate_load_state`. -/
def isLoaded (versionId : Int) (a : Addr) (m : Mem) : Bool :=
  match field.fieldExists with
  | none => field.versionId ≤ versionId
  | some test => test a m versionId

end VMStateField

/-! ### Saving -/

/-- The loop over the elements, from `i` on. -/
def saveElems (save : Addr → Mem → List Byte × Mem) (addr : Mem → Nat → Addr) :
    Nat → Nat → Mem → List Byte × Mem
  | 0, _, m => ([], m)
  | n + 1, i, m =>
    let (out, m) := save (addr m i) m
    let (more, m) := saveElems save addr n (i + 1) m
    (out ++ more, m)

/-- One field of `vmstate_save_state`. -/
def saveField (field : VMStateField) (save : Int → Addr → Mem → List Byte × Mem)
    (versionId : Int) (a : Addr) (m : Mem) : List Byte × Mem :=
  if field.isSaved versionId a m then
    saveElems (save (field.elemSize a m))
      (field.elemAddr (field.baseAddr a m) (field.elemSize a m)) (field.count a m).toNat 0 m
  else ([], m)

/-- The call of `pre_save`. -/
def VMStateHead.runPreSave (head : VMStateHead) (a : Addr) (m : Mem) : Mem :=
  match head.preSave with
  | none => m
  | some preSave => preSave a m

/-- The call of `post_save`. -/
def VMStateHead.runPostSave (head : VMStateHead) (a : Addr) (m : Mem) : Mem :=
  match head.postSave with
  | none => m
  | some postSave => postSave a m

mutual

/-- The bytes that are written, and what the hooks leave of the device. -/
def vmstateSaveState : VMStateDescription → Addr → Mem → List Byte × Mem
  | .mk head fields, a, m =>
    let (out, m) := saveFields fields head.versionId a (head.runPreSave a m)
    (out, head.runPostSave a m)

/-- The loop of `vmstate_save_state`. -/
def saveFields : VMStateFields → Int → Addr → Mem → List Byte × Mem
  | .nil, _, _, m => ([], m)
  | .leaf field info rest, versionId, a, m =>
    let (out, m) := saveField field (fun size addr m => (info.put addr size m, m)) versionId a m
    let (more, m) := saveFields rest versionId a m
    (out ++ more, m)
  | .struct field vmsd rest, versionId, a, m =>
    let (out, m) := saveField field (fun _ addr m => vmstateSaveState vmsd addr m) versionId a m
    let (more, m) := saveFields rest versionId a m
    (out ++ more, m)

end

/-! ### Loading -/

/-- The elements of a field, up to an error. -/
def loadElems (load : Addr → Mem → Reader (Int × Mem)) (addr : Mem → Nat → Addr) :
    Nat → Nat → Mem → Reader (Int × Mem)
  | 0, _, m => pure (0, m)
  | n + 1, i, m => do
    let r ← load (addr m i) m
    if r.1 < 0 then pure r else loadElems load addr n (i + 1) r.2

/-- One field of `vmstate_load_state`. -/
def loadField (field : VMStateField) (load : Int → Addr → Mem → Reader (Int × Mem))
    (versionId : Int) (a : Addr) (m : Mem) : Reader (Int × Mem) :=
  if field.isLoaded versionId a m then
    loadElems (load (field.elemSize a m))
      (field.elemAddr (field.baseAddr a m) (field.elemSize a m)) (field.count a m).toNat 0 m
  else pure (0, m)

/-- The call of `pre_load`. -/
def VMStateHead.runPreLoad (head : VMStateHead) (a : Addr) (m : Mem) : Int × Mem :=
  match head.preLoad with
  | none => (0, m)
  | some preLoad => preLoad a m

/-- The call of `post_load`. -/
def VMStateHead.runPostLoad (head : VMStateHead) (a : Addr) (versionId : Int) (m : Mem) :
    Int × Mem :=
  match head.postLoad with
  | none => (0, m)
  | some postLoad => postLoad a versionId m

/-- `-EINVAL`. -/
def invalid : Int := -22

mutual

/-- The value that is returned, and what the device holds then. -/
def vmstateLoadState : VMStateDescription → Addr → Int → Mem → Reader (Int × Mem)
  | .mk head fields, a, versionId, m =>
    if versionId > head.versionId then pure (invalid, m)
    else if versionId < head.minimumVersionIdOld then pure (invalid, m)
    else if versionId < head.minimumVersionId then head.loadStateOld a versionId m
    else if (head.runPreLoad a m).1 ≠ 0 then pure (head.runPreLoad a m)
    else do
      let r ← loadFields fields versionId a (head.runPreLoad a m).2
      if r.1 < 0 then pure r else pure (head.runPostLoad a versionId r.2)

/-- The loop of `vmstate_load_state`. -/
def loadFields : VMStateFields → Int → Addr → Mem → Reader (Int × Mem)
  | .nil, _, _, m => pure (0, m)
  | .leaf field info rest, versionId, a, m => do
    let r ← loadField field (fun size addr m => info.get addr size m) versionId a m
    if r.1 < 0 then pure r else loadFields rest versionId a r.2
  | .struct field vmsd rest, versionId, a, m => do
    let r ← loadField field
      (fun _ addr m => vmstateLoadState vmsd addr vmsd.head.versionId m) versionId a m
    if r.1 < 0 then pure r else loadFields rest versionId a r.2

end

end Qemu.Migration
