import Qemu.Lib.Stream

namespace Qemu.Json

open Lib

/-!
# Objects (`qobject.h`, `qdict.c`)

* `QObject` — the objects.
* `qdictPutObj` — a key of a dictionary is set.

Strings are the bytes in front of the NUL.
-/

/-- What comes from the C library. -/
structure Libc where
  strtod : List Byte → BitVec 64
  /-- `"%f"`. -/
  printDouble : BitVec 64 → List Byte

/-- A dictionary is its table, bucket after bucket: the entries in the order `qdict_iter` visits
them. -/
inductive QObject
  | qint (value : BitVec 64)
  | qstring (str : List Byte)
  | qbool (value : Bool)
  | qfloat (value : BitVec 64)
  | qlist (l : List QObject)
  | qdict (entries : List (List Byte × QObject))

/-- A character of the source. -/
def ascii (c : Char) : Byte := BitVec.ofNat 8 c.toNat

/-- The double quote. -/
def quote : Byte := 0x22

/-- The backslash. -/
def backslash : Byte := 0x5C

/-! ### Dictionaries -/

/-- `QDICT_HASH_SIZE` -/
def QDICT_HASH_SIZE : Nat := 512

/-- The loop of `tdb_hash` from the character `i` on. -/
def tdbHashLoop : List Byte → Nat → BitVec 32 → BitVec 32
  | [], _, value => value
  | b :: name, i, value => tdbHashLoop name (i + 1) (value + b.setWidth 32 <<< (i * 5 % 24))

/-- Nothing depends on what the hash is. -/
@[irreducible]
def tdbHash (name : List Byte) : BitVec 32 :=
  1103515243 * tdbHashLoop name 0 (0x238F13AF * BitVec.ofNat 32 name.length) + 12345

/-- The bucket of a key. -/
def bucket (key : List Byte) : Nat := (tdbHash key).toNat % QDICT_HASH_SIZE

/-- The value of an entry is replaced. -/
def qdictReplace (key : List Byte) (value : QObject) :
    List (List Byte × QObject) → List (List Byte × QObject)
  | [] => []
  | (k, v) :: rest => if k = key then (k, value) :: rest else (k, v) :: qdictReplace key value rest

/-- A new entry at the head of its bucket. -/
def qdictInsert (key : List Byte) (value : QObject) :
    List (List Byte × QObject) → List (List Byte × QObject)
  | [] => [(key, value)]
  | (k, v) :: rest =>
    if bucket k < bucket key then (k, v) :: qdictInsert key value rest
    else (key, value) :: (k, v) :: rest

/-- `qdict_put_obj` -/
def qdictPutObj (entries : List (List Byte × QObject)) (key : List Byte) (value : QObject) :
    List (List Byte × QObject) :=
  match entries.lookup key with
  | some _ => qdictReplace key value entries
  | none => qdictInsert key value entries

end Qemu.Json
