import Mathlib.Data.Fin.Tuple.Basic
import Mathlib.Tactic.IntervalCases

namespace Qemu.Lib

/-!
# Byte streams

Writers are lists of bytes; a reader takes a value off the front of a stream and may abort.  Past
the end of a stream there are zeros.

* `Reads g bs a` — `g` reads `a` off `bs`, and leaves what comes behind `bs`;
* `Reads.bind`, `Reads.ite`, `Reads.vec` — sequences, options and loops;
* `reads_be16`, `reads_be32`, `reads_be64` — words with the most significant byte first;
* `Reads.list`, `take_flatMap`, `drop_flatMap` — lists of values of one size.
-/

/-- A byte. -/
abbrev Byte := BitVec 8

/-- A reader. -/
abbrev Get (α : Type) := StateT (List Byte) Option α

/-- The next byte, or zero behind the end. -/
def getByte : Get Byte := fun bs => some (bs.headD 0, bs.tail)

/-- The reader takes exactly these bytes and returns this value. -/
def Reads {α : Type} (g : Get α) (bs : List Byte) (a : α) : Prop :=
  ∀ rest, g (bs ++ rest) = some (a, rest)

variable {α β : Type}

theorem Reads.pure (a : α) : Reads (pure a) [] a := fun _ => rfl

theorem Reads.bind {g : Get α} {k : α → Get β} {bs bs' : List Byte} {a : α} {b : β}
    (hg : Reads g bs a) (hk : Reads (k a) bs' b) : Reads (g >>= k) (bs ++ bs') b := by
  intro rest
  show (g (bs ++ bs' ++ rest)).bind (fun p => k p.1 p.2) = _
  rw [List.append_assoc, hg]
  exact hk rest

theorem Reads.whole {g : Get α} {bs : List Byte} {a : α} (h : Reads g bs a) :
    g bs = some (a, []) := by
  have hrest := h []
  rwa [List.append_nil] at hrest

theorem Reads.map {g : Get α} {f : α → β} {bs : List Byte} {a : α} (hg : Reads g bs a) :
    Reads (g >>= fun a => Pure.pure (f a)) bs (f a) := by
  have h := hg.bind (k := fun a => Pure.pure (f a)) (Reads.pure (f a))
  rwa [List.append_nil] at h

theorem Reads.lift_bind {x : Option α} {a : α} (h : x = some a) {k : α → Get β} {bs : List Byte}
    {b : β} (hk : Reads (k a) bs b) : Reads (StateT.lift x >>= k) bs b := by
  have hx : Reads (StateT.lift x) [] a := by
    intro rest
    rw [h]
    rfl
  exact hx.bind hk

/-- A part that is there if a condition holds. -/
theorem Reads.ite {c : Prop} [Decidable c] {g g' : Get α} {bs bs' : List Byte} {a a' : α}
    (ht : c → Reads g bs a) (he : ¬c → Reads g' bs' a') :
    Reads (if c then g else g') (if c then bs else bs') (if c then a else a') := by
  split_ifs with h
  · exact ht h
  · exact he h

/-! ### Loops -/

/-- Reads `n` values. -/
def getVec (g : Get α) : (n : Nat) → Get (Fin n → α)
  | 0 => Pure.pure Fin.elim0
  | n + 1 => do
    let a ← g
    let v ← getVec g n
    Pure.pure (Fin.cons a v)

/-- Writes `n` values. -/
def putVec : {n : Nat} → (Fin n → List Byte) → List Byte
  | 0, _ => []
  | _ + 1, f => f 0 ++ putVec fun i => f i.succ

/-- Elements that are written one after the other are read back. -/
theorem Reads.vec {g : Get α} {n : Nat} {f : Fin n → List Byte} {v : Fin n → α}
    (h : ∀ i, Reads g (f i) (v i)) : Reads (getVec g n) (putVec f) v := by
  induction n with
  | zero =>
    have hv : v = Fin.elim0 := funext fun i => i.elim0
    rw [hv]
    exact Reads.pure _
  | succ n ih =>
    have hv : v = Fin.cons (v 0) fun i => v i.succ := (Fin.cons_self_tail v).symm
    rw [hv]
    exact (h 0).bind (Reads.map (ih fun i => h i.succ))

/-! ### Words -/

/-- A word from its bytes. -/
def be32 (b₃ b₂ b₁ b₀ : Byte) : BitVec 32 :=
  b₃.setWidth 32 <<< 24 ||| b₂.setWidth 32 <<< 16 ||| b₁.setWidth 32 <<< 8 ||| b₀.setWidth 32

/-- A double word from its two words. -/
def be64 (hi lo : BitVec 32) : BitVec 64 := hi.setWidth 64 <<< 32 ||| lo.setWidth 64

/-- A word is put together from its bytes. -/
theorem be32_bytes (v : BitVec 32) :
    be32 ((v >>> 24).setWidth 8) ((v >>> 16).setWidth 8) ((v >>> 8).setWidth 8) (v.setWidth 8) =
      v := by
  apply BitVec.eq_of_getLsbD_eq
  intro i hi
  unfold be32
  interval_cases i <;> simp

theorem be64_words (v : BitVec 64) : be64 ((v >>> 32).setWidth 32) (v.setWidth 32) = v := by
  apply BitVec.eq_of_getLsbD_eq
  intro i hi
  simp only [be64, BitVec.getLsbD_or, BitVec.getLsbD_shiftLeft, BitVec.getLsbD_setWidth,
    BitVec.getLsbD_ushiftRight]
  by_cases h : i < 32
  · simp [h, hi]
  · simp [h, hi, show 32 + (i - 32) = i by omega, show i - 32 < 64 by omega,
      show i - 32 < 32 by omega]

/-- A byte. -/
def putByte (b : Byte) : List Byte := [b]

/-- A word, most significant byte first. -/
def putBe32 (v : BitVec 32) : List Byte :=
  putByte ((v >>> 24).setWidth 8) ++ (putByte ((v >>> 16).setWidth 8) ++
    (putByte ((v >>> 8).setWidth 8) ++ putByte (v.setWidth 8)))

/-- Four bytes make a word. -/
def getBe32 : Get (BitVec 32) := do
  let b₃ ← getByte
  let b₂ ← getByte
  let b₁ ← getByte
  let b₀ ← getByte
  Pure.pure (be32 b₃ b₂ b₁ b₀)

theorem reads_byte (b : Byte) : Reads getByte (putByte b) b := fun _ => rfl

theorem reads_be32 (v : BitVec 32) : Reads getBe32 (putBe32 v) v := by
  suffices h : Reads getBe32 (putBe32 v) (be32 ((v >>> 24).setWidth 8) ((v >>> 16).setWidth 8)
      ((v >>> 8).setWidth 8) (v.setWidth 8)) by
    rwa [be32_bytes] at h
  unfold getBe32
  refine (reads_byte _).bind ?_
  refine (reads_byte _).bind ?_
  refine (reads_byte _).bind ?_
  exact (reads_byte _).map

/-- A double word, most significant word first. -/
def putBe64 (v : BitVec 64) : List Byte :=
  putBe32 ((v >>> 32).setWidth 32) ++ putBe32 (v.setWidth 32)

/-- Two words make a double word. -/
def getBe64 : Get (BitVec 64) := do
  let hi ← getBe32
  let lo ← getBe32
  Pure.pure (be64 hi lo)

/-- A double word that was written is read back. -/
theorem reads_be64 (v : BitVec 64) : Reads getBe64 (putBe64 v) v := by
  suffices h : Reads getBe64 (putBe64 v) (be64 ((v >>> 32).setWidth 32) (v.setWidth 32)) by
    rwa [be64_words] at h
  unfold getBe64
  refine (reads_be32 _).bind ?_
  exact (reads_be32 _).map

/-- A half word from its bytes. -/
def be16 (b₁ b₀ : Byte) : BitVec 16 := b₁.setWidth 16 <<< 8 ||| b₀.setWidth 16

/-- A half word is put together from its bytes. -/
theorem be16_bytes (v : BitVec 16) : be16 ((v >>> 8).setWidth 8) (v.setWidth 8) = v := by
  apply BitVec.eq_of_getLsbD_eq
  intro i hi
  unfold be16
  interval_cases i <;> simp

/-- A half word, most significant byte first. -/
def putBe16 (v : BitVec 16) : List Byte := putByte ((v >>> 8).setWidth 8) ++ putByte (v.setWidth 8)

/-- Two bytes make a half word. -/
def getBe16 : Get (BitVec 16) := do
  let b₁ ← getByte
  let b₀ ← getByte
  Pure.pure (be16 b₁ b₀)

/-- A half word that was written is read back. -/
theorem reads_be16 (v : BitVec 16) : Reads getBe16 (putBe16 v) v := by
  suffices h : Reads getBe16 (putBe16 v) (be16 ((v >>> 8).setWidth 8) (v.setWidth 8)) by
    rwa [be16_bytes] at h
  unfold getBe16
  refine (reads_byte _).bind ?_
  exact (reads_byte _).map

/-! ### Lists -/

/-- Reads `n` values. -/
def getList (g : Get α) : Nat → Get (List α)
  | 0 => Pure.pure []
  | n + 1 => do
    let a ← g
    let l ← getList g n
    Pure.pure (a :: l)

theorem Reads.list {g : Get α} {put : α → List Byte} (h : ∀ a, Reads g (put a) a) (l : List α) :
    Reads (getList g l.length) (l.flatMap put) l := by
  induction l with
  | nil => exact Reads.pure _
  | cons a l ih =>
    rw [List.flatMap_cons]
    exact (h a).bind (Reads.map ih)

variable {put : α → List β} {k : Nat}

theorem length_flatMap_of_length (hput : ∀ a, (put a).length = k) (l : List α) :
    (l.flatMap put).length = k * l.length := by
  induction l with
  | nil => rfl
  | cons a l ih =>
    rw [List.flatMap_cons, List.length_append, hput, ih, List.length_cons, Nat.mul_succ,
      Nat.add_comm]

theorem take_flatMap (hput : ∀ a, (put a).length = k) (l : List α) (i : Nat) :
    (l.flatMap put).take (k * i) = (l.take i).flatMap put := by
  induction l generalizing i with
  | nil => simp only [List.flatMap_nil, List.take_nil]
  | cons a l ih =>
    cases i with
    | zero => rfl
    | succ i =>
      rw [List.flatMap_cons, Nat.mul_succ, Nat.add_comm, ← hput a, List.take_length_add_append,
        hput, ih, List.take_succ_cons, List.flatMap_cons]

theorem drop_flatMap (hput : ∀ a, (put a).length = k) (l : List α) (i : Nat) :
    (l.flatMap put).drop (k * i) = (l.drop i).flatMap put := by
  induction l generalizing i with
  | nil => simp only [List.flatMap_nil, List.drop_nil]
  | cons a l ih =>
    cases i with
    | zero => rfl
    | succ i =>
      rw [List.flatMap_cons, Nat.mul_succ, Nat.add_comm, ← hput a, List.drop_length_add_append,
        hput, ih, List.drop_succ_cons]

end Qemu.Lib
