import Qemu.Lib.Stream

namespace Qemu.Lib

/-!
# Readers of a file that can end

A file that is read from the front, and that remembers when somebody read past its end.

* `Reader.Consumes` — a reader takes these bytes off the front of any file.
* `Reader.Takes` — it also meets the end of a file that is only a part of them.
* `Reader.Sequential` — a reader that looks at a file through these operations only: what it has
  taken from one file, it takes from any other that begins with the same bytes.
* `Consumes.bind`, `Takes.bind`, `Sequential.bind` — sequences.
-/

/-- What is left to read, and whether the end was met. -/
@[ext]
structure InFile where
  data : List Byte
  hasError : Bool

/-- What reads from a file and may find an error. -/
abbrev Reader (α : Type) := StateM InFile α

namespace Reader

/-- A byte; `0` at the end. -/
def getByte : Reader Byte := fun f =>
  match f.data with
  | [] => (0, { f with hasError := true })
  | b :: l => (b, { f with data := l })

/-- A buffer, shorter if the end is met. -/
def getBuffer (size : Nat) : Reader (List Byte) := fun f =>
  (f.data.take size,
    { data := f.data.drop size, hasError := f.hasError || decide (f.data.length < size) })

/-- `qemu_file_has_error` -/
def hasError : Reader Bool := fun f => (f.hasError, f)

/-- A word, the most significant byte first. -/
def getBe32 : Reader (BitVec 32) := do
  let b₃ ← getByte
  let b₂ ← getByte
  let b₁ ← getByte
  let b₀ ← getByte
  Pure.pure (be32 b₃ b₂ b₁ b₀)

/-- `qemu_get_be64` -/
def getBe64 : Reader (BitVec 64) := do
  let hi ← getBe32
  let lo ← getBe32
  Pure.pure (be64 hi lo)

variable {α β : Type}

/-- The error of a file stays. -/
def Sticky (m : Reader α) : Prop := ∀ f, f.hasError = true → (m f).2.hasError = true

/-- The reader takes exactly these bytes. -/
def Consumes (m : Reader α) (bs : List Byte) (a : α) : Prop :=
  ∀ rest, m ⟨bs ++ rest, false⟩ = (a, ⟨rest, false⟩)

/-- If some of the bytes are missing, the reader meets the end. -/
structure Takes (m : Reader α) (bs : List Byte) (a : α) : Prop where
  whole : Consumes m bs a
  short : ∀ p, p <+: bs → p ≠ bs → (m ⟨p, false⟩).2.hasError = true

/-- It only moves forward in the file, and keeps an error that it finds. -/
structure Sequential (m : Reader α) : Prop where
  sticky : Sticky m
  suffix : ∀ f, (m f).2.data <:+ f.data
  takes : ∀ bs rest a, m ⟨bs ++ rest, false⟩ = (a, ⟨rest, false⟩) → Takes m bs a

/-! ### Sequences -/

/-- The second reader goes on where the first one ended. -/
theorem bind_apply (m : Reader α) (k : α → Reader β) (f : InFile) :
    (m >>= k) f = k (m f).1 (m f).2 := rfl

theorem Sticky.pure (a : α) : Sticky (Pure.pure a : Reader α) := fun _ h => h

variable {k : α → Reader β} {m : Reader α}

theorem Sticky.bind (hm : Sticky m) (hk : ∀ a, Sticky (k a)) : Sticky (m >>= k) :=
  fun f h => hk _ _ (hm f h)

theorem Sticky.ite {c : Prop} [Decidable c] {m' : Reader α} (hm : Sticky m) (hm' : Sticky m') :
    Sticky (if c then m else m') := by
  split_ifs
  · exact hm
  · exact hm'

theorem Consumes.pure (a : α) : Consumes (Pure.pure a : Reader α) [] a := fun _ => rfl

variable {a : α} {b : β} {bs : List Byte}

theorem Consumes.bind {bs' : List Byte} (hm : Consumes m bs a) (hk : Consumes (k a) bs' b) :
    Consumes (m >>= k) (bs ++ bs') b := by
  intro rest
  rw [bind_apply, List.append_assoc, hm (bs' ++ rest)]
  exact hk rest

theorem Consumes.bind_nil (hm : Consumes m bs a) (hk : Consumes (k a) [] b) :
    Consumes (m >>= k) bs b := by
  have h := hm.bind hk
  rwa [List.append_nil] at h

theorem Takes.pure (a : α) : Takes (Pure.pure a : Reader α) [] a where
  whole _ := rfl
  short _ hp hne := absurd (List.prefix_nil.mp hp) hne

/-- A sequence takes the bytes of both, if what follows keeps an error. -/
theorem Takes.bind {bs' : List Byte} (hm : Takes m bs a) (hk : Takes (k a) bs' b)
    (hs : ∀ a, Sticky (k a)) :
    Takes (m >>= k) (bs ++ bs') b where
  whole := hm.whole.bind hk.whole
  short p hp hne := by
    rw [bind_apply]
    -- the file ends in the first part or in the second
    by_cases hpart : bs <+: p
    · obtain ⟨q, rfl⟩ := hpart
      rw [hm.whole q]
      apply hk.short q ((List.prefix_append_right_inj bs).mp hp)
      rintro rfl
      exact hne rfl
    · apply hs
      refine hm.short p ?_ ?_
      · rcases List.prefix_or_prefix_of_prefix hp (List.prefix_append bs bs') with h | h
        · exact h
        · exact absurd h hpart
      · rintro rfl
        exact hpart (List.prefix_refl _)

theorem Takes.map {g : α → β} (hm : Takes m bs a) :
    Takes (m >>= fun a => Pure.pure (g a)) bs (g a) := by
  have h := hm.bind (k := fun a => Pure.pure (g a)) (Takes.pure (g a)) fun _ => Sticky.pure _
  rwa [List.append_nil] at h

theorem Sequential.pure (a : α) : Sequential (Pure.pure a : Reader α) where
  sticky := Sticky.pure a
  suffix _ := List.suffix_refl _
  takes bs rest b h := by
    have hdata : bs ++ rest = rest := congrArg (fun r => r.2.data) h
    have hval : a = b := congrArg Prod.fst h
    obtain rfl : bs = [] := List.append_left_eq_self.mp hdata
    subst hval
    exact Takes.pure a

/-- A sequence of two that move forward. -/
theorem Sequential.bind (hm : Sequential m) (hk : ∀ a, Sequential (k a)) :
    Sequential (m >>= k) where
  sticky := hm.sticky.bind fun a => (hk a).sticky
  suffix f := ((hk _).suffix _).trans (hm.suffix f)
  takes bs rest b h := by
    rw [bind_apply] at h
    obtain ⟨u, hu⟩ := hm.suffix ⟨bs ++ rest, false⟩
    obtain ⟨v, hv⟩ := (hk (m ⟨bs ++ rest, false⟩).1).suffix (m ⟨bs ++ rest, false⟩).2
    rw [h] at hv
    -- no error in between: it would have stayed
    have herr : (m ⟨bs ++ rest, false⟩).2.hasError = false := by
      apply Bool.eq_false_iff.mpr
      intro hmid
      have hlast := (hk (m ⟨bs ++ rest, false⟩).1).sticky (m ⟨bs ++ rest, false⟩).2 hmid
      rw [h] at hlast
      exact Bool.false_ne_true hlast
    have hmid : (m ⟨bs ++ rest, false⟩).2 = ⟨v ++ rest, false⟩ := InFile.ext hv.symm herr
    have hbs : bs = u ++ v := by
      refine List.append_cancel_right (?_ : bs ++ rest = u ++ v ++ rest)
      rw [List.append_assoc, hv]
      exact hu.symm
    rw [hmid] at h
    rw [hbs, List.append_assoc] at hmid h
    have hfirst := hm.takes u (v ++ rest) _ (Prod.ext rfl hmid)
    have hlast := (hk _).takes v rest b h
    rw [hbs]
    exact hfirst.bind hlast fun a => (hk a).sticky

/-! ### The operations -/

theorem getByte_cons (b : Byte) (l : List Byte) (e : Bool) :
    getByte ⟨b :: l, e⟩ = (b, ⟨l, e⟩) := rfl

theorem takes_byte (b : Byte) : Takes getByte (putByte b) b where
  whole _ := rfl
  short p hp hne := by
    rcases List.prefix_cons_iff.mp hp with rfl | ⟨q, rfl, hq⟩
    · rfl
    · exact absurd (congrArg (List.cons b) (List.prefix_nil.mp hq)) hne

/-- A byte moves forward. -/
theorem sequential_byte : Sequential getByte where
  sticky f h := by
    rcases f with ⟨_ | ⟨b, l⟩, e⟩
    · rfl
    · exact h
  suffix f := by
    rcases f with ⟨_ | ⟨b, l⟩, e⟩
    · exact List.suffix_refl _
    · exact List.suffix_cons b l
  takes bs rest a h := by
    rcases bs with _ | ⟨b, l⟩
    · rcases rest with _ | ⟨c, rest⟩
      · cases h
      · have hdata : rest = c :: rest := congrArg (fun r => r.2.data) h
        exact absurd hdata.symm (List.cons_ne_self c rest)
    · have hval : b = a := congrArg Prod.fst h
      have hdata : l ++ rest = rest := congrArg (fun r => r.2.data) h
      obtain rfl : l = [] := List.append_left_eq_self.mp hdata
      subst hval
      exact takes_byte b

/-- A buffer that was written is read back. -/
theorem takes_buffer (bs : List Byte) : Takes (getBuffer bs.length) bs bs where
  whole rest := by
    unfold getBuffer
    simp
  short p hp hne := by
    have hlen : p.length < bs.length := by
      apply lt_of_le_of_ne hp.length_le
      intro h
      exact hne (hp.eq_of_length h)
    unfold getBuffer
    simpa using hlen

theorem sticky_buffer (size : Nat) : Sticky (getBuffer size) := by
  intro f h
  unfold getBuffer
  simp [h]

theorem suffix_buffer (size : Nat) (f : InFile) : (getBuffer size f).2.data <:+ f.data :=
  List.drop_suffix size f.data

/-- A buffer moves forward. -/
theorem sequential_buffer (size : Nat) : Sequential (getBuffer size) where
  sticky := sticky_buffer size
  suffix := suffix_buffer size
  takes bs rest a h := by
    have hval : (bs ++ rest).take size = a := congrArg Prod.fst h
    have hdata : (bs ++ rest).drop size = rest := congrArg (fun r => r.2.data) h
    have hend : decide ((bs ++ rest).length < size) = false := congrArg (fun r => r.2.hasError) h
    have hsize : size = bs.length := by
      have hlen := congrArg List.length hdata
      have hle := of_decide_eq_false hend
      rw [List.length_drop, List.length_append] at hlen
      rw [List.length_append] at hle
      omega
    subst hsize
    rw [List.take_left] at hval
    subst hval
    exact takes_buffer bs

theorem sticky_hasError : Sticky hasError := fun _ h => h

theorem takes_hasError : Takes hasError [] false where
  whole _ := rfl
  short _ hp hne := absurd (List.prefix_nil.mp hp) hne

/-- A word that was written is read back. -/
theorem takes_be32 (v : BitVec 32) : Takes getBe32 (putBe32 v) v := by
  suffices h : Takes getBe32 (putBe32 v) (be32 ((v >>> 24).setWidth 8) ((v >>> 16).setWidth 8)
      ((v >>> 8).setWidth 8) (v.setWidth 8)) by
    rwa [be32_bytes] at h
  have hbyte := sequential_byte.sticky
  refine (takes_byte _).bind ?_ fun _ => hbyte.bind fun _ => hbyte.bind fun _ => hbyte.bind
    fun _ => Sticky.pure _
  refine (takes_byte _).bind ?_ fun _ => hbyte.bind fun _ => hbyte.bind fun _ => Sticky.pure _
  refine (takes_byte _).bind ?_ fun _ => hbyte.bind fun _ => Sticky.pure _
  exact (takes_byte _).map

theorem sequential_be32 : Sequential getBe32 :=
  sequential_byte.bind fun _ => sequential_byte.bind fun _ => sequential_byte.bind fun _ =>
    sequential_byte.bind fun _ => Sequential.pure _

/-- A double word that was written is read back. -/
theorem takes_be64 (v : BitVec 64) : Takes getBe64 (putBe64 v) v := by
  suffices h : Takes getBe64 (putBe64 v) (be64 ((v >>> 32).setWidth 32) (v.setWidth 32)) by
    rwa [be64_words] at h
  exact (takes_be32 _).bind (takes_be32 _).map fun _ =>
    sequential_be32.sticky.bind fun _ => Sticky.pure _

end Reader

end Qemu.Lib
