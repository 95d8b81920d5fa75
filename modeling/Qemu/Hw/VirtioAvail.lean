import Qemu.Hw.VirtioPop

namespace Qemu.Hw

open Lib

/-!
# Two ways through the available ring

`virtqueue_avail_bytes` walks over the chains that `virtqueue_pop` would give, in a loop of its own.

* `chainBuffers` — the descriptors of a chain, with which both loops are compared.
* `popLoop_buffers`, `availLoop_spec` — what one chain is to each of them.
* `virtqueueAvailBytes_hasBytes` — the two agree where the second one counts right.
-/

/-! ### Bytes asked for -/

/-- A buffer: is it for the device to write, and its length. -/
abbrev Buffer := Bool × Nat

section

variable (inBytes outBytes : BitVec 32)

/-- The bytes asked for in one direction. -/
def askedBytes (b : Bool) : Int := if b then inBytes.toInt else outBytes.toInt

/-- The bytes of one direction. -/
def totalBytes (b : Bool) (l : List Buffer) : Nat := ((l.filter (·.1 = b)).map (·.2)).sum

/-- The buffers suffice in one of the directions that is asked for. -/
def Suffices (l : List Buffer) : Prop :=
  ∃ b, 0 < askedBytes inBytes outBytes b ∧ askedBytes inBytes outBytes b ≤ totalBytes b l

end

theorem totalBytes_append (b : Bool) (l l' : List Buffer) :
    totalBytes b (l ++ l') = totalBytes b l + totalBytes b l' := by
  unfold totalBytes
  rw [List.filter_append, List.map_append, List.sum_append]

theorem totalBytes_single (b b' : Bool) (n : Nat) :
    totalBytes b [(b', n)] = if b' = b then n else 0 := by
  cases b <;> cases b' <;> rfl

section

variable {inBytes outBytes : BitVec 32}

theorem Suffices.append {l : List Buffer} (h : Suffices inBytes outBytes l) (l' : List Buffer) :
    Suffices inBytes outBytes (l ++ l') := by
  obtain ⟨b, hasked, hle⟩ := h
  refine ⟨b, hasked, Int.le_trans hle ?_⟩
  rw [totalBytes_append]
  exact Int.ofNat_le.mpr (Nat.le_add_right _ _)

/-- A buffer can only suffice in its own direction. -/
theorem suffices_snoc {l : List Buffer} {b : Bool} {n : Nat} (h : ¬Suffices inBytes outBytes l) :
    Suffices inBytes outBytes (l ++ [(b, n)]) ↔
      0 < askedBytes inBytes outBytes b ∧
        askedBytes inBytes outBytes b ≤ (totalBytes b l + n : Nat) := by
  constructor
  · rintro ⟨b', hasked, hle⟩
    rw [totalBytes_append, totalBytes_single] at hle
    by_cases hb : b = b'
    · subst hb
      rw [if_pos rfl] at hle
      exact ⟨hasked, hle⟩
    · rw [if_neg hb, Nat.add_zero] at hle
      exact absurd ⟨b', hasked, hle⟩ h
  · rintro ⟨hasked, hle⟩
    refine ⟨b, hasked, ?_⟩
    rwa [totalBytes_append, totalBytes_single, if_pos rfl]

/-- The totals are those of such buffers, in the directions that are asked for. -/
structure AvailTotals.Of (t : AvailTotals) (inBytes outBytes : BitVec 32) (l : List Buffer) :
    Prop where
  inTotal : 0 < inBytes.toInt → t.inTotal.toNat = totalBytes true l
  outTotal : 0 < outBytes.toInt → t.outTotal.toNat = totalBytes false l

theorem add_fits {a b : BitVec 32} (h : a.toNat + b.toNat < 2 ^ 31) :
    (a + b).toNat = a.toNat + b.toNat ∧ (a + b).toInt = (a.toNat + b.toNat : Nat) := by
  have hnat : (a + b).toNat = a.toNat + b.toNat := by
    rw [BitVec.toNat_add]
    omega
  refine ⟨hnat, ?_⟩
  rw [BitVec.toInt_eq_toNat_cond, hnat, if_pos (by omega)]

/-- One descriptor is counted right. -/
theorem AvailTotals.add_spec {t : AvailTotals} {l : List Buffer} (ht : t.Of inBytes outBytes l)
    (hnot : ¬Suffices inBytes outBytes l) (b : Bool) (len : BitVec 32)
    (hfits : 0 < askedBytes inBytes outBytes b → totalBytes b l + len.toNat < 2 ^ 31) :
    (Suffices inBytes outBytes (l ++ [(b, len.toNat)]) → t.add inBytes outBytes b len = none) ∧
      (¬Suffices inBytes outBytes (l ++ [(b, len.toNat)]) →
        ∃ t' : AvailTotals, t.add inBytes outBytes b len = some t' ∧
          t'.Of inBytes outBytes (l ++ [(b, len.toNat)])) := by
  rw [suffices_snoc hnot]
  -- the same twice, for each direction
  cases b with
  | true =>
    show (0 < inBytes.toInt ∧ _ → _) ∧ (¬(0 < inBytes.toInt ∧ _) → _)
    unfold AvailTotals.add
    rw [if_pos rfl]
    by_cases hasked : 0 < inBytes.toInt
    · have htotal := ht.inTotal hasked
      obtain ⟨hnat, hint⟩ := @add_fits t.inTotal len (by rw [htotal]; exact hfits hasked)
      rw [htotal] at hnat hint
      rw [if_pos hasked, hint]
      refine ⟨fun h => if_pos h.2, fun h => ⟨_, if_neg fun hle => h ⟨hasked, hle⟩, ?_, ?_⟩⟩
      · intro _
        rw [totalBytes_append, totalBytes_single, if_pos rfl]
        exact hnat
      · intro hout
        rw [totalBytes_append, totalBytes_single, if_neg Bool.noConfusion]
        exact ht.outTotal hout
    · rw [if_neg hasked]
      refine ⟨fun h => absurd h.1 hasked, fun _ => ⟨t, rfl, fun h => absurd h hasked, ?_⟩⟩
      intro hout
      rw [totalBytes_append, totalBytes_single, if_neg Bool.noConfusion]
      exact ht.outTotal hout
  | false =>
    show (0 < outBytes.toInt ∧ _ → _) ∧ (¬(0 < outBytes.toInt ∧ _) → _)
    unfold AvailTotals.add
    rw [if_neg Bool.false_ne_true]
    by_cases hasked : 0 < outBytes.toInt
    · have htotal := ht.outTotal hasked
      obtain ⟨hnat, hint⟩ := @add_fits t.outTotal len (by rw [htotal]; exact hfits hasked)
      rw [htotal] at hnat hint
      rw [if_pos hasked, hint]
      refine ⟨fun h => if_pos h.2, fun h => ⟨_, if_neg fun hle => h ⟨hasked, hle⟩, ?_, ?_⟩⟩
      · intro hin
        rw [totalBytes_append, totalBytes_single, if_neg Bool.noConfusion]
        exact ht.inTotal hin
      · intro _
        rw [totalBytes_append, totalBytes_single, if_pos rfl]
        exact hnat
    · rw [if_neg hasked]
      refine ⟨fun h => absurd h.1 hasked, fun _ => ⟨t, rfl, ?_, fun h => absurd h hasked⟩⟩
      intro hin
      rw [totalBytes_append, totalBytes_single, if_neg Bool.noConfusion]
      exact ht.inTotal hin

end

/-! ### One chain -/

section

variable {w : Nat} {σ π : Type}

/-- The direction and the length of a descriptor. -/
def descBuffer (mem : GuestMemory w) (descPa : BitVec w) (i : Nat) : Buffer :=
  (descHas mem VRING_DESC_F_WRITE descPa i, (vringDescLen mem descPa i).toNat)

/-- The descriptors of a chain that ends within the fuel. -/
def chainBuffers (mem : GuestMemory w) (descPa : BitVec w) (max : Nat) :
    Nat → Nat → Option (List Buffer)
  | 0, _ => none
  | fuel + 1, i =>
    match virtqueueNextDesc mem descPa i max with
    | none => none
    | some next =>
      if next = max then some [descBuffer mem descPa i]
      else (chainBuffers mem descPa max fuel next).map (descBuffer mem descPa i :: ·)

/-- The bytes that an element has in one direction. -/
def VirtQueueElement.bytes (elem : VirtQueueElement w π) (b : Bool) : Nat :=
  ((if b then elem.inSg else elem.outSg).map IoVec.iovLen).sum

theorem VirtQueueElement.bytes_push {elem : VirtQueueElement w π} {b : Bool} (addr : BitVec w)
    (sg : IoVec π) (hroom : elem.hasRoom b = true) (b' : Bool) :
    (elem.push b addr sg hroom).bytes b' = elem.bytes b' + totalBytes b' [(b, sg.iovLen)] := by
  rw [totalBytes_single]
  cases b <;> cases b'
  · show ((elem.outSg ++ [sg]).map _).sum = _
    rw [List.map_append, List.sum_append]
    rfl
  · rfl
  · rfl
  · show ((elem.inSg ++ [sg]).map _).sum = _
    rw [List.map_append, List.sum_append]
    rfl

theorem VirtQueueElement.index_push {elem : VirtQueueElement w π} {b : Bool} (addr : BitVec w)
    (sg : IoVec π) (hroom : elem.hasRoom b = true) :
    (elem.push b addr sg hroom).index = elem.index := by
  cases b <;> rfl

variable {mem : GuestMemory w}
  {cpuPhysicalMemoryMap : σ → BitVec w → Nat → Bool → Option (IoVec π) × σ} {descPa : BitVec w}
  {max : Nat}

/-- What is mapped has the length of the descriptor. -/
theorem popMap_len {i : Nat} {st : σ} {p : IoVec π × σ}
    (h : popMap mem cpuPhysicalMemoryMap descPa i st = some p) :
    p.1.iovLen = (vringDescLen mem descPa i).toNat := by
  unfold popMap at h
  dsimp only at h
  generalize cpuPhysicalMemoryMap st ((vringDescAddr mem descPa i).setWidth w)
    (vringDescLen mem descPa i).toNat (descHas mem VRING_DESC_F_WRITE descPa i) = r at h
  obtain ⟨sg, st'⟩ := r
  cases sg with
  | none => exact absurd h.symm (Option.some_ne_none p)
  | some sg =>
    dsimp only at h
    split_ifs at h with hlen
    obtain rfl := Option.some.inj h
    exact not_not.mp hlen

/-- An element that is popped has the bytes of the buffers of the chain. -/
structure VirtQueueElement.Gains (elem elem' : VirtQueueElement w π) (l : List Buffer) : Prop where
  index : elem'.index = elem.index
  bytes : ∀ b, elem'.bytes b = elem.bytes b + totalBytes b l
  length : elem'.inSg.length + elem'.outSg.length =
    elem.inSg.length + elem.outSg.length + l.length

/-- One more buffer in front. -/
theorem VirtQueueElement.Gains.cons {elem elem' : VirtQueueElement w π} {d : Buffer}
    {l : List Buffer} {addr : BitVec w} {sg : IoVec π} {hroom : elem.hasRoom d.1 = true}
    (hlen : sg.iovLen = d.2) (h : (elem.push d.1 addr sg hroom).Gains elem' l) :
    elem.Gains elem' (d :: l) where
  index := h.index.trans (elem.index_push addr sg hroom)
  bytes b := by
    have hcons : totalBytes b (d :: l) = totalBytes b [d] + totalBytes b l :=
      totalBytes_append b [d] l
    rw [h.bytes, elem.bytes_push, hcons, hlen, Nat.add_assoc]
  length := by
    rw [h.length, elem.length_push, List.length_cons]
    omega

/-- The loop takes the buffers of the chain, in order. -/
theorem popLoop_buffers (fuel i : Nat) (elem elem' : VirtQueueElement w π) (st st' : σ)
    (h : popLoop mem cpuPhysicalMemoryMap descPa max fuel i elem st = .returned (elem', st')) :
    ∃ l, chainBuffers mem descPa max fuel i = some l ∧ elem.Gains elem' l ∧
      elem'.inSg.length + elem'.outSg.length ≤ max := by
  -- on the fuel: the descriptor is pushed, then its successor followed
  induction fuel generalizing i elem st with
  | zero => cases h
  | succ fuel ih =>
    unfold popLoop at h
    by_cases hroom : elem.hasRoom (descHas mem VRING_DESC_F_WRITE descPa i) = true
    swap
    · rw [dif_neg hroom] at h
      cases h
    rw [dif_pos hroom] at h
    cases hmap : popMap mem cpuPhysicalMemoryMap descPa i st with
    | none =>
      rw [hmap] at h
      cases h
    | some p =>
      obtain ⟨sg, st''⟩ := p
      have hlen : sg.iovLen = (descBuffer mem descPa i).2 := popMap_len hmap
      rw [hmap] at h
      dsimp only at h
      by_cases hmany : max < (elem.push _ ((vringDescAddr mem descPa i).setWidth w) sg
          hroom).inSg.length + (elem.push _ ((vringDescAddr mem descPa i).setWidth w) sg
          hroom).outSg.length
      · rw [if_pos hmany] at h
        cases h
      rw [if_neg hmany] at h
      unfold chainBuffers
      cases hnext : virtqueueNextDesc mem descPa i max with
      | none =>
        rw [hnext] at h
        cases h
      | some next =>
        rw [hnext] at h
        dsimp only at h ⊢
        split_ifs at h ⊢ with hmax
        · obtain ⟨rfl, rfl⟩ := Prod.mk.inj (Outcome.returned.inj h)
          exact ⟨_, rfl, VirtQueueElement.Gains.cons hlen ⟨rfl, fun _ => rfl, rfl⟩,
            Nat.le_of_not_lt hmany⟩
        · obtain ⟨l, hl, hgains, hle⟩ := ih next _ st'' h
          rw [hl]
          exact ⟨_, rfl, VirtQueueElement.Gains.cons hlen hgains, hle⟩

/-- The descriptors of a chain are counted right, behind such buffers: as long as there is not
enough, there are no more than `room` of them, and no total reaches `2 ^ 31`. -/
def ChainCounts (inBytes outBytes : BitVec 32) (room : Nat) (pre l : List Buffer) : Prop :=
  ∀ done d rest, l = done ++ d :: rest → ¬Suffices inBytes outBytes (pre ++ done) →
    done.length < room ∧ (0 < askedBytes inBytes outBytes d.1 →
      totalBytes d.1 (pre ++ done) + d.2 < 2 ^ 31)

section

variable {inBytes outBytes : BitVec 32} {room numBufs : Nat} {pre l : List Buffer} {d : Buffer}

theorem ChainCounts.head (h : ChainCounts inBytes outBytes room pre (d :: l))
    (hnot : ¬Suffices inBytes outBytes pre) :
    0 < room ∧ (0 < askedBytes inBytes outBytes d.1 → totalBytes d.1 pre + d.2 < 2 ^ 31) := by
  have hd := h [] d l rfl (by rwa [List.append_nil])
  rwa [List.append_nil] at hd

theorem ChainCounts.tail (h : ChainCounts inBytes outBytes room pre (d :: l)) :
    ChainCounts inBytes outBytes (room - 1) (pre ++ [d]) l := by
  intro done d' rest hl hnot
  have hd := h (d :: done) d' rest (by rw [hl]; rfl) (by rwa [List.append_assoc] at hnot)
  rw [List.append_assoc]
  refine ⟨?_, hd.2⟩
  have hlen := hd.1
  rw [List.length_cons] at hlen
  omega

theorem ChainCounts.nil : ChainCounts inBytes outBytes room pre [] :=
  fun _ _ _ hl _ => absurd hl.symm (List.append_ne_nil_of_right_ne_nil _ (List.cons_ne_nil _ _))

/-- One more buffer in front. -/
theorem ChainCounts.cons (hroom : 0 < room)
    (hfits : 0 < askedBytes inBytes outBytes d.1 → totalBytes d.1 pre + d.2 < 2 ^ 31)
    (h : ChainCounts inBytes outBytes (room - 1) (pre ++ [d]) l) :
    ChainCounts inBytes outBytes room pre (d :: l) := by
  intro done d' rest hl hnot
  obtain ⟨rfl, hcons⟩ | ⟨done', rfl, hrest⟩ := List.append_eq_cons_iff.mp hl.symm
  · obtain ⟨rfl, -⟩ := List.cons.inj hcons
    rw [List.append_nil]
    exact ⟨hroom, hfits⟩
  · have hassoc : pre ++ d :: done' = pre ++ [d] ++ done' := (List.append_assoc pre [d] done').symm
    rw [hassoc] at hnot ⊢
    have hd := h done' d' rest hrest hnot
    refine ⟨?_, hd.2⟩
    rw [List.length_cons]
    omega

/-- A chain begins with its first descriptor; either it is the only one, or the rest is a chain. -/
theorem chainBuffers_succ {fuel i : Nat} (h : chainBuffers mem descPa max (fuel + 1) i = some l) :
    ∃ next rest, virtqueueNextDesc mem descPa i max = some next ∧
      l = descBuffer mem descPa i :: rest ∧ (next = max → rest = []) ∧
      (next ≠ max → chainBuffers mem descPa max fuel next = some rest) := by
  unfold chainBuffers at h
  cases hnext : virtqueueNextDesc mem descPa i max with
  | none =>
    rw [hnext] at h
    exact absurd h.symm (Option.some_ne_none l)
  | some next =>
    rw [hnext] at h
    dsimp only at h
    split_ifs at h with hmax
    · exact ⟨next, [], rfl, (Option.some.inj h).symm, fun _ => rfl, fun hne => absurd hmax hne⟩
    · obtain ⟨rest, hrest, rfl⟩ := Option.map_eq_some_iff.mp h
      exact ⟨next, rest, rfl, rfl, fun he => absurd he hmax, fun _ => hrest⟩

/-- The inner loop of `virtqueue_avail_bytes` over a chain that is counted right. -/
theorem availLoop_spec (fuel i : Nat) {t : AvailTotals}
    (hchain : chainBuffers mem descPa max fuel i = some l)
    (ht : t.Of inBytes outBytes pre) (hnot : ¬Suffices inBytes outBytes pre)
    (hroom : numBufs + room ≤ max) (hcounts : ChainCounts inBytes outBytes room pre l) :
    (Suffices inBytes outBytes (pre ++ l) →
        availLoop mem inBytes outBytes descPa max fuel i t numBufs = .returned .enough) ∧
      (¬Suffices inBytes outBytes (pre ++ l) →
        ∃ t' : AvailTotals, t'.Of inBytes outBytes (pre ++ l) ∧
          availLoop mem inBytes outBytes descPa max fuel i t numBufs =
            .returned (.counted t' (numBufs + l.length))) := by
  -- on the fuel: `pre` are the buffers counted so far
  induction fuel generalizing i l pre t numBufs room with
  | zero => exact absurd hchain.symm (Option.some_ne_none l)
  | succ fuel ih =>
    obtain ⟨next, rest, hnext, rfl, hlast, hmore⟩ := chainBuffers_succ hchain
    obtain ⟨hbufs, hfits⟩ := hcounts.head hnot
    obtain ⟨henough, hadded⟩ := AvailTotals.add_spec ht hnot
      (descHas mem VRING_DESC_F_WRITE descPa i) (vringDescLen mem descPa i) hfits
    have happend : pre ++ descBuffer mem descPa i :: rest =
        pre ++ [descBuffer mem descPa i] ++ rest := (List.append_assoc pre [_] rest).symm
    unfold availLoop
    rw [if_neg (by omega), hnext, happend]
    -- the loop stops as soon as both totals are reached
    by_cases hone : Suffices inBytes outBytes (pre ++ [descBuffer mem descPa i])
    · rw [henough hone]
      exact ⟨fun _ => rfl, fun h => absurd (hone.append rest) h⟩
    obtain ⟨t', hadd, ht'⟩ := hadded hone
    rw [hadd]
    dsimp only
    split_ifs with hmax
    · obtain rfl := hlast hmax
      rw [List.append_nil]
      exact ⟨fun h => absurd h hone, fun _ => ⟨t', ht', rfl⟩⟩
    · have hroom' : numBufs + 1 + (room - 1) ≤ max := by omega
      obtain ⟨hin, hout⟩ := ih next (hmore hmax) ht' hone hroom' hcounts.tail
      refine ⟨hin, fun h => ?_⟩
      obtain ⟨t'', ht'', hloop⟩ := hout h
      refine ⟨t'', ht'', ?_⟩
      rw [hloop, List.length_cons, Nat.add_assoc, Nat.add_comm 1]

end

/-! ### All chains -/

/-- The elements that one `virtqueue_pop` after the other gives until there are no more.  `none` if
one of them does not return. -/
def popAll (mem : GuestMemory w)
    (cpuPhysicalMemoryMap : σ → BitVec w → Nat → Bool → Option (IoVec π) × σ) :
    Nat → VirtQueue w → σ → Option (List (VirtQueueElement w π))
  | 0, _, _ => none
  | fuel + 1, vq, st =>
    match virtqueuePop mem cpuPhysicalMemoryMap vq st with
    | .returned ⟨_, none, _⟩ => some []
    | .returned ⟨vq, some elem, st⟩ =>
      (popAll mem cpuPhysicalMemoryMap fuel vq st).map (elem :: ·)
    | _ => none

/-- The elements have the bytes asked for, in one of the directions. -/
def HasBytes (inBytes outBytes : BitVec 32) (elems : List (VirtQueueElement w π)) : Prop :=
  ∃ b, 0 < askedBytes inBytes outBytes b ∧
    askedBytes inBytes outBytes b ≤ ((elems.map (·.bytes b)).sum : Nat)

/-- The chain of a head is in a table of its own. -/
def headIndirect (mem : GuestMemory w) (vq : VirtQueue w) (head : Nat) : Bool :=
  descHas mem VRING_DESC_F_INDIRECT vq.vring.desc head

/-- The descriptors of the chain of a head. -/
def headBuffers (mem : GuestMemory w) (vq : VirtQueue w) (head : Nat) : List Buffer :=
  match virtqueuePopTable mem vq head with
  | none => []
  | some table =>
    (chainBuffers mem table.descPa table.max (table.max + 1) table.first).getD []

/-- `total_bufs` behind such heads. -/
def totalBufs (mem : GuestMemory w) (vq : VirtQueue w) (heads : List Nat) : Nat :=
  (heads.map fun head =>
    if headIndirect mem vq head then 1 else (headBuffers mem vq head).length).sum

/-- The chain of a head is counted right, behind the chains of other heads. -/
structure HeadCounts (mem : GuestMemory w) (inBytes outBytes : BitVec 32) (vq : VirtQueue w)
    (done : List Nat) (head : Nat) : Prop where
  /-- The index of 32 bits selects the head that the one of 16 bits selects. -/
  index : (vq.lastAvailIdx.toNat + done.length) % vq.vring.num =
    (vq.lastAvailIdx.toNat + done.length) % 2 ^ 16 % vq.vring.num
  /-- The address of an indirect table is read from descriptor 0. -/
  address : headIndirect mem vq head = true →
    vringDescAddr mem vq.vring.desc 0 = vringDescAddr mem vq.vring.desc head
  bufs : headIndirect mem vq head = true → totalBufs mem vq done < vq.vring.num
  counts : ChainCounts inBytes outBytes
    (if headIndirect mem vq head then (headBuffers mem vq head).length
      else vq.vring.num - totalBufs mem vq done)
    (done.flatMap (headBuffers mem vq)) (headBuffers mem vq head)

/-- The chains of the heads are counted right as long as there is not enough. -/
def AvailCounts (mem : GuestMemory w) (inBytes outBytes : BitVec 32) (vq : VirtQueue w)
    (heads : List Nat) : Prop :=
  ∀ done head rest, heads = done ++ head :: rest →
    ¬Suffices inBytes outBytes (done.flatMap (headBuffers mem vq)) →
    HeadCounts mem inBytes outBytes vq done head

section

variable {vq vq' : VirtQueue w} {st st' : σ} {elem : VirtQueueElement w π}

/-- What `virtqueue_pop` has looked at when it gives an element. -/
structure PopOf (mem : GuestMemory w) (vq vq' : VirtQueue w) (elem : VirtQueueElement w π) :
    Prop where
  heads : ∃ n, virtqueueNumHeads mem vq (vq.lastAvailIdx.setWidth 32) = some (n + 1)
  head : virtqueueGetHead mem vq (vq.lastAvailIdx.setWidth 32) = some elem.index
  table : ∃ table l, virtqueuePopTable mem vq elem.index = some table ∧
    chainBuffers mem table.descPa table.max (table.max + 1) table.first = some l ∧
    (∀ b, elem.bytes b = totalBytes b l) ∧ l.length ≤ table.max
  vring : vq'.vring = vq.vring
  next : vq'.lastAvailIdx = vq.lastAvailIdx + 1

theorem virtqueuePop_some
    (h : virtqueuePop mem cpuPhysicalMemoryMap vq st = .returned ⟨vq', some elem, st'⟩) :
    PopOf mem vq vq' elem := by
  unfold virtqueuePop at h
  -- a pop that hands out an element found a head, its table and its chain
  cases hheads : virtqueueNumHeads mem vq (vq.lastAvailIdx.setWidth 32) with
  | none =>
    rw [hheads] at h
    cases h
  | some n =>
    rw [hheads] at h
    cases n with
    | zero =>
      exact absurd (congrArg Popped.elem (Outcome.returned.inj h)).symm (Option.some_ne_none elem)
    | succ n =>
      dsimp only at h
      cases hhead : virtqueueGetHead mem vq (vq.lastAvailIdx.setWidth 32) with
      | none =>
        rw [hhead] at h
        cases h
      | some head =>
        rw [hhead] at h
        dsimp only at h
        cases htable : virtqueuePopTable mem vq head with
        | none =>
          rw [htable] at h
          cases h
        | some table =>
          rw [htable] at h
          dsimp only at h
          cases hloop : popLoop mem cpuPhysicalMemoryMap table.descPa table.max (table.max + 1)
              table.first (.empty head) st with
          | returned p =>
            obtain ⟨elem', st''⟩ := p
            rw [hloop] at h
            obtain ⟨hvq, helem, -⟩ := Popped.mk.inj (Outcome.returned.inj h)
            obtain rfl := Option.some.inj helem
            obtain ⟨l, hl, hgains, hle⟩ := popLoop_buffers _ _ _ _ _ _ hloop
            have hindex : elem'.index = head := hgains.index
            refine ⟨⟨n, hheads⟩, hindex ▸ hhead, ⟨table, l, hindex ▸ htable, hl, fun b => ?_, ?_⟩,
              hvq ▸ rfl, hvq ▸ rfl⟩
            · rw [hgains.bytes]
              cases b <;> exact Nat.zero_add _
            · rw [hgains.length] at hle
              exact Nat.le_trans (Nat.le_of_eq (Nat.zero_add l.length).symm) hle
          | exited =>
            rw [hloop] at h
            cases h
          | overran =>
            rw [hloop] at h
            cases h
          | running =>
            rw [hloop] at h
            cases h

theorem virtqueuePop_none
    (h : virtqueuePop mem cpuPhysicalMemoryMap vq st = .returned ⟨vq', none, st'⟩) :
    virtqueueNumHeads mem vq (vq.lastAvailIdx.setWidth 32) = some 0 := by
  unfold virtqueuePop at h
  cases hheads : virtqueueNumHeads mem vq (vq.lastAvailIdx.setWidth 32) with
  | none =>
    rw [hheads] at h
    cases h
  | some n =>
    cases n with
    | zero => rfl
    | succ n =>
      rw [hheads] at h
      dsimp only at h
      split at h
      · cases h
      · split at h
        · cases h
        · split at h
          · obtain ⟨-, helem, -⟩ := Popped.mk.inj (Outcome.returned.inj h)
            exact absurd helem (Option.some_ne_none _)
          · cases h
          · cases h
          · cases h

/-- A run of pops ends, or begins with one that gives an element. -/
theorem popAll_succ {fuel : Nat} {elems : List (VirtQueueElement w π)}
    (h : popAll mem cpuPhysicalMemoryMap (fuel + 1) vq st = some elems) :
    (elems = [] ∧ virtqueueNumHeads mem vq (vq.lastAvailIdx.setWidth 32) = some 0) ∨
      ∃ elem rest vq' st', elems = elem :: rest ∧ PopOf mem vq vq' elem ∧
        popAll mem cpuPhysicalMemoryMap fuel vq' st' = some rest := by
  unfold popAll at h
  cases hpop : virtqueuePop mem cpuPhysicalMemoryMap vq st with
  | returned p =>
    obtain ⟨vq', elem, st'⟩ := p
    rw [hpop] at h
    cases elem with
    | none => exact .inl ⟨(Option.some.inj h).symm, virtqueuePop_none hpop⟩
    | some elem =>
      obtain ⟨rest, hrest, rfl⟩ := Option.map_eq_some_iff.mp h
      exact .inr ⟨elem, rest, vq', st', rfl, virtqueuePop_some hpop, hrest⟩
  | exited =>
    rw [hpop] at h
    cases h
  | overran =>
    rw [hpop] at h
    cases h
  | running =>
    rw [hpop] at h
    cases h

theorem virtqueuePopTable_vring (hvring : vq'.vring = vq.vring) (head : Nat) :
    virtqueuePopTable mem vq' head = virtqueuePopTable mem vq head := by
  unfold virtqueuePopTable
  rw [hvring]

theorem virtqueueNumHeads_vring (hvring : vq'.vring = vq.vring) {idx idx' : BitVec 32}
    (hidx : idx'.setWidth 16 = idx.setWidth 16) :
    virtqueueNumHeads mem vq' idx' = virtqueueNumHeads mem vq idx := by
  unfold virtqueueNumHeads vringAvailIdx
  rw [hvring, hidx]

theorem virtqueueGetHead_vring (hvring : vq'.vring = vq.vring) {idx idx' : BitVec 32}
    (hidx : idx'.toNat % vq.vring.num = idx.toNat % vq.vring.num) :
    virtqueueGetHead mem vq' idx' = virtqueueGetHead mem vq idx := by
  unfold virtqueueGetHead vringAvailRing
  rw [hvring, hidx]

theorem headBuffers_eq {head : Nat} {table : DescTable w} {l : List Buffer}
    (htable : virtqueuePopTable mem vq head = some table)
    (hchain : chainBuffers mem table.descPa table.max (table.max + 1) table.first = some l) :
    headBuffers mem vq head = l := by
  unfold headBuffers
  rw [htable]
  dsimp only
  rw [hchain]
  rfl

/-- The elements have the bytes of the chains of their heads. -/
theorem popAll_bytes {fuel : Nat} {elems : List (VirtQueueElement w π)}
    (h : popAll mem cpuPhysicalMemoryMap fuel vq' st = some elems) (hvring : vq'.vring = vq.vring)
    (b : Bool) : totalBytes b ((elems.map (·.index)).flatMap (headBuffers mem vq)) =
      (elems.map (·.bytes b)).sum := by
  induction fuel generalizing vq' st elems with
  | zero => exact absurd h.symm (Option.some_ne_none elems)
  | succ fuel ih =>
    obtain ⟨rfl, -⟩ | ⟨elem, rest, vq'', st', rfl, hpop, hrest⟩ := popAll_succ h
    · rfl
    · obtain ⟨table, l, htable, hchain, hbytes, -⟩ := hpop.table
      rw [virtqueuePopTable_vring hvring] at htable
      have hbuffers : headBuffers mem vq elem.index = l := headBuffers_eq htable hchain
      rw [List.map_cons, List.flatMap_cons, totalBytes_append, hbuffers, List.map_cons,
        List.sum_cons, ih hrest (hpop.vring.trans hvring), hbytes]

/-- The table that `virtqueue_avail_bytes` looks at, if the address is that of the head. -/
theorem virtqueueAvailTable_of_pop {head totalBufs : Nat} {table : DescTable w}
    (htable : virtqueuePopTable mem vq head = some table)
    (haddress : headIndirect mem vq head = true →
      vringDescAddr mem vq.vring.desc 0 = vringDescAddr mem vq.vring.desc head)
    (hbufs : headIndirect mem vq head = true → totalBufs < vq.vring.num) :
    virtqueueAvailTable mem vq totalBufs head =
      some (table, if headIndirect mem vq head then 0 else totalBufs,
        headIndirect mem vq head) := by
  unfold virtqueuePopTable at htable
  unfold virtqueueAvailTable
  cases hindirect : headIndirect mem vq head with
  | true =>
    have hflag : descHas mem VRING_DESC_F_INDIRECT vq.vring.desc head = true := hindirect
    dsimp only at htable ⊢
    rw [if_pos hflag] at htable ⊢
    by_cases hlen : (vringDescLen mem vq.vring.desc head).toNat % sizeofVRingDesc ≠ 0
    · rw [if_pos hlen] at htable
      exact absurd htable.symm (Option.some_ne_none table)
    · rw [if_neg hlen] at htable ⊢
      obtain rfl := Option.some.inj htable
      rw [if_neg (Nat.not_le.mpr (hbufs hindirect)), haddress hindirect]
      rfl
  | false =>
    have hflag : ¬descHas mem VRING_DESC_F_INDIRECT vq.vring.desc head = true :=
      Bool.eq_false_iff.mp hindirect
    dsimp only at htable ⊢
    rw [if_neg hflag] at htable ⊢
    obtain rfl := Option.some.inj htable
    rfl

theorem virtqueuePopTable_max {head : Nat} {table : DescTable w}
    (htable : virtqueuePopTable mem vq head = some table)
    (hdirect : headIndirect mem vq head = false) : table.max = vq.vring.num := by
  have hflag : ¬descHas mem VRING_DESC_F_INDIRECT vq.vring.desc head = true :=
    Bool.eq_false_iff.mp hdirect
  unfold virtqueuePopTable at htable
  dsimp only at htable
  rw [if_neg hflag] at htable
  obtain rfl := Option.some.inj htable
  rfl

theorem totalBufs_snoc (done : List Nat) (head : Nat) :
    totalBufs mem vq (done ++ [head]) = totalBufs mem vq done +
      if headIndirect mem vq head then 1 else (headBuffers mem vq head).length := by
  unfold totalBufs
  rw [List.map_append, List.sum_append, List.map_singleton, List.sum_singleton]

theorem flatMap_snoc_headBuffers (done : List Nat) (head : Nat) :
    (done ++ [head]).flatMap (headBuffers mem vq) =
      done.flatMap (headBuffers mem vq) ++ headBuffers mem vq head := by
  rw [List.flatMap_append, List.flatMap_singleton]

section

variable {inBytes outBytes : BitVec 32} {done : List Nat} {head : Nat} {table : DescTable w}
  {l : List Buffer}

/-- The descriptors that may be counted are no more than the loop over the table allows. -/
theorem HeadCounts.room_le (h : HeadCounts mem inBytes outBytes vq done head)
    (hnot : ¬Suffices inBytes outBytes (done.flatMap (headBuffers mem vq)))
    (htable : virtqueuePopTable mem vq head = some table)
    (hchain : chainBuffers mem table.descPa table.max (table.max + 1) table.first = some l)
    (hle : l.length ≤ table.max) :
    (if headIndirect mem vq head then 0 else totalBufs mem vq done) +
      (if headIndirect mem vq head then (headBuffers mem vq head).length
        else vq.vring.num - totalBufs mem vq done) ≤ table.max := by
  have hcounts := h.counts
  rw [headBuffers_eq htable hchain] at hcounts ⊢
  cases hindirect : headIndirect mem vq head with
  | true =>
    rw [if_pos rfl, if_pos rfl, Nat.zero_add]
    exact hle
  | false =>
    -- there is room for the first descriptor, so the subtraction is not cut off
    obtain ⟨next, rest, -, rfl, -, -⟩ := chainBuffers_succ hchain
    have hpos := (hcounts.head hnot).1
    rw [hindirect, if_neg Bool.false_ne_true] at hpos
    rw [if_neg Bool.false_ne_true, if_neg Bool.false_ne_true,
      virtqueuePopTable_max htable hindirect]
    omega

/-- One turn of the outer loop, over a chain that is counted right: there is enough, or the totals
are those with this chain. -/
theorem HeadCounts.turn (h : HeadCounts mem inBytes outBytes vq done head) {t : AvailTotals}
    (ht : t.Of inBytes outBytes (done.flatMap (headBuffers mem vq)))
    (hnot : ¬Suffices inBytes outBytes (done.flatMap (headBuffers mem vq)))
    (htable : virtqueuePopTable mem vq head = some table)
    (hchain : chainBuffers mem table.descPa table.max (table.max + 1) table.first = some l)
    (hle : l.length ≤ table.max) :
    ∃ numBufs, virtqueueAvailTable mem vq (totalBufs mem vq done) head =
        some (table, numBufs, headIndirect mem vq head) ∧
      (Suffices inBytes outBytes ((done ++ [head]).flatMap (headBuffers mem vq)) →
        availLoop mem inBytes outBytes table.descPa table.max (table.max + 1) table.first t
            numBufs =
          .returned .enough) ∧
      (¬Suffices inBytes outBytes ((done ++ [head]).flatMap (headBuffers mem vq)) →
        ∃ (t' : AvailTotals) (n : Nat),
          t'.Of inBytes outBytes ((done ++ [head]).flatMap (headBuffers mem vq)) ∧
          availLoop mem inBytes outBytes table.descPa table.max (table.max + 1) table.first t
            numBufs = .returned (.counted t' n) ∧
          (if headIndirect mem vq head then totalBufs mem vq done + 1 else n) =
            totalBufs mem vq (done ++ [head])) := by
  have hbuffers := headBuffers_eq htable hchain
  have hroom := h.room_le hnot htable hchain hle
  have hcounts := h.counts
  rw [hbuffers] at hroom hcounts
  obtain ⟨henough, hcounted⟩ :=
    availLoop_spec (table.max + 1) table.first hchain ht hnot hroom hcounts
  refine ⟨_, virtqueueAvailTable_of_pop htable h.address h.bufs, ?_⟩
  rw [flatMap_snoc_headBuffers, hbuffers]
  refine ⟨henough, fun hall => ?_⟩
  obtain ⟨t', ht', hloop⟩ := hcounted hall
  refine ⟨t', _, ht', hloop, ?_⟩
  rw [totalBufs_snoc, hbuffers]
  split_ifs <;> rfl

end

/-- The outer loop, behind the chains of such heads.  The index of 32 bits and that of the queue
that is popped from have started at the same one. -/
theorem availHeads_spec {inBytes outBytes : BitVec 32} (fuel : Nat) {done : List Nat}
    {elems : List (VirtQueueElement w π)} {idx : BitVec 32} {t : AvailTotals}
    (hpops : popAll mem cpuPhysicalMemoryMap fuel vq' st = some elems)
    (hvring : vq'.vring = vq.vring) (hfuel : done.length + fuel ≤ 2 ^ 16)
    (hidx : idx.toNat = vq.lastAvailIdx.toNat + done.length)
    (hlast : vq'.lastAvailIdx.toNat = (vq.lastAvailIdx.toNat + done.length) % 2 ^ 16)
    (ht : t.Of inBytes outBytes (done.flatMap (headBuffers mem vq)))
    (hnot : ¬Suffices inBytes outBytes (done.flatMap (headBuffers mem vq)))
    (hcounts : AvailCounts mem inBytes outBytes vq (done ++ elems.map (·.index))) :
    ∃ b, availHeads mem inBytes outBytes vq fuel idx t (totalBufs mem vq done) = .returned b ∧
      (b = true ↔ Suffices inBytes outBytes
        ((done ++ elems.map (·.index)).flatMap (headBuffers mem vq))) := by
  induction fuel generalizing vq' st elems done idx t with
  | zero => exact absurd hpops.symm (Option.some_ne_none elems)
  | succ fuel ih =>
    -- both functions see the same number of heads
    have hidx' : (vq'.lastAvailIdx.setWidth 32).setWidth 16 = idx.setWidth 16 := by
      apply BitVec.eq_of_toNat_eq
      rw [BitVec.toNat_setWidth, BitVec.toNat_setWidth, BitVec.toNat_setWidth, hidx]
      omega
    have hheads : virtqueueNumHeads mem vq' (vq'.lastAvailIdx.setWidth 32) =
        virtqueueNumHeads mem vq idx := virtqueueNumHeads_vring hvring hidx'
    unfold availHeads
    rw [← hheads]
    obtain ⟨rfl, hzero⟩ | ⟨elem, rest, vq'', st', rfl, hpop, hrest⟩ := popAll_succ hpops
    · rw [hzero]
      rw [List.map_nil, List.append_nil]
      exact ⟨false, rfl, fun h => absurd h Bool.false_ne_true, fun h => absurd h hnot⟩
    obtain ⟨n, hn⟩ := hpop.heads
    obtain ⟨table, l, htable, hchain, -, hle⟩ := hpop.table
    rw [virtqueuePopTable_vring hvring] at htable
    have hhead := hcounts done elem.index (rest.map (·.index)) rfl hnot
    -- and the same head, where the index of 32 bits selects it too
    have hget : virtqueueGetHead mem vq idx = some elem.index := by
      rw [← hpop.head]
      refine (virtqueueGetHead_vring hvring ?_).symm
      have hsmall : (vq.lastAvailIdx.toNat + done.length) % 2 ^ 16 % 2 ^ 32 =
          (vq.lastAvailIdx.toNat + done.length) % 2 ^ 16 := Nat.mod_eq_of_lt (by omega)
      rw [BitVec.toNat_setWidth, hlast, hidx, hhead.index, hsmall]
    obtain ⟨numBufs, htable', henough, hcounted⟩ := hhead.turn ht hnot htable hchain hle
    have hinv : done ++ (elem :: rest).map (·.index) =
        done ++ [elem.index] ++ rest.map (·.index) := (List.append_assoc done [_] _).symm
    rw [hn, hget, hinv]
    dsimp only
    rw [htable']
    dsimp only
    by_cases hall : Suffices inBytes outBytes ((done ++ [elem.index]).flatMap (headBuffers mem vq))
    · rw [henough hall]
      refine ⟨true, rfl, fun _ => ?_, fun _ => rfl⟩
      rw [List.flatMap_append]
      exact hall.append _
    · obtain ⟨t', n', ht', hloop, hbufs⟩ := hcounted hall
      rw [hloop]
      dsimp only
      rw [hbufs]
      have hlength : (done ++ [elem.index]).length = done.length + 1 := List.length_append
      refine ih hrest (hpop.vring.trans hvring) ?_ ?_ ?_ ht' hall (hinv ▸ hcounts)
      · rw [hlength]
        omega
      · rw [hlength, BitVec.toNat_add, hidx]
        show (_ + 1) % 2 ^ 32 = _
        omega
      · rw [hlength, hpop.next, BitVec.toNat_add, hlast]
        show (_ + 1) % 2 ^ 16 = _
        omega

/-- **`virtqueue_avail_bytes` answers what `virtqueue_pop` would give**, where the chains are
counted right. -/
theorem virtqueueAvailBytes_hasBytes {inBytes outBytes : BitVec 32}
    {elems : List (VirtQueueElement w π)}
    (hpops : popAll mem cpuPhysicalMemoryMap (2 ^ 16) vq st = some elems)
    (hcounts : AvailCounts mem inBytes outBytes vq (elems.map (·.index))) :
    ∃ b, virtqueueAvailBytes mem inBytes outBytes vq = .returned b ∧
      (b = true ↔ HasBytes inBytes outBytes elems) := by
  have hnot : ¬Suffices inBytes outBytes [] := by
    rintro ⟨b, hpos, hle⟩
    exact absurd (Int.lt_of_lt_of_le hpos hle) (Int.lt_irrefl 0)
  have hidx : (vq.lastAvailIdx.setWidth 32).toNat =
      vq.lastAvailIdx.toNat + ([] : List Nat).length := by
    rw [BitVec.toNat_setWidth]
    show _ = _ + 0
    omega
  have hlast : vq.lastAvailIdx.toNat =
      (vq.lastAvailIdx.toNat + ([] : List Nat).length) % 2 ^ 16 := by
    show _ = (_ + 0) % 2 ^ 16
    omega
  have ht : (⟨0, 0⟩ : AvailTotals).Of inBytes outBytes [] := ⟨fun _ => rfl, fun _ => rfl⟩
  obtain ⟨b, hreturned, hb⟩ :=
    availHeads_spec (2 ^ 16) hpops rfl (Nat.le_refl _) hidx hlast ht hnot hcounts
  refine ⟨b, hreturned, hb.trans ?_⟩
  unfold Suffices HasBytes
  rw [List.nil_append]
  exact exists_congr fun b' => by rw [popAll_bytes hpops rfl]

end

end

/-- A ring with two heads: 0, whose table at 0x2000 has two buffers for the device to write, and 2,
which is followed by descriptor 3. -/
def twoChains : GuestMemory 64 := fun a =>
  if a = 0x1 then 0x20 else if a = 0x8 then 32 else if a = 0xc then 4
  else if a = 0x21 then 0x30 else if a = 0x28 then 7 else if a = 0x2c then 1
  else if a = 0x2e then 3
  else if a = 0x31 then 0x40 else if a = 0x38 then 200 else if a = 0x3c then 2
  else if a = 0x42 then 2                         -- two heads are available
  else if a = 0x46 then 2
  else if a = 0x2001 then 0x50 else if a = 0x2008 then 100 else if a = 0x200c then 3
  else if a = 0x200e then 1
  else if a = 0x2011 then 0x60 else if a = 0x2018 then 20 else if a = 0x201c then 2
  else 0

/-- A queue with both chains waiting. -/
def twoChainsQueue : VirtQueue 64 := ⟨⟨4, 0, 0x40, 0x1000⟩, 0, 0, by decide⟩

/-- Both chains together hold 250 bytes to be written. -/
theorem virtqueueAvailBytes_hasBytes_twoChains :
    ∃ elems : List (VirtQueueElement 64 (BitVec 64)),
      popAll twoChains mapAll (2 ^ 16) twoChainsQueue () = some elems ∧
      ∃ b, virtqueueAvailBytes twoChains 250 0 twoChainsQueue = .returned b ∧
        (b = true ↔ HasBytes 250 0 elems) := by
  have hpops : ∃ elems : List (VirtQueueElement 64 (BitVec 64)),
      popAll twoChains mapAll (2 ^ 16) twoChainsQueue () = some elems ∧
        elems.map (·.index) = [0, 2] := ⟨_, rfl, by decide⟩
  obtain ⟨elems, hpops, hindex⟩ := hpops
  have hfirst : headBuffers twoChains twoChainsQueue 0 = [(true, 100), (true, 20)] := by decide
  have hsecond : headBuffers twoChains twoChainsQueue 2 = [(false, 7), (true, 200)] := by decide
  have hcounts : AvailCounts twoChains 250 0 twoChainsQueue (elems.map (·.index)) := by
    rw [hindex]
    intro done head rest hheads _
    match done, hheads with
    | [], hheads =>
      obtain ⟨rfl, -⟩ := List.cons.inj hheads
      refine ⟨rfl, fun _ => rfl, fun _ => by decide, ?_⟩
      rw [if_pos (by decide), List.flatMap_nil, hfirst]
      exact .cons (by decide) (fun _ => by decide) (.cons (by decide) (fun _ => by decide) .nil)
    | [_], hheads =>
      obtain ⟨hzero, hheads⟩ := List.cons.inj hheads
      obtain ⟨rfl, -⟩ := List.cons.inj hheads
      rw [← hzero]
      -- descriptors 2 and 3 are counted behind one buffer, the indirect head
      have hdirect : headIndirect twoChains twoChainsQueue 2 = false := by decide
      refine ⟨rfl, fun h => absurd (hdirect.symm.trans h) Bool.false_ne_true,
        fun h => absurd (hdirect.symm.trans h) Bool.false_ne_true, ?_⟩
      rw [hdirect, if_neg Bool.false_ne_true, List.flatMap_singleton, hfirst, hsecond]
      exact .cons (by decide) (fun _ => by decide) (.cons (by decide) (fun _ => by decide) .nil)
    | _ :: _ :: _, hheads =>
      have hlength := congrArg List.length hheads
      simp only [List.length_append, List.length_cons, List.length_nil] at hlength
      omega
  exact ⟨elems, hpops, virtqueueAvailBytes_hasBytes hpops hcounts⟩

/-- An indirect chain with a buffer of 100 bytes for the device to write.  Its head is descriptor 1;
descriptor 0 says that the table is at 0. -/
def indirectMemory : GuestMemory 64 := fun a =>
  if a = 17 then 16          -- the table is at 4096
  else if a = 24 then 16     -- and has one descriptor
  else if a = 28 then 4
  else if a = 34 then 1      -- one head is available
  else if a = 36 then 1
  else if a = 4104 then 100
  else if a = 4108 then 2
  else 0

/-- A queue of two entries. -/
def smallQueue : VirtQueue 64 := ⟨⟨2, 0, 32, 4096⟩, 0, 0, by decide⟩

/-- The head is descriptor 1, and the table that is looked at is not its own. -/
theorem virtqueueAvailBytes_misreads : ¬∀ (mem : GuestMemory 64) (vq : VirtQueue 64)
    (inBytes outBytes : BitVec 32) (elems : List (VirtQueueElement 64 (BitVec 64))),
    popAll mem mapAll (2 ^ 16) vq () = some elems →
      (virtqueueAvailBytes mem inBytes outBytes vq = .returned true ↔
        HasBytes inBytes outBytes elems) := by
  intro h
  have hpops : ∃ elem : VirtQueueElement 64 (BitVec 64),
      popAll indirectMemory mapAll (2 ^ 16) smallQueue () = some [elem] ∧
        elem.bytes true = 100 := ⟨_, rfl, by decide⟩
  obtain ⟨elem, hpops, hbytes⟩ := hpops
  have hhas : HasBytes 100 0 [elem] := by
    refine ⟨true, by decide, ?_⟩
    rw [List.map_singleton, List.sum_singleton, hbytes]
    decide
  have hfalse : virtqueueAvailBytes indirectMemory 100 0 smallQueue = .returned false := by
    decide
  have htrue := (h _ _ 100 0 _ hpops).mpr hhas
  exact absurd (hfalse.symm.trans htrue) nofun

end Qemu.Hw
