import Qemu.Migration.Vmstate

namespace Qemu.Migration

open Lib

/-!
# A device is restored from what was saved of it

* `Progress` — how far a device is: the cells that are restored, and the device that is saved.
* `VMStateDescription.Ok` — at each point of the walk, what the description relies on is restored.
* `vmstateLoadState_vmstateSaveState` — a device that is loaded agrees with the one that was saved
  on every cell that was saved, and takes the bytes that were written.

The two walks are followed in step.  What is known of the device that is loaded is that it agrees
with the other on the cells that are restored.
-/

/-! ### Agreement -/

/-- Two memories hold the same in a cell. -/
def Mem.Same (m m' : Mem) : Loc → Prop
  | .byte a => m.byte a = m'.byte a
  | .pointer a => m.ptr a = m'.ptr a

/-- Two memories are the same in some places. -/
def Agree (cells : Set Loc) (m m' : Mem) : Prop := ∀ l ∈ cells, m.Same m' l

theorem Mem.Same.refl (m : Mem) (l : Loc) : m.Same m l := by
  cases l with
  | byte a => rfl
  | pointer a => rfl

theorem Mem.Same.trans {m m' m'' : Mem} {l : Loc} (h : m.Same m' l) (h' : m'.Same m'' l) :
    m.Same m'' l := by
  cases l with
  | byte a => exact Eq.trans h h'
  | pointer a => exact Eq.trans h h'

theorem Mem.Same.symm {m m' : Mem} {l : Loc} (h : m.Same m' l) : m'.Same m l := by
  cases l with
  | byte a => exact Eq.symm h
  | pointer a => exact Eq.symm h

theorem Agree.refl (cells : Set Loc) (m : Mem) : Agree cells m m := fun l _ => Mem.Same.refl m l

theorem Agree.trans {cells : Set Loc} {m m' m'' : Mem} (h : Agree cells m m')
    (h' : Agree cells m' m'') : Agree cells m m'' :=
  fun l hl => (h l hl).trans (h' l hl)

theorem Agree.symm {cells : Set Loc} {m m' : Mem} (h : Agree cells m m') : Agree cells m' m :=
  fun l hl => (h l hl).symm

/-! ### Progress -/

/-- The cells that are restored so far, and the memory that is saved. -/
structure Progress where
  known : Set Loc
  mem : Mem

/-- What is computed from the memory depends only on what is restored. -/
def Progress.Settles {α : Type} (p : Progress) (f : Mem → α) : Prop :=
  ∀ m', Agree p.known p.mem m' → f m' = f p.mem

/-- `get` undoes `put`: it takes what `put` has written, and puts the value into its cells. -/
def VMStateInfo.Undoes (info : VMStateInfo) : Prop :=
  ∀ addr size m m', ∃ ret m'', Reader.Consumes (info.get addr size m') (info.put addr size m)
    (ret, m'') ∧ 0 ≤ ret ∧ Agree (info.cells addr size) m m'' ∧
    Agree (info.cells addr size)ᶜ m' m''

/-- A step of loading has restored what the step of saving wrote. -/
structure Restores (load : Reader (Int × Mem)) (saved : List Byte × Mem) (q : Progress) :
    Prop where
  mem : q.mem = saved.2
  load : ∃ ret m', Reader.Consumes load saved.1 (ret, m') ∧ 0 ≤ ret ∧ Agree q.known q.mem m'

/-! ### The walk -/

/-- Progress over the elements of a field. -/
def elemsAfter (after : Addr → Progress → Progress) (addr : Mem → Nat → Addr) :
    Nat → Nat → Progress → Progress
  | 0, _, p => p
  | n + 1, i, p => elemsAfter after addr n (i + 1) (after (addr p.mem i) p)

/-- What is known behind a field. -/
def fieldAfter (field : VMStateField) (after : Int → Addr → Progress → Progress)
    (versionId : Int) (a : Addr) (p : Progress) : Progress :=
  if field.isSaved versionId a p.mem then
    elemsAfter (after (field.elemSize a p.mem))
      (field.elemAddr (field.baseAddr a p.mem) (field.elemSize a p.mem))
      (field.count a p.mem).toNat 0 p
  else p

/-- The cells of a value are restored. -/
def VMStateInfo.after (info : VMStateInfo) (size : Int) (addr : Addr) (p : Progress) : Progress :=
  { p with known := p.known ∪ info.cells addr size }

mutual

/-- What is known behind a description. -/
def VMStateDescription.after : VMStateDescription → Addr → Progress → Progress
  | .mk head fields, a, p =>
    let p := fields.after head.versionId a { p with mem := head.runPreSave a p.mem }
    { p with mem := head.runPostSave a p.mem }

/-- What is known behind some fields. -/
def VMStateFields.after : VMStateFields → Int → Addr → Progress → Progress
  | .nil, _, _, p => p
  | .leaf field info rest, versionId, a, p =>
    rest.after versionId a (fieldAfter field info.after versionId a p)
  | .struct field vmsd rest, versionId, a, p =>
    rest.after versionId a (fieldAfter field (fun _ addr p => vmsd.after addr p) versionId a p)

end

/-! ### What a description relies on -/

section

-- whether the tests and the hooks of the descriptions are restricted
variable (tests hooks : Prop)

/-- A field with a test is loaded if it was saved; one without has come with the version or
before it. -/
def VMStateField.TestOk (field : VMStateField) (versionId : Int) (a : Addr) (p : Progress) :
    Prop :=
  match field.fieldExists with
  | none => field.versionId ≤ versionId
  | some test => tests → p.Settles fun m => test a m versionId

/-- The condition on the elements of a field, each behind those before it. -/
def ElemsOk (ok : Addr → Progress → Prop) (after : Addr → Progress → Progress)
    (addr : Mem → Nat → Addr) : Nat → Nat → Progress → Prop
  | 0, _, _ => True
  | n + 1, i, p => p.Settles (addr · i) ∧ ok (addr p.mem i) p ∧
    ElemsOk ok after addr n (i + 1) (after (addr p.mem i) p)

/-- The size, the number and the place of the elements are restored before them. -/
def FieldOk (field : VMStateField) (ok : Int → Addr → Progress → Prop)
    (after : Int → Addr → Progress → Progress) (versionId : Int) (a : Addr) (p : Progress) :
    Prop :=
  field.TestOk tests versionId a p ∧ (field.isSaved versionId a p.mem = true →
    p.Settles (field.elemSize a) ∧ p.Settles (field.count a) ∧ p.Settles (field.baseAddr a) ∧
    ElemsOk (ok (field.elemSize a p.mem)) (after (field.elemSize a p.mem))
      (field.elemAddr (field.baseAddr a p.mem) (field.elemSize a p.mem))
      (field.count a p.mem).toNat 0 p)

/-- The hooks in front of the fields leave what is saved and restored already; the description
loads what it saves. -/
structure VMStateHead.PreOk (head : VMStateHead) (a : Addr) (p : Progress) : Prop where
  minimumVersionId : head.minimumVersionId ≤ head.versionId
  minimumVersionIdOld : head.minimumVersionIdOld ≤ head.versionId
  preSave : hooks → Agree p.known p.mem (head.runPreSave a p.mem)
  preLoad : hooks → ∀ m', Agree p.known p.mem m' →
    (head.runPreLoad a m').1 = 0 ∧ Agree p.known m' (head.runPreLoad a m').2

/-- The functions that run at the end leave what was transferred. -/
structure VMStateHead.PostOk (head : VMStateHead) (a : Addr) (q : Progress) : Prop where
  postSave : hooks → Agree q.known q.mem (head.runPostSave a q.mem)
  postLoad : hooks → ∀ m', Agree q.known q.mem m' →
    0 ≤ (head.runPostLoad a head.versionId m').1 ∧
      Agree q.known m' (head.runPostLoad a head.versionId m').2

mutual

/-- A description restores what it saves. -/
def VMStateDescription.Ok : VMStateDescription → Addr → Progress → Prop
  | .mk head fields, a, p =>
    head.PreOk hooks a p ∧
      fields.Ok head.versionId a { p with mem := head.runPreSave a p.mem } ∧
      head.PostOk hooks a
        (fields.after head.versionId a { p with mem := head.runPreSave a p.mem })

/-- So do its fields, each behind those before it. -/
def VMStateFields.Ok : VMStateFields → Int → Addr → Progress → Prop
  | .nil, _, _, _ => True
  | .leaf field info rest, versionId, a, p =>
    FieldOk tests field (fun _ _ _ => info.Undoes) info.after versionId a p ∧
      rest.Ok versionId a (fieldAfter field info.after versionId a p)
  | .struct field vmsd rest, versionId, a, p =>
    FieldOk tests field (fun _ addr p => vmsd.Ok addr p) (fun _ addr p => vmsd.after addr p)
        versionId a p ∧
      rest.Ok versionId a (fieldAfter field (fun _ addr p => vmsd.after addr p) versionId a p)

end

end

/-! ### The elements of a field -/

/-- A step and the rest of a loop. -/
theorem Restores.andThen {load : Reader (Int × Mem)} {saved : List Byte × Mem} {q q' : Progress}
    {loadRest : Mem → Reader (Int × Mem)} {saveRest : Mem → List Byte × Mem}
    (h : Restores load saved q)
    (hrest : ∀ m', Agree q.known q.mem m' → Restores (loadRest m') (saveRest q.mem) q') :
    Restores (load >>= fun r => if r.1 < 0 then pure r else loadRest r.2)
      (saved.1 ++ (saveRest saved.2).1, (saveRest saved.2).2) q' := by
  obtain ⟨hmem, ret, m₁, hload, hret, hagree⟩ := h
  obtain ⟨hmem', ret', m₂, hload', hret', hagree'⟩ := hrest m₁ hagree
  rw [hmem] at hload' hmem'
  refine ⟨hmem', ret', m₂, hload.bind ?_, hret', hagree'⟩
  rw [if_neg (not_lt.mpr hret)]
  exact hload'

section

variable {load : Addr → Mem → Reader (Int × Mem)} {save : Addr → Mem → List Byte × Mem}
  {after : Addr → Progress → Progress} {ok : Addr → Progress → Prop} {addr : Mem → Nat → Addr}

theorem restores_elems
    (hstep : ∀ a p m', ok a p → Agree p.known p.mem m' →
      Restores (load a m') (save a p.mem) (after a p))
    (n i : Nat) {p : Progress} {m' : Mem} (hok : ElemsOk ok after addr n i p)
    (hagree : Agree p.known p.mem m') :
    Restores (loadElems load addr n i m') (saveElems save addr n i p.mem)
      (elemsAfter after addr n i p) := by
  induction n generalizing i p m' with
  | zero => exact ⟨rfl, 0, m', Reader.Consumes.pure _, le_refl _, hagree⟩
  | succ n ih =>
    obtain ⟨haddr, hfirst, hrest⟩ := hok
    have hsame : addr m' i = addr p.mem i := haddr m' hagree
    have hrestores := hstep (addr p.mem i) p m' hfirst hagree
    unfold loadElems
    rw [hsame]
    exact hrestores.andThen fun m₁ hagree₁ => ih (i + 1) hrest hagree₁

end

theorem VMStateField.isLoaded_eq {tests : Prop} (htests : tests) {field : VMStateField}
    {versionId : Int} {a : Addr} {p : Progress} {m' : Mem}
    (h : field.TestOk tests versionId a p) (hagree : Agree p.known p.mem m') :
    field.isLoaded versionId a m' = field.isSaved versionId a p.mem := by
  unfold VMStateField.TestOk at h
  unfold isLoaded isSaved
  cases htest : field.fieldExists with
  | none =>
    rw [htest] at h
    exact decide_eq_true h
  | some test =>
    rw [htest] at h
    exact h htests m' hagree

/-- A field is restored, from one of its elements. -/
theorem restores_field {tests : Prop} (htests : tests) {field : VMStateField}
    {load : Int → Addr → Mem → Reader (Int × Mem)} {save : Int → Addr → Mem → List Byte × Mem}
    {after : Int → Addr → Progress → Progress} {ok : Int → Addr → Progress → Prop}
    (hstep : ∀ size a p m', ok size a p → Agree p.known p.mem m' →
      Restores (load size a m') (save size a p.mem) (after size a p))
    {versionId : Int} {a : Addr} {p : Progress} {m' : Mem}
    (hok : FieldOk tests field ok after versionId a p) (hagree : Agree p.known p.mem m') :
    Restores (loadField field load versionId a m') (saveField field save versionId a p.mem)
      (fieldAfter field after versionId a p) := by
  obtain ⟨htest, helems⟩ := hok
  unfold loadField saveField fieldAfter
  rw [VMStateField.isLoaded_eq htests htest hagree]
  by_cases hsaved : field.isSaved versionId a p.mem = true
  · obtain ⟨hsize, hcount, hbase, helems⟩ := helems hsaved
    rw [if_pos hsaved, if_pos hsaved, if_pos hsaved, hsize m' hagree, hcount m' hagree,
      hbase m' hagree]
    exact restores_elems (hstep _) _ _ helems hagree
  · rw [if_neg hsaved, if_neg hsaved, if_neg hsaved]
    exact ⟨rfl, 0, m', Reader.Consumes.pure _, le_refl _, hagree⟩

/-- A leaf is restored if its `get` undoes its `put`. -/
theorem restores_leaf {info : VMStateInfo} (hundoes : info.Undoes) (size : Int) (a : Addr)
    (p : Progress) (m' : Mem) (hagree : Agree p.known p.mem m') :
    Restores (info.get a size m') (info.put a size p.mem, p.mem) (info.after size a p) := by
  obtain ⟨ret, m'', hload, hret, hcells, hother⟩ := hundoes a size p.mem m'
  refine ⟨rfl, ret, m'', hload, hret, ?_⟩
  intro l hl
  by_cases hcell : l ∈ info.cells a size
  · exact hcells l hcell
  · rcases hl with hknown | hcell'
    · exact (hagree l hknown).trans (hother l hcell)
    · exact absurd hcell' hcell

/-! ### Descriptions -/

mutual

/-- A description is restored, from its fields. -/
theorem restores_description (d : VMStateDescription) (a : Addr) (p : Progress) (m' : Mem)
    (hok : d.Ok True True a p) (hagree : Agree p.known p.mem m') :
    Restores (vmstateLoadState d a d.head.versionId m') (vmstateSaveState d a p.mem)
      (d.after a p) := by
  obtain ⟨head, fields⟩ := d
  obtain ⟨hpre, hfields, hpost⟩ := hok
  obtain ⟨hret, hpreload⟩ := hpre.preLoad trivial m' hagree
  have hpresave := hpre.preSave trivial
  have hagree₁ : Agree p.known (head.runPreSave a p.mem) (head.runPreLoad a m').2 :=
    hpresave.symm.trans (hagree.trans hpreload)
  obtain ⟨hmem, ret, m₂, hload, hret₂, hagree₂⟩ := restores_fields fields head.versionId a
    { p with mem := head.runPreSave a p.mem } (head.runPreLoad a m').2 hfields hagree₁
  obtain ⟨hret₃, hpostload⟩ := hpost.postLoad trivial m₂ hagree₂
  have hpostsave := hpost.postSave trivial
  refine ⟨?_, (head.runPostLoad a head.versionId m₂).1, (head.runPostLoad a head.versionId m₂).2,
    ?_, hret₃, hpostsave.symm.trans (hagree₂.trans hpostload)⟩
  · show head.runPostSave a _ = head.runPostSave a _
    rw [hmem]
  · unfold vmstateLoadState VMStateDescription.head
    rw [if_neg (lt_irrefl _), if_neg (not_lt.mpr hpre.minimumVersionIdOld),
      if_neg (not_lt.mpr hpre.minimumVersionId), if_neg (not_not.mpr hret)]
    apply hload.bind_nil
    rw [if_neg (not_lt.mpr hret₂)]
    exact Reader.Consumes.pure _

/-- Fields are restored one after the other. -/
theorem restores_fields (fields : VMStateFields) (versionId : Int) (a : Addr) (p : Progress)
    (m' : Mem) (hok : fields.Ok True True versionId a p) (hagree : Agree p.known p.mem m') :
    Restores (loadFields fields versionId a m') (saveFields fields versionId a p.mem)
      (fields.after versionId a p) := by
  match fields, hok with
  | .nil, _ => exact ⟨rfl, 0, m', Reader.Consumes.pure _, le_refl _, hagree⟩
  | .leaf field info rest, ⟨hfield, hrest⟩ =>
    have hstep : Restores
        (loadField field (fun size addr m => info.get addr size m) versionId a m')
        (saveField field (fun size addr m => (info.put addr size m, m)) versionId a p.mem) _ :=
      restores_field trivial
        (fun size a p m' hundoes hagree => restores_leaf hundoes size a p m' hagree) hfield hagree
    exact hstep.andThen fun m₁ hagree₁ => restores_fields rest versionId a _ m₁ hrest hagree₁
  | .struct field vmsd rest, ⟨hfield, hrest⟩ =>
    have hstep : Restores
        (loadField field (fun _ addr m => vmstateLoadState vmsd addr vmsd.head.versionId m)
          versionId a m')
        (saveField field (fun _ addr m => vmstateSaveState vmsd addr m) versionId a p.mem) _ :=
      restores_field trivial
        (fun _ a p m' hok hagree => restores_description vmsd a p m' hok hagree) hfield hagree
    exact hstep.andThen fun m₁ hagree₁ => restores_fields rest versionId a _ m₁ hrest hagree₁

end

/-! ### Buffers -/

theorem consumes_buffer {n : Nat} {bs : List Byte} (h : bs.length = n) :
    Reader.Consumes (Reader.getBuffer n) bs bs := by
  subst h
  exact (Reader.takes_buffer bs).whole

theorem Mem.load_length (m : Mem) (a : Addr) (n : Nat) : (m.load a n).length = n := by
  unfold load
  rw [List.length_map, List.length_range]

/-- A byte that was stored is there. -/
theorem Mem.store_byte (m m' : Mem) (a : Addr) {n i : Nat} (h : i < n) :
    (m'.store a (m.load a n)).byte (a.add i) = m.byte (a.add i) := by
  have hindex : (a.offset + i - a.offset).toNat = i := by omega
  have hcond : (a.add i).object = a.object ∧ a.offset ≤ (a.add i).offset :=
    ⟨rfl, by show a.offset ≤ a.offset + i; omega⟩
  show (if _ then _ else _) = _
  rw [if_pos hcond]
  show ((m.load a n)[(a.offset + i - a.offset).toNat]?).getD _ = _
  rw [hindex]
  unfold load
  rw [List.getElem?_map, List.getElem?_range h]
  rfl

/-- Other bytes stay. -/
theorem Mem.store_other (m m' : Mem) (a : Addr) {n : Nat} {x : Addr}
    (h : ∀ i : Nat, i < n → x ≠ a.add i) : (m'.store a (m.load a n)).byte x = m'.byte x := by
  show (if _ then _ else _) = _
  split_ifs with hcond
  · have hlen : (m.load a n).length ≤ (x.offset - a.offset).toNat := by
      rw [load_length]
      by_contra hlt
      apply h (x.offset - a.offset).toNat (Nat.lt_of_not_le hlt)
      have hoff : x.offset = a.offset + ((x.offset - a.offset).toNat : Int) := by omega
      calc x = ⟨x.object, x.offset⟩ := rfl
        _ = ⟨a.object, a.offset + ((x.offset - a.offset).toNat : Int)⟩ := by
          rw [← hoff, hcond.1]
    rw [List.getElem?_eq_none hlen]
    rfl
  · rfl

theorem vmstateInfoBuffer_undoes : vmstateInfoBuffer.Undoes := by
  intro a size m m'
  refine ⟨0, m'.store a (m.load a size.toNat), ?_, le_refl _, ?_, ?_⟩
  · exact (consumes_buffer (m.load_length a size.toNat)).bind_nil (Reader.Consumes.pure _)
  · rintro l ⟨i, hi, rfl⟩
    exact (Mem.store_byte m m' a hi).symm
  · intro l hl
    cases l with
    | byte x => exact (Mem.store_other m m' a fun i hi hx => hl ⟨i, hi, congrArg _ hx⟩).symm
    | pointer x => rfl

/-! ### Fields without flags -/

section

variable {field : VMStateField} {tests : Prop} {ok : Int → Addr → Progress → Prop}
  {after : Int → Addr → Progress → Progress} {versionId : Int} {a : Addr} {p : Progress}

/-- A field without flags is one element, at a fixed place and of a fixed size. -/
structure VMStateField.Single (field : VMStateField) : Prop where
  size : ∀ a m, field.elemSize a m = cInt field.size
  count : ∀ a m, field.count a m = 1
  base : ∀ a m, field.baseAddr a m = a.add field.offset
  addr : ∀ base size m i, field.elemAddr base size m i = base.add (cInt (size * i))

/-- A field without flags is a single element. -/
theorem VMStateField.single (hflags : field.flags = 0) : field.Single := by
  have hhas : ∀ flag, field.has flag = false := by
    intro flag
    unfold has
    rw [hflags, Nat.zero_and]
    rfl
  constructor
  · intro a m
    unfold elemSize
    rw [hhas]
    exact if_neg Bool.false_ne_true
  · intro a m
    unfold count
    rw [hhas, hhas, hhas, if_neg Bool.false_ne_true, if_neg Bool.false_ne_true]
    exact if_neg Bool.false_ne_true
  · intro a m
    unfold baseAddr
    rw [hhas]
    exact if_neg Bool.false_ne_true
  · intro base size m i
    unfold elemAddr
    rw [hhas]
    exact if_neg Bool.false_ne_true

/-- Its condition is that of the element. -/
theorem VMStateField.Single.fieldOk (h : field.Single)
    (htest : field.TestOk tests versionId a p) (hok : ∀ size addr, ok size addr p) :
    FieldOk tests field ok after versionId a p := by
  refine ⟨htest, fun _ => ⟨?_, ?_, ?_, ?_⟩⟩
  · exact fun m' _ => (h.size a m').trans (h.size a p.mem).symm
  · exact fun m' _ => (h.count a m').trans (h.count a p.mem).symm
  · exact fun m' _ => (h.base a m').trans (h.base a p.mem).symm
  · rw [h.count]
    exact ⟨fun m' _ => (h.addr _ _ m' 0).trans (h.addr _ _ p.mem 0).symm, hok _ _, trivial⟩

theorem VMStateField.Single.fieldAfter (h : field.Single)
    (hsaved : field.isSaved versionId a p.mem = true) :
    fieldAfter field after versionId a p =
      after (cInt field.size)
        ((a.add field.offset).add (cInt (cInt field.size * (0 : Nat)))) p := by
  unfold Migration.fieldAfter
  rw [if_pos hsaved, h.count, h.size, h.base]
  show after _ (field.elemAddr _ _ _ 0) p = _
  rw [h.addr]

end

theorem elemsOk_leaf {info : VMStateInfo} (hundoes : info.Undoes) {addr : Mem → Nat → Addr}
    (haddr : ∀ m m' i, addr m i = addr m' i) (size : Int) (n i : Nat) (p : Progress) :
    ElemsOk (fun _ _ => info.Undoes) (info.after size) addr n i p := by
  induction n generalizing i p with
  | zero => trivial
  | succ n ih => exact ⟨fun m' _ => haddr m' p.mem i, hundoes, ih (i + 1) _⟩

theorem Addr.add_zero (a : Addr) : a.add 0 = a := by
  unfold add
  rw [Int.add_zero]

theorem settles_uint16 {p : Progress} {a : Addr} (h₀ : .byte (a.add 0) ∈ p.known)
    (h₁ : .byte (a.add 1) ∈ p.known) : p.Settles (·.uint16 a) := by
  intro m' hagree
  have hlow : p.mem.byte (a.add 0) = m'.byte (a.add 0) := hagree _ h₀
  have hhigh : p.mem.byte (a.add 1) = m'.byte (a.add 1) := hagree _ h₁
  rw [Addr.add_zero] at hlow
  dsimp only [Mem.uint16]
  rw [← hlow, ← hhigh]

/-! ### What is saved is restored -/

/-- The device `m'` takes the bytes that were saved of the device `m`, and then holds the same in
every cell that was saved.  `known` is what both held before, such as the pointers that are
followed. -/
def Restored (d : VMStateDescription) (a : Addr) (known : Set Loc) (m m' : Mem) : Prop :=
  ∃ ret m'', Reader.Consumes (vmstateLoadState d a d.head.versionId m')
      (vmstateSaveState d a m).1 (ret, m'') ∧
    0 ≤ ret ∧ Agree (d.after a ⟨known, m⟩).known (vmstateSaveState d a m).2 m''

/-- A device that is loaded at the current version is restored from what was saved of another. -/
theorem vmstateLoadState_vmstateSaveState (d : VMStateDescription) (a : Addr) (known : Set Loc)
    (m m' : Mem) (hok : d.Ok True True a ⟨known, m⟩) (hagree : Agree known m m') :
    Restored d a known m m' := by
  obtain ⟨hmem, ret, m'', hload, hret, hrestored⟩ :=
    restores_description d a ⟨known, m⟩ m' hok hagree
  rw [hmem] at hrestored
  exact ⟨ret, m'', hload, hret, hrestored⟩

/-! ### A nested description with a counted array -/

/-- A description that has only fields. -/
def plainHead : VMStateHead where
  versionId := 0
  minimumVersionId := 0
  minimumVersionIdOld := 0
  loadStateOld _ _ m := pure (invalid, m)
  preLoad := none
  postLoad := none
  preSave := none
  postSave := none

/-- A field of some bytes. -/
def bytesField (offset size : Nat) : VMStateField where
  offset := offset
  size := size
  start := 0
  num := 0
  numOffset := 0
  sizeOffset := 0
  flags := 0
  versionId := 0
  fieldExists := none

/-- As many bytes as a `uint16_t` in front says, if it is not zero. -/
def countedField : VMStateField :=
  { bytesField 2 1 with
    flags := VMS_VARRAY_UINT16
    fieldExists := some fun a m _ => m.uint16 a != 0 }

/-- A device in a device, with a count and so many bytes. -/
def countedDevice : VMStateDescription :=
  .mk plainHead (.struct (bytesField 8 0) (.mk plainHead
    (.leaf (bytesField 0 2) vmstateInfoBuffer (.leaf countedField vmstateInfoBuffer .nil))) .nil)

theorem plainHead_preOk (hooks : Prop) (a : Addr) (p : Progress) : plainHead.PreOk hooks a p where
  minimumVersionId := le_refl _
  minimumVersionIdOld := le_refl _
  preSave _ := Agree.refl _ _
  preLoad _ _ _ := ⟨rfl, Agree.refl _ _⟩

theorem plainHead_postOk (hooks : Prop) (a : Addr) (p : Progress) : plainHead.PostOk hooks a p where
  postSave _ := Agree.refl _ _
  postLoad _ _ _ := ⟨le_refl _, Agree.refl _ _⟩

/-- The bytes of the device can be restored once the counter is known. -/
theorem countedField_ok {versionId : Int} {a : Addr} {q : Progress}
    (h : q.Settles (·.uint16 a)) :
    FieldOk True countedField (fun _ _ _ => vmstateInfoBuffer.Undoes) vmstateInfoBuffer.after
      versionId a q := by
  have hsize : ∀ m, countedField.elemSize a m = cInt (1 : Nat) := fun m =>
    if_neg Bool.false_ne_true
  have hcount : ∀ m, countedField.count a m = m.uint16 (a.add 0) := fun m => rfl
  refine ⟨fun _ m' hagree => ?_, fun _ => ⟨?_, ?_, fun _ _ => rfl, ?_⟩⟩
  · exact congrArg (· != 0) (h m' hagree)
  · exact fun m' _ => (hsize m').trans (hsize q.mem).symm
  · intro m' hagree
    rw [hcount, hcount, Addr.add_zero]
    exact h m' hagree
  · exact elemsOk_leaf vmstateInfoBuffer_undoes (fun _ _ _ => rfl) _ _ _ _

/-- So can the device. -/
theorem countedDevice_ok (a : Addr) (m : Mem) : countedDevice.Ok True True a ⟨∅, m⟩ := by
  refine ⟨plainHead_preOk _ _ _, ⟨?_, trivial⟩, plainHead_postOk _ _ _⟩
  apply (VMStateField.single rfl).fieldOk (le_refl _)
  intro _ addr
  refine ⟨plainHead_preOk _ _ _, ⟨?_, ?_, trivial⟩, plainHead_postOk _ _ _⟩
  · exact (VMStateField.single rfl).fieldOk (le_refl _) fun _ _ => vmstateInfoBuffer_undoes
  · rw [(VMStateField.single rfl).fieldAfter rfl]
    apply countedField_ok
    have hplace : (addr.add (0 : Nat)).add (cInt (cInt 2 * (0 : Nat))) = addr :=
      (Addr.add_zero _).trans (Addr.add_zero _)
    apply settles_uint16
    · exact Or.inr ⟨0, by decide, congrArg (fun x : Addr => Loc.byte (x.add 0)) hplace.symm⟩
    · exact Or.inr ⟨1, by decide, congrArg (fun x : Addr => Loc.byte (x.add 1)) hplace.symm⟩

/-- It is saved and loaded. -/
theorem restored_countedDevice :
    Restored countedDevice ⟨0, 0⟩ ∅ ⟨fun _ => 1, id⟩ ⟨fun _ => 0, id⟩ :=
  vmstateLoadState_vmstateSaveState countedDevice ⟨0, 0⟩ ∅ _ _ (countedDevice_ok _ _)
    fun l hl => absurd hl (Set.notMem_empty l)

/-! ### Tests and hooks that are not restricted -/

/-- The first of two bytes is there if the second is not zero. -/
def lateDevice : VMStateDescription :=
  .mk plainHead (.leaf
    { bytesField 0 1 with fieldExists := some fun a m _ => m.byte (a.add 1) != 0 }
    vmstateInfoBuffer (.leaf (bytesField 1 1) vmstateInfoBuffer .nil))

/-- A device whose `pre_load` fails. -/
def refusingDevice : VMStateDescription :=
  .mk { plainHead with preLoad := some fun _ m => (-1, m) } .nil

theorem lateDevice_ok : lateDevice.Ok False True ⟨0, 0⟩ ⟨∅, ⟨fun _ => 1, id⟩⟩ := by
  refine ⟨plainHead_preOk _ _ _, ⟨?_, ?_, trivial⟩, plainHead_postOk _ _ _⟩
  · exact (VMStateField.single rfl).fieldOk False.elim fun _ _ => vmstateInfoBuffer_undoes
  · exact (VMStateField.single rfl).fieldOk (le_refl _) fun _ _ => vmstateInfoBuffer_undoes

theorem refusingDevice_ok : refusingDevice.Ok True False ⟨0, 0⟩ ⟨∅, ⟨fun _ => 0, id⟩⟩ :=
  ⟨⟨le_refl _, le_refl _, False.elim, False.elim⟩, trivial, ⟨False.elim, False.elim⟩⟩

/-- A test may read what comes later, and a hook may refuse to load: neither condition can be
dropped. -/
theorem not_restored_unrestricted :
    (¬∀ d a known m m', d.Ok False True a ⟨known, m⟩ → Agree known m m' →
        Restored d a known m m') ∧
      ¬∀ d a known m m', d.Ok True False a ⟨known, m⟩ → Agree known m m' →
        Restored d a known m m' := by
  constructor
  · intro h
    obtain ⟨ret, m'', hload, -, -⟩ := h lateDevice ⟨0, 0⟩ ∅ ⟨fun _ => 1, id⟩
      ⟨fun _ => 0, id⟩ lateDevice_ok fun l hl => absurd hl (Set.notMem_empty l)
    have hrest : [(1 : Byte)] = [] := congrArg (fun r => r.2.data) (hload [])
    exact List.cons_ne_nil _ _ hrest
  · intro h
    obtain ⟨ret, m'', hload, hret, -⟩ := h refusingDevice ⟨0, 0⟩ ∅ ⟨fun _ => 0, id⟩
      ⟨fun _ => 0, id⟩ refusingDevice_ok fun l hl => absurd hl (Set.notMem_empty l)
    have hrefused : -1 = ret := congrArg (fun r => r.1.1) (hload [])
    omega

end Qemu.Migration
