import Qemu.Migration.Savevm
import Mathlib.Data.List.Induction

namespace Qemu.Migration

open Lib

/-!
# What is saved is loaded

* `savevmSections` — the sections of a stream; `savevmStream_eq` — the stream is their bytes.
* `Matches`, `restore` — each payload goes to the handler under the name and the id of the one that
  wrote it.
* `Routed` — a section that goes on with another comes after it; `routed_savevmSections`.
* `takes_loadLoop` — the loop takes the sections and restores them.
* `qemuLoadvmState_savevmStream` — a whole stream is restored, and a part of one is refused.
* `savevmHandlers_keys` — registering keeps the names and ids distinct that this relies on.
-/

variable {σ : Type}

/-! ### Sections -/

/-- A section of the stream, with the handler that wrote it. -/
structure Section (σ : Type) where
  type : Byte
  se : SaveStateEntry σ
  payload : List Byte

/-- The section names its entry. -/
def Section.Starts (c : Section σ) : Prop :=
  c.type = QEMU_VM_SECTION_START ∨ c.type = QEMU_VM_SECTION_FULL

/-- The section belongs to one that was started. -/
def Section.Continues (c : Section σ) : Prop :=
  c.type = QEMU_VM_SECTION_PART ∨ c.type = QEMU_VM_SECTION_END

instance Section.decidableStarts (c : Section σ) : Decidable c.Starts :=
  inferInstanceAs (Decidable (_ ∨ _))

/-- The bytes of a section, with the header its type has. -/
def Section.bytes (c : Section σ) : List Byte :=
  if c.Starts then putStart c.type c.se c.payload else putPart c.type c.se c.payload

/-- A section as part of a trace. -/
def traced (type : Byte) (se : SaveStateEntry σ) (payload : List Byte) : List (Section σ) :=
  [⟨type, se, payload⟩]

/-- The sections of the calls of `qemu_savevm_state_iterate`. -/
def iterateSections (hs : SavevmHandlers σ) : List (σ → σ) → σ → List (Section σ) × σ
  | [], s => ([], s)
  | run :: runs, s =>
    let (_, out, s) := iterateLoop traced hs.entries 1 (run s)
    let (more, s) := iterateSections hs runs s
    (out ++ more, s)

/-- The sections of a whole stream. -/
def savevmSections (hs : SavevmHandlers σ) (blkEnable shared : Int) (runs : List (σ → σ))
    (run : σ → σ) (s : σ) : List (Section σ) :=
  let begun := saveLive traced QEMU_VM_SECTION_START hs.entries
    (setParams blkEnable shared hs.entries s)
  let parts := iterateSections hs runs begun.2
  let live := saveLive traced QEMU_VM_SECTION_END hs.entries (run parts.2)
  let full := saveFull traced hs.entries live.2
  begun.1 ++ (parts.1 ++ (live.1 ++ full.1))

section

variable {β : Type} (put : Byte → SaveStateEntry σ → List Byte → List β)

/-- What is made of a section in a trace. -/
def Section.via (c : Section σ) : List β := put c.type c.se c.payload

theorem saveLive_traced (type : Byte) (es : List (SaveStateEntry σ)) (s : σ) :
    saveLive put type es s =
      ((saveLive traced type es s).1.flatMap (Section.via put), (saveLive traced type es s).2) := by
  induction es generalizing s with
  | nil => rfl
  | cons se rest ih =>
    unfold saveLive
    cases se.saveLiveState with
    | none => exact ih s
    | some save =>
      dsimp only
      rw [ih (save type s).2.2]
      rfl

theorem iterateLoop_traced (es : List (SaveStateEntry σ)) (ret : Int) (s : σ) :
    iterateLoop put es ret s =
      ((iterateLoop traced es ret s).1,
        (iterateLoop traced es ret s).2.1.flatMap (Section.via put),
        (iterateLoop traced es ret s).2.2) := by
  induction es generalizing ret s with
  | nil => rfl
  | cons se rest ih =>
    unfold iterateLoop
    cases se.saveLiveState with
    | none => exact ih ret s
    | some save =>
      dsimp only
      split_ifs with h
      · rfl
      · rw [ih (save QEMU_VM_SECTION_PART s).1 (save QEMU_VM_SECTION_PART s).2.2]
        rfl

theorem saveFull_traced (es : List (SaveStateEntry σ)) (s : σ) :
    saveFull put es s =
      ((saveFull traced es s).1.flatMap (Section.via put), (saveFull traced es s).2) := by
  induction es generalizing s with
  | nil => rfl
  | cons se rest ih =>
    unfold saveFull
    cases vmstateSave se with
    | none => exact ih s
    | some save =>
      dsimp only
      rw [ih (save s).2]
      rfl

end

theorem iterateCalls_traced (hs : SavevmHandlers σ) (runs : List (σ → σ)) (s : σ) :
    iterateCalls hs runs s =
      ((iterateSections hs runs s).1.flatMap (Section.via putPart),
        (iterateSections hs runs s).2) := by
  induction runs generalizing s with
  | nil => rfl
  | cons run runs ih =>
    unfold iterateCalls iterateSections qemuSavevmStateIterate
    rw [iterateLoop_traced]
    dsimp only
    rw [ih, List.flatMap_append]

/-! ### The entries of the sections -/

variable {c : Section σ} {es : List (SaveStateEntry σ)} {s : σ} {type : Byte}

/-- Live sections come from the handlers that save live. -/
theorem mem_saveLive (h : c ∈ (saveLive traced type es s).1) :
    c.type = type ∧ c.se ∈ es ∧ c.se.saveLiveState.isSome := by
  induction es generalizing s with
  | nil => exact absurd h List.not_mem_nil
  | cons se rest ih =>
    unfold saveLive at h
    cases hlive : se.saveLiveState with
    | none =>
      rw [hlive] at h
      obtain ⟨htype, hmem, hsome⟩ := ih h
      exact ⟨htype, List.mem_cons_of_mem _ hmem, hsome⟩
    | some save =>
      rw [hlive] at h
      rcases List.mem_cons.mp h with rfl | h
      · exact ⟨rfl, List.mem_cons_self, by rw [hlive]; rfl⟩
      · obtain ⟨htype, hmem, hsome⟩ := ih h
        exact ⟨htype, List.mem_cons_of_mem _ hmem, hsome⟩

variable {ret : Int}

/-- So do those of an iteration. -/
theorem mem_iterateLoop (h : c ∈ (iterateLoop traced es ret s).2.1) :
    c.type = QEMU_VM_SECTION_PART ∧ c.se ∈ es ∧ c.se.saveLiveState.isSome := by
  induction es generalizing ret s with
  | nil => exact absurd h List.not_mem_nil
  | cons se rest ih =>
    unfold iterateLoop at h
    cases hlive : se.saveLiveState with
    | none =>
      rw [hlive] at h
      obtain ⟨htype, hmem, hsome⟩ := ih h
      exact ⟨htype, List.mem_cons_of_mem _ hmem, hsome⟩
    | some save =>
      rw [hlive] at h
      rcases List.mem_cons.mp h with rfl | h
      · exact ⟨rfl, List.mem_cons_self, by rw [hlive]; rfl⟩
      · split_ifs at h with hret
        · exact absurd h List.not_mem_nil
        · obtain ⟨htype, hmem, hsome⟩ := ih h
          exact ⟨htype, List.mem_cons_of_mem _ hmem, hsome⟩

/-- Full ones come from any handler. -/
theorem mem_saveFull (h : c ∈ (saveFull traced es s).1) :
    c.type = QEMU_VM_SECTION_FULL ∧ c.se ∈ es := by
  induction es generalizing s with
  | nil => exact absurd h List.not_mem_nil
  | cons se rest ih =>
    unfold saveFull at h
    cases hsave : vmstateSave se with
    | none =>
      rw [hsave] at h
      obtain ⟨htype, hmem⟩ := ih h
      exact ⟨htype, List.mem_cons_of_mem _ hmem⟩
    | some save =>
      rw [hsave] at h
      rcases List.mem_cons.mp h with rfl | h
      · exact ⟨rfl, List.mem_cons_self⟩
      · obtain ⟨htype, hmem⟩ := ih h
        exact ⟨htype, List.mem_cons_of_mem _ hmem⟩

theorem mem_iterateSections {hs : SavevmHandlers σ} {runs : List (σ → σ)}
    (h : c ∈ (iterateSections hs runs s).1) :
    c.type = QEMU_VM_SECTION_PART ∧ c.se ∈ hs.entries ∧ c.se.saveLiveState.isSome := by
  induction runs generalizing s with
  | nil => exact absurd h List.not_mem_nil
  | cons run runs ih =>
    unfold iterateSections at h
    rcases List.mem_append.mp h with h | h
    · exact mem_iterateLoop h
    · exact ih h

variable {se : SaveStateEntry σ}

/-- Every live entry has its section. -/
theorem saveLive_mem (hse : se ∈ es) (hlive : se.saveLiveState.isSome) :
    ∃ c ∈ (saveLive traced type es s).1, c.se = se := by
  induction es generalizing s with
  | nil => exact absurd hse List.not_mem_nil
  | cons e rest ih =>
    unfold saveLive
    rcases List.mem_cons.mp hse with rfl | hse
    · obtain ⟨save, hsave⟩ := Option.isSome_iff_exists.mp hlive
      rw [hsave]
      exact ⟨_, List.mem_cons_self, rfl⟩
    · cases e.saveLiveState with
      | none => exact ih hse
      | some save =>
        obtain ⟨c, hc, heq⟩ := ih (s := (save type s).2.2) hse
        exact ⟨c, List.mem_cons_of_mem _ hc, heq⟩

/-! ### The bytes of the sections -/

theorem Section.bytes_of_starts (h : c.Starts) : c.bytes = c.via putStart :=
  if_pos h

theorem Section.Continues.not_starts (h : c.Continues) : ¬c.Starts := by
  rcases h with h | h <;>
  · unfold Section.Starts
    rw [h]
    decide

theorem Section.bytes_of_continues (h : c.Continues) : c.bytes = c.via putPart :=
  if_neg h.not_starts

variable {cs : List (Section σ)}

theorem flatMap_bytes_of_starts (h : ∀ c ∈ cs, c.Starts) :
    cs.flatMap (Section.via putStart) = cs.flatMap Section.bytes :=
  List.flatMap_congr fun c hc => (Section.bytes_of_starts (h c hc)).symm

theorem flatMap_bytes_of_continues (h : ∀ c ∈ cs, c.Continues) :
    cs.flatMap (Section.via putPart) = cs.flatMap Section.bytes :=
  List.flatMap_congr fun c hc => (Section.bytes_of_continues (h c hc)).symm

/-- A stream is the header, the bytes of its sections and the end. -/
theorem savevmStream_eq (hs : SavevmHandlers σ) (blkEnable shared : Int) (runs : List (σ → σ))
    (run : σ → σ) (s : σ) :
    savevmStream hs blkEnable shared runs run s =
      putBe32 QEMU_VM_FILE_MAGIC ++ (putBe32 QEMU_VM_FILE_VERSION ++
        ((savevmSections hs blkEnable shared runs run s).flatMap Section.bytes ++
          putByte QEMU_VM_EOF)) := by
  unfold savevmStream savevmSections qemuSavevmStateBegin qemuSavevmStateComplete
  dsimp only
  rw [saveLive_traced putStart]
  dsimp only
  rw [iterateCalls_traced]
  dsimp only
  rw [saveLive_traced putPart]
  dsimp only
  rw [saveFull_traced putStart]
  dsimp only
  rw [flatMap_bytes_of_starts fun c hc => Or.inl (mem_saveLive hc).1,
    flatMap_bytes_of_continues fun c hc => Or.inl (mem_iterateSections hc).1,
    flatMap_bytes_of_continues fun c hc => Or.inr (mem_saveLive hc).1,
    flatMap_bytes_of_starts fun c hc => Or.inr (mem_saveFull hc).1]
  simp only [List.flatMap_append, List.append_assoc]

/-! ### Restoring -/

/-- The entry that loads what another one has saved: it has the same name and the same id, and knows
the version. -/
structure Matches (hs hl : SavevmHandlers σ) (dst : SaveStateEntry σ → SaveStateEntry σ) :
    Prop where
  mem : ∀ se ∈ hs.entries, dst se ∈ hl.entries
  key : ∀ se ∈ hs.entries, (dst se).key = se.key
  version : ∀ se ∈ hs.entries, se.versionId ≤ (dst se).versionId

section

variable (dst : SaveStateEntry σ → SaveStateEntry σ)

/-- What the handler of a section does with its payload: the file it reads holds nothing else. -/
def Section.load (c : Section σ) (t : σ) : (Int × σ) × InFile :=
  vmstateLoad (dst c.se) c.se.versionId t ⟨c.payload, false⟩

/-- Each payload goes to the handler of its entry, with the version that was saved. -/
def restore (cs : List (Section σ)) (t : σ) : σ := cs.foldl (fun t c => (c.load dst t).1.2) t

/-- The handlers read what was written for them to its end, and find no error in it. -/
def Loads : List (Section σ) → σ → Prop
  | [], _ => True
  | c :: cs, t =>
    0 ≤ (c.load dst t).1.1 ∧ (c.load dst t).2 = ⟨[], false⟩ ∧ Loads cs (c.load dst t).1.2

/-- What the loading side keeps of a section that was started. -/
def loadEntry (se : SaveStateEntry σ) : LoadStateEntry σ := ⟨dst se, se.sectionId, se.versionId⟩

end

theorem sequential_vmstateLoad (se : SaveStateEntry σ) (versionId : BitVec 32) (t : σ) :
    Reader.Sequential (vmstateLoad se versionId t) := by
  unfold vmstateLoad
  cases se.vmsd with
  | none => exact se.loadState.sequential versionId t
  | some vmsd => exact vmsd.load.sequential versionId t

theorem takes_vmstateLoad {dst : SaveStateEntry σ → SaveStateEntry σ} {t : σ}
    (h : (c.load dst t).2 = ⟨[], false⟩) :
    Reader.Takes (vmstateLoad (dst c.se) c.se.versionId t) c.payload (c.load dst t).1 := by
  apply (sequential_vmstateLoad _ _ _).takes c.payload []
  rw [List.append_nil]
  exact Prod.ext rfl h

variable {hs hl : SavevmHandlers σ} {dst : SaveStateEntry σ → SaveStateEntry σ} {stack : List Byte}
  {les : List (LoadStateEntry σ)} {known : List (SaveStateEntry σ)} {t : σ}

/-! ### One section is read -/

theorem sequential_loadFound (les : List (LoadStateEntry σ)) (t : σ)
    (sectionId versionId : BitVec 32) (se : Option (SaveStateEntry σ)) :
    Reader.Sequential (loadFound les t sectionId versionId se) := by
  cases se with
  | none => exact Reader.Sequential.pure _
  | some se =>
    unfold loadFound
    dsimp only
    split_ifs
    · exact Reader.Sequential.pure _
    · exact (sequential_vmstateLoad _ _ _).bind fun _ => Reader.Sequential.pure _

theorem sequential_loadStart (les : List (LoadStateEntry σ)) (t : σ) :
    Reader.Sequential (loadStart hs stack les t) :=
  Reader.sequential_be32.bind fun _ => Reader.sequential_byte.bind fun _ =>
    (Reader.sequential_buffer _).bind fun _ => Reader.sequential_be32.bind fun _ =>
    Reader.sequential_be32.bind fun _ => sequential_loadFound les t _ _ _

theorem sequential_loadKnown (les : List (LoadStateEntry σ)) (t : σ)
    (le : Option (LoadStateEntry σ)) : Reader.Sequential (loadKnown les t le) := by
  cases le with
  | none => exact Reader.Sequential.pure _
  | some le => exact (sequential_vmstateLoad _ _ _).bind fun _ => Reader.Sequential.pure _

theorem sequential_loadPart (les : List (LoadStateEntry σ)) (t : σ) :
    Reader.Sequential (loadPart les t) :=
  Reader.sequential_be32.bind fun _ => sequential_loadKnown les t _

theorem sequential_loadSection (type : Byte) (les : List (LoadStateEntry σ)) (t : σ) :
    Reader.Sequential (loadSection hs stack type les t) := by
  unfold loadSection
  split_ifs
  · exact sequential_loadStart les t
  · exact sequential_loadPart les t
  · exact Reader.Sequential.pure _

theorem loadSection_of_starts (h : c.Starts) :
    loadSection hs stack c.type les t = loadStart hs stack les t :=
  if_pos h

theorem loadSection_of_continues (h : c.Continues) :
    loadSection hs stack c.type les t = loadPart les t := by
  unfold loadSection
  exact (if_neg h.not_starts).trans (if_pos h)

/-- `find_se` finds the handler with its key, if the keys are different. -/
theorem findSe_self (hkeys : (hs.entries.map SaveStateEntry.key).Nodup) (hse : se ∈ hs.entries) :
    findSe hs se.idstr se.instanceId = some se := by
  have hsome : (findSe hs se.idstr se.instanceId).isSome :=
    List.find?_isSome.mpr ⟨se, hse, by simp⟩
  obtain ⟨e, he⟩ := Option.isSome_iff_exists.mp hsome
  have hmem : e ∈ hs.entries := List.mem_of_find?_eq_some he
  have hmatch := List.find?_some he
  have hkey : e.key = se.key := by
    simpa [SaveStateEntry.key] using hmatch
  rw [he, List.inj_on_of_nodup_map hkeys hmem hse hkey]

theorem idstrRead_idstr (stack : List Byte) (se : SaveStateEntry σ) :
    idstrRead stack (BitVec.ofNat 8 se.idstr.length) se.idstr = se.idstr := by
  have hlen : (BitVec.ofNat 8 se.idstr.length).toNat = se.idstr.length := by
    rw [BitVec.toNat_ofNat]
    exact Nat.mod_eq_of_lt se.idstr_length
  unfold idstrRead
  rw [hlen, List.take_left]
  apply List.takeWhile_eq_self_iff.mpr
  intro b hb
  simp only [ne_eq, decide_eq_true_eq]
  rintro rfl
  exact se.idstr_noNul hb

/-- A section that names its entry, after its type. -/
theorem takes_loadStart (hkeys : (hl.entries.map SaveStateEntry.key).Nodup)
    (hmatch : Matches hs hl dst) (hse : c.se ∈ hs.entries)
    (hload : (c.load dst t).2 = ⟨[], false⟩) :
    Reader.Takes (loadStart hl stack les t)
      (putBe32 c.se.sectionId ++ (putByte (BitVec.ofNat 8 c.se.idstr.length) ++ (c.se.idstr ++
        (putBe32 c.se.instanceId ++ (putBe32 c.se.versionId ++ c.payload)))))
      ⟨(c.load dst t).1.1, loadEntry dst c.se :: les, (c.load dst t).1.2⟩ := by
  have hlen : (BitVec.ofNat 8 c.se.idstr.length).toNat = c.se.idstr.length := by
    rw [BitVec.toNat_ofNat]
    exact Nat.mod_eq_of_lt c.se.idstr_length
  have hbuffer := Reader.takes_buffer c.se.idstr
  rw [← hlen] at hbuffer
  have hword := Reader.sequential_be32
  have hfound := fun sectionId versionId se =>
    sequential_loadFound les t sectionId versionId se
  refine (Reader.takes_be32 _).bind ?_ fun _ => (Reader.sequential_byte.bind fun _ =>
    (Reader.sequential_buffer _).bind fun _ => hword.bind fun _ => hword.bind fun _ =>
    hfound _ _ _).sticky
  refine (Reader.takes_byte _).bind ?_ fun _ => ((Reader.sequential_buffer _).bind fun _ =>
    hword.bind fun _ => hword.bind fun _ => hfound _ _ _).sticky
  refine hbuffer.bind ?_ fun _ => (hword.bind fun _ => hword.bind fun _ => hfound _ _ _).sticky
  refine (Reader.takes_be32 _).bind ?_ fun _ => (hword.bind fun _ => hfound _ _ _).sticky
  refine (Reader.takes_be32 _).bind ?_ fun _ => (hfound _ _ _).sticky
  have hfind := findSe_self hkeys (hmatch.mem _ hse)
  obtain ⟨hidstr, hid⟩ := Prod.mk.inj (hmatch.key _ hse)
  rw [hidstr, hid] at hfind
  rw [idstrRead_idstr, hfind]
  unfold loadFound
  dsimp only
  rw [if_neg (BitVec.not_lt.mpr (hmatch.version _ hse))]
  exact (takes_vmstateLoad hload).map

theorem takes_loadPart
    (hfind : les.find? (fun le => le.sectionId == c.se.sectionId) = some (loadEntry dst c.se))
    (hload : (c.load dst t).2 = ⟨[], false⟩) :
    Reader.Takes (loadPart les t) (putBe32 c.se.sectionId ++ c.payload)
      ⟨(c.load dst t).1.1, les, (c.load dst t).1.2⟩ := by
  refine (Reader.takes_be32 _).bind ?_ fun _ => (sequential_loadKnown les t _).sticky
  rw [hfind]
  exact (takes_vmstateLoad hload).map

/-! ### The entries that were loaded -/

/-- A section that was started is found by its id, which no other entry has. -/
theorem find_loadEntry (hknown : ∀ se ∈ known, se ∈ hs.entries) (hse : se ∈ known) :
    (known.map (loadEntry dst)).find? (fun le => le.sectionId == se.sectionId) =
      some (loadEntry dst se) := by
  have hfind : known.find? (fun e => e.sectionId == se.sectionId) = some se := by
    have hsome : (known.find? (fun e => e.sectionId == se.sectionId)).isSome :=
      List.find?_isSome.mpr ⟨se, hse, by simp⟩
    obtain ⟨e, he⟩ := Option.isSome_iff_exists.mp hsome
    have hid : e.sectionId = se.sectionId := by
      simpa using List.find?_some he
    rw [he, List.inj_on_of_nodup_map hs.nodup (hknown e (List.mem_of_find?_eq_some he))
      (hknown se hse) hid]
  rw [List.find?_map]
  exact congrArg (Option.map (loadEntry dst)) hfind

/-- Each section names an entry, or goes on with one that is in `known` or was named before it. -/
def Routed (hs : SavevmHandlers σ) : List (SaveStateEntry σ) → List (Section σ) → Prop
  | _, [] => True
  | known, c :: cs =>
    c.se ∈ hs.entries ∧
      (c.Starts ∧ Routed hs (c.se :: known) cs ∨
        c.Continues ∧ c.se ∈ known ∧ Routed hs known cs)

/-- Sections of handlers whose first section came before. -/
theorem routed_of_known {known : List (SaveStateEntry σ)}
    (h : ∀ c ∈ cs, c.se ∈ hs.entries ∧ (c.Starts ∨ c.Continues ∧ c.se ∈ known)) :
    Routed hs known cs := by
  induction cs generalizing known with
  | nil => trivial
  | cons c cs ih =>
    obtain ⟨hse, hc⟩ := h c List.mem_cons_self
    refine ⟨hse, ?_⟩
    rcases hc with hstart | ⟨hcont, hknown⟩
    · left
      refine ⟨hstart, ih fun d hd => ?_⟩
      obtain ⟨hdse, hd⟩ := h d (List.mem_cons_of_mem _ hd)
      exact ⟨hdse, hd.imp_right fun hd => ⟨hd.1, List.mem_cons_of_mem _ hd.2⟩⟩
    · right
      exact ⟨hcont, hknown, ih fun d hd => h d (List.mem_cons_of_mem _ hd)⟩

/-- Sections that name their entries, in front of others. -/
theorem routed_append {known : List (SaveStateEntry σ)} {cs ds : List (Section σ)}
    (hcs : ∀ c ∈ cs, c.se ∈ hs.entries ∧ c.Starts)
    (hds : ∀ d ∈ ds, d.se ∈ hs.entries ∧
      (d.Starts ∨ d.Continues ∧ (d.se ∈ known ∨ ∃ c ∈ cs, c.se = d.se))) :
    Routed hs known (cs ++ ds) := by
  induction cs generalizing known with
  | nil =>
    apply routed_of_known
    intro d hd
    obtain ⟨hse, hd⟩ := hds d hd
    refine ⟨hse, hd.imp_right fun hd => ⟨hd.1, ?_⟩⟩
    rcases hd.2 with hknown | ⟨c, hc, -⟩
    · exact hknown
    · exact absurd hc List.not_mem_nil
  | cons c cs ih =>
    obtain ⟨hse, hstart⟩ := hcs c List.mem_cons_self
    refine ⟨hse, Or.inl ⟨hstart, ih (fun e he => hcs e (List.mem_cons_of_mem _ he)) ?_⟩⟩
    intro d hd
    obtain ⟨hdse, hd⟩ := hds d hd
    refine ⟨hdse, hd.imp_right fun hd => ⟨hd.1, ?_⟩⟩
    rcases hd.2 with hknown | ⟨e, he, heq⟩
    · exact Or.inl (List.mem_cons_of_mem _ hknown)
    · rcases List.mem_cons.mp he with rfl | he
      · exact Or.inl (heq ▸ List.mem_cons_self)
      · exact Or.inr ⟨e, he, heq⟩

/-- The sections of a stream: each handler's first one comes before its others. -/
theorem routed_savevmSections (hs : SavevmHandlers σ) (blkEnable shared : Int)
    (runs : List (σ → σ)) (run : σ → σ) (s : σ) :
    Routed hs [] (savevmSections hs blkEnable shared runs run s) := by
  unfold savevmSections
  apply routed_append
  · intro c hc
    obtain ⟨htype, hse, -⟩ := mem_saveLive hc
    exact ⟨hse, Or.inl htype⟩
  · intro d hd
    rcases List.mem_append.mp hd with hd | hd
    · obtain ⟨htype, hse, hlive⟩ := mem_iterateSections hd
      exact ⟨hse, Or.inr ⟨Or.inl htype, Or.inr (saveLive_mem hse hlive)⟩⟩
    · rcases List.mem_append.mp hd with hd | hd
      · obtain ⟨htype, hse, hlive⟩ := mem_saveLive hd
        exact ⟨hse, Or.inr ⟨Or.inr htype, Or.inr (saveLive_mem hse hlive)⟩⟩
      · obtain ⟨htype, hse⟩ := mem_saveFull hd
        exact ⟨hse, Or.inl (Or.inr htype)⟩

/-! ### The loop -/

theorem sticky_loadLoop (fuel : Nat) (les : List (LoadStateEntry σ)) (t : σ) :
    Reader.Sticky (loadLoop hs stack fuel les t) := by
  induction fuel generalizing les t with
  | zero => exact Reader.Sticky.pure _
  | succ fuel ih =>
    refine Reader.sequential_byte.sticky.bind fun type =>
      Reader.Sticky.ite (Reader.Sticky.pure _) ?_
    refine (sequential_loadSection type les t).sticky.bind fun r =>
      Reader.Sticky.ite (Reader.Sticky.pure _) (ih _ _)

theorem sticky_after (fuel : Nat) (r : Loaded σ) :
    Reader.Sticky (if r.ret < 0 then pure (some (r.ret, r.state))
      else loadLoop hs stack fuel r.loadvmHandlers r.state) :=
  Reader.Sticky.ite (Reader.Sticky.pure _) (sticky_loadLoop _ _ _)

theorem sticky_turn (fuel : Nat) (type : Byte) :
    Reader.Sticky (if type = QEMU_VM_EOF then pure (some (0, t)) else do
      let r ← loadSection hs stack type les t
      if r.ret < 0 then pure (some (r.ret, r.state))
      else loadLoop hs stack fuel r.loadvmHandlers r.state) :=
  Reader.Sticky.ite (Reader.Sticky.pure _)
    ((sequential_loadSection type les t).sticky.bind (sticky_after fuel))

theorem takes_end (fuel : Nat) :
    Reader.Takes (loadLoop hs stack (fuel + 1) les t) (putByte QEMU_VM_EOF) (some (0, t)) := by
  have h : Reader.Takes (loadLoop hs stack (fuel + 1) les t) (putByte QEMU_VM_EOF ++ [])
      (some (0, t)) := by
    refine (Reader.takes_byte QEMU_VM_EOF).bind ?_ (sticky_turn fuel)
    rw [if_pos rfl]
    exact Reader.Takes.pure _
  rwa [List.append_nil] at h

variable {fuel : Nat}

/-- A section, and the rest behind it. -/
theorem takes_turn {bs bs' : List Byte} {r : Loaded σ} {a : Option (Int × σ)}
    (htype : type ≠ QEMU_VM_EOF) (hsection : Reader.Takes (loadSection hs stack type les t) bs r)
    (hret : 0 ≤ r.ret)
    (hrest : Reader.Takes (loadLoop hs stack fuel r.loadvmHandlers r.state) bs' a) :
    Reader.Takes (loadLoop hs stack (fuel + 1) les t) (putByte type ++ (bs ++ bs')) a := by
  refine (Reader.takes_byte type).bind ?_ (sticky_turn fuel)
  rw [if_neg htype]
  refine hsection.bind ?_ (sticky_after fuel)
  rw [if_neg (not_lt.mpr hret)]
  exact hrest

/-- The loop takes the sections of a stream and its end, and restores what they hold. -/
theorem takes_loadLoop (hkeys : (hl.entries.map SaveStateEntry.key).Nodup)
    (hmatch : Matches hs hl dst) (hknown : ∀ se ∈ known, se ∈ hs.entries)
    (hrouted : Routed hs known cs) (hloads : Loads dst cs t) (hfuel : cs.length < fuel) :
    Reader.Takes (loadLoop hl stack fuel (known.map (loadEntry dst)) t)
      (cs.flatMap Section.bytes ++ putByte QEMU_VM_EOF) (some (0, restore dst cs t)) := by
  obtain ⟨fuel, rfl⟩ : ∃ n, fuel = n + 1 :=
    Nat.exists_eq_succ_of_ne_zero (Nat.ne_of_gt (Nat.lt_of_le_of_lt (Nat.zero_le _) hfuel))
  -- on the sections: each is routed to the entry that was saved
  induction cs generalizing fuel known t with
  | nil => exact takes_end fuel
  | cons c cs ih =>
    obtain ⟨fuel, rfl⟩ : ∃ n, fuel = n + 1 :=
      Nat.exists_eq_succ_of_ne_zero (Nat.ne_of_gt
        (Nat.lt_of_le_of_lt (Nat.zero_le _) (Nat.lt_of_succ_lt_succ hfuel)))
    have hfuel' : cs.length < fuel + 1 := Nat.lt_of_succ_lt_succ hfuel
    obtain ⟨hret, hload, hloads⟩ := hloads
    obtain ⟨hse, hc⟩ := hrouted
    have hrestore : restore dst (c :: cs) t = restore dst cs (c.load dst t).1.2 := rfl
    rw [List.flatMap_cons, List.append_assoc, hrestore]
    -- a start is looked up by name and instance, a part by its number
    rcases hc with ⟨hstart, hrouted⟩ | ⟨hcont, hmem, hrouted⟩
    · have hsection : Reader.Takes (loadStart hl stack (known.map (loadEntry dst)) t) _ _ :=
        takes_loadStart hkeys hmatch hse hload
      rw [← loadSection_of_starts hstart] at hsection
      have hknown' : ∀ se ∈ c.se :: known, se ∈ hs.entries := by
        intro se h
        rcases List.mem_cons.mp h with rfl | h
        · exact hse
        · exact hknown se h
      have htype : c.type ≠ QEMU_VM_EOF := by
        rcases hstart with h | h <;> rw [h] <;> decide
      have h := takes_turn htype hsection hret (ih hknown' hrouted hloads fuel hfuel')
      rw [Section.bytes_of_starts hstart]
      simpa only [Section.via, putStart, startHeader, List.append_assoc] using h
    · have hsection := takes_loadPart (find_loadEntry hknown hmem) hload
      have hcontinues : loadSection hl stack c.type (known.map (loadEntry dst)) t = _ :=
        loadSection_of_continues hcont
      rw [← hcontinues] at hsection
      have htype : c.type ≠ QEMU_VM_EOF := by
        rcases hcont with h | h <;> rw [h] <;> decide
      have h := takes_turn htype hsection hret (ih hknown hrouted hloads fuel hfuel')
      rw [Section.bytes_of_continues hcont]
      simpa only [Section.via, putPart, partHeader, List.append_assoc] using h

/-! ### Fuel -/

/-- With more fuel than bytes the loop ends. -/
theorem loadLoop_isSome (fuel : Nat) (les : List (LoadStateEntry σ)) (t : σ) (f : InFile)
    (h : f.data.length < fuel) : (loadLoop hs stack fuel les t f).1.isSome := by
  induction fuel generalizing les t f with
  | zero => exact absurd h (Nat.not_lt_zero _)
  | succ fuel ih =>
    unfold loadLoop
    rw [Reader.bind_apply]
    rcases f with ⟨_ | ⟨b, l⟩, e⟩
    · rfl
    · rw [Reader.getByte_cons]
      dsimp only
      split_ifs
      · rfl
      · rw [Reader.bind_apply]
        split_ifs
        · rfl
        · have hsuffix : (loadSection hs stack b les t ⟨l, e⟩).2.data <:+ l :=
            (sequential_loadSection b les t).suffix ⟨l, e⟩
          have hlt : l.length < fuel := Nat.lt_of_succ_lt_succ h
          exact ih _ _ _ (Nat.lt_of_le_of_lt hsuffix.length_le hlt)

variable {f : InFile}

/-- More fuel changes nothing. -/
theorem loadLoop_mono {fuel' : Nat} (h : (loadLoop hs stack fuel les t f).1.isSome)
    (hle : fuel ≤ fuel') : loadLoop hs stack fuel' les t f = loadLoop hs stack fuel les t f := by
  induction fuel generalizing fuel' les t f with
  | zero => exact absurd h Bool.false_ne_true
  | succ fuel ih =>
    obtain ⟨n, rfl⟩ : ∃ n, fuel' = n + 1 := ⟨fuel' - 1, by omega⟩
    unfold loadLoop at h ⊢
    rw [Reader.bind_apply] at h ⊢
    rw [Reader.bind_apply]
    split_ifs at h ⊢ with hend
    · rfl
    · rw [Reader.bind_apply] at h ⊢
      rw [Reader.bind_apply]
      split_ifs at h ⊢
      · rfl
      · exact ih h (Nat.le_of_succ_le_succ hle)

theorem loadOut_isSome (r : Option (Int × σ)) (f : InFile) :
    (loadOut r f).1.isSome = r.isSome := by
  cases r with
  | none => rfl
  | some r => rfl

theorem loadFile_isSome (fuel : Nat) (t : σ) (f : InFile) (h : f.data.length < fuel) :
    (loadFile hs stack fuel t f).1.isSome := by
  unfold loadFile
  rw [Reader.bind_apply]
  split_ifs
  · rfl
  · rw [Reader.bind_apply]
    split_ifs
    · rfl
    · rfl
    · rw [Reader.bind_apply, loadOut_isSome]
      have hmagic := (Reader.sequential_be32.suffix f).length_le
      have hversion := (Reader.sequential_be32.suffix (Reader.getBe32 f).2).length_le
      exact loadLoop_isSome _ _ _ _ (by omega)

/-- More fuel changes nothing. -/
theorem loadFile_mono {fuel' : Nat} (h : f.data.length < fuel) (hle : fuel ≤ fuel') :
    loadFile hs stack fuel' t f = loadFile hs stack fuel t f := by
  unfold loadFile
  rw [Reader.bind_apply, Reader.bind_apply]
  split_ifs
  · rfl
  · rw [Reader.bind_apply, Reader.bind_apply]
    split_ifs
    · rfl
    · rfl
    · rw [Reader.bind_apply, Reader.bind_apply]
      have hmagic := (Reader.sequential_be32.suffix f).length_le
      have hversion := (Reader.sequential_be32.suffix (Reader.getBe32 f).2).length_le
      rw [loadLoop_mono (loadLoop_isSome _ _ _ _ (by omega)) hle]

/-! ### Errors -/

theorem loadOut_of_error {r : Option (Int × σ)} (h : (loadOut r f).2.hasError = true)
    (hret : (loadOut r f).1 = some (ret, t)) : ret < 0 := by
  cases r with
  | none => cases hret
  | some r =>
    have herror : f.hasError = true := h
    have heq : (if f.hasError then - EIO else r.1) = ret :=
      congrArg Prod.fst (Option.some.inj hret)
    rw [if_pos herror] at heq
    rw [← heq]
    decide

/-- A file that ends too early is refused. -/
theorem loadFile_of_error {t t' : σ} (h : (loadFile hs stack fuel t f).2.hasError = true)
    (hret : (loadFile hs stack fuel t f).1 = some (ret, t')) : ret < 0 := by
  unfold loadFile at h hret
  rw [Reader.bind_apply] at h hret
  split_ifs at h hret
  · have heq : -EINVAL = ret := congrArg Prod.fst (Option.some.inj hret)
    rw [← heq]
    decide
  · rw [Reader.bind_apply] at h hret
    split_ifs at h hret
    · have heq : -ENOTSUP = ret := congrArg Prod.fst (Option.some.inj hret)
      rw [← heq]
      decide
    · have heq : -ENOTSUP = ret := congrArg Prod.fst (Option.some.inj hret)
      rw [← heq]
      decide
    · rw [Reader.bind_apply] at h hret
      exact loadOut_of_error h hret

/-! ### Streams -/

theorem sticky_loadOut (r : Option (Int × σ)) : Reader.Sticky (loadOut r) := by
  cases r with
  | none => exact Reader.Sticky.pure _
  | some r => exact Reader.sticky_hasError.bind fun _ => Reader.Sticky.pure _

theorem takes_loadOut (r : Int × σ) : Reader.Takes (loadOut (some r)) [] (some r) :=
  Reader.takes_hasError.map

theorem sticky_loadBody (fuel : Nat) (t : σ) :
    Reader.Sticky (loadLoop hs stack fuel [] t >>= loadOut) :=
  (sticky_loadLoop fuel [] t).bind sticky_loadOut

/-- The loader takes the whole stream, and restores each section. -/
theorem takes_loadFile (hkeys : (hl.entries.map SaveStateEntry.key).Nodup)
    (hmatch : Matches hs hl dst) (hrouted : Routed hs [] cs) (hloads : Loads dst cs t)
    (hfuel : cs.length < fuel) :
    Reader.Takes (loadFile hl stack fuel t) (putBe32 QEMU_VM_FILE_MAGIC ++
      (putBe32 QEMU_VM_FILE_VERSION ++ (cs.flatMap Section.bytes ++ putByte QEMU_VM_EOF)))
      (some (0, restore dst cs t)) := by
  have hknown : ∀ se ∈ ([] : List (SaveStateEntry σ)), se ∈ hs.entries :=
    fun _ h => absurd h List.not_mem_nil
  have htakes : Reader.Takes (loadLoop hl stack fuel [] t) _ _ :=
    takes_loadLoop hkeys hmatch hknown hrouted hloads hfuel
  have hloop := htakes.bind (takes_loadOut _) sticky_loadOut
  rw [List.append_nil] at hloop
  refine (Reader.takes_be32 _).bind ?_ fun magic => Reader.Sticky.ite (Reader.Sticky.pure _)
    (Reader.sequential_be32.sticky.bind fun version => Reader.Sticky.ite (Reader.Sticky.pure _)
      (Reader.Sticky.ite (Reader.Sticky.pure _) (sticky_loadBody fuel t)))
  rw [if_neg (not_not.mpr rfl)]
  refine (Reader.takes_be32 _).bind ?_ fun version => Reader.Sticky.ite (Reader.Sticky.pure _)
    (Reader.Sticky.ite (Reader.Sticky.pure _) (sticky_loadBody fuel t))
  rw [if_neg (by decide), if_neg (not_not.mpr rfl)]
  exact hloop

theorem Section.bytes_length (c : Section σ) : 0 < c.bytes.length := by
  unfold Section.bytes putStart putPart startHeader partHeader putByte
  split_ifs <;> simp

theorem length_le_flatMap (cs : List (Section σ)) :
    cs.length ≤ (cs.flatMap Section.bytes).length := by
  induction cs with
  | nil => exact Nat.le_refl _
  | cons c cs ih =>
    have hpos := c.bytes_length
    rw [List.flatMap_cons, List.length_append, List.length_cons]
    omega

/-- A stream is loaded, by a machine whose handlers may be registered in another order: each payload
goes to the handler with the name and the instance id of the one that wrote it, in the order of the
stream and with the version that was saved.  What is only a part of a stream is refused. -/
theorem qemuLoadvmState_savevmStream (hs hl : SavevmHandlers σ)
    (hkeys : (hl.entries.map SaveStateEntry.key).Nodup)
    (dst : SaveStateEntry σ → SaveStateEntry σ) (hmatch : Matches hs hl dst) (stack : List Byte)
    (blkEnable shared : Int) (runs : List (σ → σ)) (run : σ → σ) (s t : σ)
    (hloads : Loads dst (savevmSections hs blkEnable shared runs run s) t) :
    qemuLoadvmState hl stack (savevmStream hs blkEnable shared runs run s) t =
        some (0, restore dst (savevmSections hs blkEnable shared runs run s) t) ∧
      ∀ p, p <+: savevmStream hs blkEnable shared runs run s →
        p ≠ savevmStream hs blkEnable shared runs run s →
        ∃ ret t', qemuLoadvmState hl stack p t = some (ret, t') ∧ ret < 0 := by
  have hrouted := routed_savevmSections hs blkEnable shared runs run s
  have hfuel : (savevmSections hs blkEnable shared runs run s).length <
      (savevmStream hs blkEnable shared runs run s).length + 1 := by
    have hle := length_le_flatMap (savevmSections hs blkEnable shared runs run s)
    rw [savevmStream_eq]
    simp only [List.length_append]
    omega
  have htakes : Reader.Takes (loadFile hl stack _ t) _ _ :=
    takes_loadFile hkeys hmatch hrouted hloads hfuel
  rw [← savevmStream_eq] at htakes
  constructor
  · have hwhole := htakes.whole []
    rw [List.append_nil] at hwhole
    unfold qemuLoadvmState
    rw [hwhole]
  · intro p hp hne
    -- with the fuel of the whole stream the end is met
    have hshort := htakes.short p hp hne
    have hlt : (⟨p, false⟩ : InFile).data.length < p.length + 1 := Nat.lt_succ_self p.length
    have hmono : loadFile hl stack _ t ⟨p, false⟩ = _ :=
      loadFile_mono hlt (Nat.succ_le_succ hp.length_le)
    rw [hmono] at hshort
    obtain ⟨⟨ret, t'⟩, hret⟩ := Option.isSome_iff_exists.mp
      (loadFile_isSome (p.length + 1) t ⟨p, false⟩ hlt)
    exact ⟨ret, t', hret, loadFile_of_error hshort hret⟩

/-! ### An instance -/

/-- A machine of two bytes.  A device loads one of them. -/
def byteHandler (second : Bool) : LoadStateHandler (Byte × Byte) where
  run _ t := Reader.getByte >>= fun b => pure (0, if second then (t.1, b) else (b, t.2))
  sequential _ _ := Reader.sequential_byte.bind fun _ => Reader.Sequential.pure _

/-- The first byte is saved live, the second one as a whole. -/
def byteEntry (second : Bool) (versionId sectionId : BitVec 32) : SaveStateEntry (Byte × Byte) where
  idstr := if second then [98] else [97]
  idstr_noNul := by cases second <;> decide
  idstr_length := by cases second <;> decide
  instanceId := 0
  versionId := versionId
  sectionId := sectionId
  device := 0
  setParams := none
  saveLiveState := if second then none else some fun _ s => (1, [s.1], s)
  saveState := if second then some fun s => ([s.2], s) else none
  loadState := byteHandler second
  vmsd := none

/-- Handlers for two bytes. -/
def byteHandlers : SavevmHandlers (Byte × Byte) where
  entries := [byteEntry false 1 0, byteEntry true 1 1]
  globalSectionId := 2
  fresh se h := by
    rcases List.mem_pair.mp h with rfl | rfl <;> decide
  nodup := by decide

/-- The same devices, registered the other way round by a newer version. -/
def newerHandlers : SavevmHandlers (Byte × Byte) where
  entries := [byteEntry true 2 0, byteEntry false 1 1]
  globalSectionId := 2
  fresh se h := by
    rcases List.mem_pair.mp h with rfl | rfl <;> decide
  nodup := by decide

/-- The same handler of a newer program, under another section id. -/
def newerEntry (se : SaveStateEntry (Byte × Byte)) : SaveStateEntry (Byte × Byte) :=
  if se.idstr = [98] then byteEntry true 2 0 else byteEntry false 1 1

theorem matches_newerHandlers : Matches byteHandlers newerHandlers newerEntry where
  mem se h := by
    rcases List.mem_pair.mp h with rfl | rfl
    · exact List.mem_pair.mpr (.inr rfl)
    · exact List.mem_pair.mpr (.inl rfl)
  key se h := by
    rcases List.mem_pair.mp h with rfl | rfl <;> rfl
  version se h := by
    rcases List.mem_pair.mp h with rfl | rfl <;> decide

/-- Each time the machine runs its first byte grows by one and its second one by two. -/
def runBytes (s : Byte × Byte) : Byte × Byte := (s.1 + 1, s.2 + 2)

/-- A stream of the older program is loaded by the newer one. -/
theorem qemuLoadvmState_newerHandlers :
    let stream := savevmStream byteHandlers 0 0 [runBytes] runBytes (7, 20)
    qemuLoadvmState newerHandlers [] stream (0, 0) = some (0, (9, 24)) ∧
      ∀ p, p <+: stream → p ≠ stream →
        ∃ ret t', qemuLoadvmState newerHandlers [] p (0, 0) = some (ret, t') ∧ ret < 0 :=
  qemuLoadvmState_savevmStream byteHandlers newerHandlers (by decide) newerEntry
    matches_newerHandlers [] 0 0 [runBytes] runBytes (7, 20) (0, 0)
    ⟨le_refl _, rfl, le_refl _, rfl, le_refl _, rfl, le_refl _, rfl, trivial⟩

/-! ### Registered handlers -/

/-- An id asked for is new for the name; an id chosen does not overflow, and the name fits. -/
def SavevmHandlers.Fresh (hs : SavevmHandlers σ) (idstr : List Byte) (instanceId : BitVec 32) :
    Prop :=
  if instanceId = -1 then
    (idstr.takeWhile (· ≠ 0)).length < 256 ∧
      ∀ se ∈ hs.entries, se.idstr = pstrcpy idstr → se.instanceId ≠ 0x7fffffff
  else (pstrcpy idstr, instanceId) ∉ hs.entries.map SaveStateEntry.key

/-- Handlers registered, and some of them removed again, one after the other. -/
inductive SavevmHandlers.Registered : SavevmHandlers σ → Prop
  | empty : Registered .empty
  | registerSavevmLive {a b idstr id version setParams live save load device} : Registered a →
    a.Fresh idstr id →
      registerSavevmLive a idstr id version setParams live save load device = some b → Registered b
  | vmstateRegister {a b id vmsd device} : Registered a → a.Fresh vmsd.name id →
    vmstateRegister a id vmsd device = some b → Registered b
  | unregisterSavevm {a} (idstr device) : Registered a →
    Registered (unregisterSavevm a idstr device)
  | vmstateUnregister {a} (vmsd device) : Registered a →
    Registered (vmstateUnregister a vmsd device)

theorem toInt_add_one {x : BitVec 32} (h : x ≠ 0x7fffffff) : (x + 1).toInt = x.toInt + 1 := by
  have hx : x.toNat ≠ 0x7fffffff := fun hx => h (BitVec.eq_of_toNat_eq hx)
  simp only [BitVec.toInt_eq_toNat_cond, BitVec.toNat_add]
  have := x.isLt
  simp
  omega

/-- The id chosen is above all those of the name. -/
theorem lt_calculateNewInstanceId {idstr : List Byte}
    (hmax : ∀ se ∈ hs.entries, se.idstr = idstr → se.instanceId ≠ 0x7fffffff) :
    ∀ se ∈ hs.entries, se.idstr = idstr →
      se.instanceId.toInt < (calculateNewInstanceId hs idstr).toInt := by
  unfold calculateNewInstanceId
  generalize hs.entries = entries at hmax ⊢
  induction entries using List.reverseRecOn with
  | nil => exact fun _ h => absurd h List.not_mem_nil
  | append_singleton entries e ih =>
    have ih := ih fun se h => hmax se (List.mem_append_left _ h)
    rw [List.foldl_append, List.foldl_cons, List.foldl_nil]
    generalize List.foldl _ _ entries = id at ih ⊢
    simp only [BitVec.sle_iff_toInt_le]
    intro se hse hname
    rcases List.mem_append.mp hse with h | h
    · have hlt := ih se h hname
      split_ifs with hlater
      · have := toInt_add_one (hmax e (by simp) hlater.1)
        omega
      · exact hlt
    · obtain rfl := List.mem_singleton.mp h
      split_ifs with hlater
      · rw [toInt_add_one (hmax se hse hname)]
        exact Int.lt_succ _
      · exact not_le.mp fun hle => hlater ⟨hname, hle⟩

/-- The name and the id of an entry that is inserted are new. -/
theorem SavevmHandlers.Fresh.notMem {idstr : List Byte} {instanceId : BitVec 32}
    (h : hs.Fresh idstr instanceId) :
    (pstrcpy idstr, newInstanceId hs idstr instanceId) ∉ hs.entries.map SaveStateEntry.key := by
  unfold SavevmHandlers.Fresh newInstanceId at *
  split_ifs at h ⊢
  · obtain ⟨hlen, hmax⟩ := h
    have hwhole : pstrcpy idstr = idstr.takeWhile (· ≠ 0) :=
      List.take_of_length_le (Nat.le_of_lt_succ hlen)
    rw [hwhole] at hmax ⊢
    intro hmem
    obtain ⟨se, hse, hkey⟩ := List.mem_map.mp hmem
    exact (lt_calculateNewInstanceId hmax se hse (congrArg Prod.fst hkey)).ne
      (congrArg (fun key => key.2.toInt) hkey)
  · exact h

theorem insertTail_keys {hs' : SavevmHandlers σ}
    (hkeys : (hs.entries.map SaveStateEntry.key).Nodup)
    (hnew : se.key ∉ hs.entries.map SaveStateEntry.key) (h : hs.insertTail se = some hs') :
    (hs'.entries.map SaveStateEntry.key).Nodup := by
  unfold SavevmHandlers.insertTail at h
  split_ifs at h
  cases h
  rw [List.map_append]
  exact hkeys.append (List.nodup_singleton _) (List.disjoint_singleton.mpr hnew)

theorem SavevmHandlers.Registered.nodup_keys (h : hs.Registered) :
    (hs.entries.map SaveStateEntry.key).Nodup := by
  induction h with
  | empty => exact List.nodup_nil
  | registerSavevmLive _ hfresh hrun ih =>
    refine insertTail_keys ih ?_ hrun
    exact hfresh.notMem
  | vmstateRegister _ hfresh hrun ih =>
    refine insertTail_keys ih ?_ hrun
    exact hfresh.notMem
  | unregisterSavevm _ _ _ ih | vmstateUnregister _ _ _ ih =>
    exact ih.sublist (List.filter_sublist.map _)

/-- **The keys of registered handlers are distinct**: what is loaded goes to the entry saved. -/
theorem savevmHandlers_keys (h : hs.Registered) :
    (hs.entries.map SaveStateEntry.key).Nodup ∧
      ∀ se ∈ hs.entries, findSe hs se.idstr se.instanceId = some se :=
  ⟨h.nodup_keys, fun _ hse => findSe_self h.nodup_keys hse⟩

/-- Two devices of one name; the first one goes, and a third one comes. -/
theorem savevmHandlers_keys_three : ∃ hs : SavevmHandlers (Byte × Byte),
    hs.entries.map (fun se => (se.key, se.device)) = [(([97], 1), 1), (([97], 2), 2)] ∧
      (hs.entries.map SaveStateEntry.key).Nodup ∧
      ∀ se ∈ hs.entries, findSe hs se.idstr se.instanceId = some se := by
  have hfresh (hs : SavevmHandlers (Byte × Byte))
      (hmax : ∀ se ∈ hs.entries, se.instanceId ≠ 0x7fffffff) : hs.Fresh [97] (-1) :=
    ⟨by decide, fun se hse _ => hmax se hse⟩
  have first := SavevmHandlers.Registered.registerSavevmLive .empty (hfresh _ (by decide))
    (rfl : registerSavevm .empty [97] (-1) 1 none (byteHandler false) 0 = some _)
  have second := first.registerSavevmLive (hfresh _ (by decide))
    (rfl : registerSavevm _ [97] (-1) 1 none (byteHandler true) 1 = some _)
  have third := (second.unregisterSavevm [97] 0).registerSavevmLive (hfresh _ (by decide))
    (rfl : registerSavevm _ [97] (-1) 1 none (byteHandler true) 2 = some _)
  exact ⟨_, by decide, savevmHandlers_keys third⟩

end Qemu.Migration
