import Qemu.Lib.Reader

namespace Qemu.Lib

/-!
# Streams of sections

A stream consists of sections, and a section of records and an end.  One side appends to the
stream, the other one takes a section at a time, with a loop that takes a record in each turn.

* `loadSections` — a number of sections;
* `SectionReader` — a loop with the records that it takes, and the proofs that it does;
* `SectionReader.Open`, `SectionReader.Closed` — what was written so far, and what it does to the
  other side;
* `Open.record`, `Open.eos` — a record and the end of a section are written;
* `Closed.loads` — the other side takes the whole stream.
-/

variable {ρ σ τ : Type}

/-- Sections are taken as long as they end well. -/
def loadSections [DecidableEq τ] (load : σ → Reader (σ × τ)) (done : τ) : Nat → σ → Reader (σ × τ)
  | 0, st => pure (st, done)
  | sections + 1, st => do
    let r ← load st
    if r.2 = done then loadSections load done sections r.1 else pure r

/-- A loop with a bound of its turns, and the records that it takes. -/
structure SectionReader (ρ σ τ : Type) where
  loop : Nat → σ → Reader (σ × τ)
  done : τ
  bytes : ρ → List Byte
  eos : List Byte
  apply : σ → ρ → σ
  Ok : ρ → Prop
  bytes_pos : ∀ r, 0 < (bytes r).length
  loop_record : ∀ {r : ρ} {fuel : Nat} {st : σ} {bs : List Byte} {a : σ × τ}, Ok r →
    (loop fuel (apply st r)).Consumes bs a → (loop (fuel + 1) st).Consumes (bytes r ++ bs) a
  loop_eos : ∀ (fuel : Nat) (st : σ), (loop (fuel + 1) st).Consumes eos (st, done)

namespace SectionReader

variable (L : SectionReader ρ σ τ)

/-- A file of a length cannot hold more records than that. -/
def load (st : σ) : Reader (σ × τ) := fun f => L.loop (f.data.length + 1) st f

/-- The bytes of a section: its records and the mark of its end. -/
def sectionBytes (rs : List ρ) : List Byte := rs.flatMap L.bytes ++ L.eos

variable {L}

theorem length_le (rs : List ρ) : rs.length ≤ (rs.flatMap L.bytes).length := by
  induction rs with
  | nil => exact Nat.le_refl 0
  | cons r rs ih =>
    have hpos := L.bytes_pos r
    rw [List.flatMap_cons, List.length_append, List.length_cons]
    omega

/-- The loop of a loader takes the records of a section up to its end. -/
theorem loop_section {rs : List ρ} (hrs : ∀ r ∈ rs, L.Ok r) {fuel : Nat}
    (hfuel : rs.length < fuel) (st : σ) :
    (L.loop fuel st).Consumes (L.sectionBytes rs) (rs.foldl L.apply st, L.done) := by
  induction rs generalizing fuel st with
  | nil =>
    obtain ⟨fuel, rfl⟩ : ∃ n, fuel = n + 1 := ⟨fuel - 1, by omega⟩
    exact L.loop_eos fuel st
  | cons r rs ih =>
    obtain ⟨fuel, rfl⟩ : ∃ n, fuel = n + 1 := ⟨fuel - 1, by omega⟩
    obtain ⟨hr, hrest⟩ := List.forall_mem_cons.mp hrs
    rw [sectionBytes, List.flatMap_cons, List.append_assoc]
    exact L.loop_record hr (ih hrest (Nat.lt_of_succ_lt_succ hfuel) _)

/-- With the fuel that the file's length gives. -/
theorem load_section {rs : List ρ} (hrs : ∀ r ∈ rs, L.Ok r) (st : σ) :
    (L.load st).Consumes (L.sectionBytes rs) (rs.foldl L.apply st, L.done) := by
  intro rest
  have hlen := @length_le _ _ _ L rs
  refine loop_section hrs ?_ st rest
  rw [sectionBytes, List.length_append, List.length_append]
  omega

/-- Sections are loaded one after the other. -/
theorem loads_sections [DecidableEq τ] {sections : List (List ρ)}
    (hok : ∀ rs ∈ sections, ∀ r ∈ rs, L.Ok r) (st : σ) :
    (loadSections L.load L.done sections.length st).Consumes (sections.flatMap L.sectionBytes)
      (sections.flatten.foldl L.apply st, L.done) := by
  induction sections generalizing st with
  | nil => exact Reader.Consumes.pure _
  | cons rs sections ih =>
    obtain ⟨hrs, hrest⟩ := List.forall_mem_cons.mp hok
    rw [List.flatMap_cons, List.flatten_cons, List.foldl_append]
    refine (load_section hrs st).bind ?_
    rw [if_pos rfl]
    exact ih hrest _

variable (L)

/-- A file of whole sections, and the state that they lead to. -/
def Closed (st₀ : σ) (n : Nat) (file : List Byte) (st : σ) : Prop :=
  ∃ sections : List (List ρ), sections.length = n ∧ file = sections.flatMap L.sectionBytes ∧
    (∀ rs ∈ sections, ∀ r ∈ rs, L.Ok r) ∧ st = sections.flatten.foldl L.apply st₀

/-- The same with records of a section that has not ended. -/
def Open (st₀ : σ) (n : Nat) (file : List Byte) (st : σ) : Prop :=
  ∃ (before : List Byte) (st' : σ) (rs : List ρ), L.Closed st₀ n before st' ∧
    file = before ++ rs.flatMap L.bytes ∧ (∀ r ∈ rs, L.Ok r) ∧ st = rs.foldl L.apply st'

variable {L} {st₀ st : σ} {n : Nat} {file : List Byte}

theorem Closed.nil (st₀ : σ) : L.Closed st₀ 0 [] st₀ :=
  ⟨[], rfl, rfl, fun _ h => absurd h List.not_mem_nil, rfl⟩

theorem Closed.open (h : L.Closed st₀ n file st) : L.Open st₀ n file st :=
  ⟨file, st, [], h, (List.append_nil file).symm, fun _ h => absurd h List.not_mem_nil, rfl⟩

theorem Open.record (h : L.Open st₀ n file st) {r : ρ} (hr : L.Ok r) :
    L.Open st₀ n (file ++ L.bytes r) (L.apply st r) := by
  obtain ⟨before, st', rs, hbefore, rfl, hok, rfl⟩ := h
  refine ⟨before, st', rs ++ [r], hbefore, ?_, ?_, ?_⟩
  · rw [List.flatMap_append, List.flatMap_singleton, List.append_assoc]
  · intro r' hr'
    obtain hr' | hr' := List.mem_append.mp hr'
    · exact hok r' hr'
    · exact List.mem_singleton.mp hr' ▸ hr
  · rw [List.foldl_append]
    rfl

/-- A section ends. -/
theorem Open.eos (h : L.Open st₀ n file st) : L.Closed st₀ (n + 1) (file ++ L.eos) st := by
  obtain ⟨before, st', rs, ⟨sections, hlen, rfl, hsections, rfl⟩, rfl, hok, rfl⟩ := h
  refine ⟨sections ++ [rs], ?_, ?_, ?_, ?_⟩
  · rw [List.length_append, hlen, List.length_singleton]
  · rw [List.flatMap_append, List.flatMap_singleton, sectionBytes, List.append_assoc]
  · intro rs' hrs'
    obtain hrs' | hrs' := List.mem_append.mp hrs'
    · exact hsections rs' hrs'
    · exact List.mem_singleton.mp hrs' ▸ hok
  · rw [List.flatten_append, List.flatten_singleton, List.foldl_append]

/-- **The other side takes what was written.** -/
theorem Closed.loads [DecidableEq τ] (h : L.Closed st₀ n file st) :
    loadSections L.load L.done n st₀ ⟨file, false⟩ = ((st, L.done), ⟨[], false⟩) := by
  obtain ⟨sections, rfl, rfl, hok, rfl⟩ := h
  have hload := loads_sections hok st₀ []
  rwa [List.append_nil] at hload

end SectionReader

end Qemu.Lib
