import Mathlib.Data.Finset.Card

namespace Qemu.Lib

/-!
# Intrusive singly linked lists

A C list threaded through the nodes themselves: `next` gives the pointer stored in a node,
`none` is the null pointer.  Nothing here says what a node is; a node may be a record, or a
record together with the slot it is linked through, and the list may end in null or (for a
circular list) in a pointer back to its owner.

* `Seg next p l q` — following `next` from the pointer `p` visits exactly `l` and then holds `q`;
* `Cell` — a pointer variable: the list head or the link field of a node (`T **pp` in C);
* `findCell` — the loop that walks cells until the pointed-to node matches;
* `seekCell` — the same loop where the null link at the end is a place too;
* `Seg.eraseP` — searching a null-terminated list and unlinking what is found erases the first
  match; `Seg.eraseCircular` is the same for a circular list walked from the node itself;
* `Seg.congr` — writes to other nodes leave a segment alone.
-/

variable {ν : Type*}

/-! ### Segments -/

/-- Following `next` from `p` visits the nodes of `l` in order, then holds the pointer `q`. -/
def Seg (next : ν → Option ν) : Option ν → List ν → Option ν → Prop
  | p, [], q => p = q
  | p, v :: l, q => p = some v ∧ Seg next (next v) l q

/-- An empty segment ends where it begins. -/
@[simp] theorem Seg_nil (next : ν → Option ν) (p q : Option ν) : Seg next p [] q ↔ p = q :=
  Iff.rfl

/-- A segment begins at its first element and goes on at that one's successor. -/
@[simp] theorem Seg_cons (next : ν → Option ν) (p q : Option ν) (v : ν) (l : List ν) :
    Seg next p (v :: l) q ↔ p = some v ∧ Seg next (next v) l q := Iff.rfl

variable {l : List ν} {next next' : ν → Option ν} {q : Option ν}

/-- A segment only depends on the link fields of its own nodes. -/
theorem Seg.congr {p : Option ν} (h : Seg next p l q) (heq : ∀ v ∈ l, next' v = next v) :
    Seg next' p l q := by
  induction l generalizing p with
  | nil => exact h
  | cons v l ih =>
    obtain ⟨hp, htl⟩ := h
    refine ⟨hp, ?_⟩
    rw [heq v (by simp)]
    exact ih htl (fun u hu => heq u (by simp [hu]))

theorem Seg.unique {l' : List ν} {p : Option ν} (h : Seg next p l none) (h' : Seg next p l' none) :
    l = l' := by
  induction l generalizing p l' with
  | nil =>
    cases l' with
    | nil => rfl
    | cons v l' => exact absurd (h.symm.trans h'.1) (by simp)
  | cons v l ih =>
    obtain ⟨rfl, htl⟩ := h
    cases l' with
    | nil => exact absurd h' (by simp)
    | cons u l' =>
      obtain ⟨hu, htl'⟩ := h'
      cases Option.some.inj hu
      rw [ih htl htl']

variable {l₁ l₂ : List ν}

/-- A segment over `l₁ ++ l₂` splits at the pointer reached after `l₁`. -/
theorem Seg_append {p : Option ν} :
    Seg next p (l₁ ++ l₂) q ↔ ∃ m, Seg next p l₁ m ∧ Seg next m l₂ q := by
  induction l₁ generalizing p with
  | nil => simp
  | cons v l₁ ih =>
    simp only [List.cons_append, Seg_cons, ih]
    constructor
    · rintro ⟨hp, m, h₁, h₂⟩
      exact ⟨m, ⟨hp, h₁⟩, h₂⟩
    · rintro ⟨m, ⟨hp, h₁⟩, h₂⟩
      exact ⟨hp, m, h₁, h₂⟩

variable {v : ν}

/-- Storing the successor of a node's successor in the node unlinks the one between them. -/
theorem Seg.skip {u : ν} {p : Option ν} (h : Seg next p (l₁ ++ u :: v :: l₂) q)
    (hnd : (l₁ ++ u :: v :: l₂).Nodup) (hu : next' u = next v)
    (heq : ∀ w, w ≠ u → next' w = next w) : Seg next' p (l₁ ++ u :: l₂) q := by
  obtain ⟨m, h₁, rfl, -, h₂⟩ := Seg_append.mp h
  have hnot := (List.nodup_middle.mp hnd).notMem
  refine Seg_append.mpr ⟨some u, h₁.congr fun w hw => heq w ?_, rfl, ?_⟩
  · rintro rfl
    exact hnot (List.mem_append_left _ hw)
  · rw [hu]
    refine h₂.congr fun w hw => heq w ?_
    rintro rfl
    exact hnot (List.mem_append_right _ (List.mem_cons_of_mem v hw))

/-- The pointer at which the rest `l₂` of a segment starts. -/
theorem Seg.drop {p : Option ν} (h : Seg next p (l₁ ++ v :: l₂) q) :
    Seg next (some v) (v :: l₂) q := by
  obtain ⟨m, _, h₂⟩ := Seg_append.mp h
  exact ⟨rfl, h₂.2⟩

/-- Two walks from one pointer are one walk. -/
theorem Seg.behind {p : Option ν} (h₁ : Seg next p l₁ (some v)) (h : Seg next p l none) :
    ∃ l₂, Seg next (some v) l₂ none := by
  induction l₁ generalizing p l with
  | nil =>
    obtain rfl : p = some v := h₁
    exact ⟨l, h⟩
  | cons u l₁ ih =>
    obtain ⟨rfl, h₁⟩ := h₁
    cases l with
    | nil => cases h
    | cons w l =>
      obtain ⟨hw, h⟩ := h
      obtain rfl : u = w := Option.some.inj hw
      exact ih h₁ h

/-- Two nodes that point at each other: the walk has no end. -/
theorem not_Seg_of_cycle {next : ν → Option ν} {u v : ν} (huv : next u = some v)
    (hvu : next v = some u) : ∀ l : List ν, ¬Seg next (some u) l none
  | [], h => by cases h
  | [w], h => by
    obtain ⟨hw, h⟩ := h
    obtain rfl : u = w := Option.some.inj hw
    cases huv.symm.trans h
  | w :: x :: l, h => by
    obtain ⟨hw, hx, h⟩ := h
    obtain rfl : u = w := Option.some.inj hw
    obtain rfl : v = x := Option.some.inj (huv.symm.trans hx)
    rw [hvu] at h
    exact not_Seg_of_cycle huv hvu l h

/-- A node is put behind the last one. -/
theorem Seg.snoc {u : ν} {p : Option ν} (h : Seg next p (l ++ [u]) none) (hnd : (l ++ [u]).Nodup)
    (hnew : v ∉ l ++ [u]) (hu : next' u = some v) (hv : next' v = none)
    (heq : ∀ w, w ≠ u → w ≠ v → next' w = next w) : Seg next' p (l ++ [u] ++ [v]) none := by
  obtain ⟨m, h₁, rfl, -⟩ := Seg_append.mp h
  rw [List.append_assoc]
  refine Seg_append.mpr ⟨some u, h₁.congr fun w hw => heq w ?_ ?_, rfl, hu, hv⟩
  · rintro rfl
    exact List.disjoint_of_nodup_append hnd hw List.mem_cons_self
  · rintro rfl
    exact hnew (List.mem_append_left _ hw)

/-- A null-terminated segment starts at its first node. -/
theorem Seg.head_eq {p : Option ν} (h : Seg next p l none) : p = l.head? := by
  cases l with
  | nil => exact h
  | cons v l => exact h.1

/-- A segment that does not end in null passes no null link. -/
theorem Seg.next_ne_none {p : Option ν} {o : ν} (h : Seg next p l (some o)) (hv : v ∈ l) :
    next v ≠ none := by
  obtain ⟨l₁, l₂, rfl⟩ := List.append_of_mem hv
  intro hnone
  have htl := (Seg.drop h).2
  rw [hnone] at htl
  cases l₂ <;> simp at htl

/-! ### Cells and the search loop -/

/-- A pointer variable of a list: the head, or the link field of a node. -/
inductive Cell (ν : Type*) where
  | head
  | next (v : ν)
deriving DecidableEq

/-- The pointer held by a cell. -/
def Cell.get (head : Option ν) (next : ν → Option ν) : Cell ν → Option ν
  | .head => head
  | .next v => next v

/-- The loop `for (;;) { v = *pp; if (p v) break; pp = &v->next; }`: the cell pointing at the
    first matching node.  A null link, or running for ever (`fuel` steps), is `none`. -/
def findCell (head : Option ν) (next : ν → Option ν) (p : ν → Bool) :
    Nat → Cell ν → Option (Cell ν)
  | 0, _ => none
  | fuel + 1, c =>
    match c.get head next with
    | none => none
    | some v => if p v then some c else findCell head next p fuel (.next v)

/-- The cell holding the pointer reached after walking `l` from the cell `c`. -/
def lastCell : Cell ν → List ν → Cell ν
  | c, [] => c
  | _, v :: l => lastCell (.next v) l

/-- The last cell is the given one or that of an element. -/
theorem lastCell_mem (c : Cell ν) (l : List ν) :
    lastCell c l = c ∨ ∃ u ∈ l, lastCell c l = .next u := by
  induction l generalizing c with
  | nil => exact .inl rfl
  | cons v l ih =>
    rcases ih (.next v) with h | ⟨u, hu, h⟩
    · exact .inr ⟨v, by simp, h⟩
    · exact .inr ⟨u, by simp [hu], h⟩

variable {c : Cell ν} {e : Option ν} {fuel : Nat} {p : ν → Bool}

/-- The search loop stops at the cell pointing at the first match, given one step for each
    node before it. -/
theorem findCell_eq (h : Seg next (c.get e next) (l₁ ++ v :: l₂) q) (hv : p v = true)
    (hl : ∀ u ∈ l₁, p u = false) (hf : l₁.length < fuel) :
    findCell e next p fuel c = some (lastCell c l₁) := by
  induction l₁ generalizing c fuel with
  | nil =>
    obtain ⟨hp, _⟩ := h
    cases fuel with
    | zero => simp at hf
    | succ fuel => simp [findCell, hp, hv, lastCell]
  | cons u l₁ ih =>
    obtain ⟨hp, htl⟩ := h
    cases fuel with
    | zero => simp at hf
    | succ fuel =>
      have hu : p u = false := hl u (by simp)
      simp only [List.length_cons] at hf
      simp only [findCell, hp, hu]
      exact ih (c := .next u) htl (fun w hw => hl w (by simp [hw])) (by omega)

/-- Without a match the search runs into the null link. -/
theorem findCell_eq_none (fuel : Nat) (h : Seg next (c.get e next) l none)
    (hl : ∀ u ∈ l, p u = false) : findCell e next p fuel c = none := by
  induction fuel generalizing c l with
  | zero => rfl
  | succ fuel ih =>
    cases l with
    | nil =>
      rw [Seg_nil] at h
      simp [findCell, h]
    | cons u l =>
      obtain ⟨hp, htl⟩ := h
      have hu : p u = false := hl u (by simp)
      simp only [findCell, hp, hu]
      exact ih (c := .next u) htl (fun w hw => hl w (by simp [hw]))

/-- The loop `for (;;) { v = *pp; if (!v || p(v)) break; pp = &v->next; }`: the cell where it
    stops.  Running for ever (`fuel` steps) is `none`. -/
def seekCell (head : Option ν) (next : ν → Option ν) (p : ν → Bool) :
    Nat → Cell ν → Option (Cell ν)
  | 0, _ => none
  | fuel + 1, c =>
    match c.get head next with
    | none => some c
    | some v => if p v then some c else seekCell head next p fuel (.next v)

/-- The search stops behind the nodes that do not match, at a match or at the end. -/
theorem seekCell_eq (h : Seg next (c.get e next) (l₁ ++ l₂) none) (h₁ : ∀ u ∈ l₁, p u = false)
    (h₂ : ∀ v ∈ l₂.head?, p v = true) (hf : l₁.length < fuel) :
    seekCell e next p fuel c = some (lastCell c l₁) := by
  induction l₁ generalizing c fuel with
  | nil =>
    obtain ⟨fuel, rfl⟩ := Nat.exists_eq_succ_of_ne_zero (Nat.ne_zero_of_lt hf)
    cases l₂ with
    | nil =>
      have hend : c.get e next = none := h
      simp [seekCell, hend, lastCell]
    | cons v l₂ =>
      obtain ⟨hp, _⟩ := h
      have hv : p v = true := h₂ v rfl
      simp [seekCell, hp, hv, lastCell]
  | cons u l₁ ih =>
    obtain ⟨fuel, rfl⟩ := Nat.exists_eq_succ_of_ne_zero (Nat.ne_zero_of_lt hf)
    obtain ⟨hp, htl⟩ := h
    have hu : p u = false := h₁ u (by simp)
    simp only [seekCell, hp, hu]
    exact ih (c := .next u) htl (fun w hw => h₁ w (by simp [hw])) (Nat.lt_of_succ_lt_succ hf)

/-- The cell found holds a pointer to the match. -/
theorem lastCell_get (h : Seg next (c.get e next) (l₁ ++ v :: l₂) q) :
    (lastCell c l₁).get e next = some v := by
  induction l₁ generalizing c with
  | nil => exact h.1
  | cons u l₁ ih => exact ih (c := .next u) h.2

/-- The cell found holds the pointer at which the rest of the list starts. -/
theorem lastCell_seg (h : Seg next (c.get e next) (l₁ ++ l₂) q) :
    Seg next ((lastCell c l₁).get e next) l₂ q := by
  induction l₁ generalizing c with
  | nil => exact h
  | cons u l₁ ih => exact ih (c := .next u) h.2

/-! ### Writing a cell -/

/-- The list head after storing `x` in the cell `k`. -/
def Cell.putHead (head x : Option ν) : Cell ν → Option ν
  | .head => x
  | .next _ => head

variable [DecidableEq ν]

/-- The link fields after storing `x` in the cell `k`. -/
def Cell.putNext (next : ν → Option ν) (x : Option ν) : Cell ν → ν → Option ν
  | .head => next
  | .next u => Function.update next u x

/-- A store to another cell leaves this one. -/
theorem putNext_of_ne {x : Option ν} {k : Cell ν} (h : k ≠ .next v) :
    k.putNext next x v = next v := by
  cases k with
  | head => rfl
  | next u =>
    have hne : v ≠ u := by rintro rfl; exact h rfl
    simp [Cell.putNext, hne]

/-- Storing `v`'s successor in the cell that points at `v` unlinks `v`. -/
theorem Seg.unlink (h : Seg next (c.get e next) (l₁ ++ v :: l₂) q) (hnd : (l₁ ++ v :: l₂).Nodup)
    (hc : ∀ u ∈ l₁ ++ v :: l₂, c ≠ .next u) :
    Seg ((lastCell c l₁).putNext next (next v))
      (c.get ((lastCell c l₁).putHead e (next v)) ((lastCell c l₁).putNext next (next v)))
      (l₁ ++ l₂) q := by
  induction l₁ generalizing c with
  | nil =>
    obtain ⟨_, htl⟩ := h
    have hsame : ∀ u ∈ l₂, c.putNext next (next v) u = next u :=
      fun u hu => putNext_of_ne (hc u (by simp [hu]))
    have hget : c.get (c.putHead e (next v)) (c.putNext next (next v)) = next v := by
      cases c <;> simp [Cell.get, Cell.putHead, Cell.putNext]
    simp only [lastCell, List.nil_append]
    rw [hget]
    exact htl.congr hsame
  | cons u l₁ ih =>
    obtain ⟨hp, htl⟩ := h
    simp only [List.cons_append, List.nodup_cons] at hnd
    obtain ⟨hu, hnd⟩ := hnd
    have hcu : ∀ w ∈ l₁ ++ v :: l₂, Cell.next u ≠ .next w := by
      rintro w hw ⟨⟩
      exact hu hw
    have key := ih (c := .next u) htl hnd hcu
    -- the e of the walk keeps its pointer: the cell written lies at or after `u`
    have hk : lastCell (.next u) l₁ ≠ c := by
      rcases lastCell_mem (.next u) l₁ with h' | ⟨w, hw, h'⟩
      · rw [h']; exact (hc u (by simp)).symm
      · rw [h']; exact (hc w (by simp [hw])).symm
    refine ⟨?_, key⟩
    rw [← hp]
    simp only [lastCell]
    cases c with
    | head =>
      cases hl : lastCell (Cell.next u) l₁ with
      | head => exact absurd hl hk
      | next w => rfl
    | next w => exact putNext_of_ne hk

/-- A node that is not in the list is linked in at a cell of it: the node takes over the pointer of
    the cell, which then points at the node. -/
theorem Seg.insert (h : Seg next (c.get e next) (l₁ ++ l₂) q) (hnd : (l₁ ++ l₂).Nodup)
    (hv : v ∉ l₁ ++ l₂) (hc : ∀ u ∈ v :: (l₁ ++ l₂), c ≠ .next u) : let k := lastCell c l₁
    let next' := k.putNext (Function.update next v (k.get e next)) (some v)
    Seg next' (c.get (k.putHead e (some v)) next') (l₁ ++ v :: l₂) q := by
  have hcv : c ≠ .next v := hc v (by simp)
  -- on what stands before the new node
  induction l₁ generalizing c with
  | nil =>
    intro k next'
    have hnext : ∀ u, c ≠ .next u → next' u = Function.update next v (c.get e next) u :=
      fun u hu => putNext_of_ne hu
    have hget : c.get (c.putHead e (some v)) next' = some v := by
      cases c <;> simp [Cell.get, Cell.putHead, Cell.putNext, next', k, lastCell]
    refine ⟨hget, ?_⟩
    rw [hnext v hcv, Function.update_self]
    refine Seg.congr h fun u hu => ?_
    rw [hnext u (hc u (by simp [hu])), Function.update_of_ne]
    rintro rfl
    exact hv (by simpa using hu)
  | cons u l₁ ih =>
    obtain ⟨hp, htl⟩ := h
    simp only [List.cons_append, List.nodup_cons] at hnd
    obtain ⟨hu, hnd⟩ := hnd
    have huv : u ≠ v := by rintro rfl; exact hv (by simp)
    have hcu : ∀ w ∈ v :: (l₁ ++ l₂), Cell.next u ≠ .next w := by
      rintro w hw ⟨⟩
      rcases List.mem_cons.mp hw with rfl | hw
      · exact huv rfl
      · exact hu hw
    have key := ih (c := .next u) htl hnd (fun hm => hv (by simp [hm])) hcu (by simpa using huv)
    have hk : lastCell (.next u) l₁ ≠ c := by
      rcases lastCell_mem (.next u) l₁ with h' | ⟨w, hw, h'⟩
      · rw [h']; exact (hc u (by simp)).symm
      · rw [h']; exact (hc w (by simp [hw])).symm
    refine ⟨?_, key⟩
    rw [← hp]
    simp only [lastCell]
    cases c with
    | head =>
      cases hl : lastCell (Cell.next u) l₁ with
      | head => exact absurd hl hk
      | next w => rfl
    | next w =>
      have hwv : w ≠ v := by rintro rfl; exact hcv rfl
      exact (putNext_of_ne hk).trans (Function.update_of_ne hwv _ _)

/-! ### Taking a node out of a list -/

/-- The search finds the cell pointing at the first match within as many steps as there are
    nodes, and storing the match's successor there erases it from the list. -/
theorem Seg.eraseP (h : Seg next (c.get e next) l q) (hnd : l.Nodup) (hex : ∃ v ∈ l, p v = true)
    (hf : l.length ≤ fuel) (hc : ∀ u ∈ l, c ≠ .next u) :
    ∃ k v, findCell e next p fuel c = some k ∧ k.get e next = some v ∧ v ∈ l ∧
      p v = true ∧ (k = c ∨ ∃ u ∈ l, p u = false ∧ k = .next u) ∧
      Seg (k.putNext next (next v))
        (c.get (k.putHead e (next v)) (k.putNext next (next v))) (l.eraseP p) q := by
  obtain ⟨v, l₁, l₂, hl₁, hpv, rfl, herase⟩ :=
    List.exists_of_eraseP hex.choose_spec.1 hex.choose_spec.2
  have hno : ∀ u ∈ l₁, p u = false := fun u hu => by simpa using hl₁ u hu
  refine ⟨lastCell c l₁, v, ?_, lastCell_get h, by simp, hpv, ?_, ?_⟩
  · refine findCell_eq h hpv hno ?_
    simp only [List.length_append, List.length_cons] at hf
    omega
  · rcases lastCell_mem c l₁ with h' | ⟨w, hw, h'⟩
    · exact .inl h'
    · exact .inr ⟨w, by simp [hw], hno w hw, h'⟩
  · rw [herase]
    exact h.unlink hnd hc

/-- Searching a circular list for the node one starts from: the walk passes the owner `o` and
    ends at the cell pointing at the node, whose unlinking erases it. -/
theorem Seg.eraseCircular {o : ν} (h : Seg next (next o) l (some o)) (hnd : (o :: l).Nodup)
    (hv : v ∈ l) (hp : ∀ u, p u = true ↔ u = v) (hf : l.length < fuel) :
    ∃ k, findCell none next p fuel (.next v) = some k ∧
      (∃ u ∈ o :: l, k = .next u) ∧
      Seg (k.putNext next (next v)) (k.putNext next (next v) o) (l.erase v) (some o) := by
  obtain ⟨hol, hnd⟩ := List.nodup_cons.mp hnd
  obtain ⟨l₁, l₂, rfl⟩ := List.append_of_mem hv
  have hv₁ : v ∉ l₁ := fun hm => (List.nodup_append.mp hnd).2.2 v hm v (by simp) rfl
  have hv₂ : v ∉ l₂ := (List.nodup_cons.mp (List.nodup_append.mp hnd).2.1).1
  have hov : o ≠ v := by rintro rfl; exact hol (by simp)
  obtain ⟨m, hs₁, hs₂⟩ := Seg_append.mp h
  -- the way round: the nodes after `v`, the owner, the nodes before `v`
  have hround : Seg next (next v) ((l₂ ++ o :: l₁) ++ v :: []) (next v) := by
    rw [List.append_assoc, Seg_append]
    exact ⟨some o, hs₂.2, rfl, Seg_append.mpr ⟨m, hs₁, hs₂.1, rfl⟩⟩
  have hno : ∀ u ∈ l₂ ++ o :: l₁, p u = false := by
    intro u hu
    refine Bool.eq_false_iff.mpr (fun ht => ?_)
    rw [hp] at ht
    subst ht
    simp only [List.mem_append, List.mem_cons] at hu
    rcases hu with hu | hu | hu
    · exact hv₂ hu
    · exact hov hu.symm
    · exact hv₁ hu
  have hlast : lastCell (.next v) (l₂ ++ o :: l₁) = lastCell (.next o) l₁ := by
    have happ : ∀ (c : Cell ν) (a b : List ν), lastCell c (a ++ o :: b) = lastCell (.next o) b := by
      intro c a b
      induction a generalizing c with
      | nil => rfl
      | cons x a ih => exact ih (.next x)
    exact happ _ _ _
  have hlen : (l₂ ++ o :: l₁).length < fuel := by
    simp only [List.length_append, List.length_cons] at hf ⊢
    omega
  have hfind := findCell_eq (e := none) (c := .next v) hround ((hp v).mpr rfl) hno hlen
  rw [hlast] at hfind
  refine ⟨lastCell (.next o) l₁, hfind, ?_, ?_⟩
  · rcases lastCell_mem (.next o) l₁ with h' | ⟨w, hw, h'⟩
    · exact ⟨o, by simp, h'⟩
    · exact ⟨w, by simp [hw], h'⟩
  · rw [List.erase_append_right _ hv₁, List.erase_cons_head]
    have hc : ∀ u ∈ l₁ ++ v :: l₂, Cell.next o ≠ .next u := by
      rintro u hu ⟨⟩
      exact hol hu
    exact Seg.unlink (e := none) (c := .next o) h hnd hc

omit [DecidableEq ν] in
/-- With at most one match left, erasing the first match removes them all. -/
theorem eraseP_eq_filter (h : l.countP p ≤ 1) : l.eraseP p = l.filter (fun v => !p v) := by
  induction l with
  | nil => rfl
  | cons v l ih =>
    cases hv : p v with
    | true =>
      rw [List.countP_cons_of_pos hv] at h
      have h0 : ∀ u ∈ l, p u = false := by
        have : l.countP p = 0 := by omega
        simpa using List.countP_eq_zero.mp this
      rw [List.eraseP_cons_of_pos hv, List.filter_cons_of_neg (by simp [hv])]
      exact (List.filter_eq_self.mpr (fun u hu => by simp [h0 u hu])).symm
    | false =>
      rw [List.countP_cons_of_neg (by simp [hv])] at h
      rw [List.eraseP_cons_of_neg (by simp [hv]), List.filter_cons_of_pos (by simp [hv]), ih h]

omit [DecidableEq ν] in
/-- A duplicate-free list whose matches all lie in `m` has at most `m.length` of them. -/
theorem countP_le_length {m : List ν} (hnd : l.Nodup) (h : ∀ v ∈ l, p v = true → v ∈ m) :
    l.countP p ≤ m.length := by
  rw [List.countP_eq_length_filter]
  refine (List.subperm_of_subset (hnd.filter p) (fun v hv => ?_)).length_le
  rw [List.mem_filter] at hv
  exact h v hv.1 hv.2

omit [DecidableEq ν] in
/-- Erasing the first match leaves one match less. -/
theorem countP_eraseP_add_one (h : ∃ v ∈ l, p v = true) :
    (l.eraseP p).countP p + 1 = l.countP p := by
  obtain ⟨v, l₁, l₂, _, hpv, rfl, herase⟩ :=
    List.exists_of_eraseP h.choose_spec.1 h.choose_spec.2
  rw [herase, List.countP_append, List.countP_append, List.countP_cons_of_pos hpv]
  omega

omit [DecidableEq ν] in
/-- Erasing a match does not change what the filter keeps. -/
theorem filter_eraseP : (l.eraseP p).filter (fun v => !p v) = l.filter (fun v => !p v) := by
  induction l with
  | nil => rfl
  | cons v l ih =>
    cases hv : p v with
    | true => rw [List.eraseP_cons_of_pos hv, List.filter_cons_of_neg (by simp [hv])]
    | false =>
      rw [List.eraseP_cons_of_neg (by simp [hv]), List.filter_cons_of_pos (by simp [hv]),
        List.filter_cons_of_pos (by simp [hv]), ih]

omit [DecidableEq ν] in
/-- A duplicate-free list of nodes that `f` numbers below `n` has at most `n` nodes. -/
theorem length_le_of_index (hnd : l.Nodup) (f : ν → Nat) {n : Nat} (hlt : ∀ v ∈ l, f v < n)
    (hinj : ∀ v ∈ l, ∀ u ∈ l, f v = f u → v = u) : l.length ≤ n := by
  have hmap : (l.map f).Nodup := List.Nodup.map_on hinj hnd
  have hsub : (l.map f).toFinset ⊆ Finset.range n := by
    intro x hx
    simp only [List.mem_toFinset, List.mem_map] at hx
    obtain ⟨v, hv, rfl⟩ := hx
    exact Finset.mem_range.mpr (hlt v hv)
  calc l.length = (l.map f).length := by simp
    _ = (l.map f).toFinset.card := (List.toFinset_card_of_nodup hmap).symm
    _ ≤ (Finset.range n).card := Finset.card_le_card hsub
    _ = n := Finset.card_range n

end Qemu.Lib
