import Mathlib.Tactic.Ring

namespace Qemu.Lib

/-!
# Words of lanes

A word is a row of lanes of `w` bits.

* `lane`, `inLane` — a lane of a word, and the word that has a value in one lane;
* `lane_inLane_self`, `lane_inLane_of_ne` — the lanes of such a word;
* `eq_iff_lanes` — words with the same lanes are the same;
* `ofLanes`, `lane_ofLanes` — a word from a table of lanes.
-/

/-- Lane `i`. -/
def lane {W : Nat} (w i : Nat) (x : BitVec W) : BitVec w := (x >>> (i * w)).setWidth w

/-- The value in lane `i`, and zero in the others. -/
def inLane (W : Nat) {w : Nat} (i : Nat) (val : BitVec w) : BitVec W := val.setWidth W <<< (i * w)

section

variable {W w i j n : Nat}

@[simp]
theorem getLsbD_lane (x : BitVec W) (i j : Nat) :
    (lane w i x).getLsbD j = (decide (j < w) && x.getLsbD (i * w + j)) := by
  simp [lane]

@[simp]
theorem getLsbD_inLane (val : BitVec w) (i j : Nat) :
    (inLane W i val).getLsbD j =
      (decide (j < W) && (!decide (j < i * w) && val.getLsbD (j - i * w))) := by
  simp only [inLane, BitVec.getLsbD_shiftLeft, BitVec.getLsbD_setWidth]
  by_cases hj : j < W
  · simp [hj, show j - i * w < W by omega]
  · simp [hj]

@[simp]
theorem lane_zero (i : Nat) : lane w i 0#W = 0#w := by
  simp [lane]

@[simp]
theorem lane_or (i : Nat) (x y : BitVec W) : lane w i (x ||| y) = lane w i x ||| lane w i y := by
  apply BitVec.eq_of_getLsbD_eq
  intro k hk
  rw [getLsbD_lane, BitVec.getLsbD_or, BitVec.getLsbD_or, getLsbD_lane, getLsbD_lane,
    Bool.and_or_distrib_left]

theorem lane_inLane_self (h : (i + 1) * w ≤ W) (val : BitVec w) :
    lane w i (inLane W i val) = val := by
  apply BitVec.eq_of_getLsbD_eq
  intro k hk
  have hW : i * w + k < W := by
    rw [Nat.add_mul, Nat.one_mul] at h
    omega
  rw [getLsbD_lane, getLsbD_inLane, Nat.add_sub_cancel_left]
  simp [hk, hW]

/-- The other lanes are zero. -/
theorem lane_inLane_of_ne (h : i ≠ j) (val : BitVec w) : lane w i (inLane W j val) = 0#w := by
  apply BitVec.eq_of_getLsbD_eq
  intro k hk
  simp only [getLsbD_lane, getLsbD_inLane, hk]
  rcases Nat.lt_or_gt_of_ne h with hlt | hgt
  -- the bits are below those of lane `j`
  · have hle : (i + 1) * w ≤ j * w := Nat.mul_le_mul_right w hlt
    have hbelow : i * w + k < j * w := by
      rw [Nat.add_mul, Nat.one_mul] at hle
      omega
    simp [hbelow]
  -- the bits are above those of lane `j`
  · have hle : (j + 1) * w ≤ i * w := Nat.mul_le_mul_right w hgt
    have habove : w ≤ i * w + k - j * w := by
      rw [Nat.add_mul, Nat.one_mul] at hle
      omega
    simp [BitVec.getLsbD_of_ge val _ habove]

/-- Lanes of a word that is shifted by whole lanes. -/
theorem lane_ushiftRight (i j : Nat) (x : BitVec W) :
    lane w i (x >>> (j * w)) = lane w (j + i) x := by
  rw [lane, lane, ← BitVec.shiftRight_add, Nat.add_mul]

/-- A shift by whole lanes moves the lane. -/
theorem inLane_shiftLeft (i j : Nat) (val : BitVec w) :
    inLane W i val <<< (j * w) = inLane W (i + j) val := by
  rw [inLane, inLane, ← BitVec.shiftLeft_add, Nat.add_mul]

/-- **Words are their lanes.** -/
theorem eq_iff_lanes (h : n * w = W) (x y : BitVec W) :
    x = y ↔ ∀ i, i < n → lane w i x = lane w i y := by
  constructor
  · rintro rfl i -
    rfl
  · intro hl
    apply BitVec.eq_of_getLsbD_eq
    intro k hk
    have hw : 0 < w := Nat.pos_of_ne_zero fun h0 => by
      rw [h0, Nat.mul_zero] at h
      omega
    have hi : k / w < n := Nat.div_lt_of_lt_mul (by rwa [Nat.mul_comm, h])
    have hbit := congrArg (fun v => v.getLsbD (k % w)) (hl (k / w) hi)
    rw [getLsbD_lane, getLsbD_lane, Nat.div_add_mod' k w, decide_eq_true (Nat.mod_lt k hw)] at hbit
    exact hbit

/-- A lane is its halves. -/
theorem lane_halves (x : BitVec W) (i : Nat) :
    lane (w + w) i x = lane w (2 * i + 1) x ++ lane w (2 * i) x := by
  apply BitVec.eq_of_getLsbD_eq
  intro k hk
  rw [getLsbD_lane, BitVec.getLsbD_append, getLsbD_lane, getLsbD_lane, decide_eq_true hk]
  by_cases hlow : k < w
  · have hplace : i * (w + w) + k = 2 * i * w + k := by ring
    rw [if_pos hlow, decide_eq_true hlow, hplace]
  · have hplace : i * (w + w) + k = (2 * i + 1) * w + (k - w) := by
      obtain ⟨j, rfl⟩ := Nat.exists_eq_add_of_le (not_lt.mp hlow)
      rw [Nat.add_sub_cancel_left]
      ring
    rw [if_neg hlow, decide_eq_true (show k - w < w by omega), hplace]

/-! ### Tables -/

/-- The word with the lanes of a table, and zero in the others. -/
def ofLanes (W : Nat) : List (Nat × BitVec w) → BitVec W
  | [] => 0#W
  | (i, x) :: l => inLane W i x ||| ofLanes W l

theorem ofLanes_append (l l' : List (Nat × BitVec w)) :
    ofLanes W (l ++ l') = ofLanes W l ||| ofLanes W l' := by
  induction l with
  | nil => simp [ofLanes]
  | cons p l ih => rw [List.cons_append, ofLanes, ofLanes, ih, BitVec.or_assoc]

/-- A shift by whole lanes moves all of them. -/
theorem ofLanes_shiftLeft (l : List (Nat × BitVec w)) (j : Nat) :
    ofLanes W l <<< (j * w) = ofLanes W (l.map fun p => (p.1 + j, p.2)) := by
  induction l with
  | nil => exact BitVec.zero_shiftLeft ..
  | cons p l ih => rw [List.map_cons, ofLanes, ofLanes, BitVec.shiftLeft_or_distrib, ih,
      inLane_shiftLeft]

/-- A lane of lanes that fit and are different is the value listed for it. -/
theorem lane_ofLanes {l : List (Nat × BitVec w)} (hfit : ∀ p ∈ l, (p.1 + 1) * w ≤ W)
    (hnodup : (l.map Prod.fst).Nodup) (i : Nat) :
    lane w i (ofLanes W l) = (l.lookup i).getD 0#w := by
  induction l with
  | nil => exact lane_zero i
  | cons p l ih =>
    obtain ⟨j, x⟩ := p
    rw [List.map_cons, List.nodup_cons] at hnodup
    have hrest := ih (fun q hq => hfit q (List.mem_cons_of_mem _ hq)) hnodup.2
    rw [ofLanes, lane_or, hrest, List.lookup_cons]
    by_cases hij : i = j
    -- no other entry is for this lane
    · subst hij
      have hnone : l.lookup i = none := by
        rw [List.lookup_eq_none_iff]
        intro q hq
        have hne : i ≠ q.1 := fun h => hnodup.1 (List.mem_map.mpr ⟨q, hq, h.symm⟩)
        simpa using hne
      rw [lane_inLane_self (hfit _ List.mem_cons_self), hnone]
      simp
    · rw [lane_inLane_of_ne hij, beq_false_of_ne hij]
      simp

/-- Looking up what is listed for each index. -/
theorem lookup_map_self {f : Nat → BitVec w} (l : List Nat) (i : Nat) :
    (l.map fun j => (j, f j)).lookup i = if i ∈ l then some (f i) else none := by
  induction l with
  | nil => rfl
  | cons j l ih =>
    rw [List.map_cons, List.lookup_cons, ih]
    by_cases hij : i = j
    · subst hij
      simp
    · rw [beq_false_of_ne hij]
      simp [hij]

/-- A word is the table of its lanes, in any order. -/
theorem ofLanes_map_lane {l : List Nat} (hl : l.Perm (List.range n)) (h : n * w = W)
    (x : BitVec W) :
    ofLanes W (l.map fun i => (i, lane w i x)) = x := by
  refine (eq_iff_lanes h _ _).mpr fun i hi => ?_
  rw [lane_ofLanes, lookup_map_self, if_pos (hl.mem_iff.mpr (List.mem_range.mpr hi))]
  · rfl
  · intro p hp
    obtain ⟨j, hj, rfl⟩ := List.mem_map.mp hp
    exact (Nat.mul_le_mul_right w (List.mem_range.mp (hl.mem_iff.mp hj))).trans_eq h
  · have hfst : (l.map fun i => (i, lane w i x)).map Prod.fst = l := by
      rw [List.map_map]
      exact List.map_id l
    rw [hfst]
    exact hl.nodup_iff.mpr List.nodup_range

end

end Qemu.Lib
