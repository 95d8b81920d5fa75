import Mathlib.Data.List.Infix

namespace Qemu.Lib

/-!
# Quoting by doubling

A character ends a text unless it is doubled; doubled, it stands for itself.

* `doubled`, `readDoubled` — a text with the character doubled, and how it is read back;
* `readDoubled_doubled` — what is read is what was written, up to the first single one;
* `infix_doubled` — the character and a word behind it are found in such a text where they are found
  in what was written, and nowhere else.
-/

variable {α : Type*} [DecidableEq α]

/-- The text with each `d` doubled. -/
def doubled (d : α) (s : List α) : List α := s.flatMap fun c => if c = d then [d, d] else [c]

/-- Reads up to a single `d` or to the end: the text, and what is left. -/
def readDoubled (d : α) : List α → List α × List α
  | [] => ([], [])
  | [c] => if c = d then ([], [c]) else ([c], [])
  | c :: c' :: l =>
    if c = d then
      if c' = d then
        let r := readDoubled d l
        (d :: r.1, r.2)
      else ([], c :: c' :: l)
    else
      let r := readDoubled d (c' :: l)
      (c :: r.1, r.2)

/-- What may follow such a text: nothing, or a single `d`. -/
def Stops (d : α) (rest : List α) : Prop := ∀ c l, rest = c :: l → c = d ∧ l.head? ≠ some d

section

variable {d c : α} {s pat rest n : List α}

@[simp] theorem doubled_nil : doubled d [] = [] := rfl

theorem doubled_self (s : List α) : doubled d (d :: s) = d :: d :: doubled d s := by
  rw [doubled, List.flatMap_cons, if_pos rfl]
  rfl

theorem doubled_of_ne (h : c ≠ d) (s : List α) : doubled d (c :: s) = c :: doubled d s := by
  rw [doubled, List.flatMap_cons, if_neg h]
  rfl

/-- A character that is no delimiter is read. -/
theorem readDoubled_of_ne (h : c ≠ d) (l : List α) :
    readDoubled d (c :: l) = (c :: (readDoubled d l).1, (readDoubled d l).2) := by
  cases l with
  | nil => simp [readDoubled, h]
  | cons c' l => rw [readDoubled, if_neg h]

theorem readDoubled_self (l : List α) :
    readDoubled d (d :: d :: l) = (d :: (readDoubled d l).1, (readDoubled d l).2) := by
  rw [readDoubled, if_pos rfl, if_pos rfl]

theorem readDoubled_stops (h : Stops d rest) : readDoubled d rest = ([], rest) := by
  match rest with
  | [] => rfl
  | [c] => rw [readDoubled, if_pos (h c [] rfl).1]
  | c :: c' :: l =>
    obtain ⟨hc, hc'⟩ := h c (c' :: l) rfl
    have hne : c' ≠ d := fun heq => hc' (congrArg some heq)
    rw [readDoubled, if_pos hc, if_neg hne]

/-- **Reading back.** -/
theorem readDoubled_doubled (h : Stops d rest) (s : List α) :
    readDoubled d (doubled d s ++ rest) = (s, rest) := by
  induction s with
  | nil => exact readDoubled_stops h
  | cons c s ih =>
    by_cases hc : c = d
    · subst hc
      rw [doubled_self, List.cons_append, List.cons_append, readDoubled_self, ih]
    · rw [doubled_of_ne hc, List.cons_append, readDoubled_of_ne hc, ih]

/-- What is left is not longer than what was there. -/
theorem length_readDoubled_le (d : α) (l : List α) : (readDoubled d l).2.length ≤ l.length := by
  fun_induction readDoubled d l with
  | case1 => exact le_rfl
  | case2 => exact le_rfl
  | case3 => exact Nat.zero_le _
  | case4 l r ih => exact ih.trans (by rw [List.length_cons, List.length_cons]; omega)
  | case5 => exact le_rfl
  | case6 c c' l hc r ih => exact ih.trans (Nat.le_succ _)

/-- A word without `d` is in front of a doubled text if it is in front of the text. -/
theorem prefix_doubled (hpat : d ∉ pat) (hrest : Stops d rest) :
    pat <+: doubled d s ++ rest ↔ pat <+: s := by
  induction pat generalizing s with
  | nil => exact ⟨fun _ => List.nil_prefix, fun _ => List.nil_prefix⟩
  | cons p pat ih =>
    obtain ⟨hp, hpat⟩ : d ≠ p ∧ d ∉ pat := by
      rwa [List.mem_cons, not_or] at hpat
    cases s with
    | nil =>
      refine ⟨fun h => ?_, fun h => absurd (List.prefix_nil.mp h) (List.cons_ne_nil _ _)⟩
      cases rest with
      | nil => exact h
      | cons c l =>
        have heq := (List.cons_prefix_cons.mp h).1
        exact absurd (heq.trans (hrest c l rfl).1).symm hp
    | cons c s =>
      by_cases hc : c = d
      · subst hc
        rw [doubled_self]
        refine ⟨fun h => absurd (List.cons_prefix_cons.mp h).1.symm hp,
          fun h => absurd (List.cons_prefix_cons.mp h).1.symm hp⟩
      · rw [doubled_of_ne hc, List.cons_append, List.cons_prefix_cons, List.cons_prefix_cons,
          ih hpat]

omit [DecidableEq α] in
theorem infix_append_of_notMem (hn : d ∉ n) (l : List α) :
    d :: pat <:+: n ++ l ↔ d :: pat <:+: l := by
  induction n with
  | nil => exact Iff.rfl
  | cons c n ih =>
    obtain ⟨hc, hn⟩ : d ≠ c ∧ d ∉ n := by
      rwa [List.mem_cons, not_or] at hn
    rw [List.cons_append, List.infix_cons_iff, ih hn, or_iff_right]
    exact fun h => hc (List.cons_prefix_cons.mp h).1

/-- **Searching.**  Only the second one of two can be taken for the start of `d :: pat`. -/
theorem infix_doubled (hpat : d ∉ pat) (hne : pat ≠ []) (hrest : Stops d rest) :
    d :: pat <:+: doubled d s ++ rest ↔ d :: pat <:+: s ∨ d :: pat <:+: rest := by
  induction s with
  | nil =>
    have hnil : ¬ d :: pat <:+: ([] : List α) := fun h =>
      absurd (List.infix_nil.mp h) (List.cons_ne_nil _ _)
    rw [doubled_nil, List.nil_append, or_iff_right hnil]
  | cons c s ih =>
    by_cases hc : c = d
    · subst hc
      have hfirst : ¬ pat <+: c :: (doubled c s ++ rest) := by
        intro h
        cases pat with
        | nil => exact hne rfl
        | cons p pat => exact hpat ((List.cons_prefix_cons.mp h).1 ▸ List.mem_cons_self)
      rw [doubled_self, List.cons_append, List.cons_append, List.infix_cons_iff,
        List.infix_cons_iff, List.infix_cons_iff, ih, List.cons_prefix_cons, List.cons_prefix_cons,
        List.cons_prefix_cons, prefix_doubled hpat hrest]
      tauto
    · have hstart (l : List α) : ¬ d :: pat <+: c :: l := fun h =>
        hc (List.cons_prefix_cons.mp h).1.symm
      rw [doubled_of_ne hc, List.cons_append, List.infix_cons_iff, List.infix_cons_iff, ih,
        or_iff_right (hstart _), or_iff_right (hstart _)]

end

end Qemu.Lib
