import Qemu.Async.Timers
import Mathlib.Data.List.TakeWhile

namespace Qemu.Async

open Qemu.Lib Function

/-!
# Timers fire once, in time and in order

* `Timers.Holds` — what the lists hold: each is sorted, first by the time at which a timer expires,
  then by when it was set, and has the timers of the clock that are set;
* `Timers.Logged` — what has fired, and what is still to fire behind it;
* `qemuDelTimer_spec`, `qemuModTimer_spec`, `runTurn_spec` — the operations keep both;
* `timers_fire` — so do runs, whatever callbacks do.
-/

/-- A timer comes before another one: it expires earlier, or at the same time and was set
    earlier. -/
def Earlier (a b : Int × Nat) : Prop := a.1 < b.1 ∨ a.1 = b.1 ∧ a.2 < b.2

/-- The place of a timer in its list. -/
def Timers.key (s : Timers) (t : Nat) : Int × Nat := (s.expireTime t, s.armedAt t)

/-- What the timers fire in the order of: the expire time, then when the timer was armed. -/
def Firing.key (f : Firing) : Int × Nat := (f.expireTime, f.armedAt)

/-- What the lists of the clocks hold. -/
structure Timers.Holds (s : Timers) (l : QemuClock → List Nat) : Prop where
  seg : ∀ c, Seg s.next (s.activeTimers c) (l c) none
  nodup : ∀ c, (l c).Nodup
  mem : ∀ c t, t ∈ l c ↔ s.armed t = true ∧ s.clock t = c
  sorted : ∀ c, (l c).Pairwise fun t u => Earlier (s.key t) (s.key u)
  made : ∀ t, s.armed t = true → t < s.made
  armedAt : ∀ t, s.armed t = true → s.armedAt t ≤ s.events
  once : ∀ t, (s.counts t).armed =
    (s.counts t).fired + (s.counts t).dropped + (s.armed t).toNat

/-- What has fired. -/
structure Timers.Logged (s : Timers) : Prop where
  counted : ∀ t, (s.counts t).fired = s.fired.countP (·.timer == t)
  inTime : ∀ f ∈ s.fired, f.expireTime ≤ f.now
  firedAt : ∀ f ∈ s.fired, f.firedAt ≤ s.events
  inOrder : s.fired.Pairwise fun f g =>
    f.clock = g.clock → g.armedAt < f.firedAt → Earlier f.key g.key
  before : ∀ f ∈ s.fired, ∀ t, s.armed t = true → s.clock t = f.clock →
    s.armedAt t < f.firedAt → Earlier f.key (s.key t)
  late : s.late = []

section

variable {s : Timers} {l : QemuClock → List Nat}

/-! ### Lists -/

theorem Timers.Holds.length_le (h : s.Holds l) (c : QemuClock) : (l c).length ≤ s.made :=
  length_le_of_index (h.nodup c) id (fun t ht => h.made t ((h.mem c t).mp ht).1)
    fun _ _ _ _ heq => heq

theorem Timers.Holds.clock_eq (h : s.Holds l) {c : QemuClock} {t : Nat} (ht : t ∈ l c) :
    s.clock t = c := ((h.mem c t).mp ht).2

/-- A search stops behind the nodes at the front that do not match. -/
theorem Timers.Holds.seek_eq (h : s.Holds l) {c : QemuClock} {p : Nat → Bool} {l₁ l₂ : List Nat}
    (hl : l c = l₁ ++ l₂) (h₁ : ∀ u ∈ l₁, p u = false) (h₂ : ∀ v ∈ l₂.head?, p v = true) :
    s.seek c p = some (lastCell .head l₁) := by
  have hseg : Seg s.next (Cell.head.get (s.activeTimers c) s.next) (l₁ ++ l₂) none := hl ▸ h.seg c
  have hlen : (l₁ ++ l₂).length ≤ s.made := hl ▸ h.length_le c
  rw [List.length_append] at hlen
  exact seekCell_eq hseg h₁ h₂ (by omega)

/-- The links of the lists of other clocks are not written. -/
theorem putNext_other {c c' : QemuClock} (h : s.Holds l) (hc : c' ≠ c) {l₁ l₂ : List Nat}
    (hl : l c = l₁ ++ l₂) {next : Nat → Option Nat} {p : Option Nat} {t : Nat} (ht : t ∈ l c') :
    (lastCell .head l₁).putNext next p t = next t := by
  refine putNext_of_ne ?_
  rcases lastCell_mem .head l₁ with hhead | ⟨u, hu, hnext⟩
  · rw [hhead]
    rintro ⟨⟩
  · rw [hnext]
    rintro ⟨⟩
    have hmem : t ∈ l c := hl ▸ List.mem_append_left _ hu
    exact hc ((h.clock_eq ht).symm.trans (h.clock_eq hmem))

/-- The lists after a cell of one of them was written. -/
theorem Timers.Holds.put_seg (h : s.Holds l) {c : QemuClock} {l₁ l₂ m : List Nat}
    (hl : l c = l₁ ++ l₂) {next : Nat → Option Nat} {p : Option Nat}
    (hsame : ∀ c', c' ≠ c → ∀ t ∈ l c', next t = s.next t)
    (hseg : Seg ((lastCell .head l₁).putNext next p)
      ((lastCell .head l₁).putHead (s.activeTimers c) p) m none) (c' : QemuClock) :
    Seg ((lastCell .head l₁).putNext next p)
      (update s.activeTimers c ((lastCell .head l₁).putHead (s.activeTimers c) p) c')
      (update l c m c') none := by
  by_cases hc : c' = c
  · subst hc
    rwa [update_self, update_self]
  · rw [update_of_ne hc, update_of_ne hc]
    refine (h.seg c').congr fun t ht => ?_
    rw [putNext_other h hc hl ht]
    exact hsame c' hc t ht

/-! ### Taking off -/

/-- A timer is counted as fired, or as taken off. -/
structure CountedOff (s : Timers) (ts : Nat) (counts : Nat → TimerCounts) : Prop where
  others : ∀ t, t ≠ ts → counts t = s.counts t
  armed : (counts ts).armed = (s.counts ts).armed
  off : (counts ts).fired + (counts ts).dropped =
    (s.counts ts).fired + (s.counts ts).dropped + (s.armed ts).toNat

/-- After the count a timer is not set. -/
theorem Timers.Holds.countedOff (h : s.Holds l) {ts : Nat} {counts : Nat → TimerCounts}
    (hcounts : CountedOff s ts counts) (t : Nat) :
    decide ((counts t).fired + (counts t).dropped < (counts t).armed) = (s.armed t && t != ts) ∧
      (counts t).armed =
        (counts t).fired + (counts t).dropped + (s.armed t && t != ts).toNat := by
  have honce := h.once t
  by_cases ht : t = ts
  · subst ht
    have hoff := hcounts.off
    have harmed := hcounts.armed
    rw [bne_self_eq_false, Bool.and_false, decide_eq_false_iff_not, Bool.toNat_false]
    omega
  · have hne : (t != ts) = true := bne_iff_ne.mpr ht
    rw [hcounts.others t ht, hne, Bool.and_true]
    exact ⟨rfl, honce⟩

/-- Lists and counts without a timer. -/
def Timers.without (s : Timers) (heads : QemuClock → Option Nat) (next : Nat → Option Nat)
    (counts : Nat → TimerCounts) : Timers :=
  { s with activeTimers := heads, next := next, counts := counts }

/-- The lists without a timer are those of the state in which it is not set. -/
theorem Timers.Holds.takenOff (h : s.Holds l) {ts : Nat} {heads : QemuClock → Option Nat}
    {next : Nat → Option Nat} {counts : Nat → TimerCounts} (hcounts : CountedOff s ts counts)
    (hseg : ∀ c, Seg next (heads c)
      (update l (s.clock ts) ((l (s.clock ts)).erase ts) c) none) :
    (s.without heads next counts).Holds
        (update l (s.clock ts) ((l (s.clock ts)).erase ts)) ∧
      ∀ t, (s.without heads next counts).armed t = (s.armed t && t != ts) := by
  have harmed : ∀ t, (s.without heads next counts).armed t = (s.armed t && t != ts) :=
    fun t => (h.countedOff hcounts t).1
  -- the list of one clock loses `ts`, the others stay
  have hmem : ∀ c t, t ∈ update l (s.clock ts) ((l (s.clock ts)).erase ts) c ↔
      t ≠ ts ∧ t ∈ l c := by
    intro c t
    by_cases hc : c = s.clock ts
    · subst hc
      rw [update_self, (h.nodup _).mem_erase_iff]
    · rw [update_of_ne hc]
      refine ⟨fun ht => ⟨?_, ht⟩, And.right⟩
      rintro rfl
      exact hc (h.clock_eq ht).symm
  refine ⟨⟨hseg, fun c => ?_, fun c t => ?_, fun c => ?_, fun t ht => ?_, fun t ht => ?_,
    fun t => ?_⟩, harmed⟩
  · by_cases hc : c = s.clock ts
    · subst hc
      rw [update_self]
      exact (h.nodup _).erase ts
    · rw [update_of_ne hc]
      exact h.nodup c
  · rw [hmem, h.mem, harmed, Bool.and_eq_true, bne_iff_ne]
    show _ ↔ _ ∧ s.clock t = c
    tauto
  · by_cases hc : c = s.clock ts
    · subst hc
      rw [update_self]
      exact (h.sorted _).sublist List.erase_sublist
    · rw [update_of_ne hc]
      exact h.sorted c
  · rw [harmed, Bool.and_eq_true] at ht
    exact h.made t ht.1
  · rw [harmed, Bool.and_eq_true] at ht
    exact h.armedAt t ht.1
  · rw [harmed]
    exact (h.countedOff hcounts t).2

/-! ### Deleting -/

/-- A timer that is set is counted as taken off. -/
def Timers.drop (s : Timers) (ts : Nat) : Nat → TimerCounts :=
  if s.armed ts = true then
    update s.counts ts { s.counts ts with dropped := (s.counts ts).dropped + 1 }
  else s.counts

theorem Timers.drop_fired (s : Timers) (ts t : Nat) :
    (s.drop ts t).fired = (s.counts t).fired := by
  unfold Timers.drop
  split_ifs
  · by_cases ht : t = ts
    · rw [ht, update_self]
    · rw [update_of_ne ht]
  · rfl

theorem Timers.countedOff_drop (s : Timers) (ts : Nat) : CountedOff s ts (s.drop ts) := by
  unfold Timers.drop
  by_cases harmed : s.armed ts = true
  · rw [if_pos harmed]
    refine ⟨fun t ht => update_of_ne ht _ _, ?_, ?_⟩
    · rw [update_self]
    · rw [update_self, harmed]
      rfl
  · rw [if_neg harmed]
    refine ⟨fun _ _ => rfl, rfl, ?_⟩
    rw [Bool.eq_false_iff.mpr harmed]
    rfl

/-- What `qemu_del_timer` leaves: the list without the timer. -/
structure Deleted (s : Timers) (l : QemuClock → List Nat) (ts : Nat) (s' : Timers) : Prop where
  holds : s'.Holds (update l (s.clock ts) ((l (s.clock ts)).erase ts))
  armed : ∀ t, s'.armed t = (s.armed t && t != ts)
  same : ∃ heads next, s' = s.without heads next (s.drop ts)

theorem Timers.Holds.deleted (h : s.Holds l) (ts : Nat) {heads : QemuClock → Option Nat}
    {next : Nat → Option Nat}
    (hseg : ∀ c, Seg next (heads c)
      (update l (s.clock ts) ((l (s.clock ts)).erase ts) c) none) :
    Deleted s l ts (s.without heads next (s.drop ts)) := by
  obtain ⟨hholds, harmed⟩ := h.takenOff (s.countedOff_drop ts) hseg
  exact ⟨hholds, harmed, heads, next, rfl⟩

/-- `qemu_del_timer` takes the timer off its list and leaves the others in their order. -/
theorem qemuDelTimer_spec (h : s.Holds l) (ts : Nat) :
    ∃ s', qemuDelTimer ts s = some s' ∧ Deleted s l ts s' := by
  -- the timer stands behind `l₁`, or the search runs to the end of the list
  by_cases hts : ts ∈ l (s.clock ts)
  · obtain ⟨l₁, l₂, hl⟩ := List.append_of_mem hts
    have hnd : (l₁ ++ ts :: l₂).Nodup := hl ▸ h.nodup _
    have hnot : ∀ u ∈ l₁, (u == ts) = false := by
      intro u hu
      refine beq_false_of_ne ?_
      rintro rfl
      exact (List.nodup_append.mp hnd).2.2 u hu u (by simp) rfl
    have hseek := h.seek_eq (p := (· == ts)) hl hnot (by simp)
    have hseg : Seg s.next (Cell.head.get (s.activeTimers (s.clock ts)) s.next) (l₁ ++ ts :: l₂)
        none := hl ▸ h.seg _
    have hget := lastCell_get hseg
    have harmed : s.armed ts = true := ((h.mem _ _).mp hts).1
    have herase : (l (s.clock ts)).erase ts = l₁ ++ l₂ := by
      rw [hl, List.erase_append_right _ fun hm => by simpa using hnot ts hm,
        List.erase_cons_head]
    refine ⟨_, ?_, h.deleted ts (h.put_seg hl (fun _ _ _ _ => rfl) (p := s.next ts) ?_)⟩
    · rw [qemuDelTimer, hseek, Option.map_some, hget, Timers.drop, if_pos harmed]
      rfl
    · rw [herase]
      exact hseg.unlink hnd (fun _ _ => by rintro ⟨⟩)
  · have hnot : ∀ u ∈ l (s.clock ts), (u == ts) = false := by
      intro u hu
      refine beq_false_of_ne ?_
      rintro rfl
      exact hts hu
    have hseek := h.seek_eq (p := (· == ts)) (List.append_nil _).symm hnot (by simp)
    have hall : Seg s.next (Cell.head.get (s.activeTimers (s.clock ts)) s.next)
        (l (s.clock ts) ++ []) none := by
      rw [List.append_nil]
      exact h.seg _
    have hend : (lastCell .head (l (s.clock ts))).get (s.activeTimers (s.clock ts)) s.next =
        none := lastCell_seg hall
    have harmed : ¬s.armed ts = true := fun ha => hts ((h.mem _ _).mpr ⟨ha, rfl⟩)
    have herase : (l (s.clock ts)).erase ts = l (s.clock ts) := List.erase_of_not_mem hts
    refine ⟨s.without s.activeTimers s.next (s.drop ts), ?_, ?_⟩
    · rw [qemuDelTimer, hseek, Option.map_some, hend, Timers.drop, if_neg harmed]
      rfl
    · refine h.deleted ts fun c => ?_
      rw [herase, update_eq_self]
      exact h.seg c

/-! ### Setting -/

/-- A timer is set, with lists and counts. -/
def Timers.withTimer (s : Timers) (ts : Nat) (expireTime : Int) (heads : QemuClock → Option Nat)
    (next : Nat → Option Nat) (counts : Nat → TimerCounts) : Timers :=
  { s with
    expireTime := update s.expireTime ts expireTime
    armedAt := update s.armedAt ts s.events
    activeTimers := heads
    next := next
    counts := counts }

/-- What `qemu_mod_timer` leaves when the timer is not set: one more in the list. -/
structure Set (s : Timers) (ts : Nat) (expireTime : Int) (s' : Timers) : Prop where
  holds : ∃ l', s'.Holds l'
  armed : ∀ t, s'.armed t = (s.armed t || t == ts)
  same : ∃ heads next counts, s' = s.withTimer ts expireTime heads next counts ∧
    ∀ t, (counts t).fired = (s.counts t).fired

/-- The timer is counted as set. -/
theorem Timers.Holds.counts_set (h : s.Holds l) {ts : Nat} (hts : s.armed ts = false)
    {counts : Nat → TimerCounts} (hcounts : counts = update s.counts ts
      { s.counts ts with armed := (s.counts ts).armed + 1 }) (t : Nat) :
    (counts t).fired = (s.counts t).fired ∧
      decide ((counts t).fired + (counts t).dropped < (counts t).armed) =
        (s.armed t || t == ts) ∧
      (counts t).armed =
        (counts t).fired + (counts t).dropped + (s.armed t || t == ts).toNat := by
  subst hcounts
  have honce := h.once t
  by_cases ht : t = ts
  · subst ht
    rw [hts, Bool.toNat_false, Nat.add_zero] at honce
    rw [update_self, beq_self_eq_true, Bool.or_true, Bool.toNat_true, decide_eq_true_eq]
    refine ⟨rfl, ?_, ?_⟩
    · show (s.counts t).fired + (s.counts t).dropped < (s.counts t).armed + 1
      omega
    · show (s.counts t).armed + 1 = (s.counts t).fired + (s.counts t).dropped + 1
      omega
  · have hne : (t == ts) = false := beq_false_of_ne ht
    rw [update_of_ne ht, hne, Bool.or_false]
    exact ⟨rfl, rfl, honce⟩

/-- Behind the first timer of a sorted list that expires later, all do. -/
theorem expires_later {l : List Nat} {expireTime : Int}
    (h : l.Pairwise fun t u => Earlier (s.key t) (s.key u)) :
    ∀ u ∈ l.dropWhile fun t => s.expireTime t ≤ expireTime, expireTime < s.expireTime u := by
  induction l with
  | nil => exact fun u hu => absurd hu List.not_mem_nil
  | cons t l ih =>
    obtain ⟨hfirst, hrest⟩ := List.pairwise_cons.mp h
    rw [List.dropWhile_cons]
    split_ifs with hle
    · exact ih hrest
    · have ht : expireTime < s.expireTime t := lt_of_not_ge (of_decide_eq_false
        (Bool.eq_false_iff.mpr hle))
      rintro u (_ | ⟨_, hu⟩)
      · exact ht
      · obtain hlt | ⟨heq, -⟩ := hfirst u hu
        · exact ht.trans hlt
        · exact ht.trans_eq heq

/-- The lists with the timer are those of the state in which it is set. -/
theorem Timers.Holds.inserted (h : s.Holds l) {ts : Nat} (hts : s.armed ts = false)
    (hmade : ts < s.made) (hnew : ∀ t, s.armed t = true → s.armedAt t < s.events)
    {expireTime : Int} {l₁ l₂ : List Nat} (hl : l (s.clock ts) = l₁ ++ l₂)
    (h₁ : ∀ u ∈ l₁, s.expireTime u ≤ expireTime) (h₂ : ∀ u ∈ l₂, expireTime < s.expireTime u)
    {heads : QemuClock → Option Nat} {next : Nat → Option Nat} {counts : Nat → TimerCounts}
    (hcounts : counts = update s.counts ts
      { s.counts ts with armed := (s.counts ts).armed + 1 })
    (hseg : ∀ c, Seg next (heads c)
      (update l (s.clock ts) (l₁ ++ ts :: l₂) c) none) :
    Set s ts expireTime (s.withTimer ts expireTime heads next counts) := by
  have hcount := h.counts_set hts hcounts
  have hnot : ∀ c, ts ∉ l c := fun c hm => by
    rw [h.mem, hts] at hm
    exact Bool.false_ne_true hm.1
  have hnd : (l₁ ++ l₂).Nodup := hl ▸ h.nodup _
  have hnot' : ts ∉ l₁ ++ l₂ := hl ▸ hnot _
  have hmem : ∀ c t, t ∈ update l (s.clock ts) (l₁ ++ ts :: l₂) c ↔
      t ∈ l c ∨ t = ts ∧ s.clock t = c := by
    intro c t
    by_cases hc : c = s.clock ts
    · subst hc
      rw [update_self, hl, List.mem_append, List.mem_append, List.mem_cons]
      constructor
      · rintro (hm | rfl | hm)
        · exact .inl (.inl hm)
        · exact .inr ⟨rfl, rfl⟩
        · exact .inl (.inr hm)
      · rintro ((hm | hm) | ⟨rfl, -⟩)
        · exact .inl hm
        · exact .inr (.inr hm)
        · exact .inr (.inl rfl)
    · rw [update_of_ne hc]
      refine ⟨.inl, ?_⟩
      rintro (hm | ⟨rfl, heq⟩)
      · exact hm
      · exact absurd heq.symm hc
  have harmed : ∀ t, (s.withTimer ts expireTime heads next counts).armed t =
      (s.armed t || t == ts) := fun t => (hcount t).2.1
  -- the place of any other timer is what it was
  have hkey : ∀ c t, t ∈ l c →
      (s.withTimer ts expireTime heads next counts).key t = s.key t := by
    intro c t ht
    have hne : t ≠ ts := fun heq => hnot c (heq ▸ ht)
    show (update s.expireTime ts expireTime t, update s.armedAt ts s.events t) = _
    rw [update_of_ne hne, update_of_ne hne]
    rfl
  have hself : (s.withTimer ts expireTime heads next counts).key ts = (expireTime, s.events) := by
    show (update s.expireTime ts expireTime ts, update s.armedAt ts s.events ts) =
      _
    rw [update_self, update_self]
  have hold : ∀ c, (l c).Pairwise fun t u =>
      Earlier ((s.withTimer ts expireTime heads next counts).key t)
        ((s.withTimer ts expireTime heads next counts).key u) := by
    refine fun c => (h.sorted c).imp_of_mem fun {t u} ht hu htu => ?_
    rwa [hkey c t ht, hkey c u hu]
  have hfront : ∀ u ∈ l₁, s.armedAt u < s.events := fun u hu =>
    hnew u ((h.mem _ u).mp (hl ▸ List.mem_append_left _ hu)).1
  refine ⟨⟨_, hseg, fun c => ?_, fun c t => ?_, fun c => ?_, fun t ht => ?_, fun t ht => ?_,
    fun t => ?_⟩, harmed, _, _, _, rfl, fun t => (hcount t).1⟩
  · by_cases hc : c = s.clock ts
    · subst hc
      rw [update_self]
      exact List.nodup_middle.mpr (List.nodup_cons.mpr ⟨hnot', hnd⟩)
    · rw [update_of_ne hc]
      exact h.nodup c
  · rw [hmem, h.mem, harmed, Bool.or_eq_true, beq_iff_eq]
    show _ ↔ _ ∧ s.clock t = c
    tauto
  · by_cases hc : c = s.clock ts
    · subst hc
      rw [update_self]
      have hsorted := hold (s.clock ts)
      rw [hl] at hsorted
      obtain ⟨hs₁, hs₂, hs⟩ := List.pairwise_append.mp hsorted
      refine List.pairwise_append.mpr ⟨hs₁, List.pairwise_cons.mpr ⟨fun u hu => ?_, hs₂⟩, ?_⟩
      · rw [hself, hkey _ u (hl ▸ List.mem_append_right _ hu)]
        exact .inl (h₂ u hu)
      · rintro u hu v (_ | ⟨_, hv⟩)
        · rw [hself, hkey _ u (hl ▸ List.mem_append_left _ hu)]
          obtain hlt | heq := lt_or_eq_of_le (h₁ u hu)
          · exact .inl hlt
          · exact .inr ⟨heq, hfront u hu⟩
        · exact hs u hu v hv
    · rw [update_of_ne hc]
      exact hold c
  · rw [harmed, Bool.or_eq_true, beq_iff_eq] at ht
    rcases ht with ht | rfl
    · exact h.made t ht
    · exact hmade
  · rw [harmed, Bool.or_eq_true, beq_iff_eq] at ht
    show update s.armedAt ts s.events t ≤ s.events
    by_cases hne : t = ts
    · rw [hne, update_self]
    · rw [update_of_ne hne]
      exact h.armedAt t (ht.resolve_right hne)
  · rw [harmed]
    exact (hcount t).2.2

/-- The second half of `qemu_mod_timer`. -/
theorem Timers.Holds.set (h : s.Holds l) {ts : Nat} (hts : s.armed ts = false)
    (hmade : ts < s.made) (hnew : ∀ t, s.armed t = true → s.armedAt t < s.events)
    (expireTime : Int) :
    ∃ pt, s.seek (s.clock ts) (fun t => expireTime < s.expireTime t) = some pt ∧
      Set s ts expireTime (({ s with
        expireTime := update s.expireTime ts expireTime
        next := update s.next ts (pt.get (s.activeTimers (s.clock ts)) s.next)
        armedAt := update s.armedAt ts s.events
        counts := update s.counts ts
          { s.counts ts with armed := (s.counts ts).armed + 1 } } : Timers).put
        (s.clock ts) pt (some ts)) := by
  obtain ⟨l₁, l₂, hl, h₁, h₂⟩ : ∃ l₁ l₂, l (s.clock ts) = l₁ ++ l₂ ∧
      (∀ u ∈ l₁, s.expireTime u ≤ expireTime) ∧ ∀ u ∈ l₂, expireTime < s.expireTime u :=
    ⟨_, _, List.takeWhile_append_dropWhile.symm,
      fun u hu => by simpa using List.mem_takeWhile_imp hu, expires_later (h.sorted _)⟩
  have hnot : ∀ c, ts ∉ l c := fun c hm => by
    rw [h.mem, hts] at hm
    exact Bool.false_ne_true hm.1
  have hseek := h.seek_eq (p := fun t => expireTime < s.expireTime t) hl
    (fun u hu => decide_eq_false (not_lt.mpr (h₁ u hu)))
    fun v hv => decide_eq_true (h₂ v (List.mem_of_mem_head? hv))
  have hseg : Seg s.next (Cell.head.get (s.activeTimers (s.clock ts)) s.next) (l₁ ++ l₂) none :=
    hl ▸ h.seg _
  have hinsert := hseg.insert (hl ▸ h.nodup _) (hl ▸ hnot _) (fun _ _ => by rintro ⟨⟩)
  refine ⟨_, hseek, h.inserted hts hmade hnew hl h₁ h₂ rfl ?_⟩
  refine h.put_seg hl (fun c hc t ht => ?_) hinsert
  refine update_of_ne ?_ _ _
  rintro rfl
  exact hnot c ht

/-- `qemu_mod_timer` in a state in which nothing has been set yet by this action. -/
theorem qemuModTimer_spec (h : s.Holds l) {ts : Nat} (hmade : ts < s.made)
    (hnew : ∀ t, s.armed t = true → s.armedAt t < s.events) (expireTime : Int) :
    ∃ s₁ s', qemuModTimer ts expireTime s = some s' ∧ Deleted s l ts s₁ ∧
      Set s₁ ts expireTime s' := by
  obtain ⟨s₁, hdel, hs₁⟩ := qemuDelTimer_spec h ts
  have hts : s₁.armed ts = false := by
    rw [hs₁.armed, bne_self_eq_false, Bool.and_false]
  have hnew₁ : ∀ t, s₁.armed t = true → s₁.armedAt t < s₁.events := by
    intro t ht
    rw [hs₁.armed, Bool.and_eq_true] at ht
    obtain ⟨heads, next, rfl⟩ := hs₁.same
    exact hnew t ht.1
  have hmade₁ : ts < s₁.made := by
    obtain ⟨heads, next, rfl⟩ := hs₁.same
    exact hmade
  obtain ⟨pt, hpt, hset⟩ := hs₁.holds.set hts hmade₁ hnew₁ expireTime
  refine ⟨s₁, _, ?_, hs₁, hset⟩
  rw [qemuModTimer, hdel, Option.bind_some, hpt, Option.map_some]

/-! ### Firing -/

theorem Timers.Holds.head_eq (h : s.Holds l) (c : QemuClock) : s.activeTimers c = (l c).head? :=
  (h.seg c).head_eq

/-- If the first timer of a clock is not due, no timer is. -/
theorem Timers.Holds.due_eq_nil (h : s.Holds l) {c : QemuClock} {now : Int}
    (hfirst : ∀ ts ∈ s.activeTimers c, now < s.expireTime ts) : s.due c now = [] := by
  refine List.filter_eq_nil_iff.mpr fun t _ hdue => ?_
  simp only [Bool.and_eq_true, beq_iff_eq, decide_eq_true_eq] at hdue
  obtain ⟨⟨harmed, hclock⟩, hle⟩ := hdue
  have ht : t ∈ l c := (h.mem c t).mpr ⟨harmed, hclock⟩
  obtain ⟨ts, rest, hl⟩ := List.exists_cons_of_ne_nil (List.ne_nil_of_mem ht)
  have hhead : ts ∈ s.activeTimers c := by
    rw [h.head_eq, hl]
    rfl
  have hlt := hfirst ts hhead
  have hsorted := h.sorted c
  rw [hl] at ht hsorted
  rcases List.mem_cons.mp ht with rfl | ht
  · omega
  · obtain hearlier | ⟨heq, -⟩ := (List.pairwise_cons.mp hsorted).1 t ht
    · have hlt' : s.expireTime ts < s.expireTime t := hearlier
      omega
    · have heq' : s.expireTime ts = s.expireTime t := heq
      omega

theorem Timers.countedOff_fire {ts : Nat} (harmed : s.armed ts = true) :
    CountedOff s ts
      (update s.counts ts { s.counts ts with fired := (s.counts ts).fired + 1 }) := by
  refine ⟨fun t ht => update_of_ne ht _ _, ?_, ?_⟩
  · rw [update_self]
  · rw [update_self, harmed, Bool.toNat_true]
    exact Nat.add_right_comm _ _ _

/-- The first timer of a clock fires. -/
theorem fire_spec (h : s.Holds l) (hlog : s.Logged) {c : QemuClock} {now : Int} {ts : Nat}
    (hhead : s.activeTimers c = some ts) (hdue : s.expireTime ts ≤ now) :
    (∃ l', (fire c now ts s).Holds l') ∧ (fire c now ts s).Logged := by
  obtain ⟨rest, hl⟩ : ∃ rest, l c = ts :: rest := by
    rw [h.head_eq] at hhead
    exact List.head?_eq_some_iff.mp hhead
  have hmem : ts ∈ l c := hl ▸ List.mem_cons_self
  obtain ⟨harmed, hclock⟩ := (h.mem c ts).mp hmem
  have hnd : ts ∉ rest := (List.nodup_cons.mp (hl ▸ h.nodup c)).1
  have hseg : Seg s.next (some ts) (ts :: rest) none := hhead ▸ hl ▸ h.seg c
  have hlists : ∀ c', Seg (update s.next ts none)
      (update s.activeTimers c (s.next ts) c')
      (update l (s.clock ts) ((l (s.clock ts)).erase ts) c') none := by
    intro c'
    rw [hclock, hl, List.erase_cons_head]
    by_cases hc : c' = c
    · subst hc
      rw [update_self, update_self]
      refine hseg.2.congr fun t ht => update_of_ne ?_ _ _
      rintro rfl
      exact hnd ht
    · rw [update_of_ne hc, update_of_ne hc]
      refine (h.seg c').congr fun t ht => update_of_ne ?_ _ _
      rintro rfl
      exact hc ((h.clock_eq ht).symm.trans hclock)
  obtain ⟨hholds, hoff⟩ := h.takenOff (Timers.countedOff_fire harmed) hlists
  refine ⟨⟨_, hholds.seg, hholds.nodup, hholds.mem, hholds.sorted, hholds.made, hholds.armedAt,
    hholds.once⟩, ?_⟩
  -- the other timers of the clock come behind
  have hbehind : ∀ t, s.armed t = true → t ≠ ts → s.clock t = c →
      Earlier (s.key ts) (s.key t) := by
    intro t ht hne hc
    have ht' : t ∈ l c := (h.mem c t).mpr ⟨ht, hc⟩
    rw [hl] at ht'
    exact (List.pairwise_cons.mp (hl ▸ h.sorted c)).1 t
      ((List.mem_cons.mp ht').resolve_left hne)
  refine ⟨fun t => ?_, fun f hf => ?_, fun f hf => ?_, ?_, fun f hf t ht hc hlt => ?_, hlog.late⟩
  · show (update s.counts ts _ t).fired = (s.fired ++ [_]).countP _
    rw [List.countP_append, List.countP_singleton, ← hlog.counted]
    by_cases ht : t = ts
    · subst ht
      rw [update_self, if_pos (beq_self_eq_true t)]
    · rw [update_of_ne ht, if_neg fun heq => ht (beq_iff_eq.mp heq).symm, Nat.add_zero]
  · rcases List.mem_append.mp hf with hf | hf
    · exact hlog.inTime f hf
    · rw [List.mem_singleton.mp hf]
      exact hdue
  · rcases List.mem_append.mp hf with hf | hf
    · exact hlog.firedAt f hf
    · rw [List.mem_singleton.mp hf]
      exact Nat.le_refl _
  · refine List.pairwise_append.mpr ⟨hlog.inOrder, List.pairwise_singleton _ _, ?_⟩
    intro f hf g hg hclocks hlt
    rw [List.mem_singleton.mp hg] at hclocks hlt ⊢
    exact hlog.before f hf ts harmed (hclock.trans hclocks.symm) hlt
  · rw [show (fire c now ts s).armed t = _ from hoff t, Bool.and_eq_true, bne_iff_ne] at ht
    rcases List.mem_append.mp hf with hf | hf
    · exact hlog.before f hf t ht.1 hc hlt
    · rw [List.mem_singleton.mp hf] at hc ⊢
      exact hbehind t ht.1 ht.2 hc

/-- A turn of the loop: the first timer fires if it is due, and else nothing is. -/
theorem runTurn_spec (h : s.Holds l) (hlog : s.Logged) :
    (∃ l', (runTurn s).Holds l') ∧ (runTurn s).Logged := by
  unfold runTurn
  split
  · exact ⟨⟨l, h⟩, hlog⟩
  next clock now runs hruns =>
    have hdone : s.due clock now = [] →
        (∃ l', ({ s with runs := runs, late := s.late ++ s.due clock now } : Timers).Holds l') ∧
          ({ s with runs := runs, late := s.late ++ s.due clock now } : Timers).Logged := by
      intro hdue
      refine ⟨⟨l, h.seg, h.nodup, h.mem, h.sorted, h.made, h.armedAt, h.once⟩, hlog.counted,
        hlog.inTime, hlog.firedAt, hlog.inOrder, hlog.before, ?_⟩
      show s.late ++ s.due clock now = []
      rw [hdue, hlog.late]
      rfl
    cases hhead : s.activeTimers clock with
    | none => exact hdone (h.due_eq_nil (by simp [hhead]))
    | some ts =>
      dsimp only
      split_ifs with hlt
      · exact hdone (h.due_eq_nil (by simp [hhead, hlt]))
      · exact fire_spec h hlog hhead (not_lt.mp hlt)

/-! ### Runs -/

theorem Timers.Logged.deleted (hlog : s.Logged) {ts : Nat} {s' : Timers} (h : Deleted s l ts s') :
    s'.Logged := by
  have harmed := h.armed
  obtain ⟨heads, next, rfl⟩ := h.same
  refine ⟨fun t => (s.drop_fired ts t).trans (hlog.counted t), hlog.inTime, hlog.firedAt,
    hlog.inOrder, fun f hf t ht => ?_, hlog.late⟩
  rw [harmed, Bool.and_eq_true] at ht
  exact hlog.before f hf t ht.1

/-- A timer that is set now need not have come before what has fired. -/
theorem Timers.Logged.set (hlog : s.Logged) {ts : Nat} {expireTime : Int} {s' : Timers}
    (h : Set s ts expireTime s') : s'.Logged := by
  have harmed := h.armed
  obtain ⟨heads, next, counts, rfl, hfired⟩ := h.same
  refine ⟨fun t => (hfired t).trans (hlog.counted t), hlog.inTime, hlog.firedAt, hlog.inOrder,
    fun f hf t ht hc hlt => ?_, hlog.late⟩
  rw [harmed, Bool.or_eq_true, beq_iff_eq] at ht
  have hfiredAt := hlog.firedAt f hf
  have hlt' : update s.armedAt ts s.events t < f.firedAt := hlt
  show Earlier f.key (update s.expireTime ts expireTime t,
    update s.armedAt ts s.events t)
  by_cases hne : t = ts
  · rw [hne, update_self] at hlt'
    omega
  · rw [update_of_ne hne] at hlt' ⊢
    rw [update_of_ne hne]
    exact hlog.before f hf t (ht.resolve_right hne) hc hlt'

/-- What an action leaves. -/
theorem TimerAction.exec_spec (h : s.Holds l) (hlog : s.Logged) (a : TimerAction) :
    ∃ s', a.exec s = some s' ∧ (∃ l', s'.Holds l') ∧ s'.Logged := by
  -- the step counts as an event before it acts
  have hnow : ({ s with events := s.events + 1 } : Timers).Holds l :=
    ⟨h.seg, h.nodup, h.mem, h.sorted, h.made, fun t ht => Nat.le_succ_of_le (h.armedAt t ht),
      h.once⟩
  have hlogged : ({ s with events := s.events + 1 } : Timers).Logged :=
    ⟨hlog.counted, hlog.inTime, fun f hf => Nat.le_succ_of_le (hlog.firedAt f hf), hlog.inOrder,
      hlog.before, hlog.late⟩
  have hnew : ∀ t, s.armed t = true → s.armedAt t < s.events + 1 :=
    fun t ht => Nat.lt_succ_of_le (h.armedAt t ht)
  unfold TimerAction.exec
  cases a with
  | new clock =>
    have hclock : ∀ t, s.armed t = true → update s.clock s.made clock t = s.clock t :=
      fun t ht => update_of_ne (Nat.ne_of_lt (h.made t ht)) _ _
    refine ⟨_, rfl, ⟨l, hnow.seg, hnow.nodup, fun c t => ?_, hnow.sorted,
      fun t ht => Nat.lt_succ_of_lt (h.made t ht), hnow.armedAt, hnow.once⟩, hlogged.counted,
      hlogged.inTime, hlogged.firedAt, hlogged.inOrder, fun f hf t ht hc => ?_, hlogged.late⟩
    · rw [h.mem]
      exact and_congr_right fun ht => (hclock t ht).symm ▸ Iff.rfl
    · exact hlogged.before f hf t ht ((hclock t ht).symm.trans hc)
  | mod ts expireTime =>
    dsimp only
    split_ifs with hts
    · obtain ⟨s₁, s', hmod, hdel, hset⟩ := qemuModTimer_spec hnow hts hnew expireTime
      exact ⟨s', hmod, hset.holds, (hlogged.deleted hdel).set hset⟩
    · exact ⟨_, rfl, ⟨l, hnow⟩, hlogged⟩
  | del ts =>
    dsimp only
    split_ifs with hts
    · obtain ⟨s', hdel, hs'⟩ := qemuDelTimer_spec hnow ts
      exact ⟨s', hdel, ⟨_, hs'.holds⟩, hlogged.deleted hs'⟩
    · exact ⟨_, rfl, ⟨l, hnow⟩, hlogged⟩
  | run clock now =>
    exact ⟨_, rfl, ⟨l, hnow.seg, hnow.nodup, hnow.mem, hnow.sorted, hnow.made, hnow.armedAt,
      hnow.once⟩, hlogged.counted, hlogged.inTime, hlogged.firedAt, hlogged.inOrder,
      hlogged.before, hlogged.late⟩
  | turn => exact ⟨_, rfl, runTurn_spec hnow hlogged⟩

end

/-- What holds between two actions.  Of two firings on a clock, where the later timer was already
    set when the earlier one fired, the first expires earlier, or at the same time and was set
    earlier. -/
structure Timers.Right (s : Timers) : Prop where
  list : ∀ c, ∃ l, Seg s.next (s.activeTimers c) l none ∧ l.Nodup ∧
    (l.Pairwise fun t u => s.expireTime t ≤ s.expireTime u) ∧
    ∀ t, t ∈ l ↔ s.armed t = true ∧ s.clock t = c
  once : ∀ t, (s.counts t).armed =
    (s.counts t).fired + (s.counts t).dropped + (s.armed t).toNat
  counted : ∀ t, (s.counts t).fired = s.fired.countP (·.timer == t)
  inTime : ∀ f ∈ s.fired, f.expireTime ≤ f.now
  inOrder : s.fired.Pairwise fun f g =>
    f.clock = g.clock → g.armedAt < f.firedAt →
      f.expireTime < g.expireTime ∨ f.expireTime = g.expireTime ∧ f.armedAt < g.armedAt
  late : s.late = []

theorem Earlier.le {a b : Int × Nat} (h : Earlier a b) : a.1 ≤ b.1 :=
  h.elim le_of_lt fun heq => le_of_eq heq.1

theorem Timers.Holds.right {s : Timers} {l : QemuClock → List Nat} (h : s.Holds l)
    (hlog : s.Logged) : s.Right where
  list c := ⟨l c, h.seg c, h.nodup c, (h.sorted c).imp Earlier.le, h.mem c⟩
  once := h.once
  counted := hlog.counted
  inTime := hlog.inTime
  inOrder := hlog.inOrder
  late := hlog.late

theorem Timers.start_holds : Timers.start.Holds fun _ => [] where
  seg _ := rfl
  nodup _ := List.nodup_nil
  mem _ _ := ⟨fun ht => absurd ht List.not_mem_nil, fun ht => absurd ht.1 Bool.false_ne_true⟩
  sorted _ := List.Pairwise.nil
  made _ ht := absurd ht Bool.false_ne_true
  armedAt _ ht := absurd ht Bool.false_ne_true
  once _ := rfl

theorem Timers.start_logged : Timers.start.Logged where
  counted _ := rfl
  inTime _ hf := absurd hf List.not_mem_nil
  firedAt _ hf := absurd hf List.not_mem_nil
  inOrder := List.Pairwise.nil
  before _ hf := absurd hf List.not_mem_nil
  late := rfl

/-- **Timers.**  In every run, with any nesting of callbacks, the loops end, each timer that is set
    fires once unless it is deleted or set again, no timer fires early, the first one fires first,
    and none that is due is left when a call of `qemu_run_timers` returns. -/
theorem timers_fire (actions : List TimerAction) :
    ∃ s, runFrom TimerAction.exec Timers.start actions = some s ∧ s.Right := by
  have hstep : ∀ (s : Timers) (a : TimerAction), ((∃ l, s.Holds l) ∧ s.Logged) → True →
      ∃ s', a.exec s = some s' ∧ (∃ l, s'.Holds l) ∧ s'.Logged := by
    rintro s a ⟨⟨l, h⟩, hlog⟩ -
    exact TimerAction.exec_spec h hlog a
  obtain ⟨s, hrun, ⟨l, h⟩, hlog⟩ := runFrom_invariant hstep
    ⟨⟨_, Timers.start_holds⟩, Timers.start_logged⟩
    (StepsMeet.of_forall (fun _ _ => trivial) Timers.start actions)
  exact ⟨s, hrun, h.right hlog⟩

/-- A callback sets a timer for a time that has passed: it fires after a timer that expired
    later. -/
theorem timers_fire_backwards :
    ¬∀ actions s, runFrom TimerAction.exec Timers.start actions = some s →
      s.fired.Pairwise fun f g => f.clock = g.clock → f.expireTime ≤ g.expireTime := by
  intro h
  have hlist := h [.new .virtual, .new .virtual, .mod 0 10, .run .virtual 10, .turn, .mod 1 5,
    .turn] _ rfl
  exact absurd hlist (by decide)

end Qemu.Async
