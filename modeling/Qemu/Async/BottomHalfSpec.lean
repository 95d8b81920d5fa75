import Qemu.Async.BottomHalf
import Mathlib.Data.List.Nodup

namespace Qemu.Async

open Qemu.Lib

/-!
# Bottom halves are run once, in their context

* `FramesOk` — the call stack against the contexts: every poll stands at a bottom half of its list,
  and what it has still to run is behind it;
* `AsyncInv` — this, and that the lists have exactly what is not freed;
* `asyncRun_settled` — runs whose steps are good.
-/

/-! ### Lists -/

variable {a b : Nat} {l : List Nat}

theorem mem_of_mem_after (h : a ∈ after b l) : a ∈ l := by
  induction l with
  | nil => exact h
  | cons c l ih =>
    unfold after at h
    split_ifs at h
    · exact List.mem_cons_of_mem c h
    · exact List.mem_cons_of_mem c (ih h)

theorem after_cons (l : List Nat) (h : a ≠ b) : after b (a :: l) = after b l :=
  if_neg h

/-- What is behind an element stays behind it when others are filtered out. -/
theorem mem_after_filter {p : Nat → Bool} (hb : p b = true) (ha : p a = true) (h : a ∈ after b l) :
    a ∈ after b (l.filter p) := by
  induction l with
  | nil => exact h
  | cons c l ih =>
    unfold after at h
    split_ifs at h with hc
    · rw [hc, List.filter_cons_of_pos hb, after, if_pos rfl]
      exact List.mem_filter.mpr ⟨h, ha⟩
    · by_cases hp : p c = true
      · rw [List.filter_cons_of_pos hp, after_cons _ hc]
        exact ih h
      · rw [List.filter_cons_of_neg hp]
        exact ih h

/-- What else satisfies a predicate is behind the first that does. -/
theorem mem_after_find {p : Nat → Bool} (hb : l.find? p = some b) (ha : a ∈ l) (hp : p a = true)
    (hne : a ≠ b) : a ∈ after b l := by
  induction l with
  | nil => cases ha
  | cons c l ih =>
    by_cases hc : p c = true
    · rw [List.find?_cons_of_pos hc] at hb
      obtain rfl := Option.some.inj hb
      rw [after, if_pos rfl]
      exact (List.mem_cons.mp ha).resolve_left hne
    · rw [List.find?_cons_of_neg hc] at hb
      have hcb : c ≠ b := by
        rintro rfl
        exact hc (List.find?_some hb)
      rw [after_cons _ hcb]
      refine ih hb ((List.mem_cons.mp ha).resolve_left ?_)
      rintro rfl
      exact hc hp

/-- What is behind an element that is itself behind another one. -/
theorem after_after {b' : Nat} (hl : l.Nodup) (h : b' ∈ after b l) :
    after b' (after b l) = after b' l := by
  induction l with
  | nil => rfl
  | cons c l ih =>
    obtain ⟨hc, hl⟩ := List.nodup_cons.mp hl
    have hcb : c ≠ b' := by
      rintro rfl
      unfold after at h
      split_ifs at h
      · exact hc h
      · exact hc (mem_of_mem_after h)
    rw [after_cons l hcb]
    unfold after at h
    split_ifs at h with hb
    · rw [after, if_pos hb]
    · rw [after_cons l hb]
      exact ih hl h

/-! ### The call stack -/

/-- The frames fit the contexts.  `pend` says which schedulings are still to come, `cnt` how many
    there have been. -/
inductive FramesOk (pend : Nat × Nat → Prop) (cnt : Nat → Nat) :
    List Frame → List AsyncContext → Prop
  | main {depth : Nat} {cs : List AsyncContext} (hlen : cs.length = depth + 1) :
    FramesOk pend cnt [.main depth] cs
  | callback {depth b : Nat} {ret : Bool} {due : List (Nat × Nat)} {fs : List Frame}
    {cs rest : List AsyncContext} {c : AsyncContext} (hdrop : cs.drop depth = c :: rest)
    (hb : b ∈ c.bhs) (hdue : ∀ x ∈ due, x.2 ≤ cnt x.1 ∧ (pend x → x.1 ∈ after b c.bhs))
    (h : FramesOk pend cnt fs (c :: rest)) :
    FramesOk pend cnt (.callback depth b ret due :: fs) cs
  | pop {fs : List Frame} {cs : List AsyncContext} (hdepth : 0 < topDepth fs)
    (h : FramesOk pend cnt fs cs) : FramesOk pend cnt (.pop :: fs) cs

section Frames

variable {pend pend' : Nat × Nat → Prop} {cnt cnt' : Nat → Nat} {fs : List Frame}
  {cs cs' : List AsyncContext}

/-- What a list of a context keeps for the polls that stand at some bottom halves. -/
def Keeps (pend : Nat × Nat → Prop) (bs : List Nat) (c c' : AsyncContext) : Prop :=
  ∀ b ∈ bs, b ∈ c.bhs → b ∈ c'.bhs ∧ ∀ x, pend x → x.1 ∈ after b c.bhs → x.1 ∈ after b c'.bhs

/-- Frames keep fitting when the lists keep what the polls need and nothing new is still to come for
    them. -/
theorem FramesOk.mono (h : FramesOk pend cnt fs cs)
    (hctx : List.Forall₂ (Keeps pend' (runningBhs fs)) cs cs')
    (hpend : ∀ x, x.2 ≤ cnt x.1 → pend' x → pend x) (hcnt : ∀ b, cnt b ≤ cnt' b) :
    FramesOk pend' cnt' fs cs' := by
  induction h generalizing cs' with
  | main hlen => exact .main (hctx.length_eq ▸ hlen)
  | @callback depth b ret due fs cs rest c hdrop hb hdue h ih =>
    have hd := List.forall₂_drop depth hctx
    rw [hdrop] at hd
    obtain ⟨c', rest', hc, hrest, hdrop'⟩ := List.forall₂_cons_left_iff.mp hd
    have hkeep := hc b (List.mem_cons_self ..) hb
    refine .callback hdrop' hkeep.1 ?_ ?_
    · intro x hx
      obtain ⟨hle, hafter⟩ := hdue x hx
      exact ⟨Nat.le_trans hle (hcnt x.1), fun hp => hkeep.2 x hp (hafter (hpend x hle hp))⟩
    · refine ih ((List.Forall₂.cons hc hrest).imp ?_)
      intro c c' hk b' hb'
      exact hk b' (List.mem_cons_of_mem b hb')
  | pop hdepth h ih => exact .pop hdepth (ih hctx)

theorem FramesOk.ne_nil (h : FramesOk pend cnt fs cs) : ∃ c rest, cs = c :: rest := by
  induction h with
  | @main depth cs hlen => exact List.exists_cons_of_length_eq_add_one hlen
  | @callback depth b ret due fs cs rest c hdrop hb hdue h ih =>
    cases cs with
    | nil => rw [List.drop_nil] at hdrop; cases hdrop
    | cons c' rest' => exact ⟨c', rest', rfl⟩
  | pop _ _ ih => exact ih

theorem FramesOk.push (h : FramesOk pend cnt fs cs) (hfs : fs.head? ≠ some .pop)
    (c : AsyncContext) :
    FramesOk pend cnt (mapDepth (· + 1) fs) (c :: cs) := by
  cases h with
  | main hlen => exact .main (by rw [List.length_cons, hlen])
  | callback hdrop hb hdue h => exact .callback hdrop hb hdue h
  | pop => exact absurd rfl hfs

/-- The topmost level leaves a context, and there is one below. -/
theorem FramesOk.leave {c : AsyncContext} (h : FramesOk pend cnt fs (c :: cs))
    (hdepth : 0 < topDepth fs) :
    (∃ c' rest, cs = c' :: rest) ∧ FramesOk pend cnt (mapDepth (· - 1) fs) cs := by
  cases h with
  | @main depth _ hlen =>
    obtain ⟨k, rfl⟩ := Nat.exists_eq_succ_of_ne_zero (Nat.pos_iff_ne_zero.mp hdepth)
    rw [List.length_cons] at hlen
    have hcs : cs.length = k + 1 := by omega
    exact ⟨List.exists_cons_of_length_eq_add_one hcs, .main hcs⟩
  | @callback depth _ _ _ _ _ rest c' hdrop hb hdue h =>
    obtain ⟨k, rfl⟩ := Nat.exists_eq_succ_of_ne_zero (Nat.pos_iff_ne_zero.mp hdepth)
    have hdrop' : cs.drop k = c' :: rest := hdrop
    refine ⟨?_, .callback hdrop' hb hdue h⟩
    cases cs with
    | nil => rw [List.drop_nil] at hdrop'; cases hdrop'
    | cons c'' rest' => exact ⟨c'', rest', rfl⟩
  | pop => exact absurd hdepth (Nat.lt_irrefl 0)

end Frames

/-! ### The invariant -/

/-- A scheduling that is still to come. -/
def AsyncState.Pend (s : AsyncState) (x : Nat × Nat) : Prop := s.pending x = true

/-- How often a bottom half has been scheduled. -/
def AsyncState.cnt (s : AsyncState) (b : Nat) : Nat := (s.counts b).scheduled

/-- What holds at every point, also between the parts of a step. -/
structure AsyncInv (s : AsyncState) : Prop where
  heap : ∀ b, (s.heap b).isSome ↔ ∃ c ∈ s.contexts, b ∈ c.bhs
  home : ∀ c ∈ s.contexts, ∀ b ∈ c.bhs, s.home b = c.id
  nodup : ∀ c ∈ s.contexts, c.bhs.Nodup
  ids : (s.contexts.map AsyncContext.id).Nodup
  nextContext : ∀ c ∈ s.contexts, c.id < s.nextContext
  fresh : ∀ b, s.nextBh ≤ b → s.heap b = none
  scheduled : ∀ b bh, s.heap b = some bh → bh.scheduled = true → bh.deleted = false
  frames : FramesOk s.Pend s.cnt s.frames s.contexts
  counts : ∀ b, (s.counts b).scheduled =
    (s.counts b).run + (s.counts b).dropped + ((s.heap b).any QemuBh.scheduled).toNat
  ran : ∀ p ∈ s.ran, p.1 < s.nextBh ∧ s.home p.1 = p.2
  missed : s.missed = []

variable {s : AsyncState}

theorem pend_iff {x : Nat × Nat} :
    s.Pend x ↔ (s.heap x.1).any QemuBh.scheduled = true ∧ s.cnt x.1 = x.2 := by
  unfold AsyncState.Pend AsyncState.pending AsyncState.cnt
  rw [Bool.and_eq_true, beq_iff_eq]

theorem forall₂_keeps (pend : Nat × Nat → Prop) (bs : List Nat) (cs : List AsyncContext) :
    List.Forall₂ (Keeps pend bs) cs cs :=
  List.forall₂_same.mpr fun _ _ _ _ hb => ⟨hb, fun _ _ h => h⟩

theorem AsyncInv.runnable (h : AsyncInv s) {x : Nat × Nat} (hx : s.Pend x) :
    s.runnable x.1 = true := by
  have hs := (pend_iff.mp hx).1
  unfold AsyncState.runnable
  cases hb : s.heap x.1 with
  | none => rw [hb] at hs; cases hs
  | some bh =>
    rw [hb] at hs
    show (!bh.deleted && bh.scheduled) = true
    rw [h.scheduled _ bh hb hs, show bh.scheduled = true from hs]
    rfl

theorem live_of_runnable (h : s.runnable b = true) : s.live b = true := by
  unfold AsyncState.runnable at h
  unfold AsyncState.live
  cases hb : s.heap b with
  | none => rw [hb] at h; cases h
  | some bh =>
    rw [hb] at h
    exact (Bool.and_eq_true_iff.mp h).1

theorem AsyncInv.not_scheduled (h : AsyncInv s) (hb : s.live b = false) :
    (s.heap b).any QemuBh.scheduled = false := by
  unfold AsyncState.live at hb
  cases hbh : s.heap b with
  | none => rfl
  | some bh =>
    rw [hbh] at hb
    cases hs : bh.scheduled with
    | false => exact hs
    | true =>
      have hd : (!bh.deleted) = false := hb
      rw [h.scheduled b bh hbh hs] at hd
      cases hd

/-- An update of one bottom half that is there, with its counts. -/
theorem AsyncInv.update (h : AsyncInv s) {bh : QemuBh} (hb : s.heap b = some bh) (bh' : QemuBh)
    {n : BhCounts} (hsched : bh'.scheduled = true → bh'.deleted = false)
    (hn : n.scheduled = n.run + n.dropped + bh'.scheduled.toNat)
    (hle : (s.counts b).scheduled ≤ n.scheduled)
    (hpend : bh'.scheduled = true → n.scheduled = (s.counts b).scheduled → bh.scheduled = true) :
    AsyncInv { s with
      heap := Function.update s.heap b (some bh'), counts := Function.update s.counts b n } := by
  have hsome : ∀ a, (Function.update s.heap b (some bh') a).isSome = (s.heap a).isSome := by
    intro a
    by_cases ha : a = b
    · rw [ha, Function.update_self, hb]
      rfl
    · rw [Function.update_of_ne ha]
  have hfresh : ∀ a, s.nextBh ≤ a → Function.update s.heap b (some bh') a = none := by
    intro a ha
    have hnone := hsome a
    rw [h.fresh a ha] at hnone
    exact Option.not_isSome_iff_eq_none.mp (by rw [hnone]; exact Bool.false_ne_true)
  have hscheduled : ∀ a bh, Function.update s.heap b (some bh') a = some bh →
      bh.scheduled = true → bh.deleted = false := by
    intro a
    by_cases ha : a = b
    · rw [ha, Function.update_self]
      rintro _ ⟨⟩
      exact hsched
    · rw [Function.update_of_ne ha]
      exact h.scheduled a
  have hcounts : ∀ a, (Function.update s.counts b n a).scheduled =
      (Function.update s.counts b n a).run + (Function.update s.counts b n a).dropped +
        ((Function.update s.heap b (some bh') a).any QemuBh.scheduled).toNat := by
    intro a
    by_cases ha : a = b
    · subst ha
      simpa only [Function.update_self, Option.any_some] using hn
    · simpa only [Function.update_of_ne ha] using h.counts a
  refine ⟨fun a => (hsome a).symm ▸ h.heap a, h.home, h.nodup, h.ids, h.nextContext, hfresh,
    hscheduled, ?_, hcounts, h.ran, h.missed⟩
  -- a count that is pending now was pending before, and no count goes down
  refine h.frames.mono (forall₂_keeps _ _ _) ?_ ?_
  · rintro ⟨a, k⟩ hk hp
    rw [pend_iff] at hp ⊢
    by_cases ha : a = b
    · subst ha
      simp only [AsyncState.cnt, Function.update_self, Option.any_some] at hp hk ⊢
      have heq : n.scheduled = (s.counts a).scheduled := by omega
      rw [hb]
      exact ⟨hpend hp.1 heq, by omega⟩
    · simpa only [AsyncState.cnt, Function.update_of_ne ha] using hp
  · intro a
    by_cases ha : a = b
    · subst ha
      simpa only [AsyncState.cnt, Function.update_self] using hle
    · simp only [AsyncState.cnt, Function.update_of_ne ha]
      exact Nat.le_refl _

/-! ### One bottom half -/

/-- `qemu_bh_new` does not fault, keeps the invariant, and makes a bottom half that is not
    scheduled. -/
theorem AsyncInv.new (h : AsyncInv s) :
    ∃ s', qemuBhNew s = some s' ∧ AsyncInv s' ∧ s'.frames = s.frames ∧
      s'.heap s.nextBh = some ⟨false, false, false⟩ := by
  obtain ⟨c, cs, hcs⟩ := h.frames.ne_nil
  have hnone : s.heap s.nextBh = none := h.fresh _ (Nat.le_refl _)
  have hmem : ∀ c' ∈ s.contexts, ∀ b ∈ c'.bhs, b ≠ s.nextBh := by
    rintro c' hc' b hb rfl
    have hsome := (h.heap s.nextBh).mpr ⟨c', hc', hb⟩
    rw [hnone] at hsome
    cases hsome
  obtain ⟨hc, hcs'⟩ := List.forall_mem_cons.mp (hcs ▸ hmem)
  -- the new bottom half goes to the front of the innermost context
  refine ⟨{ s with
      heap := Function.update s.heap s.nextBh (some ⟨false, false, false⟩)
      home := Function.update s.home s.nextBh c.id
      contexts := { c with bhs := s.nextBh :: c.bhs } :: cs
      nextBh := s.nextBh + 1 }, ?_, ⟨?_, ?_, ?_, ?_, ?_, ?_, ?_, ?_, ?_, ?_, h.missed⟩, rfl,
    Function.update_self ..⟩
  · unfold qemuBhNew
    rw [hcs]
  · intro b
    show (Function.update s.heap s.nextBh _ b).isSome ↔ _
    by_cases hb : b = s.nextBh
    · subst hb
      simp
    · rw [Function.update_of_ne hb, h.heap b, hcs]
      simp [hb]
  · have hhome := hcs ▸ h.home
    intro c' hc' b hb
    show Function.update s.home s.nextBh c.id b = c'.id
    rcases List.mem_cons.mp hc' with rfl | hc'
    · rcases List.mem_cons.mp hb with rfl | hb
      · exact Function.update_self ..
      · rw [Function.update_of_ne (hc b hb)]
        exact hhome c (List.mem_cons_self ..) b hb
    · rw [Function.update_of_ne (hcs' c' hc' b hb)]
      exact hhome c' (List.mem_cons_of_mem c hc') b hb
  · have hnodup := hcs ▸ h.nodup
    refine List.forall_mem_cons.mpr ⟨?_, fun c' hc' => hnodup c' (List.mem_cons_of_mem c hc')⟩
    exact List.nodup_cons.mpr ⟨fun hm => hc _ hm rfl, hnodup c (List.mem_cons_self ..)⟩
  · exact (hcs ▸ h.ids :)
  · have hid := hcs ▸ h.nextContext
    exact List.forall_mem_cons.mpr ⟨hid c (List.mem_cons_self ..),
      fun c' hc' => hid c' (List.mem_cons_of_mem c hc')⟩
  · intro b hb
    show Function.update s.heap s.nextBh _ b = none
    have hb' : s.nextBh + 1 ≤ b := hb
    rw [Function.update_of_ne (by omega)]
    exact h.fresh b (by omega)
  · intro b
    show ∀ bh, Function.update s.heap s.nextBh _ b = some bh → _
    by_cases hb : b = s.nextBh
    · rw [hb, Function.update_self]
      rintro _ ⟨⟩ hs
      cases hs
    · rw [Function.update_of_ne hb]
      exact h.scheduled b
  · refine (hcs ▸ h.frames).mono (.cons ?_ (forall₂_keeps _ _ cs)) ?_ fun _ => Nat.le_refl _
    · intro b _ hb
      refine ⟨List.mem_cons_of_mem _ hb, fun x _ hx => ?_⟩
      rwa [after_cons _ (hc b hb).symm]
    · rintro ⟨b, n⟩ _ hp
      rw [pend_iff] at hp ⊢
      by_cases hb : b = s.nextBh
      · subst hb
        simp only [Function.update_self] at hp
        cases hp.1
      · simpa only [AsyncState.cnt, Function.update_of_ne hb] using hp
  · intro b
    show _ = _ + _ + ((Function.update s.heap s.nextBh _ b).any QemuBh.scheduled).toNat
    by_cases hb : b = s.nextBh
    · have hcount := h.counts b
      rw [hb, hnone] at hcount
      rw [hb, Function.update_self]
      exact hcount
    · rw [Function.update_of_ne hb]
      exact h.counts b
  · intro p hp
    obtain ⟨hlt, hhome⟩ := h.ran p hp
    refine ⟨Nat.lt_succ_of_lt hlt, ?_⟩
    show Function.update s.home s.nextBh c.id p.1 = p.2
    rw [Function.update_of_ne (by omega)]
    exact hhome

/-- Scheduling a bottom half that is there does not fault and keeps the invariant. -/
theorem AsyncInv.schedule (h : AsyncInv s) (hb : s.live b = true) (idle : Bool) :
    ∃ s', qemuBhSchedule idle b s = some s' ∧ AsyncInv s' ∧ s'.frames = s.frames := by
  unfold AsyncState.live at hb
  unfold qemuBhSchedule
  cases hbh : s.heap b with
  | none => rw [hbh] at hb; cases hb
  | some bh =>
    rw [hbh] at hb
    have hcount := h.counts b
    rw [hbh, Option.any_some] at hcount
    cases hs : bh.scheduled with
    | true =>
      refine ⟨s, ?_, h, rfl⟩
      simp only [Option.map_some, hs, if_true]
    | false =>
      rw [hs] at hcount
      have hn : (s.counts b).scheduled + 1 = (s.counts b).run + (s.counts b).dropped + 1 := by
        simpa using hcount
      have hu := h.update hbh { bh with scheduled := true, idle := idle }
        (n := { s.counts b with scheduled := (s.counts b).scheduled + 1 })
        (fun _ => by simpa using hb) hn (Nat.le_succ _)
        (fun _ heq => absurd heq (Nat.succ_ne_self _))
      refine ⟨_, ?_, hu, rfl⟩
      simp only [Option.map_some, hs, Bool.false_eq_true, if_false]

theorem AsyncInv.unschedule (h : AsyncInv s) (hb : s.live b = true) (delete : Bool) :
    ∃ s', qemuBhUnschedule delete b s = some s' ∧ AsyncInv s' ∧ s'.frames = s.frames := by
  unfold AsyncState.live at hb
  unfold qemuBhUnschedule
  cases hbh : s.heap b with
  | none => rw [hbh] at hb; cases hb
  | some bh =>
    have hcount := h.counts b
    rw [hbh, Option.any_some] at hcount
    refine ⟨_, rfl,
      h.update hbh _ (fun hs => by cases hs) ?_ (Nat.le_refl _) (fun hs => by cases hs), rfl⟩
    show (s.counts b).scheduled = (s.counts b).run + ((s.counts b).dropped + bh.scheduled.toNat) + 0
    omega

/-! ### Polls -/

theorem bhs_eq {c : AsyncContext} {cs : List AsyncContext} (hcs : s.contexts = c :: cs) :
    s.bhs = c.bhs := by
  unfold AsyncState.bhs
  rw [hcs]
  rfl

variable {due : List (Nat × Nat)}

/-- A poll calls the callback of a bottom half; what else it has to run is behind it. -/
theorem AsyncInv.call (h : AsyncInv s) (hb : b ∈ s.bhs) (hrun : s.runnable b = true) (ret : Bool)
    (hdue : ∀ x ∈ due, x.2 ≤ s.cnt x.1 ∧ (s.Pend x → x.1 = b ∨ x.1 ∈ after b s.bhs)) :
    AsyncInv (startCallback b ret due s) := by
  obtain ⟨c, cs, hcs⟩ := h.frames.ne_nil
  rw [bhs_eq hcs] at hb hdue
  unfold AsyncState.runnable at hrun
  cases hbh : s.heap b with
  | none => rw [hbh] at hrun; cases hrun
  | some bh =>
    rw [hbh] at hrun
    obtain ⟨-, hsched⟩ := Bool.and_eq_true_iff.mp hrun
    have hcount := h.counts b
    rw [hbh, Option.any_some, hsched] at hcount
    have hn : (s.counts b).scheduled = (s.counts b).run + 1 + (s.counts b).dropped + 0 := by
      simp only [Bool.toNat_true] at hcount
      omega
    have hu := h.update hbh { bh with scheduled := false, idle := false }
      (n := { s.counts b with run := (s.counts b).run + 1 }) (fun hs => by cases hs) hn
      (Nat.le_refl _) (fun hs => by cases hs)
    have hstart : startCallback b ret due s = { s with
        heap := Function.update s.heap b (some { bh with scheduled := false, idle := false })
        counts := Function.update s.counts b { s.counts b with run := (s.counts b).run + 1 }
        ran := s.ran ++ [(b, c.id)]
        frames := .callback 0 b (ret || !bh.idle) due :: s.frames } := by
      unfold startCallback
      rw [hbh, hcs]
      rfl
    rw [hstart]
    -- `hu` speaks for the counts, the new frame for what is still due
    refine ⟨hu.heap, hu.home, hu.nodup, hu.ids, hu.nextContext, hu.fresh, hu.scheduled, ?_,
      hu.counts, ?_, hu.missed⟩
    · refine .callback hcs hb ?_ (hcs ▸ hu.frames)
      rintro ⟨a, n⟩ hx
      obtain ⟨hle, hafter⟩ := hdue _ hx
      refine ⟨?_, fun hp => ?_⟩
      · by_cases ha : a = b
        · subst ha
          simpa only [AsyncState.cnt, Function.update_self] using hle
        · simpa only [AsyncState.cnt, Function.update_of_ne ha] using hle
      · rw [pend_iff] at hp
        by_cases ha : a = b
        · subst ha
          simp only [Function.update_self] at hp
          cases hp.1
        · simp only [AsyncState.cnt, Function.update_of_ne ha] at hp
          exact (hafter (pend_iff.mpr hp)).resolve_left ha
    · intro p hp
      rcases List.mem_append.mp hp with hp | hp
      · exact h.ran p hp
      · obtain rfl := List.mem_singleton.mp hp
        refine ⟨?_, h.home c (hcs ▸ List.mem_cons_self ..) b hb⟩
        by_contra hge
        rw [h.fresh b (Nat.le_of_not_lt hge)] at hbh
        cases hbh

theorem sweep_eq {c : AsyncContext} {cs : List AsyncContext} (hcs : s.contexts = c :: cs) :
    sweep s = { s with
      contexts := { c with bhs := c.bhs.filter s.live } :: cs
      heap := fun b => if b ∈ c.bhs ∧ s.live b = false then none else s.heap b } := by
  unfold sweep
  rw [hcs]

/-- The end of a poll frees the deleted bottom halves, none of which an outer poll stands at. -/
theorem AsyncInv.sweep (h : AsyncInv s) (houter : OuterLive s.frames s) :
    AsyncInv (Async.sweep s) := by
  obtain ⟨c, cs, hcs⟩ := h.frames.ne_nil
  have hids := hcs ▸ h.ids
  have hhome := hcs ▸ h.home
  -- a bottom half is in one context only
  have hother : ∀ c' ∈ cs, ∀ b ∈ c'.bhs, b ∉ c.bhs := by
    intro c' hc' b hb hbc
    have h1 := hhome c (List.mem_cons_self ..) b hbc
    have h2 := hhome c' (List.mem_cons_of_mem c hc') b hb
    refine (List.nodup_cons.mp hids).1 ?_
    rw [show c.id = c'.id from h1.symm.trans h2]
    exact List.mem_map_of_mem hc'
  have hlive : ∀ x, s.Pend x → s.live x.1 = true := fun x hx => live_of_runnable (h.runnable hx)
  have hpend : ∀ x, (Async.sweep s).Pend x → s.Pend x := by
    intro x hx
    rw [pend_iff] at hx ⊢
    rw [sweep_eq hcs] at hx
    refine ⟨?_, hx.2⟩
    by_cases hd : x.1 ∈ c.bhs ∧ s.live x.1 = false
    · simp only [if_pos hd] at hx
      cases hx.1
    · simpa only [if_neg hd] using hx.1
  rw [sweep_eq hcs] at hpend ⊢
  refine ⟨?_, ?_, ?_, hids, ?_, ?_, ?_, ?_, ?_, h.ran, h.missed⟩
  · intro b
    show (if b ∈ c.bhs ∧ s.live b = false then none else s.heap b).isSome ↔ _
    split_ifs with hd
    · constructor
      · intro hn
        cases hn
      · rintro ⟨c', hc', hb⟩
        rcases List.mem_cons.mp hc' with rfl | hc'
        · exact absurd (List.mem_filter.mp hb).2 (by rw [hd.2]; exact Bool.false_ne_true)
        · exact absurd hd.1 (hother c' hc' b hb)
    · have hfilter : b ∈ c.bhs.filter s.live ↔ b ∈ c.bhs := by
        rw [List.mem_filter, and_iff_left_iff_imp]
        intro hb
        exact Bool.not_eq_false _ |>.mp fun hl => hd ⟨hb, hl⟩
      rw [h.heap b, hcs]
      simp only [List.exists_mem_cons_iff, hfilter]
  · refine List.forall_mem_cons.mpr ⟨?_, fun c' hc' => hhome c' (List.mem_cons_of_mem c hc')⟩
    intro b hb
    exact hhome c (List.mem_cons_self ..) b (List.mem_of_mem_filter hb)
  · have hnodup := hcs ▸ h.nodup
    exact List.forall_mem_cons.mpr ⟨(hnodup c (List.mem_cons_self ..)).filter _,
      fun c' hc' => hnodup c' (List.mem_cons_of_mem c hc')⟩
  · have hid := hcs ▸ h.nextContext
    exact List.forall_mem_cons.mpr ⟨hid c (List.mem_cons_self ..),
      fun c' hc' => hid c' (List.mem_cons_of_mem c hc')⟩
  · intro b hb
    show (if b ∈ c.bhs ∧ s.live b = false then none else s.heap b) = none
    rw [h.fresh b hb, ite_self]
  · intro b bh hb
    have hb : (if b ∈ c.bhs ∧ s.live b = false then none else s.heap b) = some bh := hb
    split_ifs at hb
    exact h.scheduled b bh hb
  · refine (hcs ▸ h.frames).mono (.cons ?_ (forall₂_keeps _ _ cs)) (fun x _ => hpend x)
      fun _ => Nat.le_refl _
    intro b hb hbc
    have hbl : s.live b = true := houter b hb (by rw [bhs_eq hcs]; exact hbc)
    exact ⟨List.mem_filter.mpr ⟨hbc, hbl⟩,
      fun x hx hafter => mem_after_filter hbl (hlive x (hpend x hx)) hafter⟩
  · intro b
    show _ = _ + _ + ((if b ∈ c.bhs ∧ s.live b = false then none else s.heap b).any
      QemuBh.scheduled).toNat
    rw [h.counts b]
    split_ifs with hd
    · rw [h.not_scheduled hd.2]
      rfl
    · rfl

/-- The part of the list a poll has still to look at, with what it has to run in it. -/
structure PollRest (s : AsyncState) (rest : List Nat) (due : List (Nat × Nat)) : Prop where
  sub : ∀ b ∈ rest, b ∈ s.bhs
  after : ∀ b ∈ rest, after b rest = after b s.bhs
  due : ∀ x ∈ due, x.2 ≤ s.cnt x.1 ∧ (s.Pend x → x.1 ∈ rest)

/-- The loop of a poll ends in a callback, or with everything run that there was to run. -/
theorem AsyncInv.pollFrom (h : AsyncInv s) (houter : OuterLive s.frames s) {rest : List Nat}
    (hrest : PollRest s rest due) (ret : Bool) :
    (∃ b, Async.pollFrom rest ret due s = (startCallback b ret due s, none) ∧
      AsyncInv (startCallback b ret due s)) ∨
    ((∀ b ∈ rest, s.runnable b = false) ∧
      Async.pollFrom rest ret due s = (Async.sweep s, some ret) ∧ AsyncInv (Async.sweep s)) := by
  unfold Async.pollFrom
  cases hfind : rest.find? s.runnable with
  | some b =>
    have hb := List.mem_of_find?_eq_some hfind
    refine Or.inl ⟨b, rfl, h.call (hrest.sub b hb) (List.find?_some hfind) ret ?_⟩
    intro x hx
    obtain ⟨hle, hmem⟩ := hrest.due x hx
    refine ⟨hle, fun hp => ?_⟩
    by_cases hxb : x.1 = b
    · exact Or.inl hxb
    · refine Or.inr ?_
      rw [← hrest.after b hb]
      exact mem_after_find hfind (hmem hp) (h.runnable hp) hxb
  | none =>
    have hnone : ∀ b ∈ rest, s.runnable b = false := by
      intro b hb
      exact Bool.not_eq_true _ |>.mp (List.find?_eq_none.mp hfind b hb)
    have hdone : due.filter s.pending = [] := by
      refine List.filter_eq_nil_iff.mpr fun x hx hp => ?_
      have hrun := h.runnable hp
      rw [hnone _ ((hrest.due x hx).2 hp)] at hrun
      cases hrun
    refine Or.inr ⟨hnone, ?_, h.sweep houter⟩
    simp only [hdone, List.map_nil, List.append_nil]

theorem AsyncInv.pollRest_begin : PollRest s s.bhs s.due := by
  refine ⟨fun _ hb => hb, fun _ _ => rfl, ?_⟩
  intro x hx
  obtain ⟨b, hb, rfl⟩ := List.mem_map.mp hx
  exact ⟨Nat.le_refl _, fun _ => List.mem_of_mem_filter hb⟩

theorem mapDepth_head {f : Nat → Nat} {fs : List Frame} (h : fs.head? ≠ some .pop) :
    (mapDepth f fs).head? ≠ some .pop := by
  cases fs with
  | nil => exact h
  | cons a fs =>
    cases a with
    | main => intro h'; cases h'
    | callback => intro h'; cases h'
    | pop => exact absurd rfl h

/-- `async_context_pop` leaves a context that is empty. -/
theorem AsyncInv.finishPop (h : AsyncInv s) {fs : List Frame} (hfs : s.frames = .pop :: fs)
    (hempty : s.bhs = []) :
    ∃ s', Async.finishPop s = some s' ∧ AsyncInv s' ∧ s'.frames.head? ≠ some .pop := by
  obtain ⟨old, cs, hcs⟩ := h.frames.ne_nil
  rw [bhs_eq hcs] at hempty
  have hframes := h.frames
  rw [hfs, hcs] at hframes
  cases hframes with
  | pop hdepth hframes =>
    obtain ⟨⟨c, rest, rfl⟩, hframes⟩ := hframes.leave hdepth
    have hmem : ∀ c' ∈ c :: rest, c' ∈ s.contexts := by
      intro c' hc'
      rw [hcs]
      exact List.mem_cons_of_mem old hc'
    have hleft : AsyncInv { s with contexts := c :: rest, frames := mapDepth (· - 1) fs } := by
      refine ⟨?_, fun c' hc' => h.home c' (hmem c' hc'), fun c' hc' => h.nodup c' (hmem c' hc'), ?_,
        fun c' hc' => h.nextContext c' (hmem c' hc'), h.fresh, h.scheduled, hframes, h.counts,
          h.ran,
        h.missed⟩
      · intro b
        rw [h.heap b, hcs]
        simp only [List.exists_mem_cons_iff, hempty, List.not_mem_nil, false_or]
      · have hids := h.ids
        rw [hcs] at hids
        exact (List.nodup_cons.mp hids).2
    -- the outer context gets a bottom half of its own, which is scheduled
    obtain ⟨s₁, hnew, hinv, hfr, hheap⟩ := hleft.new
    have hlive : s₁.live s.nextBh = true := by
      unfold AsyncState.live
      rw [show s₁.heap s.nextBh = _ from hheap]
      rfl
    obtain ⟨s₂, hsched, hinv₂, hfr₂⟩ := hinv.schedule hlive false
    refine ⟨s₂, ?_, hinv₂, ?_⟩
    · unfold Async.finishPop
      rw [hcs, hfs]
      show (qemuBhNew _).bind _ = _
      rw [hnew]
      exact hsched
    · rw [hfr₂, hfr]
      apply mapDepth_head
      intro hpop
      cases fs with
      | nil => cases hpop
      | cons a fs =>
        obtain rfl := Option.some.inj hpop
        exact absurd hdepth (Nat.lt_irrefl 0)

theorem sweep_frames (s : AsyncState) : (sweep s).frames = s.frames := by
  unfold sweep
  cases s.contexts <;> rfl

theorem AsyncInv.bhs_sweep (h : AsyncInv s) : (Async.sweep s).bhs = s.bhs.filter s.live := by
  obtain ⟨c, cs, hcs⟩ := h.frames.ne_nil
  rw [sweep_eq hcs, bhs_eq hcs]
  rfl

theorem AsyncInv.heap_sweep (h : AsyncInv s) (hb : s.live b = true) :
    (Async.sweep s).heap b = s.heap b := by
  obtain ⟨c, cs, hcs⟩ := h.frames.ne_nil
  rw [sweep_eq hcs]
  exact if_neg fun hd => by rw [hb] at hd; cases hd.2

/-- The end of a poll, or of the polls of `async_context_pop`. -/
theorem AsyncInv.pollReturn {s : AsyncState} (h : AsyncInv s) (houter : OuterLive s.frames s)
    {rest : List Nat} {due : List (Nat × Nat)} (hrest : PollRest s rest due) (ret : Bool)
    (hpop : s.frames.head? = some .pop → (∀ b ∈ rest, s.runnable b = false) →
      (ret = false ∨ ∀ b ∈ s.bhs, s.runnable b = false) → ∀ b ∈ s.bhs, s.live b = false) :
    ∃ s', Async.pollReturn (Async.pollFrom rest ret due s) = some s' ∧ AsyncInv s' ∧
      s'.frames.head? ≠ some .pop := by
  rcases h.pollFrom houter hrest ret with ⟨b, hpoll, hinv⟩ | ⟨hnone, hpoll, hinv⟩
  · rw [hpoll]
    exact ⟨_, rfl, hinv, by rintro ⟨⟩⟩
  · rw [hpoll]
    by_cases hfr : s.frames.head? = some .pop
    · obtain ⟨fs, hfs⟩ : ∃ fs, s.frames = .pop :: fs := by
        cases hf : s.frames with
        | nil => rw [hf] at hfr; cases hfr
        | cons a fs =>
          rw [hf] at hfr
          obtain rfl := Option.some.inj hfr
          exact ⟨fs, rfl⟩
      have hfs' : (Async.sweep s).frames = .pop :: fs := (sweep_frames s).trans hfs
      have hsub : ∀ b ∈ (Async.sweep s).bhs, b ∈ s.bhs ∧ s.live b = true := by
        rw [h.bhs_sweep]
        exact fun b hb => List.mem_filter.mp hb
      -- the list is empty when the loop ends
      have hleave : (ret = false ∨ ∀ b ∈ s.bhs, s.runnable b = false) →
        (Async.sweep s).bhs = [] := by
        intro hr
        refine List.eq_nil_iff_forall_not_mem.mpr fun b hb => ?_
        have hdead := hpop hfr hnone hr b (hsub b hb).1
        rw [(hsub b hb).2] at hdead
        cases hdead
      cases ret with
      | false =>
        obtain ⟨s', hs', hinv', hfr'⟩ := hinv.finishPop hfs' (hleave (Or.inl rfl))
        refine ⟨s', ?_, hinv', hfr'⟩
        unfold Async.pollReturn
        rw [hfs']
        exact hs'
      | true =>
        have houter' : OuterLive (Async.sweep s).frames (Async.sweep s) := by
          intro b _ hb
          unfold AsyncState.live
          rw [h.heap_sweep (hsub b hb).2]
          exact (hsub b hb).2
        -- the loop polls once more
        have hagain : ∀ t, pollBegin (Async.sweep s) = (t, none) →
            Async.pollReturn (Async.sweep s, some true) = some t := by
          intro t ht
          simp only [Async.pollReturn, hfs', ht, if_true]
        have hstop : ∀ t r, pollBegin (Async.sweep s) = (t, some r) →
            Async.pollReturn (Async.sweep s, some true) = Async.finishPop t := by
          intro t r ht
          simp only [Async.pollReturn, hfs', ht, if_true]
        rcases hinv.pollFrom houter' AsyncInv.pollRest_begin false with
          ⟨b, hpoll', hinv'⟩ | ⟨hnone', hpoll', hinv'⟩
        · exact ⟨_, hagain _ hpoll', hinv', by rintro ⟨⟩⟩
        · have hidle : ∀ b ∈ s.bhs, s.runnable b = false := by
            intro b hb
            by_contra hrun
            have hrun : s.runnable b = true := Bool.not_eq_false _ |>.mp hrun
            have hl := live_of_runnable hrun
            have hmem : b ∈ (Async.sweep s).bhs := by
              rw [h.bhs_sweep]
              exact List.mem_filter.mpr ⟨hb, hl⟩
            have hdead := hnone' b hmem
            unfold AsyncState.runnable at hdead hrun
            rw [h.heap_sweep hl, hrun] at hdead
            cases hdead
          have hempty : (Async.sweep (Async.sweep s)).bhs = [] := by
            rw [hinv.bhs_sweep, hleave (Or.inr hidle)]
            rfl
          obtain ⟨s', hs', hinv'', hfr'⟩ := hinv'.finishPop
            ((sweep_frames _).trans hfs') hempty
          exact ⟨s', (hstop _ _ hpoll').trans hs', hinv'', hfr'⟩
    · refine ⟨Async.sweep s, ?_, hinv, by rwa [sweep_frames]⟩
      unfold Async.pollReturn
      rw [show (Async.sweep s, some ret).1.frames = s.frames from sweep_frames s]
      split
      · rename_i hfs
        exact absurd (by rw [hfs]; rfl) hfr
      · rfl

/-! ### Steps -/

/-- A context is entered. -/
theorem AsyncInv.push (h : AsyncInv s) (hfr : s.frames.head? ≠ some .pop) :
    AsyncInv (asyncContextPush s) := by
  refine ⟨?_, ?_, ?_, ?_, ?_, h.fresh, h.scheduled, h.frames.push hfr _, h.counts, h.ran, h.missed⟩
  · intro b
    show (s.heap b).isSome ↔ ∃ c ∈ (⟨s.nextContext, []⟩ :: s.contexts : List AsyncContext),
      b ∈ c.bhs
    rw [h.heap b]
    simp only [List.exists_mem_cons_iff, List.not_mem_nil, false_or]
  · exact List.forall_mem_cons.mpr ⟨fun b hb => absurd hb (List.not_mem_nil), h.home⟩
  · exact List.forall_mem_cons.mpr ⟨List.nodup_nil, h.nodup⟩
  · refine List.nodup_cons.mpr ⟨fun hmem => ?_, h.ids⟩
    obtain ⟨c, hc, hid⟩ := List.mem_map.mp hmem
    have hlt := h.nextContext c hc
    have hid : c.id = s.nextContext := hid
    omega
  · exact List.forall_mem_cons.mpr ⟨Nat.lt_succ_self _,
      fun c hc => Nat.lt_succ_of_lt (h.nextContext c hc)⟩

theorem AsyncInv.withFrames (h : AsyncInv s) {fs : List Frame}
    (hfs : FramesOk s.Pend s.cnt fs s.contexts) : AsyncInv { s with frames := fs } :=
  ⟨h.heap, h.home, h.nodup, h.ids, h.nextContext, h.fresh, h.scheduled, hfs, h.counts, h.ran,
    h.missed⟩

/-- Between steps the caller is on top of the stack. -/
def AsyncSteady (s : AsyncState) : Prop := AsyncInv s ∧ s.frames.head? ≠ some .pop

/-- A good step does not fault and keeps the invariant. -/
theorem AsyncSteady.step (a : BhAction) (h : AsyncSteady s) (hposs : a.Possible s)
    (hgood : a.Good s) : ∃ s', a.exec s = some s' ∧ AsyncSteady s' := by
  obtain ⟨hinv, hfr⟩ := h
  cases a with
  | new =>
    obtain ⟨s', hs', hinv', hfr', -⟩ := hinv.new
    exact ⟨s', hs', hinv', hfr' ▸ hfr⟩
  | schedule b =>
    obtain ⟨s', hs', hinv', hfr'⟩ := hinv.schedule hposs false
    exact ⟨s', hs', hinv', hfr' ▸ hfr⟩
  | scheduleIdle b =>
    obtain ⟨s', hs', hinv', hfr'⟩ := hinv.schedule hposs true
    exact ⟨s', hs', hinv', hfr' ▸ hfr⟩
  | cancel b =>
    obtain ⟨s', hs', hinv', hfr'⟩ := hinv.unschedule hposs false
    exact ⟨s', hs', hinv', hfr' ▸ hfr⟩
  | delete b =>
    obtain ⟨s', hs', hinv', hfr'⟩ := hinv.unschedule hposs true
    exact ⟨s', hs', hinv', hfr' ▸ hfr⟩
  | poll =>
    obtain ⟨s', hs', hinv', hfr'⟩ := hinv.pollReturn hgood.1 AsyncInv.pollRest_begin false
      fun hp => absurd hp hfr
    exact ⟨s', hs', hinv', hfr'⟩
  | push => exact ⟨_, rfl, hinv.push hfr, mapDepth_head hfr⟩
  | pop =>
    obtain ⟨houter, hends⟩ := hgood
    -- what the pop leaves behind may only be dead
    have hends : (∀ b ∈ s.bhs, s.runnable b = false) → ∀ b ∈ s.bhs, s.live b = false := by
      intro hnone
      refine hends (List.all_eq_true.mpr fun b hb => ?_)
      rw [hnone b hb]
      rfl
    exact (hinv.withFrames (.pop hposs hinv.frames)).pollReturn houter AsyncInv.pollRest_begin false
      fun _ hnone _ => hends hnone
  | ret =>
    obtain ⟨hdepth, hlen⟩ := hposs
    obtain ⟨houter, hends⟩ := hgood
    have houter : OuterLive s.frames.tail s := houter
    have hframes := hinv.frames
    cases hfs : s.frames with
    | nil => rw [hfs] at hframes; cases hframes
    | cons frame fs =>
      rw [hfs] at hframes hdepth hlen houter hfr
      cases hframes with
      | main => exact absurd hlen (Nat.lt_irrefl 1)
      | pop => exact absurd rfl hfr
      | @callback depth b res due _ _ rest c hdrop hb hdue hframes =>
        obtain rfl : depth = 0 := hdepth
        have hcs : s.contexts = c :: rest := hdrop
        have hbhs := bhs_eq hcs
        obtain ⟨bh, hbh⟩ := Option.isSome_iff_exists.mp
          ((hinv.heap b).mpr ⟨c, hcs ▸ List.mem_cons_self .., hb⟩)
        -- the poll that was interrupted goes on behind `b`
        have hrest : PollRest { s with frames := fs } (after b s.bhs) due := by
          refine ⟨fun b' hb' => mem_of_mem_after hb', fun b' hb' => ?_, hbhs ▸ hdue⟩
          show after b' (after b s.bhs) = after b' s.bhs
          rw [hbhs] at hb' ⊢
          exact after_after (hinv.nodup c (hcs ▸ List.mem_cons_self ..)) hb'
        have hpop : fs.head? = some .pop → (∀ b' ∈ after b s.bhs, s.runnable b' = false) →
            (res = false ∨ ∀ b' ∈ s.bhs, s.runnable b' = false) →
            ∀ b' ∈ s.bhs, s.live b' = false := by
          intro hhead hnone hidle
          obtain ⟨fs', rfl⟩ : ∃ fs', fs = .pop :: fs' := by
            cases fs with
            | nil => cases hhead
            | cons frame fs' =>
              obtain rfl := Option.some.inj hhead
              exact ⟨fs', rfl⟩
          refine hends ?_
          unfold BhAction.EndsPop
          rw [hfs]
          refine Bool.and_eq_true_iff.mpr ⟨List.all_eq_true.mpr fun b' hb' => ?_, ?_⟩
          · rw [hnone b' hb']
            rfl
          · rcases hidle with rfl | hidle
            · rfl
            · refine Bool.or_eq_true_iff.mpr (Or.inr (List.all_eq_true.mpr fun b' hb' => ?_))
              rw [hidle b' hb']
              rfl
        obtain ⟨s', hs', hinv', hfr'⟩ :=
          (hinv.withFrames (hcs ▸ hframes)).pollReturn houter hrest res hpop
        refine ⟨s', ?_, hinv', hfr'⟩
        show pollResume s = some s'
        unfold pollResume
        rw [hfs]
        show (s.heap b).bind _ = _
        rw [hbh]
        exact hs'

/-! ### Runs -/

/-- What the users of bottom halves are promised.  One that is not deleted is in the list of its
    context, which is there to be polled; every scheduling is run once, taken off, or to come; a
    callback is run in its own context; a poll runs what was scheduled when it began. -/
structure AsyncState.Settled (s : AsyncState) : Prop where
  live : ∀ b, s.live b = true → ∃ c ∈ s.contexts, c.id = s.home b ∧ b ∈ c.bhs
  counts : ∀ b, (s.counts b).scheduled =
    (s.counts b).run + (s.counts b).dropped + ((s.heap b).any QemuBh.scheduled).toNat
  ran : ∀ p ∈ s.ran, s.home p.1 = p.2
  missed : s.missed = []

theorem AsyncInv.settled (h : AsyncInv s) : s.Settled := by
  refine ⟨?_, h.counts, fun p hp => (h.ran p hp).2, h.missed⟩
  intro b hb
  have hsome : (s.heap b).isSome := by
    unfold AsyncState.live at hb
    cases hbh : s.heap b with
    | none => rw [hbh] at hb; cases hb
    | some bh => rfl
  obtain ⟨c, hc, hmem⟩ := (h.heap b).mp hsome
  exact ⟨c, hc, (h.home c hc b hmem).symm, hmem⟩

theorem AsyncSteady.start : AsyncSteady AsyncState.start := by
  refine ⟨⟨?_, ?_, ?_, ?_, ?_, fun _ _ => rfl, ?_, .main rfl, fun _ => rfl, ?_, rfl⟩, by rintro ⟨⟩⟩
  · intro b
    simp [AsyncState.start]
  · simp [AsyncState.start]
  · simp [AsyncState.start]
  · simp [AsyncState.start]
  · simp [AsyncState.start]
  · intro b bh hb
    cases hb
  · intro p hp
    cases hp

/-- **Bottom halves.**  In every run whose steps are good nothing is used that was freed, and every
    scheduled bottom half is run as its users rely on. -/
theorem asyncRun_settled (as : List BhAction)
    (h : StepsMeet BhAction.exec (fun s a => a.Possible s ∧ a.Good s) AsyncState.start as) :
    ∃ s, runFrom BhAction.exec AsyncState.start as = some s ∧ s.Settled := by
  obtain ⟨s, hrun, hinv, -⟩ := runFrom_invariant
    (fun _ a hs hP => AsyncSteady.step a hs hP.1 hP.2) AsyncSteady.start h
  exact ⟨s, hrun, hinv.settled⟩

/-- A callback that makes and runs another bottom half in a context of its own. -/
theorem asyncRun_settled_nested :
    ∃ s, runFrom BhAction.exec AsyncState.start
        [.new, .schedule 0, .poll, .push, .new, .schedule 1, .poll, .delete 1, .ret, .pop, .ret,
          .poll, .delete 2, .ret] = some s ∧ s.Settled :=
  asyncRun_settled _ (by decide +kernel)

/-- Runs that do not go well.  A callback deletes its bottom half and polls: the outer poll reads
    `next` of what the inner one has freed.  A bottom half outlives the context it was made in: it
    is scheduled but no poll runs it. -/
theorem asyncRun_faults :
    (StepsMeet BhAction.exec (fun s a => a.Possible s) AsyncState.start
        [.new, .schedule 0, .poll, .delete 0, .poll, .ret] ∧
      (runFrom BhAction.exec AsyncState.start
        [.new, .schedule 0, .poll, .delete 0, .poll, .ret]).isNone = true) ∧
    StepsMeet BhAction.exec (fun s a => a.Possible s) AsyncState.start
        [.push, .new, .pop, .schedule 0, .poll, .delete 1, .ret, .poll] ∧
      (runFrom BhAction.exec AsyncState.start
        [.push, .new, .pop, .schedule 0, .poll, .delete 1, .ret, .poll]).map
        (fun s => (s.live 0, s.runnable 0, s.contexts, s.ran)) =
        some (true, true, [⟨0, []⟩], [(1, 0)]) := by
  refine ⟨⟨?_, ?_⟩, ?_, ?_⟩ <;> decide +kernel

end Qemu.Async
