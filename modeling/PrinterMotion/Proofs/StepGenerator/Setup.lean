/-
Setting a generator up before the first motion. Steppers are added, and their models are changed, in any
order. However a scan window comes and goes, it stays recorded as often as there are steppers with it, so
the flush delay covers the windows of all steppers.
-/
import PrinterMotion.Proofs.Comparison
import PrinterMotion.Proofs.Elementwise
import PrinterMotion.Proofs.Exact
import PrinterMotion.Proofs.StepGenerator.Fitting

namespace PrinterMotion

variable {F : Type} [Exact F]

namespace StepGenerator

/-! ## Recorded windows -/

theorem eraseFirst_eq (t : F) (times : List F) : replaceScanTime.eraseFirst t times = times.erase t := by
  induction times with
  | nil => rfl
  | cons u rest ih => rw [replaceScanTime.eraseFirst, List.erase_cons, ih]

theorem count_replaceScanTime (g : StepGenerator F) (new old : F) {w : F} (hw : 0 < w) :
    (g.replaceScanTime new old).scanTimes.count w =
      g.scanTimes.count w - (if old = w then 1 else 0) + (if new = w then 1 else 0) := by
  have hold : (if old != (0 : F) then g.scanTimes.erase old else g.scanTimes).count w =
      g.scanTimes.count w - (if old = w then 1 else 0) := by
    by_cases ho : old = 0
    · rw [ho, bne_self_eq_false, if_neg Bool.false_ne_true, if_neg hw.ne, Nat.sub_zero]
    · rw [if_pos (bne_iff_ne.2 ho), List.count_erase]
      simp
  simp only [replaceScanTime, Scalar.zero_literal, eraseFirst_eq]
  by_cases hn : new = 0
  · rw [hn, bne_self_eq_false, if_neg Bool.false_ne_true, if_neg hw.ne, Nat.add_zero, hold]
  · rw [if_pos (bne_iff_ne.2 hn), List.count_append, hold, List.count_singleton]
    simp

/-- Each positive window is recorded as often as steppers were last known to need it. -/
structure Booked (g : StepGenerator F) : Prop where
  counted : ∀ w, 0 < w → g.scanTimes.count w = (g.members.map (·.window)).count w
  delay : g.flushDelay = g.scanTimes.foldl Scalar.max minFlushDelay

theorem le_foldl_max (l : List F) (a : F) : a ≤ l.foldl Scalar.max a ∧ ∀ w ∈ l, w ≤ l.foldl Scalar.max a := by
  have hle := (Scalar.foldl_max_spec l a (Scalar.isNumber_eq a) fun b _ => Scalar.isNumber_eq b).2
  exact ⟨hle a List.mem_cons_self, fun w hw => hle w (List.mem_cons_of_mem a hw)⟩

variable {g : StepGenerator F}

theorem delay_pos_of_recorded (h : g.flushDelay = g.scanTimes.foldl Scalar.max minFlushDelay) : 0 < g.flushDelay := by
  have hmin : (0 : F) < minFlushDelay := by
    unfold minFlushDelay
    norm_num
  rw [h]
  exact hmin.trans_le (le_foldl_max _ _).1

theorem Booked.delay_pos (h : g.Booked) : 0 < g.flushDelay := delay_pos_of_recorded h.delay

/-- The flush delay covers every window. -/
theorem Booked.window_le (h : g.Booked) {m : Member F} (hm : m ∈ g.members) : m.window ≤ g.flushDelay := by
  rcases le_or_gt m.window 0 with hw | hw
  · exact hw.trans h.delay_pos.le
  · rw [h.delay]
    refine (le_foldl_max _ _).2 _ (List.count_pos_iff.1 ?_)
    rw [h.counted _ hw]
    exact List.count_pos_iff.2 (List.mem_map_of_mem hm)

/-- Replacing the windows that have changed, where `n` counts the windows of steppers in front of `l`. -/
theorem foldl_replaceScanTime : ∀ (l : List (Member F)) (g : StepGenerator F) (n : F → Nat),
    g.flushDelay = g.scanTimes.foldl Scalar.max minFlushDelay →
    (∀ w, 0 < w → g.scanTimes.count w = n w + (l.map (·.window)).count w) →
      ∃ scanTimes flushDelay, (l.filterMap fun m =>
          if m.stepper.model.scanWindow != m.window then some (m.stepper.model.scanWindow, m.window)
          else none).foldl (fun g (new, old) => g.replaceScanTime new old) g = { g with scanTimes, flushDelay } ∧
        flushDelay = scanTimes.foldl Scalar.max minFlushDelay ∧
        ∀ w, 0 < w → scanTimes.count w = n w + (l.map (·.stepper.model.scanWindow)).count w
  | [], g, n, hdelay, hcount => ⟨g.scanTimes, g.flushDelay, rfl, hdelay, hcount⟩
  | m :: rest, g, n, hdelay, hcount => by
    -- From here on the window of `m` is counted by `n`.
    by_cases hsame : m.stepper.model.scanWindow = m.window
    · obtain ⟨scanTimes, flushDelay, heq, hdelay', hcount'⟩ := foldl_replaceScanTime rest g
        (fun w => n w + if m.window = w then 1 else 0) hdelay fun w hw => by
          rw [hcount w hw, List.map_cons, List.count_cons]
          simp only [beq_iff_eq]
          omega
      refine ⟨scanTimes, flushDelay, ?_, hdelay', fun w hw => ?_⟩
      · rw [List.filterMap_cons_none (by simp [hsame]), heq]
      · rw [hcount' w hw, List.map_cons, List.count_cons, hsame]
        simp only [beq_iff_eq]
        omega
    · obtain ⟨scanTimes, flushDelay, heq, hdelay', hcount'⟩ := foldl_replaceScanTime rest
        (g.replaceScanTime m.stepper.model.scanWindow m.window)
        (fun w => n w + if m.stepper.model.scanWindow = w then 1 else 0) rfl fun w hw => by
          rw [count_replaceScanTime g _ _ hw, hcount w hw, List.map_cons, List.count_cons]
          simp only [beq_iff_eq]
          split <;> omega
      refine ⟨scanTimes, flushDelay, ?_, hdelay', fun w hw => ?_⟩
      · rw [List.filterMap_cons_some (by rw [if_pos (bne_iff_ne.2 hsame)]), List.foldl_cons, heq]
        rfl
      · rw [hcount' w hw, List.map_cons, List.count_cons]
        simp only [beq_iff_eq]
        omega

/-- Refreshing brings the windows up to date and records them. -/
theorem Booked.refreshWindows (h : g.Booked) : ∃ scanTimes flushDelay,
    g.refreshWindows = { g with
      members := g.members.map fun m => { m with window := m.stepper.model.scanWindow }, scanTimes, flushDelay } ∧
    g.refreshWindows.Booked := by
  obtain ⟨scanTimes, flushDelay, heq, hdelay, hcount⟩ := foldl_replaceScanTime g.members
    { g with members := g.members.map fun m => { m with window := m.stepper.model.scanWindow } } (fun _ => 0)
    h.delay fun w hw => by rw [Nat.zero_add]; exact h.counted w hw
  have heq' : g.refreshWindows = { g with
      members := g.members.map fun m => { m with window := m.stepper.model.scanWindow }, scanTimes, flushDelay } := heq
  refine ⟨scanTimes, flushDelay, heq', ?_⟩
  rw [heq']
  refine ⟨fun w hw => ?_, hdelay⟩
  rw [List.map_map]
  exact (hcount w hw).trans (Nat.zero_add _)

/-! ## Set-up -/

/-- A new generator after set-up calls. -/
def prepared (setup : List (Setup F)) : StepGenerator F := setup.foldl prepare empty

/-- A generator without motion, whose windows are up to date and whose queues are known. -/
structure Ready (g : StepGenerator F) : Prop where
  booked : g.Booked
  current : ∀ m ∈ g.members, m.window = m.stepper.model.scanWindow
  served : ∀ m ∈ g.members, ∃ ref ∈ g.servedQueues, m.stepper.queue = some ref
  lastFlush : g.lastFlush = 0
  idle : ∀ ref, (g.queue ref).active = #[]

theorem ready_empty : (empty : StepGenerator F).Ready where
  booked := ⟨fun _ _ => rfl, rfl⟩
  current _ hm := by cases hm
  served _ hm := by cases hm
  lastFlush := Scalar.zero_literal
  idle ref := by cases ref <;> rfl

/-- Changing models leaves a generator ready once the windows are refreshed. -/
theorem Ready.refitted (h : g.Ready) {members : List (Member F)} (hr : List.Forall₂ Refitted g.members members) :
    ({ g with members } : StepGenerator F).refreshWindows.Ready := by
  have hbooked : ({ g with members } : StepGenerator F).Booked :=
    ⟨fun w hw => by rw [windows_of_refitted hr]; exact h.booked.counted w hw, h.booked.delay⟩
  obtain ⟨scanTimes, flushDelay, heq, hnew⟩ := hbooked.refreshWindows
  rw [heq] at hnew ⊢
  refine ⟨hnew, fun m hm => ?_, fun m hm => ?_, h.lastFlush, h.idle⟩
  · obtain ⟨m', -, rfl⟩ := List.mem_map.1 hm
    rfl
  · obtain ⟨m', hm', rfl⟩ := List.mem_map.1 hm
    obtain ⟨old, hold, model, rfl⟩ := exists_of_forall₂ hr m' hm'
    exact h.served old hold

theorem Ready.fitted {g' : StepGenerator F} (h : g.Ready) (hf : Fitted g g') : g'.Ready := by
  cases hf with
  | same => exact h
  | @refreshed toolhead mode _ models =>
    have hmode : ({ g with activeToolhead := toolhead, activeMode := mode } : StepGenerator F).Ready :=
      ⟨⟨h.booked.counted, h.booked.delay⟩, h.current, h.served, h.lastFlush, h.idle⟩
    exact hmode.refitted models

/-- The window of a stepper that is added is recorded if it is positive. -/
theorem Ready.record (h : g.Ready) (window : F) : ∃ scanTimes flushDelay,
    (if (0.0 : F) < window then g.replaceScanTime window 0.0 else g) = { g with scanTimes, flushDelay } ∧
      (∀ w, 0 < w → scanTimes.count w = g.scanTimes.count w + if window = w then 1 else 0) ∧
      flushDelay = scanTimes.foldl Scalar.max minFlushDelay := by
  split
  · refine ⟨(g.replaceScanTime window 0.0).scanTimes, _, rfl, fun w hw => ?_, rfl⟩
    rw [count_replaceScanTime g _ _ hw, Scalar.zero_literal, if_neg hw.ne, Nat.sub_zero]
  · rename_i hn
    rw [Scalar.zero_literal] at hn
    refine ⟨g.scanTimes, g.flushDelay, rfl, fun w hw => ?_, h.booked.delay⟩
    rw [if_neg fun heq => hn (by rwa [heq]), Nat.add_zero]

/-- What adding a stepper does. -/
theorem Ready.addStepper_eq (h : g.Ready) (s : Stepper F) : ∃ served scanTimes flushDelay,
    g.addStepper s = { g with
      served, scanTimes, flushDelay
      members := g.members ++ [⟨{ s with queue := some (s.queue.getD .toolhead) }, s.model.scanWindow⟩] } ∧
    (∀ w, 0 < w → scanTimes.count w = g.scanTimes.count w + if s.model.scanWindow = w then 1 else 0) ∧
    flushDelay = scanTimes.foldl Scalar.max minFlushDelay := by
  obtain ⟨scanTimes, flushDelay, hrecord, hcount, hdelay⟩ := h.record s.model.scanWindow
  exact ⟨_, scanTimes, flushDelay, by simp only [StepGenerator.addStepper, hrecord]; rfl, hcount, hdelay⟩

theorem Ready.addStepper (h : g.Ready) (s : Stepper F) : (g.addStepper s).Ready := by
  have hserved := served_addStepper s h.served
  obtain ⟨served, scanTimes, flushDelay, hadd, hcount, hdelay⟩ := h.addStepper_eq s
  rw [hadd] at hserved ⊢
  refine ⟨⟨fun w hw => ?_, hdelay⟩, fun m hm => ?_, hserved, h.lastFlush, h.idle⟩
  · rw [hcount w hw, h.booked.counted w hw, List.map_append, List.count_append, List.map_singleton,
      List.count_singleton]
    simp
  · rcases List.mem_append.1 hm with hm | hm
    · exact h.current m hm
    · rw [List.mem_singleton.1 hm]

/-- Every set-up call leaves a generator ready. -/
theorem Ready.prepare (h : g.Ready) (c : Setup F) : (g.prepare c).Ready := by
  rcases g.prepare_cases c with ⟨s, rfl⟩ | ⟨-, hf⟩
  · exact h.addStepper s
  · exact h.fitted hf

theorem ready_prepared (setup : List (Setup F)) : (prepared setup).Ready := by
  have hrun : ∀ (l : List (Setup F)) (g : StepGenerator F), g.Ready → (l.foldl StepGenerator.prepare g).Ready := by
    intro l
    induction l with
    | nil => exact fun _ hg => hg
    | cons c rest ih => exact fun _ hg => ih _ (hg.prepare c)
  exact hrun setup empty ready_empty

end StepGenerator

end PrinterMotion
