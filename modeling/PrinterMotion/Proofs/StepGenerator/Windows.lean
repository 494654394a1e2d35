/-
The books on scan windows. Whatever is done to a generator, each window that is not zero is recorded once
for every stepper that was last known to need it, and the flush delay is the largest of them. Nothing here
rests on exact arithmetic.
-/
import PrinterMotion.Proofs.Comparison
import PrinterMotion.Proofs.StepGenerator.Operations

namespace PrinterMotion

variable {α : Type} [Scalar α]

/-! ## Windows of models -/

section Models

variable [Scalar.Lawful α]

theorem Model.Built.zero_le_halfSmooth {pa : PressureAdvance α} (h : (extruder pa).Built) :
    (0.0 : α) ≤ pa.halfSmooth := by
  rcases h with rfl | ⟨advance, smoothTime, hpa⟩
  · exact Scalar.Lawful.le_self Scalar.isNumber_zero
  · unfold PressureAdvance.of? at hpa
    split at hpa <;> cases hpa
    rename_i hle
    exact Scalar.Lawful.half_nonneg hle.2

theorem Shaping.zero_le_windows (s : Shaping α) (innerAxes : AxisSet) :
    (0.0 : α) ≤ (s.windows innerAxes).1 ∧ (0.0 : α) ≤ (s.windows innerAxes).2 := by
  have hzero : (0.0 : α) ≤ 0.0 := Scalar.Lawful.le_self Scalar.isNumber_zero
  have hmax := fun {a : α} (h : (0.0 : α) ≤ a) => Scalar.le_max_of_le h
  simp only [Shaping.windows]
  split <;> split <;> simp only [hmax, hzero, and_self]

theorem Model.Built.zero_le_windows {m : Model α} (h : m.Built) : (0.0 : α) ≤ m.before ∧ (0.0 : α) ≤ m.after := by
  have hzero : (0.0 : α) ≤ 0.0 := Scalar.Lawful.le_self Scalar.isNumber_zero
  induction m with
  | extruder pa => exact ⟨h.zero_le_halfSmooth, h.zero_le_halfSmooth⟩
  | dualCarriage c inner ih => exact ih h
  | inputShaper s inner => exact s.zero_le_windows inner.axes
  | _ => exact ⟨hzero, hzero⟩

theorem Model.Built.zero_le_scanWindow {m : Model α} (h : m.Built) : (0.0 : α) ≤ m.scanWindow :=
  Scalar.le_max_of_le h.zero_le_windows.1 m.after

end Models

namespace StepGenerator

/-- The extruders of all models that an operation brings have settings that were accepted for them. -/
def Operation.Built : Operation α → Prop
  | prepare (.addStepper s) => s.model.Built
  | remodel _ model => model.Built
  | _ => True

/-- Whether models were exchanged since the last flush, after an operation. -/
def Operation.staleAfter (before : Bool) : Operation α → Bool
  | call (.flush _) => false
  | remodel .. => true
  | _ => before

/-- The windows that the models need now. -/
def windows (g : StepGenerator α) : List α := g.members.map fun m => m.stepper.model.scanWindow

/-- Every window that is not zero is recorded once, and the flush delay is the largest. -/
structure WindowsRecorded (g : StepGenerator α) : Prop where
  recorded : g.scanTimes.Perm (g.windows.filter (· != (0.0 : α)))
  delay_mem : g.flushDelay ∈ minFlushDelay :: g.windows
  le_delay : ∀ w ∈ minFlushDelay :: g.windows, w ≤ g.flushDelay

/-! ## Times on the record -/

/-- The times that are not zero. -/
def nonzero (times : List α) : List α := times.filter (· != (0.0 : α))

theorem nonzero_append (l l' : List α) : nonzero (l ++ l') = nonzero l ++ nonzero l' := List.filter_append ..

theorem nonzero_cons_of_beq {a : α} (h : (a == (0.0 : α)) = true) (l : List α) : nonzero (a :: l) = nonzero l :=
  List.filter_cons_of_neg (by simp [bne, h])

theorem nonzero_cons_of_bne {a : α} (h : (a == (0.0 : α)) = false) (l : List α) : nonzero (a :: l) = a :: nonzero l :=
  List.filter_cons_of_pos (by simp [bne, h])

theorem cons_eraseFirst {t : α} (ht : Scalar.isNumber t = true) (heq : ∀ u, (u == t) = true → u = t) :
    ∀ {times : List α}, t ∈ times → (t :: replaceScanTime.eraseFirst t times).Perm times
  | u :: rest, hmem => by
    rw [replaceScanTime.eraseFirst]
    by_cases hu : (u == t) = true
    · rw [if_pos hu, heq u hu]
    · rw [if_neg hu]
      have hrest : t ∈ rest := by
        rcases List.mem_cons.1 hmem with rfl | hrest
        · exact absurd ht hu
        · exact hrest
      exact (List.Perm.swap u t _).trans ((cons_eraseFirst ht heq hrest).cons u)

/-! ## The books -/

/-- The books are kept. Unless they are stale, the windows on them are those of the models. -/
structure BooksKept (stale : Bool) (g : StepGenerator α) : Prop where
  recorded : g.scanTimes.Perm (nonzero (g.books.map Prod.fst))
  delay : g.flushDelay = g.scanTimes.foldl Scalar.max minFlushDelay
  nonneg : ∀ b ∈ g.books, (0.0 : α) ≤ b.1
  built : ∀ b ∈ g.books, b.2.Built
  current : stale = false → ∀ b ∈ g.books, b.1 = b.2.scanWindow

variable {g : StepGenerator α} {stale : Bool}

theorem BooksKept.of_current (h : g.BooksKept false) : g.BooksKept stale :=
  ⟨h.recorded, h.delay, h.nonneg, h.built, fun _ => h.current rfl⟩

theorem SameBooks.kept {g' : StepGenerator α} (hs : SameBooks g g') (h : g.BooksKept stale) : g'.BooksKept stale where
  recorded := by rw [hs.scanTimes, hs.books]; exact h.recorded
  delay := by rw [hs.flushDelay, hs.scanTimes]; exact h.delay
  nonneg := hs.books ▸ h.nonneg
  built := hs.books ▸ h.built
  current := hs.books ▸ h.current

theorem BooksKept.built_member (h : g.BooksKept stale) {m : Member α} (hm : m ∈ g.members) : m.stepper.model.Built :=
  h.built _ (List.mem_map_of_mem (f := fun m : Member α => (m.window, m.stepper.model)) hm)

theorem kept_attached (toolhead : Queue α) (extras : List (String × Queue α)) :
    (attached toolhead extras).BooksKept false where
  recorded := .nil
  delay := rfl
  nonneg _ hb := by cases hb
  built _ hb := by cases hb
  current _ _ hb := by cases hb

/-- Other models leave the windows on the books. -/
theorem BooksKept.refitted (h : g.BooksKept stale) {members : List (Member α)}
    (hr : List.Forall₂ Refitted g.members members) (hbuilt : ∀ m ∈ members, m.stepper.model.Built) :
    ({ g with members } : StepGenerator α).BooksKept true := by
  have hwindows : ({ g with members } : StepGenerator α).books.map Prod.fst = g.books.map Prod.fst := by
    simp only [books, List.map_map]
    exact windows_of_refitted hr
  refine ⟨hwindows ▸ h.recorded, h.delay, fun b hb => ?_, fun b hb => ?_, fun hf => by cases hf⟩
  · have hfst : b.1 ∈ g.books.map Prod.fst := hwindows ▸ List.mem_map_of_mem hb
    obtain ⟨b', hb', heq⟩ := List.mem_map.1 hfst
    exact heq ▸ h.nonneg b' hb'
  · obtain ⟨m, hm, rfl⟩ := List.mem_map.1 hb
    exact hbuilt m hm

/-! ## Refreshing -/

variable [Scalar.Lawful α]

/-- Equal times are not told apart: zeros are left out. -/
theorem nonzero_cons_congr {a b : α} (h : (a == b) = true) (l : List α) : nonzero (a :: l) = nonzero (b :: l) := by
  have hzero := Scalar.beq_zero_congr h
  by_cases ha : (a == (0.0 : α)) = true
  · rw [nonzero_cons_of_beq ha, nonzero_cons_of_beq (hzero ▸ ha)]
  · rw [Scalar.Lawful.eq_of_beq h (Bool.eq_false_of_not_eq_true ha)]

/-- A time takes the place of another one on the record. -/
theorem replaceScanTime_perm {new old : α} (hold : Scalar.isNumber old = true) {l l' : List α}
    (h : g.scanTimes.Perm (nonzero (l ++ old :: l'))) :
    (g.replaceScanTime new old).scanTimes.Perm (nonzero (l ++ new :: l')) := by
  have hmid : ∀ a : α, (nonzero (l ++ a :: l')).Perm (nonzero (a :: (l ++ l'))) := fun a =>
    List.perm_middle.filter _
  have herased : (if old != (0.0 : α) then replaceScanTime.eraseFirst old g.scanTimes else g.scanTimes).Perm
      (nonzero (l ++ l')) := by
    have h := h.trans (hmid old)
    by_cases ho : (old == (0.0 : α)) = true
    · rw [if_neg (by simp [bne, ho])]
      rwa [nonzero_cons_of_beq ho] at h
    · have ho := Bool.eq_false_of_not_eq_true ho
      rw [if_pos (by simp [bne, ho])]
      rw [nonzero_cons_of_bne ho] at h
      have heq : ∀ u, (u == old) = true → u = old := fun u hu =>
        Scalar.Lawful.eq_of_beq hu ((Scalar.beq_zero_congr hu).trans ho)
      exact ((cons_eraseFirst hold heq (h.mem_iff.2 List.mem_cons_self)).trans h).cons_inv
  refine List.Perm.trans ?_ (hmid new).symm
  unfold replaceScanTime
  dsimp only
  by_cases hn : (new == (0.0 : α)) = true
  · rw [if_neg (by simp [bne, hn]), nonzero_cons_of_beq hn]
    exact herased
  · have hn := Bool.eq_false_of_not_eq_true hn
    rw [if_pos (by simp [bne, hn]), nonzero_cons_of_bne hn]
    exact (List.perm_append_singleton new _).trans (herased.cons new)

/-- Replacing the windows that have changed. The steppers in front of `l` have the windows `front`. -/
theorem foldl_replaceScanTime_perm : ∀ (l : List (Member α)) (g : StepGenerator α) (front : List α),
    g.flushDelay = g.scanTimes.foldl Scalar.max minFlushDelay →
    (∀ m ∈ l, Scalar.isNumber m.window = true) →
    g.scanTimes.Perm (nonzero (front ++ l.map (·.window))) →
      let g' := (l.filterMap fun m =>
        if m.stepper.model.scanWindow != m.window then some (m.stepper.model.scanWindow, m.window)
        else none).foldl (fun g (new, old) => g.replaceScanTime new old) g
      g'.flushDelay = g'.scanTimes.foldl Scalar.max minFlushDelay ∧
        g'.scanTimes.Perm (nonzero (front ++ l.map (·.stepper.model.scanWindow)))
  | [], _, _, hdelay, _, hrec => ⟨hdelay, hrec⟩
  | m :: rest, g, front, hdelay, hnum, hrec => by
    have hrest : ∀ m ∈ rest, Scalar.isNumber m.window = true := fun m hm => hnum m (List.mem_cons_of_mem _ hm)
    simp only [List.map_cons] at hrec ⊢
    -- From here on the new window of `m` stands with those in front.
    rw [List.append_cons]
    by_cases hsame : (m.stepper.model.scanWindow == m.window) = true
    · rw [List.filterMap_cons_none (by simp [bne, hsame])]
      refine foldl_replaceScanTime_perm rest g _ hdelay hrest ?_
      rwa [← List.append_cons, nonzero_append, nonzero_cons_congr hsame, ← nonzero_append]
    · rw [List.filterMap_cons_some (by rw [if_pos (by simp [bne, hsame])]), List.foldl_cons]
      refine foldl_replaceScanTime_perm rest _ _ rfl hrest ?_
      rw [← List.append_cons]
      exact replaceScanTime_perm (hnum m List.mem_cons_self) hrec

/-- A refresh brings the books up to date. -/
theorem BooksKept.refresh (h : g.BooksKept stale) : g.refreshWindows.BooksKept false := by
  have hwindow : ∀ m ∈ g.members, Scalar.isNumber m.window = true := fun m hm =>
    (Scalar.Lawful.isNumber_of_le (h.nonneg _ (List.mem_map_of_mem hm))).2
  have hrec := h.recorded
  rw [books, List.map_map] at hrec
  obtain ⟨hdelay, hnew⟩ := foldl_replaceScanTime_perm g.members
    { g with members := g.members.map fun m => { m with window := m.stepper.model.scanWindow } } [] h.delay hwindow hrec
  have hbooks : g.refreshWindows.books = g.members.map fun m => (m.stepper.model.scanWindow, m.stepper.model) := by
    rw [books, refreshWindows_members, List.map_map]
    rfl
  refine ⟨?_, hdelay, fun b hb => ?_, fun b hb => ?_, fun _ b hb => ?_⟩
  · rw [hbooks, List.map_map]
    exact hnew
  all_goals
    rw [hbooks] at hb
    obtain ⟨m, hm, rfl⟩ := List.mem_map.1 hb
  · exact (h.built_member hm).zero_le_scanWindow
  · exact h.built_member hm
  · rfl

/-! ## Operations -/

theorem BooksKept.fitted {g' : StepGenerator α} (h : g.BooksKept stale) (hf : Fitted g g') : g'.BooksKept stale := by
  cases hf with
  | same => exact h
  | @refreshed toolhead mode _ models built =>
    have hmode : SameBooks g { g with activeToolhead := toolhead, activeMode := mode } := ⟨rfl, rfl, rfl⟩
    exact ((hmode.kept h).refitted models (built fun _ hm => h.built_member hm)).refresh.of_current

/-- A stepper comes onto the books with its window, which is recorded unless it is zero. -/
theorem BooksKept.addStepper (h : g.BooksKept stale) {s : Stepper α} (hs : s.model.Built) :
    (g.addStepper s).BooksKept stale := by
  have hwindow : (0.0 : α) ≤ s.model.scanWindow := hs.zero_le_scanWindow
  obtain ⟨g', hg', hrec, hdelay, hmembers⟩ : ∃ g' : StepGenerator α,
      (if (0.0 : α) < s.model.scanWindow then g.replaceScanTime s.model.scanWindow 0.0 else g) = g' ∧
        g'.scanTimes.Perm (nonzero (g.books.map Prod.fst ++ [s.model.scanWindow])) ∧
        g'.flushDelay = g'.scanTimes.foldl Scalar.max minFlushDelay ∧ g'.members = g.members := by
    refine ⟨_, rfl, ?_⟩
    by_cases hpos : (0.0 : α) < s.model.scanWindow
    · rw [if_pos hpos]
      refine ⟨replaceScanTime_perm Scalar.isNumber_zero ?_, rfl, rfl⟩
      rw [nonzero_append, nonzero_cons_of_beq Scalar.isNumber_zero, ← nonzero_append, List.append_nil]
      exact h.recorded
    · have hzero : (s.model.scanWindow == (0.0 : α)) = true := by
        by_contra hne
        refine hpos (Scalar.Lawful.lt_of_le hwindow (Bool.eq_false_of_not_eq_true fun heq => hne ?_))
        exact Scalar.Lawful.beq_symm heq
      rw [if_neg hpos, nonzero_append, nonzero_cons_of_beq hzero, ← nonzero_append, List.append_nil]
      exact ⟨h.recorded, h.delay, rfl⟩
  have hadd : ∃ served ref, g.addStepper s = { g' with
      served, members := g.members ++ [⟨{ s with queue := some ref }, s.model.scanWindow⟩] } :=
    ⟨_, _, by simp only [StepGenerator.addStepper, hg', hmembers]; rfl⟩
  obtain ⟨served, ref, hadd⟩ := hadd
  have hbooks : (g.addStepper s).books = g.books ++ [(s.model.scanWindow, s.model)] := by
    rw [hadd, books, List.map_append]
    rfl
  have hmem : ∀ b ∈ (g.addStepper s).books, b ∈ g.books ∨ b = (s.model.scanWindow, s.model) := by
    intro b hb
    rw [hbooks] at hb
    exact (List.mem_append.1 hb).imp_right List.mem_singleton.1
  refine ⟨?_, ?_, fun b hb => ?_, fun b hb => ?_, fun hf b hb => ?_⟩
  · rw [hbooks, List.map_append, hadd]
    exact hrec
  · rw [hadd]
    exact hdelay
  · rcases hmem b hb with hb | rfl
    · exact h.nonneg b hb
    · exact hwindow
  · rcases hmem b hb with hb | rfl
    · exact h.built b hb
    · exact hs
  · rcases hmem b hb with hb | rfl
    · exact h.current hf b hb
    · rfl

theorem BooksKept.operate (h : g.BooksKept stale) {op : Operation α} (hnote : op.isNote = false) (hop : op.Built) :
    (g.operate op).BooksKept (op.staleAfter stale) := by
  generalize hg : g.operate op = g'
  cases hg ▸ g.operated_operate op with
  | added s => exact h.addStepper hop
  | fitted _ hfitted => exact h.fitted hfitted
  | @queued c hflush =>
    have hsame := (g.sameBut_replay c).sameBooks.kept h
    cases c with
    | flush time => cases hflush
    | _ => exact hsame
  | flushed time => exact (sameBooks_flush g time).kept h.refresh
  | remodelled models built => exact h.refitted models (built hop fun _ hm => h.built_member hm)
  | noted => cases hnote

theorem BooksKept.operated (h : g.BooksKept stale) {ops : List (Operation α)} (hnote : ∀ op ∈ ops, op.isNote = false)
    (hbuilt : ∀ op ∈ ops, op.Built) : (g.operated ops).BooksKept (ops.foldl Operation.staleAfter stale) := by
  induction ops generalizing g stale with
  | nil => exact h
  | cons op rest ih =>
    rw [List.forall_mem_cons] at hnote hbuilt
    exact ih (h.operate hnote.1 hbuilt.1) hnote.2 hbuilt.2

theorem BooksKept.windowsRecorded (h : g.BooksKept false) : g.WindowsRecorded := by
  have hwindows : g.books.map Prod.fst = g.windows := by
    rw [windows, books, List.map_map]
    exact List.map_congr_left fun m hm => h.current rfl _ (List.mem_map_of_mem hm)
  have hrec : g.scanTimes.Perm (nonzero g.windows) := hwindows ▸ h.recorded
  have hnonneg : ∀ w ∈ g.windows, (0.0 : α) ≤ w := by
    intro w hw
    rw [← hwindows] at hw
    obtain ⟨b, hb, rfl⟩ := List.mem_map.1 hw
    exact h.nonneg b hb
  have hmin : (0.0 : α) ≤ minFlushDelay := Scalar.Lawful.zero_le_milli
  obtain ⟨hmem, hle⟩ := Scalar.foldl_max_spec g.scanTimes minFlushDelay (Scalar.Lawful.isNumber_of_le hmin).2
    fun w hw => (Scalar.Lawful.isNumber_of_le (hnonneg w (List.mem_filter.1 (hrec.mem_iff.1 hw)).1)).2
  rw [← h.delay] at hmem hle
  have hdelay := hle _ List.mem_cons_self
  refine ⟨hrec, ?_, fun w hw => ?_⟩
  · rcases List.mem_cons.1 hmem with heq | hmem
    · exact heq ▸ List.mem_cons_self
    · exact List.mem_cons_of_mem _ (List.mem_filter.1 (hrec.mem_iff.1 hmem)).1
  · rcases List.mem_cons.1 hw with rfl | hw
    · exact hdelay
    · -- A window of zero is not recorded, but no delay is smaller.
      by_cases hzero : (w == (0.0 : α)) = true
      · exact Scalar.Lawful.le_trans (Scalar.Lawful.le_of_beq hzero) (Scalar.Lawful.le_trans hmin hdelay)
      · exact hle w (List.mem_cons_of_mem _ (hrec.mem_iff.2 (List.mem_filter.2 ⟨hw, by simp [bne, hzero]⟩)))

/-- Whatever is done to a generator, as long as no window is noted by hand: unless models were exchanged
since the last flush, the windows that its models need now are those on record, and the largest of them is
the flush delay. -/
theorem windows_recorded (toolhead : Queue α) (extras : List (String × Queue α)) (ops : List (Operation α))
    (hnote : ∀ op ∈ ops, op.isNote = false) (hbuilt : ∀ op ∈ ops, op.Built)
    (hfresh : ops.foldl Operation.staleAfter false = false) :
    ((attached toolhead extras).operated ops).WindowsRecorded := by
  have hkept := (kept_attached toolhead extras).operated hnote hbuilt
  rw [hfresh] at hkept
  exact hkept.windowsRecorded

/-- Two extruders that come to have one window. Then the first gets a wider one, and a flush finds out. -/
def widened : List (Operation ℚ) :=
  let extruder (name : String) (pa : PressureAdvance ℚ) : Setup ℚ :=
    .addStepper { Stepper.new name 0.01 (.extruder pa) with queue := some (.extra name) }
  [.prepare (extruder "e" .off), .prepare (extruder "e1" .off), .prepare (.setPressureAdvance "e" 0.05 0.04),
    .prepare (.setPressureAdvance "e1" 0.05 0.04), .remodel "e" (.extruder ⟨0.05, 0.05, 400⟩), .call (.flush 1)]

theorem windows_recorded_widened :
    ((attached Queue.empty []).operated widened).scanTimes = [0.02, 0.05] ∧
      ((attached Queue.empty []).operated widened).flushDelay = 0.05 ∧
      ((attached Queue.empty []).operated widened).WindowsRecorded := by
  have hwide : PressureAdvance.of? (0.05 : ℚ) 0.1 = .ok ⟨0.05, 0.05, 400⟩ := by
    norm_num [PressureAdvance.of?]
  refine ⟨by decide +kernel, by decide +kernel,
    windows_recorded Queue.empty [] widened (by decide) (fun op hop => ?_) (by decide)⟩
  simp only [widened, List.mem_cons, List.not_mem_nil, or_false] at hop
  rcases hop with rfl | rfl | rfl | rfl | rfl | rfl
  · exact .inl rfl
  · exact .inl rfl
  · trivial
  · trivial
  · exact .inr ⟨0.05, 0.1, hwide⟩
  · trivial

end StepGenerator

end PrinterMotion
