/-
Switching the shaping of an axis off and on. What is selected while it is off waits for it to be switched on, so
that it goes on as if it had never been off. But only parameters that shape are put aside: an axis that was not
shaped when it was switched off has nothing put aside, and is shaped again by the next entry that is selected
for it.
-/
import PrinterMotion.Proofs.Binary64
import PrinterMotion.Shaping.AxisShaper

namespace PrinterMotion

variable {α : Type} [Scalar α]

/-! ## Parameters -/

namespace ShaperParams

theorem impulses_eq_nil_iff {p : ShaperParams α} : p.impulses = ([], []) ↔ (p.freq == (0.0 : α)) = true := by
  unfold impulses
  split
  · rename_i hfreq
    exact iff_of_true rfl hfreq
  · rename_i hfreq
    refine iff_of_false (fun h => ?_) hfreq
    cases hk : p.kind <;> simp [ShaperKind.impulses, hk] at h

/-- The same parameters, but for the sign of a frequency of zero. -/
structure Same (p p' : ShaperParams α) : Prop where
  kind : p.kind = p'.kind
  freq : p.freq = p'.freq ∨ (p.freq == (0.0 : α)) = true ∧ (p'.freq == (0.0 : α)) = true
  damping : p.damping = p'.damping

theorem Same.refl (p : ShaperParams α) : p.Same p := ⟨rfl, .inl rfl, rfl⟩

theorem Same.eq {p p' : ShaperParams α} (h : p.Same p') (hp : (p.freq == (0.0 : α)) = false) : p = p' := by
  obtain ⟨hkind, hfreq, hdamping⟩ := h
  obtain hfreq | ⟨hzero, -⟩ := hfreq
  · cases p
    cases p'
    cases hkind
    cases hfreq
    cases hdamping
    rfl
  · rw [hp] at hzero
    cases hzero

end ShaperParams

namespace AxisShaper

variable {s a b : AxisShaper α}

theorem isShaping_eq (s : AxisShaper α) : s.isShaping = !(s.params.freq == (0.0 : α)) := rfl

theorem impulses_eq_nil_iff : s.impulses = ([], []) ↔ s.isShaping = false := by
  rw [impulses, ShaperParams.impulses_eq_nil_iff, isShaping_eq, Bool.not_eq_false']

/-! ## Calls -/

/-- A call that selects entries or switches shaping off. -/
inductive Switch where
  | select (toolhead : Nat) (mode : CarriageMode)
  | disable

/-- The shaper after a call. -/
def switch (s : AxisShaper α) : Switch → AxisShaper α
  | .select toolhead mode => s.select toolhead mode
  | .disable => s.disable

/-- The shaper after a call, if shaping is never switched off. -/
def follow (s : AxisShaper α) : Switch → AxisShaper α
  | .select toolhead mode => s.select toolhead mode
  | .disable => s

/-- The parameters of the entries for a toolhead and a mode. -/
def entry (s : AxisShaper α) (toolhead : Nat) (mode : CarriageMode) : ShaperParams α :=
  let i := { s with toolhead, mode }.entryIndex
  ⟨s.kinds.pick i, s.freqs.pick i, s.dampings.pick i⟩

omit [Scalar α] in
theorem select_of_saved {p : ShaperParams α} (h : s.saved = some p) (toolhead : Nat) (mode : CarriageMode) :
    s.select toolhead mode = { s with toolhead, mode, saved := some (s.entry toolhead mode) } := by
  simp only [select, entry, h]

omit [Scalar α] in
theorem select_of_none (h : s.saved = none) (toolhead : Nat) (mode : CarriageMode) :
    s.select toolhead mode = { s with toolhead, mode, params := s.entry toolhead mode } := by
  simp only [select, entry, h]

/-! ## Staying off -/

/-- Shaping is off, and no entry that is selected switches it on. -/
def Idle (s : AxisShaper α) : Prop :=
  s.isShaping = false ∧ ∀ toolhead mode, (s.select toolhead mode).isShaping = false

/-- Whether entries switch shaping on has nothing to do with the entries in use. -/
theorem isShaping_select_select (s : AxisShaper α) (t t' : Nat) (m m' : CarriageMode) :
    ((s.select t m).select t' m').isShaping = (s.select t' m').isShaping := by
  cases hs : s.saved with
  | none =>
    simp only [select_of_none, hs]
    rfl
  | some p =>
    rw [select_of_saved hs t m, select_of_saved (p := s.entry t m) rfl, select_of_saved hs t' m']
    rfl

variable [Scalar.Lawful α]

theorem isShaping_disable (s : AxisShaper α) : s.disable.isShaping = false := by
  rw [isShaping_eq, Bool.not_eq_false']
  exact Scalar.isNumber_zero

omit [Scalar.Lawful α] in
theorem disable_of_isShaping (h : s.saved = none) (hs : s.isShaping = true) :
    s.disable = { s with saved := some s.params, params := { s.params with freq := 0.0 } } := by
  simp [disable, h, hs]

omit [Scalar.Lawful α] in
theorem disable_of_not_isShaping (hs : s.isShaping = false) :
    s.disable = { s with params := { s.params with freq := 0.0 } } := by
  simp [disable, hs]

/-- Shaping that is on is put aside when it is switched off, and then nothing selected switches it on. -/
theorem idle_disable_of_isShaping (h : s.saved = none) (hs : s.isShaping = true) : s.disable.Idle := by
  refine ⟨isShaping_disable s, fun t m => ?_⟩
  rw [select_of_saved (p := s.params) (by rw [disable_of_isShaping h hs])]
  exact isShaping_disable s

theorem Idle.disable (h : s.Idle) : s.disable.Idle := by
  refine ⟨isShaping_disable s, fun t m => ?_⟩
  rw [disable_of_not_isShaping h.1]
  cases hs : s.saved with
  | none =>
    rw [select_of_none rfl]
    have hselect := h.2 t m
    rwa [select_of_none hs] at hselect
  | some p =>
    rw [select_of_saved (p := p) rfl]
    exact isShaping_disable s

theorem Idle.switch (h : s.Idle) (c : Switch) : (s.switch c).Idle := by
  cases c with
  | select t m =>
    refine ⟨h.2 t m, fun t' m' => ?_⟩
    rw [AxisShaper.switch, isShaping_select_select]
    exact h.2 t' m'
  | disable => exact h.disable

theorem Idle.foldl (h : s.Idle) (calls : List Switch) : (calls.foldl AxisShaper.switch s).Idle := by
  induction calls generalizing s with
  | nil => exact h
  | cons c rest ih => exact ih (h.switch c)

/-! ## Going on -/

/-- The shaper `a` is `b` but for being switched off: either the parameters of `b` are put aside in it, or
nothing is and they are in use. -/
structure Waits (a b : AxisShaper α) : Prop where
  kinds : a.kinds = b.kinds
  freqs : a.freqs = b.freqs
  dampings : a.dampings = b.dampings
  toolhead : a.toolhead = b.toolhead
  mode : a.mode = b.mode
  resumed : b.saved = none
  params : a.isShaping = false ∧ a.saved = some b.params ∨ a.saved = none ∧ a.params.Same b.params

omit [Scalar.Lawful α] in
theorem Waits.select (h : Waits a b) (t : Nat) (m : CarriageMode) : Waits (a.select t m) (b.select t m) := by
  have hentry : a.entry t m = b.entry t m := by
    simp only [entry, entryIndex, h.kinds, h.freqs, h.dampings]
  rw [select_of_none h.resumed]
  obtain ⟨hoff, hsaved⟩ | ⟨hsaved, -⟩ := h.params
  · rw [select_of_saved hsaved]
    exact ⟨h.kinds, h.freqs, h.dampings, rfl, rfl, h.resumed, .inl ⟨hoff, congrArg some hentry⟩⟩
  · rw [select_of_none hsaved, hentry]
    exact ⟨h.kinds, h.freqs, h.dampings, rfl, rfl, h.resumed, .inr ⟨hsaved, .refl _⟩⟩

theorem Waits.disable (h : Waits a b) : Waits a.disable b := by
  refine ⟨h.kinds, h.freqs, h.dampings, h.toolhead, h.mode, h.resumed, ?_⟩
  cases hon : a.isShaping with
  | true =>
    obtain ⟨hoff, -⟩ | ⟨hsaved, hsame⟩ := h.params
    · rw [hon] at hoff
      cases hoff
    · have hparams := hsame.eq (by simpa [isShaping_eq] using hon)
      exact .inl ⟨isShaping_disable a, by rw [disable_of_isShaping hsaved hon, hparams]⟩
  | false =>
    obtain ⟨-, hsaved⟩ | ⟨hsaved, hkind, hfreq, hdamping⟩ := h.params
    · exact .inl ⟨isShaping_disable a, by rw [disable_of_not_isShaping hon, hsaved]⟩
    · have hzero : (a.params.freq == (0.0 : α)) = true := by simpa [isShaping_eq] using hon
      rw [disable_of_not_isShaping hon]
      refine .inr ⟨hsaved, hkind, .inr ⟨Scalar.isNumber_zero, ?_⟩, hdamping⟩
      obtain hfreq | ⟨-, hfreq⟩ := hfreq
      · rwa [← hfreq]
      · exact hfreq

theorem Waits.foldl (h : Waits a b) (calls : List Switch) :
    Waits (calls.foldl AxisShaper.switch a) (calls.foldl follow b) := by
  induction calls generalizing a b with
  | nil => exact h
  | cons c rest ih =>
    cases c with
    | select t m => exact ih (h.select t m)
    | disable => exact ih h.disable

omit [Scalar.Lawful α] in
/-- What is switched on again is what would be there without having been switched off. -/
theorem Waits.enable (h : Waits a b) : a.enable.saved = none ∧ a.enable.params.Same b.params ∧
    a.enable.toolhead = b.toolhead ∧ a.enable.mode = b.mode := by
  obtain ⟨-, hsaved⟩ | ⟨hsaved, hsame⟩ := h.params
  · simp only [AxisShaper.enable, hsaved]
    exact ⟨trivial, .refl _, h.toolhead, h.mode⟩
  · simp only [AxisShaper.enable, hsaved]
    exact ⟨trivial, hsame, h.toolhead, h.mode⟩

/-- An axis that has nothing put aside stays unshaped for good after it has been switched off if it was shaped,
or if none of its entries shape it, and only then. Switched on again it has the parameters that it would have if
it had never been switched off. -/
theorem switched_off (s : AxisShaper α) (h : s.saved = none) :
    ((∀ calls : List Switch, (calls.foldl switch s.disable).impulses = ([], [])) ↔
      s.isShaping = true ∨ ∀ toolhead mode, (s.select toolhead mode).isShaping = false) ∧
    ∀ calls : List Switch,
      let on := (calls.foldl switch s.disable).enable
      let kept := calls.foldl follow s
      on.saved = none ∧ on.params.Same kept.params ∧ on.toolhead = kept.toolhead ∧ on.mode = kept.mode := by
  refine ⟨⟨fun hoff => ?_, fun hcase calls => ?_⟩, fun calls => ?_⟩
  · by_contra hno
    obtain ⟨hon, t, m, hentry⟩ : s.isShaping = false ∧ ∃ t m, (s.select t m).isShaping = true := by simpa using hno
    have hselect := impulses_eq_nil_iff.1 (hoff [.select t m])
    have hsaved : s.disable.saved = none := by rw [disable_of_not_isShaping hon, h]
    rw [List.foldl_cons, List.foldl_nil, switch, select_of_none hsaved] at hselect
    rw [select_of_none h] at hentry
    exact Bool.noConfusion (hentry.symm.trans hselect)
  · refine impulses_eq_nil_iff.2 (Idle.foldl ?_ calls).1
    by_cases hon : s.isShaping = true
    · exact idle_disable_of_isShaping h hon
    · exact Idle.disable ⟨Bool.eq_false_of_not_eq_true hon, hcase.resolve_left hon⟩
  · have hstart : Waits s s := ⟨rfl, rfl, rfl, rfl, rfl, h, .inr ⟨h, .refl _⟩⟩
    exact (hstart.disable.foldl calls).enable

/-- An axis with one entry for each of two toolheads, of which the first does not shape. -/
def oneSided : AxisShaper Float where
  axis := 'x'
  kinds := ⟨.mzv, [.zvd]⟩
  freqs := ⟨0, [52]⟩
  dampings := ⟨0.1, []⟩
  toolhead := 0
  mode := .primary
  params := ⟨.mzv, 0, 0.1⟩
  saved := none

theorem switched_off_oneSided : ((oneSided.select 1 .primary).disable.select 0 .primary).impulses = ([], []) := by
  have hsaved : (oneSided.select 1 .primary).saved = none := rfl
  have hon : (oneSided.select 1 .primary).isShaping = true := by decide +kernel
  exact ((switched_off _ hsaved).1.2 (.inl hon)) [.select 0 .primary]

/-- The entry of the second toolhead switches shaping on again. -/
theorem not_switched_off : ofEntries? 'x' [.mzv, .zvd] [0, 52] [0.1] = .ok oneSided ∧ oneSided.saved = none ∧
    (oneSided.disable.select 1 .primary).impulses ≠ ([], []) := by
  refine ⟨rfl, rfl, ?_⟩
  rw [Ne, impulses_eq_nil_iff]
  decide +kernel

end AxisShaper

end PrinterMotion
