/-
What a carriage knows of the model on it. A carriage records its axes when its transform is set and when it
gets another model. A change further in passes it by: as long as no change there gives a carriage's model
other axes, parked ones apart, every carriage of a stack moves with the axes of its model that it has not
parked.
-/
import PrinterMotion.Proofs.Exact
import PrinterMotion.Proofs.StepGenerator.Fitting

namespace PrinterMotion

variable {α : Type} [Scalar α]

/-! ## Carriages -/

namespace Carriage

/-- What is left of the axes of a model on a carriage that parks some of them. -/
def unparked (c : Carriage α) (axes : AxisSet) : AxisSet :=
  ⟨axes.x && !(c.xScale == (0.0 : α)), axes.y && !(c.yScale == (0.0 : α)), axes.z⟩

variable {c : Carriage α}

theorem axes_identity (hone : ((1.0 : α) == 0.0) = false) (axes : AxisSet) :
    (identity axes : Carriage α).axes = (identity axes : Carriage α).unparked axes := by
  simp [identity, unparked, hone]

theorem axes_rebind (c : Carriage α) (axes : AxisSet) : (c.rebind axes).axes = (c.rebind axes).unparked axes := by
  unfold rebind unparked
  cases c.xScale == (0.0 : α) <;> cases c.yScale == (0.0 : α) <;> simp [AxisSet.erase]

/-- A scale that is not zero brings back no axis that does not move the model. -/
theorem axes_setTransform {axes : AxisSet} (h : c.axes = c.unparked axes) {axis : Char} {scale offset : α}
    {c' : Carriage α} (hc : c.setTransform axes axis scale offset = .ok c') : c'.axes = c'.unparked axes := by
  obtain ⟨x, y, z⟩ := axes
  unfold setTransform at hc
  dsimp only at hc
  rw [h] at hc
  split at hc
  · cases hc
    unfold unparked
    cases scale == (0.0 : α) <;> cases x <;> simp [AxisSet.has, AxisSet.insert, AxisSet.erase]
  · split at hc <;> cases hc
    unfold unparked
    cases scale == (0.0 : α) <;> cases y <;> simp [AxisSet.has, AxisSet.insert, AxisSet.erase]

end Carriage

namespace Model

/-! ## Stacks -/

/-- The layer of a stack with `n` wrappers around it. -/
def layer? : Nat → Model α → Option (Model α)
  | 0, m => some m
  | n + 1, m => m.inner?.bind (layer? n)

/-- Every carriage of the stack moves with the axes of the model on it that it has not parked. -/
def Faithful (m : Model α) : Prop :=
  ∀ n c inner, m.layer? n = some (dualCarriage c inner) → c.axes = c.unparked inner.axes

/-- New wrappers around a base model. -/
inductive Wrapped : Model α → Prop where
  | base {m : Model α} (h : m.inner? = none) : Wrapped m
  | onCarriage {m : Model α} (h : Wrapped m) : Wrapped m.onCarriage
  | shaped {m m' : Model α} (h : Wrapped m) (hs : m.shaped? = .ok m') : Wrapped m'

variable {m m' inner inner' : Model α}

theorem faithful_of_base (h : m.inner? = none) : m.Faithful := by
  intro n c inner hn
  cases n with
  | zero =>
    cases hn
    cases h
  | succ n =>
    rw [layer?, h] at hn
    cases hn

theorem faithful_dualCarriage {c : Carriage α} :
    (dualCarriage c inner).Faithful ↔ c.axes = c.unparked inner.axes ∧ inner.Faithful := by
  constructor
  · intro h
    exact ⟨h 0 c inner rfl, fun n c' inner' hn => h (n + 1) c' inner' hn⟩
  · rintro ⟨hc, hinner⟩ n c' inner' hn
    cases n with
    | zero =>
      cases hn
      exact hc
    | succ n => exact hinner n c' inner' hn

theorem faithful_inputShaper {s : Shaping α} : (inputShaper s inner).Faithful ↔ inner.Faithful := by
  constructor
  · exact fun h n c inner' hn => h (n + 1) c inner' hn
  · intro h n c inner' hn
    cases n with
    | zero => cases hn
    | succ n => exact h n c inner' hn

theorem Wrapped.faithful (hone : ((1.0 : α) == 0.0) = false) (h : m.Wrapped) : m.Faithful := by
  induction h with
  | base h => exact faithful_of_base h
  | onCarriage _ ih => exact faithful_dualCarriage.2 ⟨Carriage.axes_identity hone _, ih⟩
  | shaped _ hs ih =>
    unfold shaped? checkShapeable at hs
    split at hs <;> cases hs
    exact faithful_inputShaper.2 ih

/-! ## Changes -/

/-- A change of one wrapper: the transform of a carriage, the pulses of an input shaper, or the model in
either of them. -/
inductive Change (α : Type) where
  | transform (axis : Char) (scale offset : α)
  | pulses (axis : Char) (n : Nat) (amplitudes times : List α)
  | carry (inner : Model α)
  | shape (inner : Model α)

/-- The carriages of a model that is put into a wrapper know their models. -/
def Change.Sound : Change α → Prop
  | carry inner | shape inner => inner.Faithful
  | _ => True

/-- Changes the outermost wrapper that the change is for; `none` if there is none. -/
def Change.made? : Change α → Model α → Option (Model α)
  | transform axis scale offset, m => (m.setTransform? axis scale offset).map (·.2)
  | pulses axis n amplitudes times, m => (m.setPulses? axis n amplitudes times).map (·.2)
  | carry inner, m => (m.rebindCarriage? inner).map (·.2)
  | shape inner, m => (m.rebindShaper? inner).map (·.2)

/-- Changes the model inside the `n` outer wrappers. -/
def changeInside (change : Change α) : Nat → Model α → Model α
  | 0, m => (change.made? m).getD m
  | n + 1, dualCarriage c inner => dualCarriage c (changeInside change n inner)
  | n + 1, inputShaper s inner => inputShaper s (changeInside change n inner)
  | _ + 1, m => m

/-- A stack after changes, each inside so many wrappers. -/
def changed (m : Model α) (changes : List (Nat × Change α)) : Model α :=
  changes.foldl (fun m (n, change) => m.changeInside change n) m

theorem changed_append (m : Model α) (changes : List (Nat × Change α)) (n : Nat) (change : Change α) :
    m.changed (changes ++ [(n, change)]) = (m.changed changes).changeInside change n := by
  simp only [changed, List.foldl_append, List.foldl_cons, List.foldl_nil]

/-! ## Lookups from outside -/

/-- A change of the outermost carriage passes no other carriage by. -/
theorem Faithful.change? {β : Type} {f : Model α → Option (β × Model α)}
    (hf : ∀ m b m', f m = some (b, m') → m.Faithful → m'.Faithful)
    (hall : ∀ c inner, f (.dualCarriage c inner) ≠ none) {b : β} : m.Faithful → m.change? f = some (b, m') →
      m'.Faithful := by
  induction m generalizing m' with
  | dualCarriage c inner =>
    intro hm h
    unfold Model.change? at h
    split at h
    · rename_i hr
      cases h
      exact hf _ _ _ hr hm
    · rename_i hnone
      exact absurd hnone (hall c inner)
  | inputShaper s inner ih =>
    intro hm h
    unfold Model.change? at h
    split at h
    · rename_i hr
      cases h
      exact hf _ _ _ hr hm
    · obtain ⟨⟨b', inner'⟩, hinner, heq⟩ := Option.map_eq_some_iff.1 h
      cases heq
      exact faithful_inputShaper.2 (ih (faithful_inputShaper.1 hm) hinner)
  | _ =>
    intro hm h
    unfold Model.change? at h
    split at h
    · rename_i hr
      cases h
      exact hf _ _ _ hr hm
    · cases h

theorem Faithful.setTransform? (hm : m.Faithful) {axis : Char} {scale offset : α} {e : Option (KinematicsError α)}
    (h : m.setTransform? axis scale offset = some (e, m')) : m'.Faithful := by
  refine hm.change? (fun m e m' hf hm => ?_) (fun c inner => Option.some_ne_none _) h
  cases m <;> try cases hf
  rename_i c inner
  obtain ⟨hc, hinner⟩ := faithful_dualCarriage.1 hm
  cases hset : c.setTransform inner.axes axis scale offset with
  | ok c' => exact faithful_dualCarriage.2 ⟨by simpa [hset] using Carriage.axes_setTransform hc hset, hinner⟩
  | error e => exact faithful_dualCarriage.2 ⟨by simpa [hset] using hc, hinner⟩

theorem Faithful.rebindCarriage? (hm : m.Faithful) (hinner : inner.Faithful) {old : Model α}
    (h : m.rebindCarriage? inner = some (old, m')) : m'.Faithful := by
  refine hm.change? (fun m old m' hf hm => ?_) (fun c inner => Option.some_ne_none _) h
  cases m <;> cases hf
  exact faithful_dualCarriage.2 ⟨Carriage.axes_rebind _ _, hinner⟩

/-- Another model in the same place that moves with the same axes. -/
def Substitutes (m m' : Model α) : Prop := m'.axes = m.axes ∧ (m.Faithful → m'.Faithful)

theorem Substitutes.dualCarriage (h : Substitutes inner inner') (c : Carriage α) :
    Substitutes (dualCarriage c inner) (dualCarriage c inner') := by
  refine ⟨rfl, fun hm => ?_⟩
  obtain ⟨hc, hinner⟩ := faithful_dualCarriage.1 hm
  exact faithful_dualCarriage.2 ⟨by rw [h.1, hc], h.2 hinner⟩

theorem Substitutes.inputShaper (h : Substitutes inner inner') (s s' : Shaping α) :
    Substitutes (inputShaper s inner) (inputShaper s' inner') :=
  ⟨h.1, fun hm => faithful_inputShaper.2 (h.2 (faithful_inputShaper.1 hm))⟩

/-- Pulses have no part in the axes of a model. -/
theorem substitutes_changeShaper? {β : Type} {f : Shaping α → AxisSet → β × Shaping α} {b : β}
    (h : m.changeShaper? f = some (b, m')) : Substitutes m m' := by
  refine change?_keeps (R := fun m _ m' => Substitutes m m') (fun m b m' hf => ?_) (fun c _ _ _ ih => ih.dualCarriage c)
    (fun s _ _ _ ih => ih.inputShaper s s) m b m' h
  cases m <;> cases hf
  exact Substitutes.inputShaper ⟨rfl, id⟩ _ _

/-! ## What a change leaves -/

/-- Every carriage is as it was, maybe with another model on it, or it knows its model. -/
def Kept (m m' : Model α) : Prop :=
  ∀ n c inner', m'.layer? n = some (dualCarriage c inner') →
    c.axes = c.unparked inner'.axes ∨ ∃ inner, m.layer? n = some (dualCarriage c inner)

theorem Faithful.kept (h : m'.Faithful) : Kept m m' := fun n c inner' hn => .inl (h n c inner' hn)

theorem Kept.dualCarriage (h : Kept inner inner') (c : Carriage α) :
    Kept (dualCarriage c inner) (dualCarriage c inner') := by
  intro n c' inner'' hn
  cases n with
  | zero =>
    cases hn
    exact .inr ⟨inner, rfl⟩
  | succ n => exact h n c' inner'' hn

theorem Kept.inputShaper (h : Kept inner inner') (s : Shaping α) :
    Kept (inputShaper s inner) (inputShaper s inner') := by
  intro n c' inner'' hn
  cases n with
  | zero => cases hn
  | succ n => exact h n c' inner'' hn

/-- The carriages around a shaper are passed by when it gets another model. -/
theorem Faithful.kept_rebindShaper? (hm : m.Faithful) (hnew : inner.Faithful)
    {old : Except (KinematicsError α) (Model α)} (h : m.rebindShaper? inner = some (old, m')) : Kept m m' := by
  refine change?_keeps (R := fun m _ m' => m.Faithful → Kept m m') (fun m b m' hf hm => ?_)
    (fun c _ _ _ ih hm => (ih (faithful_dualCarriage.1 hm).2).dualCarriage c)
    (fun s _ _ _ ih hm => (ih (faithful_inputShaper.1 hm)).inputShaper s) m old m' h hm
  cases m <;> try cases hf
  simp only at hf
  split at hf <;> cases hf
  · exact (faithful_inputShaper.2 hnew).kept
  · exact hm.kept

theorem Change.kept_made? {change : Change α} (hc : change.Sound) (hm : m.Faithful)
    (h : change.made? m = some m') : Kept m m' := by
  cases change with
  | transform axis scale offset =>
    obtain ⟨⟨e, _⟩, hlook, rfl⟩ := Option.map_eq_some_iff.1 h
    exact (hm.setTransform? hlook).kept
  | pulses axis n amplitudes times =>
    obtain ⟨⟨e, _⟩, hlook, rfl⟩ := Option.map_eq_some_iff.1 h
    exact ((substitutes_changeShaper? hlook).2 hm).kept
  | carry inner =>
    obtain ⟨⟨old, _⟩, hlook, rfl⟩ := Option.map_eq_some_iff.1 h
    exact (hm.rebindCarriage? hc hlook).kept
  | shape inner =>
    obtain ⟨⟨old, _⟩, hlook, rfl⟩ := Option.map_eq_some_iff.1 h
    exact hm.kept_rebindShaper? hc hlook

theorem kept_changeInside {change : Change α} (hc : change.Sound) : ∀ (n : Nat) {m : Model α}, m.Faithful →
    Kept m (m.changeInside change n)
  | 0, m, hm => by
    unfold changeInside
    cases h : change.made? m with
    | none => exact hm.kept
    | some m' => exact Change.kept_made? hc hm h
  | n + 1, .dualCarriage c _, hm => (kept_changeInside hc n (faithful_dualCarriage.1 hm).2).dualCarriage c
  | n + 1, .inputShaper s _, hm => (kept_changeInside hc n (faithful_inputShaper.1 hm)).inputShaper s
  | _ + 1, .linear _, hm | _ + 1, .coreXY _, hm | _ + 1, .coreXZ _, hm | _ + 1, .tower _, hm
  | _ + 1, .shoulder _, hm | _ + 1, .winch _, hm | _ + 1, .extruder _, hm => hm.kept

/-! ## Runs of changes -/

/-- No carriage that is as it was has got a model with other axes, those that it parks apart. -/
def Unnoticed (m m' : Model α) : Prop :=
  ∀ n c inner inner', m.layer? n = some (dualCarriage c inner) → m'.layer? n = some (dualCarriage c inner') →
    c.unparked inner'.axes = c.unparked inner.axes

theorem unnoticed_of_base (h : m.inner? = none) : Unnoticed m m' := by
  intro n c inner inner' hn
  cases n with
  | zero =>
    cases hn
    cases h
  | succ n =>
    rw [layer?, h] at hn
    cases hn

theorem unnoticed_dualCarriage {c c' : Carriage α} :
    Unnoticed (dualCarriage c inner) (dualCarriage c' inner') ↔
      (c' = c → c.unparked inner'.axes = c.unparked inner.axes) ∧ Unnoticed inner inner' := by
  constructor
  · intro h
    refine ⟨?_, fun n => h (n + 1)⟩
    rintro rfl
    exact h 0 _ inner inner' rfl rfl
  · rintro ⟨hc, hinner⟩ n c₁ i i' hn hn'
    cases n with
    | zero =>
      cases hn
      cases hn'
      exact hc rfl
    | succ n => exact hinner n c₁ i i' hn hn'

theorem unnoticed_inputShaper {s s' : Shaping α} :
    Unnoticed (inputShaper s inner) (inputShaper s' inner') ↔ Unnoticed inner inner' := by
  constructor
  · exact fun h n => h (n + 1)
  · intro h n c i i' hn hn'
    cases n with
    | zero => cases hn
    | succ n => exact h n c i i' hn hn'

theorem Faithful.unnoticed (hm : m.Faithful) (hm' : m'.Faithful) : Unnoticed m m' := by
  intro n c inner inner' hn hn'
  rw [← hm n c inner hn, hm' n c inner' hn']

theorem Kept.faithful (h : Kept m m') (hm : m.Faithful) (hun : Unnoticed m m') : m'.Faithful := by
  intro n c inner' hn'
  obtain hc | ⟨inner, hn⟩ := h n c inner' hn'
  · exact hc
  · rw [hun n c inner inner' hn hn', hm n c inner hn]

/-- However the wrappers of a stack are changed, at whatever depth, each carriage moves with the axes of its
model that it has not parked, as long as no change gives the model on an untouched carriage other axes; and
no longer than that. -/
theorem carriages_follow (hone : ((1.0 : α) == 0.0) = false) (hm : m.Wrapped) {changes : List (Nat × Change α)}
    (hc : ∀ change ∈ changes, change.2.Sound) :
    (∀ k ≤ changes.length, (m.changed (changes.take k)).Faithful) ↔
      ∀ k < changes.length, Unnoticed (m.changed (changes.take k)) (m.changed (changes.take (k + 1))) := by
  constructor
  · exact fun h k hk => (h k hk.le).unnoticed (h (k + 1) hk)
  · intro hun k
    induction k with
    | zero => exact fun _ => hm.faithful hone
    | succ k ih =>
      intro hk
      have hbefore := ih (Nat.le_of_lt hk)
      refine Kept.faithful ?_ hbefore (hun k hk)
      rw [List.take_succ_eq_append_getElem hk, changed_append]
      exact kept_changeInside (hc _ (List.getElem_mem hk)) _ hbefore

/-- A belt in a shaper on a carriage, which parks the second axis before the shaper gets a stepper that does
not move along that axis. -/
theorem carriages_follow_parkedBelt :
    ((inputShaper Shaping.off (coreXY true)).onCarriage.changed [(0, .transform 'y' 0 5)] : Model ℚ).Faithful ∧
      ((inputShaper Shaping.off (coreXY true)).onCarriage.changed
        [(0, .transform 'y' 0 5), (0, .shape (linear .x))] : Model ℚ).Faithful := by
  have hone : ((1.0 : ℚ) == 0.0) = false := by decide +kernel
  have hw : (inputShaper Shaping.off (coreXY true)).onCarriage.Wrapped (α := ℚ) :=
    .onCarriage (.shaped (m := coreXY true) (.base rfl) rfl)
  have hc : ∀ change ∈ [(0, Change.transform 'y' 0 5), (0, Change.shape (linear .x : Model ℚ))], change.2.Sound := by
    simp only [List.mem_cons, List.not_mem_nil, or_false, forall_eq_or_imp, forall_eq]
    exact ⟨trivial, faithful_of_base rfl⟩
  have hfollow := (carriages_follow hone hw hc).2 fun k hk => ?_
  · exact ⟨hfollow 1 (by decide), hfollow 2 (by decide)⟩
  have hk' : k = 0 ∨ k = 1 := by
    simp only [List.length_cons, List.length_nil] at hk
    omega
  obtain rfl | rfl := hk'
  · exact unnoticed_dualCarriage.2 ⟨fun hc => absurd (congrArg Carriage.yScale hc) (by decide +kernel),
      unnoticed_inputShaper.2 (unnoticed_of_base rfl)⟩
  · exact unnoticed_dualCarriage.2 ⟨fun _ => by decide +kernel, unnoticed_inputShaper.2 (unnoticed_of_base rfl)⟩

/-- The stepper in the shaper is exchanged for one of the other axis: the carriage around it keeps the axis
of the old one. -/
theorem not_carriages_follow :
    (inputShaper Shaping.off (linear .x)).onCarriage.Wrapped (α := Float) ∧
      (linear .y : Model Float).Faithful ∧
        ¬ ((inputShaper Shaping.off (linear .x)).onCarriage.changed [(0, .shape (linear .y))] :
          Model Float).Faithful := by
  refine ⟨.onCarriage (.shaped (m := linear .x) (.base rfl) rfl), faithful_of_base rfl, fun h => ?_⟩
  have hx := congrArg AxisSet.x (h 0 _ _ rfl)
  simp [Carriage.identity, Carriage.unparked, axes, AxisSet.single] at hx

end Model

end PrinterMotion
