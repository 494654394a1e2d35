/-
What it takes for a model to be shaped as shapers say, and that putting shapers into the models of the
toolhead without a failure brings that about. Where it is so already nothing changes any more.
-/
import PrinterMotion.Proofs.StepGenerator.Fitting
import PrinterMotion.Proofs.StepGenerator.Holding

namespace PrinterMotion

variable {α : Type}

/-! ## Shapers of a model -/

namespace Model

/-- The input shapers of a model from the outermost to the innermost, each with the axes of the model in it. -/
def shapers : Model α → List (Shaping α × AxisSet)
  | dualCarriage _ inner => inner.shapers
  | inputShaper s inner => (s, inner.axes) :: inner.shapers
  | _ => []

theorem hasShaper_iff {m : Model α} : m.hasShaper = true ↔ m.shapers ≠ [] := by
  induction m with
  | dualCarriage c inner ih => exact ih
  | inputShaper s inner => simp [hasShaper, shapers]
  | _ => simp [hasShaper, shapers]

theorem changeShaper?_dualCarriage {β : Type} (f : Shaping α → AxisSet → β × Shaping α) (c : Carriage α)
    (inner : Model α) : (dualCarriage c inner).changeShaper? f =
      (inner.changeShaper? f).map fun (b, inner) => (b, dualCarriage c inner) := rfl

/-- Pulses are changed in the outermost shaper, and in no other one. -/
theorem changeShaper?_cases {β : Type} (f : Shaping α → AxisSet → β × Shaping α) (m : Model α) :
    (m.shapers = [] ∧ m.changeShaper? f = none) ∨
      ∃ s axes rest m', m.shapers = (s, axes) :: rest ∧ m.changeShaper? f = some ((f s axes).1, m') ∧
        m'.shapers = ((f s axes).2, axes) :: rest ∧ m'.axes = m.axes ∧ ((f s axes).2 = s → m' = m) := by
  induction m with
  | dualCarriage c inner ih =>
    obtain ⟨hs, hnone⟩ | ⟨s, axes, rest, m', hs, hsome, hs', -, hsame⟩ := ih
    · exact .inl ⟨hs, by rw [changeShaper?_dualCarriage, hnone]; rfl⟩
    · refine .inr ⟨s, axes, rest, dualCarriage c m', hs, by rw [changeShaper?_dualCarriage, hsome]; rfl, hs', rfl,
        fun heq => ?_⟩
      rw [hsame heq]
  | inputShaper s inner =>
    refine .inr ⟨s, inner.axes, inner.shapers, inputShaper (f s inner.axes).2 inner, rfl, rfl, rfl, rfl, fun heq => ?_⟩
    rw [heq]
  | _ => exact .inl ⟨rfl, rfl⟩

variable [Scalar α]

omit [Scalar α] in
theorem shaped?_eq_ok {m m' : Model α} (h : m.shaped? = .ok m') :
    m' = inputShaper Shaping.off m ∧ (m.axes.x || m.axes.y) = true := by
  unfold shaped? checkShapeable at h
  split at h
  · rename_i hmoves
    cases h
    exact ⟨rfl, hmoves⟩
  · cases h

omit [Scalar α] in
theorem shaped?_eq_error {m : Model α} {e : KinematicsError α} (h : m.shaped? = .error e) :
    (m.axes.x || m.axes.y) = false := by
  unfold shaped? checkShapeable at h
  split at h
  · cases h
  · rename_i hmoves
    exact Bool.eq_false_of_not_eq_true hmoves

/-- Setting a transform adds no shaper and takes none away. -/
theorem length_shapers_setTransform? {m m' : Model α} {axis : Char} {scale offset : α}
    {e : Option (KinematicsError α)} (h : m.setTransform? axis scale offset = some (e, m')) :
    m'.shapers.length = m.shapers.length := by
  refine change?_keeps (R := fun m _ m' => m'.shapers.length = m.shapers.length) (fun m e m' hf => ?_)
    (fun _ _ _ _ ih => ih) (fun _ _ _ _ ih => congrArg (· + 1) ih) m e m' h
  cases m <;> cases hf
  rfl

end Model

variable [Scalar α]

/-! ## Pulses of an axis -/

/-- The pulses that parameters of a shaper leave on an axis of a model that moves along the given axes. -/
def PulseTrain.Of (axes : AxisSet) (i : Axis) (n : Nat) (amplitudes times : List α) (train : PulseTrain α) : Prop :=
  if axes.has i then ofShaper n amplitudes times = .ok train else train = []

namespace Shaping

/-- The shaping with other pulses on an axis; the third axis has none. -/
def put (s : Shaping α) (train : PulseTrain α) : Axis → Shaping α
  | .x => { s with x := train }
  | .y => { s with y := train }
  | .z => s

variable {s s' : Shaping α} {axes : AxisSet} {i j : Axis} {n : Nat} {amplitudes times : List α} {train : PulseTrain α}

omit [Scalar α] in
theorem pulses?_put_self (hi : i ≠ .z) : (s.put train i).pulses? i = some train := by
  cases i with
  | z => exact absurd rfl hi
  | _ => rfl

omit [Scalar α] in
theorem pulses?_put_ne (h : j ≠ i) : (s.put train i).pulses? j = s.pulses? j := by
  cases i <;> cases j <;> first | rfl | exact absurd rfl h

omit [Scalar α] in
theorem put_self (h : s.pulses? i = some train) : s.put train i = s := by
  cases i <;> cases h <;> rfl

theorem setAxis_of (hi : i ≠ .z) (ht : PulseTrain.Of axes i n amplitudes times train) :
    s.setAxis axes i.letter n amplitudes times = (s.put train i, none) := by
  unfold PulseTrain.Of at ht
  cases hhas : axes.has i <;> rw [hhas] at ht
  · obtain rfl : train = [] := by simpa using ht
    cases i <;> simp [setAxis, Axis.letter, hhas, put] at hi ⊢
  · have hok : PulseTrain.ofShaper n amplitudes times = .ok train := by simpa using ht
    cases i <;> simp [setAxis, Axis.letter, hhas, hok, put] at hi ⊢

/-- Parameters are accepted for one of the first two axes, and leave the other one alone. -/
theorem setAxis_eq_none {axis : Char} (h : s.setAxis axes axis n amplitudes times = (s', none)) :
    ∃ i train, i ≠ .z ∧ i.letter = axis ∧ PulseTrain.Of axes i n amplitudes times train ∧ s' = s.put train i := by
  have hone : ∃ i : Axis, i ≠ .z ∧ i.letter = axis := by
    by_contra hno
    have hx : axis ≠ 'x' := fun hx => hno ⟨.x, nofun, hx.symm⟩
    have hy : axis ≠ 'y' := fun hy => hno ⟨.y, nofun, hy.symm⟩
    simp [setAxis, hx, hy] at h
  obtain ⟨i, hi, rfl⟩ := hone
  have hof : ∃ train, PulseTrain.Of axes i n amplitudes times train := by
    unfold PulseTrain.Of
    by_cases hhas : axes.has i = true
    · cases hok : PulseTrain.ofShaper n amplitudes times with
      | ok train => exact ⟨train, by rw [if_pos hhas]⟩
      | error e => cases i <;> simp [setAxis, Axis.letter, hhas, hok] at h hi
    · exact ⟨[], by rw [if_neg hhas]⟩
  obtain ⟨train, ht⟩ := hof
  rw [setAxis_of hi ht] at h
  cases h
  exact ⟨i, train, hi, rfl, ht, rfl⟩

end Shaping

namespace AxisShaper

/-- The pulses of the axis of the shaper are those of its impulses. -/
def Applied (a : AxisShaper α) (s : Shaping α) (axes : AxisSet) : Prop :=
  ∃ i train, i.letter = a.axis ∧ s.pulses? i = some train ∧
    PulseTrain.Of axes i a.impulses.1.length a.impulses.1 a.impulses.2 train

variable {a a' : AxisShaper α} {s s' : Shaping α} {axes : AxisSet}

theorem Applied.congr (h : a.Applied s axes) (hs : ∀ i : Axis, i.letter = a.axis → s'.pulses? i = s.pulses? i) :
    a.Applied s' axes := by
  obtain ⟨i, train, hi, hpulses, ht⟩ := h
  exact ⟨i, train, hi, (hs i hi).trans hpulses, ht⟩

theorem applyTo_eq_none (h : a.applyTo s axes = (a', s', none)) :
    a' = a ∧ a.Applied s' axes ∧ ∀ i : Axis, i.letter ≠ a.axis → s'.pulses? i = s.pulses? i := by
  unfold applyTo at h
  dsimp only at h
  split at h <;> cases h
  rename_i hset
  obtain ⟨i, train, hi, hletter, ht, rfl⟩ := Shaping.setAxis_eq_none hset
  refine ⟨rfl, ⟨i, train, hletter, Shaping.pulses?_put_self hi, ht⟩, fun j hj => Shaping.pulses?_put_ne ?_⟩
  rintro rfl
  exact hj hletter

/-- A shaper that is applied already changes nothing. -/
theorem Applied.applyTo_eq (h : a.Applied s axes) : a.applyTo s axes = (a, s, none) := by
  obtain ⟨i, train, hletter, hpulses, ht⟩ := h
  have hi : i ≠ .z := by
    rintro rfl
    cases hpulses
  have hset := Shaping.setAxis_of (s := s) hi ht
  rw [hletter, Shaping.put_self hpulses] at hset
  unfold applyTo
  dsimp only
  rw [hset]

theorem axis_applyTo (a : AxisShaper α) (s : Shaping α) (axes : AxisSet) : (a.applyTo s axes).1.axis = a.axis := by
  unfold applyTo
  dsimp only
  split <;> rfl

end AxisShaper

namespace StepGenerator

/-! ## One stepper -/

variable {shapers shapers' : List (AxisShaper α)} {failed failed' : List String}

theorem axes_applyShapers (axes : AxisSet) : ∀ (shapers : List (AxisShaper α)) (failed : List String) (s : Shaping α),
    (applyShapers axes shapers failed s).1.map (·.axis) = shapers.map (·.axis)
  | [], _, _ => rfl
  | a :: rest, failed, s => by
    rw [applyShapers]
    split
    · exact congrArg (a.axis :: ·) (axes_applyShapers axes rest _ _)
    · exact List.cons_eq_cons.2 ⟨a.axis_applyTo s axes, axes_applyShapers axes rest _ _⟩

/-- If no shaper fails, then all of them are applied. -/
theorem applyShapers_of_nil (axes : AxisSet) : ∀ (shapers : List (AxisShaper α)) (failed : List String) (s : Shaping α),
    (shapers.map (·.axis)).Nodup → (applyShapers axes shapers failed s).2.1 = [] →
      failed = [] ∧ (applyShapers axes shapers failed s).1 = shapers ∧
        (∀ a ∈ shapers, a.Applied (applyShapers axes shapers failed s).2.2 axes) ∧
          ∀ i : Axis, i.letter ∉ shapers.map (·.axis) →
            (applyShapers axes shapers failed s).2.2.pulses? i = s.pulses? i
  | [], _, _, _, h => ⟨h, rfl, List.forall_mem_nil _, fun _ _ => rfl⟩
  | a :: rest, failed, s, hd, h => by
    obtain ⟨ha, hd⟩ := List.nodup_cons.1 hd
    rw [applyShapers] at h ⊢
    split at h
    · -- a shaper that has failed before stays on the list of those that have
      rename_i hfailed
      obtain ⟨rfl, -⟩ := applyShapers_of_nil axes rest failed s hd h
      cases hfailed
    · rename_i hfailed
      rw [if_neg hfailed]
      obtain ⟨applied, s₁, error, happly⟩ : ∃ applied s₁ error, a.applyTo s axes = (applied, s₁, error) :=
        ⟨_, _, _, rfl⟩
      simp only [happly] at h ⊢
      obtain ⟨hnil, hrest, hall, hkept⟩ := applyShapers_of_nil axes rest _ s₁ hd h
      cases error with
      | some e => simp at hnil
      | none =>
        obtain ⟨rfl, happlied, hother⟩ := AxisShaper.applyTo_eq_none happly
        refine ⟨by simpa using hnil, by rw [hrest], ?_, fun i hi => ?_⟩
        · refine List.forall_mem_cons.2 ⟨happlied.congr fun i hi => hkept i ?_, hall⟩
          rw [hi]
          exact ha
        · rw [List.map_cons, List.mem_cons, not_or] at hi
          rw [hkept i hi.2, hother i hi.1]

/-- Shapers that are applied already change nothing. -/
theorem applyShapers_of_applied {axes : AxisSet} {s : Shaping α} : ∀ {shapers : List (AxisShaper α)},
    (∀ a ∈ shapers, a.Applied s axes) → applyShapers axes shapers [] s = (shapers, [], s)
  | [], _ => rfl
  | a :: rest, h => by
    obtain ⟨ha, hrest⟩ := List.forall_mem_cons.1 h
    simp [applyShapers, ha.applyTo_eq, applyShapers_of_applied hrest]

/-- A model that is shaped as the shapers say: once, if it moves along one of the first two axes. -/
structure Settled (shapers : List (AxisShaper α)) (m : Model α) : Prop where
  once : (m.axes.x || m.axes.y) = true → m.shapers.length = 1
  applied : ∀ layer ∈ m.shapers, ∀ a ∈ shapers, a.Applied layer.1 layer.2

variable {m : Member α}

theorem shapeMember_other (h : m.stepper.queue ≠ some .toolhead) :
    shapeMember shapers failed m = (shapers, failed, m) := if_pos h

/-- A model without shaper that moves along neither of the first two axes is left alone; any other one of the
toolhead has its outermost shaper changed, and is put into one first if it has none. -/
theorem shapeMember_cases (shapers : List (AxisShaper α)) (failed : List String)
    (h : m.stepper.queue = some .toolhead) :
    (m.stepper.model.shapers = [] ∧ (m.stepper.model.axes.x || m.stepper.model.axes.y) = false ∧
      shapeMember shapers failed m = (shapers, failed, m)) ∨
    ∃ wrapped s axes rest model, (wrapped = m.stepper.model ∨ m.stepper.model.shapers = [] ∧
        (m.stepper.model.axes.x || m.stepper.model.axes.y) = true ∧
        wrapped = .inputShaper Shaping.off m.stepper.model) ∧
      wrapped.shapers = (s, axes) :: rest ∧
      model.shapers = ((applyShapers axes shapers failed s).2.2, axes) :: rest ∧
      ((applyShapers axes shapers failed s).2.2 = s → model = wrapped) ∧
      shapeMember shapers failed m = ((applyShapers axes shapers failed s).1,
        (applyShapers axes shapers failed s).2.1, { m with stepper := { m.stepper with model } }) := by
  have hchange : ∀ wrapped : Model α, wrapped.shapers ≠ [] →
      (if m.stepper.model.hasShaper then .ok m.stepper.model else m.stepper.model.shaped?) = .ok wrapped →
      ∃ s axes rest model, wrapped.shapers = (s, axes) :: rest ∧
        model.shapers = ((applyShapers axes shapers failed s).2.2, axes) :: rest ∧
        ((applyShapers axes shapers failed s).2.2 = s → model = wrapped) ∧
        shapeMember shapers failed m = ((applyShapers axes shapers failed s).1,
          (applyShapers axes shapers failed s).2.1, { m with stepper := { m.stepper with model } }) := by
    intro wrapped hne hwrapped
    obtain ⟨hnil, -⟩ | ⟨s, axes, rest, model, hs, hsome, hs', -, hsame⟩ := wrapped.changeShaper?_cases
      fun s axes => let r := applyShapers axes shapers failed s; ((r.1, r.2.1), r.2.2)
    · exact absurd hnil hne
    · refine ⟨s, axes, rest, model, hs, hs', hsame, ?_⟩
      unfold shapeMember
      rw [if_neg (not_not.2 h)]
      simp only [hwrapped]
      dsimp only at hsome
      rw [hsome]
  by_cases hshaped : m.stepper.model.shapers = []
  · have hhas : m.stepper.model.hasShaper = false :=
      Bool.eq_false_of_not_eq_true fun hhas => Model.hasShaper_iff.1 hhas hshaped
    cases hwrap : m.stepper.model.shaped? with
    | error e =>
      refine .inl ⟨hshaped, Model.shaped?_eq_error hwrap, ?_⟩
      unfold shapeMember
      rw [if_neg (not_not.2 h)]
      simp only [hhas, hwrap, Bool.false_eq_true, if_false]
    | ok wrapped =>
      obtain ⟨rfl, hmoves⟩ := Model.shaped?_eq_ok hwrap
      obtain ⟨s, axes, rest, model, hs⟩ := hchange (.inputShaper Shaping.off m.stepper.model)
        (List.cons_ne_nil _ _) (by rw [hhas, hwrap]; rfl)
      exact .inr ⟨_, s, axes, rest, model, .inr ⟨hshaped, hmoves, rfl⟩, hs⟩
  · have hhas : m.stepper.model.hasShaper = true := Model.hasShaper_iff.2 hshaped
    obtain ⟨s, axes, rest, model, hs⟩ := hchange _ hshaped (by rw [hhas]; rfl)
    exact .inr ⟨_, s, axes, rest, model, .inl rfl, hs⟩

/-- If no shaper fails on a stepper of the toolhead, its model is settled. -/
theorem shapeMember_of_nil {shapers : List (AxisShaper α)} {failed : List String} (hd : (shapers.map (·.axis)).Nodup)
    (honce : m.stepper.model.shapers.length ≤ 1) (h : (shapeMember shapers failed m).2.1 = []) :
    failed = [] ∧ (shapeMember shapers failed m).1 = shapers ∧
      (m.stepper.queue = some .toolhead → Settled shapers (shapeMember shapers failed m).2.2.stepper.model) := by
  by_cases hq : m.stepper.queue = some .toolhead
  · obtain ⟨hnil, hstill, heq⟩ | ⟨wrapped, s, axes, rest, model, hwrapped, hs, hs', -, heq⟩ :=
      shapeMember_cases shapers failed hq
    · rw [heq] at h ⊢
      exact ⟨h, rfl, fun _ => ⟨fun hmoves => absurd hmoves (by simp [hstill]), by simp [hnil]⟩⟩
    · rw [heq] at h ⊢
      obtain ⟨hfailed, hshapers, happlied, -⟩ := applyShapers_of_nil axes shapers failed s hd h
      have hrest : rest = [] := by
        obtain rfl | ⟨hnil, -, rfl⟩ := hwrapped
        · rw [hs, List.length_cons] at honce
          exact List.eq_nil_of_length_eq_zero (by omega)
        · rw [Model.shapers, hnil] at hs
          exact (List.cons.inj hs).2.symm
      refine ⟨hfailed, hshapers, fun _ => ⟨fun _ => by rw [hs', hrest]; rfl, ?_⟩⟩
      rw [hs', hrest]
      simpa using happlied
  · rw [shapeMember_other hq] at h ⊢
    exact ⟨h, rfl, fun hq' => absurd hq' hq⟩

/-- A stepper whose model is settled is left as it is. -/
theorem shapeMember_of_settled {shapers : List (AxisShaper α)}
    (h : m.stepper.queue = some .toolhead → Settled shapers m.stepper.model) :
    shapeMember shapers [] m = (shapers, [], m) := by
  by_cases hq : m.stepper.queue = some .toolhead
  · obtain ⟨-, -, heq⟩ | ⟨wrapped, s, axes, rest, model, hwrapped, hs, -, hsame, heq⟩ :=
      shapeMember_cases shapers [] hq
    · exact heq
    · obtain rfl | ⟨hnil, hmoves, -⟩ := hwrapped
      · have happlied : ∀ a ∈ shapers, a.Applied s axes := (h hq).applied (s, axes) (by simp [hs])
        rw [applyShapers_of_applied happlied] at hsame heq
        rw [heq, hsame rfl]
      · have hlength := (h hq).once hmoves
        rw [hnil] at hlength
        cases hlength
  · exact shapeMember_other hq

theorem axes_shapeMember (shapers : List (AxisShaper α)) (failed : List String) (m : Member α) :
    (shapeMember shapers failed m).1.map (·.axis) = shapers.map (·.axis) := by
  by_cases hq : m.stepper.queue = some .toolhead
  · obtain ⟨-, -, heq⟩ | ⟨wrapped, s, axes, rest, model, -, -, -, -, heq⟩ := shapeMember_cases shapers failed hq
    · rw [heq]
    · rw [heq]
      exact axes_applyShapers axes shapers failed s
  · rw [shapeMember_other hq]

/-! ## All steppers -/

theorem shapeMembers_cons (m : Member α) (rest : List (Member α)) (shapers : List (AxisShaper α))
    (failed : List String) : shapeMembers (m :: rest) shapers failed =
      let one := shapeMember shapers failed m
      let others := shapeMembers rest one.1 one.2.1
      (one.2.2 :: others.1, others.2.1, others.2.2) := rfl

theorem axes_shapeMembers : ∀ (members : List (Member α)) (shapers : List (AxisShaper α)) (failed : List String),
    (shapeMembers members shapers failed).2.1.map (·.axis) = shapers.map (·.axis)
  | [], _, _ => rfl
  | m :: rest, shapers, failed => by
    rw [shapeMembers_cons]
    exact (axes_shapeMembers rest _ _).trans (axes_shapeMember shapers failed m)

theorem shapeMembers_of_nil : ∀ (members : List (Member α)) (shapers : List (AxisShaper α)) (failed : List String),
    (shapers.map (·.axis)).Nodup → (∀ m ∈ members, m.stepper.model.shapers.length ≤ 1) →
      (shapeMembers members shapers failed).2.2 = [] →
        failed = [] ∧ (shapeMembers members shapers failed).2.1 = shapers ∧
          ∀ m ∈ (shapeMembers members shapers failed).1, m.stepper.queue = some .toolhead →
            Settled shapers m.stepper.model
  | [], _, _, _, _, h => ⟨h, rfl, nofun⟩
  | m :: rest, shapers, failed, hd, honce, h => by
    rw [shapeMembers_cons] at h ⊢
    obtain ⟨hm, hrest⟩ := List.forall_mem_cons.1 honce
    have hd₁ : ((shapeMember shapers failed m).1.map (·.axis)).Nodup := by rwa [axes_shapeMember]
    obtain ⟨hfailed₁, hshapers, hall⟩ := shapeMembers_of_nil rest _ _ hd₁ hrest h
    obtain ⟨hfailed, hsame, hsettled⟩ := shapeMember_of_nil hd hm hfailed₁
    refine ⟨hfailed, hshapers.trans hsame, List.forall_mem_cons.2 ⟨fun hq => hsettled ?_, ?_⟩⟩
    · obtain ⟨model, heq⟩ := refitted_shapeMember shapers failed m
      rwa [heq] at hq
    · simpa only [hsame] using hall

theorem shapeMembers_of_settled {shapers : List (AxisShaper α)} : ∀ {members : List (Member α)},
    (∀ m ∈ members, m.stepper.queue = some .toolhead → Settled shapers m.stepper.model) →
      shapeMembers members shapers [] = (members, shapers, [])
  | [], _ => rfl
  | m :: rest, h => by
    obtain ⟨hm, hrest⟩ := List.forall_mem_cons.1 h
    simp only [shapeMembers, shapeMember_of_settled hm, shapeMembers_of_settled hrest]

/-- If configuring succeeds, the shapers are as they were, and the steppers of the toolhead are settled. -/
theorem configureShaping_of_none {g : StepGenerator α} {shapers : List (AxisShaper α)}
    (hd : (shapers.map (·.axis)).Nodup) (honce : ∀ m ∈ g.members, m.stepper.model.shapers.length ≤ 1)
    (h : (g.configureShaping shapers).2.2 = none) :
    (g.configureShaping shapers).2.1 = shapers ∧ ∀ m ∈ (g.configureShaping shapers).1.members,
      m.stepper.queue = some .toolhead → Settled shapers m.stepper.model := by
  have hnil : (shapeMembers g.members shapers []).2.2 = [] := by
    by_contra hne
    have hempty : (shapeMembers g.members shapers []).2.2.isEmpty = false := by
      rwa [Bool.eq_false_iff, Ne, List.isEmpty_iff]
    simp [configureShaping, hempty] at h
  obtain ⟨-, hshapers, hsettled⟩ := shapeMembers_of_nil g.members shapers [] hd honce hnil
  refine ⟨hshapers, fun m hm => ?_⟩
  simp only [configureShaping, refreshWindows_members] at hm
  obtain ⟨old, hold, rfl⟩ := List.mem_map.1 hm
  exact hsettled old hold

/-- A generator whose steppers are settled and whose windows are up to date is left as it is. -/
theorem configureShaping_of_settled {g : StepGenerator α} {shapers : List (AxisShaper α)}
    (hsettled : ∀ m ∈ g.members, m.stepper.queue = some .toolhead → Settled shapers m.stepper.model)
    (hcurrent : g.refreshWindows = g) : g.configureShaping shapers = (g, shapers, none) := by
  simp [configureShaping, shapeMembers_of_settled hsettled, hcurrent]

end StepGenerator

end PrinterMotion
