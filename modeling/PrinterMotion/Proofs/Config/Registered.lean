/-
The names under which the steppers of a configured machine are registered, and the reports of its flushes. The
steppers of the toolhead go by the names of their sections, which are different from each other, and the extruder
always by the same one. So a report tells the steps of all steppers, unless a section of the toolhead has the name of
the extruder too.
-/
import PrinterMotion.Proofs.Config.Building
import PrinterMotion.Proofs.StepGenerator.Reporting
import PrinterMotion.Proofs.Toml.Distinct

namespace PrinterMotion

open StepGenerator (Operation attached)

namespace Config

/-! ## Names -/

/-- The steppers of a machine, the extruder behind those of the toolhead, if all of them can be built. -/
def buildAll (c : Config) : Except MachineError (List (Stepper Float)) := do
  let steppers ← c.buildSteppers
  match c.extruder with
  | none => return steppers
  | some e => return steppers ++ [← buildExtruder e]

/-- The names of the sections of the toolhead's steppers. -/
def sectionNames (c : Config) : List String := c.steppers.map Prod.fst

variable {c : Config} {steppers : List (Stepper Float)}

/-! ### Sections -/

theorem perm_insertByName {β : Type} (name : String) (b : β) : ∀ l : List (String × β),
    (insertByName name b l).Perm ((name, b) :: l)
  | [] => .refl _
  | (n, old) :: rest => by
    rw [insertByName]
    split
    · exact .refl _
    · exact ((perm_insertByName name b rest).cons _).trans (.swap ..)

theorem names_foldlM_stepperSection : ∀ (entries : Toml.Entries) (acc out : List (String × StepperSection)),
    entries.foldlM (fun steppers (name, v) => do return insertByName name (← stepperSection v) steppers) acc =
      some out → (out.map Prod.fst).Perm (acc.map Prod.fst ++ entries.map Prod.fst) := by
  intro entries
  induction entries with
  | nil =>
    intro acc out h
    cases h
    rw [List.map_nil, List.append_nil]
  | cons e rest ih =>
    intro acc out h
    rw [List.foldlM_cons] at h
    obtain ⟨acc', hacc, h⟩ := Option.bind_eq_some_iff.1 h
    obtain ⟨s, -, heq⟩ := Option.bind_eq_some_iff.1 hacc
    cases heq
    have hnames := ((perm_insertByName e.1 s acc).map Prod.fst).append_right (rest.map Prod.fst)
    exact (ih _ _ h).trans (hnames.trans List.perm_middle.symm)

/-- The sections have the keys of the table that they are read from. -/
theorem names_stepperSections {entries : Toml.Entries} {sections : List (String × StepperSection)}
    (h : stepperSections (.table entries) = some sections) :
    (sections.map Prod.fst).Perm (entries.map Prod.fst) :=
  names_foldlM_stepperSection entries [] sections h

theorem nodup_stepperSections {v : Toml.Value} (hv : v.Distinct) {sections : List (String × StepperSection)}
    (h : stepperSections v = some sections) : (sections.map Prod.fst).Nodup := by
  cases hv with
  | table keys each => exact (names_stepperSections h).nodup_iff.2 keys
  | array each => cases h
  | scalar hscalar => cases v with
    | table entries => cases hscalar
    | _ => cases h

/-- In a configuration that is read each stepper section has a name of its own. -/
theorem nodup_sectionNames {document : String} (h : parse? document = some c) : c.sectionNames.Nodup := by
  obtain ⟨entries, hread, h⟩ := Option.bind_eq_some_iff.1 h
  obtain ⟨_, -, h⟩ := Option.bind_eq_some_iff.1 h
  obtain ⟨sections, hsections, h⟩ := Option.bind_eq_some_iff.1 h
  have hc : c.steppers = sections := by
    iterate 7 obtain ⟨_, -, h⟩ := Option.bind_eq_some_iff.1 h
    cases h
    rfl
  rw [sectionNames, hc]
  unfold Settings.getD at hsections
  split at hsections
  · cases hsections
    exact List.nodup_nil
  · rename_i v hv
    obtain ⟨before, behind, rfl, -⟩ := List.lookup_eq_some_iff.1 hv
    cases Toml.distinct_read hread with
    | table _ each =>
      exact nodup_stepperSections (each ("stepper", v) (List.mem_append_right _ List.mem_cons_self)) hsections
    | scalar hscalar => cases hscalar

/-! ### Steppers -/

theorem names_of_forall₂ {β : Type} {R : β → Stepper Float → Prop} {name : β → String}
    (hR : ∀ b s, R b s → s.name = name b) {l : List β} (h : List.Forall₂ R l steppers) :
    steppers.map (·.name) = l.map name := by
  induction h with
  | nil => rfl
  | cons hs _ ih => rw [List.map_cons, List.map_cons, hR _ _ hs, ih]

theorem names_withModels (c : Config) (models : List (Model Float)) :
    ((c.withModels models).map (·.name)).Sublist c.sectionNames := by
  have hnames : (c.withModels models).map (·.name) = ((c.steppers.zip models).map Prod.fst).map Prod.fst := by
    rw [withModels, List.map_map, List.map_map]
    rfl
  rw [hnames]
  exact (fst_zip_sublist _ _).map _

/-- The toolhead has at most one stepper of each section. -/
theorem names_kinematicSteppers {family : Family} (h : c.kinematicSteppers family = .ok steppers) :
    (steppers.map (·.name)).Sublist c.sectionNames := by
  have hlinear : c.steppers.mapM (linearStepper family) = .ok steppers →
      (steppers.map (·.name)).Sublist c.sectionNames := by
    intro hbuilt
    have hname : ∀ p s, linearStepper family p = .ok s → s.name = p.1 := by
      intro p s hs
      obtain ⟨token, -, hs⟩ := bind_eq_ok.1 hs
      obtain ⟨model, -, hs⟩ := bind_eq_ok.1 hs
      cases hs
      rfl
    exact names_of_forall₂ hname (forall₂_of_mapM hbuilt) ▸ List.Sublist.refl _
  cases family with
  | cartesian => exact hlinear h
  | coreXY => exact hlinear h
  | coreXZ => exact hlinear h
  | delta =>
    obtain ⟨d, -, h⟩ := bind_eq_ok.1 h
    obtain ⟨_, -, h⟩ := bind_eq_ok.1 h
    obtain ⟨towers, -, h⟩ := bind_eq_ok.1 h
    cases h
    exact c.names_withModels _
  | rotaryDelta =>
    obtain ⟨r, -, h⟩ := bind_eq_ok.1 h
    obtain ⟨_, -, h⟩ := bind_eq_ok.1 h
    have hname : ∀ p s, shoulderStepper r p = .ok s → s.name = p.1.1 := by
      intro p s hs
      obtain ⟨shoulder, -, hs⟩ := bind_eq_ok.1 hs
      cases hs
      rfl
    have hnames : steppers.map (·.name) = ((c.steppers.zip r.bearings).map Prod.fst).map Prod.fst := by
      rw [names_of_forall₂ hname (forall₂_of_mapM h), List.map_map]
      rfl
    rw [hnames]
    exact (fst_zip_sublist _ _).map _
  | winch =>
    obtain ⟨w, -, h⟩ := bind_eq_ok.1 h
    obtain ⟨_, -, h⟩ := bind_eq_ok.1 h
    cases h
    exact c.names_withModels _
  | none =>
    cases h
    exact List.nil_sublist _

theorem name_onCarriage {s s' : Stepper Float} {letter : Char} {scale offset : Float}
    (h : onCarriage s letter scale offset = .ok s') : s'.name = s.name := by
  unfold onCarriage at h
  dsimp only at h
  cases hset : (Carriage.identity s.model.axes).setTransform s.model.axes letter scale offset with
  | error e =>
    rw [hset] at h
    cases h
  | ok carriage =>
    rw [hset] at h
    cases h
    rfl

theorem names_withCarriage {dc : DualCarriageSection} {carried : List (Stepper Float)}
    (h : withCarriage dc steppers = .ok carried) : carried.map (·.name) = steppers.map (·.name) := by
  obtain ⟨letter, -, h⟩ := bind_eq_ok.1 h
  split at h
  · cases h
  · rename_i axis _
    have hname : ∀ s s', carry dc letter axis s = .ok s' → s'.name = s.name := by
      intro s s' hs
      unfold carry at hs
      split_ifs at hs
      · exact name_onCarriage hs
      · exact name_onCarriage hs
      · cases hs
        rfl
    exact names_of_forall₂ hname (forall₂_of_mapM h)

theorem names_buildSteppers (h : c.buildSteppers = .ok steppers) :
    (steppers.map (·.name)).Sublist c.sectionNames := by
  obtain ⟨family, -, h⟩ := bind_eq_ok.1 h
  obtain ⟨bare, hbare, h⟩ := bind_eq_ok.1 h
  have hnames := names_kinematicSteppers hbare
  split at h
  · cases h
    exact hnames
  · rename_i dc _
    cases hcarried : withCarriage dc bare with
    | error e =>
      rw [hcarried] at h
      cases h
    | ok carried =>
      rw [hcarried] at h
      cases h
      rw [names_withCarriage hcarried]
      exact hnames

/-- The name of the extruder is always the same. -/
theorem name_buildExtruder {e : ExtruderSection} {s : Stepper Float} (h : buildExtruder e = .ok s) :
    s.name = "extruder" := by
  obtain ⟨pa, -, h⟩ := bind_eq_ok.1 h
  cases h
  rfl

/-- A name other than that of the extruder is taken once, and that one too unless a section has it as well. -/
theorem count_name_le_one (hkeys : c.sectionNames.Nodup) {built : List (Stepper Float)}
    (hbuilt : c.buildAll = .ok built) {name : String}
    (hfree : name = "extruder" → c.extruder = none ∨ "extruder" ∉ c.sectionNames) :
    (built.map (·.name)).count name ≤ 1 := by
  obtain ⟨steppers, hsteppers, hall⟩ := bind_eq_ok.1 hbuilt
  have hnames := names_buildSteppers hsteppers
  have honce : (steppers.map (·.name)).count name ≤ 1 :=
    List.nodup_iff_count_le_one.1 (hkeys.sublist hnames) name
  split at hall <;> rename_i hextruder
  · cases hall
    exact honce
  · obtain ⟨e, he, hall⟩ := bind_eq_ok.1 hall
    cases hall
    rw [List.map_append, List.count_append, List.map_singleton, name_buildExtruder he, List.count_singleton]
    split
    · -- The extruder has this name, so no stepper of the toolhead does.
      rename_i hname
      obtain rfl : "extruder" = name := by simpa using hname
      have hnot : "extruder" ∉ c.sectionNames := (hfree rfl).resolve_left (by rw [hextruder]; exact nofun)
      rw [List.count_eq_zero.2 fun hmem => hnot (hnames.subset hmem)]
    · exact honce

/-! ## Reports -/

/-- What is counted once is there once. -/
theorem eq_of_count_le_one {β : Type} {f : β → String} {l : List β} {b b' : β} (h : (l.map f).count (f b) ≤ 1)
    (hb : b ∈ l) (hb' : b' ∈ l) (heq : f b' = f b) : b' = b := by
  rw [List.count, List.countP_map, List.countP_eq_length_filter] at h
  have hmem : b ∈ l.filter ((· == f b) ∘ f) := List.mem_filter.2 ⟨hb, by simp⟩
  have hmem' : b' ∈ l.filter ((· == f b) ∘ f) := List.mem_filter.2 ⟨hb', by simp [heq]⟩
  obtain ⟨only, honly⟩ := List.length_eq_one_iff.1 (le_antisymm h (List.length_pos_of_mem hmem))
  rw [honly, List.mem_singleton] at hmem hmem'
  rw [hmem, hmem']

section Reports

variable {built : List (Stepper Float)} {ops : List (Operation Float)} {time : Float} {report : StepReport Float}

theorem registered_of_added (toolhead : Queue Float) (extras : List (String × Queue Float))
    (hadded : ((ops.filterMap Operation.added?).map (·.name)).Perm (built.map (·.name))) :
    ((attached toolhead extras).operated ops).registered.Perm (built.map (·.name)) :=
  (StepGenerator.registered_operated toolhead extras ops).symm ▸ hadded

/-- The steps of a stepper are told if it does not share the name of the extruder with the extruder. -/
theorem tells_of_flush (hkeys : c.sectionNames.Nodup) (hbuilt : c.buildAll = .ok built) {toolhead : Queue Float}
    {extras : List (String × Queue Float)}
    (hadded : ((ops.filterMap Operation.added?).map (·.name)).Perm (built.map (·.name)))
    (hflush : (((attached toolhead extras).operated ops).flush time).2 = .ok report) {m : Member Float}
    (hm : m ∈ ((attached toolhead extras).operated ops).members)
    (hname : m.stepper.name = "extruder" → c.extruder = none ∨ "extruder" ∉ c.sectionNames) :
    ((attached toolhead extras).operated ops).Tells time report m.stepper := by
  have hcount : ((attached toolhead extras).operated ops).registered.count m.stepper.name ≤ 1 :=
    ((registered_of_added toolhead extras hadded).count_eq _).trans_le (count_name_le_one hkeys hbuilt hname)
  exact (StepGenerator.reported_of_flush hflush).tells_of_unique hm fun m' hm' heq =>
    eq_of_count_le_one (f := fun m => m.stepper.name) hcount hm hm' heq

/-- In a configuration that is read the sections have names of their own. So the flushes of its steppers tell the steps
of all of them, unless one of its sections has the name of the extruder. -/
theorem tells_of_parse? {document : String} (hread : parse? document = some c)
    (hfree : c.extruder = none ∨ "extruder" ∉ c.sectionNames) (hbuilt : c.buildAll = .ok built)
    {toolhead : Queue Float} {extras : List (String × Queue Float)}
    (hadded : ((ops.filterMap Operation.added?).map (·.name)).Perm (built.map (·.name)))
    (hflush : (((attached toolhead extras).operated ops).flush time).2 = .ok report) :
    ∀ m ∈ ((attached toolhead extras).operated ops).members,
      ((attached toolhead extras).operated ops).Tells time report m.stepper := fun _ hm =>
  tells_of_flush (nodup_sectionNames hread) hbuilt hadded hflush hm fun _ => hfree

/-- Whatever is done to a generator to which the steppers of a configuration are added, each flush that succeeds
reports the steps of every one under its name, unless a section of the toolhead has the name of the extruder. Then
those two are told just if they have answered alike. Nothing else stands in the report. -/
theorem flush_tells (hkeys : c.sectionNames.Nodup) (hbuilt : c.buildAll = .ok built) (toolhead : Queue Float)
    (extras : List (String × Queue Float))
    (hadded : ((ops.filterMap Operation.added?).map (·.name)).Perm (built.map (·.name)))
    (hflush : (((attached toolhead extras).operated ops).flush time).2 = .ok report) :
    let g := (attached toolhead extras).operated ops
    g.registered.Perm (built.map (·.name)) ∧
    (∀ m ∈ g.members, (m.stepper.name = "extruder" → c.extruder = none ∨ "extruder" ∉ c.sectionNames) →
      g.Tells time report m.stepper) ∧
    ((∀ m ∈ g.members, g.Tells time report m.stepper) ↔
      ∀ m ∈ g.members, ∀ m' ∈ g.members, m.stepper.name = "extruder" → m'.stepper.name = "extruder" →
        g.answer time m.stepper = g.answer time m'.stepper) ∧
    report.Ordered ∧
    ∀ e ∈ report, ∃ m ∈ g.members, m.stepper.name = e.1 ∧ g.answer time m.stepper = .ok e.2 ∧ e.2 ≠ #[] := by
  intro g
  have hreported : g.Reported time report := StepGenerator.reported_of_flush hflush
  have hfree : ∀ m ∈ g.members, (m.stepper.name = "extruder" → c.extruder = none ∨ "extruder" ∉ c.sectionNames) →
      g.Tells time report m.stepper := fun _ hm => tells_of_flush hkeys hbuilt hadded hflush hm
  refine ⟨registered_of_added toolhead extras hadded, hfree, ⟨fun htells => ?_, fun halike m hm => ?_⟩,
    hreported.ordered, fun e he => hreported.entry he⟩
  · exact (hreported.tells_iff "extruder").1 fun m hm _ => htells m hm
  · by_cases hname : m.stepper.name = "extruder"
    · exact (hreported.tells_iff "extruder").2 halike m hm hname
    · exact hfree m hm fun h => absurd h hname

end Reports

/-- A machine with one stepper of the toolhead, and an extruder. -/
def oneNamed (name : String) : Config :=
  { Config.default with
    steppers := [(name, ⟨.default, some "x"⟩)]
    extruder := some ⟨.default, 0.0, 0.0⟩ }

theorem buildAll_oneNamed (name : String) : (oneNamed name).buildAll =
    .ok [Stepper.new name Drive.default.stepDistance (.linear .x),
      Stepper.new "extruder" Drive.default.stepDistance (.extruder ⟨0.0, 0.0, 0.0⟩)] := rfl

/-- Motion at one speed from the first second to the next. -/
def cruising (speed : Float) : Queue Float :=
  ⟨#[⟨0.0, 1.0, 0.0, 0.0, ⟨0.0, 0.0, 0.0⟩, ⟨0.0, 0.0, 0.0⟩, .hold⟩,
    ⟨1.0, 1.0, speed, 0.0, ⟨0.0, 0.0, 0.0⟩, ⟨1.0, 1.0, 0.0⟩, .cruise⟩], [], none⟩

/-- The steppers of this machine are added, the extruder on a queue of its own. -/
def addNamed (name : String) : List (Operation Float) :=
  [.prepare (.addStepper (Stepper.new name Drive.default.stepDistance (.linear .x))),
    .prepare (.addStepper { Stepper.new "extruder" Drive.default.stepDistance (.extruder ⟨0.0, 0.0, 0.0⟩) with
      queue := some (.extra "e") })]

/-- Both steppers have motion. -/
def running (name : String) : StepGenerator Float :=
  (attached (cruising 200.0) [("e", cruising 100.0)]).operated (addNamed name)

/-- The steps of an axis and of an extruder that have different names are told. -/
theorem flush_tells_stepperX : (oneNamed "stepper_x").validate = .ok () ∧
    ∃ report, ((running "stepper_x").flush 1.00115).2 = .ok report ∧
      report.map (fun e => (e.1, e.2.size)) = [("extruder", 1), ("stepper_x", 2)] ∧
      ∀ m ∈ (running "stepper_x").members, (running "stepper_x").Tells 1.00115 report m.stepper := by
  have hsizes : ((running "stepper_x").flush 1.00115).2.toOption.map (·.map fun e => (e.1, e.2.size)) =
      some [("extruder", 1), ("stepper_x", 2)] := by decide +kernel
  obtain ⟨report, hreport, hsizes⟩ := Option.map_eq_some_iff.1 hsizes
  have hflush := toOption_eq_some.1 hreport
  obtain ⟨-, htells, -⟩ := flush_tells (c := oneNamed "stepper_x") (List.nodup_singleton _) (buildAll_oneNamed _)
    (cruising 200.0) [("e", cruising 100.0)] (List.Perm.refl _) hflush
  exact ⟨validate_of_isOk (by decide +kernel), report, hflush, hsizes,
    fun m hm => htells m hm fun _ => .inr (by decide)⟩

/-- If the section of the axis has the name of the extruder, the steps of the axis are lost. -/
theorem not_flush_tells : ¬ ∀ (c : Config) (built : List (Stepper Float)) (toolhead : Queue Float)
    (extras : List (String × Queue Float)) (ops : List (Operation Float)) (time : Float) (report : StepReport Float),
    c.validate = .ok () → c.sectionNames.Nodup → c.buildAll = .ok built →
    ((ops.filterMap Operation.added?).map (·.name)).Perm (built.map (·.name)) →
    (((attached toolhead extras).operated ops).flush time).2 = .ok report →
      ∀ m ∈ ((attached toolhead extras).operated ops).members,
        ((attached toolhead extras).operated ops).Tells time report m.stepper := by
  intro h
  have hsizes : ((running "extruder").flush 1.00115).2.toOption.map (·.map fun e => (e.1, e.2.size)) =
      some [("extruder", 1)] := by decide +kernel
  obtain ⟨report, hreport, hsizes⟩ := Option.map_eq_some_iff.1 hsizes
  -- The report has one entry with one step, where the axis has answered with two.
  obtain ⟨m, hm, hname, hanswer⟩ : ∃ m ∈ (running "extruder").members, m.stepper.name = "extruder" ∧
      ((running "extruder").answer 1.00115 m.stepper).toOption.map Array.size = some 2 := by decide +kernel
  obtain ⟨steps, hsteps, hlookup⟩ := h (oneNamed "extruder") _ (cruising 200.0) [("e", cruising 100.0)]
    (addNamed "extruder") 1.00115 report (validate_of_isOk (by decide +kernel)) (List.nodup_singleton _)
    (buildAll_oneNamed _) (List.Perm.refl _) (toOption_eq_some.1 hreport) m hm
  obtain ⟨e, rfl, he⟩ := List.map_eq_singleton_iff.1 hsizes
  obtain ⟨name, told⟩ := e
  obtain ⟨rfl, htold⟩ := Prod.mk.inj he
  rw [hname, List.lookup_cons_self] at hlookup
  obtain ⟨rfl, -⟩ := StepReport.entry?_eq_some.1 hlookup.symm
  have hsize : some steps.size = some 2 := by
    rw [← hanswer, show (running "extruder").answer 1.00115 m.stepper = _ from hsteps]
    rfl
  rw [htold] at hsize
  cases hsize

end Config

end PrinterMotion
