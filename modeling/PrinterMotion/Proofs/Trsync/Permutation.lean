/-
The order of a batch does not matter. Over reports for different endpoints, what each finds is settled by
the dispatch before the batch, so the race between triggers and passed expire clocks has one winner: the
trigger of the least host time, and at the same time the one registered first, unless an expire clock
passed before it. What is then told or extended is the same at every endpoint. Host times are exact here.
-/
import PrinterMotion.Proofs.Exact
import PrinterMotion.Proofs.Trsync.Running

namespace PrinterMotion

namespace Dispatch

/-! ## The first of a list -/

theorem not_before_firstBy {β : Type} {before : β → β → Bool} (irrefl : ∀ a, before a a = false)
    (trans : ∀ a b c, before a b = true → before b c = true → before a c = true) {l : List β} {b : β}
    (h : firstBy before l = some b) : ∀ c ∈ l, before c b = false := by
  -- whatever comes before a new best comes before the old one
  have step : ∀ (rest seen : List β) (best : β), (∀ c ∈ seen, before c best = false) →
      ∀ c ∈ seen ++ rest, before c (rest.foldl (fun best c => if before c best then c else best) best) = false := by
    intro rest
    induction rest with
    | nil => simp
    | cons x rest ih =>
      intro seen best hseen
      rw [List.foldl_cons, List.append_cons]
      apply ih
      intro c hc
      by_cases hx : before x best = true
      · rw [if_pos hx]
        rcases List.mem_append.1 hc with hc | hc
        · cases hcx : before c x with
          | false => rfl
          | true => rw [← hseen c hc, trans c x best hcx hx]
        · rw [List.mem_singleton.1 hc, irrefl]
      · rw [if_neg hx]
        rcases List.mem_append.1 hc with hc | hc
        · exact hseen c hc
        · rw [List.mem_singleton.1 hc]; simpa using hx
  cases l with
  | nil => cases h
  | cons x rest =>
    cases h
    refine step rest [x] x ?_
    simpa using irrefl x

theorem exists_firstBy {β : Type} {before : β → β → Bool} {l : List β} {b : β} (hb : b ∈ l) :
    ∃ a, firstBy before l = some a := by
  cases h : firstBy before l with
  | none => rw [firstBy_eq_none.1 h] at hb; cases hb
  | some a => exact ⟨a, rfl⟩

theorem map_set_of_nodup {β γ : Type} [DecidableEq β] {f : β → γ} {l : List β} (h : l.Nodup) {i : Nat} {b : β}
    (hi : l[i]? = some b) (c : γ) : (l.map f).set i c = l.map fun x => if x = b then c else f x := by
  obtain ⟨hlt, rfl⟩ := List.getElem?_eq_some_iff.1 hi
  apply List.ext_getElem (by simp)
  intro j h1 h2
  rw [List.length_map] at h2
  rw [List.getElem_set, List.getElem_map, List.getElem_map]
  by_cases hij : i = j
  · subst hij; rw [if_pos rfl, if_pos rfl]
  · rw [if_neg hij, if_neg fun he => hij ((List.Nodup.getElem_inj_iff h).1 he).symm]

/-! ## Who comes first in a batch -/

variable {F : Type} [Exact F] {d : Dispatch F} {us us' : List StatusUpdate}

/-- The trigger of the least host time, and at the same time of the endpoint registered first. -/
structure Wins (d : Dispatch F) (us : List StatusUpdate) (u : StatusUpdate) (place : Nat) (clock : UInt64)
    (hostTime : F) : Prop where
  mem : u ∈ us
  registered : u.place = some place
  finding : d.finding u = .trip clock hostTime
  first : ∀ v ∈ us, ∀ p c t, v.place = some p → d.finding v = .trip c t →
    hostTime < t ∨ hostTime = t ∧ place ≤ p

/-- The expire clock that passed first, and the error that tells of it. -/
structure LapsesFirst (d : Dispatch F) (us : List StatusUpdate) (error : DispatchError) (expiredAt : F) : Prop where
  lapse : ∃ u ∈ us, ∃ clock expire, d.finding u = .lapse clock expire expiredAt ∧
    error = .lapsed u.report.oid clock expire
  first : ∀ v ∈ us, ∀ c e t, d.finding v = .lapse c e t → expiredAt ≤ t

theorem Wins.unique {u v : StatusUpdate} {p q : Nat} {c c' : UInt64} {t t' : F} (hu : Wins d us u p c t)
    (hv : Wins d us v q c' t') (h : (us.map StatusUpdate.place).Nodup) : u = v := by
  have hpq : p = q := by
    rcases hu.first v hv.mem q c' t' hv.registered hv.finding with h1 | ⟨h1, h1'⟩ <;>
      rcases hv.first u hu.mem p c t hu.registered hu.finding with h2 | ⟨h2, h2'⟩
    · exact absurd h1 h2.asymm
    · exact absurd h1 h2.not_gt
    · exact absurd h2 h1.not_gt
    · exact le_antisymm h1' h2'
  exact List.inj_on_of_nodup_map h hu.mem hv.mem (by rw [hu.registered, hv.registered, hpq])

theorem Wins.perm {u : StatusUpdate} {p : Nat} {c : UInt64} {t : F} (hp : us.Perm us')
    (h : Wins d us u p c t) : Wins d us' u p c t :=
  ⟨hp.mem_iff.1 h.mem, h.registered, h.finding, fun v hv => h.first v (hp.mem_iff.2 hv)⟩

theorem LapsesFirst.perm {error : DispatchError} {t : F} (hp : us.Perm us') (h : LapsesFirst d us error t) :
    LapsesFirst d us' error t := by
  obtain ⟨u, hu, hl⟩ := h.lapse
  exact ⟨⟨u, hp.mem_iff.1 hu, hl⟩, fun v hv => h.first v (hp.mem_iff.2 hv)⟩

theorem earlier_irrefl (a : Trip F) : a.earlier a = false := by
  simp [Trip.earlier]

theorem earlier_trans (a b c : Trip F) (h : a.earlier b = true) (h' : b.earlier c = true) :
    a.earlier c = true := by
  simp only [Trip.earlier, Scalar.totalLt_eq, Bool.or_eq_true, Bool.and_eq_true, Bool.not_eq_true',
    decide_eq_true_eq, decide_eq_false_iff_not, not_lt] at h h' ⊢
  rcases h with h | ⟨h, hp⟩ <;> rcases h' with h' | ⟨h', hp'⟩
  · exact .inl (h.trans h')
  · exact .inl (h.trans_le h')
  · exact .inl (h.trans_lt h')
  · exact .inr ⟨h.trans h', hp.trans hp'⟩

/-- The first of all triggers wins. -/
theorem wins_of_firstBy {t : Trip F} (h : firstBy Trip.earlier (trips 0 us (us.map d.finding)) = some t) :
    ∃ u i, us[i]? = some u ∧ t = ⟨i, t.place, u.report, t.clock, t.hostTime⟩ ∧
      Wins d us u t.place t.clock t.hostTime := by
  obtain ⟨i, u, hu, hf, ht⟩ := exists_of_mem_trips us _ 0 t (firstBy_mem h)
  have hfind : d.finding u = .trip t.clock t.hostTime := by simpa [hu] using hf
  obtain ⟨p, hp, -⟩ := place_of_finding (d := d) (u := u) (by rw [hfind]; simp)
  have hplace : t.place = p := by rw [ht, hp]; rfl
  refine ⟨u, i, hu, ?_, List.mem_of_getElem? hu, by rw [hp, hplace], hfind, fun v hv q c t' hq hv' => ?_⟩
  · rw [Nat.zero_add] at ht
    rw [ht]
  · obtain ⟨j, hj⟩ := List.getElem?_of_mem hv
    have hf' : (us.map d.finding)[j]? = some (.trip c t') := by
      rw [List.getElem?_map, hj]; exact congrArg some hv'
    have hmem := mem_trips_of 0 hj hf'
    have := not_before_firstBy earlier_irrefl earlier_trans h _ hmem
    simp only [Trip.earlier, hq, Option.getD_some, Scalar.totalLt_eq, Bool.or_eq_false_iff,
      Bool.and_eq_false_imp, Bool.not_eq_true', decide_eq_false_iff_not, not_lt] at this
    rcases this.1.lt_or_eq with hlt | heq
    · exact .inl hlt
    · exact .inr ⟨heq, this.2 heq.ge⟩

theorem lapsesFirst_of_firstBy {l : Lapse F}
    (h : firstBy (fun a b : Lapse F => Scalar.totalLt a.expiredAt b.expiredAt) (lapses us (us.map d.finding)) =
      some l) : LapsesFirst d us l.error l.expiredAt := by
  obtain ⟨i, u, clock, expire, hu, hf, he⟩ := exists_of_mem_lapses us _ l (firstBy_mem h)
  refine ⟨⟨u, List.mem_of_getElem? hu, clock, expire, by simpa [hu] using hf, he⟩, fun v hv c e t hv' => ?_⟩
  obtain ⟨j, hj⟩ := List.getElem?_of_mem hv
  have hf' : (us.map d.finding)[j]? = some (.lapse c e t) := by
    rw [List.getElem?_map, hj]; exact congrArg some hv'
  have hmem := mem_lapses_of hj hf'
  have := not_before_firstBy (by simp) (fun a b c hab hbc => ?_) h _ hmem
  · simpa using this
  · simp only [Scalar.totalLt_eq, decide_eq_true_eq] at hab hbc ⊢
    exact hab.trans hbc

/-! ## What a batch comes to -/

/-- The outcomes of a batch that one of its reports decided. -/
def outcomesOf (d : Dispatch F) (winner : StatusUpdate) (event : TriggerEvent F) (u : StatusUpdate) :
    StatusOutcome F :=
  if u = winner then .triggered event else Finding.outcome (d.finding u)

theorem exists_firstTrip {v : StatusUpdate} (hv : v ∈ us) {c : UInt64} {t : F} (hf : d.finding v = .trip c t) :
    ∃ first, firstBy Trip.earlier (trips 0 us (us.map d.finding)) = some first := by
  obtain ⟨j, hj⟩ := List.getElem?_of_mem hv
  exact exists_firstBy (mem_trips_of 0 hj (by rw [List.getElem?_map, hj]; exact congrArg some hf))

theorem exists_firstLapse {v : StatusUpdate} (hv : v ∈ us) {c e : UInt64} {t : F}
    (hf : d.finding v = .lapse c e t) : ∃ first,
      firstBy (fun a b : Lapse F => Scalar.totalLt a.expiredAt b.expiredAt) (lapses us (us.map d.finding)) =
        some first := by
  obtain ⟨j, hj⟩ := List.getElem?_of_mem hv
  exact exists_firstBy (mem_lapses_of hj (by rw [List.getElem?_map, hj]; exact congrArg some hf))

/-- A winner that no expire clock passed before ends the generation. -/
theorem batch_of_wins (hb : d.broken = false) (hn : (us.map StatusUpdate.place).Nodup) {u : StatusUpdate}
    {p : Nat} {clock : UInt64} {t : F} (hw : Wins d us u p clock t)
    (hl : ∀ v ∈ us, ∀ c e at_, d.finding v = .lapse c e at_ → t ≤ at_) :
    ∃ dispatch posts event, (d.noted us).fire ⟨0, p, u.report, clock, t⟩ = (dispatch, posts, event) ∧
      d.batch us = (dispatch, posts, .ok (us.map (outcomesOf d u event))) := by
  obtain ⟨dispatch, posts, event, hfire⟩ : ∃ dispatch posts event,
    (d.noted us).fire ⟨0, p, u.report, clock, t⟩ = (dispatch, posts, event) := ⟨_, _, _, rfl⟩
  refine ⟨dispatch, posts, event, hfire, ?_⟩
  obtain ⟨first, hfirst⟩ := exists_firstTrip hw.mem hw.finding
  obtain ⟨v, i, hi, heq, hv⟩ := wins_of_firstBy hfirst
  obtain rfl := hv.unique hw hn
  -- the winner is unique, so the trigger that is found first is its
  have htrip : Finding.trip first.clock first.hostTime = .trip clock t := hv.finding.symm.trans hw.finding
  have hplace : first.place = p := Option.some.inj (hv.registered.symm.trans hw.registered)
  cases htrip
  have hlapse : (firstBy (fun a b : Lapse F => Scalar.totalLt a.expiredAt b.expiredAt)
      (lapses us (us.map d.finding))).filter (fun l => l.expiredAt < first.hostTime) = none := by
    rw [Option.filter_eq_none_iff]
    intro l hl'
    obtain ⟨w, hw', c, e, hf, -⟩ := (lapsesFirst_of_firstBy hl').lapse
    simpa using hl w hw' c e l.expiredAt hf
  have hfire' : (d.noted us).fire first = (dispatch, posts, event) := by
    rw [← hfire, heq, hplace]
    rfl
  have hset : (us.map fun v => Finding.outcome (d.finding v)).set first.position (.triggered event) =
      us.map (outcomesOf d v event) := by
    rw [heq]
    exact map_set_of_nodup (List.Nodup.of_map _ hn) hi _
  simp only [batch, hb, noteAll_eq hn, hfirst, hlapse, hfire', List.map_map, Function.comp_def, hset]
  rfl

/-- An expire clock that passed before all triggers ends the generation. -/
theorem batch_of_lapsesFirst (hb : d.broken = false) (hn : (us.map StatusUpdate.place).Nodup)
    {error : DispatchError} {at_ : F} (hl : LapsesFirst d us error at_)
    (ht : ∀ v ∈ us, ∀ c t, d.finding v = .trip c t → at_ < t) :
    ∃ error', LapsesFirst d us error' at_ ∧ d.batch us = (d.noted us).abort error' := by
  obtain ⟨u, hu, clock, expire, hf, -⟩ := hl.lapse
  obtain ⟨first, hfirst⟩ := exists_firstLapse hu hf
  have hfl := lapsesFirst_of_firstBy hfirst
  obtain ⟨v, hv, c, e, hfv, -⟩ := hfl.lapse
  have heq : first.expiredAt = at_ := le_antisymm (hfl.first u hu clock expire at_ hf) (hl.first v hv c e _ hfv)
  refine ⟨first.error, heq ▸ hfl, ?_⟩
  cases htrip : firstBy Trip.earlier (trips 0 us (us.map d.finding)) with
  | none => simp only [batch, hb, noteAll_eq hn, htrip, hfirst]; rfl
  | some t =>
    obtain ⟨w, i, hi, -, hw⟩ := wins_of_firstBy htrip
    have hlt : first.expiredAt < t.hostTime := heq ▸ ht w hw.mem _ _ hw.finding
    simp only [batch, hb, noteAll_eq hn, htrip, hfirst, Option.filter_some, hlt, decide_true]
    rfl

/-- A trigger wins, an expire clock passed first, or all controllers are running. -/
theorem race (d : Dispatch F) (us : List StatusUpdate) :
    (∃ u p clock t, Wins d us u p clock t ∧ ∀ v ∈ us, ∀ c e at_, d.finding v = .lapse c e at_ → t ≤ at_) ∨
    (∃ error at_, LapsesFirst d us error at_ ∧ ∀ v ∈ us, ∀ c t, d.finding v = .trip c t → at_ < t) ∨
    ((∀ v ∈ us, ∀ c t, d.finding v ≠ .trip c t) ∧ ∀ v ∈ us, ∀ c e t, d.finding v ≠ .lapse c e t) := by
  have htrip : (∃ u p clock t, Wins d us u p clock t) ∨ ∀ v ∈ us, ∀ c t, d.finding v ≠ .trip c t := by
    by_cases h : ∃ v ∈ us, ∃ c t, d.finding v = .trip c t
    · obtain ⟨v, hv, c, t, hf⟩ := h
      obtain ⟨first, hfirst⟩ := exists_firstTrip hv hf
      obtain ⟨u, i, -, -, hw⟩ := wins_of_firstBy hfirst
      exact .inl ⟨u, _, _, _, hw⟩
    · exact .inr fun v hv c t hf => h ⟨v, hv, c, t, hf⟩
  have hlapse : (∃ error at_, LapsesFirst d us error at_) ∨ ∀ v ∈ us, ∀ c e t, d.finding v ≠ .lapse c e t := by
    by_cases h : ∃ v ∈ us, ∃ c e t, d.finding v = .lapse c e t
    · obtain ⟨v, hv, c, e, t, hf⟩ := h
      obtain ⟨first, hfirst⟩ := exists_firstLapse hv hf
      exact .inl ⟨_, _, lapsesFirst_of_firstBy hfirst⟩
    · exact .inr fun v hv c e t hf => h ⟨v, hv, c, e, t, hf⟩
  rcases htrip with ⟨u, p, clock, t, hw⟩ | ht <;> rcases hlapse with ⟨error, at_, hl⟩ | hl
  · rcases le_or_gt t at_ with hle | hlt
    · exact .inl ⟨u, p, clock, t, hw, fun v hv c e s hf => hle.trans (hl.first v hv c e s hf)⟩
    · refine .inr (.inl ⟨error, at_, hl, fun v hv c s hf => ?_⟩)
      obtain ⟨q, hq, -⟩ := place_of_finding (d := d) (u := v) (by rw [hf]; simp)
      rcases hw.first v hv q c s hq hf with h | ⟨h, -⟩
      · exact hlt.trans h
      · exact h ▸ hlt
  · exact .inl ⟨u, p, clock, t, hw, fun v hv c e s hf => absurd hf (hl v hv c e s)⟩
  · exact .inr (.inl ⟨error, at_, hl, fun v hv c s hf => absurd hf (ht v hv c s)⟩)
  · exact .inr (.inr ⟨ht, hl⟩)

/-! ## The order of a batch -/

/-- What a batch has in common with the same reports in another order. -/
structure Interchangeable (d : Dispatch F) (us us' : List StatusUpdate) : Prop where
  /-- The dispatch after it, with all its endpoints. -/
  state : (d.batch us').1 = (d.batch us).1
  /-- The commands to each endpoint, in their order. -/
  posts : ∀ place, (d.batch us').2.1.filter (fun p => p.endpoint = place) =
    (d.batch us).2.1.filter fun p => p.endpoint = place
  /-- The outcome of each report, or the host time of the expire clock that passed first. Which of several
  that passed at the same time the error tells of is open. -/
  answer : (∃ outcome : StatusUpdate → StatusOutcome F, (d.batch us).2.2 = .ok (us.map outcome) ∧
      (d.batch us').2.2 = .ok (us'.map outcome)) ∨
    ∃ expiredAt error error', (d.batch us).2.2 = .error error ∧ (d.batch us').2.2 = .error error' ∧
      LapsesFirst d us error expiredAt ∧ LapsesFirst d us error' expiredAt

/-- What a batch that triggers says of the race in it. -/
structure Raced (d : Dispatch F) (us : List StatusUpdate) (event : TriggerEvent F) : Prop where
  /-- No other outcome is a trigger. -/
  once : answerDecisions (d.batch us).2.2 = [.triggered event]
  winner : ∃ u, Wins d us u event.endpoint event.clock event.hostTime
  /-- No expire clock passed before it. -/
  lapses : ∀ u ∈ us, ∀ clock expire expiredAt, d.finding u = .lapse clock expire expiredAt →
    event.hostTime ≤ expiredAt

theorem raced_of_mem {u : StatusUpdate} {p : Nat} {clock : UInt64} {t : F} {dispatch : Dispatch F}
    {posts : List Post} {event event' : TriggerEvent F} (hn : (us.map StatusUpdate.place).Nodup)
    (hw : Wins d us u p clock t)
    (hl : ∀ v ∈ us, ∀ c e at_, d.finding v = .lapse c e at_ → t ≤ at_)
    (hfire : (d.noted us).fire ⟨0, p, u.report, clock, t⟩ = (dispatch, posts, event))
    (hbatch : d.batch us = (dispatch, posts, .ok (us.map (outcomesOf d u event))))
    (hmem : .triggered event' ∈ us.map (outcomesOf d u event)) : Raced d us event' := by
  have others : ∀ v : StatusUpdate, outcomeDecision? (Finding.outcome (d.finding v)) = none := by
    intro v
    cases d.finding v <;> rfl
  obtain rfl : event = event' := by
    obtain ⟨v, -, hv⟩ := List.mem_map.1 hmem
    unfold outcomesOf at hv
    split at hv
    · cases hv; rfl
    · have := others v
      rw [hv] at this
      cases this
  have hevent : event = ((d.noted us).fire ⟨0, p, u.report, clock, t⟩).2.2 := by rw [hfire]
  refine ⟨?_, ⟨u, ?_⟩, ?_⟩
  · obtain ⟨i, hi⟩ := List.getElem?_of_mem hw.mem
    have hset : us.map (outcomesOf d u event) = ((us.map d.finding).map Finding.outcome).set i (.triggered event) := by
      rw [List.map_map]
      exact (map_set_of_nodup (List.Nodup.of_map _ hn) hi _).symm
    rw [hbatch, hset]
    exact answer_fire _ (by simpa using (List.getElem?_eq_some_iff.1 hi).1) event
  · rw [hevent]; exact hw
  · rw [hevent]; exact hl

/-- The commands and the outcomes of a batch that a trigger decides are those of the winner. -/
theorem interchangeable_of_wins (hb : d.broken = false) (order : us.Perm us')
    (distinct : (us.map StatusUpdate.place).Nodup) {u : StatusUpdate} {p : Nat} {clock : UInt64} {t : F}
    (hw : Wins d us u p clock t) (hl : ∀ v ∈ us, ∀ c e at_, d.finding v = .lapse c e at_ → t ≤ at_) :
    Interchangeable d us us' ∧ ∀ outcomes event, (d.batch us).2.2 = .ok outcomes →
      .triggered event ∈ outcomes → Raced d us event := by
  have distinct' : (us'.map StatusUpdate.place).Nodup := (order.map _).nodup_iff.1 distinct
  obtain ⟨dispatch, posts, event, hfire, hbatch⟩ := batch_of_wins hb distinct hw hl
  obtain ⟨dispatch', posts', event', hfire', hbatch'⟩ := batch_of_wins hb distinct' (hw.perm order)
    fun v hv => hl v (order.mem_iff.2 hv)
  rw [← noted_perm d order distinct, hfire] at hfire'
  cases hfire'
  refine ⟨⟨by rw [hbatch, hbatch'], fun place => by rw [hbatch, hbatch'], .inl ⟨outcomesOf d u event, ?_⟩⟩, ?_⟩
  · rw [hbatch, hbatch']; exact ⟨rfl, rfl⟩
  · intro outcomes event' ho hmem
    rw [hbatch] at ho
    cases ho
    exact raced_of_mem distinct hw hl hfire hbatch hmem

/-- A batch that an expire clock decides aborts the same dispatch, at the same host time. -/
theorem interchangeable_of_lapses (hb : d.broken = false) (order : us.Perm us')
    (distinct : (us.map StatusUpdate.place).Nodup) {error : DispatchError} {expiredAt : F}
    (hfirst : LapsesFirst d us error expiredAt) (ht : ∀ v ∈ us, ∀ c t, d.finding v = .trip c t → expiredAt < t) :
    Interchangeable d us us' ∧ ∀ outcomes, (d.batch us).2.2 ≠ .ok outcomes := by
  have distinct' : (us'.map StatusUpdate.place).Nodup := (order.map _).nodup_iff.1 distinct
  obtain ⟨error₁, hfirst₁, hbatch⟩ := batch_of_lapsesFirst hb distinct hfirst ht
  obtain ⟨error₂, hfirst₂, hbatch'⟩ := batch_of_lapsesFirst hb distinct' (hfirst.perm order)
    fun v hv => ht v (order.mem_iff.2 hv)
  rw [← noted_perm d order distinct] at hbatch'
  refine ⟨⟨by rw [hbatch, hbatch']; rfl, fun place => by rw [hbatch, hbatch']; rfl,
    .inr ⟨expiredAt, error₁, error₂, by rw [hbatch]; rfl, by rw [hbatch']; rfl, hfirst₁, hfirst₂.perm order.symm⟩⟩, ?_⟩
  intro outcomes ho
  rw [hbatch] at ho
  cases ho

/-- A batch of running controllers extends each expire clock apart from the others. -/
theorem interchangeable_of_running (hb : d.broken = false) (order : us.Perm us')
    (distinct : (us.map StatusUpdate.place).Nodup) (intact : (d.batch us).1.broken = false)
    (ht : ∀ v ∈ us, ∀ c t, d.finding v ≠ .trip c t) (hl : ∀ v ∈ us, ∀ c e t, d.finding v ≠ .lapse c e t) :
    Interchangeable d us us' ∧ ∀ outcomes event, (d.batch us).2.2 = .ok outcomes →
      .triggered event ∉ outcomes := by
  have distinct' : (us'.map StatusUpdate.place).Nodup := (order.map _).nodup_iff.1 distinct
  have hquiet : ∀ v ∈ us, Finding.Quiet (d.finding v) := fun v hv => quiet_of_ne (ht v hv) (hl v hv)
  have hnoted := noted_perm d order distinct
  have hfits := fits_of_batch hb distinct hquiet intact
  have hbatch := batch_eq_sweep hb distinct hquiet hfits
  have hbatch' := batch_eq_sweep hb distinct' (fun v hv => hquiet v (order.mem_iff.2 hv))
    fun v hv => hnoted ▸ hfits v (order.mem_iff.2 hv)
  rw [← hnoted] at hbatch'
  refine ⟨⟨?_, fun place => ?_, .inl ⟨fun u => (settle d.finding u (d.noted us)).2.2, ?_⟩⟩, ?_⟩
  · rw [hbatch, hbatch']
    exact (sweep_perm (settle_local d.finding) order distinct _).symm
  · rw [hbatch, hbatch']
    exact (filter_flatMap_perm order distinct (fun u => place_of_settle) place).symm
  · rw [hbatch, hbatch']; exact ⟨rfl, rfl⟩
  · intro outcomes event ho hmem
    -- extending takes no decision
    have hnone := extendAll_answer us (us.map d.finding) (d.noted us)
    rw [← batch_of_running hb distinct hquiet, ho] at hnone
    have := List.filterMap_eq_nil_iff.1 hnone _ hmem
    cases this

/-- Reports for different endpoints may come in any order: the dispatch after them, the commands to each
endpoint and the outcome of each report are the same. A trigger among the outcomes is the only one, and
won the race. -/
theorem batch_perm (d : Dispatch F) {us us' : List StatusUpdate} (order : us.Perm us')
    (distinct : (us.map StatusUpdate.place).Nodup) (intact : (d.batch us).1.broken = false) :
    Interchangeable d us us' ∧ ∀ outcomes event, (d.batch us).2.2 = .ok outcomes →
      .triggered event ∈ outcomes → Raced d us event := by
  have hb := broken_of_batch intact
  rcases race d us with ⟨u, p, clock, t, hw, hl⟩ | ⟨error, expiredAt, hfirst, ht⟩ | ⟨ht, hl⟩
  · exact interchangeable_of_wins hb order distinct hw hl
  · obtain ⟨hsame, hnone⟩ := interchangeable_of_lapses hb order distinct hfirst ht
    exact ⟨hsame, fun outcomes _ ho => absurd ho (hnone outcomes)⟩
  · obtain ⟨hsame, hnone⟩ := interchangeable_of_running hb order distinct intact ht hl
    exact ⟨hsame, fun outcomes event ho hmem => absurd hmem (hnone outcomes event ho)⟩

/-- Two controllers with clocks of different rates. -/
def twoRates : Dispatch ℚ :=
  ⟨true, true, 1, 1,
    [⟨0, 7, ⟨1, 2, 3⟩, .intact, ⟨0, 1000, 1000, 100⟩, .ofReference 0 0 1000, false⟩,
      ⟨1, 8, ⟨1, 2, 3⟩, .intact, ⟨0, 2000, 2000, 200⟩, .ofReference 0 0 2000, false⟩], none, false⟩

/-- Both have triggered at the same host time, and the one registered first wins in either order. -/
theorem batch_perm_tie :
    let first : StatusUpdate := ⟨some 0, ⟨7, false, 1, 500⟩⟩
    let second : StatusUpdate := ⟨some 1, ⟨8, false, 1, 1000⟩⟩
    Interchangeable twoRates [second, first] [first, second] ∧
      (twoRates.batch [second, first]).1.trigger.map TriggerEvent.endpoint = some 0 :=
  ⟨(batch_perm twoRates (List.Perm.swap ..) (by decide) (by decide +kernel)).1, by decide +kernel⟩

end Dispatch

end PrinterMotion
