/-
Expire clocks while a dispatch is active. A report of a running controller is noted against the expire
clock that the controller was last told, and extended from there later, once the whole batch is noted. An
extension starts from the reported clock and is at least as long as the time left that asks for it, so it
never shortens the window, however many reports of one endpoint a batch holds.
-/
import PrinterMotion.Proofs.Elementwise
import PrinterMotion.Proofs.Exact
import PrinterMotion.Proofs.Trsync.Generation
import PrinterMotion.Proofs.Trsync.Reports
import PrinterMotion.Trsync.Settings

namespace PrinterMotion

variable {α : Type}

/-! ## Windows to start with -/

/-- The expire clock is not behind the latest status, and an extension leaves at least the time below
which one is asked for. -/
structure ClockWindow.Sound (w : ClockWindow) : Prop where
  status_le : w.lastStatus ≤ w.expire
  minExtend_le : w.minExtend ≤ w.expireTicks

namespace TrsyncSettings

theorem clampWord_le {n : Int} {w : UInt64} (h : n ≤ w.toNat) : Clock.clampWord n ≤ w := by
  have hlt : min n.toNat (UInt64.size - 1) < UInt64.size := by simp only [UInt64.size]; omega
  rw [Clock.clampWord, UInt64.le_iff_toNat_le, UInt64.toNat_ofNat_of_lt' hlt]
  omega

/-- The windows of moves are sound when the fraction is one that settings are checked for. -/
theorem sound_of_window? {F : Type} [Exact F] {s : TrsyncSettings F} {controllers : Nat} {time : F}
    {clock : ClockEstimate F} {w : ClockWindow} (hf : s.extendFraction < 1)
    (h : s.window? controllers time clock = some w) : w.Sound := by
  obtain ⟨expire, hadd, rfl⟩ := Option.map_eq_some_iff.1 h
  constructor
  · rw [UInt64.le_iff_toNat_le, Clock.toNat_add? hadd]
    exact Nat.le_add_right _ _
  · apply clampWord_le
    -- the fraction of a whole number is below it, and rounds to it at most
    obtain ⟨n, hn⟩ : ∃ n, n = clock.ticks (s.expireTimeout controllers) := ⟨_, rfl⟩
    rw [← hn]
    show ⌊((n.toNat : Int) : F) * s.extendFraction + 0.5⌋ ≤ (n.toNat : Int)
    have hpos : (0 : F) ≤ ((n.toNat : Int) : F) := by exact_mod_cast Nat.zero_le _
    have hle : ((n.toNat : Int) : F) * s.extendFraction ≤ ((n.toNat : Int) : F) :=
      mul_le_of_le_one_right hpos hf.le
    rw [← Int.lt_add_one_iff, Int.floor_lt]
    push_cast at hle ⊢
    linarith [show (0.5 : F) < 1 by norm_num]

end TrsyncSettings

/-! ## What one endpoint goes through -/

theorem getLast?_append_getD {β : Type} (as bs : List β) (b : β) :
    (as ++ bs).getLast?.getD b = bs.getLast?.getD (as.getLast?.getD b) := by
  rw [List.getLast?_append]
  cases bs.getLast? <;> rfl

namespace Endpoint

/-- Reports are noted: of the window, only the latest status changes, to the last clock that was heard. -/
structure Notes (ep : Endpoint α) (heard : List UInt64) (ep' : Endpoint α) : Prop where
  address : ep'.address = ep.address
  window : ep'.window = { ep.window with lastStatus := heard.getLast?.getD ep.window.lastStatus }

theorem Notes.refl (ep : Endpoint α) : ep.Notes [] ep := ⟨rfl, rfl⟩

theorem Notes.trans {a b c : Endpoint α} {cs ds : List UInt64} (h : a.Notes cs b) (h' : b.Notes ds c) :
    a.Notes (cs ++ ds) c := by
  refine ⟨h'.address.trans h.address, ?_⟩
  rw [h'.window, h.window, getLast?_append_getD]

/-- The expire clock is prolonged: of the window, nothing else changes, it does not go back, and the last
command tells what it is. -/
structure Prolongs (ep : Endpoint α) (told : List Command) (ep' : Endpoint α) : Prop where
  address : ep'.address = ep.address
  window : ep'.window = { ep.window with expire := ep'.window.expire }
  expire_le : ep.window.expire ≤ ep'.window.expire
  told : told.getLast?.getD ep.timeoutCommand = ep'.timeoutCommand

theorem Prolongs.refl (ep : Endpoint α) : ep.Prolongs [] ep := ⟨rfl, rfl, UInt64.le_refl _, rfl⟩

theorem Prolongs.trans {a b c : Endpoint α} {cs ds : List Command} (h : a.Prolongs cs b) (h' : b.Prolongs ds c) :
    a.Prolongs (cs ++ ds) c := by
  refine ⟨h'.address.trans h.address, ?_, UInt64.le_trans h.expire_le h'.expire_le, ?_⟩
  · rw [h'.window, h.window]
  · rw [getLast?_append_getD, h.told, h'.told]

/-- What one call on an active dispatch does to an endpoint. -/
structure Renews (ep : Endpoint α) (heard : List UInt64) (told : List Command) (ep' : Endpoint α) : Prop where
  minExtend : ep'.window.minExtend = ep.window.minExtend
  expireTicks : ep'.window.expireTicks = ep.window.expireTicks
  status : ep'.window.lastStatus = heard.getLast?.getD ep.window.lastStatus
  expire_le : ep.window.expire ≤ ep'.window.expire
  reach : ∀ clock ∈ heard, clock.toNat + ep'.window.minExtend.toNat ≤ ep'.window.expire.toNat
  told : told.getLast?.getD ep.timeoutCommand = ep'.timeoutCommand

theorem timeoutCommand_congr {a b : Endpoint α} (ha : b.address = a.address)
    (he : b.window.expire = a.window.expire) : b.timeoutCommand = a.timeoutCommand := by
  simp only [address, Prod.mk.injEq] at ha
  simp [timeoutCommand, ha, he]

/-- A call that leaves address and window of an endpoint as they are. -/
theorem Renews.of_same {ep ep' : Endpoint α} (ha : ep'.address = ep.address) (hw : ep'.window = ep.window) :
    ep.Renews [] [] ep' :=
  ⟨by rw [hw], by rw [hw], by rw [hw]; rfl, by rw [hw]; exact UInt64.le_refl _, by simp,
    (timeoutCommand_congr ha (by rw [hw])).symm⟩

theorem Renews.of_notes_prolongs {a b c : Endpoint α} {heard : List UInt64} {told : List Command}
    (hn : a.Notes heard b) (hp : b.Prolongs told c)
    (reach : ∀ clock ∈ heard, clock.toNat + c.window.minExtend.toNat ≤ c.window.expire.toNat) :
    a.Renews heard told c := by
  have he : b.window.expire = a.window.expire := by rw [hn.window]
  refine ⟨?_, ?_, ?_, he ▸ hp.expire_le, reach, ?_⟩
  · rw [hp.window, hn.window]
  · rw [hp.window, hn.window]
  · rw [hp.window, hn.window]
  · rw [← hp.told, timeoutCommand_congr hn.address he]

/-- The expire clock is ahead of the latest status, by the time below which an extension is asked for
once a running controller was heard, and the controller has been told of it. -/
structure InTime (ep : Endpoint α) (heard : Bool) (told : List Command) : Prop where
  status_le : ep.window.lastStatus ≤ ep.window.expire
  minExtend_le : ep.window.minExtend ≤ ep.window.expireTicks
  reach : heard = true → ep.window.lastStatus.toNat + ep.window.minExtend.toNat ≤ ep.window.expire.toNat
  told : told.getLast? = some ep.timeoutCommand

theorem InTime.renews {ep ep' : Endpoint α} {heard : Bool} {told : List Command} (h : ep.InTime heard told)
    {clocks : List UInt64} {later : List Command} (hr : ep.Renews clocks later ep') :
    ep'.InTime (heard || !clocks.isEmpty) (told ++ later) := by
  have hexp : ep.window.expire.toNat ≤ ep'.window.expire.toNat := UInt64.le_iff_toNat_le.1 hr.expire_le
  have hminExtend : ep'.window.minExtend ≤ ep'.window.expireTicks := by
    rw [hr.minExtend, hr.expireTicks]; exact h.minExtend_le
  have htold : (told ++ later).getLast? = some ep'.timeoutCommand := by
    have := hr.told
    rw [List.getLast?_append, h.told]
    cases hl : later.getLast? with
    | none => rw [hl] at this; exact congrArg some this
    | some c => rw [hl] at this; exact congrArg some this
  cases hc : clocks.getLast? with
  | none =>
    -- nothing was heard, and the expire clock can only have moved on
    have hnil : clocks = [] := List.getLast?_eq_none_iff.1 hc
    have hstatus : ep'.window.lastStatus = ep.window.lastStatus := by rw [hr.status, hc]; rfl
    subst hnil
    refine ⟨?_, hminExtend, fun hh => ?_, htold⟩
    · rw [hstatus]; exact UInt64.le_trans h.status_le hr.expire_le
    · rw [hstatus, hr.minExtend]
      exact (h.reach (by simpa using hh)).trans hexp
  | some clock =>
    have hstatus : ep'.window.lastStatus = clock := by rw [hr.status, hc]; rfl
    have := hr.reach clock (List.mem_of_getLast? hc)
    refine ⟨?_, hminExtend, fun _ => ?_, htold⟩
    · rw [hstatus, UInt64.le_iff_toNat_le]; omega
    · rwa [hstatus]

end Endpoint

namespace Dispatch

/-! ## Batches -/

/-- The clocks found at the endpoint at a place by reports of its running controller. -/
def heardAt (place : Nat) (us : List StatusUpdate) (fs : List (Finding α)) : List UInt64 :=
  (us.zip fs).filterMap fun p => if p.1.place = some place then Finding.running? p.2 else none

theorem heardAt_cons (k : Nat) (u : StatusUpdate) (us : List StatusUpdate) (f : Finding α)
    (fs : List (Finding α)) : heardAt k (u :: us) (f :: fs) =
      (if u.place = some k then (Finding.running? f).toList else []) ++ heardAt k us fs := by
  unfold heardAt
  rw [List.zip_cons_cons, List.filterMap_cons]
  by_cases hp : u.place = some k
  · simp only [if_pos hp]
    cases Finding.running? f <;> rfl
  · simp only [if_neg hp, List.nil_append]

section

variable [Scalar α]

theorem note_notes {d : Dispatch α} {u : StatusUpdate} {k : Nat} {ep : Endpoint α}
    (hf : (d.note u).2 = .nothing ∨ ∃ clock, (d.note u).2 = .running clock) (hk : d.endpoints[k]? = some ep) :
    ∃ ep', (d.note u).1.endpoints[k]? = some ep' ∧
      ep.Notes (if u.place = some k then (Finding.running? (d.note u).2).toList else []) ep' := by
  rcases note_cases d u with h | ⟨place, at_, hp, hat, h⟩
  · rw [h]
    exact ⟨ep, hk, by simpa [Finding.running?] using Endpoint.Notes.refl ep⟩
  rw [h] at hf ⊢
  have hlt : place < d.endpoints.length := (List.getElem?_eq_some_iff.1 hat).1
  by_cases hpk : place = k
  · subst hpk
    obtain rfl : at_ = ep := Option.some.inj (hat.symm.trans hk)
    refine ⟨(at_.note u.report).1, List.getElem?_set_self hlt, ?_⟩
    rw [if_pos hp]
    rcases at_.note_cases u.report with hn | ⟨clock, finding, hn, hclock⟩
    · rw [hn]; exact Endpoint.Notes.refl at_
    · rw [hn] at hf ⊢
      -- a report that changed the latest status found a running controller
      obtain ⟨hne, hclock⟩ := hclock
      obtain rfl | ⟨c, rfl⟩ := hf
      · exact absurd rfl hne
      · rw [hclock c rfl]; exact ⟨rfl, rfl⟩
  · refine ⟨ep, ?_, ?_⟩
    · rw [List.getElem?_set_ne hpk]; exact hk
    · rw [if_neg (by rw [hp]; simpa using hpk)]; exact Endpoint.Notes.refl ep

/-- Reports that find nothing but running controllers move latest statuses only. -/
theorem noteAll_notes : ∀ (us : List StatusUpdate) {d : Dispatch α} {k : Nat} {ep : Endpoint α},
    (∀ f ∈ (d.noteAll us).2, f = .nothing ∨ ∃ clock, f = .running clock) → d.endpoints[k]? = some ep →
    ∃ ep', (d.noteAll us).1.endpoints[k]? = some ep' ∧ ep.Notes (heardAt k us (d.noteAll us).2) ep'
  | [], _, _, ep, _, hk => ⟨ep, hk, Endpoint.Notes.refl ep⟩
  | u :: us, d, k, ep, hf, hk => by
    obtain ⟨mid, hmid, hn⟩ := note_notes (hf _ (List.mem_cons_self ..)) hk
    obtain ⟨ep', hk', hn'⟩ := noteAll_notes us (fun f h => hf f (List.mem_cons_of_mem _ h)) hmid
    refine ⟨ep', hk', ?_⟩
    show ep.Notes (heardAt k (u :: us) ((d.note u).2 :: ((d.note u).1.noteAll us).2)) ep'
    rw [heardAt_cons]
    exact hn.trans hn'

end

/-- An extension leaves at least the time below which one is asked for. -/
theorem prolong?_prolongs {ep ep' : Endpoint α} {place : Nat} {clock : UInt64} {posts : List Post}
    {outcome : StatusOutcome α} (h : ep.prolong? place clock = some (ep', posts, outcome))
    (hm : ep.window.minExtend ≤ ep.window.expireTicks) :
    ep.Prolongs (posts.map Post.command) ep' ∧
      clock.toNat + ep'.window.minExtend.toNat ≤ ep'.window.expire.toNat := by
  unfold Endpoint.prolong? Endpoint.wantsExtension? at h
  rw [UInt64.le_iff_toNat_le] at hm
  cases hreach : Clock.add? clock ep.window.minExtend with
  | none => rw [hreach] at h; cases h
  | some reach =>
    have hsum := Clock.toNat_add? hreach
    by_cases hlt : reach < ep.window.expire
    · simp only [hreach, Option.map_some, hlt, decide_true, Bool.not_true] at h
      cases h
      rw [UInt64.lt_iff_toNat_lt] at hlt
      exact ⟨Endpoint.Prolongs.refl ep, by omega⟩
    · simp only [hreach, Option.map_some, hlt, decide_false, Bool.not_false, Endpoint.extend?] at h
      cases hexpire : Clock.add? clock ep.window.expireTicks with
      | none => rw [hexpire] at h; cases h
      | some expire =>
        rw [hexpire] at h
        cases h
        have hsum' := Clock.toNat_add? hexpire
        rw [UInt64.lt_iff_toNat_lt] at hlt
        refine ⟨⟨rfl, rfl, ?_, rfl⟩, ?_⟩
        · show ep.window.expire ≤ expire
          rw [UInt64.le_iff_toNat_le]
          omega
        · show clock.toNat + ep.window.minExtend.toNat ≤ expire.toNat
          omega

theorem handed_of_forall_eq {posts : List Post} {place : Nat} (h : ∀ p ∈ posts, p.endpoint = place) (k : Nat) :
    handed k posts = if place = k then posts.map Post.command else [] := by
  unfold handed
  split
  · rw [List.filter_eq_self.2 fun p hp => by simpa [h p hp]]
  · rw [List.filter_eq_nil_iff.2 fun p hp => by simpa [h p hp], List.map_nil]

/-- Extending one expire clock, as each endpoint sees it. -/
theorem extendOne_prolongs {d : Dispatch α} {place : Nat} {clock : UInt64} {outcome : StatusOutcome α}
    (h : (d.extendOne place clock).2.2 = .ok outcome) {k : Nat} {ep : Endpoint α}
    (hk : d.endpoints[k]? = some ep) (hm : ep.window.minExtend ≤ ep.window.expireTicks) :
    ∃ ep', (d.extendOne place clock).1.endpoints[k]? = some ep' ∧
      ep.Prolongs (handed k (d.extendOne place clock).2.1) ep' ∧
      (place = k → clock.toNat + ep'.window.minExtend.toNat ≤ ep'.window.expire.toNat) := by
  cases hat : d.endpoints[place]? with
  | none =>
    have hne : place ≠ k := by rintro rfl; rw [hat] at hk; cases hk
    have : d.extendOne place clock = (d, [], .ok .recorded) := by unfold extendOne; rw [hat]
    rw [this]
    exact ⟨ep, hk, Endpoint.Prolongs.refl ep, fun h => absurd h hne⟩
  | some target =>
    have hlt : place < d.endpoints.length := (List.getElem?_eq_some_iff.1 hat).1
    rw [extendOne_eq hat] at h ⊢
    cases hp : target.prolong? place clock with
    | none => rw [hp] at h; cases h
    | some result =>
      obtain ⟨target', posts, outcome'⟩ := result
      by_cases hpk : place = k
      · subst hpk
        obtain rfl : target = ep := Option.some.inj (hat.symm.trans hk)
        obtain ⟨hprolongs, hreach⟩ := prolong?_prolongs hp hm
        refine ⟨target', List.getElem?_set_self hlt, ?_, fun _ => hreach⟩
        rw [handed_of_forall_eq (Endpoint.endpoint_of_prolong? hp), if_pos rfl]
        exact hprolongs
      · refine ⟨ep, ?_, ?_, fun h => absurd h hpk⟩
        · exact (List.getElem?_set_ne hpk).trans hk
        · rw [handed_of_forall_eq (Endpoint.endpoint_of_prolong? hp), if_neg hpk]
          exact Endpoint.Prolongs.refl ep

/-- Extending all expire clocks, as each endpoint sees it. What was heard is within its reach then. -/
theorem extendAll_prolongs {us : List StatusUpdate} {fs : List (Finding α)} {d : Dispatch α}
    {outcomes : List (StatusOutcome α)} (h : (d.extendAll us fs).2.2 = .ok outcomes) {k : Nat} {ep : Endpoint α}
    (hk : d.endpoints[k]? = some ep) (hm : ep.window.minExtend ≤ ep.window.expireTicks) :
    ∃ ep', (d.extendAll us fs).1.endpoints[k]? = some ep' ∧
      ep.Prolongs (handed k (d.extendAll us fs).2.1) ep' ∧
      ∀ clock ∈ heardAt k us fs, clock.toNat + ep'.window.minExtend.toNat ≤ ep'.window.expire.toNat := by
  fun_induction extendAll d us fs generalizing ep outcomes with
  | case1 => cases h
  | case2 d u us clock fs d' posts outcome hone d'' later os hall ih =>
    rw [hall] at ih
    cases os with
    | error e => cases h
    | ok os =>
      have hok : (d.extendOne (u.place.getD 0) clock).2.2 = .ok outcome := by rw [hone]
      have hone' := extendOne_prolongs hok hk hm
      rw [hone] at hone'
      obtain ⟨mid, hmid, hp, hreach⟩ := hone'
      have hlimits : mid.window.minExtend ≤ mid.window.expireTicks := by rw [hp.window]; exact hm
      obtain ⟨ep', hk', hp', hreach'⟩ := ih rfl hmid hlimits
      refine ⟨ep', hk', ?_, fun c hc => ?_⟩
      · rw [handed_append]; exact hp.trans hp'
      rw [heardAt_cons, List.mem_append] at hc
      rcases hc with hc | hc
      · -- what this report is within reach of, later extensions leave so
        split at hc
        · rename_i hplace
          obtain rfl : c = clock := by simpa [Finding.running?] using hc
          have hle := UInt64.le_iff_toNat_le.1 hp'.expire_le
          have := hreach (by rw [hplace]; rfl)
          rw [hp'.window]
          exact this.trans hle
        · cases hc
      · exact hreach' c hc
  | case3 d u us f fs hne d' posts os hall ih =>
    rw [hall] at ih
    cases os with
    | error e => cases h
    | ok os =>
      obtain ⟨ep', hk', hp, hreach⟩ := ih rfl hk hm
      refine ⟨ep', hk', hp, fun c hc => ?_⟩
      rw [heardAt_cons, List.mem_append] at hc
      refine hc.elim (fun hc => ?_) (hreach c)
      have hnone : Finding.running? f = none := by
        cases f with
        | running clock => exact (hne clock rfl).elim
        | _ => rfl
      rw [hnone] at hc
      simp at hc
  | case4 us d fs h1 h2 =>
    refine ⟨ep, hk, Endpoint.Prolongs.refl ep, fun c hc => ?_⟩
    cases us with
    | nil => cases hc
    | cons u us =>
      cases fs with
      | nil => cases hc
      | cons f fs => exact (h2 u us f fs rfl rfl).elim

/-! ## Starts -/

theorem handed_arm_of_lt {place k : Nat} (h : k < place) (eps : List (Endpoint α)) :
    handed k (arm place eps).2.1 = [] := by
  unfold handed
  rw [List.filter_eq_nil_iff.2, List.map_nil]
  intro p hp
  obtain ⟨i, -, hi, -, -⟩ := arm_isTimeout place eps p hp
  simp only [decide_eq_true_eq]
  omega

/-- Each endpoint that could be reached keeps its window, and is told its expire clock once. -/
theorem arm_told : ∀ (eps : List (Endpoint α)) (place : Nat), (arm place eps).2.2 = none →
    ∀ {k : Nat} {ep' : Endpoint α}, (arm place eps).1[k]? = some ep' → ∃ ep, eps[k]? = some ep ∧
      ep'.window = ep.window ∧ handed (place + k) (arm place eps).2.1 = [ep'.timeoutCommand]
  | [], _, _, _, _, hk => by simp [arm] at hk
  | ep :: rest, place, hf, k, ep', hk => by
    simp only [arm] at hf hk ⊢
    split at hf
    · rename_i hacc
      rw [if_pos hacc] at hk ⊢
      cases k with
      | zero =>
        cases hk
        refine ⟨ep, rfl, rfl, ?_⟩
        rw [Nat.add_zero, handed_cons, handed_arm_of_lt (Nat.lt_succ_self place)]
        exact if_pos rfl
      | succ k =>
        obtain ⟨ep₀, hep, hw, hh⟩ := arm_told rest (place + 1) hf hk
        refine ⟨ep₀, hep, hw, ?_⟩
        have hne : ¬ place = place + (k + 1) := by omega
        rw [← hh, show place + 1 + k = place + (k + 1) by omega, handed_cons]
        exact if_neg hne
    · cases hf

theorem start_of_active {d : Dispatch α} {reason : Reason} (hidle : d.active = false)
    (ha : (d.start reason).1.active = true) : (arm 0 d.endpoints).2.2 = none ∧
      d.start reason = (d.restarted reason, (arm 0 d.endpoints).2.1, .ok ()) := by
  generalize hs : d.start reason = r at ha ⊢
  cases hs ▸ d.started_start reason with
  | refused error => simp [hidle] at ha
  | armed _ _ reached => exact ⟨reached, rfl⟩
  | unreachable oid => cases ha

/-! ## Calls that leave a dispatch active -/

variable [Scalar α]

namespace Event

/-- The reports that a call brings. -/
def updates (e : Event α) : List StatusUpdate :=
  match e.call with
  | .batch us => us
  | .status u => [u]
  | _ => []

/-- The clocks of the running controller at a place that its endpoint accepted of the reports. -/
def heard (e : Event α) (place : Nat) : List UInt64 :=
  heardAt place e.updates (e.before.noteAll e.updates).2

end Event

theorem batch_renews {d : Dispatch α} {us : List StatusUpdate} (ha : (d.batch us).1.active = true)
    (hb : (d.batch us).1.broken = false) {k : Nat} {ep : Endpoint α} (hk : d.endpoints[k]? = some ep)
    (hm : ep.window.minExtend ≤ ep.window.expireTicks) :
    ∃ ep', (d.batch us).1.endpoints[k]? = some ep' ∧
      ep.Renews (heardAt k us (d.noteAll us).2) (handed k (d.batch us).2.1) ep' := by
  obtain ⟨hbatch, ⟨outcomes, hok⟩, hfound⟩ := batch_of_active ha hb
  obtain ⟨mid, hmid, hn⟩ := noteAll_notes us hfound hk
  have hlimits : mid.window.minExtend ≤ mid.window.expireTicks := by rw [hn.window]; exact hm
  rw [hbatch] at hok ⊢
  obtain ⟨ep', hk', hp, hreach⟩ := extendAll_prolongs hok hmid hlimits
  exact ⟨ep', hk', .of_notes_prolongs hn hp hreach⟩

/-- A dispatch that broke off in the middle stays so. -/
theorem call_broken {d : Dispatch α} (h : d.broken = true) (c : Call α) : (d.call c).1.broken = true := by
  cases c <;> simp [call, register, setup, updateClock, start, batch, status, stop, closeLinks, h]

theorem timeouts_of_active {e : Event α} (ha : e.before.active = true) (ha' : e.after.active = true) :
    e.timeouts = e.posts := by
  rcases e.cases with hq | hb | ⟨decision, hd⟩
  · rw [e.posts_eq, hq.triggers, List.append_nil]
  · rw [hb.idle] at ha; cases ha
  · rw [hd.ends.idle] at ha'; cases ha'

theorem renews_of_active {e : Event α} (ha : e.before.active = true) (ha' : e.after.active = true)
    (hb : e.after.broken = false) {k : Nat} {ep : Endpoint α} (hk : e.before.endpoints[k]? = some ep)
    (hm : ep.window.minExtend ≤ ep.window.expireTicks) :
    ∃ ep', e.after.endpoints[k]? = some ep' ∧ ep.Renews (e.heard k) (handed k e.timeouts) ep' := by
  rw [timeouts_of_active ha ha']
  -- all calls but those that bring reports leave the windows alone and send nothing
  have same : e.updates = [] → e.posts = [] → ∀ ep', e.after.endpoints[k]? = some ep' →
      ep'.address = ep.address → ep'.window = ep.window →
      ∃ ep', e.after.endpoints[k]? = some ep' ∧ ep.Renews (e.heard k) (handed k e.posts) ep' := by
    intro hu hp ep' hk' haddr hw
    refine ⟨ep', hk', ?_⟩
    unfold Event.heard
    rw [hu, hp]
    exact .of_same haddr hw
  obtain ⟨d, c⟩ := e
  have hbroken : ¬ d.broken = true := by
    intro h
    have := call_broken h c
    rw [show (d.call c).1.broken = false from hb] at this
    cases this
  have hactive : d.active = true := ha
  cases c with
  | register link queue oid tags =>
    refine same rfl rfl ep ?_ rfl rfl
    simpa [Event.after, Dispatch.call, register, hbroken, hactive] using hk
  | setup place window clock =>
    refine same rfl rfl ep ?_ rfl rfl
    simpa [Event.after, Dispatch.call, setup, hbroken, hactive] using hk
  | updateClock place clock =>
    refine same rfl rfl (if place = k then ep.updateClock clock else ep) ?_ ?_ ?_
    · have hk : d.endpoints[k]? = some ep := hk
      simp only [Event.after, Dispatch.call, updateClock, if_neg hbroken, List.getElem?_modify, hk]
      rfl
    · split <;> rfl
    · split <;> rfl
  | start reason =>
    have h : d.start reason = (d, [], .error .alreadyActive) := by
      rw [start, if_neg hbroken, if_pos hactive]
    refine same rfl ?_ ep ?_ rfl rfl
    · simp only [Event.posts, Dispatch.call, h]
    · simp only [Event.after, Dispatch.call, h]; exact hk
  | batch us => exact batch_renews ha' hb hk hm
  | status u => exact batch_renews ha' hb hk hm
  | stop =>
    have h : d.stop = ((d.halt.broadcast Reason.hostRequest).1, (d.halt.broadcast Reason.hostRequest).2,
        .ok true) := by rw [stop, if_neg hbroken, if_pos hactive]
    simp only [Event.after, Dispatch.call, h] at ha'
    cases ha'
  | closeLinks =>
    refine same rfl rfl { ep with link := .closed } ?_ rfl rfl
    have hk : d.endpoints[k]? = some ep := hk
    simp [Event.after, Dispatch.call, closeLinks, hk]

/-- The endpoints of a dispatch that a call found active and leaves so, with what they were before. -/
theorem renewed {e : Event α} (ha : e.before.active = true) (ha' : e.after.active = true)
    (hb : e.after.broken = false) {k : Nat} {ep' : Endpoint α} (hk : e.after.endpoints[k]? = some ep') :
    ∃ ep, e.before.endpoints[k]? = some ep ∧ (ep.window.minExtend ≤ ep.window.expireTicks →
      ep.Renews (e.heard k) (handed k e.timeouts) ep') := by
  have hlen : e.after.endpoints.length = e.before.endpoints.length := by
    rcases e.cases with hq | hb | ⟨decision, hd⟩
    · obtain ⟨new, hnew, hnil⟩ := hq.endpoints
      rw [hnil ha, List.append_nil] at hnew
      simpa using congrArg List.length hnew
    · rw [hb.idle] at ha; cases ha
    · rw [hd.ends.idle] at ha'; cases ha'
  have hlt : k < e.before.endpoints.length := hlen ▸ (List.getElem?_eq_some_iff.1 hk).1
  refine ⟨_, List.getElem?_eq_getElem hlt, fun hm => ?_⟩
  obtain ⟨ep'', hk', hr⟩ := renews_of_active ha ha' hb (List.getElem?_eq_getElem hlt) hm
  obtain rfl : ep'' = ep' := Option.some.inj (hk'.symm.trans hk)
  exact hr

/-- The call that arms a dispatch with sound windows puts its endpoints in time. -/
theorem inTime_of_begins {e : Event α} (hb : e.Begins) (ha : e.after.active = true)
    (hs : ∀ ep ∈ e.before.endpoints, ep.window.Sound) {k : Nat} {ep' : Endpoint α}
    (hk : e.after.endpoints[k]? = some ep') (told : List Command) :
    ep'.InTime false (told ++ handed k e.timeouts) := by
  obtain ⟨reason, hc⟩ := hb.start
  have hidle := hb.idle
  obtain ⟨d, c⟩ := e
  obtain rfl : c = .start reason := hc
  obtain ⟨hf, hstart⟩ := start_of_active hidle ha
  obtain ⟨ht, -⟩ := Event.split_of_start (show Event.posts ⟨d, .start reason⟩ = (arm 0 d.endpoints).2.1 ++ [] by
    simp only [Event.posts, Dispatch.call, hstart, List.append_nil])
  simp only [Event.after, Dispatch.call, hstart] at hk
  obtain ⟨ep, hep, hw, hh⟩ := arm_told d.endpoints 0 hf hk
  rw [Nat.zero_add] at hh
  obtain ⟨hstatus, hmin⟩ := hs ep (List.mem_of_getElem? hep)
  rw [ht, hh]
  refine ⟨hw ▸ hstatus, hw ▸ hmin, fun h => ?_, by simp⟩
  cases h

/-- A call that leaves the dispatch active began its generation, or found it active in that generation. -/
theorem begins_or_active {e : Event α} (ha : e.after.active = true) :
    e.Begins ∨ e.before.active = true ∧ e.after.generation = e.before.generation := by
  rcases e.cases with hq | hb | ⟨decision, hd⟩
  · exact .inr ⟨hq.active.symm.trans ha, hq.generation⟩
  · exact .inl hb
  · rw [hd.ends.idle] at ha; cases ha

/-! ## Runs -/

/-- The timeout commands that were handed to the endpoint at a place. -/
def timeoutsTo (k : Nat) (es : List (Event α)) : List Command := handed k (es.flatMap Event.timeouts)

@[simp] theorem timeoutsTo_append (k : Nat) (es : List (Event α)) (e : Event α) :
    timeoutsTo k (es ++ [e]) = timeoutsTo k es ++ handed k e.timeouts := by
  simp [timeoutsTo]

/-- Each start finds sound windows. -/
def SoundStarts (es : List (Event α)) : Prop :=
  ∀ e ∈ es, ∀ reason, e.call = .start reason → e.before.active = false →
    ∀ ep ∈ e.before.endpoints, ep.window.Sound

/-- A dispatch that is not under way, with sound windows. -/
structure Idle (d : Dispatch α) : Prop where
  inactive : d.active = false
  sound : ∀ ep ∈ d.endpoints, ep.window.Sound

/-- A call that does not start the dispatch, and sets up sound windows only. -/
def Call.Prepares : Call α → Prop
  | .setup _ window _ => window.Sound
  | .start _ => False
  | _ => True

omit [Scalar α] in
theorem idle_empty : (empty : Dispatch α).Idle := ⟨rfl, fun _ hep => by cases hep⟩

/-- As long as a dispatch is not started, its windows are those that are set up. -/
theorem Idle.call {d : Dispatch α} (h : d.Idle) {c : Call α} (hc : c.Prepares) : (d.call c).1.Idle := by
  have hactive : ¬ d.active = true := by simp [h.inactive]
  have hidle : (d.active && d.canTrigger) = false := by simp [h.inactive]
  by_cases hb : d.broken = true
  · -- A broken dispatch can do no more than close its links.
    cases c with
    | start reason => cases hc
    | closeLinks => exact ⟨h.inactive, List.forall_mem_map.2 h.sound⟩
    | _ => simpa [Dispatch.call, register, setup, updateClock, batch, status, stop, hb] using h
  cases c with
  | register link queue oid tags =>
    simp only [Dispatch.call, register, if_neg hb, if_neg hactive]
    refine ⟨h.inactive, List.forall_mem_append.2 ⟨h.sound, List.forall_mem_singleton.2 ?_⟩⟩
    constructor <;> exact UInt64.le_refl _
  | setup place window clock =>
    simp only [Dispatch.call, setup, if_neg hb, if_neg hactive]
    exact ⟨h.inactive, forall_mem_modify (f := fun ep => ep.setup window clock) h.sound (fun _ _ => hc) place⟩
  | updateClock place clock =>
    simp only [Dispatch.call, updateClock, if_neg hb]
    exact ⟨h.inactive, forall_mem_modify (f := fun ep => ep.updateClock clock) h.sound (fun _ hep => hep) place⟩
  | start reason => cases hc
  | batch us => simpa only [Dispatch.call, batch_idle (Bool.eq_false_of_not_eq_true hb) hidle] using h
  | status u => simpa only [Dispatch.call, status, batch_idle (Bool.eq_false_of_not_eq_true hb) hidle] using h
  | stop => simpa only [Dispatch.call, stop, if_neg hb, if_neg hactive] using h
  | closeLinks => exact ⟨h.inactive, List.forall_mem_map.2 h.sound⟩

theorem call_mem_of_history {calls : List (Call α)} {d : Dispatch α} {e : Event α} (he : e ∈ history d calls) :
    e.call ∈ calls := by
  induction calls generalizing d with
  | nil => cases he
  | cons c rest ih =>
    rcases List.mem_cons.1 he with rfl | he
    · exact List.mem_cons_self
    · exact List.mem_cons_of_mem _ (ih he)

/-- A dispatch that is started once finds the windows that were set up before. -/
theorem Idle.soundStarts {before after : List (Call α)} {reason : Reason} {d : Dispatch α} (h : d.Idle)
    (hbefore : ∀ c ∈ before, c.Prepares) (hafter : ∀ c ∈ after, ∀ r, c ≠ .start r) :
    SoundStarts (history d (before ++ .start reason :: after)) := by
  induction before generalizing d with
  | nil =>
    intro e he r hr _
    rcases List.mem_cons.1 he with rfl | he
    · exact h.sound
    · exact absurd hr (hafter e.call (call_mem_of_history he) r)
  | cons c rest ih =>
    obtain ⟨hc, hrest⟩ := List.forall_mem_cons.1 hbefore
    intro e he r hr
    rcases List.mem_cons.1 he with rfl | he
    · obtain rfl : c = .start r := hr
      cases hc
    · exact ih (h.call hc) hrest e he r hr

theorem intact_of_append {cs : List (Call α)} {c : Call α} (h : (runFrom empty (cs ++ [c])).broken = false) :
    (runFrom empty cs).broken = false := by
  cases hb : (runFrom empty cs).broken with
  | false => rfl
  | true =>
    rw [runFrom_append, call_broken hb c] at h
    cases h

theorem SoundStarts.of_append {cs : List (Call α)} {c : Call α}
    (h : SoundStarts (history empty (cs ++ [c]))) : SoundStarts (history empty cs) := by
  intro e he
  refine h e ?_
  rw [history_append]
  exact List.mem_append_left _ he

/-- No call before the one that begins a generation belongs to it. -/
theorem within_begun {cs : List (Call α)} {c : Call α} (hb : Event.Begins ⟨runFrom empty cs, c⟩) :
    within (runFrom empty (cs ++ [c])).generation (history empty cs) = [] := by
  rw [within, List.filter_eq_nil_iff]
  intro e he
  have hpast := (chronicle_history cs).past e he
  have hnew : (runFrom empty (cs ++ [c])).generation = (runFrom empty cs).generation + 1 := by
    rw [runFrom_append]
    exact hb.generation
  simp only [decide_eq_true_eq]
  omega

/-- While a dispatch is active, all its endpoints are in time. -/
theorem inTime_of_active (calls : List (Call α)) (hs : SoundStarts (history empty calls))
    (hb : (runFrom empty calls).broken = false) (ha : (runFrom empty calls).active = true) {k : Nat}
    {ep : Endpoint α} (hk : (runFrom empty calls).endpoints[k]? = some ep) :
    ep.InTime ((within (runFrom empty calls).generation (history empty calls)).any
      fun e => !(e.heard k).isEmpty) (timeoutsTo k (history empty calls)) := by
  induction calls using List.reverseRecOn generalizing ep with
  | nil => cases ha
  | append_singleton cs c ih =>
    obtain ⟨e, he⟩ : ∃ e : Event α, e = ⟨runFrom empty cs, c⟩ := ⟨_, rfl⟩
    have hbefore : e.before = runFrom empty cs := by rw [he]
    have hafter : e.after = runFrom empty (cs ++ [c]) := by rw [runFrom_append, he]; rfl
    rw [history_append, ← he, timeoutsTo_append, within_append, if_pos (by rw [hafter])]
    rw [← hafter] at ha hk
    rcases begins_or_active ha with hbegins | ⟨hact, hgen⟩
    · -- nothing can be owed to earlier calls, as the generation has none
      obtain ⟨reason, hc⟩ := hbegins.start
      have hheard : (e.heard k).isEmpty = true := by
        unfold Event.heard Event.updates
        rw [hc]
        rfl
      rw [within_begun (he ▸ hbegins)]
      have hsound := hs e (by rw [history_append, ← he]; simp) reason hc hbegins.idle
      simpa [hheard] using inTime_of_begins hbegins ha hsound hk (timeoutsTo k (history empty cs))
    · obtain ⟨ep₀, hk₀, hr⟩ := renewed hact ha (hafter ▸ hb) hk
      rw [hbefore] at hact hgen hk₀
      have hin := ih hs.of_append (intact_of_append hb) hact hk₀
      rw [← hafter, hgen]
      simpa using hin.renews (hr hin.minExtend_le)

theorem generation_le_of_prefix {pre calls : List (Call α)} (h : pre <+: calls) :
    (runFrom empty pre).generation ≤ (runFrom empty calls).generation := by
  induction calls using List.reverseRecOn with
  | nil => rw [List.prefix_nil.1 h]
  | append_singleton cs c ih =>
    rcases List.prefix_concat_iff.1 h with rfl | h
    · exact le_rfl
    · rw [runFrom_append]
      exact (ih h).trans (Event.generation_le ⟨runFrom empty cs, c⟩)

/-- Expire clocks do not go back as long as a generation lasts. -/
theorem expire_le_of_prefix {pre calls : List (Call α)} (h : pre <+: calls)
    (hs : SoundStarts (history empty calls)) (hb : (runFrom empty calls).broken = false)
    (ha : (runFrom empty calls).active = true)
    (hg : (runFrom empty pre).generation = (runFrom empty calls).generation) {k : Nat} {ep₀ ep : Endpoint α}
    (hk₀ : (runFrom empty pre).endpoints[k]? = some ep₀) (hk : (runFrom empty calls).endpoints[k]? = some ep) :
    ep₀.window.expire ≤ ep.window.expire := by
  induction calls using List.reverseRecOn generalizing ep with
  | nil => cases ha
  | append_singleton cs c ih =>
    rcases List.prefix_concat_iff.1 h with rfl | h
    · rw [Option.some.inj (hk₀.symm.trans hk)]
      exact UInt64.le_refl _
    obtain ⟨e, he⟩ : ∃ e : Event α, e = ⟨runFrom empty cs, c⟩ := ⟨_, rfl⟩
    have hbefore : e.before = runFrom empty cs := by rw [he]
    have hafter : e.after = runFrom empty (cs ++ [c]) := by rw [runFrom_append, he]; rfl
    rw [← hafter] at ha hk hg
    rcases begins_or_active ha with hbegins | ⟨hact, hgen⟩
    · -- the generation is newer than all calls before
      have hle := generation_le_of_prefix h
      have hnew := hbegins.generation
      rw [hbefore] at hnew
      omega
    · obtain ⟨mid, hmid, hr⟩ := renewed hact ha (hafter ▸ hb) hk
      rw [hbefore] at hact hgen hmid
      have hin := inTime_of_active cs hs.of_append (intact_of_append hb) hact hmid
      have hle := ih h hs.of_append (intact_of_append hb) hact (hg.trans hgen) hmid
      exact UInt64.le_trans hle (hr hin.minExtend_le).expire_le

/-! ## Expire clocks are ahead -/

/-- The expire clock of an endpoint after calls that left the dispatch active. -/
structure Ahead (calls : List (Call α)) (place : Nat) (ep : Endpoint α) : Prop where
  /-- The latest status is not behind it. -/
  status_le : ep.window.lastStatus ≤ ep.window.expire
  /-- Once the controller was heard to run in this generation, the time below which an extension is asked
  for is left. -/
  reach : (∃ e ∈ within (runFrom empty calls).generation (history empty calls), e.heard place ≠ []) →
    ep.window.lastStatus.toNat + ep.window.minExtend.toNat ≤ ep.window.expire.toNat
  /-- It is not before any earlier expire clock of the generation. -/
  expire_le : ∀ earlier, earlier <+: calls →
    (runFrom empty earlier).generation = (runFrom empty calls).generation →
    ∀ ep₀, (runFrom empty earlier).endpoints[place]? = some ep₀ → ep₀.window.expire ≤ ep.window.expire
  /-- The controller was told of it last. -/
  told : ∃ command, (timeoutsTo place (history empty calls)).getLast? = some command ∧
    command.reqClock = ep.window.expire ∧
    command.fields = [ep.tags.setTimeout, ep.oid, Clock.low ep.window.expire]

theorem ahead_of_active (calls : List (Call α)) (hs : SoundStarts (history empty calls))
    (hb : (runFrom empty calls).broken = false) (ha : (runFrom empty calls).active = true) {place : Nat}
    {ep : Endpoint α} (hk : (runFrom empty calls).endpoints[place]? = some ep) : Ahead calls place ep := by
  have hin := inTime_of_active calls hs hb ha hk
  refine ⟨hin.status_le, fun hheard => hin.reach ?_, fun earlier he hg ep₀ hk₀ => ?_, ?_⟩
  · obtain ⟨e, he, hne⟩ := hheard
    rw [List.any_eq_true]
    exact ⟨e, he, by simpa using hne⟩
  · exact expire_le_of_prefix he hs hb ha hg hk₀ hk
  · exact ⟨ep.timeoutCommand, hin.told, rfl, rfl⟩

/-- After any calls that leave a dispatch active, every expire clock is ahead of the reports, has not gone
back, and is the one the controller was told last, if starts found sound windows and no sum of clocks was
too large for the counter. -/
theorem expire_ahead (calls : List (Call α)) (sound : SoundStarts (history empty calls))
    (intact : (runFrom empty calls).broken = false) (active : (runFrom empty calls).active = true) {place : Nat}
    {ep : Endpoint α} (registered : (runFrom empty calls).endpoints[place]? = some ep) :
    Ahead calls place ep :=
  ahead_of_active calls sound intact active registered

omit [Scalar α] in
/-- The windows of settings whose fraction is below one are sound. So the expire clocks of a dispatch that is started
once with such windows are ahead. -/
theorem ahead_of_settings {F : Type} [Exact F] {settings : TrsyncSettings F} (hf : settings.extendFraction < 1)
    {before after : List (Call F)} {reason : Reason} (hbefore : ∀ c ∈ before, ∀ r, c ≠ .start r)
    (hafter : ∀ c ∈ after, ∀ r, c ≠ .start r)
    (hwindow : ∀ place window clock, .setup place window clock ∈ before →
      ∃ controllers time, settings.window? controllers time clock = some window)
    (intact : (runFrom empty (before ++ .start reason :: after)).broken = false)
    (active : (runFrom empty (before ++ .start reason :: after)).active = true) {place : Nat} {ep : Endpoint F}
    (registered : (runFrom empty (before ++ .start reason :: after)).endpoints[place]? = some ep) :
    Ahead (before ++ .start reason :: after) place ep := by
  refine ahead_of_active _ (idle_empty.soundStarts (fun c hc => ?_) hafter) intact active registered
  cases c with
  | setup place window clock =>
    obtain ⟨controllers, time, h⟩ := hwindow place window clock hc
    exact TrsyncSettings.sound_of_window? hf h
  | start r => exact absurd rfl (hbefore _ hc r)
  | _ => trivial

/-- One controller reports twice in a batch, the second time late, with less time left than it asks for. -/
def renewal : List (Call ℚ) :=
  [.register .intact 0 7 ⟨1, 2, 3⟩, .setup 0 ⟨0, 1000, 1000, 100⟩ (.ofReference 0 0 1000), .start 1,
    .batch [⟨some 0, ⟨7, true, 0, 950⟩⟩, ⟨some 0, ⟨7, true, 0, 900⟩⟩]]

theorem renewal_sound : SoundStarts (history empty renewal) := by
  show SoundStarts (history empty ([_, _] ++ .start 1 :: [_]))
  refine idle_empty.soundStarts (fun c hc => ?_) fun c hc r => ?_
  · simp only [List.mem_cons, List.not_mem_nil, or_false] at hc
    rcases hc with rfl | rfl
    · trivial
    · constructor <;> decide
  · rw [List.mem_singleton.1 hc]
    exact nofun

theorem expire_ahead_renewal : ∃ ep, (runFrom empty renewal).endpoints[0]? = some ep ∧
    ep.window = ⟨950, 1950, 1000, 100⟩ ∧ Ahead renewal 0 ep :=
  ⟨_, rfl, by decide +kernel, expire_ahead renewal renewal_sound (by decide +kernel) (by decide +kernel) rfl⟩

end Dispatch

end PrinterMotion
