/-
What a simulation can fail by. Once it has begun it is refused nothing: it stops only where a time passes
the end of simulated time, where a clock passes the end of its counter, or where the number of events is
used up.
-/
import PrinterMotion.Proofs.Simulation.Course

namespace PrinterMotion

variable {α : Type} [Scalar α]

/-- Reports that fail have found a passed expire clock, or the end of the counter. -/
theorem Dispatch.batch_eq_error {d : Dispatch α} {us : List StatusUpdate} {e : DispatchError}
    (hb : d.broken = false) (h : (d.batch us).2.2 = .error e) :
    e = .clockOverflow ∨ ∃ oid clock expire, e = .lapsed oid clock expire := by
  obtain ⟨d', fs, hn⟩ : ∃ d' fs, d.noteAll us = (d', fs) := ⟨_, _, rfl⟩
  have aborts : ∀ l ∈ lapses us fs, .error e = (d'.abort l.error).2.2 →
      ∃ oid clock expire, e = .lapsed oid clock expire := by
    intro l hl he
    obtain ⟨-, u, clock, expire, -, -, hl⟩ := exists_of_mem_lapses us fs l hl
    cases he
    exact ⟨_, _, _, hl⟩
  simp only [batch, hb, hn, Bool.false_eq_true, if_false] at h
  split at h
  · split at h
    · rename_i l hlapse
      exact .inr (aborts l (firstBy_mem (Option.filter_eq_some_iff.1 hlapse).1) h.symm)
    · cases h
  · rename_i l _ hlapse
    exact .inr (aborts l (firstBy_mem hlapse) h.symm)
  · exact .inl (extendAll_error h).1

/-- Time, the counter of a clock, or the number of events does not suffice. -/
inductive SimulationFailure.Exhausted : SimulationFailure → Prop where
  | time : Exhausted .endOfTime
  | counter : Exhausted (.dispatch .clockOverflow)
  | events : Exhausted .endless

namespace HomingSimulation

open SimulationFailure

omit [Scalar α] in
theorem exhausted_of_inTime {t : Option Instant} {failure : SimulationFailure} (h : inTime t = .error failure) :
    failure.Exhausted := by
  cases t with
  | none => cases h; exact .time
  | some t => cases h

theorem exhausted_of_deliver {s : HomingSimulation α} {p : Post} {failure : SimulationFailure}
    (h : s.deliver p = .error failure) : failure.Exhausted := by
  unfold deliver at h
  split at h
  · cases h
  · rcases bind_eq_error.1 h with h | ⟨time, -, h⟩
    · exact exhausted_of_inTime h
    · cases h

theorem exhausted_of_deliverAll : ∀ {posts : List Post} {s : HomingSimulation α} {failure : SimulationFailure},
    s.deliverAll posts = .error failure → failure.Exhausted
  | [], _, _, h => by cases h
  | p :: rest, s, failure, h => by
    rw [deliverAll, List.foldlM_cons] at h
    rcases bind_eq_error.1 h with h | ⟨s', -, h⟩
    · exact exhausted_of_deliver h
    · exact exhausted_of_deliverAll h

theorem exhausted_of_sendReport {s : HomingSimulation α} {place : Nat} {c : SimulatedController α}
    {failure : SimulationFailure} (h : s.sendReport place c = .error failure) : failure.Exhausted := by
  unfold sendReport at h
  rcases bind_eq_error.1 h with h | ⟨time, -, h⟩
  · exact exhausted_of_inTime h
  · split at h <;> cases h

theorem exhausted_of_receive {s : HomingSimulation α} {arrivals : List (Nat × StatusReport)}
    {failure : SimulationFailure} (hb : s.dispatch.broken = false) (h : s.receive arrivals = .error failure) :
    failure.Exhausted := by
  unfold receive at h
  dsimp only at h
  split at h
  · exact exhausted_of_deliverAll h
  · exact exhausted_of_deliverAll h
  · rename_i e hne he
    cases h
    rcases Dispatch.batch_eq_error hb he with rfl | ⟨oid, clock, expire, rfl⟩
    · exact .counter
    · exact absurd rfl (hne oid clock expire)

theorem exhausted_of_happen {s : HomingSimulation α} {time : Instant} {event : SimulationEvent}
    {failure : SimulationFailure} (hb : s.dispatch.broken = false) (h : s.happen time event = .error failure) :
    failure.Exhausted := by
  cases event with
  | sample place =>
    simp only [happen] at h
    split at h
    · cases h
    · rcases bind_eq_error.1 h with h | ⟨s', -, h⟩
      · exact exhausted_of_sendReport h
      · split at h
        · rcases bind_eq_error.1 h with h | ⟨next, -, h⟩
          · exact exhausted_of_inTime h
          · cases h
        · cases h
  | endstop place =>
    simp only [happen] at h
    split at h
    · cases h
    · exact exhausted_of_sendReport h
  | arrival place report =>
    simp only [happen] at h
    refine exhausted_of_receive ?_ h
    exact hb
  | order place command => cases h

theorem exhausted_of_step {s : HomingSimulation α} {finish : Instant} {failure : SimulationFailure}
    (hb : s.dispatch.broken = false) (h : s.step finish = .error failure) : failure.Exhausted := by
  cases hp : s.events.pending with
  | nil => simp [step, EventQueue.pop, hp] at h
  | cons e rest =>
    rw [step_eq hp] at h
    split at h
    · cases h
    · split at h
      · cases h
      · rename_i failure' hh
        cases h
        refine exhausted_of_happen ?_ hh
        exact hb

theorem exhausted_of_steps {finish : Instant} {place : Nat} : ∀ {fuel : Nat} {s : HomingSimulation α}
    {c : SimulatedController α} {failure : SimulationFailure}, s.InLine place c → c.scenario.lostReports = none →
      s.dispatch.broken = false → steps finish fuel s = .error failure → failure.Exhausted
  | 0, _, _, _, _, _, _, h => by
    cases h
    exact .events
  | fuel + 1, s, c, failure, hl, hkept, hb, h => by
    rw [steps] at h
    split at h
    · rename_i failure' hs
      cases h
      exact exhausted_of_step hb hs
    · cases h
    · rename_i s' hs
      obtain ⟨us, c', hflows⟩ := hl.flows hkept hb hs
      exact exhausted_of_steps hflows.line (hflows.becomes.kept hkept) (hflows.handles.unbroken hb) h

end HomingSimulation

end PrinterMotion
