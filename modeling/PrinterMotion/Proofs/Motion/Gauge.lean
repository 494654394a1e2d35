/-
What is read off a row of segments at a time. A gauge shows one value for a place where something stands
and another inside a motion; it may also add something up for each motion that is passed, as an integral
does. Readings depend on the motions of a row alone: holds are invisible, motions that are behind add a
constant, and motions that are still ahead add nothing.

At the time where two segments meet a reading can be taken from the left or from the right.
-/
import PrinterMotion.Proofs.Motion.Playing

namespace PrinterMotion

variable {F : Type} [Exact F]

/-! ## Sides -/

/-- The side from which a reading is taken. -/
inductive Side where
  | left
  | right

namespace Side

/-- Whether a reading at `x` is one of what is there in front of `t`. -/
def Before : Side → F → F → Prop
  | left, x, t => x ≤ t
  | right, x, t => x < t

instance : ∀ (side : Side) (x t : F), Decidable (side.Before x t)
  | left, x, t => inferInstanceAs (Decidable (x ≤ t))
  | right, x, t => inferInstanceAs (Decidable (x < t))

variable {side : Side} {x t u : F}

theorem before_left : left.Before x t ↔ x ≤ t := Iff.rfl

theorem before_right : right.Before x t ↔ x < t := Iff.rfl

theorem not_before_of_lt (h : t < x) : ¬ side.Before x t := by
  cases side
  · exact not_le.2 h
  · exact not_lt.2 h.le

theorem Before.mono (h : side.Before x t) (htu : t ≤ u) : side.Before x u := by
  cases side
  · exact le_trans h htu
  · exact lt_of_lt_of_le h htu

theorem not_before_mono (h : ¬ side.Before x u) (htu : t ≤ u) : ¬ side.Before x t :=
  fun hx => h (hx.mono htu)

end Side

/-! ## Readings -/

/-- Something that is read off motion. -/
structure Gauge (F : Type) [Exact F] where
  /-- What is read at a time while something stands at a place. -/
  rest : Coord F → F → F
  /-- What is read a number of seconds into a motion; the place is that of the stand in front of it. -/
  inside : Coord F → Segment F → F → F
  /-- What a motion that is passed adds to all later readings. -/
  step : Coord F → Segment F → F
  inside_hold : ∀ (s d t : F) (p : Coord F), inside p (.hold s d p) t = rest p (s + t)
  step_hold : ∀ (s d : F) (p : Coord F), step p (.hold s d p) = 0
  /-- The place in front of a motion only adds a constant to what is read from its start on. -/
  inside_sub_step : ∀ (p p' : Coord F) (s : Segment F) (t : F),
    inside p s t - step p s = inside p' s t - step p' s

namespace Gauge

variable (γ : Gauge F) (side : Side)

/-- What is read at `x` off segments in order of time, in front of which something stands at `p`. -/
def read : Coord F → List (Segment F) → F → F
  | p, [], x => γ.rest p x
  | p, s :: rest, x =>
    if side.Before x s.start then γ.rest p x
    else if side.Before x s.finish then γ.inside p s (x - s.start)
    else γ.step p s + read s.target rest x

/-- What segments that are passed add. -/
def passed : Coord F → List (Segment F) → F
  | _, [] => 0
  | p, s :: rest => γ.step p s + passed s.target rest

/-- What is added to readings when segments are read from behind `p'` and not from behind `p`. -/
def offset (p p' : Coord F) : List (Segment F) → F
  | [] => 0
  | s :: _ => γ.step p' s - γ.step p s

variable {γ side} {p p' : Coord F} {x : F} {ms : List (Segment F)}

theorem passed_of_step_zero (h : ∀ p s, γ.step p s = 0) (p : Coord F) (ms : List (Segment F)) :
    γ.passed p ms = 0 := by
  induction ms generalizing p with
  | nil => rfl
  | cons s rest ih => rw [passed, ih, h, add_zero]

theorem offset_of_step_zero (h : ∀ p s, γ.step p s = 0) (p p' : Coord F) (ms : List (Segment F)) :
    γ.offset p p' ms = 0 := by
  cases ms with
  | nil => rfl
  | cons s rest => rw [offset, h, h, sub_zero]

/-- The place in front of segments does not matter but for a constant once they have begun. -/
theorem read_offset (h : p = p' ∨ ∃ s ∈ ms.head?, ¬ side.Before x s.start) :
    γ.read side p' ms x = γ.offset p p' ms + γ.read side p ms x := by
  rcases h with rfl | ⟨s, hs, hx⟩
  · cases ms <;> simp [offset]
  · cases ms with
    | nil => cases hs
    | cons u rest =>
      cases hs
      have hsub := γ.inside_sub_step p p' s (x - s.start)
      rw [read, read, if_neg hx, if_neg hx, offset]
      split <;> linarith

/-- In front of all segments something stands. -/
theorem read_of_before (h : ∀ s ∈ ms, side.Before x s.start) : γ.read side p ms x = γ.rest p x := by
  cases ms with
  | nil => rfl
  | cons s rest => rw [read, if_pos (h s List.mem_cons_self)]

/-- Segments that are ahead are not read. -/
theorem read_append_of_before {later : List (Segment F)} (h : ∀ s ∈ later, side.Before x s.start) :
    γ.read side p (ms ++ later) x = γ.read side p ms x := by
  induction ms generalizing p with
  | nil => exact read_of_before h
  | cons s rest ih => simp only [List.cons_append, read, ih]

/-- Segments that are behind add a constant. -/
theorem read_append_of_behind {gone : List (Segment F)}
    (h : ∀ s ∈ gone, 0 ≤ s.duration ∧ ¬ side.Before x s.finish) :
    γ.read side p (gone ++ ms) x = γ.passed p gone + γ.read side (endPlace p gone) ms x := by
  induction gone generalizing p with
  | nil => exact (zero_add _).symm
  | cons s rest ih =>
    obtain ⟨hd, hx⟩ := h s List.mem_cons_self
    rw [List.cons_append, read, if_neg (Side.not_before_mono hx (Segment.start_le_finish hd)), if_neg hx,
      ih fun u hu => h u (List.mem_cons_of_mem _ hu), passed, add_assoc]
    rfl

/-- Behind all segments something stands where the last of them ends. -/
theorem read_of_behind (h : ∀ s ∈ ms, 0 ≤ s.duration ∧ ¬ side.Before x s.finish) :
    γ.read side p ms x = γ.passed p ms + γ.rest (endPlace p ms) x := by
  have hread : γ.read side p (ms ++ []) x = _ := read_append_of_behind h
  rwa [List.append_nil] at hread

/-- A row reads as the motions that it plays. -/
theorem read_row {a b : Stand F} {row : List (Segment F)} (h : Plays a row ms b) (x : F) :
    γ.read side a.place row x = γ.read side a.place ms x := by
  induction h with
  | nil => rfl
  | @hold a b row ms d hd h ih =>
    have hstart : (Segment.hold a.time d a.place).start = a.time := rfl
    rw [read, Segment.finish_hold, hstart, Segment.target_hold]
    by_cases hfin : side.Before x (a.time + d)
    · -- Up to the end of the hold no motion has begun.
      have hrest : γ.read side a.place ms x = γ.rest a.place x :=
        read_of_before fun s hs => hfin.mono (h.le_start s hs)
      rw [hrest, if_pos hfin, γ.inside_hold, add_sub_cancel, ite_self]
    · have hlow : ¬ side.Before x a.time := Side.not_before_mono hfin (le_add_of_nonneg_right hd)
      rw [if_neg hlow, if_neg hfin, γ.step_hold, zero_add]
      exact ih
  | move hs hd h ih => simp only [read, ih]

/-- Two rows that play the same motions around a time differ in their readings by a constant, which is
what the motions add that only one of them plays. -/
theorem read_eq_of_plays {a b a' b' : Stand F} {row row' gone later : List (Segment F)}
    (h : Plays a row ms b) (h' : Plays a' row' (gone ++ ms ++ later) b')
    (hplace : a.place = endPlace a'.place gone ∨ ∃ s ∈ ms.head?, ¬ side.Before x s.start)
    (hgone : ∀ s ∈ gone, s.finish < x) (hlater : ∀ s ∈ later, side.Before x s.start) :
    γ.read side a'.place row' x = γ.passed a'.place gone + γ.offset a.place (endPlace a'.place gone) ms +
      γ.read side a.place row x := by
  have hbehind : ∀ s ∈ gone, 0 ≤ s.duration ∧ ¬ side.Before x s.finish := by
    intro s hs
    have hmem : s ∈ row' := h'.mem_row s (by simp [hs])
    exact ⟨h'.joined.duration_nonneg s hmem, Side.not_before_of_lt (hgone s hs)⟩
  rw [read_row h, read_row h', read_append_of_before hlater, read_append_of_behind hbehind, read_offset hplace,
    add_assoc]

/-! ## Gauges without jumps -/

/-- Readings do not jump where a motion begins or ends. -/
structure Smooth (γ : Gauge F) : Prop where
  inside_zero : ∀ (p : Coord F) (s : Segment F), γ.inside p s 0 = γ.rest p s.start
  inside_duration : ∀ (p : Coord F) (s : Segment F),
    γ.inside p s s.duration = γ.step p s + γ.rest s.target s.finish

/-- Then the side of a reading does not matter. -/
theorem Smooth.read_right (h : γ.Smooth) (x : F) : ∀ {a : Stand F} {row : List (Segment F)} (p : Coord F),
    Joined a row → γ.read .right p row x = γ.read .left p row x
  | _, [], _, _ => rfl
  | _, s :: rest, p, ⟨_, hd, hrest⟩ => by
    have ih := h.read_right x s.target hrest
    have hle := Segment.start_le_finish hd
    have hnext : x ≤ s.finish → γ.read .left s.target rest x = γ.rest s.target x :=
      fun hx => read_of_before fun u hu => le_trans hx (hrest.le_start u hu)
    rw [read, read, ih]
    simp only [Side.before_left, Side.before_right]
    rcases lt_trichotomy x s.start with hx | rfl | hx
    · rw [if_pos hx, if_pos hx.le]
    · rw [if_neg (lt_irrefl _), if_pos (le_refl _), sub_self, h.inside_zero]
      by_cases hfin : s.start < s.finish
      · rw [if_pos hfin]
      · -- A motion of no duration is passed at once.
        have heq : s.finish = s.start := le_antisymm (not_lt.1 hfin) hle
        have hzero : s.duration = 0 := by rw [Segment.finish] at heq; linarith
        rw [if_neg hfin, hnext hle, ← heq, ← h.inside_duration, hzero, h.inside_zero, heq]
    · rw [if_neg hx.not_gt, if_neg hx.not_ge]
      rcases lt_trichotomy x s.finish with hfin | hfin | hfin
      · rw [if_pos hfin, if_pos hfin.le]
      · rw [if_neg hfin.not_lt, if_pos hfin.le, hnext hfin.le, hfin, Segment.finish, add_sub_cancel_left,
          h.inside_duration, Segment.finish]
      · rw [if_neg hfin.not_gt, if_neg hfin.not_ge]

end Gauge

end PrinterMotion
