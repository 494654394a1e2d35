/-
What a row of segments plays. Motions begin when what is before them ends, and holds stand in between
where the motion before them ended, so a row is known by its motions. Queueing a segment adds one motion
to those a queue plays, holding adds none, and retiring takes some away at the front.
-/
import PrinterMotion.Proofs.Stepper.Visits
import PrinterMotion.Motion.Queue
import Mathlib.Data.List.TakeWhile

namespace PrinterMotion

variable {F : Type} [Exact F]

omit [Exact F] in
theorem Coord.eq_of_get {p q : Coord F} (h : ∀ i, p.get i = q.get i) : p = q := by
  obtain ⟨x, y, z⟩ := p
  obtain ⟨x', y', z'⟩ := q
  obtain rfl : x = x' := h .x
  obtain rfl : y = y' := h .y
  obtain rfl : z = z' := h .z
  rfl

/-- A place, and the time from which on something stands there. -/
structure Stand (F : Type) where
  place : Coord F
  time : F

/-- A row of segments from one stand to another, with the motions that it plays. -/
inductive Plays : Stand F → List (Segment F) → List (Segment F) → Stand F → Prop where
  | nil (a : Stand F) : Plays a [] [] a
  | hold {a b : Stand F} {row ms : List (Segment F)} (d : F) (hd : 0 ≤ d)
      (h : Plays ⟨a.place, a.time + d⟩ row ms b) : Plays a (.hold a.time d a.place :: row) ms b
  | move {a b : Stand F} {s : Segment F} {row ms : List (Segment F)} (hs : s.start = a.time)
      (hd : 0 ≤ s.duration) (h : Plays ⟨s.target, s.finish⟩ row ms b) : Plays a (s :: row) (s :: ms) b

/-- The place at which motions from `p` end. -/
def endPlace (p : Coord F) (ms : List (Segment F)) : Coord F := ms.foldl (fun _ s => s.target) p

@[simp] theorem Segment.target_hold (s d : F) (p : Coord F) : (Segment.hold s d p).target = p := by
  simp [Segment.target, Segment.coordAt, Segment.distanceAt, Segment.hold, Coord.origin]

@[simp] theorem Segment.finish_hold (s d : F) (p : Coord F) : (Segment.hold s d p).finish = s + d := rfl

theorem Segment.start_le_finish {s : Segment F} (h : 0 ≤ s.duration) : s.start ≤ s.finish :=
  le_add_of_nonneg_right h

/-- Segments of which each begins when the one before it ends. -/
def Joined : Stand F → List (Segment F) → Prop
  | _, [] => True
  | a, s :: rest => s.start = a.time ∧ 0 ≤ s.duration ∧ Joined ⟨s.target, s.finish⟩ rest

instance decidableJoined : ∀ (a : Stand F) (row : List (Segment F)), Decidable (Joined a row)
  | _, [] => .isTrue trivial
  | a, s :: rest =>
    have := decidableJoined ⟨s.target, s.finish⟩ rest
    inferInstanceAs (Decidable (s.start = a.time ∧ 0 ≤ s.duration ∧ Joined ⟨s.target, s.finish⟩ rest))

theorem Joined.le_start : ∀ {a : Stand F} {row : List (Segment F)}, Joined a row → ∀ s ∈ row, a.time ≤ s.start
  | _, _ :: _, ⟨h, hd, hrest⟩, s, hs => by
    rcases List.mem_cons.1 hs with rfl | hs
    · exact h.ge
    · rw [← h]
      exact (Segment.start_le_finish hd).trans (hrest.le_start s hs)

theorem Joined.duration_nonneg : ∀ {a : Stand F} {row : List (Segment F)}, Joined a row →
    ∀ s ∈ row, 0 ≤ s.duration
  | _, _ :: _, ⟨_, hd, hrest⟩, s, hs => by
    rcases List.mem_cons.1 hs with rfl | hs
    · exact hd
    · exact hrest.duration_nonneg s hs

/-- The stand behind a row of segments. -/
def Stand.after (a : Stand F) (row : List (Segment F)) : Stand F := row.foldl (fun _ s => ⟨s.target, s.finish⟩) a

theorem Stand.after_place (a : Stand F) (row : List (Segment F)) : (a.after row).place = endPlace a.place row := by
  induction row generalizing a with
  | nil => rfl
  | cons s rest ih => exact ih ⟨s.target, s.finish⟩

theorem Stand.after_append (a : Stand F) (l r : List (Segment F)) : a.after (l ++ r) = (a.after l).after r :=
  List.foldl_append

theorem Joined.of_append {a : Stand F} {l r : List (Segment F)} (h : Joined a (l ++ r)) :
    Joined a l ∧ Joined (a.after l) r := by
  induction l generalizing a with
  | nil => exact ⟨trivial, h⟩
  | cons s rest ih =>
    obtain ⟨hs, hd, hrest⟩ := h
    exact ⟨⟨hs, hd, (ih hrest).1⟩, (ih hrest).2⟩

theorem Joined.time_le_after : ∀ {a : Stand F} {row : List (Segment F)}, Joined a row → a.time ≤ (a.after row).time
  | _, [], _ => le_refl _
  | _, _ :: _, ⟨h, hd, hrest⟩ => h.ge.trans ((Segment.start_le_finish hd).trans hrest.time_le_after)

theorem Joined.finish_le_after : ∀ {a : Stand F} {row : List (Segment F)}, Joined a row →
    ∀ s ∈ row, s.finish ≤ (a.after row).time
  | _, _ :: _, ⟨_, _, hrest⟩, s, hs => by
    rcases List.mem_cons.1 hs with rfl | hs
    · exact hrest.time_le_after
    · exact hrest.finish_le_after s hs

theorem Joined.contiguous {a : Stand F} {segs : Array (Segment F)} (h : Joined a segs.toList) :
    Contiguous segs := by
  have meets : ∀ {a : Stand F} {row : List (Segment F)}, Joined a row → ∀ (i : Nat) (m n : Segment F),
      row[i]? = some m → row[i + 1]? = some n → n.start = m.finish := by
    intro a row
    induction row generalizing a with
    | nil => intro _ i m n hm; simp at hm
    | cons s rest ih =>
      rintro ⟨-, -, hrest⟩ i m n hm hn
      cases i with
      | succ i => exact ih hrest i m n hm hn
      | zero =>
        obtain rfl : s = m := by simpa using hm
        cases rest with
        | nil => simp at hn
        | cons u rest =>
          obtain rfl : u = n := by simpa using hn
          exact hrest.1
  refine ⟨fun i m hm => ?_, fun i m n hm hn => ?_⟩
  · exact h.duration_nonneg m (Array.mem_toList_iff.2 (Array.mem_of_getElem? hm))
  · exact meets h i m n (by simpa using hm) (by simpa using hn)

namespace Plays

variable {a b c : Stand F} {row row' ms ms' : List (Segment F)}

theorem joined (h : Plays a row ms b) : Joined a row := by
  induction h with
  | nil => trivial
  | @hold a b row ms d hd h ih =>
    refine ⟨rfl, hd, ?_⟩
    rw [Segment.target_hold]
    exact ih
  | move hs hd h ih => exact ⟨hs, hd, ih⟩

theorem append (h : Plays a row ms b) (h' : Plays b row' ms' c) : Plays a (row ++ row') (ms ++ ms') c := by
  induction h with
  | nil => exact h'
  | hold d hd h ih => exact .hold d hd (ih h')
  | move hs hd h ih => exact .move hs hd (ih h')

theorem split (h : Plays a (row ++ row') ms c) :
    ∃ b done left, ms = done ++ left ∧ Plays a row done b ∧ Plays b row' left c := by
  induction row generalizing a ms with
  | nil => exact ⟨a, [], ms, rfl, .nil a, h⟩
  | cons s row ih =>
    cases h with
    | hold d hd h =>
      obtain ⟨b, done, left, rfl, h1, h2⟩ := ih h
      exact ⟨b, done, left, rfl, .hold d hd h1, h2⟩
    | move hs hd h =>
      obtain ⟨b, done, left, rfl, h1, h2⟩ := ih h
      exact ⟨b, s :: done, left, rfl, .move hs hd h1, h2⟩

theorem time_le (h : Plays a row ms b) : a.time ≤ b.time := by
  induction h with
  | nil => exact le_refl _
  | hold d hd h ih => exact (le_add_of_nonneg_right hd).trans ih
  | move hs hd h ih => exact hs.ge.trans ((Segment.start_le_finish hd).trans ih)

theorem place_eq (h : Plays a row ms b) : b.place = endPlace a.place ms := by
  induction h with
  | nil => rfl
  | hold d hd h ih => exact ih
  | move hs hd h ih => exact ih

/-- The motions are some of the segments. -/
theorem mem_row (h : Plays a row ms b) : ∀ s ∈ ms, s ∈ row := by
  induction h with
  | nil => exact fun _ hs => hs
  | hold d hd h ih => exact fun s hs => List.mem_cons_of_mem _ (ih s hs)
  | move hm hd h ih =>
    intro s hs
    rcases List.mem_cons.1 hs with rfl | hs
    · exact List.mem_cons_self
    · exact List.mem_cons_of_mem _ (ih s hs)

theorem le_start (h : Plays a row ms b) : ∀ s ∈ ms, a.time ≤ s.start :=
  fun s hs => h.joined.le_start s (h.mem_row s hs)

/-- The last segment ends where and when the row does. -/
theorem last_eq (h : Plays a row ms b) {s : Segment F} (hs : row.getLast? = some s) :
    s.target = b.place ∧ s.finish = b.time := by
  induction h with
  | nil => cases hs
  | @hold a b row ms d hd h ih =>
    cases row with
    | nil =>
      cases hs
      cases h
      exact ⟨Segment.target_hold _ _ _, rfl⟩
    | cons u row => exact ih (by rwa [List.getLast?_cons_cons] at hs)
  | @move a b s row ms hm hd h ih =>
    cases row with
    | nil =>
      cases hs
      cases h
      exact ⟨rfl, rfl⟩
    | cons u row => exact ih (by rwa [List.getLast?_cons_cons] at hs)

end Plays

/-! ## Queues -/

namespace Queue

/-- The queue has segments, and they play the motions `ms` from `a` to `b`. -/
structure Playing (q : Queue F) (a : Stand F) (ms : List (Segment F)) (b : Stand F) : Prop where
  place : ∃ s, q.active.toList.head? = some s ∧ s.position = a.place
  plays : Plays a q.active.toList ms b

/-- Whether motion that begins at a stand joins the queue: it begins when the queue ends, or late enough
for a hold in between. -/
def Joins (q : Queue F) (a : Stand F) : Prop :=
  ∀ last ∈ q.active.back?, a.time = last.finish ∨ last.finish + joinTolerance < a.time

/-- Whether the queue ends at the place of motion that begins at a time and place, and not later. -/
def EndsBy (q : Queue F) (a : Stand F) : Prop :=
  ∀ last ∈ q.active.back?, a.place = last.target ∧ last.finish ≤ a.time

instance (q : Queue F) (a : Stand F) : Decidable (q.Joins a) :=
  inferInstanceAs (Decidable (∀ last ∈ q.active.back?, _))

instance (q : Queue F) (a : Stand F) : Decidable (q.EndsBy a) :=
  inferInstanceAs (Decidable (∀ last ∈ q.active.back?, _))

theorem joinTolerance_pos : (0 : F) < joinTolerance := by
  unfold joinTolerance
  norm_num

variable {q : Queue F} {a b : Stand F} {ms : List (Segment F)}

theorem Playing.nonempty (h : q.Playing a ms b) : q.active ≠ #[] := by
  obtain ⟨s, hs, -⟩ := h.place
  rintro hempty
  rw [hempty] at hs
  cases hs

theorem Playing.back?_eq (h : q.Playing a ms b) :
    ∃ last, q.active.back? = some last ∧ last.target = b.place ∧ last.finish = b.time := by
  cases hl : q.active.back? with
  | none => exact absurd (Array.back?_eq_none_iff.1 hl) h.nonempty
  | some last => exact ⟨last, rfl, h.plays.last_eq (by rw [Array.getLast?_toList, hl])⟩

theorem Playing.joins_iff (h : q.Playing a ms b) (c : Stand F) :
    q.Joins c ↔ c.time = b.time ∨ b.time + joinTolerance < c.time := by
  obtain ⟨last, hl, -, hf⟩ := h.back?_eq
  simp [Joins, hl, hf]

/-- Segments are queued behind those that are there. -/
theorem Playing.append (h : q.Playing a ms b) {q' : Queue F} (row : List (Segment F)) {ms' : List (Segment F)}
    {c : Stand F} (hq : q'.active.toList = q.active.toList ++ row) (hrow : Plays b row ms' c) :
    q'.Playing a (ms ++ ms') c := by
  obtain ⟨s, hs, hp⟩ := h.place
  refine ⟨⟨s, ?_, hp⟩, ?_⟩
  · rw [hq, List.head?_append, hs]
    rfl
  · rw [hq]
    exact h.plays.append hrow

/-- A segment that begins when the queue ends is queued as it is. -/
theorem add_eq_push (h : q.Playing a ms b) {s : Segment F} (hs : s.start = b.time) (hd : 0 ≤ s.duration) :
    q.add s = .ok { q with active := q.active.push s } := by
  obtain ⟨last, hl, -, hf⟩ := h.back?_eq
  have htol := joinTolerance_pos (F := F)
  simp only [add, Scalar.isFinite_eq, Scalar.zero_literal, hl, hf, hs, Bool.not_true, Bool.false_or,
    decide_eq_true_eq]
  rw [if_neg (by simpa using hd), if_neg (by linarith), if_neg (by linarith)]

theorem add_playing (h : q.Playing a ms b) {s : Segment F} (hs : q.Joins ⟨s.position, s.start⟩)
    (hd : 0 ≤ s.duration) :
    ∃ q', q.add s = .ok q' ∧ q'.Playing a (ms ++ [s]) ⟨s.target, s.finish⟩ := by
  rcases (h.joins_iff ⟨s.position, s.start⟩).1 hs with heq | hgap
  · exact ⟨_, add_eq_push h heq hd, h.append [s] (Array.toList_push ..) (.move heq hd (.nil _))⟩
  · -- A hold fills the gap, where the queue has ended.
    obtain ⟨last, hl, hp, hf⟩ := h.back?_eq
    have htol := joinTolerance_pos (F := F)
    have hgap' : b.time + joinTolerance < s.start := hgap
    refine ⟨{ q with active := (q.active.push (.hold b.time (s.start - b.time) b.place)).push s }, ?_,
      h.append [.hold b.time (s.start - b.time) b.place, s] ?_ ?_⟩
    · simp only [add, Scalar.isFinite_eq, Scalar.zero_literal, hl, hf, hp, Bool.not_true, Bool.false_or,
        decide_eq_true_eq]
      rw [if_neg (by simpa using hd), if_neg (by linarith), if_pos hgap']
    · rw [Array.toList_push, Array.toList_push, List.append_assoc]
      rfl
    · refine .hold (s.start - b.time) (by linarith) (.move ?_ hd (.nil _))
      exact (add_sub_cancel b.time s.start).symm

theorem add_empty (h : q.active = #[]) {s : Segment F} (hd : 0 ≤ s.duration) :
    ∃ q', q.add s = .ok q' ∧
      q'.Playing ⟨s.position, s.start - holdTime⟩ [s] ⟨s.target, s.finish⟩ := by
  refine ⟨{ q with active := (q.active.push (.hold (s.start - holdTime) holdTime s.position)).push s }, ?_,
    ⟨.hold (s.start - holdTime) holdTime s.position, ?_, rfl⟩, ?_⟩
  · simp only [add, Scalar.isFinite_eq, Scalar.zero_literal, h, Bool.not_true, Bool.false_or, decide_eq_true_eq]
    rw [if_neg (by simpa using hd)]
    rfl
  · rw [h]
    rfl
  · rw [Array.toList_push, Array.toList_push, h]
    refine .hold holdTime ?_ (.move ?_ hd (.nil _))
    · simp [holdTime]
    · exact (sub_add_cancel s.start holdTime).symm

/-- Segments that meet are all queued behind motion that the first of them joins. -/
theorem addAll_playing : ∀ {segs : List (Segment F)} {q : Queue F} {ms : List (Segment F)} {b c : Stand F},
    q.Playing a ms b → Joined c segs → (segs ≠ [] → q.Joins c) →
      ∃ q' b', q.addAll segs = (q', none) ∧ q'.Playing a (ms ++ segs) b'
  | [], q, ms, b, _, h, _, _ => ⟨q, b, rfl, by rwa [List.append_nil]⟩
  | s :: rest, q, ms, b, c, h, ⟨hs, hd, hrest⟩, hj => by
    have hjoins : q.Joins ⟨s.position, s.start⟩ := by
      rw [h.joins_iff, hs]
      exact (h.joins_iff c).1 (hj (List.cons_ne_nil _ _))
    obtain ⟨q', hadd, hq'⟩ := add_playing h hjoins hd
    -- The rest begins when the segment ends that is queued now.
    obtain ⟨q'', b'', hall, hq''⟩ := addAll_playing hq' hrest fun _ => (hq'.joins_iff _).2 (.inl rfl)
    refine ⟨q'', b'', ?_, ?_⟩
    · rw [addAll, hadd]
      exact hall
    · rwa [List.append_assoc] at hq''

/-- Segments that meet are all queued into an empty queue, which stands in front of the first. -/
theorem addAll_empty (h : q.active = #[]) {s : Segment F} {rest : List (Segment F)} {c : Stand F}
    (hj : Joined c (s :: rest)) :
    ∃ q' b', q.addAll (s :: rest) = (q', none) ∧
      q'.Playing ⟨s.position, s.start - holdTime⟩ (s :: rest) b' := by
  obtain ⟨-, hd, hrest⟩ := hj
  obtain ⟨q', hadd, hq'⟩ := add_empty h hd
  obtain ⟨q'', b'', hall, hq''⟩ := addAll_playing hq' hrest fun _ => (hq'.joins_iff _).2 (.inl rfl)
  exact ⟨q'', b'', by rw [addAll, hadd]; exact hall, hq''⟩

theorem Trapezoid.segments_joined (t : Trapezoid F) : Joined ⟨t.position, t.start⟩ t.segments := by
  unfold segments
  simp only [Scalar.zero_literal]
  split <;> split <;> split <;>
    simp_all [Joined, segments.after, Segment.finish, le_of_lt]

/-- Holding the last position adds no motion. -/
theorem holdUntil_playing (h : q.Playing a ms b) (time : F) :
    ∃ q' b', q.holdUntil time = .ok q' ∧ q'.Playing a ms b' ∧ time ≤ b'.time := by
  obtain ⟨last, hl, hp, hf⟩ := h.back?_eq
  by_cases ht : time ≤ b.time
  · refine ⟨q, b, ?_, h, ht⟩
    simp only [holdUntil, hl, hf, if_pos ht]
  · have hd : 0 ≤ time - b.time := by linarith
    refine ⟨{ q with active := q.active.push (.hold b.time (time - b.time) b.place) },
      ⟨b.place, b.time + (time - b.time)⟩, ?_, ?_, (add_sub_cancel b.time time).ge⟩
    · simp only [holdUntil, hl, hf, hp, if_neg ht]
      exact add_eq_push h rfl hd
    · rw [← List.append_nil ms]
      exact h.append [.hold b.time (time - b.time) b.place] (Array.toList_push ..) (.hold _ hd (.nil _))

theorem holdUntil_empty (h : q.active = #[]) (time : F) : q.holdUntil time = .ok q := by
  simp [holdUntil, h]

/-- Retiring drops the leading segments that end in time. -/
theorem retire_active (q : Queue F) (time : F) : (q.retire time).active.toList =
    q.active.toList.dropWhile fun s => decide (s.finish ≤ time) := by
  simp only [retire, Array.toList_extract, Array.toList_takeWhile, List.extract_eq_take_drop]
  rw [List.take_of_length_le (by simp)]
  nth_rewrite 2 [← List.takeWhile_append_dropWhile (p := fun s => decide (s.finish ≤ time)) (l := q.active.toList)]
  exact List.drop_left

theorem finalize_active (q : Queue F) (time clear : F) : (q.finalize time clear).active.toList =
    q.active.toList.dropWhile fun s => decide (s.finish ≤ time) :=
  retire_active q time

/-- Retiring takes motions away that end at or before its time, and leaves a queue that ends later with
segments. What is left stands where the motions that are gone have ended, or begins with a motion. -/
theorem finalize_playing (h : q.Playing a ms b) {time : F} (ht : time < b.time) (clear : F) :
    ∃ c gone left, ms = gone ++ left ∧ (q.finalize time clear).Playing c left b ∧ a.time ≤ c.time ∧
      (∀ s ∈ gone, s.finish ≤ time) ∧
        (c.place = endPlace a.place gone ∨ c.time ≤ time ∧ ∃ s ∈ left.head?, s.start = c.time) := by
  have hsplit := h.plays
  rw [← List.takeWhile_append_dropWhile (l := q.active.toList) (p := fun s => decide (s.finish ≤ time))] at hsplit
  obtain ⟨c, gone, left, hms, hgone, hleft⟩ := hsplit.split
  have hfinish : ∀ s ∈ q.active.toList.takeWhile (fun s => decide (s.finish ≤ time)), s.finish ≤ time := by
    intro s hs
    have := List.mem_takeWhile_imp hs
    exact of_decide_eq_true this
  have hrow := finalize_active q time clear
  cases hfirst : (q.finalize time clear).active.toList with
  | nil =>
    -- The last segment ends too late to be retired.
    obtain ⟨last, hl, -, hf⟩ := h.back?_eq
    rw [hrow, List.dropWhile_eq_nil_iff] at hfirst
    have := hfirst last (Array.mem_toList_iff.2 (Array.mem_of_back? hl))
    exact absurd (of_decide_eq_true this) (by rw [hf]; exact not_le.2 ht)
  | cons s rest =>
    rw [hrow] at hfirst
    rw [hfirst] at hleft
    refine ⟨⟨s.position, c.time⟩, gone, left, hms, ⟨⟨s, by rw [hrow, hfirst]; rfl, rfl⟩, ?_⟩, hgone.time_le,
      fun s hs => hfinish s (hgone.mem_row s hs), ?_⟩
    · rw [hrow, hfirst]
      cases hleft with
      | hold d hd hl => exact .hold d hd hl
      | move hs hd hl => exact .move hs hd hl
    · cases hleft with
      | hold d hd hl => exact .inl hgone.place_eq
      | move hs hd hl =>
        by_cases htake : q.active.toList.takeWhile (fun s => decide (s.finish ≤ time)) = []
        · -- Nothing is retired, and the queue begins where it did.
          obtain ⟨first, hhead, hplace⟩ := h.place
          rw [← List.takeWhile_append_dropWhile (l := q.active.toList) (p := fun s => decide (s.finish ≤ time)),
            htake, hfirst] at hhead
          cases hhead
          rw [htake] at hgone
          cases hgone
          exact .inl hplace
        · refine .inr ⟨?_, s, rfl, hs⟩
          obtain ⟨last, hl⟩ := List.getLast?_isSome.2 htake |> Option.isSome_iff_exists.1
          rw [← (hgone.last_eq hl).2]
          exact hfinish last (List.mem_of_getLast? hl)

end Queue

end PrinterMotion
