/-
In a document that is read no key stands twice in a table, at any depth. A table that is under construction takes in a
node under a key that it does not have yet, or in the place of the node that it has there.
-/
import PrinterMotion.Toml.Reader
import Mathlib.Data.List.Nodup

namespace PrinterMotion.Toml

/-! ## Values and nodes -/

/-- Whether a value has no values in it. -/
def Value.isScalar : Value → Bool
  | .array _ | .table _ => false
  | _ => true

/-- No table of a value has a key twice. -/
inductive Value.Distinct : Value → Prop where
  | scalar {v : Value} (h : v.isScalar = true) : Distinct v
  | array {items : List Value} (each : ∀ v ∈ items, v.Distinct) : Distinct (.array items)
  | table {entries : List (String × Value)} (keys : (entries.map Prod.fst).Nodup)
      (each : ∀ e ∈ entries, e.2.Distinct) : Distinct (.table entries)

/-- No table of a node has a key twice. -/
inductive Node.Distinct : Node → Prop where
  | value {v : Value} (h : v.Distinct) : Distinct (.value v)
  | table {origin : Origin} {ns : List (String × Node)} (keys : (ns.map Prod.fst).Nodup)
      (each : ∀ e ∈ ns, e.2.Distinct) : Distinct (.table origin ns)
  | tables {newest : List (String × Node)} {older : List (List (String × Node))}
      (keys : ∀ ns ∈ newest :: older, (ns.map Prod.fst).Nodup)
      (each : ∀ ns ∈ newest :: older, ∀ e ∈ ns, e.2.Distinct) : Distinct (.tables newest older)

namespace Nodes

/-- A table under construction has no key twice, and neither have those in it. -/
structure Distinct (ns : Nodes) : Prop where
  keys : (ns.map Prod.fst).Nodup
  each : ∀ e ∈ ns, e.2.Distinct

theorem distinct_nil : Distinct [] := ⟨List.nodup_nil, fun _ he => by cases he⟩

theorem mem_put {key : String} {n : Node} {e : String × Node} : ∀ {ns : Nodes}, e ∈ ns.put key n → e = (key, n) ∨ e ∈ ns
  | [], he => .inl (List.mem_singleton.1 he)
  | (k, old) :: rest, he => by
    rw [put] at he
    split at he
    · rename_i hk
      rw [hk] at he
      exact (List.mem_cons.1 he).imp_right (List.mem_cons_of_mem _)
    · rcases List.mem_cons.1 he with rfl | he
      · exact .inr List.mem_cons_self
      · exact (mem_put he).imp_right (List.mem_cons_of_mem _)

theorem nodup_put {key : String} {n : Node} : ∀ {ns : Nodes}, (ns.map Prod.fst).Nodup →
    ((ns.put key n).map Prod.fst).Nodup
  | [], _ => List.nodup_singleton _
  | (k, old) :: rest, h => by
    obtain ⟨hfirst, hrest⟩ := List.nodup_cons.1 h
    rw [put]
    split
    · exact h
    · rename_i hk
      refine List.nodup_cons.2 ⟨fun hmem => ?_, nodup_put hrest⟩
      obtain ⟨e, he, heq⟩ := List.mem_map.1 hmem
      rcases mem_put he with rfl | he
      · exact hk heq.symm
      · exact hfirst (heq ▸ List.mem_map_of_mem he)

variable {ns out : Nodes}

theorem Distinct.put (h : ns.Distinct) {n : Node} (hn : n.Distinct) (key : String) : (ns.put key n).Distinct where
  keys := nodup_put h.keys
  each e he := by
    rcases mem_put he with rfl | he
    · exact hn
    · exact h.each e he

theorem Distinct.get (h : ns.Distinct) {key : String} {n : Node} (hget : ns.get? key = some n) : n.Distinct := by
  obtain ⟨before, behind, heq, -⟩ := List.lookup_eq_some_iff.1 hget
  exact h.each (key, n) (heq ▸ List.mem_append_right _ List.mem_cons_self)

/-! ## Construction -/

/-- Changing the table at the end of a path leaves all keys different if the change does. -/
theorem Distinct.descend {made : Origin} {growing : Bool} {f : Origin → Nodes → Option Nodes}
    (hf : ∀ origin ns out, ns.Distinct → f origin ns = some out → out.Distinct) : ∀ (path : List String)
      {origin : Origin} {ns out : Nodes}, ns.Distinct → ns.descend made growing f path origin = some out → out.Distinct
  | [], _, _, _, h, hout => hf _ _ _ h hout
  | key :: path, origin, ns, out, h, hout => by
    rw [Nodes.descend] at hout
    split at hout
    · obtain ⟨inner, hinner, rfl⟩ := Option.map_eq_some_iff.1 hout
      have hdist := Distinct.descend hf path distinct_nil hinner
      exact h.put (.table hdist.keys hdist.each) key
    · cases hout
    · rename_i inner hget
      split at hout
      · cases hout
      · obtain ⟨inner', hinner, rfl⟩ := Option.map_eq_some_iff.1 hout
        cases h.get hget with
        | table keys each =>
          have hdist := Distinct.descend hf path ⟨keys, each⟩ hinner
          exact h.put (.table hdist.keys hdist.each) key
    · rename_i newest older hget
      obtain ⟨newest', hnewest, rfl⟩ := Option.map_eq_some_iff.1 hout
      cases h.get hget with
      | tables keys each =>
        rw [List.forall_mem_cons] at keys each
        have hdist := Distinct.descend hf path ⟨keys.1, each.1⟩ hnewest
        exact h.put (.tables (List.forall_mem_cons.2 ⟨hdist.keys, keys.2⟩)
          (List.forall_mem_cons.2 ⟨hdist.each, each.2⟩)) key

theorem Distinct.openTable {key : String} {origin : Origin} (h : ns.Distinct)
    (hout : ns.openTable key origin = some out) : out.Distinct := by
  unfold Nodes.openTable at hout
  split at hout
  · cases hout
    exact h.put (.table distinct_nil.keys distinct_nil.each) key
  · rename_i inner hget
    cases hout
    cases h.get hget with
    | table keys each => exact h.put (.table keys each) key
  · cases hout

theorem Distinct.openElement {key : String} {origin : Origin} (h : ns.Distinct)
    (hout : ns.openElement key origin = some out) : out.Distinct := by
  unfold Nodes.openElement at hout
  split at hout
  · cases hout
    exact h.put (.tables (List.forall_mem_singleton.2 distinct_nil.keys)
      (List.forall_mem_singleton.2 distinct_nil.each)) key
  · rename_i newest older hget
    cases hout
    cases h.get hget with
    | tables keys each => exact h.put (.tables (List.forall_mem_cons.2 ⟨distinct_nil.keys, keys⟩)
        (List.forall_mem_cons.2 ⟨distinct_nil.each, each⟩)) key
  · cases hout

theorem Distinct.addEntry {rules : Rules} {key : List String} {v : Value} (h : ns.Distinct) (hv : v.Distinct)
    (hout : ns.addEntry rules key v = some out) : out.Distinct := by
  unfold Nodes.addEntry at hout
  split at hout
  · cases hout
  · refine Distinct.descend (fun origin ns out hns hins => ?_) _ h hout
    split at hins
    · cases hins
      exact hns.put (.value hv) _
    · cases hins

/-! ## Finished tables -/

theorem close_entries_eq : ∀ ns : Nodes, close.entries ns = ns.map fun e => (e.1, close.value e.2)
  | [] => rfl
  | (key, n) :: rest => congrArg ((key, close.value n) :: ·) (close_entries_eq rest)

theorem mem_close_arrays {v : Value} : ∀ {older : List Nodes} {behind : List Value}, v ∈ close.arrays older behind →
    (∃ ns ∈ older, v = .table (close.entries ns)) ∨ v ∈ behind
  | [], _, hv => .inr hv
  | ns :: rest, behind, hv => by
    rw [close.arrays] at hv
    rcases mem_close_arrays hv with ⟨ns', hmem, rfl⟩ | hv
    · exact .inl ⟨ns', List.mem_cons_of_mem _ hmem, rfl⟩
    · rcases List.mem_cons.1 hv with rfl | hv
      · exact .inl ⟨ns, List.mem_cons_self, rfl⟩
      · exact .inr hv

theorem distinct_close_entries (keys : (ns.map Prod.fst).Nodup) (each : ∀ e ∈ ns, (close.value e.2).Distinct) :
    Value.Distinct (.table (close.entries ns)) := by
  rw [close_entries_eq]
  refine .table ?_ fun e he => ?_
  · rw [List.map_map]
    exact keys
  · obtain ⟨e', he', rfl⟩ := List.mem_map.1 he
    exact each e' he'

theorem distinct_close_value {n : Node} (h : n.Distinct) : (close.value n).Distinct := by
  induction h with
  | value h => exact h
  | table keys _ ih => exact distinct_close_entries keys ih
  | @tables newest older keys _ ih =>
    -- The newest element comes last, behind those that were opened before it.
    refine .array fun v hv => ?_
    rcases mem_close_arrays hv with ⟨ns, hmem, rfl⟩ | hv
    · exact distinct_close_entries (keys ns (List.mem_cons_of_mem _ hmem)) (ih ns (List.mem_cons_of_mem _ hmem))
    · rw [List.mem_singleton.1 hv]
      exact distinct_close_entries (keys newest List.mem_cons_self) (ih newest List.mem_cons_self)

theorem Distinct.close (h : ns.Distinct) : Value.Distinct (.table ns.close) :=
  distinct_close_entries h.keys fun e he => distinct_close_value (h.each e he)

end Nodes

/-! ## Documents -/

/-- The value of a statement has no key twice. -/
def Statement.Distinct : Statement → Prop
  | .entry _ v => v.Distinct
  | _ => True

theorem Draft.distinct_add {rules : Rules} {d d' : Draft} {s : Statement} (hs : s.Distinct) (h : d.root.Distinct)
    (hadd : d.add rules s = some d') : d'.root.Distinct := by
  cases s with
  | header path =>
    simp only [Draft.add] at hadd
    split at hadd
    · cases hadd
    · obtain ⟨root, hroot, rfl⟩ := Option.map_eq_some_iff.1 hadd
      exact Nodes.Distinct.descend (fun _ _ _ hns hout => hns.openTable hout) _ h hroot
  | arrayHeader path =>
    simp only [Draft.add] at hadd
    split at hadd
    · cases hadd
    · obtain ⟨root, hroot, rfl⟩ := Option.map_eq_some_iff.1 hadd
      exact Nodes.Distinct.descend (fun _ _ _ hns hout => hns.openElement hout) _ h hroot
  | entry key v =>
    obtain ⟨root, hroot, rfl⟩ := Option.map_eq_some_iff.1 hadd
    exact Nodes.Distinct.descend (fun _ _ _ hns hout => hns.addEntry hs hout) _ h hroot

/-- What each step keeps, a run of steps keeps. -/
theorem foldlM_keeps {σ β : Type} {P : σ → Prop} {f : σ → β → Option σ} : ∀ {l : List β} {s s' : σ},
    (∀ b ∈ l, ∀ s s', P s → f s b = some s' → P s') → P s → l.foldlM f s = some s' → P s'
  | [], _, _, _, h, hrun => by
    cases hrun
    exact h
  | b :: rest, s, s', hf, h, hrun => by
    rw [List.forall_mem_cons] at hf
    rw [List.foldlM_cons] at hrun
    obtain ⟨s₁, hstep, hrest⟩ := Option.bind_eq_some_iff.1 hrun
    exact foldlM_keeps hf.2 (hf.1 _ _ h hstep) hrest

theorem distinct_inlineTable {rules : Rules} {entries : List (List String × Value)} {v : Value}
    (hentries : ∀ e ∈ entries, e.2.Distinct) (h : inlineTable rules entries = some v) : v.Distinct := by
  obtain ⟨ns, hns, rfl⟩ := Option.map_eq_some_iff.1 h
  exact (foldlM_keeps (P := Nodes.Distinct) (fun e he _ _ h hadd => h.addEntry (hentries e he) hadd)
    Nodes.distinct_nil hns).close

theorem distinct_ofStatements {rules : Rules} {ss : List Statement} {entries : Entries}
    (hss : ∀ s ∈ ss, s.Distinct) (h : ofStatements rules ss = some entries) : Value.Distinct (.table entries) := by
  obtain ⟨d, hd, rfl⟩ := Option.map_eq_some_iff.1 h
  exact (foldlM_keeps (P := fun d : Draft => d.root.Distinct)
    (fun s hs _ _ h hadd => Draft.distinct_add (hss s hs) h hadd) Nodes.distinct_nil hd).close

/-! ## Reading -/

theorem isScalar_signedWord {n : Int} {v : Value} (h : signedWord n = some v) : v.isScalar = true := by
  unfold signedWord at h
  split at h <;> cases h
  rfl

theorem isScalar_finish {rules : Rules} {negative : Bool} {digits : List Char} {exponent : Int} {v : Value}
    (h : finish rules negative digits exponent = some v) : v.isScalar = true := by
  unfold finish at h
  dsimp only at h
  split at h <;> cases h
  rfl

theorem isScalar_readBased {base : Nat} {isDigit : Char → Bool} {cs : List Char} {v : Value}
    (h : readBased base isDigit cs = some v) : v.isScalar = true := by
  unfold readBased at h
  split at h
  · exact isScalar_signedWord h
  · cases h

theorem isScalar_readDecimal {rules : Rules} {negative : Bool} {cs : List Char} {v : Value}
    (h : readDecimal rules negative cs = some v) : v.isScalar = true := by
  obtain ⟨⟨whole, rest⟩, -, h⟩ := Option.bind_eq_some_iff.1 h
  dsimp only at h
  split at h
  · cases h
  · split at h
    · exact isScalar_signedWord h
    · obtain ⟨⟨fraction, rest⟩, -, h⟩ := Option.bind_eq_some_iff.1 h
      dsimp only at h
      split at h <;> obtain ⟨exponent, -, h⟩ := Option.bind_eq_some_iff.1 h <;> exact isScalar_finish h
    · obtain ⟨exponent, -, h⟩ := Option.bind_eq_some_iff.1 h
      exact isScalar_finish h

theorem isScalar_readNumber {rules : Rules} {cs : List Char} {v : Value} (h : readNumber rules cs = some v) :
    v.isScalar = true := by
  unfold readNumber at h
  dsimp only at h
  split at h
  · cases h
    rfl
  · split at h
    · cases h
      rfl
    · split at h
      · exact isScalar_readBased h
      · exact isScalar_readBased h
      · exact isScalar_readBased h
      · exact isScalar_readDecimal h

theorem isScalar_ofToken {rules : Rules} {cs : List Char} {v : Value} (h : ofToken rules cs = some v) :
    v.isScalar = true := by
  unfold ofToken at h
  split at h
  · cases h
    rfl
  · split at h
    · cases h
      rfl
    · rcases Option.or_eq_some_iff.1 h with h | ⟨-, h⟩
      · exact isScalar_readNumber h
      · obtain ⟨text, -, rfl⟩ := Option.map_eq_some_iff.1 h
        rfl

theorem isScalar_readScalar {rules : Rules} {cs rest : List Char} {v : Value}
    (h : readScalar rules cs = some (v, rest)) : v.isScalar = true := by
  obtain ⟨token, behind, h⟩ : ∃ token behind, (ofToken rules token).map (·, behind) = some (v, rest) := by
    unfold readScalar at h
    dsimp only at h
    split at h
    · split at h
      · exact ⟨_, _, h⟩
      · exact ⟨_, _, h⟩
    · exact ⟨_, _, h⟩
  obtain ⟨v', hv', heq⟩ := Option.map_eq_some_iff.1 h
  cases heq
  exact isScalar_ofToken hv'

/-- What is read with a bound on the work has no key twice. -/
structure ReadsDistinct (rules : Rules) (fuel : Nat) : Prop where
  value : ∀ {depth cs v rest}, readValue rules fuel depth cs = some (v, rest) → v.Distinct
  items : ∀ {depth acc cs items rest}, (∀ v ∈ acc, v.Distinct) →
    readItems rules fuel depth acc cs = some (items, rest) → ∀ v ∈ items, v.Distinct
  fields : ∀ {depth acc cs fields rest}, (∀ e ∈ acc, e.2.Distinct) →
    readFields rules fuel depth acc cs = some (fields, rest) → ∀ e ∈ fields, e.2.Distinct

variable {rules : Rules} {fuel : Nat}

theorem ReadsDistinct.value_succ (h : ReadsDistinct rules fuel) {depth : Nat} {cs rest : List Char} {v : Value}
    (hread : readValue rules (fuel + 1) depth cs = some (v, rest)) : v.Distinct := by
  unfold readValue at hread
  split at hread
  · split at hread
    · cases hread
    · obtain ⟨⟨items, behind⟩, hitems, heq⟩ := Option.map_eq_some_iff.1 hread
      cases heq
      exact .array (h.items (fun _ hv => by cases hv) hitems)
  · split at hread
    · cases hread
    · obtain ⟨inside, -, hread⟩ := Option.bind_eq_some_iff.1 hread
      split at hread
      · cases hread
        exact .table List.nodup_nil fun _ he => by cases he
      · obtain ⟨⟨fields, behind⟩, hfields, hread⟩ := Option.bind_eq_some_iff.1 hread
        obtain ⟨table, htable, heq⟩ := Option.bind_eq_some_iff.1 hread
        cases heq
        exact distinct_inlineTable (h.fields (fun _ he => by cases he) hfields) htable
  · split at hread
    · obtain ⟨⟨text, behind⟩, -, heq⟩ := Option.map_eq_some_iff.1 hread
      cases heq
      exact .scalar rfl
    · exact .scalar (isScalar_readScalar hread)

theorem ReadsDistinct.items_succ (h : ReadsDistinct rules fuel) {depth : Nat} {acc items : List Value}
    {cs rest : List Char} (hacc : ∀ v ∈ acc, v.Distinct)
    (hread : readItems rules (fuel + 1) depth acc cs = some (items, rest)) : ∀ v ∈ items, v.Distinct := by
  unfold readItems at hread
  obtain ⟨inside, -, hread⟩ := Option.bind_eq_some_iff.1 hread
  split at hread
  · cases hread
    exact fun v hv => hacc v (List.mem_reverse.1 hv)
  · obtain ⟨⟨v, behind⟩, hvalue, hread⟩ := Option.bind_eq_some_iff.1 hread
    have hcons := List.forall_mem_cons.2 ⟨h.value hvalue, hacc⟩
    obtain ⟨inside, -, hread⟩ := Option.bind_eq_some_iff.1 hread
    split at hread
    · exact h.items hcons hread
    · cases hread
      exact fun v hv => hcons v (List.mem_reverse.1 hv)
    · cases hread

theorem ReadsDistinct.fields_succ (h : ReadsDistinct rules fuel) {depth : Nat} {acc fields : List (List String × Value)}
    {cs rest : List Char} (hacc : ∀ e ∈ acc, e.2.Distinct)
    (hread : readFields rules (fuel + 1) depth acc cs = some (fields, rest)) : ∀ e ∈ fields, e.2.Distinct := by
  unfold readFields at hread
  obtain ⟨⟨key, behind⟩, -, hread⟩ := Option.bind_eq_some_iff.1 hread
  obtain ⟨_, -, hread⟩ := Option.bind_eq_some_iff.1 hread
  obtain ⟨_, -, hread⟩ := Option.bind_eq_some_iff.1 hread
  obtain ⟨_, -, hread⟩ := Option.bind_eq_some_iff.1 hread
  obtain ⟨⟨v, behind⟩, hvalue, hread⟩ := Option.bind_eq_some_iff.1 hread
  have hcons : ∀ e ∈ (key, v) :: acc, e.2.Distinct := List.forall_mem_cons.2 ⟨h.value hvalue, hacc⟩
  obtain ⟨_, -, hread⟩ := Option.bind_eq_some_iff.1 hread
  split at hread
  · obtain ⟨_, -, hread⟩ := Option.bind_eq_some_iff.1 hread
    split at hread
    · cases hread
      exact fun e he => hcons e (List.mem_reverse.1 he)
    · exact h.fields hcons hread
  · cases hread
    exact fun e he => hcons e (List.mem_reverse.1 he)
  · cases hread

theorem readsDistinct (rules : Rules) : ∀ fuel, ReadsDistinct rules fuel
  | 0 => by
    -- Without fuel nothing is read.
    refine ⟨fun h => ?_, fun _ h => ?_, fun _ h => ?_⟩
    · unfold readValue at h
      cases h
    · unfold readItems at h
      cases h
    · unfold readFields at h
      cases h
  | fuel + 1 =>
    have ih := readsDistinct rules fuel
    ⟨ih.value_succ, ih.items_succ, ih.fields_succ⟩

theorem distinct_readStatement {cs rest : List Char} {s : Statement} (h : readStatement rules cs = some (s, rest)) :
    s.Distinct := by
  unfold readStatement at h
  split at h
  · obtain ⟨_, -, h⟩ := Option.bind_eq_some_iff.1 h
    obtain ⟨_, -, h⟩ := Option.bind_eq_some_iff.1 h
    obtain ⟨_, -, h⟩ := Option.bind_eq_some_iff.1 h
    obtain ⟨_, -, heq⟩ := Option.bind_eq_some_iff.1 h
    cases heq
    trivial
  · obtain ⟨_, -, h⟩ := Option.bind_eq_some_iff.1 h
    obtain ⟨_, -, h⟩ := Option.bind_eq_some_iff.1 h
    obtain ⟨_, -, heq⟩ := Option.bind_eq_some_iff.1 h
    cases heq
    trivial
  · obtain ⟨_, -, h⟩ := Option.bind_eq_some_iff.1 h
    obtain ⟨_, -, h⟩ := Option.bind_eq_some_iff.1 h
    obtain ⟨_, hvalue, h⟩ := Option.bind_eq_some_iff.1 h
    obtain ⟨_, -, heq⟩ := Option.bind_eq_some_iff.1 h
    cases heq
    exact (readsDistinct rules _).value hvalue

theorem distinct_readStatements : ∀ {fuel : Nat} {acc ss : List Statement} {cs : List Char}, (∀ s ∈ acc, s.Distinct) →
    readStatements rules fuel acc cs = some ss → ∀ s ∈ ss, s.Distinct
  | 0, acc, ss, cs, hacc, h => by
    unfold readStatements at h
    split at h <;> cases h
    exact fun s hs => hacc s (List.mem_reverse.1 hs)
  | fuel + 1, acc, ss, cs, hacc, h => by
    unfold readStatements at h
    obtain ⟨_, -, h⟩ := Option.bind_eq_some_iff.1 h
    split at h
    · cases h
      exact fun s hs => hacc s (List.mem_reverse.1 hs)
    · obtain ⟨⟨s, behind⟩, hs, h⟩ := Option.bind_eq_some_iff.1 h
      exact distinct_readStatements (List.forall_mem_cons.2 ⟨distinct_readStatement hs, hacc⟩) h

/-- No table of a document that is read has a key twice. -/
theorem distinct_read {document : String} {entries : Entries} (h : read rules document = some entries) :
    Value.Distinct (.table entries) := by
  obtain ⟨ss, hss, h⟩ := Option.bind_eq_some_iff.1 h
  exact distinct_ofStatements (distinct_readStatements (fun _ hs => by cases hs) hss) h

end PrinterMotion.Toml
