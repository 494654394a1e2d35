/-
Calls that may fail, made for the elements of a list one by one, and lists whose elements correspond in pairs.
-/
import Mathlib.Data.List.Forall2

namespace PrinterMotion

theorem bind_eq_ok {ε β γ : Type} {x : Except ε β} {f : β → Except ε γ} {c : γ} :
    x >>= f = .ok c ↔ ∃ b, x = .ok b ∧ f b = .ok c := by
  cases x <;> simp [bind, Except.bind]

theorem bind_eq_error {ε β γ : Type} {x : Except ε β} {f : β → Except ε γ} {e : ε} :
    x >>= f = .error e ↔ x = .error e ∨ ∃ b, x = .ok b ∧ f b = .error e := by
  cases x <;> simp [bind, Except.bind]

theorem map_eq_error {ε β γ : Type} {x : Except ε β} {f : β → γ} {e : ε} (h : x.map f = .error e) : x = .error e := by
  cases x <;> cases h
  rfl

theorem toOption_eq_some {ε β : Type} {x : Except ε β} {b : β} : x.toOption = some b ↔ x = .ok b := by
  cases x <;> simp [Except.toOption]

theorem exists_of_forall₂ {α β : Type*} {R : α → β → Prop} {l : List α} {l' : List β} (h : List.Forall₂ R l l') :
    ∀ b ∈ l', ∃ a ∈ l, R a b := by
  induction h with
  | nil => exact fun _ hb => by cases hb
  | cons hab _ ih =>
    rintro b (_ | ⟨_, hb⟩)
    · exact ⟨_, List.mem_cons_self, hab⟩
    · obtain ⟨a, ha, hr⟩ := ih b hb
      exact ⟨a, List.mem_cons_of_mem _ ha, hr⟩

theorem forall₂_trans {α β γ : Type*} {R : α → β → Prop} {S : β → γ → Prop} {T : α → γ → Prop}
    (hT : ∀ a b c, R a b → S b c → T a c) {l : List α} {l' : List β} {l'' : List γ} (h : List.Forall₂ R l l')
    (h' : List.Forall₂ S l' l'') : List.Forall₂ T l l'' := by
  induction h generalizing l'' with
  | nil =>
    cases h'
    exact .nil
  | cons hab _ ih =>
    cases h' with
    | cons hbc hrest => exact .cons (hT _ _ _ hab hbc) (ih hrest)

theorem fst_zip_sublist {α β : Type*} : ∀ (l : List α) (l' : List β), ((l.zip l').map Prod.fst).Sublist l
  | [], _ => List.Sublist.refl _
  | _ :: _, [] => List.nil_sublist _
  | a :: rest, _ :: rest' => (fst_zip_sublist rest rest').cons_cons a

/-- What a change keeps holds of all elements after one has changed. -/
theorem forall_mem_modify {β : Type*} {P : β → Prop} {l : List β} (h : ∀ b ∈ l, P b) {f : β → β}
    (hf : ∀ b, P b → P (f b)) (i : Nat) : ∀ b ∈ l.modify i f, P b := by
  intro b hb
  obtain ⟨j, hj⟩ := List.getElem?_of_mem hb
  rw [List.getElem?_modify] at hj
  obtain ⟨old, hold, rfl⟩ := Option.map_eq_some_iff.1 hj
  have hkept := h old (List.mem_of_getElem? hold)
  split
  · exact hf old hkept
  · exact hkept

variable {ε β γ : Type} {f : β → Except ε γ}

theorem forall₂_of_mapM : ∀ {l : List β} {l' : List γ}, l.mapM f = .ok l' →
    List.Forall₂ (fun b c => f b = .ok c) l l'
  | [], _, h => by
    cases h
    exact .nil
  | b :: rest, l', h => by
    rw [List.mapM_cons] at h
    obtain ⟨c, hb, h⟩ := bind_eq_ok.1 h
    obtain ⟨cs, hrest, h⟩ := bind_eq_ok.1 h
    cases h
    exact .cons hb (forall₂_of_mapM hrest)

theorem exists_of_mapM_error {e : ε} : ∀ {l : List β}, l.mapM f = .error e → ∃ b ∈ l, f b = .error e
  | [], h => by cases h
  | b :: rest, h => by
    rw [List.mapM_cons] at h
    rcases bind_eq_error.1 h with hb | ⟨c, -, h⟩
    · exact ⟨b, List.mem_cons_self, hb⟩
    · rcases bind_eq_error.1 h with hrest | ⟨cs, -, h⟩
      · obtain ⟨b', hb', herror⟩ := exists_of_mapM_error hrest
        exact ⟨b', List.mem_cons_of_mem _ hb', herror⟩
      · cases h

/-- A loop that ends has accepted each element. -/
theorem forall_of_forIn {check : β → Except ε Unit} {u : Unit} : ∀ {l : List β},
    (forIn l () fun b _ => do check b; pure (.yield ())) = .ok u → ∀ b ∈ l, check b = .ok ()
  | [], _, b, hb => by cases hb
  | a :: rest, h, b, hb => by
    rw [List.forIn_cons, bind_assoc] at h
    obtain ⟨_, ha, h⟩ := bind_eq_ok.1 h
    rcases List.mem_cons.1 hb with rfl | hb
    · exact ha
    · exact forall_of_forIn h b hb

/-- Checks that pass have passed for each element. -/
theorem forall_of_forM {check : β → Except ε Unit} {u : Unit} : ∀ {l : List β}, l.forM check = .ok u →
    ∀ b ∈ l, check b = .ok ()
  | [], _ => List.forall_mem_nil _
  | b :: rest, h => by
    obtain ⟨_, hb, h⟩ := bind_eq_ok.1 h
    exact List.forall_mem_cons.2 ⟨hb, forall_of_forM h⟩

/-- What is made for every element is made for all. -/
theorem exists_mapM : ∀ {l : List β}, (∀ b ∈ l, ∃ c, f b = .ok c) → ∃ l', l.mapM f = .ok l'
  | [], _ => ⟨[], rfl⟩
  | b :: rest, h => by
    obtain ⟨c, hc⟩ := h b List.mem_cons_self
    obtain ⟨cs, hcs⟩ := exists_mapM fun b' hb' => h b' (List.mem_cons_of_mem _ hb')
    refine ⟨c :: cs, ?_⟩
    rw [List.mapM_cons, hc, bind_eq_ok]
    exact ⟨c, rfl, bind_eq_ok.2 ⟨cs, hcs, rfl⟩⟩

end PrinterMotion
