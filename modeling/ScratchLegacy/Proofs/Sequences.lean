import Mathlib.Data.List.Forall2

/-!
# Sequences that can fail

Most of what is read from a document is read member by member, and the first
member that cannot be read ends it. A sequence of such readings is good when
every one of them is, and its results are then those of its members, in order.
-/

namespace ScratchLegacy

/-- A result that leads to another is good when both are. -/
theorem bind_eq_ok_iff {α β ε : Type} {x : Except ε α} {f : α → Except ε β} {b : β} :
    x >>= f = .ok b ↔ ∃ a, x = .ok a ∧ f a = .ok b := by
  cases x with
  | error e => simp [bind, Except.bind]
  | ok a => simp [bind, Except.bind]

/-- What ends a result that leads to another ends one of the two. -/
theorem bind_eq_error_iff {α β ε : Type} {x : Except ε α} {f : α → Except ε β} {e : ε} :
    x >>= f = .error e ↔ x = .error e ∨ ∃ a, x = .ok a ∧ f a = .error e := by
  cases x with
  | error e => simp [bind, Except.bind]
  | ok a => simp [bind, Except.bind]

/-- A sequence of results is good when every one of them is. -/
theorem mapM_eq_ok_iff {α β ε : Type} {f : α → Except ε β} {as : List α} {bs : List β} :
    as.mapM f = .ok bs ↔ List.Forall₂ (fun a b => f a = .ok b) as bs := by
  induction as generalizing bs with
  | nil =>
    rw [List.mapM_nil, List.forall₂_nil_left_iff]
    exact ⟨fun h => (by cases h; rfl), fun h => (by rw [h]; rfl)⟩
  | cons a as ih =>
    rw [List.mapM_cons, List.forall₂_cons_left_iff]
    cases ha : f a with
    | error e =>
      refine ⟨fun h => (nomatch h), ?_⟩
      rintro ⟨b, _, hb, _, _⟩
      cases hb
    | ok b =>
      cases has : as.mapM f with
      | error e =>
        refine ⟨fun h => (nomatch h), ?_⟩
        rintro ⟨_, bs', _, hbs', _⟩
        rw [← ih, has] at hbs'
        cases hbs'
      | ok bs' =>
        constructor
        · intro h
          cases h
          exact ⟨b, bs', rfl, ih.mp has, rfl⟩
        · rintro ⟨c, cs, hc, hcs, rfl⟩
          cases hc
          rw [← ih, has] at hcs
          cases hcs
          rfl

/-- A sequence gives results exactly when each of its members does. -/
theorem exists_mapM_eq_ok_iff {α β ε : Type} {f : α → Except ε β} {as : List α} :
    (∃ bs, as.mapM f = .ok bs) ↔ ∀ a ∈ as, ∃ b, f a = .ok b := by
  simp only [mapM_eq_ok_iff]
  constructor
  · rintro ⟨bs, h⟩ a ha
    induction h with
    | nil => cases ha
    | cons hab _ ih =>
      rcases List.mem_cons.mp ha with rfl | ha
      · exact ⟨_, hab⟩
      · exact ih ha
  · intro h
    induction as with
    | nil => exact ⟨[], .nil⟩
    | cons a as ih =>
      obtain ⟨b, hb⟩ := h a List.mem_cons_self
      obtain ⟨bs, hbs⟩ := ih (fun a' ha' => h a' (List.mem_cons_of_mem _ ha'))
      exact ⟨b :: bs, .cons hb hbs⟩

/-- What ends a sequence is what one of its members gives. -/
theorem exists_of_mapM_eq_error {α β ε : Type} {f : α → Except ε β} {as : List α} {e : ε}
    (h : as.mapM f = .error e) : ∃ a ∈ as, f a = .error e := by
  induction as with
  | nil => cases h
  | cons a as ih =>
    rw [List.mapM_cons] at h
    rcases bind_eq_error_iff.mp h with ha | ⟨b, -, h⟩
    · exact ⟨a, List.mem_cons_self, ha⟩
    · rcases bind_eq_error_iff.mp h with has | ⟨bs, -, h⟩
      · obtain ⟨a', ha', hfail⟩ := ih has
        exact ⟨a', List.mem_cons_of_mem _ ha', hfail⟩
      · cases h

/-- Each of the results comes from a member of the sequence. -/
theorem exists_of_mem_right {α β : Type} {r : α → β → Prop} {as : List α} {bs : List β}
    (h : List.Forall₂ r as bs) {b : β} (hb : b ∈ bs) : ∃ a ∈ as, r a b := by
  induction h with
  | nil => cases hb
  | cons hab _ ih =>
    rcases List.mem_cons.mp hb with rfl | hb
    · exact ⟨_, List.mem_cons_self, hab⟩
    · obtain ⟨a, ha, hab⟩ := ih hb
      exact ⟨a, List.mem_cons_of_mem _ ha, hab⟩

/-- A changed result is good when the result is. -/
theorem map_eq_ok_iff {α β ε : Type} {f : α → β} {x : Except ε α} {b : β} :
    x.map f = .ok b ↔ ∃ a, x = .ok a ∧ f a = b := by
  cases x <;> simp [Except.map]

/-- Each member of a sequence stands beside one that it is related to. -/
theorem exists_mem_zip {α β : Type} {r : α → β → Prop} {as : List α} {bs : List β}
    (h : List.Forall₂ r as bs) {a : α} (ha : a ∈ as) : ∃ b, (a, b) ∈ as.zip bs ∧ r a b := by
  induction h with
  | nil => cases ha
  | @cons a' b as bs hab _ ih =>
    rcases List.mem_cons.mp ha with rfl | ha
    · exact ⟨b, List.mem_cons_self, hab⟩
    · obtain ⟨b', hb', hab'⟩ := ih ha
      exact ⟨b', List.mem_cons_of_mem _ hb', hab'⟩

/-- Related sequences are related when the same members are left out of both. -/
theorem forall₂_filter {α β : Type} {r : α → β → Prop} {p : α → Bool} {q : β → Bool}
    (hpq : ∀ a b, r a b → p a = q b) {as : List α} {bs : List β} (h : List.Forall₂ r as bs) :
    List.Forall₂ r (as.filter p) (bs.filter q) := by
  induction h with
  | nil => exact .nil
  | cons hab _ ih =>
    rw [List.filter_cons, List.filter_cons, hpq _ _ hab]
    split
    · exact .cons hab ih
    · exact ih

/-- What can be found for each member of a sequence can be found for the whole, and
stands beside it. -/
theorem exists_forall₂_zip {α β γ : Type} {r : α → β → Prop} {s : α → γ → Prop}
    {q : α → β → γ → Prop} {as : List α} {bs : List β} (h : List.Forall₂ r as bs)
    (hfind : ∀ a ∈ as, ∀ b, r a b → ∃ c, s a c ∧ q a b c) :
    ∃ cs, List.Forall₂ s as cs ∧ cs.length = bs.length
      ∧ List.Forall₂ (fun a bc => q a bc.1 bc.2) as (bs.zip cs) := by
  induction h with
  | nil => exact ⟨[], .nil, rfl, .nil⟩
  | cons hab _ ih =>
    rw [List.forall_mem_cons] at hfind
    obtain ⟨c, hc, hq⟩ := hfind.1 _ hab
    obtain ⟨cs, hcs, hlength, hqs⟩ := ih hfind.2
    exact ⟨c :: cs, .cons hc hcs, congrArg (· + 1) hlength, .cons hq hqs⟩

/-- What can be found for the results of a sequence can be found for the whole. -/
theorem exists_forall₂ {α β γ : Type} {r : α → β → Prop} {s : α → γ → Prop} {q : β → γ → Prop}
    {as : List α} {bs : List β} (h : List.Forall₂ r as bs)
    (hfind : ∀ a b, r a b → ∃ c, s a c ∧ q b c) :
    ∃ cs, List.Forall₂ s as cs ∧ List.Forall₂ q bs cs := by
  induction h with
  | nil => exact ⟨[], .nil, .nil⟩
  | cons hab _ ih =>
    obtain ⟨c, hc, hq⟩ := hfind _ _ hab
    obtain ⟨cs, hcs, hqs⟩ := ih
    exact ⟨c :: cs, .cons hc hcs, .cons hq hqs⟩

/-- Sequences that are equal member by member are equal. -/
theorem eq_of_forall₂ {α : Type} {as bs : List α} (h : List.Forall₂ Eq as bs) : as = bs :=
  (congrFun (congrFun List.forall₂_eq_eq_eq as) bs).mp h

/-- Sequences whose members have the same images have the same images. -/
theorem map_eq_of_forall₂ {α β γ : Type} {f : α → γ} {g : β → γ} {as : List α} {bs : List β}
    (h : List.Forall₂ (fun a b => g b = f a) as bs) : bs.map g = as.map f := by
  induction h with
  | nil => rfl
  | cons hab _ ih => rw [List.map_cons, List.map_cons, hab, ih]

/-- Sequences that are related through a sequence between them. -/
theorem forall₂_comp {α β γ : Type} {r : α → β → Prop} {s : β → γ → Prop} {t : α → γ → Prop}
    (h : ∀ a b c, r a b → s b c → t a c) {as : List α} {bs : List β} {cs : List γ}
    (has : List.Forall₂ r as bs) (hbs : List.Forall₂ s bs cs) : List.Forall₂ t as cs := by
  induction has generalizing cs with
  | nil =>
    cases hbs
    exact .nil
  | cons hab _ ih =>
    cases hbs with
    | cons hbc hrest => exact .cons (h _ _ _ hab hbc) (ih hrest)

end ScratchLegacy
