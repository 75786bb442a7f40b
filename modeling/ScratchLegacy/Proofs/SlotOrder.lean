import Mathlib.Data.List.Forall2
import Mathlib.Data.List.Nodup
import Mathlib.Data.List.Perm.Basic
import Mathlib.Data.String.Basic
import ScratchLegacy.Json.Basic
import ScratchLegacy.SlotMap

/-!
# Orders that do not matter

A slot map is the same list in whatever order it was filled, as long as what is written
under one key stays in order (`SlotMap.insertAll_congr`): its keys ascend, and it is
determined by what it holds under each of them (`SlotMap.eq_of_find?`).

For a sequence of which at most one member contributes anything, every order will
do (`flatMap_eq_of_perm`), and a lookup among entries without repeated keys does not
depend on their order either (`Entries.find?_eq_of_perm`).
-/

namespace ScratchLegacy

/-! ## Sequences -/

/-- **Where at most one member contributes**, the order of the members does not
matter. -/
theorem flatMap_eq_of_perm {α β : Type} {f : α → List β} {xs ys : List α} (h : xs.Perm ys)
    (hxs : xs.Pairwise (fun a b => f a = [] ∨ f b = [])) : xs.flatMap f = ys.flatMap f := by
  induction h with
  | nil => rfl
  | cons a _ ih => rw [List.flatMap_cons, List.flatMap_cons, ih (List.pairwise_cons.mp hxs).2]
  | swap a b rest =>
    have hone : f b = [] ∨ f a = [] := (List.pairwise_cons.mp hxs).1 a List.mem_cons_self
    simp only [List.flatMap_cons]
    rcases hone with hnil | hnil <;> simp [hnil]
  | trans h₁ _ ih₁ ih₂ =>
    exact (ih₁ hxs).trans (ih₂ (h₁.pairwise hxs (fun hab => hab.symm)))

/-- Where at most one entry has a key, the order of the entries does not matter to
the entries under the key. -/
theorem filter_key_eq_of_perm {α : Type} {xs ys : List (String × α)} (h : xs.Perm ys)
    (hkeys : (xs.map Prod.fst).Nodup) (key : String) :
    xs.filter (fun e => e.1 = key) = ys.filter (fun e => e.1 = key) := by
  have hfilter : ∀ zs : List (String × α), zs.filter (fun e => e.1 = key)
      = zs.flatMap (fun e => if e.1 = key then [e] else []) := by
    intro zs
    induction zs with
    | nil => rfl
    | cons e rest ih => by_cases he : e.1 = key <;> simp [he, ih]
  rw [hfilter, hfilter]
  refine flatMap_eq_of_perm h ((List.pairwise_map.mp hkeys).imp (fun {a b} hne => ?_))
  by_cases ha : a.1 = key
  · exact .inr (if_neg (fun hb => hne (ha.trans hb.symm)))
  · exact .inl (if_neg ha)

/-- **A lookup does not depend on the order of the entries** when no key is
repeated. -/
theorem Entries.find?_eq_of_perm {α : Type} {xs ys : List (String × α)} (h : xs.Perm ys)
    (hkeys : (xs.map Prod.fst).Nodup) (key : String) : find? key xs = find? key ys := by
  induction h with
  | nil => rfl
  | cons e _ ih => rw [find?, find?, ih (List.nodup_cons.mp hkeys).2]
  | swap a b rest =>
    have hne : b.1 ≠ a.1 := fun heq =>
      (List.nodup_cons.mp hkeys).1 (by simp [heq])
    by_cases ha : a.1 = key
    · simp only [find?, ha, if_true, if_neg (ha ▸ hne)]
    · simp only [find?, if_neg ha]
  | trans h₁ _ ih₁ ih₂ => exact (ih₁ hkeys).trans (ih₂ ((h₁.map Prod.fst).nodup_iff.mp hkeys))

section Related

variable {α β : Type} {R : α → β → Prop} {xs : List (String × α)} {ys : List (String × β)}

/-- Entries that are related one by one have the same keys. -/
theorem Entries.map_fst_of_forall₂ (h : List.Forall₂ (fun e e' => e'.1 = e.1 ∧ R e.2 e'.2) xs ys) :
    ys.map Prod.fst = xs.map Prod.fst := by
  induction h with
  | nil => rfl
  | cons he _ ih => rw [List.map_cons, List.map_cons, he.1, ih]

/-- Entries that are related one by one hold related values. -/
theorem Entries.find?_of_forall₂ (h : List.Forall₂ (fun e e' => e'.1 = e.1 ∧ R e.2 e'.2) xs ys)
    (key : String) :
    (find? key xs = none ∧ find? key ys = none)
      ∨ ∃ x y, find? key xs = some x ∧ find? key ys = some y ∧ R x y := by
  induction h with
  | nil => exact .inl ⟨rfl, rfl⟩
  | @cons e e' _ _ he _ ih =>
    rw [find?, find?, he.1]
    by_cases hkey : e.1 = key
    · rw [if_pos hkey, if_pos hkey]
      exact .inr ⟨_, _, rfl, rfl, he.2⟩
    · rw [if_neg hkey, if_neg hkey]
      exact ih

end Related

/-! ## Sorted maps -/

namespace SlotMap

variable {α : Type} {key k : String} {value : α} {map map' : List (String × α)}

/-- Setting a key keeps the keys of a map ascending. -/
theorem pairwise_insert (h : (map.map Prod.fst).Pairwise (· < ·)) :
    ((insert key value map).map Prod.fst).Pairwise (· < ·) := by
  induction map with
  | nil => exact List.pairwise_singleton _ _
  | cons e rest ih =>
    obtain ⟨hhead, hrest⟩ := List.pairwise_cons.mp h
    unfold insert
    split
    · next heq => exact List.pairwise_cons.mpr ⟨heq ▸ hhead, hrest⟩
    · next hne =>
      split
      · next hlt =>
        refine List.pairwise_cons.mpr ⟨fun k hk => ?_, h⟩
        rcases List.mem_cons.mp hk with rfl | hk
        · exact hlt
        · exact hlt.trans (hhead k hk)
      · next hnot =>
        refine List.pairwise_cons.mpr ⟨fun k hk => ?_, ih hrest⟩
        obtain ⟨p, hp, rfl⟩ := List.mem_map.mp hk
        rcases mem_insert hp with rfl | hp
        · exact lt_of_le_of_ne (not_lt.mp hnot) (Ne.symm hne)
        · exact hhead _ (List.mem_map_of_mem hp)

/-- Setting keys keeps the keys of a map ascending. -/
theorem pairwise_insertAll (h : (map.map Prod.fst).Pairwise (· < ·))
    (entries : List (String × α)) : ((insertAll map entries).map Prod.fst).Pairwise (· < ·) := by
  induction entries generalizing map with
  | nil => exact h
  | cons e rest ih => exact ih (pairwise_insert h)

/-- An entry of a map without repeated keys is found. -/
theorem find?_of_mem (hkeys : (map.map Prod.fst).Nodup) (h : (key, value) ∈ map) :
    find? key map = some value := by
  induction map with
  | nil => cases h
  | cons e rest ih =>
    obtain ⟨hhead, hrest⟩ := List.nodup_cons.mp hkeys
    unfold find?
    rcases List.mem_cons.mp h with rfl | h
    · exact if_pos rfl
    · rw [if_neg (fun heq => hhead (List.mem_map.mpr ⟨_, h, heq.symm⟩)), ih hrest h]

/-- **A map with ascending keys is determined by what it holds.** -/
theorem eq_of_find? (h : (map.map Prod.fst).Pairwise (· < ·))
    (h' : (map'.map Prod.fst).Pairwise (· < ·)) (hfind : ∀ key, find? key map = find? key map') :
    map = map' := by
  have hnodup : ∀ {m : List (String × α)}, (m.map Prod.fst).Pairwise (· < ·) →
      (m.map Prod.fst).Nodup := fun hm => hm.imp ne_of_lt
  have hperm : map.Perm map' := by
    rw [List.perm_ext_iff_of_nodup (hnodup h).of_map (hnodup h').of_map]
    rintro ⟨key, value⟩
    constructor
    · exact fun hmem => mem_of_find? ((hfind key).symm.trans (find?_of_mem (hnodup h) hmem))
    · exact fun hmem => mem_of_find? ((hfind key).trans (find?_of_mem (hnodup h') hmem))
  refine hperm.eq_of_pairwise (fun a b _ _ hab hba => absurd hab (lt_asymm hba))
    (List.pairwise_map.mp h) (List.pairwise_map.mp h')

/-- **What a key holds after writing**: what was written under it last, or what was
there before. -/
theorem find?_insertAll (key : String) (map entries : List (String × α)) :
    find? key (insertAll map entries)
      = ((entries.filter (fun e => e.1 = key)).getLast?.map Prod.snd).or (find? key map) := by
  induction entries generalizing map with
  | nil => rfl
  | cons e rest ih =>
    show find? key (insertAll (insert e.1 e.2 map) rest) = _
    rw [ih, find?_insert]
    by_cases he : e.1 = key
    · rw [if_pos he, List.filter_cons_of_pos (by simpa using he), List.getLast?_cons]
      cases (rest.filter (fun e => e.1 = key)).getLast? <;> rfl
    · rw [if_neg he, List.filter_cons_of_neg (by simpa using he)]

/-- **The order of writings under different keys does not matter.** -/
theorem insertAll_congr (h : (map.map Prod.fst).Pairwise (· < ·)) {ws ws' : List (String × α)}
    (hws : ∀ key, ws.filter (fun w => w.1 = key) = ws'.filter (fun w => w.1 = key)) :
    insertAll map ws = insertAll map ws' := by
  refine eq_of_find? (pairwise_insertAll h ws) (pairwise_insertAll h ws') (fun key => ?_)
  rw [find?_insertAll, find?_insertAll, hws]

end SlotMap

end ScratchLegacy
