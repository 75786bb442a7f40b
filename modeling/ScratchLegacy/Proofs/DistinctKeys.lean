import Mathlib.Data.List.Nodup
import ScratchLegacy.Json.Reader

/-!
# Keys occur once

The type of JSON values has objects with repeated keys, but no text is read as one: a key
that is written again replaces the value that it had (`Entries.put`). So keys are
distinct in every object of a value that was read, at any depth
(`Json.distinctKeys_of_read?`).
-/

namespace ScratchLegacy

namespace Entries

variable {α : Type} {key : String} {value : α} {entries writings : List (String × α)}

/-- Writing a key leaves the keys distinct. -/
theorem nodup_map_fst_put (h : (entries.map Prod.fst).Nodup) :
    ((put key value entries).map Prod.fst).Nodup := by
  rw [map_fst_put]
  split
  · exact h
  · next hnew =>
    rw [← List.concat_eq_append, List.nodup_concat]
    exact ⟨hnew, h⟩

/-- The values after a writing are the written one and old ones. -/
theorem eq_or_mem_of_mem_put {e : String × α} (h : e ∈ put key value entries) :
    e.2 = value ∨ e ∈ entries := by
  induction entries with
  | nil =>
    cases List.mem_singleton.mp h
    exact .inl rfl
  | cons e' rest ih =>
    unfold put at h
    split at h
    · rcases List.mem_cons.mp h with rfl | hrest
      · exact .inl rfl
      · exact .inr (List.mem_cons_of_mem _ hrest)
    · rcases List.mem_cons.mp h with rfl | hrest
      · exact .inr List.mem_cons_self
      · exact (ih hrest).imp_right (List.mem_cons_of_mem _)

/-- **What remains of a sequence of writings has distinct keys.** -/
theorem nodup_map_fst_ofWritings : ((ofWritings writings).map Prod.fst).Nodup :=
  List.foldlRecOn (motive := fun (entries : List (String × α)) => (entries.map Prod.fst).Nodup)
    writings _ List.nodup_nil (fun _ h _ _ => nodup_map_fst_put h)

/-- What remains of a sequence of writings was written. -/
theorem forall_mem_ofWritings {P : α → Prop} (h : ∀ e ∈ writings, P e.2) :
    ∀ e ∈ ofWritings writings, P e.2 := by
  refine List.foldlRecOn (motive := fun (entries : List (String × α)) => ∀ e ∈ entries, P e.2)
    writings _ (List.forall_mem_nil _) (fun entries hentries w hw e he => ?_)
  rcases eq_or_mem_of_mem_put he with heq | hmem
  · exact heq ▸ h w hw
  · exact hentries e hmem

end Entries

namespace Json

/-- **Keys are distinct** in every object of a value, at any depth. -/
inductive DistinctKeys : Json → Prop
  | null : DistinctKeys .null
  | bool (b : Bool) : DistinctKeys (.bool b)
  | number (n : JsonNumber) : DistinctKeys (.number n)
  | text (s : String) : DistinctKeys (.text s)
  | array {items : List Json} (items_distinct : ∀ v ∈ items, DistinctKeys v) :
      DistinctKeys (.array items)
  | object {entries : List (String × Json)} (keys : (entries.map Prod.fst).Nodup)
      (values : ∀ e ∈ entries, DistinctKeys e.2) : DistinctKeys (.object entries)

attribute [simp] DistinctKeys.null DistinctKeys.bool DistinctKeys.number DistinctKeys.text

/-- An array has distinct keys when its items have. -/
@[simp] theorem distinctKeys_array {items : List Json} :
    DistinctKeys (.array items) ↔ ∀ v ∈ items, DistinctKeys v :=
  ⟨fun | .array h => h, .array⟩

/-- An object has distinct keys when its own are distinct and its values have. -/
@[simp] theorem distinctKeys_object {entries : List (String × Json)} :
    DistinctKeys (.object entries) ↔
      (entries.map Prod.fst).Nodup ∧ ∀ e ∈ entries, DistinctKeys e.2 :=
  ⟨fun | .object keys values => ⟨keys, values⟩, fun h => .object h.1 h.2⟩

/-- Each scanner of nested values gives distinct keys, if what it has read before has. The
induction is on the fuel, which all three of them share. -/
theorem distinctKeys_of_readers (fuel : Nat) :
    (∀ depth cs v rest, readValue? fuel depth cs = some (v, rest) → DistinctKeys v)
      ∧ (∀ depth done cs v rest, (∀ item ∈ done, DistinctKeys item) →
        readItems? fuel depth done cs = some (v, rest) → DistinctKeys v)
      ∧ ∀ depth done cs v rest, (∀ e ∈ done, DistinctKeys e.2) →
        readEntries? fuel depth done cs = some (v, rest) → DistinctKeys v := by
  induction fuel with
  | zero =>
    refine ⟨fun _ _ _ _ h => ?_, fun _ _ _ _ _ _ h => ?_, fun _ _ _ _ _ _ h => ?_⟩
    · cases h
    · cases h
    · cases h
  | succ fuel ih =>
    obtain ⟨hvalue, hitems, hentries⟩ := ih
    refine ⟨?_, ?_, ?_⟩
    · intro depth cs v rest h
      unfold readValue? at h
      split at h
      · cases h
        exact .null
      · cases h
        exact .bool true
      · cases h
        exact .bool false
      · obtain ⟨r, -, heq⟩ := Option.map_eq_some_iff.mp h
        cases heq
        exact .text r.1
      · split at h
        · cases h
        · split at h
          · cases h
            exact .array (List.forall_mem_nil _)
          · exact hitems _ _ _ _ _ (List.forall_mem_nil _) h
      · split at h
        · cases h
        · split at h
          · cases h
            exact .object List.nodup_nil (List.forall_mem_nil _)
          · exact hentries _ _ _ _ _ (List.forall_mem_nil _) h
      · obtain ⟨r, -, heq⟩ := Option.map_eq_some_iff.mp h
        cases heq
        exact .number r.1
    · intro depth done cs v rest hdone h
      unfold readItems? at h
      split at h
      · cases h
      · next item rest' hitem =>
        have hdone' := List.forall_mem_cons.mpr ⟨hvalue _ _ _ _ hitem, hdone⟩
        split at h
        · exact hitems _ _ _ _ _ hdone' h
        · cases h
          exact .array (fun v hv => hdone' v (List.mem_reverse.mp hv))
        · cases h
    · intro depth done cs v rest hdone h
      unfold readEntries? at h
      split at h
      · split at h
        · cases h
        · next key rest₁ _ =>
          split at h
          · split at h
            · cases h
            · next value rest₂ hread =>
              have hdone' : ∀ e ∈ (key, value) :: done, DistinctKeys e.2 :=
                List.forall_mem_cons.mpr ⟨hvalue _ _ _ _ hread, hdone⟩
              split at h
              · exact hentries _ _ _ _ _ hdone' h
              · cases h
                exact .object Entries.nodup_map_fst_ofWritings (Entries.forall_mem_ofWritings
                  fun e he => hdone' e (List.mem_reverse.mp he))
              · cases h
          · cases h
      · cases h

/-- **No text is read as a value with repeated keys.** -/
theorem distinctKeys_of_read? {text : String} {v : Json} (h : read? text = some v) :
    v.DistinctKeys := by
  unfold read? at h
  dsimp only at h
  split at h
  · next hread =>
    obtain ⟨-, heq⟩ := Option.ite_none_right_eq_some.mp h
    cases heq
    exact (distinctKeys_of_readers _).1 _ _ _ _ hread
  · cases h

namespace DistinctKeys

variable {v w : Json} {key : String}

/-- The parts of a value with distinct keys have distinct keys. -/
theorem get? (h : v.DistinctKeys) (hw : v.get? key = some w) : w.DistinctKeys := by
  cases h with
  | object _ values => exact values _ (Entries.mem_of_find? hw)
  | _ => cases hw

/-- The items of a value with distinct keys have distinct keys. -/
theorem of_mem_items (h : v.DistinctKeys) (hw : w ∈ items (v.get? key)) : w.DistinctKeys := by
  cases hpart : v.get? key with
  | none =>
    rw [hpart] at hw
    cases hw
  | some part =>
    rw [hpart] at hw
    cases h.get? hpart with
    | array hitems => exact hitems w hw
    | _ => cases hw

/-- The keys of a part are distinct. -/
theorem nodup_entries (h : v.DistinctKeys) : ((entries (v.get? key)).map Prod.fst).Nodup := by
  cases hpart : v.get? key with
  | none => exact List.nodup_nil
  | some part =>
    cases h.get? hpart with
    | object keys _ => exact keys
    | _ => exact List.nodup_nil

end DistinctKeys

end Json

end ScratchLegacy
