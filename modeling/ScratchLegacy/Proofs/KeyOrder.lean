import ScratchLegacy.Proofs.ProcedureSignatures
import ScratchLegacy.Proofs.ScriptFailure
import ScratchLegacy.Proofs.SlotOrder

/-!
# The order of keys in a block table

A block table, the slots of a record and its fields are objects of the document, so
they come in some order. The slots of a block are filled in the order in which they come,
into one map, and where two of them write the same key the last one counts. Where no
two of them do, and at most one gives the signature (`BlockTable.Apart`), the order of
keys has no meaning but for the order of scripts.

`BlockTable.Reordered` says that a table is another one with the entries of all these
objects in a different order. The steps of a block are then in a different order too,
but those that write the same key are not (`Step.Alike`), and a block is expanded
from either table to the same tree (`Reordered.expand_eq`). The scripts are the same, in
a different order (`Reordered.exists_perm_scripts`).
-/

namespace ScratchLegacy

/-! ## Reordered tables -/

/-- **A record with its slots and fields in a different order.** No field is
repeated. -/
structure BlockRecord.Reordered (r r' : BlockRecord) : Prop where
  slots : r.slots.Perm r'.slots
  fields : r.fields.Perm r'.fields
  keys : (r.fields.map Prod.fst).Nodup
  rest : r' = { r with slots := r'.slots, fields := r'.fields }

/-- **A table with the entries of its objects in a different order.** No id is
repeated. -/
structure BlockTable.Reordered (t t' : BlockTable) : Prop where
  keys : (t.map Prod.fst).Nodup
  entries : ∃ u : BlockTable,
    List.Forall₂ (fun e e' => e'.1 = e.1 ∧ e.2.Reordered e'.2) t u ∧ u.Perm t'

namespace BlockRecord.Reordered

variable {r r' : BlockRecord} (h : r.Reordered r')

include h

/-- Everything but the slots and fields is the same. -/
theorem opcode?_eq : r'.opcode? = r.opcode? := by rw [h.rest]

theorem next?_eq : r'.next? = r.next? := by rw [h.rest]

theorem mutation?_eq : r'.mutation? = r.mutation? := by rw [h.rest]

theorem isInlined_eq : r'.isInlined = r.isInlined := by rw [h.rest]; rfl

theorem isHead_eq : r'.isHead = r.isHead := by rw [h.rest]; rfl

theorem signature_eq (id : String) : r'.signature id = r.signature id := by rw [h.rest]; rfl

/-- The fields give the same inputs, in a different order. -/
theorem fieldInputs (opcode : String) :
    (r.fieldInputs opcode).Perm (r'.fieldInputs opcode)
      ∧ ((r.fieldInputs opcode).map Prod.fst).Nodup := by
  unfold BlockRecord.fieldInputs
  split
  · refine ⟨h.fields.map _, ?_⟩
    rw [List.map_map]
    exact h.keys
  · exact ⟨.nil, List.nodup_nil⟩

end BlockRecord.Reordered

/-! ## Steps in a different order -/

/-- A step that can be taken can be taken when more chains can be grown. -/
theorem Step.Feasible.mono {grows grows' : String → Prop} {s : Step} (h : s.Feasible grows)
    (hgrows : ∀ head, grows head → grows' head) : s.Feasible grows' := by
  cases s with
  | fill | sign => trivial
  | grow | inspect => exact hgrows _ h
  | fail => exact h

/-- The writes of steps under a key, in order. -/
def Step.writesAt (chains : String → List Block) (key : String) (steps : List Step) :
    List (String × Input) :=
  (steps.filterMap (write? chains)).filter (fun w => w.1 = key)

/-- **Steps in a different order**, in which those that write the same key have kept
theirs. -/
structure Step.Alike (ss ss' : List Step) : Prop where
  perm : ss.Perm ss'
  writes : ∀ chains key, writesAt chains key ss = writesAt chains key ss'

namespace Step

variable {ss ss' : List Step}

/-- The same steps are alike. -/
theorem Alike.refl (ss : List Step) : Alike ss ss := ⟨.refl ss, fun _ _ => rfl⟩

/-- Alike steps can be taken under the same condition. -/
theorem Alike.forall_iff (h : Alike ss ss') {P : Step → Prop} :
    (∀ s ∈ ss', P s) ↔ ∀ s ∈ ss, P s :=
  ⟨fun hall s hs => hall s (h.perm.mem_iff.mp hs), fun hall s hs => hall s (h.perm.mem_iff.mpr hs)⟩

/-- Steps write under a key what their parts write, one after the other. -/
theorem writesAt_flatMap {α : Type} (chains : String → List Block) (key : String) (xs : List α)
    (f : α → List Step) :
    writesAt chains key (xs.flatMap f) = xs.flatMap (fun x => writesAt chains key (f x)) := by
  unfold writesAt
  rw [List.filterMap_flatMap, List.filter_flatMap]

/-- **Taking over a shadow whose slots are alike** and whose fields are in a different
order. -/
theorem Alike.adopt (h : Alike ss ss') (opcode : String) {fields fields' : List (String × Input)}
    (hfields : fields.Perm fields') (hkeys : (fields.map Prod.fst).Nodup) :
    Alike (adopt opcode fields ss) (adopt opcode fields' ss') := by
  have hparameter := Entries.find?_eq_of_perm hfields hkeys "colorParam"
  constructor
  · unfold Step.adopt
    split
    · rw [hparameter]
      exact (h.perm.filterMap _).append_right _
    · exact (h.perm.filterMap _).append (hfields.map _)
  · intro chains key
    unfold writesAt
    rw [filterMap_write?_adopt, filterMap_write?_adopt, hparameter]
    split
    · rfl
    · rw [List.filter_append, List.filter_append, filter_key_eq_of_perm hfields hkeys]
      exact congrArg (· ++ _) (h.writes chains key)

end Step

namespace BlockTable

/-- **A slot whose child is a prototype** that gives its owner a signature. -/
def HoldsPrototype (t : BlockTable) (entry : String × SlotValue) : Prop :=
  ∃ id, entry.2 = .child id ∧ (t.prototype? id).isSome

/-- **Two slots that do not get in each other's way**: they write no key both, and at
most one of them holds a prototype. -/
structure Apart (t : BlockTable) (entry entry' : String × SlotValue) : Prop where
  keys : ∀ key, ¬ (t.WritesKey entry key ∧ t.WritesKey entry' key)
  prototypes : ¬ (t.HoldsPrototype entry ∧ t.HoldsPrototype entry')

/-- **No two slots of a record get in each other's way.** -/
def SlotsApart (t : BlockTable) : Prop := ∀ e ∈ t, e.2.slots.Pairwise t.Apart

variable {t t' : BlockTable}

/-- What the steps of a slot write under a key, its entry writes. -/
theorem writesKey_of_writesAt {chains : String → List Block} {room : Nat} {trail : List String}
    {owner opcode key : String} {entry : String × SlotValue}
    (h : Step.writesAt chains key (t.slotSteps (t.inlined room trail) owner opcode entry) ≠ []) :
    t.WritesKey entry key := by
  obtain ⟨w, hw⟩ := List.exists_mem_of_ne_nil _ h
  obtain ⟨hw, hkey⟩ := List.mem_filter.mp hw
  have hwrites := writes_of_mem_slotSteps hw
  exact ⟨chains, owner, opcode, w.2, of_decide_eq_true hkey ▸ hwrites⟩

/-- **Under one key at most one of several slots writes anything** when they do not get in
each other's way. -/
theorem pairwise_writesAt {slots : List (String × SlotValue)} (h : slots.Pairwise t.Apart)
    (chains : String → List Block) (room : Nat) (trail : List String)
    (owner opcode key : String) :
    slots.Pairwise (fun e e' =>
      Step.writesAt chains key (t.slotSteps (t.inlined room trail) owner opcode e) = []
        ∨ Step.writesAt chains key (t.slotSteps (t.inlined room trail) owner opcode e') = []) := by
  refine h.imp (fun {e e'} hapart => ?_)
  by_contra hboth
  rw [not_or] at hboth
  refine hapart.keys key ⟨?_, ?_⟩
  · exact writesKey_of_writesAt hboth.1
  · exact writesKey_of_writesAt hboth.2

/-- A slot that gives a signature holds a prototype. -/
theorem holdsPrototype_of_slotSignature? {entry : String × SlotValue}
    (h : (t.slotSignature? entry).toList ≠ []) : t.HoldsPrototype entry := by
  obtain ⟨slot, value⟩ := entry
  cases value with
  | literal parts => exact absurd rfl h
  | child id =>
    refine ⟨id, rfl, ?_⟩
    by_contra hnone
    rw [Option.not_isSome_iff_eq_none] at hnone
    refine h ?_
    rw [slotSignature?, hnone]
    rfl

/-- A literal writes into its own slot. -/
theorem eq_of_writesKey_literal {slot key : String} {parts : List Json}
    (h : t.WritesKey (slot, .literal parts) key) : key = slot := by
  obtain ⟨_, _, _, _, h⟩ := h
  cases h
  rfl

/-- **Literals in different slots do not get in each other's way.** -/
theorem apart_of_literals {slot slot' : String} {parts parts' : List Json} (h : slot ≠ slot') :
    t.Apart (slot, .literal parts) (slot', .literal parts') where
  keys _ hboth := h ((eq_of_writesKey_literal hboth.1).symm.trans (eq_of_writesKey_literal hboth.2))
  prototypes hboth := by
    obtain ⟨_, hchild, _⟩ := hboth.1
    cases hchild

namespace Reordered

section Records

variable (h : t.Reordered t')

include h

/-- **The record of an id** is the same in both tables, but for the order of its slots
and fields. -/
theorem record?_cases (id : String) :
    (t.record? id = none ∧ t'.record? id = none)
      ∨ ∃ r r', t.record? id = some r ∧ t'.record? id = some r' ∧ r.Reordered r' := by
  obtain ⟨u, hu, hperm⟩ := h.entries
  have hkeys : (u.map Prod.fst).Nodup := Entries.map_fst_of_forall₂ hu ▸ h.keys
  have hfind : t'.record? id = Entries.find? id u :=
    (Entries.find?_eq_of_perm hperm hkeys id).symm
  rw [hfind]
  exact Entries.find?_of_forall₂ hu id

/-- An id with a record has one in the other table. -/
theorem exists_record? {id : String} {r : BlockRecord} (found : t.record? id = some r) :
    ∃ r', t'.record? id = some r' ∧ r.Reordered r' := by
  rcases h.record?_cases id with ⟨hnone, _⟩ | ⟨_, r', hr, hr', hrr'⟩
  · cases found.symm.trans hnone
  · cases found.symm.trans hr
    exact ⟨r', hr', hrr'⟩

/-- The tables have the same number of records. -/
theorem length_eq : t'.length = t.length := by
  obtain ⟨u, hu, hperm⟩ := h.entries
  rw [← hperm.length_eq, hu.length_eq]

/-- The chains are the same. -/
theorem follow_eq (head : String) : t'.follow head = t.follow head := by
  have hnext : ∀ id, (t'.record? id).bind BlockRecord.next? = (t.record? id).bind BlockRecord.next? := by
    intro id
    rcases h.record?_cases id with ⟨hr, hr'⟩ | ⟨r, r', hr, hr', hrr'⟩
    · rw [hr, hr']
    · rw [hr, hr']
      exact hrr'.next?_eq
  have hfollow : ∀ room met id, t'.followFrom room met id = t.followFrom room met id := by
    intro room
    induction room with
    | zero => exact fun _ _ => rfl
    | succ room ih =>
      intro met id
      simp only [followFrom, hnext, ih]
  rw [follow, follow, h.length_eq, hfollow]

/-- **The steps of a slot are alike** when those of an inlined shadow are. -/
theorem slotSteps_alike {inline inline' : String → String → BlockRecord → List Step}
    (hinline : ∀ id childOpcode child child', t.record? id = some child → child.Reordered child' →
      Step.Alike (inline id childOpcode child) (inline' id childOpcode child'))
    (owner opcode : String) (entry : String × SlotValue) :
    Step.Alike (t.slotSteps inline owner opcode entry) (t'.slotSteps inline' owner opcode entry) := by
  obtain ⟨slot, value⟩ := entry
  cases value with
  | literal parts => exact .refl _
  | child id =>
    rcases h.record?_cases id with ⟨hr, hr'⟩ | ⟨r, r', hr, hr', hrr'⟩
    · rw [slotSteps_of_none hr, slotSteps_of_none hr']
      exact .refl _
    · by_cases hi : r.isInlined
      · have hi' : r'.isInlined := hrr'.isInlined_eq ▸ hi
        cases ho : r.opcode? with
        | none =>
          rw [slotSteps_of_opcode_none hr hi ho,
            slotSteps_of_opcode_none hr' hi' (hrr'.opcode?_eq.trans ho)]
          exact .refl _
        | some childOpcode =>
          have ho' := hrr'.opcode?_eq.trans ho
          by_cases hp : childOpcode = Opcode.prototype
          · subst hp
            rw [slotSteps_of_prototype hr hi ho, slotSteps_of_prototype hr' hi' ho',
              hrr'.signature_eq]
            exact .refl _
          · rw [slotSteps_of_shadow hr hi ho hp, slotSteps_of_shadow hr' hi' ho' hp]
            exact hinline id childOpcode r r' hr hrr'
      · have hi' : ¬ r'.isInlined := hrr'.isInlined_eq ▸ hi
        rw [slotSteps_of_not_inlined hr hi, slotSteps_of_not_inlined hr' hi']
        exact .refl _

/-- **The steps of a record are alike** when those of each of its slots are. -/
theorem steps_alike_of_inlined (hapart : t.SlotsApart) {room : Nat} {trail : List String}
    (hinlined : ∀ id childOpcode child child', t.record? id = some child → child.Reordered child' →
      Step.Alike (t.inlined room trail id childOpcode child)
        (t'.inlined room trail id childOpcode child'))
    {id owner opcode : String} {r r' : BlockRecord} (found : t.record? id = some r)
    (hrr' : r.Reordered r') :
    Step.Alike (t.steps room trail owner opcode r) (t'.steps room trail owner opcode r') := by
  have hslot := h.slotSteps_alike hinlined owner opcode
  rw [steps_eq_flatMap, steps_eq_flatMap]
  refine ⟨?_, fun chains key => ?_⟩
  · exact hrr'.slots.flatMap (fun e _ => (hslot e).perm)
  · have hone := pairwise_writesAt (hapart _ (mem_of_record? found)) chains room trail owner opcode key
    rw [Step.writesAt_flatMap, Step.writesAt_flatMap, flatMap_eq_of_perm hrr'.slots hone]
    exact List.flatMap_congr (fun e _ => (hslot e).writes chains key)

/-- **An inlined shadow contributes alike steps**, and the steps of a record are alike,
by induction on the number that bounds the inlining. -/
theorem steps_alike (hapart : t.SlotsApart) {room : Nat} {trail : List String}
    {id owner opcode : String} {r r' : BlockRecord} (found : t.record? id = some r)
    (hrr' : r.Reordered r') :
    Step.Alike (t.steps room trail owner opcode r) (t'.steps room trail owner opcode r') := by
  induction room generalizing trail id owner opcode r r' with
  | zero =>
    refine h.steps_alike_of_inlined hapart (fun _ _ _ _ _ _ => ?_) found hrr'
    unfold inlined
    split <;> exact .refl _
  | succ room ih =>
    refine h.steps_alike_of_inlined hapart
      (fun id childOpcode child child' hchild hreordered => ?_) found hrr'
    by_cases hmem : id ∈ trail
    · unfold inlined
      rw [if_pos hmem, if_pos hmem]
      exact .refl _
    · rw [inlined_succ hmem, inlined_succ hmem]
      have hfields := hreordered.fieldInputs childOpcode
      exact (ih hchild hreordered).adopt childOpcode hfields.1 hfields.2

/-- **The slots of a record give the same signature.** -/
theorem filterMap_slotSignature? (hapart : t.SlotsApart) {id : String} {r r' : BlockRecord}
    (found : t.record? id = some r) (hrr' : r.Reordered r') :
    r'.slots.filterMap t'.slotSignature? = r.slots.filterMap t.slotSignature? := by
  have hslot : t'.slotSignature? = t.slotSignature? := by
    funext ⟨slot, value⟩
    cases value with
    | literal parts => rfl
    | child id =>
      show ((t'.record? id).filter _).bind _ = ((t.record? id).filter _).bind _
      rcases h.record?_cases id with ⟨hr, hr'⟩ | ⟨r, r', hr, hr', hrr'⟩
      · rw [hr, hr']
      · rw [hr, hr', Option.filter_some, Option.filter_some, hrr'.isInlined_eq, hrr'.opcode?_eq]
        split
        · exact congrArg Except.toOption (hrr'.signature_eq id)
        · rfl
  rw [hslot, List.filterMap_eq_flatMap_toList, List.filterMap_eq_flatMap_toList]
  refine (flatMap_eq_of_perm hrr'.slots ((hapart _ (mem_of_record? found)).imp ?_)).symm
  intro e e' hee'
  by_contra hboth
  rw [not_or] at hboth
  exact hee'.prototypes ⟨holdsPrototype_of_slotSignature? hboth.1,
    holdsPrototype_of_slotSignature? hboth.2⟩

/-! ## Expansion -/

/-- **What can be expanded from the other table can be expanded from this one.** -/
theorem expands (hapart : t.SlotsApart) {room : Nat} {opened : List String} {id : String}
    (hexpands : t'.Expands room opened id) : t.Expands room opened id := by
  induction room generalizing opened id with
  | zero => exact absurd hexpands not_expands_zero
  | succ room ih =>
    obtain ⟨r', opcode, found', hnew, op', hfeasible⟩ := expands_succ_iff.mp hexpands
    rcases h.record?_cases id with ⟨_, hnone⟩ | ⟨r, r₁, found, hr₁, hrr'⟩
    · cases found'.symm.trans hnone
    · cases found'.symm.trans hr₁
      refine expands_succ_iff.mpr ⟨r, opcode, found, hnew, hrr'.opcode?_eq ▸ op', ?_⟩
      rw [← (h.steps_alike hapart found hrr').forall_iff, ← h.length_eq]
      intro s hs
      refine (hfeasible s hs).mono (fun head hgrows x hx => ih (hgrows x ?_))
      rwa [h.follow_eq]

/-- **A block that is expanded from this table is expanded from the other one.** -/
theorem expand_eq (hapart : t.SlotsApart) {room : Nat} {opened : List String} {id : String}
    {b : Block} (hb : t.expand room opened id = .ok b) : t'.expand room opened id = .ok b := by
  induction room generalizing opened id b with
  | zero => exact absurd ⟨b, hb⟩ not_expands_zero
  | succ room ih =>
    obtain ⟨r, opcode, f, found, hnew, op, hf, rfl⟩ := expand_succ_eq_ok_iff.mp hb
    obtain ⟨r', found', hrr'⟩ := h.exists_record? found
    -- the chains in the slots are the same, so the same steps can be taken
    have hchain : ∀ head blocks, t.chainWithin room (id :: opened) head = .ok blocks →
        t'.chainWithin room (id :: opened) head = .ok blocks := by
      intro head blocks hblocks
      rw [chainWithin, mapM_eq_ok_iff] at hblocks ⊢
      rw [h.follow_eq]
      exact hblocks.imp (fun _ _ => ih)
    have halike : Step.Alike (t.steps t.length [] id opcode r) (t'.steps t.length [] id opcode r') :=
      h.steps_alike hapart found hrr'
    obtain ⟨f', hf'⟩ : ∃ f', (t'.steps t'.length [] id opcode r').foldlM
        (Filling.take (t'.chainWithin room (id :: opened))) {} = .ok f' := by
      rw [Filling.exists_foldlM_take_eq_ok_iff, h.length_eq, halike.forall_iff]
      intro s hs
      exact (Filling.exists_foldlM_take_eq_ok_iff.mp ⟨f, hf⟩ s hs).mono
        (fun head ⟨blocks, hblocks⟩ => ⟨blocks, hchain head blocks hblocks⟩)
    obtain ⟨chains, hchains⟩ := exists_chains (t'.chainWithin room (id :: opened))
    have hinputs : f'.inputs = f.inputs := by
      rw [inputs_eq_insertAll hf (fun head blocks hblocks => hchains _ _ (hchain head blocks hblocks)),
        inputs_eq_insertAll hf' hchains, h.length_eq]
      exact (SlotMap.insertAll_congr List.Pairwise.nil (halike.writes chains)).symm
    have hsignature : f'.signature = f.signature := by
      rw [signature_of_foldlM_steps hf, signature_of_foldlM_steps hf',
        h.filterMap_slotSignature? hapart found hrr']
    refine expand_succ_eq_ok_iff.mpr ⟨r', opcode, f', found', hnew, hrr'.opcode?_eq.trans op, hf',
      ?_⟩
    have hfields : SlotMap.insertAll f.inputs (r'.fieldInputs opcode)
        = SlotMap.insertAll f.inputs (r.fieldInputs opcode) := by
      have hsorted : (f.inputs.map Prod.fst).Pairwise (· < ·) := by
        rw [← hinputs, inputs_eq_insertAll hf' hchains]
        exact SlotMap.pairwise_insertAll List.Pairwise.nil _
      obtain ⟨hperm, hkeys⟩ := hrr'.fieldInputs opcode
      exact (SlotMap.insertAll_congr hsorted (filter_key_eq_of_perm hperm hkeys)).symm
    simp only [Filling.block, hinputs, hsignature, hrr'.mutation?_eq, hfields]

/-- A chain that is expanded from this table is expanded from the other one. -/
theorem chain_eq (hapart : t.SlotsApart) {head : String} {blocks : List Block}
    (hblocks : t.chain head = .ok blocks) : t'.chain head = .ok blocks := by
  rw [chain, mapM_eq_ok_iff] at hblocks ⊢
  rw [h.follow_eq, h.length_eq]
  exact hblocks.imp (fun _ _ => h.expand_eq hapart)

/-! ## Scripts -/

/-- **The scripts of the other table are the same, in a different order.** -/
theorem exists_perm_scripts (hapart : t.SlotsApart) {scripts : List Script}
    (hscripts : t.scripts = .ok scripts) :
    ∃ scripts', t'.scripts = .ok scripts' ∧ scripts'.Perm scripts := by
  obtain ⟨u, hu, hperm⟩ := h.entries
  have hheads := forall₂_filter (p := fun e => e.2.isHead) (q := fun e => e.2.isHead)
    (fun _ _ he => he.2.isHead_eq.symm) hu
  have hscripts' : List.Forall₂ (fun e s => t'.chain e.1 = .ok s.blocks ∧ s.x = e.2.x ∧ s.y = e.2.y)
      (u.filter (fun e => e.2.isHead)) scripts := by
    refine forall₂_comp ?_ hheads.flip (scripts_eq_ok_iff.mp hscripts)
    rintro e' e s ⟨hid, hreordered⟩ ⟨hchain, hx, hy⟩
    rw [hid, hreordered.rest]
    exact ⟨h.chain_eq hapart hchain, hx, hy⟩
  obtain ⟨scripts', hall, hsame⟩ := List.perm_comp_forall₂ (hperm.symm.filter _) hscripts'
  exact ⟨scripts', scripts_eq_ok_iff.mpr hall, hsame⟩

/-- **Where the other table has scripts, so has this one.** -/
theorem exists_scripts (hapart : t.SlotsApart) {scripts' : List Script}
    (hscripts' : t'.scripts = .ok scripts') : ∃ scripts, t.scripts = .ok scripts := by
  have hexpands := exists_scripts_eq_ok_iff.mp ⟨scripts', hscripts'⟩
  obtain ⟨u, hu, hperm⟩ := h.entries
  refine exists_scripts_eq_ok_iff.mpr (fun e he hhead x hx => h.expands hapart ?_)
  obtain ⟨e', hmem, hid, hreordered⟩ := exists_mem_zip hu he
  have he' := hexpands e' (hperm.mem_iff.mp (List.of_mem_zip hmem).2)
    (hreordered.isHead_eq.trans hhead) x (by rwa [hid, h.follow_eq])
  rwa [h.length_eq] at he'

end Records

end Reordered

end BlockTable

end ScratchLegacy
