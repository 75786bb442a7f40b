import ScratchLegacy.Proofs.DocumentTargets
import ScratchLegacy.Proofs.KeyOrder

/-!
# The order of keys in a document

A document has block tables, and its records have slots and fields, all of them objects.
`Json.DocumentReordered` says that two documents differ in nothing but the order in
which these objects have their keys. Then their block tables are reordered
(`Json.TargetReordered.table`), and the projects differ in nothing but the order of
scripts, provided that no two slots of a record get in each other's way
(`Project.key_order_has_no_meaning`).
-/

namespace ScratchLegacy

namespace Json

/-- **A record of a block with its slots and fields in a different order.** A key occurs
once in an object that was read. -/
structure RecordReordered (v v' : Json) : Prop where
  rest : AgreesBut ["inputs", "fields"] v v'
  inputs : (entries (v.get? "inputs")).Perm (entries (v'.get? "inputs"))
  fields : (entries (v.get? "fields")).Perm (entries (v'.get? "fields"))
  keys : ((entries (v.get? "fields")).map Prod.fst).Nodup

/-- **A target with its block table in a different order**, and the records of it. -/
structure TargetReordered (v v' : Json) : Prop where
  rest : AgreesBut ["blocks"] v v'
  keys : ((entries (v.get? "blocks")).map Prod.fst).Nodup
  blocks : ∃ records, List.Forall₂ (fun e e' => e'.1 = e.1 ∧ RecordReordered e.2 e'.2)
      (entries (v.get? "blocks")) records
    ∧ records.Perm (entries (v'.get? "blocks"))

/-- **A document with the block tables of its targets in a different order.** -/
structure DocumentReordered (v v' : Json) : Prop where
  rest : AgreesBut ["targets"] v v'
  targets : Option.Rel (List.Forall₂ TargetReordered) ((v.get? "targets").bind asArray?)
    ((v'.get? "targets").bind asArray?)

/-- A record that is reordered in the document is reordered in the table. -/
theorem RecordReordered.record {v v' : Json} (h : RecordReordered v v') :
    (BlockRecord.ofJson v).Reordered (BlockRecord.ofJson v') where
  slots := h.inputs.filterMap _
  fields := h.fields.map _
  keys := by
    show (((entries (v.get? "fields")).map _).map Prod.fst).Nodup
    rw [List.map_map]
    exact h.keys
  rest := by
    have hkey : ∀ key, key ≠ "inputs" → key ≠ "fields" → v'.get? key = v.get? key :=
      fun key hinputs hfields => h.rest key (by simp [hinputs, hfields])
    simp (disch := decide) only [BlockRecord.ofJson, flag, floatOr, hkey]

/-- **A target that is reordered in the document has a reordered table.** -/
theorem TargetReordered.table {v v' : Json} (h : TargetReordered v v') :
    (BlockTable.ofTarget v).Reordered (BlockTable.ofTarget v') where
  keys := by
    show (((entries (v.get? "blocks")).map _).map Prod.fst).Nodup
    rw [List.map_map]
    exact h.keys
  entries := by
    obtain ⟨records, hrecords, hperm⟩ := h.blocks
    refine ⟨BlockTable.ofEntries records, ?_, hperm.map _⟩
    refine List.forall₂_map_left_iff.mpr (List.forall₂_map_right_iff.mpr (hrecords.imp ?_))
    exact fun e e' he => ⟨he.1, he.2.record⟩

/-- **The targets of reordered documents stand side by side.** -/
theorem DocumentReordered.exists_values {v v' : Json} (h : DocumentReordered v v') :
    ((v.get? "targets").bind asArray? = none ∧ (v'.get? "targets").bind asArray? = none)
      ∨ ∃ values : List (Json × Json), (v.get? "targets").bind asArray? = some (values.map Prod.fst)
        ∧ (v'.get? "targets").bind asArray? = some (values.map Prod.snd)
        ∧ ∀ a ∈ values, TargetReordered a.1 a.2 := by
  have htargets := h.targets
  generalize (v.get? "targets").bind asArray? = targets at htargets ⊢
  generalize (v'.get? "targets").bind asArray? = targets' at htargets ⊢
  cases htargets with
  | none => exact .inl ⟨rfl, rfl⟩
  | @some ts ts' hts =>
    refine .inr ⟨ts.zip ts', ?_, ?_, fun a ha => (List.forall₂_iff_zip.mp hts).2 ha⟩
    · rw [List.map_fst_zip hts.length_eq.le]
    · rw [List.map_snd_zip hts.length_eq.ge]

end Json

/-- Targets with the same scripts in a different order name the same data. -/
theorem Target.mem_references_of_perm {t t' : Target} (h : t'.scripts.Perm t.scripts)
    (id : String) : id ∈ t'.references ↔ id ∈ t.references :=
  ((h.flatMap_right _).flatMap_right _).mem_iff

namespace Project

open Json

section Reordered

variable {fetch : Fetcher} {arrange : Arrangement} {document document' : Json}
  (h : DocumentReordered document document')
  (hapart : ∀ target ∈ items (document.get? "targets"), (BlockTable.ofTarget target).SlotsApart)

include h hapart

/-- A reordered document has a project when the document has, with the scripts of its
targets in a different order. -/
theorem exists_of_reordered {p : Project} (hp : ofDocumentUnpruned fetch arrange document = .ok p) :
    ∃ p', ofDocumentUnpruned fetch arrange document' = .ok p'
      ∧ ∃ values : List (Json × Json), Beside (fun _ ss ss' => ss'.Perm ss) values p p' := by
  rcases h.exists_values with ⟨hnone, _⟩ | ⟨values, hsrc, hdst, hvalues⟩
  · exact absurd hp (ofDocumentUnpruned_of_none hnone p)
  · obtain ⟨p', hp', hbeside⟩ := exists_of_tables (R := fun _ ss ss' => ss'.Perm ss) h.rest hsrc
      hdst (fun a ha => (hvalues a ha).rest) (fun a ha scripts hscripts => by
        refine (hvalues a ha).table.exists_perm_scripts (hapart a.1 ?_) hscripts
        rw [items, hsrc]
        exact List.mem_map_of_mem ha) hp
    exact ⟨p', hp', _, hbeside⟩

/-- A document has a project when the reordered document has. -/
theorem exists_of_reordered' {p' : Project}
    (hp' : ofDocumentUnpruned fetch arrange document' = .ok p') :
    ∃ p, ofDocumentUnpruned fetch arrange document = .ok p := by
  rcases h.exists_values with ⟨_, hnone⟩ | ⟨values, hsrc, hdst, hvalues⟩
  · exact absurd hp' (ofDocumentUnpruned_of_none hnone p')
  · obtain ⟨p, hp, _⟩ := exists_of_tables (R := fun _ _ _ => True) h.rest.symm hdst hsrc
      (fun a ha => (hvalues a ha).rest.symm) (fun a ha scripts' hscripts' => by
        have hmem : a.1 ∈ items (document.get? "targets") := by
          rw [items, hsrc]
          exact List.mem_map_of_mem ha
        obtain ⟨scripts, hscripts⟩ := (hvalues a ha).table.exists_scripts (hapart a.1 hmem) hscripts'
        exact ⟨scripts, hscripts, trivial⟩) hp'
    exact ⟨p, hp⟩

end Reordered

/-- **The order of keys has no meaning but for the order of scripts.** When a document
differs from another one in the order of the records of its block tables, and of the
slots and the fields of these records, and no two slots of a record get in each
other's way, then there is a project for both documents or for neither. The targets of
the projects have the same scripts, in some order, and are the same otherwise; in
particular they have kept the same variables and lists. -/
theorem key_order_has_no_meaning (fetch : Fetcher) {document document' : Json}
    (h : DocumentReordered document document')
    (hapart : ∀ target ∈ items (document.get? "targets"),
      (BlockTable.ofTarget target).SlotsApart) :
    ((∃ p, ofDocument fetch document = .ok p) ↔ ∃ p', ofDocument fetch document' = .ok p')
      ∧ ∀ p p', ofDocument fetch document = .ok p → ofDocument fetch document' = .ok p' →
        List.Forall₂ (fun t t' => t'.scripts.Perm t.scripts
            ∧ t' = { t with scripts := t'.scripts }) p.targets p'.targets
          ∧ p' = { p with stage := p'.stage, sprites := p'.sprites } := by
  constructor
  · constructor
    · rintro ⟨_, hdecode⟩
      obtain ⟨p, hp, -⟩ := map_eq_ok_iff.mp hdecode
      obtain ⟨p', hp', -⟩ := exists_of_reordered h hapart hp
      exact ⟨p'.prune, map_eq_ok_iff.mpr ⟨p', hp', rfl⟩⟩
    · rintro ⟨_, hdecode⟩
      obtain ⟨p', hp', -⟩ := map_eq_ok_iff.mp hdecode
      obtain ⟨p, hp⟩ := exists_of_reordered' h hapart hp'
      exact ⟨p.prune, map_eq_ok_iff.mpr ⟨p, hp, rfl⟩⟩
  · intro _ _ hdecode hdecode'
    obtain ⟨p, hp, hprune⟩ := map_eq_ok_iff.mp hdecode
    obtain ⟨p', hp', hprune'⟩ := map_eq_ok_iff.mp hdecode'
    obtain ⟨p₁, hp₁, values, hbeside⟩ := exists_of_reordered h hapart hp
    cases hp'.symm.trans hp₁
    subst hprune hprune'
    have hpruned := hbeside.prune (fun _ _ _ htt => Target.mem_references_of_perm htt.scripts)
    refine ⟨hpruned.forall₂.imp (fun t t' htt => ?_), hpruned.rest⟩
    obtain ⟨_, _, htt⟩ := htt
    exact ⟨htt.scripts, htt.rest⟩

/-- The block that greets, with its slots in some order. -/
def greet (inputs : List (String × Json)) : Json :=
  .object [("opcode", .text "looks_sayforsecs"), ("topLevel", .bool true), ("inputs", .object inputs)]

/-- The block that leaves. -/
def leave : Json := .object [("opcode", .text "looks_hide"), ("topLevel", .bool true)]

/-- A document whose stage has this block table. -/
def greeter (blocks : List (String × Json)) : Json :=
  .object [("targets", .array [.object [("isStage", .bool true), ("name", .text "Hall"),
    ("blocks", .object blocks)]])]

/-- The text of a slot. -/
def saying (text : String) : Json := .array [Json.ofNat 1, .array [Json.ofNat 10, .text text]]

/-- The greeting comes first. -/
def greetFirst : Json :=
  greeter [("a", greet [("MESSAGE", saying "Hello"), ("SECS", saying "2")]), ("b", leave)]

/-- The greeting comes last, and the time before the text. -/
def greetLast : Json :=
  greeter [("b", leave), ("a", greet [("SECS", saying "2"), ("MESSAGE", saying "Hello")])]

/-- The two documents differ in the order of keys. -/
theorem greetLast_reordered : DocumentReordered greetFirst greetLast := by
  have hgreet : RecordReordered (greet [("MESSAGE", saying "Hello"), ("SECS", saying "2")])
      (greet [("SECS", saying "2"), ("MESSAGE", saying "Hello")]) := by
    refine ⟨fun key hkey => ?_, List.Perm.swap _ _ _, .nil, List.nodup_nil⟩
    have hinputs : ¬ "inputs" = key := fun heq => hkey (by simp [← heq])
    simp only [greet, get?, Entries.find?, if_neg hinputs]
  have hleave : RecordReordered leave leave := ⟨fun _ _ => rfl, .nil, .nil, List.nodup_nil⟩
  refine ⟨fun key hkey => ?_, .some (.cons ⟨fun key hkey => ?_, by decide,
    [("a", greet [("SECS", saying "2"), ("MESSAGE", saying "Hello")]), ("b", leave)],
    .cons ⟨rfl, hgreet⟩ (.cons ⟨rfl, hleave⟩ .nil), List.Perm.swap _ _ _⟩ .nil)⟩
  · have htargets : ¬ "targets" = key := fun heq => hkey (by simp [← heq])
    simp only [greetFirst, greetLast, greeter, get?, Entries.find?, if_neg htargets]
  · have hblocks : ¬ "blocks" = key := fun heq => hkey (by simp [← heq])
    simp only [get?, Entries.find?, if_neg hblocks]

/-- The slots of the greeting hold literals. -/
theorem slotsApart_greetFirst :
    ∀ target ∈ items (greetFirst.get? "targets"), (BlockTable.ofTarget target).SlotsApart := by
  intro target htarget
  cases List.mem_singleton.mp htarget
  refine List.forall_mem_cons.mpr ⟨?_, List.forall_mem_singleton.mpr List.Pairwise.nil⟩
  exact List.pairwise_pair.mpr (BlockTable.apart_of_literals (by decide))

/-- The stage has the same two scripts in either document. -/
theorem greetFirst_and_greetLast :
    ∃ p p', ofDocument (fun _ => .ok ByteArray.empty) greetFirst = .ok p
      ∧ ofDocument (fun _ => .ok ByteArray.empty) greetLast = .ok p'
      ∧ p'.stage.scripts.Perm p.stage.scripts := by
  obtain ⟨hiff, hsame⟩ := key_order_has_no_meaning (fun _ => .ok ByteArray.empty)
    greetLast_reordered slotsApart_greetFirst
  have hdecode : ∃ p, ofDocument (fun _ => .ok ByteArray.empty) greetFirst = .ok p := ⟨_, rfl⟩
  obtain ⟨p, hp⟩ := hdecode
  obtain ⟨p', hp'⟩ := hiff.mp ⟨p, hp⟩
  cases (hsame p p' hp hp').1 with
  | cons hstage _ => exact ⟨p, p', hp, hp', hstage.1⟩

end Project

end ScratchLegacy
