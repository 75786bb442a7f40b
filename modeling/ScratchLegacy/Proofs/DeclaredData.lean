import ScratchLegacy.Proofs.DistinctKeys
import ScratchLegacy.Proofs.DocumentTargets
import ScratchLegacy.Proofs.WrittenData

/-!
# From declarations to data

The variables and lists of a target come from two places: the declaration in the target
says what they are, and a monitor record of the document how they are shown. The two are
joined by id (`Variable.Joins`, `ItemList.Joins`), and what is joined passes through the
pruning of the whole project. What is left is said here in one statement about a document
and its project (`Project.declared_data_joined`): a part of the declarations, in their
order, none of them twice, each with its own values and with the display fields of the
last record with its id (`Monitor.Displays`).

A declaration is left out exactly when it is hidden and no block in scope has its id in a
slot. A call that passes the variable on as an argument does not keep it
(`Project.passed_data_is_dropped`).
-/

namespace ScratchLegacy

/-! ## Display fields -/

namespace Monitor

/-- The id that a monitor record is for. -/
def recordId? (record : Json) : Option String := (record.get? "id").bind Json.asText?

/-- **The last record with an id**: no record behind it has the same id. -/
def IsLast (records : List Json) (id : String) (record : Json) : Prop :=
  ∃ before after, records = before ++ record :: after ∧ recordId? record = some id
    ∧ ∀ r ∈ after, recordId? r ≠ some id

/-- **What the monitor records say about a field of an id**: the part of the last record
with the id, where that has one of the right type, and the default otherwise. -/
inductive Displays {α : Type} (records : List Json) (id key : String) (read : Json → Option α)
    (default : α) : α → Prop
  | stored {record part : Json} {value : α} (last : IsLast records id record)
      (part_eq : record.get? key = some part) (reads : read part = some value) :
      Displays records id key read default value
  | default (lacks : ∀ record part, IsLast records id record → record.get? key = some part →
      read part = none) : Displays records id key read default default

/-- The extent that a part gives to a list: a number, where zero is no extent. -/
def extent (part : Json) : Option (Option Float) :=
  part.asFloat?.map (fun x => if x != 0 then some x else none)

variable {records : List Json} {id key : String}

/-- The record that is looked up is the last one with the id. -/
theorem record?_eq_some_iff {record : Json} :
    record? records id = some record ↔ IsLast records id record := by
  rw [record?, List.getLast?_eq_some_iff]
  constructor
  · rintro ⟨others, h⟩
    obtain ⟨first, rest, rfl, -, hrest⟩ := List.filter_eq_append_iff.mp h
    obtain ⟨before, after, rfl, -, hid, hafter⟩ := List.filter_eq_cons_iff.mp hrest
    refine ⟨first ++ before, after, (List.append_assoc _ _ _).symm, of_decide_eq_true hid, ?_⟩
    exact fun r hr heq => List.filter_eq_nil_iff.mp hafter r hr (decide_eq_true heq)
  · rintro ⟨before, after, rfl, hid, hafter⟩
    refine ⟨_, List.filter_append .. |>.trans (congrArg _ ?_)⟩
    rw [List.filter_cons_of_pos (by exact decide_eq_true hid), List.filter_eq_nil_iff.mpr]
    exact fun r hr heq => hafter r hr (of_decide_eq_true heq)

/-- **What the records say about a field is looked up** in the record of the id. -/
theorem displays_iff {α : Type} {read : Json → Option α} {default value : α} :
    Displays records id key read default value ↔
      value = ((record? records id).bind fun r => (r.get? key).bind read).getD default := by
  constructor
  · rintro (⟨hlast, hpart, hread⟩ | hlacks)
    · rw [record?_eq_some_iff.mpr hlast, Option.bind_some, hpart, Option.bind_some, hread,
        Option.getD_some]
    · have hnone : ((record? records id).bind fun r => (r.get? key).bind read) = none := by
        rw [Option.bind_eq_none_iff]
        intro r hr
        rw [Option.bind_eq_none_iff]
        exact fun part => hlacks r part (record?_eq_some_iff.mp hr)
      rw [hnone, Option.getD_none]
  · rintro rfl
    cases hfound : (record? records id).bind fun r => (r.get? key).bind read with
    | none =>
      refine .default (fun r part hlast hpart => ?_)
      rw [record?_eq_some_iff.mpr hlast, Option.bind_some, hpart, Option.bind_some] at hfound
      exact hfound
    | some value =>
      obtain ⟨r, hr, h⟩ := Option.bind_eq_some_iff.mp hfound
      obtain ⟨part, hpart, hread⟩ := Option.bind_eq_some_iff.mp h
      exact .stored (record?_eq_some_iff.mp hr) hpart hread

/-- **A field of a monitor is what the records say about it**, if it is read from a part of
a record and has the default where that cannot be read. -/
theorem displays_find {α : Type} {read : Json → Option α} {default : α} (field : Monitor → α)
    (hrecord : ∀ r, field (ofJson r) = ((r.get? key).bind read).getD default)
    (hdefault : field {} = default) :
    Displays records id key read default (field (find records id)) := by
  rw [displays_iff, find]
  cases record? records id with
  | none => exact hdefault
  | some r => exact hrecord r

/-- The extent of a list is read from a part of its record. -/
theorem extent?_eq (v : Json) : extent? v key = ((v.get? key).bind extent).getD none := by
  unfold extent? extent
  cases v.get? key with
  | none => rfl
  | some part =>
    rw [Option.bind_some, Option.bind_some]
    cases part.asFloat? with
    | none => rfl
    | some x => exact Option.filter_some

end Monitor

/-! ## Declarations and records -/

open Monitor (Displays)

/-- **The declarations under a key of a target that are arrays**, in their order, with
their parts. -/
def arrayDeclarations (target : Json) (key : String) : List (String × List Json) :=
  (Json.entries (target.get? key)).filterMap (fun e => e.2.asArray?.map (fun parts => (e.1, parts)))

/-- **A variable joins its declaration and its monitor**: it has the name, the value and
the cloud flag of the declaration, and is shown as the records say. -/
structure Variable.Joins (records : List Json) (declaration : String × List Json) (v : Variable) :
    Prop where
  id : v.id = declaration.1
  name : v.name = Json.scalarText? declaration.2[0]?
  value : v.value = (declaration.2[1]?.map Scalar.ofJson).getD (.number 0)
  cloud : v.cloud = (declaration.2[2]?.bind Json.asBool?).getD false
  visible : Displays records declaration.1 "visible" Json.asBool? false v.visible
  mode : Displays records declaration.1 "mode" (fun part => part.asText?.map MonitorMode.ofName)
    .normal v.mode
  x : Displays records declaration.1 "x" Json.asFloat? 0 v.x
  y : Displays records declaration.1 "y" Json.asFloat? 0 v.y
  sliderMin : Displays records declaration.1 "sliderMin" Json.asFloat? 0 v.sliderMin
  sliderMax : Displays records declaration.1 "sliderMax" Json.asFloat? 100 v.sliderMax
  isDiscrete : Displays records declaration.1 "isDiscrete" Json.asBool? true v.isDiscrete

/-- **A list joins its declaration and its monitor**: it has the name and the items of the
declaration, and is shown as the records say. -/
structure ItemList.Joins (records : List Json) (declaration : String × List Json) (l : ItemList) :
    Prop where
  id : l.id = declaration.1
  name : l.name = Json.scalarText? declaration.2[0]?
  items : l.items = (Json.items declaration.2[1]?).map Scalar.ofJson
  visible : Displays records declaration.1 "visible" Json.asBool? false l.visible
  x : Displays records declaration.1 "x" Json.asFloat? 0 l.x
  y : Displays records declaration.1 "y" Json.asFloat? 0 l.y
  width : Displays records declaration.1 "width" Monitor.extent none l.width
  height : Displays records declaration.1 "height" Monitor.extent none l.height

/-- Each part of a sequence that is not skipped gives a member of the result. -/
theorem forall₂_filterMap {α β γ : Type} {r : β → γ → Prop} {f : α → Option β} {g : α → Option γ}
    (h : ∀ a, Option.Rel r (f a) (g a)) (as : List α) :
    List.Forall₂ r (as.filterMap f) (as.filterMap g) := by
  induction as with
  | nil => exact .nil
  | cons a as ih =>
    have ha := h a
    rw [List.filterMap_cons, List.filterMap_cons]
    generalize f a = b, g a = c at ha
    cases ha with
    | some hbc => exact .cons hbc ih
    | none => exact ih

section Joins

variable (records : List Json) (target : Json)

/-- The variables that are declared join declarations and monitors, one by one. -/
theorem Variable.forall₂_joins :
    List.Forall₂ (Variable.Joins records) (arrayDeclarations target "variables")
      (Variable.ofDeclarations records (Json.entries (target.get? "variables"))) := by
  refine forall₂_filterMap (fun e => ?_) _
  obtain ⟨id, declaration⟩ := e
  dsimp only
  cases declaration.asArray? with
  | none => exact .none
  | some parts =>
    exact .some
      { id := rfl
        name := congrArg Json.scalarText? List.head?_eq_getElem?
        value := rfl
        cloud := rfl
        visible := Monitor.displays_find Monitor.visible (fun _ => rfl) rfl
        mode := Monitor.displays_find Monitor.mode (fun r => by
          show MonitorMode.ofName _ = _
          cases r.get? "mode" with
          | none => rfl
          | some part => cases part <;> rfl) rfl
        x := Monitor.displays_find Monitor.x (fun _ => rfl) rfl
        y := Monitor.displays_find Monitor.y (fun _ => rfl) rfl
        sliderMin := Monitor.displays_find Monitor.sliderMin (fun _ => rfl) rfl
        sliderMax := Monitor.displays_find Monitor.sliderMax (fun _ => rfl) rfl
        isDiscrete := Monitor.displays_find Monitor.isDiscrete (fun _ => rfl) rfl }

/-- The lists that are declared join declarations and monitors, one by one. -/
theorem ItemList.forall₂_joins :
    List.Forall₂ (ItemList.Joins records) (arrayDeclarations target "lists")
      (ItemList.ofDeclarations records (Json.entries (target.get? "lists"))) := by
  refine forall₂_filterMap (fun e => ?_) _
  obtain ⟨id, declaration⟩ := e
  dsimp only
  cases declaration.asArray? with
  | none => exact .none
  | some parts =>
    exact .some
      { id := rfl
        name := congrArg Json.scalarText? List.head?_eq_getElem?
        items := rfl
        visible := Monitor.displays_find Monitor.visible (fun _ => rfl) rfl
        x := Monitor.displays_find Monitor.x (fun _ => rfl) rfl
        y := Monitor.displays_find Monitor.y (fun _ => rfl) rfl
        width := Monitor.displays_find Monitor.width Monitor.extent?_eq rfl
        height := Monitor.displays_find Monitor.height Monitor.extent?_eq rfl }

/-- The array declarations have distinct ids when the declarations have. -/
theorem nodup_arrayDeclarations {key : String} (h : target.DistinctKeys) :
    ((arrayDeclarations target key).map Prod.fst).Nodup := by
  have hsublist : ((arrayDeclarations target key).map Prod.fst).Sublist
      ((Json.entries (target.get? key)).map Prod.fst) := by
    rw [arrayDeclarations]
    induction Json.entries (target.get? key) with
    | nil => exact .slnil
    | cons e entries ih =>
      rw [List.filterMap_cons, List.map_cons]
      cases e.2.asArray? with
      | none => exact ih.cons _
      | some parts => exact ih.cons_cons _
  exact h.nodup_entries.sublist hsublist

end Joins

/-! ## What is kept -/

/-- **Data that joins declarations and monitors**: there are declarations, in their order
and none of them twice, with which the data agrees one by one, and those that are left out
are hidden and not used. -/
structure JoinedData {α : Type} (records : List Json) (joins : String × List Json → α → Prop)
    (used : String → Prop) (declared kept : List (String × List Json)) (data : List α) : Prop where
  sublist : kept.Sublist declared
  nodup : (kept.map Prod.fst).Nodup
  joined : List.Forall₂ joins kept data
  left_out : ∀ d ∈ declared, d ∉ kept ↔
    Displays records d.1 "visible" Json.asBool? false false ∧ ¬ used d.1

/-- **Dropping what is hidden and not used** leaves data that joins declarations and
monitors. -/
theorem JoinedData.of_filter {α : Type} {records : List Json}
    {joins : String × List Json → α → Prop} {used : String → Prop} {ids : List String}
    {declared : List (String × List Json)} {data : List α} {idOf : α → String}
    {visibleOf : α → Bool}
    (hid : ∀ d a, joins d a → idOf a = d.1)
    (hvisible : ∀ d a, joins d a →
      Displays records d.1 "visible" Json.asBool? false (visibleOf a))
    (hused : ∀ id, id ∈ ids ↔ used id) (hnodup : (declared.map Prod.fst).Nodup)
    (hjoined : List.Forall₂ joins declared data) :
    ∃ kept, JoinedData records joins used declared kept
      (data.filter (fun a => visibleOf a || ids.contains (idOf a))) := by
  -- whether a declaration is kept, read from the declaration alone
  let shown (d : String × List Json) : Bool :=
    ((Monitor.record? records d.1).bind fun r => (r.get? "visible").bind Json.asBool?).getD false
  refine ⟨declared.filter (fun d => shown d || ids.contains d.1), List.filter_sublist,
    hnodup.sublist (List.filter_sublist.map _), forall₂_filter ?_ hjoined, fun d hd => ?_⟩
  · intro d a hda
    rw [hid d a hda, Monitor.displays_iff.mp (hvisible d a hda)]
  · rw [Monitor.displays_iff, List.mem_filter, ← hused]
    show ¬ (d ∈ declared ∧ (shown d || ids.contains d.1) = true) ↔ false = shown d ∧ d.1 ∉ ids
    cases shown d <;> simp [hd]

namespace Target

variable {fetch : Fetcher} {arrange : Arrangement} {records : List Json} {target : Json}
  {t : Target}

/-- The data of a target is declared in it. -/
theorem data_of_ofJson (h : ofJson fetch arrange records target = .ok t) :
    t.vars = Variable.ofDeclarations records (Json.entries (target.get? "variables"))
      ∧ t.lists = ItemList.ofDeclarations records (Json.entries (target.get? "lists")) := by
  unfold ofJson at h
  split at h
  · cases h
  · split at h
    · cases h
    · split at h
      · cases h
      · cases h
        exact ⟨rfl, rfl⟩

/-- **The data of a target joins declarations and monitors**: its variables those of the
declarations of variables, and its lists those of the declarations of lists. -/
structure Joined (records : List Json) (used : String → Prop) (target : Json) (t : Target) :
    Prop where
  vars : ∃ kept, JoinedData records (Variable.Joins records) used
    (arrayDeclarations target "variables") kept t.vars
  lists : ∃ kept, JoinedData records (ItemList.Joins records) used
    (arrayDeclarations target "lists") kept t.lists

/-- **What is not dropped joins declarations and monitors.** -/
theorem joined_retain {used : String → Prop} {ids : List String} (hkeys : target.DistinctKeys)
    (h : ofJson fetch arrange records target = .ok t) (hused : ∀ id, id ∈ ids ↔ used id) :
    Joined records used target (t.retain ids) := by
  obtain ⟨hvars, hlists⟩ := data_of_ofJson h
  constructor
  · exact JoinedData.of_filter (fun _ _ hjoins => hjoins.id) (fun _ _ hjoins => hjoins.visible)
      hused (nodup_arrayDeclarations target hkeys) (hvars ▸ Variable.forall₂_joins records target)
  · exact JoinedData.of_filter (fun _ _ hjoins => hjoins.id) (fun _ _ hjoins => hjoins.visible)
      hused (nodup_arrayDeclarations target hkeys) (hlists ▸ ItemList.forall₂_joins records target)

end Target

namespace Project

/-- Pruning leaves the references in scope alone. -/
theorem flatMap_references_scope_prune (p : Project) (i : Nat) :
    (p.prune.scope i).flatMap Target.references = (p.scope i).flatMap Target.references := by
  cases i with
  | zero => exact references_prune p
  | succ i =>
    show ((p.sprites.map fun s => s.retain s.references)[i]?.toList).flatMap Target.references
      = (p.sprites[i]?.toList).flatMap Target.references
    rw [List.getElem?_map]
    cases p.sprites[i]? <;> rfl

/-- The targets in the order of the project are targets of the document. -/
theorem mem_of_mem_stageFirst {α : Type} {isStage : α → Bool} {values : List α} {v : α}
    (h : v ∈ stageFirst isStage values) : v ∈ values := by
  rcases List.mem_append.mp h with hstage | hsprite
  · exact List.mem_of_find?_eq_some (Option.mem_toList.mp hstage)
  · exact List.mem_of_mem_filter hsprite

/-- The targets of an unpruned project are read from those of its document, the stage
first. -/
theorem forall₂_targets_of_ofDocumentUnpruned {fetch : Fetcher} {arrange : Arrangement}
    {document : Json} {p : Project} (h : ofDocumentUnpruned fetch arrange document = .ok p) :
    List.Forall₂ (fun target t =>
        Target.ofJson fetch arrange (Json.items (document.get? "monitors")) target = .ok t)
      (stageFirst isStage (Json.items (document.get? "targets"))) p.targets := by
  obtain ⟨targets, stage, htargets, hstage, hfirst, hrest, -⟩ :=
    ofDocumentUnpruned_eq_ok_iff.mp h
  have hitems : Json.items (document.get? "targets") = targets := by
    rw [Json.items, htargets, Option.getD_some]
  rw [hitems, stageFirst, hstage]
  exact .cons hfirst hrest

/-- Pruning leaves the number of targets alone. -/
theorem length_targets_prune (p : Project) : p.prune.targets.length = p.targets.length :=
  congrArg (· + 1) (List.length_map _)

/-- **Declarations and monitors are joined without loss, duplication or mix-up.** The
targets of a project come from those of its document, the stage first. The variables of
each of them are, one by one and in order, array declarations of the target that it comes
from, each with its own name, value and cloud flag and with the display fields that the
last record with its id has, or defaults. No id occurs twice. The array declarations that
are left out are those that are hidden and whose id no block in scope has in a slot. All
this holds of the lists as well. -/
theorem declared_data_joined {fetch : Fetcher} {document : Json} {p : Project}
    (hkeys : document.DistinctKeys) (h : ofDocument fetch document = .ok p) {i : Nat} {t : Target}
    (ht : p.targets[i]? = some t) :
    ∃ target, (stageFirst isStage (Json.items (document.get? "targets")))[i]? = some target
      ∧ t.Joined (Json.items (document.get? "monitors")) (fun id => ∃ u ∈ p.scope i, u.Names id)
          target := by
  obtain ⟨unpruned, hdecode, rfl⟩ := map_eq_ok_iff.mp h
  have htargets := forall₂_targets_of_ofDocumentUnpruned hdecode
  obtain ⟨hi, -⟩ := List.getElem?_eq_some_iff.mp ht
  rw [length_targets_prune] at hi
  have hi' := htargets.length_eq ▸ hi
  refine ⟨_, List.getElem?_eq_getElem hi', ?_⟩
  -- the target is what its own references and those in scope retain
  have hpruned := getElem?_targets_prune (List.getElem?_eq_getElem hi)
  rw [ht, Option.some_inj] at hpruned
  have htarget : (stageFirst isStage (Json.items (document.get? "targets")))[i].DistinctKeys := by
    exact hkeys.of_mem_items (mem_of_mem_stageFirst (List.getElem_mem hi'))
  rw [hpruned]
  refine Target.joined_retain htarget (htargets.get hi' hi) (fun id => ?_)
  rw [← flatMap_references_scope_prune, List.mem_flatMap]
  simp only [Target.mem_references_iff]

/-- A document whose stage declares something that is no array, a variable with two monitor
records, and a hidden list without one. -/
def scoreDocument : Json :=
  .object
    [("targets", .array [.object [("isStage", .bool true), ("name", .text "Stage"),
      ("variables", .object [("odd", .text "score"),
        ("s", .array [.text "score", Json.ofNat 7])]),
      ("lists", .object [("l", .array [.text "names", .array [.text "Ann"]])])]]),
     ("monitors", .array [
      .object [("id", .text "s"), ("visible", .bool false), ("x", Json.ofNat 3)],
      .object [("id", .text "s"), ("visible", .bool true), ("mode", .text "large")]])]

/-- The score is kept as its last record shows it, and the list is dropped. -/
theorem scoreDocument_joined :
    ∃ p, ofDocument (fun _ => .ok ByteArray.empty) scoreDocument = .ok p
      ∧ p.stage.vars.map (fun v => (v.id, v.name, v.mode)) = [("s", "score", .large)]
      ∧ p.stage.lists = []
      ∧ ∃ target, (stageFirst isStage (Json.items (scoreDocument.get? "targets")))[0]? = some target
        ∧ p.stage.Joined (Json.items (scoreDocument.get? "monitors"))
            (fun id => ∃ u ∈ p.scope 0, u.Names id) target := by
  have hkeys : scoreDocument.DistinctKeys := by simp [scoreDocument, Json.ofNat]
  obtain ⟨p, hp, hvars, hlists⟩ : ∃ p,
      ofDocument (fun _ => .ok ByteArray.empty) scoreDocument = .ok p
        ∧ p.stage.vars.map (fun v => (v.id, v.name, v.mode)) = [("s", "score", .large)]
        ∧ p.stage.lists = [] := ⟨_, rfl, rfl, rfl⟩
  exact ⟨p, hp, hvars, hlists, declared_data_joined hkeys hp rfl⟩

/-- A stage with a hidden variable, and a call that passes it on as its argument. -/
def passedDocument : Json :=
  .object [("targets", .array [.object [("isStage", .bool true), ("name", .text "Stage"),
    ("variables", .object [("v", .array [.text "score", Json.ofNat 0])]),
    ("blocks", .object [
      ("c", .object [("opcode", .text "procedures_call"), ("topLevel", .bool true),
        ("inputs", .object [("x", .array [Json.ofNat 1, .text "m"])]),
        ("mutation", .object [("proccode", .text "jump %s"),
          ("argumentids", .array [.text "VARIABLE"])])]),
      ("m", .object [("opcode", .text "data_variable"), ("shadow", .bool true),
        ("fields", .object [("VARIABLE", .array [.text "score", .text "v"])])])])]])]

/-- **A variable that is passed on is dropped**: it is declared and a block of the stage
refers to it, in an argument of a call, and the project does not have it. -/
theorem passed_data_is_dropped :
    ∃ p, ofDocument (fun _ => .ok ByteArray.empty) passedDocument = .ok p
      ∧ (∃ target parts, (stageFirst isStage (Json.items (passedDocument.get? "targets")))[0]?
          = some target ∧ ("v", parts) ∈ arrayDeclarations target "variables")
      ∧ p.stage.Passes ⟨"v", "score"⟩ ∧ p.stage.vars = [] := by
  have hpasses : ∀ {b : Block} {script : Script} {t : Target}, script ∈ t.scripts →
      b ∈ script.blocks →
        ("INPUTS", Input.arguments [.variableRef ⟨"v", "score"⟩]) ∈ b.inputs →
          t.Passes ⟨"v", "score"⟩ := fun hscript hb hinput =>
    ⟨_, hscript, _, hb, _, .self, _, _, hinput, .arguments List.mem_cons_self (.variableRef _)⟩
  refine ⟨_, rfl, ⟨_, _, rfl, List.mem_cons_self⟩, ?_, rfl⟩
  exact hpasses List.mem_cons_self List.mem_cons_self List.mem_cons_self

end Project

end ScratchLegacy
