import ScratchLegacy.Proofs.BlockRenaming
import ScratchLegacy.Proofs.DocumentScripts
import ScratchLegacy.Proofs.IndexNames

/-!
# Renaming the ids of blocks in a document

In a document the ids of blocks are the keys of the block tables, the texts under
`next`, and the texts in the slots. `Json.renameDocument f` changes them all, those of
each target in their own way, and leaves the rest of the document alone: the table of a
target is renamed (`BlockTable.ofTarget_rename`), and nothing else of it is different.

`Project.block_ids_do_not_matter` is the main statement. When different ids of a target
stay different, there is a project for the renamed document when there is one for the
document, and the conversion of both gives the same document and assets but for the
names of index variables. How these change is said twice: exactly, by giving the item
numbers of the project other ids (`Project.renameItemNumbers`), and as a comparison of
the two legacy documents (`Legacy.Document.Renamed`).
-/

namespace ScratchLegacy

/-! ## Other ids in a document -/

namespace Json

/-- **A value with a part of it changed**, the one under a key. -/
def mapEntry (key : String) (g : Json → Json) : Json → Json
  | object entries => object (entries.map (fun e => (e.1, if e.1 = key then g e.2 else e.2)))
  | v => v

/-- A text that is an id under its new id. -/
def renameText (f : String → String) : Json → Json
  | text id => text (f id)
  | v => v

/-- A slot with other ids, which stand behind the tag. -/
def renameSlot (f : String → String) : Json → Json
  | array (tag :: parts) => array (tag :: parts.map (renameText f))
  | v => v

/-- Slots with other ids. -/
def renameSlots (f : String → String) : Json → Json
  | object entries => object (entries.map (fun e => (e.1, renameSlot f e.2)))
  | v => v

/-- **A record with other ids**, of the next block and in its slots. -/
def renameRecord (f : String → String) (v : Json) : Json :=
  mapEntry "inputs" (renameSlots f) (mapEntry "next" (renameText f) v)

/-- A block table with other ids. -/
def renameRecords (f : String → String) : Json → Json
  | object entries => object (entries.map (fun e => (f e.1, renameRecord f e.2)))
  | v => v

/-- **A target with other ids of blocks.** -/
def renameTarget (f : String → String) : Json → Json := mapEntry "blocks" (renameRecords f)

/-- Targets with other ids of blocks, where `f` gives the ids for each place. -/
def renameTargets (f : Nat → String → String) : Json → Json
  | array targets => array (targets.zipIdx.map (fun e => renameTarget (f e.2) e.1))
  | v => v

/-- **A document with other ids of blocks.** -/
def renameDocument (f : Nat → String → String) : Json → Json := mapEntry "targets" (renameTargets f)

/-- Reading from a value with a part of it changed. -/
theorem get?_mapEntry (key : String) (g : Json → Json) (v : Json) (k : String) :
    (mapEntry key g v).get? k = if k = key then (v.get? k).map g else v.get? k := by
  cases v with
  | object entries =>
    show Entries.find? k (entries.map _) = if k = key then (Entries.find? k entries).map g
      else Entries.find? k entries
    induction entries with
    | nil => split <;> rfl
    | cons e rest ih =>
      rw [List.map_cons, Entries.find?, Entries.find?, ih]
      by_cases hk : e.1 = k
      · subst hk
        by_cases hkey : e.1 = key <;> simp [hkey]
      · simp only [if_neg hk]
  | _ => split <;> rfl

/-- A value with a part of it changed has the other parts. -/
theorem agreesBut_mapEntry (key : String) (g : Json → Json) (v : Json) :
    AgreesBut [key] v (mapEntry key g v) := by
  intro k hk
  rw [get?_mapEntry, if_neg (fun heq => hk (List.mem_singleton.mpr heq))]

/-- **A record with other ids is renamed.** -/
theorem record_rename (f : String → String) (v : Json) :
    BlockRecord.ofJson (renameRecord f v) = (BlockRecord.ofJson v).rename f := by
  have hkey : ∀ key, key ≠ "next" → key ≠ "inputs" → (renameRecord f v).get? key = v.get? key := by
    intro key hnext hinputs
    rw [renameRecord, get?_mapEntry, if_neg hinputs, get?_mapEntry, if_neg hnext]
  have hnext : ((renameRecord f v).get? "next").bind asText?
      = ((v.get? "next").bind asText?).map f := by
    rw [renameRecord, get?_mapEntry, if_neg (by decide), get?_mapEntry, if_pos rfl]
    cases v.get? "next" with
    | none => rfl
    | some next => cases next <;> rfl
  have hslot : ∀ slot, SlotValue.ofJson? (renameSlot f slot)
      = (SlotValue.ofJson? slot).map (SlotValue.rename f) := by
    intro slot
    cases slot with
    | array parts =>
      match parts with
      | [] | [_] => rfl
      | _ :: part :: _ => cases part <;> rfl
    | _ => rfl
  have hslots : (entries ((renameRecord f v).get? "inputs")).filterMap
        (fun e => (SlotValue.ofJson? e.2).map (fun s => (e.1, s)))
      = ((entries (v.get? "inputs")).filterMap
          (fun e => (SlotValue.ofJson? e.2).map (fun s => (e.1, s)))).map
            (fun e => (e.1, e.2.rename f)) := by
    rw [renameRecord, get?_mapEntry, if_pos rfl, get?_mapEntry, if_neg (by decide)]
    cases v.get? "inputs" with
    | none => rfl
    | some inputs =>
      cases inputs with
      | object entries =>
        show (entries.map _).filterMap _ = (entries.filterMap _).map _
        rw [List.filterMap_map, List.map_filterMap]
        refine List.filterMap_congr (fun e _ => ?_)
        rw [Function.comp_apply, hslot]
        cases SlotValue.ofJson? e.2 <;> rfl
      | _ => rfl
  simp (disch := decide) only [BlockRecord.ofJson, BlockRecord.rename, flag, floatOr, hkey, hnext,
    hslots]

end Json

/-- **The table of a target with other ids is renamed.** -/
theorem BlockTable.ofTarget_rename (f : String → String) (v : Json) :
    ofTarget (Json.renameTarget f v) = (ofTarget v).rename f := by
  have hblocks : (Json.renameTarget f v).get? "blocks"
      = (v.get? "blocks").map (Json.renameRecords f) := by
    rw [Json.renameTarget, Json.get?_mapEntry, if_pos rfl]
  rw [ofTarget, ofTarget, hblocks]
  cases v.get? "blocks" with
  | none => rfl
  | some blocks =>
    cases blocks with
    | object entries =>
      show (entries.map _).map _ = (entries.map _).map _
      rw [List.map_map, List.map_map]
      exact List.map_congr_left (fun e _ => Prod.ext rfl (Json.record_rename f e.2))
    | _ => rfl

/-! ## Projects of renamed documents -/

/-- **A project whose item numbers have other ids**, where there is a renaming for each
target, the stage first. -/
def Project.renameItemNumbers (fs : List (String → String)) (p : Project) : Project :=
  { p with
    stage := p.stage.renameItemNumbers (fs.headD id)
    sprites := List.zipWith Target.renameItemNumbers fs.tail p.sprites }

/-- **The renamings of the targets of a document** in the order of the project. -/
def Json.renamings (f : Nat → String → String) (document : Json) : List (String → String) :=
  (stageFirst (fun e => isStage e.1) (items (document.get? "targets")).zipIdx).map (fun e => f e.2)

/-- **Documents that are the same but for names of index variables**, where there is a
renaming for each target, the stage first. -/
structure Legacy.Document.Renamed (fs : List (String → String)) (d d' : Document) : Prop where
  bare : d'.bare = d.bare
  scripts : List.Forall₂ (fun f ss => List.Forall₂ (Script.Related (Token.Renamed f)) ss.1 ss.2) fs
    (d.scripts.zip d'.scripts)

namespace Project

open Json

section Renamed

variable {fetch : Fetcher} {arrange : Arrangement} {document : Json} {f : Nat → String → String}
  (hf : ∀ e ∈ (items (document.get? "targets")).zipIdx,
    Set.InjOn (f e.2) {id | id ∈ (BlockTable.ofTarget e.1).ids})

/-- The targets of a renamed document. -/
theorem targets_renameDocument (f : Nat → String → String) (document : Json) :
    ((renameDocument f document).get? "targets").bind asArray?
      = ((document.get? "targets").bind asArray?).map
          (fun targets => targets.zipIdx.map (fun e => renameTarget (f e.2) e.1)) := by
  rw [renameDocument, get?_mapEntry, if_pos rfl]
  cases document.get? "targets" with
  | none => rfl
  | some targets => cases targets <;> rfl

include hf

/-- **There is a project for a renamed document** when there is one for the document, and
its scripts are the same but for the ids of blocks. -/
theorem exists_of_renamed {p : Project} (hp : ofDocumentUnpruned fetch arrange document = .ok p) :
    ∃ p', ofDocumentUnpruned fetch arrange (renameDocument f document) = .ok p'
      ∧ Beside (fun e : Json × Nat => List.Forall₂ (Script.Renames (f e.2)))
          (stageFirst (fun e => isStage e.1) (items (document.get? "targets")).zipIdx) p p' := by
  have htargets := targets_renameDocument f document
  cases hdocument : (document.get? "targets").bind asArray? with
  | none => exact absurd hp (ofDocumentUnpruned_of_none hdocument p)
  | some targets =>
    rw [hdocument] at htargets
    have hitems : items (document.get? "targets") = targets := by rw [items, hdocument]; rfl
    rw [hitems] at hf ⊢
    have hsrc : (document.get? "targets").bind asArray? = some (targets.zipIdx.map Prod.fst) := by
      rw [hdocument, List.zipIdx_map_fst]
    refine exists_of_tables (agreesBut_mapEntry _ _ _) hsrc htargets
      (fun e _ => agreesBut_mapEntry _ _ _) (fun e he scripts hscripts => ?_) hp
    rw [BlockTable.ofTarget_rename]
    exact BlockTable.exists_renames_of_injOn (hf e he) hscripts

/-- **There is a project for a document** when there is one for the renamed document. -/
theorem exists_of_renamed' {p' : Project}
    (hp' : ofDocumentUnpruned fetch arrange (renameDocument f document) = .ok p') :
    ∃ p, ofDocumentUnpruned fetch arrange document = .ok p := by
  have htargets := targets_renameDocument f document
  cases hdocument : (document.get? "targets").bind asArray? with
  | none =>
    rw [hdocument] at htargets
    exact absurd hp' (ofDocumentUnpruned_of_none htargets p')
  | some targets =>
    rw [hdocument] at htargets
    have hitems : items (document.get? "targets") = targets := by rw [items, hdocument]; rfl
    rw [hitems] at hf
    have hdst : (document.get? "targets").bind asArray? = some (targets.zipIdx.map Prod.fst) := by
      rw [hdocument, List.zipIdx_map_fst]
    obtain ⟨p, hp, -⟩ := exists_of_tables (R := fun _ _ _ => True)
      (agreesBut_mapEntry _ _ _).symm htargets hdst (fun e _ => (agreesBut_mapEntry _ _ _).symm)
      (fun e he scripts hscripts => by
        rw [BlockTable.ofTarget_rename] at hscripts
        obtain ⟨scripts', hscripts'⟩ := BlockTable.exists_scripts_of_injOn (hf e he) hscripts
        exact ⟨scripts', hscripts', trivial⟩) hp'
    exact ⟨p, hp⟩

end Renamed

/-! ## Conversion -/

/-- Targets whose scripts are the same but for the ids of blocks are translated as if
nothing but their item numbers had other ids. -/
theorem bare_and_emitScripts_of_beside {α : Type} {g : α → String → String} {values : List α}
    {ts ts' : List Target} (hlength : ts'.length = ts.length)
    (h : List.Forall₂ (fun a tt => Target.Beside (List.Forall₂ (Script.Renames (g a))) tt.1 tt.2)
      values (ts.zip ts')) :
    (List.zipWith Target.renameItemNumbers (values.map g) ts).map Target.bare = ts.map Target.bare
      ∧ ts'.map Legacy.emitScripts
        = (List.zipWith Target.renameItemNumbers (values.map g) ts).map Legacy.emitScripts := by
  induction ts generalizing values ts' with
  | nil =>
    cases List.length_eq_zero_iff.mp hlength
    rw [List.zipWith_nil_right]
    exact ⟨rfl, rfl⟩
  | cons t rest ih =>
    obtain ⟨t', rest', rfl⟩ := List.exists_cons_of_length_eq_add_one hlength
    obtain ⟨a, values, htarget, hrest, rfl⟩ := List.forall₂_cons_right_iff.mp h
    obtain ⟨hbare, hscripts⟩ := ih (Nat.succ.inj hlength) hrest
    rw [List.map_cons, List.zipWith_cons_cons, List.map_cons, List.map_cons, List.map_cons,
      List.map_cons, hbare, hscripts, Legacy.emitScripts_of_renames htarget.scripts]
    exact ⟨rfl, rfl⟩

section Encode

variable (options : Legacy.Options) {α : Type} {g : α → String → String} {values : List α}
  {p p' : Project}
  (h : Beside (fun a => List.Forall₂ (Script.Renames (g a))) values p p')

include h

/-- **Giving the item numbers other ids is enough** for the same legacy document and
assets. -/
theorem Beside.encode_eq :
    Legacy.encode options p' = Legacy.encode options (p.renameItemNumbers (values.map g)) := by
  obtain ⟨a, rest, hstage, hsprites, rfl⟩ := List.forall₂_cons_right_iff.mp h.targets
  obtain ⟨hbare, hscripts⟩ := bare_and_emitScripts_of_beside h.length hsprites
  have hsame : (p.renameItemNumbers ((a :: rest).map g)).bare = p.bare := by
    show { p with stage := _, sprites := _ } = { p with stage := _, sprites := _ }
    rw [← hbare]
    rfl
  obtain ⟨hrest, htable⟩ := Legacy.bare_encode_of_bare_eq options (h.bare_eq.trans hsame.symm)
  refine Prod.ext (Legacy.Document.eq_of_bare hrest ?_) htable
  rw [Legacy.scripts_encode, Legacy.scripts_encode]
  exact congrArg₂ List.cons (Legacy.emitScripts_of_renames hstage.scripts) hscripts

/-- **Nothing but names of index variables is different** in the legacy document. -/
theorem Beside.renamed_encode :
    Legacy.Document.Renamed (values.map g) (Legacy.encode options p).1
      (Legacy.encode options p').1 := by
  refine ⟨(Legacy.bare_encode_of_bare_eq options h.bare_eq).1, ?_⟩
  rw [Legacy.scripts_encode, Legacy.scripts_encode, List.zip_map, List.forall₂_map_left_iff,
    List.forall₂_map_right_iff]
  refine h.targets.imp (fun a tt htt => ?_)
  show List.Forall₂ _ (Legacy.emitScripts tt.1) (Legacy.emitScripts tt.2)
  rw [Legacy.emitScripts_of_renames htt.scripts]
  exact Legacy.renamed_emitScripts (g a) tt.1

end Encode

/-- **The ids of blocks do not matter.** When the ids of blocks are renamed in a
document, each target's in a way that keeps different ids of its table different, then
there is a project for both documents or for neither. The legacy documents of the two
are the same but for the names of index variables, and their assets are the same. The
names that are different are those of item numbers: the legacy document of the
renamed document is the one that the project has when its item numbers, and
no other blocks, have their new ids. -/
theorem block_ids_do_not_matter (fetch : Fetcher) (options : Legacy.Options) {document : Json}
    {f : Nat → String → String}
    (hf : ∀ e ∈ (items (document.get? "targets")).zipIdx,
      Set.InjOn (f e.2) {id | id ∈ (BlockTable.ofTarget e.1).ids}) :
    ((∃ p, ofDocument fetch document = .ok p)
        ↔ ∃ p', ofDocument fetch (renameDocument f document) = .ok p')
      ∧ ∀ p p', ofDocument fetch document = .ok p →
          ofDocument fetch (renameDocument f document) = .ok p' →
        Legacy.encode options p'
            = Legacy.encode options (p.renameItemNumbers (renamings f document))
          ∧ (Legacy.encode options p').2 = (Legacy.encode options p).2
          ∧ Legacy.Document.Renamed (renamings f document) (Legacy.encode options p).1
              (Legacy.encode options p').1 := by
  constructor
  · constructor
    · rintro ⟨_, hdecode⟩
      obtain ⟨p, hp, -⟩ := map_eq_ok_iff.mp hdecode
      obtain ⟨p', hp', -⟩ := exists_of_renamed hf hp
      exact ⟨p'.prune, map_eq_ok_iff.mpr ⟨p', hp', rfl⟩⟩
    · rintro ⟨_, hdecode⟩
      obtain ⟨p', hp', -⟩ := map_eq_ok_iff.mp hdecode
      obtain ⟨p, hp⟩ := exists_of_renamed' hf hp'
      exact ⟨p.prune, map_eq_ok_iff.mpr ⟨p, hp, rfl⟩⟩
  · intro _ _ hdecode hdecode'
    obtain ⟨p, hp, rfl⟩ := map_eq_ok_iff.mp hdecode
    obtain ⟨p', hp', rfl⟩ := map_eq_ok_iff.mp hdecode'
    obtain ⟨p₁, hp₁, hbeside⟩ := exists_of_renamed hf hp
    cases hp'.symm.trans hp₁
    have hpruned := hbeside.prune (fun _ _ _ htt _ => by
      rw [Target.references_of_renames htt.scripts])
    exact ⟨hpruned.encode_eq options, (Legacy.bare_encode_of_bare_eq options hpruned.bare_eq).2,
      hpruned.renamed_encode options⟩

/-- A document whose stage says where somebody is in a list. -/
def whereabouts : Json :=
  .object [("targets", .array [.object [("isStage", .bool true), ("name", .text "Hall"),
    ("blocks", .object [
      ("s", .object [("opcode", .text "looks_say"), ("topLevel", .bool true),
        ("inputs", .object [("MESSAGE", .array [.ofNat 3, .text "i"])])]),
      ("i", .object [("opcode", .text "data_itemnumoflist"),
        ("inputs", .object [("ITEM", .array [.ofNat 1, .array [.ofNat 10, .text "Ann"]])]),
        ("fields", .object [("LIST", .array [.text "names", .text "l"])])])])]])]

/-- With a mark on every id the stage of the document reads another index variable. -/
theorem whereabouts_renamed :
    ∃ p p', ofDocument (fun _ => .ok ByteArray.empty) whereabouts = .ok p
      ∧ ofDocument (fun _ => .ok ByteArray.empty)
          (renameDocument (fun _ id => "new-" ++ id) whereabouts) = .ok p'
      ∧ Legacy.encode {} p' = Legacy.encode {} (p.renameItemNumbers [fun id => "new-" ++ id])
      ∧ Legacy.Document.Renamed [fun id => "new-" ++ id] (Legacy.encode {} p).1
          (Legacy.encode {} p').1 := by
  have hmark : Function.Injective (fun id : String => "new-" ++ id) :=
    fun _ _ h => (String.append_right_inj _).mp h
  have hf : ∀ e ∈ (items (whereabouts.get? "targets")).zipIdx,
      Set.InjOn (fun id : String => "new-" ++ id) {id | id ∈ (BlockTable.ofTarget e.1).ids} :=
    fun _ _ => hmark.injOn
  obtain ⟨hiff, hsame⟩ := block_ids_do_not_matter (fun _ => .ok ByteArray.empty) {}
    (f := fun _ id => "new-" ++ id) hf
  have hdecode : ∃ p, ofDocument (fun _ => .ok ByteArray.empty) whereabouts = .ok p := ⟨_, rfl⟩
  obtain ⟨p, hp⟩ := hdecode
  obtain ⟨p', hp'⟩ := hiff.mp ⟨p, hp⟩
  obtain ⟨hencode, -, hrenamed⟩ := hsame p p' hp hp'
  exact ⟨p, p', hp, hp', hencode, hrenamed⟩

end Project

end ScratchLegacy
