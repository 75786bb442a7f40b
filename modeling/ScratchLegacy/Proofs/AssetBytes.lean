import Mathlib
import ScratchLegacy.Bundle
import ScratchLegacy.Legacy.Package
import ScratchLegacy.Proofs.AssetFetching
import ScratchLegacy.Proofs.NumberedDocument

/-!
# Asset bytes from archive to archive

The bytes of a costume or a sound pass through five hands: the archive is read
into a bundle, the bundle answers the request of a description, the costume or
sound is made of the answer, the document of the legacy project gives it a
number, and the legacy archive stores it under this number. Each step keeps
the place of the description among those of its target, so `Carried` – what
one description and one entry of the legacy document have to do with each
other – holds place by place (`Legacy.pack_carries`).
-/

namespace ScratchLegacy

/-! ## Reading -/

/-- **The entries of an archive store bytes under a name.** -/
def Archive.Stores (entries : List Archive.Entry) (name : String) (bytes : ByteArray) : Prop :=
  (∃ e ∈ entries, e.name = name) ∧ ∀ e ∈ entries, e.name = name → e.content = .ok bytes

/-- **Files as an archive takes them**, one after the other: a name that it has
already is refused. -/
def Archive.take (written : List (String × ByteArray)) :
    List (String × ByteArray) → Except String (List (String × ByteArray))
  | [] => .ok written
  | file :: rest =>
    if file.1 ∈ written.map Prod.fst then .error file.1 else take (written ++ [file]) rest

/-- Files with names of their own are all taken. -/
theorem Archive.take_of_nodup {written files : List (String × ByteArray)}
    (h : ((written ++ files).map Prod.fst).Nodup) :
    Archive.take written files = .ok (written ++ files) := by
  induction files generalizing written with
  | nil => rw [take, List.append_nil]
  | cons file rest ih =>
    have hnew : file.1 ∉ written.map Prod.fst := by
      rw [List.map_append, List.nodup_append] at h
      exact fun hmem => h.2.2 _ hmem _ List.mem_cons_self rfl
    rw [List.append_cons] at h ⊢
    rw [take, if_neg hnew, ih h]

namespace Bundle

/-- The document of an archive is the value of the text that it stores as such. -/
theorem readDocument_of_find? {source : String} {entries : List Archive.Entry} {text : String}
    {document : Json}
    (hfind : entries.find? (fun e => e.name = documentName)
      = some ⟨documentName, .ok text.toUTF8⟩)
    (hread : Json.read? text = some document) : readDocument source entries = .ok document := by
  have htext : String.fromUTF8? text.toUTF8 = some text := dif_pos text.isValidUTF8
  unfold readDocument
  simp only [hfind, Option.map_some, htext, hread]

/-- An asset of a bundle was read from an entry of its name. -/
theorem exists_entry_of_mem_readAssets {source : String} {entries : List Archive.Entry}
    {assets : List (String × ByteArray)} (h : readAssets source entries = .ok assets)
    {name : String} {bytes : ByteArray} (hmem : (name, bytes) ∈ assets) :
    ∃ e ∈ entries, e.name = name ∧ e.content = .ok bytes := by
  induction entries generalizing assets with
  | nil =>
    cases h
    cases hmem
  | cons entry rest ih =>
    have hlater : ∀ {later}, readAssets source rest = .ok later → (name, bytes) ∈ later →
        ∃ e ∈ entry :: rest, e.name = name ∧ e.content = .ok bytes := by
      intro later hrest hlater
      obtain ⟨e, he, hentry⟩ := ih hrest hlater
      exact ⟨e, List.mem_cons_of_mem _ he, hentry⟩
    unfold readAssets at h
    split at h
    · cases h
    · split at h
      · cases h
      · exact hlater h hmem
    · next content hcontent =>
      obtain ⟨later, hrest, rfl⟩ := map_eq_ok_iff.mp h
      split at hmem
      · rcases List.mem_cons.mp hmem with heq | hmem
        · cases heq
          exact ⟨entry, List.mem_cons_self, rfl, hcontent⟩
        · exact hlater hrest hmem
      · exact hlater hrest hmem

/-- A bundle has the document and the assets of its archive. -/
theorem ofEntries_eq_ok_iff {source : String} {entries : List Archive.Entry} {b : Bundle} :
    ofEntries source entries = .ok b
      ↔ readDocument source entries = .ok b.document ∧ readAssets source entries = .ok b.assets := by
  unfold ofEntries
  constructor
  · intro h
    obtain ⟨document, hdocument, h⟩ := bind_eq_ok_iff.mp h
    obtain ⟨assets, hassets, h⟩ := bind_eq_ok_iff.mp h
    cases h
    exact ⟨hdocument, hassets⟩
  · rintro ⟨hdocument, hassets⟩
    exact bind_eq_ok_iff.mpr ⟨_, hdocument, bind_eq_ok_iff.mpr ⟨_, hassets, rfl⟩⟩

/-- **What a bundle answers is what its archive stores.** -/
theorem stores_of_fetcher {source : String} {entries : List Archive.Entry} {b : Bundle}
    (hnames : (entries.map Archive.Entry.name).Nodup) (hb : ofEntries source entries = .ok b)
    {r : AssetRequest} {bytes : ByteArray} (h : b.fetcher r = .ok bytes) :
    Archive.Stores entries r.fileName bytes := by
  have hasset : b.asset? r.fileName = some bytes := by
    unfold fetcher at h
    split at h
    · next found hfound =>
      cases h
      exact hfound
    · cases h
  obtain ⟨e, he, hname, hcontent⟩ :=
    exists_entry_of_mem_readAssets (ofEntries_eq_ok_iff.mp hb).2 (Entries.mem_of_find? hasset)
  refine ⟨⟨e, he, hname⟩, fun e' he' hname' => ?_⟩
  rw [List.inj_on_of_nodup_map hnames he' he (hname'.trans hname.symm), hcontent]

end Bundle

/-! ## Decoding -/

namespace Target

open Asset

/-- **The costumes and sounds of a target are made** from the bytes of the
requests of their descriptions, in order. -/
def AssetsMade (fetch : Fetcher) (target : Json) (t : Target) : Prop :=
  ∃ owner, List.Forall₂ (Made fetch owner .costume costume) (costumeSpecs target) t.costumes
    ∧ List.Forall₂ (Made fetch owner .sound sound) (soundSpecs target) t.sounds

/-- Dropping data changes nothing about the assets. -/
theorem AssetsMade.retain {fetch : Fetcher} {target : Json} {t : Target}
    (h : AssetsMade fetch target t) (used : List String) :
    AssetsMade fetch target (t.retain used) := h

/-- The assets of a target that is made are made. -/
theorem assetsMade_of_ofJson {fetch : Fetcher} {arrange : Arrangement} {monitors : List Json}
    {target : Json} {t : Target} (h : ofJson fetch arrange monitors target = .ok t) :
    AssetsMade fetch target t := by
  cases hname : (target.get? "name").bind Json.asText? with
  | none =>
    unfold ofJson at h
    rw [hname] at h
    cases h
  | some owner =>
    -- there is a target, so no description is incomplete and no fetch fails
    have hnames : ∀ spec ∈ costumeSpecs target ++ soundSpecs target, NamesFile spec := by
      by_contra hmissing
      push Not at hmissing
      obtain ⟨error, -, hfetch⟩ := fetchAll_of_incomplete hmissing
      cases (ofJson_of_fetchAll_error hname (hfetch Id fetch)).symm.trans h
    have hok : ∀ r, Requested owner (costumeSpecs target) (soundSpecs target) r →
        ∃ bytes, fetch r = .ok bytes := by
      intro r hr
      cases hanswer : fetch r with
      | ok bytes => exact ⟨bytes, rfl⟩
      | error reason =>
        obtain ⟨r', reason', -, -, hfetch⟩ := fetchAll_of_error hnames ⟨r, hr, reason, hanswer⟩
        cases (ofJson_of_fetchAll_error hname hfetch).symm.trans h
    obtain ⟨cs, ss, hfetch, hcostumes, hsounds⟩ := fetchAll_of_ok hnames hok
    obtain ⟨rfl, rfl⟩ := assets_of_ofJson hname hfetch h
    exact ⟨owner, hcostumes, hsounds⟩

end Target

/-- The targets of a document. -/
def targetsOf (document : Json) : List Json := Json.items (document.get? "targets")

/-- **The targets of a project are made of those of its document**: the stage of
the first stage, the sprites of all other targets that are no stage, in order. -/
theorem Project.targets_of_ofDocumentUnpruned {fetch : Fetcher} {arrange : Arrangement}
    {document : Json} {p : Project} (h : ofDocumentUnpruned fetch arrange document = .ok p) :
    let ofJson := Target.ofJson fetch arrange (Json.items (document.get? "monitors"))
    (∃ stage, (targetsOf document).find? isStage = some stage ∧ ofJson stage = .ok p.stage)
      ∧ List.Forall₂ (fun target t => ofJson target = .ok t)
        ((targetsOf document).filter (fun t => !isStage t)) p.sprites := by
  unfold ofDocumentUnpruned at h
  split at h
  · cases h
  · next targets htargets =>
    have hof : targetsOf document = targets := by rw [targetsOf, Json.items, htargets]; rfl
    rw [hof]
    dsimp only at h
    split at h
    · cases h
    · next stage hstage =>
      obtain ⟨first, hfirst, h⟩ := bind_eq_ok_iff.mp h
      obtain ⟨rest, hrest, h⟩ := bind_eq_ok_iff.mp h
      cases h
      exact ⟨⟨stage, hstage, hfirst⟩, mapM_eq_ok_iff.mp hrest⟩

/-- **The targets of a project have the assets of the targets of its document**:
dropping dead data changes nothing about them. -/
theorem Project.assetsMade_of_ofDocument {fetch : Fetcher} {arrange : Arrangement}
    {document : Json} {p : Project}
    (h : (ofDocumentUnpruned fetch arrange document).map prune = .ok p) :
    (∃ stage, (targetsOf document).find? isStage = some stage
        ∧ Target.AssetsMade fetch stage p.stage)
      ∧ List.Forall₂ (Target.AssetsMade fetch)
        ((targetsOf document).filter (fun t => !isStage t)) p.sprites := by
  obtain ⟨unpruned, hdecode, rfl⟩ := map_eq_ok_iff.mp h
  obtain ⟨⟨stage, hstage, hfirst⟩, hrest⟩ := targets_of_ofDocumentUnpruned hdecode
  refine ⟨⟨stage, hstage, (Target.assetsMade_of_ofJson hfirst).retain _⟩, ?_⟩
  refine List.forall₂_map_right_iff.mpr (hrest.imp ?_)
  exact fun _ _ h => (Target.assetsMade_of_ofJson h).retain _

namespace Legacy

/-! ## Carrying over -/

/-- The file that an entry points to is among the files of the table. -/
theorem mem_files_of_group {sources : List AssetSource} {source : AssetSource} {number : Nat}
    (h : ((AssetTable.addAll [] sources).group source.ext)[number]? = some source) :
    (fileName (source.ext, number), source.bytes) ∈ (AssetTable.addAll [] sources).files :=
  (AssetTable.sorted_addAll sources).mem_files_iff.mpr ⟨source.ext, number, source, h, rfl⟩

/-- **A description and an entry of a legacy document name the same bytes**: the
entry has the digest and the extension of the description, and the file with
its number has the bytes that the archive stores under these. -/
def Carried (entries : List Archive.Entry) (files : List (String × ByteArray))
    (numberKey contentKey : String) (spec entry : Json) : Prop :=
  ∃ md5 ext number bytes,
    spec.get? "assetId" = some (.text md5) ∧ spec.get? "dataFormat" = some (.text ext)
      ∧ entry.get? numberKey = some (.ofNat number)
      ∧ entry.get? contentKey = some (.text (md5 ++ "." ++ ext))
      ∧ (fileName (ext, number), bytes) ∈ files
      ∧ Archive.Stores entries (md5 ++ "." ++ ext) bytes

/-- **The descriptions of a target are carried over**, place by place. -/
structure TargetCarried (entries : List Archive.Entry) (files : List (String × ByteArray))
    (target entry : Json) : Prop where
  costumes : Lists (Carried entries files "baseLayerID" "baseLayerMD5")
    (Target.costumeSpecs target) "costumes" entry
  sounds : Lists (Carried entries files "soundID" "md5") (Target.soundSpecs target) "sounds" entry

/-- **The targets of a document are carried over**: the first stage to the legacy
document itself, the targets that are no stage to its sprites, in order. -/
structure DocumentCarried (entries : List Archive.Entry) (files : List (String × ByteArray))
    (document legacy : Json) : Prop where
  stage : ∃ stage, (targetsOf document).find? isStage = some stage
    ∧ TargetCarried entries files stage legacy
  sprites : Lists (TargetCarried entries files)
    ((targetsOf document).filter (fun t => !isStage t)) "children" legacy

section Carrying

variable {entries : List Archive.Entry} {fetch : Fetcher} {sources : List AssetSource}
variable {files : List (String × ByteArray)}
variable (hstores : ∀ r bytes, fetch r = .ok bytes → Archive.Stores entries r.fileName bytes)
variable (hfiles : ∀ file ∈ (AssetTable.addAll [] sources).files, file ∈ files)

include hstores hfiles

/-- An entry that points to what a description made carries the description
over. -/
theorem carried_of_pointsTo {α : Type} {owner : String} {kind : AssetKind}
    {make : Json → ByteArray → α} {toSource : α → AssetSource} {numberKey contentKey : String}
    {spec entry : Json} {made : α}
    (hmake : ∀ bytes, (toSource (make spec bytes)).bytes = bytes
      ∧ (toSource (make spec bytes)).md5 = Json.scalarText? (spec.get? "assetId")
      ∧ (toSource (make spec bytes)).ext = Json.scalarText? (spec.get? "dataFormat"))
    (hmade : Asset.Made fetch owner kind make spec made)
    (hpoints : PointsTo (AssetTable.addAll [] sources) numberKey contentKey (toSource made) entry) :
    Carried entries files numberKey contentKey spec entry := by
  obtain ⟨r, bytes, hrequest, hfetch, rfl⟩ := hmade
  obtain ⟨hmd5, hext, -⟩ := Asset.request_eq_ok_iff.mp hrequest
  obtain ⟨number, hnumber, hcontent, hfound⟩ := hpoints
  obtain ⟨hbytes, hsource, hsource'⟩ := hmake bytes
  rw [hmd5] at hsource
  rw [hext] at hsource'
  have hfile := hfiles _ (mem_files_of_group hfound)
  rw [hbytes, hsource'] at hfile
  rw [hsource, hsource'] at hcontent
  exact ⟨r.md5, r.ext, number, bytes, hmd5, hext, hnumber, hcontent, hfile, hstores r bytes hfetch⟩

/-- A target whose assets are made and pointed to is carried over, if no sound is
converted. -/
theorem targetCarried_of_points {options : Options} {target : Json} {t : Target} {entry : Json}
    (hconvert : ∀ sound, options.convert sound = sound) (hmade : Target.AssetsMade fetch target t)
    (hpoints : TargetPoints options (AssetTable.addAll [] sources) t entry) :
    TargetCarried entries files target entry := by
  obtain ⟨owner, hcostumes, hsounds⟩ := hmade
  obtain ⟨⟨soundEntries, hsoundEntries, hs⟩, ⟨costumeEntries, hcostumeEntries, hc⟩⟩ := hpoints
  have hstored : ∀ sound, options.stored sound = sound := by
    intro sound
    rw [Options.stored, hconvert, ite_self]
  simp only [hstored] at hs
  refine ⟨⟨costumeEntries, hcostumeEntries, forall₂_comp ?_ hcostumes hc⟩,
    ⟨soundEntries, hsoundEntries, forall₂_comp ?_ hsounds hs⟩⟩
  · exact fun _ _ _ => carried_of_pointsTo hstores hfiles (fun _ => ⟨rfl, rfl, rfl⟩)
  · exact fun _ _ _ => carried_of_pointsTo hstores hfiles (fun _ => ⟨rfl, rfl, rfl⟩)

end Carrying

/-! ## Packing -/

/-- No report of packing goes beyond its total. -/
theorem step_le_of_mem_packingProgress {count : Nat} {p : Progress}
    (h : p ∈ packingProgress count) : p.step ≤ p.total := by
  unfold packingProgress at h
  split at h
  · rw [List.mem_singleton.mp h]
  · obtain ⟨i, hi, rfl⟩ := List.mem_map.mp h
    exact List.mem_range.mp hi

/-- The last report of packing is complete. -/
theorem exists_getLast_packingProgress (count : Nat) :
    ∃ before last, packingProgress count = before ++ [last] ∧ last.step = last.total := by
  unfold packingProgress
  cases count with
  | zero => exact ⟨[], _, rfl, rfl⟩
  | succ n =>
    rw [if_neg n.succ_ne_zero, List.range_succ, List.map_append]
    exact ⟨_, _, rfl, rfl⟩

/-- The progress of a package: two reports of one step, then those of packing. -/
theorem exists_progress_pack (options : Options) (project : Project) :
    ∃ first second count, (pack options project).progress
        = first :: second :: packingProgress count
      ∧ first.step = first.total ∧ second.step = second.total :=
  ⟨_, _, _, rfl, rfl, rfl⟩

/-- **No report goes beyond its total**, and the last one is complete. -/
theorem progress_pack (options : Options) (project : Project) :
    (∀ p ∈ (pack options project).progress, p.step ≤ p.total)
      ∧ ∃ before last, (pack options project).progress = before ++ [last]
        ∧ last.step = last.total := by
  obtain ⟨first, second, count, hprogress, hfirst, hsecond⟩ := exists_progress_pack options project
  obtain ⟨before, last, hlast, hcomplete⟩ := exists_getLast_packingProgress count
  rw [hprogress]
  refine ⟨fun p hp => ?_, first :: second :: before, last, by rw [hlast]; rfl, hcomplete⟩
  rcases List.mem_cons.mp hp with rfl | hp
  · exact hfirst.le
  · rcases List.mem_cons.mp hp with rfl | hp
    · exact hsecond.le
    · exact step_le_of_mem_packingProgress hp

/-- **A package that carries an archive over.** -/
structure Carries (entries : List Archive.Entry) (document : Json) (options : Options)
    (project : Project) (package : Package) : Prop where
  /-- The document comes first. After it comes one file for each asset of the
  project, under the number that the document shows for it. -/
  files : ∃ assetFiles, package.files
      = ("project.json", (encode options project).1.toJson.compact.toUTF8) :: assetFiles
    ∧ assetFiles.Perm (((encode options project).1.files.zip (assets options project)).map
      (fun p => (fileName p.1.place, p.2.bytes)))
  shown : shownAssets (encode options project).1.toJson
    = (encode options project).1.files.map AssetRef.shown
  counted : (encode options project).1.files.length = (assets options project).length
  /-- No two files have the same name, so an archive takes them all. -/
  named : (package.files.map Prod.fst).Nodup
  taken : Archive.take [] package.files = .ok package.files
  /-- Each description of a costume or a sound is carried over. -/
  carried : DocumentCarried entries package.files document (encode options project).1.toJson
  /-- No report goes beyond its total. -/
  progress : ∀ p ∈ package.progress, p.step ≤ p.total
  /-- The last report is complete. -/
  complete : ∃ before last, package.progress = before ++ [last] ∧ last.step = last.total

/-- **Packing what an archive holds carries it over**, byte for byte, if no sound is
converted. -/
theorem pack_carries {source : String} {entries : List Archive.Entry} {bundle : Bundle}
    {arrange : Arrangement} {project : Project} {options : Options}
    (hnames : (entries.map Archive.Entry.name).Nodup)
    (hbundle : Bundle.ofEntries source entries = .ok bundle)
    (hproject : (Project.ofDocumentUnpruned bundle.fetcher arrange bundle.document).map
      Project.prune = .ok project)
    (hconvert : ∀ sound, options.convert sound = sound) :
    Carries entries bundle.document options project (pack options project) := by
  have hpack : (pack options project).files
      = ("project.json", (encode options project).1.toJson.compact.toUTF8)
        :: (encode options project).2.files := rfl
  have hnumbered : Numbered (assets options project) (encode options project).1.files
      (encode options project).2 := by
    rw [encode_files, encode_table]
    exact AssetTable.numbered_refs _
  have hnamed : ((pack options project).files.map Prod.fst).Nodup := by
    rw [hpack, List.map_cons, List.nodup_cons]
    exact ⟨hnumbered.unlike, hnumbered.named⟩
  obtain ⟨⟨stage, hstage, hmade⟩, hsprites⟩ := Project.assetsMade_of_ofDocument hproject
  have hpoints := encode_points options project
  rw [encode_table] at hpoints
  have hstores := fun r bytes (h : bundle.fetcher r = .ok bytes) =>
    Bundle.stores_of_fetcher hnames hbundle h
  have hfiles : ∀ file ∈ (AssetTable.addAll [] (assets options project)).files,
      file ∈ (pack options project).files := by
    intro file hfile
    rw [hpack, encode_table]
    exact List.mem_cons_of_mem _ hfile
  refine ⟨⟨_, hpack, hnumbered.listed⟩, shownAssets_toJson _, ?_, hnamed,
    Archive.take_of_nodup hnamed, ⟨⟨stage, hstage, ?_⟩, ?_⟩, (progress_pack options project).1,
    (progress_pack options project).2⟩
  · rw [encode_files, AssetTable.length_refs]
  · exact targetCarried_of_points hstores hfiles hconvert hmade hpoints.stage
  · obtain ⟨items, hitems, hs⟩ := hpoints.sprites
    refine ⟨items, hitems, forall₂_comp (fun _ _ _ => ?_) hsprites hs⟩
    exact targetCarried_of_points hstores hfiles hconvert

/-! ### A stage with a costume and a sound -/

/-- The stage, as its document has it. -/
def skyStage : Json :=
  .object
    [("isStage", .bool true), ("name", .text "Sky"),
     ("costumes", .array [.object [("assetId", .text "k1"), ("dataFormat", .text "png")]]),
     ("sounds", .array [.object [("assetId", .text "p1"), ("dataFormat", .text "wav")]])]

/-- The text of the document. -/
def skyText : String :=
  "\x7b\"targets\":[\x7b\"isStage\":true,\"name\":\"Sky\","
    ++ "\"costumes\":[\x7b\"assetId\":\"k1\",\"dataFormat\":\"png\"\x7d],"
    ++ "\"sounds\":[\x7b\"assetId\":\"p1\",\"dataFormat\":\"wav\"\x7d]\x7d]\x7d"

/-- The entries of its archive. -/
def skyEntries : List Archive.Entry :=
  [⟨"p1.wav", .ok "pop".toUTF8⟩, ⟨"project.json", .ok skyText.toUTF8⟩,
   ⟨"k1.png", .ok "blue".toUTF8⟩]

/-- The archive, opened. -/
def skyBundle : Bundle :=
  ⟨.object [("targets", .array [skyStage])], [("p1.wav", "pop".toUTF8), ("k1.png", "blue".toUTF8)]⟩

/-- The archive can be opened. -/
theorem ofEntries_sky : Bundle.ofEntries "sky.sb3" skyEntries = .ok skyBundle := by
  have hfind : skyEntries.find? (fun e => e.name = Bundle.documentName)
      = some ⟨Bundle.documentName, .ok skyText.toUTF8⟩ := rfl
  have hread : Json.read? skyText = some skyBundle.document := by cbv
  exact Bundle.ofEntries_eq_ok_iff.mpr ⟨Bundle.readDocument_of_find? hfind hread, rfl⟩

/-- The archive holds a project. -/
theorem exists_project_sky : ∃ project, skyBundle.project = .ok project := by
  have hname : (skyStage.get? "name").bind Json.asText? = some "Sky" := rfl
  have hassets : Asset.fetchAll (m := Id) skyBundle.fetcher .ofRequests "Sky"
      (Json.items (skyStage.get? "costumes")) (Json.items (skyStage.get? "sounds"))
        = .ok ([⟨"", "blue".toUTF8, "k1", "png", 2, none, none⟩],
          [⟨"", "pop".toUTF8, "p1", "wav", none, none⟩]) := rfl
  have hscripts : (BlockTable.ofEntries (Json.entries (skyStage.get? "blocks"))).scripts = .ok [] :=
    rfl
  obtain ⟨t, ht⟩ : ∃ t, Target.ofJson skyBundle.fetcher .ofRequests [] skyStage = .ok t := by
    unfold Target.ofJson
    simp only [hname, hassets, hscripts]
    exact ⟨_, rfl⟩
  have htargets : (skyBundle.document.get? "targets").bind Json.asArray? = some [skyStage] := rfl
  have hstage : [skyStage].find? isStage = some skyStage := rfl
  have hsprites : [skyStage].filter (fun t => !isStage t) = [] := rfl
  have hmonitors : Json.items (skyBundle.document.get? "monitors") = [] := rfl
  unfold Bundle.project Project.ofDocument Project.ofDocumentUnpruned
  simp only [htargets, hstage, hsprites, hmonitors, ht]
  exact ⟨_, rfl⟩

/-- The archive is carried over. -/
theorem sky_is_carried :
    (skyEntries.map Archive.Entry.name).Nodup
      ∧ Bundle.ofEntries "sky.sb3" skyEntries = .ok skyBundle
      ∧ ∃ project, skyBundle.project = .ok project
        ∧ Carries skyEntries skyBundle.document {} project (pack {} project) := by
  have hnames : (skyEntries.map Archive.Entry.name).Nodup := by decide
  obtain ⟨project, hproject⟩ := exists_project_sky
  exact ⟨hnames, ofEntries_sky, project, hproject,
    @pack_carries "sky.sb3" skyEntries skyBundle .ofRequests project {} hnames ofEntries_sky
      hproject (fun _ => rfl)⟩

end Legacy

end ScratchLegacy
