import ScratchLegacy.Proofs.AssetNumbering

/-!
# The numbers in a legacy document

The parts of a document are written one after the other over one table, and
each part takes the table as the part before left it. `Numbering.Adds` says
what a part does: it adds its assets, the references in its result are those
to them, and whatever else is known about the result holds for every table
that is reached later on. Two parts in a row do what each of them does
(`Numbering.Adds.both`), and so does a sequence of parts
(`Numbering.Adds.mapM`), so one line for each kind of part gives
`encodeProject_adds`.

What a document says about its assets is read off its JSON value: at each
place of a target, `PointsTo` the asset it was written from; and over the
whole document, in the order of the numbers, `shownAssets`.
-/

namespace ScratchLegacy

namespace Legacy

/-! ## The assets of a project -/

/-- The assets of a target: its sounds as they are stored, then its
costumes. -/
def targetAssets (options : Options) (target : Target) : List AssetSource :=
  target.sounds.map (fun s => .sound (options.stored s)) ++ target.costumes.map .costume

/-- **The assets of a project in the order of their numbers**: those of the
stage, the pen layer, those of each sprite. -/
def assets (options : Options) (project : Project) : List AssetSource :=
  targetAssets options project.stage ++ options.pen.toList.map .costume
    ++ project.sprites.flatMap (targetAssets options)

/-- The references of a target, in the order of the numbers. -/
def TargetEntry.files (t : TargetEntry) : List AssetRef :=
  t.sounds.map SoundEntry.file ++ t.costumes.map CostumeEntry.file

/-- **The references of a document in the order of the numbers.** -/
def Document.files (d : Document) : List AssetRef :=
  d.stage.files ++ d.pen.toList ++ d.sprites.flatMap (fun s => s.target.files)

/-! ## What the JSON value shows -/

/-- **An entry points to an asset**: under one key it has a number, and the
asset has this number in the group of its extension; under another key it has
the digest and the extension of the asset. -/
def PointsTo (table : AssetTable) (numberKey contentKey : String) (source : AssetSource)
    (entry : Json) : Prop :=
  ∃ number, entry.get? numberKey = some (.ofNat number)
    ∧ entry.get? contentKey = some (.text (source.md5 ++ "." ++ source.ext))
    ∧ (table.group source.ext)[number]? = some source

/-- An entry has a list of entries under a key, one for each of a sequence. -/
def Lists {α : Type} (points : α → Json → Prop) (as : List α) (key : String) (entry : Json) :
    Prop :=
  ∃ items, entry.get? key = some (.array items) ∧ List.Forall₂ points as items

/-- **A target points to its assets**: each of its sounds and each of its
costumes does, place by place. -/
structure TargetPoints (options : Options) (table : AssetTable) (target : Target) (entry : Json) :
    Prop where
  sounds : Lists (fun s => PointsTo table "soundID" "md5" (.sound (options.stored s)))
    target.sounds "sounds" entry
  costumes : Lists (fun c => PointsTo table "baseLayerID" "baseLayerMD5" (.costume c))
    target.costumes "costumes" entry

/-- A pen layer, if there is one, is pointed to; else nothing is. -/
def PenPoints (table : AssetTable) (document : Json) : Option ScratchLegacy.Costume → Prop
  | some pen => PointsTo table "penLayerID" "penLayerMD5" (.costume pen) document
  | none => document.get? "penLayerID" = none ∧ document.get? "penLayerMD5" = none

/-- **A document points to the assets of a project**, target by target. -/
structure DocumentPoints (options : Options) (table : AssetTable) (project : Project)
    (document : Json) : Prop where
  stage : TargetPoints options table project.stage document
  pen : PenPoints table document options.pen
  sprites : Lists (TargetPoints options table) project.sprites "children" document

/-- The number and the content that an entry shows. -/
def shown (numberKey contentKey : String) (entry : Json) : Option Json × Option Json :=
  (entry.get? numberKey, entry.get? contentKey)

/-- The numbers and contents that a target shows: those of its sounds, then
those of its costumes. -/
def targetShown (entry : Json) : List (Option Json × Option Json) :=
  (Json.items (entry.get? "sounds")).map (shown "soundID" "md5")
    ++ (Json.items (entry.get? "costumes")).map (shown "baseLayerID" "baseLayerMD5")

/-- **The numbers and contents that a document shows**: those of the stage, that
of a pen layer, those of each sprite. -/
def shownAssets (document : Json) : List (Option Json × Option Json) :=
  targetShown document
    ++ (if (document.get? "penLayerID").isSome
        then [shown "penLayerID" "penLayerMD5" document] else [])
    ++ (Json.items (document.get? "children")).flatMap targetShown

/-- What a reference is shown as. -/
def AssetRef.shown (r : AssetRef) : Option Json × Option Json :=
  (some (.ofNat r.number), some (.text r.contentName))

/-! ## Computations that add assets -/

namespace Numbering

/-- **What a computation adds to a table.** -/
structure Adds {α : Type} (x : Numbering α) (sources : List AssetSource)
    (files : α → List AssetRef) (fits : AssetTable → α → Prop) : Prop where
  /-- The table that it leaves. -/
  table : ∀ table, (x.run table).2 = table.addAll sources
  /-- The references in its result. -/
  refs : ∀ table, files (x.run table).1 = table.refs sources
  /-- What holds of its result, whatever is added later. -/
  fits : ∀ table later, fits (table.addAll (sources ++ later)) (x.run table).1

variable {α β γ : Type} {xs ys : List AssetSource} {as : List α}
variable {filesA : α → List AssetRef} {filesB : β → List AssetRef} {filesC : γ → List AssetRef}
variable {fitsA : AssetTable → α → Prop} {fitsB : AssetTable → β → Prop}
variable {fitsC : AssetTable → γ → Prop}

/-- Nothing is added without a registration. -/
theorem Adds.pure (a : α) (hfiles : filesA a = []) (hfits : ∀ table, fitsA table a) :
    Adds (Pure.pure a) [] filesA fitsA :=
  ⟨fun _ => rfl, fun _ => hfiles, fun _ _ => hfits _⟩

/-- **A registration adds its asset**, and the reference with its number points
to it. -/
theorem Adds.register {source : AssetSource} {g : Nat → β}
    (hfiles : ∀ number, filesB (g number) = [⟨number, source.md5, source.ext⟩])
    (hfits : ∀ table number, table.Holds ⟨number, source.md5, source.ext⟩ source →
      fitsB table (g number)) :
    Adds (do let number ← Numbering.register source; Pure.pure (g number)) [source] filesB
      fitsB where
  table _ := rfl
  refs _ := hfiles _
  fits table later := by
    cases AssetTable.forall₂_holds_refs table (source :: later) with
    | cons hholds _ => exact hfits _ _ hholds

/-- **Two computations in a row** add what each of them adds. -/
theorem Adds.both {x : Numbering α} {y : Numbering β} {g : α → β → γ}
    (hx : Adds x xs filesA fitsA) (hy : Adds y ys filesB fitsB)
    (hfiles : ∀ a b, filesC (g a b) = filesA a ++ filesB b)
    (hfits : ∀ table a b, fitsA table a → fitsB table b → fitsC table (g a b)) :
    Adds (do let a ← x; let b ← y; Pure.pure (g a b)) (xs ++ ys) filesC fitsC where
  table table := by
    show (y.run (x.run table).2).2 = _
    rw [hy.table, hx.table, AssetTable.addAll_append]
  refs table := by
    show filesC (g (x.run table).1 (y.run (x.run table).2).1) = _
    rw [hfiles, hx.refs, hy.refs, hx.table, AssetTable.refs_append]
  fits table later := by
    have hfirst := hx.fits table (ys ++ later)
    have hsecond := hy.fits (x.run table).2 later
    rw [← List.append_assoc] at hfirst
    rw [hx.table, ← AssetTable.addAll_append, ← List.append_assoc, ← hx.table] at hsecond
    exact hfits _ _ _ hfirst hsecond

/-- **A sequence of computations** adds what each of them adds, in order. -/
theorem Adds.mapM {f : α → Numbering β} {sources : α → List AssetSource}
    {fits : α → AssetTable → β → Prop} (h : ∀ a, Adds (f a) (sources a) filesB (fits a))
    (as : List α) :
    Adds (as.mapM f) (as.flatMap sources) (fun bs => bs.flatMap filesB)
      (fun table bs => List.Forall₂ (fun a b => fits a table b) as bs) := by
  induction as with
  | nil => exact Adds.pure [] rfl (fun _ => .nil)
  | cons a as ih =>
    rw [List.mapM_cons, List.flatMap_cons]
    exact (h a).both ih (fun _ _ => List.flatMap_cons) (fun _ _ _ hb hbs => .cons hb hbs)

end Numbering

open Legacy.Numbering (Adds)

/-! ## Reading the JSON value -/

/-- A sound shows its file. -/
theorem shown_sound (s : SoundEntry) : shown "soundID" "md5" s.toJson = s.file.shown := by
  simp [shown, AssetRef.shown, SoundEntry.toJson, Json.get?, Entries.find?]

/-- A costume shows its file. -/
theorem shown_costume (c : CostumeEntry) :
    shown "baseLayerID" "baseLayerMD5" c.toJson = c.file.shown := by
  simp [shown, AssetRef.shown, CostumeEntry.toJson, Json.get?, Entries.find?]

/-- The sounds of a target, whatever entries follow. -/
theorem get_sounds (t : TargetEntry) (rest : List (String × Json)) :
    (Json.object (t.entries ++ rest)).get? "sounds"
      = some (.array (t.sounds.map SoundEntry.toJson)) := by
  simp [TargetEntry.entries, Json.get?, Entries.find?]

/-- The costumes of a target, whatever entries follow. -/
theorem get_costumes (t : TargetEntry) (rest : List (String × Json)) :
    (Json.object (t.entries ++ rest)).get? "costumes"
      = some (.array (t.costumes.map CostumeEntry.toJson)) := by
  simp [TargetEntry.entries, Json.get?, Entries.find?]

/-- The number of the pen layer. -/
theorem get_penLayerID (d : Document) :
    d.toJson.get? "penLayerID" = d.pen.map (fun r => .ofNat r.number) := by
  cases hpen : d.pen <;>
    simp [Document.toJson, TargetEntry.entries, penEntries, Json.get?, Entries.find?, hpen]

/-- The content of the pen layer. -/
theorem get_penLayerMD5 (d : Document) :
    d.toJson.get? "penLayerMD5" = d.pen.map (fun r => .text r.contentName) := by
  cases hpen : d.pen <;>
    simp [Document.toJson, TargetEntry.entries, penEntries, Json.get?, Entries.find?, hpen]

/-- The sprites of a document. -/
theorem get_children (d : Document) :
    d.toJson.get? "children" = some (.array (d.sprites.map SpriteEntry.toJson)) := by
  cases hpen : d.pen <;>
    simp [Document.toJson, TargetEntry.entries, penEntries, Json.get?, Entries.find?, hpen]

/-- The entries of a document begin with those of the stage. -/
theorem exists_toJson_eq (d : Document) : ∃ rest, d.toJson = .object (d.stage.entries ++ rest) :=
  ⟨_, congrArg Json.object (List.append_assoc _ _ _)⟩

/-- A target shows its files, whatever entries follow. -/
theorem targetShown_eq (t : TargetEntry) (rest : List (String × Json)) :
    targetShown (.object (t.entries ++ rest)) = t.files.map AssetRef.shown := by
  have hsounds : (shown "soundID" "md5" ∘ SoundEntry.toJson) = AssetRef.shown ∘ SoundEntry.file :=
    funext shown_sound
  have hcostumes : (shown "baseLayerID" "baseLayerMD5" ∘ CostumeEntry.toJson)
      = AssetRef.shown ∘ CostumeEntry.file := funext shown_costume
  rw [targetShown, get_sounds, get_costumes, TargetEntry.files, List.map_append, List.map_map,
    List.map_map, ← hsounds, ← hcostumes, ← List.map_map, ← List.map_map]
  rfl

/-- **A document shows its files**, in the order of the numbers. -/
theorem shownAssets_toJson (d : Document) :
    shownAssets d.toJson = d.files.map AssetRef.shown := by
  have hstage : targetShown d.toJson = d.stage.files.map AssetRef.shown := by
    obtain ⟨rest, hrest⟩ := exists_toJson_eq d
    rw [hrest, targetShown_eq]
  have hpen : (if (d.toJson.get? "penLayerID").isSome
      then [shown "penLayerID" "penLayerMD5" d.toJson] else [])
        = d.pen.toList.map AssetRef.shown := by
    rw [shown, get_penLayerID, get_penLayerMD5]
    cases d.pen <;> rfl
  have hsprites : (Json.items (d.toJson.get? "children")).flatMap targetShown
      = (d.sprites.flatMap (fun s => s.target.files)).map AssetRef.shown := by
    rw [get_children, List.map_flatMap]
    show (d.sprites.map SpriteEntry.toJson).flatMap targetShown = _
    rw [List.flatMap_map]
    exact List.flatMap_congr (fun s _ => targetShown_eq s.target _)
  rw [shownAssets, hstage, hpen, hsprites, Document.files, List.map_append, List.map_append]

/-! ## The parts of a document -/

/-- An entry that shows a reference points to the asset that the reference
points to. -/
theorem pointsTo_of_shown {table : AssetTable} {numberKey contentKey : String}
    {source : AssetSource} {entry : Json} {r : AssetRef} (hholds : table.Holds r source)
    (hshown : shown numberKey contentKey entry = r.shown) :
    PointsTo table numberKey contentKey source entry := by
  obtain ⟨hnumber, hcontent⟩ := Prod.mk.inj hshown
  refine ⟨r.number, hnumber, ?_, ?_⟩
  · rw [hcontent, AssetRef.contentName, hholds.md5, hholds.ext]
  · rw [← hholds.ext, hholds.found]

/-- Writing a sound adds it as it is stored. -/
theorem encodeSound_adds (options : Options) (s : ScratchLegacy.Sound) :
    Adds (encodeSound options s) [.sound (options.stored s)] (fun e => [e.file])
      (fun table e => PointsTo table "soundID" "md5" (.sound (options.stored s)) e.toJson) :=
  Adds.register (fun _ => rfl) (fun _ _ hholds => pointsTo_of_shown hholds (shown_sound _))

/-- Writing a costume adds it. -/
theorem encodeCostume_adds (c : ScratchLegacy.Costume) :
    Adds (encodeCostume c) [.costume c] (fun e => [e.file])
      (fun table e => PointsTo table "baseLayerID" "baseLayerMD5" (.costume c) e.toJson) :=
  Adds.register (fun _ => rfl) (fun _ _ hholds => pointsTo_of_shown hholds (shown_costume _))

/-- **Writing a target** adds its sounds and its costumes, and the entries that
it writes point to them, whatever entries follow. -/
theorem encodeTarget_adds (options : Options) (target : Target) :
    Adds (encodeTarget options target) (targetAssets options target) TargetEntry.files
      (fun table e => ∀ rest, TargetPoints options table target (.object (e.entries ++ rest))) := by
  have hsounds := Adds.mapM (encodeSound_adds options) target.sounds
  have hcostumes := Adds.mapM encodeCostume_adds target.costumes
  rw [← List.map_eq_flatMap] at hsounds hcostumes
  refine hsounds.both hcostumes (fun sounds costumes => ?_) (fun table sounds costumes hs hc rest => ?_)
  · rw [← List.map_eq_flatMap, ← List.map_eq_flatMap]
    rfl
  · exact ⟨⟨_, get_sounds _ rest, List.forall₂_map_right_iff.mpr hs⟩,
      ⟨_, get_costumes _ rest, List.forall₂_map_right_iff.mpr hc⟩⟩

/-- Writing the pen layer adds it, if there is one. -/
theorem encodePen_adds (options : Options) :
    Adds (encodePen options) (options.pen.toList.map .costume) Option.toList
      (fun table => Option.Rel (fun pen r => table.Holds r (.costume pen)) options.pen) := by
  unfold encodePen
  cases options.pen with
  | none => exact Adds.pure none rfl (fun _ => .none)
  | some pen => exact Adds.register (fun _ => rfl) (fun _ _ hholds => .some hholds)

/-- Writing a sprite adds what its target has. -/
theorem encodeSprite_adds (options : Options) (sprite : Target × Nat) :
    Adds (encodeSprite options sprite) (targetAssets options sprite.1) (fun e => e.target.files)
      (fun table e => TargetPoints options table sprite.1 e.toJson) := by
  have htarget := encodeTarget_adds options sprite.1
  exact ⟨htarget.table, htarget.refs, fun table later => htarget.fits table later _⟩

/-- A pen layer of a document is pointed to when its reference points to it. -/
theorem penPoints_toJson {table : AssetTable} {pen : Option ScratchLegacy.Costume} {d : Document}
    (h : Option.Rel (fun pen r => table.Holds r (.costume pen)) pen d.pen) :
    PenPoints table d.toJson pen := by
  have hshown : shown "penLayerID" "penLayerMD5" d.toJson
      = (d.pen.map (fun r => .ofNat r.number), d.pen.map (fun r => .text r.contentName)) := by
    rw [shown, get_penLayerID, get_penLayerMD5]
  generalize d.pen = r at h hshown
  cases h with
  | none => exact Prod.mk.inj hshown
  | some hholds => exact pointsTo_of_shown hholds hshown

/-- The stage and the pen layer of a project, written in a row. -/
theorem encodeStage_adds (options : Options) (project : Project) :
    Adds (do let stage ← encodeTarget options project.stage; let pen ← encodePen options;
             pure (stage, pen))
      (targetAssets options project.stage ++ options.pen.toList.map .costume)
      (fun p => p.1.files ++ p.2.toList)
      (fun table p => (∀ rest, TargetPoints options table project.stage
          (.object (p.1.entries ++ rest)))
        ∧ Option.Rel (fun pen r => table.Holds r (.costume pen)) options.pen p.2) :=
  (encodeTarget_adds options project.stage).both (encodePen_adds options) (fun _ _ => rfl)
    (fun _ _ _ hstage hpen => ⟨hstage, hpen⟩)

/-- **Writing a project** adds its assets, and the document that it writes
points to them. -/
theorem encodeProject_adds (options : Options) (project : Project) :
    Adds (encodeProject options project) (assets options project) Document.files
      (fun table d => DocumentPoints options table project d.toJson) := by
  have hsprites := Adds.mapM (encodeSprite_adds options) project.sprites.zipIdx
  -- the place of a sprite says nothing about its assets
  have hassets : project.sprites.zipIdx.flatMap (fun s => targetAssets options s.1)
      = project.sprites.flatMap (targetAssets options) := by
    rw [← List.flatMap_map, List.zipIdx_map_fst]
  rw [hassets] at hsprites
  refine Adds.both
    (g := fun p sprites => Document.mk p.1 p.2 project.tempo project.videoTransparency sprites
      project.videoOn)
    (encodeStage_adds options project) hsprites (fun p sprites => ?_) ?_
  · rfl
  rintro table ⟨stage, pen⟩ sprites ⟨hstage, hpen⟩ hs
  refine ⟨?_, penPoints_toJson hpen, ⟨_, get_children _, List.forall₂_map_right_iff.mpr ?_⟩⟩
  · obtain ⟨rest, hrest⟩ := exists_toJson_eq _
    rw [hrest]
    exact hstage rest
  · rw [← List.zipIdx_map_fst 0 project.sprites]
    exact List.forall₂_map_left_iff.mpr hs

variable (options : Options) (project : Project)

/-- The table of a project is filled with its assets. -/
theorem encode_table : (encode options project).2 = AssetTable.addAll [] (assets options project) :=
  (encodeProject_adds options project).table []

/-- The document of a project has the references to its assets. -/
theorem encode_files :
    (encode options project).1.files = AssetTable.refs [] (assets options project) :=
  (encodeProject_adds options project).refs []

/-- The document of a project points to its assets. -/
theorem encode_points :
    DocumentPoints options (encode options project).2 project (encode options project).1.toJson := by
  have hpoints := (encodeProject_adds options project).fits [] []
  rw [List.append_nil, ← encode_table] at hpoints
  exact hpoints

/-- **Document and table agree on the numbers of the assets.** The table has the
assets of the project in its groups, in order; the document refers to every
place of the table once, and each of its entries has the number and the
content of the asset that it was written from; the files have the names that
the document gives, each name once. -/
theorem encode_numbered :
    Numbered (assets options project) (encode options project).1.files (encode options project).2
      ∧ shownAssets (encode options project).1.toJson
        = (encode options project).1.files.map AssetRef.shown
      ∧ DocumentPoints options (encode options project).2 project
        (encode options project).1.toJson := by
  refine ⟨?_, shownAssets_toJson _, encode_points options project⟩
  rw [encode_files, encode_table]
  exact AssetTable.numbered_refs _

end Legacy

end ScratchLegacy
