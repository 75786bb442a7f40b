import ScratchLegacy.Legacy.Document
import ScratchLegacy.Proofs.DocumentTargets

/-!
# The scripts in a legacy document

What a legacy document says about a target comes from the target, and only its scripts
come from the scripts of the target. `Document.bare` is a document without scripts, and
a document is determined by that and by its scripts (`Document.eq_of_bare`).

Writing a project without scripts gives the same document without scripts, and the same
table of assets (`bare_encode`); the scripts of the document are those that the scripts
of each target are translated into (`scripts_encode`). So projects that differ in nothing
but their scripts have documents that differ in nothing but theirs
(`bare_encode_of_bare_eq`).
-/

namespace ScratchLegacy

/-- A target without scripts. -/
def Target.bare (t : Target) : Target := { t with scripts := [] }

/-- A project without scripts. -/
def Project.bare (p : Project) : Project :=
  { p with
    stage := p.stage.bare
    sprites := p.sprites.map Target.bare }

/-- Projects that differ in nothing but their scripts are the same without them. -/
theorem Project.Beside.bare_eq {α : Type} {R : α → List Script → List Script → Prop}
    {values : List α} {p p' : Project} (h : Beside R values p p') : p'.bare = p.bare := by
  have hbare : ∀ {ts ts' : List Target},
      List.Forall₂ (fun t t' => ∃ a ∈ values, Target.Beside (R a) t t') ts ts' →
        ts'.map Target.bare = ts.map Target.bare := by
    intro ts ts' htargets
    refine map_eq_of_forall₂ (htargets.imp (fun t t' htt => ?_))
    obtain ⟨_, _, htt⟩ := htt
    rw [htt.rest]
    rfl
  obtain ⟨hstage, hsprites⟩ := List.cons.inj (hbare h.forall₂)
  unfold bare
  rw [hstage, hsprites, h.rest]

namespace Legacy

/-- A sprite of a document without scripts. -/
def SpriteEntry.bare (s : SpriteEntry) : SpriteEntry :=
  { s with target := { s.target with scripts := [] } }

/-- **A document without scripts.** -/
def Document.bare (d : Document) : Document :=
  { d with
    stage := { d.stage with scripts := [] }
    sprites := d.sprites.map SpriteEntry.bare }

/-- **The scripts of a document**, target by target, those of the stage first. -/
def Document.scripts (d : Document) : List (List Script) :=
  d.stage.scripts :: d.sprites.map (fun s => s.target.scripts)

/-- A sprite is what it is without scripts, and its scripts. -/
theorem SpriteEntry.eq_of_bare {s s' : SpriteEntry} (hbare : s.bare = s'.bare)
    (hscripts : s.target.scripts = s'.target.scripts) : s = s' :=
  congrArg₂ (fun (b : SpriteEntry) scripts =>
    { b with target := { b.target with scripts := scripts } }) hbare hscripts

/-- **A document is what it is without scripts, and its scripts.** -/
theorem Document.eq_of_bare {d d' : Document} (hbare : d.bare = d'.bare)
    (hscripts : d.scripts = d'.scripts) : d = d' := by
  have hinjective : Function.Injective (fun s : SpriteEntry => (s.bare, s.target.scripts)) :=
    fun _ _ h => SpriteEntry.eq_of_bare (Prod.mk.inj h).1 (Prod.mk.inj h).2
  obtain ⟨hfirst, hrest⟩ := List.cons.inj hscripts
  have hsprites : d.sprites.map SpriteEntry.bare = d'.sprites.map SpriteEntry.bare :=
    congrArg Document.sprites hbare
  have hall : d.sprites = d'.sprites := by
    refine hinjective.list_map ?_
    rw [← List.zip_map', ← List.zip_map', hsprites, hrest]
  calc d = { d.bare with
        stage := { d.bare.stage with scripts := d.stage.scripts }
        sprites := d.sprites } := rfl
    _ = { d'.bare with
        stage := { d'.bare.stage with scripts := d'.stage.scripts }
        sprites := d'.sprites } := by rw [hbare, hfirst, hall]
    _ = d' := rfl

section Encode

variable (options : Options)

/-- The first sprite is written before the others. -/
theorem run_encodeSprites_cons (s : Target × Nat) (rest : List (Target × Nat))
    (table : AssetTable) :
    ((s :: rest).mapM (encodeSprite options)).run table
      = (((encodeSprite options s).run table).1
          :: ((rest.mapM (encodeSprite options)).run ((encodeSprite options s).run table).2).1,
        ((rest.mapM (encodeSprite options)).run ((encodeSprite options s).run table).2).2) := by
  rw [List.mapM_cons]
  rfl

/-- Sprites are written without their scripts as they are written with them, except for
the scripts. -/
theorem run_encodeSprites (sprites : List Target) (index : Nat) (table : AssetTable) :
    let written := ((sprites.zipIdx index).mapM (encodeSprite options)).run table
    let bare := (((sprites.map Target.bare).zipIdx index).mapM (encodeSprite options)).run table
    written.1.map SpriteEntry.bare = bare.1 ∧ written.2 = bare.2
      ∧ written.1.map (fun s => s.target.scripts) = sprites.map emitScripts := by
  induction sprites generalizing index table with
  | nil => exact ⟨rfl, rfl, rfl⟩
  | cons s rest ih =>
    obtain ⟨hbare, htable, hscripts⟩ :=
      ih (index + 1) ((encodeSprite options (s.bare, index)).run table).2
    dsimp only
    rw [List.map_cons, List.zipIdx_cons, List.zipIdx_cons, run_encodeSprites_cons,
      run_encodeSprites_cons]
    exact ⟨congrArg (_ :: ·) hbare, htable, congrArg (_ :: ·) hscripts⟩

/-- The table of assets when the sprites are written. -/
def tableOfSprites (p : Project) : AssetTable :=
  ((encodePen options).run ((encodeTarget options p.stage).run []).2).2

/-- **Without scripts the document is the same**, and so is the table of assets. -/
theorem bare_encode (p : Project) :
    (encode options p).1.bare = (encode options p.bare).1
      ∧ (encode options p).2 = (encode options p.bare).2 := by
  obtain ⟨hbare, htable, -⟩ := run_encodeSprites options p.sprites 0 (tableOfSprites options p)
  exact ⟨congrArg (fun sprites => { (encode options p.bare).1 with sprites := sprites }) hbare,
    htable⟩

/-- **The scripts of a document** are those that the scripts of each target are
translated into. -/
theorem scripts_encode (p : Project) :
    (encode options p).1.scripts = p.targets.map emitScripts := by
  obtain ⟨-, -, hscripts⟩ := run_encodeSprites options p.sprites 0 (tableOfSprites options p)
  exact congrArg (emitScripts p.stage :: ·) hscripts

/-- **Projects that are the same without scripts** have the same document without
scripts, and the same table of assets. -/
theorem bare_encode_of_bare_eq {p p' : Project} (h : p'.bare = p.bare) :
    (encode options p').1.bare = (encode options p).1.bare
      ∧ (encode options p').2 = (encode options p).2 := by
  rw [(bare_encode options p').1, (bare_encode options p).1, (bare_encode options p').2,
    (bare_encode options p).2, h]
  exact ⟨rfl, rfl⟩

end Encode

end Legacy

end ScratchLegacy
