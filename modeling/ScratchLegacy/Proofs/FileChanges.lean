import Mathlib.Logic.Relation
import ScratchLegacy.FileTree

/-!
# What an effect changes in a file tree

Writing a file changes what is at one location, and making directories puts
directories where nothing was. `FileTree.ChangesOnly` says this about two
trees, before and after any number of effects: what is different is at a path
from which the effects are known to write, or else a new directory.

The paths are read in the tree *after* the effects. A path may lead nowhere
at first and to a file once a directory on its way is made; but directories
stay, so what a path names is never taken from it
(`FileTree.KeepsDirectories.locate?_eq`). That is what makes the relation
transitive.
-/

namespace ScratchLegacy

namespace FileTree

variable {files directories files' directories' : String → Prop}
variable {before between after tree : FileTree} {path : String} {location : Location}

/-! ## Directories stay -/

/-- **Every directory stays**, and paths begin where they did. -/
structure KeepsDirectories (before after : FileTree) : Prop where
  origin : after.origin = before.origin
  complete : after.complete = before.complete
  stays : ∀ location, before.hasDirectory location = true → after.hasDirectory location = true

namespace KeepsDirectories

theorem refl (tree : FileTree) : KeepsDirectories tree tree := ⟨rfl, rfl, fun _ h => h⟩

theorem trans (h₁ : KeepsDirectories before between) (h₂ : KeepsDirectories between after) :
    KeepsDirectories before after :=
  ⟨h₂.origin.trans h₁.origin, h₂.complete.trans h₁.complete,
    fun location h => h₂.stays location (h₁.stays location h)⟩

theorem step?_eq (h : KeepsDirectories before after) {here there : Location} {part : String}
    (hs : before.step? here part = some there) : after.step? here part = some there := by
  unfold step? at hs ⊢
  cases hd : before.hasDirectory here with
  | false => simp [hd] at hs
  | true => simpa [hd, h.stays here hd, h.complete] using hs

/-- A walk that leads somewhere still leads there. -/
theorem walk_eq (h : KeepsDirectories before after) {parts : List String} {here there : Location}
    (hw : parts.foldlM before.step? here = some there) :
    parts.foldlM after.step? here = some there := by
  induction parts generalizing here with
  | nil => exact hw
  | cons part parts ih =>
    rw [List.foldlM_cons, Option.bind_eq_bind, Option.bind_eq_some_iff] at hw ⊢
    obtain ⟨next, hnext, hrest⟩ := hw
    exact ⟨next, h.step?_eq hnext, ih hrest⟩

/-- **A path goes on naming what it names.** -/
theorem locate?_eq (h : KeepsDirectories before after)
    (hl : before.locate? path = some location) : after.locate? path = some location := by
  have hroute : after.route? path = before.route? path := by
    unfold route?
    rw [h.origin, h.complete]
  unfold locate? at hl ⊢
  rw [hroute]
  split at hl
  · simp at hl
  · rename_i hlong
    obtain ⟨parts, hp, hw⟩ := Option.bind_eq_some_iff.1 hl
    rw [if_neg hlong, hp, Option.bind_some, h.walk_eq hw]

end KeepsDirectories

/-- What is read is a file at the location of its path. -/
theorem exists_location_of_read? {bytes : ByteArray} (h : tree.read? path = some bytes) :
    ∃ location, tree.locate? path = some location ∧ tree.node? location = some (.file bytes) := by
  unfold read? lookup? at h
  split at h
  · rename_i hnode
    obtain ⟨location, hl, hn⟩ := Option.bind_eq_some_iff.1 hnode
    exact ⟨location, hl, by rw [hn, Option.some.inj h]⟩
  · simp at h

/-! ## Changes at paths -/

/-- **All that changes is at these paths**: files are written at some, and
directories made at others where nothing was. -/
structure ChangesOnly (files directories : String → Prop) (before after : FileTree) : Prop
    extends KeepsDirectories before after where
  changed : ∀ location, after.node? location ≠ before.node? location →
    (∃ path, files path ∧ after.locate? path = some location ∧
      ∃ bytes, after.node? location = some (.file bytes)) ∨
    (∃ path, directories path ∧ after.locate? path = some location ∧
      before.node? location = none ∧ after.node? location = some .directory)

namespace ChangesOnly

theorem refl (tree : FileTree) : ChangesOnly files directories tree tree :=
  ⟨.refl tree, fun _ h => absurd rfl h⟩

theorem mono (h : ChangesOnly files directories before after)
    (hfiles : ∀ path, files path → files' path)
    (hdirectories : ∀ path, directories path → directories' path) :
    ChangesOnly files' directories' before after where
  toKeepsDirectories := h.toKeepsDirectories
  changed location hne := by
    obtain ⟨path, hp, hrest⟩ | ⟨path, hp, hrest⟩ := h.changed location hne
    · exact .inl ⟨path, hfiles path hp, hrest⟩
    · exact .inr ⟨path, hdirectories path hp, hrest⟩

/-- Where nothing is afterwards, nothing was before. -/
theorem node?_eq_none (h : ChangesOnly files directories before after)
    (hnone : after.node? location = none) : before.node? location = none := by
  cases hb : before.node? location with
  | none => rfl
  | some node =>
    have hne : after.node? location ≠ before.node? location := by simp [hnone, hb]
    obtain ⟨-, -, -, bytes, hfile⟩ | ⟨-, -, -, -, hmade⟩ := h.changed location hne
    · simp [hnone] at hfile
    · simp [hnone] at hmade

/-- **Effects one after the other.** -/
theorem trans (h₁ : ChangesOnly files directories before between)
    (h₂ : ChangesOnly files directories between after) :
    ChangesOnly files directories before after where
  toKeepsDirectories := h₁.toKeepsDirectories.trans h₂.toKeepsDirectories
  changed location hne := by
    by_cases hsecond : after.node? location = between.node? location
    · -- Only the first effect reached it, and its path still leads there.
      rw [hsecond] at hne ⊢
      obtain ⟨path, hp, hl, hnode⟩ | ⟨path, hp, hl, hnode⟩ := h₁.changed location hne
      · exact .inl ⟨path, hp, h₂.locate?_eq hl, hnode⟩
      · exact .inr ⟨path, hp, h₂.locate?_eq hl, hnode⟩
    · obtain hfile | ⟨path, hp, hl, hnone, hmade⟩ := h₂.changed location hsecond
      · exact .inl hfile
      · exact .inr ⟨path, hp, hl, h₁.node?_eq_none hnone, hmade⟩

/-- A file stays one, whether or not it is written. -/
theorem exists_file (h : ChangesOnly files directories before after)
    (hfile : ∃ bytes, before.node? location = some (.file bytes)) :
    ∃ bytes, after.node? location = some (.file bytes) := by
  by_cases hne : after.node? location = before.node? location
  · rwa [hne]
  · obtain ⟨-, -, -, hwritten⟩ | ⟨-, -, -, hnone, -⟩ := h.changed location hne
    · exact hwritten
    · obtain ⟨bytes, hbytes⟩ := hfile
      simp [hnone] at hbytes

/-- **A file that is not written keeps its bytes**: no path that is written
names it. -/
theorem read?_eq (h : ChangesOnly files directories before after)
    (hl : before.locate? path = some location)
    (hfile : ∃ bytes, before.node? location = some (.file bytes))
    (hother : ∀ other, files other → after.locate? other ≠ some location) :
    after.read? path = before.read? path := by
  have hnode : after.node? location = before.node? location := by
    refine Classical.byContradiction fun hne => ?_
    obtain ⟨other, ho, hlo, -⟩ | ⟨-, -, -, hnone, -⟩ := h.changed location hne
    · exact hother other ho hlo
    · obtain ⟨bytes, hbytes⟩ := hfile
      simp [hnone] at hbytes
  simp only [read?, lookup?, hl, h.locate?_eq hl, Option.bind_some, hnode]

end ChangesOnly

/-! ## The effects -/

theorem ne_nil_of_hasDirectory (h : tree.hasDirectory location = false) : location ≠ [] := by
  rintro rfl
  simp [hasDirectory, node?] at h

/-- Something is put at a path in place of what is no directory. -/
theorem changesOnly_put {node : Node} (hl : tree.locate? path = some location)
    (hd : tree.hasDirectory location = false)
    (hnode : (files path ∧ ∃ bytes, node = .file bytes) ∨
      (directories path ∧ tree.node? location = none ∧ node = .directory)) :
    ChangesOnly files directories tree (tree.put location node) := by
  have hput := fun other => node?_put tree location other node (ne_nil_of_hasDirectory hd)
  have hkeeps : KeepsDirectories tree (tree.put location node) := by
    refine ⟨rfl, rfl, fun other ho => ?_⟩
    have hne : location ≠ other := by
      rintro rfl
      simp [hd] at ho
    simpa only [hasDirectory, hput, if_neg hne] using ho
  refine ⟨hkeeps, fun other hne => ?_⟩
  obtain rfl : location = other := by
    refine Classical.byContradiction fun ho => hne ?_
    rw [hput, if_neg ho]
  have hthere : (tree.put location node).node? location = some node := by rw [hput, if_pos rfl]
  obtain ⟨hf, bytes, rfl⟩ | ⟨hdir, hnone, rfl⟩ := hnode
  · exact .inl ⟨path, hf, hkeeps.locate?_eq hl, bytes, hthere⟩
  · exact .inr ⟨path, hdir, hkeeps.locate?_eq hl, hnone, hthere⟩

/-- **What writing does**: it puts a file where its path leads, if no directory is there. -/
theorem exists_put_of_write? {bytes : ByteArray} (h : tree.write? path bytes = some after) :
    ∃ location, tree.locate? path = some location ∧ tree.hasDirectory location = false ∧
      after = tree.put location (.file bytes) := by
  unfold write? at h
  split at h
  · simp at h
  · rename_i location hl
    split at h
    · simp at h
    · rename_i hd
      exact ⟨location, hl, by simpa using hd, (Option.some.inj h).symm⟩

/-- **Writing a file** changes what is at its path. -/
theorem changesOnly_write? {bytes : ByteArray} (h : tree.write? path bytes = some after)
    (hf : files path) : ChangesOnly files directories tree after := by
  obtain ⟨location, hl, hd, rfl⟩ := exists_put_of_write? h
  exact changesOnly_put hl hd (.inl ⟨hf, bytes, rfl⟩)

/-- **A file that was written is read back.** -/
theorem read?_write? {bytes : ByteArray} (h : tree.write? path bytes = some after) :
    after.read? path = some bytes := by
  have hkeeps : ChangesOnly (fun _ => True) (fun _ => True) tree after :=
    changesOnly_write? h trivial
  obtain ⟨location, hl, hd, rfl⟩ := exists_put_of_write? h
  have hroot := ne_nil_of_hasDirectory hd
  simp [read?, lookup?, hkeeps.locate?_eq hl, node?_put tree _ _ _ hroot]

/-- Making one directory changes what is at its path. -/
theorem changesOnly_makeDirectory (h : tree.makeDirectory path = .made after)
    (hd : directories path) : ChangesOnly files directories tree after := by
  unfold makeDirectory at h
  split at h
  · simp at h
  split at h
  · rename_i location hl
    split at h
    · rename_i hnone
      obtain rfl := Making.made.inj h
      exact changesOnly_put hl (by simp [hasDirectory, hnone]) (.inr ⟨hd, hnone, rfl⟩)
    · simp at h
    · simp at h
  · simp at h

end FileTree

/-- **A directory of a path**: the one that it is in, or one that this is in,
and so on. -/
def Path.IsIn : String → String → Prop :=
  Relation.TransGen (fun path directory => Path.parent? path = some directory)

/-- **Making a directory and those on its way** changes what is at its path
and at those of its directories, also where it fails. -/
theorem FileTree.changesOnly_makeDirectories {files directories : String → Prop}
    (tree : FileTree) (path : String) (hd : directories path)
    (hall : ∀ directory, Path.IsIn path directory → directories directory) :
    ChangesOnly files directories tree (tree.makeDirectories path).1 := by
  fun_induction makeDirectories tree path with
  | case2 path _ after hmade => exact changesOnly_makeDirectory hmade hd
  | case6 path _ _ parent hparent between hrest ih
  | case8 path _ _ parent hparent between hrest _ ih
  | case9 path _ _ parent hparent between hrest _ _ ih =>
    -- Only directories on the way were made.
    have hway := ih (hall parent (.single hparent)) (fun d h => hall d (.head hparent h))
    rwa [hrest] at hway
  | case7 path _ _ parent hparent between hrest after hmade ih =>
    have hway := ih (hall parent (.single hparent)) (fun d h => hall d (.head hparent h))
    rw [hrest] at hway
    exact hway.trans (changesOnly_makeDirectory hmade hd)
  | _ => exact .refl tree

end ScratchLegacy
