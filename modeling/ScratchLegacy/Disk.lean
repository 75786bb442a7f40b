import ScratchLegacy.FileTree

/-!
# Disks

A conversion reads and writes files and reports its progress. `Disk` names
these five effects, so that the conversion can be run on the files of a
computer, and be reasoned about on a `Workspace`, which is a value.

An effect that fails says so and has no more to tell.
-/

namespace ScratchLegacy

/-- **The effects of a conversion.** -/
class Disk (m : Type → Type) where
  /-- The full path of an existing file. -/
  fullPath? : String → m (Option String)
  /-- The bytes of a file. -/
  read? : String → m (Option ByteArray)
  /-- Writes a file, and says whether that worked. -/
  write : String → ByteArray → m Bool
  /-- Makes a directory and all directories on its way, and says whether that
  worked. -/
  makeDirectories : String → m Bool
  /-- Reports a line. -/
  report : String → m Unit

/-- **A file tree in which a conversion runs**, with the lines it reports. -/
structure Workspace where
  /-- The full path of the root of the tree, without a slash at its end. -/
  directory : String
  tree : FileTree
  lines : List String := []
deriving Inhabited

namespace Workspace

/-- The full path of an existing file. -/
def fullPath? (w : Workspace) (path : String) : Option String :=
  match w.tree.locate? path with
  | none => none
  | some location =>
    match w.tree.node? location with
    | some (.file _) => some ("/".intercalate (w.directory :: location))
    | _ => none

/-- The workspace after a file is written, and whether that worked. -/
def write (w : Workspace) (path : String) (bytes : ByteArray) : Bool × Workspace :=
  match w.tree.write? path bytes with
  | none => (false, w)
  | some tree => (true, { w with tree := tree })

/-- The workspace after a directory is made, and whether that worked. -/
def makeDirectories (w : Workspace) (path : String) : Bool × Workspace :=
  let (tree, made) := w.tree.makeDirectories path
  (made, { w with tree := tree })

/-- A workspace with one more line reported. -/
def report (w : Workspace) (line : String) : Workspace := { w with lines := w.lines ++ [line] }

end Workspace

instance : Disk (StateM Workspace) where
  fullPath? path := fun w => (w.fullPath? path, w)
  read? path := fun w => (w.tree.read? path, w)
  write path bytes := fun w => w.write path bytes
  makeDirectories path := fun w => w.makeDirectories path
  report line := fun w => ((), w.report line)

end ScratchLegacy
