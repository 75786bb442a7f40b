import ScratchLegacy.Path

/-!
# File trees

A file tree has files and directories at locations, and a location is the
list of names on the way from its root. The root is always a directory.

A path names a location only if every directory on its way exists:
`FileTree.locate?` walks over its parts, `..` included, and a walk through
something that is no directory leads nowhere. Only the last part may be
missing, as the name of a file still to be written.

A relative path begins at the origin of the tree. A tree may be the tree of
all files; then absolute paths begin at its root, and `..` stays there. In a
tree that is a part of that one, absolute paths and walks out of the root
lead nowhere.
-/

namespace ScratchLegacy

/-- **The names from the root to a file or directory.** -/
abbrev Location := List String

/-- **What is at a location.** -/
inductive Node where
  | file (bytes : ByteArray)
  | directory
deriving Inhabited

/-- **Files and directories by location.** -/
structure FileTree where
  nodes : List (Location × Node) := []
  /-- The location where relative paths begin. -/
  origin : Location := []
  /-- Whether these are all files. -/
  complete : Bool := false
deriving Inhabited

namespace FileTree

/-- The most bytes that the name of a file or directory may have. -/
def maxNameSize : Nat := 255

/-- The most bytes that a path may have, however few names are left of it. -/
def maxPathSize : Nat := 4095

/-- What is at a location. -/
def node? (tree : FileTree) (location : Location) : Option Node :=
  if location = [] then some .directory
  else (tree.nodes.find? (fun entry => entry.1 = location)).map Prod.snd

/-- A tree with something at a location, in place of what was there. -/
def put (tree : FileTree) (location : Location) (node : Node) : FileTree :=
  { tree with
    nodes := (location, node) :: tree.nodes.filter (fun entry => entry.1 ≠ location) }

/-- Whether a directory is at a location. -/
def hasDirectory (tree : FileTree) (location : Location) : Bool :=
  match tree.node? location with
  | some .directory => true
  | _ => false

/-- One step of a walk from a location. -/
def step? (tree : FileTree) (here : Location) (part : String) : Option Location :=
  if !tree.hasDirectory here then none
  else if part = "" ∨ part = "." then some here
  else if part = ".." then (if here = [] ∧ !tree.complete then none else some here.dropLast)
  else if part.utf8ByteSize ≤ maxNameSize ∧ !part.toList.contains '\x00' then
    some (here ++ [part])
  else none

/-- The parts that lead from the root to where a path leads, none for an
absolute path in a tree that is not that of all files. -/
def route? (tree : FileTree) (path : String) : Option (List String) :=
  if Path.isAbsolute path then if tree.complete then some (Path.parts path) else none
  else some (tree.origin ++ Path.parts path)

/-- **The location that a path names**, whether or not something is there. -/
def locate? (tree : FileTree) (path : String) : Option Location :=
  if path = "" ∨ maxPathSize < path.utf8ByteSize then none
  else (tree.route? path).bind (fun parts => parts.foldlM tree.step? [])

/-- What a path names. -/
def lookup? (tree : FileTree) (path : String) : Option Node :=
  (tree.locate? path).bind tree.node?

/-- The bytes of the file that a path names. -/
def read? (tree : FileTree) (path : String) : Option ByteArray :=
  match tree.lookup? path with
  | some (.file bytes) => some bytes
  | _ => none

/-- **The tree after a file is written**, absent when it cannot be: the path
must name a location that is no directory. -/
def write? (tree : FileTree) (path : String) (bytes : ByteArray) : Option FileTree :=
  match tree.locate? path with
  | none => none
  | some location =>
    if tree.hasDirectory location then none else some (tree.put location (.file bytes))

/-- **What comes of making one directory.** -/
inductive Making where
  | made (tree : FileTree)
  /-- A directory on the way is missing. -/
  | missingParent
  /-- It is there already. -/
  | present
  /-- Something else is in the way. -/
  | blocked
deriving Inhabited

/-- Making the directory that a path names. A path that leads nowhere is
missing a parent, unless it can lead nowhere in the tree. -/
def makeDirectory (tree : FileTree) (path : String) : Making :=
  if tree.route? path = none then .blocked
  else
    match tree.locate? path with
    | some location =>
      match tree.node? location with
      | none => .made (tree.put location .directory)
      | some .directory => .present
      | some (.file _) => .blocked
    | none => .missingParent

/-- **Making a directory with every directory on its way.** What was made on
the way stays even when the rest fails. -/
def makeDirectories (tree : FileTree) (path : String) : FileTree × Bool :=
  if path = "" then (tree, true)
  else
    match tree.makeDirectory path with
    | .made tree => (tree, true)
    | .present => (tree, true)
    | .blocked => (tree, false)
    | .missingParent =>
      match _hparent : Path.parent? path with
      | none => (tree, false)
      | some parent =>
        match makeDirectories tree parent with
        | (tree, false) => (tree, false)
        | (tree, true) =>
          match tree.makeDirectory path with
          | .made tree => (tree, true)
          | .present => (tree, true)
          | _ => (tree, false)
termination_by path.toList.length
decreasing_by exact Path.length_parent_lt _hparent

/-- What is at a location after something is put somewhere. -/
theorem node?_put (tree : FileTree) (location other : Location) (node : Node)
    (h : location ≠ []) :
    (tree.put location node).node? other
      = if location = other then some node else tree.node? other := by
  by_cases hl : location = other
  · subst hl
    simp [put, node?, h]
  · by_cases ho : other = []
    · subst ho
      simp [node?, h]
    · have hfind : (tree.nodes.filter (fun entry => entry.1 ≠ location)).find?
          (fun entry => entry.1 = other) = tree.nodes.find? (fun entry => entry.1 = other) := by
        rw [List.find?_filter]
        congr 1
        funext entry
        by_cases he : entry.1 = other
        · simp [he, Ne.symm hl]
        · simp [he]
      simp only [put, node?, hl, ho, if_false, List.find?_cons, decide_false, hfind]

end FileTree

end ScratchLegacy
