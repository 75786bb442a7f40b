/-!
# Paths

A path is a text whose parts are separated by slashes. Slashes at its end,
and parts `.` at its end, do not matter for the name of the file: `a/b`,
`a/b/` and `a/b/.` all name `b` in `a`. The functions here work on the text
alone; what a path names is decided in `FileTree`.

They go through the characters in reverse, so that the end of the path, which
is where its name is, comes first.
-/

namespace ScratchLegacy.Path

/-- Reversed characters without the slashes and parts `.` in front of them. -/
def dropTail : List Char → List Char
  | '/' :: rest => dropTail rest
  | '.' :: '/' :: rest => dropTail rest
  | cs => cs

/-- **The last part of a path**: what precedes it, its slash included, and
the part itself. The part is empty for the empty path and the root. -/
def split (path : String) : List Char × List Char :=
  let reversed := dropTail path.toList.reverse
  let part := reversed.takeWhile (· ≠ '/')
  ((reversed.drop part.length).reverse, part.reverse)

/-- The name of the file: the last part, unless it stands for a directory in
itself. -/
def fileName? (path : String) : Option (List Char) :=
  let name := (split path).2
  if name = [] ∨ name = ['.'] ∨ name = ['.', '.'] then none else some name

/-- **A file name, cut at its last dot**: the stem, and the extension behind
the dot. A name without a dot, and a name whose only dot is its first
character, has no extension. -/
def splitExtension (name : List Char) : List Char × Option (List Char) :=
  let extension := (name.reverse.takeWhile (· ≠ '.')).reverse
  let before := name.take (name.length - extension.length)
  match before.dropLast with
  | [] => (name, none)
  | stem => (stem, some extension)

/-- The extension of the file that a path names. -/
def extension? (path : String) : Option String :=
  ((fileName? path).bind (fun name => (splitExtension name).2)).map String.ofList

/-- **A path with another extension**, or with one where it had none. A path
that names no file stays as it is. So does, without its old extension, a path
that ends in a name such as `..x`: what is left of it is the parent
directory. -/
def withExtension (path extension : String) : String :=
  match fileName? path with
  | none => path
  | some name =>
    let before := (split path).1
    let stem := (splitExtension name).1
    if stem = ['.'] ∧ path.toList = before ++ name then
      String.ofList (before ++ ['.', '.'])
    else String.ofList (before ++ stem ++ '.' :: extension.toList)

/-- **The directory that a path is in**: the empty path for a single part,
none for the root and the empty path. -/
def parent? (path : String) : Option String :=
  let (before, name) := split path
  if name = [] then none
  else
    match dropTail before.reverse with
    | [] => some (if before = [] then "" else "/")
    | reversed => some (String.ofList reversed.reverse)

/-- The parts of a path, empty ones and `.` included. -/
def parts (path : String) : List String := (path.toList.splitOn '/').map String.ofList

/-- Whether a path starts at the root of all files. -/
def isAbsolute (path : String) : Bool := path.toList.head? = some '/'

/-- Dropping the slashes of an end adds nothing. -/
theorem length_dropTail_le (cs : List Char) : (dropTail cs).length ≤ cs.length := by
  fun_induction dropTail cs <;> simp_all <;> omega

/-- The two parts of a split are no longer than the path. -/
theorem length_split_le (path : String) :
    (split path).1.length + (split path).2.length ≤ path.toList.length := by
  have h := length_dropTail_le path.toList.reverse
  have ht := (List.takeWhile_prefix (fun c => decide (c ≠ '/'))
    (l := dropTail path.toList.reverse)).length_le
  simp only [split, List.length_reverse, List.length_drop] at *
  omega

/-- The directory of a path is a shorter path. -/
theorem length_parent_lt {path parent : String} (h : parent? path = some parent) :
    parent.toList.length < path.toList.length := by
  have hsplit := length_split_le path
  unfold parent? at h
  rcases hs : split path with ⟨before, name⟩
  rw [hs] at h hsplit
  simp only at h hsplit
  split at h
  · simp at h
  · rename_i hname
    have hpos : 0 < name.length := List.length_pos_iff.2 hname
    have hdrop := length_dropTail_le before.reverse
    split at h
    · by_cases hb : before = []
      · simp only [hb, if_true, Option.some.injEq] at h
        subst h
        simp
        omega
      · have : 0 < before.length := List.length_pos_iff.2 hb
        simp only [hb, if_false, Option.some.injEq] at h
        subst h
        simp
        omega
    · simp only [Option.some.injEq] at h
      subst h
      simp only [String.toList_ofList, List.length_reverse] at *
      omega

end ScratchLegacy.Path
