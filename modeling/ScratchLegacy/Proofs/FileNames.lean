import Mathlib.Data.List.Infix
import Mathlib.Data.List.TakeWhile
import ScratchLegacy.FileTree

/-!
# The last name of a path

Where nothing or a file is, the path that leads there ends in its name: the
parts `.` and `..` and the empty part lead to directories only. So two paths
of one file agree in their last parts (`FileTree.getLast?_of_locate?`).

What the functions of `Path` say about a text can therefore be said about a
file. `FileTree.withExtension_eq_self` is such a statement: a path whose extension
was replaced still names the same file only if the file had that extension
before.
-/

namespace ScratchLegacy

/-! ## The text of a path -/

namespace Path

/-- **A text that a part can follow**: nothing, or what ends in a slash. -/
def IsLead (before : List Char) : Prop := before = [] ∨ ∃ cs, before = cs ++ ['/']

variable {before name : List Char}

/-- **What stands behind the last delimiter**, read from the end. -/
theorem takeWhile_reverse {c : Char} (hb : before = [] ∨ ∃ cs, before = cs ++ [c])
    (hn : c ∉ name) : (before ++ name).reverse.takeWhile (· ≠ c) = name.reverse := by
  have hname : ∀ d ∈ name.reverse, decide (d ≠ c) = true := by
    intro d hd
    simpa using fun h : d = c => hn (h ▸ List.mem_reverse.1 hd)
  rw [List.reverse_append, List.takeWhile_append_of_pos hname]
  obtain rfl | ⟨cs, rfl⟩ := hb <;> simp

/-- Every path is a lead with a part behind it. -/
theorem exists_lead (path : String) :
    ∃ before name, path = String.ofList (before ++ name) ∧ IsLead before ∧ '/' ∉ name := by
  let reversed := path.toList.reverse
  refine ⟨(reversed.dropWhile (· ≠ '/')).reverse, (reversed.takeWhile (· ≠ '/')).reverse,
    ?_, ?_, ?_⟩
  · rw [← List.reverse_append, List.takeWhile_append_dropWhile, List.reverse_reverse,
      String.ofList_toList]
  · cases hrest : reversed.dropWhile (· ≠ '/') with
    | nil => exact .inl rfl
    | cons c rest =>
      have hc := List.head?_dropWhile_not (fun c => decide (c ≠ '/')) reversed
      rw [hrest] at hc
      have : c = '/' := by simpa using hc
      exact .inr ⟨rest.reverse, by rw [List.reverse_cons, this]⟩
  · intro hmem
    have := List.mem_takeWhile_imp (List.mem_reverse.1 hmem)
    simp at this

/-- The last part of a path is what stands behind its last slash. -/
theorem getLast?_parts (hb : IsLead before) (hn : '/' ∉ name) :
    (parts (String.ofList (before ++ name))).getLast? = some (String.ofList name) := by
  have hall : ∀ part ∈ [name], '/' ∉ part := by simpa using hn
  have hname : name.splitOn '/' = [name] := by
    simpa using List.splitOn_intercalate '/' hall (by simp)
  unfold parts
  rw [String.toList_ofList, List.getLast?_map]
  obtain rfl | ⟨cs, rfl⟩ := hb
  · simp [hname]
  · rw [List.append_assoc, List.singleton_append, List.splitOn_append_cons_self, hname]
    simp

/-- A part that is neither empty nor `.` has nothing to drop behind it. -/
theorem dropTail_reverse (hn : '/' ∉ name) (hne : name ≠ []) (hdot : name ≠ ['.']) :
    dropTail (before ++ name).reverse = (before ++ name).reverse := by
  obtain rfl | ⟨cs, c, rfl⟩ := List.eq_nil_or_concat' name
  · exact absurd rfl hne
  · have hc : c ≠ '/' := fun h => hn (by simp [h])
    obtain rfl | ⟨ds, d, rfl⟩ := List.eq_nil_or_concat' cs
    · have hdot' : c ≠ '.' := fun h => hdot (by simp [h])
      simp [dropTail, hc, hdot']
    · have hd : d ≠ '/' := fun h => hn (by simp [h])
      simp [dropTail, hc, hd]

/-- Such a part is the one that a path is split at. -/
theorem split_ofList (hb : IsLead before) (hn : '/' ∉ name) (hne : name ≠ [])
    (hdot : name ≠ ['.']) : split (String.ofList (before ++ name)) = (before, name) := by
  unfold split
  rw [String.toList_ofList, dropTail_reverse hn hne hdot]
  simp only [takeWhile_reverse hb hn, List.length_reverse, List.reverse_reverse,
    Prod.mk.injEq, and_true]
  rw [List.reverse_append, List.drop_left' (by simp), List.reverse_reverse]

/-! ### The stem of a name -/

theorem stem_ne_nil (hne : name ≠ []) : (splitExtension name).1 ≠ [] := by
  unfold splitExtension
  dsimp only
  split
  · exact hne
  · rename_i h
    exact h

/-- The stem of a name is some of its characters. -/
theorem mem_of_mem_stem {c : Char} (h : c ∈ (splitExtension name).1) : c ∈ name := by
  unfold splitExtension at h
  dsimp only at h
  split at h
  · exact h
  · exact List.mem_of_mem_take (List.mem_of_mem_dropLast h)

/-- A name is cut at its last dot. -/
theorem splitExtension_append {stem extension : List Char} (hne : stem ≠ [])
    (hdot : '.' ∉ extension) :
    splitExtension (stem ++ '.' :: extension) = (stem, some extension) := by
  have htake : (stem ++ '.' :: extension).reverse.takeWhile (· ≠ '.') = extension.reverse := by
    rw [List.append_cons, takeWhile_reverse (.inr ⟨stem, rfl⟩) hdot]
  have hbefore : (stem ++ '.' :: extension).take
      ((stem ++ '.' :: extension).length - extension.length) = stem ++ ['.'] := by
    rw [List.append_cons, List.length_append, Nat.add_sub_cancel, List.take_left]
  unfold splitExtension
  simp only [htake, List.reverse_reverse, hbefore, List.dropLast_concat]

/-! ### The path with another extension -/

/-- A name of a file in a directory: not one of the parts that name a
directory. -/
def IsName (name : List Char) : Prop :=
  '/' ∉ name ∧ name ≠ [] ∧ name ≠ ['.'] ∧ name ≠ ['.', '.']

theorem fileName?_ofList (hb : IsLead before) (hn : IsName name) :
    fileName? (String.ofList (before ++ name)) = some name := by
  obtain ⟨hslash, hne, hdot, hdots⟩ := hn
  unfold fileName?
  rw [split_ofList hb hslash hne hdot]
  simp [hne, hdot, hdots]

/-- The extension is replaced in the last part, which is all that changes. -/
theorem withExtension_ofList (hb : IsLead before) (hn : IsName name) (extension : String) :
    withExtension (String.ofList (before ++ name)) extension
      = String.ofList (before ++ if (splitExtension name).1 = ['.'] then ['.', '.']
          else (splitExtension name).1 ++ '.' :: extension.toList) := by
  have hsplit := split_ofList hb hn.1 hn.2.1 hn.2.2.1
  unfold withExtension
  rw [fileName?_ofList hb hn]
  simp only [hsplit, String.toList_ofList, and_true]
  split
  · rfl
  · rw [List.append_assoc]

end Path

/-! ## Where a path leads -/

namespace FileTree

variable {tree : FileTree} {here there location : Location} {part path : String}

/-- **Two paths of one file**, or of one directory: they lead to the same
location. -/
def SameFile (tree : FileTree) (path other : String) : Prop :=
  ∃ location, tree.locate? path = some location ∧ tree.locate? other = some location

/-- **Every location on the way is a directory.** -/
def IsOpen (tree : FileTree) (location : Location) : Prop :=
  ∀ way, way <+: location → way ≠ location → tree.hasDirectory way = true

/-- The parts that lead to directories only. -/
def directoryParts : List String := ["", ".", ".."]

theorem hasDirectory_of_step? (h : tree.step? here part = some there) :
    tree.hasDirectory here = true := by
  unfold step? at h
  split at h
  · simp at h
  · rename_i hd
    simpa using hd

/-- A step leads to a name in a directory, or else back to what is on the
way already. -/
theorem step?_cases (h : tree.step? here part = some there) :
    (there = here ∨ there = here.dropLast) ∨ (there = here ++ [part] ∧ part ∉ directoryParts) := by
  unfold step? at h
  split at h
  · simp at h
  split at h
  · exact .inl (.inl (Option.some.inj h).symm)
  split at h
  · split at h
    · simp at h
    · exact .inl (.inr (Option.some.inj h).symm)
  split at h
  · refine .inr ⟨(Option.some.inj h).symm, ?_⟩
    simp_all [directoryParts]
  · simp at h

/-- A step goes through directories. -/
theorem IsOpen.step (ho : tree.IsOpen here) (h : tree.step? here part = some there) :
    tree.IsOpen there := by
  have hd := hasDirectory_of_step? h
  -- What is on the way to a prefix of an open directory is a directory.
  have hback : ∀ way, way <+: here → tree.hasDirectory way = true := by
    intro way hw
    by_cases he : way = here
    · rw [he, hd]
    · exact ho way hw he
  intro way hw hne
  obtain (rfl | rfl) | ⟨rfl, -⟩ := step?_cases h
  · exact hback way hw
  · exact hback way (hw.trans (List.dropLast_prefix here))
  · exact hback way ((List.prefix_concat_iff.1 hw).resolve_left hne)

/-- A walk goes through directories. -/
theorem IsOpen.walk {parts : List String} (ho : tree.IsOpen here)
    (h : parts.foldlM tree.step? here = some there) : tree.IsOpen there := by
  induction parts generalizing here with
  | nil =>
    obtain rfl : here = there := by simpa using h
    exact ho
  | cons part parts ih =>
    rw [List.foldlM_cons, Option.bind_eq_bind, Option.bind_eq_some_iff] at h
    obtain ⟨next, hstep, hrest⟩ := h
    exact ih (ho.step hstep) hrest

/-- The route of a path ends in its last part. -/
theorem getLast?_of_route? {parts : List String} (h : tree.route? path = some parts) :
    parts.getLast? = (Path.parts path).getLast? := by
  have hne : Path.parts path ≠ [] := by simp [Path.parts]
  unfold route? at h
  split at h
  · split at h
    · rw [Option.some.inj h]
    · simp at h
  · obtain rfl := Option.some.inj h
    rw [List.getLast?_append_of_ne_nil _ hne]

/-- **A path to what is no directory ends in its name.** -/
theorem getLast?_of_locate? (h : tree.locate? path = some location)
    (hd : tree.hasDirectory location = false) :
    ∃ part ∉ directoryParts,
      location.getLast? = some part ∧ (Path.parts path).getLast? = some part := by
  unfold locate? at h
  split at h
  · simp at h
  · obtain ⟨parts, hroute, hwalk⟩ := Option.bind_eq_some_iff.1 h
    rw [← getLast?_of_route? hroute]
    obtain rfl | ⟨init, part, rfl⟩ := List.eq_nil_or_concat' parts
    · -- The empty route leads to the root, a directory.
      obtain rfl : [] = location := by simpa using hwalk
      simp [hasDirectory, node?] at hd
    · rw [List.foldlM_append, Option.bind_eq_bind, Option.bind_eq_some_iff] at hwalk
      obtain ⟨here, hinit, hlast⟩ := hwalk
      have hstep : tree.step? here part = some location := by simpa using hlast
      have hroot : tree.IsOpen [] := fun way hw hne => absurd (List.prefix_nil.1 hw) hne
      have hhere := hasDirectory_of_step? hstep
      refine ⟨part, ?_⟩
      obtain (rfl | rfl) | ⟨rfl, hpart⟩ := step?_cases hstep
      · simp [hhere] at hd
      · by_cases hnil : here = []
        · simp [hnil, hasDirectory, node?] at hd
        · have hshort : here.dropLast ≠ here := fun heq => by
            have := congrArg List.length heq
            have := List.length_pos_iff.2 hnil
            rw [List.length_dropLast] at *
            omega
          have hopen := (hroot.walk hinit) _ (List.dropLast_prefix here) hshort
          simp [hopen] at hd
      · exact ⟨hpart, by simp, by simp⟩

/-- A path that is a name leads to that name where paths begin. -/
theorem locate?_name {name : String} (horigin : tree.origin = [])
    (hparts : Path.parts name = [name]) (habsolute : Path.isAbsolute name = false)
    (hname : name ∉ directoryParts) (hsize : name.utf8ByteSize ≤ maxNameSize)
    (hnul : '\x00' ∉ name.toList) : tree.locate? name = some [name] := by
  have hlong : ¬ maxPathSize < name.utf8ByteSize := by
    unfold maxPathSize
    unfold maxNameSize at hsize
    omega
  simp only [directoryParts, List.mem_cons, List.not_mem_nil, or_false, not_or] at hname
  simp [locate?, route?, habsolute, horigin, hparts, hlong, step?, hasDirectory, node?, hname,
    hsize, hnul]

/-- **The other extension was the extension.** Where a file is named by its
path with an extension put in place of the old one, it had that extension, and
the path is the same. -/
theorem withExtension_eq_self {extension : String} (hdot : '.' ∉ extension.toList)
    (hslash : '/' ∉ extension.toList) (h : tree.locate? path = some location)
    (hd : tree.hasDirectory location = false)
    (hsame : tree.locate? (Path.withExtension path extension) = some location) :
    Path.withExtension path extension = path ∧ Path.extension? path = some extension := by
  obtain ⟨part, hpart, hlast, hparts⟩ := getLast?_of_locate? h hd
  obtain ⟨part', hpart', hlast', hparts'⟩ := getLast?_of_locate? hsame hd
  obtain rfl : part = part' := by simpa [hlast] using hlast'
  obtain ⟨before, name, rfl, hb, hn⟩ := Path.exists_lead path
  obtain rfl : String.ofList name = part := by
    simpa only [Path.getLast?_parts hb hn, Option.some.injEq] using hparts
  have hname : Path.IsName name := by
    refine ⟨hn, ?_, ?_, ?_⟩ <;> rintro rfl <;> exact hpart (by decide)
  rw [Path.withExtension_ofList hb hname] at hparts' ⊢
  split at hparts'
  · rw [Path.getLast?_parts hb (by decide)] at hparts'
    exact absurd ((Option.some.inj hparts') ▸ hpart) (by decide)
  · rename_i hstem
    have hslash' : '/' ∉ (Path.splitExtension name).1 ++ '.' :: extension.toList := by
      simp only [List.mem_append, List.mem_cons, not_or]
      exact ⟨fun hm => hn (Path.mem_of_mem_stem hm), by decide, hslash⟩
    rw [Path.getLast?_parts hb hslash', Option.some.injEq, String.ofList_inj] at hparts'
    have hcut := Path.splitExtension_append (Path.stem_ne_nil hname.2.1) hdot
    rw [hparts'] at hcut
    refine ⟨by rw [if_neg hstem, hparts'], ?_⟩
    unfold Path.extension?
    rw [Path.fileName?_ofList hb hname, Option.bind_some, hcut, Option.map_some,
      String.ofList_toList]

end FileTree

end ScratchLegacy
