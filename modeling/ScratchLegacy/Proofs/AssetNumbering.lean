import ScratchLegacy.Legacy.Document
import ScratchLegacy.Proofs.Sequences
import ScratchLegacy.Proofs.SlotOrder

/-!
# Assets in the order of their numbers

A table that is filled from a sequence of assets has, under each extension,
the assets of the sequence with that extension, in order
(`AssetTable.group_addAll`). The number that an asset gets on the way is the
number of those before it (`AssetTable.refs`), so it is the place of the asset
in its group from then on, whatever is added later (`AssetTable.Holds.addAll`).

`Legacy.Numbered` says what a sequence, the references to its assets and the
table have to do with each other, and `AssetTable.numbered_refs` that a table
filled from the sequence does it: every place of the table is referred to
exactly once, and every file of the table has a name of its own.
-/

namespace ScratchLegacy

namespace Legacy

/-- The digest that names the content of an asset. -/
def AssetSource.md5 : AssetSource → String
  | costume c => c.md5
  | sound s => s.md5

/-- **The place of a file in a table**: its extension and its number. -/
def AssetRef.place (r : AssetRef) : String × Nat := (r.ext, r.number)

/-- The name of the file at a place. -/
def fileName (place : String × Nat) : String :=
  String.ofList (Nat.toDigits 10 place.2) ++ "." ++ place.1

namespace AssetTable

/-! ## Filling a table -/

/-- A table with the assets of a sequence added, one after the other. -/
def addAll (table : AssetTable) (sources : List AssetSource) : AssetTable :=
  sources.foldl add table

/-- Sequences are added one after the other. -/
theorem addAll_append (table : AssetTable) (xs ys : List AssetSource) :
    table.addAll (xs ++ ys) = (table.addAll xs).addAll ys := List.foldl_append

/-- **A group grows by the assets with its extension**, in order. -/
theorem group_addAll (table : AssetTable) (sources : List AssetSource) (ext : String) :
    (table.addAll sources).group ext
      = table.group ext ++ sources.filter (fun s => s.ext = ext) := by
  induction sources generalizing table with
  | nil => exact (List.append_nil _).symm
  | cons s rest ih =>
    show ((table.add s).addAll rest).group ext = _
    rw [ih, group_add]
    by_cases h : s.ext = ext
    · rw [if_pos h, List.filter_cons_of_pos (by simpa using h), List.append_assoc]
      rfl
    · rw [if_neg h, List.filter_cons_of_neg (by simpa using h)]

/-- **A table as it is filled**: its extensions ascend, and no group is
empty. -/
structure Sorted (table : AssetTable) : Prop where
  keys : (table.map Prod.fst).Pairwise (· < ·)
  nonempty : ∀ e ∈ table, e.2 ≠ []

/-- Filling keeps a table sorted. -/
theorem Sorted.addAll {table : AssetTable} (h : table.Sorted) (sources : List AssetSource) :
    (table.addAll sources).Sorted := by
  induction sources generalizing table with
  | nil => exact h
  | cons s rest ih =>
    have hnonempty : ∀ e ∈ table.add s, e.2 ≠ [] := by
      intro e he
      rcases SlotMap.mem_insert he with rfl | he
      · exact List.append_ne_nil_of_right_ne_nil _ (List.cons_ne_nil _ _)
      · exact h.nonempty e he
    exact ih ⟨SlotMap.pairwise_insert h.keys, hnonempty⟩

/-- The extensions of a sorted table differ. -/
theorem Sorted.nodup {table : AssetTable} (h : table.Sorted) : (table.map Prod.fst).Nodup :=
  h.keys.imp ne_of_lt

/-- The entries of a sorted table are its groups. -/
theorem Sorted.mem_iff {table : AssetTable} (h : table.Sorted) {ext : String}
    {group : List AssetSource} :
    (ext, group) ∈ table ↔ group ≠ [] ∧ group = table.group ext := by
  constructor
  · intro hmem
    refine ⟨h.nonempty _ hmem, ?_⟩
    rw [AssetTable.group, SlotMap.find?_of_mem h.nodup hmem]
    rfl
  · rintro ⟨hne, hgroup⟩
    cases hfind : SlotMap.find? ext table with
    | none => exact absurd (by rw [hgroup, AssetTable.group, hfind]; rfl) hne
    | some found =>
      rw [AssetTable.group, hfind] at hgroup
      exact hgroup ▸ SlotMap.mem_of_find? hfind

/-! ## The numbers of a sequence -/

/-- **The references to the assets of a sequence**: the number of an asset is
the size of its group when it is added. -/
def refs (table : AssetTable) : List AssetSource → List AssetRef
  | [] => []
  | s :: rest => ⟨(table.group s.ext).length, s.md5, s.ext⟩ :: refs (table.add s) rest

/-- The references to two sequences are those to the first and, with it in the
table, those to the second. -/
theorem refs_append (table : AssetTable) (xs ys : List AssetSource) :
    table.refs (xs ++ ys) = table.refs xs ++ (table.addAll xs).refs ys := by
  induction xs generalizing table with
  | nil => rfl
  | cons x rest ih => exact congrArg (_ :: ·) (ih (table.add x))

/-- There is a reference to each asset. -/
theorem length_refs (table : AssetTable) (sources : List AssetSource) :
    (table.refs sources).length = sources.length := by
  induction sources generalizing table with
  | nil => rfl
  | cons s rest ih => exact congrArg (· + 1) (ih (table.add s))

/-- **A table holds an asset where a reference points to**, and the reference
has the names of the asset. -/
structure Holds (table : AssetTable) (r : AssetRef) (source : AssetSource) : Prop where
  md5 : r.md5 = source.md5
  ext : r.ext = source.ext
  found : (table.group r.ext)[r.number]? = some source

/-- **What a table holds it holds for good.** -/
theorem Holds.addAll {table : AssetTable} {r : AssetRef} {source : AssetSource}
    (h : table.Holds r source) (later : List AssetSource) :
    (table.addAll later).Holds r source := by
  refine ⟨h.md5, h.ext, ?_⟩
  have hlt : r.number < (table.group r.ext).length := (List.getElem?_eq_some_iff.mp h.found).1
  rw [group_addAll, List.getElem?_append_left hlt, h.found]

/-- **The references point to their assets.** -/
theorem forall₂_holds_refs (table : AssetTable) (sources : List AssetSource) :
    List.Forall₂ (table.addAll sources).Holds (table.refs sources) sources := by
  induction sources generalizing table with
  | nil => exact .nil
  | cons s rest ih =>
    have hfirst : (table.add s).Holds ⟨(table.group s.ext).length, s.md5, s.ext⟩ s :=
      ⟨rfl, rfl, by rw [group_add, if_pos rfl, List.getElem?_concat_length]⟩
    exact .cons (hfirst.addAll rest) (ih (table.add s))

/-- A number is not below the size that its group had before. -/
theorem length_group_le_of_mem_refs {table : AssetTable} {sources : List AssetSource}
    {r : AssetRef} (h : r ∈ table.refs sources) : (table.group r.ext).length ≤ r.number := by
  induction sources generalizing table with
  | nil => cases h
  | cons s rest ih =>
    rcases List.mem_cons.mp h with rfl | h
    · exact le_refl _
    · refine le_trans ?_ (ih h)
      rw [group_add]
      split
      · rw [List.length_append]
        exact Nat.le_add_right _ _
      · exact le_refl _

/-- **No place is given twice.** -/
theorem nodup_place_refs (table : AssetTable) (sources : List AssetSource) :
    ((table.refs sources).map AssetRef.place).Nodup := by
  induction sources generalizing table with
  | nil => exact List.nodup_nil
  | cons s rest ih =>
    refine List.nodup_cons.mpr ⟨fun hmem => ?_, ih (table.add s)⟩
    obtain ⟨r, hr, hplace⟩ := List.mem_map.mp hmem
    have hext : r.ext = s.ext := congrArg Prod.fst hplace
    have hnumber : r.number = (table.group s.ext).length := congrArg Prod.snd hplace
    have hle := length_group_le_of_mem_refs hr
    rw [hext, group_add, if_pos rfl, List.length_append, hnumber] at hle
    exact absurd hle (by simp)

/-! ## The places of a table -/

/-- **The places of a table**: those of each group count from zero. -/
def places (table : AssetTable) : List (String × Nat) :=
  table.flatMap fun (ext, group) => (List.range group.length).map (fun number => (ext, number))

/-- The places of a sorted table differ. -/
theorem Sorted.nodup_places {table : AssetTable} (h : table.Sorted) : table.places.Nodup := by
  refine List.nodup_flatMap.mpr ⟨fun e _ => ?_, ?_⟩
  · exact List.nodup_range.map (fun a b hab => congrArg Prod.snd hab)
  · refine (List.pairwise_map.mp h.nodup).imp (fun {e e'} hne => ?_)
    intro place hplace hplace'
    obtain ⟨_, _, rfl⟩ := List.mem_map.mp hplace
    obtain ⟨_, _, heq⟩ := List.mem_map.mp hplace'
    exact hne (congrArg Prod.fst heq).symm

/-- The places of a sorted table are those within its groups. -/
theorem Sorted.mem_places_iff {table : AssetTable} (h : table.Sorted) {ext : String}
    {number : Nat} : (ext, number) ∈ table.places ↔ number < (table.group ext).length := by
  constructor
  · intro hmem
    obtain ⟨⟨ext', group⟩, he, hplace⟩ := List.mem_flatMap.mp hmem
    obtain ⟨n, hn, heq⟩ := List.mem_map.mp hplace
    cases heq
    rw [← (h.mem_iff.mp he).2]
    exact List.mem_range.mp hn
  · intro hlt
    have hne : table.group ext ≠ [] := List.ne_nil_of_length_pos (Nat.zero_lt_of_lt hlt)
    exact List.mem_flatMap.mpr ⟨_, h.mem_iff.mpr ⟨hne, rfl⟩,
      List.mem_map.mpr ⟨number, List.mem_range.mpr hlt, rfl⟩⟩

/-- The references to a sequence give every place that it takes. -/
theorem exists_mem_refs {table : AssetTable} {sources : List AssetSource} {ext : String}
    {number : Nat} (hle : (table.group ext).length ≤ number)
    (hlt : number < ((table.addAll sources).group ext).length) :
    ∃ r ∈ table.refs sources, r.place = (ext, number) := by
  induction sources generalizing table with
  | nil => exact absurd hlt (not_lt.mpr hle)
  | cons s rest ih =>
    -- the first asset takes the place, or it does not reach it
    by_cases hfirst : s.ext = ext ∧ number = (table.group ext).length
    · obtain ⟨rfl, rfl⟩ := hfirst
      exact ⟨_, List.mem_cons_self, rfl⟩
    · have hle' : ((table.add s).group ext).length ≤ number := by
        rw [group_add]
        split
        · next hext =>
          rw [List.length_append, List.length_singleton]
          exact Nat.lt_of_le_of_ne hle (fun heq => hfirst ⟨hext, heq.symm⟩)
        · exact hle
      obtain ⟨r, hr, hplace⟩ := ih hle' hlt
      exact ⟨r, List.mem_cons_of_mem _ hr, hplace⟩

/-! ## The files of a table -/

/-- The files of a table are named by its places. -/
theorem map_fst_files (table : AssetTable) :
    table.files.map Prod.fst = table.places.map fileName := by
  unfold files places
  rw [List.map_flatMap, List.map_flatMap]
  refine List.flatMap_congr (fun (ext, group) _ => ?_)
  show (group.zipIdx.map _).map Prod.fst = ((List.range group.length).map _).map fileName
  rw [List.range_eq_range', ← List.zipIdx_map_snd 0 group, List.map_map, List.map_map,
    List.map_map]
  rfl

/-- **The files of a sorted table are those at its places**, with the bytes of
the assets there. -/
theorem Sorted.mem_files_iff {table : AssetTable} (h : table.Sorted) {file : String × ByteArray} :
    file ∈ table.files ↔ ∃ ext number source, (table.group ext)[number]? = some source
      ∧ file = (fileName (ext, number), source.bytes) := by
  constructor
  · intro hmem
    obtain ⟨⟨ext, group⟩, he, hfile⟩ := List.mem_flatMap.mp hmem
    obtain ⟨⟨source, number⟩, hsource, rfl⟩ := List.mem_map.mp hfile
    refine ⟨ext, number, source, ?_, rfl⟩
    rw [← (h.mem_iff.mp he).2]
    exact List.mk_mem_zipIdx_iff_getElem?.mp hsource
  · rintro ⟨ext, number, source, hsource, rfl⟩
    have hne : table.group ext ≠ [] := fun hnil => by rw [hnil] at hsource; cases hsource
    exact List.mem_flatMap.mpr ⟨_, h.mem_iff.mpr ⟨hne, rfl⟩,
      List.mem_map.mpr ⟨_, List.mk_mem_zipIdx_iff_getElem?.mpr hsource, rfl⟩⟩

end AssetTable

/-! ## Names of files -/

/-- The characters of a name: the digits of the number, a dot, the
extension. -/
theorem toList_fileName (place : String × Nat) :
    (fileName place).toList = Nat.toDigits 10 place.2 ++ '.' :: place.1.toList := by
  simp [fileName]

/-- What stands before the first dot of a name is the number. -/
theorem takeWhile_fileName (place : String × Nat) :
    (fileName place).toList.takeWhile (· ≠ '.') = Nat.toDigits 10 place.2 := by
  have hdigits : ∀ c ∈ Nat.toDigits 10 place.2, decide (c ≠ '.') = true := by
    intro c hc
    have hdigit : c.isDigit = true := Nat.isDigit_of_mem_toDigits (by decide) (by decide) hc
    refine decide_eq_true (fun hdot => ?_)
    rw [hdot] at hdigit
    exact absurd hdigit (by decide)
  rw [toList_fileName, List.takeWhile_append_of_pos hdigits]
  exact List.append_nil _

/-- **Different places have different names**, whatever the extensions are made
of. -/
theorem fileName_injective : Function.Injective fileName := by
  rintro ⟨ext, number⟩ ⟨ext', number'⟩ h
  have hdigits : Nat.toDigits 10 number = Nat.toDigits 10 number' := by
    rw [← takeWhile_fileName (ext, number), h, takeWhile_fileName]
  have hnumber : number = number' :=
    calc
      number = Nat.ofDigitChars 10 (Nat.toDigits 10 number) 0 := Nat.ofDigitChars_ten_toDigits.symm
      _ = Nat.ofDigitChars 10 (Nat.toDigits 10 number') 0 := by rw [hdigits]
      _ = number' := Nat.ofDigitChars_ten_toDigits
  subst hnumber
  have hchars := congrArg String.toList h
  rw [toList_fileName, toList_fileName, List.append_cancel_left_eq, List.cons_inj_right] at hchars
  exact congrArg (·, number) (String.toList_injective hchars)

/-- The document is not named like an asset. -/
theorem fileName_ne_document (place : String × Nat) : fileName place ≠ "project.json" := by
  intro h
  have hletters : "project".toList = Nat.toDigits 10 place.2 := by
    rw [← takeWhile_fileName, h]
    decide
  have hdigit : 'p' ∈ Nat.toDigits 10 place.2 := hletters ▸ by decide
  exact absurd (Nat.isDigit_of_mem_toDigits (by decide) (by decide) hdigit) (by decide)

/-! ## Sequence, references and table -/

/-- **What a sequence of assets, the references to them and the table that they
fill have to do with each other.** -/
structure Numbered (sources : List AssetSource) (refs : List AssetRef) (table : AssetTable) :
    Prop where
  /-- The extensions of the table ascend. -/
  keys : (table.map Prod.fst).Pairwise (· < ·)
  /-- A group is what the sequence has with its extension, in order. -/
  groups : ∀ ext group, (ext, group) ∈ table ↔
    group ≠ [] ∧ group = sources.filter (fun s => s.ext = ext)
  /-- Each reference points to its asset. -/
  holds : List.Forall₂ table.Holds refs sources
  /-- No two references give the same place. -/
  distinct : (refs.map AssetRef.place).Nodup
  /-- The references give all places of the table, each once. -/
  referred : (refs.map AssetRef.place).Perm table.places
  /-- The files are those that the references name, with the bytes of the
  assets, each once. -/
  listed : table.files.Perm
    ((refs.zip sources).map (fun p => (fileName p.1.place, p.2.bytes)))
  /-- No two files have the same name. -/
  named : (table.files.map Prod.fst).Nodup
  /-- No file is named like the document. -/
  unlike : "project.json" ∉ table.files.map Prod.fst

namespace AssetTable

/-- An empty table is sorted. -/
theorem sorted_nil : Sorted [] := ⟨List.Pairwise.nil, fun _ h => nomatch h⟩

variable (sources : List AssetSource)

/-- A table filled from a sequence is sorted. -/
theorem sorted_addAll : (addAll [] sources).Sorted := sorted_nil.addAll sources

/-- Every place of a table filled from a sequence is referred to, by a
reference to the asset there. -/
theorem exists_mem_zip_refs {ext : String} {number : Nat}
    (hlt : number < ((addAll [] sources).group ext).length) :
    ∃ r source, (r, source) ∈ (refs [] sources).zip sources ∧ r.place = (ext, number)
      ∧ (addAll [] sources).Holds r source := by
  obtain ⟨r, hr, hplace⟩ := exists_mem_refs (Nat.zero_le _) hlt
  obtain ⟨source, hmem, hsource⟩ := exists_mem_zip (forall₂_holds_refs [] sources) hr
  exact ⟨r, source, hmem, hplace, hsource⟩

/-- The references to a sequence give all places of the table it fills. -/
theorem perm_places_refs : ((refs [] sources).map AssetRef.place).Perm (addAll [] sources).places := by
  have hsorted := sorted_addAll sources
  refine (List.perm_ext_iff_of_nodup (nodup_place_refs [] sources) hsorted.nodup_places).mpr ?_
  rintro ⟨ext, number⟩
  rw [hsorted.mem_places_iff]
  constructor
  · intro hmem
    obtain ⟨r, hr, heq⟩ := List.mem_map.mp hmem
    cases heq
    obtain ⟨source, _, hsource⟩ := exists_mem_zip (forall₂_holds_refs [] sources) hr
    exact (List.getElem?_eq_some_iff.mp hsource.found).1
  · intro hlt
    obtain ⟨r, source, hmem, heq, _⟩ := exists_mem_zip_refs sources hlt
    exact List.mem_map.mpr ⟨r, (List.of_mem_zip hmem).1, heq⟩

/-- No two files of a table filled from a sequence have the same name. -/
theorem nodup_map_fst_files : ((addAll [] sources).files.map Prod.fst).Nodup := by
  rw [map_fst_files]
  exact (sorted_addAll sources).nodup_places.map fileName_injective

/-- The files of a table filled from a sequence are those that the references
to the sequence name. -/
theorem perm_files : (addAll [] sources).files.Perm
    (((refs [] sources).zip sources).map (fun p => (fileName p.1.place, p.2.bytes))) := by
  have hplaces : (((refs [] sources).zip sources).map (AssetRef.place ∘ Prod.fst)).Nodup := by
    rw [← List.map_map, List.map_fst_zip (le_of_eq (length_refs [] sources))]
    exact nodup_place_refs [] sources
  -- neither side has a file twice, so it is enough that both have the same files
  have hreferred : (((refs [] sources).zip sources).map
      (fun p => (fileName p.1.place, p.2.bytes))).Nodup := by
    refine (List.Nodup.of_map _ hplaces).map_on (fun p hp q hq heq => ?_)
    exact List.inj_on_of_nodup_map hplaces hp hq (fileName_injective (congrArg Prod.fst heq))
  refine (List.perm_ext_iff_of_nodup (nodup_map_fst_files sources).of_map hreferred).mpr ?_
  intro file
  rw [(sorted_addAll sources).mem_files_iff]
  constructor
  · rintro ⟨ext, number, source, hfound, rfl⟩
    obtain ⟨r, source', hmem, heq, hsource⟩ :=
      exists_mem_zip_refs sources (List.getElem?_eq_some_iff.mp hfound).1
    cases heq
    have hsame : source' = source := Option.some.inj (hsource.found.symm.trans hfound)
    subst hsame
    exact List.mem_map.mpr ⟨(r, source'), hmem, rfl⟩
  · intro hmem
    obtain ⟨⟨r, source⟩, hpair, rfl⟩ := List.mem_map.mp hmem
    have hsource := (List.forall₂_iff_zip.mp (forall₂_holds_refs [] sources)).2 hpair
    exact ⟨r.ext, r.number, source, hsource.found, rfl⟩

/-- **A table filled from a sequence is numbered by the references to it.** -/
theorem numbered_refs : Numbered sources (refs [] sources) (addAll [] sources) where
  keys := (sorted_addAll sources).keys
  groups ext group := by
    rw [(sorted_addAll sources).mem_iff, group_addAll]
    rfl
  holds := forall₂_holds_refs [] sources
  distinct := nodup_place_refs [] sources
  referred := perm_places_refs sources
  listed := perm_files sources
  named := nodup_map_fst_files sources
  unlike := by
    rw [map_fst_files]
    intro hmem
    obtain ⟨place, _, hplace⟩ := List.mem_map.mp hmem
    exact fileName_ne_document place hplace

end AssetTable

end Legacy

end ScratchLegacy
