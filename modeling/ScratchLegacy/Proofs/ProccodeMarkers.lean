import Mathlib.Data.List.DropRight
import ScratchLegacy.Proccode

/-!
# Markers of a proccode

A proccode is cut wherever a marker stands. Here a marker is found without
cutting: it is a `%` with a letter of a marker behind it and no backslash before
it, and `Proccode.markers` lists the letters of a text by looking at each
character with its two neighbours.

Cutting finds the same markers (`Proccode.map_fst_cut`), loses nothing
(`Proccode.join_cut`) and leaves stretches without any
(`Proccode.markers_stretches`). All of this is by one induction, along a text
as it is cut (`Proccode.cut_induction`). A blank between two texts keeps a marker from
arising where they meet (`Proccode.cut_append_blank`), which is what makes a
proccode safe to put together again from its pieces.
-/

/-! ## Trimming -/

namespace ScratchLegacy.Text

variable {c : Char}

theorem trimRight_eq_rdropWhile (cs : List Char) : trimRight cs = cs.rdropWhile isBlank := rfl

/-- **What trimming takes away is blank.** -/
theorem exists_blanks_trim (cs : List Char) :
    ∃ before after, (∀ c ∈ before, isBlank c = true) ∧ (∀ c ∈ after, isBlank c = true)
      ∧ cs = before ++ (trim cs ++ after) := by
  refine ⟨cs.takeWhile isBlank, (trimLeft cs).rtakeWhile isBlank,
    List.all_eq_true.mp List.all_takeWhile, fun c hc => List.mem_rtakeWhile_imp hc, ?_⟩
  rw [trim, trimRight_eq_rdropWhile, List.rdropWhile_append_rtakeWhile]
  exact List.takeWhile_append_dropWhile.symm

/-- A blank in front is trimmed. -/
theorem trim_cons_of_isBlank (h : isBlank c = true) (cs : List Char) :
    trim (c :: cs) = trim cs := by
  rw [trim, trimLeft, List.dropWhile_cons_of_pos h]
  rfl

/-- A blank at the end is trimmed. -/
theorem trim_concat_of_isBlank (h : isBlank c = true) (cs : List Char) :
    trim (cs ++ [c]) = trim cs := by
  rw [trim, trimLeft, List.dropWhile_append]
  split
  · next hempty =>
    rw [trim, trimLeft, List.isEmpty_iff.mp hempty, List.dropWhile_cons_of_pos h]
    rfl
  · rw [trimRight_eq_rdropWhile, List.rdropWhile_concat_pos _ _ _ h]
    rfl

/-- A trimmed text has nothing to trim. -/
theorem trim_trim (cs : List Char) : trim (trim cs) = trim cs := by
  have hleft : trimLeft (trim cs) = trim cs := by
    rw [trimLeft, List.dropWhile_eq_self_iff]
    intro hpos
    have hbegins : trim cs <+: trimLeft cs := List.rdropWhile_prefix _ _
    rw [hbegins.getElem hpos]
    exact List.dropWhile_get_zero_not _ _ _
  have hright : trimRight (trim cs) = trim cs := List.rdropWhile_idempotent _ _
  rw [trim, hleft, hright]

end ScratchLegacy.Text

/-! ## Markers -/

namespace ScratchLegacy.Proccode

/-- **The letter of the marker** that a character begins, given the character
before it and the one behind it. -/
def marker? (before : Option Char) (c k : Char) : Option Char :=
  if c = '%' ∧ isLetter k = true ∧ before ≠ some '\\' then some k else none

/-- The letters of the markers of a text that stands behind a character. -/
def markersBehind (before : Option Char) : List Char → List Char
  | c :: k :: rest => (marker? before c k).toList ++ markersBehind (some c) (k :: rest)
  | _ => []

/-- **The letters of the markers of a text**, in order. -/
def markers (cs : List Char) : List Char := markersBehind none cs

variable {before : Option Char} {c k : Char} {cs rest : List Char}

/-- A character that has one behind it may begin a marker. -/
theorem markersBehind_cons_cons :
    markersBehind before (c :: k :: rest)
      = (marker? before c k).toList ++ markersBehind (some c) (k :: rest) := rfl

/-- Only a `%` begins a marker. -/
theorem marker?_of_ne (h : c ≠ '%') : marker? before c k = none := if_neg (fun hm => h hm.1)

/-- A character that begins no marker is passed over. -/
theorem markersBehind_cons_of_ne (h : c ≠ '%') :
    markersBehind before (c :: rest) = markersBehind (some c) rest := by
  cases rest with
  | nil => rfl
  | cons k rest =>
    rw [markersBehind_cons_cons, marker?_of_ne h, Option.toList_none, List.nil_append]

/-- A `%` with no letter behind it is passed over. -/
theorem markersBehind_cons_of_not_isLetter (h : ¬ isLetter k = true) :
    markersBehind before (c :: k :: rest) = markersBehind (some c) (k :: rest) := by
  rw [markersBehind_cons_cons, marker?, if_neg (fun hm => h hm.2.1), Option.toList_none,
    List.nil_append]

/-- The letter of a marker begins none itself. -/
theorem markersBehind_cons_of_isLetter (h : isLetter c = true) :
    markersBehind before (c :: rest) = markersBehind (some c) rest :=
  markersBehind_cons_of_ne (by rintro rfl; cases h)

/-- What stands before a text matters only when it is a backslash. -/
theorem markersBehind_eq_markers (h : before ≠ some '\\') (cs : List Char) :
    markersBehind before cs = markers cs := by
  cases cs with
  | nil => rfl
  | cons c cs =>
    cases cs with
    | nil => rfl
    | cons k rest => simp [markers, markersBehind_cons_cons, marker?, h]

/-- A text without markers has none behind any character. -/
theorem markersBehind_eq_nil (h : markers cs = []) : markersBehind before cs = [] := by
  cases cs with
  | nil => rfl
  | cons c cs =>
    cases cs with
    | nil => rfl
    | cons k rest =>
      rw [markers, markersBehind_cons_cons, List.append_eq_nil_iff] at h
      rw [markersBehind_cons_cons, h.2, List.append_nil]
      by_cases hmarker : c = '%' ∧ isLetter k = true
      · simp [marker?, hmarker] at h
      · rw [marker?, if_neg (fun hm => hmarker ⟨hm.1, hm.2.1⟩), Option.toList_none]

/-- A letter is no backslash. -/
theorem ne_backslash_of_isLetter (h : isLetter k = true) : some k ≠ some '\\' := by
  rintro ⟨⟩
  cases h

/-- **A marker at the beginning of a text counts.** -/
theorem markers_marker (h : isLetter k = true) :
    markers ('%' :: k :: rest) = k :: markers rest := by
  rw [markers, markersBehind_cons_cons, marker?, if_pos ⟨rfl, h, by decide⟩,
    markersBehind_cons_of_isLetter h, markersBehind_eq_markers (ne_backslash_of_isLetter h)]
  rfl

/-- **A marker behind a backslash does not count.** -/
theorem markers_escaped (h : isLetter k = true) :
    markers ('\\' :: '%' :: k :: rest) = markers rest := by
  show markersBehind none _ = _
  rw [markersBehind_cons_of_ne (by decide), markersBehind_cons_cons, marker?,
    if_neg (fun hm => hm.2.2 rfl), markersBehind_cons_of_isLetter h,
    markersBehind_eq_markers (ne_backslash_of_isLetter h)]
  rfl

/-- A `%` without a letter behind it is passed over. -/
theorem markers_cons_of_not_isLetter (h : ¬ isLetter k = true) :
    markers ('%' :: k :: rest) = markers (k :: rest) := by
  show markersBehind none _ = _
  rw [markersBehind_cons_of_not_isLetter h, markersBehind_eq_markers (by decide)]

/-- A backslash escapes nothing but a marker. -/
theorem markers_backslash (h : ¬ isLetter k = true) :
    markers ('\\' :: '%' :: k :: rest) = markers ('%' :: k :: rest) := by
  show markersBehind none _ = _
  rw [markersBehind_cons_of_ne (by decide), markersBehind_cons_of_not_isLetter h,
    markers_cons_of_not_isLetter h, markersBehind_eq_markers (by decide)]

/-- A character that neither begins a marker nor escapes one is passed over. -/
theorem markers_cons_of_plain (hescape : ∀ k r, c = '\\' → rest = '%' :: k :: r → False)
    (hmarker : ∀ k r, c = '%' → rest = k :: r → False) :
    markers (c :: rest) = markers rest := by
  cases rest with
  | nil => rfl
  | cons k rest =>
    show markersBehind none _ = _
    rw [markersBehind_cons_of_ne (fun hc => hmarker k rest hc rfl)]
    by_cases hc : c = '\\'
    · by_cases hk : k = '%'
      · cases rest with
        | nil => rfl
        | cons k' rest => exact (hescape k' rest hc (by rw [hk])).elim
      · rw [markers, markersBehind_cons_of_ne hk, markersBehind_cons_of_ne hk]
    · exact markersBehind_eq_markers (fun h => hc (Option.some.inj h)) _

/-! ## Cutting -/

/-- **Induction along a text as it is cut**: what stands at its beginning is a marker behind
a backslash, a backslash that escapes nothing, a marker, a `%` with no letter behind it, or
else a plain character. The motive is about the text and its cut. -/
theorem cut_induction {motive : List Char → Cut → Prop} (nil : motive [] ([], []))
    (escaped : ∀ k rest, isLetter k = true → motive rest (cut rest) →
      motive ('\\' :: '%' :: k :: rest) (Cut.cons '\\' (Cut.cons '%' (Cut.cons k (cut rest)))))
    (backslash : ∀ k rest, ¬ isLetter k = true →
      motive ('%' :: k :: rest) (cut ('%' :: k :: rest)) →
      motive ('\\' :: '%' :: k :: rest) (Cut.cons '\\' (cut ('%' :: k :: rest))))
    (marker : ∀ k rest, isLetter k = true → motive rest (cut rest) →
      motive ('%' :: k :: rest) ([], (k, (cut rest).1) :: (cut rest).2))
    (percent : ∀ k rest, ¬ isLetter k = true → motive (k :: rest) (cut (k :: rest)) →
      motive ('%' :: k :: rest) (Cut.cons '%' (cut (k :: rest))))
    (plain : ∀ c rest, (∀ k r, c = '\\' → rest = '%' :: k :: r → False) →
      (∀ k r, c = '%' → rest = k :: r → False) → motive rest (cut rest) →
      motive (c :: rest) (Cut.cons c (cut rest)))
    (cs : List Char) : motive cs (cut cs) := by
  fun_induction cut cs with
  | case1 => exact nil
  | case2 k rest hk ih => exact escaped k rest hk ih
  | case3 k rest hk ih => exact backslash k rest hk ih
  | case4 k rest hk _ ih => exact marker k rest hk ih
  | case5 k rest hk ih => exact percent k rest hk ih
  | case6 c rest hescape hmarker ih => exact plain c rest hescape hmarker ih

/-- **A text is cut at its markers.** -/
theorem map_fst_cut (cs : List Char) : (cut cs).2.map Prod.fst = markers cs := by
  induction cs using cut_induction with
  | nil => rfl
  | escaped k rest hk ih => exact ih.trans (markers_escaped hk).symm
  | backslash k rest hk ih => exact ih.trans (markers_backslash hk).symm
  | marker k rest hk ih => exact (congrArg (k :: ·) ih).trans (markers_marker hk).symm
  | percent k rest hk ih => exact ih.trans (markers_cons_of_not_isLetter hk).symm
  | plain c rest hescape hmarker ih => exact ih.trans (markers_cons_of_plain hescape hmarker).symm

/-- The markers of a cut have the letters that make one. -/
theorem isLetter_of_mem_cut (cs : List Char) : ∀ m ∈ (cut cs).2, isLetter m.1 = true := by
  induction cs using cut_induction with
  | nil => exact fun m hm => absurd hm List.not_mem_nil
  | escaped k rest hk ih | backslash k rest hk ih | percent k rest hk ih => exact ih
  | marker k rest hk ih => exact List.forall_mem_cons.mpr ⟨hk, ih⟩
  | plain c rest _ _ ih => exact ih

/-- **Cutting loses nothing.** -/
theorem join_cut (cs : List Char) :
    (cut cs).1 ++ (cut cs).2.flatMap (fun m => '%' :: m.1 :: m.2) = cs := by
  induction cs using cut_induction with
  | nil => rfl
  | escaped k rest hk ih => exact congrArg (fun cs => '\\' :: '%' :: k :: cs) ih
  | backslash k rest hk ih => exact congrArg ('\\' :: ·) ih
  | marker k rest hk ih => exact congrArg (fun cs => '%' :: k :: cs) ih
  | percent k rest hk ih => exact congrArg ('%' :: ·) ih
  | plain c rest _ _ ih => exact congrArg (c :: ·) ih

/-- A text without markers is not cut. -/
theorem cut_of_markers_eq_nil (h : markers cs = []) : cut cs = (cs, []) := by
  have hnone : (cut cs).2 = [] := by rwa [← map_fst_cut, List.map_eq_nil_iff] at h
  have hjoin := join_cut cs
  rw [hnone, List.flatMap_nil, List.append_nil] at hjoin
  exact Prod.ext hjoin hnone

/-- **A character that neither begins a marker nor escapes one is put before the
first stretch.** -/
theorem cut_cons (hescape : ∀ k r, c = '\\' → rest = '%' :: k :: r → ¬ isLetter k = true)
    (hmarker : ∀ k r, c = '%' → rest = k :: r → ¬ isLetter k = true) :
    cut (c :: rest) = Cut.cons c (cut rest) := by
  generalize hcs : c :: rest = cs
  induction cs using cut_induction with
  | nil => cases hcs
  | escaped k r hk =>
    cases hcs
    exact absurd hk (hescape k r rfl rfl)
  | marker k r hk =>
    cases hcs
    exact absurd hk (hmarker k r rfl rfl)
  | backslash | percent | plain =>
    cases hcs
    rfl

/-- A marker behind a backslash is cut off with it. -/
theorem cut_escaped (h : isLetter k = true) (rest : List Char) :
    cut ('\\' :: '%' :: k :: rest)
      = Cut.cons '\\' (Cut.cons '%' (Cut.cons k (cut rest))) := if_pos h

/-- A marker begins a stretch. -/
theorem cut_marker (h : isLetter k = true) (rest : List Char) :
    cut ('%' :: k :: rest) = ([], (k, (cut rest).1) :: (cut rest).2) := if_pos h

/-- A blank belongs to the first stretch. -/
theorem cut_cons_blank (rest : List Char) : cut (' ' :: rest) = Cut.cons ' ' (cut rest) :=
  cut_cons (fun _ _ hc => absurd hc (by decide)) (fun _ _ hc => absurd hc (by decide))

/-- The first stretch begins as the text does, if it has a character. -/
theorem fst_cut_cons (c : Char) (rest : List Char) :
    (cut (c :: rest)).1 = [] ∨ ∃ s, (cut (c :: rest)).1 = c :: s := by
  generalize hcs : c :: rest = cs
  induction cs using cut_induction with
  | nil => cases hcs
  | marker => exact .inl rfl
  | escaped | backslash | percent | plain =>
    cases hcs
    exact .inr ⟨_, rfl⟩

/-- **No stretch has a marker.** -/
theorem markers_stretches (cs : List Char) :
    markers (cut cs).1 = [] ∧ ∀ m ∈ (cut cs).2, markers m.2 = [] := by
  induction cs using cut_induction with
  | nil => exact ⟨rfl, fun m hm => absurd hm List.not_mem_nil⟩
  | escaped k rest hk ih => exact ⟨(markers_escaped hk).trans ih.1, ih.2⟩
  | backslash k rest hk ih =>
    exact ⟨(markersBehind_cons_of_ne (by decide)).trans (markersBehind_eq_nil ih.1), ih.2⟩
  | marker k rest hk ih => exact ⟨rfl, List.forall_mem_cons.mpr ih⟩
  | percent k rest hk ih =>
    refine ⟨?_, ih.2⟩
    -- what comes behind the `%` is still no letter
    show markers ('%' :: (cut (k :: rest)).1) = []
    rcases fst_cut_cons k rest with hs | ⟨s, hs⟩
    · rw [hs]
      rfl
    · rw [hs, markers_cons_of_not_isLetter hk, ← hs]
      exact ih.1
  | plain c rest _ hmarker ih =>
    refine ⟨?_, ih.2⟩
    show markers (c :: (cut rest).1) = []
    by_cases hc : c = '%'
    · cases rest with
      | nil => rfl
      | cons k r => exact (hmarker k r hc rfl).elim
    · exact (markersBehind_cons_of_ne hc).trans (markersBehind_eq_nil ih.1)

/-- **A blank keeps two texts apart**: the text behind it is cut as it is alone. -/
theorem cut_append_blank {text : List Char} (h : markers text = []) (rest : List Char) :
    cut (text ++ ' ' :: rest) = (text ++ ' ' :: (cut rest).1, (cut rest).2) := by
  induction text using cut_induction with
  | nil => exact cut_cons_blank rest
  | escaped k r hk ih =>
    refine (cut_escaped hk (r ++ ' ' :: rest)).trans ?_
    rw [ih ((markers_escaped hk).symm.trans h)]
    rfl
  | backslash k r hk ih =>
    refine (cut_cons (fun _ _ _ heq => ?_) (fun _ _ hc => absurd hc (by decide))).trans ?_
    · cases heq
      exact hk
    · exact congrArg (Cut.cons '\\') (ih ((markers_backslash hk).symm.trans h))
  | marker k r hk ih =>
    cases (markers_marker hk).symm.trans h
  | percent k r hk ih =>
    refine (cut_cons (fun _ _ hc => absurd hc (by decide)) (fun _ _ _ heq => ?_)).trans ?_
    · cases heq
      exact hk
    · exact congrArg (Cut.cons '%') (ih ((markers_cons_of_not_isLetter hk).symm.trans h))
  | plain c r hescape hmarker ih =>
    show cut (c :: (r ++ ' ' :: rest)) = _
    rw [cut_cons, ih ((markers_cons_of_plain hescape hmarker).symm.trans h)]
    · rfl
    · rintro k s rfl hr
      cases r with
      | nil => cases hr
      | cons a r =>
        cases r with
        | nil =>
          cases hr
          decide
        | cons b r =>
          cases hr
          exact (hescape _ _ rfl rfl).elim
    · rintro k s rfl hr
      cases r with
      | nil =>
        cases hr
        decide
      | cons a r => exact (hmarker a r rfl rfl).elim

end ScratchLegacy.Proccode
