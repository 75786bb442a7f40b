import ScratchLegacy.Proofs.ProccodeSpec

/-!
# Pieces of a proccode

Cutting a proccode passes over an escaped marker without ending the stretch, so a
stretch may hold several of them. Where the markers are that do end one can be said of
each place on its own: `Proccode.MarkerAt` looks at the character of a place and at its
two neighbours, and `Proccode.places` lists the places of a text at which it holds.

A text is cut at exactly these places (`Proccode.cut_eq_cutAt`), as no two markers
overlap and an escaped one ends before the next can begin. The pieces are therefore the
placeholders of these places and the labels of what lies between them, and they
spell the text up to blanks (`Proccode.tokens_split`).

A spec is read as the pieces that it was made from, so making a spec of it again
changes nothing (`Proccode.spec_reread`).
-/

namespace ScratchLegacy.Proccode

/-! ## Places of markers -/

/-- **A marker stands at a place** of a text: there is a `%`, behind it a letter of a
marker, and before it no backslash. -/
def MarkerAt (cs : List Char) (i : Nat) : Prop :=
  cs[i]? = some '%' ∧ (cs[i + 1]?).any isLetter = true ∧ (i = 0 ∨ cs[i - 1]? ≠ some '\\')

instance (cs : List Char) : DecidablePred (MarkerAt cs) :=
  fun _ => inferInstanceAs (Decidable (_ ∧ _ ∧ _))

/-- **The places of the markers of a text**, in order. -/
def places (cs : List Char) : List Nat := (List.range cs.length).filter (MarkerAt cs)

variable {c k : Char} {pre cs rest : List Char}

/-- What stands before a text matters to its markers only when it ends in a backslash
and a marker begins the text. -/
theorem markerAt_append_iff (h : pre.getLast? ≠ some '\\' ∨ ¬ MarkerAt cs 0) (i : Nat) :
    MarkerAt (pre ++ cs) (pre.length + i) ↔ MarkerAt cs i := by
  have hright : ∀ j, (pre ++ cs)[pre.length + j]? = cs[j]? := fun j => by
    rw [List.getElem?_append_right (Nat.le_add_right _ _), Nat.add_sub_cancel_left]
  unfold MarkerAt
  rw [hright, Nat.add_assoc, hright]
  refine and_congr_right (fun hpercent => and_congr_right (fun hletter => ?_))
  cases i with
  | zero =>
    refine iff_of_true ?_ (.inl rfl)
    have hlast : pre.getLast? ≠ some '\\' := by
      rcases h with h | h
      · exact h
      · exact absurd ⟨hpercent, hletter, .inl rfl⟩ h
    rcases List.eq_nil_or_concat pre with rfl | ⟨before, c, rfl⟩
    · exact .inl rfl
    · refine .inr ?_
      simpa using hlast
  | succ i =>
    rw [← Nat.add_assoc, Nat.add_sub_cancel, Nat.add_sub_cancel, hright]
    simp

/-- The places of a text with another before it are those in the other, and its own
moved behind it. -/
theorem places_append (h : pre.getLast? ≠ some '\\' ∨ ¬ MarkerAt cs 0) :
    places (pre ++ cs) = (List.range pre.length).filter (MarkerAt (pre ++ cs))
      ++ (places cs).map (pre.length + ·) := by
  rw [places, List.length_append, List.range_add, List.filter_append, List.filter_map]
  congr 2
  refine List.filter_congr (fun i _ => ?_)
  exact decide_eq_decide.mpr (markerAt_append_iff h i)

/-- A marker at the beginning has the first place. -/
theorem places_marker (h : isLetter k = true) :
    places ('%' :: k :: rest) = 0 :: (places rest).map (2 + ·) := by
  have hk : k ≠ '%' := by
    rintro rfl
    cases h
  have hlast : ['%', k].getLast? ≠ some '\\' := ne_backslash_of_isLetter h
  refine (places_append (.inl hlast)).trans ?_
  simp [List.range_succ, MarkerAt, h, hk]

/-- An escaped marker has no place. -/
theorem places_escaped (h : isLetter k = true) :
    places ('\\' :: '%' :: k :: rest) = (places rest).map (3 + ·) := by
  have hk : k ≠ '%' := by
    rintro rfl
    cases h
  have hlast : ['\\', '%', k].getLast? ≠ some '\\' := ne_backslash_of_isLetter h
  refine (places_append (.inl hlast)).trans ?_
  simp [List.range_succ, MarkerAt, hk]

/-- A character that neither begins a marker nor escapes one moves the places. -/
theorem places_cons (h : c ≠ '\\' ∨ ¬ MarkerAt cs 0) (hmarker : ¬ MarkerAt (c :: cs) 0) :
    places (c :: cs) = (places cs).map (1 + ·) := by
  have hlast : [c].getLast? ≠ some '\\' ∨ ¬ MarkerAt cs 0 := by simpa using h
  refine (places_append hlast).trans ?_
  simp [List.range_succ, hmarker]

/-- Only a `%` with a letter behind it begins a marker. -/
theorem not_markerAt_zero (h : ∀ k r, cs = '%' :: k :: r → ¬ isLetter k = true) :
    ¬ MarkerAt cs 0 := by
  rintro ⟨hpercent, hletter, _⟩
  cases cs with
  | nil => cases hpercent
  | cons c cs =>
    cases cs with
    | nil => cases hletter
    | cons k r =>
      cases hpercent
      exact h k r rfl hletter

/-! ## Cutting at places -/

/-- The letter behind a place. -/
def letterAt (cs : List Char) (i : Nat) : Char := cs.getD (i + 1) ' '

/-- **A text cut at places**, from a place on: each one ends a stretch, and the next
stretch begins two characters behind it. -/
def cutAt (cs : List Char) : Nat → List Nat → Cut
  | start, [] => (cs.drop start, [])
  | start, i :: is =>
    ((cs.take i).drop start, (letterAt cs i, (cutAt cs (i + 2) is).1) :: (cutAt cs (i + 2) is).2)

/-- A text with another before it is cut as it is alone, from its beginning on. -/
theorem cutAt_append (pre cs : List Char) (start : Nat) (is : List Nat) :
    cutAt (pre ++ cs) (pre.length + start) (is.map (pre.length + ·)) = cutAt cs start is := by
  induction is generalizing start with
  | nil => rw [List.map_nil, cutAt, cutAt, List.drop_length_add_append]
  | cons i is ih =>
    have hletter : letterAt (pre ++ cs) (pre.length + i) = letterAt cs i := by
      simp only [letterAt, List.getD_eq_getElem?_getD, Nat.add_assoc,
        List.getElem?_append_right (Nat.le_add_right _ _), Nat.add_sub_cancel_left]
    rw [List.map_cons, cutAt, cutAt, Nat.add_assoc, ih, hletter, List.take_length_add_append,
      List.drop_length_add_append]

/-- What stands before a text belongs to the first stretch when no place is in it. -/
theorem cutAt_zero_append (pre cs : List Char) (is : List Nat) :
    cutAt (pre ++ cs) 0 (is.map (pre.length + ·))
      = (pre ++ (cutAt cs 0 is).1, (cutAt cs 0 is).2) := by
  cases is with
  | nil => rfl
  | cons i is =>
    have hcut := cutAt_append pre cs 0 (i :: is)
    rw [List.map_cons, cutAt, cutAt, Prod.mk.injEq] at hcut
    rw [List.map_cons, cutAt, cutAt, hcut.2, List.take_length_add_append]
    rfl

/-- **A text is cut at the places of its markers**, and at no others. -/
theorem cut_eq_cutAt (cs : List Char) : cut cs = cutAt cs 0 (places cs) := by
  induction cs using cut_induction with
  | nil => rfl
  | escaped k rest hk ih =>
    rw [places_escaped hk, ih]
    exact (cutAt_zero_append ['\\', '%', k] rest _).symm
  | backslash k rest hk ih =>
    have hmarker : ¬ MarkerAt ('%' :: k :: rest) 0 :=
      not_markerAt_zero (fun _ _ heq => by cases heq; exact hk)
    rw [places_cons (.inr hmarker) (not_markerAt_zero (fun _ _ heq => by cases heq)), ih]
    exact (cutAt_zero_append ['\\'] _ _).symm
  | marker k rest hk ih =>
    have hrest : cutAt ('%' :: k :: rest) 2 ((places rest).map (2 + ·)) = cut rest :=
      (cutAt_append ['%', k] rest 0 (places rest)).trans ih.symm
    rw [places_marker hk, cutAt, hrest]
    rfl
  | percent k rest hk ih =>
    have hmarker : ¬ MarkerAt ('%' :: k :: rest) 0 :=
      not_markerAt_zero (fun _ _ heq => by cases heq; exact hk)
    rw [places_cons (.inl (by decide)) hmarker, ih]
    exact (cutAt_zero_append ['%'] _ _).symm
  | plain c rest hescape hmarker ih =>
    have hbegin : ¬ MarkerAt (c :: rest) 0 :=
      not_markerAt_zero (fun k r heq => by cases heq; exact (hmarker k r rfl rfl).elim)
    have hbackslash : c ≠ '\\' ∨ ¬ MarkerAt rest 0 := by
      by_cases hc : c = '\\'
      · exact .inr (not_markerAt_zero (fun k r heq => (hescape k r hc heq).elim))
      · exact .inl hc
    rw [places_cons hbackslash hbegin, ih]
    exact (cutAt_zero_append [c] rest _).symm

/-! ## The pieces between places -/

/-- **The pieces that places divide a text into**, from a place on: the label of what
comes before the first of them, its placeholder, and the pieces behind it. -/
def piecesAt (cs : List Char) : Nat → List Nat → List Token
  | start, [] => label (cs.drop start)
  | start, i :: is =>
    label ((cs.take i).drop start) ++ .placeholder (letterAt cs i) :: piecesAt cs (i + 2) is

/-- The pieces are those of the text cut at the places. -/
theorem piecesAt_eq (cs : List Char) (start : Nat) (is : List Nat) :
    piecesAt cs start is = label (cutAt cs start is).1
      ++ (cutAt cs start is).2.flatMap (fun m => .placeholder m.1 :: label m.2) := by
  induction is generalizing start with
  | nil => exact (List.append_nil _).symm
  | cons i is ih =>
    rw [piecesAt, ih]
    rfl

/-- The letters behind the places of a text are those of its markers. -/
theorem map_letterAt_places (cs : List Char) : (places cs).map (letterAt cs) = markers cs := by
  have hletters : ∀ is start, (cutAt cs start is).2.map Prod.fst = is.map (letterAt cs) := by
    intro is
    induction is with
    | nil => exact fun _ => rfl
    | cons i is ih => exact fun _ => congrArg (letterAt cs i :: ·) (ih _)
  rw [← map_fst_cut, cut_eq_cutAt, hletters]

/-- A text without markers has none at any place. -/
theorem not_markerAt_of_markers_eq_nil (h : markers cs = []) (i : Nat) : ¬ MarkerAt cs i := by
  have hplaces : places cs = [] := by
    rwa [← map_letterAt_places, List.map_eq_nil_iff] at h
  intro hi
  have hmem : i ∈ places cs := by
    refine List.mem_filter.mpr ⟨?_, decide_eq_true hi⟩
    exact List.mem_range.mpr (List.getElem?_eq_some_iff.mp hi.1).1
  rw [hplaces] at hmem
  cases hmem

/-- A label among spaced pieces is a text that can be one. -/
theorem Spaced.isLabel {ts : List Token} (h : Spaced ts) {text : List Char}
    (hmem : Token.label text ∈ ts) : IsLabel text := by
  induction h with
  | nil => cases hmem
  | label hlabel =>
    cases List.mem_singleton.mp hmem
    exact hlabel
  | placeholder _ _ ih => exact ih (List.mem_of_ne_of_mem (by simp) hmem)
  | labelled hlabel _ _ ih =>
    rcases List.mem_cons.mp hmem with heq | hmem
    · cases heq
      exact hlabel
    · exact ih (List.mem_of_ne_of_mem (by simp) hmem)

/-- **No two labels stand side by side** among spaced pieces. -/
theorem Spaced.not_adjacent_labels {ts : List Token} (h : Spaced ts) (text text' : List Char) :
    ¬ [Token.label text, Token.label text'] <:+: ts := by
  induction h with
  | nil => simp
  | label _ =>
    intro hinfix
    have hlength := hinfix.length_le
    simp at hlength
  | placeholder _ _ ih =>
    rw [List.infix_cons_iff, not_or]
    refine ⟨fun hbegins => ?_, ih⟩
    simp at hbegins
  | labelled _ _ _ ih =>
    rw [List.infix_cons_iff, List.infix_cons_iff, not_or, not_or]
    refine ⟨fun hbegins => ?_, fun hbegins => ?_, ih⟩
    · simp at hbegins
    · simp at hbegins

/-! ## The text that pieces spell -/

/-- **Pieces spell a text** when it consists of them, with any blanks before, between
and behind them. -/
inductive Spells : List Token → List Char → Prop
  | nil {blanks : List Char} (h : ∀ c ∈ blanks, Text.isBlank c = true) : Spells [] blanks
  | cons {blanks : List Char} {t : Token} {ts : List Token} {rest : List Char}
      (h : ∀ c ∈ blanks, Text.isBlank c = true) (spells : Spells ts rest) :
      Spells (t :: ts) (blanks ++ (t.word ++ rest))

/-- Blanks in front of a text do not matter to what spells it. -/
theorem Spells.blanks_append {ts : List Token} {blanks : List Char} (h : Spells ts cs)
    (hblanks : ∀ c ∈ blanks, Text.isBlank c = true) : Spells ts (blanks ++ cs) := by
  cases h with
  | nil h => exact .nil (List.forall_mem_append.mpr ⟨hblanks, h⟩)
  | cons h spells =>
    rw [← List.append_assoc]
    exact .cons (List.forall_mem_append.mpr ⟨hblanks, h⟩) spells

/-- The label of a stretch spells it, before what spells the rest. -/
theorem Spells.label_append {ts : List Token} (h : Spells ts rest) (s : List Char) :
    Spells (label s ++ ts) (s ++ rest) := by
  obtain ⟨before, after, hbefore, hafter, hs⟩ := Text.exists_blanks_trim s
  have hrest := h.blanks_append hafter
  have hsplit : s ++ rest = before ++ (Text.trim s ++ (after ++ rest)) := by
    conv_lhs => rw [hs]
    simp only [List.append_assoc]
  rw [hsplit]
  unfold label
  split
  · next hnil =>
    rw [hnil]
    exact hrest.blanks_append hbefore
  · exact .cons hbefore hrest

/-- **The pieces of a proccode spell it.** -/
theorem spells_tokens (cs : List Char) : Spells (tokens cs) cs := by
  have hpieces : ∀ ms : List (Char × List Char),
      Spells (ms.flatMap (fun m => .placeholder m.1 :: label m.2))
        (ms.flatMap (fun m => '%' :: m.1 :: m.2)) := by
    intro ms
    induction ms with
    | nil => exact .nil (List.forall_mem_nil _)
    | cons m ms ih =>
      exact .cons (List.forall_mem_nil _) (ih.label_append m.2)
  have hspells := (hpieces (cut cs).2).label_append (cut cs).1
  rwa [join_cut] at hspells

/-- **A proccode is split at its markers and nowhere else, and nothing but blanks is
lost.** Its pieces are the placeholders of its markers and the labels between them; a
label has no marker, no outer blanks and at least one character, and no other label
stands beside it. -/
theorem tokens_split (cs : List Char) :
    tokens cs = piecesAt cs 0 (places cs)
      ∧ (∀ text, Token.label text ∈ tokens cs →
        text ≠ [] ∧ Text.trim text = text ∧ ∀ i, ¬ MarkerAt text i)
      ∧ (∀ text text', ¬ [Token.label text, Token.label text'] <:+: tokens cs)
      ∧ Spells (tokens cs) cs := by
  refine ⟨?_, fun text htext => ?_, (spaced_tokens cs).not_adjacent_labels, spells_tokens cs⟩
  · rw [piecesAt_eq, ← cut_eq_cutAt]
    rfl
  · have hlabel := (spaced_tokens cs).isLabel htext
    exact ⟨hlabel.ne_nil, hlabel.trimmed, not_markerAt_of_markers_eq_nil hlabel.markerless⟩

/-- Two backslashes escape a marker as one does, and a `%` does not. -/
example : tokens "\\\\%s%%n %sb".toList
    = [.label "\\\\%s%".toList, .placeholder 'n', .placeholder 's', .label ['b']] := by decide

/-! ## Reading a spec again -/

/-- A piece with the marker of a number as that of a text. -/
def Token.numberAsText : Token → Token
  | .placeholder 'n' => .placeholder 's'
  | t => t

/-- A piece of a proccode is written with the marker of a number as that of a text. -/
theorem written_eq_numberAsText {t : Token} (h : ∀ k, t = .placeholder k → isLetter k = true) :
    t.written = t.numberAsText := by
  cases t with
  | label text => rfl
  | placeholder k =>
    have hk := h k rfl
    simp only [isLetter, Bool.or_eq_true, beq_iff_eq] at hk
    rcases hk with (rfl | rfl) | rfl <;> rfl

/-- The placeholders of a proccode have the letters of markers. -/
theorem isLetter_of_placeholder_mem_tokens (h : Token.placeholder k ∈ tokens cs) :
    isLetter k = true := by
  have hmem : k ∈ (tokens cs).filterMap Token.letter? := List.mem_filterMap.mpr ⟨_, h, rfl⟩
  rw [letters_tokens, ← map_fst_cut] at hmem
  obtain ⟨m, hm, rfl⟩ := List.mem_map.mp hmem
  exact isLetter_of_mem_cut cs m hm

/-- **A spec is read as the pieces that it was made from**, with every marker of a number
as that of a text, and the spec that is made of it again is the same. -/
theorem spec_reread (proccode : String) (names : List String) (defaults : List Json) :
    tokens (spec (parameters (tokens proccode.toList) names defaults)).toList
        = (tokens proccode.toList).map Token.numberAsText
      ∧ ∀ names' defaults',
        spec (parameters
            (tokens (spec (parameters (tokens proccode.toList) names defaults)).toList)
            names' defaults')
          = spec (parameters (tokens proccode.toList) names defaults) := by
  constructor
  · rw [tokens_spec]
    refine List.map_congr_left (fun t ht => written_eq_numberAsText ?_)
    rintro k rfl
    exact isLetter_of_placeholder_mem_tokens ht
  · intro names' defaults'
    rw [spec_eq_iff, tokens_spec, List.map_map]
    -- a letter that is written is written as it is
    refine List.map_congr_left (fun t _ => ?_)
    cases t with
    | label text => rfl
    | placeholder k =>
      simp only [Function.comp_apply, Token.written, legacyLetter]
      split <;> rfl

end ScratchLegacy.Proccode
