import ScratchLegacy.Proofs.ProccodeMarkers

/-!
# Specs of signatures

The legacy format has no proccodes. Its spec of a signature is put together from
the pieces of a proccode, with one blank between any two of them and every
marker that is no boolean written `%s`.

Nothing else is lost on the way: a spec has the pieces of the proccode, as they
are written (`Proccode.tokens_spec`), and so its markers
(`Proccode.markers_spec`). Therefore two proccodes share a spec exactly when
their pieces are written alike (`Proccode.spec_eq_iff`) – as `jump %n` and
` jump  %s` do.
-/

namespace ScratchLegacy.Proccode

/-! ## The pieces of a proccode -/

/-- The letter of a placeholder. -/
def Token.letter? : Token → Option Char
  | .label _ => none
  | .placeholder k => some k

/-- A stretch has no placeholder. -/
theorem filterMap_letter?_label (s : List Char) : (label s).filterMap Token.letter? = [] := by
  unfold label
  split <;> rfl

/-- **The placeholders of a proccode are its markers.** -/
theorem letters_tokens (cs : List Char) : (tokens cs).filterMap Token.letter? = markers cs := by
  rw [← map_fst_cut, tokens, List.filterMap_append, filterMap_letter?_label, List.nil_append]
  induction (cut cs).2 with
  | nil => rfl
  | cons m ms ih =>
    rw [List.flatMap_cons, List.filterMap_append, ih, List.filterMap_cons, filterMap_letter?_label]
    rfl

/-- **A text that can be a label**: it has no outer blanks, is not empty, and has
no markers. -/
structure IsLabel (text : List Char) : Prop where
  trimmed : Text.trim text = text
  ne_nil : text ≠ []
  markerless : markers text = []

/-- **Pieces as they come from a proccode**: there is a placeholder between two labels. -/
inductive Spaced : List Token → Prop where
  | nil : Spaced []
  | label {text : List Char} (h : IsLabel text) : Spaced [.label text]
  | placeholder {k : Char} {ts : List Token} (letter : isLetter k = true) (rest : Spaced ts) :
      Spaced (.placeholder k :: ts)
  | labelled {text : List Char} {k : Char} {ts : List Token} (h : IsLabel text)
      (letter : isLetter k = true) (rest : Spaced ts) :
      Spaced (.label text :: .placeholder k :: ts)

theorem isBlank_ne_backslash {c : Char} (h : Text.isBlank c = true) : some c ≠ some '\\' := by
  rintro ⟨⟩
  exact absurd h (by decide)

theorem isBlank_ne_percent {c : Char} (h : Text.isBlank c = true) : c ≠ '%' := by
  rintro rfl
  exact absurd h (by decide)

/-- Blanks in front of a text are passed over. -/
theorem markers_blanks_append {blanks : List Char} (h : ∀ c ∈ blanks, Text.isBlank c = true)
    (cs : List Char) : markers (blanks ++ cs) = markers cs := by
  induction blanks with
  | nil => rfl
  | cons c blanks ih =>
    rw [List.forall_mem_cons] at h
    rw [← ih h.2]
    exact (markersBehind_cons_of_ne (isBlank_ne_percent h.1)).trans
      (markersBehind_eq_markers (isBlank_ne_backslash h.1) _)

/-- **What is put behind a text takes none of its markers away.** -/
theorem markersBehind_sublist (before : Option Char) (cs after : List Char) :
    (markersBehind before cs).Sublist (markersBehind before (cs ++ after)) := by
  induction cs generalizing before with
  | nil => exact List.nil_sublist _
  | cons c cs ih =>
    cases cs with
    | nil => exact List.nil_sublist _
    | cons k cs => exact (List.Sublist.refl _).append (ih (some c))

/-- Trimming a text without markers leaves none. -/
theorem markers_trim_eq_nil {s : List Char} (h : markers s = []) : markers (Text.trim s) = [] := by
  obtain ⟨before, after, hbefore, _, hs⟩ := Text.exists_blanks_trim s
  rw [hs, markers_blanks_append hbefore] at h
  exact List.sublist_nil.mp (h ▸ markersBehind_sublist none (Text.trim s) after)

/-- A stretch without markers gives a label that can be one, or none. -/
theorem label_cases {s : List Char} (h : markers s = []) :
    label s = [] ∨ ∃ text, IsLabel text ∧ label s = [.label text] := by
  unfold label
  split
  · exact .inl rfl
  · next text hne =>
    exact .inr ⟨_, ⟨Text.trim_trim s, hne, markers_trim_eq_nil h⟩, rfl⟩

/-- **The pieces of a proccode are spaced.** -/
theorem spaced_tokens (cs : List Char) : Spaced (tokens cs) := by
  have hpieces : ∀ (ms : List (Char × List Char)) (s : List Char), markers s = [] →
      (∀ m ∈ ms, isLetter m.1 = true ∧ markers m.2 = []) →
      Spaced (label s ++ ms.flatMap (fun m => .placeholder m.1 :: label m.2)) := by
    intro ms
    induction ms with
    | nil =>
      intro s hs _
      rcases label_cases hs with hlabel | ⟨text, htext, hlabel⟩ <;> rw [hlabel]
      · exact .nil
      · exact .label htext
    | cons m ms ih =>
      intro s hs hms
      rw [List.forall_mem_cons] at hms
      have hrest := ih m.2 hms.1.2 hms.2
      rcases label_cases hs with hlabel | ⟨text, htext, hlabel⟩ <;> rw [hlabel]
      · exact .placeholder hms.1.1 hrest
      · exact .labelled htext hms.1.1 hrest
  exact hpieces _ _ (markers_stretches cs).1
    (fun m hm => ⟨isLetter_of_mem_cut cs m hm, (markers_stretches cs).2 m hm⟩)

/-! ## The spec of a signature -/

/-- **The legacy letter of a marker**: one that is no boolean is written `s`. -/
def legacyLetter (k : Char) : Char := if k = 'b' then 'b' else 's'

/-- A piece as the legacy format has it. -/
def Token.written : Token → Token
  | .label text => .label text
  | .placeholder k => .placeholder (legacyLetter k)

/-- The text of a piece. -/
def Token.word : Token → List Char
  | .label text => text
  | .placeholder k => ['%', k]

/-- Pieces with a blank between any two of them. -/
def sentence : List Token → List Char
  | [] => []
  | [t] => t.word
  | t :: u :: rest => t.word ++ ' ' :: sentence (u :: rest)

/-- A spec is the sentence of the pieces that it is made from, as they are
written. -/
theorem spec_parameters (ts : List Token) (names : List String) (defaults : List Json) :
    (spec (parameters ts names defaults)).toList = sentence (ts.map Token.written) := by
  have hwords : (parameters ts names defaults).map (fun p => (specWord p).toList)
      = ts.map (fun t => t.written.word) := by
    induction ts generalizing names defaults with
    | nil => rfl
    | cons t ts ih =>
      cases t with
      | label text =>
        rw [parameters, List.map_cons, List.map_cons, ih, specWord, String.toList_ofList]
        rfl
      | placeholder k =>
        rw [parameters, List.map_cons, List.map_cons, ih, Token.written, legacyLetter]
        split
        · exact congrArg (· :: _) (rfl : "%b".toList = _)
        · exact congrArg (· :: _) (rfl : "%s".toList = _)
  have hsentence : ∀ ts : List Token, sentence ts = [' '].intercalate (ts.map Token.word) := by
    intro ts
    fun_induction sentence ts with
    | case1 => rfl
    | case2 t => exact (List.append_nil _).symm
    | case3 t u rest ih =>
      rw [ih]
      rfl
  rw [spec, String.toList_intercalate, List.map_map, hsentence, List.map_map]
  exact congrArg (List.intercalate _) hwords

/-- A legacy letter makes a marker. -/
theorem isLetter_legacyLetter (k : Char) : isLetter (legacyLetter k) = true := by
  unfold legacyLetter
  split <;> rfl

/-- Written pieces are spaced when the pieces are. -/
theorem Spaced.map_written {ts : List Token} (h : Spaced ts) : Spaced (ts.map Token.written) := by
  induction h with
  | nil => exact .nil
  | label h => exact .label h
  | placeholder _ _ ih => exact .placeholder (isLetter_legacyLetter _) ih
  | labelled h _ _ ih => exact .labelled h (isLetter_legacyLetter _) ih

/-- A blank before a proccode does not matter. -/
theorem tokens_cons_blank (cs : List Char) : tokens (' ' :: cs) = tokens cs := by
  have hlabel : label (' ' :: (cut cs).1) = label (cut cs).1 := by
    rw [label, Text.trim_cons_of_isBlank (by decide)]
    rfl
  rw [tokens, cut_cons_blank, Cut.cons, hlabel]
  rfl

/-- A text that can be a label is one. -/
theorem label_of_trim {s text : List Char} (h : IsLabel text) (hs : Text.trim s = text) :
    label s = [.label text] := by
  rw [label, hs]
  cases text with
  | nil => exact (h.ne_nil rfl).elim
  | cons c rest => rfl

/-- A marker at the beginning is the first piece. -/
theorem tokens_marker {k : Char} (h : isLetter k = true) (cs : List Char) :
    tokens ('%' :: k :: cs) = .placeholder k :: tokens cs := by
  rw [tokens, cut_marker h]
  rfl

/-- A label is a piece when a marker follows it. -/
theorem tokens_label {text : List Char} (h : IsLabel text) {k : Char} (hk : isLetter k = true)
    (cs : List Char) :
    tokens (text ++ ' ' :: '%' :: k :: cs) = .label text :: tokens ('%' :: k :: cs) := by
  have hlabel : label (text ++ [' ']) = [.label text] :=
    label_of_trim h ((Text.trim_concat_of_isBlank (by decide) text).trans h.trimmed)
  rw [tokens_marker hk, tokens, cut_append_blank h.markerless, cut_marker hk, hlabel]
  rfl

/-- A label alone is the only piece. -/
theorem tokens_of_isLabel {text : List Char} (h : IsLabel text) : tokens text = [.label text] := by
  rw [tokens, cut_of_markers_eq_nil h.markerless, label_of_trim h h.trimmed]
  rfl

/-- The pieces behind a marker are those of the rest of the sentence. -/
theorem sentence_placeholder (k : Char) (ts : List Token) :
    ∃ cs, sentence (.placeholder k :: ts) = '%' :: k :: cs
      ∧ tokens cs = tokens (sentence ts) := by
  cases ts with
  | nil => exact ⟨[], rfl, rfl⟩
  | cons t ts => exact ⟨' ' :: sentence (t :: ts), rfl, tokens_cons_blank _⟩

/-- **The pieces of a sentence are those that it was made of.** -/
theorem tokens_sentence {ts : List Token} (h : Spaced ts) : tokens (sentence ts) = ts := by
  induction h with
  | nil => rfl
  | label h => exact tokens_of_isLabel h
  | @placeholder k ts letter _ ih =>
    obtain ⟨cs, hcs, htokens⟩ := sentence_placeholder k ts
    rw [hcs, tokens_marker letter, htokens, ih]
  | @labelled text k ts h letter _ ih =>
    obtain ⟨cs, hcs, htokens⟩ := sentence_placeholder k ts
    rw [sentence, Token.word, hcs, tokens_label h letter, tokens_marker letter, htokens, ih]

/-- **The spec of a proccode has its pieces**, as they are written. -/
theorem tokens_spec (cs : List Char) (names : List String) (defaults : List Json) :
    tokens (spec (parameters (tokens cs) names defaults)).toList
      = (tokens cs).map Token.written := by
  rw [spec_parameters, tokens_sentence (spaced_tokens cs).map_written]

/-- **The spec of a proccode has its markers**, as they are written. -/
theorem markers_spec (cs : List Char) (names : List String) (defaults : List Json) :
    markers (spec (parameters (tokens cs) names defaults)).toList
      = (markers cs).map legacyLetter := by
  rw [← letters_tokens, tokens_spec, ← letters_tokens cs, List.filterMap_map,
    List.map_filterMap]
  refine List.filterMap_congr (fun t _ => ?_)
  cases t <;> rfl

/-- **Two proccodes have one spec when their pieces are written alike**, and only then. -/
theorem spec_eq_iff {cs cs' : List Char} {names names' : List String}
    {defaults defaults' : List Json} :
    spec (parameters (tokens cs) names defaults) = spec (parameters (tokens cs') names' defaults')
      ↔ (tokens cs).map Token.written = (tokens cs').map Token.written := by
  constructor
  · intro h
    rw [← tokens_spec cs names defaults, h, tokens_spec]
  · intro h
    rw [← String.toList_inj, spec_parameters, spec_parameters, h]

end ScratchLegacy.Proccode
