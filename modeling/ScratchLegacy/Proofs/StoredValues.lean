import ScratchLegacy.Proofs.DeclaredData
import ScratchLegacy.Proofs.DocumentScripts
import ScratchLegacy.Proofs.ExactIntegers
import ScratchLegacy.Proofs.NumberedDocument

/-!
# Stored values

The value of a variable and the entries of a list pass from JSON to JSON: they are read as
scalars, numbers as doubles, and are written again, a double as an integer where it is one
below `2 ^ 53`. A text and a truth value stay what they are, and a number keeps the value
that the double has (`Json.survives_toJson`). The other way round, a scalar that is written
is read again as an equal one (`Scalar.equal_ofJson_toJson`).

`Project.stored_values_survive` follows the declarations of a document to the legacy
document. Each target has, in order, the variables and the lists that are kept, and each of
these has its value, or its entries one by one, at the place where the legacy format has
them.
-/

namespace ScratchLegacy

/-! ## Scalars -/

section Numbers

variable {x : Float}

/-- **An integral double below `2 ^ 53` is written as the integer.** -/
theorem Json.ofFloat_of_value? {k : Int} (h : Number.value? x = some (k : ℚ))
    (hk : k.natAbs < Number.exactBound) : ofFloat x = .number (.integer k) := by
  obtain ⟨v, hv, hvalue⟩ := Option.map_eq_some_iff.mp h
  have hinteger : Number.toInt? x = some k := by
    rw [Number.toInt?, hv, Option.bind_some, Exact.toInt?_of_value hvalue]
  simp only [ofFloat, hinteger, if_pos hk]

/-- **A finite double is read as an equal one where it is written.** -/
theorem Json.exists_ofFloat_eq (h : Number.isFinite x = true) :
    ∃ n q, ofFloat x = .number n ∧ n.value? = some q ∧ Number.value? x = some q
      ∧ Number.value? n.toFloat = some q := by
  obtain ⟨v, hv⟩ := Option.isSome_iff_exists.mp h
  have hvalue : Number.value? x = some v.value := by rw [Number.value?, hv, Option.map_some]
  by_cases hinteger : ∃ k : Int, k.natAbs < Number.exactBound ∧ v.value = k
  · obtain ⟨k, hk, hv⟩ := hinteger
    rw [hv] at hvalue
    exact ⟨.integer k, k, Json.ofFloat_of_value? hvalue hk, rfl, hvalue, Number.value?_ofInt hk⟩
  · refine ⟨.double x, v.value, ?_, hvalue, hvalue, hvalue⟩
    have hdouble : ofDouble x = .number (.double x) := by rw [ofDouble, if_pos h]
    rw [ofFloat, hdouble]
    split
    · next k hk =>
      rw [Number.toInt?, hv, Option.bind_some] at hk
      rw [if_neg fun hbound => hinteger ⟨k, hbound, Exact.value_of_toInt? hk⟩]
    · rfl

end Numbers

namespace Json

/-- **A value that a variable or a list holds as it is**: a text, a truth value, or a number
that is finite as a double. -/
inductive IsScalar : Json → Prop
  | text (s : String) : IsScalar (.text s)
  | bool (b : Bool) : IsScalar (.bool b)
  | number {n : JsonNumber} (finite : Number.isFinite n.toFloat = true) : IsScalar (.number n)

/-- **What the legacy document has for a value**: the same text, the same truth value, or a
number equal to the double that the value is read as. An integer below `2 ^ 53` is the
integer. -/
inductive Survives : Json → Json → Prop
  | text (s : String) : Survives (.text s) (.text s)
  | bool (b : Bool) : Survives (.bool b) (.bool b)
  | number {n m : JsonNumber} {q : ℚ} (read : Number.value? n.toFloat = some q)
      (written : m.value? = some q)
      (whole : ∀ k : Int, k.natAbs < Number.exactBound → n.value? = some (k : ℚ) → m = .integer k) :
      Survives (.number n) (.number m)

/-- An integer below `2 ^ 53` is read as a double equal to it, and so is a double. -/
theorem value?_toFloat {n : JsonNumber} {k : Int} (hk : k.natAbs < Number.exactBound)
    (h : n.value? = some (k : ℚ)) : Number.value? n.toFloat = some (k : ℚ) := by
  cases n with
  | integer j =>
    cases Int.cast_injective (Option.some.inj h)
    exact Number.value?_ofInt hk
  | double x => exact h

/-- **A value survives being read and written.** -/
theorem survives_toJson {v : Json} (h : v.IsScalar) : v.Survives (Scalar.ofJson v).toJson := by
  cases h with
  | text s => exact .text s
  | bool b => exact .bool b
  | @number n finite =>
    obtain ⟨m, q, hm, hwritten, hread, -⟩ := exists_ofFloat_eq finite
    show Survives (.number n) (ofFloat n.toFloat)
    rw [hm]
    refine .number hread hwritten (fun k hk hn => ?_)
    have hinteger := ofFloat_of_value? (value?_toFloat hk hn) hk
    exact Json.number.inj (hm.symm.trans hinteger)

end Json

namespace Scalar

/-- A scalar that is no infinity and no NaN. -/
def IsFinite (s : Scalar) : Prop := ∀ x, s = number x → Number.isFinite x = true

/-- **Equal scalars**: numbers of the same value, so that the two zeros are equal, the same
text, or the same truth value. -/
inductive Equal : Scalar → Scalar → Prop
  | number {x y : Float} {q : ℚ} (left : Number.value? x = some q)
      (right : Number.value? y = some q) : Equal (.number x) (.number y)
  | text (s : String) : Equal (.text s) (.text s)
  | boolean (b : Bool) : Equal (.boolean b) (.boolean b)

/-- **A scalar that is written is read again.** -/
theorem equal_ofJson_toJson {s : Scalar} (h : s.IsFinite) : s.Equal (ofJson s.toJson) := by
  cases s with
  | text s => exact .text s
  | boolean b => exact .boolean b
  | number x =>
    obtain ⟨n, q, hn, -, hx, hagain⟩ := Json.exists_ofFloat_eq (h x rfl)
    rw [toJson, hn]
    exact .number hx hagain

end Scalar

/-! ## Declarations -/

namespace Legacy

/-- **The value of a variable is in its entry**, under the name of the declaration. -/
structure VariableCarried (declaration : String × List Json) (entry : Json) : Prop where
  name : entry.get? "name" = some (.text (Json.scalarText? declaration.2[0]?))
  value : ∀ v, declaration.2[1]? = some v →
    ∃ w, entry.get? "value" = some w ∧ (v.IsScalar → v.Survives w)

/-- **The entries of a list are in its entry**, one by one, under the name of the
declaration. -/
structure ListCarried (declaration : String × List Json) (entry : Json) : Prop where
  name : entry.get? "listName" = some (.text (Json.scalarText? declaration.2[0]?))
  contents : ∀ items, declaration.2[1]? = some (.array items) →
    ∃ ws, entry.get? "contents" = some (.array ws)
      ∧ List.Forall₂ (fun v w => v.IsScalar → v.Survives w) items ws

/-- A variable that joins a declaration carries its value. -/
theorem variableCarried_of_joins {records : List Json} {d : String × List Json} {v : Variable}
    (h : v.Joins records d) : VariableCarried d (variableJson v) where
  name := congrArg (fun name => some (Json.text name)) h.name
  value u hu := by
    refine ⟨v.value.toJson, rfl, fun hscalar => ?_⟩
    rw [h.value, hu, Option.map_some, Option.getD_some]
    exact Json.survives_toJson hscalar

/-- A list that joins a declaration carries its entries. -/
theorem listCarried_of_joins {records : List Json} {d : String × List Json} {l : ItemList}
    (h : l.Joins records d) : ListCarried d (listJson l) where
  name := congrArg (fun name => some (Json.text name)) h.name
  contents items hitems := by
    refine ⟨l.items.map Scalar.toJson, rfl, ?_⟩
    rw [h.items, hitems, Json.items, Option.bind_some, Json.asArray?, Option.getD_some,
      List.map_map, List.forall₂_map_right_iff, List.forall₂_same]
    exact fun v _ hscalar => Json.survives_toJson hscalar

/-- **What is kept of some declarations is carried over**: there are declarations, in their
order, with the ids of what is kept, and entries that stand for them one by one. -/
def CarriedOver (carries : String × List Json → Json → Prop) (declared : List (String × List Json))
    (ids : List String) (shown? : Option Json) : Prop :=
  ∃ kept entries, kept.Sublist declared ∧ kept.map Prod.fst = ids
    ∧ shown? = some (.array entries) ∧ List.Forall₂ carries kept entries

/-- A part of a sequence stands beside a part of the other. -/
theorem exists_sublist_of_forall₂ {α β : Type} {r : α → β → Prop} {as : List α} {bs bs' : List β}
    (hsublist : bs'.Sublist bs) (h : List.Forall₂ r as bs) :
    ∃ as' : List α, as'.Sublist as ∧ List.Forall₂ r as' bs' := by
  induction hsublist generalizing as with
  | slnil =>
    cases h
    exact ⟨[], .slnil, .nil⟩
  | cons b _ ih =>
    cases h with
    | @cons a _ as _ _ hrest =>
      obtain ⟨as', hsublist, h⟩ := ih hrest
      exact ⟨as', hsublist.cons a, h⟩
  | cons_cons b _ ih =>
    cases h with
    | @cons a _ as _ hab hrest =>
      obtain ⟨as', hsublist, h⟩ := ih hrest
      exact ⟨a :: as', hsublist.cons_cons a, .cons hab h⟩

/-- **Data that is kept and written is carried over**, if it joins its declarations. -/
theorem carriedOver_of_sublist {α : Type} {joins : String × List Json → α → Prop}
    {carries : String × List Json → Json → Prop} {idOf : α → String} {write : α → Json}
    (hid : ∀ d a, joins d a → idOf a = d.1) (hcarries : ∀ d a, joins d a → carries d (write a))
    {declared : List (String × List Json)} {data kept : List α} (hsublist : kept.Sublist data)
    (hjoins : List.Forall₂ joins declared data) :
    CarriedOver carries declared (kept.map idOf) (some (.array (kept.map write))) := by
  obtain ⟨ds, hds, h⟩ := exists_sublist_of_forall₂ hsublist hjoins
  refine ⟨ds, kept.map write, hds, ?_, rfl, List.forall₂_map_right_iff.mpr (h.imp hcarries)⟩
  exact map_eq_of_forall₂ (h.flip.imp fun a d hda => (hid d a hda).symm)

/-- **The data of a target is carried over** to its part of the legacy document. -/
structure DataCarried (target : Json) (t : Target) (shown : Json) : Prop where
  vars : CarriedOver VariableCarried (arrayDeclarations target "variables") (t.vars.map Variable.id)
    (shown.get? "variables")
  lists : CarriedOver ListCarried (arrayDeclarations target "lists") (t.lists.map ItemList.id)
    (shown.get? "lists")

/-! ## Documents -/

/-- **The targets that a legacy document shows**: itself for the stage, then its children. -/
def shownTargets (document : Json) : List Json :=
  document :: Json.items (document.get? "children")

/-- A target shows its variables and its lists, whatever entries follow. -/
theorem get_data (e : TargetEntry) (rest : List (String × Json)) :
    (Json.object (e.entries ++ rest)).get? "variables" = some (.array (e.vars.map variableJson))
      ∧ (Json.object (e.entries ++ rest)).get? "lists"
        = some (.array (e.lists.map listJson)) := by
  constructor <;> simp [TargetEntry.entries, Json.get?, Entries.find?]

/-- The data of the sprites is written as it is. -/
theorem run_encodeSprites_data (options : Options) (sprites : List Target) (index : Nat)
    (table : AssetTable) :
    (((sprites.zipIdx index).mapM (encodeSprite options)).run table).1.map
        (fun s => (s.target.vars, s.target.lists))
      = sprites.map (fun t => (t.vars, t.lists)) := by
  induction sprites generalizing index table with
  | nil => rfl
  | cons s rest ih =>
    rw [List.zipIdx_cons, run_encodeSprites_cons, List.map_cons, List.map_cons]
    exact congrArg (_ :: ·) (ih (index + 1) _)

/-- A target is shown with its data. -/
def ShowsData (t : Target) (shown : Json) : Prop :=
  shown.get? "variables" = some (.array (t.vars.map variableJson))
    ∧ shown.get? "lists" = some (.array (t.lists.map listJson))

/-- **A legacy document shows the data of each target.** -/
theorem forall₂_showsData (options : Options) (p : Project) :
    List.Forall₂ ShowsData p.targets (shownTargets (encode options p).1.toJson) := by
  have hsprites : List.Forall₂ ShowsData p.sprites
      ((encode options p).1.sprites.map SpriteEntry.toJson) := by
    have hdata : (encode options p).1.sprites.map (fun s => (s.target.vars, s.target.lists))
        = p.sprites.map (fun t => (t.vars, t.lists)) :=
      run_encodeSprites_data options p.sprites 0 (tableOfSprites options p)
    have hsame := List.forall₂_eq_eq_eq.symm ▸ hdata.symm
    rw [List.forall₂_map_left_iff, List.forall₂_map_right_iff] at hsame
    refine List.forall₂_map_right_iff.mpr (hsame.imp fun t s hts => ?_)
    obtain ⟨hvars, hlists⟩ := Prod.mk.inj hts
    have hget := get_data s.target
    rw [← hvars, ← hlists] at hget
    exact hget _
  obtain ⟨rest, hrest⟩ := exists_toJson_eq (encode options p).1
  rw [shownTargets, get_children]
  refine .cons ?_ hsprites
  rw [hrest]
  exact get_data _ rest

end Legacy

namespace Target

open Legacy

variable {fetch : Fetcher} {arrange : Arrangement} {records : List Json} {target : Json}
  {t : Target}

/-- **What is retained of a target is carried over** where it is shown. -/
theorem dataCarried_of_retain (h : ofJson fetch arrange records target = .ok t)
    {ids : List String} {shown : Json} (hshown : ShowsData (t.retain ids) shown) :
    DataCarried target (t.retain ids) shown := by
  obtain ⟨hvars, hlists⟩ := data_of_ofJson h
  have hjoinedVars := hvars ▸ Variable.forall₂_joins records target
  have hjoinedLists := hlists ▸ ItemList.forall₂_joins records target
  constructor
  · rw [hshown.1]
    refine carriedOver_of_sublist ?_ ?_ List.filter_sublist hjoinedVars
    · exact fun _ _ hjoins => hjoins.id
    · exact fun _ _ => variableCarried_of_joins
  · rw [hshown.2]
    refine carriedOver_of_sublist ?_ ?_ List.filter_sublist hjoinedLists
    · exact fun _ _ hjoins => hjoins.id
    · exact fun _ _ => listCarried_of_joins

end Target

namespace Project

open Legacy

/-- **Stored values survive the conversion.** The targets of the legacy document stand for
those of the project, and these come from those of the document, the stage first. The
variables and the lists that a target of the project has stand in the legacy document one by
one and in order, under the names of their declarations. A variable has the value that is
declared: the same text, the same truth value, or a number equal to the double that is read,
and the same integer below `2 ^ 53`. The entries of a list are the declared ones, one by one,
in the same way. And every scalar with a finite number is read again as it is written. -/
theorem stored_values_survive {fetch : Fetcher} {document : Json} {p : Project}
    (options : Options) (h : ofDocument fetch document = .ok p) :
    (∀ (i : Nat) (t : Target), p.targets[i]? = some t →
        ∃ target shown,
          (stageFirst isStage (Json.items (document.get? "targets")))[i]? = some target
          ∧ (shownTargets (encode options p).1.toJson)[i]? = some shown
          ∧ DataCarried target t shown)
      ∧ ∀ s : Scalar, s.IsFinite → s.Equal (Scalar.ofJson s.toJson) := by
  refine ⟨fun i t ht => ?_, fun s => Scalar.equal_ofJson_toJson⟩
  obtain ⟨unpruned, hdecode, rfl⟩ := map_eq_ok_iff.mp h
  have htargets := forall₂_targets_of_ofDocumentUnpruned hdecode
  have hshows := forall₂_showsData options unpruned.prune
  obtain ⟨hi, hget⟩ := List.getElem?_eq_some_iff.mp ht
  have hi' := hi
  rw [length_targets_prune] at hi'
  refine ⟨_, _, List.getElem?_eq_getElem (htargets.length_eq ▸ hi'),
    List.getElem?_eq_getElem (hshows.length_eq ▸ hi), ?_⟩
  have hshown := hshows.get hi (hshows.length_eq ▸ hi)
  -- the target is what the references in its scope retain
  have hpruned := getElem?_targets_prune (List.getElem?_eq_getElem hi')
  rw [ht, Option.some_inj] at hpruned
  have htarget := htargets.get (htargets.length_eq ▸ hi') hi'
  rw [List.get_eq_getElem, List.get_eq_getElem, hget] at hshown
  rw [hpruned] at hshown ⊢
  exact Target.dataCarried_of_retain htarget hshown

/-- A document whose stage shows the largest integer that a double holds for certain, a
fraction, a flag and a list of three kinds of entries. -/
def ledger : Json :=
  .object
    [("targets", .array [.object [("isStage", .bool true), ("name", .text "Stage"),
      ("variables", .object [
        ("n", .array [.text "savings", .number (.integer 9007199254740991)]),
        ("h", .array [.text "share", .number (.double 0.5)]),
        ("o", .array [.text "open", .bool true])]),
      ("lists", .object [("l", .array [.text "names",
        .array [.text "Ann", .number (.integer (-7)), .bool false]])])]]),
     ("monitors", .array [
      .object [("id", .text "n"), ("visible", .bool true)],
      .object [("id", .text "h"), ("visible", .bool true)],
      .object [("id", .text "l"), ("visible", .bool true)]])]

/-- What the ledger shows is carried over, and the flag, which it does not show, is not. -/
theorem ledger_survives :
    ∃ p, ofDocument (fun _ => .ok ByteArray.empty) ledger = .ok p
      ∧ p.stage.vars.map Variable.id = ["n", "h"] ∧ p.stage.lists.map ItemList.id = ["l"]
      ∧ ∃ target shown, (stageFirst isStage (Json.items (ledger.get? "targets")))[0]? = some target
        ∧ (shownTargets (encode {} p).1.toJson)[0]? = some shown
        ∧ DataCarried target p.stage shown := by
  obtain ⟨p, hp, hvars, hlists⟩ : ∃ p,
      ofDocument (fun _ => .ok ByteArray.empty) ledger = .ok p
        ∧ p.stage.vars.map Variable.id = ["n", "h"]
        ∧ p.stage.lists.map ItemList.id = ["l"] := ⟨_, rfl, rfl, rfl⟩
  exact ⟨p, hp, hvars, hlists, (stored_values_survive {} hp).1 0 p.stage rfl⟩

end Project

end ScratchLegacy
