import Mathlib
import ScratchLegacy.Proofs.KeyOrder
import ScratchLegacy.Proofs.ProcedureAgreement
import ScratchLegacy.Proofs.WrittenNumbers

/-!
# Arguments of calls

The record of a call fills slots that are named by the ids of its arguments, and lists
these ids in the order in which the arguments are passed. Rebuilding the block takes the
values out of the slots, in the order of the list, and translating it puts them
behind the spec of the procedure.

When no id is listed twice, every argument is what its own id holds and nothing else
(`callArguments_eq_map`): `Passes` says what becomes of an input that is passed, and
`Target.call_passes_arguments` says of all calls within the scripts of a target that
their arguments are passed in this way, one for each listed id.
-/

namespace ScratchLegacy

/-! ## Arguments by id -/

/-- **What a call passes**, given the input under the id of the argument. -/
inductive Passes : Option Input → Input → Prop
  /-- A literal text that is a numeral becomes its number. -/
  | numeral {input : Input} {s : String} {x : Float} (literal : input.IsLiteralText s)
      (reads : Numeral.read? s = some x) : Passes (some input) (.number (.number x))
  /-- Any other literal text is passed as text. -/
  | word {input : Input} {s : String} (literal : input.IsLiteralText s)
      (rejects : Numeral.read? s = none) : Passes (some input) (.text s)
  /-- Every other input is passed as it is. -/
  | unchanged {input : Input} (notLiteral : ∀ s, ¬ input.IsLiteralText s) :
      Passes (some input) input
  /-- For an argument without an input `false` is passed. -/
  | missing : Passes none (.boolean false)

/-- The argument made of an input is what is passed for it. -/
theorem passes_callArgument (input? : Option Input) :
    Passes input? ((input?.map callArgument).getD (.boolean false)) := by
  have hliteral : ∀ {input : Input} {s : String}, input.IsLiteralText s →
      callArgument input
        = ((Numeral.read? s).map (fun x => Input.number (.number x))).getD (.text s) := by
    rintro input s (rfl | rfl) <;>
    · simp only [callArgument]
      cases Numeral.read? s <;> rfl
  cases input? with
  | none => exact .missing
  | some input =>
    show Passes (some input) (callArgument input)
    by_cases h : ∃ s, input.IsLiteralText s
    · obtain ⟨s, hs⟩ := h
      rw [hliteral hs]
      cases hread : Numeral.read? s with
      | some x => exact .numeral hs hread
      | none => exact .word hs hread
    · rw [not_exists] at h
      have hsame : callArgument input = input := by
        unfold callArgument
        split
        · exact absurd (.inl rfl) (h _)
        · exact absurd (.inr rfl) (h _)
        · rfl
      rw [hsame]
      exact .unchanged h

/-- **Arguments with distinct ids do not depend on each other**: each is made of what its
own id holds. -/
theorem callArguments_eq_map {ids : List String} (h : ids.Nodup)
    (inputs : List (String × Input)) :
    callArguments ids inputs
      = ids.map (fun id => ((SlotMap.find? id inputs).map callArgument).getD (.boolean false)) := by
  induction ids generalizing inputs with
  | nil => rfl
  | cons id ids ih =>
    obtain ⟨hid, hids⟩ := List.nodup_cons.mp h
    rw [callArguments, ih hids, List.map_cons]
    refine congrArg _ (List.map_congr_left (fun other hother => ?_))
    have hne : id ≠ other := fun heq => hid (heq ▸ hother)
    rw [SlotMap.find?_erase_of_ne hne]

/-! ## The ids that a record lists -/

/-- **The ids that are listed** by what a document stores for them: the texts of the items
of an array, which stands there itself or as JSON text, and none where there is no
array. -/
inductive Lists : Option Json → List String → Prop
  | inline (items : List Json) : Lists (some (.array items)) (items.map Json.scalarText)
  | encoded {s : String} {items : List Json} (reads : Json.read? s = some (.array items)) :
      Lists (some (.text s)) (items.map Json.scalarText)
  | unreadable {s : String} (rejects : ∀ items, Json.read? s ≠ some (.array items)) :
      Lists (some (.text s)) []
  | absent {v? : Option Json} (notArray : ∀ items, v? ≠ some (.array items))
      (notText : ∀ s, v? ≠ some (.text s)) : Lists v? []

/-- The ids that are listed are the texts of the list that is stored. -/
theorem Lists.eq {v? : Option Json} {ids : List String} (h : Lists v? ids) :
    ids = (encodedList v?).map Json.scalarText := by
  cases h with
  | inline items => rfl
  | encoded reads => rw [encodedList, reads]; rfl
  | @unreadable s rejects =>
    rw [encodedList]
    cases hread : Json.read? s with
    | none => rfl
    | some v =>
      cases v with
      | array items => exact absurd hread (rejects items)
      | _ => rfl
  | absent notArray notText =>
    unfold encodedList
    split
    · exact absurd rfl (notText _)
    · exact absurd rfl (notArray _)
    · rfl

/-- **A JSON record lists the ids of arguments** in its mutation. -/
def ListsArguments (v : Json) (ids : List String) : Prop :=
  Lists ((v.get? "mutation").bind (Json.get? · "argumentids")) ids

/-- The ids that a JSON record lists are those of the record that it stores. -/
theorem ListsArguments.eq {v : Json} {ids : List String} (h : ListsArguments v ids) :
    ids = (BlockRecord.ofJson v).argumentIds := by
  rw [Lists.eq h, BlockRecord.argumentIds, BlockRecord.ofJson]
  cases v.get? "mutation" with
  | none => rfl
  | some mutation => cases mutation <;> rfl

/-! ## The input under an id -/

namespace BlockTable

variable (t : BlockTable) (chains : String → List Block) (id opcode : String)
  {record : BlockRecord} {key : String} {input : Input}

/-- **The input that the slots of a record give under a key**, given the chains that are
grown: the last one that filling them writes there. -/
def slotInput? (record : BlockRecord) (key : String) : Option Input :=
  (Step.writesAt chains key (t.steps t.length [] id opcode record)).getLast?.map Prod.snd

variable {t chains id opcode}

/-- An input that the slots give under a key is written there by one of them. -/
theorem exists_writes_of_slotInput? (h : t.slotInput? chains id opcode record key = some input) :
    ∃ entry ∈ record.slots, t.Writes chains id opcode entry (key, input) := by
  obtain ⟨⟨_, _⟩, hlast, rfl⟩ := Option.map_eq_some_iff.mp h
  obtain ⟨hw, hkey⟩ := List.mem_filter.mp (List.mem_of_getLast? hlast)
  cases of_decide_eq_true hkey
  exact exists_writes_of_mem_steps hw

/-- **A literal is what its slot gives** when no slot after it writes the key. -/
theorem slotInput?_of_literal {parts : List Json} {before after : List (String × SlotValue)}
    (split : record.slots = before ++ (key, .literal parts) :: after)
    (stored : literalInput? id key parts = some input)
    (last : ∀ e ∈ after, ¬ t.WritesKey e key) :
    t.slotInput? chains id opcode record key = some input := by
  have hentry : (t.slotSteps (t.inlined t.length []) id opcode (key, .literal parts)).filterMap
      (Step.write? chains) = [] ++ (key, input) :: [] := by
    rw [slotSteps_literal, stored]
    rfl
  obtain ⟨pre, post, hwrites, hpost⟩ :=
    exists_writes_of_split split last ⟨[], [], hentry, fun _ hw => absurd hw List.not_mem_nil⟩
  have hnone : post.filter (fun w => w.1 = key) = [] :=
    List.filter_eq_nil_iff.mpr (fun w hw => by simpa using hpost w hw)
  rw [slotInput?, Step.writesAt, hwrites, List.filter_append,
    List.filter_cons_of_pos (by simp), hnone, List.getLast?_concat]
  rfl

/-- **The input under a key does not depend on the order of the slots** that do not get in
each other's way. -/
theorem slotInput?_of_perm {slots : List (String × SlotValue)} (hslots : record.slots.Perm slots)
    (hapart : record.slots.Pairwise t.Apart) :
    t.slotInput? chains id opcode { record with slots := slots } key
      = t.slotInput? chains id opcode record key := by
  have hone := pairwise_writesAt hapart chains t.length [] id opcode key
  simp only [slotInput?, steps_eq_flatMap, Step.writesAt_flatMap]
  rw [flatMap_eq_of_perm hslots hone]

/-- What the slots give under a key is what the filled slots hold. -/
theorem find?_inputs_eq_slotInput? {room : Nat} {opened : List String} {f : Filling}
    (hf : (t.steps t.length [] id opcode record).foldlM
      (Filling.take (t.chainWithin room (id :: opened))) {} = .ok f)
    (hchains : ∀ head blocks, t.chainWithin room (id :: opened) head = .ok blocks →
      chains head = blocks) (key : String) :
    SlotMap.find? key f.inputs = t.slotInput? chains id opcode record key := by
  rw [inputs_eq_insertAll hf hchains, SlotMap.find?_insertAll, SlotMap.find?, Option.or_none]
  rfl

end BlockTable

/-! ## Calls -/

/-- **A block is a call that passes the arguments of these ids.** The chains that hang
from the record are grown whole, what an id holds is written by one of the slots, and
each argument is what its own id holds. The call has no other input, keeps the ids, and
is translated into its spec with the arguments behind it. -/
structure BlockTable.PassesArguments (t : BlockTable) (specOf : String → String) (call : Block)
    (record : BlockRecord) (ids : List String) (chains : String → List Block)
    (values : List Input) : Prop where
  chained : ∀ statements head, t.Hangs (.block call.id) statements head →
    t.Chained [] head ((chains head).map Block.id)
  grown : ∀ statements head, t.Hangs (.block call.id) statements head →
    ∀ x ∈ chains head, t.Grown x
  origin : ∀ id input, t.slotInput? chains call.id call.opcode record id = some input →
    ∃ entry ∈ record.slots, t.Writes chains call.id call.opcode entry (id, input)
  passed : List.Forall₂
    (fun id value => Passes (t.slotInput? chains call.id call.opcode record id) value) ids values
  inputs : call.inputs = [("INPUTS", .arguments values)]
  argumentIds : call.signature.map Signature.argumentIds = some ids
  token : (Legacy.emitBlock specOf call).value.toJson
    = .array (.text "call" :: .text (specOf (call.proccode?.getD ""))
      :: values.map (Legacy.written specOf))

namespace BlockTable

variable {t : BlockTable}

/-- The record of an id is the one that the JSON object stores under it. -/
theorem record?_ofEntries (id : String) (entries : List (String × Json)) :
    (ofEntries entries).record? id = (Entries.find? id entries).map BlockRecord.ofJson := by
  induction entries with
  | nil => rfl
  | cons e rest ih =>
    show (if e.1 = id then some (BlockRecord.ofJson e.2) else (ofEntries rest).record? id) = _
    rw [ih, Entries.find?]
    split <;> rfl

/-- **An expanded call passes its arguments** when its record lists no id twice. -/
theorem exists_passesArguments_of_expand {room : Nat} {opened : List String} {id : String}
    {call : Block} (h : t.expand room opened id = .ok call) (hcalls : call.opcode = Opcode.call)
    {record : BlockRecord} (found : t.record? call.id = some record)
    (distinct : record.argumentIds.Nodup) (specOf : String → String) :
    ∃ chains values, t.PassesArguments specOf call record record.argumentIds chains values := by
  cases room with
  | zero => exact absurd ⟨call, h⟩ not_expands_zero
  | succ room =>
    obtain ⟨_, f, chains, hb⟩ := exists_madeOf_of_expand h
    cases found.symm.trans hb.found
    -- a call has no fields, so its slots are all that it has
    have hfields : record.fieldInputs call.opcode = [] := by
      rw [hcalls]
      rfl
    have hinputs : call.inputs
        = [("INPUTS", .arguments (callArguments record.argumentIds f.inputs))] := by
      rw [← hb.made, Filling.block, hfields, if_pos hcalls]
      rfl
    refine ⟨chains, _, fun s head hhead => chained_of_chainWithin (hb.hangs s head hhead),
      fun s head hhead x hx => ?_, fun _ _ => exists_writes_of_slotInput?, ?_, hinputs, ?_, ?_⟩
    · obtain ⟨id, hexpand⟩ := exists_expand_of_mem_chainWithin (hb.hangs s head hhead) hx
      exact grown_of_expand hexpand
    · rw [callArguments_eq_map distinct, List.forall₂_map_right_iff, List.forall₂_same]
      intro id _
      rw [find?_inputs_eq_slotInput? hb.filled hb.grows]
      exact passes_callArgument _
    · rw [← hb.made, Filling.block, if_pos hcalls]
      rfl
    · rw [Legacy.value_emitBlock_call specOf hcalls hinputs, Legacy.Token.toJson,
        Legacy.Token.toJsonAll_eq_map, List.map_cons, List.map_map]
      rfl

end BlockTable

namespace Target

/-- **Calls pass their arguments by id.** For every call within the scripts of a table
whose JSON record lists no id twice, the arguments are what the ids hold, in the order
in which they are listed, and one for each; the order of the slots has no meaning when
they do not get in each other's way. -/
theorem call_passes_arguments {entries : List (String × Json)} {target : Target}
    (h : (BlockTable.ofEntries entries).scripts = .ok target.scripts) {call : Block}
    (hcall : call ∈ target.blocks) (hcalls : call.opcode = Opcode.call) {v : Json}
    (found : Entries.find? call.id entries = some v) {ids : List String}
    (listed : ListsArguments v ids) (distinct : ids.Nodup) :
    ∃ chains values,
      (BlockTable.ofEntries entries).PassesArguments (Legacy.specOf target) call
        (BlockRecord.ofJson v) ids chains values
      ∧ ∀ slots, (BlockRecord.ofJson v).slots.Perm slots →
        (BlockRecord.ofJson v).slots.Pairwise (BlockTable.ofEntries entries).Apart →
        ∀ id ∈ ids, (BlockTable.ofEntries entries).slotInput? chains call.id call.opcode
            { BlockRecord.ofJson v with slots := slots } id
          = (BlockTable.ofEntries entries).slotInput? chains call.id call.opcode
              (BlockRecord.ofJson v) id := by
  obtain ⟨_, _, _, hexpand⟩ := expanded_of_scripts h hcall (.inr hcalls)
  have hrecord : (BlockTable.ofEntries entries).record? call.id = some (BlockRecord.ofJson v) := by
    rw [BlockTable.record?_ofEntries, found, Option.map_some]
  cases listed.eq
  obtain ⟨chains, values, hpasses⟩ :=
    BlockTable.exists_passesArguments_of_expand hexpand hcalls hrecord distinct _
  exact ⟨chains, values, hpasses, fun slots hslots hapart _ _ =>
    BlockTable.slotInput?_of_perm hslots hapart⟩

/-- The block of a call of a stride with three arguments. -/
def strideCall : Block :=
  { id := "c", opcode := "procedures_call"
    inputs := [("INPUTS", .arguments [.text "far", .number (.number 5), .boolean false])]
    signature := some ⟨"stride %s %n %b", ["b", "a", "z"], [], false⟩ }

/-- The target with this call. -/
def strider : Target := { name := "Cat", pose := none, scripts := [⟨0, 0, [strideCall]⟩] }

/-- The record of the call. The first argument is a word in a number slot, the second a
numeral among blanks, and no slot has the third; another slot is no argument. -/
def strideRecord : BlockRecord :=
  { BlockTable.plainRecord "procedures_call" with
    isTopLevel := true
    slots := [("a", .literal [.number (.integer 10), .text " 5 "]),
              ("b", .literal [.number (.integer 4), .text "far"]),
              ("x", .literal [.number (.integer 10), .text "left"])]
    mutation? := some ⟨some "stride %s %n %b", ["b", "a", "z"], [], [], false⟩ }

/-- What a document stores for this record. -/
def strideJson : Json :=
  .object
    [("opcode", .text "procedures_call"), ("topLevel", .bool true),
     ("inputs", .object
       [("a", .array [.number (.integer 1), .array [.number (.integer 10), .text " 5 "]]),
        ("b", .array [.number (.integer 1), .array [.number (.integer 4), .text "far"]]),
        ("x", .array [.number (.integer 1), .array [.number (.integer 10), .text "left"]])]),
     ("mutation", .object
       [("proccode", .text "stride %s %n %b"), ("argumentids", .text "[\"b\",\"a\",\"z\"]")])]

/-- The table with what is stored has this record. -/
theorem ofEntries_stride : BlockTable.ofEntries [("c", strideJson)] = [("c", strideRecord)] := by
  cbv

/-- The word is no numeral. -/
theorem read?_far : Numeral.read? "far" = none := by decide +kernel

/-- The scripts of the table with the record are those of the target. -/
theorem scripts_stride :
    (BlockTable.ofEntries [("c", strideJson)]).scripts = .ok strider.scripts := by
  have hfive : Numeral.read? " 5 " = some 5 := by decide +kernel
  have harguments : callArguments ["b", "a", "z"]
      [("a", .text " 5 "), ("b", .number (Scalar.ofNumeral "far")), ("x", .text "left")]
        = [.text "far", .number (.number 5), .boolean false] := by
    simp [callArguments, SlotMap.find?, SlotMap.erase, callArgument, Scalar.ofNumeral, read?_far,
      hfive]
  rw [ofEntries_stride, strider, strideCall, ← harguments]
  rfl

/-- The stride passes its arguments. -/
theorem strider_passes :
    strideCall ∈ strider.blocks ∧ ListsArguments strideJson ["b", "a", "z"]
      ∧ ∃ chains values,
        (BlockTable.ofEntries [("c", strideJson)]).PassesArguments (Legacy.specOf strider) strideCall
          (BlockRecord.ofJson strideJson) ["b", "a", "z"] chains values := by
  have hread : Json.read? "[\"b\",\"a\",\"z\"]"
      = some (.array [.text "b", .text "a", .text "z"]) := by cbv
  have hlisted : ListsArguments strideJson ["b", "a", "z"] := Lists.encoded hread
  have hcall : strideCall ∈ strider.blocks := List.mem_of_getElem? (i := 0) rfl
  obtain ⟨chains, values, hpasses, _⟩ :=
    call_passes_arguments scripts_stride hcall rfl rfl hlisted (by decide)
  exact ⟨hcall, hlisted, chains, values, hpasses⟩

/-- A word in a number slot is not passed as it is: it becomes one in a text slot. -/
theorem word_not_unchanged :
    (BlockTable.ofEntries [("c", strideJson)]).scripts = .ok strider.scripts
      ∧ strideCall ∈ strider.blocks
      ∧ (BlockTable.ofEntries [("c", strideJson)]).record? "c" = some strideRecord
      ∧ (∀ chains, (BlockTable.ofEntries [("c", strideJson)]).slotInput? chains "c" Opcode.call
          strideRecord "b" = some (.number (.text "far")))
      ∧ Numeral.read? "far" = none
      ∧ strideRecord.argumentIds = ["b", "a", "z"]
      ∧ strideCall.inputs
        = [("INPUTS", .arguments [.text "far", .number (.number 5), .boolean false])]
      ∧ Input.text "far" ≠ .number (.text "far") := by
  have hcall : strider.blocks[0]? = some strideCall := rfl
  have hfar : Scalar.ofNumeral "far" = .text "far" := by rw [Scalar.ofNumeral, read?_far]
  refine ⟨scripts_stride, List.mem_of_getElem? hcall, ?_⟩
  rw [ofEntries_stride, ← hfar]
  exact ⟨rfl, fun _ => rfl, read?_far, rfl, rfl, Input.noConfusion⟩

end Target

end ScratchLegacy
