import ScratchLegacy.Proofs.TokenOrigins

/-!
# Conditions that are evaluated repeatedly

Some blocks evaluate their condition again and again: the loops that end when it
holds or fails, and the block that waits for it. An item number in such a condition
is the reading of an index variable, as anywhere else, and the call that computes
the variable is a statement.

The call is right in front of the block, and so it runs once, before the condition
is evaluated for the first time. `Target.conditions_computed_once` says so of every
repeating operation in the translation of a script. It also says when the body of a
loop happens to compute the variable again: when it has an item number with the same
id itself. `Target.seeker_sees_stale` is about a loop that has none.
-/

namespace ScratchLegacy

/-! ## Repeating blocks -/

/-- A block whose condition is evaluated again and again. -/
def Block.Repeats (b : Block) : Prop :=
  b.opcode ∈ ["control_repeat_until", "control_while", "control_wait_until"]

instance (b : Block) : Decidable b.Repeats := inferInstanceAs (Decidable (b.opcode ∈ _))

namespace Legacy

/-- The blocks of the body of a loop. What waits has no body. -/
def bodyBlocks (b : Block) : List Block :=
  if b.opcode = "control_wait_until" then []
  else
    match b.input? "SUBSTACK" with
    | some (.block c) => [c]
    | some (.stack cs) => cs
    | _ => []

/-- The statements of a body, given what comes behind the condition. -/
def bodyStatements : List Token → List Token
  | [.stack ts] => ts
  | _ => []

section Body

variable (specOf : String → String) {b : Block}

/-- The statements of a slot that is read as a body. -/
theorem bodyStatements_body (h : b.opcode ≠ "control_wait_until") :
    bodyStatements [(slotReading (slotReadings specOf b) "SUBSTACK").body.value]
      = statements specOf (bodyBlocks b) := by
  rw [bodyBlocks, if_neg h, slotReadings, slotReading_map]
  cases b.input? "SUBSTACK" with
  | none => rfl
  | some input =>
    cases input with
    | block c =>
      show (Emitted.stack (emitAll specOf [c])).value = _
      rw [stack_emitAll]
    | stack cs =>
      show (Emitted.stack (emitAll specOf cs)).value = _
      rw [stack_emitAll]
    | _ => rfl

/-- **A repeating block is translated into its condition and its body.** -/
theorem exists_value_repeats (h : b.Repeats) :
    ∃ name body, (emitBlock specOf b).value
        = .op name (slotExpression specOf b "CONDITION" :: body)
      ∧ bodyStatements body = statements specOf (bodyBlocks b) := by
  rw [emitBlock_eq, ← slotReadings]
  simp only [Block.Repeats, List.mem_cons, List.not_mem_nil, or_false] at h
  rcases h with h | h | h
  · simp only [emitBlockOf, h]
    exact ⟨"doUntil", _, rfl, bodyStatements_body specOf (by rw [h]; decide)⟩
  · simp only [emitBlockOf, h]
    exact ⟨"doWhile", _, rfl, bodyStatements_body specOf (by rw [h]; decide)⟩
  · simp only [emitBlockOf, h]
    refine ⟨"doWaitUntil", _, rfl, ?_⟩
    rw [bodyBlocks, if_pos h]
    rfl

end Body

/-! ## The statements of a body -/

section Statements

variable {specOf : String → String} {blocks : List Block} {id : String}

/-- Calls are for one index variable only when the ids are the same. -/
theorem indexCall_inj {id id' : String} : indexCall id = indexCall id' ↔ id = id' := by
  simp [indexCall, Token.text, indexSpec, indexVariable]

/-- **A stack calls for an index variable** when one of its blocks has an item number
with this id, or is such a call itself. -/
theorem indexCall_mem_statements :
    indexCall id ∈ statements specOf blocks
      ↔ ∃ c ∈ blocks, (∃ r ∈ itemNumbers false c, r.id = id)
        ∨ (emitBlock specOf c).value = indexCall id := by
  simp only [statements, indexCalls, List.mem_flatMap, List.mem_append, List.mem_map,
    List.mem_singleton, indexCall_inj]
  exact exists_congr (fun c => and_congr_right' (or_congr_right eq_comm))

/-- **The calls of a statement are right in front of it.** -/
theorem exists_statements_eq {b : Block} (hb : b ∈ blocks) :
    ∃ pre post, statements specOf blocks
      = pre ++ indexCalls (itemNumbers false b) ++ (emitBlock specOf b).value :: post := by
  obtain ⟨before, after, rfl⟩ := List.append_of_mem hb
  refine ⟨statements specOf before, statements specOf after, ?_⟩
  simp [statements]

/-- A block is the call for an index variable only when it calls a procedure with
this spec. -/
theorem exists_specOf_of_value_eq_indexCall {c : Block}
    (h : (emitBlock specOf c).value = indexCall id) :
    ∃ proccode, specOf proccode = indexSpec id := by
  have hcall : c.opcode = Opcode.call := by
    rcases mem_vocabulary_of_emitBlock h.symm with hopcode | hname
    · exact opcode_of_call _ hopcode rfl
    · exact absurd hname (by decide)
  obtain ⟨values, hvalue⟩ := exists_value_of_call specOf hcall
  rw [h, indexCall, Token.op.injEq] at hvalue
  have hspec := (List.cons.inj hvalue.2).1
  exact ⟨c.proccode?.getD "", by simpa [Token.text] using hspec.symm⟩

end Statements

/-- Only a repeating block is translated into a repeating operation. -/
theorem opcode_of_repeating : ∀ e ∈ vocabulary, e.2 ∈ ["doUntil", "doWhile", "doWaitUntil"] →
    e.1 ∈ ["control_repeat_until", "control_while", "control_wait_until"] := by
  decide +kernel

/-! ## Conditions and bodies -/

/-- What is in the body of a loop is in its slot for the body. -/
theorem passed_subset_of_mem_bodyBlocks {b c : Block} (hc : c ∈ bodyBlocks b) :
    b.opcode ≠ "control_wait_until" ∧ ∃ input, b.input? "SUBSTACK" = some input
      ∧ passedInput false .body input = [] ∧ passed true c ⊆ passedInput true .body input := by
  unfold bodyBlocks at hc
  split at hc
  · cases hc
  · next hwait =>
    refine ⟨hwait, ?_⟩
    split at hc
    · next input heq =>
      cases List.mem_singleton.mp hc
      refine ⟨_, heq, by simp [passedInput], ?_⟩
      rw [passedInput, if_pos rfl]
      exact List.Subset.refl _
    · next cs heq =>
      refine ⟨_, heq, by simp [passedInput], ?_⟩
      rw [passedInput, if_pos rfl]
      exact fun d hd => List.mem_flatMap.mpr ⟨c, hc, hd⟩
    · cases hc

/-- A repeating block with a body leads to its condition and to its body. -/
theorem entered_of_repeats {b : Block} (h : b.Repeats) (hwait : b.opcode ≠ "control_wait_until")
    {input : Input} (hinput : b.input? "SUBSTACK" = some input) :
    entered b = (Argument.slot "CONDITION").entered b ++ [(.body, input)] := by
  have hreads : b.opcode ≠ Opcode.call
      ∧ reads b.opcode = [.slot "CONDITION", .body "SUBSTACK"] := by
    simp only [Block.Repeats, List.mem_cons, List.not_mem_nil, or_false] at h
    rcases h with h | h | h
    · rw [h]
      exact ⟨by decide, rfl⟩
    · rw [h]
      exact ⟨by decide, rfl⟩
    · exact absurd h hwait
  rw [entered, if_neg hreads.1, hreads.2, List.flatMap_cons, List.flatMap_singleton]
  exact congrArg (_ ++ ·) (by rw [Argument.entered, hinput]; rfl)

/-- **The item numbers of a condition are not those of the body** when the blocks
have different ids. -/
theorem id_ne_of_nodup {b c r r' : Block} (h : b.Repeats)
    (hids : ((passed true b).map Block.id).Nodup) (hr : r ∈ itemNumbers false b)
    (hc : c ∈ bodyBlocks b) (hr' : r' ∈ itemNumbers false c) : r'.id ≠ r.id := by
  obtain ⟨hwait, input, hinput, hnone, hsubset⟩ := passed_subset_of_mem_bodyBlocks hc
  obtain ⟨hr, hitem⟩ := List.mem_filter.mp hr
  have hpassed : ∀ deep, passed deep b
      = ((Argument.slot "CONDITION").entered b).flatMap (fun e => passedInput deep e.1 e.2)
        ++ passedInput deep .body input ++ [b] := by
    intro deep
    rw [passed_eq, entered_of_repeats h hwait hinput, List.flatMap_append, List.flatMap_singleton]
  -- the item number is in the condition, and the other one in the body
  have hcondition : r ∈ ((Argument.slot "CONDITION").entered b).flatMap
      (fun e => passedInput true e.1 e.2) := by
    rw [hpassed, hnone, List.append_nil, List.mem_append] at hr
    rcases hr with hr | hr
    · obtain ⟨e, he, hr⟩ := List.mem_flatMap.mp hr
      exact List.mem_flatMap.mpr ⟨e, he, hereditary_passed_subset.forall_input e.2 e.1 hr⟩
    · have hb := of_decide_eq_true hitem
      rw [List.mem_singleton.mp hr] at hb
      rw [Block.Repeats, hb] at h
      exact absurd h (by decide)
  have hbody : r' ∈ passedInput true .body input :=
    hsubset (hereditary_passed_subset.forall_block c (List.mem_filter.mp hr').1)
  rw [hpassed, List.map_append, List.map_append] at hids
  have hdisjoint := (List.nodup_append.mp (List.nodup_append.mp hids).1).2.2
  exact (hdisjoint _ (List.mem_map_of_mem hcondition) _ (List.mem_map_of_mem hbody)).symm

end Legacy

namespace Target

open Legacy

/-- **Item numbers in conditions are computed once.** A repeating operation in the
translation of a script is that of a repeating block. The calls for the item numbers
of the condition are right in front of the block, wherever it is a statement. In the
body there is a call for an index variable only when a block of the body has an item
number with this id, or is such a call itself. So when the blocks have different
ids, and no procedure has the spec of such a call, no item number of the condition
is computed again. -/
theorem conditions_computed_once (target : Target) (s : Script) {name : String}
    {arguments : List Token} (hname : name ∈ ["doUntil", "doWhile", "doWaitUntil"])
    (h : .op name arguments ∈ Token.partsAll (mainScript (specOf target) s).statements) :
    ∃ b ∈ s.blocks.flatMap (passed true), ∃ body, b.Repeats
      ∧ arguments = slotExpression (specOf target) b "CONDITION" :: body
      ∧ (∀ blocks, b ∈ blocks → ∃ pre post,
          (Emitted.stack (emitAll (specOf target) blocks)).value
            = pre ++ indexCalls (itemNumbers false b) ++ .op name arguments :: post)
      ∧ (∀ id, indexCall id ∈ bodyStatements body
          ↔ ∃ c ∈ bodyBlocks b, (∃ r ∈ itemNumbers false c, r.id = id)
            ∨ (emitBlock (specOf target) c).value = indexCall id)
      ∧ (((passed true b).map Block.id).Nodup → ∀ r ∈ itemNumbers false b,
          (∀ proccode, specOf target proccode ≠ indexSpec r.id) →
            indexCall r.id ∉ bodyStatements body) := by
  have hother : ∀ n ∈ ["doUntil", "doWhile", "doWaitUntil"],
      n ∉ ["call", "-", "/"] ∧ n ≠ "undefined" := by decide
  rw [statements_mainScript] at h
  obtain ⟨b, hb, hvalue, hopcode⟩ := (stems_statements h).exists_block (hother name hname).1
  have hrepeats : b.Repeats :=
    opcode_of_repeating _ (hopcode.resolve_right (hother name hname).2) hname
  obtain ⟨name', body, hvalue', hbody⟩ := exists_value_repeats (specOf target) hrepeats
  obtain ⟨rfl, rfl⟩ := Token.op.inj (hvalue.trans hvalue')
  refine ⟨b, hb, body, hrepeats, rfl, fun blocks hmem => ?_, fun id => ?_,
    fun hids r hr hspec hmem => ?_⟩
  · rw [stack_emitAll, hvalue]
    exact exists_statements_eq hmem
  · rw [hbody]
    exact indexCall_mem_statements
  · rw [hbody] at hmem
    obtain ⟨c, hc, ⟨r', hr', hid⟩ | hcall⟩ := indexCall_mem_statements.mp hmem
    · exact id_ne_of_nodup hrepeats hids hr hc hr' hid
    · obtain ⟨proccode, hproccode⟩ := exists_specOf_of_value_eq_indexCall hcall
      exact hspec proccode hproccode

/-- The reporter of the place of a name in a list. -/
def rank : Block :=
  { id := "i", opcode := "data_itemnumoflist"
    inputs := [("ITEM", .text "Ann"), ("LIST", .listRef ⟨"l", "names"⟩)] }

/-- The condition that the name is the first one. -/
def isFirst : Block :=
  { id := "e", opcode := "operator_equals"
    inputs := [("OPERAND1", .block rank), ("OPERAND2", .text "1")] }

/-- The step that deletes the first name. -/
def deleteFirst : Block :=
  { id := "d", opcode := "data_deleteoflist"
    inputs := [("INDEX", .text "1"), ("LIST", .listRef ⟨"l", "names"⟩)] }

/-- A loop that deletes names until a certain one is the first. -/
def untilFirst : Block :=
  { id := "u", opcode := "control_repeat_until"
    inputs := [("CONDITION", .block isFirst), ("SUBSTACK", .stack [deleteFirst])] }

/-- A target with this loop as its script. -/
def seeker : Target := { name := "Cat", pose := none, scripts := [⟨0, 0, [untilFirst]⟩] }

/-- The translation goes through the condition and the body of the loop. -/
theorem passed_untilFirst :
    passed true untilFirst = [rank, isFirst, deleteFirst, untilFirst] := by
  have hrank : passed true rank = [rank] := by
    rw [passed_eq, show entered rank
      = [(.expression, .listRef ⟨"l", "names"⟩), (.expression, .text "Ann")] from rfl]
    simp [passedInput]
  have hcondition : passed true isFirst = [rank, isFirst] := by
    rw [passed_eq, show entered isFirst
      = [(.expression, .block rank), (.expression, .text "1")] from rfl]
    simp [passedInput, hrank]
  have hbody : passed true deleteFirst = [deleteFirst] := by
    rw [passed_eq, show entered deleteFirst
      = [(.expression, .text "1"), (.expression, .listRef ⟨"l", "names"⟩)] from rfl]
    simp [passedInput]
  rw [passed_eq, show entered untilFirst
    = [(.expression, .block isFirst), (.body, .stack [deleteFirst])] from rfl]
  simp [passedInput, hcondition, hbody]

/-- The place is read in the condition of the loop. -/
theorem rank_mem_itemNumbers : rank ∈ itemNumbers false untilFirst := by
  refine List.mem_filter.mpr ⟨?_, rfl⟩
  refine passedInput_subset_passed (e := (.expression, .block isFirst)) List.mem_cons_self ?_
  rw [passedInput]
  refine passedInput_subset_passed (e := (.expression, .block rank)) List.mem_cons_self ?_
  rw [passedInput]
  exact self_mem_passed false rank

/-- The call for the place is not in the body of the loop. -/
theorem seeker_computes_once :
    ∃ condition body, .op "doUntil" (condition :: body)
        ∈ Token.partsAll (mainScript (specOf seeker) ⟨0, 0, [untilFirst]⟩).statements
      ∧ indexCall rank.id ∉ bodyStatements body := by
  have htoken : .op "doUntil" _
      ∈ Token.partsAll (mainScript (specOf seeker) ⟨0, 0, [untilFirst]⟩).statements :=
    List.mem_of_getElem? (i := 2) rfl
  obtain ⟨b, hb, body, hrepeats, harguments, _, _, honce⟩ :=
    conditions_computed_once seeker ⟨0, 0, [untilFirst]⟩ (by decide) htoken
  rw [List.flatMap_singleton, passed_untilFirst] at hb
  have hb : b = untilFirst := by
    simp only [List.mem_cons, List.not_mem_nil, or_false] at hb
    rcases hb with rfl | rfl | rfl | rfl
    · exact absurd hrepeats (by decide)
    · exact absurd hrepeats (by decide)
    · exact absurd hrepeats (by decide)
    · rfl
  subst hb
  refine ⟨_, body, harguments ▸ htoken, honce (by rw [passed_untilFirst]; decide) rank
    rank_mem_itemNumbers (fun proccode => ?_)⟩
  have hspec : specOf seeker proccode = "" := rfl
  rw [hspec]
  decide

/-- **The condition of the loop sees a stale place**: it reads the index variable,
which is not computed again in the body. -/
theorem seeker_sees_stale :
    ∃ s ∈ seeker.scripts, ∃ condition body, .op "doUntil" (condition :: body)
        ∈ Token.partsAll (mainScript (specOf seeker) s).statements
      ∧ .op "readVariable" [.text (indexVariable rank.id)] ∈ condition.parts
      ∧ indexCall rank.id ∉ bodyStatements body := by
  refine ⟨_, List.mem_cons_self, _, _, List.mem_of_getElem? (i := 2) rfl,
    List.mem_of_getElem? (i := 1) rfl, fun hcall => ?_⟩
  have hname := (Token.op.inj (List.mem_singleton.mp hcall)).1
  exact absurd hname (by decide)

end Target

end ScratchLegacy
