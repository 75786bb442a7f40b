import ScratchLegacy.Proofs.TokenOrigins

/-!
# Triggered scripts

The player runs a script when the event of its first statement happens, so a hat is
of use only in that place. The translation puts the calls for item numbers in front of
the statement that raised them, and a hat is a statement like any other: when one of
its slots reads an item number, the calls take its place.

`Legacy.hats` lists the hats. A script stays a triggered one exactly when the
translation of its head goes through no item number
(`Target.trigger_first_iff_no_item_number`), as in the heads without translated slots
and in those whose slots hold literals (`Legacy.itemNumbers_eq_nil_of_flat`).
-/

namespace ScratchLegacy

namespace Legacy

/-- **The hats**, with their legacy operations. -/
def hats : List (String × String) :=
  [("event_whenflagclicked", "whenGreenFlag"), ("event_whenkeypressed", "whenKeyPressed"),
   ("event_whenthisspriteclicked", "whenClicked"), ("event_whenstageclicked", "whenClicked"),
   ("event_whenbackdropswitchesto", "whenSceneStarts"),
   ("event_whengreaterthan", "whenSensorGreaterThan"),
   ("event_whenbroadcastreceived", "whenIReceive"),
   ("videoSensing_whenMotionGreaterThan", "whenSensorGreaterThan"),
   ("control_start_as_clone", "whenCloned"), ("procedures_definition", "procDef")]

/-- No hat has the operation of a call. -/
theorem operation_ne_call : ∀ h ∈ hats, h.2 ≠ "call" := by
  decide

/-- No hat is an item number or a call itself. -/
theorem opcode_ne_of_mem_hats :
    ∀ h ∈ hats, h.1 ≠ Opcode.itemNumber ∧ h.1 ≠ Opcode.call := by
  decide

section Head

variable {hat : Block} {operation : String}

/-- **A hat is translated into its operation.** -/
theorem exists_value_of_hat (specOf : String → String) (h : (hat.opcode, operation) ∈ hats) :
    ∃ arguments, (emitBlock specOf hat).value = .op operation arguments := by
  rw [emitBlock_eq]
  simp only [hats, List.mem_cons, Prod.mk.injEq, List.not_mem_nil, or_false] at h
  rcases h with ⟨h, rfl⟩ | ⟨h, rfl⟩ | ⟨h, rfl⟩ | ⟨h, rfl⟩ | ⟨h, rfl⟩ | ⟨h, rfl⟩ | ⟨h, rfl⟩
    | ⟨h, rfl⟩ | ⟨h, rfl⟩ | ⟨h, rfl⟩ <;> simp only [emitBlockOf, h]
  -- the last one is the head of a procedure, with or without a signature
  case inr.inr.inr.inr.inr.inr.inr.inr.inr =>
    cases hat.signature <;> exact ⟨_, rfl⟩
  all_goals exact ⟨_, rfl⟩

/-- **What a hat leads to is what its translated slots hold.** -/
theorem itemNumbers_of_hat (h : (hat.opcode, operation) ∈ hats) :
    itemNumbers false hat
      = ((reads hat.opcode).flatMap (Argument.entered hat)).flatMap (fun e =>
          (passedInput false e.1 e.2).filter (fun r => r.opcode = Opcode.itemNumber)) := by
  obtain ⟨notItemNumber, notCall⟩ := opcode_ne_of_mem_hats _ h
  have hself : [hat].filter (fun r => r.opcode = Opcode.itemNumber) = [] :=
    List.filter_eq_nil_iff.mpr (by simpa using notItemNumber)
  rw [itemNumbers, passed_eq, List.filter_append, hself, List.append_nil, List.filter_flatMap,
    entered, if_neg notCall]

/-- **A hat whose translated slots hold literals goes through no item number.** -/
theorem itemNumbers_eq_nil_of_flat (h : (hat.opcode, operation) ∈ hats)
    (hflat : ∀ e ∈ (reads hat.opcode).flatMap (Argument.entered hat), e.2.IsFlat) :
    itemNumbers false hat = [] := by
  rw [itemNumbers_of_hat h, List.flatMap_eq_nil_iff]
  intro e he
  rw [passedInput_of_isFlat (hflat e he), List.filter_nil]

end Head

/-- The first statement of a stack is its first block, or the call for the first
item number of that. -/
theorem head?_statements (specOf : String → String) (b : Block) (rest : List Block) :
    (statements specOf (b :: rest)).head?
      = some (((itemNumbers false b).head?.map (fun r => indexCall r.id)).getD
          (emitBlock specOf b).value) := by
  rw [statements, List.flatMap_cons, indexCalls]
  cases itemNumbers false b <;> rfl

end Legacy

namespace Target

open Legacy

/-- **Which triggered scripts stay triggered.** The first statement of the
translation of a script is the operation of its hat exactly when the translation of
the hat goes through no item number. Otherwise the first statement is the call that
computes the first of them. The item numbers are those in the slots that the
operation has arguments for, at any depth, but not within stacks; so a hat
without such slots always stays first. -/
theorem trigger_first_iff_no_item_number (target : Target) {s : Script} (hs : s ∈ target.scripts)
    {hat : Block} {rest : List Block} (hblocks : s.blocks = hat :: rest) {operation : String}
    (hhat : (hat.opcode, operation) ∈ hats) :
    mainScript (specOf target) s ∈ emitScripts target
      ∧ (∃ arguments, (emitBlock (specOf target) hat).value = .op operation arguments)
      ∧ ((mainScript (specOf target) s).statements.head?
            = some (emitBlock (specOf target) hat).value ↔ itemNumbers false hat = [])
      ∧ (∀ r, (itemNumbers false hat).head? = some r →
          (mainScript (specOf target) s).statements.head? = some (indexCall r.id))
      ∧ itemNumbers false hat
          = ((reads hat.opcode).flatMap (Argument.entered hat)).flatMap (fun e =>
              (passedInput false e.1 e.2).filter (fun r => r.opcode = Opcode.itemNumber)) := by
  obtain ⟨arguments, hvalue⟩ := exists_value_of_hat (specOf target) hhat
  have hfirst : (mainScript (specOf target) s).statements.head?
      = some (((itemNumbers false hat).head?.map (fun r => indexCall r.id)).getD
          (emitBlock (specOf target) hat).value) := by
    rw [statements_mainScript, hblocks, head?_statements]
  refine ⟨mem_emitScripts.mpr (.inl ⟨s, hs, rfl⟩), ⟨arguments, hvalue⟩, ?_, fun r hr => ?_,
    itemNumbers_of_hat hhat⟩
  · rw [hfirst, hvalue]
    cases hitems : itemNumbers false hat with
    | nil => exact iff_of_true rfl rfl
    | cons r _ =>
      -- the call for an item number is not the operation of a hat
      have hne : indexCall r.id ≠ .op operation arguments := fun heq =>
        operation_ne_call _ hhat (Token.op.inj heq).1.symm
      refine iff_of_false (fun heq => hne (Option.some.inj heq)) (List.cons_ne_nil _ _)
  · rw [hfirst, hr]
    rfl

/-- A hat for a loud noise. -/
def whenLoud (limit : Input) : Block :=
  { id := "h", opcode := "event_whengreaterthan"
    inputs := [("VALUE", limit), ("WHENGREATERTHANMENU", .text "LOUDNESS")] }

/-- The reporter of the place of a name in a list. -/
def annRank : Block :=
  { id := "i", opcode := "data_itemnumoflist"
    inputs := [("ITEM", .text "Ann"), ("LIST", .listRef ⟨"l", "names"⟩)] }

/-- A target that hides at a noise that is louder than a limit. -/
def shy (limit : Input) : Target :=
  { name := "Cat", pose := none
    scripts := [⟨0, 0, [whenLoud limit, { id := "s", opcode := "looks_hide" }]⟩] }

/-- A script for a loud noise with a fixed limit stays triggered. -/
theorem shy_of_text_is_triggered :
    (mainScript (specOf (shy (.text "10")))
        ⟨0, 0, [whenLoud (.text "10"), { id := "s", opcode := "looks_hide" }]⟩).statements.head?
      = some (emitBlock (specOf (shy (.text "10"))) (whenLoud (.text "10"))).value := by
  have hhat : ((whenLoud (.text "10")).opcode, "whenSensorGreaterThan") ∈ hats := by decide
  obtain ⟨_, _, hfirst, _, _⟩ := trigger_first_iff_no_item_number (shy (.text "10"))
    List.mem_cons_self rfl hhat
  refine hfirst.mpr (itemNumbers_eq_nil_of_flat hhat (fun e he => ?_))
  have hslots : (reads (whenLoud (.text "10")).opcode).flatMap
      (Argument.entered (whenLoud (.text "10")))
        = [(.expression, .text "LOUDNESS"), (.expression, .text "10")] := rfl
  rw [hslots] at he
  simp only [List.mem_cons, List.not_mem_nil, or_false] at he
  rcases he with rfl | rfl <;> trivial

/-- **A script whose limit is the place of a name is not triggered any more**: its
first statement is a call. -/
theorem shy_of_rank_is_not_triggered :
    ∃ s ∈ (shy (.block annRank)).scripts, ∃ hat ∈ s.blocks.head?,
      (hat.opcode, "whenSensorGreaterThan") ∈ hats
        ∧ (mainScript (specOf (shy (.block annRank))) s).statements.head?
            = some (.op "call" [.text "calculate Index i"])
        ∧ (mainScript (specOf (shy (.block annRank))) s).statements.head?
            ≠ some (emitBlock (specOf (shy (.block annRank))) hat).value := by
  refine ⟨_, List.mem_cons_self, _, rfl, by decide, rfl, fun heq => ?_⟩
  have hname := (Token.op.inj (Option.some.inj heq)).1
  exact absurd hname (by decide)

end Target

end ScratchLegacy
