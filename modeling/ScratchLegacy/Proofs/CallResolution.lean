import ScratchLegacy.Proofs.ProcedureAgreement
import ScratchLegacy.Proofs.TokenOrigins

/-!
# Calls reach their procedures

In a legacy document a call reaches the first script that defines a procedure of
its spec (`Legacy.reached?`). Before the translation a call is resolved by
proccode. The two need not lead to the same script: the specs of two proccodes can
be the same, and so can the spec of a proccode and that of a hidden procedure.

When neither happens to the definition of a call, the call reaches the translation
of the script that the definition heads, and when no definition has the spec of a
hidden procedure, the calls for its item number reach it (`Target.calls_reach`).
There are no other calls. `Target.leaper_reaches_other` is about a target with two
definitions that share a spec.
-/

namespace ScratchLegacy

/-! ## The procedure that a script defines -/

/-- **The definitions of a target**: the heads of scripts that define a
procedure. -/
def Target.definitions (target : Target) : List Block :=
  (target.scripts.filterMap Script.head?).filter (fun b => b.opcode = Opcode.definition)

namespace Legacy

/-- The spec of the procedure that a token defines. -/
def Token.definedSpec? : Token → Option String
  | .op name (.value (.text spec) :: _) => if name = "procDef" then some spec else none
  | _ => none

/-- **The spec of the procedure that a legacy script defines.** -/
def Script.definedSpec? (s : Script) : Option String :=
  s.statements.head?.bind Token.definedSpec?

/-- **The script that a call with a spec reaches**: the first one that defines a
procedure of this spec. -/
def reached? (scripts : List Script) (spec : String) : Option Script :=
  scripts.find? (fun s => s.definedSpec? = some spec)

/-- The spec of a definition, which is empty when it has no signature. -/
def definitionSpec (b : Block) : String :=
  (b.signature.map (fun s => Proccode.spec s.parameters)).getD ""

section Specs

variable {specOf : String → String} {b : Block}

/-- A definition defines the procedure of its spec. -/
theorem definedSpec?_definition (h : b.opcode = Opcode.definition) :
    (emitBlock specOf b).value.definedSpec? = some (definitionSpec b) := by
  rw [emitBlock_definition specOf h, definitionSpec]
  cases b.signature <;> rfl

/-- Only a definition is translated into the head of a procedure. -/
theorem opcode_of_procDef : ∀ e ∈ vocabulary, e.2 = "procDef" → e.1 = Opcode.definition := by
  decide +kernel

/-- A block that is no definition defines no procedure. -/
theorem definedSpec?_of_ne (h : b.opcode ≠ Opcode.definition) :
    (emitBlock specOf b).value.definedSpec? = none := by
  unfold Token.definedSpec?
  split
  · next name spec rest hvalue =>
    rw [if_neg]
    rintro rfl
    rcases mem_vocabulary_of_emitBlock hvalue.symm with hopcode | hname
    · exact h (opcode_of_procDef _ hopcode rfl)
    · exact absurd hname (by decide)
  · rfl

variable {s : ScratchLegacy.Script}

/-- **A script with a definition at its head defines the procedure.** -/
theorem definedSpec?_mainScript (hhead : s.head? = some b) (h : b.opcode = Opcode.definition) :
    (mainScript specOf s).definedSpec? = some (definitionSpec b) := by
  obtain ⟨rest, hblocks⟩ := List.head?_eq_some_iff.mp hhead
  rw [Script.definedSpec?, statements_mainScript, hblocks, statements_cons_definition specOf h]
  exact definedSpec?_definition h

/-- **A script that defines a procedure has its definition at its head.** -/
theorem exists_definition_of_definedSpec? {spec : String}
    (h : (mainScript specOf s).definedSpec? = some spec) :
    ∃ d, s.head? = some d ∧ d.opcode = Opcode.definition ∧ definitionSpec d = spec := by
  rw [Script.definedSpec?, statements_mainScript] at h
  cases hblocks : s.blocks with
  | nil =>
    rw [hblocks] at h
    cases h
  | cons d rest =>
    refine ⟨d, by rw [ScratchLegacy.Script.head?, hblocks]; rfl, ?_⟩
    by_cases hd : d.opcode = Opcode.definition
    · rw [hblocks, statements_cons_definition specOf hd] at h
      exact ⟨hd, Option.some.inj ((definedSpec?_definition hd).symm.trans h)⟩
    · -- the first statement is a call for an item number, or the block itself
      rw [hblocks, statements, List.flatMap_cons, List.append_assoc] at h
      cases hitems : itemNumbers false d with
      | nil =>
        rw [hitems] at h
        cases (definedSpec?_of_ne hd).symm.trans h
      | cons r rs =>
        rw [hitems] at h
        have hnone : none = some spec := h
        cases hnone

/-- A hidden procedure has the spec of its index variable. -/
theorem definedSpec?_indexScript (r : Block) :
    (indexScript specOf r).definedSpec? = some (indexSpec r.id) := rfl

end Specs

/-! ## The procedure that a call reaches -/

section Reached

variable {target : Target}

/-- The head of a script that defines a procedure is a definition of the target. -/
theorem mem_definitions {s : ScratchLegacy.Script} {d : Block} (hs : s ∈ target.scripts)
    (hhead : s.head? = some d) (hd : d.opcode = Opcode.definition) : d ∈ target.definitions :=
  List.mem_filter.mpr ⟨List.mem_filterMap.mpr ⟨s, hs, hhead⟩, decide_eq_true hd⟩

/-- **The definition of a procedure heads the first script** with a definition of
its proccode at its head. -/
theorem exists_first_script {proccode : String} {d : Block}
    (h : target.definition? proccode = some d) :
    ∃ before s after, target.scripts = before ++ s :: after ∧ s.head? = some d
      ∧ d.opcode = Opcode.definition
      ∧ ∀ s' ∈ before, ∀ d', s'.head? = some d' → d'.opcode = Opcode.definition →
        d'.proccode? ≠ some proccode := by
  rw [Target.definition?, List.find?_filterMap] at h
  obtain ⟨s, hs, hhead⟩ := Option.bind_eq_some_iff.mp h
  obtain ⟨hdefines, before, after, hscripts, hbefore⟩ := List.find?_eq_some_iff_append.mp hs
  simp only [hhead, Option.any_some, Bool.and_eq_true, decide_eq_true_eq] at hdefines
  refine ⟨before, s, after, hscripts, hhead, hdefines.1, fun s' hs' d' hhead' hd' hp => ?_⟩
  simpa [hhead', hd', hp] using hbefore s' hs'

/-- **The spec of a definition reaches its script**, when no definition of another
procedure and no hidden procedure has this spec. -/
theorem exists_reached?_definitionSpec {proccode : String} {d : Block}
    (hd : target.definition? proccode = some d)
    (hspecs : ∀ d' ∈ target.definitions, definitionSpec d' = definitionSpec d →
      d'.proccode? = some proccode)
    (hhidden : ∀ r ∈ itemNumbersIn target, indexSpec r.id ≠ definitionSpec d) :
    ∃ s ∈ target.scripts, s.head? = some d
      ∧ reached? (emitScripts target) (definitionSpec d)
        = some (mainScript (specOf target) s) := by
  obtain ⟨before, s, after, hscripts, hhead, hopcode, hbefore⟩ := exists_first_script hd
  have hemit : emitScripts target = before.flatMap (emitScript (specOf target))
      ++ mainScript (specOf target) s :: ((s.blocks.flatMap (itemNumbers true)).map
        (indexScript (specOf target)) ++ after.flatMap (emitScript (specOf target))) := by
    rw [emitScripts, hscripts, List.flatMap_append, List.flatMap_cons, emitScript_eq_cons,
      List.cons_append]
  refine ⟨s, hscripts ▸ List.mem_append_right _ List.mem_cons_self, hhead,
    List.find?_eq_some_iff_append.mpr ⟨decide_eq_true (definedSpec?_mainScript hhead hopcode), _, _,
      hemit, fun x hx => ?_⟩⟩
  suffices hx : x.definedSpec? ≠ some (definitionSpec d) by simpa using hx
  intro hspec
  obtain ⟨s', hs', hx⟩ := List.mem_flatMap.mp hx
  have hmem : s' ∈ target.scripts := hscripts ▸ List.mem_append_left _ hs'
  rw [emitScript_eq_cons, List.mem_cons] at hx
  rcases hx with rfl | hx
  · -- an earlier script with this spec would be one of the same procedure
    obtain ⟨d', hhead', hd', hspec⟩ := exists_definition_of_definedSpec? hspec
    exact hbefore s' hs' d' hhead' hd' (hspecs d' (mem_definitions hmem hhead' hd') hspec)
  · obtain ⟨r, hr, rfl⟩ := List.mem_map.mp hx
    exact hhidden r (mem_itemNumbersIn.mpr ⟨s', hmem, hr⟩) (Option.some.inj hspec)

/-- **The spec of a hidden procedure reaches one of an item number with its id**,
when no definition has this spec. -/
theorem exists_reached?_indexSpec {r : Block} (hr : r ∈ itemNumbersIn target)
    (hspecs : ∀ d ∈ target.definitions, definitionSpec d ≠ indexSpec r.id) :
    ∃ r' ∈ itemNumbersIn target, r'.id = r.id
      ∧ reached? (emitScripts target) (indexSpec r.id) = some (indexScript (specOf target) r') := by
  have hsome : (reached? (emitScripts target) (indexSpec r.id)).isSome := by
    refine List.find?_isSome.mpr ⟨_, mem_emitScripts.mpr (.inr ⟨r, hr, rfl⟩), ?_⟩
    exact decide_eq_true (definedSpec?_indexScript r)
  obtain ⟨x, hx⟩ := Option.isSome_iff_exists.mp hsome
  have hspec : x.definedSpec? = some (indexSpec r.id) := by
    unfold reached? at hx
    simpa using List.find?_some hx
  rcases mem_emitScripts.mp (List.mem_of_find?_eq_some hx) with ⟨s, hs, rfl⟩ | ⟨r', hr', rfl⟩
  · obtain ⟨d, hhead, hd, hspec⟩ := exists_definition_of_definedSpec? hspec
    exact absurd hspec (hspecs d (mem_definitions hs hhead hd))
  · refine ⟨r', hr', ?_, hx⟩
    rw [definedSpec?_indexScript, Option.some.injEq] at hspec
    simpa [indexSpec, indexVariable] using hspec

end Reached

/-! ## Calls -/

/-- **A legacy call is that of a call or of an item number.** -/
theorem call_cases {target : Target} {script : Script} {arguments : List Token}
    (hscript : script ∈ emitScripts target)
    (h : .op "call" arguments ∈ Token.partsAll script.statements) :
    (∃ c ∈ target.blocks, c.opcode = Opcode.call
        ∧ .op "call" arguments = (emitBlock (specOf target) c).value)
      ∨ ∃ r ∈ itemNumbersIn target, .op "call" arguments = indexCall r.id := by
  have hstems := (stems_emitScripts hscript h).resolve_left (by decide)
  generalize ht : Token.op "call" arguments = t at hstems ⊢
  cases hstems with
  | block mem =>
    rcases mem_vocabulary_of_emitBlock ht with hopcode | hname
    · exact .inl ⟨_, mem_blocks_of_mem_passedIn mem, opcode_of_call _ hopcode rfl, rfl⟩
    · exact absurd hname (by decide)
  | call mem item =>
    exact .inr ⟨_, List.mem_filter.mpr ⟨mem, decide_eq_true item⟩, rfl⟩
  | layers counts =>
    obtain ⟨_, _, rfl, hcounts⟩ := counts
    cases ht
    exact absurd hcounts (by decide)

/-- A call is written with the spec of the definition that it is for. -/
theorem exists_value_call {target : Target} {c d : Block} {proccode : String}
    (h : c.opcode = Opcode.call) (hcallee : c.proccode? = some proccode)
    (hd : target.definition? proccode = some d) :
    ∃ values, (emitBlock (specOf target) c).value
      = .op "call" (.text (definitionSpec d) :: values) := by
  obtain ⟨values, hvalue⟩ := exists_value_of_call (specOf target) h
  rw [hcallee, Option.getD_some, specOf, hd] at hvalue
  exact ⟨values, hvalue⟩

end Legacy

namespace Target

open Legacy

variable {target : Target}

/-- A definition heads a script. -/
theorem exists_script_of_mem_definitions {d : Block} (h : d ∈ target.definitions) :
    ∃ s ∈ target.scripts, s.head? = some d ∧ d.opcode = Opcode.definition := by
  obtain ⟨h, hd⟩ := List.mem_filter.mp h
  obtain ⟨s, hs, hhead⟩ := List.mem_filterMap.mp h
  exact ⟨s, hs, hhead, of_decide_eq_true hd⟩

/-- **The spec of a definition is made from its proccode.** -/
theorem exists_definitionSpec_eq {t : BlockTable} (h : t.scripts = .ok target.scripts) {d : Block}
    (hd : d ∈ target.definitions) {proccode : String} (hp : d.proccode? = some proccode) :
    ∃ names defaults, definitionSpec d
      = Proccode.spec (Proccode.parameters (Proccode.tokens proccode.toList) names defaults) := by
  obtain ⟨s, hs, hhead, hopcode⟩ := exists_script_of_mem_definitions hd
  obtain ⟨signature, hsignature, rfl⟩ := Option.map_eq_some_iff.mp hp
  obtain ⟨_, _, _, hexpand⟩ := expanded_of_scripts h (mem_blocks_of_head hs hhead) (.inl hopcode)
  obtain ⟨m, _, _, hparameters⟩ := BlockTable.exists_declares_of_expand hexpand
    (by rw [hopcode]; decide) hsignature
  refine ⟨m.argumentNames, m.argumentDefaults, ?_⟩
  rw [definitionSpec, hsignature, ← hparameters]
  rfl

/-- **Calls reach their procedures, unless specs are shared.** Two definitions
share a spec exactly when the pieces of their proccodes are written alike. Every
legacy call is that of a call, or is for an item number. A call for a procedure
that is defined reaches the script of its definition, unless the definition of
another procedure or a hidden procedure has the same spec. A call for an item
number reaches a hidden procedure of an item number with this id, unless a
definition has the same spec. -/
theorem calls_reach {t : BlockTable} (h : t.scripts = .ok target.scripts) :
    (∀ d ∈ target.definitions, ∀ d' ∈ target.definitions, ∀ proccode proccode',
        d.proccode? = some proccode → d'.proccode? = some proccode' →
          (definitionSpec d = definitionSpec d'
            ↔ (Proccode.tokens proccode.toList).map Proccode.Token.written
              = (Proccode.tokens proccode'.toList).map Proccode.Token.written))
      ∧ (∀ script ∈ emitScripts target, ∀ arguments,
          .op "call" arguments ∈ Token.partsAll script.statements →
            (∃ c ∈ target.blocks, c.opcode = Opcode.call
                ∧ .op "call" arguments = (emitBlock (specOf target) c).value)
              ∨ ∃ r ∈ itemNumbersIn target, .op "call" arguments = indexCall r.id)
      ∧ (∀ c ∈ target.blocks, c.opcode = Opcode.call → ∀ proccode d,
          c.proccode? = some proccode → target.definition? proccode = some d →
            (∃ values, (emitBlock (specOf target) c).value
                = .op "call" (.text (definitionSpec d) :: values))
              ∧ ((∀ d' ∈ target.definitions, definitionSpec d' = definitionSpec d →
                    d'.proccode? = some proccode) →
                  (∀ r ∈ itemNumbersIn target, indexSpec r.id ≠ definitionSpec d) →
                  ∃ s ∈ target.scripts, s.head? = some d
                    ∧ reached? (emitScripts target) (definitionSpec d)
                      = some (mainScript (specOf target) s)))
      ∧ ∀ r ∈ itemNumbersIn target,
          (∀ d ∈ target.definitions, definitionSpec d ≠ indexSpec r.id) →
            ∃ r' ∈ itemNumbersIn target, r'.id = r.id
              ∧ reached? (emitScripts target) (indexSpec r.id)
                = some (indexScript (specOf target) r') := by
  refine ⟨fun d hd d' hd' p p' hp hp' => ?_, fun script hscript arguments => call_cases hscript,
    fun c _ hc p d hp hd => ?_, fun r hr => exists_reached?_indexSpec hr⟩
  · obtain ⟨names, defaults, hspec⟩ := exists_definitionSpec_eq h hd hp
    obtain ⟨names', defaults', hspec'⟩ := exists_definitionSpec_eq h hd' hp'
    rw [hspec, hspec']
    exact Proccode.spec_eq_iff
  · exact ⟨exists_value_call hc hp hd, fun hspecs => exists_reached?_definitionSpec hd hspecs⟩

/-- Two definitions, one of a jump and one of a search. A script calls the jump
with an item number, and then the search. -/
def searchTable : BlockTable :=
  [("j", { BlockTable.plainRecord "procedures_definition" with
            isTopLevel := true, slots := [("custom_block", .child "p")] }),
   ("p", { BlockTable.plainRecord "procedures_prototype" with
            isShadow := true
            mutation? := some ⟨some "jump %n", ["a"], ["height"], [], false⟩ }),
   ("s", { BlockTable.plainRecord "procedures_definition" with
            isTopLevel := true, slots := [("custom_block", .child "q")] }),
   ("q", { BlockTable.plainRecord "procedures_prototype" with
            isShadow := true
            mutation? := some ⟨some "search", [], [], [], false⟩ }),
   ("c", { BlockTable.plainRecord "procedures_call" with
            isTopLevel := true, next? := some "d", slots := [("a", .child "i")]
            mutation? := some ⟨some "jump %n", ["a"], [], [], false⟩ }),
   ("d", { BlockTable.plainRecord "procedures_call" with
            mutation? := some ⟨some "search", [], [], [], false⟩ }),
   ("i", BlockTable.plainRecord "data_itemnumoflist")]

/-- The item number that the jump is called with. -/
def height : Block := { id := "i", opcode := "data_itemnumoflist" }

/-- The target with the scripts of this table. -/
def searcher : Target :=
  { name := "Cat", pose := none, scripts := searchTable.scripts.toOption.getD [] }

/-- No text that begins otherwise is the spec of a hidden procedure. -/
theorem ne_indexSpec {spec : String} (h : spec.toList.head? ≠ some 'c') (id : String) :
    spec ≠ indexSpec id := by
  rintro rfl
  simp [indexSpec] at h

/-- All its calls reach their procedures. -/
theorem searcher_calls_reach :
    (∃ s ∈ searcher.scripts, reached? (emitScripts searcher) "jump %s"
        = some (mainScript (specOf searcher) s))
      ∧ ∃ r ∈ itemNumbersIn searcher, reached? (emitScripts searcher) (indexSpec "i")
        = some (indexScript (specOf searcher) r) := by
  have hscripts : searchTable.scripts = .ok searcher.scripts := rfl
  obtain ⟨_, _, hdefined, hitem⟩ := calls_reach hscripts
  have hdefinitions : searcher.definitions.map (fun d => (definitionSpec d, d.proccode?))
      = [("jump %s", some "jump %n"), ("search", some "search")] := rfl
  have hspecs : ∀ d ∈ searcher.definitions, definitionSpec d = "jump %s"
      ∧ d.proccode? = some "jump %n" ∨ definitionSpec d = "search" := by
    intro d hd
    have hd := hdefinitions ▸ List.mem_map_of_mem hd
    simp only [List.mem_cons, Prod.mk.injEq, List.not_mem_nil, or_false] at hd
    exact hd.imp_right And.left
  have hcall : searcher.blocks[2]? = some _ := rfl
  obtain ⟨_, hreach⟩ := hdefined _ (List.mem_of_getElem? hcall) rfl "jump %n" _ rfl rfl
  obtain ⟨s, hs, _, hreached⟩ := hreach
    (fun d hd hspec => (hspecs d hd).elim And.right
      (fun hsearch => absurd (hsearch.symm.trans hspec) (by decide)))
    (fun r _ => (ne_indexSpec (by decide) r.id).symm)
  refine ⟨⟨s, hs, hreached⟩, ?_⟩
  -- the item number is an argument of the call
  have hscript : searcher.scripts[2]? = some _ := rfl
  have hpassed : height ∈ passedIn searcher := by
    refine List.mem_flatMap.mpr ⟨_, List.mem_of_getElem? hscript,
      List.mem_flatMap.mpr ⟨_, List.mem_cons_self, ?_⟩⟩
    refine passedInput_subset_passed (e := (.expression, .arguments [.block height]))
      List.mem_cons_self ?_
    simp [passedInput, self_mem_passed]
  obtain ⟨r, hr, _, hreached⟩ := hitem height (List.mem_filter.mpr ⟨hpassed, rfl⟩) (fun d hd => by
    rcases hspecs d hd with ⟨hspec, _⟩ | hspec <;> rw [hspec] <;> exact ne_indexSpec (by decide) _)
  exact ⟨r, hr, hreached⟩

/-- Two jumps, the first by a number and the second by a text, and a call of the
second. -/
def leapTable : BlockTable :=
  [("n", { BlockTable.plainRecord "procedures_definition" with
            isTopLevel := true, slots := [("custom_block", .child "p")] }),
   ("p", { BlockTable.plainRecord "procedures_prototype" with
            isShadow := true
            mutation? := some ⟨some "jump %n", ["a"], ["height"], [], false⟩ }),
   ("s", { BlockTable.plainRecord "procedures_definition" with
            isTopLevel := true, next? := some "h", slots := [("custom_block", .child "q")] }),
   ("q", { BlockTable.plainRecord "procedures_prototype" with
            isShadow := true
            mutation? := some ⟨some "jump %s", ["a"], ["place"], [], false⟩ }),
   ("h", BlockTable.plainRecord "looks_hide"),
   ("c", { BlockTable.plainRecord "procedures_call" with
            isTopLevel := true
            mutation? := some ⟨some "jump %s", ["a"], [], [], false⟩ })]

/-- The target with the scripts of this table. -/
def leaper : Target :=
  { name := "Cat", pose := none, scripts := leapTable.scripts.toOption.getD [] }

/-- **A call of the second jump reaches the first.** The two have different
proccodes, but one spec, so the call does not reach the script of the definition
that it is for. -/
theorem leaper_reaches_other :
    leapTable.scripts = .ok leaper.scripts
      ∧ leaper.definitions.map Block.proccode? = [some "jump %n", some "jump %s"]
      ∧ ∃ c ∈ leaper.blocks, ∃ d values, c.opcode = Opcode.call ∧ c.proccode? = some "jump %s"
        ∧ leaper.definition? "jump %s" = some d
        ∧ (emitBlock (specOf leaper) c).value = .op "call" (.text "jump %s" :: values)
        ∧ ∀ s ∈ leaper.scripts, s.head? = some d →
          reached? (emitScripts leaper) "jump %s" ≠ some (mainScript (specOf leaper) s) := by
  have hcall : leaper.blocks[3]? = some _ := rfl
  refine ⟨rfl, rfl, _, List.mem_of_getElem? hcall, _, _, rfl, rfl, rfl, rfl,
    fun s hs hhead hreached => ?_⟩
  -- the script that is reached has only the head, and that of the definition another block
  have hfirst : (reached? (emitScripts leaper) "jump %s").map (fun x => x.statements.length)
      = some 1 := rfl
  rw [hreached] at hfirst
  have hid := congrArg (Option.map Block.id) hhead
  have hscripts : leaper.scripts = [_, _, _] := rfl
  rw [hscripts] at hs
  rcases List.mem_cons.mp hs with rfl | hs
  · exact absurd hid (by decide)
  rcases List.mem_cons.mp hs with rfl | hs
  · exact absurd hfirst (by decide)
  · cases List.mem_singleton.mp hs
    exact absurd hid (by decide)

end Target

end ScratchLegacy
