import ScratchLegacy.Proofs.ProcedureAgreement
import ScratchLegacy.Proofs.TokenOrigins

/-!
# Parameters in scope

An argument reporter reads a parameter of the procedure whose definition heads the
script that it is in. In a legacy document, too, a parameter can be read only in a
script that begins by declaring it.

The translation of a script keeps its argument reporters in the script. The hidden
procedure of an item number does not: it has the translations of the list and of
the item in a script of its own, which declares nothing. So the parameters of a
target stay in scope exactly when no item number has one of them in its list or
its item (`Target.parameters_in_scope_iff`). `Target.finder_out_of_scope` is about
a target where one has.
-/

namespace ScratchLegacy

/-! ## Parameters and their reporters -/

/-- The name of a parameter. A label has none. -/
def Parameter.name? : Parameter → Option String
  | .label _ => none
  | .value name _ | .boolean name _ => some name

/-- **The names of the parameters** of the procedure that a block defines. -/
def Block.parameterNames (b : Block) : List String :=
  ((b.signature.map Signature.parameters).getD []).filterMap Parameter.name?

/-- A block that reads a parameter. -/
def Block.IsArgumentReporter (b : Block) : Prop :=
  b.opcode = "argument_reporter_string_number" ∨ b.opcode = "argument_reporter_boolean"

instance (b : Block) : Decidable b.IsArgumentReporter := inferInstanceAs (Decidable (_ ∨ _))

/-- **The argument reporters of a target are in scope**: every one of them is in a
script that is headed by a definition with a parameter of its name. -/
def Target.ArgumentsInScope (target : Target) : Prop :=
  ∀ s ∈ target.scripts, ∀ root ∈ s.blocks, ∀ b : Block, b.Within root → b.IsArgumentReporter →
    ∃ d, s.head? = some d ∧ d.opcode = Opcode.definition
      ∧ Legacy.shownText b "VALUE" ∈ d.parameterNames

namespace Legacy

/-- **A legacy script reads a parameter**, at any depth. -/
def Script.ReadsParameter (s : Script) (name : String) : Prop :=
  ∃ kind, .op "getParam" [.text name, kind] ∈ Token.partsAll s.statements

/-- **A legacy script declares a parameter**: it begins with the head of a procedure
that has the name among those of its parameters. -/
def Script.DeclaresParameter (s : Script) (name : String) : Prop :=
  ∃ spec names defaults warp rest,
    s.statements = .op "procDef" [spec, .list names, defaults, warp] :: rest ∧ .text name ∈ names

/-! ## What a definition declares -/

/-- A definition declares the names of its parameters. -/
theorem map_fst_declared_eq (parameters : List Parameter) :
    (declared parameters).map Prod.fst = parameters.filterMap Parameter.name? := by
  induction parameters with
  | nil => rfl
  | cons parameter rest ih =>
    cases parameter with
    | label text => exact ih
    | value name default | boolean name default => exact congrArg (name :: ·) ih

/-- **A script that a definition heads declares its parameters.** -/
theorem declaresParameter_mainScript {specOf : String → String} {s : ScratchLegacy.Script}
    {d : Block} {name : String} (hhead : s.head? = some d) (hd : d.opcode = Opcode.definition)
    (hname : name ∈ d.parameterNames) : (mainScript specOf s).DeclaresParameter name := by
  obtain ⟨rest, hblocks⟩ := List.head?_eq_some_iff.mp hhead
  rw [Script.DeclaresParameter, statements_mainScript, hblocks,
    statements_cons_definition specOf hd, emitBlock_definition specOf hd]
  rw [Block.parameterNames] at hname
  cases hsignature : d.signature with
  | none =>
    rw [hsignature] at hname
    cases hname
  | some signature =>
    rw [hsignature] at hname
    refine ⟨_, _, _, _, _, rfl, ?_⟩
    have hdeclared : name ∈ (declared signature.parameters).map Prod.fst := by
      rw [map_fst_declared_eq]
      exact hname
    obtain ⟨p, hp, rfl⟩ := List.mem_map.mp hdeclared
    exact List.mem_map.mpr ⟨p, hp, rfl⟩

/-! ## What reads a parameter -/

/-- Only an argument reporter is translated into the reading of a parameter. -/
theorem opcode_of_getParam : ∀ e ∈ vocabulary, e.2 = "getParam" →
    e.1 = "argument_reporter_string_number" ∨ e.1 = "argument_reporter_boolean" := by
  decide +kernel

section Reads

variable {specOf : String → String} {name : String} {kind : Token}

/-- A block that is translated into the reading of a parameter shows its name. -/
theorem shownText_of_getParam {c : Block} (hc : c.IsArgumentReporter)
    (h : .op "getParam" [.text name, kind] = (emitBlock specOf c).value) :
    shownText c "VALUE" = name := by
  rw [emitBlock_eq] at h
  rcases hc with hc | hc
  · simp only [emitBlockOf, hc] at h
    cases h
    rfl
  · simp only [emitBlockOf, hc] at h
    cases h
    rfl

/-- **What reads a parameter in a stack is an argument reporter of its name.** -/
theorem exists_argumentReporter {blocks : List Block}
    (h : .op "getParam" [.text name, kind] ∈ Token.partsAll (statements specOf blocks)) :
    ∃ root ∈ blocks, ∃ c : Block, c.Within root ∧ c.IsArgumentReporter
      ∧ shownText c "VALUE" = name := by
  obtain ⟨c, hc, hvalue, hopcode⟩ := (stems_statements h).exists_block (by decide)
  obtain ⟨root, hroot, hc⟩ := List.mem_flatMap.mp hc
  have hreporter : c.IsArgumentReporter :=
    opcode_of_getParam _ (hopcode.resolve_right (by decide)) rfl
  exact ⟨root, hroot, c, (hereditary_within_of_passed c).forall_block root hc, hreporter,
    shownText_of_getParam hreporter hvalue⟩

/-- **A hidden procedure reads the parameters that its list and its item read.** -/
theorem readsParameter_indexScript {r : Block} :
    (indexScript specOf r).ReadsParameter name
      ↔ ∃ kind, .op "getParam" [.text name, kind] ∈ (slotExpression specOf r "LIST").parts
        ∨ .op "getParam" [.text name, kind] ∈ (slotExpression specOf r "ITEM").parts := by
  refine exists_congr (fun kind => ⟨fun h => ?_, fun h => mem_parts_indexProcedure h⟩)
  exact (op_mem_indexScript h).resolve_left (by decide)

/-- A hidden procedure declares no parameters. -/
theorem not_declaresParameter_indexScript (r : Block) :
    ¬ (indexScript specOf r).DeclaresParameter name := by
  rintro ⟨_, _, _, _, _, hstatements, hname⟩
  cases hstatements
  cases hname

end Reads

end Legacy

namespace Target

open Legacy

variable {target : Target}

/-- **The scripts of a target keep their parameters in scope.** -/
theorem declaresParameter_of_readsParameter (h : target.ArgumentsInScope)
    {s : Script} (hs : s ∈ target.scripts) {name : String}
    (hreads : (mainScript (specOf target) s).ReadsParameter name) :
    (mainScript (specOf target) s).DeclaresParameter name := by
  obtain ⟨kind, hreads⟩ := hreads
  rw [statements_mainScript] at hreads
  obtain ⟨root, hroot, c, hwithin, hreporter, rfl⟩ := exists_argumentReporter hreads
  obtain ⟨d, hhead, hd, hname⟩ := h s hs root hroot c hwithin hreporter
  exact declaresParameter_mainScript hhead hd hname

/-- **Parameters stay in scope unless item numbers have them.** Let every argument
reporter of a target be in scope. Then the translation of a script declares every
parameter that it reads. A hidden procedure declares none, and it reads those that
the list and the item of its item number read. So all legacy scripts of the target
declare what they read exactly when no list and no item reads a parameter. -/
theorem parameters_in_scope_iff (h : target.ArgumentsInScope) :
    (∀ s ∈ target.scripts, ∀ name, (mainScript (specOf target) s).ReadsParameter name →
        (mainScript (specOf target) s).DeclaresParameter name)
      ∧ ((∀ script ∈ emitScripts target, ∀ name, script.ReadsParameter name →
          script.DeclaresParameter name)
        ↔ ∀ r ∈ itemNumbersIn target, ∀ name kind,
          .op "getParam" [.text name, kind] ∉ (slotExpression (specOf target) r "LIST").parts
            ∧ .op "getParam" [.text name, kind]
              ∉ (slotExpression (specOf target) r "ITEM").parts) := by
  refine ⟨fun s hs name => declaresParameter_of_readsParameter h hs, fun hall r hr name kind => ?_,
    fun hnone script hscript name hreads => ?_⟩
  · rw [← not_or]
    intro hmem
    have hreads := readsParameter_indexScript.mpr ⟨kind, hmem⟩
    exact not_declaresParameter_indexScript r
      (hall _ (mem_emitScripts.mpr (.inr ⟨r, hr, rfl⟩)) name hreads)
  · rcases mem_emitScripts.mp hscript with ⟨s, hs, rfl⟩ | ⟨r, hr, rfl⟩
    · exact declaresParameter_of_readsParameter h hs hreads
    · obtain ⟨kind, hreads⟩ := readsParameter_indexScript.mp hreads
      obtain ⟨hlist, hitem⟩ := hnone r hr name kind
      exact (hreads.elim hlist hitem).elim

/-- A procedure `find %s` with the parameter `x`, which says a message. -/
def finder (message : Block) : Target :=
  { name := "Cat"
    pose := none
    scripts :=
      [⟨0, 0,
        [{ id := "d", opcode := "procedures_definition"
           signature := some ⟨"find %s", ["a"], [.label "find", .value "x" (.text "")], false⟩ },
         { id := "s", opcode := "looks_say", inputs := [("MESSAGE", .block message)] }]⟩] }

/-- The reporter of the parameter. -/
def argument : Block :=
  { id := "x", opcode := "argument_reporter_string_number", inputs := [("VALUE", .text "x")] }

/-- The reporter of the place of the parameter in a list. -/
def place : Block :=
  { id := "i", opcode := "data_itemnumoflist"
    inputs := [("ITEM", .block argument), ("LIST", .listRef ⟨"l", "names"⟩)] }

/-- Argument reporters in the message are in scope. -/
theorem finder_argumentsInScope {message : Block}
    (h : ∀ b ∈ message.visit, b.IsArgumentReporter → shownText b "VALUE" = "x") :
    (finder message).ArgumentsInScope := by
  intro s hs root hroot b hwithin hreporter
  cases List.mem_singleton.mp hs
  suffices hname : shownText b "VALUE" = "x" from ⟨_, rfl, rfl, hname ▸ List.mem_cons_self⟩
  have hb := Block.mem_visit_iff.mpr hwithin
  rcases List.mem_cons.mp hroot with rfl | hroot
  · cases List.mem_singleton.mp hb
    exact absurd hreporter (by decide)
  · cases List.mem_singleton.mp hroot
    rcases List.mem_cons.mp hb with rfl | hb
    · exact absurd hreporter (by simp [Block.IsArgumentReporter])
    · exact h b ((List.append_nil message.visit) ▸ hb) hreporter

/-- A message that is the parameter is said in scope. -/
theorem finder_in_scope :
    (finder argument).ArgumentsInScope ∧ ∃ s ∈ (finder argument).scripts,
      (mainScript (specOf (finder argument)) s).ReadsParameter "x"
        ∧ (mainScript (specOf (finder argument)) s).DeclaresParameter "x" := by
  have hscope : (finder argument).ArgumentsInScope := by
    refine finder_argumentsInScope (fun b hb _ => ?_)
    cases List.mem_singleton.mp hb
    rfl
  have hreads : ∀ s ∈ (finder argument).scripts,
      (mainScript (specOf (finder argument)) s).ReadsParameter "x" := by
    intro s hs
    cases List.mem_singleton.mp hs
    exact ⟨.text "r", List.mem_of_getElem? (i := 8) rfl⟩
  exact ⟨hscope, _, List.mem_cons_self, hreads _ List.mem_cons_self,
    (parameters_in_scope_iff hscope).1 _ List.mem_cons_self "x" (hreads _ List.mem_cons_self)⟩

/-- **A message that is a place is computed out of scope**: the hidden procedure
reads the parameter and does not declare it. -/
theorem finder_out_of_scope :
    (finder place).ArgumentsInScope ∧ ∃ script ∈ emitScripts (finder place),
      script.ReadsParameter "x" ∧ ¬ script.DeclaresParameter "x" := by
  refine ⟨finder_argumentsInScope (fun b hb hreporter => ?_),
    indexScript (specOf (finder place)) place, List.mem_of_getElem? (i := 1) rfl,
    readsParameter_indexScript.mpr ⟨.text "r", .inr List.mem_cons_self⟩,
    not_declaresParameter_indexScript place⟩
  rcases List.mem_cons.mp hb with rfl | hb
  · exact absurd hreporter (by decide)
  · cases List.mem_singleton.mp hb
    rfl

end Target

end ScratchLegacy
