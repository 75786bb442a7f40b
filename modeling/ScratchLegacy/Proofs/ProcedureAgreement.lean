import ScratchLegacy.Proofs.ItemNumbers
import ScratchLegacy.Proofs.ProccodeSpec
import ScratchLegacy.Proofs.ProcedureSignatures

/-!
# Definitions and calls agree

A procedure is translated twice: where it is defined, and where it is called. The
definition is written from the pieces of its proccode, the call from its own
arguments, and the two meet only through the lookup of the proccode.

`Legacy.Agree` says what has to hold of the two tokens for the legacy format to
take them for one procedure, and what of the proccode is left in them.
`Target.agree_of_scripts` says that it does hold, for every call within the
scripts of a table whose procedure some script defines.
-/

namespace ScratchLegacy

/-! ## Names and defaults -/

/-- **The names of the parameters are those that are given**, one for each
placeholder, and empty where none is given. -/
theorem Proccode.map_fst_declared (ts : List Token) (names : List String)
    (defaults : List Json) :
    (Legacy.declared (parameters ts names defaults)).map Prod.fst
      = (List.range (ts.filterMap Token.letter?).length).map (fun k => names.getD k "") := by
  induction ts generalizing names defaults with
  | nil => rfl
  | cons t ts ih =>
    cases t with
    | label text => exact ih names defaults
    | placeholder k =>
      have hfirst :
          (Legacy.declared (parameters (.placeholder k :: ts) names defaults)).map Prod.fst
            = names.headD ""
              :: (Legacy.declared (parameters ts names.tail defaults.tail)).map Prod.fst := by
        rw [parameters]
        split <;> rfl
      rw [hfirst, ih]
      show _ = (List.range ((ts.filterMap Token.letter?).length + 1)).map _
      rw [List.range_succ_eq_map, List.map_cons, List.map_map]
      cases names <;> rfl

namespace Legacy

/-! ## The tokens of definitions and calls -/

section Tokens

variable (specOf : String → String) {b : Block}

/-- A definition is translated from its signature alone. -/
theorem emitBlock_definition (h : b.opcode = Opcode.definition) :
    emitBlock specOf b = ⟨emitDefinition b.signature, [], []⟩ := by
  rw [Opcode.definition] at h
  rw [emitBlock_eq]
  simp only [emitBlockOf, h]

/-- A call is the spec of its proccode and its arguments. -/
theorem value_emitBlock_call (h : b.opcode = Opcode.call) {values : List Input}
    (hinputs : b.inputs = [("INPUTS", .arguments values)]) :
    (emitBlock specOf b).value = .op "call" (.text (specOf (b.proccode?.getD ""))
      :: values.map (fun v => (readInput specOf v).expression.value)) := by
  rw [Opcode.call] at h
  rw [emitBlock_eq, hinputs]
  simp only [emitBlockOf, h]
  show Token.op "call" (_ :: (expressions specOf values).map Emitted.value) = _
  rw [expressions_eq_map, List.map_map]
  rfl

end Tokens

/-- **A definition and a call agree on a procedure**, as tokens. They have one
spec, whose markers are those of the proccode. The definition has a name and a
default for each of them, and the names are those of the prototype, or empty
where it has no more. The call has an argument for each id that it lists. -/
inductive Agree (proccode : String) (argumentNames argumentIds : List String) :
    Token → Token → Prop where
  | intro {spec : String} {names : List String} {defaults : List Json} {warp : Bool}
      {values : List Token}
      (markers_spec : Proccode.markers spec.toList
        = (Proccode.markers proccode.toList).map Proccode.legacyLetter)
      (length_names : names.length = (Proccode.markers proccode.toList).length)
      (length_defaults : defaults.length = (Proccode.markers proccode.toList).length)
      (named : ∀ k, k < names.length → names[k]? = some (argumentNames.getD k ""))
      (length_values : values.length = argumentIds.length) :
      Agree proccode argumentNames argumentIds
        (.op "procDef" [.text spec, .list (names.map .text), .list (defaults.map .value),
          .bool warp])
        (.op "call" (.text spec :: values))

/-- **The spec of a signature and that of a call agree** when the call is for
the proccode that the signature is made from. -/
theorem agree_of_signature {proccode : String} {m : Mutation} {argumentIds : List String}
    {s : Signature} {values : List Token}
    (hp : s.proccode = proccode)
    (hparameters : s.parameters = Proccode.parameters (Proccode.tokens s.proccode.toList)
      m.argumentNames m.argumentDefaults)
    (hvalues : values.length = argumentIds.length) :
    Agree proccode m.argumentNames argumentIds (emitDefinition (some s))
      (.op "call" (.text (Proccode.spec s.parameters) :: values)) := by
  subst hp
  have hnames : (declared s.parameters).map Prod.fst
      = (List.range (Proccode.markers s.proccode.toList).length).map
        (fun k => m.argumentNames.getD k "") := by
    rw [hparameters, Proccode.map_fst_declared, Proccode.letters_tokens]
  have hlength : (declared s.parameters).length
      = (Proccode.markers s.proccode.toList).length := by
    have := congrArg List.length hnames
    simpa using this
  obtain ⟨defaults, hdefaults⟩ := exists_declared_eq s.parameters
  have htoken : emitDefinition (some s) = .op "procDef" [.text (Proccode.spec s.parameters),
      .list (((declared s.parameters).map Prod.fst).map .text), .list (defaults.map .value),
      .bool s.warp] := by
    rw [← hdefaults, List.map_map]
    rfl
  rw [htoken]
  refine .intro ?_ ?_ ?_ (fun k hk => ?_) hvalues
  · rw [hparameters, Proccode.markers_spec]
  · rw [List.length_map, hlength]
  · have := congrArg List.length hdefaults
    simpa [hlength] using this.symm
  · rw [hnames] at hk ⊢
    simp only [List.length_map, List.length_range] at hk
    simp [hk]

/-- **A script that begins with a definition begins with its token** when it is
translated, and with what the rest of the script is translated into behind it. -/
theorem statements_cons_definition (specOf : String → String) {b : Block}
    (h : b.opcode = Opcode.definition) (rest : List Block) :
    statements specOf (b :: rest) = (emitBlock specOf b).value :: statements specOf rest := by
  have hbefore : indexCalls (itemNumbers false b) = [] := by
    rw [← before_emitBlock specOf b, emitBlock_definition specOf h]
  show (indexCalls (itemNumbers false b) ++ _) ++ _ = _
  rw [hbefore]
  rfl

end Legacy

/-! ## Definitions in a target -/

namespace Target

open Legacy

variable {target : Target} {proccode : String}

/-- **The definition of a procedure heads a script** and has its proccode. -/
theorem exists_script_of_definition? {b : Block} (h : target.definition? proccode = some b) :
    ∃ s ∈ target.scripts, s.head? = some b ∧ b.opcode = Opcode.definition
      ∧ b.proccode? = some proccode := by
  obtain ⟨s, hs, hhead⟩ := List.mem_filterMap.mp (List.mem_of_find?_eq_some h)
  have hb := List.find?_some h
  simp only [Bool.and_eq_true, decide_eq_true_eq] at hb
  exact ⟨s, hs, hhead, hb⟩

/-- A procedure that is defined has a definition. -/
theorem exists_definition? {s : Script} {b : Block} (hs : s ∈ target.scripts)
    (hhead : s.head? = some b) (hdefines : b.opcode = Opcode.definition)
    (hproccode : b.proccode? = some proccode) :
    ∃ first, target.definition? proccode = some first := by
  refine Option.isSome_iff_exists.mp (List.find?_isSome.mpr ⟨b, ?_, ?_⟩)
  · exact List.mem_filterMap.mpr ⟨s, hs, hhead⟩
  · simp [hdefines, hproccode]

/-- **The token of a definition begins a legacy script.** -/
theorem exists_emitScripts_of_head {s : Script} {b : Block} (hs : s ∈ target.scripts)
    (hhead : s.head? = some b) (hdefines : b.opcode = Opcode.definition) :
    ∃ legacy ∈ emitScripts target,
      legacy.statements.head? = some (emitBlock (specOf target) b).value := by
  obtain ⟨rest, hblocks⟩ := List.head?_eq_some_iff.mp hhead
  refine ⟨⟨s.x, s.y, (Emitted.stack (emitAll (specOf target) s.blocks)).value⟩,
    List.mem_flatMap.mpr ⟨s, hs, List.mem_cons_self⟩, ?_⟩
  rw [stack_emitAll, hblocks, statements_cons_definition _ hdefines]
  rfl

/-- The head of a script is a block of the target. -/
theorem mem_blocks_of_head {s : Script} {b : Block} (hs : s ∈ target.scripts)
    (hhead : s.head? = some b) : b ∈ target.blocks := by
  refine List.mem_flatMap.mpr ⟨s, hs, List.mem_flatMap.mpr ⟨b, List.mem_of_mem_head? hhead, ?_⟩⟩
  exact Block.mem_visit_iff.mpr .self

/-- **Definitions and calls are expanded** from the records of a table. -/
theorem expanded_of_scripts {t : BlockTable} (h : t.scripts = .ok target.scripts) {b : Block}
    (hb : b ∈ target.blocks) (hopcode : b.opcode = Opcode.definition ∨ b.opcode = Opcode.call) :
    ∃ room opened id, t.expand room opened id = .ok b := by
  obtain ⟨s, hs, hb⟩ := List.mem_flatMap.mp hb
  obtain ⟨root, hroot, hb⟩ := List.mem_flatMap.mp hb
  refine (t.expanded_of_scripts h hs hroot (Block.mem_visit_iff.mp hb)).resolve_right
    (fun hdata => ?_)
  rcases Block.opcode_of_isDataReporter hdata with hdata | hdata <;>
    rcases hopcode with hopcode | hopcode <;> exact absurd (hopcode.symm.trans hdata) (by decide)

/-- **Definitions and calls agree after conversion.** When a call within the
scripts of a table is for a procedure that a script of the target defines, the
first such definition and the call are translated into tokens that agree on the
procedure, and the token of the definition begins a legacy script. -/
theorem agree_of_scripts {t : BlockTable} (h : t.scripts = .ok target.scripts)
    {call definition : Block} (hcall : call ∈ target.blocks) (hcalls : call.opcode = Opcode.call)
    (hcallee : call.proccode? = some proccode)
    (hhead : ∃ s ∈ target.scripts, s.head? = some definition)
    (hdefines : definition.opcode = Opcode.definition)
    (hdefined : definition.proccode? = some proccode) :
    ∃ first m record, target.definition? proccode = some first
      ∧ t.Declares first.id m ∧ m.proccode? = some proccode
      ∧ t.record? call.id = some record
      ∧ (∃ legacy ∈ emitScripts target,
          legacy.statements.head? = some (emitBlock (specOf target) first).value)
      ∧ Agree proccode m.argumentNames record.argumentIds
          (emitBlock (specOf target) first).value (emitBlock (specOf target) call).value := by
  obtain ⟨s, hs, hd⟩ := hhead
  obtain ⟨first, hfirst⟩ := exists_definition? hs hd hdefines hdefined
  obtain ⟨s, hs, hd, hopcode, hproccode⟩ := exists_script_of_definition? hfirst
  obtain ⟨signature, hsignature, hp⟩ := Option.map_eq_some_iff.mp hproccode
  -- both take what they say of the procedure from their records
  obtain ⟨_, _, _, hexpand⟩ := expanded_of_scripts h (mem_blocks_of_head hs hd) (.inl hopcode)
  obtain ⟨m, hdeclares, hm, hparameters⟩ := BlockTable.exists_declares_of_expand hexpand
    (by rw [hopcode]; decide) hsignature
  obtain ⟨_, _, _, hexpand⟩ := expanded_of_scripts h hcall (.inr hcalls)
  obtain ⟨record, values, hrecord, hinputs, hvalues⟩ := BlockTable.call_of_expand hexpand hcalls
  have hspec : specOf target proccode = Proccode.spec signature.parameters := by
    rw [specOf, hfirst, Option.bind_some, hsignature]
    rfl
  refine ⟨first, m, record, hfirst, hdeclares, hp ▸ hm, hrecord,
    exists_emitScripts_of_head hs hd hopcode, ?_⟩
  rw [emitBlock_definition _ hopcode, hsignature, value_emitBlock_call _ hcalls hinputs, hcallee,
    Option.getD_some, hspec]
  exact agree_of_signature hp hparameters ((List.length_map _).trans hvalues)

/-- A definition of a jump whose prototype names one of its two parameters, and
the call of it by the block below. -/
def jumpTable : BlockTable :=
  [("d", { BlockTable.plainRecord "procedures_definition" with
            next? := some "c", isTopLevel := true, slots := [("custom_block", .child "p")] }),
   ("p", { BlockTable.plainRecord "procedures_prototype" with
            isShadow := true
            mutation? := some ⟨some "jump %n \\%s %b", ["a", "b"], ["height"], [], false⟩ }),
   ("c", { BlockTable.plainRecord "procedures_call" with
            mutation? := some ⟨some "jump %n \\%s %b", ["a", "b"], [], [], false⟩ })]

/-- The target with the scripts of this table. -/
def jumper : Target :=
  { name := "Cat", pose := none, scripts := jumpTable.scripts.toOption.getD [] }

/-- The definition and the call of the jump agree. -/
theorem jumper_agrees :
    ∃ call ∈ jumper.blocks, call.opcode = Opcode.call
      ∧ ∃ first m record, jumper.definition? "jump %n \\%s %b" = some first
        ∧ jumpTable.Declares first.id m ∧ jumpTable.record? call.id = some record
        ∧ Agree "jump %n \\%s %b" m.argumentNames record.argumentIds
          (emitBlock (specOf jumper) first).value (emitBlock (specOf jumper) call).value := by
  have hscripts : jumpTable.scripts = .ok jumper.scripts := rfl
  have hcall : jumper.blocks[1]? = some _ := rfl
  obtain ⟨first, m, record, hfirst, hdeclares, _, hrecord, _, hagree⟩ :=
    agree_of_scripts hscripts (List.mem_of_getElem? hcall) rfl rfl
      ⟨_, List.mem_cons_self, rfl⟩ rfl rfl
  exact ⟨_, List.mem_of_getElem? hcall, rfl, first, m, record, hfirst, hdeclares, hrecord, hagree⟩

end Target

end ScratchLegacy
