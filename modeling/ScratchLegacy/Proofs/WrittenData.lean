import ScratchLegacy.Proofs.EmissionRules
import ScratchLegacy.Proofs.LiveData

/-!
# Data that the scripts write

Pruning and translation go through the same blocks, but not in the same way.
Pruning looks at what fills the slots of a block (`Block.Names`); translation
writes the name of every variable and list that it comes to
(`Legacy.Writes`), and it comes to the arguments of a call one by one. So a
reference can be written without being in a slot: as an argument itself
(`Block.Passes`).

`Project.written_data_kept_iff` says what this means for a declaration whose id
the scripts write. Written from a slot, the declaration is kept. Written from
arguments only, it is kept when it is shown, or when some other block in scope
has the id in a slot – and `argumentOnly_is_dropped` is a project where neither
is the case.
-/

namespace ScratchLegacy

/-! ## Where a reference can be -/

/-- **A reference that an input shows**: the input itself, or one that an
argument shows. -/
inductive Input.Shows : Input → DataRef → Prop where
  | variableRef (ref : DataRef) : Input.Shows (.variableRef ref) ref
  | listRef (ref : DataRef) : Input.Shows (.listRef ref) ref
  | arguments {values : List Input} {value : Input} {ref : DataRef} (mem : value ∈ values)
      (shows : Input.Shows value ref) : Input.Shows (.arguments values) ref

/-- A reference that a slot of a block shows. -/
def Block.Shows (b : Block) (ref : DataRef) : Prop :=
  ∃ slot input, (slot, input) ∈ b.inputs ∧ input.Shows ref

/-- **A reference that a block passes on**: it is among the arguments that a
slot holds. -/
def Block.Passes (b : Block) (ref : DataRef) : Prop :=
  ∃ slot values, (slot, Input.arguments values) ∈ b.inputs ∧ (Input.arguments values).Shows ref

/-- A reference that some block within the scripts of a target passes on. -/
def Target.Passes (t : Target) (ref : DataRef) : Prop :=
  ∃ script ∈ t.scripts, ∃ root ∈ script.blocks, ∃ b : Block, b.Within root ∧ b.Passes ref

/-- A shown reference is what fills a slot, or it is passed on. -/
theorem Block.Shows.names_or_passes {b : Block} {ref : DataRef} (h : b.Shows ref) :
    b.Names ref.id ∨ b.Passes ref := by
  obtain ⟨slot, input, hmem, hshows⟩ := h
  cases hshows with
  | variableRef => exact .inl ⟨slot, ref, .inl hmem, rfl⟩
  | listRef => exact .inl ⟨slot, ref, .inr hmem, rfl⟩
  | arguments hvalue hshows => exact .inr ⟨slot, _, hmem, .arguments hvalue hshows⟩

/-! ## What a translation writes -/

namespace Legacy

/-- **The references that the translation of an input writes**: those that it
comes to on its way through the tree. -/
inductive Writes : Input → DataRef → Prop where
  | variableRef (ref : DataRef) : Writes (.variableRef ref) ref
  | listRef (ref : DataRef) : Writes (.listRef ref) ref
  /-- What the translation of a block leads to. -/
  | block {b : Block} {e : Mode × Input} {ref : DataRef} (mem : e ∈ entered b)
      (writes : Writes e.2 ref) : Writes (.block b) ref
  | stack {blocks : List Block} {b : Block} {ref : DataRef} (mem : b ∈ blocks)
      (writes : Writes (.block b) ref) : Writes (.stack blocks) ref
  | arguments {values : List Input} {value : Input} {ref : DataRef} (mem : value ∈ values)
      (writes : Writes value ref) : Writes (.arguments values) ref

/-- **The references that the translation of a target writes**, from some block
of some script. -/
def WrittenBy (t : Target) (ref : DataRef) : Prop :=
  ∃ script ∈ t.scripts, ∃ b ∈ script.blocks, Writes (.block b) ref

/-- What is written is shown at the top of the input or by a block within
it. -/
theorem Writes.shows_or_exists_within {input : Input} {ref : DataRef} (h : Writes input ref) :
    input.Shows ref ∨ ∃ child, input.Holds child ∧ ∃ b : Block, b.Within child ∧ b.Shows ref := by
  induction h with
  | variableRef ref => exact .inl (.variableRef ref)
  | listRef ref => exact .inl (.listRef ref)
  | @block owner e ref hentered _ ih =>
    obtain ⟨slot, hmem⟩ := exists_slot_of_mem_entered hentered
    rcases ih with hshows | ⟨child, hholds, b, hb, hshows⟩
    · exact .inr ⟨owner, .block owner, owner, .self, slot, e.2, hmem, hshows⟩
    · exact .inr ⟨owner, .block owner, b, .slot hmem hholds hb, hshows⟩
  | stack hmem _ ih =>
    rcases ih with hshows | ⟨child, hholds, hb⟩
    · cases hshows
    · cases hholds
      exact .inr ⟨_, .stack hmem, hb⟩
  | arguments hmem _ ih =>
    rcases ih with hshows | ⟨child, hholds, hb⟩
    · exact .inl (.arguments hmem hshows)
    · exact .inr ⟨child, .arguments hmem hholds, hb⟩

/-- **What a target writes it names or passes on.** -/
theorem WrittenBy.names_or_passes {t : Target} {ref : DataRef} (h : WrittenBy t ref) :
    t.Names ref.id ∨ t.Passes ref := by
  obtain ⟨script, hscript, root, hroot, hwrites⟩ := h
  rcases hwrites.shows_or_exists_within with hshows | ⟨child, hholds, b, hb, hshows⟩
  · cases hshows
  · cases hholds
    exact hshows.names_or_passes.imp (fun hnames => ⟨script, hscript, root, hroot, b, hb, hnames⟩)
      (fun hpasses => ⟨script, hscript, root, hroot, b, hb, hpasses⟩)

/-! ## What is written can be read in the scripts -/

/-- The parts of several tokens are those of each of them. -/
theorem Token.mem_partsAll {u : Token} {ts : List Token} :
    u ∈ Token.partsAll ts ↔ ∃ t ∈ ts, u ∈ t.parts := by
  induction ts with
  | nil => simp [Token.partsAll]
  | cons t rest ih => simp [Token.partsAll, ih]

/-- A text in a list is in one of its items. -/
theorem Token.text_mem_list {s : String} {ts : List Token} :
    .text s ∈ (Token.list ts).parts ↔ .text s ∈ Token.partsAll ts := by
  simp [Token.parts, Token.text]

/-- A text in a stack is in one of its statements. -/
theorem Token.text_mem_stack {s : String} {ts : List Token} :
    .text s ∈ (Token.stack ts).parts ↔ .text s ∈ Token.partsAll ts := by
  simp [Token.parts, Token.text]

/-- **A text in the result of a translation**: in its token, or in a script
that is added. -/
def Emitted.Mentions (e : Emitted Token) (s : String) : Prop :=
  .text s ∈ e.value.parts ∨ ∃ script ∈ e.helpers, .text s ∈ Token.partsAll script.statements

section Mentions

variable {s : String} {es : List (Emitted Token)} {e : Emitted Token} {f : List Token → Token}

/-- A text in one of several results is in all of them together, once a token
holds them. -/
theorem Emitted.Mentions.all_map (h : e.Mentions s) (he : e ∈ es)
    (hf : ∀ ts, Token.text s ∈ Token.partsAll ts → Token.text s ∈ (f ts).parts) :
    ((Emitted.all es).map f).Mentions s := by
  rcases h with h | ⟨script, hscript, h⟩
  · exact .inl (hf _ (Token.mem_partsAll.mpr ⟨e.value, List.mem_map_of_mem he, h⟩))
  · exact .inr ⟨script, List.mem_flatMap.mpr ⟨e, he, hscript⟩, h⟩

/-- A text in the result of a statement is in that of its stack. -/
theorem Emitted.Mentions.stack_map (h : e.Mentions s) (he : e ∈ es) :
    ((Emitted.stack es).map .stack).Mentions s := by
  rcases h with h | ⟨script, hscript, h⟩
  · have hvalue : e.value ∈ (Emitted.stack es).value :=
      List.mem_flatMap.mpr ⟨e, he, List.mem_append_right _ List.mem_cons_self⟩
    exact .inl (List.mem_cons_of_mem _ (Token.mem_partsAll.mpr ⟨e.value, hvalue, h⟩))
  · exact .inr ⟨script, List.mem_flatMap.mpr ⟨e, he, hscript⟩, h⟩

/-- A text among the layers is there when they are taken backward. -/
theorem text_mem_backward {t : Token} (h : .text s ∈ t.parts) :
    .text s ∈ (backward t).parts := by
  unfold backward
  split
  · cases List.mem_singleton.mp h
  · exact List.mem_cons_of_mem _ (Token.mem_partsAll.mpr ⟨t, List.mem_cons_of_mem _
      List.mem_cons_self, h⟩)

/-- The hidden procedure has the parts of the list and of the item. -/
theorem mem_parts_indexProcedure {id : String} {list item t : Token}
    (h : t ∈ list.parts ∨ t ∈ item.parts) :
    t ∈ Token.partsAll (indexProcedure id list item).statements := by
  simp only [indexProcedure, Token.partsAll, Token.parts, List.mem_append, List.mem_cons]
  rcases h with h | h <;> simp only [h, true_or, or_true]

/-- An item number mentions what the list and the item mention: its hidden
procedure does, or the scripts that they add. -/
theorem mentions_emitItemNumber {id : String} {list item : Emitted Token}
    (h : list.Mentions s ∨ item.Mentions s) : (emitItemNumber id list item).Mentions s := by
  have hprocedure : .text s ∈ list.value.parts ∨ .text s ∈ item.value.parts →
      (emitItemNumber id list item).Mentions s := fun htext =>
    .inr ⟨_, List.mem_append_right _ List.mem_cons_self, mem_parts_indexProcedure htext⟩
  rcases h with (h | ⟨script, hscript, h⟩) | (h | ⟨script, hscript, h⟩)
  · exact hprocedure (.inl h)
  · exact .inr ⟨script, List.mem_append_left _ (List.mem_append_left _ hscript), h⟩
  · exact hprocedure (.inr h)
  · exact .inr ⟨script, List.mem_append_left _ (List.mem_append_right _ hscript), h⟩

variable {specOf : String → String} {b : Block}

/-- An argument is translated as what it leads to is read. -/
theorem emit_of_mem_entered {a : Argument} {r : Mode × Input} (h : r ∈ a.entered b) :
    a.emit (slotReadings specOf b) = (readInput specOf r.2).as r.1 := by
  cases a with
  | slot name | body name =>
    obtain ⟨input, hinput, rfl⟩ := Option.map_eq_some_iff.mp (Option.mem_toList.mp h)
    rw [Argument.emit, slotReadings, slotReading_map, hinput]
    rfl
  | word text => cases h

/-- **A block mentions what the inputs that it leads to mention.** -/
theorem mentions_emitBlock {r : Mode × Input} (hr : r ∈ entered b)
    (h : ((readInput specOf r.2).as r.1).Mentions s) : (emitBlock specOf b).Mentions s := by
  rw [emitBlock_eq, ← slotReadings]
  -- outside calls it is an argument of the operation that leads to the input
  have hargument : b.opcode ≠ Opcode.call → ∃ a ∈ reads b.opcode,
      (a.emit (slotReadings specOf b)).Mentions s := by
    intro notCall
    rw [entered, if_neg notCall] at hr
    obtain ⟨a, ha, hr⟩ := List.mem_flatMap.mp hr
    exact ⟨a, ha, emit_of_mem_entered hr ▸ h⟩
  cases rule_of_block specOf b with
  | constant token notCall _ reads _ _ =>
    obtain ⟨a, ha, _⟩ := hargument notCall
    rw [reads] at ha
    cases ha
  | layers forward opcode emit =>
    obtain ⟨a, ha, ha'⟩ := hargument (by rw [opcode]; decide)
    rw [opcode] at ha
    cases List.mem_singleton.mp ha
    rw [emit]
    refine ha'.imp_left (fun htext => List.mem_cons_of_mem _ (List.mem_append_left _ ?_))
    cases forward
    · exact htext
    · exact text_mem_backward htext
  | itemNumber opcode emit =>
    obtain ⟨a, ha, ha'⟩ := hargument (by rw [opcode]; decide)
    rw [opcode] at ha
    rw [emit]
    rcases List.mem_cons.mp ha with rfl | ha
    · exact mentions_emitItemNumber (.inl ha')
    · cases List.mem_singleton.mp ha
      exact mentions_emitItemNumber (.inr ha')
  | call spec opcode emit =>
    rw [entered, if_pos opcode, callEntered] at hr
    rw [emit, slotReadings, slotReading_map]
    cases hinput : b.input? "INPUTS" with
    | none =>
      rw [hinput] at hr
      cases hr
    | some input =>
      rw [hinput] at hr
      cases input with
      | arguments values =>
        cases List.mem_singleton.mp hr
        refine Or.imp_left (fun htext => ?_) h
        exact List.mem_cons_of_mem _ (List.mem_append_right _ (Token.text_mem_list.mp htext))
      | _ => cases hr
  | form form found notCall notItemNumber reads emit =>
    obtain ⟨a, ha, ha'⟩ := hargument notCall
    rw [emit]
    exact ha'.all_map (List.mem_map_of_mem (reads ▸ ha)) (fun ts => List.mem_cons_of_mem _)

/-- **What is written is mentioned**, in blocks and in inputs of either
reading. -/
theorem mentions_of_writes (specOf : String → String) {input : Input} {ref : DataRef}
    (h : Writes input ref) (mode : Mode) :
    ((readInput specOf input).as mode).Mentions ref.name := by
  induction h generalizing mode with
  | variableRef ref | listRef ref => cases mode <;> exact .inl List.mem_cons_self
  | block hentered _ ih =>
    have hblock := mentions_emitBlock hentered (ih _)
    cases mode with
    | expression => exact hblock
    | body => exact hblock.stack_map List.mem_cons_self
  | @stack blocks b ref hmem _ ih =>
    rw [as_stack, emitAll_eq_map]
    exact (ih .expression).stack_map (List.mem_map_of_mem hmem)
  | @arguments values value ref hmem _ ih =>
    rw [as_arguments, expressions_eq_map]
    exact (ih .expression).all_map (List.mem_map_of_mem hmem) (fun ts => List.mem_cons_of_mem _)

end Mentions

/-- **What a target writes is a text of its scripts.** -/
theorem WrittenBy.exists_mem_emitScripts {t : Target} {ref : DataRef} (h : WrittenBy t ref) :
    ∃ script ∈ emitScripts t, .text ref.name ∈ Token.partsAll script.statements := by
  obtain ⟨script, hscript, b, hb, hwrites⟩ := h
  have hstack := mentions_of_writes (specOf t) (.stack hb hwrites) .body
  rcases hstack with htext | ⟨helper, hhelper, htext⟩
  · exact ⟨_, List.mem_flatMap.mpr ⟨script, hscript, List.mem_cons_self⟩,
      Token.text_mem_stack.mp htext⟩
  · exact ⟨helper, List.mem_flatMap.mpr ⟨script, hscript, List.mem_cons_of_mem _ hhelper⟩, htext⟩

end Legacy

/-! ## Declarations -/

/-- **A declaration of a target.** -/
inductive Declaration where
  | var (v : Variable)
  | list (l : ItemList)

/-- The id that a declaration declares. -/
def Declaration.id : Declaration → String
  | var v => v.id
  | list l => l.id

/-- Whether what is declared is shown on the stage. -/
def Declaration.visible : Declaration → Bool
  | var v => v.visible
  | list l => l.visible

namespace Target

/-- The declarations of a target. -/
def declarations (t : Target) : List Declaration :=
  t.vars.map .var ++ t.lists.map .list

/-- Retaining data retains the declarations that are shown or used. -/
theorem mem_declarations_retain {t : Target} {used : List String} {d : Declaration} :
    d ∈ (t.retain used).declarations ↔ d ∈ t.declarations ∧ (d.visible = true ∨ d.id ∈ used) := by
  cases d <;> simp [declarations, retain, Declaration.visible, Declaration.id]

end Target

namespace Project

/-- **The targets in whose blocks the data of a target counts as used**, by the
place of the target: all of them for the stage, which comes first, and the
sprite alone for a sprite. -/
def scope (p : Project) : Nat → List Target
  | 0 => p.targets
  | i + 1 => p.sprites[i]?.toList

/-- Data is in scope in the target that declares it, and everywhere when the
stage does. -/
theorem mem_scope {p : Project} {i j : Nat} {user : Target} (huser : p.targets[j]? = some user)
    (hsees : i = 0 ∨ i = j) : user ∈ p.scope i := by
  rcases hsees with rfl | rfl
  · exact List.mem_of_getElem? huser
  · cases i with
    | zero => exact List.mem_of_getElem? huser
    | succ i => exact Option.mem_toList.mpr huser

/-- Pruning retains in every target what is named in its scope. -/
theorem getElem?_targets_prune {p : Project} {i : Nat} {t : Target} (h : p.targets[i]? = some t) :
    p.prune.targets[i]? = some (t.retain ((p.scope i).flatMap Target.references)) := by
  cases i with
  | zero =>
    cases h
    rfl
  | succ i =>
    have hsprite : p.sprites[i]? = some t := h
    show (p.sprites.map (fun s => s.retain s.references))[i]? = _
    rw [List.getElem?_map, hsprite, scope, hsprite]
    show some (t.retain t.references) = some (t.retain (t.references ++ []))
    rw [List.append_nil]

/-- **A declaration of a target is kept when it is shown or named in scope**,
and then only. -/
theorem mem_declarations_prune_iff {p : Project} {i : Nat} {t kept : Target} {d : Declaration}
    (ht : p.targets[i]? = some t) (hkept : p.prune.targets[i]? = some kept)
    (hd : d ∈ t.declarations) :
    d ∈ kept.declarations ↔ d.visible = true ∨ ∃ u ∈ p.scope i, u.Names d.id := by
  rw [getElem?_targets_prune ht] at hkept
  cases hkept
  rw [Target.mem_declarations_retain, List.mem_flatMap]
  simp only [hd, true_and, Target.mem_references_iff]

open Legacy in
/-- **The data that the scripts write is kept, unless it is written from
arguments only.** A reference that some target writes can be read in its legacy
scripts. When the target has the id in a slot, every declaration of the id that
is in scope there is kept, be it of the target or of the stage. When it has
not, the reference is passed on as an argument, and a declaration is kept
exactly when it is shown or when another target in its scope has the id in a
slot. -/
theorem written_data_kept_iff (p : Project) {i j : Nat} {user declarer : Target}
    (huser : p.targets[j]? = some user) (hdeclarer : p.targets[i]? = some declarer)
    (hsees : i = 0 ∨ i = j) {ref : DataRef} (h : WrittenBy user ref) :
    (∃ script ∈ emitScripts user, .text ref.name ∈ Token.partsAll script.statements)
      ∧ ∃ kept, p.prune.targets[i]? = some kept
        ∧ (user.Names ref.id →
            ∀ d ∈ declarer.declarations, d.id = ref.id → d ∈ kept.declarations)
        ∧ (¬ user.Names ref.id → user.Passes ref
            ∧ ∀ d ∈ declarer.declarations, d.id = ref.id →
              (d ∈ kept.declarations ↔ d.visible = true ∨ ∃ u ∈ p.scope i, u.Names ref.id)) := by
  have hkept := getElem?_targets_prune hdeclarer
  refine ⟨h.exists_mem_emitScripts, _, hkept, fun hnames d hd hid => ?_, fun hnames => ⟨?_, ?_⟩⟩
  · rw [mem_declarations_prune_iff hdeclarer hkept hd, hid]
    exact .inr ⟨user, mem_scope huser hsees, hnames⟩
  · exact h.names_or_passes.resolve_left hnames
  · intro d hd hid
    rw [mem_declarations_prune_iff hdeclarer hkept hd, hid]

/-- A stage with two hidden variables: a block sets the lives, and a call takes
the score as its argument. -/
def livesAndScore : Project :=
  { stage :=
      { name := "Stage"
        pose := none
        scripts :=
          [⟨0, 0,
            [{ id := "a", opcode := "data_setvariableto"
               inputs := [("VALUE", .text "3"), ("VARIABLE", .variableRef ⟨"l", "lives"⟩)] },
             { id := "b", opcode := "procedures_call"
               inputs := [("INPUTS", .arguments [.variableRef ⟨"s", "score"⟩])] }]⟩]
        vars :=
          [{ id := "l", name := "lives", value := .text "", visible := false },
           { id := "s", name := "score", value := .text "", visible := false }] } }

/-- The lives are written from a slot, so they are kept. -/
theorem livesAndScore_keeps_lives :
    Legacy.WrittenBy livesAndScore.stage ⟨"l", "lives"⟩ ∧ livesAndScore.stage.Names "l"
      ∧ ∃ kept, livesAndScore.prune.targets[0]? = some kept
        ∧ ∃ d ∈ kept.declarations, d.id = "l" := by
  have hwritten : Legacy.WrittenBy livesAndScore.stage ⟨"l", "lives"⟩ :=
    ⟨_, List.mem_cons_self, _, List.mem_cons_self, .block List.mem_cons_self (.variableRef _)⟩
  have hnames : livesAndScore.stage.Names "l" :=
    ⟨_, List.mem_cons_self, _, List.mem_cons_self, _, .self, "VARIABLE", ⟨"l", "lives"⟩,
      .inl (List.mem_cons_of_mem _ List.mem_cons_self), rfl⟩
  obtain ⟨_, kept, hkept, hslot, _⟩ :=
    written_data_kept_iff livesAndScore (i := 0) (j := 0) rfl rfl (.inl rfl) hwritten
  exact ⟨hwritten, hnames, kept, hkept, _, hslot hnames _ List.mem_cons_self rfl, rfl⟩

/-- **The score is dropped although it is written**, as it is written as an
argument only. -/
theorem argumentOnly_is_dropped :
    Legacy.WrittenBy livesAndScore.stage ⟨"s", "score"⟩
      ∧ (∃ d ∈ livesAndScore.stage.declarations, d.id = "s")
      ∧ ¬ ∃ d ∈ livesAndScore.prune.stage.declarations, d.id = "s" := by
  refine ⟨⟨_, List.mem_cons_self, _, List.mem_cons_of_mem _ List.mem_cons_self,
    .block List.mem_cons_self (.arguments List.mem_cons_self (.variableRef _))⟩,
    ⟨_, List.mem_cons_of_mem _ List.mem_cons_self, rfl⟩, ?_⟩
  have hdeclarations : livesAndScore.prune.stage.declarations.map Declaration.id = ["l"] := rfl
  rintro ⟨d, hd, hid⟩
  have hmem := List.mem_map_of_mem (f := Declaration.id) hd
  rw [hdeclarations, hid] at hmem
  exact absurd hmem (by decide)

end Project

end ScratchLegacy
