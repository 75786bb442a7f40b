import ScratchLegacy.Proofs.BlockIds
import ScratchLegacy.Proofs.EmissionRules

/-!
# The names of index variables

The translation looks at the id of a block in one place only, the item number of a
list, and there it becomes part of the name of an index variable. So when blocks have
other ids, these names change with the ids and nothing else does.

`Legacy.related_emitScripts_mapIds` says this for every relation of tokens that the
operations preserve and that relates the old names to the new ones (`Legacy.Renaming`).
Equality is one when the item numbers keep their ids, and then the scripts are
translated as before (`Legacy.emitScripts_mapIds_of_itemNumber`). In general
`Token.Renamed` is one, which says what can be different in a token.
-/

namespace ScratchLegacy

namespace Legacy

/-- **Scripts whose statements are related.** -/
structure Script.Related (R : Token → Token → Prop) (s s' : Script) : Prop where
  x : s'.x = s.x
  y : s'.y = s.y
  statements : List.Forall₂ R s.statements s'.statements

/-- **Results that are related**, with what comes before them and beside them. -/
structure Emitted.Related {α : Type} (R : Token → Token → Prop) (Q : α → α → Prop)
    (e e' : Emitted α) : Prop where
  value : Q e.value e'.value
  before : List.Forall₂ R e.before e'.before
  helpers : List.Forall₂ (Script.Related R) e.helpers e'.helpers

/-- **Readings that are related**, in either mode. -/
structure Reading.Parallel (R : Token → Token → Prop) (r r' : Reading) : Prop where
  expression : r.expression.Related R R r'.expression
  body : r.body.Related R R r'.body
  arguments : List.Forall₂ (Emitted.Related R R) (r.arguments.getD []) (r'.arguments.getD [])

namespace Emitted.Related

variable {R : Token → Token → Prop} {es es' : List (Emitted Token)}

/-- A literal is related to whatever it is related to as a token. -/
theorem of_value {α : Type} {Q : α → α → Prop} {v v' : α} (h : Q v v') :
    Related R Q ⟨v, [], []⟩ ⟨v', [], []⟩ := ⟨h, .nil, .nil⟩

/-- A change of related results. -/
theorem map {α β : Type} {Q : α → α → Prop} {P : β → β → Prop} {f f' : α → β}
    {e e' : Emitted α} (h : Related R Q e e') (hf : ∀ a a', Q a a' → P (f a) (f' a')) :
    Related R P (e.map f) (e'.map f') := ⟨hf _ _ h.value, h.before, h.helpers⟩

/-- Several related results as one. -/
theorem all (h : List.Forall₂ (Related R R) es es') :
    Related R (List.Forall₂ R) (Emitted.all es) (Emitted.all es') where
  value := List.rel_map (fun _ _ he => he.value) h
  before := List.rel_flatMap h (fun _ _ he => he.before)
  helpers := List.rel_flatMap h (fun _ _ he => he.helpers)

/-- **A stack of related statements.** -/
theorem stack (h : List.Forall₂ (Related R R) es es') :
    Related R (List.Forall₂ R) (Emitted.stack es) (Emitted.stack es') where
  value := List.rel_flatMap h (fun _ _ he => List.rel_append he.before (.cons he.value .nil))
  before := .nil
  helpers := List.rel_flatMap h (fun _ _ he => he.helpers)

end Emitted.Related

/-- **A relation of tokens for other names of index variables**: the operations
preserve it, and the names of an index variable and of its hidden procedure are related
to the new ones. -/
structure Renaming (f : String → String) (R : Token → Token → Prop) : Prop extends
    Congruence R where
  list : ∀ ts us, List.Forall₂ R ts us → R (.list ts) (.list us)
  stack : ∀ ts us, List.Forall₂ R ts us → R (.stack ts) (.stack us)
  index : ∀ id, R (.text (indexVariable id)) (.text (indexVariable (f id)))
  procedure : ∀ id, R (.text (indexSpec id)) (.text (indexSpec (f id)))

section Renaming

variable {f : String → String} {R : Token → Token → Prop} (hR : Renaming f R)

include hR

/-- The same literals are related. -/
theorem Renaming.same (t : Token) : Reading.Parallel R (.same ⟨t, [], []⟩) (.same ⟨t, [], []⟩) :=
  ⟨.of_value (hR.refl t), .of_value (hR.refl t), .nil⟩

/-- **Hidden procedures of related parts are related.** -/
theorem related_indexProcedure (id : String) {list list' item item' : Token}
    (hlist : R list list') (hitem : R item item') :
    Script.Related R (indexProcedure id list item) (indexProcedure (f id) list' item') := by
  have hname := hR.index id
  have hindex : R (.op "readVariable" [.text (indexVariable id)])
      (.op "readVariable" [.text (indexVariable (f id))]) := hR.op _ _ _ (.cons hname .nil)
  have hentry := hR.op "getLine:ofList:" _ _ (.cons hindex (.cons hlist .nil))
  have hlength := hR.op "lineCountOfList:" _ _ (.cons hlist .nil)
  have hfound := hR.op "=" _ _ (.cons hentry (.cons hitem .nil))
  have hbehind := hR.op ">" _ _ (.cons hindex (.cons hlength .nil))
  have hcount := hR.op "changeVar:by:" _ _ (.cons hname (.cons (hR.refl (.nat 1)) .nil))
  refine ⟨rfl, rfl, .cons ?_ (.cons ?_ (.cons ?_ .nil))⟩
  · exact hR.op _ _ _ (.cons (hR.procedure id) (List.forall₂_same.mpr (fun t _ => hR.refl t)))
  · exact hR.op _ _ _ (.cons hname (.cons (hR.refl _) .nil))
  · exact hR.op _ _ _ (.cons (hR.op _ _ _ (.cons hfound (.cons hbehind .nil)))
      (.cons (hR.stack _ _ (.cons hcount .nil)) .nil))

/-- **Item numbers of related parts are related.** -/
theorem related_emitItemNumber (id : String) {list list' item item' : Emitted Token}
    (hlist : list.Related R R list') (hitem : item.Related R R item') :
    Emitted.Related R R (emitItemNumber id list item) (emitItemNumber (f id) list' item') where
  value := hR.op _ _ _ (.cons (hR.index id) .nil)
  before := List.rel_append (List.rel_append hlist.before hitem.before)
    (.cons (hR.op _ _ _ (.cons (hR.procedure id) .nil)) .nil)
  helpers := List.rel_append (List.rel_append hlist.helpers hitem.helpers)
    (.cons (related_indexProcedure hR id hlist.value hitem.value) .nil)

end Renaming

section Ids

variable {g : String → String → String}

/-- A block that is no item number is translated without its id. -/
theorem emitBlockOf_mapIds (specOf : String → String) {b : Block}
    (h : b.opcode ≠ Opcode.itemNumber) (readings : List (String × Reading)) :
    emitBlockOf specOf (b.mapIds g) readings = emitBlockOf specOf b readings := by
  have hshown : ∀ slot, shownText (b.mapIds g) slot = shownText b slot := by
    intro slot
    simp only [shownText, Block.input?_mapIds, Option.bind_map, Function.comp_def,
      Input.shownText?_mapIds]
  unfold emitBlockOf
  simp only [Block.opcode_mapIds, Block.signature_mapIds, Block.proccode?_mapIds, hshown]
  split <;> first | rfl | exact absurd ‹_› h

variable {R : Token → Token → Prop} (hR : Renaming (g Opcode.itemNumber) R)
  (specOf : String → String)

include hR

/-- **The token of a block with other ids is related to its token**, when the readings of
its slots are. -/
theorem related_emitBlockOf (b : Block) {readings readings' : List (String × Reading)}
    (h : ∀ slot, (slotReading readings slot).Parallel R (slotReading readings' slot)) :
    Emitted.Related R R (emitBlockOf specOf b readings)
      (emitBlockOf specOf (b.mapIds g) readings') := by
  cases rule_of_block specOf b with
  | constant token _ notItemNumber _ _ emit =>
    rw [emitBlockOf_mapIds specOf notItemNumber, emit, emit]
    exact .of_value (hR.refl token)
  | layers forward opcode emit =>
    rw [emitBlockOf_mapIds specOf (by rw [opcode]; decide), emit, emit]
    refine (h "NUM").expression.map (fun t t' ht => hR.op _ _ _ (.cons ?_ .nil))
    cases forward
    · exact ht
    · exact hR.backward _ _ ht
  | itemNumber opcode emit =>
    have hnew : emitBlockOf specOf (b.mapIds g) readings'
        = emitItemNumber (g b.opcode b.id) (slotReading readings' "LIST").expression
          (slotReading readings' "ITEM").expression := by
      have hopcode : b.opcode = "data_itemnumoflist" := opcode
      simp only [emitBlockOf, Block.opcode_mapIds, hopcode, Block.id_mapIds]
    rw [emit, hnew, opcode]
    exact related_emitItemNumber hR b.id (h "LIST").expression (h "ITEM").expression
  | call spec opcode emit =>
    rw [emitBlockOf_mapIds specOf (by rw [opcode]; decide), emit, emit]
    exact (Emitted.Related.all (h "INPUTS").arguments).map
      (fun ts ts' hts => hR.op _ _ _ (.cons (hR.refl _) hts))
  | form form _ _ notItemNumber _ emit =>
    rw [emitBlockOf_mapIds specOf notItemNumber, emit, emit]
    refine (Emitted.Related.all ?_).map (fun ts ts' hts => hR.op _ _ _ hts)
    rw [List.forall₂_map_left_iff, List.forall₂_map_right_iff, List.forall₂_same]
    intro a _
    cases a with
    | slot name => exact (h name).expression
    | body name => exact (h name).body
    | word text => exact .of_value (hR.refl _)

/-- **The translation of a tree with other ids is related to that of the tree.** -/
theorem related_emitBlock (b : Block) :
    Emitted.Related R R (emitBlock specOf b) (emitBlock specOf (b.mapIds g)) := by
  refine Block.Hereditary.forall_block
    (P := fun b => Emitted.Related R R (emitBlock specOf b) (emitBlock specOf (b.mapIds g)))
    (Q := fun input => (readInput specOf input).Parallel R (readInput specOf (input.mapIds g))) ?_ b
  refine ⟨fun b ih => ?_, fun input hflat => ?_, fun b ih => ?_, fun blocks ih => ?_,
    fun values ih => ?_⟩
  · rw [emitBlock_eq, emitBlock_eq]
    refine related_emitBlockOf hR specOf b (fun slot => ?_)
    rw [slotReading_map, slotReading_map, Block.input?_mapIds]
    cases hinput : b.input? slot with
    | none => exact hR.same _
    | some input => exact ih _ (SlotMap.mem_of_find? hinput)
  · rw [Input.mapIds_of_isFlat g hflat]
    cases input with
    | block _ | stack _ | arguments _ => exact hflat.elim
    | _ => exact hR.same _
  · refine ⟨ih, (Emitted.Related.stack (.cons ih .nil)).map hR.stack, .nil⟩
  · have hblocks : List.Forall₂ (Emitted.Related R R) (emitAll specOf blocks)
        (emitAll specOf (mapStackIds g blocks)) := by
      rw [emitAll_eq_map, emitAll_eq_map, mapStackIds_eq_map, List.map_map,
        List.forall₂_map_left_iff, List.forall₂_map_right_iff, List.forall₂_same]
      exact ih
    have hstack := (Emitted.Related.stack hblocks).map hR.stack
    exact ⟨hstack, hstack, .nil⟩
  · have hvalues : List.Forall₂ (Emitted.Related R R) (expressions specOf values)
        (expressions specOf (mapArgumentIds g values)) := by
      rw [expressions_eq_map, expressions_eq_map, mapArgumentIds_eq_map, List.map_map,
        List.forall₂_map_left_iff, List.forall₂_map_right_iff, List.forall₂_same]
      exact fun v hv => (ih v hv).expression
    have hlist := (Emitted.Related.all hvalues).map hR.list
    exact ⟨hlist, hlist, hvalues⟩

/-- A script with other ids, and the procedures it needs. -/
theorem related_emitScript (s : ScratchLegacy.Script) :
    List.Forall₂ (Script.Related R) (emitScript specOf s) (emitScript specOf (s.mapIds g)) := by
  have hstack : Emitted.Related R (List.Forall₂ R) (Emitted.stack (emitAll specOf s.blocks))
      (Emitted.stack (emitAll specOf (s.blocks.map (Block.mapIds g)))) := by
    refine Emitted.Related.stack ?_
    rw [emitAll_eq_map, emitAll_eq_map, List.map_map, List.forall₂_map_left_iff,
      List.forall₂_map_right_iff, List.forall₂_same]
    exact fun b _ => related_emitBlock hR specOf b
  exact .cons ⟨rfl, rfl, hstack.value⟩ hstack.helpers

omit specOf in
/-- **The scripts of a target with other ids are related to its scripts.** -/
theorem related_emitScripts_mapIds (t : Target) :
    List.Forall₂ (Script.Related R) (emitScripts t) (emitScripts (t.mapIds g)) := by
  have hspec : specOf (t.mapIds g) = specOf t := by
    funext proccode
    simp only [specOf, Target.definition?_mapIds, Option.bind_map, Function.comp_def,
      Block.signature_mapIds]
  rw [emitScripts, emitScripts, hspec]
  refine List.rel_flatMap (R := fun s s' => s' = s.mapIds g) ?_ ?_
  · rw [Target.mapIds, List.forall₂_map_right_iff, List.forall₂_same]
    exact fun _ _ => rfl
  · rintro s _ rfl
    exact related_emitScript hR (specOf t) s

end Ids

/-! ## Two renamings -/

/-- Scripts of the same statements are the same. -/
theorem Script.eq_of_related {s s' : Script} (h : Script.Related Eq s s') : s = s' := by
  obtain ⟨x, y, statements⟩ := s
  obtain ⟨x', y', statements'⟩ := s'
  obtain ⟨rfl, rfl, hstatements⟩ := h
  cases eq_of_forall₂ hstatements
  rfl

/-- Equality is a renaming that leaves the names alone. -/
theorem renaming_eq : Renaming id Eq where
  refl _ := rfl
  op _ _ _ h := eq_of_forall₂ h ▸ rfl
  backward _ _ h := h ▸ rfl
  list _ _ h := eq_of_forall₂ h ▸ rfl
  stack _ _ h := eq_of_forall₂ h ▸ rfl
  index _ := rfl
  procedure _ := rfl

/-- **Where the item numbers keep their ids**, the scripts are translated as
before. -/
theorem emitScripts_mapIds_of_itemNumber {g : String → String → String}
    (h : ∀ id, g Opcode.itemNumber id = id) (t : Target) :
    emitScripts (t.mapIds g) = emitScripts t := by
  have hsame : g Opcode.itemNumber = id := funext h
  have hrelated := related_emitScripts_mapIds (g := g) (hsame ▸ renaming_eq) t
  exact (eq_of_forall₂ (hrelated.imp (fun _ _ => Script.eq_of_related))).symm

/-- **Tokens that are the same but for names of index variables**: where one has the
name for an id, or that of the hidden procedure, the other may have the name for
the new id. -/
inductive Token.Renamed (f : String → String) : Token → Token → Prop where
  | same (t : Token) : Renamed f t t
  | index (id : String) :
      Renamed f (.text (indexVariable id)) (.text (indexVariable (f id)))
  | procedure (id : String) : Renamed f (.text (indexSpec id)) (.text (indexSpec (f id)))
  | list {ts us : List Token} (items : List.Forall₂ (Renamed f) ts us) :
      Renamed f (.list ts) (.list us)
  | stack {ts us : List Token} (statements : List.Forall₂ (Renamed f) ts us) :
      Renamed f (.stack ts) (.stack us)
  | op (name : String) {ts us : List Token} (arguments : List.Forall₂ (Renamed f) ts us) :
      Renamed f (.op name ts) (.op name us)

/-- The operations change no more names than their parts. -/
theorem renaming_renamed (f : String → String) : Renaming f (Token.Renamed f) where
  refl := .same
  op name _ _ h := .op name h
  list _ _ h := .list h
  stack _ _ h := .stack h
  index := .index
  procedure := .procedure
  backward t u h := by
    cases h with
    | same => exact .same _
    | index id => exact .op _ (.cons (.same _) (.cons (.index id) .nil))
    | procedure id => exact .op _ (.cons (.same _) (.cons (.procedure id) .nil))
    | list items => exact .op _ (.cons (.same _) (.cons (.list items) .nil))
    | stack statements => exact .op _ (.cons (.same _) (.cons (.stack statements) .nil))
    | op name arguments => exact .op _ (.cons (.same _) (.cons (.op name arguments) .nil))

/-- **The item numbers of a target have other ids**, and so their names change. -/
theorem renamed_emitScripts (f : String → String) (t : Target) :
    List.Forall₂ (Script.Related (Token.Renamed f)) (emitScripts t)
      (emitScripts (t.renameItemNumbers f)) := by
  refine related_emitScripts_mapIds (g := fun opcode id => if opcode = Opcode.itemNumber then
    f id else id) ?_ t
  simp only [if_true]
  exact renaming_renamed f

/-- **Scripts that are the same but for the ids of blocks** are translated as if only the
item numbers had other ids. -/
theorem emitScripts_of_renames {f : String → String} {t t' : Target}
    (h : List.Forall₂ (ScratchLegacy.Script.Renames f) t.scripts t'.scripts) :
    emitScripts t' = emitScripts (t.renameItemNumbers f) := by
  have hkept : ∀ id, keptIds Opcode.itemNumber id = id := fun _ => rfl
  rw [← emitScripts_mapIds_of_itemNumber hkept t',
    ← emitScripts_mapIds_of_itemNumber hkept (t.renameItemNumbers f)]
  unfold emitScripts specOf Target.definition?
  rw [Target.mapIds_keptIds_of_renames h]

end Legacy

end ScratchLegacy
