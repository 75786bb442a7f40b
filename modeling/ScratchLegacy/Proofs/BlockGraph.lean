import Mathlib.Logic.Relation
import ScratchLegacy.ScriptTree

/-!
# The graph of a block table

The ids of a table are the nodes of a graph, whose edges are the `next` links
and the slots. A record can be come to in two ways: as a *block* of a chain,
or as a *shadow* that is inlined into the block owning the slot. A `Place` is
an id with the way in which it was come to, for the two go on differently: a
shadow has no `next` link, and the slots of an inlined prototype are not read
at all.

The chain of an id is what its `next` links lead to. `BlockTable.Chained` says
it step by step, with the ids met so far, and `BlockTable.chained_follow` says
that `follow` lists it: the number that bounds the recursion is never what
ends it.
-/

namespace ScratchLegacy

/-- **A place that decoding comes to.** -/
inductive Place where
  /-- The record of an id, as a block of a chain. -/
  | block (id : String)
  /-- The record of an id, as a shadow inlined into its owner. -/
  | shadow (id : String)
deriving DecidableEq

/-- The id of a place. -/
def Place.id : Place → String
  | block id | shadow id => id

@[simp] theorem Place.id_block (id : String) : (block id).id = id := rfl

@[simp] theorem Place.id_shadow (id : String) : (shadow id).id = id := rfl

namespace BlockTable

variable {t : BlockTable}

/-- **The place that a slot leads to** when it names a child: a shadow with
nothing below it is inlined, everything else begins a chain. An id without a
record begins a chain as well, and fails there. -/
def childPlace (t : BlockTable) (child : String) : Place :=
  match t.record? child with
  | some record => if record.isInlined then .shadow child else .block child
  | none => .block child

/-- **The `next` links**, between ids. -/
def Next (t : BlockTable) (a b : String) : Prop := (t.record? a).bind BlockRecord.next? = some b

/-- **The `next` links**, between the places of a chain. -/
inductive NextLink (t : BlockTable) : Place → Place → Prop where
  | mk {a b : String} (next : t.Next a b) : NextLink t (.block a) (.block b)

/-- **The slots of a place name another place.** -/
def SlotNames (t : BlockTable) (p q : Place) : Prop :=
  ∃ record slot child, t.record? p.id = some record ∧ (slot, SlotValue.child child) ∈ record.slots
    ∧ q = t.childPlace child

/-- Whether the slots of a place are read: those of an inlined prototype are
not, since all it contributes is a signature. -/
def ReadsSlots (t : BlockTable) : Place → Prop
  | .block _ => True
  | .shadow id => ∀ record, t.record? id = some record → record.opcode? ≠ some Opcode.prototype

/-- **The slots that decoding follows.** -/
def SlotLink (t : BlockTable) (p q : Place) : Prop := t.ReadsSlots p ∧ t.SlotNames p q

/-- **The edges of the graph.** -/
def Link (t : BlockTable) (p q : Place) : Prop := t.NextLink p q ∨ t.SlotLink p q

/-- **A shadow inlined into a shadow.** -/
def Inlines (t : BlockTable) (a b : String) : Prop := t.SlotLink (.shadow a) (.shadow b)

/-- **No shadow is inlined into itself**, directly or through others. -/
def ShadowsEnd (t : BlockTable) : Prop := ∀ id, ¬ Relation.TransGen t.Inlines id id

/-- **A chain hangs from a place**: the chain of this head fills a slot of the
place, or of a shadow that is inlined into it. The truth value says whether
the slot is one for statements. -/
inductive Hangs (t : BlockTable) : Place → Bool → String → Prop where
  /-- The slot is one of the place itself. -/
  | slot {p : Place} {record child : BlockRecord} {opcode slot head : String}
      (found : t.record? p.id = some record) (op : record.opcode? = some opcode)
      (reads : t.ReadsSlots p) (mem : (slot, SlotValue.child head) ∈ record.slots)
      (named : t.record? head = some child) (notInlined : ¬ child.isInlined) :
      Hangs t p (Opcode.isStatementSlot opcode slot) head
  /-- The slot is one of an inlined shadow. -/
  | shadow {p : Place} {id head : String} {statements : Bool}
      (link : t.SlotLink p (.shadow id)) (hangs : Hangs t (.shadow id) statements head) :
      Hangs t p statements head

/-- A record with nothing but an opcode, which small tables are built from. -/
def plainRecord (opcode : String) : BlockRecord :=
  { opcode? := some opcode, next? := none, isShadow := false, isTopLevel := false, x := 0, y := 0
    slots := [], fields := [], mutation? := none }

/-! ## Places -/

theorem childPlace_of_inlined {child : String} {record : BlockRecord}
    (h : t.record? child = some record) (hi : record.isInlined) :
    t.childPlace child = .shadow child := by
  rw [childPlace, h]
  exact if_pos hi

theorem childPlace_of_not_inlined {child : String} {record : BlockRecord}
    (h : t.record? child = some record) (hi : ¬ record.isInlined) :
    t.childPlace child = .block child := by
  rw [childPlace, h]
  exact if_neg hi

/-- A child is come to under its own id. -/
@[simp] theorem id_childPlace (child : String) : (t.childPlace child).id = child := by
  unfold childPlace
  split
  · split <;> rfl
  · rfl

/-- A place that a slot names as a shadow has a record that is inlined. -/
theorem SlotNames.shadow {p : Place} {id : String} (h : t.SlotNames p (.shadow id)) :
    ∃ child, t.record? id = some child ∧ child.isInlined := by
  obtain ⟨_, _, child, _, _, heq⟩ := h
  have hid : id = child := by simpa using congrArg Place.id heq
  subst hid
  unfold childPlace at heq
  split at heq
  · next record hrecord =>
    split at heq
    · next hi => exact ⟨record, hrecord, hi⟩
    · cases heq
  · cases heq

/-- A place that is named is named by its id, in one of the slots. -/
theorem SlotNames.exists_mem {p q : Place} (h : t.SlotNames p q) :
    ∃ record slot, t.record? p.id = some record ∧ (slot, SlotValue.child q.id) ∈ record.slots := by
  obtain ⟨record, slot, child, hrecord, hmem, rfl⟩ := h
  rw [id_childPlace]
  exact ⟨record, slot, hrecord, hmem⟩

/-- The slots of a shadow that is no prototype are read. -/
theorem readsSlots_shadow {id opcode : String} {record : BlockRecord}
    (found : t.record? id = some record) (op : record.opcode? = some opcode)
    (h : opcode ≠ Opcode.prototype) : t.ReadsSlots (.shadow id) := by
  intro record' found'
  cases found.symm.trans found'
  rw [op]
  exact fun heq => h (Option.some.inj heq)

/-- A record that is found under an id is in the table. -/
theorem mem_of_record? {id : String} {record : BlockRecord} (h : t.record? id = some record) :
    (id, record) ∈ t :=
  Entries.mem_of_find? h

/-- An id with a record is one of the ids of the table. -/
theorem mem_keys_of_record? {id : String} {record : BlockRecord}
    (h : t.record? id = some record) : id ∈ t.map Prod.fst :=
  List.mem_map_of_mem (mem_of_record? h)

/-- **Where the shadows that are inlined have no slots of their own**, as
those of menus, none is inlined into itself. -/
theorem shadowsEnd_of_slots_isEmpty (h : ∀ e ∈ t, e.2.isInlined → e.2.slots.isEmpty) :
    t.ShadowsEnd := by
  intro id hcycle
  obtain ⟨_, _, hlast⟩ := Relation.TransGen.tail'_iff.mp hcycle
  obtain ⟨_, hfirst, _⟩ := Relation.TransGen.head'_iff.mp hcycle
  obtain ⟨child, hchild, hi⟩ := hlast.2.shadow
  obtain ⟨_, record, slot, named, hrecord, hmem, _⟩ := hfirst
  cases hchild.symm.trans hrecord
  have hempty := h _ (mem_of_record? hchild) hi
  rw [List.isEmpty_iff.mp hempty] at hmem
  cases hmem

/-- Chains hang only from places whose slots are read. -/
theorem Hangs.readsSlots {p : Place} {statements : Bool} {head : String}
    (h : t.Hangs p statements head) : t.ReadsSlots p := by
  cases h with
  | slot _ _ reads _ _ _ => exact reads
  | shadow link _ => exact link.1

/-- A chain that hangs from a place is come to by slots. -/
theorem Hangs.transGen {p : Place} {statements : Bool} {head : String}
    (h : t.Hangs p statements head) : Relation.TransGen t.SlotLink p (.block head) := by
  induction h with
  | slot found _ reads mem named notInlined =>
    refine .single ⟨reads, _, _, _, found, mem, ?_⟩
    exact (childPlace_of_not_inlined named notInlined).symm
  | shadow link _ ih => exact .head link ih

/-! ## Ids that were met -/

/-- **The ids that a recursion is inside of**, and the number that bounds it:
distinct ids of the table, with room for all the others. -/
structure Met (t : BlockTable) (room : Nat) (ids : List String) : Prop where
  enough : t.length ≤ room + ids.length
  nodup : ids.Nodup
  keys : ids ⊆ t.map Prod.fst

/-- At the beginning nothing was met, and there is room for the table. -/
theorem Met.nil : t.Met t.length [] :=
  ⟨Nat.le_add_right _ _, List.nodup_nil, List.nil_subset _⟩

/-- **There is always room for a record that is new**: the number never ends a
recursion. -/
theorem Met.exists_room {room : Nat} {ids : List String} {id : String} {record : BlockRecord}
    (h : t.Met room ids) (new : id ∉ ids) (found : t.record? id = some record) :
    ∃ rest, room = rest + 1 ∧ t.Met rest (id :: ids) := by
  have hnodup : (id :: ids).Nodup := List.nodup_cons.mpr ⟨new, h.nodup⟩
  have hkeys : id :: ids ⊆ t.map Prod.fst :=
    List.cons_subset.mpr ⟨mem_keys_of_record? found, h.keys⟩
  have hle := List.Nodup.length_le_of_subset hnodup hkeys
  have henough := h.enough
  rw [List.length_cons, List.length_map] at hle
  cases room with
  | zero => omega
  | succ rest =>
    refine ⟨rest, rfl, ?_, hnodup, hkeys⟩
    rw [List.length_cons]
    omega

/-! ## Chains -/

/-- **The chain of an id**, given the ids met before: it ends before an id
that was met, and behind an id that has no next one. -/
inductive Chained (t : BlockTable) : List String → String → List String → Prop where
  | again {met : List String} {id : String} (mem : id ∈ met) : Chained t met id []
  | last {met : List String} {id : String} (new : id ∉ met) (stop : ∀ next, ¬ t.Next id next) :
      Chained t met id [id]
  | next {met rest : List String} {id next : String} (new : id ∉ met) (link : t.Next id next)
      (chained : Chained t (id :: met) next rest) : Chained t met id (id :: rest)

/-- The ids listed are the chain. -/
theorem chained_followFrom {room : Nat} {met : List String} {id : String} (h : t.Met room met) :
    t.Chained met id (t.followFrom (room + 1) met id) := by
  induction room using Nat.strongRecOn generalizing met id with
  | _ room ih =>
    unfold followFrom
    split
    · next hmem => exact .again hmem
    · next hnew =>
      split
      · next next hnext =>
        obtain ⟨record, hrecord, _⟩ := Option.bind_eq_some_iff.mp hnext
        obtain ⟨rest, rfl, hmet⟩ := h.exists_room hnew hrecord
        exact .next hnew hnext (ih rest (Nat.lt_succ_self rest) hmet)
      · next hnone =>
        refine .last hnew (fun next hnext => ?_)
        rw [Next, hnone] at hnext
        cases hnext

/-- **The ids that are followed are the chain of the head.** -/
theorem chained_follow (t : BlockTable) (head : String) : t.Chained [] head (t.follow head) :=
  chained_followFrom .nil

namespace Chained

variable {met ids : List String} {id : String}

/-- The ids of a chain are linked to its head. -/
theorem reflTransGen (h : t.Chained met id ids) {x : String} (hx : x ∈ ids) :
    Relation.ReflTransGen t.Next id x := by
  induction h with
  | again _ => exact absurd hx List.not_mem_nil
  | last _ _ =>
    rw [List.mem_singleton.mp hx]
  | next _ link _ ih =>
    rcases List.mem_cons.mp hx with rfl | hx
    · exact .refl
    · exact .head link (ih hx)

/-- The head of a chain is in it, unless it was met before. -/
theorem head_mem (h : t.Chained met id ids) : id ∈ ids ∨ id ∈ met := by
  cases h with
  | again mem => exact .inr mem
  | last _ _ => exact .inl List.mem_cons_self
  | next _ _ _ => exact .inl List.mem_cons_self

/-- What a chain links to is in the chain, unless it was met before. -/
theorem mem_of_next (h : t.Chained met id ids) {x y : String} (hx : x ∈ ids)
    (hxy : t.Next x y) : y ∈ ids ∨ y ∈ met := by
  induction h with
  | again _ => exact absurd hx List.not_mem_nil
  | last _ stop =>
    rw [List.mem_singleton.mp hx] at hxy
    exact absurd hxy (stop y)
  | next _ link chained ih =>
    -- a link back to the id itself stays within the chain that begins with it
    have htail : ∀ {rest met : List String} {id : String}, y ∈ rest ∨ y ∈ id :: met →
        y ∈ id :: rest ∨ y ∈ met := by
      intro rest met id hy
      rcases hy with hy | hy
      · exact .inl (List.mem_cons_of_mem _ hy)
      · rcases List.mem_cons.mp hy with rfl | hy
        · exact .inl List.mem_cons_self
        · exact .inr hy
    rcases List.mem_cons.mp hx with rfl | hx
    · have hy := Option.some.inj (link.symm.trans hxy)
      exact htail (hy ▸ chained.head_mem)
    · exact htail (ih hx)

end Chained

/-- **The chain of a head is what its `next` links lead to.** -/
theorem mem_follow_iff {head x : String} :
    x ∈ t.follow head ↔ Relation.ReflTransGen t.Next head x := by
  have hchain := chained_follow t head
  refine ⟨fun hx => hchain.reflTransGen hx, fun h => ?_⟩
  induction h with
  | refl => exact hchain.head_mem.resolve_right List.not_mem_nil
  | tail _ hlink ih => exact (hchain.mem_of_next ih hlink).resolve_right List.not_mem_nil

/-- The ids of a chain are linked to its head in the graph. -/
theorem reflTransGen_link_of_mem_follow {head x : String} (h : x ∈ t.follow head) :
    Relation.ReflTransGen t.Link (.block head) (.block x) := by
  have hlift : ∀ a b, t.Next a b → t.Link (.block a) (.block b) :=
    fun _ _ hlink => .inl (.mk hlink)
  exact Relation.ReflTransGen.lift Place.block hlift _ _ (mem_follow_iff.mp h)

end BlockTable

end ScratchLegacy
