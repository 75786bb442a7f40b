import Mathlib.Data.Fintype.Card
import Mathlib.Data.Set.Finite.Basic
import ScratchLegacy.Proofs.SlotFilling

/-!
# When the scripts of a table fail

Rebuilding scripts walks an arbitrary graph, and what it meets there decides
whether it fails. `BlockTable.Flawed` lists the places it cannot get past: an
id without a record, a record without an opcode, a prototype without a
signature, and a block that is come to again from one of its own slots. A
cycle of `next` links alone is not among them, since a chain is cut where it
would repeat an id.

The walk ends (`BlockTable.Ends`) and fails exactly when a flawed place can be
come to from the head of a script, provided that no shadow is inlined into
itself. `BlockTable.scripts_fail_iff` puts this together; both halves go
through `BlockTable.Expands`, which leaves out what the blocks look like.
-/

namespace ScratchLegacy

open Relation

namespace BlockTable

variable {t : BlockTable}

/-- **The places that decoding cannot get past.** -/
inductive Flawed (t : BlockTable) : Place → Prop where
  /-- There is no record. -/
  | missing {p : Place} (absent : t.record? p.id = none) : Flawed t p
  /-- The record has no opcode. -/
  | opcode {p : Place} {record : BlockRecord} (found : t.record? p.id = some record)
      (absent : record.opcode? = none) : Flawed t p
  /-- The prototype has no procedure data. -/
  | mutation {id : String} {record : BlockRecord} (found : t.record? id = some record)
      (op : record.opcode? = some Opcode.prototype) (absent : record.mutation? = none) :
      Flawed t (.shadow id)
  /-- The procedure data of the prototype has no proccode. -/
  | proccode {id : String} {record : BlockRecord} {m : Mutation}
      (found : t.record? id = some record) (op : record.opcode? = some Opcode.prototype)
      (data : record.mutation? = some m) (absent : m.proccode? = none) : Flawed t (.shadow id)
  /-- The block is come to again from one of its own slots. -/
  | nested {id : String} {q : Place} (slot : t.SlotLink (.block id) q)
      (back : ReflTransGen t.Link q (.block id)) : Flawed t (.block id)

/-- **The decoding of a place ends** inside the blocks that are open: at once
when the block is open already, and otherwise when the decoding of everything
in its slots does. A chain in a slot is decoded block by block. -/
inductive Ends (t : BlockTable) : List String → Place → Prop where
  | reopened {opened : List String} {id : String} (mem : id ∈ opened) : Ends t opened (.block id)
  | block {opened : List String} {id : String}
      (chains : ∀ head, t.SlotLink (.block id) (.block head) → ∀ x ∈ t.follow head,
        Ends t (id :: opened) (.block x))
      (shadows : ∀ s, t.SlotLink (.block id) (.shadow s) → Ends t (id :: opened) (.shadow s)) :
      Ends t opened (.block id)
  | shadow {opened : List String} {id : String}
      (chains : ∀ head, t.SlotLink (.shadow id) (.block head) → ∀ x ∈ t.follow head,
        Ends t opened (.block x))
      (shadows : ∀ s, t.SlotLink (.shadow id) (.shadow s) → Ends t opened (.shadow s)) :
      Ends t opened (.shadow id)

/-! ## Decoding ends -/

/-- The places with slots have a record. -/
theorem SlotLink.exists_record {p q : Place} (h : t.SlotLink p q) :
    ∃ record, t.record? p.id = some record := by
  obtain ⟨_, record, _, _, hrecord, _⟩ := h
  exact ⟨record, hrecord⟩

/-- **Induction on inlining**: where no shadow is inlined into itself, what
holds of a shadow as soon as it holds of the shadows inlined into it holds of
all. -/
theorem ShadowsEnd.induction (hends : t.ShadowsEnd) {motive : String → Prop}
    (step : ∀ id, (∀ s, t.Inlines id s → motive s) → motive id) (id : String) : motive id := by
  -- the shadows that are inlined have records, and there are finitely many of these
  let below (a b : {id // id ∈ t.map Prod.fst}) : Prop := TransGen t.Inlines b.1 a.1
  have : IsTrans _ below := ⟨fun _ _ _ hab hbc => hbc.trans hab⟩
  have : Std.Irrefl below := ⟨fun a => hends a.1⟩
  have hfinite : Finite {id // id ∈ t.map Prod.fst} :=
    (List.finite_toSet _).to_subtype
  have hwf : WellFounded below := Finite.wellFounded_of_trans_of_irrefl below
  have hkeys : ∀ a : {id // id ∈ t.map Prod.fst}, motive a.1 := by
    intro a
    induction a using hwf.induction with
    | _ a ih =>
      refine step a.1 (fun s hs => ?_)
      obtain ⟨record, hrecord, _⟩ := hs.2.shadow
      exact ih ⟨s, mem_keys_of_record? hrecord⟩ (.single hs)
  refine step id (fun s hs => ?_)
  obtain ⟨record, hrecord, _⟩ := hs.2.shadow
  exact hkeys ⟨s, mem_keys_of_record? hrecord⟩

/-- Where the decoding of every block ends, so does that of the shadows. -/
theorem ends_shadow (hends : t.ShadowsEnd) {opened : List String}
    (hblocks : ∀ x, t.Ends opened (.block x)) (id : String) : t.Ends opened (.shadow id) :=
  hends.induction (motive := fun id => t.Ends opened (.shadow id))
    (fun _ ih => .shadow (fun _ _ x _ => hblocks x) ih) id

/-- **The decoding of every block ends.** The blocks that are open are
distinct ids of the table, so only so many can be open at once. -/
theorem ends_block (hends : t.ShadowsEnd) {room : Nat} {opened : List String}
    (hopened : t.Met room opened) (id : String) : t.Ends opened (.block id) := by
  induction room using Nat.strongRecOn generalizing opened id with
  | _ room ih =>
    by_cases hmem : id ∈ opened
    · exact .reopened hmem
    · have hinner : ∀ q, t.SlotLink (.block id) q → ∀ x, t.Ends (id :: opened) (.block x) := by
        intro q hq x
        obtain ⟨record, hrecord⟩ := hq.exists_record
        obtain ⟨rest, rfl, hmet⟩ := hopened.exists_room hmem hrecord
        exact ih rest (Nat.lt_succ_self rest) hmet x
      exact .block (fun head h x _ => hinner _ h x)
        (fun s h => ends_shadow hends (hinner _ h) s)

/-! ## Nothing flawed, no failure -/

/-- A prototype that is not flawed declares a signature. -/
theorem exists_signature_of_not_flawed {id : String} {record : BlockRecord}
    (found : t.record? id = some record) (op : record.opcode? = some Opcode.prototype)
    (h : ¬ t.Flawed (.shadow id)) : ∃ s, record.signature id = .ok s := by
  rw [BlockRecord.exists_signature_eq_ok_iff]
  cases hm : record.mutation? with
  | none => exact absurd (.mutation found op hm) h
  | some m =>
    cases hp : m.proccode? with
    | none => exact absurd (.proccode found op hm hp) h
    | some proccode => exact ⟨m, proccode, rfl, hp⟩

/-- **A slot of a place can be filled** when nothing flawed is come to by
slots, every chain that hangs from the place can be grown, and the slots of the
shadows inlined into it can be filled. -/
theorem feasible_slotSteps {grows : String → Prop} {p : Place} {record : BlockRecord}
    {inline : String → String → BlockRecord → List Step} {owner opcode : String}
    (found : t.record? p.id = some record) (op : record.opcode? = some opcode)
    (reads : t.ReadsSlots p) (hsound : ∀ q, t.SlotLink p q → ¬ t.Flawed q)
    (hgrows : ∀ statements head, t.Hangs p statements head → grows head)
    (hinline : ∀ id child childOpcode, t.SlotLink p (.shadow id) → t.record? id = some child →
      child.opcode? = some childOpcode → childOpcode ≠ Opcode.prototype →
      ∀ s ∈ inline id childOpcode child, s.Feasible grows) :
    ∀ entry ∈ record.slots, ∀ s ∈ t.slotSteps inline owner opcode entry, s.Feasible grows := by
  rintro ⟨slot, value⟩ hmem
  cases value with
  | literal parts => exact feasible_slotSteps_literal
  | child id =>
    have hlink : t.SlotLink p (t.childPlace id) := ⟨reads, record, slot, id, found, hmem, rfl⟩
    rw [feasible_slotSteps_child_iff]
    cases hchild : t.record? id with
    | none => exact absurd (.missing (by rw [id_childPlace, hchild])) (hsound _ hlink)
    | some child =>
      refine ⟨child, rfl, ?_⟩
      split
      · next hi =>
        rw [childPlace_of_inlined hchild hi] at hlink
        cases ho : child.opcode? with
        | none => exact absurd (.opcode hchild ho) (hsound _ hlink)
        | some childOpcode =>
          refine ⟨childOpcode, rfl, ?_⟩
          split
          · next hp => exact exists_signature_of_not_flawed hchild (hp ▸ ho) (hsound _ hlink)
          · next hp => exact hinline id child childOpcode hlink hchild ho hp
      · next hi => exact hgrows _ id (.slot found op reads hmem hchild hi)

/-- **The slots of a place can be filled** when nothing flawed is come to by
slots and every chain that hangs from it can be grown. Each shadow of the
trail has the next one inlined into it, so the trail is never what stops
it. -/
theorem feasible_steps (hends : t.ShadowsEnd) {grows : String → Prop} {p : Place}
    {record : BlockRecord} {room : Nat} {trail : List String} {owner opcode : String}
    (found : t.record? p.id = some record) (op : record.opcode? = some opcode)
    (reads : t.ReadsSlots p) (hmet : t.Met room trail)
    (htrail : ∀ a ∈ trail, ∀ s, t.SlotLink p (.shadow s) → TransGen t.Inlines a s)
    (hsound : ∀ q, TransGen t.SlotLink p q → ¬ t.Flawed q)
    (hgrows : ∀ statements head, t.Hangs p statements head → grows head) :
    ∀ s ∈ t.steps room trail owner opcode record, s.Feasible grows := by
  induction room using Nat.strongRecOn generalizing p record trail owner opcode with
  | _ room ih =>
    rw [steps_eq_flatMap, List.forall_mem_flatMap]
    refine feasible_slotSteps found op reads (fun q hq => hsound q (.single hq)) hgrows ?_
    intro id child childOpcode hlink hchild ho hp
    -- a shadow that is on the trail already would be inlined into itself
    have hnew : id ∉ trail := fun hmem => hends id (htrail id hmem id hlink)
    obtain ⟨rest, rfl, hmet'⟩ := hmet.exists_room hnew hchild
    have htrail' : ∀ a ∈ id :: trail, ∀ s, t.SlotLink (.shadow id) (.shadow s) →
        TransGen t.Inlines a s := by
      intro a ha s hlink'
      rcases List.mem_cons.mp ha with rfl | ha
      · exact .single hlink'
      · exact (htrail a ha id hlink).tail hlink'
    refine feasible_inlined_iff.mpr ⟨hnew, rest, rfl, ?_⟩
    exact ih rest (Nat.lt_succ_self rest) (p := .shadow id) hchild ho
      (readsSlots_shadow hchild ho hp) hmet' htrail' (fun q hq => hsound q (.head hlink hq))
      (fun statements head h => hgrows statements head (.shadow hlink h))

/-- A place that is not flawed has a record with an opcode. -/
theorem exists_opcode_of_not_flawed {p : Place} (h : ¬ t.Flawed p) :
    ∃ record opcode, t.record? p.id = some record ∧ record.opcode? = some opcode := by
  cases hrecord : t.record? p.id with
  | none => exact absurd (.missing hrecord) h
  | some record =>
    cases ho : record.opcode? with
    | none => exact absurd (.opcode hrecord ho) h
    | some opcode => exact ⟨record, opcode, rfl, ho⟩

/-- Blocks that are open inside one another can be come back to from a slot of
theirs, and so can every block that a slot of the last one leads to. -/
theorem nested_of_hangs {opened : List String} {id head x : String} {statements : Bool}
    (hopened : ∀ o ∈ opened, ∃ q, t.SlotLink (.block o) q ∧ ReflTransGen t.Link q (.block id))
    (hhangs : t.Hangs (.block id) statements head) (hx : x ∈ t.follow head) :
    ∀ o ∈ id :: opened, ∃ q, t.SlotLink (.block o) q ∧ ReflTransGen t.Link q (.block x) := by
  obtain ⟨q, hslot, hq⟩ := TransGen.head'_iff.mp hhangs.transGen
  have hqx : ReflTransGen t.Link q (.block x) :=
    (ReflTransGen.mono (fun _ _ h => .inr h) _ _ hq).trans (reflTransGen_link_of_mem_follow hx)
  intro o hmem
  rcases List.mem_cons.mp hmem with rfl | hmem
  · exact ⟨q, hslot, hqx⟩
  · obtain ⟨q', hslot', hback⟩ := hopened o hmem
    exact ⟨q', hslot', hback.trans (.head (.inr hslot) hqx)⟩

/-- **Where nothing flawed can be come to, a block can be expanded.** The
blocks that are open have this one in their slots, so an open block that is
come to again is flawed. -/
theorem expands_of_sound (hends : t.ShadowsEnd) {room : Nat} {opened : List String} {id : String}
    (hmet : t.Met room opened)
    (hopened : ∀ o ∈ opened, ∃ q, t.SlotLink (.block o) q ∧ ReflTransGen t.Link q (.block id))
    (hsound : ∀ p, ReflTransGen t.Link (.block id) p → ¬ t.Flawed p) :
    t.Expands room opened id := by
  induction room using Nat.strongRecOn generalizing opened id with
  | _ room ih =>
    have hself := hsound _ .refl
    -- a block that is open already would be come to again from one of its slots
    have hnew : id ∉ opened := by
      intro hmem
      obtain ⟨q, hslot, hback⟩ := hopened id hmem
      exact hself (.nested hslot hback)
    obtain ⟨record, opcode, hrecord, ho⟩ := exists_opcode_of_not_flawed hself
    obtain ⟨rest, rfl, hmet'⟩ := hmet.exists_room hnew hrecord
    have hslots : ∀ q, TransGen t.SlotLink (.block id) q → ¬ t.Flawed q := fun q hq =>
      hsound q (TransGen.mono (fun _ _ h => .inr h) _ _ hq).to_reflTransGen
    refine expands_succ_iff.mpr ⟨record, opcode, hrecord, hnew, ho, ?_⟩
    refine feasible_steps hends (p := .block id) hrecord ho trivial .nil
      (fun a ha => absurd ha List.not_mem_nil) hslots ?_
    intro statements head hhangs x hx
    have hopened' := nested_of_hangs hopened hhangs hx
    obtain ⟨q, hslot, hqx⟩ := hopened' id List.mem_cons_self
    exact ih rest (Nat.lt_succ_self rest) hmet' hopened'
      (fun p hp => hsound p ((ReflTransGen.head (.inr hslot) hqx).trans hp))

/-! ## No failure, nothing flawed -/

/-- **The places that decoding has got past** inside the blocks that are open:
a block in a chain all of whose blocks are expanded, a prototype with a
signature, and any other shadow whose slots are filled. -/
def Passed (t : BlockTable) (opened : List String) : Place → Prop
  | .block id => ∃ room head, id ∈ t.follow head ∧ ∀ x ∈ t.follow head, t.Expands room opened x
  | .shadow id => ∃ child opcode, t.record? id = some child ∧ child.opcode? = some opcode ∧
      if opcode = Opcode.prototype then ∃ signature, child.signature id = .ok signature
      else ∃ bound trail room, ∀ s ∈ t.steps bound trail id opcode child,
        s.Feasible (fun head => ∀ x ∈ t.follow head, t.Expands room opened x)

/-- A head is in its chain. -/
theorem head_mem_follow (head : String) : head ∈ t.follow head := mem_follow_iff.mpr .refl

/-- Where the slots of a place are filled, decoding has got past everything
that they name. -/
theorem passed_of_slotNames {opened trail : List String} {bound room : Nat} {p q : Place}
    {record : BlockRecord} {owner opcode : String} (found : t.record? p.id = some record)
    (h : ∀ s ∈ t.steps bound trail owner opcode record,
      s.Feasible (fun head => ∀ x ∈ t.follow head, t.Expands room opened x))
    (hnames : t.SlotNames p q) : t.Passed opened q := by
  obtain ⟨record', slot, id, found', hmem, rfl⟩ := hnames
  cases found.symm.trans found'
  rw [steps_eq_flatMap, List.forall_mem_flatMap] at h
  obtain ⟨child, hchild, hslot⟩ := feasible_slotSteps_child_iff.mp (h _ hmem)
  by_cases hi : child.isInlined
  · rw [childPlace_of_inlined hchild hi]
    rw [if_pos hi] at hslot
    obtain ⟨childOpcode, ho, hslot⟩ := hslot
    refine ⟨child, childOpcode, hchild, ho, ?_⟩
    by_cases hp : childOpcode = Opcode.prototype
    · rw [if_pos hp] at hslot ⊢
      exact hslot
    · rw [if_neg hp] at hslot ⊢
      obtain ⟨_, rest, _, hrest⟩ := feasible_inlined_iff.mp hslot
      exact ⟨rest, _, room, hrest⟩
  · rw [childPlace_of_not_inlined hchild hi]
    rw [if_neg hi] at hslot
    exact ⟨room, id, head_mem_follow id, hslot⟩

/-- A block that decoding has got past has a record with an opcode, is not
open, and has its slots filled inside itself. -/
theorem Passed.block {opened : List String} {id : String} (h : t.Passed opened (.block id)) :
    ∃ room record opcode, t.record? id = some record ∧ id ∉ opened ∧ record.opcode? = some opcode
      ∧ ∀ s ∈ t.steps t.length [] id opcode record,
        s.Feasible (fun head => ∀ x ∈ t.follow head, t.Expands room (id :: opened) x) := by
  obtain ⟨room, head, hmem, hchain⟩ := h
  cases room with
  | zero => exact absurd (hchain id hmem) not_expands_zero
  | succ room => exact ⟨room, expands_succ_iff.mp (hchain id hmem)⟩

/-- Decoding gets past what the slots of a block name while the block is
open. -/
theorem Passed.slot {opened : List String} {id : String} {q : Place}
    (h : t.Passed opened (.block id)) (hlink : t.SlotLink (.block id) q) :
    t.Passed (id :: opened) q := by
  obtain ⟨room, record, opcode, hrecord, _, _, hsteps⟩ := h.block
  exact passed_of_slotNames (p := .block id) hrecord hsteps hlink.2

/-- Decoding gets past what a place links to, with the same blocks open or
more. -/
theorem Passed.link {opened : List String} {p q : Place} (h : t.Passed opened p)
    (hlink : t.Link p q) : ∃ opened', opened ⊆ opened' ∧ t.Passed opened' q := by
  rcases hlink with hlink | hlink
  · cases hlink with
    | mk hnext =>
    obtain ⟨room, head, hmem, hchain⟩ := h
    exact ⟨opened, List.Subset.refl _, room, head,
      mem_follow_iff.mpr ((mem_follow_iff.mp hmem).tail hnext), hchain⟩
  · cases p with
    | block id => exact ⟨id :: opened, List.subset_cons_self _ _, h.slot hlink⟩
    | shadow id =>
      obtain ⟨child, opcode, hchild, ho, hslots⟩ := h
      have hp : opcode ≠ Opcode.prototype := fun hp => hlink.1 child hchild (hp ▸ ho)
      rw [if_neg hp] at hslots
      obtain ⟨bound, trail, room, hsteps⟩ := hslots
      exact ⟨opened, List.Subset.refl _,
        passed_of_slotNames (p := .shadow id) hchild hsteps hlink.2⟩

/-- Decoding gets past everything that can be come to. -/
theorem Passed.reflTransGen {opened : List String} {p q : Place} (h : t.Passed opened p)
    (hlinks : ReflTransGen t.Link p q) : ∃ opened', opened ⊆ opened' ∧ t.Passed opened' q := by
  induction hlinks with
  | refl => exact ⟨opened, List.Subset.refl _, h⟩
  | tail _ hlink ih =>
    obtain ⟨opened', hsub, h'⟩ := ih
    obtain ⟨opened'', hsub', h''⟩ := h'.link hlink
    exact ⟨opened'', List.Subset.trans hsub hsub', h''⟩

/-- **A place that decoding has got past is not flawed.** A block that is come
to again from its own slots would have been open then. -/
theorem Passed.not_flawed {opened : List String} {p : Place} (h : t.Passed opened p) :
    ¬ t.Flawed p := by
  have hrecord : ∃ record opcode, t.record? p.id = some record
      ∧ record.opcode? = some opcode := by
    cases p with
    | block id =>
      obtain ⟨_, record, opcode, hrecord, _, ho, _⟩ := h.block
      exact ⟨record, opcode, hrecord, ho⟩
    | shadow id =>
      obtain ⟨child, opcode, hchild, ho, _⟩ := h
      exact ⟨child, opcode, hchild, ho⟩
  obtain ⟨record, opcode, hrecord, ho⟩ := hrecord
  have hsignature : ∀ id, p = .shadow id → record.opcode? = some Opcode.prototype →
      ∃ m proccode, record.mutation? = some m ∧ m.proccode? = some proccode := by
    rintro id rfl hproto
    obtain ⟨child, opcode', hchild, ho', hslots⟩ := h
    cases hchild.symm.trans hrecord
    rw [if_pos (Option.some.inj (ho'.symm.trans hproto))] at hslots
    exact BlockRecord.exists_signature_eq_ok_iff.mp hslots
  -- each kind of flaw lacks something that decoding has read
  intro hflawed
  cases hflawed with
  | missing absent =>
    rw [hrecord] at absent
    cases absent
  | opcode found absent =>
    cases hrecord.symm.trans found
    rw [ho] at absent
    cases absent
  | mutation found op absent =>
    cases hrecord.symm.trans found
    obtain ⟨m, _, hm, _⟩ := hsignature _ rfl op
    rw [hm] at absent
    cases absent
  | proccode found op data absent =>
    cases hrecord.symm.trans found
    obtain ⟨m, _, hm, hproccode⟩ := hsignature _ rfl op
    cases hm.symm.trans data
    rw [hproccode] at absent
    cases absent
  | nested slot back =>
    -- on the way back the block itself is open, and what is open stays so
    obtain ⟨opened', hsub, h'⟩ := (h.slot slot).reflTransGen back
    obtain ⟨_, _, _, _, hnew, _⟩ := h'.block
    exact hnew (hsub List.mem_cons_self)

/-! ## Scripts -/

/-- The scripts of a table can be rebuilt exactly when every block of their
chains can be expanded. -/
theorem exists_scripts_eq_ok_iff :
    (∃ scripts, t.scripts = .ok scripts)
      ↔ ∀ e ∈ t, e.2.isHead → ∀ x ∈ t.follow e.1, t.Expands t.length [] x := by
  unfold scripts
  rw [exists_mapM_eq_ok_iff]
  simp only [List.mem_filter, and_imp]
  refine forall_congr' fun e => forall_congr' fun _ => forall_congr' fun _ => ?_
  have hchain : (∃ blocks, t.chain e.1 = .ok blocks)
      ↔ ∀ x ∈ t.follow e.1, t.Expands t.length [] x := exists_mapM_eq_ok_iff
  rw [← hchain]
  cases t.chain e.1 <;> simp

/-- **The scripts of a table fail exactly when a flawed place can be come to**
from the head of one of them, provided that no shadow is inlined into itself.
In any case the decoding of every script ends, and a chain that is rebuilt is
cut where it would come to an id that it has met: a cycle of `next` links
alone fails nothing. -/
theorem scripts_fail_iff (t : BlockTable) (hends : t.ShadowsEnd) :
    (∀ e ∈ t, e.2.isHead → ∀ x ∈ t.follow e.1, t.Ends [] (.block x))
      ∧ ((∃ error, t.scripts = .error error) ↔
        ∃ e ∈ t, e.2.isHead ∧ ∃ p, ReflTransGen t.Link (.block e.1) p ∧ t.Flawed p)
      ∧ ∀ head blocks, t.chain head = .ok blocks →
        t.Chained [] head (blocks.map Block.id) := by
  refine ⟨fun e _ _ x _ => ends_block hends .nil x, ?_,
    fun head blocks h => chained_of_chainWithin h⟩
  have hfail : (∃ error, t.scripts = .error error) ↔ ¬ ∃ scripts, t.scripts = .ok scripts := by
    cases t.scripts <;> simp
  rw [hfail, exists_scripts_eq_ok_iff]
  constructor
  · intro h
    by_contra hsound
    -- without a flaw to come to, every block of every chain is expanded
    refine h (fun e he hhead x hx => ?_)
    refine expands_of_sound hends .nil (fun o ho => absurd ho List.not_mem_nil)
      (fun p hp hflawed => hsound ?_)
    exact ⟨e, he, hhead, p, (reflTransGen_link_of_mem_follow hx).trans hp, hflawed⟩
  · rintro ⟨e, he, hhead, p, hp, hflawed⟩ hexpands
    have hpassed : t.Passed [] (.block e.1) :=
      ⟨t.length, e.1, head_mem_follow e.1, hexpands e he hhead⟩
    obtain ⟨opened, _, hpassed'⟩ := hpassed.reflTransGen hp
    exact hpassed'.not_flawed hflawed

/-! ### A loop with a gap, and a gap that nothing comes to -/

/-- Two blocks below each other, the second of which has a slot for a menu
that is inlined and one that names no record. -/
def loopWithGap : BlockTable :=
  [("a", { plainRecord "looks_show" with next? := some "b", isTopLevel := true }),
   ("b", { plainRecord "motion_goto" with
            next? := some "a"
            slots := [("TO", .child "menu"), ("X", .child "gone")] }),
   ("menu", { plainRecord "motion_goto_menu" with isShadow := true })]

/-- Its script fails, by the gap and not by the loop. -/
theorem loopWithGap_fails :
    loopWithGap.ShadowsEnd ∧ ∃ error, loopWithGap.scripts = .error error := by
  have hends : loopWithGap.ShadowsEnd := shadowsEnd_of_slots_isEmpty (by decide)
  refine ⟨hends, (scripts_fail_iff loopWithGap hends).2.1.mpr ?_⟩
  have hnext : loopWithGap.Link (.block "a") (.block "b") := .inl (.mk rfl)
  have hslot : loopWithGap.Link (.block "b") (.block "gone") :=
    .inr ⟨trivial, _, "X", "gone", rfl, by simp, rfl⟩
  refine ⟨_, List.mem_cons_self, rfl, .block "gone", ?_, .missing rfl⟩
  exact .tail (.single hnext) hslot

/-- A definition whose prototype has a slot that names no record. -/
def danglingPrototype : BlockTable :=
  [("d", { plainRecord "procedures_definition" with
            isTopLevel := true
            slots := [("custom_block", .child "p")] }),
   ("p", { plainRecord "procedures_prototype" with
            isShadow := true
            slots := [("a", .child "gone")]
            mutation? := some ⟨some "jump", [], [], [], false⟩ })]

/-- **The slots of a prototype do not count**: no shadow is inlined into
itself here, and a missing record is come to when the slots of the prototype
are followed as well, but the script does not fail. -/
theorem danglingPrototype_does_not_fail :
    (∀ id, ¬ TransGen (fun a b => danglingPrototype.SlotNames (.shadow a) (.shadow b)) id id)
      ∧ (∃ e ∈ danglingPrototype, e.2.isHead ∧ ∃ p,
          ReflTransGen (fun p q => danglingPrototype.NextLink p q ∨ danglingPrototype.SlotNames p q)
            (.block e.1) p
            ∧ danglingPrototype.record? p.id = none)
      ∧ ¬ ∃ error, danglingPrototype.scripts = .error error := by
  refine ⟨?_, ?_, ?_⟩
  · intro id hcycle
    obtain ⟨_, hfirst, _⟩ := TransGen.head'_iff.mp hcycle
    obtain ⟨_, _, hlast⟩ := TransGen.tail'_iff.mp hcycle
    obtain ⟨child, hchild, hi⟩ := hlast.shadow
    obtain ⟨record, slot, named, hrecord, hmem, hnamed⟩ := hfirst
    cases hchild.symm.trans hrecord
    rcases List.mem_cons.mp (mem_of_record? hchild) with heq | hrest
    · cases heq
      cases hi
    · cases List.mem_singleton.mp hrest
      cases List.mem_singleton.mp hmem
      cases hnamed
  · have hcustom : danglingPrototype.SlotNames (.block "d") (.shadow "p") :=
      ⟨_, "custom_block", "p", rfl, List.mem_cons_self, rfl⟩
    have hgone : danglingPrototype.SlotNames (.shadow "p") (.block "gone") :=
      ⟨_, "a", "gone", rfl, List.mem_cons_self, rfl⟩
    exact ⟨_, List.mem_cons_self, rfl, .block "gone",
      .tail (.single (.inr hcustom)) (.inr hgone), rfl⟩
  · rintro ⟨error, herror⟩
    cases herror

end BlockTable

end ScratchLegacy
