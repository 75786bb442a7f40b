import Mathlib.Data.List.Find
import ScratchLegacy.Proofs.LiveData
import ScratchLegacy.Proofs.SlotFilling
import ScratchLegacy.Document

/-!
# Documents that differ in their block tables

Of what a document says about a target, the block table has an effect on the scripts and
on nothing else, and the scripts are all that comes from the table
(`Target.scripts_of_ofJson`, `Target.ofJson_of_agreesBut`). So two documents that differ
in nothing but their block tables have projects that differ in nothing but their scripts.

`Project.exists_of_tables` says this of a whole document, for any relation between the
targets: its targets are compared in the order in which the project has them, the stage
first (`stageFirst`). Dead data is dropped in both projects alike when their scripts name
the same data (`Project.Beside.prune`).
-/

namespace ScratchLegacy

/-- **Values with the same parts**, but for those under some keys. -/
def Json.AgreesBut (keys : List String) (v v' : Json) : Prop :=
  ∀ key ∉ keys, v'.get? key = v.get? key

/-- Values that agree do so either way. -/
theorem Json.AgreesBut.symm {keys : List String} {v v' : Json} (h : AgreesBut keys v v') :
    AgreesBut keys v' v := fun key hkey => (h key hkey).symm

/-- The block table of a target. -/
def BlockTable.ofTarget (target : Json) : BlockTable :=
  ofEntries (Json.entries (target.get? "blocks"))

namespace Target

variable {fetch : Fetcher} {arrange : Arrangement} {monitors : List Json} {v v' : Json}
  {t : Target}

/-- The scripts of a target are those of its table. -/
theorem scripts_of_ofJson (h : ofJson fetch arrange monitors v = .ok t) :
    (BlockTable.ofTarget v).scripts = .ok t.scripts := by
  unfold ofJson at h
  split at h
  · cases h
  · split at h
    · cases h
    · split at h
      · cases h
      · next scripts hscripts =>
        cases h
        exact hscripts

/-- A target that differs in its table is a stage when the other one is. -/
theorem isStage_of_agreesBut (hagree : Json.AgreesBut ["blocks"] v v') : isStage v' = isStage v := by
  unfold isStage Json.flag
  rw [hagree "isStage" (by decide)]

/-- **A target that differs in its table differs in its scripts.** -/
theorem ofJson_of_agreesBut (hagree : Json.AgreesBut ["blocks"] v v')
    (h : ofJson fetch arrange monitors v = .ok t) {scripts : List Script}
    (hscripts : (BlockTable.ofTarget v').scripts = .ok scripts) :
    ofJson fetch arrange monitors v' = .ok { t with scripts := scripts } := by
  have hold := scripts_of_ofJson h
  unfold BlockTable.ofTarget at hold hscripts
  have hkey : ∀ key, key ≠ "blocks" → v'.get? key = v.get? key :=
    fun key hne => hagree key (by simpa using hne)
  have hpose : Pose.ofJson v' = Pose.ofJson v := by
    simp (disch := decide) only [Pose.ofJson, Json.flag, Json.floatOr, hkey]
  have hvolume : v'.floatOr "volume" 100 = v.floatOr "volume" 100 := by
    rw [Json.floatOr, Json.floatOr, hkey "volume" (by decide)]
  unfold ofJson at h ⊢
  rw [hscripts, hpose, hvolume, isStage_of_agreesBut hagree, hkey "name" (by decide),
    hkey "costumes" (by decide), hkey "sounds" (by decide), hkey "variables" (by decide),
    hkey "lists" (by decide), hkey "currentCostume" (by decide), hkey "layerOrder" (by decide)]
  rw [hold] at h
  cases hname : (v.get? "name").bind Json.asText? with
  | none =>
    rw [hname] at h
    cases h
  | some name =>
    rw [hname] at h
    dsimp only at h ⊢
    split at h
    · cases h
    · exact congrArg (fun t => Except.ok { t with scripts := scripts }) (Except.ok.inj h)

end Target

/-! ## Whole documents -/

/-- **The targets of a document in the order of the project**: the first stage, then
all that are no stage. The values of a list stand for targets. -/
def stageFirst {α : Type} (isStage : α → Bool) (values : List α) : List α :=
  (values.find? isStage).toList ++ values.filter (fun v => !isStage v)

/-- **Targets that differ in nothing but their scripts**, which are related. -/
structure Target.Beside (R : List Script → List Script → Prop) (t t' : Target) : Prop where
  scripts : R t.scripts t'.scripts
  rest : t' = { t with scripts := t'.scripts }

/-- **Projects whose targets differ in nothing but their scripts**, which are related,
target by target, by what some values say. -/
structure Project.Beside {α : Type} (R : α → List Script → List Script → Prop) (values : List α)
    (p p' : Project) : Prop where
  length : p'.sprites.length = p.sprites.length
  targets : List.Forall₂ (fun a tt => Target.Beside (R a) tt.1 tt.2) values
    (p.targets.zip p'.targets)
  rest : p' = { p with stage := p'.stage, sprites := p'.sprites }

namespace Project

variable {fetch : Fetcher} {arrange : Arrangement} {document : Json}

/-- **What makes up a project**: the stage, the sprites, and the parts that the stage has
for the whole project. -/
theorem ofDocumentUnpruned_eq_ok_iff {p : Project} :
    ofDocumentUnpruned fetch arrange document = .ok p ↔
      ∃ targets stage, (document.get? "targets").bind Json.asArray? = some targets
        ∧ targets.find? isStage = some stage
        ∧ Target.ofJson fetch arrange (Json.items (document.get? "monitors")) stage = .ok p.stage
        ∧ List.Forall₂ (fun v t =>
            Target.ofJson fetch arrange (Json.items (document.get? "monitors")) v = .ok t)
          (targets.filter (fun v => !isStage v)) p.sprites
        ∧ p.tempo = stage.floatOr "tempo" 60
        ∧ p.videoOn = decide ((stage.get? "videoState").bind Json.asText? = some "on")
        ∧ p.videoTransparency = stage.floatOr "videoTransparency" 50 := by
  unfold ofDocumentUnpruned
  constructor
  · intro h
    split at h
    · cases h
    · next targets htargets =>
      dsimp only at h
      split at h
      · cases h
      · next stage hstage =>
        obtain ⟨first, hfirst, h⟩ := bind_eq_ok_iff.mp h
        obtain ⟨rest, hrest, h⟩ := bind_eq_ok_iff.mp h
        cases h
        exact ⟨targets, stage, htargets, hstage, hfirst, mapM_eq_ok_iff.mp hrest, rfl, rfl, rfl⟩
  · rintro ⟨targets, stage, htargets, hstage, hfirst, hrest, htempo, hvideo, htransparency⟩
    obtain ⟨first, rest, tempo, videoOn, videoTransparency⟩ := p
    simp only at hfirst hrest htempo hvideo htransparency
    subst htempo hvideo htransparency
    simp only [htargets, hstage]
    exact bind_eq_ok_iff.mpr ⟨first, hfirst, bind_eq_ok_iff.mpr ⟨rest, mapM_eq_ok_iff.mpr hrest, rfl⟩⟩

/-- A document without targets is no project. -/
theorem ofDocumentUnpruned_of_none (h : (document.get? "targets").bind Json.asArray? = none)
    (p : Project) : ofDocumentUnpruned fetch arrange document ≠ .ok p := by
  intro hp
  obtain ⟨targets, _, htargets, _⟩ := ofDocumentUnpruned_eq_ok_iff.mp hp
  cases h.symm.trans htargets

section Related

variable {α : Type} {values : List α} {src dst : α → Json}
  {R : α → List Script → List Script → Prop}

/-- **Where the scripts of the tables are related, so are the projects.** -/
theorem exists_of_tables {document' : Json} (hrest : Json.AgreesBut ["targets"] document document')
    (hsrc : (document.get? "targets").bind Json.asArray? = some (values.map src))
    (hdst : (document'.get? "targets").bind Json.asArray? = some (values.map dst))
    (hagree : ∀ a ∈ values, Json.AgreesBut ["blocks"] (src a) (dst a))
    (hscripts : ∀ a ∈ values, ∀ scripts, (BlockTable.ofTarget (src a)).scripts = .ok scripts →
      ∃ scripts', (BlockTable.ofTarget (dst a)).scripts = .ok scripts' ∧ R a scripts scripts')
    {p : Project} (h : ofDocumentUnpruned fetch arrange document = .ok p) :
    ∃ p', ofDocumentUnpruned fetch arrange document' = .ok p'
      ∧ Beside R (stageFirst (fun a => isStage (src a)) values) p p' := by
  obtain ⟨targets, stage, htargets, hstage, hfirst, hsprites, htempo, hvideo, htransparency⟩ :=
    ofDocumentUnpruned_eq_ok_iff.mp h
  cases hsrc.symm.trans htargets
  have hmonitors : document'.get? "monitors" = document.get? "monitors" := hrest _ (by decide)
  -- what is a stage in one document is one in the other
  have hsame : ∀ a ∈ values, (isStage ∘ dst) a = (isStage ∘ src) a :=
    fun a ha => Target.isStage_of_agreesBut (hagree a ha)
  have hnot : ∀ a ∈ values, ((fun v => !isStage v) ∘ dst) a = ((fun v => !isStage v) ∘ src) a :=
    fun a ha => congrArg (!·) (hsame a ha)
  rw [List.find?_map, Option.map_eq_some_iff] at hstage
  obtain ⟨first, hfound, rfl⟩ := hstage
  rw [List.filter_map, List.forall₂_map_left_iff] at hsprites
  have htarget : ∀ a ∈ values, ∀ t,
      Target.ofJson fetch arrange (Json.items (document.get? "monitors")) (src a) = .ok t →
        ∃ t', Target.ofJson fetch arrange (Json.items (document'.get? "monitors")) (dst a) = .ok t'
          ∧ Target.Beside (R a) t t' := by
    intro a ha t ht
    obtain ⟨scripts', hscripts', hR⟩ := hscripts a ha _ (Target.scripts_of_ofJson ht)
    rw [hmonitors]
    exact ⟨_, Target.ofJson_of_agreesBut (hagree a ha) ht hscripts', hR, rfl⟩
  have hfirstMem : first ∈ values := List.mem_of_find?_eq_some hfound
  obtain ⟨stage', hstage', hbeside⟩ := htarget first hfirstMem p.stage hfirst
  obtain ⟨sprites', hsprites', hlength, hall⟩ := exists_forall₂_zip hsprites
    (fun a ha => htarget a (List.mem_filter.mp ha).1)
  refine ⟨{ p with stage := stage', sprites := sprites' }, ?_, hlength, ?_, rfl⟩
  · refine ofDocumentUnpruned_eq_ok_iff.mpr ⟨_, dst first, hdst, ?_, hstage', ?_, ?_⟩
    · rw [List.find?_map, List.find?_congr hsame, hfound]
      rfl
    · rw [List.filter_map, List.filter_congr hnot, List.forall₂_map_left_iff]
      exact hsprites'
    · have hkey : ∀ key, key ≠ "blocks" → (dst first).get? key = (src first).get? key :=
        fun key hne => hagree first hfirstMem key (by simpa using hne)
      simp (disch := decide) only [Json.floatOr, hkey] at htempo hvideo htransparency ⊢
      exact ⟨htempo, hvideo, htransparency⟩
  · have hfirst' : values.find? (fun a => isStage (src a)) = some first := hfound
    rw [stageFirst, hfirst']
    exact .cons hbeside hall

end Related

end Project

/-! ## Dead data -/

/-- Targets that differ in their scripts keep the same data for the same ids. -/
theorem Target.Beside.retain {R : List Script → List Script → Prop}
    {t t' : Target} (h : Target.Beside R t t') {used used' : List String}
    (hused : ∀ id, id ∈ used' ↔ id ∈ used) : Target.Beside R (t.retain used) (t'.retain used') := by
  refine ⟨h.scripts, ?_⟩
  have hcontains : ∀ id, used'.contains id = used.contains id := by
    intro id
    simp only [List.contains_eq_mem, hused]
  rw [h.rest]
  simp only [Target.retain, hcontains]

namespace Project

section Beside

variable {α : Type} {values : List α} {R : α → List Script → List Script → Prop} {p p' : Project}

/-- The targets differ in nothing but their scripts, one by one. -/
theorem Beside.forall₂ (h : Beside R values p p') :
    List.Forall₂ (fun t t' => ∃ a ∈ values, Target.Beside (R a) t t') p.targets p'.targets := by
  refine List.forall₂_iff_zip.mpr ⟨congrArg (· + 1) h.length.symm, fun htt => ?_⟩
  exact exists_of_mem_right h.targets htt

/-- **Projects whose scripts name the same data keep the same data.** -/
theorem Beside.prune (h : Beside R values p p')
    (hnames : ∀ a, ∀ t t' : Target, Target.Beside (R a) t t' →
      ∀ id, id ∈ t'.references ↔ id ∈ t.references) :
    Beside R values p.prune p'.prune := by
  have hall : ∀ {ts ts' : List Target},
      List.Forall₂ (fun t t' => ∃ a ∈ values, Target.Beside (R a) t t') ts ts' →
        ∀ id, id ∈ ts'.flatMap Target.references ↔ id ∈ ts.flatMap Target.references := by
    intro ts ts' htargets id
    induction htargets with
    | nil => rfl
    | cons htt _ ih =>
      obtain ⟨a, -, htt⟩ := htt
      rw [List.flatMap_cons, List.flatMap_cons, List.mem_append, List.mem_append, ih,
        hnames a _ _ htt]
  have hreferences : ∀ id, id ∈ p'.references ↔ id ∈ p.references := hall h.forall₂
  obtain ⟨a, rest, hstage, hsprites, rfl⟩ := List.forall₂_cons_right_iff.mp h.targets
  refine ⟨?_, .cons (hstage.retain hreferences) ?_, ?_⟩
  · simpa [Project.prune] using h.length
  · show List.Forall₂ _ _ ((p.sprites.map (fun s => s.retain s.references)).zip
      (p'.sprites.map (fun s => s.retain s.references)))
    rw [List.zip_map, List.forall₂_map_right_iff]
    exact hsprites.imp (fun a tt htt => htt.retain (hnames a _ _ htt))
  · rw [h.rest]
    rfl

end Beside

end Project

end ScratchLegacy
