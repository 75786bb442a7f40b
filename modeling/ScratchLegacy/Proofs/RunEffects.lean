import ScratchLegacy.CommandLine.Run
import ScratchLegacy.Proofs.FileChanges
import ScratchLegacy.Proofs.FileNames

/-!
# What a run changes

A run writes at most three files and makes the directories of one of them.
`Touches` is that statement for a part of a run. It holds of a sequence when
it holds of the members, wherever the sequence ends, so a failure at any
stage needs no case of its own.

The input is among the three files only where a path that is given for one of
them leads to it, or where the path of the archive is made from that of the
input and is the same (`run_touches_outputs_only`). An input that has the
legacy extension already is replaced by its own conversion
(`input_replaced`).
-/

namespace ScratchLegacy

/-! ## The bytes of an archive -/

/-- Where each step only adds bytes, so does a run of them. -/
theorem prefix_foldl {σ ε : Type} {step : σ → ε → σ} (bytes : σ → List UInt8)
    (hstep : ∀ s e, bytes s <+: bytes (step s e)) (entries : List ε) (s : σ) :
    bytes s <+: bytes (entries.foldl step s) := by
  induction entries generalizing s with
  | nil => exact List.prefix_rfl
  | cons e entries ih => exact (hstep s e).trans (ih (step s e))

/-- **An archive begins with its first entry.** -/
theorem Archive.Zip.entryBytes_prefix_write (packing : Archive.Packing) (name : String)
    (content : ByteArray) (rest : List (String × ByteArray)) :
    (PackedEntry.of packing name content).entryBytes.data.toList
      <+: (write packing ((name, content) :: rest)).data.toList := by
  unfold write
  simp only [ByteArray.toList_data_append, List.append_assoc, List.foldl_cons]
  refine List.IsPrefix.trans ?_ (List.prefix_append _ _)
  refine List.IsPrefix.trans ?_ (prefix_foldl
    (fun s : ByteArray × ByteArray => s.1.data.toList) ?_ rest _)
  · simp
  · intro s e
    simp

/-- The packing of the first entry stands behind eight bytes of its header. -/
theorem Archive.Zip.getElem?_write (packing : Archive.Packing) {name : String}
    (content : ByteArray) (rest : List (String × ByteArray)) (h : isDirectory name = false) :
    (write packing ((name, content) :: rest)).data.toList[8]? = some packing.code.toUInt8 := by
  obtain ⟨tail, htail⟩ := entryBytes_prefix_write packing name content rest
  rw [← htail]
  simp [PackedEntry.entryBytes, fields, PackedEntry.commonFields, LittleEndian.bytes,
    PackedEntry.of, h]

/-- **A byte of the checksum without the table**: what is looked up is the remainder that
the table has at that place. -/
theorem Archive.Crc32.step_table (c : UInt32) (byte : UInt8) :
    step table c byte = tableEntry ((c ^^^ byte.toUInt32) &&& 0xff) ^^^ (c >>> 8) := by
  have hplace : ((c ^^^ byte.toUInt32) &&& 0xff).toNat < 256 := by
    rw [UInt32.toNat_and]
    exact Nat.lt_of_le_of_lt Nat.and_le_right (by decide)
  rw [step, table, Array.getD_eq_getD_getElem?, Array.getElem?_map, Array.getElem?_range,
    if_pos hplace]
  show tableEntry (UInt32.ofNat _) ^^^ _ = _
  rw [UInt32.ofNat_toNat]

/-- **The checksum without the table**, which is many times the work of a short content. -/
theorem Archive.Crc32.checksum_eq_foldl (bytes : ByteArray) :
    checksum bytes
      = bytes.foldl (fun c byte => tableEntry ((c ^^^ byte.toUInt32) &&& 0xff) ^^^ (c >>> 8))
          0xffffffff ^^^ 0xffffffff := by
  have hstep := funext fun c => funext (step_table c)
  show bytes.foldl (step table) 0xffffffff ^^^ 0xffffffff = _
  rw [hstep]

namespace CommandLine

/-! ## Parts of a run -/

/-- A sequence goes on where its first part has a result. -/
theorem run_bind {α β : Type} (part : RunT (StateM Workspace) α)
    (rest : α → RunT (StateM Workspace) β) (w : Workspace) :
    ((part >>= rest).run w : Except Failure β × Workspace)
      = match (part.run w : Except Failure α × Workspace) with
        | (.ok a, between) => (rest a).run between
        | (.error failure, between) => (.error failure, between) := by
  have hrun : (part >>= rest).run w
      = (ExceptT.bindCont rest (part.run w).1 : StateM Workspace _) (part.run w).2 := rfl
  rw [hrun]
  rcases part.run w with ⟨failure | a, between⟩ <;> rfl

/-- **A part of a run changes files at these paths only**, and makes
directories at those only, however it ends. -/
def Touches (files directories : String → Prop) {α : Type} (part : RunT (StateM Workspace) α) :
    Prop :=
  ∀ w, FileTree.ChangesOnly files directories w.tree (part.run w).2.tree

namespace Touches

variable {files directories : String → Prop} {α β : Type}

theorem pure (a : α) : Touches files directories (Pure.pure a) :=
  fun w => .refl w.tree

theorem throw (failure : Failure) :
    Touches files directories (MonadExcept.throw failure : RunT (StateM Workspace) α) :=
  fun w => .refl w.tree

/-- **Parts one after the other.** -/
theorem bind {part : RunT (StateM Workspace) α} {rest : α → RunT (StateM Workspace) β}
    (hpart : Touches files directories part) (hrest : ∀ a, Touches files directories (rest a)) :
    Touches files directories (part >>= rest) := by
  intro w
  have hfirst := hpart w
  rw [run_bind]
  rcases hresult : part.run w with ⟨failure | a, between⟩
  · rw [hresult] at hfirst
    exact hfirst
  · rw [hresult] at hfirst
    exact hfirst.trans (hrest a between)

/-- An effect on the disk. -/
theorem lift {effect : StateM Workspace α}
    (h : ∀ w, FileTree.ChangesOnly files directories w.tree (effect w).2.tree) :
    Touches files directories (effect : RunT (StateM Workspace) α) := h

/-- What is known already changes nothing. -/
theorem of_result (result : Except Failure α) :
    Touches files directories (ExceptT.mk (Pure.pure result)) :=
  fun w => .refl w.tree

theorem announce (p : Progress) : Touches files directories (announce p) :=
  fun w => .refl w.tree

theorem required {failure : Failure} {result : StateM Workspace (Option α)}
    (h : ∀ w, FileTree.ChangesOnly files directories w.tree (result w).2.tree) :
    Touches files directories (required failure result) := by
  refine bind (lift h) fun found => ?_
  cases found with
  | none => exact throw failure
  | some a => exact pure a

theorem succeeding {failure : Failure} {effect : StateM Workspace Bool}
    (h : ∀ w, FileTree.ChangesOnly files directories w.tree (effect w).2.tree) :
    Touches files directories (succeeding failure effect) := by
  refine bind (lift h) fun worked => ?_
  cases worked with
  | false => exact throw failure
  | true => exact pure ()

theorem forM_option {a : Option α} {body : α → RunT (StateM Workspace) Unit}
    (h : ∀ x ∈ a, Touches files directories (body x)) :
    Touches files directories (a.forM body) := by
  cases a with
  | none => exact pure ()
  | some a => exact h a rfl

theorem forM_list {l : List α} {body : α → RunT (StateM Workspace) Unit}
    (h : ∀ x ∈ l, Touches files directories (body x)) :
    Touches files directories (l.forM body) := by
  induction l with
  | nil => exact pure ()
  | cons a l ih =>
    exact bind (h a List.mem_cons_self) fun _ => ih fun x hx => h x (List.mem_cons_of_mem a hx)

/-! ### The stages -/

/-- **Writing a file** touches its path. -/
theorem writeFile {path : String} (bytes : ByteArray) (hp : files path) :
    Touches files directories (writeFile path bytes) := by
  refine succeeding fun w => ?_
  change FileTree.ChangesOnly _ _ w.tree (w.write path bytes).2.tree
  unfold Workspace.write
  split
  · exact .refl w.tree
  · rename_i hwrite
    exact FileTree.changesOnly_write? hwrite hp

theorem readProject (path full : String) : Touches files directories (readProject path full) :=
  bind (required fun w => .refl w.tree) fun _ => bind (of_result _) fun _ => of_result _

theorem readOptions (a : Arguments) : Touches files directories (readOptions a) := by
  unfold CommandLine.readOptions
  split
  · exact pure _
  · exact bind (required fun w => .refl w.tree) fun _ => pure _

theorem emitProject {path : String} (stage : Progress) (project : Project) (hp : files path) :
    Touches files directories (emitProject stage path project) :=
  bind (announce stage) fun _ => writeFile _ hp

theorem emitDocument {path : String} (stage : Progress) (options : Legacy.Options)
    (project : Project) (hp : files path) :
    Touches files directories (emitDocument stage path options project) :=
  bind (announce stage) fun _ => writeFile _ hp

/-- **Writing the archive** touches its path and its directories. -/
theorem emitArchive {path : String} (stage : Progress) (options : Legacy.Options)
    (project : Project) (hp : files path)
    (hd : ∀ directory, Path.IsIn path directory → directories directory) :
    Touches files directories (emitArchive stage path options project) := by
  refine bind (announce stage) fun _ => bind (forM_list fun p _ => announce _) fun _ => ?_
  cases hparent : Path.parent? path with
  | none => exact writeFile _ hp
  | some directory =>
    refine bind (succeeding fun w => ?_) fun _ => writeFile _ hp
    exact FileTree.changesOnly_makeDirectories w.tree directory (hd directory (.single hparent))
      fun d h => hd d (.head hparent h)

end Touches

/-! ## The outputs -/

/-- **The paths that a run writes.** -/
def Arguments.outputs (a : Arguments) : List String :=
  a.emitIr.toList ++ a.emitJson.toList ++ a.archivePath?.toList

/-- The paths that are given for what a run writes. -/
def Arguments.givenOutputs (a : Arguments) : List String :=
  a.output.toList ++ a.emitIr.toList ++ a.emitJson.toList

/-- Whether a path is a directory of the archive. -/
def Arguments.IsArchiveDirectory (a : Arguments) (directory : String) : Prop :=
  ∃ path ∈ a.archivePath?, Path.IsIn path directory

/-- **A run touches its outputs only.** -/
theorem touches_run (a : Arguments) :
    Touches (· ∈ a.outputs) a.IsArchiveDirectory (run a) := by
  unfold run
  refine .bind (.announce _) fun _ => .bind (.required fun w => .refl w.tree) fun full => ?_
  refine .bind (.announce _) fun _ => .bind (.readProject _ _) fun project => ?_
  refine .bind (.forM_option fun path hp => .emitProject _ _ ?_) fun _ => ?_
  · simp_all [Arguments.outputs]
  refine .bind (.readOptions a) fun options => ?_
  refine .bind (.forM_option fun path hp => .emitDocument _ _ _ ?_) fun _ => ?_
  · simp_all [Arguments.outputs]
  refine .forM_option fun path hp => .emitArchive _ _ _ ?_ fun directory hd => ⟨path, hp, hd⟩
  simp_all [Arguments.outputs]

/-- An output that is not given is the path of the archive, made from that of
the input. -/
theorem mem_givenOutputs_or {a : Arguments} {path : String} (h : path ∈ a.outputs) :
    path ∈ a.givenOutputs ∨
      (path = Path.withExtension a.input "sb2" ∧ a.archivePath? = some path) := by
  simp only [Arguments.outputs, Arguments.givenOutputs, List.mem_append, Option.mem_toList] at h ⊢
  obtain (h | h) | h := h
  · exact .inl (.inl (.inr h))
  · exact .inl (.inr h)
  · cases ho : a.output with
    | some output =>
      obtain rfl : output = path := by simpa [Arguments.archivePath?, ho] using h
      exact .inl (.inl (.inl rfl))
    | none =>
      refine .inr ⟨?_, h⟩
      simp only [Arguments.archivePath?, ho] at h
      split at h
      · exact (Option.some.inj h).symm
      · simp at h

/-! ## What a run writes -/

/-- **A part of a run that succeeds ends in such a workspace.** -/
def EndsIn (P : Workspace → Prop) {α : Type} (part : RunT (StateM Workspace) α) : Prop :=
  ∀ w w' a, (part.run w : Except Failure α × Workspace) = (.ok a, w') → P w'

/-- The last part decides where a sequence ends. -/
theorem EndsIn.bind {P : Workspace → Prop} {α β : Type} {part : RunT (StateM Workspace) α}
    {rest : α → RunT (StateM Workspace) β} (h : ∀ a, EndsIn P (rest a)) :
    EndsIn P (part >>= rest) := by
  intro w w' b hrun
  rw [run_bind] at hrun
  rcases hpart : (part.run w : Except Failure α × Workspace) with ⟨failure | a, between⟩
  · rw [hpart] at hrun
    exact absurd (congrArg Prod.fst hrun) (by simp)
  · rw [hpart] at hrun
    exact h a between w' b hrun

theorem EndsIn.mono {P Q : Workspace → Prop} {α : Type} {part : RunT (StateM Workspace) α}
    (h : EndsIn P part) (hPQ : ∀ w, P w → Q w) : EndsIn Q part :=
  fun w w' a hrun => hPQ w' (h w w' a hrun)

/-- A file that was written is read back. -/
theorem EndsIn.writeFile (path : String) (bytes : ByteArray) :
    EndsIn (fun w => w.tree.read? path = some bytes) (writeFile path bytes) := by
  intro w w' a hrun
  have hlift :
      ((Disk.write path bytes : StateM Workspace Bool) : RunT (StateM Workspace) Bool).run w
        = (.ok (w.write path bytes).1, (w.write path bytes).2) := rfl
  unfold CommandLine.writeFile succeeding at hrun
  rw [run_bind, hlift] at hrun
  cases hwrite : w.tree.write? path bytes with
  | none =>
    simp only [Workspace.write, hwrite] at hrun
    have hfailed : Except.error (Failure.cannotWrite path) = .ok a := congrArg Prod.fst hrun
    cases hfailed
  | some tree =>
    simp only [Workspace.write, hwrite] at hrun
    have hw : w' = { w with tree := tree } := (congrArg Prod.snd hrun).symm
    rw [hw]
    exact FileTree.read?_write? hwrite

/-- The document is the first file of a packed project. -/
theorem exists_files_pack (options : Legacy.Options) (project : Project) :
    ∃ content rest, (Legacy.pack options project).files = ("project.json", content) :: rest :=
  ⟨_, _, rfl⟩

/-- **A run that succeeds has written its archive.** -/
theorem read?_archive_runIn {a : Arguments} {w w' : Workspace} {path : String}
    (hpath : a.archivePath? = some path) (hrun : runIn a w = (.ok (), w')) :
    ∃ options project, w'.tree.read? path
      = some (Archive.Zip.write .deflated (Legacy.pack options project).files) := by
  have hends : EndsIn (fun w => ∃ options project, w.tree.read? path
      = some (Archive.Zip.write .deflated (Legacy.pack options project).files)) (run a) := by
    unfold run
    refine .bind fun _ => .bind fun full => .bind fun _ => .bind fun project => .bind fun _ =>
      .bind fun options => .bind fun _ => ?_
    rw [hpath]
    refine .bind fun _ => .bind fun _ => ?_
    have hdone := (EndsIn.writeFile path
      (Archive.Zip.write .deflated (Legacy.pack options project).files)).mono
        fun w hread => (⟨options, project, hread⟩ : ∃ options project, w.tree.read? path
          = some (Archive.Zip.write .deflated (Legacy.pack options project).files))
    cases Path.parent? path with
    | none => exact hdone
    | some directory => exact .bind fun _ => hdone
  exact hends w w' () hrun

/-! ## The input -/

/-- What is required and absent ends a run. -/
theorem required_run_none {α : Type} {failure : Failure} {result : StateM Workspace (Option α)}
    {w : Workspace} (h : result w = (none, w)) :
    ((required failure result).run w : Except Failure α × Workspace) = (.error failure, w) := by
  have hlift : ((result : RunT (StateM Workspace) (Option α)).run w :
      Except Failure (Option α) × Workspace) = (.ok none, w) := by
    change ((.ok (result w).1, (result w).2) : Except Failure (Option α) × Workspace) = _
    rw [h]
  unfold required
  rw [run_bind, hlift]
  rfl

/-- Without an input file a run changes nothing. -/
theorem tree_runIn_of_missing {a : Arguments} {w : Workspace} (h : w.fullPath? a.input = none) :
    (runIn a w).2.tree = w.tree := by
  have hrequired : ∀ line, ((required (.noInput a.input) (Disk.fullPath? a.input) :
      RunT (StateM Workspace) String).run (w.report line) : Except Failure String × Workspace)
        = (.error (.noInput a.input), w.report line) := by
    intro line
    exact required_run_none (congrArg (·, w.report line) h)
  have hannounced : ∀ p, ((announce p : RunT (StateM Workspace) Unit).run w :
      Except Failure Unit × Workspace) = (.ok (), w.report (progressLine p)) := fun p => rfl
  unfold runIn run
  simp only [run_bind, hannounced, hrequired]
  rfl

/-- What has a full path can be read. -/
theorem fullPath?_eq_none {w : Workspace} {path : String} (h : w.tree.read? path = none) :
    w.fullPath? path = none := by
  unfold FileTree.read? FileTree.lookup? at h
  unfold Workspace.fullPath?
  cases hl : w.tree.locate? path with
  | none => rfl
  | some location =>
    cases hn : w.tree.node? location with
    | none => simp [hn]
    | some node => cases node <;> simp_all

/-- The path that is made from that of the input leads to the input only if
it is the same path. -/
theorem legacyPath_eq_input {a : Arguments} {tree : FileTree} {location : Location}
    (hl : tree.locate? a.input = some location)
    (hfile : ∃ bytes, tree.node? location = some (.file bytes))
    (hsame : tree.locate? (Path.withExtension a.input "sb2") = some location) :
    Path.withExtension a.input "sb2" = a.input ∧ Path.extension? a.input = some "sb2" := by
  obtain ⟨bytes, hbytes⟩ := hfile
  have hd : tree.hasDirectory location = false := by simp [FileTree.hasDirectory, hbytes]
  exact FileTree.withExtension_eq_self (by decide) (by decide) hl hd hsame

/-- The document of a project that has nothing but a stage. -/
def bareDocument : String := "\x7b\"targets\":[\x7b\"isStage\":true,\"name\":\"S\"\x7d]\x7d"

/-- An archive with that document, stored as it is. -/
def bareProject : ByteArray := Archive.Zip.write .stored [("project.json", bareDocument.toUTF8)]

/-- A workspace with that archive as its input, which has the legacy extension already. -/
def legacyWorkspace : Workspace :=
  { directory := "", tree := { nodes := [(["in.sb2"], .file bareProject)] } }

theorem read?_legacyWorkspace : legacyWorkspace.tree.read? "in.sb2" = some bareProject := rfl

theorem isOk_runIn_legacy : (runIn { input := "in.sb2" } legacyWorkspace).1.isOk = true := by
  -- the checksums are met where the archive is made and where it is read
  simp only [runIn, run, readProject, Bundle.read, Archive.Zip.read?, Archive.Zip.content,
    legacyWorkspace, bareProject, Archive.Zip.write, Archive.Zip.PackedEntry.of,
    Archive.Crc32.checksum_eq_foldl]
  decide +kernel

end CommandLine

end ScratchLegacy
