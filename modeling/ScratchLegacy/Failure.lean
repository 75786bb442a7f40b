import ScratchLegacy.Document

/-!
# Failures

Everything that can end a conversion, with the text that reports it. A
failure is told as a chain, from the outermost context to the cause. Where
the cause lies in the bytes of an archive, the text of a document or the file
system, the chain ends with a `Fault` of that kind, which has no details of
its own.
-/

namespace ScratchLegacy

/-- **A cause outside of projects.** -/
inductive Fault where
  /-- A text is not JSON. -/
  | json
  /-- Bytes are not an archive. -/
  | zip
  /-- A file, or an entry of an archive, cannot be read or written. -/
  | io
deriving DecidableEq, Inhabited

/-- What a fault is called. -/
def Fault.description : Fault → String
  | json => "invalid JSON"
  | zip => "invalid archive"
  | io => "input or output failed"

/-- **Why a conversion ended.** -/
inductive Failure where
  /-- The document is no project. -/
  | document (error : DocumentError)
  /-- The document in a file is no project. -/
  | documentIn (path : String) (error : DocumentError)
  /-- The source is no archive. -/
  | notAnArchive (source : String)
  /-- The archive has no document. -/
  | noDocument (source : String)
  /-- The document in the archive is damaged or no text. -/
  | damagedDocument (source : String)
  /-- The document in the archive is no JSON. -/
  | malformedDocument (source : String)
  /-- An entry of the archive cannot be opened. -/
  | unsupportedEntry
  /-- An entry of the archive is damaged. -/
  | damagedEntry (name source : String)
  /-- There is no input file at this path. -/
  | noInput (path : String)
  /-- The file cannot be opened. -/
  | cannotOpen (path : String)
  /-- The image of the pen layer cannot be read. -/
  | cannotReadPen (path : String)
  /-- The file cannot be written. -/
  | cannotWrite (path : String)
  /-- A directory cannot be made. -/
  | cannotMakeDirectory
deriving DecidableEq, Inhabited

/-- **A failure as it is told**: a chain of messages, and the fault that they
end in, if any. -/
structure Report where
  messages : List String
  fault : Option Fault := none
deriving DecidableEq, Inhabited

/-- The messages of a report in one line; `describe` says how a fault is
called. -/
def Report.text (describe : Fault → String) (r : Report) : String :=
  ": ".intercalate (r.messages ++ (r.fault.map describe).toList)

/-- Why an asset was not fetched. -/
def FetchError.message : FetchError → String
  | notInArchive r =>
    s!"Asset '{r.fileName}' for {r.kind.name} '{r.name}' of '{r.owner}' not found in archive."
  | refused reason => reason

/-- Why the assets of a target are not complete. -/
def AssetError.messages : AssetError → List String
  | missingDigest kind name owner => [s!"{kind.name} '{name}' of '{owner}' missing assetId."]
  | missingFormat kind name owner => [s!"{kind.name} '{name}' of '{owner}' missing dataFormat."]
  | fetch r reason =>
    [s!"Failed to fetch {r.kind.name} '{r.name}' ({r.fileName}) for '{r.owner}'.", reason.message]

/-- Why a script cannot be rebuilt. -/
def ScriptError.message : ScriptError → String
  | missingBlock id => s!"Missing block '{id}'."
  | missingOpcode id => s!"Block '{id}' missing opcode."
  | nestedInItself id => s!"Block '{id}' is nested inside itself."
  | missingMutation id => s!"Procedure prototype '{id}' missing mutation."
  | missingProccode id => s!"Procedure prototype '{id}' missing proccode."

/-- Why a document is no project. -/
def DocumentError.messages : DocumentError → List String
  | missingTargets => ["Invalid project.json: missing 'targets' array."]
  | missingStage => ["Invalid project.json: no stage target."]
  | missingName => ["Target missing 'name'."]
  | asset error => error.messages
  | script id owner error =>
    [s!"Failed to decode script '{id}' of '{owner}'.", error.message]

/-- **The report of a failure.** -/
def Failure.report : Failure → Report
  | document error => ⟨error.messages, none⟩
  | documentIn path error => ⟨s!"Failed to decode '{path}'." :: error.messages, none⟩
  | notAnArchive source => ⟨[s!"'{source}' is not a valid zip/.sb3 file."], some .zip⟩
  | noDocument source => ⟨[s!"Missing project.json in '{source}'."], none⟩
  | damagedDocument source => ⟨[s!"Failed reading project.json from '{source}'."], some .io⟩
  | malformedDocument source => ⟨[s!"Invalid project.json inside '{source}'."], some .json⟩
  | unsupportedEntry => ⟨[], some .zip⟩
  | damagedEntry name source => ⟨[s!"Failed reading '{name}' from '{source}'."], some .io⟩
  | noInput path => ⟨[s!"Input file not found: '{path}'."], none⟩
  | cannotOpen path => ⟨[s!"Failed to open '{path}'."], some .io⟩
  | cannotReadPen path => ⟨[s!"Failed to read pen layer '{path}'."], some .io⟩
  | cannotWrite path => ⟨[s!"Failed to write '{path}'."], some .io⟩
  | cannotMakeDirectory => ⟨[], some .io⟩

end ScratchLegacy
