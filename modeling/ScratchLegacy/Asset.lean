import ScratchLegacy.Json.Basic
import ScratchLegacy.Project

/-!
# Assets

A costume or a sound of a document names its bytes by a digest and a file
extension; the bytes themselves are fetched. The fetches of one target are all
started at once (`Asset.spawn`) and complete in any order, an `Arrangement`.
So `Asset.collect` takes the answers with the positions of their requests and
puts each one at its position; the first failure that arrives ends the
collection. The descriptions are then served with the bytes from the front,
the costumes first (`Asset.serve`).
-/

namespace ScratchLegacy

/-- **What an asset is for.** -/
inductive AssetKind where
  | costume
  | sound
deriving DecidableEq, Inhabited

/-- The name of a kind. -/
def AssetKind.name : AssetKind → String
  | costume => "costume"
  | sound => "sound"

/-- **A request for the bytes of an asset.** -/
structure AssetRequest where
  kind : AssetKind
  name : String
  md5 : String
  ext : String
  /-- The name of the target that the asset belongs to. -/
  owner : String
deriving DecidableEq, Inhabited

/-- The file name of an asset. -/
def AssetRequest.fileName (r : AssetRequest) : String := r.md5 ++ "." ++ r.ext

/-- **Why an asset was not fetched.** -/
inductive FetchError where
  /-- The archive has no file of that name. -/
  | notInArchive (request : AssetRequest)
  /-- The store gave this reason. -/
  | refused (reason : String)
deriving DecidableEq, Inhabited

/-- The answer to a request. -/
abbrev Answer := Except FetchError ByteArray

/-- **A source of asset bytes.** -/
abbrev Fetcher := AssetRequest → Answer

/-- **The order in which fetches complete**: those that were started, each with
the position of its request, in any order. -/
structure Arrangement where
  order : {n : Nat} → List (Fin n × Answer) → List (Fin n × Answer)
  perm : ∀ {n : Nat} (tasks : List (Fin n × Answer)), (order tasks).Perm tasks

/-- Fetches that complete in the order of their requests. -/
def Arrangement.ofRequests : Arrangement := ⟨fun tasks => tasks, fun tasks => .refl tasks⟩

/-- **Why the assets of a target are not complete.** -/
inductive AssetError where
  /-- The description of an asset has no digest. -/
  | missingDigest (kind : AssetKind) (name owner : String)
  /-- The description of an asset has no file extension. -/
  | missingFormat (kind : AssetKind) (name owner : String)
  /-- A request failed. -/
  | fetch (request : AssetRequest) (reason : FetchError)
deriving DecidableEq, Inhabited

namespace Asset

/-- The request that a description makes. -/
def request (kind : AssetKind) (owner : String) (spec : Json) : Except AssetError AssetRequest :=
  let name := Json.scalarText? (spec.get? "name")
  match (spec.get? "assetId").bind Json.asText?, (spec.get? "dataFormat").bind Json.asText? with
  | none, _ => .error (.missingDigest kind name owner)
  | some _, none => .error (.missingFormat kind name owner)
  | some md5, some ext => .ok ⟨kind, name, md5, ext, owner⟩

/-- The requests of a target: its costumes, then its sounds. -/
def requests (owner : String) (costumes sounds : List Json) :
    Except AssetError (List AssetRequest) := do
  let first ← costumes.mapM (request .costume owner)
  let second ← sounds.mapM (request .sound owner)
  pure (first ++ second)

/-- **Starting the fetches of requests**, whatever else it may do to start
one. -/
def spawn {m : Type → Type} [Monad m] (fetch : AssetRequest → m Answer)
    (requests : List AssetRequest) : m (List (Fin requests.length × Answer)) :=
  (List.finRange requests.length).mapM fun position => do
    let answer ← fetch (requests.get position)
    pure (position, answer)

/-- A fetch that completes: its bytes go to the position of its request. -/
def join (requests : List AssetRequest) (answers : List (Option ByteArray))
    (task : Fin requests.length × Answer) : Except AssetError (List (Option ByteArray)) :=
  match task.2 with
  | .ok bytes => .ok (answers.set task.1 (some bytes))
  | .error reason => .error (.fetch (requests.get task.1) reason)

/-- **The bytes of requests**, from fetches in the order in which they
complete. -/
def collect (requests : List AssetRequest) (tasks : List (Fin requests.length × Answer)) :
    Except AssetError (List (Option ByteArray)) :=
  tasks.foldlM (join requests) (List.replicate requests.length none)

/-- **Descriptions served from a queue**: each takes the front of it. What they
leave comes with what they make. -/
def serve {α : Type} (make : Json → ByteArray → α) :
    List Json → List ByteArray → List α × List ByteArray
  | [], queue => ([], queue)
  | _ :: _, [] => ([], [])
  | spec :: specs, bytes :: queue =>
    let (made, left) := serve make specs queue
    (make spec bytes :: made, left)

/-- The costume that a description and its bytes make. A resolution that is
not positive is two. -/
def costume (spec : Json) (asset : ByteArray) : Costume :=
  { name := Json.scalarText? (spec.get? "name")
    asset := asset
    md5 := Json.scalarText? (spec.get? "assetId")
    ext := Json.scalarText? (spec.get? "dataFormat")
    bitmapResolution :=
      (((spec.get? "bitmapResolution").bind Json.asFloat?).filter (fun r => r > 0)).getD 2
    centerX := (spec.get? "rotationCenterX").bind Json.asFloat?
    centerY := (spec.get? "rotationCenterY").bind Json.asFloat? }

/-- The sound that a description and its bytes make. -/
def sound (spec : Json) (asset : ByteArray) : Sound :=
  { name := Json.scalarText? (spec.get? "name")
    asset := asset
    md5 := Json.scalarText? (spec.get? "assetId")
    ext := Json.scalarText? (spec.get? "dataFormat")
    sampleCount := (spec.get? "sampleCount").bind Json.asNat?
    sampleRate := (spec.get? "rate").bind Json.asNat? }

/-- The costumes and sounds that descriptions make of the answers to their
requests: the sounds take what the costumes leave. -/
def serveAll (costumes sounds : List Json) (answers : List (Option ByteArray)) :
    List Costume × List Sound :=
  let (made, queue) := serve costume costumes (answers.map (·.getD ByteArray.empty))
  (made, (serve sound sounds queue).1)

/-- **The costumes and sounds of a target.** No fetch is started unless every
description makes a request. -/
def fetchAll {m : Type → Type} [Monad m] (fetch : AssetRequest → m Answer)
    (arrange : Arrangement) (owner : String) (costumes sounds : List Json) :
    m (Except AssetError (List Costume × List Sound)) :=
  match requests owner costumes sounds with
  | .error error => pure (.error error)
  | .ok requests => do
    let tasks ← spawn fetch requests
    pure ((collect requests (arrange.order tasks)).map (serveAll costumes sounds))

end Asset

end ScratchLegacy
