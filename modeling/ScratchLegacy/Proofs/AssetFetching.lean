import ScratchLegacy.Document
import ScratchLegacy.Failure
import ScratchLegacy.Proofs.Sequences

/-!
# Assets that are fetched in any order

The fetches of a target complete in an order that nothing decides. Each one
that completes puts its bytes at the position of its request and touches no
other (`Asset.join_answersOf`), so what is there once some of them have
completed depends on which these are, not on their order; when all have
completed, every request has its bytes (`Asset.collect_of_ok`). The
descriptions then take the bytes from the front: the costumes take as many as
there are costumes, and leave those of the sounds (`Asset.serve_of_requests`).

If a fetch fails, the first failure that completes is the result
(`Asset.collect_of_error`), and if a description makes no request, no fetch is
started at all: the result is the same for whatever starting a fetch may do
(`Asset.fetchAll_of_incomplete`).
-/

namespace ScratchLegacy

namespace Asset

/-! ## Requests -/

/-- **A description names a file**: it has a digest and a file extension. -/
def NamesFile (spec : Json) : Prop :=
  (∃ md5, spec.get? "assetId" = some (.text md5)) ∧ ∃ ext, spec.get? "dataFormat" = some (.text ext)

/-- A value is read as a text when it is this text. -/
theorem bind_asText?_eq_some_iff {v? : Option Json} {text : String} :
    v?.bind Json.asText? = some text ↔ v? = some (.text text) := by
  cases v? with
  | none => simp
  | some v => cases v <;> simp [Json.asText?]

/-- **What a request asks for.** -/
theorem request_eq_ok_iff {kind : AssetKind} {owner : String} {spec : Json} {r : AssetRequest} :
    request kind owner spec = .ok r ↔
      spec.get? "assetId" = some (.text r.md5) ∧ spec.get? "dataFormat" = some (.text r.ext)
        ∧ r.kind = kind ∧ r.name = Json.scalarText? (spec.get? "name") ∧ r.owner = owner := by
  simp only [← bind_asText?_eq_some_iff]
  obtain ⟨kind', name', md5', ext', owner'⟩ := r
  unfold request
  cases (spec.get? "assetId").bind Json.asText? with
  | none => simp
  | some md5 =>
    cases (spec.get? "dataFormat").bind Json.asText? with
    | none => simp
    | some ext => simp only [Except.ok.injEq, AssetRequest.mk.injEq, Option.some.injEq]; tauto

/-- A description that names a file makes a request. -/
theorem exists_request_iff {kind : AssetKind} {owner : String} {spec : Json} :
    (∃ r, request kind owner spec = .ok r) ↔ NamesFile spec := by
  simp only [request_eq_ok_iff]
  constructor
  · rintro ⟨r, hmd5, hext, -⟩
    exact ⟨⟨_, hmd5⟩, ⟨_, hext⟩⟩
  · rintro ⟨⟨md5, hmd5⟩, ⟨ext, hext⟩⟩
    exact ⟨⟨kind, _, md5, ext, owner⟩, hmd5, hext, rfl, rfl, rfl⟩

/-- **A description that makes no request** names no file. The failure tells its
kind, its name and its owner, and the part that it lacks. -/
theorem request_eq_error {kind : AssetKind} {owner : String} {spec : Json} {error : AssetError}
    (h : request kind owner spec = .error error) :
    ¬ NamesFile spec ∧ (error = .missingDigest kind (Json.scalarText? (spec.get? "name")) owner
      ∨ error = .missingFormat kind (Json.scalarText? (spec.get? "name")) owner) := by
  constructor
  · intro hnames
    obtain ⟨r, hr⟩ := exists_request_iff.mpr hnames
    cases h.symm.trans hr
  · unfold request at h
    split at h
    · cases h
      exact .inl rfl
    · cases h
      exact .inr rfl
    · cases h

/-- **A request of a target**: one of its descriptions makes it. -/
def Requested (owner : String) (costumes sounds : List Json) (r : AssetRequest) : Prop :=
  (∃ spec ∈ costumes, request .costume owner spec = .ok r)
    ∨ ∃ spec ∈ sounds, request .sound owner spec = .ok r

/-- The requests of a target are those of its costumes, then those of its
sounds. -/
theorem requests_eq_ok_iff {owner : String} {costumes sounds : List Json}
    {rs : List AssetRequest} :
    requests owner costumes sounds = .ok rs ↔ ∃ first second, rs = first ++ second
      ∧ List.Forall₂ (fun spec r => request .costume owner spec = .ok r) costumes first
      ∧ List.Forall₂ (fun spec r => request .sound owner spec = .ok r) sounds second := by
  simp only [← mapM_eq_ok_iff]
  unfold requests
  constructor
  · intro h
    obtain ⟨first, hfirst, h⟩ := bind_eq_ok_iff.mp h
    obtain ⟨second, hsecond, h⟩ := bind_eq_ok_iff.mp h
    cases h
    exact ⟨first, second, rfl, hfirst, hsecond⟩
  · rintro ⟨first, second, rfl, hfirst, hsecond⟩
    exact bind_eq_ok_iff.mpr ⟨first, hfirst, bind_eq_ok_iff.mpr ⟨second, hsecond, rfl⟩⟩

/-- A target has no requests because of a description that makes none. -/
theorem exists_of_requests_eq_error {owner : String} {costumes sounds : List Json}
    {error : AssetError} (h : requests owner costumes sounds = .error error) :
    (∃ spec ∈ costumes, request .costume owner spec = .error error)
      ∨ ∃ spec ∈ sounds, request .sound owner spec = .error error := by
  unfold requests at h
  rcases bind_eq_error_iff.mp h with h | ⟨first, -, h⟩
  · exact .inl (exists_of_mapM_eq_error h)
  · rcases bind_eq_error_iff.mp h with h | ⟨second, -, h⟩
    · exact .inr (exists_of_mapM_eq_error h)
    · cases h

/-- The requests of a target are requested. -/
theorem requested_of_mem {owner : String} {costumes sounds : List Json} {rs : List AssetRequest}
    (h : requests owner costumes sounds = .ok rs) {r : AssetRequest} (hr : r ∈ rs) :
    Requested owner costumes sounds r := by
  obtain ⟨first, second, rfl, hfirst, hsecond⟩ := requests_eq_ok_iff.mp h
  rcases List.mem_append.mp hr with hr | hr
  · exact .inl (exists_of_mem_right hfirst hr)
  · exact .inr (exists_of_mem_right hsecond hr)

/-- A request of a target is among its requests. -/
theorem mem_of_requested {owner : String} {costumes sounds : List Json} {rs : List AssetRequest}
    (h : requests owner costumes sounds = .ok rs) {r : AssetRequest}
    (hr : Requested owner costumes sounds r) : r ∈ rs := by
  obtain ⟨first, second, rfl, hfirst, hsecond⟩ := requests_eq_ok_iff.mp h
  rcases hr with ⟨spec, hspec, hr⟩ | ⟨spec, hspec, hr⟩
  · obtain ⟨r', hmem, hr'⟩ := exists_mem_zip hfirst hspec
    cases hr.symm.trans hr'
    exact List.mem_append_left _ (List.of_mem_zip hmem).2
  · obtain ⟨r', hmem, hr'⟩ := exists_mem_zip hsecond hspec
    cases hr.symm.trans hr'
    exact List.mem_append_right _ (List.of_mem_zip hmem).2

/-- **A target has requests exactly when all of its descriptions name files.** -/
theorem exists_requests_iff {owner : String} {costumes sounds : List Json} :
    (∃ rs, requests owner costumes sounds = .ok rs)
      ↔ ∀ spec ∈ costumes ++ sounds, NamesFile spec := by
  constructor
  · rintro ⟨rs, h⟩ spec hspec
    obtain ⟨first, second, -, hfirst, hsecond⟩ := requests_eq_ok_iff.mp h
    rcases List.mem_append.mp hspec with hspec | hspec
    · obtain ⟨r, -, hr⟩ := exists_mem_zip hfirst hspec
      exact exists_request_iff.mp ⟨r, hr⟩
    · obtain ⟨r, -, hr⟩ := exists_mem_zip hsecond hspec
      exact exists_request_iff.mp ⟨r, hr⟩
  · intro h
    obtain ⟨first, hfirst⟩ := exists_mapM_eq_ok_iff.mpr
      (fun spec hspec => exists_request_iff.mpr (h spec (List.mem_append_left _ hspec)))
    obtain ⟨second, hsecond⟩ := exists_mapM_eq_ok_iff.mpr
      (fun spec hspec => exists_request_iff.mpr (h spec (List.mem_append_right _ hspec)))
    exact ⟨_, requests_eq_ok_iff.mpr
      ⟨first, second, rfl, mapM_eq_ok_iff.mp hfirst, mapM_eq_ok_iff.mp hsecond⟩⟩

/-- **What is wrong with a target that has no requests**: one of its
descriptions names no file, and the failure tells its kind and its name. -/
def Incomplete (owner : String) (costumes sounds : List Json) (error : AssetError) : Prop :=
  ∃ kind spec, (spec ∈ match kind with | .costume => costumes | .sound => sounds)
    ∧ ¬ NamesFile spec
    ∧ (error = .missingDigest kind (Json.scalarText? (spec.get? "name")) owner
      ∨ error = .missingFormat kind (Json.scalarText? (spec.get? "name")) owner)

/-- A target has no requests when one of its descriptions names no file. -/
theorem exists_incomplete {owner : String} {costumes sounds : List Json}
    (h : ∃ spec ∈ costumes ++ sounds, ¬ NamesFile spec) :
    ∃ error, requests owner costumes sounds = .error error
      ∧ Incomplete owner costumes sounds error := by
  cases hrequests : requests owner costumes sounds with
  | ok rs =>
    obtain ⟨spec, hspec, hmissing⟩ := h
    exact absurd (exists_requests_iff.mp ⟨rs, hrequests⟩ spec hspec) hmissing
  | error error =>
    refine ⟨error, rfl, ?_⟩
    rcases exists_of_requests_eq_error hrequests with ⟨spec, hspec, herror⟩ | ⟨spec, hspec, herror⟩
    · exact ⟨.costume, spec, hspec, request_eq_error herror⟩
    · exact ⟨.sound, spec, hspec, request_eq_error herror⟩

/-! ## Answers -/

section Answers

variable (fetch : Fetcher) (requests : List AssetRequest)

/-- The bytes that a request is answered with, if any. -/
def bytes? (r : AssetRequest) : Option ByteArray := (fetch r).toOption

/-- **The answers once some fetches have completed**: each of these has put its
bytes at its position. -/
def answersOf (done : List (Fin requests.length)) : List (Option ByteArray) :=
  List.ofFn fun position =>
    if done.contains position then bytes? fetch (requests.get position) else none

/-- At first there are no answers. -/
theorem answersOf_nil : answersOf fetch requests [] = List.replicate requests.length none := by
  refine List.ext_getElem (by simp [answersOf]) (fun i h h' => ?_)
  simp [answersOf]

/-- When all fetches have completed, every request has its answer. -/
theorem answersOf_of_forall {done : List (Fin requests.length)} (h : ∀ position, position ∈ done) :
    answersOf fetch requests done = requests.map (bytes? fetch) := by
  refine List.ext_getElem (by simp [answersOf]) (fun i hi hi' => ?_)
  simp [answersOf, h]

variable {fetch requests}

/-- **A fetch that completes adds its own answer**, whichever have completed
before. -/
theorem join_answersOf {position : Fin requests.length} {bytes : ByteArray}
    (h : fetch (requests.get position) = .ok bytes) (done : List (Fin requests.length)) :
    join requests (answersOf fetch requests done) (position, .ok bytes)
      = .ok (answersOf fetch requests (position :: done)) := by
  refine congrArg Except.ok (List.ext_getElem (by simp [answersOf]) (fun i hi hi' => ?_))
  have hbytes : bytes? fetch (requests.get position) = some bytes := by rw [bytes?, h]; rfl
  rw [List.getElem_set]
  -- the position of the request has its bytes, every other one what it had
  by_cases heq : position.val = i
  · subst heq
    simp [answersOf, ← hbytes]
  · have hne : (⟨i, by simpa [answersOf] using hi'⟩ : Fin requests.length) ≠ position :=
      fun h => heq (congrArg Fin.val h).symm
    simp [answersOf, heq, hne]

/-- A sequence of fetches that all succeed adds the answers of all of them. -/
theorem foldlM_join {tasks : List (Fin requests.length × Answer)}
    (hfetch : ∀ task ∈ tasks, fetch (requests.get task.1) = task.2)
    (hok : ∀ task ∈ tasks, ∃ bytes, task.2 = .ok bytes) (done : List (Fin requests.length)) :
    tasks.foldlM (join requests) (answersOf fetch requests done)
      = .ok (answersOf fetch requests ((tasks.map Prod.fst).reverse ++ done)) := by
  induction tasks generalizing done with
  | nil => rfl
  | cons task rest ih =>
    obtain ⟨position, answer⟩ := task
    obtain ⟨bytes, rfl⟩ := hok _ List.mem_cons_self
    rw [List.foldlM_cons, join_answersOf (hfetch _ List.mem_cons_self)]
    show rest.foldlM (join requests) _ = _
    rw [ih (fun t ht => hfetch t (List.mem_cons_of_mem _ ht))
      (fun t ht => hok t (List.mem_cons_of_mem _ ht)), List.map_cons, List.reverse_cons,
      List.append_assoc]
    rfl

/-- **Fetches that all succeed** give every request its bytes, in whatever order
they complete. -/
theorem collect_of_ok {tasks : List (Fin requests.length × Answer)}
    (hall : ∀ position, position ∈ tasks.map Prod.fst)
    (hfetch : ∀ task ∈ tasks, fetch (requests.get task.1) = task.2)
    (hok : ∀ task ∈ tasks, ∃ bytes, task.2 = .ok bytes) :
    collect requests tasks = .ok (requests.map (bytes? fetch)) := by
  rw [collect, ← answersOf_nil fetch requests, foldlM_join hfetch hok, answersOf_of_forall]
  intro position
  rw [List.append_nil, List.mem_reverse]
  exact hall position

/-- **If a fetch fails, the collection ends with a failure** that names the
request of a fetch that failed. -/
theorem collect_of_error {tasks : List (Fin requests.length × Answer)}
    (h : ∃ task ∈ tasks, ∃ reason, task.2 = .error reason) :
    ∃ position reason, (position, .error reason) ∈ tasks
      ∧ collect requests tasks = .error (.fetch (requests.get position) reason) := by
  unfold collect
  -- by induction on what is still to complete, over any answers so far
  generalize List.replicate requests.length none = answers
  induction tasks generalizing answers with
  | nil => obtain ⟨_, hmem, _⟩ := h; cases hmem
  | cons task rest ih =>
    obtain ⟨position, answer⟩ := task
    rw [List.foldlM_cons]
    cases answer with
    | error reason => exact ⟨position, reason, List.mem_cons_self, rfl⟩
    | ok bytes =>
      have hrest : ∃ task ∈ rest, ∃ reason, task.2 = .error reason := by
        obtain ⟨task, hmem, reason, hreason⟩ := h
        rcases List.mem_cons.mp hmem with rfl | hmem
        · cases hreason
        · exact ⟨task, hmem, reason, hreason⟩
      obtain ⟨position', reason, hmem, hcollect⟩ := ih hrest _
      exact ⟨position', reason, List.mem_cons_of_mem _ hmem, hcollect⟩

end Answers

/-! ## Fetches -/

/-- Every request has its fetch. -/
theorem spawn_eq (fetch : Fetcher) (requests : List AssetRequest) :
    spawn (m := Id) fetch requests
      = (List.finRange requests.length).map (fun p => (p, fetch (requests.get p))) := by
  unfold spawn
  exact List.idRun_mapM

section Tasks

variable (fetch : Fetcher) (requests : List AssetRequest) (arrange : Arrangement)

/-- The fetches of requests, in the order in which they complete. -/
def completed : List (Fin requests.length × Answer) :=
  arrange.order (spawn (m := Id) fetch requests)

variable {fetch requests arrange}

/-- A fetch that completes gives the answer to its request. -/
theorem mem_completed_iff {task : Fin requests.length × Answer} :
    task ∈ completed fetch requests arrange ↔ fetch (requests.get task.1) = task.2 := by
  rw [completed, (arrange.perm _).mem_iff, spawn_eq]
  obtain ⟨position, answer⟩ := task
  simp

/-- Fetches that all succeed give every request its bytes. -/
theorem collect_completed_of_ok (h : ∀ r ∈ requests, ∃ bytes, fetch r = .ok bytes) :
    collect requests (completed fetch requests arrange) = .ok (requests.map (bytes? fetch)) := by
  refine collect_of_ok (fun position => ?_) (fun task => mem_completed_iff.mp) (fun task htask => ?_)
  · exact List.mem_map.mpr ⟨(position, fetch (requests.get position)), mem_completed_iff.mpr rfl, rfl⟩
  · rw [← mem_completed_iff.mp htask]
    exact h _ (List.getElem_mem _)

/-- If a fetch fails, a request that failed is named. -/
theorem collect_completed_of_error (h : ∃ r ∈ requests, ∃ reason, fetch r = .error reason) :
    ∃ r ∈ requests, ∃ reason, fetch r = .error reason
      ∧ collect requests (completed fetch requests arrange) = .error (.fetch r reason) := by
  obtain ⟨r, hr, reason, hreason⟩ := h
  obtain ⟨i, hi, rfl⟩ := List.getElem_of_mem hr
  obtain ⟨position, reason', hmem, hcollect⟩ := collect_of_error
    ⟨(⟨i, hi⟩, .error reason), mem_completed_iff.mpr hreason, reason, rfl⟩
  exact ⟨_, List.getElem_mem _, reason', mem_completed_iff.mp hmem, hcollect⟩

end Tasks

/-! ## Serving -/

/-- **What a description makes of the bytes of its request.** -/
def Made {α : Type} (fetch : Fetcher) (owner : String) (kind : AssetKind)
    (make : Json → ByteArray → α) (spec : Json) (made : α) : Prop :=
  ∃ r bytes, request kind owner spec = .ok r ∧ fetch r = .ok bytes ∧ made = make spec bytes

/-- The costumes are served from the answers, the sounds from what they leave. -/
theorem serveAll_eq (costumes sounds : List Json) (answers : List (Option ByteArray)) :
    serveAll costumes sounds answers
      = ((serve costume costumes (answers.map (·.getD ByteArray.empty))).1,
        (serve sound sounds (serve costume costumes (answers.map (·.getD ByteArray.empty))).2).1) :=
  rfl

/-- **Descriptions take the bytes of their own requests** from the front of the
queue, and leave the rest of it. -/
theorem serve_of_requests {α : Type} {fetch : Fetcher} {owner : String} {kind : AssetKind}
    (make : Json → ByteArray → α) {specs : List Json} {rs : List AssetRequest}
    (hrequests : List.Forall₂ (fun spec r => request kind owner spec = .ok r) specs rs)
    (hok : ∀ r ∈ rs, ∃ bytes, fetch r = .ok bytes) (queue : List ByteArray) :
    ∃ made, serve make specs
        (rs.map (fun r => (bytes? fetch r).getD ByteArray.empty) ++ queue) = (made, queue)
      ∧ List.Forall₂ (Made fetch owner kind make) specs made := by
  induction hrequests with
  | nil => exact ⟨[], rfl, .nil⟩
  | @cons spec r specs rs hr _ ih =>
    obtain ⟨bytes, hbytes⟩ := hok r List.mem_cons_self
    obtain ⟨made, hserve, hmade⟩ := ih (fun r' hr' => hok r' (List.mem_cons_of_mem _ hr'))
    have hfront : (bytes? fetch r).getD ByteArray.empty = bytes := by rw [bytes?, hbytes]; rfl
    refine ⟨make spec bytes :: made, ?_, .cons ⟨r, bytes, hr, hbytes, rfl⟩ hmade⟩
    rw [List.map_cons, List.cons_append, serve, hserve, hfront]

/-! ## Targets -/

section Targets

variable {fetch : Fetcher} {arrange : Arrangement} {owner : String} {costumes sounds : List Json}

/-- **No fetch is started for a target with a description that names no file**:
whatever it means to start one, the result is a failure, and nothing else
happens. -/
theorem fetchAll_of_incomplete (h : ∃ spec ∈ costumes ++ sounds, ¬ NamesFile spec) :
    ∃ error, Incomplete owner costumes sounds error
      ∧ ∀ (m : Type → Type) [Monad m] (start : AssetRequest → m Answer),
        fetchAll start arrange owner costumes sounds = pure (.error error) := by
  obtain ⟨error, hrequests, hincomplete⟩ := exists_incomplete h
  refine ⟨error, hincomplete, fun m _ start => ?_⟩
  rw [fetchAll, hrequests]

/-- A target with requests has what its descriptions make of the answers. -/
theorem fetchAll_of_requests {rs : List AssetRequest}
    (h : requests owner costumes sounds = .ok rs) :
    fetchAll (m := Id) fetch arrange owner costumes sounds
      = (collect rs (completed fetch rs arrange)).map (serveAll costumes sounds) := by
  rw [fetchAll, h]
  rfl

/-- **If all fetches succeed**, the costumes and sounds are made in their order,
each from the bytes of its own request. -/
theorem fetchAll_of_ok (hnames : ∀ spec ∈ costumes ++ sounds, NamesFile spec)
    (hok : ∀ r, Requested owner costumes sounds r → ∃ bytes, fetch r = .ok bytes) :
    ∃ cs ss, fetchAll (m := Id) fetch arrange owner costumes sounds = .ok (cs, ss)
      ∧ List.Forall₂ (Made fetch owner .costume costume) costumes cs
      ∧ List.Forall₂ (Made fetch owner .sound sound) sounds ss := by
  obtain ⟨rs, hrequests⟩ := exists_requests_iff.mpr hnames
  have hall : ∀ r ∈ rs, ∃ bytes, fetch r = .ok bytes :=
    fun r hr => hok r (requested_of_mem hrequests hr)
  obtain ⟨first, second, rfl, hfirst, hsecond⟩ := requests_eq_ok_iff.mp hrequests
  obtain ⟨cs, hcs, hmade⟩ := serve_of_requests costume hfirst
    (fun r hr => hall r (List.mem_append_left _ hr))
    (second.map (fun r => (bytes? fetch r).getD ByteArray.empty) ++ [])
  obtain ⟨ss, hss, hmade'⟩ := serve_of_requests sound hsecond
    (fun r hr => hall r (List.mem_append_right _ hr)) []
  refine ⟨cs, ss, ?_, hmade, hmade'⟩
  rw [fetchAll_of_requests hrequests, collect_completed_of_ok hall]
  refine congrArg Except.ok ?_
  rw [List.append_nil] at hcs hss
  rw [serveAll_eq, List.map_map, List.map_append, Function.comp_def, hcs, hss]

/-- **If a fetch fails**, the result is a failure that names a request whose fetch
failed. -/
theorem fetchAll_of_error (hnames : ∀ spec ∈ costumes ++ sounds, NamesFile spec)
    (herror : ∃ r, Requested owner costumes sounds r ∧ ∃ reason, fetch r = .error reason) :
    ∃ r reason, Requested owner costumes sounds r ∧ fetch r = .error reason
      ∧ fetchAll (m := Id) fetch arrange owner costumes sounds = .error (.fetch r reason) := by
  obtain ⟨rs, hrequests⟩ : ∃ rs, requests owner costumes sounds = .ok rs :=
    exists_requests_iff.mpr hnames
  obtain ⟨r, hr, reason, hreason⟩ := herror
  obtain ⟨r', hr', reason', hreason', hcollect⟩ := collect_completed_of_error
    ⟨r, mem_of_requested hrequests hr, reason, hreason⟩
  refine ⟨r', reason', requested_of_mem hrequests hr', hreason', ?_⟩
  rw [fetchAll_of_requests hrequests, hcollect]
  rfl

end Targets

end Asset

namespace Target

open Asset

/-- The descriptions of the costumes of a target. -/
def costumeSpecs (target : Json) : List Json := Json.items (target.get? "costumes")

/-- The descriptions of the sounds of a target. -/
def soundSpecs (target : Json) : List Json := Json.items (target.get? "sounds")

section

variable {fetch : Fetcher} {arrange : Arrangement} {monitors : List Json} {target : Json}
variable {owner : String} (hname : (target.get? "name").bind Json.asText? = some owner)

include hname

/-- A target whose assets are not complete is not made. -/
theorem ofJson_of_fetchAll_error {error : AssetError}
    (h : fetchAll (m := Id) fetch arrange owner (costumeSpecs target) (soundSpecs target)
      = .error error) :
    ofJson fetch arrange monitors target = .error (.asset error) := by
  unfold costumeSpecs soundSpecs at h
  unfold ofJson
  simp only [hname, h]

/-- A target that is made has the costumes and sounds that were fetched. -/
theorem assets_of_ofJson {cs : List Costume} {ss : List Sound} {t : Target}
    (h : fetchAll (m := Id) fetch arrange owner (costumeSpecs target) (soundSpecs target)
      = .ok (cs, ss))
    (ht : ofJson fetch arrange monitors target = .ok t) : t.costumes = cs ∧ t.sounds = ss := by
  unfold costumeSpecs soundSpecs at h
  unfold ofJson at ht
  simp only [hname, h] at ht
  split at ht
  · cases ht
  · cases ht
    exact ⟨rfl, rfl⟩

/-- **The assets of a target do not depend on the order in which their fetches
complete.**

* If a description names no file, no fetch is started, whatever it means to
  start one, and the failure tells about such a description.
* If all fetches succeed, the costumes and the sounds are in the order of their
  descriptions, each made from the bytes of its own request.
* If a fetch fails, the failure is about a request whose fetch failed: it has its
  kind, name and file name.

In the first and the last case there is no target. -/
theorem fetched_in_any_order :
    ((∃ spec ∈ costumeSpecs target ++ soundSpecs target, ¬ NamesFile spec) →
      ∃ error, Incomplete owner (costumeSpecs target) (soundSpecs target) error
        ∧ (∀ (m : Type → Type) [Monad m] (start : AssetRequest → m Answer),
          fetchAll start arrange owner (costumeSpecs target) (soundSpecs target)
            = pure (.error error))
        ∧ ofJson fetch arrange monitors target = .error (.asset error))
    ∧ ((∀ spec ∈ costumeSpecs target ++ soundSpecs target, NamesFile spec) →
      (∀ r, Requested owner (costumeSpecs target) (soundSpecs target) r →
        ∃ bytes, fetch r = .ok bytes) →
      ∃ cs ss, fetchAll (m := Id) fetch arrange owner (costumeSpecs target) (soundSpecs target)
          = .ok (cs, ss)
        ∧ List.Forall₂ (Made fetch owner .costume costume) (costumeSpecs target) cs
        ∧ List.Forall₂ (Made fetch owner .sound sound) (soundSpecs target) ss
        ∧ ∀ t, ofJson fetch arrange monitors target = .ok t → t.costumes = cs ∧ t.sounds = ss)
    ∧ ((∀ spec ∈ costumeSpecs target ++ soundSpecs target, NamesFile spec) →
      (∃ r, Requested owner (costumeSpecs target) (soundSpecs target) r
        ∧ ∃ reason, fetch r = .error reason) →
      ∃ r reason, Requested owner (costumeSpecs target) (soundSpecs target) r
        ∧ fetch r = .error reason
        ∧ fetchAll (m := Id) fetch arrange owner (costumeSpecs target) (soundSpecs target)
          = .error (.fetch r reason)
        ∧ ofJson fetch arrange monitors target = .error (.asset (.fetch r reason))
        ∧ (DocumentError.asset (.fetch r reason)).messages.head?
          = some s!"Failed to fetch {r.kind.name} '{r.name}' ({r.fileName}) for '{owner}'.") := by
  refine ⟨fun hmissing => ?_, fun hnames hok => ?_, fun hnames herror => ?_⟩
  · obtain ⟨error, hincomplete, hfetch⟩ := fetchAll_of_incomplete hmissing
    exact ⟨error, hincomplete, hfetch, ofJson_of_fetchAll_error hname (hfetch Id fetch)⟩
  · obtain ⟨cs, ss, hfetch, hcostumes, hsounds⟩ := fetchAll_of_ok hnames hok
    exact ⟨cs, ss, hfetch, hcostumes, hsounds, fun t => assets_of_ofJson hname hfetch⟩
  · obtain ⟨r, reason, hr, hreason, hfetch⟩ := fetchAll_of_error hnames herror
    refine ⟨r, reason, hr, hreason, hfetch, ofJson_of_fetchAll_error hname hfetch, ?_⟩
    have howner : r.owner = owner := by
      rcases hr with ⟨spec, -, hr⟩ | ⟨spec, -, hr⟩ <;> exact (request_eq_ok_iff.mp hr).2.2.2.2
    rw [← howner]
    rfl

end

/-- Fetches that complete in the opposite order of their requests. -/
def lastFirst : Arrangement := ⟨fun tasks => tasks.reverse, fun tasks => tasks.reverse_perm⟩

/-- A sprite with two costumes and a sound. -/
def dancer : Json :=
  .object
    [("name", .text "Dancer"),
     ("costumes", .array
       [.object [("name", .text "left"), ("assetId", .text "l1"), ("dataFormat", .text "png")],
        .object [("name", .text "right"), ("assetId", .text "r1"), ("dataFormat", .text "svg")]]),
     ("sounds", .array
       [.object [("name", .text "tap"), ("assetId", .text "t1"), ("dataFormat", .text "wav")]])]

/-- The costumes and the sound of the sprite have their own bytes when the fetch
of the sound completes first. -/
theorem dancer_fetched_last_first :
    (dancer.get? "name").bind Json.asText? = some "Dancer"
      ∧ ∃ cs ss, fetchAll (m := Id) (fun r => .ok r.fileName.toUTF8) lastFirst "Dancer"
          (costumeSpecs dancer) (soundSpecs dancer) = .ok (cs, ss)
        ∧ cs.map Costume.asset = ["l1.png".toUTF8, "r1.svg".toUTF8]
        ∧ ss.map Sound.asset = ["t1.wav".toUTF8] := by
  refine ⟨rfl, ?_⟩
  have hnames : ∀ spec ∈ costumeSpecs dancer ++ soundSpecs dancer, NamesFile spec := by
    have hspecs : costumeSpecs dancer ++ soundSpecs dancer = [_, _, _] := rfl
    rw [hspecs]
    simp only [List.forall_mem_cons]
    exact ⟨⟨⟨_, rfl⟩, ⟨_, rfl⟩⟩, ⟨⟨_, rfl⟩, ⟨_, rfl⟩⟩, ⟨⟨_, rfl⟩, ⟨_, rfl⟩⟩, fun _ h => nomatch h⟩
  obtain ⟨cs, ss, hfetch, hcostumes, hsounds, -⟩ :=
    (@fetched_in_any_order (fun r => .ok r.fileName.toUTF8) lastFirst [] dancer "Dancer" rfl).2.1
      hnames (fun r _ => ⟨_, rfl⟩)
  refine ⟨cs, ss, hfetch, ?_, ?_⟩
  · obtain _ | ⟨⟨_, _, hr, hb, rfl⟩, _ | ⟨⟨_, _, hr', hb', rfl⟩, _ | _⟩⟩ := hcostumes
    cases hr
    cases hb
    cases hr'
    cases hb'
    rfl
  · obtain _ | ⟨⟨_, _, hr, hb, rfl⟩, _ | _⟩ := hsounds
    cases hr
    cases hb
    rfl

end Target

end ScratchLegacy
