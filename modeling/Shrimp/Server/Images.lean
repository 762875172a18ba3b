import Shrimp.Server.Accounts

/-!
# The images of the server

From the query string to the bytes: `images_end_to_end` follows a request for an image through its
handler, the manager and a worker, and says what it may be answered with. An image is one a worker
encoded during the run for the path, the format and the parameters this request asked for; which
file it was made from, which size it has and which type it is sent with is read off the request.
Where the files and ImageMagick stay as they are `cache_transparent` says that the cache and the
sharing of jobs do not show: requests for the same image get the same bytes.
-/

namespace Shrimp

open Execution HttpServer

/-! ## What the workers make -/

namespace Server

variable {Image : Type} {params : AppParams} {lib : Restinio} {clk : Clock} {workers : List Mbox}
  {s : Server} {events : List (Event Image)}

/-- At one of the events a worker did a job for the key that was sent to it, with this ImageMagick
and these floats and clocks. -/
def WorkedOn (params : AppParams) (lib : Restinio) (clk : Clock) (workers : List Mbox)
    (events : List (Event Image)) (key : ResizeRequestKey) (m : Magick Image) (e : FloatErrors)
    (t : Transformer.Timing) : Prop :=
  ∃ past i future s job, events = past ++ .work i m e t :: future ∧
    run (step params lib clk) (init workers) past = .ok s ∧
    s.world.env.transformerRequests[i]? = some job ∧ job.key = key

/-- The result is what a worker made of a job for the key at one of the events. -/
def Worked (params : AppParams) (lib : Restinio) (clk : Clock) (workers : List Mbox)
    (events : List (Event Image)) (key : ResizeRequestKey) (result : ResizeOutcome) : Prop :=
  ∃ m e t, WorkedOn params lib clk workers events key m e t ∧
    result = Transformer.handleResizeRequest m params.storage.rootDir e t key

/-- What was made stays made. -/
theorem Worked.append {key : ResizeRequestKey} {result : ResizeOutcome}
    (h : Worked params lib clk workers events key result) (e : Event Image) :
    Worked params lib clk workers (events ++ [e]) key result := by
  obtain ⟨m, e', t, ⟨past, i, future, s, job, rfl, hpast⟩, hresult⟩ := h
  exact ⟨m, e', t, ⟨past, i, future ++ [e], s, job, by simp, hpast⟩, hresult⟩

/-- The work on a key is one of the events of the run. -/
theorem WorkedOn.event_mem {key : ResizeRequestKey} {m : Magick Image} {e : FloatErrors}
    {t : Transformer.Timing} (h : WorkedOn params lib clk workers events key m e t) :
    ∃ i, Event.work i m e t ∈ events := by
  obtain ⟨past, i, future, s, job, rfl, -⟩ := h
  exact ⟨i, List.mem_append_right _ List.mem_cons_self⟩

/-- The result of the work of an event is what the worker made of its job. -/
theorem worked_of_outcome {e : Event Image} {a : World.Action}
    (hrun : run (step params lib clk) (init workers) events = .ok s)
    (ha : e.action params s = some a) {res : ResizeResult}
    (hres : a.outcome s.world.env = some res) :
    Worked params lib clk workers (events ++ [e]) res.key res.result := by
  cases e with
  | work i m e t =>
    cases hjob : s.world.env.transformerRequests[i]? with
    | none => simp [Event.action, hjob] at ha
    | some job =>
      simp only [Event.action, hjob, Option.bind_eq_bind, Option.bind_some] at ha
      cases ha
      simp only [World.Action.outcome, hjob, Option.bind_eq_bind, Option.bind_some] at hres
      cases hres
      exact ⟨m, e, t, ⟨events, i, [], s, job, rfl, hrun, hjob, rfl⟩, rfl⟩
  | message envToken =>
    exfalso
    simp only [Event.action, Option.bind_eq_bind, Option.bind_eq_some_iff] at ha
    obtain ⟨msg, -, req, -, ha⟩ := ha
    cases ha
    cases msg <;> cases hres
  | _ => cases ha <;> cases hres

/-- A result that is new after an event is the work of the event. -/
theorem produced_of_event {world : World} (h : Wired params lib clk workers s)
    (hrun : run (step params lib clk) (init workers) events = .ok s) (e : Event Image)
    (hworld : run (World.step clk) s.world (e.action params s).toList = .ok world) :
    ∀ res ∈ world.env.produced, res ∈ s.world.env.produced ∨
      Worked params lib clk workers (events ++ [e]) res.key res.result := by
  intro res hres
  obtain ⟨-, rfl⟩ | ⟨a, ha, hstep⟩ := run_toList_eq_ok.1 hworld
  · exact .inl hres
  · obtain ⟨actions, hactions⟩ := h.world
    rw [(World.records_of_step hactions hstep).produced] at hres
    exact (List.mem_append.1 hres).imp_right fun hres =>
      worked_of_outcome hrun ha (Option.mem_toList.1 hres)

/-- Every result of a worker goes back to its work. -/
theorem worked_of_run (hrun : run (step params lib clk) (init workers) events = .ok s) :
    ∀ res ∈ s.world.env.produced, Worked params lib clk workers events res.key res.result := by
  obtain ⟨s', hs', -, -, hworked⟩ := run_history
    (fun (events : List (Event Image)) s => Wired params lib clk workers s ∧
      run (step params lib clk) (init workers) events = .ok s ∧
      ∀ res ∈ s.world.env.produced, Worked params lib clk workers events res.key res.result)
    (fun events e s ⟨h, hrun, hworked⟩ => by
      obtain ⟨s', hs', h', hworld⟩ := h.step e
      refine ⟨s', hs', h', run_concat_eq_ok.2 ⟨s, hrun, hs'⟩, fun res hres => ?_⟩
      obtain hres | hnew := produced_of_event h hrun e hworld res hres
      · exact (hworked res hres).append e
      · exact hnew)
    ⟨wired_init params lib clk workers, rfl, nofun⟩ events
  cases hrun.symm.trans hs'
  exact hworked

/-! ## What was asked for -/

/-- The handler of a request that is sent to the manager accepted it, and sends its path as it
is. -/
theorem accepted_of_handled {a : Arrival} (hrouted : Routed params a) (hhandled : Handled lib a)
    {cmd : ResizeRequest} (hcmd : .resizeRequest cmd ∈ a.messages) :
    StartsWithSlash a.req.path ∧ ∃ ext q, a.route = .transformOp params.storage.rootDir ext ∧
      lib.parseQuery a.req.query = .ok q ∧
      Accepted lib a.req.path ext q cmd.targetFormat cmd.params ∧
      cmd = ⟨some a.req.handle, a.req.path, cmd.targetFormat, cmd.params⟩ := by
  obtain ⟨files, owned, hcall⟩ := hhandled
  obtain ⟨d, hd, hmessage⟩ := List.mem_filterMap.1 hcmd
  rcases hrouted with hroute | ⟨hslash, ext, hroute⟩
  · -- The handler of the cache sends no request for an image.
    exfalso
    rw [hroute] at hcall
    have hcall' := hcall.symm.trans (call_deleteCacheHandler { lib with sendfile := files } a.req)
    cases hquery : lib.parseQuery a.req.query with
    | error x =>
      simp only [hquery] at hcall'
      have hdone : a.done = [] := congrArg (fun p => p.2.done) (Except.ok.inj hcall')
      rw [hdone] at hd
      cases hd
    | ok q =>
      simp only [hquery] at hcall'
      have hdone : a.done = [_] := congrArg (fun p => p.2.done) (Except.ok.inj hcall')
      rw [hdone] at hd
      cases List.mem_singleton.1 hd
      split at hmessage <;> cases hmessage
  · refine ⟨hslash, ext, ?_⟩
    rw [hroute] at hcall
    obtain ⟨result', s', hcall', hway⟩ := call_transformOpHandler { lib with sendfile := files }
      a.req params.storage.rootDir ext
    have hsame := Except.ok.inj (hcall.symm.trans hcall')
    have hdone : a.done = s'.done := congrArg (fun p => p.2.done) hsame
    rw [hdone] at hd
    cases hway with
    | @resize q imageFormat opParams hpath hquery hne hformat hop hparams =>
      cases List.mem_singleton.1 hd
      cases hmessage
      exact ⟨q, hroute, hquery, ⟨hasIllegalPathComponents_eq_false.1 hpath,
        tryDetectTargetImageFormat_eq_some.1 hformat, hne, hop.symm,
        resizeOpParams_eq_ok.1 hparams⟩, rfl⟩
    | badQuery => cases hd
    | _ =>
      cases List.mem_singleton.1 hd
      cases hmessage

/-- The messages of the server are told by their handles. -/
theorem Wired.message_unique (h : Wired params lib clk workers s) {msg msg' : Message}
    (hmsg : msg ∈ s.sent) (hmsg' : msg' ∈ s.sent) (hreq : msg.httpReq = msg'.httpReq) :
    msg = msg' :=
  List.inj_on_of_nodup_map h.httpReq_nodup hmsg hmsg' hreq

/-- What the manager received for the handle of a message is that message. -/
theorem Wired.message_of_received (h : Wired params lib clk workers s) {cmd : ResizeRequest}
    (hcmd : .resizeRequest cmd ∈ s.sent) {req : RequestHandle} (hreq : cmd.httpReq = some req) :
    req ∉ s.world.env.receivedDeletes ∧ ∀ k, (req, k) ∈ s.world.env.received →
      k = cmd.requestKey := by
  obtain ⟨delivered, hsent, -, hreceived, hdeletes⟩ := h.mailbox
  have hunique : ∀ msg ∈ delivered, msg.httpReq = some req → msg = .resizeRequest cmd := by
    intro msg hmsg heq
    exact h.message_unique (hsent ▸ List.mem_append_left _ hmsg) hcmd (heq.trans hreq.symm)
  constructor
  · intro hmem
    rw [hdeletes] at hmem
    obtain ⟨msg, hmsg, hdelete⟩ := List.mem_filterMap.1 hmem
    cases msg with
    | resizeRequest cmd' => cases hdelete
    | deleteCacheRequest cmd' => cases hunique _ hmsg hdelete
  · intro k hk
    rw [hreceived] at hk
    obtain ⟨msg, hmsg, hresize⟩ := List.mem_filterMap.1 hk
    cases msg with
    | resizeRequest cmd' =>
      obtain ⟨req', hreq', heq⟩ := Option.map_eq_some_iff.1 hresize
      cases heq
      cases hunique _ hmsg hreq'
      rfl
    | deleteCacheRequest cmd' => cases hresize

/-! ## What is answered -/

/-- The size of the image that is made of a source: the side asked for has the value asked for, the
other one is in proportion, and the pixels are no more than allowed. -/
structure SizeAsked (params : ResizeParams) (source size : Geometry) : Prop where
  kept : params.mode = .keepOriginal → size = source
  byWidth : Transform.WidthRequested source params →
    Transform.Scaled params.value source.width source.height size.width size.height
  byHeight : params.mode ≠ .keepOriginal → ¬ Transform.WidthRequested source params →
    Transform.Scaled params.value source.height source.width size.height size.width
  limit : params.mode ≠ .keepOriginal → size.area ≤ Transformer.totalPixelCount.toNat

/-- The image a worker makes has the size that was asked for: that of the source where the original
is kept, and otherwise the size that `result_geometry` tells, which is within the limit. -/
theorem sizeAsked_of_transformedImage {m : Magick Image} {rootDir : CxxString} {e : FloatErrors}
    {key : ResizeRequestKey} {source image : Image} (hm : m.Lawful) (hparams : key.params.Accepted)
    (hread : m.read (makeFullPath rootDir key.path) = .ok source)
    (hsource : (m.size source).Valid)
    (himage : Transformer.transformedImage m rootDir e key = .ok image) :
    SizeAsked key.params (m.size source) (m.size image) := by
  obtain ⟨source', resized, hread', hresized, hmagick⟩ :=
    Transformer.transformedImage_eq_ok.1 himage
  cases Except.ok.inj (hread.symm.trans hread')
  rw [hm.size_magick hmagick]
  by_cases hmode : key.params.mode = .keepOriginal
  · rw [if_neg fun hne => hne hmode] at hresized
    cases Except.ok.inj hresized
    refine ⟨fun _ => rfl, ?_, fun hne => absurd hmode hne, fun hne => absurd hmode hne⟩
    rintro (h | ⟨h, -⟩)
    · cases hmode.symm.trans h
    · cases hmode.symm.trans h
  · rw [if_pos hmode] at hresized
    obtain ⟨size, hsize, hcheck, hresize⟩ := Transformer.resize_eq_ok.1 hresized
    have harea := Transform.area_lt_of_eq_ok hsource hparams hmode hsize
    obtain ⟨size', hsize', hwidth, hheight⟩ :=
      Transform.calculateResultSize_eq_ok e hsource hparams hmode
    cases Except.ok.inj (hsize.symm.trans hsize')
    rw [hm.size_resize hresize]
    exact ⟨fun h => absurd h hmode, hwidth, fun _ => hheight,
      fun _ => (Transform.checkImageSize_eq_ok harea _).1 hcheck⟩

/-- What a request for an image is answered with in a run with these events. -/
inductive ImageAnswer (params : AppParams) (lib : Restinio) (clk : Clock) (workers : List Mbox)
    (events : List (Event Image)) (key : ResizeRequestKey) (req : RequestHandle)
    (resp : Response) : Prop
  /-- An image that a worker, doing a job for the key, made of the file named by the root directory
  and the path. -/
  | image {m : Magick Image} {e : FloatErrors} {t : Transformer.Timing} {source image : Image}
    {blob : Blob} (hwork : WorkedOn params lib clk workers events key m e t)
    (hread : m.read (makeFullPath params.storage.rootDir key.path) = .ok source)
    (himage : Transformer.transformedImage m params.storage.rootDir e key = .ok image)
    (hblob : m.write image = .ok blob)
    (hsize : m.Lawful → (m.size source).Valid →
      SizeAsked key.params (m.size source) (m.size image))
    (hstatus : resp.statusLine = .statusOk)
    (hbody : resp.body = .image ⟨blob, t.lastModifiedAt⟩)
    (htype : resp.contentType = some (.text (imageContentTypeFromImgFormat key.format)))
  /-- A worker could not do its job for the key. -/
  | failure {m : Magick Image} {e : FloatErrors} {t : Transformer.Timing}
    {reason : FailedResize} (hwork : WorkedOn params lib clk workers events key m e t)
    (hfailed : Transformer.handleResizeRequest m params.storage.rootDir e t key = .failed reason)
    (hstatus : resp.statusLine = .statusNotFound)
  | overloaded (hresp : resp = do503Response req)
  | timedOut (hresp : resp = do504Response req)

/-- Whatever is answered to the requests for images is what they asked for. -/
structure ImagesServed (params : AppParams) (lib : Restinio) (clk : Clock) (workers : List Mbox)
    (events : List (Event Image)) (s : Server) : Prop where
  /-- A request is sent to the manager if it is accepted, with what its query gives, and its path
  leads down from the root directory. -/
  forwarded : ∀ a ∈ s.arrivals, ∀ cmd, .resizeRequest cmd ∈ a.messages →
    (∃ ext q, a.route = .transformOp params.storage.rootDir ext ∧
      lib.parseQuery a.req.query = .ok q ∧
      Accepted lib a.req.path ext q cmd.targetFormat cmd.params) ∧
    cmd = ⟨some a.req.handle, a.req.path, cmd.targetFormat, cmd.params⟩ ∧
    ResolvesUnder params.storage.rootDir a.req.path
      (makeFullPath params.storage.rootDir a.req.path)
  answered : ∀ a ∈ s.arrivals, ∀ cmd, .resizeRequest cmd ∈ a.messages →
    ∀ resp, (a.req.handle, resp) ∈ s.world.env.answered →
      ImageAnswer params lib clk workers events cmd.requestKey a.req.handle resp

/-- The outcome of a worker's job answers a request for its key. -/
theorem imageAnswer_of_worked {key : ResizeRequestKey} {req : RequestHandle} {resp : Response}
    {result : ResizeOutcome} (hparams : key.params.Accepted)
    (hworked : Worked params lib clk workers events key result)
    (hagrees : resp.Agrees (answerSeparately req key result)) :
    ImageAnswer params lib clk workers events key req resp := by
  obtain ⟨m, e, t, hwork, rfl⟩ := hworked
  obtain ⟨hstatus, htype, hbody⟩ := hagrees
  cases hresult : Transformer.handleResizeRequest m params.storage.rootDir e t key with
  | failed reason =>
    rw [hresult] at hstatus
    exact .failure hwork hresult hstatus
  | successful result =>
    rw [hresult] at hstatus htype hbody
    obtain ⟨image, blob, himage, hblob, rfl⟩ :=
      Transformer.handleResizeRequest_eq_successful.1 hresult
    obtain ⟨source, resized, hread, -, -⟩ := Transformer.transformedImage_eq_ok.1 himage
    refine .image hwork hread himage hblob ?_ ?_ ?_ ?_
    · exact fun hm hsource => sizeAsked_of_transformedImage hm hparams hread hsource himage
    · simpa [answerSeparately] using hstatus
    · simpa [answerSeparately] using hbody
    · simpa [answerSeparately] using htype

/-- The parameters of an accepted request were made and checked. -/
theorem params_of_accepted {path ext : CxxString} {q : QueryStringParams} {format : ImageFormat}
    {params : ResizeParams} (h : Accepted lib path ext q format params) : params.Accepted := by
  obtain ⟨width, height, maxSide, -, -, -, hmake, hcheck⟩ :=
    resizeOpParams_eq_ok_iff.1 (resizeOpParams_eq_ok.2 h.params)
  exact ⟨⟨width, height, maxSide, hmake⟩, hcheck⟩

/-- What a handler sends to the manager is among the messages that were sent. -/
theorem Wired.mem_sent {a : Arrival} (ha : a ∈ s.arrivals) {msg : Message}
    (hmsg : msg ∈ a.messages) : msg ∈ s.sent := List.mem_flatMap.2 ⟨a, ha, hmsg⟩

/-- The handler says what is forwarded, and the manager and the worker what is answered. -/
theorem imagesServed_of_run (hrun : run (step params lib clk) (init workers) events = .ok s) :
    ImagesServed params lib clk workers events s := by
  have h := wired_of_run hrun
  have hworked := worked_of_run hrun
  refine ⟨?_, ?_⟩
  · intro a ha cmd hcmd
    obtain ⟨hslash, ext, q, hroute, hquery, haccepted, heq⟩ :=
      accepted_of_handled (h.routed a ha) (h.handled a ha) hcmd
    exact ⟨⟨ext, q, hroute, hquery, haccepted⟩, heq, resolvesUnder_makeFullPath _ hslash
      (hasIllegalPathComponents_eq_false.2 haccepted.path)⟩
  · intro a ha cmd hcmd resp hresp
    obtain ⟨-, ext, q, -, -, haccepted, heq⟩ :=
      accepted_of_handled (h.routed a ha) (h.handled a ha) hcmd
    have hreq : cmd.httpReq = some a.req.handle := h.httpReq_of_mem ha hcmd
    obtain ⟨hnot, hkey⟩ := h.message_of_received (Wired.mem_sent ha hcmd) hreq
    obtain ⟨actions, hactions⟩ := h.world
    have href := World.refines_of_run hactions
    have hr := (ListWorld.inOrder_foldl clk workers actions).requests
    have hanswers := hr.answers (a.req.handle, resp) (href.env ▸ hresp)
    rw [← href.env] at hanswers
    obtain ⟨k, hk, hjustified⟩ | ⟨hdelete, -⟩ := hanswers
    · cases hkey k hk
      obtain hresp | hresp | ⟨res, hres, hreskey, hagrees⟩ := hjustified
      · exact .overloaded hresp
      · exact .timedOut hresp
      · have hwork := hworked res hres
        rw [hreskey] at hwork
        refine imageAnswer_of_worked ?_ hwork hagrees
        exact params_of_accepted haccepted
    · exact absurd hdelete hnot

/-- What a server without a cache and without a queue would make of a key. -/
def plainImage (m : Magick Image) (rootDir : CxxString) (e : FloatErrors) (key : ResizeRequestKey) :
    Except StdException Blob := do
  let image ← Transformer.transformedImage m rootDir e key
  m.write image

/-- If a worker reports a failure, the request of a server without a cache fails with the same
reason. -/
theorem plainImage_of_failed {m : Magick Image} {rootDir : CxxString} {e : FloatErrors}
    {key : ResizeRequestKey} {t : Transformer.Timing} {reason : FailedResize}
    (h : Transformer.handleResizeRequest m rootDir e t key = .failed reason) :
    plainImage m rootDir e key = .error ⟨reason.reason⟩ := by
  unfold Transformer.handleResizeRequest makeBlob at h
  unfold plainImage
  cases himage : Transformer.transformedImage m rootDir e key with
  | error x =>
    rw [himage] at h
    cases h
    rfl
  | ok image =>
    rw [himage, ok_bind] at h
    rw [ok_bind]
    cases hblob : m.write image with
    | error x =>
      rw [hblob] at h
      cases h
      rfl
    | ok blob =>
      rw [hblob] at h
      cases h

/-- Answers to requests for images depend on the requests alone. -/
structure Transparent (params : AppParams) (m : Magick Image) (e : FloatErrors) (s : Server) :
    Prop where
  image : ∀ a ∈ s.arrivals, ∀ cmd, .resizeRequest cmd ∈ a.messages →
    ∀ resp, (a.req.handle, resp) ∈ s.world.env.answered → resp.statusLine = .statusOk →
      ∃ blob lastModifiedAt,
        plainImage m params.storage.rootDir e ⟨a.req.path, cmd.targetFormat, cmd.params⟩ =
          .ok blob ∧ resp.body = .image ⟨blob, lastModifiedAt⟩
  failure : ∀ a ∈ s.arrivals, ∀ cmd, .resizeRequest cmd ∈ a.messages →
    ∀ resp, (a.req.handle, resp) ∈ s.world.env.answered → resp.statusLine = .statusNotFound →
      ∃ x, plainImage m params.storage.rootDir e ⟨a.req.path, cmd.targetFormat, cmd.params⟩ =
        .error x

/-- Where the workers always find the same files, ImageMagick and float operations, each of which
gives the same result for the same operands, the bytes of an image and the failure to make it are
those a server without a cache and queues would have answered with. -/
theorem cache_transparent (params : AppParams) (lib : Restinio) (clk : Clock) (workers : List Mbox)
    (m : Magick Image) (e : FloatErrors) (events : List (Event Image))
    (hsame : ∀ i m' e' t, Event.work i m' e' t ∈ events → m' = m ∧ e' = e) :
    ∃ s, run (step params lib clk) (init workers) events = .ok s ∧ Transparent params m e s := by
  obtain ⟨s, hs, -⟩ := wired_of_events params lib clk workers events
  have hserved := imagesServed_of_run hs
  have hkey : ∀ a ∈ s.arrivals, ∀ cmd, .resizeRequest cmd ∈ a.messages →
      cmd.requestKey = ⟨a.req.path, cmd.targetFormat, cmd.params⟩ := by
    intro a ha cmd hcmd
    rw [(hserved.forwarded a ha cmd hcmd).2.1]
    rfl
  refine ⟨s, hs, ?_, ?_⟩
  · intro a ha cmd hcmd resp hresp hstatus
    have hanswer := hserved.answered a ha cmd hcmd resp hresp
    rw [hkey a ha cmd hcmd] at hanswer
    cases hanswer with
    | @image m' e' t source image blob hwork hread himage hblob hsize hstatus' hbody htype =>
      obtain ⟨i, hevent⟩ := hwork.event_mem
      obtain ⟨rfl, rfl⟩ := hsame i m' e' t hevent
      exact ⟨blob, t.lastModifiedAt, bind_eq_ok.2 ⟨image, himage, hblob⟩, hbody⟩
    | failure hwork hfailed hstatus' => cases hstatus.symm.trans hstatus'
    | overloaded hresp => rw [hresp] at hstatus; cases hstatus
    | timedOut hresp => rw [hresp] at hstatus; cases hstatus
  · intro a ha cmd hcmd resp hresp hstatus
    have hanswer := hserved.answered a ha cmd hcmd resp hresp
    rw [hkey a ha cmd hcmd] at hanswer
    cases hanswer with
    | image hwork hread himage hblob hsize hstatus' hbody htype =>
      cases hstatus.symm.trans hstatus'
    | @failure m' e' t reason hwork hfailed hstatus' =>
      obtain ⟨i, hevent⟩ := hwork.event_mem
      obtain ⟨rfl, rfl⟩ := hsame i m' e' t hevent
      exact ⟨_, plainImage_of_failed hfailed⟩
    | overloaded hresp => rw [hresp] at hstatus; cases hstatus
    | timedOut hresp => rw [hresp] at hstatus; cases hstatus

/-- A photo of 24 to 15 pixels and one of 4 to 3. -/
def photos (name : CxxString) : Option Geometry :=
  if name = cxxString "./a.jpg" then some ⟨24, 15⟩
  else if name = cxxString "./b.jpg" then some ⟨4, 3⟩
  else none

/-- The float operations are exact except that a product of 62.5 comes out too small. -/
def roundedDown : FloatErrors :=
  { FloatErrors.exact with
    product second scale := if second * scale = 125 / 2 then ⟨-1 / 2 ^ 25, by norm_num [abs_of_neg]⟩
      else .zero }

example : Transform.calculateResultSize roundedDown ⟨24, 15⟩ ⟨.width, 100, nofun⟩ =
    .ok ⟨100, 62⟩ ∧
    Transform.calculateResultSize roundedDown ⟨4, 3⟩ ⟨.width, 2, nofun⟩ = .ok ⟨2, 2⟩ := by
  decide +kernel

/-- Two photos are asked for, the first one twice; each is made once, and the floats err for the
first one only. -/
theorem cache_transparent_two_photos : ∃ s,
    run (step {} (.plain fun _ => none) fun n => n) (init [⟨1⟩])
      [.httpGet true (cxxString "/a.jpg") (cxxString "op=resize&width=100") (cxxString "jpg")
          ⟨cxxString "a.jpg", by decide⟩ fun _ => none,
        .message none, .work 0 (.ofSizes photos) roundedDown ⟨7, 5, 0⟩, .resizeResult 0,
        .httpGet true (cxxString "/b.jpg") (cxxString "op=resize&width=2") (cxxString "jpg")
          ⟨cxxString "b.jpg", by decide⟩ fun _ => none,
        .message none, .work 0 (.ofSizes photos) roundedDown ⟨6, 4, 1⟩, .resizeResult 0,
        .httpGet true (cxxString "/a.jpg") (cxxString "op=resize&width=100") (cxxString "jpg")
          ⟨cxxString "a.jpg", by decide⟩ fun _ => none,
        .message none] = .ok s ∧
    Transparent {} (.ofSizes photos) roundedDown s := by
  refine cache_transparent {} (.plain fun _ => none) (fun n => n) [⟨1⟩] _ _ _ ?_
  intro i m e t hwork
  simp only [List.mem_cons, reduceCtorEq, false_or, or_false, Event.work.injEq,
    List.not_mem_nil] at hwork
  obtain ⟨-, hm, he, -⟩ | ⟨-, hm, he, -⟩ := hwork
  · exact ⟨hm, he⟩
  · exact ⟨hm, he⟩

end Server

end Shrimp
