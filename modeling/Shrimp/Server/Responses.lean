import Shrimp.Server.Images

/-!
# The responses of the server

The code sends nine kinds of responses (`Reply`), and no run of the server sends another
(`reply_of_call`, `replies_foldl`). So what holds of every kind holds of all the server ever sends:
`responses_well_formed` tells what its header, its body and the connection look like.
-/

namespace Shrimp

open Execution HttpServer

/-! ## The kinds of responses -/

/-- The responses the code makes for a request. -/
inductive Reply (req : RequestHandle) : Response → Prop
  | cached (blob : DatasizableBlob) (imgFormat : ImageFormat) :
    Reply req (serveTransformedImage blob imgFormat .cache
      [(shrimpTotalProcessingTimeHf, .text "0")])
  | transformed (result : SuccessfulResize) (imgFormat : ImageFormat) :
    Reply req (serveTransformedImage result.imageBlob imgFormat .transform
      (World.additionalHeaders result))
  | file {sendfile : CxxString → Option Int} {rootDir : CxxString} {httpReq : HttpRequest}
    (imgFormat : ImageFormat) (hreq : httpReq.handle = req) :
    Reply req (serveAsRegularFile sendfile rootDir httpReq imgFormat)
  | deleted : Reply req (do200PlaintextResponse req "Cache deleted\r\n")
  | badRequest : Reply req (do400Response req)
  | forbidden (text : String) : Reply req (do403Response req text)
  | notFound : Reply req (do404Response req)
  | overloaded : Reply req (do503Response req)
  | timedOut : Reply req (do504Response req)

/-- The value of the first header field of a name. -/
def Response.field (resp : Response) (name : HttpField) : Option HttpFieldValue :=
  (resp.headerFields.find? fun hf => hf.1 = name).map Prod.snd

/-- Where the image of a response comes from and how long it took to make it. -/
inductive Response.ImageTimes (resp : Response) : Prop
  | cache (hsrc : resp.field shrimpImageSrcHf = some (.text "cache"))
    (htotal : resp.field shrimpTotalProcessingTimeHf = some (.text "0"))
    (hresize : resp.field shrimpResizeTimeHf = none)
    (hencoding : resp.field shrimpEncodingTimeHf = none)
  | transform {resize encoding : Int}
    (hsrc : resp.field shrimpImageSrcHf = some (.text "transform"))
    (htotal : resp.field shrimpTotalProcessingTimeHf = some (.usToMs (resize + encoding)))
    (hresize : resp.field shrimpResizeTimeHf = some (.usToMs resize))
    (hencoding : resp.field shrimpEncodingTimeHf = some (.usToMs encoding))

/-- The `Content-Type` says that there is an image, sent with its date to any origin. -/
structure Response.ShowsImage (resp : Response) : Prop where
  contentType : ∃ imgFormat,
    resp.contentType = some (.text (imageContentTypeFromImgFormat imgFormat))
  lastModified : ∃ t, resp.field .lastModified = some (.dateField t)
  origin : resp.field .accessControlAllowOrigin = some (.text "*")

/-- What a response to `req` is like. -/
structure Response.WellFormed (req : RequestHandle) (resp : Response) : Prop where
  /-- Every response begins with the same two header fields. -/
  common : [(HttpField.server, HttpFieldValue.text "Shrimp draft server"), (.date, .now)] <+:
    resp.headerFields
  /-- No header field is there twice. -/
  distinct : (resp.headerFields.map Prod.fst).Nodup
  /-- The body is of the type the header names, and goes with the status. -/
  body : match resp.body with
    | .empty => resp.contentType = none ∧ resp.statusLine ∈ [.statusBadRequest, .statusNotFound,
        .statusServiceUnavailable, .statusGatewayTimeOut]
    | .text _ => resp.contentType = some (.text "text/plain; charset=utf-8") ∧
        resp.statusLine ∈ [.statusOk, .statusForbidden]
    | .image blob => resp.statusLine = .statusOk ∧ resp.ShowsImage ∧ resp.ImageTimes ∧
        resp.field .lastModified = some (.dateField blob.lastModifiedAt)
    | .sendfile _ => resp.statusLine = .statusOk ∧ resp.ShowsImage ∧
        resp.field shrimpImageSrcHf = some (.text "sendfile")
  /-- The connection is closed after a request was refused or forbidden, or waited for too long;
  otherwise the client has its way, or an image leaves it to RESTinio. -/
  connection : resp.keepAlive =
    if resp.statusLine ∈ [.statusForbidden, .statusServiceUnavailable, .statusGatewayTimeOut] then
      some false
    else
      match resp.body with
      | .image _ | .sendfile _ => none
      | _ => some req.shouldKeepAlive

/-- The names of all header fields, in order. -/
def allFields : List HttpField :=
  [.server, .date, .lastModified, .accessControlAllowOrigin,
    .named "Access-Control-Expose-Headers", .contentType, shrimpImageSrcHf,
    shrimpTotalProcessingTimeHf, shrimpResizeTimeHf, shrimpEncodingTimeHf]

/-- No header field is named twice. -/
theorem allFields_nodup : allFields.Nodup := by decide

/-- The fields of an error, of a file and of a cached image are the first ones. -/
theorem take_allFields_nodup (n : Nat) : (allFields.take n).Nodup :=
  allFields_nodup.sublist (List.take_sublist n _)

/-- No header field of a text is named twice. -/
theorem textFields_nodup : (allFields.take 2 ++ [HttpField.contentType]).Nodup := by decide

/-- Every response the code makes is well-formed. -/
theorem Reply.wellFormed {req : RequestHandle} {resp : Response} (h : Reply req resp) :
    resp.WellFormed req := by
  have hnotFound : (do404Response req).WellFormed req :=
    ⟨⟨_, rfl⟩, take_allFields_nodup 2, ⟨rfl, by simp⟩, rfl⟩
  cases h with
  | cached blob imgFormat =>
    rw [serveTransformedImage, foldl_appendHeader]
    refine ⟨⟨_, rfl⟩, take_allFields_nodup 8, ⟨rfl, ⟨⟨imgFormat, rfl⟩, ⟨_, rfl⟩, rfl⟩, ?_, rfl⟩,
      rfl⟩
    exact .cache rfl rfl rfl rfl
  | transformed result imgFormat =>
    rw [serveTransformedImage, foldl_appendHeader]
    refine ⟨⟨_, rfl⟩, allFields_nodup, ⟨rfl, ⟨⟨imgFormat, rfl⟩, ⟨_, rfl⟩, rfl⟩, ?_, rfl⟩, rfl⟩
    exact .transform rfl rfl rfl rfl
  | @file sendfile rootDir httpReq imgFormat hreq =>
    rw [serveAsRegularFile]
    cases sendfile (makeFullPath rootDir httpReq.path) with
    | none => exact hreq ▸ hnotFound
    | some lastModified =>
      exact ⟨⟨_, rfl⟩, take_allFields_nodup 7, ⟨rfl, ⟨⟨imgFormat, rfl⟩, ⟨_, rfl⟩, rfl⟩, rfl⟩, rfl⟩
  | deleted => exact ⟨⟨_, rfl⟩, textFields_nodup, ⟨rfl, by simp⟩, rfl⟩
  | badRequest => exact ⟨⟨_, rfl⟩, take_allFields_nodup 2, ⟨rfl, by simp⟩, rfl⟩
  | forbidden text => exact ⟨⟨_, rfl⟩, textFields_nodup, ⟨rfl, by simp⟩, rfl⟩
  | notFound => exact hnotFound
  | overloaded => exact ⟨⟨_, rfl⟩, take_allFields_nodup 2, ⟨rfl, by simp⟩, rfl⟩
  | timedOut => exact ⟨⟨_, rfl⟩, take_allFields_nodup 2, ⟨rfl, by simp⟩, rfl⟩

/-! ## What the manager sends -/

/-- All answers are responses the code makes for their requests. -/
def Environment.Replies (env : Environment) : Prop := ∀ p ∈ env.answered, Reply p.1 p.2

namespace ListWorld

variable {clk : Clock} {s : ListWorld}

/-- Where nothing is answered all answers stay of one of the kinds. -/
theorem replies_of_eq {env env' : Environment} (h : env.Replies)
    (hanswered : env'.answered = env.answered) : env'.Replies := by
  rwa [Environment.Replies, hanswered]

/-- One more answer is no harm if it is of one of the kinds. -/
theorem replies_concat {env env' : Environment} {req : RequestHandle} {resp : Response}
    (h : env.Replies) (hanswered : env'.answered = env.answered ++ [(req, resp)])
    (hresp : Reply req resp) : env'.Replies := by
  intro p hp
  rw [hanswered] at hp
  obtain hp | hp := List.mem_append.1 hp
  · exact h p hp
  · cases List.mem_singleton.1 hp
    exact hresp

/-- Nor is it to answer all requests of a list, each with a response of one of the kinds. -/
theorem replies_answer {respond : Entry ResizeRequestKey RequestHandle → Response}
    {l : RequestList} (h : s.env.Replies) (hrespond : ∀ e, Reply e.value (respond e)) :
    (answer respond l s).env.Replies := by
  intro p hp
  obtain hp | hp := List.mem_append.1 hp
  · exact h p hp
  · obtain ⟨e, -, rfl⟩ := List.mem_map.1 hp
    exact hrespond e

/-- Dispatching does not answer anything. -/
theorem replies_tryInitiate (h : s.env.Replies) : (s.tryInitiate clk).env.Replies :=
  replies_of_eq h (sameLog_tryInitiate clk s).answered

/-- A request for an image is answered from the cache, or with 503, or not yet. -/
theorem replies_onResizeRequest (h : s.env.Replies) (req : RequestHandle)
    (key : ResizeRequestKey) : (s.onResizeRequest clk req key).env.Replies := by
  obtain ⟨e, -, -, heq⟩ | ⟨-, -, heq⟩ | ⟨-, -, -, heq⟩ | ⟨-, -, -, -, heq⟩ |
    ⟨-, -, -, -, heq⟩ := onResizeRequest_cases clk s req key <;> rw [heq]
  · exact replies_concat h rfl (.cached e.value e.key.format)
  · exact replies_of_eq h rfl
  · exact replies_of_eq h rfl
  · exact replies_tryInitiate (replies_of_eq h rfl)
  · exact replies_concat h rfl .overloaded

/-- A result is passed on to all who waited for it: the image, or 404. -/
theorem replies_onResizeResult (h : s.env.Replies) (cmd : ResizeResult) :
    (s.onResizeResult clk cmd).env.Replies := by
  have htry : ((s.pushFreeWorker cmd.worker).tryInitiate clk).env.Replies :=
    replies_tryInitiate (replies_of_eq h rfl)
  cases hresult : cmd.result with
  | successful result =>
    simp only [ListWorld.onResizeResult, ListWorld.finish, hresult]
    exact replies_answer (replies_of_eq htry rfl) fun e => .transformed result cmd.key.format
  | failed result =>
    simp only [ListWorld.onResizeResult, ListWorld.finish, hresult]
    exact replies_answer (replies_of_eq htry rfl) fun e => .notFound

/-- Whatever an action answers is of one of the kinds. -/
theorem replies_next (clk : Clock) (h : s.env.Replies) (a : World.Action) :
    (s.next clk a).env.Replies := by
  cases a with
  | resizeRequest keepAlive image targetFormat params =>
    exact replies_onResizeRequest (s := { s with env := s.env.receive _ _ }) h _ _
  | deleteCacheRequest keepAlive token envToken =>
    rw [ListWorld.next]
    obtain ⟨-, heq⟩ | ⟨-, text, heq⟩ := onDeleteCacheRequest_cases _ envToken _ token <;> rw [heq]
    · exact replies_concat h rfl .deleted
    · exact replies_of_eq h rfl
  | transform i result =>
    rw [ListWorld.next]
    split <;> exact replies_of_eq h rfl
  | resizeResult i =>
    rw [ListWorld.next]
    split
    case h_1 cmd hcmd =>
      exact replies_onResizeResult (s := { s with env := s.env.deliverResult i }) h cmd
    case h_2 => exact h
  | negativeDeleteCacheResponse i =>
    rw [ListWorld.next]
    split
    case h_1 cmd hcmd => exact replies_concat h rfl (.forbidden cmd.responseText)
    case h_2 => exact h
  | clearCache => exact replies_of_eq h rfl
  | checkPendingRequests => exact replies_answer (replies_of_eq h rfl) fun e => .timedOut

/-- In every run all that was answered is of one of the kinds. -/
theorem replies_foldl (clk : Clock) (workers : List Mbox) (actions : List World.Action) :
    (actions.foldl (next clk) (init workers)).env.Replies :=
  foldl_invariant (fun s : ListWorld => s.env.Replies) (fun _ a h => replies_next clk h a) actions _
    fun _ hp => absurd hp List.not_mem_nil

end ListWorld

/-! ## What the handlers send -/

/-- A handler that answers a request answers its own, with a response the code makes. -/
theorem reply_of_call {lib : Restinio} {route : Route} {httpReq : HttpRequest}
    {result : Except StdException Unit} {state : HandlerState}
    (hcall : (route.handler lib).call httpReq = .ok (result, state)) {req : RequestHandle}
    {resp : Response} (hresp : .response req resp ∈ state.done) :
    req = httpReq.handle ∧ Reply req resp := by
  cases route with
  | transformOp rootDir ext =>
    obtain ⟨result', state', hcall', hway⟩ := call_transformOpHandler lib httpReq rootDir ext
    cases hcall.symm.trans hcall'
    cases hway with
    | badQuery => cases hresp
    | resize => cases List.mem_singleton.1 hresp
    | original =>
      cases List.mem_singleton.1 hresp
      exact ⟨rfl, .file _ rfl⟩
    | _ =>
      cases List.mem_singleton.1 hresp
      exact ⟨rfl, .badRequest⟩
  | deleteCache =>
    have hcall' := hcall.symm.trans (call_deleteCacheHandler lib httpReq)
    cases hquery : lib.parseQuery httpReq.query with
    | error x =>
      simp only [hquery] at hcall'
      cases hcall'
      cases hresp
    | ok qp =>
      simp only [hquery] at hcall'
      cases hcall'
      have hdone := List.mem_singleton.1 hresp
      cases htoken : lib.getParam qp "token" with
      | none =>
        simp only [htoken] at hdone
        cases hdone
        exact ⟨rfl, .forbidden _⟩
      | some token =>
        simp only [htoken] at hdone
        cases hdone

/-! ## What the server sends -/

namespace Server

/-- The response was sent for the request, by its handler or by the manager. -/
inductive Sent (s : Server) (req : RequestHandle) (resp : Response) : Prop
  | handler {a : Arrival} (ha : a ∈ s.arrivals) (hresp : .response req resp ∈ a.done)
  | manager (hresp : (req, resp) ∈ s.world.env.answered)

/-- In every run of the server every response it sends is of one of the kinds, and well-formed; a
handler answers its own request only. -/
theorem responses_well_formed {Image : Type} (params : AppParams) (lib : Restinio) (clk : Clock)
    (workers : List Mbox) (events : List (Event Image)) :
    ∃ s, run (step params lib clk) (init workers) events = .ok s ∧
      (∀ req resp, s.Sent req resp → Reply req resp ∧ resp.WellFormed req) ∧
      ∀ a ∈ s.arrivals, ∀ req resp, .response req resp ∈ a.done → req = a.req.handle := by
  obtain ⟨s, hs, h⟩ := wired_of_events params lib clk workers events
  have hhandler : ∀ a ∈ s.arrivals, ∀ req resp, .response req resp ∈ a.done →
      req = a.req.handle ∧ Reply req resp := by
    intro a ha req resp hresp
    obtain ⟨files, owned, hcall⟩ := h.handled a ha
    exact reply_of_call hcall hresp
  refine ⟨s, hs, ?_, fun a ha req resp hresp => (hhandler a ha req resp hresp).1⟩
  intro req resp hsent
  have hreply : Reply req resp := by
    cases hsent with
    | handler ha hresp => exact (hhandler _ ha req resp hresp).2
    | manager hresp =>
      obtain ⟨actions, hactions⟩ := h.world
      have href := World.refines_of_run hactions
      exact ListWorld.replies_foldl clk workers actions (req, resp) (href.env ▸ hresp)
  exact ⟨hreply, hreply.wellFormed⟩

end Server

end Shrimp
