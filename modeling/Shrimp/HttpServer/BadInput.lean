import Shrimp.HttpServer.RequestLanguage

/-!
# Requests with bad input

What a route handler may end with: one disposition of its request, and an error response if the
query string or a number in it cannot be parsed. The handlers parse the query string outside
`try_to_handle_request`, so an exception of `parse_query` leaves them with the request unanswered;
`bad_input_answered_iff` says that this is the only way in which they fail.
-/

namespace Shrimp

namespace HttpServer

/-- The routes of `make_router`, that of the images with the root directory and the extension it
captured. -/
inductive Route
  | transformOp (rootDir ext : CxxString)
  | deleteCache

/-- The handler of a route. -/
def Route.handler (lib : Restinio) : Route → Handler Unit
  | .transformOp rootDir ext => transformOpHandler lib rootDir ext
  | .deleteCache => deleteCacheHandler lib

/-- The parameters whose values a route takes for numbers. -/
def Route.numbers : Route → List String
  | .transformOp _ _ => ["width", "height", "max"]
  | .deleteCache => []

/-! ## What a handler may end with -/

/-- The response tells the client that its request is in error. -/
def Response.IsError (resp : Response) : Prop :=
  resp.statusLine ∈ [.statusBadRequest, .statusForbidden, .statusNotFound]

/-- A request is answered in error or with a file, or a message with its handle goes to the
transform manager. -/
inductive Disposition.Settles (req : HttpRequest) : Disposition → Prop
  | error {resp : Response} (hresp : Response.IsError resp) :
    Settles req (.response req.handle resp)
  | file {resp : Response} {name : CxxString} (hstatus : resp.statusLine = .statusOk)
    (hbody : resp.body = .sendfile name) : Settles req (.response req.handle resp)
  | resizeRequest {cmd : ResizeRequest} (hreq : cmd.httpReq = some req.handle) :
    Settles req (.resizeRequest cmd)
  | deleteCacheRequest {cmd : DeleteCacheRequest} (hreq : cmd.httpReq = some req.handle) :
    Settles req (.deleteCacheRequest cmd)

/-- The request is answered in error. -/
def Disposition.Refuses (req : HttpRequest) (d : Disposition) : Prop :=
  ∃ resp, d = .response req.handle resp ∧ Response.IsError resp

/-- The query string cannot be parsed, or one of its values that should be a number. -/
def Unparsable (lib : Restinio) (route : Route) (req : HttpRequest) : Prop :=
  (∃ x, lib.parseQuery req.query = .error x) ∨
  ∃ qp, lib.parseQuery req.query = .ok qp ∧
    ∃ key ∈ route.numbers, ∃ x, lib.optValue qp key = .error x

/-- The handler ends without an exception and with one disposition, an error response where its
input cannot be parsed. -/
def AnswersBadInput (lib : Restinio) (route : Route) (req : HttpRequest) : Prop :=
  ∃ d owned, (route.handler lib).call req = .ok (.ok (), ⟨owned, [d]⟩) ∧ d.Settles req ∧
    (Unparsable lib route req → d.Refuses req)

section Ways
variable {lib : Restinio} {req : HttpRequest}

/-- 400 tells the client that its request is in error. -/
theorem do400Response_isError (req : RequestHandle) : Response.IsError (do400Response req) :=
  List.mem_cons_self

/-- `serve_as_regular_file` sends the file or tells that there is none. -/
theorem settles_serveAsRegularFile (sendfile : CxxString → Option Int) (rootDir : CxxString)
    (imageFormat : ImageFormat) : Disposition.Settles req
      (.response req.handle (serveAsRegularFile sendfile rootDir req imageFormat)) := by
  unfold serveAsRegularFile
  dsimp only
  split
  · exact .file rfl rfl
  · exact .error (by simp [Response.IsError])

/-- A refusal is right for whatever input there was. -/
theorem AnswersBadInput.of_refused {route : Route}
    (hcall : (route.handler lib).call req = .ok (.ok (), refused req)) :
    AnswersBadInput lib route req :=
  ⟨_, none, hcall, .error (do400Response_isError _), fun _ => ⟨_, rfl, do400Response_isError _⟩⟩

/-- Where all input can be parsed, every end is right. -/
theorem AnswersBadInput.of_parsable {route : Route} {owned : Option HttpRequest} {d : Disposition}
    {qp : QueryStringParams} (hcall : (route.handler lib).call req = .ok (.ok (), ⟨owned, [d]⟩))
    (hd : d.Settles req) (hquery : lib.parseQuery req.query = .ok qp)
    (hnumbers : ∀ key ∈ route.numbers, ∃ value, lib.optValue qp key = .ok value) :
    AnswersBadInput lib route req := by
  refine ⟨d, owned, hcall, hd, ?_⟩
  rintro (⟨x, hx⟩ | ⟨qp', hqp', key, hkey, x, hx⟩)
  · cases hquery.symm.trans hx
  · cases hquery.symm.trans hqp'
    obtain ⟨value, hvalue⟩ := hnumbers key hkey
    cases hvalue.symm.trans hx

/-- The ways through the handler of `add_delete_cache_handler`. -/
theorem call_deleteCacheHandler (lib : Restinio) (req : HttpRequest) :
    (deleteCacheHandler lib).call req =
      match lib.parseQuery req.query with
      | .error x => .ok (.error x, ⟨some req, []⟩)
      | .ok qp => .ok (.ok (), ⟨some req, [match lib.getParam qp "token" with
        | none => .response req.handle (do403Response req.handle "No token provided\r\n")
        | some token => .deleteCacheRequest ⟨some req.handle, token⟩]⟩) := by
  unfold deleteCacheHandler
  rw [call_useReq_bind]
  cases lib.parseQuery req.query with
  | error x => rfl
  | ok qp =>
    simp only [ofExcept_ok_bind]
    cases lib.getParam qp "token" <;> rfl

/-- The handler of the images answers every request it does not throw at. -/
theorem answersBadInput_transformOp {rootDir ext : CxxString}
    (h : (∃ qp, lib.parseQuery req.query = .ok qp) ∨ hasIllegalPathComponents req.path = true) :
    AnswersBadInput lib (.transformOp rootDir ext) req := by
  obtain ⟨result, s, hcall, hway⟩ := call_transformOpHandler lib req rootDir ext
  cases hway with
  | badQuery hpath hquery =>
    rcases h with ⟨qp, hqp⟩ | hillegal
    · cases hquery.symm.trans hqp
    · cases hpath.symm.trans hillegal
  | original hpath hquery hformat =>
    refine .of_parsable hcall (settles_serveAsRegularFile _ _ _) hquery ?_
    exact fun key _ => ⟨none, Restinio.optValue_eq_ok.2 (.inl ⟨lib.getParam_nil key, rfl⟩)⟩
  | resize hpath hquery hne hformat hop hparams =>
    refine .of_parsable hcall (.resizeRequest rfl) hquery ?_
    obtain ⟨width, height, maxSide, hwidth, hheight, hmax, -⟩ := resizeOpParams_eq_ok_iff.1 hparams
    simp only [Route.numbers, List.forall_mem_cons]
    exact ⟨⟨width, hwidth⟩, ⟨height, hheight⟩, ⟨maxSide, hmax⟩, nofun⟩
  | illegalPath | unknownFormat | otherOperation | noOperation | badParams =>
    exact .of_refused hcall

/-- So does that of the cache. -/
theorem answersBadInput_deleteCache {qp : QueryStringParams}
    (hquery : lib.parseQuery req.query = .ok qp) : AnswersBadInput lib .deleteCache req := by
  have hcall := call_deleteCacheHandler lib req
  simp only [hquery] at hcall
  refine .of_parsable hcall ?_ hquery nofun
  cases lib.getParam qp "token" with
  | none => exact .error (by simp [Response.IsError])
  | some token => exact .deleteCacheRequest rfl

/-- An exception that leaves a handler answers nobody. -/
theorem not_answersBadInput {route : Route} {x : StdException} {s : HandlerState}
    (hcall : (route.handler lib).call req = .ok (.error x, s)) :
    ¬ AnswersBadInput lib route req := by
  rintro ⟨d, owned, hcall', -⟩
  cases hcall.symm.trans hcall'

/-- The exception of `parse_query` leaves the handler, before anything is done. -/
theorem call_handler_badQuery {route : Route} {x : StdException}
    (hpath : (∃ rootDir ext, route = .transformOp rootDir ext) →
      hasIllegalPathComponents req.path = false)
    (hquery : lib.parseQuery req.query = .error x) :
    (route.handler lib).call req = .ok (.error x, ⟨some req, []⟩) := by
  cases route with
  | transformOp rootDir ext =>
    show (transformOpHandler lib rootDir ext).call req = _
    unfold transformOpHandler
    rw [call_useReq_bind, if_neg (by simp [hpath ⟨rootDir, ext, rfl⟩]), call_useReq_bind, hquery]
    rfl
  | deleteCache =>
    show (deleteCacheHandler lib).call req = _
    simp only [call_deleteCacheHandler, hquery]

end Ways

/-- The handlers answer a request exactly if its query string can be parsed, or if they look at its
path first and refuse it. -/
theorem bad_input_answered_iff (lib : Restinio) (route : Route) (req : HttpRequest) :
    AnswersBadInput lib route req ↔ (∃ qp, lib.parseQuery req.query = .ok qp) ∨
      (∃ rootDir ext, route = .transformOp rootDir ext) ∧
        hasIllegalPathComponents req.path = true := by
  constructor
  · intro h
    by_contra hnot
    rw [not_or, not_and, Bool.not_eq_true] at hnot
    cases hquery : lib.parseQuery req.query with
    | ok qp => exact hnot.1 ⟨qp, hquery⟩
    | error x => exact not_answersBadInput (call_handler_badQuery hnot.2 hquery) h
  · rintro (⟨qp, hquery⟩ | ⟨⟨rootDir, ext, rfl⟩, hpath⟩)
    · cases route with
      | transformOp rootDir ext => exact answersBadInput_transformOp (.inl ⟨qp, hquery⟩)
      | deleteCache => exact answersBadInput_deleteCache hquery
    · exact answersBadInput_transformOp (.inr hpath)

/-- Neither handler answers a request whose query string has no `=`. -/
theorem bad_query_not_answered :
    ¬ AnswersBadInput (.plain fun _ => none) (.transformOp [] (cxxString "jpg"))
      ⟨⟨0, true⟩, cxxString "/photo.jpg", cxxString "resize"⟩ ∧
    ¬ AnswersBadInput (.plain fun _ => none) .deleteCache
      ⟨⟨0, true⟩, cxxString "/cache", cxxString "token"⟩ := by
  have hresize : (Restinio.plain fun _ => none).parseQuery (cxxString "resize") =
      .error ⟨"invalid format of key-value pairs in query_string"⟩ := by decide +kernel
  have htoken : (Restinio.plain fun _ => none).parseQuery (cxxString "token") =
      .error ⟨"invalid format of key-value pairs in query_string"⟩ := by decide +kernel
  exact ⟨not_answersBadInput (call_handler_badQuery (fun _ => by decide) hresize),
    not_answersBadInput (call_handler_badQuery (fun _ => by decide) htoken)⟩

end HttpServer

end Shrimp
