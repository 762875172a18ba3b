import Shrimp.Lib.Execution
import Shrimp.TransformManager.World

/-!
# The HTTP-server

The route handlers of `http_server.cpp`. A handler runs with the handle of its request and may
answer the request or send a message to the transform manager; it may throw a `std::exception`, and
to use the handle after it was moved out is a fault. What RESTinio does with strings and files is a
parameter.
-/

namespace Shrimp

namespace HttpServer

open Execution

/-! ## RESTinio -/

/-- `restinio::query_string_params_t`, names and values in the order of the query string. -/
abbrev QueryStringParams := List (CxxString × CxxString)

/-- The functions of RESTinio the handlers call, with what they rely on: `parse_query`; `get_param`,
with the name as a literal, which gives the value of a parameter if the query has it;
`cast_to<std::uint32_t>`; `opt_value<std::uint32_t>`, which casts the value of a parameter if the
query has it; and `sendfile`, which gives the time of the last modification of a file, or nothing if
it throws. -/
structure Restinio where
  parseQuery : CxxString → Except StdException QueryStringParams
  getParam : QueryStringParams → String → Option CxxString
  castToUInt32 : CxxString → Except StdException UInt32
  optValue : QueryStringParams → String → Except StdException (Option UInt32)
  sendfile : CxxString → Option Int
  getParam_spec : ∀ qp key,
    (∃ value, getParam qp key = some value ∧ (cxxString key, value) ∈ qp) ∨
    getParam qp key = none ∧ ∀ value, (cxxString key, value) ∉ qp
  optValue_eq : ∀ qp key, optValue qp key = (getParam qp key).mapM castToUInt32

/-- The value of the first parameter of a name. -/
def firstParam (qp : QueryStringParams) (key : String) : Option CxxString :=
  (qp.find? fun p => p.1 = cxxString key).map Prod.snd

/-- A first parameter of a name is found exactly if there is one. -/
theorem firstParam_spec (qp : QueryStringParams) (key : String) :
    (∃ value, firstParam qp key = some value ∧ (cxxString key, value) ∈ qp) ∨
    firstParam qp key = none ∧ ∀ value, (cxxString key, value) ∉ qp := by
  cases hfind : qp.find? fun p => p.1 = cxxString key with
  | some p =>
    have hkey : p.1 = cxxString key := by simpa using List.find?_some hfind
    exact .inl ⟨p.2, congrArg (Option.map Prod.snd) hfind,
      hkey ▸ List.mem_of_find?_eq_some hfind⟩
  | none =>
    refine .inr ⟨congrArg (Option.map Prod.snd) hfind, fun value hvalue => ?_⟩
    simpa using List.find?_eq_none.1 hfind _ hvalue

/-- The number a text of decimal digits shows. -/
def castDecimal (value : CxxString) : Except StdException UInt32 :=
  let n := value.foldl (fun n ch => 10 * n + (ch.toNat - 48)) 0
  if value ≠ [] ∧ (value.all fun ch => 48 ≤ ch && ch ≤ 57) ∧ n < UInt32.size then
    .ok (UInt32.ofNat n)
  else
    .error ⟨"invalid value"⟩

/-- Query strings without percent-encoding, decimal numbers, and the given files. -/
def Restinio.plain (files : CxxString → Option Int) : Restinio where
  parseQuery query :=
    if query = [] then
      .ok []
    else
      (query.splitOn '&'.val.toUInt8).mapM fun pair =>
        match pair.splitOn '='.val.toUInt8 with
        | [name, value] => .ok (name, value)
        | _ => .error ⟨"invalid format of key-value pairs in query_string"⟩
  getParam := firstParam
  castToUInt32 := castDecimal
  optValue qp key := (firstParam qp key).mapM castDecimal
  sendfile := files
  getParam_spec := firstParam_spec
  optValue_eq _ _ := rfl

namespace Restinio

/-- An empty query has no parameters. -/
@[simp] theorem getParam_nil (lib : Restinio) (key : String) : lib.getParam [] key = none := by
  obtain ⟨value, -, hmem⟩ | ⟨hnone, -⟩ := lib.getParam_spec [] key
  · cases hmem
  · exact hnone

/-- A parameter has a number if it is given and its value can be cast, and none if it is not
given. -/
theorem optValue_eq_ok {lib : Restinio} {qp : QueryStringParams} {key : String}
    {value : Option UInt32} : lib.optValue qp key = .ok value ↔
      lib.getParam qp key = none ∧ value = none ∨
      ∃ text n, lib.getParam qp key = some text ∧ lib.castToUInt32 text = .ok n ∧
        value = some n := by
  rw [lib.optValue_eq]
  cases lib.getParam qp key with
  | none => simp [pure, Except.pure, eq_comm]
  | some text =>
    cases hcast : lib.castToUInt32 text with
    | error x => simp [hcast]
    | ok n => simp [hcast, eq_comm]

end Restinio

/-! ## Running a handler -/

/-- What becomes of a request: a response, or a message to the transform manager. -/
inductive Disposition
  | response (req : RequestHandle) (resp : Response)
  | resizeRequest (cmd : ResizeRequest)
  | deleteCacheRequest (cmd : DeleteCacheRequest)
deriving DecidableEq, Repr

/-- The handle a handler owns, `none` once it was moved out, and what the handler did so far. -/
structure HandlerState where
  req : Option HttpRequest
  done : List Disposition
deriving DecidableEq, Repr

/-- A handler. What it did before it throws remains done. -/
abbrev Handler := ExceptT StdException (StateT HandlerState (Except Fault))

/-- Calls the handler for a request. -/
def Handler.call (handler : Handler Unit) (req : HttpRequest) :
    Except Fault (Except StdException Unit × HandlerState) :=
  handler.run.run ⟨some req, []⟩

/-- A call of a function that may throw. -/
def ofExcept {α : Type} (x : Except StdException α) : Handler α := ExceptT.mk (pure x)

/-- A use of `req`. -/
def useReq : Handler HttpRequest := do
  match (← get).req with
  | some req => return req
  | none => throwThe Fault .movedHandle

/-- `std::move( req )`. -/
def moveReq : Handler HttpRequest := do
  let req ← useReq
  modify fun s => { s with req := none }
  return req

/-- A response is sent, or a message. -/
def finish (d : Disposition) : Handler Unit := modify fun s => { s with done := s.done ++ [d] }

/-- `do_400_response( std::move( req ) )`. -/
def refuse : Handler Unit := do
  let req ← moveReq
  finish (.response req.handle (do400Response req.handle))

/-- `try_to_handle_request`. -/
def tryToHandleRequest (handler : Handler Unit) : Handler Unit :=
  tryCatchThe StdException handler fun _ => refuse

/-! ## The handlers -/

/-- `tolower`, in the "C" locale. -/
def tolower (ch : UInt8) : UInt8 := if 65 ≤ ch ∧ ch ≤ 90 then ch + 32 else ch

/-- `image_format_from_extension`. -/
def imageFormatFromExtension (ext : CxxString) : Option ImageFormat :=
  let compareWith (what : String) : Bool :=
    ext.isEqv (cxxString what) fun ch₁ ch₂ => tolower ch₁ = tolower ch₂
  if compareWith "jpg" || compareWith "jpeg" then
    some .jpeg
  else if compareWith "png" then
    some .png
  else if compareWith "gif" then
    some .gif
  else if compareWith "webp" then
    some .webp
  else if compareWith "heic" then
    some .heic
  else
    none

/-- `try_detect_target_image_format`. -/
def tryDetectTargetImageFormat (imageExt : CxxString) (targetFormat : Option CxxString) :
    Option ImageFormat :=
  match targetFormat with
  | some targetFormat => imageFormatFromExtension targetFormat
  | none => imageFormatFromExtension imageExt

/-- `has_illegal_path_components`. -/
def hasIllegalPathComponents (path : CxxString) : Bool :=
  cxxString ".." <:+: path || cxxString "//" <:+: path

section Handlers
variable (lib : Restinio)

/-- `handle_resize_op_request`. -/
def handleResizeOpRequest (imageFormat : ImageFormat) (qp : QueryStringParams) : Handler Unit :=
  tryToHandleRequest do
    let opParams ← ofExcept (ResizeParams.make
      (← ofExcept (lib.optValue qp "width"))
      (← ofExcept (lib.optValue qp "height"))
      (← ofExcept (lib.optValue qp "max")))
    ofExcept (ResizeParamsConstraints.check {} opParams)
    let imagePath := (← useReq).path
    let req ← moveReq
    finish (.resizeRequest ⟨some req.handle, imagePath, imageFormat, opParams⟩)

/-- The handler of `add_transform_op_handler`, where `ext` is the parameter of the route. -/
def transformOpHandler (rootDir ext : CxxString) : Handler Unit := do
  if hasIllegalPathComponents (← useReq).path then
    -- Invalid path.
    refuse
  else
    -- Query params.
    let qp ← ofExcept (lib.parseQuery (← useReq).query)
    let targetFormat := lib.getParam qp "target-format"
    match tryDetectTargetImageFormat ext targetFormat with
    | none =>
      -- Target format of an image is unspecified or unknown.
      refuse
    | some imageFormat =>
      if qp.length = 0 then
        -- No query string => serve original file.
        let req ← moveReq
        finish (.response req.handle (serveAsRegularFile lib.sendfile rootDir req imageFormat))
      else
        let operation := lib.getParam qp "op"
        if operation.any (· ≠ cxxString "resize") then
          -- Only resize operation is supported.
          refuse
        else if operation.isNone && targetFormat.isNone then
          -- op=resize or target-format=something must be defined.
          refuse
        else
          handleResizeOpRequest lib imageFormat qp

/-- The handler of `add_delete_cache_handler`. -/
def deleteCacheHandler : Handler Unit := do
  let qp ← ofExcept (lib.parseQuery (← useReq).query)
  match lib.getParam qp "token" with
  | none =>
    let req ← useReq
    finish (.response req.handle (do403Response req.handle "No token provided\r\n"))
  | some token =>
    -- Delegate request processing to transform_manager.
    let req ← useReq
    finish (.deleteCacheRequest ⟨some req.handle, token⟩)

end Handlers

/-! ## What the handlers do -/

section Calls
variable (lib : Restinio) (req : HttpRequest)

/-- A path is legal if neither two dots nor two slashes in a row are in it. -/
theorem hasIllegalPathComponents_eq_false {path : CxxString} :
    hasIllegalPathComponents path = false ↔
      ¬ cxxString ".." <:+: path ∧ ¬ cxxString "//" <:+: path := by
  simp [hasIllegalPathComponents]

/-- The parameters `handle_resize_op_request` makes of a query string. -/
def resizeOpParams (qp : QueryStringParams) : Except StdException ResizeParams := do
  let opParams ← ResizeParams.make (← lib.optValue qp "width") (← lib.optValue qp "height")
    (← lib.optValue qp "max")
  ResizeParamsConstraints.check {} opParams
  return opParams

@[simp] theorem ofExcept_ok_bind {α β : Type} (x : α) (f : α → Handler β) :
    (ofExcept (.ok x) >>= f) = f x := rfl

/-- To refuse a request answers it with 400 and moves its handle out. -/
theorem call_refuse :
    refuse.call req = .ok (.ok (), ⟨none, [.response req.handle (do400Response req.handle)]⟩) := rfl

/-- The parameters are sent to the manager, or it threw and the client is told. -/
theorem call_handleResizeOpRequest (imageFormat : ImageFormat) (qp : QueryStringParams) :
    (handleResizeOpRequest lib imageFormat qp).call req = .ok (.ok (), ⟨none,
      [match resizeOpParams lib qp with
        | .ok params => .resizeRequest ⟨some req.handle, req.path, imageFormat, params⟩
        | .error _ => .response req.handle (do400Response req.handle)]⟩) := by
  unfold handleResizeOpRequest resizeOpParams
  cases lib.optValue qp "width" with
  | error x => rfl
  | ok width =>
    cases lib.optValue qp "height" with
    | error x => rfl
    | ok height =>
      cases lib.optValue qp "max" with
      | error x => rfl
      | ok maxSide =>
        simp only [ofExcept_ok_bind, ok_bind]
        cases ResizeParams.make width height maxSide with
        | error x => rfl
        | ok params =>
          simp only [ofExcept_ok_bind, ok_bind]
          cases ResizeParamsConstraints.check {} params with
          | error x => rfl
          | ok => rfl

/-- The answer 400 as the only thing done. -/
def refused : HandlerState := ⟨none, [.response req.handle (do400Response req.handle)]⟩

/-- The ways through the handler of `add_transform_op_handler`, with what it looked at on each of
them, what it ended with and what it did. -/
inductive TransformOp (rootDir ext : CxxString) : Except StdException Unit → HandlerState → Prop
  | illegalPath (hpath : hasIllegalPathComponents req.path = true) :
    TransformOp rootDir ext (.ok ()) (refused req)
  | badQuery {x : StdException} (hpath : hasIllegalPathComponents req.path = false)
    (hquery : lib.parseQuery req.query = .error x) :
    TransformOp rootDir ext (.error x) ⟨some req, []⟩
  | unknownFormat {qp : QueryStringParams} (hpath : hasIllegalPathComponents req.path = false)
    (hquery : lib.parseQuery req.query = .ok qp)
    (hformat : tryDetectTargetImageFormat ext (lib.getParam qp "target-format") = none) :
    TransformOp rootDir ext (.ok ()) (refused req)
  | original {imageFormat : ImageFormat} (hpath : hasIllegalPathComponents req.path = false)
    (hquery : lib.parseQuery req.query = .ok [])
    (hformat : tryDetectTargetImageFormat ext none = some imageFormat) :
    TransformOp rootDir ext (.ok ()) ⟨none,
      [.response req.handle (serveAsRegularFile lib.sendfile rootDir req imageFormat)]⟩
  | otherOperation {qp : QueryStringParams} {op : CxxString}
    (hpath : hasIllegalPathComponents req.path = false)
    (hquery : lib.parseQuery req.query = .ok qp) (hne : qp ≠ [])
    (hop : lib.getParam qp "op" = some op) (hresize : op ≠ cxxString "resize") :
    TransformOp rootDir ext (.ok ()) (refused req)
  | noOperation {qp : QueryStringParams} (hpath : hasIllegalPathComponents req.path = false)
    (hquery : lib.parseQuery req.query = .ok qp) (hne : qp ≠ [])
    (hop : lib.getParam qp "op" = none) (htarget : lib.getParam qp "target-format" = none) :
    TransformOp rootDir ext (.ok ()) (refused req)
  | badParams {qp : QueryStringParams} {x : StdException}
    (hpath : hasIllegalPathComponents req.path = false)
    (hquery : lib.parseQuery req.query = .ok qp) (hne : qp ≠ [])
    (hparams : resizeOpParams lib qp = .error x) :
    TransformOp rootDir ext (.ok ()) (refused req)
  | resize {qp : QueryStringParams} {imageFormat : ImageFormat} {params : ResizeParams}
    (hpath : hasIllegalPathComponents req.path = false)
    (hquery : lib.parseQuery req.query = .ok qp) (hne : qp ≠ [])
    (hformat : tryDetectTargetImageFormat ext (lib.getParam qp "target-format") = some imageFormat)
    (hop : lib.getParam qp "op" = some (cxxString "resize") ∨
      lib.getParam qp "op" = none ∧ (lib.getParam qp "target-format").isSome)
    (hparams : resizeOpParams lib qp = .ok params) :
    TransformOp rootDir ext (.ok ())
      ⟨none, [.resizeRequest ⟨some req.handle, req.path, imageFormat, params⟩]⟩

/-- A handler that still has its request may use it. -/
theorem call_useReq_bind (f : HttpRequest → Handler Unit) :
    (useReq >>= f).call req = (f req).call req := rfl

/-- The last part of the way, where the operation is known to be a resize. -/
theorem call_transformOpHandler_resize {rootDir ext : CxxString} {qp : QueryStringParams}
    {imageFormat : ImageFormat} (hpath : hasIllegalPathComponents req.path = false)
    (hquery : lib.parseQuery req.query = .ok qp) (hne : qp ≠ [])
    (hformat : tryDetectTargetImageFormat ext (lib.getParam qp "target-format") = some imageFormat)
    (hop : lib.getParam qp "op" = some (cxxString "resize") ∨
      lib.getParam qp "op" = none ∧ (lib.getParam qp "target-format").isSome) :
    ∃ result s, (handleResizeOpRequest lib imageFormat qp).call req = .ok (result, s) ∧
      TransformOp lib req rootDir ext result s := by
  rw [call_handleResizeOpRequest]
  cases hparams : resizeOpParams lib qp with
  | error x => exact ⟨_, _, rfl, .badParams hpath hquery hne hparams⟩
  | ok params => exact ⟨_, _, rfl, .resize hpath hquery hne hformat hop hparams⟩

/-- The handler goes one of the ways. -/
theorem call_transformOpHandler (rootDir ext : CxxString) : ∃ result s,
    (transformOpHandler lib rootDir ext).call req = .ok (result, s) ∧
      TransformOp lib req rootDir ext result s := by
  unfold transformOpHandler
  rw [call_useReq_bind]
  by_cases hpath : hasIllegalPathComponents req.path = true
  · rw [if_pos hpath]
    exact ⟨_, _, call_refuse req, .illegalPath hpath⟩
  rw [if_neg hpath, call_useReq_bind]
  rw [Bool.not_eq_true] at hpath
  cases hquery : lib.parseQuery req.query with
  | error x => exact ⟨_, _, rfl, .badQuery hpath hquery⟩
  | ok qp =>
    simp only [ofExcept_ok_bind]
    cases hformat : tryDetectTargetImageFormat ext (lib.getParam qp "target-format") with
    | none => exact ⟨_, _, call_refuse req, .unknownFormat hpath hquery hformat⟩
    | some imageFormat =>
      by_cases hempty : qp = []
      · subst hempty
        rw [lib.getParam_nil] at hformat
        exact ⟨_, _, rfl, .original hpath hquery hformat⟩
      simp only [List.length_eq_zero_iff, if_neg hempty]
      cases hop : lib.getParam qp "op" with
      | none =>
        cases htarget : lib.getParam qp "target-format" with
        | none => exact ⟨_, _, call_refuse req, .noOperation hpath hquery hempty hop htarget⟩
        | some target =>
          exact call_transformOpHandler_resize lib req hpath hquery hempty hformat
            (.inr ⟨hop, by rw [htarget]; rfl⟩)
      | some op =>
        by_cases hresize : op = cxxString "resize"
        · subst hresize
          simp only [Option.any_some, ne_eq, not_true_eq_false, decide_false, Bool.false_eq_true,
            if_false, Option.isNone_some, Bool.false_and]
          exact call_transformOpHandler_resize lib req hpath hquery hempty hformat (.inl hop)
        · have hother : (some op).any (· ≠ cxxString "resize") = true := by simp [hresize]
          rw [if_pos hother]
          exact ⟨_, _, call_refuse req, .otherOperation hpath hquery hempty hop hresize⟩

end Calls

end HttpServer

end Shrimp
