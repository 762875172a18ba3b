import Shrimp.Lib.Execution
import Shrimp.TransformManager.World

/-!
# The handlers of the transform manager

The member functions of `a_transform_manager_t` as in `a_transform_manager.cpp`, each taking the
world to the world it leaves, and `a_transformer_t::on_resize_request`. A log message does nothing
but use the handles and tokens it shows. `World.step` lets one thing happen: a request arrives, a
worker does a job, a message in flight reaches the manager, or a timer ticks.
-/

namespace Shrimp

/-- `a_transformer_t::on_resize_request`, where `handle_resize_request` returned `result`. -/
def Transformer.onResizeRequest (cmd : Transformer.ResizeRequest) (result : ResizeOutcome) :
    ResizeResult := ⟨cmd.worker, cmd.key, result⟩

namespace World

open Execution

variable (clk : Clock)

/-! ## Dispatching -/

/-- The loop body of `try_initiate_pending_requests_processing`. -/
def initiateNext (w : World) : Except Fault (ForInStep World) := do
  if !w.manager.freeWorkers.isEmpty && !w.manager.pendingRequests.empty then
    let atoken ← optionalValue (← w.manager.pendingRequests.oldest)
    let key ← w.manager.pendingRequests.key atoken
    let (pendingRequests, values) ← w.manager.pendingRequests.extractValuesForKey atoken
    let (inprogressRequests, env) := values.foldl
      (fun s value => (s.1.insert (clk s.2.reads) key value, s.2.tick 1))
      (w.manager.inprogressRequests, w.env)
    -- Allocate a worker for that image.
    match w.manager.freeWorkers with
    | [] => throw .emptyStack
    | worker :: freeWorkers =>
      return .yield {
        manager := { w.manager with pendingRequests, inprogressRequests, freeWorkers }
        env := env.sendJob worker key }
  else
    return .done w

/-- `try_initiate_pending_requests_processing`. Every pass takes a worker. -/
def tryInitiatePendingRequestsProcessing (w : World) : Except Fault World :=
  loop .diverged (initiateNext clk) (w.manager.freeWorkers.length + 1) w

/-! ## Requests -/

/-- `handle_request_for_already_transformed_image`. -/
def handleRequestForAlreadyTransformedImage (w : World) (cmd : ResizeRequest)
    (atoken : AccessToken) : Except Fault World := do
  let _ ← w.manager.transformedCache.key atoken
  -- Access time for the cached image should be updated on every access.
  let transformedCache ← w.manager.transformedCache.updateAccessTime (clk w.env.reads) atoken
  let w : World := ⟨{ w.manager with transformedCache }, w.env.tick 1⟩
  let req ← requestHandle cmd.httpReq
  let blob ← w.manager.transformedCache.value atoken
  return w.answer req (serveTransformedImage blob cmd.targetFormat .cache
    [(shrimpTotalProcessingTimeHf, .text "0")])

/-- `handle_not_transformed_image`. -/
def handleNotTransformedImage (w : World) (requestKey : ResizeRequestKey) (cmd : ResizeRequest) :
    Except Fault World := do
  let storeTo (queue : PendingRequestQueue) := queue.insert (clk w.env.reads) requestKey cmd
  if w.manager.inprogressRequests.hasKey requestKey then
    -- Same request is already in progress.
    let inprogressRequests := storeTo w.manager.inprogressRequests
    return ⟨{ w.manager with inprogressRequests }, w.env.tick 1⟩
  else if w.manager.pendingRequests.hasKey requestKey then
    -- Same request is already pending for free worker.
    let pendingRequests := storeTo w.manager.pendingRequests
    return ⟨{ w.manager with pendingRequests }, w.env.tick 1⟩
  else if w.manager.pendingRequests.uniqueKeys < maxPendingRequests then
    -- This is a new request and we can store it as pending request.
    let pendingRequests := storeTo w.manager.pendingRequests
    tryInitiatePendingRequestsProcessing clk ⟨{ w.manager with pendingRequests }, w.env.tick 1⟩
  else
    -- We are overloaded.
    let req ← requestHandle cmd.httpReq
    return w.answer req (do503Response req)

/-- `on_resize_request`. -/
def onResizeRequest (w : World) (cmd : ResizeRequest) : Except Fault World := do
  let requestKey := cmd.requestKey
  let _ ← requestHandle cmd.httpReq
  match w.manager.transformedCache.lookup requestKey with
  | some atoken => w.handleRequestForAlreadyTransformedImage clk cmd atoken
  | none => w.handleNotTransformedImage clk requestKey cmd

/-! ## Results -/

/-- The loop body of `store_transformed_image_to_cache`. -/
def evictOldest (w : World) : Except Fault (ForInStep World) := do
  if maxTransformedCacheMemorySize < w.manager.transformedCacheMemorySize &&
      1 < w.manager.transformedCache.size then
    let atoken ← optionalValue (← w.manager.transformedCache.oldest)
    let blob ← w.manager.transformedCache.value atoken
    let transformedCacheMemorySize := w.manager.transformedCacheMemorySize - blob.size
    let transformedCache ← w.manager.transformedCache.erase atoken
    return .yield { w with
      manager := { w.manager with transformedCacheMemorySize, transformedCache } }
  else
    return .done w

/-- `store_transformed_image_to_cache`. -/
def storeTransformedImageToCache (w : World) (key : ResizeRequestKey)
    (imageBlob : DatasizableBlob) : Except Fault World :=
  -- Precalculate the new size of a cache.
  let updatedCacheSize := w.manager.transformedCacheMemorySize + imageBlob.size
  let transformedCache := w.manager.transformedCache.insert (clk w.env.reads) key imageBlob
  let w : World := {
    manager := { w.manager with transformedCache, transformedCacheMemorySize := updatedCacheSize }
    env := (w.env.tick 1).store key imageBlob }
  -- Some old images must be removed; every pass removes one.
  loop .diverged evictOldest (w.manager.transformedCache.size + 1) w

/-- The world in which the loop of `store_transformed_image_to_cache` starts. -/
def insertImage (w : World) (key : ResizeRequestKey) (imageBlob : DatasizableBlob) : World where
  manager := { w.manager with
    transformedCache := w.manager.transformedCache.insert (clk w.env.reads) key imageBlob
    transformedCacheMemorySize := w.manager.transformedCacheMemorySize + imageBlob.size }
  env := (w.env.tick 1).store key imageBlob

/-- `store_transformed_image_to_cache` inserts the image and then runs the eviction loop. -/
theorem storeTransformedImageToCache_eq (w : World) (key : ResizeRequestKey)
    (imageBlob : DatasizableBlob) :
    w.storeTransformedImageToCache clk key imageBlob =
      loop .diverged evictOldest
        ((w.insertImage clk key imageBlob).manager.transformedCache.size + 1)
        (w.insertImage clk key imageBlob) := rfl

/-- The header fields `on_successful_resize` adds to every response. -/
def additionalHeaders (result : SuccessfulResize) : HeaderFieldsList :=
  [(shrimpTotalProcessingTimeHf, .usToMs (result.resizeDuration + result.encodingDuration)),
    (shrimpResizeTimeHf, .usToMs result.resizeDuration),
    (shrimpEncodingTimeHf, .usToMs result.encodingDuration)]

/-- Answers every one of the requests, each with what `respond` makes of it. -/
def answerAll (w : World) (respond : ResizeRequest → RequestHandle → Response)
    (requests : List ResizeRequest) : Except Fault World :=
  requests.foldlM (fun w rq => do
    let req ← requestHandle rq.httpReq
    return w.answer req (respond rq req)) w

/-- `on_successful_resize`. -/
def onSuccessfulResize (w : World) (key : ResizeRequestKey) (result : SuccessfulResize)
    (requests : List ResizeRequest) : Except Fault World := do
  let w ← w.storeTransformedImageToCache clk key result.imageBlob
  w.answerAll (fun rq _ => serveTransformedImage result.imageBlob rq.targetFormat .transform
    (additionalHeaders result)) requests

/-- `on_failed_resize`; the reason of the failure is only logged. -/
def onFailedResize (w : World) (requests : List ResizeRequest) : Except Fault World :=
  w.answerAll (fun _ req => do404Response req) requests

/-- `extract_inprogress_requests`. -/
def extractInprogressRequests (w : World) (atoken : AccessToken) :
    Except Fault (World × List ResizeRequest) := do
  let (inprogressRequests, result) ← w.manager.inprogressRequests.extractValuesForKey atoken
  return ({ w with manager := { w.manager with inprogressRequests } }, result)

/-- The worker of a result is free again. -/
def pushFreeWorker (w : World) (worker : Mbox) : World :=
  { w with manager := { w.manager with freeWorkers := worker :: w.manager.freeWorkers } }

/-- `on_resize_result`. -/
def onResizeResult (w : World) (cmd : ResizeResult) : Except Fault World := do
  -- Worker now can be stored as free and processing of some pending request can be initiated.
  let w ← (w.pushFreeWorker cmd.worker).tryInitiatePendingRequestsProcessing clk
  -- Extract all related to this image information from in-progress queue.
  let atoken ← optionalValue (w.manager.inprogressRequests.findFirstForKey cmd.key)
  let (w, requests) ← w.extractInprogressRequests atoken
  match cmd.result with
  | .successful result => w.onSuccessfulResize clk cmd.key result requests
  | .failed _ => w.onFailedResize requests

/-! ## Deletion of the cache -/

/-- `on_delete_cache_request`, where `envToken` is the value of `SHRIMP_ADMIN_TOKEN`. -/
def onDeleteCacheRequest (w : World) (envToken : Option CxxString) (cmd : DeleteCacheRequest) :
    Except Fault World := do
  let _ ← requestHandle cmd.httpReq
  let delayResponse (responseText : String) : Except Fault World := do
    let req ← requestHandle cmd.httpReq
    return { w with env := w.env.sendDelayed ⟨req, responseText⟩ }
  -- Token must be present and must not be empty.
  match envToken.filter (· ≠ []) with
  | some envToken =>
    if cmd.token = envToken then
      let transformedCache := w.manager.transformedCache.clear
      let w : World := { w with manager := { w.manager with transformedCache } }
      let req ← requestHandle cmd.httpReq
      return w.answer req (do200PlaintextResponse req "Cache deleted\r\n")
    else
      delayResponse "Token value mismatch\r\n"
  | none => delayResponse "No admin token defined\r\n"

/-- `on_negative_delete_cache_response`. -/
def onNegativeDeleteCacheResponse (w : World) (cmd : NegativeDeleteCacheResponse) : World :=
  w.answer cmd.httpReq (do403Response cmd.httpReq cmd.responseText)

/-! ## Timers -/

/-- The loop body of `on_clear_cache`. -/
def clearOldest (timeBorder : TimePoint) (w : World) : Except Fault (ForInStep World) := do
  if !w.manager.transformedCache.empty then
    let atoken ← optionalValue (← w.manager.transformedCache.oldest)
    if (← w.manager.transformedCache.accessTime atoken) < timeBorder then
      -- This image is too old and should be removed.
      let transformedCache ← w.manager.transformedCache.erase atoken
      return .yield { w with manager := { w.manager with transformedCache } }
    else
      return .done w
  else
    return .done w

/-- `on_clear_cache`. -/
def onClearCache (w : World) : Except Fault World :=
  let timeBorder := clk w.env.reads - maxCacheLifetime
  loop .diverged (clearOldest timeBorder) (w.manager.transformedCache.size + 1)
    { w with env := w.env.tick 1 }

/-- The loop body of `on_check_pending_requests`. -/
def rejectOldest (timeBorder : TimePoint) (w : World) : Except Fault (ForInStep World) := do
  if !w.manager.pendingRequests.empty then
    let atoken ← optionalValue (← w.manager.pendingRequests.oldest)
    if (← w.manager.pendingRequests.accessTime atoken) < timeBorder then
      -- This request should be removed. Its handle is moved out of the element first.
      let value ← w.manager.pendingRequests.value atoken
      let httpReq := value.httpReq
      let pendingRequests ← w.manager.pendingRequests.setValue atoken { value with httpReq := none }
      let _ ← pendingRequests.key atoken
      let _ ← requestHandle httpReq
      let pendingRequests ← pendingRequests.erase atoken
      let req ← requestHandle httpReq
      let w : World := { w with manager := { w.manager with pendingRequests } }
      return .yield (w.answer req (do504Response req))
    else
      return .done w
  else
    return .done w

/-- `on_check_pending_requests`. -/
def onCheckPendingRequests (w : World) : Except Fault World :=
  let timeBorder := clk w.env.reads - maxPendingTime
  loop .diverged (rejectOldest timeBorder) (w.manager.pendingRequests.items.length + 1)
    { w with env := w.env.tick 1 }

/-! ## Runs -/

/-- What can happen. A message in flight is given by its place; if there is no such message nothing
happens. -/
inductive Action
  /-- A resize request arrives. -/
  | resizeRequest (shouldKeepAlive : Bool) (image : CxxString) (targetFormat : ImageFormat)
    (params : ResizeParams)
  /-- A request to delete the cache arrives while `SHRIMP_ADMIN_TOKEN` is `envToken`. -/
  | deleteCacheRequest (shouldKeepAlive : Bool) (token : CxxString) (envToken : Option CxxString)
  /-- A worker does the job sent to it, with any outcome. -/
  | transform (i : Nat) (result : ResizeOutcome)
  /-- The result of a worker reaches the manager. -/
  | resizeResult (i : Nat)
  /-- A delayed negative response reaches the manager. -/
  | negativeDeleteCacheResponse (i : Nat)
  /-- The timer of the cache ticks. -/
  | clearCache
  /-- The timer of the pending requests ticks. -/
  | checkPendingRequests
deriving DecidableEq, Repr

/-- Lets an action happen. -/
def step (w : World) : Action → Except Fault World
  | .resizeRequest shouldKeepAlive image targetFormat params =>
    let req : RequestHandle := ⟨w.env.accepted, shouldKeepAlive⟩
    let cmd : ResizeRequest := ⟨some req, image, targetFormat, params⟩
    onResizeRequest clk { w with env := w.env.receive req cmd.requestKey } cmd
  | .deleteCacheRequest shouldKeepAlive token envToken =>
    let req : RequestHandle := ⟨w.env.accepted, shouldKeepAlive⟩
    onDeleteCacheRequest { w with env := w.env.receiveDelete req } envToken ⟨some req, token⟩
  | .transform i result =>
    match w.env.transformerRequests[i]? with
    | some cmd =>
      .ok { w with env := w.env.transform i (Transformer.onResizeRequest cmd result) }
    | none => .ok w
  | .resizeResult i =>
    match w.env.resizeResults[i]? with
    | some cmd => onResizeResult clk { w with env := w.env.deliverResult i } cmd
    | none => .ok w
  | .negativeDeleteCacheResponse i =>
    match w.env.negativeResponses[i]? with
    | some cmd =>
      .ok (onNegativeDeleteCacheResponse { w with env := w.env.deliverNegative i } cmd)
    | none => .ok w
  | .clearCache => onClearCache clk w
  | .checkPendingRequests => onCheckPendingRequests clk w

end World

end Shrimp
