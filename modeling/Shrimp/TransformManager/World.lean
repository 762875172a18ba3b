import Shrimp.Containers.CacheAlikeContainer
import Shrimp.Containers.KeyMultivalueQueue
import Shrimp.ResponseCommon
import Shrimp.Transforms

/-!
# The transform manager and what surrounds it

The messages of `a_transform_manager.hpp` and `a_transformer.hpp`, the members of
`a_transform_manager_t`, and the `World` it lives in: the clock, the messages in flight, the
responses sent so far, and a record of what was received, produced and stored that no code reads.
-/

namespace Shrimp

/-! ## Messages -/

/-- `a_transform_manager_t::resize_request_t`. Its `httpReq` is `none` once it was moved out. -/
structure ResizeRequest where
  httpReq : Option RequestHandle
  image : CxxString
  targetFormat : ImageFormat
  params : ResizeParams
deriving DecidableEq, Repr

/-- The key `on_resize_request` makes of a request. -/
def ResizeRequest.requestKey (cmd : ResizeRequest) : ResizeRequestKey :=
  ⟨cmd.image, cmd.targetFormat, cmd.params⟩

/-- `successful_resize_t`, the durations in microseconds. -/
structure SuccessfulResize where
  imageBlob : DatasizableBlob
  resizeDuration : Int
  encodingDuration : Int
deriving DecidableEq, Repr

/-- `failed_resize_t`. -/
structure FailedResize where
  reason : String
deriving DecidableEq, Repr

/-- `resize_result_t::result_t`. -/
inductive ResizeOutcome
  | successful (result : SuccessfulResize)
  | failed (result : FailedResize)
deriving DecidableEq, Repr

/-- `resize_result_t`. -/
structure ResizeResult where
  worker : Mbox
  key : ResizeRequestKey
  result : ResizeOutcome
deriving DecidableEq, Repr

/-- `delete_cache_request_t`. -/
structure DeleteCacheRequest where
  httpReq : Option RequestHandle
  token : CxxString
deriving DecidableEq, Repr

/-- `negative_delete_cache_response_t`. -/
structure NegativeDeleteCacheResponse where
  httpReq : RequestHandle
  responseText : String
deriving DecidableEq, Repr

/-- `a_transformer_t::resize_request_t` on its way to a worker. The mailbox to reply to is always
that of the manager. -/
structure Transformer.ResizeRequest where
  worker : Mbox
  key : ResizeRequestKey
deriving DecidableEq, Repr

/-! ## The manager -/

/-- `pending_request_queue_t`. -/
abbrev PendingRequestQueue := KeyMultivalueQueue ResizeRequestKey ResizeRequest

/-- `a_transform_manager_t`. The top of the stack of free workers is the head of `freeWorkers`. -/
structure TransformManager where
  transformedCache : CacheAlikeContainer ResizeRequestKey DatasizableBlob
  transformedCacheMemorySize : UInt64
  pendingRequests : PendingRequestQueue
  inprogressRequests : PendingRequestQueue
  freeWorkers : List Mbox

/-- `max_transformed_cache_memory_size`. -/
def maxTransformedCacheMemorySize : UInt64 := 100 * 1024 * 1024

/-- `max_pending_requests`. -/
def maxPendingRequests : Nat := 64

/-- `max_cache_lifetime`, one hour. -/
def maxCacheLifetime : TimePoint := 3600 * 10 ^ 9

/-- `max_pending_time`, 20 seconds. -/
def maxPendingTime : TimePoint := 20 * 10 ^ 9

namespace TransformManager

/-- The constructor. -/
def init : TransformManager := ⟨.init, 0, .init, .init, []⟩

/-- `add_worker`. -/
def addWorker (m : TransformManager) (worker : Mbox) : TransformManager :=
  { m with freeWorkers := worker :: m.freeWorkers }

end TransformManager

/-! ## The world -/

/-- What surrounds the manager: how often the clock was read, the messages in flight, which may
arrive in any order, and the responses sent, the latest one last. The other fields record the
requests that arrived, what the workers made and what was put into the cache. -/
structure Environment where
  reads : Nat
  transformerRequests : List Transformer.ResizeRequest
  resizeResults : List ResizeResult
  negativeResponses : List NegativeDeleteCacheResponse
  answered : List (RequestHandle × Response)
  received : List (RequestHandle × ResizeRequestKey)
  receivedDeletes : List RequestHandle
  produced : List ResizeResult
  stored : List (ResizeRequestKey × DatasizableBlob)

namespace Environment

/-- Nothing happened yet. -/
def init : Environment := ⟨0, [], [], [], [], [], [], [], []⟩

/-- The number of requests that arrived. -/
def accepted (env : Environment) : Nat := env.received.length + env.receivedDeletes.length

/-- A resize request arrives. -/
def receive (env : Environment) (req : RequestHandle) (key : ResizeRequestKey) : Environment :=
  { env with received := env.received ++ [(req, key)] }

/-- A request to delete the cache arrives. -/
def receiveDelete (env : Environment) (req : RequestHandle) : Environment :=
  { env with receivedDeletes := env.receivedDeletes ++ [req] }

/-- A worker has done the `i`-th job in flight, and its result is in flight. -/
def transform (env : Environment) (i : Nat) (msg : ResizeResult) : Environment :=
  { env with
    transformerRequests := env.transformerRequests.eraseIdx i
    resizeResults := env.resizeResults ++ [msg]
    produced := env.produced ++ [msg] }

/-- The `i`-th result in flight is delivered. -/
def deliverResult (env : Environment) (i : Nat) : Environment :=
  { env with resizeResults := env.resizeResults.eraseIdx i }

/-- The `i`-th delayed negative response is delivered. -/
def deliverNegative (env : Environment) (i : Nat) : Environment :=
  { env with negativeResponses := env.negativeResponses.eraseIdx i }

/-- The clock was read `n` times. -/
def tick (env : Environment) (n : Nat) : Environment := { env with reads := env.reads + n }

/-- A response is sent. -/
def answer (env : Environment) (req : RequestHandle) (resp : Response) : Environment :=
  { env with answered := env.answered ++ [(req, resp)] }

/-- A job is sent to a worker. -/
def sendJob (env : Environment) (worker : Mbox) (key : ResizeRequestKey) : Environment :=
  { env with transformerRequests := env.transformerRequests ++ [⟨worker, key⟩] }

/-- An image is put into the cache. -/
def store (env : Environment) (key : ResizeRequestKey) (blob : DatasizableBlob) : Environment :=
  { env with stored := env.stored ++ [(key, blob)] }

/-- A negative response is put off. -/
def sendDelayed (env : Environment) (msg : NegativeDeleteCacheResponse) : Environment :=
  { env with negativeResponses := env.negativeResponses ++ [msg] }

end Environment

/-- The manager and what surrounds it. -/
structure World where
  manager : TransformManager
  env : Environment

namespace World

/-- The world at the start, after `add_worker` was called for every worker. -/
def init (workers : List Mbox) : World :=
  ⟨workers.foldl TransformManager.addWorker .init, .init⟩

/-- A response is sent. -/
def answer (w : World) (req : RequestHandle) (resp : Response) : World :=
  { w with env := w.env.answer req resp }

end World

end Shrimp
