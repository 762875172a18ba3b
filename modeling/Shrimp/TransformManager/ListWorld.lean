import Mathlib.Logic.Function.Iterate
import Shrimp.Containers.CacheRefinement
import Shrimp.Containers.QueueRefinement
import Shrimp.TransformManager.Handlers

/-!
# The transform manager over plain lists

What the transform manager is for, without iterators, handles that can be moved out, loops that may
not end and counters kept by hand: the cache, the pending and the in-progress requests are lists of
entries, and every action is a total function on them. The invariants of the manager are proved
here, and the manager of the code follows this one step by step.
-/

namespace Shrimp

/-- The cached images, the least recently used one first. -/
abbrev ImageList := List (Entry ResizeRequestKey DatasizableBlob)

/-- Requests waiting under their keys, the one that waits longest first. -/
abbrev RequestList := List (Entry ResizeRequestKey RequestHandle)

/-- The keys of the entries, in order. -/
abbrev keys {V : Type} (l : List (Entry ResizeRequestKey V)) : List ResizeRequestKey :=
  l.map (·.key)

/-- The entries of a key. -/
abbrev ofKey {V : Type} (k : ResizeRequestKey) (l : List (Entry ResizeRequestKey V)) :
    List (Entry ResizeRequestKey V) := l.filter fun e => e.key = k

/-- The entries of all other keys. -/
abbrev exceptKey {V : Type} (k : ResizeRequestKey) (l : List (Entry ResizeRequestKey V)) :
    List (Entry ResizeRequestKey V) := l.filter fun e => e.key ≠ k

/-- The last access to an entry was before `timeBorder`. -/
def expired {V : Type} (timeBorder : TimePoint) (e : Entry ResizeRequestKey V) : Bool :=
  e.time < timeBorder

/-- The total size of the images. -/
def totalSize (l : ImageList) : Nat := (l.map fun e => e.value.size.toNat).sum

/-- The manager over lists and what surrounds it. -/
structure ListWorld where
  cache : ImageList
  memorySize : UInt64
  pending : RequestList
  inprogress : RequestList
  freeWorkers : List Mbox
  env : Environment

namespace ListWorld

/-- The start with the given workers. -/
def init (workers : List Mbox) : ListWorld := ⟨[], 0, [], [], workers.reverse, .init⟩

/-- Answers the requests of the entries. -/
def answer (respond : Entry ResizeRequestKey RequestHandle → Response) (l : RequestList)
    (s : ListWorld) : ListWorld :=
  { s with env := { s.env with
    answered := s.env.answered ++ l.map fun e => (e.value, respond e) } }

variable (clk : Clock)

/-! ## Dispatching -/

/-- The entries with the times of their move, the first one at reading `n`. -/
def restamp (n : Nat) : RequestList → RequestList
  | [] => []
  | e :: l => { e with time := clk n } :: restamp (n + 1) l

/-- The key that waits longest goes to a free worker, with all its requests. -/
def initiateNext (s : ListWorld) : ListWorld :=
  match s.freeWorkers, s.pending with
  | worker :: freeWorkers, e :: _ =>
    let requests := ofKey e.key s.pending
    { s with
      pending := exceptKey e.key s.pending
      inprogress := s.inprogress ++ restamp clk s.env.reads requests
      freeWorkers
      env := (s.env.tick requests.length).sendJob worker e.key }
  | _, _ => s

/-- Keys go to free workers as long as there are both. -/
def tryInitiate (s : ListWorld) : ListWorld := (initiateNext clk)^[s.freeWorkers.length] s

/-! ## Requests -/

/-- A request for a cached image is answered at once. -/
def serveFromCache (s : ListWorld) (req : RequestHandle)
    (e : Entry ResizeRequestKey DatasizableBlob) : ListWorld :=
  answer (fun _ => serveTransformedImage e.value e.key.format .cache
      [(shrimpTotalProcessingTimeHf, .text "0")]) [⟨e.key, req, clk s.env.reads⟩]
    { s with
      cache := exceptKey e.key s.cache ++ [{ e with time := clk s.env.reads }]
      env := s.env.tick 1 }

/-- A request joins those whose key is in progress. -/
def joinInprogress (s : ListWorld) (req : RequestHandle) (key : ResizeRequestKey) : ListWorld :=
  { s with inprogress := s.inprogress ++ [⟨key, req, clk s.env.reads⟩], env := s.env.tick 1 }

/-- A request joins the pending ones. -/
def joinPending (s : ListWorld) (req : RequestHandle) (key : ResizeRequestKey) : ListWorld :=
  { s with pending := s.pending ++ [⟨key, req, clk s.env.reads⟩], env := s.env.tick 1 }

/-- A request is refused. -/
def reject (s : ListWorld) (req : RequestHandle) (key : ResizeRequestKey) : ListWorld :=
  answer (fun _ => do503Response req) [⟨key, req, clk s.env.reads⟩] s

/-- A request for an image arrives. -/
def onResizeRequest (s : ListWorld) (req : RequestHandle) (key : ResizeRequestKey) : ListWorld :=
  match s.cache.find? (·.key = key) with
  | some e => s.serveFromCache clk req e
  | none =>
    if key ∈ keys s.inprogress then s.joinInprogress clk req key
    else if key ∈ keys s.pending then s.joinPending clk req key
    else if (keys s.pending).toFinset.card < maxPendingRequests then
      (s.joinPending clk req key).tryInitiate clk
    else s.reject clk req key

/-! ## Results -/

/-- The oldest images go until the rest fits or only one is left. -/
def evict : ImageList → UInt64 → ImageList × UInt64
  | e :: d :: l, memorySize =>
    if maxTransformedCacheMemorySize < memorySize then evict (d :: l) (memorySize - e.value.size)
    else (e :: d :: l, memorySize)
  | l, memorySize => (l, memorySize)

/-- An image is put into the cache. -/
def store (s : ListWorld) (key : ResizeRequestKey) (blob : DatasizableBlob) : ListWorld :=
  let (cache, memorySize) :=
    evict (s.cache ++ [⟨key, blob, clk s.env.reads⟩]) (s.memorySize + blob.size)
  { s with cache, memorySize, env := (s.env.tick 1).store key blob }

/-- The worker of a result is free again. -/
def pushFreeWorker (s : ListWorld) (worker : Mbox) : ListWorld :=
  { s with freeWorkers := worker :: s.freeWorkers }

/-- The requests of a key leave the in-progress ones. -/
def extract (s : ListWorld) (key : ResizeRequestKey) : ListWorld :=
  { s with inprogress := exceptKey key s.inprogress }

/-- The requests of a key are answered with its outcome. -/
def finish (s : ListWorld) (cmd : ResizeResult) (requests : RequestList) : ListWorld :=
  match cmd.result with
  | .successful result =>
    answer (fun _ => serveTransformedImage result.imageBlob cmd.key.format .transform
      (World.additionalHeaders result)) requests (s.store clk cmd.key result.imageBlob)
  | .failed _ => answer (fun e => do404Response e.value) requests s

/-- The result of a worker arrives. -/
def onResizeResult (s : ListWorld) (cmd : ResizeResult) : ListWorld :=
  let s := (s.pushFreeWorker cmd.worker).tryInitiate clk
  (s.extract cmd.key).finish clk cmd (ofKey cmd.key s.inprogress)

/-! ## Deletion of the cache and timers -/

/-- A request to delete the cache arrives. -/
def onDeleteCacheRequest (s : ListWorld) (envToken : Option CxxString) (req : RequestHandle)
    (token : CxxString) : ListWorld :=
  match envToken.filter (· ≠ []) with
  | some envToken =>
    if token = envToken then
      { s with
        cache := []
        env := s.env.answer req (do200PlaintextResponse req "Cache deleted\r\n") }
    else { s with env := s.env.sendDelayed ⟨req, "Token value mismatch\r\n"⟩ }
  | none => { s with env := s.env.sendDelayed ⟨req, "No admin token defined\r\n"⟩ }

/-- A delayed negative response is due. -/
def onNegativeDeleteCacheResponse (s : ListWorld) (cmd : NegativeDeleteCacheResponse) : ListWorld :=
  { s with env := s.env.answer cmd.httpReq (do403Response cmd.httpReq cmd.responseText) }

/-- Images that were not used for too long go. -/
def onClearCache (s : ListWorld) : ListWorld :=
  { s with
    cache := s.cache.dropWhile (expired (clk s.env.reads - maxCacheLifetime))
    env := s.env.tick 1 }

/-- Requests that waited for too long are answered. -/
def onCheckPendingRequests (s : ListWorld) : ListWorld :=
  let timeBorder := clk s.env.reads - maxPendingTime
  answer (fun e => do504Response e.value) (s.pending.takeWhile (expired timeBorder))
    { s with pending := s.pending.dropWhile (expired timeBorder), env := s.env.tick 1 }

/-! ## Runs -/

/-- Lets an action happen. -/
def next (s : ListWorld) : World.Action → ListWorld
  | .resizeRequest shouldKeepAlive image targetFormat params =>
    let req : RequestHandle := ⟨s.env.accepted, shouldKeepAlive⟩
    let key : ResizeRequestKey := ⟨image, targetFormat, params⟩
    onResizeRequest clk { s with env := s.env.receive req key } req key
  | .deleteCacheRequest shouldKeepAlive token envToken =>
    let req : RequestHandle := ⟨s.env.accepted, shouldKeepAlive⟩
    onDeleteCacheRequest { s with env := s.env.receiveDelete req } envToken req token
  | .transform i result =>
    match s.env.transformerRequests[i]? with
    | some cmd => { s with env := s.env.transform i (Transformer.onResizeRequest cmd result) }
    | none => s
  | .resizeResult i =>
    match s.env.resizeResults[i]? with
    | some cmd => onResizeResult clk { s with env := s.env.deliverResult i } cmd
    | none => s
  | .negativeDeleteCacheResponse i =>
    match s.env.negativeResponses[i]? with
    | some cmd => onNegativeDeleteCacheResponse { s with env := s.env.deliverNegative i } cmd
    | none => s
  | .clearCache => onClearCache clk s
  | .checkPendingRequests => onCheckPendingRequests clk s

end ListWorld

end Shrimp
