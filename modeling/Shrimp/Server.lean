import Shrimp.AppParams
import Shrimp.HttpServer.BadInput
import Shrimp.HttpServer.ServedPaths

/-!
# The server

The parts put together: requests that found their route run its handler, the messages of the
handlers wait in the mailbox of the transform manager, and the workers do their jobs with
ImageMagick on the files there are. `Server.step` lets one thing happen. A message that was sent
reaches the manager after those sent before, so that a handle can be given its number when its
handler starts: it is the number the manager will count it under.
-/

namespace Shrimp

open Execution HttpServer

/-- A message of a route handler to the transform manager. -/
inductive Message
  | resizeRequest (cmd : ResizeRequest)
  | deleteCacheRequest (cmd : DeleteCacheRequest)
deriving DecidableEq, Repr

namespace Message

/-- The handle of a message. -/
def httpReq : Message → Option RequestHandle
  | .resizeRequest cmd => cmd.httpReq
  | .deleteCacheRequest cmd => cmd.httpReq

/-- What is received with a resize request. -/
def received : Message → Option (RequestHandle × ResizeRequestKey)
  | .resizeRequest cmd => cmd.httpReq.map fun req => (req, cmd.requestKey)
  | .deleteCacheRequest _ => none

/-- What is received with a request to delete the cache. -/
def receivedDelete : Message → Option RequestHandle
  | .resizeRequest _ => none
  | .deleteCacheRequest cmd => cmd.httpReq

end Message

/-- The message a disposition is, if it is one. -/
def HttpServer.Disposition.message : Disposition → Option Message
  | .response _ _ => none
  | .resizeRequest cmd => some (.resizeRequest cmd)
  | .deleteCacheRequest cmd => some (.deleteCacheRequest cmd)

/-- A request that found its route, with what its handler ended with and what it did. -/
structure Arrival where
  route : Route
  req : HttpRequest
  result : Except StdException Unit
  done : List Disposition

/-- The messages of a handler. -/
def Arrival.messages (a : Arrival) : List Message := a.done.filterMap Disposition.message

/-- The manager and its surroundings, the messages of the handlers on their way to it, the oldest
one first, and a record of the requests, the latest one last, that no code reads. -/
structure Server where
  world : World
  mailbox : List Message
  arrivals : List Arrival

namespace Server

/-- The start with the given workers. -/
def init (workers : List Mbox) : Server := ⟨.init workers, [], []⟩

/-- All messages the handlers sent. -/
def sent (s : Server) : List Message := s.arrivals.flatMap Arrival.messages

/-- What can happen. A job and a message to the manager other than those of the handlers are given
by their places; if there is none nothing happens. -/
inductive Event (Image : Type)
  /-- A request for an image arrives, and the router captures `ext`; there are these files, with the
  times of their last modification. -/
  | httpGet (shouldKeepAlive : Bool) (path query ext : CxxString) (hslash : StartsWithSlash path)
    (files : CxxString → Option Int)
  /-- A request to delete the cache arrives. -/
  | httpDelete (shouldKeepAlive : Bool) (path query : CxxString)
  /-- The oldest message of the handlers reaches the manager while `SHRIMP_ADMIN_TOKEN` is
  `envToken`. -/
  | message (envToken : Option CxxString)
  /-- A worker does the job sent to it, with ImageMagick, the floats and the clocks as they are. -/
  | work (i : Nat) (m : Magick Image) (e : FloatErrors) (t : Transformer.Timing)
  /-- The result of a worker reaches the manager. -/
  | resizeResult (i : Nat)
  /-- A delayed negative response reaches the manager. -/
  | negativeDeleteCacheResponse (i : Nat)
  /-- The timer of the cache ticks. -/
  | clearCache
  /-- The timer of the pending requests ticks. -/
  | checkPendingRequests

/-- The handler of a route is called. -/
def callHandler (lib : Restinio) (route : Route) (shouldKeepAlive : Bool) (path query : CxxString)
    (s : Server) : Except Fault Server := do
  let req : HttpRequest :=
    ⟨⟨s.world.env.accepted + s.mailbox.length, shouldKeepAlive⟩, path, query⟩
  let (result, state) ← (route.handler lib).call req
  let arrival : Arrival := ⟨route, req, result, state.done⟩
  return { s with
    mailbox := s.mailbox ++ arrival.messages
    arrivals := s.arrivals ++ [arrival] }

/-- A message of a handler reaches the manager. -/
def deliver (clk : Clock) (envToken : Option CxxString) (w : World) : Message → Except Fault World
  | .resizeRequest cmd => do
    let req ← requestHandle cmd.httpReq
    World.onResizeRequest clk { w with env := w.env.receive req cmd.requestKey } cmd
  | .deleteCacheRequest cmd => do
    let req ← requestHandle cmd.httpReq
    World.onDeleteCacheRequest { w with env := w.env.receiveDelete req } envToken cmd

variable {Image : Type} (params : AppParams) (lib : Restinio) (clk : Clock)

/-- Lets an event happen. -/
def step (s : Server) : Event Image → Except Fault Server
  | .httpGet shouldKeepAlive path query ext _ files =>
    s.callHandler { lib with sendfile := files } (.transformOp params.storage.rootDir ext)
      shouldKeepAlive path query
  | .httpDelete shouldKeepAlive path query =>
    s.callHandler lib .deleteCache shouldKeepAlive path query
  | .message envToken =>
    match s.mailbox with
    | [] => .ok s
    | msg :: mailbox => do
      let world ← deliver clk envToken s.world msg
      return { s with world, mailbox }
  | .work i m e t =>
    match s.world.env.transformerRequests[i]? with
    | none => .ok s
    | some job => do
      let result := Transformer.handleResizeRequest m params.storage.rootDir e t job.key
      let world ← World.step clk s.world (.transform i result)
      return { s with world }
  | .resizeResult i => do
    let world ← World.step clk s.world (.resizeResult i)
    return { s with world }
  | .negativeDeleteCacheResponse i => do
    let world ← World.step clk s.world (.negativeDeleteCacheResponse i)
    return { s with world }
  | .clearCache => do
    let world ← World.step clk s.world .clearCache
    return { s with world }
  | .checkPendingRequests => do
    let world ← World.step clk s.world .checkPendingRequests
    return { s with world }

end Server

end Shrimp
