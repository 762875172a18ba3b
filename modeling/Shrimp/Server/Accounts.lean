import Shrimp.Server

/-!
# Every request of the server

`Server.Wired` ties the route handlers, the mailbox and the manager together, so that every state of
the server has a manager as the runs of `World.step` reach it. `server_accounts` says what this
means for the requests: no run of the server faults, a request ends with one response or one
message, unless its handler throws, and every message is in exactly one place until its request is
answered.
-/

namespace Shrimp

open Execution HttpServer

/-! ## The manager -/

/-- The requests the manager holds or answered. -/
def World.places (w : World) : List RequestHandle :=
  (storedHandles w.manager.pendingRequests).reduceOption ++
    (storedHandles w.manager.inprogressRequests).reduceOption ++
    w.env.negativeResponses.map (·.httpReq) ++ w.env.answered.map Prod.fst

/-- The message that arrives with an action, where `accepted` arrived before. -/
def World.Action.message (accepted : Nat) : World.Action → Option Message
  | .resizeRequest keepAlive image targetFormat params =>
    some (.resizeRequest ⟨some ⟨accepted, keepAlive⟩, image, targetFormat, params⟩)
  | .deleteCacheRequest keepAlive token _ =>
    some (.deleteCacheRequest ⟨some ⟨accepted, keepAlive⟩, token⟩)
  | _ => none

/-- The action of the manager at a message with the handle `req`. -/
def Message.action (envToken : Option CxxString) (req : RequestHandle) : Message → World.Action
  | .resizeRequest cmd =>
    .resizeRequest req.shouldKeepAlive cmd.image cmd.targetFormat cmd.params
  | .deleteCacheRequest cmd => .deleteCacheRequest req.shouldKeepAlive cmd.token envToken

/-- What the manager records of a message that arrives. -/
theorem World.Action.message_received (accepted : Nat) (a : World.Action) :
    (a.message accepted).bind Message.received = a.received accepted ∧
      (a.message accepted).bind Message.receivedDelete = a.receivedDelete accepted := by
  cases a <;> exact ⟨rfl, rfl⟩

namespace ListWorld

variable {workers : List Mbox} {s : ListWorld}

/-- A resize request is counted once among the waiting and the answered ones. -/
theorem InOrder.count_request (hs : s.InOrder workers) {req : RequestHandle} {k : ResizeRequestKey}
    (hk : (req, k) ∈ s.env.received) :
    (handles s.pending).count req + (handles s.inprogress).count req +
      (s.env.answered.map Prod.fst).count req = 1 := by
  have hr := hs.requests
  have hkey : ∀ e ∈ s.pending ++ s.inprogress, e.value = req → e.key = k := by
    rintro e he rfl
    exact hr.key_unique (World.received_of_mem hs he) hk
  have hfifo := congrArg (List.count req) (hr.fifo k)
  have hone := List.count_eq_one_of_mem (hr.received_nodup k) (Environment.mem_receivedFor.2 hk)
  rw [List.count_append, ListWorld.waiting, List.count_append, List.count_append,
    World.count_answeredFor hk,
    World.count_handles_ofKey fun e he => hkey e (List.mem_append_right _ he),
    World.count_handles_ofKey fun e he => hkey e (List.mem_append_left _ he), hone] at hfifo
  have hnil : (handles (ofKey k [])).count req = 0 := rfl
  omega

/-- Where a resize request is, there it was received for. -/
theorem InOrder.places_of_not_received (hs : s.InOrder workers) {req : RequestHandle}
    (hnot : ∀ k, (req, k) ∉ s.env.received) :
    req ∉ handles s.pending ∧ req ∉ handles s.inprogress := by
  have hnone : ∀ e ∈ s.pending ++ s.inprogress, e.value ≠ req := by
    rintro e he rfl
    exact hnot _ (World.received_of_mem hs he)
  constructor <;> intro hreq <;> obtain ⟨e, he, heq⟩ := List.mem_map.1 hreq
  · exact hnone e (List.mem_append_left _ he) heq
  · exact hnone e (List.mem_append_right _ he) heq

/-- A request to delete the cache is answered, or one delayed response holds it. -/
theorem InOrder.count_delete (hs : s.InOrder workers) {req : RequestHandle}
    (hnot : ∀ k, (req, k) ∉ s.env.received) :
    (s.env.answered.map Prod.fst).count req +
      (s.env.negativeResponses.map (·.httpReq)).count req = s.env.receivedDeletes.count req := by
  have hr := hs.requests
  have hcount := hr.deletes.count_eq req
  rw [List.append_nil, List.count_append] at hcount
  by_cases hdelete : req ∈ s.env.receivedDeletes
  · rw [← hcount, World.count_answeredDeletes hdelete]
  · have hanswered : req ∉ s.env.answered.map Prod.fst := by
      intro hmem
      obtain ⟨p, hp, rfl⟩ := List.mem_map.1 hmem
      rcases hr.answers p hp with ⟨k, hk, -⟩ | ⟨h, -⟩
      · exact hnot k hk
      · exact hdelete h
    rw [List.count_eq_zero_of_not_mem hdelete] at hcount ⊢
    rw [List.count_eq_zero_of_not_mem hanswered]
    omega

/-- The requests that arrived and those the manager holds or answered are the same. -/
theorem InOrder.places_perm (hs : s.InOrder workers) :
    (handles s.pending ++ handles s.inprogress ++ s.env.negativeResponses.map (·.httpReq) ++
      s.env.answered.map Prod.fst).Perm (s.env.received.map Prod.fst ++ s.env.receivedDeletes) := by
  have hr := hs.requests
  rw [List.perm_iff_count]
  intro req
  simp only [List.count_append]
  by_cases hreceived : ∃ k, (req, k) ∈ s.env.received
  · obtain ⟨k, hk⟩ := hreceived
    have hnot : req ∉ s.env.receivedDeletes := hr.not_delete hk
    have hnodup : (s.env.received.map Prod.fst).Nodup := by
      refine List.Nodup.of_map (·.id) ?_
      rw [List.map_map]
      exact (List.nodup_append'.1 hr.nodup_ids).1
    have hnegative : req ∉ s.env.negativeResponses.map (·.httpReq) := fun hmem =>
      hnot (hr.deletes.subset (by simp [hmem]))
    rw [List.count_eq_zero_of_not_mem hnot, List.count_eq_zero_of_not_mem hnegative,
      List.count_eq_one_of_mem hnodup (List.mem_map_of_mem hk)]
    have hone := hs.count_request hk
    omega
  · have hnot : ∀ k, (req, k) ∉ s.env.received := fun k hk => hreceived ⟨k, hk⟩
    obtain ⟨hpending, hin⟩ := hs.places_of_not_received hnot
    have hnone : req ∉ s.env.received.map Prod.fst := fun hmem => by
      obtain ⟨⟨_, k⟩, hk, rfl⟩ := List.mem_map.1 hmem
      exact hnot k hk
    rw [List.count_eq_zero_of_not_mem hpending, List.count_eq_zero_of_not_mem hin,
      List.count_eq_zero_of_not_mem hnone]
    have hdelete := hs.count_delete hnot
    omega

end ListWorld

namespace World

variable {clk : Clock} {workers : List Mbox} {w : World} {s : ListWorld}

/-- No handle was moved out of a stored request, so that the queue keeps all handles of the list. -/
theorem reduceOption_storedHandles {q : PendingRequestQueue} {l : RequestList}
    (h : q.Refines (l.map entryOf)) : (storedHandles q).reduceOption = handles l := by
  rw [storedHandles_eq h]
  exact (List.filterMap_map).trans List.filterMap_some

/-- The places of the world are those of the lists: pending, in progress, put off, and answered. -/
theorem Refines.places (h : w.Refines s) : w.places =
    handles s.pending ++ handles s.inprogress ++ s.env.negativeResponses.map (·.httpReq) ++
      s.env.answered.map Prod.fst := by
  rw [World.places, reduceOption_storedHandles h.pending, reduceOption_storedHandles h.inprogress,
    h.env]

/-- In every run the requests the manager holds or answered are those it received. -/
theorem places_perm {actions : List Action} (hrun : run (step clk) (init workers) actions = .ok w) :
    w.places.Perm (w.env.received.map Prod.fst ++ w.env.receivedDeletes) := by
  have h := refines_of_run hrun
  rw [h.places, h.env]
  exact (ListWorld.inOrder_foldl clk workers actions).places_perm

/-- A step in a reachable state writes into the record what its action says, and nothing else. -/
theorem records_of_step {actions : List Action} {a : Action} {w' : World}
    (hrun : run (step clk) (init workers) actions = .ok w) (hstep : step clk w a = .ok w') :
    ListWorld.Records w.env a w'.env := by
  have h' := refines_of_run (run_concat_eq_ok.2 ⟨w, hrun, hstep⟩)
  rw [List.foldl_concat] at h'
  rw [h'.env, (refines_of_run hrun).env]
  exact ListWorld.records_next clk _ a

/-- The next action of a run is possible. -/
theorem exists_step {actions : List Action}
    (hrun : run (step clk) (init workers) actions = .ok w) (a : Action) :
    ∃ w', step clk w a = .ok w' := by
  obtain ⟨w', hw', -⟩ := step_refines clk (refines_of_run hrun)
    (ListWorld.inOrder_foldl clk workers actions).protocol a
  exact ⟨w', hw'⟩

end World

/-! ## The handlers -/

/-- A handler ends with one disposition of its request, or the query string cannot be parsed and it
throws before it does anything. -/
theorem HttpServer.call_handler (lib : Restinio) (route : Route) (req : HttpRequest) :
    (∃ d owned, (route.handler lib).call req = .ok (.ok (), ⟨owned, [d]⟩) ∧ d.Settles req) ∨
    ∃ x, lib.parseQuery req.query = .error x ∧
      (route.handler lib).call req = .ok (.error x, ⟨some req, []⟩) := by
  have hsettled (h : AnswersBadInput lib route req) : ∃ d owned,
      (route.handler lib).call req = .ok (.ok (), ⟨owned, [d]⟩) ∧ d.Settles req := by
    obtain ⟨d, owned, hcall, hd, -⟩ := h
    exact ⟨d, owned, hcall, hd⟩
  cases hquery : lib.parseQuery req.query with
  | ok qp =>
    cases route with
    | transformOp rootDir ext =>
      exact .inl (hsettled (answersBadInput_transformOp (.inl ⟨qp, hquery⟩)))
    | deleteCache => exact .inl (hsettled (answersBadInput_deleteCache hquery))
  | error x =>
    by_cases hpath : (∃ rootDir ext, route = .transformOp rootDir ext) ∧
        hasIllegalPathComponents req.path = true
    · obtain ⟨⟨rootDir, ext, rfl⟩, hpath⟩ := hpath
      exact .inl (hsettled (answersBadInput_transformOp (.inr hpath)))
    · refine .inr ⟨x, rfl, call_handler_badQuery ?_ hquery⟩
      intro hroute
      exact Bool.eq_false_iff.2 fun h => hpath ⟨hroute, h⟩

/-- A disposition is a response or a message with the handle of the request. -/
theorem HttpServer.Disposition.Settles.message {req : HttpRequest} {d : Disposition}
    (h : d.Settles req) :
    (d.message = none ∧ ∃ resp, d = .response req.handle resp) ∨
    ∃ msg, d.message = some msg ∧ msg.httpReq = some req.handle := by
  cases h with
  | error hresp => exact .inl ⟨rfl, _, rfl⟩
  | file hstatus hbody => exact .inl ⟨rfl, _, rfl⟩
  | resizeRequest hreq => exact .inr ⟨_, rfl, hreq⟩
  | deleteCacheRequest hreq => exact .inr ⟨_, rfl, hreq⟩

/-! ## The parts together -/

namespace Server

variable {params : AppParams} {lib : Restinio} {clk : Clock} {workers : List Mbox} {s : Server}

/-- The routes of the server. An image is asked for by a path that begins with a slash. -/
def Routed (params : AppParams) (a : Arrival) : Prop :=
  a.route = .deleteCache ∨
    StartsWithSlash a.req.path ∧ ∃ ext, a.route = .transformOp params.storage.rootDir ext

/-- What is recorded of a request is what the handler of its route did. -/
def Handled (lib : Restinio) (a : Arrival) : Prop :=
  ∃ files owned, (a.route.handler { lib with sendfile := files }).call a.req =
    .ok (a.result, ⟨owned, a.done⟩)

/-- The manager goes through a run of its own, the messages in the mailbox are those it has not yet
received, and their handles are numbered in the order in which they were sent. -/
structure Wired (params : AppParams) (lib : Restinio) (clk : Clock) (workers : List Mbox)
    (s : Server) : Prop where
  world : ∃ actions, run (World.step clk) (World.init workers) actions = .ok s.world
  mailbox : ∃ delivered, s.sent = delivered ++ s.mailbox ∧
    delivered.length = s.world.env.accepted ∧
    s.world.env.received = delivered.filterMap Message.received ∧
    s.world.env.receivedDeletes = delivered.filterMap Message.receivedDelete
  numbered : s.sent.map (fun msg => msg.httpReq.map (·.id)) = (List.range s.sent.length).map some
  routed : ∀ a ∈ s.arrivals, Routed params a
  handled : ∀ a ∈ s.arrivals, Handled lib a

/-- At the start nothing has arrived, and nothing was sent. -/
theorem wired_init (params : AppParams) (lib : Restinio) (clk : Clock) (workers : List Mbox) :
    Wired params lib clk workers (init workers) where
  world := ⟨[], rfl⟩
  mailbox := ⟨[], rfl, rfl, rfl, rfl⟩
  numbered := rfl
  routed _ h := absurd h List.not_mem_nil
  handled _ h := absurd h List.not_mem_nil

/-- The number of the next message. -/
theorem Wired.length_sent (h : Wired params lib clk workers s) :
    s.sent.length = s.world.env.accepted + s.mailbox.length := by
  obtain ⟨delivered, hsent, hlength, -⟩ := h.mailbox
  rw [hsent, List.length_append, hlength]

/-- The number of the next message is the one the manager will give it. -/
theorem httpReq_head (h : Wired params lib clk workers s) {msg : Message} {mailbox : List Message}
    (hmailbox : s.mailbox = msg :: mailbox) :
    ∃ keepAlive, msg.httpReq = some ⟨s.world.env.accepted, keepAlive⟩ := by
  obtain ⟨delivered, hsent, hlength, -⟩ := h.mailbox
  have hid := congrArg (·[delivered.length]?) h.numbered
  rw [hmailbox] at hsent
  simp only [hsent, List.getElem?_map, List.getElem?_append_right le_rfl, Nat.sub_self,
    List.getElem?_cons_zero, Option.map_some, List.length_append, List.length_cons] at hid
  rw [List.getElem?_range (by omega), Option.map_some, Option.some.injEq] at hid
  obtain ⟨req, hreq, hid⟩ := Option.map_eq_some_iff.1 hid
  exact ⟨req.shouldKeepAlive, by rw [hreq, ← hlength, ← hid]⟩

/-- A message that reaches the manager is an action of the manager. -/
theorem deliver_eq_step (clk : Clock) (envToken : Option CxxString) {w : World} {msg : Message}
    {keepAlive : Bool} (hreq : msg.httpReq = some ⟨w.env.accepted, keepAlive⟩) :
    deliver clk envToken w msg =
        World.step clk w (msg.action envToken ⟨w.env.accepted, keepAlive⟩) ∧
      (msg.action envToken ⟨w.env.accepted, keepAlive⟩).message w.env.accepted = some msg := by
  cases msg with
  | resizeRequest cmd =>
    obtain ⟨httpReq, image, targetFormat, params⟩ := cmd
    cases hreq
    exact ⟨rfl, rfl⟩
  | deleteCacheRequest cmd =>
    obtain ⟨httpReq, token⟩ := cmd
    cases hreq
    exact ⟨rfl, rfl⟩

/-- What the manager does at an event, if it does anything. -/
def Event.action {Image : Type} (params : AppParams) (s : Server) :
    Event Image → Option World.Action
  | .httpGet .. | .httpDelete .. => none
  | .message envToken => do
    let msg ← s.mailbox.head?
    return msg.action envToken (← msg.httpReq)
  | .work i m e t => do
    let job ← s.world.env.transformerRequests[i]?
    return .transform i (Transformer.handleResizeRequest m params.storage.rootDir e t job.key)
  | .resizeResult i => some (.resizeResult i)
  | .negativeDeleteCacheResponse i => some (.negativeDeleteCacheResponse i)
  | .clearCache => some .clearCache
  | .checkPendingRequests => some .checkPendingRequests

/-- The manager does something, and what arrives with it leaves the mailbox. -/
theorem Wired.advance (h : Wired params lib clk workers s) {a : World.Action} {world : World}
    {mailbox : List Message} (hstep : World.step clk s.world a = .ok world)
    (hmailbox : s.mailbox = (a.message s.world.env.accepted).toList ++ mailbox) :
    Wired params lib clk workers { s with world, mailbox } := by
  obtain ⟨actions, hrun⟩ := h.world
  obtain ⟨delivered, hsent, hlength, hreceived, hdeletes⟩ := h.mailbox
  have hrecords := World.records_of_step hrun hstep
  refine ⟨⟨actions ++ [a], run_concat_eq_ok.2 ⟨s.world, hrun, hstep⟩⟩,
    ⟨delivered ++ (a.message s.world.env.accepted).toList, ?_, ?_, ?_, ?_⟩, h.numbered, h.routed,
    h.handled⟩
  · rw [List.append_assoc, ← hmailbox, ← hsent]
    rfl
  · rw [List.length_append, hlength, Environment.accepted, Environment.accepted,
      hrecords.received, hrecords.receivedDeletes, List.length_append, List.length_append]
    cases a <;> simp [World.Action.message, World.Action.received, World.Action.receivedDelete] <;>
      omega
  · rw [hrecords.received, hreceived, List.filterMap_append,
      ← (a.message_received s.world.env.accepted).1]
    cases a.message s.world.env.accepted <;> rfl
  · rw [hrecords.receivedDeletes, hdeletes, List.filterMap_append,
      ← (a.message_received s.world.env.accepted).2]
    cases a.message s.world.env.accepted <;> rfl

/-- A request arrives and its handler sends a message at most. -/
theorem Wired.arrive (h : Wired params lib clk workers s) (arrival : Arrival)
    (hrouted : Routed params arrival) (hhandled : Handled lib arrival)
    (hmessages : ∀ msg ∈ arrival.messages, msg.httpReq = some arrival.req.handle)
    (hone : arrival.messages.length ≤ 1)
    (hid : arrival.req.handle.id = s.world.env.accepted + s.mailbox.length) :
    Wired params lib clk workers { s with
      mailbox := s.mailbox ++ arrival.messages
      arrivals := s.arrivals ++ [arrival] } := by
  obtain ⟨delivered, hsent, hlength, hreceived, hdeletes⟩ := h.mailbox
  have hsent' : sent { s with
      mailbox := s.mailbox ++ arrival.messages
      arrivals := s.arrivals ++ [arrival] } = s.sent ++ arrival.messages := by
    simp [sent]
  refine ⟨h.world, ⟨delivered, ?_, hlength, hreceived, hdeletes⟩, ?_, ?_, ?_⟩
  · rw [hsent', hsent, List.append_assoc]
  · rw [hsent', List.map_append, h.numbered, List.length_append]
    cases hmsgs : arrival.messages with
    | nil => simp
    | cons msg rest =>
      rw [hmsgs] at hone hmessages
      cases List.eq_nil_of_length_eq_zero (Nat.le_zero.1 (Nat.le_of_succ_le_succ hone))
      rw [List.length_singleton, List.range_succ, List.map_append, List.map_singleton,
        List.map_singleton, hmessages msg List.mem_cons_self, Option.map_some, hid, h.length_sent]
  · exact List.forall_mem_append.2 ⟨h.routed, by simpa using hrouted⟩
  · exact List.forall_mem_append.2 ⟨h.handled, by simpa using hhandled⟩

/-- A call of a handler for a request that the router lets through puts its message, if there is
one, into the mailbox, and the manager is not yet touched. -/
theorem Wired.callHandler (h : Wired params lib clk workers s) {route : Route}
    (files : CxxString → Option Int) (keepAlive : Bool) {path query : CxxString}
    (hrouted : route = .deleteCache ∨
      StartsWithSlash path ∧ ∃ ext, route = .transformOp params.storage.rootDir ext) :
    ∃ s', s.callHandler { lib with sendfile := files } route keepAlive path query = .ok s' ∧
      Wired params lib clk workers s' ∧ run (World.step clk) s.world [] = .ok s'.world := by
  let req : HttpRequest :=
    ⟨⟨s.world.env.accepted + s.mailbox.length, keepAlive⟩, path, query⟩
  have harrive (result : Except StdException Unit) (state : HandlerState)
      (hcall : (route.handler { lib with sendfile := files }).call req = .ok (result, state))
      (hmessages : ∀ msg ∈ state.done.filterMap Disposition.message,
        msg.httpReq = some req.handle)
      (hone : (state.done.filterMap Disposition.message).length ≤ 1) :
      ∃ s', s.callHandler { lib with sendfile := files } route keepAlive path query = .ok s' ∧
        Wired params lib clk workers s' ∧ run (World.step clk) s.world [] = .ok s'.world :=
    ⟨_, by rw [Server.callHandler, hcall]; rfl, h.arrive ⟨route, req, result, state.done⟩ hrouted
      ⟨files, state.req, hcall⟩ hmessages hone rfl, rfl⟩
  obtain ⟨d, owned, hcall, hd⟩ | ⟨x, -, hcall⟩ :=
    call_handler { lib with sendfile := files } route req
  · refine harrive _ _ hcall ?_ (List.length_filterMap_le _ _)
    intro msg hmsg
    obtain ⟨d', hd', hmsg⟩ := List.mem_filterMap.1 hmsg
    cases List.mem_singleton.1 hd'
    obtain ⟨hnone, -⟩ | ⟨msg', hsome, hreq⟩ := hd.message
    · cases hnone.symm.trans hmsg
    · cases hsome.symm.trans hmsg
      exact hreq
  · exact harrive _ _ hcall (fun msg hmsg => absurd hmsg List.not_mem_nil) (Nat.zero_le 1)

/-- Every event is possible and keeps the parts together, and the manager does what it does by
itself. -/
theorem Wired.step {Image : Type} (h : Wired params lib clk workers s) (e : Event Image) :
    ∃ s', step params lib clk s e = .ok s' ∧ Wired params lib clk workers s' ∧
      run (World.step clk) s.world (e.action params s).toList = .ok s'.world := by
  have hworld (a : World.Action) (ha : a.message s.world.env.accepted = none) :
      ∃ s', (World.step clk s.world a >>= fun world => .ok { s with world }) = .ok s' ∧
        Wired params lib clk workers s' ∧ run (World.step clk) s.world [a] = .ok s'.world := by
    obtain ⟨actions, hrun⟩ := h.world
    obtain ⟨world, hstep⟩ := World.exists_step hrun a
    refine ⟨{ s with world }, by rw [hstep]; rfl, h.advance hstep ?_, by rw [run, hstep]; rfl⟩
    rw [ha]
    rfl
  cases e with
  | httpGet keepAlive path query ext hslash files =>
    exact h.callHandler files keepAlive (.inr ⟨hslash, ext, rfl⟩)
  | httpDelete keepAlive path query => exact h.callHandler lib.sendfile keepAlive (.inl rfl)
  | message envToken =>
    rw [Server.step, Event.action]
    cases hmailbox : s.mailbox with
    | nil => exact ⟨s, rfl, h, rfl⟩
    | cons msg mailbox =>
      obtain ⟨keepAlive, hreq⟩ := httpReq_head h hmailbox
      obtain ⟨hdeliver, hmessage⟩ := deliver_eq_step clk envToken hreq
      obtain ⟨actions, hrun⟩ := h.world
      obtain ⟨world, hstep⟩ :=
        World.exists_step hrun (msg.action envToken ⟨s.world.env.accepted, keepAlive⟩)
      refine ⟨{ s with world, mailbox }, by simp only [hdeliver, hstep]; rfl,
        h.advance hstep ?_, ?_⟩
      · rw [hmailbox, hmessage]
        rfl
      · rw [List.head?_cons]
        simp only [Option.bind_eq_bind, Option.bind_some, hreq]
        show run _ _ [_] = _
        rw [run, hstep]
        rfl
  | work i m e t =>
    rw [Server.step, Event.action]
    cases s.world.env.transformerRequests[i]? with
    | none => exact ⟨s, rfl, h, rfl⟩
    | some job => exact hworld _ rfl
  | resizeResult i => exact hworld (.resizeResult i) rfl
  | negativeDeleteCacheResponse i => exact hworld (.negativeDeleteCacheResponse i) rfl
  | clearCache => exact hworld .clearCache rfl
  | checkPendingRequests => exact hworld .checkPendingRequests rfl

/-- Every run of the server ends without a fault, and its parts fit together afterwards. -/
theorem wired_of_events {Image : Type} (params : AppParams) (lib : Restinio) (clk : Clock)
    (workers : List Mbox) (events : List (Event Image)) :
    ∃ s, run (step params lib clk) (init workers) events = .ok s ∧
      Wired params lib clk workers s :=
  run_history (fun _ => Wired params lib clk workers)
    (fun _ e _ h => (h.step e).imp fun _ hs' => ⟨hs'.1, hs'.2.1⟩)
    (wired_init params lib clk workers) events

/-- The parts of the server fit together after every run. -/
theorem wired_of_run {Image : Type} {events : List (Event Image)}
    (hrun : run (step params lib clk) (init workers) events = .ok s) :
    Wired params lib clk workers s := by
  obtain ⟨s', hs', h⟩ := wired_of_events params lib clk workers events
  cases hrun.symm.trans hs'
  exact h

/-! ## Where the requests are -/

/-- No two messages that were sent to the manager carry the same request. -/
theorem Wired.httpReq_nodup (h : Wired params lib clk workers s) :
    (s.sent.map Message.httpReq).Nodup := by
  refine List.Nodup.of_map (Option.map (·.id)) ?_
  rw [List.map_map]
  exact h.numbered ▸ List.nodup_range.map (Option.some_injective _)

/-- The handles of the messages the manager received are those it recorded. -/
theorem perm_httpReq : ∀ {msgs : List Message}, (∀ msg ∈ msgs, ∃ req, msg.httpReq = some req) →
    (((msgs.filterMap Message.received).map Prod.fst ++
      msgs.filterMap Message.receivedDelete).map some).Perm (msgs.map Message.httpReq)
  | [], _ => .nil
  | msg :: msgs, h => by
    obtain ⟨⟨req, hreq⟩, hmsgs⟩ := List.forall_mem_cons.1 h
    have ih := (perm_httpReq hmsgs).cons (some req)
    rw [List.map_cons, hreq]
    cases msg with
    | resizeRequest cmd =>
      have hcmd : cmd.httpReq = some req := hreq
      simpa only [List.filterMap_cons, Message.received, Message.receivedDelete, hcmd,
        Option.map_some, List.map_cons, List.cons_append] using ih
    | deleteCacheRequest cmd =>
      have hcmd : cmd.httpReq = some req := hreq
      simp only [List.filterMap_cons, Message.received, Message.receivedDelete, hcmd]
      exact (List.perm_middle.map some).trans ih

/-- What becomes of the requests of the server. -/
structure Accounts (lib : Restinio) (s : Server) : Prop where
  /-- A handler ends with one response to its request, or with one message that holds it, or it
  throws before it does anything, and this only at a query string that cannot be parsed. -/
  ends : ∀ a ∈ s.arrivals,
    (a.result = .ok () ∧ ∃ resp, a.done = [.response a.req.handle resp]) ∨
    (a.result = .ok () ∧ ∃ d msg, a.done = [d] ∧ a.messages = [msg] ∧
      msg.httpReq = some a.req.handle) ∨
    (a.done = [] ∧ ∃ x, lib.parseQuery a.req.query = .error x ∧ a.result = .error x)
  /-- No two messages hold the same request. -/
  distinct : (s.sent.map Message.httpReq).Nodup
  /-- The request of a message is in one place: the message waits in the mailbox, or the manager
  holds the request or answered it. -/
  once : ∀ a ∈ s.arrivals, a.messages ≠ [] →
    (s.mailbox.map Message.httpReq).count (some a.req.handle) +
      s.world.places.count a.req.handle = 1
  /-- The manager holds and answers no other requests. -/
  known : ∀ req ∈ s.world.places, ∃ a ∈ s.arrivals, a.messages ≠ [] ∧ a.req.handle = req

/-- The handler of each request sent one response or one message with its handle, or it did nothing
and threw what `parse_query` threw. -/
theorem Wired.ends (h : Wired params lib clk workers s) : ∀ a ∈ s.arrivals,
    (a.result = .ok () ∧ ∃ resp, a.done = [.response a.req.handle resp]) ∨
    (a.result = .ok () ∧ ∃ d msg, a.done = [d] ∧ a.messages = [msg] ∧
      msg.httpReq = some a.req.handle) ∨
    (a.done = [] ∧ ∃ x, lib.parseQuery a.req.query = .error x ∧ a.result = .error x) := by
  intro a ha
  obtain ⟨files, owned, hcall⟩ := h.handled a ha
  obtain ⟨d, owned', hcall', hd⟩ | ⟨x, hquery, hcall'⟩ :=
    call_handler { lib with sendfile := files } a.route a.req
  · obtain ⟨hresult, hstate⟩ := Prod.mk.inj (Except.ok.inj (hcall.symm.trans hcall'))
    have hdone : a.done = [d] := (HandlerState.mk.inj hstate).2
    obtain ⟨hnone, resp, rfl⟩ | ⟨msg, hsome, hreq⟩ := hd.message
    · exact .inl ⟨hresult, resp, hdone⟩
    · exact .inr (.inl ⟨hresult, d, msg, hdone, by simp [Arrival.messages, hdone, hsome], hreq⟩)
  · obtain ⟨hresult, hstate⟩ := Prod.mk.inj (Except.ok.inj (hcall.symm.trans hcall'))
    exact .inr (.inr ⟨(HandlerState.mk.inj hstate).2, x, hquery, hresult⟩)

/-- A message holds the request of its arrival. -/
theorem Wired.httpReq_of_mem (h : Wired params lib clk workers s) {a : Arrival}
    (ha : a ∈ s.arrivals) {msg : Message} (hmsg : msg ∈ a.messages) :
    msg.httpReq = some a.req.handle := by
  obtain ⟨-, resp, hdone⟩ | ⟨-, d, msg', -, hmessages, hreq⟩ | ⟨hdone, -⟩ := h.ends a ha
  · simp [Arrival.messages, hdone, Disposition.message] at hmsg
  · rw [hmessages] at hmsg
    cases List.mem_singleton.1 hmsg
    exact hreq
  · simp [Arrival.messages, hdone] at hmsg

/-- The messages in the mailbox and the requests of the manager are what the handlers sent. -/
theorem Wired.places_perm (h : Wired params lib clk workers s) :
    (s.mailbox.map Message.httpReq ++ s.world.places.map some).Perm
      (s.sent.map Message.httpReq) := by
  obtain ⟨actions, hrun⟩ := h.world
  obtain ⟨delivered, hsent, -, hreceived, hdeletes⟩ := h.mailbox
  have hreqs : ∀ msg ∈ delivered, ∃ req, msg.httpReq = some req := by
    intro msg hmsg
    obtain ⟨a, ha, hmsg⟩ := List.mem_flatMap.1 (hsent ▸ List.mem_append_left _ hmsg)
    exact ⟨_, h.httpReq_of_mem ha hmsg⟩
  have hplaces := (World.places_perm hrun).map some
  rw [hreceived, hdeletes] at hplaces
  rw [hsent, List.map_append]
  exact ((hplaces.trans (perm_httpReq hreqs)).append_left _).trans List.perm_append_comm

/-- A server whose parts fit together has all its requests accounted for. -/
theorem Wired.accounts (h : Wired params lib clk workers s) : Accounts lib s := by
  refine ⟨h.ends, h.httpReq_nodup, ?_, ?_⟩
  · intro a ha hne
    obtain ⟨msg, hmsg⟩ := List.exists_mem_of_ne_nil _ hne
    have hmem : some a.req.handle ∈ s.sent.map Message.httpReq :=
      List.mem_map.2 ⟨msg, List.mem_flatMap.2 ⟨a, ha, hmsg⟩, h.httpReq_of_mem ha hmsg⟩
    have hone := List.count_eq_one_of_mem h.httpReq_nodup hmem
    rwa [← h.places_perm.count_eq, List.count_append,
      List.count_map_of_injective _ _ (Option.some_injective _)] at hone
  · intro req hreq
    have hmem : some req ∈ s.sent.map Message.httpReq :=
      h.places_perm.subset (List.mem_append_right _ (List.mem_map_of_mem hreq))
    obtain ⟨msg, hmsg, hhandle⟩ := List.mem_map.1 hmem
    obtain ⟨a, ha, hmsg⟩ := List.mem_flatMap.1 hmsg
    have hsame := (h.httpReq_of_mem ha hmsg).symm.trans hhandle
    exact ⟨a, ha, List.ne_nil_of_mem hmsg, Option.some.inj hsame⟩

/-- No run of the server faults, and in every state it reaches each request has ended in its handler
or is in exactly one place, so that none is answered twice or lost. -/
theorem server_accounts {Image : Type} (params : AppParams) (lib : Restinio) (clk : Clock)
    (workers : List Mbox) (events : List (Event Image)) :
    ∃ s, run (step params lib clk) (init workers) events = .ok s ∧ Accounts lib s := by
  obtain ⟨s, hs, h⟩ := wired_of_events params lib clk workers events
  exact ⟨s, hs, h.accounts⟩

end Server

end Shrimp
