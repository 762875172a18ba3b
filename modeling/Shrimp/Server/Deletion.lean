import Shrimp.Server.Images

/-!
# The deletion of the cache

Who may delete the cache is decided when the message of the request reaches the manager, by the
token of the query string and the value `SHRIMP_ADMIN_TOKEN` has then; the answer may be sent later.
`deletions_authorized` says that over a whole run of the server every request to delete the cache is
answered as was decided, and that the cache is emptied for the right token only.
-/

namespace Shrimp

open Execution HttpServer

/-- The answer to a request to delete the cache that reaches the manager with a token while
`SHRIMP_ADMIN_TOKEN` is `envToken`. -/
def deletionResponse (envToken : Option CxxString) (token : CxxString) (req : RequestHandle) :
    Response :=
  match envToken.filter (· ≠ []) with
  | some envToken =>
    if token = envToken then do200PlaintextResponse req "Cache deleted\r\n"
    else do403Response req "Token value mismatch\r\n"
  | none => do403Response req "No admin token defined\r\n"

/-- The answer an action decides on, where `accepted` requests arrived before. -/
def World.Action.deletion (accepted : Nat) : World.Action → Option (RequestHandle × Response)
  | .deleteCacheRequest keepAlive token envToken =>
    some (⟨accepted, keepAlive⟩, deletionResponse envToken token ⟨accepted, keepAlive⟩)
  | _ => none

/-- A request to delete the cache was given this response, or it will be. -/
def Environment.Decided (env : Environment) (p : RequestHandle × Response) : Prop :=
  p ∈ env.answered ∧ p.1 ∈ env.receivedDeletes ∨
    ∃ cmd ∈ env.negativeResponses, p = (cmd.httpReq, do403Response cmd.httpReq cmd.responseText)

/-- At the start nothing is decided. -/
theorem Environment.not_decided_init (p : RequestHandle × Response) :
    ¬ Environment.init.Decided p := by
  rintro (⟨hanswered, -⟩ | ⟨cmd, hcmd, -⟩)
  · exact List.not_mem_nil hanswered
  · exact List.not_mem_nil hcmd

/-! ## The manager -/

namespace ListWorld

variable {clk : Clock} {workers : List Mbox} {s s' : ListWorld}

/-- As long as no request to delete the cache arrives and no delayed response is due, none of them
is answered: the requests that are would be held twice. -/
theorem decided_of_same (hs : s.InOrder workers) (hs' : s'.InOrder workers)
    (hanswered : s.env.answered <+: s'.env.answered)
    (hdeletes : s'.env.receivedDeletes = s.env.receivedDeletes)
    (hnegative : s'.env.negativeResponses = s.env.negativeResponses) {p : RequestHandle × Response}
    (hp : s'.env.Decided p) : s.env.Decided p := by
  obtain ⟨new, hnew⟩ := hanswered
  obtain ⟨hmem, hdelete⟩ | ⟨cmd, hcmd, rfl⟩ := hp
  · refine .inl ⟨?_, hdeletes ▸ hdelete⟩
    have hlength := hs.requests.deletes.length_eq
    have hlength' := hs'.requests.deletes.length_eq
    rw [Environment.answeredDeletes, ← hnew, hdeletes, hnegative, ← hlength, List.map_append,
      List.filter_append, Environment.answeredDeletes] at hlength'
    simp only [List.length_append] at hlength'
    have hnone : (new.map Prod.fst).filter (· ∈ s.env.receivedDeletes) = [] :=
      List.eq_nil_of_length_eq_zero (by omega)
    rw [← hnew] at hmem
    refine (List.mem_append.1 hmem).resolve_right ?_
    intro hlate
    have hnot := List.filter_eq_nil_iff.1 hnone p.1 (List.mem_map_of_mem hlate)
    exact hnot (decide_eq_true (hdeletes ▸ hdelete))
  · exact .inr ⟨cmd, hnegative ▸ hcmd, rfl⟩

/-- A request to delete the cache is decided when it arrives. -/
theorem decided_onDeleteCacheRequest (hs : s.InOrder workers) (keepAlive : Bool)
    (token : CxxString) (envToken : Option CxxString) {p : RequestHandle × Response}
    (hp : (s.next clk (.deleteCacheRequest keepAlive token envToken)).env.Decided p) :
    s.env.Decided p ∨
      p = (⟨s.env.accepted, keepAlive⟩,
        deletionResponse envToken token ⟨s.env.accepted, keepAlive⟩) := by
  let req : RequestHandle := ⟨s.env.accepted, keepAlive⟩
  -- The request that arrives was not answered before.
  have hold (hanswered : p ∈ s.env.answered) (hdelete : p.1 ∈ s.env.receivedDeletes ++ [req]) :
      s.env.Decided p := by
    refine .inl ⟨hanswered, (List.mem_append.1 hdelete).resolve_right ?_⟩
    intro hreq
    exact hs.requests.unanswered req rfl p hanswered (List.mem_singleton.1 hreq)
  have hdelayed {text : String} (hresp : deletionResponse envToken token req =
      do403Response req text) (hp : ({ s.env.receiveDelete req with
        negativeResponses := s.env.negativeResponses ++ [⟨req, text⟩] } : Environment).Decided p) :
      s.env.Decided p ∨ p = (req, deletionResponse envToken token req) := by
    obtain ⟨hanswered, hdelete⟩ | ⟨cmd, hcmd, rfl⟩ := hp
    · exact .inl (hold hanswered hdelete)
    · obtain hcmd | hcmd := List.mem_append.1 hcmd
      · exact .inl (.inr ⟨cmd, hcmd, rfl⟩)
      · cases List.mem_singleton.1 hcmd
        exact .inr (by rw [hresp])
  rw [ListWorld.next] at hp
  unfold ListWorld.onDeleteCacheRequest at hp
  unfold deletionResponse at hdelayed ⊢
  cases hvalid : envToken.filter (· ≠ []) with
  | none =>
    simp only [hvalid] at hp hdelayed ⊢
    exact hdelayed rfl hp
  | some valid =>
    simp only [hvalid] at hp hdelayed ⊢
    by_cases htoken : token = valid
    · rw [if_pos htoken] at hp ⊢
      obtain ⟨hanswered, hdelete⟩ | hcmd := hp
      · obtain hanswered | hanswered := List.mem_append.1 hanswered
        · exact .inl (hold hanswered hdelete)
        · exact .inr (List.mem_singleton.1 hanswered)
      · exact .inl (.inr hcmd)
    · rw [if_neg htoken] at hp hdelayed ⊢
      exact hdelayed rfl hp

/-- An action decides on one request to delete the cache at most, the one that arrives with it. -/
theorem decided_next (clk : Clock) (hs : s.InOrder workers) (a : World.Action)
    {p : RequestHandle × Response} (hp : (s.next clk a).env.Decided p) :
    s.env.Decided p ∨ a.deletion s.env.accepted = some p := by
  have hs' : (s.next clk a).InOrder workers := hs.next a
  have hgrows := (logGrows_next clk s a).answered
  have hdeletes := (records_next clk s a).receivedDeletes
  cases a with
  | deleteCacheRequest keepAlive token envToken =>
    obtain hold | rfl := decided_onDeleteCacheRequest hs keepAlive token envToken hp
    · exact .inl hold
    · exact .inr rfl
  | negativeDeleteCacheResponse i =>
    rw [ListWorld.next] at hp
    split at hp
    case h_2 => exact .inl hp
    case h_1 cmd hcmd =>
      refine .inl ?_
      obtain ⟨hanswered, hdelete⟩ | ⟨cmd', hcmd', rfl⟩ := hp
      · obtain hanswered | hanswered := List.mem_append.1 hanswered
        · exact .inl ⟨hanswered, hdelete⟩
        · cases List.mem_singleton.1 hanswered
          exact .inr ⟨cmd, List.mem_of_getElem? hcmd, rfl⟩
      · exact .inr ⟨cmd', List.mem_of_mem_eraseIdx hcmd', rfl⟩
  | resizeRequest keepAlive image targetFormat params =>
    refine .inl (decided_of_same hs hs' hgrows (hdeletes.trans (List.append_nil _)) ?_ hp)
    exact (keepsRecord_onResizeRequest clk
      { s with env := s.env.receive _ _ } _ _).negativeResponses
  | resizeResult i =>
    refine .inl (decided_of_same hs hs' hgrows (hdeletes.trans (List.append_nil _)) ?_ hp)
    rw [ListWorld.next]
    split
    case h_1 cmd hcmd =>
      exact (keepsRecord_onResizeResult clk { s with env := s.env.deliverResult i }
        cmd).negativeResponses
    case h_2 => rfl
  | transform i result =>
    refine .inl (decided_of_same hs hs' hgrows (hdeletes.trans (List.append_nil _)) ?_ hp)
    rw [ListWorld.next]
    split <;> rfl
  | clearCache =>
    exact .inl (decided_of_same hs hs' hgrows (hdeletes.trans (List.append_nil _)) rfl hp)
  | checkPendingRequests =>
    exact .inl (decided_of_same hs hs' hgrows (hdeletes.trans (List.append_nil _)) rfl hp)

/-- A request to delete the cache empties it if it carries the token, and leaves it alone
otherwise. -/
theorem cache_onDeleteCacheRequest (s : ListWorld) (envToken : Option CxxString)
    (req : RequestHandle) (token : CxxString) :
    (s.onDeleteCacheRequest envToken req token).cache =
      if envToken.filter (· ≠ []) = some token then [] else s.cache := by
  obtain ⟨htoken, heq⟩ | ⟨htoken, text, heq⟩ := onDeleteCacheRequest_cases s envToken req token
  · rw [heq, if_pos htoken]
  · rw [heq, if_neg htoken]

end ListWorld

namespace World

variable {clk : Clock} {workers : List Mbox} {actions : List World.Action} {w w' : World}

/-- A step in a reachable state decides on the request to delete the cache that arrives with it, and
on no other. -/
theorem decided_of_step {a : Action} (hrun : run (step clk) (init workers) actions = .ok w)
    (hstep : step clk w a = .ok w') {p : RequestHandle × Response} (hp : w'.env.Decided p) :
    w.env.Decided p ∨ a.deletion w.env.accepted = some p := by
  have h' := refines_of_run (run_concat_eq_ok.2 ⟨w, hrun, hstep⟩)
  rw [List.foldl_concat] at h'
  rw [h'.env] at hp
  rw [(refines_of_run hrun).env]
  exact ListWorld.decided_next clk (ListWorld.inOrder_foldl clk workers actions) a hp

/-- A request to delete the cache empties it if its token is the admin token, which must be set and
not be empty, and leaves it alone otherwise. -/
theorem cache_of_deletion (hrun : run (step clk) (init workers) actions = .ok w)
    {keepAlive : Bool} {token : CxxString} {envToken : Option CxxString}
    (hstep : step clk w (.deleteCacheRequest keepAlive token envToken) = .ok w') :
    w'.manager.transformedCache.toList =
      if envToken.filter (· ≠ []) = some token then [] else w.manager.transformedCache.toList := by
  have h' := refines_of_run (run_concat_eq_ok.2 ⟨w, hrun, hstep⟩)
  rw [List.foldl_concat] at h'
  rw [h'.cache.toList_eq, (refines_of_run hrun).cache.toList_eq]
  exact ListWorld.cache_onDeleteCacheRequest _ envToken _ token

end World

/-! ## The server -/

namespace Server

variable {Image : Type} {params : AppParams} {lib : Restinio} {clk : Clock} {workers : List Mbox}
  {s : Server} {events : List (Event Image)}

/-- When the message with the request and the token reached the manager, `SHRIMP_ADMIN_TOKEN` was
such that this response was decided on. -/
def DecidedOn (params : AppParams) (lib : Restinio) (clk : Clock) (workers : List Mbox)
    (events : List (Event Image)) (req : RequestHandle) (token : CxxString) (resp : Response) :
    Prop :=
  ∃ past envToken future s, events = past ++ .message envToken :: future ∧
    run (step params lib clk) (init workers) past = .ok s ∧
    s.mailbox.head? = some (.deleteCacheRequest ⟨some req, token⟩) ∧
    resp = deletionResponse envToken token req

/-- What was decided stays so whatever happens later. -/
theorem DecidedOn.append {req : RequestHandle} {token : CxxString} {resp : Response}
    (h : DecidedOn params lib clk workers events req token resp) (e : Event Image) :
    DecidedOn params lib clk workers (events ++ [e]) req token resp := by
  obtain ⟨past, envToken, future, s, rfl, h⟩ := h
  exact ⟨past, envToken, future ++ [e], s, by simp, h⟩

/-- What is decided at an event is decided on the message that waits longest. -/
theorem decidedOn_of_deletion {e : Event Image} {a : World.Action}
    (h : Wired params lib clk workers s)
    (hrun : run (step params lib clk) (init workers) events = .ok s)
    (ha : e.action params s = some a) {p : RequestHandle × Response}
    (hp : a.deletion s.world.env.accepted = some p) :
    ∃ token, .deleteCacheRequest ⟨some p.1, token⟩ ∈ s.sent ∧
      DecidedOn params lib clk workers (events ++ [e]) p.1 token p.2 := by
  cases e with
  | message envToken =>
    simp only [Event.action, Option.bind_eq_bind, Option.bind_eq_some_iff] at ha
    obtain ⟨msg, hmsg, req, hreq, ha⟩ := ha
    obtain ⟨mailbox, hmailbox⟩ := List.head?_eq_some_iff.1 hmsg
    obtain ⟨keepAlive, hhead⟩ := httpReq_head h hmailbox
    cases hreq.symm.trans hhead
    cases msg with
    | resizeRequest cmd => cases ha; cases hp
    | deleteCacheRequest cmd =>
      cases ha
      cases hp
      obtain ⟨httpReq, token⟩ := cmd
      cases hhead
      obtain ⟨delivered, hsent, -⟩ := h.mailbox
      refine ⟨token, ?_, events, envToken, [], s, rfl, hrun, hmsg, rfl⟩
      rw [hsent, hmailbox]
      exact List.mem_append_right _ List.mem_cons_self
  | work i m e t =>
    simp only [Event.action, Option.bind_eq_bind, Option.bind_eq_some_iff] at ha
    obtain ⟨job, -, ha⟩ := ha
    cases ha
    cases hp
  | _ => cases ha <;> cases hp

/-- The record of the requests only grows. -/
theorem arrivals_of_step {e : Event Image} {s' : Server}
    (hstep : step params lib clk s e = .ok s') : s.arrivals <+: s'.arrivals := by
  have hworld {x : Except Fault World}
      (hx : (x >>= fun world => .ok { s with world }) = .ok s') : s.arrivals <+: s'.arrivals := by
    obtain ⟨world, -, h⟩ := bind_eq_ok.1 hx
    exact Except.ok.inj h ▸ List.prefix_rfl
  have hcall {lib' : Restinio} {route : Route} {keepAlive : Bool} {path query : CxxString}
      (hx : s.callHandler lib' route keepAlive path query = .ok s') :
      s.arrivals <+: s'.arrivals := by
    obtain ⟨⟨result, state⟩, -, h⟩ := bind_eq_ok.1 hx
    exact Except.ok.inj h ▸ List.prefix_append _ _
  cases e with
  | httpGet keepAlive path query ext hslash files => exact hcall hstep
  | httpDelete keepAlive path query => exact hcall hstep
  | message envToken =>
    rw [step] at hstep
    split at hstep
    · exact Except.ok.inj hstep ▸ List.prefix_rfl
    · obtain ⟨world, -, h⟩ := bind_eq_ok.1 hstep
      exact Except.ok.inj h ▸ List.prefix_rfl
  | work i m e t =>
    rw [step] at hstep
    split at hstep
    · exact Except.ok.inj hstep ▸ List.prefix_rfl
    · exact hworld hstep
  | resizeResult i => exact hworld hstep
  | negativeDeleteCacheResponse i => exact hworld hstep
  | clearCache => exact hworld hstep
  | checkPendingRequests => exact hworld hstep

/-- What was sent stays sent. -/
theorem sent_of_step {e : Event Image} {s' : Server}
    (hstep : step params lib clk s e = .ok s') : s.sent ⊆ s'.sent := by
  obtain ⟨new, hnew⟩ := arrivals_of_step hstep
  rw [sent, sent, ← hnew, List.flatMap_append]
  exact List.subset_append_left _ _

/-- What is decided after an event was decided before, or is at the event. -/
theorem decided_of_event {e : Event Image} {world : World} (h : Wired params lib clk workers s)
    (hrun : run (step params lib clk) (init workers) events = .ok s)
    (hworld : run (World.step clk) s.world (e.action params s).toList = .ok world)
    {p : RequestHandle × Response} (hp : world.env.Decided p) :
    s.world.env.Decided p ∨ ∃ token, .deleteCacheRequest ⟨some p.1, token⟩ ∈ s.sent ∧
      DecidedOn params lib clk workers (events ++ [e]) p.1 token p.2 := by
  obtain ⟨-, rfl⟩ | ⟨a, ha, hstep⟩ := run_toList_eq_ok.1 hworld
  · exact .inl hp
  · obtain ⟨actions, hactions⟩ := h.world
    exact (World.decided_of_step hactions hstep hp).imp_right (decidedOn_of_deletion h hrun ha)

/-- Every answer to a request to delete the cache was decided on when its message arrived. -/
theorem decidedOn_of_run (hrun : run (step params lib clk) (init workers) events = .ok s) :
    ∀ p, s.world.env.Decided p → ∃ token, .deleteCacheRequest ⟨some p.1, token⟩ ∈ s.sent ∧
      DecidedOn params lib clk workers events p.1 token p.2 := by
  obtain ⟨s', hs', -, -, hdecided⟩ := run_history
    (fun (events : List (Event Image)) s => Wired params lib clk workers s ∧
      run (step params lib clk) (init workers) events = .ok s ∧
      ∀ p, s.world.env.Decided p → ∃ token, .deleteCacheRequest ⟨some p.1, token⟩ ∈ s.sent ∧
        DecidedOn params lib clk workers events p.1 token p.2)
    (fun events e s ⟨h, hrun, hdecided⟩ => by
      obtain ⟨s', hs', h', hworld⟩ := h.step e
      refine ⟨s', hs', h', run_concat_eq_ok.2 ⟨s, hrun, hs'⟩, fun p hp => ?_⟩
      obtain hp | ⟨token, hsent, htoken⟩ := decided_of_event h hrun hworld hp
      · obtain ⟨token, hsent, htoken⟩ := hdecided p hp
        exact ⟨token, sent_of_step hs' hsent, htoken.append e⟩
      · exact ⟨token, sent_of_step hs' hsent, htoken⟩)
    ⟨wired_init params lib clk workers, rfl, fun p hp => absurd hp (Environment.not_decided_init p)⟩
    events
  cases hrun.symm.trans hs'
  exact hdecided

/-- What the requests to delete the cache lead to. -/
structure DeletionsAuthorized (params : AppParams) (lib : Restinio) (clk : Clock)
    (workers : List Mbox) (events : List (Event Image)) (s : Server) : Prop where
  /-- Without a token in the query string the request is refused by its handler. -/
  noToken : ∀ a ∈ s.arrivals, a.route = .deleteCache → ∀ qp, lib.parseQuery a.req.query = .ok qp →
    lib.getParam qp "token" = none →
    a.done = [.response a.req.handle (do403Response a.req.handle "No token provided\r\n")]
  /-- Otherwise it is answered as was decided when its message reached the manager, whatever has
  happened since. -/
  answered : ∀ a ∈ s.arrivals, a.route = .deleteCache → ∀ qp, lib.parseQuery a.req.query = .ok qp →
    ∀ token, lib.getParam qp "token" = some token →
      a.messages = [.deleteCacheRequest ⟨some a.req.handle, token⟩] ∧
      ∀ resp, (a.req.handle, resp) ∈ s.world.env.answered →
        DecidedOn params lib clk workers events a.req.handle token resp
  /-- The message empties the cache if it carries the token, and leaves it alone otherwise. -/
  erased : ∀ past envToken future s₁ s₂, events = past ++ .message envToken :: future →
    run (step params lib clk) (init workers) past = .ok s₁ →
    step params lib clk s₁ (.message envToken : Event Image) = .ok s₂ →
    ∀ cmd, s₁.mailbox.head? = some (.deleteCacheRequest cmd) →
      s₂.world.manager.transformedCache.toList =
        if envToken.filter (· ≠ []) = some cmd.token then []
        else s₁.world.manager.transformedCache.toList

/-- What the handler of the deletion does. -/
theorem done_of_handled {a : Arrival} (hhandled : Handled lib a) (hroute : a.route = .deleteCache)
    {qp : QueryStringParams} (hquery : lib.parseQuery a.req.query = .ok qp) :
    a.done = [match lib.getParam qp "token" with
      | none => .response a.req.handle (do403Response a.req.handle "No token provided\r\n")
      | some token => .deleteCacheRequest ⟨some a.req.handle, token⟩] := by
  obtain ⟨files, owned, hcall⟩ := hhandled
  rw [hroute] at hcall
  have hcall' := hcall.symm.trans (call_deleteCacheHandler { lib with sendfile := files } a.req)
  simp only [hquery] at hcall'
  exact congrArg (fun p => p.2.done) (Except.ok.inj hcall')

/-- What the manager received for the handle of a request to delete the cache is that request. -/
theorem Wired.deletion_of_answered (h : Wired params lib clk workers s) {req : RequestHandle}
    {token : CxxString} (hsent : .deleteCacheRequest ⟨some req, token⟩ ∈ s.sent) {resp : Response}
    (hresp : (req, resp) ∈ s.world.env.answered) : s.world.env.Decided (req, resp) := by
  obtain ⟨actions, hactions⟩ := h.world
  have href := World.refines_of_run hactions
  have hr := (ListWorld.inOrder_foldl clk workers actions).requests
  have hanswers := hr.answers (req, resp) (href.env ▸ hresp)
  rw [← href.env] at hanswers
  obtain ⟨k, hk, -⟩ | ⟨hdelete, -⟩ := hanswers
  · exfalso
    obtain ⟨delivered, hdelivered, -, hreceived, -⟩ := h.mailbox
    rw [hreceived] at hk
    obtain ⟨msg, hmsg, hresize⟩ := List.mem_filterMap.1 hk
    have hmem : msg ∈ s.sent := hdelivered ▸ List.mem_append_left _ hmsg
    cases msg with
    | deleteCacheRequest cmd => cases hresize
    | resizeRequest cmd =>
      obtain ⟨req', hreq', heq⟩ := Option.map_eq_some_iff.1 hresize
      cases heq
      cases h.message_unique hmem hsent hreq'
  · exact .inl ⟨hresp, hdelete⟩

/-- The message of a request to delete the cache empties it if it carries the token. -/
theorem Wired.cache_of_message (h : Wired params lib clk workers s) {envToken : Option CxxString}
    {s' : Server}
    (hstep : Server.step params lib clk s (.message envToken : Event Image) = .ok s')
    {cmd : DeleteCacheRequest} (hcmd : s.mailbox.head? = some (.deleteCacheRequest cmd)) :
    s'.world.manager.transformedCache.toList =
      if envToken.filter (· ≠ []) = some cmd.token then []
      else s.world.manager.transformedCache.toList := by
  obtain ⟨actions, hactions⟩ := h.world
  obtain ⟨mailbox, hmailbox⟩ := List.head?_eq_some_iff.1 hcmd
  obtain ⟨keepAlive, hreq⟩ := httpReq_head h hmailbox
  obtain ⟨hdeliver, -⟩ := deliver_eq_step clk envToken hreq
  rw [Server.step, hmailbox] at hstep
  obtain ⟨world, hworld, hs'⟩ := bind_eq_ok.1 hstep
  rw [hdeliver] at hworld
  rw [← Except.ok.inj hs']
  exact World.cache_of_deletion hactions hworld

/-- In every state of every run of the server the requests to delete the cache were answered as the
token of their query string and the admin token at the arrival of their messages demand, and the
cache was emptied for none other than these. -/
theorem deletions_authorized (params : AppParams) (lib : Restinio) (clk : Clock)
    (workers : List Mbox) (events : List (Event Image)) :
    ∃ s, run (step params lib clk) (init workers) events = .ok s ∧
      DeletionsAuthorized params lib clk workers events s := by
  obtain ⟨s, hrun, h⟩ := wired_of_events params lib clk workers events
  refine ⟨s, hrun, ?_, ?_, ?_⟩
  · intro a ha hroute qp hquery htoken
    have hdone := done_of_handled (h.handled a ha) hroute hquery
    rwa [htoken] at hdone
  · intro a ha hroute qp hquery token htoken
    have hdone := done_of_handled (h.handled a ha) hroute hquery
    rw [htoken] at hdone
    have hmessages : a.messages = [.deleteCacheRequest ⟨some a.req.handle, token⟩] := by
      rw [Arrival.messages, hdone]
      rfl
    refine ⟨hmessages, ?_⟩
    intro resp hresp
    have hsent : .deleteCacheRequest ⟨some a.req.handle, token⟩ ∈ s.sent :=
      Wired.mem_sent ha (hmessages ▸ List.mem_singleton_self _)
    obtain ⟨token', hsent', hdecided⟩ :=
      decidedOn_of_run hrun _ (h.deletion_of_answered hsent hresp)
    cases h.message_unique hsent hsent' rfl
    exact hdecided
  · intro past envToken future s₁ s₂ _ hpast hstep cmd hcmd
    exact (wired_of_run hpast).cache_of_message hstep hcmd

end Server

end Shrimp
