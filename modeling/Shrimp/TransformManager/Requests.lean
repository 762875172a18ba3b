import Shrimp.TransformManager.Protocol

/-!
# The requests and their answers

`Requests arriving deleting s` accounts for every request that arrived. For each key the answered
requests, the ones in progress, the pending ones and those just arriving are, in this order, the
requests received for that key: none is lost, answered twice or overtaken. Every answer is
justified: an image or a failure is what a worker made of a job with the key of the request. A
request to delete the cache is answered, has one delayed response under way, or is in `deleting`.
`Images s` says where the images in the cache come from, and `Requests.next` and `Images.next` go
through all actions.
-/

namespace Shrimp

/-! ## Handles -/

/-- The handles of waiting requests. -/
abbrev handles (l : RequestList) : List RequestHandle := l.map (·.value)

/-- The key of a request that arrives. -/
def World.Action.requestKey : World.Action → Option ResizeRequestKey
  | .resizeRequest _ image targetFormat params => some ⟨image, targetFormat, params⟩
  | _ => none

/-- A request arrives with the action. -/
def World.Action.arrives : World.Action → Bool
  | .resizeRequest .. | .deleteCacheRequest .. => true
  | _ => false

/-- The request for an image that arrives with an action, where `accepted` arrived before, and its
key: the path, the format and the parameters it asks for. -/
def World.Action.received (accepted : Nat) :
    World.Action → Option (RequestHandle × ResizeRequestKey)
  | .resizeRequest keepAlive image targetFormat params =>
    some (⟨accepted, keepAlive⟩, ⟨image, targetFormat, params⟩)
  | _ => none

/-- The request to delete the cache that arrives with an action, where `accepted` arrived before. -/
def World.Action.receivedDelete (accepted : Nat) : World.Action → Option RequestHandle
  | .deleteCacheRequest keepAlive _ _ => some ⟨accepted, keepAlive⟩
  | _ => none

/-- The result a worker sends with an action. -/
def World.Action.outcome (env : Environment) : World.Action → Option ResizeResult
  | .transform i result => do
    let job ← env.transformerRequests[i]?
    return Transformer.onResizeRequest job result
  | _ => none

/-- The actions of a run with which requests arrive, numbered from zero. -/
def World.arrivals (actions : List World.Action) : List (World.Action × Nat) :=
  (actions.filter World.Action.arrives).zipIdx

namespace Environment

/-- The requests received for a key, in order. -/
def receivedFor (env : Environment) (k : ResizeRequestKey) : List RequestHandle :=
  (env.received.filter fun r => r.2 = k).map Prod.fst

/-- The answered requests for a key, in the order of their answers. -/
def answeredFor (env : Environment) (k : ResizeRequestKey) : List RequestHandle :=
  (env.answered.map Prod.fst).filter fun req => (req, k) ∈ env.received

/-- The answered requests to delete the cache. -/
def answeredDeletes (env : Environment) : List RequestHandle :=
  (env.answered.map Prod.fst).filter fun req => req ∈ env.receivedDeletes

/-- The requests received for a key are those that were recorded with it. -/
theorem mem_receivedFor {env : Environment} {k : ResizeRequestKey} {req : RequestHandle} :
    req ∈ env.receivedFor k ↔ (req, k) ∈ env.received := by
  simp [receivedFor]

end Environment

/-! ## Justified answers -/

/-- Two responses show the same result: status, content type and body. -/
def Response.Agrees (a b : Response) : Prop :=
  a.statusLine = b.statusLine ∧ a.contentType = b.contentType ∧ a.body = b.body

/-- The answer of a server that transforms every image for one request only. -/
def answerSeparately (req : RequestHandle) (key : ResizeRequestKey) : ResizeOutcome → Response
  | .successful result => serveTransformedImage result.imageBlob key.format .transform
      (World.additionalHeaders result)
  | .failed _ => do404Response req

/-- An answer to a request for `k`: refused, timed out, or the outcome of a job with that key. -/
def Justified (env : Environment) (k : ResizeRequestKey) (req : RequestHandle) (resp : Response) :
    Prop :=
  resp = do503Response req ∨ resp = do504Response req ∨
    ∃ res ∈ env.produced, res.key = k ∧ resp.Agrees (answerSeparately req k res.result)

/-- What the log of one environment says the log of another says too. -/
structure SameLog (env env' : Environment) : Prop where
  answered : env'.answered = env.answered
  received : env'.received = env.received
  receivedDeletes : env'.receivedDeletes = env.receivedDeletes
  negativeResponses : env'.negativeResponses = env.negativeResponses
  produced : env.produced ⊆ env'.produced

/-- Nothing was received or answered if nothing changed. -/
theorem SameLog.refl (env : Environment) : SameLog env env := ⟨rfl, rfl, rfl, rfl, fun _ => id⟩

/-- A justified response stays so when the workers have made more. -/
theorem Justified.mono {env env' : Environment} {k : ResizeRequestKey} {req : RequestHandle}
    {resp : Response} (h : Justified env k req resp) (hsub : env.produced ⊆ env'.produced) :
    Justified env' k req resp := by
  rcases h with h | h | ⟨res, hres, h⟩
  · exact .inl h
  · exact .inr (.inl h)
  · exact .inr (.inr ⟨res, hsub hres, h⟩)

/-- The status of a justified response is one of 200, 404, 503 and 504. -/
theorem Justified.statusLine_mem {env : Environment} {k : ResizeRequestKey} {req : RequestHandle}
    {resp : Response} (h : Justified env k req resp) : resp.statusLine ∈
      [HttpStatusLine.statusOk, .statusNotFound, .statusServiceUnavailable,
        .statusGatewayTimeOut] := by
  rcases h with rfl | rfl | ⟨res, -, -, hstatus, -⟩
  · simp
  · simp
  · rw [hstatus]
    cases res.result <;> simp [answerSeparately]

namespace ListWorld

variable {clk : Clock} {workers : List Mbox} {s s' : ListWorld}
  {arriving arriving' : RequestList} {deleting : List RequestHandle}

/-- The requests waiting for a key, those in progress first. -/
def waiting (s : ListWorld) (k : ResizeRequestKey) : List RequestHandle :=
  handles (ofKey k s.inprogress) ++ handles (ofKey k s.pending)

/-! ## The invariant -/

/-- Every request is accounted for, `arriving` being the resize requests and `deleting` the requests
to delete the cache that are just being handled. -/
structure Requests (arriving : RequestList) (deleting : List RequestHandle) (s : ListWorld) :
    Prop where
  fifo : ∀ k, s.env.answeredFor k ++ s.waiting k ++ handles (ofKey k arriving) =
    s.env.receivedFor k
  deletes : (s.env.answeredDeletes ++ s.env.negativeResponses.map (·.httpReq) ++ deleting).Perm
    s.env.receivedDeletes
  ids : (s.env.received.map (·.1.id) ++ s.env.receivedDeletes.map (·.id)).Perm
    (List.range s.env.accepted)
  answers : ∀ p ∈ s.env.answered,
    (∃ k, (p.1, k) ∈ s.env.received ∧ Justified s.env k p.1 p.2) ∨
    p.1 ∈ s.env.receivedDeletes ∧ p.2.statusLine ∈ [.statusOk, .statusForbidden]

/-- At the start no request was received, and none is kept anywhere. -/
theorem requests_init (workers : List Mbox) : Requests [] [] (init workers) where
  fifo _ := rfl
  deletes := .nil
  ids := .nil
  answers _ h := absurd h List.not_mem_nil

namespace Requests

variable (h : Requests arriving deleting s)
include h

/-- No two requests that were received have the same number. -/
theorem nodup_ids : (s.env.received.map (·.1.id) ++ s.env.receivedDeletes.map (·.id)).Nodup :=
  h.ids.nodup_iff.2 List.nodup_range

/-- A request has one key. -/
theorem key_unique {req : RequestHandle} {k k' : ResizeRequestKey} (hk : (req, k) ∈ s.env.received)
    (hk' : (req, k') ∈ s.env.received) : k = k' := by
  have hnodup := (List.nodup_append'.1 h.nodup_ids).1
  exact congrArg Prod.snd (List.inj_on_of_nodup_map hnodup hk hk' rfl)

/-- A resize request is no request to delete the cache. -/
theorem not_delete {req : RequestHandle} {k : ResizeRequestKey} (hk : (req, k) ∈ s.env.received) :
    req ∉ s.env.receivedDeletes := fun hreq =>
  (List.nodup_append'.1 h.nodup_ids).2.2 (List.mem_map_of_mem hk) (List.mem_map_of_mem hreq)

/-- No request was received twice for the same key. -/
theorem received_nodup (k : ResizeRequestKey) : (s.env.receivedFor k).Nodup := by
  have hnodup := (List.nodup_append'.1 h.nodup_ids).1
  have hmap : (s.env.receivedFor k).map (·.id) =
      (s.env.received.filter fun r => r.2 = k).map (·.1.id) := by
    rw [Environment.receivedFor, List.map_map]; rfl
  exact List.Nodup.of_map (·.id) (hmap ▸ hnodup.sublist (List.filter_sublist.map _))

/-- No request to delete the cache was received twice. -/
theorem deletes_nodup : s.env.receivedDeletes.Nodup :=
  List.Nodup.of_map (·.id) (List.nodup_append'.1 h.nodup_ids).2.1

/-- The number of the next request is new. -/
theorem fresh {req : RequestHandle} (hid : req.id = s.env.accepted) :
    (∀ k, (req, k) ∉ s.env.received) ∧ req ∉ s.env.receivedDeletes := by
  have hlt : ∀ id ∈ s.env.received.map (·.1.id) ++ s.env.receivedDeletes.map (·.id),
      id < s.env.accepted := fun id hmem => List.mem_range.1 (h.ids.mem_iff.1 hmem)
  constructor
  · intro k hk
    exact Nat.lt_irrefl _ (hid ▸ hlt _ (List.mem_append_left _ (List.mem_map_of_mem hk)))
  · intro hreq
    exact Nat.lt_irrefl _ (hid ▸ hlt _ (List.mem_append_right _ (List.mem_map_of_mem hreq)))

/-- No request is answered before it arrives. -/
theorem unanswered (req : RequestHandle) (hid : req.id = s.env.accepted) :
    ∀ p ∈ s.env.answered, p.1 ≠ req := by
  obtain ⟨hnew, hnewDelete⟩ := h.fresh hid
  rintro p hp rfl
  rcases h.answers p hp with ⟨k, hk, -⟩ | ⟨hdelete, -⟩
  · exact hnew k hk
  · exact hnewDelete hdelete

/-- Every request not yet answered was received for its key. -/
theorem received_of_waiting {k : ResizeRequestKey} {req : RequestHandle}
    (hreq : req ∈ s.waiting k ++ handles (ofKey k arriving)) : (req, k) ∈ s.env.received := by
  rw [← Environment.mem_receivedFor, ← h.fifo k, List.append_assoc]
  exact List.mem_append_right _ hreq

/-- Requests change places, but for no key their order. -/
theorem move (hlog : SameLog s.env s'.env) (hwaiting : ∀ k,
      s.waiting k ++ handles (ofKey k arriving) = s'.waiting k ++ handles (ofKey k arriving')) :
    Requests arriving' deleting s' where
  fifo k := by
    have hfifo := h.fifo k
    rw [List.append_assoc, hwaiting k, ← List.append_assoc] at hfifo
    rw [Environment.answeredFor, Environment.receivedFor, hlog.answered, hlog.received]
    exact hfifo
  deletes := by
    rw [Environment.answeredDeletes, hlog.answered, hlog.receivedDeletes, hlog.negativeResponses]
    exact h.deletes
  ids := by
    rw [Environment.accepted, hlog.received, hlog.receivedDeletes]
    exact h.ids
  answers p hp := by
    rw [hlog.answered] at hp
    rw [hlog.received, hlog.receivedDeletes]
    exact (h.answers p hp).imp_left fun ⟨k, hk, hj⟩ => ⟨k, hk, hj.mono hlog.produced⟩

/-- Answering the requests that are first in the order of their keys. -/
theorem answer (s' : ListWorld) {l : RequestList}
    {respond : Entry ResizeRequestKey RequestHandle → Response} (hlog : SameLog s.env s'.env)
    (hwaiting : ∀ k, s.waiting k ++ handles (ofKey k arriving) =
      handles (ofKey k l) ++ s'.waiting k)
    (hjust : ∀ e ∈ l, Justified s'.env e.key e.value (respond e)) :
    Requests [] deleting (ListWorld.answer respond l s') := by
  have hmem : ∀ e ∈ l, (e.value, e.key) ∈ s.env.received := fun e he =>
    h.received_of_waiting (by
      rw [hwaiting]
      exact List.mem_append_left _
        (List.mem_map_of_mem (List.mem_filter.2 ⟨he, decide_eq_true rfl⟩)))
  have hanswered : (ListWorld.answer respond l s').env.answered.map Prod.fst =
      s.env.answered.map Prod.fst ++ handles l := by
    simp [ListWorld.answer, hlog.answered, Function.comp_def]
  have hreceived : (ListWorld.answer respond l s').env.received = s.env.received := hlog.received
  have hdeletes : (ListWorld.answer respond l s').env.receivedDeletes = s.env.receivedDeletes :=
    hlog.receivedDeletes
  refine ⟨?_, ?_, ?_, ?_⟩
  · intro k
    -- The new answers to requests for `k` are those of the entries of `k`.
    have hof : (handles l).filter (fun req => (req, k) ∈ s.env.received) = handles (ofKey k l) := by
      rw [handles, List.filter_map]
      refine congrArg _ (List.filter_congr fun e he => decide_eq_decide.2 ⟨?_, ?_⟩)
      · intro hk
        exact h.key_unique (hmem e he) hk
      · intro hk
        exact hk ▸ hmem e he
    have hfifo := h.fifo k
    rw [List.append_assoc, hwaiting k] at hfifo
    rw [Environment.answeredFor, Environment.receivedFor, hanswered, hreceived, List.filter_append,
      hof, ← Environment.receivedFor, ← hfifo]
    simp [ListWorld.answer, Environment.answeredFor, waiting]
  · have hnone : (handles l).filter (fun req => req ∈ s.env.receivedDeletes) = [] := by
      rw [List.filter_eq_nil_iff]
      intro req hreq
      obtain ⟨e, he, rfl⟩ := List.mem_map.1 hreq
      simpa using h.not_delete (hmem e he)
    rw [Environment.answeredDeletes, hanswered, hdeletes, List.filter_append, hnone,
      List.append_nil]
    show (_ ++ s'.env.negativeResponses.map _ ++ _).Perm _
    rw [hlog.negativeResponses]
    exact h.deletes
  · rw [Environment.accepted, hreceived, hdeletes]
    exact h.ids
  · intro p hp
    rw [hreceived, hdeletes]
    rcases List.mem_append.1 hp with hp | hp
    · rw [hlog.answered] at hp
      exact (h.answers p hp).imp_left fun ⟨k, hk, hj⟩ => ⟨k, hk, hj.mono hlog.produced⟩
    · obtain ⟨e, he, rfl⟩ := List.mem_map.1 hp
      exact .inl ⟨e.key, hmem e he, hjust e he⟩

end Requests

/-- An arriving request gets a new number. -/
theorem Requests.receive (h : Requests [] [] s) (keepAlive : Bool) (key : ResizeRequestKey)
    (time : TimePoint) :
    Requests [⟨key, ⟨s.env.accepted, keepAlive⟩, time⟩] []
      { s with env := s.env.receive ⟨s.env.accepted, keepAlive⟩ key } := by
  have hunanswered := h.unanswered ⟨s.env.accepted, keepAlive⟩ rfl
  refine ⟨?_, h.deletes, ?_, fun p hp => (h.answers p hp).imp_left ?_⟩
  · intro k
    have hanswered : (s.env.receive ⟨s.env.accepted, keepAlive⟩ key).answeredFor k =
        s.env.answeredFor k := by
      refine List.filter_congr fun req hreq => decide_eq_decide.2 ?_
      obtain ⟨p, hp, rfl⟩ := List.mem_map.1 hreq
      show _ ∈ s.env.received ++ [_] ↔ _
      rw [List.mem_append, List.mem_singleton]
      exact or_iff_left fun heq => hunanswered p hp (congrArg Prod.fst heq)
    have hfifo := h.fifo k
    rw [ofKey, List.filter_nil, handles, List.map_nil, List.append_nil] at hfifo
    show (s.env.receive _ key).answeredFor k ++ s.waiting k ++ _ = _
    rw [hanswered, hfifo]
    show _ = ((s.env.received ++ [_]).filter _).map _
    rw [List.filter_append, List.map_append]
    by_cases hk : key = k <;> simp [ofKey, hk, Environment.receivedFor]
  · show ((s.env.received ++ [_]).map _ ++ _).Perm _
    have hcount : (s.env.receive ⟨s.env.accepted, keepAlive⟩ key).accepted =
        s.env.accepted + 1 := by
      simp only [Environment.accepted, Environment.receive, List.length_append,
        List.length_singleton]
      omega
    rw [hcount, List.range_succ, List.map_append, List.append_assoc]
    exact (List.perm_middle.trans (h.ids.cons _)).trans (List.perm_append_singleton _ _).symm
  · exact fun ⟨k, hk, hj⟩ => ⟨k, List.mem_append_left _ hk, hj⟩

/-! ## Requests to delete the cache -/

/-- An arriving request to delete the cache gets a new number. -/
theorem Requests.receiveDelete (h : Requests [] [] s) (keepAlive : Bool) :
    Requests [] [⟨s.env.accepted, keepAlive⟩]
      { s with env := s.env.receiveDelete ⟨s.env.accepted, keepAlive⟩ } := by
  have hunanswered := h.unanswered ⟨s.env.accepted, keepAlive⟩ rfl
  refine ⟨h.fifo, ?_, ?_, fun p hp => (h.answers p hp).imp_right ?_⟩
  · have hanswered : (s.env.receiveDelete ⟨s.env.accepted, keepAlive⟩).answeredDeletes =
        s.env.answeredDeletes := by
      refine List.filter_congr fun req hreq => decide_eq_decide.2 ?_
      obtain ⟨p, hp, rfl⟩ := List.mem_map.1 hreq
      show _ ∈ s.env.receivedDeletes ++ [_] ↔ _
      rw [List.mem_append, List.mem_singleton]
      exact or_iff_left (hunanswered p hp)
    have hdeletes := h.deletes
    rw [List.append_nil] at hdeletes
    rw [hanswered]
    exact hdeletes.append_right _
  · show (_ ++ (s.env.receivedDeletes ++ [_]).map _).Perm _
    have hcount : (s.env.receiveDelete ⟨s.env.accepted, keepAlive⟩).accepted =
        s.env.accepted + 1 := by
      simp only [Environment.accepted, Environment.receiveDelete, List.length_append,
        List.length_singleton]
      omega
    rw [hcount, List.range_succ, List.map_append, ← List.append_assoc]
    exact h.ids.append_right _
  · exact fun ⟨hdelete, hstatus⟩ => ⟨List.mem_append_left _ hdelete, hstatus⟩

/-- A delayed response that is due leaves its request to be answered. -/
theorem Requests.deliverNegative (h : Requests [] [] s) {i : Nat}
    {cmd : NegativeDeleteCacheResponse} (hcmd : s.env.negativeResponses[i]? = some cmd) :
    Requests [] [cmd.httpReq] { s with env := s.env.deliverNegative i } := by
  refine ⟨h.fifo, ?_, h.ids, h.answers⟩
  have hperm := (Environment.perm_eraseIdx hcmd).map (·.httpReq)
  have hdeletes := h.deletes
  rw [List.append_nil] at hdeletes
  refine List.Perm.trans ?_ hdeletes
  rw [List.append_assoc]
  exact (((List.perm_append_singleton _ _).trans hperm.symm).append_left _)

/-- A request to delete the cache is answered. -/
theorem Requests.answerDelete {req : RequestHandle} (h : Requests [] [req] s) {resp : Response}
    (hresp : resp.statusLine ∈ [HttpStatusLine.statusOk, .statusForbidden]) (cache : ImageList) :
    Requests [] [] { s with cache, env := s.env.answer req resp } := by
  have hreq : req ∈ s.env.receivedDeletes := h.deletes.subset (by simp)
  have hnot : ∀ k, (req, k) ∉ s.env.received := fun k hk => h.not_delete hk hreq
  refine ⟨?_, ?_, h.ids, ?_⟩
  · intro k
    have hanswered : (s.env.answer req resp).answeredFor k = s.env.answeredFor k := by
      simp only [Environment.answeredFor, Environment.answer, List.map_append, List.filter_append,
        List.map_singleton, List.filter_singleton, hnot k, decide_false, cond_false,
        List.append_nil]
      rfl
    show (s.env.answer req resp).answeredFor k ++ s.waiting k ++ _ = _
    rw [hanswered]
    exact h.fifo k
  · have hanswered : (s.env.answer req resp).answeredDeletes = s.env.answeredDeletes ++ [req] := by
      simp only [Environment.answeredDeletes, Environment.answer, List.map_append,
        List.filter_append,
        List.map_singleton, List.filter_singleton, hreq, decide_true, cond_true]
      rfl
    have hdeletes := h.deletes
    rw [List.append_assoc] at hdeletes
    rw [hanswered, List.append_nil, List.append_assoc]
    exact (List.perm_append_comm.append_left _).trans hdeletes
  · intro p hp
    rcases List.mem_append.1 hp with hp | hp
    · exact h.answers p hp
    · cases List.mem_singleton.1 hp
      exact .inr ⟨hreq, hresp⟩

/-- The answer to a request to delete the cache is put off. -/
theorem Requests.sendDelayed {req : RequestHandle} (h : Requests [] [req] s) (text : String) :
    Requests [] [] { s with env := s.env.sendDelayed ⟨req, text⟩ } := by
  refine ⟨h.fifo, ?_, h.ids, h.answers⟩
  have hdeletes := h.deletes
  show (_ ++ (s.env.negativeResponses ++ [_]).map _ ++ []).Perm _
  rw [List.append_nil, List.map_append, ← List.append_assoc]
  exact hdeletes

/-- The arriving request to delete the cache is answered at once, or its answer is put off; the
accounts of all other requests stay as they are. -/
theorem Requests.onDeleteCacheRequest {req : RequestHandle} (h : Requests [] [req] s)
    (envToken : Option CxxString) (token : CxxString) :
    Requests [] [] (s.onDeleteCacheRequest envToken req token) := by
  obtain ⟨-, heq⟩ | ⟨-, text, heq⟩ := onDeleteCacheRequest_cases s envToken req token <;> rw [heq]
  · exact h.answerDelete (by simp) []
  · exact h.sendDelayed text

/-! ## Dispatching -/

/-- New times do not change whose requests wait for a key. -/
theorem handles_ofKey_restamp (clk : Clock) (n : Nat) (k : ResizeRequestKey) (l : RequestList) :
    handles (ofKey k (restamp clk n l)) = handles (ofKey k l) := by
  induction l generalizing n with
  | nil => rfl
  | cons e l ih =>
    simp only [restamp, ofKey, handles, List.filter_cons]
    split
    · exact congrArg (e.value :: ·) (ih (n + 1))
    · exact ih (n + 1)

/-- Dispatching a key moves its requests behind those in progress, all of them at once. -/
theorem waiting_initiateNext (clk : Clock) (s : ListWorld) (k : ResizeRequestKey) :
    (s.initiateNext clk).waiting k = s.waiting k := by
  obtain ⟨-, heq⟩ | ⟨worker, freeWorkers, e, pending, -, -, heq⟩ := initiateNext_cases clk s <;>
    rw [heq]
  simp only [waiting, ofKey, List.filter_append, handles, List.map_append, List.append_assoc]
  congr 1
  have hrestamp := handles_ofKey_restamp clk s.env.reads k (ofKey e.key s.pending)
  rw [show List.map _ _ = _ from hrestamp]
  by_cases hk : e.key = k
  · subst hk
    simp [handles, ofKey, exceptKey, List.filter_filter]
  · have hnone : ofKey k (ofKey e.key s.pending) = [] := ofKey_eq_nil.2 fun hmem =>
      hk (mem_keys_ofKey.1 hmem).2.symm
    have hall : ofKey k (exceptKey e.key s.pending) = ofKey k s.pending := by
      rw [ofKey, exceptKey, List.filter_filter]
      refine List.filter_congr ?_
      intro d _
      by_cases hd : d.key = k <;> simp [hd, Ne.symm hk]
    rw [hnone, show List.filter _ _ = ofKey k s.pending from hall]
    rfl

/-- Dispatching moves the requests of a key from one queue to the other, in their order, so that the
same requests wait. -/
theorem waiting_tryInitiate (clk : Clock) (s : ListWorld) (k : ResizeRequestKey) :
    (s.tryInitiate clk).waiting k = s.waiting k :=
  Function.Iterate.rec (fun s' => s'.waiting k = s.waiting k) rfl
    (fun s' h => (waiting_initiateNext clk s' k).trans h) _

/-- Dispatching neither receives nor answers anything. -/
theorem sameLog_tryInitiate (clk : Clock) (s : ListWorld) :
    SameLog s.env (s.tryInitiate clk).env := by
  rw [(dispatched_tryInitiate clk s).env]
  exact ⟨rfl, rfl, rfl, rfl, fun _ => id⟩

/-- Dispatching keeps the accounts, since it keeps who waits and what was answered. -/
theorem Requests.tryInitiate (clk : Clock) (h : Requests arriving deleting s) :
    Requests arriving deleting (s.tryInitiate clk) :=
  h.move (sameLog_tryInitiate clk s) fun k => by rw [waiting_tryInitiate]

/-! ## Resize requests -/

/-- Where the images in the cache and in flight come from. -/
structure Images (s : ListWorld) : Prop where
  results : ∀ res ∈ s.env.resizeResults, res ∈ s.env.produced
  cached : ∀ e ∈ s.cache, ∃ res ∈ s.env.produced, res.key = e.key ∧
    ∃ result, res.result = .successful result ∧ result.imageBlob = e.value

/-- At the start there is neither a result nor an image. -/
theorem images_init (workers : List Mbox) : Images (init workers) where
  results _ h := absurd h List.not_mem_nil
  cached _ h := absurd h List.not_mem_nil

/-- Nobody waits for a key that is in neither queue. -/
theorem waiting_eq_nil {k : ResizeRequestKey} (hin : k ∉ keys s.inprogress)
    (hpending : k ∉ keys s.pending) : s.waiting k = [] := by
  rw [waiting, ofKey_eq_nil.2 hin, ofKey_eq_nil.2 hpending]; rfl

/-- The one arriving request for its key. -/
theorem handles_ofKey_singleton (k key : ResizeRequestKey) (req : RequestHandle) (t : TimePoint) :
    handles (ofKey k [⟨key, req, t⟩]) = if key = k then [req] else [] := by
  by_cases hk : key = k <;> simp [ofKey, hk]

/-- An arriving request is answered at once if no other waits for its key. -/
theorem Requests.answerArriving {req : RequestHandle} {key : ResizeRequestKey} {t : TimePoint}
    (h : Requests [⟨key, req, t⟩] [] s) (s' : ListWorld) (hin : key ∉ keys s.inprogress)
    (hpending : key ∉ keys s.pending) (hlog : SameLog s.env s'.env)
    (hwaiting : ∀ k, s'.waiting k = s.waiting k)
    {respond : Entry ResizeRequestKey RequestHandle → Response} (t' : TimePoint)
    (hjust : Justified s'.env key req (respond ⟨key, req, t'⟩)) :
    Requests [] [] (ListWorld.answer respond [⟨key, req, t'⟩] s') := by
  refine h.answer s' hlog ?_ ?_
  · intro k
    rw [handles_ofKey_singleton, handles_ofKey_singleton, hwaiting]
    by_cases hk : key = k
    · subst hk
      rw [waiting_eq_nil hin hpending, List.nil_append, List.append_nil]
    · simp [hk]
  · intro e he
    cases List.mem_singleton.1 he
    exact hjust

/-- The arriving request for an image is answered from the cache or refused, or it waits behind
those for its key that came before; the accounts of all others stay as they are. -/
theorem Requests.onResizeRequest {req : RequestHandle} {key : ResizeRequestKey} {t : TimePoint}
    (h : Requests [⟨key, req, t⟩] [] s) (hp : Protocol workers [] s) (hi : Images s) :
    Requests [] [] (s.onResizeRequest clk req key) := by
  have hjoinPending (hin : key ∉ keys s.inprogress) :
      Requests [] [] (s.joinPending clk req key) := by
    refine h.move ⟨rfl, rfl, rfl, rfl, fun _ => id⟩ ?_
    intro k
    simp only [waiting, ListWorld.joinPending, ofKey, List.filter_append, handles, List.map_append,
      List.append_assoc, List.filter_nil, List.map_nil, List.append_nil]
    by_cases hk : key = k <;> simp [hk]
  obtain ⟨e, he, rfl, heq⟩ | ⟨-, hin, heq⟩ | ⟨-, hin, -, heq⟩ | ⟨-, hin, -, -, heq⟩ |
    ⟨-, hin, hpending, -, heq⟩ := onResizeRequest_cases clk s req key <;> rw [heq]
  · have hkey : e.key ∈ keys s.cache := List.mem_map_of_mem he
    obtain ⟨res, hres, hk, result, hresult, hblob⟩ := hi.cached e he
    refine h.answerArriving { s with
        cache := exceptKey e.key s.cache ++ [{ e with time := clk s.env.reads }]
        env := s.env.tick 1 } (hp.cache_inprogress _ hkey) (hp.cache_pending _ hkey)
      ⟨rfl, rfl, rfl, rfl, fun _ => id⟩ (fun _ => rfl) _ (.inr (.inr ⟨res, hres, hk, ?_⟩))
    rw [hresult, answerSeparately, hblob]
    exact ⟨by simp, by simp, by simp⟩
  · -- No request for a key in progress is pending, so the new one is the last of its key.
    refine h.move ⟨rfl, rfl, rfl, rfl, fun _ => id⟩ ?_
    intro k
    rw [handles_ofKey_singleton]
    simp only [waiting, ListWorld.joinInprogress, ofKey, List.filter_append, handles,
      List.map_append, List.append_assoc, List.filter_nil, List.map_nil, List.append_nil]
    by_cases hk : key = k
    · subst hk
      have hnone : ofKey key s.pending = [] :=
        ofKey_eq_nil.2 fun hk => hp.pending_inprogress _ hk hin
      rw [show List.filter _ s.pending = [] from hnone]
      simp
    · simp [hk]
  · exact hjoinPending hin
  · exact (hjoinPending hin).tryInitiate clk
  · exact h.answerArriving _ hin hpending (.refl _) (fun _ => rfl) _ (.inl rfl)

/-! ## Results -/

/-- The requests of the key of a result are first in the order of that key. -/
theorem Requests.finish {cmd : ResizeResult} (h : Requests [] [] s)
    (hpending : cmd.key ∉ keys s.pending) (hcmd : cmd ∈ s.env.produced) :
    Requests [] [] ((s.extract cmd.key).finish clk cmd (ofKey cmd.key s.inprogress)) := by
  have hwaiting : ∀ k, s.waiting k ++ handles (ofKey k []) =
      handles (ofKey k (ofKey cmd.key s.inprogress)) ++ (s.extract cmd.key).waiting k := by
    intro k
    simp only [waiting, extract, ofKey, exceptKey, List.filter_filter, List.filter_nil, handles,
      List.map_nil, List.append_nil]
    by_cases hk : cmd.key = k
    · subst hk
      have hnone : ofKey cmd.key s.pending = [] := ofKey_eq_nil.2 hpending
      rw [show List.filter _ s.pending = [] from hnone]
      simp
    · have h₁ : ∀ e : Entry ResizeRequestKey RequestHandle,
          (decide (e.key = k) && decide (e.key = cmd.key)) = false := by
        intro e
        simpa using fun he => he ▸ Ne.symm hk
      have h₂ : ∀ e : Entry ResizeRequestKey RequestHandle,
          (decide (e.key = k) && decide (e.key ≠ cmd.key)) = decide (e.key = k) := by
        intro e
        simpa using fun he => he ▸ Ne.symm hk
      simp only [h₁, h₂, List.filter_false, List.map_nil, List.nil_append]
  have hjust : ∀ e ∈ ofKey cmd.key s.inprogress, e.key = cmd.key := fun e he =>
    of_decide_eq_true (List.mem_filter.1 he).2
  cases hresult : cmd.result with
  | successful result =>
    simp only [ListWorld.finish, hresult]
    refine h.answer ((s.extract cmd.key).store clk cmd.key result.imageBlob)
      ⟨rfl, rfl, rfl, rfl, fun _ => id⟩ hwaiting fun e he => .inr (.inr ⟨cmd, hcmd, ?_, ?_⟩)
    · exact (hjust e he).symm
    · rw [hresult, answerSeparately, hjust e he]
      exact ⟨rfl, rfl, rfl⟩
  | failed result =>
    simp only [ListWorld.finish, hresult]
    refine h.answer (s.extract cmd.key) (.refl _) hwaiting fun e he =>
      .inr (.inr ⟨cmd, hcmd, (hjust e he).symm, ?_⟩)
    rw [hresult, answerSeparately]
    exact ⟨rfl, rfl, rfl⟩

/-- A result is answered to the requests of its key and to no others. -/
theorem answered_onResizeResult (s : ListWorld) (cmd : ResizeResult) :
    (s.onResizeResult clk cmd).env.answered = s.env.answered ++
      (ofKey cmd.key ((s.pushFreeWorker cmd.worker).tryInitiate clk).inprogress).map fun e =>
        (e.value, answerSeparately e.value cmd.key cmd.result) := by
  have htry := (sameLog_tryInitiate clk (s.pushFreeWorker cmd.worker)).answered
  rw [show s.env.answered = _ from htry.symm]
  cases hresult : cmd.result <;>
    simp only [ListWorld.onResizeResult, ListWorld.finish, hresult] <;> rfl

/-! ## Timers -/

/-- The requests that waited for too long are first in the order of their keys. -/
theorem Requests.onCheckPendingRequests (h : Requests [] [] s) (hp : Protocol workers [] s) :
    Requests [] [] (s.onCheckPendingRequests clk) := by
  let old : Entry ResizeRequestKey RequestHandle → Bool :=
    expired (clk s.env.reads - maxPendingTime)
  refine h.answer { s with pending := s.pending.dropWhile old, env := s.env.tick 1 }
    (l := s.pending.takeWhile old)
    ⟨rfl, rfl, rfl, rfl, fun _ => id⟩ ?_ fun _ _ => .inr (.inl rfl)
  intro k
  have hsplit : ofKey k s.pending =
      ofKey k (s.pending.takeWhile old) ++ ofKey k (s.pending.dropWhile old) := by
    rw [ofKey, ofKey, ofKey, ← List.filter_append, List.takeWhile_append_dropWhile]
  simp only [waiting, hsplit, handles, List.map_append, ofKey, List.filter_nil, List.map_nil,
    List.append_nil]
  by_cases hk : k ∈ keys (s.pending.takeWhile old)
  · -- A key with a pending request is not in progress.
    have hsub : (keys (s.pending.takeWhile old)).Sublist (keys s.pending) :=
      (List.takeWhile_sublist old).map _
    have hnone : ofKey k s.inprogress = [] :=
      ofKey_eq_nil.2 (hp.pending_inprogress k (hsub.subset hk))
    rw [show List.filter _ s.inprogress = [] from hnone]
    simp
  · have hnone : ofKey k (s.pending.takeWhile old) = [] := ofKey_eq_nil.2 hk
    rw [show List.filter _ (s.pending.takeWhile old) = [] from hnone]
    simp

/-! ## All actions -/

/-- Fewer results in flight and fewer images, or images with other times, were made by the workers
as well. -/
theorem Images.mono (h : Images s) (hresults : s'.env.resizeResults ⊆ s.env.resizeResults)
    (hproduced : s'.env.produced = s.env.produced) (hcache : ∀ e ∈ s'.cache, ∃ d ∈ s.cache,
      d.key = e.key ∧ d.value = e.value) : Images s' where
  results res hres := hproduced ▸ h.results res (hresults hres)
  cached e he := by
    obtain ⟨d, hd, hk, hv⟩ := hcache e he
    obtain ⟨res, hres, hkey, result, hresult, hblob⟩ := h.cached d hd
    exact ⟨res, hproduced ▸ hres, hkey.trans hk, result, hresult, hblob.trans hv⟩

/-- Dispatching touches neither the results nor the images. -/
theorem Images.tryInitiate (clk : Clock) (h : Images s) : Images (s.tryInitiate clk) := by
  have hd := dispatched_tryInitiate clk s
  refine h.mono ?_ ?_ ?_
  · rw [hd.env]; exact fun _ => id
  · rw [hd.env]
  · rw [hd.cache]; exact fun e he => ⟨e, he, rfl, rfl⟩

/-- A request for an image brings no image: a hit stores the one it found again. -/
theorem Images.onResizeRequest (h : Images s) (req : RequestHandle) (key : ResizeRequestKey) :
    Images (s.onResizeRequest clk req key) := by
  have hjoin : Images (s.joinPending clk req key) := ⟨h.results, h.cached⟩
  obtain ⟨e, he, -, heq⟩ | ⟨-, -, heq⟩ | ⟨-, -, -, heq⟩ | ⟨-, -, -, -, heq⟩ |
    ⟨-, -, -, -, heq⟩ := onResizeRequest_cases clk s req key <;> rw [heq]
  · refine h.mono (fun _ => id) rfl ?_
    intro d hd
    rcases List.mem_append.1 hd with hd | hd
    · exact ⟨d, List.mem_of_mem_filter hd, rfl, rfl⟩
    · cases List.mem_singleton.1 hd
      exact ⟨e, he, rfl, rfl⟩
  · exact ⟨h.results, h.cached⟩
  · exact hjoin
  · exact hjoin.tryInitiate clk
  · exact ⟨h.results, h.cached⟩

/-- The image that a result brings into the cache was made by a worker for the key of the result. -/
theorem Images.finish (h : Images s) {cmd : ResizeResult} (hcmd : cmd ∈ s.env.produced)
    (requests : RequestList) : Images ((s.extract cmd.key).finish clk cmd requests) := by
  cases hresult : cmd.result with
  | failed result =>
    simp only [ListWorld.finish, hresult]
    exact ⟨h.results, h.cached⟩
  | successful result =>
    simp only [ListWorld.finish, hresult]
    refine ⟨h.results, ?_⟩
    intro e he
    rcases List.mem_append.1 ((evict_suffix _ _).subset he) with he | he
    · exact h.cached e he
    · cases List.mem_singleton.1 he
      exact ⟨cmd, hcmd, rfl, result, hresult, rfl⟩

/-- Every action keeps the origin of the images. -/
theorem Images.next (h : Images s) (a : World.Action) : Images (s.next clk a) := by
  cases a with
  | resizeRequest keepAlive image targetFormat params =>
    exact Images.onResizeRequest (s := { s with env := s.env.receive _ _ })
      ⟨h.results, h.cached⟩ _ _
  | deleteCacheRequest keepAlive token envToken =>
    rw [ListWorld.next]
    obtain ⟨-, heq⟩ | ⟨-, text, heq⟩ := onDeleteCacheRequest_cases _ envToken _ token <;> rw [heq]
    · exact ⟨h.results, fun _ he => absurd he List.not_mem_nil⟩
    · exact ⟨h.results, h.cached⟩
  | transform i result =>
    rw [ListWorld.next]
    split
    case h_1 cmd hcmd =>
      refine ⟨?_, ?_⟩
      · intro res hres
        rcases List.mem_append.1 hres with hres | hres
        · exact List.mem_append_left _ (h.results res hres)
        · exact List.mem_append_right _ hres
      · intro e he
        obtain ⟨res, hres, hrest⟩ := h.cached e he
        exact ⟨res, List.mem_append_left _ hres, hrest⟩
    case h_2 => exact h
  | resizeResult i =>
    rw [ListWorld.next]
    split
    case h_1 cmd hcmd =>
      have hpushed : Images (pushFreeWorker { s with env := s.env.deliverResult i } cmd.worker) :=
        h.mono (List.eraseIdx_sublist _ _).subset rfl fun e he => ⟨e, he, rfl, rfl⟩
      refine (hpushed.tryInitiate clk).finish ?_ _
      exact (sameLog_tryInitiate clk _).produced (h.results cmd (List.mem_of_getElem? hcmd))
    case h_2 => exact h
  | negativeDeleteCacheResponse i => rw [ListWorld.next]; split <;> exact ⟨h.results, h.cached⟩
  | clearCache =>
    exact ⟨h.results, fun e he => h.cached e ((List.dropWhile_sublist _).subset he)⟩
  | checkPendingRequests => exact ⟨h.results, h.cached⟩

/-- Every action keeps account of the requests. -/
theorem Requests.next (h : Requests [] [] s) (hp : Protocol workers [] s) (hi : Images s)
    (a : World.Action) : Requests [] [] (s.next clk a) := by
  cases a with
  | resizeRequest keepAlive image targetFormat params =>
    exact (h.receive keepAlive ⟨image, targetFormat, params⟩ 0).onResizeRequest
      (hp.withEnv (s.env.receive _ _) rfl rfl) ⟨hi.results, hi.cached⟩
  | deleteCacheRequest keepAlive token envToken =>
    exact (h.receiveDelete keepAlive).onDeleteCacheRequest envToken token
  | transform i result =>
    rw [ListWorld.next]
    split
    case h_1 cmd hcmd =>
      exact h.move ⟨rfl, rfl, rfl, rfl, List.subset_append_left _ _⟩ fun _ => rfl
    case h_2 => exact h
  | resizeResult i =>
    rw [ListWorld.next]
    split
    case h_1 cmd hcmd =>
      have hp' := (hp.deliverResult hcmd).tryInitiate clk
      have hpushed : Requests [] []
          (pushFreeWorker { s with env := s.env.deliverResult i } cmd.worker) :=
        h.move ⟨rfl, rfl, rfl, rfl, fun _ => id⟩ fun _ => rfl
      refine (hpushed.tryInitiate clk).finish ?_ ?_
      · intro hk
        exact hp'.pending_inprogress _ hk ((hp'.inprogress cmd.key).2 (by simp))
      · exact (sameLog_tryInitiate clk _).produced (hi.results cmd (List.mem_of_getElem? hcmd))
    case h_2 => exact h
  | negativeDeleteCacheResponse i =>
    rw [ListWorld.next]
    split
    case h_1 cmd hcmd => exact (h.deliverNegative hcmd).answerDelete (by simp) s.cache
    case h_2 => exact h
  | clearCache => exact h.move ⟨rfl, rfl, rfl, rfl, fun _ => id⟩ fun _ => rfl
  | checkPendingRequests => exact h.onCheckPendingRequests hp

/-! ## The log only grows -/

/-- What the log of one environment says is the beginning of what the log of another says. -/
structure LogGrows (env env' : Environment) : Prop where
  received : env.received <+: env'.received
  answered : env.answered <+: env'.answered
  stored : env.stored <+: env'.stored

/-- A log that stays as it is has grown by nothing. -/
theorem LogGrows.of_eq {env env' : Environment} (hreceived : env'.received = env.received)
    (hanswered : env'.answered = env.answered) (hstored : env'.stored = env.stored) :
    LogGrows env env' := by
  refine ⟨?_, ?_, ?_⟩
  · rw [hreceived]
  · rw [hanswered]
  · rw [hstored]

/-- What grows twice grows. -/
theorem LogGrows.trans {env env' env'' : Environment} (h : LogGrows env env')
    (h' : LogGrows env' env'') : LogGrows env env'' :=
  ⟨h.received.trans h'.received, h.answered.trans h'.answered, h.stored.trans h'.stored⟩

/-- Dispatching writes nothing into the log. -/
theorem logGrows_tryInitiate (clk : Clock) (s : ListWorld) :
    LogGrows s.env (s.tryInitiate clk).env := by
  rw [(dispatched_tryInitiate clk s).env]
  exact .of_eq rfl rfl rfl

/-- A request for an image adds its answer to the log at most. -/
theorem logGrows_onResizeRequest (clk : Clock) (s : ListWorld) (req : RequestHandle)
    (key : ResizeRequestKey) : LogGrows s.env (s.onResizeRequest clk req key).env := by
  obtain ⟨e, -, -, heq⟩ | ⟨-, -, heq⟩ | ⟨-, -, -, heq⟩ | ⟨-, -, -, -, heq⟩ |
    ⟨-, -, -, -, heq⟩ := onResizeRequest_cases clk s req key <;> rw [heq]
  · exact ⟨List.prefix_rfl, List.prefix_append _ _, List.prefix_rfl⟩
  · exact .of_eq rfl rfl rfl
  · exact .of_eq rfl rfl rfl
  · have hjoin : LogGrows s.env (s.joinPending clk req key).env := .of_eq rfl rfl rfl
    exact hjoin.trans (logGrows_tryInitiate clk _)
  · exact ⟨List.prefix_rfl, List.prefix_append _ _, List.prefix_rfl⟩

/-- A result adds the answers to those who waited for it, and its image. -/
theorem logGrows_onResizeResult (clk : Clock) (s : ListWorld) (cmd : ResizeResult) :
    LogGrows s.env (s.onResizeResult clk cmd).env := by
  have htry : LogGrows s.env ((s.pushFreeWorker cmd.worker).tryInitiate clk).env :=
    logGrows_tryInitiate clk (s.pushFreeWorker cmd.worker)
  refine htry.trans ?_
  cases hresult : cmd.result with
  | failed result =>
    simp only [ListWorld.onResizeResult, ListWorld.finish, hresult]
    exact ⟨List.prefix_rfl, List.prefix_append _ _, List.prefix_rfl⟩
  | successful result =>
    simp only [ListWorld.onResizeResult, ListWorld.finish, hresult]
    exact ⟨List.prefix_rfl, List.prefix_append _ _, List.prefix_append _ _⟩

/-- No action takes back what was received, answered or stored. -/
theorem logGrows_next (clk : Clock) (s : ListWorld) (a : World.Action) :
    LogGrows s.env (s.next clk a).env := by
  cases a with
  | resizeRequest keepAlive image targetFormat params =>
    have hreceive : LogGrows s.env (s.env.receive ⟨s.env.accepted, keepAlive⟩
        ⟨image, targetFormat, params⟩) := ⟨List.prefix_append _ _, List.prefix_rfl, List.prefix_rfl⟩
    exact hreceive.trans (logGrows_onResizeRequest clk { s with env := s.env.receive _ _ } _ _)
  | deleteCacheRequest keepAlive token envToken =>
    rw [ListWorld.next]
    obtain ⟨-, heq⟩ | ⟨-, text, heq⟩ := onDeleteCacheRequest_cases _ envToken _ token <;> rw [heq]
    · exact ⟨List.prefix_rfl, List.prefix_append _ _, List.prefix_rfl⟩
    · exact .of_eq rfl rfl rfl
  | transform i result => rw [ListWorld.next]; split <;> exact .of_eq rfl rfl rfl
  | resizeResult i =>
    rw [ListWorld.next]
    split
    case h_1 cmd hcmd =>
      have hdeliver : LogGrows s.env (s.env.deliverResult i) := .of_eq rfl rfl rfl
      exact hdeliver.trans (logGrows_onResizeResult clk { s with env := s.env.deliverResult i } cmd)
    case h_2 => exact .of_eq rfl rfl rfl
  | negativeDeleteCacheResponse i =>
    rw [ListWorld.next]
    split
    case h_1 cmd hcmd => exact ⟨List.prefix_rfl, List.prefix_append _ _, List.prefix_rfl⟩
    case h_2 => exact .of_eq rfl rfl rfl
  | clearCache => exact .of_eq rfl rfl rfl
  | checkPendingRequests => exact ⟨List.prefix_rfl, List.prefix_append _ _, List.prefix_rfl⟩

/-- Over a run the log only grows, since it does so with every action. -/
theorem logGrows_foldl (clk : Clock) (actions : List World.Action) (s : ListWorld) :
    LogGrows s.env (actions.foldl (next clk) s).env :=
  Execution.foldl_invariant (fun t => LogGrows s.env t.env)
    (fun t a h => h.trans (logGrows_next clk t a)) actions s (.of_eq rfl rfl rfl)

/-! ## The record of a run -/

/-- Nothing came in and nothing was made, and the delayed responses are the same. -/
structure KeepsRecord (env env' : Environment) : Prop where
  received : env'.received = env.received
  receivedDeletes : env'.receivedDeletes = env.receivedDeletes
  negativeResponses : env'.negativeResponses = env.negativeResponses
  produced : env'.produced = env.produced

/-- The record stays as it is if nothing changes. -/
theorem KeepsRecord.refl (env : Environment) : KeepsRecord env env := ⟨rfl, rfl, rfl, rfl⟩

/-- Dispatching does not touch the record. -/
theorem keepsRecord_tryInitiate (clk : Clock) (s : ListWorld) :
    KeepsRecord s.env (s.tryInitiate clk).env := by
  rw [(dispatched_tryInitiate clk s).env]
  exact ⟨rfl, rfl, rfl, rfl⟩

/-- Handling a request for an image may answer it, and leaves the rest of the record alone. -/
theorem keepsRecord_onResizeRequest (clk : Clock) (s : ListWorld) (req : RequestHandle)
    (key : ResizeRequestKey) : KeepsRecord s.env (s.onResizeRequest clk req key).env := by
  obtain ⟨e, -, -, heq⟩ | ⟨-, -, heq⟩ | ⟨-, -, -, heq⟩ | ⟨-, -, -, -, heq⟩ |
    ⟨-, -, -, -, heq⟩ := onResizeRequest_cases clk s req key <;> rw [heq]
  case inr.inr.inr.inl =>
    have htry := keepsRecord_tryInitiate clk (s.joinPending clk req key)
    exact ⟨htry.received, htry.receivedDeletes, htry.negativeResponses, htry.produced⟩
  all_goals exact ⟨rfl, rfl, rfl, rfl⟩

/-- Handling a result answers requests, and leaves the rest of the record alone. -/
theorem keepsRecord_onResizeResult (clk : Clock) (s : ListWorld) (cmd : ResizeResult) :
    KeepsRecord s.env (s.onResizeResult clk cmd).env := by
  have htry := keepsRecord_tryInitiate clk (s.pushFreeWorker cmd.worker)
  cases hresult : cmd.result <;>
    simp only [ListWorld.onResizeResult, ListWorld.finish, hresult] <;>
    exact ⟨htry.received, htry.receivedDeletes, htry.negativeResponses, htry.produced⟩

/-- What an action adds to the record: the request that arrives with it, and the result a worker
makes. -/
structure Records (env : Environment) (a : World.Action) (env' : Environment) : Prop where
  received : env'.received = env.received ++ (a.received env.accepted).toList
  receivedDeletes : env'.receivedDeletes =
    env.receivedDeletes ++ (a.receivedDelete env.accepted).toList
  produced : env'.produced = env.produced ++ (a.outcome env).toList

/-- With an action at which nothing arrives and nothing is made the record stays. -/
theorem KeepsRecord.records {env env' : Environment} (h : KeepsRecord env env') {a : World.Action}
    (hreceived : a.received env.accepted = none) (hdelete : a.receivedDelete env.accepted = none)
    (houtcome : a.outcome env = none) : Records env a env' where
  received := by rw [h.received, hreceived]; exact (List.append_nil _).symm
  receivedDeletes := by rw [h.receivedDeletes, hdelete]; exact (List.append_nil _).symm
  produced := by rw [h.produced, houtcome]; exact (List.append_nil _).symm

/-- Every action adds to the record what comes with it. -/
theorem records_next (clk : Clock) (s : ListWorld) (a : World.Action) :
    Records s.env a (s.next clk a).env := by
  cases a with
  | resizeRequest keepAlive image targetFormat params =>
    have hkeeps := keepsRecord_onResizeRequest clk { s with
      env := s.env.receive ⟨s.env.accepted, keepAlive⟩ ⟨image, targetFormat, params⟩ }
      ⟨s.env.accepted, keepAlive⟩ ⟨image, targetFormat, params⟩
    exact ⟨hkeeps.received, hkeeps.receivedDeletes.trans (List.append_nil _).symm,
      hkeeps.produced.trans (List.append_nil _).symm⟩
  | deleteCacheRequest keepAlive token envToken =>
    rw [ListWorld.next]
    obtain ⟨-, heq⟩ | ⟨-, text, heq⟩ := onDeleteCacheRequest_cases _ envToken _ token <;> rw [heq]
    · exact ⟨(List.append_nil _).symm, rfl, (List.append_nil _).symm⟩
    · exact ⟨(List.append_nil _).symm, rfl, (List.append_nil _).symm⟩
  | transform i result =>
    rw [ListWorld.next]
    cases hjob : s.env.transformerRequests[i]? with
    | none =>
      refine (KeepsRecord.refl s.env).records rfl rfl ?_
      rw [World.Action.outcome, hjob]
      rfl
    | some job =>
      refine ⟨(List.append_nil _).symm, (List.append_nil _).symm, ?_⟩
      rw [World.Action.outcome, hjob]
      rfl
  | resizeResult i =>
    rw [ListWorld.next]
    split
    case h_1 cmd hcmd =>
      have hresult := keepsRecord_onResizeResult clk { s with env := s.env.deliverResult i } cmd
      have hkeeps : KeepsRecord s.env _ :=
        ⟨hresult.received, hresult.receivedDeletes, hresult.negativeResponses, hresult.produced⟩
      exact hkeeps.records rfl rfl rfl
    case h_2 => exact (KeepsRecord.refl s.env).records rfl rfl rfl
  | negativeDeleteCacheResponse i =>
    rw [ListWorld.next]
    split <;> exact ⟨(List.append_nil _).symm, (List.append_nil _).symm, (List.append_nil _).symm⟩
  | clearCache =>
    have hkeeps : KeepsRecord s.env (s.onClearCache clk).env := ⟨rfl, rfl, rfl, rfl⟩
    exact hkeeps.records rfl rfl rfl
  | checkPendingRequests =>
    have hkeeps : KeepsRecord s.env (s.onCheckPendingRequests clk).env := ⟨rfl, rfl, rfl, rfl⟩
    exact hkeeps.records rfl rfl rfl

/-- The record of the requests holds, for each action of the run with which a request arrives, one
entry: the handle with the number of this action among them and, for an image, the key. -/
structure ReceivedFrom (actions : List World.Action) (env : Environment) : Prop where
  accepted : env.accepted = (actions.filter World.Action.arrives).length
  received : env.received = (World.arrivals actions).filterMap fun r => r.1.received r.2
  receivedDeletes : env.receivedDeletes =
    (World.arrivals actions).filterMap fun r => r.1.receivedDelete r.2

/-- With an action one request arrives or none. -/
theorem length_received (n : Nat) (a : World.Action) : (a.received n).toList.length +
    (a.receivedDelete n).toList.length = ([a].filter World.Action.arrives).length := by
  cases a <;> rfl

/-- The arrivals of a longer run are those of the run and the last action, if it is one. -/
theorem arrivals_concat (actions : List World.Action) (a : World.Action) :
    World.arrivals (actions ++ [a]) = World.arrivals actions ++
      ([a].filter World.Action.arrives).zipIdx (actions.filter World.Action.arrives).length := by
  rw [World.arrivals, List.filter_append, List.zipIdx_append, Nat.zero_add]
  rfl

/-- The record of a run is told by its actions. -/
theorem receivedFrom_foldl (clk : Clock) (workers : List Mbox) (actions : List World.Action) :
    ReceivedFrom actions (actions.foldl (next clk) (init workers)).env := by
  induction actions using List.reverseRecOn with
  | nil => exact ⟨rfl, rfl, rfl⟩
  | append_singleton actions a ih =>
    rw [List.foldl_concat]
    have hrecords := records_next clk (actions.foldl (next clk) (init workers)) a
    have hreceived := hrecords.received
    have hdeletes := hrecords.receivedDeletes
    rw [ih.accepted, ih.received] at hreceived
    rw [ih.accepted, ih.receivedDeletes] at hdeletes
    refine ⟨?_, ?_, ?_⟩
    · have haccepted := ih.accepted
      rw [Environment.accepted, ih.received, ih.receivedDeletes] at haccepted
      have hone := length_received (actions.filter World.Action.arrives).length a
      rw [Environment.accepted, hreceived, hdeletes, List.filter_append, List.length_append,
        List.length_append, List.length_append]
      omega
    · rw [hreceived, arrivals_concat, List.filterMap_append]
      cases a <;> rfl
    · rw [hdeletes, arrivals_concat, List.filterMap_append]
      cases a <;> rfl

/-- A key in the record is that of an action. -/
theorem ReceivedFrom.exists_action {actions : List World.Action} {env : Environment}
    (h : ReceivedFrom actions env) {req : RequestHandle} {k : ResizeRequestKey}
    (hk : (req, k) ∈ env.received) : ∃ a ∈ actions, a.requestKey = some k := by
  rw [h.received] at hk
  obtain ⟨⟨a, n⟩, hmem, ha⟩ := List.mem_filterMap.1 hk
  refine ⟨a, List.mem_of_mem_filter (List.fst_mem_of_mem_zipIdx hmem), ?_⟩
  cases a <;> cases ha
  rfl

end ListWorld

end Shrimp
