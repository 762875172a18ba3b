import Shrimp.TransformManager.Safety

/-!
# Answers in every run

What the accounts of `Requests` mean for the code: every request is in one place or answered once
(`answered_exactly_once`), the requests of one key are answered in the order in which they came
(`answered_in_order`), and every image and every failure is that of a job with the key of the
request (`right_image_for_every_request`).
-/

namespace Shrimp

open Execution

namespace World

variable {clk : Clock} {workers : List Mbox} {w : World} {s : ListWorld}

/-! ## One place for every request -/

/-- The handles in a queue of the code, `none` where one was moved out. -/
def storedHandles (q : PendingRequestQueue) : List (Option RequestHandle) :=
  q.toList.map (·.value.httpReq)

/-- The queue stores the handles of the list, none of which was moved out. -/
theorem storedHandles_eq {q : PendingRequestQueue} {l : RequestList}
    (h : q.Refines (l.map entryOf)) : storedHandles q = (handles l).map some := by
  rw [storedHandles, LinkedIndex.RefinesWith.toList_eq h, List.map_map, List.map_map]; rfl

/-- A request is counted among the entries of its key. -/
theorem count_handles_ofKey {l : RequestList} {k : ResizeRequestKey} {req : RequestHandle}
    (hkey : ∀ e ∈ l, e.value = req → e.key = k) :
    (handles (ofKey k l)).count req = (handles l).count req := by
  rw [handles, handles, List.count_eq_countP, List.count_eq_countP, List.countP_map,
    List.countP_map, List.countP_filter]
  refine List.countP_congr ?_
  intro e he
  simp only [Function.comp_apply, Bool.and_eq_true, beq_iff_eq, decide_eq_true_iff]
  exact ⟨fun h => h.1, fun h => ⟨h, hkey e he h⟩⟩

/-- A request for a key was answered as often as it was among the answers for the key. -/
theorem count_answeredFor {env : Environment} {k : ResizeRequestKey} {req : RequestHandle}
    (hk : (req, k) ∈ env.received) :
    (env.answeredFor k).count req = (env.answered.map Prod.fst).count req :=
  List.count_filter (p := fun r => decide ((r, k) ∈ env.received)) (decide_eq_true hk)

/-- A request to delete the cache was answered as often as it was among the answers to these. -/
theorem count_answeredDeletes {env : Environment} {req : RequestHandle}
    (hreq : req ∈ env.receivedDeletes) :
    env.answeredDeletes.count req = (env.answered.map Prod.fst).count req :=
  List.count_filter (p := fun r => decide (r ∈ env.receivedDeletes)) (decide_eq_true hreq)

/-- Every request that arrived with one of the actions is in exactly one place, and every answer has
one of the statuses its request may get. -/
structure AnsweredExactlyOnce (actions : List Action) (w : World) : Prop where
  /-- What is recorded as received is one entry for each action with which a request arrives. -/
  record : ListWorld.ReceivedFrom actions w.env
  /-- A resize request is pending, in progress or answered, and there only once. -/
  requests : ∀ req k, (req, k) ∈ w.env.received →
    (storedHandles w.manager.pendingRequests).count (some req) +
      (storedHandles w.manager.inprogressRequests).count (some req) +
      (w.env.answered.map Prod.fst).count req = 1
  /-- A request to delete the cache is answered or held by one delayed response. -/
  deletes : ∀ req ∈ w.env.receivedDeletes,
    (w.env.answered.map Prod.fst).count req +
      (w.env.negativeResponses.map (·.httpReq)).count req = 1
  /-- What is answered is a request that arrived. -/
  statuses : ∀ req resp, (req, resp) ∈ w.env.answered →
    ((∃ k, (req, k) ∈ w.env.received) ∧ resp.statusLine ∈
      [.statusOk, .statusNotFound, .statusServiceUnavailable, .statusGatewayTimeOut]) ∨
    req ∈ w.env.receivedDeletes ∧ resp.statusLine ∈ [.statusOk, .statusForbidden]
  /-- What waits still has its handle, that of a request for its key. -/
  handles_live : ∀ e ∈ w.manager.pendingRequests.toList ++ w.manager.inprogressRequests.toList,
    ∃ req, e.value.httpReq = some req ∧ (req, e.key) ∈ w.env.received

/-- An entry of either queue was received for its key. -/
theorem received_of_mem (hs : s.InOrder workers) {e : Entry ResizeRequestKey RequestHandle}
    (he : e ∈ s.pending ++ s.inprogress) : (e.value, e.key) ∈ s.env.received := by
  refine hs.requests.received_of_waiting (List.mem_append_left _ ?_)
  have hmem : ∀ {l : RequestList}, e ∈ l → e.value ∈ handles (ofKey e.key l) := fun he =>
    List.mem_map_of_mem (List.mem_filter.2 ⟨he, decide_eq_true rfl⟩)
  rcases List.mem_append.1 he with he | he
  · exact List.mem_append_right _ (hmem he)
  · exact List.mem_append_left _ (hmem he)

/-- The record of a run is told by its actions. -/
theorem receivedFrom_of_run {actions : List Action}
    (hrun : run (step clk) (init workers) actions = .ok w) :
    ListWorld.ReceivedFrom actions w.env := by
  rw [(refines_of_run hrun).env]
  exact ListWorld.receivedFrom_foldl clk workers actions

/-- In every reachable state each resize request that arrived is pending, in progress or answered,
exactly once, and each request to delete the cache is answered or has one delayed response under
way. -/
theorem answered_exactly_once (clk : Clock) (workers : List Mbox) (actions : List Action) :
    ∃ w, run (step clk) (init workers) actions = .ok w ∧ AnsweredExactlyOnce actions w := by
  obtain ⟨w, s, hw, h, hs⟩ := run_inOrder clk workers actions
  have hr := hs.requests
  refine ⟨w, hw, ⟨receivedFrom_of_run hw, ?_, ?_, ?_, ?_⟩⟩
  · intro req k hk
    rw [h.env] at hk ⊢
    rw [storedHandles_eq h.pending, storedHandles_eq h.inprogress,
      List.count_map_of_injective _ _ (Option.some_injective _),
      List.count_map_of_injective _ _ (Option.some_injective _)]
    have hkey : ∀ e ∈ s.pending ++ s.inprogress, e.value = req → e.key = k := fun e he heq =>
      hr.key_unique (heq ▸ received_of_mem hs he) hk
    have hfifo := congrArg (List.count req) (hr.fifo k)
    have hone := List.count_eq_one_of_mem (hr.received_nodup k) (Environment.mem_receivedFor.2 hk)
    rw [List.count_append, ListWorld.waiting, List.count_append, List.count_append,
      count_answeredFor hk,
      count_handles_ofKey fun e he => hkey e (List.mem_append_right _ he),
      count_handles_ofKey fun e he => hkey e (List.mem_append_left _ he), hone] at hfifo
    have hnil : (handles (ofKey k [])).count req = 0 := rfl
    omega
  · intro req hreq
    rw [h.env] at hreq ⊢
    have hcount := hr.deletes.count_eq req
    rw [List.append_nil, List.count_append, count_answeredDeletes hreq] at hcount
    rw [hcount]
    exact List.count_eq_one_of_mem hr.deletes_nodup hreq
  · intro req resp hresp
    rw [h.env] at hresp ⊢
    rcases hr.answers _ hresp with ⟨k, hk, hj⟩ | hdelete
    · exact .inl ⟨⟨k, hk⟩, hj.statusLine_mem⟩
    · exact .inr hdelete
  · intro e he
    rw [LinkedIndex.RefinesWith.toList_eq h.pending, LinkedIndex.RefinesWith.toList_eq h.inprogress,
      ← List.map_append] at he
    obtain ⟨d, hd, rfl⟩ := List.mem_map.1 he
    exact ⟨d.value, rfl, h.env ▸ received_of_mem hs hd⟩

/-! ## Order of the answers -/

/-- The requests of one key are answered in the order in which they were received. -/
structure AnsweredInOrder (w : World) : Prop where
  /-- At any moment, also within a handler, the requests of a key that are answered so far are, in
  the order of their answers, the first ones that were received for it. -/
  prefixes : ∀ n k, (((w.env.answered.take n).map Prod.fst).filter fun req =>
    (req, k) ∈ w.env.received) <+: w.env.receivedFor k
  /-- When a request is answered, every earlier one for its key is answered already. -/
  earlier_first : ∀ k received₁ earlier received₂ later received₃ answered₁ answered₂,
    w.env.receivedFor k = received₁ ++ earlier :: received₂ ++ later :: received₃ →
    w.env.answered.map Prod.fst = answered₁ ++ later :: answered₂ → earlier ∈ answered₁

/-- In every run and for every key the answers are given in the order of the requests. -/
theorem answered_in_order (clk : Clock) (workers : List Mbox) (actions : List Action) :
    ∃ w, run (step clk) (init workers) actions = .ok w ∧ AnsweredInOrder w := by
  obtain ⟨w, s, hw, h, hs⟩ := run_inOrder clk workers actions
  have hr := hs.requests
  have hprefix : ∀ n k, (((w.env.answered.take n).map Prod.fst).filter fun req =>
      (req, k) ∈ w.env.received) <+: w.env.receivedFor k := by
    intro n k
    refine List.IsPrefix.trans (((List.take_prefix n _).map Prod.fst).filter _) ?_
    rw [h.env]
    exact ⟨_, (List.append_assoc _ _ _).symm.trans (hr.fifo k)⟩
  refine ⟨w, hw, hprefix, ?_⟩
  intro k received₁ earlier received₂ later received₃ answered₁ answered₂ hreceived hanswered
  have hnodup := hr.received_nodup k
  rw [← h.env, hreceived] at hnodup
  have hlater : (later, k) ∈ w.env.received :=
    Environment.mem_receivedFor.1 (hreceived ▸ by simp)
  -- The answers up to that of `later` are the requests received up to `later`.
  obtain ⟨rest, hrest⟩ := hprefix (answered₁.length + 1) k
  have htake : ((w.env.answered.take (answered₁.length + 1)).map Prod.fst) =
      answered₁ ++ [later] := by
    rw [List.map_take, hanswered]
    simp [List.take_append]
  rw [htake, List.filter_append, List.filter_singleton, decide_eq_true hlater, cond_true, hreceived,
    List.append_assoc, List.singleton_append] at hrest
  have hnot : later ∉ received₁ ++ earlier :: received₂ := fun hmem =>
    (List.nodup_append'.1 hnodup).2.2 hmem (by simp)
  have hnot' : later ∉ received₃ := (List.nodup_cons.1 (List.nodup_append'.1 hnodup).2.1).1
  obtain ⟨heq, -, -⟩ := (List.append_cons_inj_of_notMem hnot hnot').1 hrest.symm
  have hearlier : earlier ∈ received₁ ++ earlier :: received₂ := by simp
  rw [heq] at hearlier
  exact List.mem_of_mem_filter hearlier

/-! ## The right image -/

/-- What is answered to a resize request, and why. -/
structure RightImage (clk : Clock) (workers : List Mbox) (actions : List Action) (w : World) :
    Prop where
  /-- The key a request was received for is the path, the format and the parameters of the action
  it arrived with. -/
  keys : ListWorld.ReceivedFrom actions w.env
  /-- An image is what some worker made of a job with the key of the request, and its content type
  is that of the format of this job. -/
  image : ∀ req resp k, (req, resp) ∈ w.env.answered → (req, k) ∈ w.env.received →
    resp.statusLine = .statusOk → ∃ res ∈ w.env.produced, res.key = k ∧
      ∃ result, res.result = .successful result ∧ resp.body = .image result.imageBlob ∧
        resp.contentType = some (.text (imageContentTypeFromImgFormat res.key.format))
  /-- A request is answered with 404 when the failure of a job with its key reaches the manager
  while the request is in progress under that key. -/
  failure : ∀ req resp k, (req, resp) ∈ w.env.answered → (req, k) ∈ w.env.received →
    resp.statusLine = .statusNotFound → ∃ before i after w₁ cmd reason,
      actions = before ++ .resizeResult i :: after ∧
      run (step clk) (init workers) before = .ok w₁ ∧ w₁.env.resizeResults[i]? = some cmd ∧
      cmd ∈ w₁.env.produced ∧ cmd.key = k ∧ cmd.result = .failed reason ∧
      ∃ e ∈ w₁.manager.inprogressRequests.toList, e.key = k ∧ e.value.httpReq = some req
  /-- A server that transforms an image for every request alone would have answered the same. -/
  separately : ∀ req resp k, (req, resp) ∈ w.env.answered → (req, k) ∈ w.env.received →
    resp.statusLine = .statusOk ∨ resp.statusLine = .statusNotFound →
    ∃ res ∈ w.env.produced, res.key = k ∧ resp.Agrees (answerSeparately req k res.result)

/-- Dispatching leaves the requests of a key alone that is not pending. -/
theorem handles_inprogress_tryInitiate (clk : Clock) (s : ListWorld) {k : ResizeRequestKey}
    (hk : k ∉ keys s.pending) :
    handles (ofKey k (s.tryInitiate clk).inprogress) = handles (ofKey k s.inprogress) := by
  have hwaiting := ListWorld.waiting_tryInitiate clk s k
  have hk' : k ∉ keys (s.tryInitiate clk).pending := fun hmem =>
    hk ((ListWorld.dispatched_tryInitiate clk s).pending hmem)
  rw [ListWorld.waiting, ListWorld.waiting, ofKey_eq_nil.2 hk, ofKey_eq_nil.2 hk'] at hwaiting
  exact List.append_cancel_right hwaiting

/-- Where a result answers with 404 it is a failure, and the request was in progress under its key
when the result was delivered. -/
theorem notFound_onResizeResult (hp : s.Protocol workers []) {i : Nat} {cmd : ResizeResult}
    (hcmd : s.env.resizeResults[i]? = some cmd) {req : RequestHandle} {resp : Response}
    (hmem : (req, resp) ∈ (ListWorld.onResizeResult clk
      { s with env := s.env.deliverResult i } cmd).env.answered)
    (hnot : (req, resp) ∉ s.env.answered) (hstatus : resp.statusLine = .statusNotFound) :
    ∃ reason, cmd.result = .failed reason ∧
      ∃ e ∈ s.inprogress, e.key = cmd.key ∧ e.value = req := by
  rw [ListWorld.answered_onResizeResult] at hmem
  rcases List.mem_append.1 hmem with hmem | hmem
  · exact absurd hmem hnot
  obtain ⟨e, he, heq⟩ := List.mem_map.1 hmem
  obtain ⟨rfl, rfl⟩ := Prod.mk.inj heq
  have hp' := hp.deliverResult hcmd
  have hkey : cmd.key ∉ keys s.pending := by
    intro hk
    exact hp'.pending_inprogress _ hk ((hp'.inprogress cmd.key).2 (by simp))
  cases hresult : cmd.result with
  | successful result =>
    rw [hresult, answerSeparately, serveTransformedImage_statusLine] at hstatus
    cases hstatus
  | failed reason =>
    have hsame := handles_inprogress_tryInitiate clk (ListWorld.pushFreeWorker
      { s with env := s.env.deliverResult i } cmd.worker) hkey
    have hreq : e.value ∈ handles (ofKey cmd.key s.inprogress) :=
      (congrArg (e.value ∈ ·) hsame).mp (List.mem_map_of_mem he)
    obtain ⟨d, hd, hdreq⟩ := List.mem_map.1 hreq
    obtain ⟨hd, hdkey⟩ := List.mem_filter.1 hd
    exact ⟨reason, rfl, d, hd, of_decide_eq_true hdkey, hdreq⟩

/-- The only action that answers with 404 is the delivery of a failure, and it answers requests that
were in progress under its key. -/
theorem notFound_next (hp : s.Protocol workers []) (a : Action) {req : RequestHandle}
    {resp : Response} (hmem : (req, resp) ∈ (s.next clk a).env.answered)
    (hnot : (req, resp) ∉ s.env.answered) (hstatus : resp.statusLine = .statusNotFound) :
    ∃ i cmd reason, a = .resizeResult i ∧ s.env.resizeResults[i]? = some cmd ∧
      cmd.result = .failed reason ∧ ∃ e ∈ s.inprogress, e.key = cmd.key ∧ e.value = req := by
  -- Answers of another status are no answers with 404.
  have hother : ∀ {l : List (RequestHandle × Response)}, (req, resp) ∈ s.env.answered ++ l →
      (∀ p ∈ l, p.2.statusLine ≠ .statusNotFound) → False := by
    intro l hmem hl
    rcases List.mem_append.1 hmem with hmem | hmem
    · exact hnot hmem
    · exact hl _ hmem hstatus
  cases a with
  | resizeRequest keepAlive image targetFormat params =>
    exfalso
    rw [ListWorld.next] at hmem
    obtain ⟨e, -, -, heq⟩ | ⟨-, -, heq⟩ | ⟨-, -, -, heq⟩ | ⟨-, -, -, -, heq⟩ |
      ⟨-, -, -, -, heq⟩ := ListWorld.onResizeRequest_cases clk _ _ _ <;> rw [heq] at hmem
    · exact hother hmem (by simp)
    · exact hnot hmem
    · exact hnot hmem
    · rw [(ListWorld.sameLog_tryInitiate clk _).answered] at hmem
      exact hnot hmem
    · exact hother hmem (by simp)
  | deleteCacheRequest keepAlive token envToken =>
    exfalso
    rw [ListWorld.next] at hmem
    obtain ⟨-, heq⟩ | ⟨-, text, heq⟩ := ListWorld.onDeleteCacheRequest_cases _ envToken _ token <;>
      rw [heq] at hmem
    · exact hother hmem (by simp)
    · exact hnot hmem
  | transform i result =>
    rw [ListWorld.next] at hmem
    split at hmem <;> exact absurd hmem hnot
  | resizeResult i =>
    rw [ListWorld.next] at hmem
    split at hmem
    case h_1 cmd hcmd =>
      obtain ⟨reason, hresult, hrequest⟩ := notFound_onResizeResult hp hcmd hmem hnot hstatus
      exact ⟨i, cmd, reason, rfl, hcmd, hresult, hrequest⟩
    case h_2 => exact absurd hmem hnot
  | negativeDeleteCacheResponse i =>
    exfalso
    rw [ListWorld.next] at hmem
    split at hmem
    · exact hother hmem (by simp)
    · exact hnot hmem
  | clearCache => exact absurd hmem hnot
  | checkPendingRequests =>
    exfalso
    exact hother hmem (by simp)

/-- An answer with 200 or 404 is the outcome of a job with the key of the request. -/
theorem outcome_of_answer (hs : s.InOrder workers) {req : RequestHandle} {resp : Response}
    {k : ResizeRequestKey} (hresp : (req, resp) ∈ s.env.answered) (hk : (req, k) ∈ s.env.received)
    (hstatus : resp.statusLine = .statusOk ∨ resp.statusLine = .statusNotFound) :
    ∃ res ∈ s.env.produced, res.key = k ∧ resp.Agrees (answerSeparately req k res.result) := by
  have hr := hs.requests
  rcases hr.answers _ hresp with ⟨k', hk', hj⟩ | ⟨hdelete, -⟩
  · cases hr.key_unique hk hk'
    rcases hj with hj | hj | hj
    · rw [show resp = _ from hj] at hstatus
      simp at hstatus
    · rw [show resp = _ from hj] at hstatus
      simp at hstatus
    · exact hj
  · exact absurd hdelete (hr.not_delete hk)

/-- An answer with 200 shows the image of its job, with the type of the format of that job. -/
theorem image_of_agrees {req : RequestHandle} {resp : Response} {res : ResizeResult}
    (hagrees : resp.Agrees (answerSeparately req res.key res.result))
    (hstatus : resp.statusLine = .statusOk) : ∃ result, res.result = .successful result ∧
      resp.body = .image result.imageBlob ∧
      resp.contentType = some (.text (imageContentTypeFromImgFormat res.key.format)) := by
  obtain ⟨hline, htype, hbody⟩ := hagrees
  cases hresult : res.result with
  | successful result =>
    rw [hresult] at htype hbody
    exact ⟨result, rfl, hbody.trans (by simp [answerSeparately]),
      htype.trans (by simp [answerSeparately])⟩
  | failed reason =>
    rw [hresult, hstatus] at hline
    cases hline

/-- An answer with 404 was given when a failure reached the manager, and then the request was in
progress under the key of the failed job. -/
theorem failure_of_answer {actions : List Action} {w : World}
    (hrun : run (step clk) (init workers) actions = .ok w) {req : RequestHandle} {resp : Response}
    (hresp : (req, resp) ∈ w.env.answered) (hstatus : resp.statusLine = .statusNotFound) :
    ∃ before i after w₁ cmd reason, actions = before ++ .resizeResult i :: after ∧
      run (step clk) (init workers) before = .ok w₁ ∧ w₁.env.resizeResults[i]? = some cmd ∧
      cmd ∈ w₁.env.produced ∧ cmd.result = .failed reason ∧ (req, cmd.key) ∈ w₁.env.received ∧
      ∃ e ∈ w₁.manager.inprogressRequests.toList, e.key = cmd.key ∧ e.value.httpReq = some req := by
  obtain ⟨before, a, after, w₁, w₂, rfl, hbefore, hstep, hnot, hmem⟩ :=
    run_begins (P := fun w : World => (req, resp) ∈ w.env.answered) hrun
      (by simp [init, Environment.init]) hresp
  have h₁ := refines_of_run hbefore
  have h₂ := refines_of_run (run_concat_eq_ok.2 ⟨w₁, hbefore, hstep⟩)
  have hs₁ := ListWorld.inOrder_foldl clk workers before
  rw [List.foldl_concat] at h₂
  rw [h₁.env] at hnot
  rw [h₂.env] at hmem
  obtain ⟨i, cmd, reason, rfl, hcmd, hresult, e, he, hkey, hreq⟩ :=
    notFound_next hs₁.protocol a hmem hnot hstatus
  have hreceived := received_of_mem hs₁ (List.mem_append_right _ he)
  rw [hkey, hreq] at hreceived
  refine ⟨before, i, after, w₁, cmd, reason, rfl, hbefore, ?_, ?_, hresult, ?_, entryOf e, ?_,
    hkey, congrArg some hreq⟩
  · rw [h₁.env]
    exact hcmd
  · rw [h₁.env]
    exact hs₁.images.results cmd (List.mem_of_getElem? hcmd)
  · rw [h₁.env]
    exact hreceived
  · rw [LinkedIndex.RefinesWith.toList_eq h₁.inprogress]
    exact List.mem_map_of_mem he

/-- In every run each image answered to a request is one a worker made of a job with the key of the
request, each failure is that of such a job, to which the request was attached, and both are what a
server without a cache and without queues would have answered. -/
theorem right_image_for_every_request (clk : Clock) (workers : List Mbox)
    (actions : List Action) :
    ∃ w, run (step clk) (init workers) actions = .ok w ∧ RightImage clk workers actions w := by
  obtain ⟨w, hw, h, -⟩ := run_refines clk workers actions
  have hs := ListWorld.inOrder_foldl clk workers actions
  have hjob : ∀ req resp k, (req, resp) ∈ w.env.answered → (req, k) ∈ w.env.received →
      resp.statusLine = .statusOk ∨ resp.statusLine = .statusNotFound →
      ∃ res ∈ w.env.produced, res.key = k ∧ resp.Agrees (answerSeparately req k res.result) := by
    intro req resp k hresp hk hstatus
    rw [h.env] at hresp hk ⊢
    exact outcome_of_answer hs hresp hk hstatus
  refine ⟨w, hw, ⟨receivedFrom_of_run hw, ?_, ?_, hjob⟩⟩
  · intro req resp k hresp hk hstatus
    obtain ⟨res, hres, rfl, hagrees⟩ := hjob req resp k hresp hk (.inl hstatus)
    exact ⟨res, hres, rfl, image_of_agrees hagrees hstatus⟩
  · intro req resp k hresp hk hstatus
    obtain ⟨before, i, after, w₁, cmd, reason, rfl, hbefore, hcmd, hproduced, hresult, hreceived, e,
      he, hkey, hreq⟩ := failure_of_answer hw hresp hstatus
    -- The request had the key of the failed job when it failed, so it has that key for ever.
    have hgrows := ListWorld.logGrows_foldl clk (.resizeResult i :: after)
      (before.foldl (ListWorld.next clk) (ListWorld.init workers))
    rw [← List.foldl_append, ← h.env, ← (refines_of_run hbefore).env] at hgrows
    have hsame : cmd.key = k := by
      have hmem := hgrows.received.subset hreceived
      rw [h.env] at hmem hk
      exact hs.requests.key_unique hmem hk
    exact ⟨before, i, after, w₁, cmd, reason, rfl, hbefore, hcmd, hproduced, hsame, hresult, e, he,
      hkey.trans hsame, hreq⟩

end World

end Shrimp
