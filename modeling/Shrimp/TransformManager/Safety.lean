import Shrimp.TransformManager.Requests
import Shrimp.TransformManager.Simulation

/-!
# Workers, stages and admission in every reachable state

`ListWorld.InOrder` collects the invariants of the manager over lists, and `World.run_inOrder` says
that every run of the code ends, without a fault, in a state that follows one in order. From it come
the protocol with the workers (`worker_job_protocol`), the separation of the three stages of a key
(`key_in_one_stage`), the absence of stranded requests (`no_stranded_request`) and the admission of
requests (`overload_admission`), all stated about the containers of the code.
-/

namespace Shrimp

open Execution

/-- The invariants of the manager between two handlers. -/
structure ListWorld.InOrder (workers : List Mbox) (s : ListWorld) : Prop where
  protocol : s.Protocol workers []
  idle : s.Idle
  requests : s.Requests [] []
  images : s.Images

/-- At the start all is in order. -/
theorem ListWorld.inOrder_init (workers : List Mbox) : (init workers).InOrder workers :=
  ⟨protocol_init workers, .inr rfl, requests_init workers, images_init workers⟩

/-- Every action keeps the order. -/
theorem ListWorld.InOrder.next {clk : Clock} {workers : List Mbox} {s : ListWorld}
    (h : s.InOrder workers) (a : World.Action) : (s.next clk a).InOrder workers :=
  ⟨h.protocol.next a, h.idle.next a, h.requests.next h.protocol h.images a, h.images.next a⟩

/-- After every run all is in order. -/
theorem ListWorld.inOrder_foldl (clk : Clock) (workers : List Mbox) (actions : List World.Action) :
    (actions.foldl (next clk) (init workers)).InOrder workers :=
  foldl_invariant (InOrder workers) (fun _ a hs => hs.next a) actions _
    (inOrder_init workers)

namespace World

variable {clk : Clock} {workers : List Mbox} {finishing : List ResizeRequestKey} {w : World}
  {s : ListWorld}

/-- Every run ends in a state that follows lists in order. -/
theorem run_inOrder (clk : Clock) (workers : List Mbox) (actions : List Action) :
    ∃ w s, run (step clk) (init workers) actions = .ok w ∧ w.Refines s ∧ s.InOrder workers := by
  obtain ⟨w, hw, h, -⟩ := run_refines clk workers actions
  exact ⟨w, _, hw, h, ListWorld.inOrder_foldl clk workers actions⟩

/-! ## The keys of the code's containers -/

/-- The keys of the cached images. -/
def cachedKeys (w : World) : List ResizeRequestKey := keys w.manager.transformedCache.toList

/-- The keys of the pending requests. -/
def pendingKeys (w : World) : List ResizeRequestKey := keys w.manager.pendingRequests.toList

/-- The keys of the requests in progress. -/
def inprogressKeys (w : World) : List ResizeRequestKey :=
  keys w.manager.inprogressRequests.toList

/-- The cached keys are those of the list. -/
theorem Refines.cachedKeys (h : w.Refines s) : w.cachedKeys = keys s.cache :=
  congrArg keys (LinkedIndex.RefinesWith.toList_eq h.cache)

/-- The pending keys are those of the list. -/
theorem Refines.pendingKeys (h : w.Refines s) : w.pendingKeys = keys s.pending := by
  rw [World.pendingKeys, LinkedIndex.RefinesWith.toList_eq h.pending, keys_map_entryOf]

/-- The keys in progress are those of the list. -/
theorem Refines.inprogressKeys (h : w.Refines s) : w.inprogressKeys = keys s.inprogress := by
  rw [World.inprogressKeys, LinkedIndex.RefinesWith.toList_eq h.inprogress, keys_map_entryOf]

/-! ## Workers and jobs -/

/-- How a delivered result finds its requests: the worker is returned, pending keys are dispatched,
and then the requests of its key are there, and only those are taken. -/
structure ResultHandover (clk : Clock) (w : World) (cmd : ResizeResult) (w₁ w₂ : World)
    (requests : List ResizeRequest) : Prop where
  dispatched : (w.pushFreeWorker cmd.worker).tryInitiatePendingRequestsProcessing clk = .ok w₁
  found : ∃ tok, w₁.manager.inprogressRequests.findFirstForKey cmd.key = some tok ∧
    w₁.extractInprogressRequests tok = .ok (w₂, requests)
  values : requests = (ofKey cmd.key w₁.manager.inprogressRequests.toList).map (·.value)
  keys : ∀ rq ∈ requests, rq.requestKey = cmd.key
  others : w₂.manager.inprogressRequests.toList =
    exceptKey cmd.key w₁.manager.inprogressRequests.toList

/-- The protocol between the manager and its workers. A worker with a message in flight is counted
once for each of its jobs and results. -/
structure WorkerJobProtocol (clk : Clock) (workers : List Mbox) (w : World) : Prop where
  one_place : ∀ m ∈ workers, w.manager.freeWorkers.count m + w.env.busy.count m = 1
  registered : ∀ m ∈ w.manager.freeWorkers ++ w.env.busy, m ∈ workers
  keys_differ : w.env.outstanding.Nodup
  keys_inprogress : ∀ k, k ∈ w.env.outstanding ↔ k ∈ w.inprogressKeys
  handover : ∀ i cmd, w.env.resizeResults[i]? = some cmd →
    ∃ w₁ w₂ requests, requests ≠ [] ∧
      ResultHandover clk { w with env := w.env.deliverResult i } cmd w₁ w₂ requests

/-- There is one way in which a result finds its requests. -/
theorem ResultHandover.unique {cmd : ResizeResult} {w₁ w₂ w₁' w₂' : World}
    {requests requests' : List ResizeRequest} (h : ResultHandover clk w cmd w₁ w₂ requests)
    (h' : ResultHandover clk w cmd w₁' w₂' requests') : w₂ = w₂' := by
  cases h.dispatched.symm.trans h'.dispatched
  obtain ⟨tok, htok, hextract⟩ := h.found
  obtain ⟨tok', htok', hextract'⟩ := h'.found
  cases htok.symm.trans htok'
  cases hextract.symm.trans hextract'
  rfl

/-- After the handover a successful result is stored and its requests are answered. -/
theorem ResultHandover.onResizeResult {cmd : ResizeResult} {w₁ w₂ : World}
    {requests : List ResizeRequest} (h : ResultHandover clk w cmd w₁ w₂ requests)
    {result : SuccessfulResize} (hresult : cmd.result = .successful result) :
    w.onResizeResult clk cmd = w₂.onSuccessfulResize clk cmd.key result requests := by
  obtain ⟨tok, htok, hextract⟩ := h.found
  simp only [World.onResizeResult, h.dispatched, htok, hextract, hresult, ok_bind,
    optionalValue_some]

/-- Answering requests leaves the manager as it is. -/
theorem answerAll_manager {respond : ResizeRequest → RequestHandle → Response} :
    ∀ {requests : List ResizeRequest} {w w' : World},
      w.answerAll respond requests = .ok w' → w'.manager = w.manager
  | [], _, _, h => by
    cases h
    rfl
  | rq :: requests, w, w', h => by
    rw [answerAll, List.foldlM_cons, bind_eq_ok] at h
    obtain ⟨w₁, hw₁, hrest⟩ := h
    obtain ⟨req, -, hanswer⟩ := bind_eq_ok.1 hw₁
    cases hanswer
    have hrest : (w.answer req (respond rq req)).answerAll respond requests = .ok w' := hrest
    exact (answerAll_manager hrest).trans rfl

/-- The handover of a result that was delivered to a manager in order. -/
theorem Refines.handover (clk : Clock) (h : w.Refines s) (hp : s.Protocol workers []) {i : Nat}
    {cmd : ResizeResult} (hcmd : s.env.resizeResults[i]? = some cmd) :
    ∃ w₁ w₂ requests, requests ≠ [] ∧
      ResultHandover clk { w with env := w.env.deliverResult i } cmd w₁ w₂ requests ∧
      w₂.Refines (((ListWorld.pushFreeWorker { s with env := s.env.deliverResult i }
        cmd.worker).tryInitiate clk).extract cmd.key) := by
  have hp' := (hp.deliverResult hcmd).tryInitiate clk
  have hkey := (hp'.inprogress cmd.key).2 (by simp)
  obtain ⟨w₁, hw₁, h₁⟩ :=
    ((h.withEnv (s.env.deliverResult i)).pushFreeWorker cmd.worker).tryInitiate clk
  obtain ⟨tok, w₂, htok, hw₂, h₂⟩ := h₁.extract hkey
  have hlist := LinkedIndex.RefinesWith.toList_eq h₁.inprogress
  refine ⟨w₁, w₂, _, ?_, ⟨h.env ▸ hw₁, ⟨tok, htok, hw₂⟩, ?_, ?_, ?_⟩, h₂⟩
  · intro hnil
    exact ofKey_eq_nil.1 (List.map_eq_nil_iff.1 hnil) hkey
  · rw [hlist, ofKey_map_entryOf, List.map_map]; rfl
  · intro rq hrq
    obtain ⟨e, he, rfl⟩ := List.mem_map.1 hrq
    exact of_decide_eq_true (List.mem_filter.1 he).2
  · rw [hlist, LinkedIndex.RefinesWith.toList_eq h₂.inprogress, exceptKey_map_entryOf]; rfl

/-- In every reachable state each of the different workers is free or has one message in flight, the
messages in flight have different keys, which are the keys in progress, and every result finds its
requests and takes no others. -/
theorem worker_job_protocol (clk : Clock) (workers : List Mbox) (hworkers : workers.Nodup)
    (actions : List Action) :
    ∃ w, run (step clk) (init workers) actions = .ok w ∧ WorkerJobProtocol clk workers w := by
  obtain ⟨w, s, hw, h, hs⟩ := run_inOrder clk workers actions
  have hp := hs.protocol
  refine ⟨w, hw, ⟨?_, ?_, ?_, ?_, ?_⟩⟩
  · intro m hm
    rw [h.freeWorkers, h.env, ← List.count_append, hp.workers.count_eq]
    exact List.count_eq_one_of_mem hworkers hm
  · intro m hm
    rw [h.freeWorkers, h.env] at hm
    exact hp.workers.subset hm
  · rw [h.env, ← List.append_nil (Environment.outstanding _)]
    exact hp.outstanding
  · intro k
    rw [h.env, h.inprogressKeys, hp.inprogress, List.append_nil]
  · intro i cmd hcmd
    rw [h.env] at hcmd
    obtain ⟨w₁, w₂, requests, hne, hhandover, -⟩ := h.handover clk hp hcmd
    exact ⟨w₁, w₂, requests, hne, hhandover⟩

/-- Two workers, of which one does a job while a second request for its key arrives. -/
theorem worker_job_protocol_two_workers : ∃ w,
    run (step fun n => n) (init [⟨0⟩, ⟨1⟩]) [.resizeRequest true [47] .png ⟨.width, 100, by decide⟩,
      .resizeRequest true [47] .png ⟨.width, 100, by decide⟩,
      .transform 0 (.failed ⟨"no such file"⟩)] = .ok w ∧
    WorkerJobProtocol (fun n => n) [⟨0⟩, ⟨1⟩] w :=
  worker_job_protocol (fun n => n) [⟨0⟩, ⟨1⟩] (by decide) _

/-! ## Stages of a key -/

/-- A key is cached, pending or in progress, but never two of these, and what follows for jobs and
for the cache. -/
structure KeyInOneStage (clk : Clock) (w : World) : Prop where
  cached_pending : List.Disjoint w.cachedKeys w.pendingKeys
  cached_inprogress : List.Disjoint w.cachedKeys w.inprogressKeys
  pending_inprogress : List.Disjoint w.pendingKeys w.inprogressKeys
  transformed_once : w.env.outstanding.Nodup
  /-- The jobs after a step are jobs from before and new ones, and no new one is for a key that was
  cached when it was sent. -/
  dispatched_uncached : ∀ a, ∃ w' kept new, step clk w a = .ok w' ∧
    w'.env.transformerRequests = kept ++ new ∧ kept.Sublist w.env.transformerRequests ∧
    ∀ job ∈ new, job.key ∉ w.cachedKeys
  /-- When an image is stored its key is not there, so its entry is the new last one. -/
  stored_new : ∀ i cmd result, w.env.resizeResults[i]? = some cmd →
    cmd.result = .successful result → ∃ w₁ w₂ requests,
      ResultHandover clk { w with env := w.env.deliverResult i } cmd w₁ w₂ requests ∧
      w₂.manager.transformedCache.lookup cmd.key = none ∧
      (w₂.manager.transformedCache.insert (clk w₂.env.reads) cmd.key result.imageBlob).toList =
        w₂.manager.transformedCache.toList ++ [⟨cmd.key, result.imageBlob, clk w₂.env.reads⟩]

/-- The jobs of `s'` are jobs of `s` and new ones, no new one for a key that is cached in `s`. -/
def NewJobsUncached (s s' : ListWorld) : Prop :=
  ∃ kept new, s'.env.transformerRequests = kept ++ new ∧
    kept.Sublist s.env.transformerRequests ∧ ∀ job ∈ new, job.key ∉ keys s.cache

/-- No job is new where jobs only leave. -/
theorem NewJobsUncached.of_sublist {s s' : ListWorld}
    (hsub : s'.env.transformerRequests.Sublist s.env.transformerRequests) :
    NewJobsUncached s s' := by
  refine ⟨s'.env.transformerRequests, [], (List.append_nil _).symm, hsub, ?_⟩
  intro job hjob
  cases hjob

/-- No job is new where the jobs stay as they are. -/
theorem NewJobsUncached.of_eq {s s' : ListWorld}
    (heq : s'.env.transformerRequests = s.env.transformerRequests) : NewJobsUncached s s' :=
  .of_sublist (heq ▸ List.Sublist.refl _)

/-- Dispatching sends jobs for pending keys, and these are not cached. -/
theorem newJobsUncached_tryInitiate (clk : Clock) (s s' : ListWorld)
    (hjobs : s'.env.transformerRequests = s.env.transformerRequests) (hcache : s'.cache = s.cache)
    (hp : s'.Protocol workers finishing) : NewJobsUncached s (s'.tryInitiate clk) := by
  obtain ⟨new, hnew, hpending⟩ := (ListWorld.dispatched_tryInitiate clk s').jobs
  rw [hjobs] at hnew
  refine ⟨s.env.transformerRequests, new, hnew, List.Sublist.refl _, ?_⟩
  intro job hjob hk
  rw [← hcache] at hk
  exact hp.cache_pending job.key hk (hpending job hjob)

/-- Where the jobs of a step come from. -/
theorem newJobsUncached_next (clk : Clock) (hp : s.Protocol workers []) (a : Action) :
    NewJobsUncached s (s.next clk a) := by
  cases a with
  | resizeRequest keepAlive image targetFormat params =>
    have hp' := hp.withEnv (s.env.receive ⟨s.env.accepted, keepAlive⟩
      ⟨image, targetFormat, params⟩) rfl rfl
    rw [ListWorld.next]
    obtain ⟨e, -, -, heq⟩ | ⟨-, -, heq⟩ | ⟨-, -, -, heq⟩ | ⟨hcache, hin, -, hroom, heq⟩ |
      ⟨-, -, -, -, heq⟩ := ListWorld.onResizeRequest_cases clk _ _ _ <;> rw [heq]
    · exact .of_eq rfl
    · exact .of_eq rfl
    · exact .of_eq rfl
    · exact newJobsUncached_tryInitiate clk _ _ rfl rfl (hp'.joinPending_new clk _ hcache hin hroom)
    · exact .of_eq rfl
  | deleteCacheRequest keepAlive token envToken =>
    refine .of_eq ?_
    rw [ListWorld.next]
    obtain ⟨-, heq⟩ | ⟨-, text, heq⟩ := ListWorld.onDeleteCacheRequest_cases _ envToken _ token <;>
      rw [heq]
    · rfl
    · rfl
  | transform i result =>
    rw [ListWorld.next]
    split
    · exact .of_sublist (List.eraseIdx_sublist _ _)
    · exact .of_eq rfl
  | resizeResult i =>
    rw [ListWorld.next]
    split
    case h_1 cmd hcmd =>
      obtain ⟨kept, new, hjobs, hkept, hnew⟩ := newJobsUncached_tryInitiate clk s
        (ListWorld.pushFreeWorker { s with env := s.env.deliverResult i } cmd.worker)
        rfl rfl (hp.deliverResult hcmd)
      refine ⟨kept, new, ?_, hkept, hnew⟩
      rw [← hjobs]
      cases hresult : cmd.result <;>
        simp only [ListWorld.onResizeResult, ListWorld.finish, hresult] <;> rfl
    case h_2 => exact .of_eq rfl
  | negativeDeleteCacheResponse i =>
    rw [ListWorld.next]
    split <;> exact .of_eq rfl
  | clearCache => exact .of_eq rfl
  | checkPendingRequests => exact .of_eq rfl

/-- In every reachable state the three stages share no key, no key has two jobs, no job is sent for
a cached key, and no image is stored over another. -/
theorem key_in_one_stage (clk : Clock) (workers : List Mbox) (actions : List Action) :
    ∃ w, run (step clk) (init workers) actions = .ok w ∧ KeyInOneStage clk w := by
  obtain ⟨w, s, hw, h, hs⟩ := run_inOrder clk workers actions
  have hp := hs.protocol
  refine ⟨w, hw, ⟨?_, ?_, ?_, ?_, ?_, ?_⟩⟩
  · rw [h.cachedKeys, h.pendingKeys]
    exact fun k => hp.cache_pending k
  · rw [h.cachedKeys, h.inprogressKeys]
    exact fun k => hp.cache_inprogress k
  · rw [h.pendingKeys, h.inprogressKeys]
    exact fun k => hp.pending_inprogress k
  · rw [h.env, ← List.append_nil (Environment.outstanding _)]
    exact hp.outstanding
  · intro a
    obtain ⟨w', hw', h'⟩ := step_refines clk h hp a
    obtain ⟨kept, new, hjobs, hkept, hnew⟩ := newJobsUncached_next clk hp a
    exact ⟨w', kept, new, hw', h'.env ▸ hjobs, h.env ▸ hkept, h.cachedKeys ▸ hnew⟩
  · intro i cmd result hcmd hresult
    rw [h.env] at hcmd
    obtain ⟨w₁, w₂, requests, -, hhandover, h₂⟩ := h.handover clk hp hcmd
    have hp' := (hp.deliverResult hcmd).tryInitiate clk
    have hkey : cmd.key ∉ keys _ := fun hk =>
      hp'.cache_inprogress cmd.key hk ((hp'.inprogress cmd.key).2 (by simp))
    have hnew := forall_not_equivalent hkey
    have hinsert := CacheAlikeContainer.Refines.insert_new h₂.cache (clk w₂.env.reads)
      result.imageBlob hnew
    refine ⟨w₁, w₂, requests, hhandover,
      (CacheAlikeContainer.Refines.lookup_eq_none_iff h₂.cache).2 hnew, ?_⟩
    rw [LinkedIndex.RefinesWith.toList_eq hinsert, LinkedIndex.RefinesWith.toList_eq h₂.cache]

/-! ## Stranded requests -/

/-- No request waits for a worker that is free, and none waits for messages that are not there. -/
structure NoStrandedRequest (workers : List Mbox) (w : World) : Prop where
  no_idle_worker : w.manager.freeWorkers = [] ∨ w.manager.pendingRequests.empty = true
  quiescent : w.env.transformerRequests = [] → w.env.resizeResults = [] →
    w.manager.pendingRequests.empty = true ∧ w.manager.inprogressRequests.empty = true ∧
    w.manager.freeWorkers.Perm workers

/-- In every reachable state no worker is free beside a pending request, and where no message is in
flight no request waits and every worker is free. -/
theorem no_stranded_request (clk : Clock) (workers : List Mbox) (hworkers : workers ≠ [])
    (actions : List Action) :
    ∃ w, run (step clk) (init workers) actions = .ok w ∧ NoStrandedRequest workers w := by
  obtain ⟨w, s, hw, h, hs⟩ := run_inOrder clk workers actions
  have hp := hs.protocol
  refine ⟨w, hw, ⟨?_, ?_⟩⟩
  · rw [h.pending_empty, h.freeWorkers]
    exact hs.idle.imp_right List.isEmpty_iff.2
  · intro hjobs hresults
    rw [h.env] at hjobs hresults
    have hfree := hp.workers
    simp only [Environment.busy, hjobs, hresults, List.map_nil, List.append_nil] at hfree
    -- All workers are free, and there is one, so nothing is pending.
    have hpending := hs.idle.resolve_left fun hnil =>
      hworkers (List.perm_nil.1 (hnil ▸ hfree).symm)
    have hin : ∀ k, k ∉ keys s.inprogress := by
      intro k hk
      have := (hp.inprogress k).1 hk
      rw [Environment.outstanding, hjobs, hresults] at this
      exact List.not_mem_nil this
    refine ⟨?_, ?_, h.freeWorkers ▸ hfree⟩
    · rw [h.pending_empty, hpending]; rfl
    · rw [LinkedIndex.RefinesWith.empty h.inprogress, List.isEmpty_map, List.isEmpty_iff]
      exact List.map_eq_nil_iff.1 (List.eq_nil_iff_forall_not_mem.2 hin)

/-- One worker, whose result is still in flight while another request waits. -/
theorem no_stranded_request_one_worker : ∃ w,
    run (step fun n => n) (init [⟨0⟩]) [.resizeRequest true [47] .png ⟨.width, 100, by decide⟩,
      .resizeRequest true [48] .png ⟨.width, 100, by decide⟩,
      .transform 0 (.failed ⟨"no such file"⟩)] = .ok w ∧ NoStrandedRequest [⟨0⟩] w :=
  no_stranded_request (fun n => n) [⟨0⟩] (by decide) _

/-! ## Admission -/

/-- The queues are bounded, and exactly the requests for new keys that find the queue of pending
requests full are refused; refusing one changes nothing else. -/
structure OverloadAdmission (clk : Clock) (workers : List Mbox) (w : World) : Prop where
  pending_le : w.pendingKeys.toFinset.card ≤ maxPendingRequests
  inprogress_le : w.inprogressKeys.toFinset.card ≤ workers.length
  refused : ∀ keepAlive image targetFormat params,
    ∃ w', step clk w (.resizeRequest keepAlive image targetFormat params) = .ok w' ∧
      let req : RequestHandle := ⟨w.env.accepted, keepAlive⟩
      let key : ResizeRequestKey := ⟨image, targetFormat, params⟩
      let overloaded := key ∉ w.cachedKeys ∧ key ∉ w.inprogressKeys ∧ key ∉ w.pendingKeys ∧
        w.pendingKeys.toFinset.card = maxPendingRequests
      ((∃ resp, (req, resp) ∈ w'.env.answered ∧
        resp.statusLine = .statusServiceUnavailable) ↔ overloaded) ∧
      (overloaded → w'.manager = w.manager ∧
        w'.env.answered = w.env.answered ++ [(req, do503Response req)] ∧
        w.manager.freeWorkers = [] ∧ w.env.busy.Perm workers)

/-- A new request is answered with 503 exactly if its key is in no stage and the queue is full. -/
theorem refused_onResizeRequest (s : ListWorld) {req : RequestHandle} (key : ResizeRequestKey)
    (hnew : ∀ p ∈ s.env.answered, p.1 ≠ req)
    (hfull : (keys s.pending).toFinset.card ≤ maxPendingRequests) :
    (∃ resp, (req, resp) ∈ (s.onResizeRequest clk req key).env.answered ∧
      resp.statusLine = .statusServiceUnavailable) ↔
    key ∉ keys s.cache ∧ key ∉ keys s.inprogress ∧ key ∉ keys s.pending ∧
      (keys s.pending).toFinset.card = maxPendingRequests := by
  have hsame : ∀ {answered : List (RequestHandle × Response)}, answered = s.env.answered →
      ¬ ∃ resp, (req, resp) ∈ answered ∧ resp.statusLine = .statusServiceUnavailable := by
    rintro answered rfl ⟨resp, hmem, -⟩
    exact hnew _ hmem rfl
  obtain ⟨e, he, rfl, heq⟩ | ⟨-, hin, heq⟩ | ⟨-, -, hpending, heq⟩ | ⟨-, -, -, hroom, heq⟩ |
    ⟨hcache, hin, hpending, hroom, heq⟩ := ListWorld.onResizeRequest_cases clk s req key <;>
    rw [heq]
  · refine iff_of_false ?_ fun h => h.1 (List.mem_map_of_mem he)
    rintro ⟨resp, hmem, hresp⟩
    rcases List.mem_append.1 hmem with hmem | hserved
    · exact hnew _ hmem rfl
    simp only [List.map_singleton, List.mem_singleton, Prod.mk.injEq, true_and] at hserved
    rw [hserved, serveTransformedImage_statusLine] at hresp
    cases hresp
  · exact iff_of_false (hsame rfl) fun h => h.2.1 hin
  · exact iff_of_false (hsame rfl) fun h => h.2.2.1 hpending
  · refine iff_of_false (hsame ?_) fun h => Nat.ne_of_lt hroom h.2.2.2
    rw [(ListWorld.dispatched_tryInitiate clk _).env]; rfl
  · refine iff_of_true ⟨do503Response req, List.mem_append_right _ ?_, rfl⟩
      ⟨hcache, hin, hpending, Nat.le_antisymm hfull hroom⟩
    exact List.mem_singleton.2 rfl

/-- There are no more keys in progress than workers. -/
theorem inprogress_le_workers (hp : s.Protocol workers []) :
    (keys s.inprogress).toFinset.card ≤ workers.length := by
  have heq : (keys s.inprogress).toFinset = s.env.outstanding.toFinset := by
    ext k
    rw [List.mem_toFinset, List.mem_toFinset, hp.inprogress, List.append_nil]
  have hbusy := hp.workers.length_eq
  rw [List.length_append] at hbusy
  have hlength : s.env.outstanding.length = s.env.busy.length := by
    simp [Environment.outstanding, Environment.busy]
  calc (keys s.inprogress).toFinset.card
      = s.env.outstanding.toFinset.card := by rw [heq]
    _ ≤ s.env.outstanding.length := List.toFinset_card_le _
    _ ≤ workers.length := by omega

/-- Where as many keys are pending as may be, every worker is busy. -/
theorem busy_of_full (hs : s.InOrder workers)
    (hfull : (keys s.pending).toFinset.card = maxPendingRequests) :
    s.freeWorkers = [] ∧ s.env.busy.Perm workers := by
  have hfree : s.freeWorkers = [] := by
    refine hs.idle.resolve_right ?_
    intro hnil
    rw [hnil] at hfull
    exact absurd hfull (by decide)
  have hworkers := hs.protocol.workers
  rw [hfree, List.nil_append] at hworkers
  exact ⟨hfree, hworkers⟩

/-- In every reachable state both queues are within their bounds, and a request is answered with 503
exactly if its key is new and as many keys are pending as may be. Then every worker is busy, and the
manager stays as it is. -/
theorem overload_admission (clk : Clock) (workers : List Mbox) (actions : List Action) :
    ∃ w, run (step clk) (init workers) actions = .ok w ∧ OverloadAdmission clk workers w := by
  obtain ⟨w, s, hw, h, hs⟩ := run_inOrder clk workers actions
  have hp := hs.protocol
  refine ⟨w, hw, ⟨?_, ?_, ?_⟩⟩
  · rw [h.pendingKeys]
    exact hp.admitted
  · rw [h.inprogressKeys]
    exact inprogress_le_workers hp
  · intro keepAlive image targetFormat params
    obtain ⟨w', hw', h'⟩ := step_refines clk h hp
      (.resizeRequest keepAlive image targetFormat params)
    refine ⟨w', hw', ?_, ?_⟩
    · rw [h'.env, h.env, h.cachedKeys, h.inprogressKeys, h.pendingKeys]
      exact refused_onResizeRequest _ _ (hs.requests.unanswered _ rfl) hp.admitted
    · rw [h.cachedKeys, h.inprogressKeys, h.pendingKeys]
      rintro ⟨hcache, hin, hpending, hfull⟩
      have hreject := (h.withEnv (w.env.receive ⟨w.env.accepted, keepAlive⟩
        ⟨image, targetFormat, params⟩)).onResizeRequest_reject clk
          ⟨w.env.accepted, keepAlive⟩ hcache hin hpending hfull.ge
      cases Except.ok.inj (hreject.symm.trans hw')
      obtain ⟨hfree, hbusy⟩ := busy_of_full hs hfull
      rw [h.freeWorkers, h.env]
      exact ⟨rfl, rfl, hfree, hbusy⟩

end World

end Shrimp
