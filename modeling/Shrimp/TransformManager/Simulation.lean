import Shrimp.TransformManager.Protocol

/-!
# The code follows the manager over lists

`w.Refines s` says that the containers of `w` are in order and hold the lists of `s`, that every
stored request still has its handle and is the one its key was made of, and that all else is equal.
Every function of the manager has one rule about `Refines`, which also says that it does not fault
and that its loop ends. `step_refines` puts them together, and `run_refines` goes through a whole
run.
-/

namespace Shrimp

open KeyOrder Execution

/-- A waiting request as the code keeps it: its handle, and the parts its key is made of. -/
def resizeRequestOf (req : RequestHandle) (key : ResizeRequestKey) : ResizeRequest :=
  ⟨some req, key.path, key.format, key.params⟩

/-- A waiting request in a queue of the code. -/
def entryOf (e : Entry ResizeRequestKey RequestHandle) : Entry ResizeRequestKey ResizeRequest :=
  ⟨e.key, resizeRequestOf e.value e.key, e.time⟩

/-- The key of the request that is made of a key is that key again. -/
@[simp] theorem resizeRequestOf_requestKey (req : RequestHandle) (key : ResizeRequestKey) :
    (resizeRequestOf req key).requestKey = key := rfl
@[simp] theorem resizeRequestOf_httpReq (req : RequestHandle) (key : ResizeRequestKey) :
    (resizeRequestOf req key).httpReq = some req := rfl
@[simp] theorem resizeRequestOf_targetFormat (req : RequestHandle) (key : ResizeRequestKey) :
    (resizeRequestOf req key).targetFormat = key.format := rfl

/-! ## Keys are compared by `operator<` -/

section Equivalent
variable {V : Type} (k : ResizeRequestKey) (l : List (Entry ResizeRequestKey V))

/-- The entries with an equivalent key are those of the key, equivalence being equality. -/
theorem filter_equivalent : (l.filter fun e => Equivalent e.key k) = ofKey k l :=
  List.filter_congr fun e _ => decide_eq_decide.2 (ResizeRequestKey.equivalent_iff e.key k)

/-- The entries without an equivalent key are those of all other keys. -/
theorem filter_not_equivalent : (l.filter fun e => ¬ Equivalent e.key k) = exceptKey k l :=
  List.filter_congr fun e _ =>
    decide_eq_decide.2 (not_congr (ResizeRequestKey.equivalent_iff e.key k))

/-- A key that is not there is not there under an equivalent name either. -/
theorem forall_not_equivalent {k : ResizeRequestKey} {l : List (Entry ResizeRequestKey V)}
    (hk : k ∉ keys l) : ∀ e ∈ l, ¬ Equivalent e.key k := fun _ he heq =>
  hk ((ResizeRequestKey.equivalent_iff _ _).1 heq ▸ List.mem_map_of_mem he)

/-- The first entry with an equivalent key is the first one with the key. -/
theorem find?_equivalent : (l.find? fun e => Equivalent e.key k) = l.find? (·.key = k) := by
  rw [← List.head?_filter, filter_equivalent, ← List.head?_filter]

/-- There is an entry with an equivalent key exactly if the list has the key. -/
theorem any_equivalent : (l.any fun e => Equivalent e.key k) = decide (k ∈ keys l) := by
  rw [Bool.eq_iff_iff, List.any_eq_true, decide_eq_true_iff]
  simp only [decide_eq_true_iff, ResizeRequestKey.equivalent_iff, keys, List.mem_map]

end Equivalent

/-- The entries of a key in the queue are made of those of the key in the list. -/
theorem ofKey_map_entryOf (k : ResizeRequestKey) (l : RequestList) :
    ofKey k (l.map entryOf) = (ofKey k l).map entryOf := List.filter_map

/-- The entries of all other keys in the queue are made of those in the list. -/
theorem exceptKey_map_entryOf (k : ResizeRequestKey) (l : RequestList) :
    exceptKey k (l.map entryOf) = (exceptKey k l).map entryOf := List.filter_map

/-- The queue and the list have the same keys. -/
theorem keys_map_entryOf (l : RequestList) : keys (l.map entryOf) = keys l := List.map_map

/-! ## The relation -/

/-- The world of the code and the world of lists are in the same state. -/
structure World.Refines (w : World) (s : ListWorld) : Prop where
  cache : w.manager.transformedCache.Refines s.cache
  memorySize : w.manager.transformedCacheMemorySize = s.memorySize
  pending : w.manager.pendingRequests.Refines (s.pending.map entryOf)
  inprogress : w.manager.inprogressRequests.Refines (s.inprogress.map entryOf)
  freeWorkers : w.manager.freeWorkers = s.freeWorkers
  env : w.env = s.env

namespace World

variable {clk : Clock} {w : World} {s : ListWorld}

/-- The workers are pushed one after another, so that the last one is the first to be used. -/
theorem foldl_addWorker (workers : List Mbox) (m : TransformManager) :
    workers.foldl TransformManager.addWorker m =
      { m with freeWorkers := workers.reverse ++ m.freeWorkers } := by
  induction workers generalizing m with
  | nil => rfl
  | cons worker workers ih =>
    rw [List.foldl_cons, ih, TransformManager.addWorker, List.reverse_cons, List.append_assoc]
    rfl

/-- At the start the manager stands for the lists at the start. -/
theorem refines_init (workers : List Mbox) : (init workers).Refines (ListWorld.init workers) := by
  rw [init, foldl_addWorker]
  exact ⟨CacheAlikeContainer.refines_init, rfl, KeyMultivalueQueue.refines_init,
    KeyMultivalueQueue.refines_init, List.append_nil _, rfl⟩

namespace Refines

/-- What surrounds both may be replaced by the same. -/
theorem withEnv (h : w.Refines s) (env : Environment) :
    Refines { w with env } { s with env } :=
  ⟨h.cache, h.memorySize, h.pending, h.inprogress, h.freeWorkers, rfl⟩

/-- The queue of pending requests is empty exactly if the list is. -/
theorem pending_empty (h : w.Refines s) :
    w.manager.pendingRequests.empty = s.pending.isEmpty := by
  rw [LinkedIndex.RefinesWith.empty h.pending, List.isEmpty_map]

/-- No key is cached twice. -/
theorem keys_cache_nodup (h : w.Refines s) : (keys s.cache).Nodup :=
  List.pairwise_map.2 ((CacheAlikeContainer.Refines.distinct h.cache).imp fun hne heq =>
    hne ((ResizeRequestKey.equivalent_iff _ _).2 heq))

/-- A response is sent to one request. -/
theorem answer (h : w.Refines s) (e : Entry ResizeRequestKey RequestHandle)
    (respond : Entry ResizeRequestKey RequestHandle → Response) :
    (w.answer e.value (respond e)).Refines (ListWorld.answer respond [e] s) := by
  refine ⟨h.cache, h.memorySize, h.pending, h.inprogress, h.freeWorkers, ?_⟩
  show w.env.answer _ _ = _
  rw [h.env]; rfl

/-! ## Dispatching -/

/-- Values handed from one queue to another arrive there behind all others. -/
theorem insertAll (clk : Clock) {q : PendingRequestQueue} {l : RequestList}
    (h : q.Refines (l.map entryOf)) (env : Environment) (key : ResizeRequestKey)
    (l' : RequestList) (hkey : ∀ e ∈ l', e.key = key) :
    ∃ q', (l'.map fun e => (entryOf e).value).foldl
        (fun s value => (s.1.insert (clk s.2.reads) key value, s.2.tick 1)) (q, env) =
        (q', env.tick l'.length) ∧
      q'.Refines ((l ++ ListWorld.restamp clk env.reads l').map entryOf) := by
  induction l' generalizing q l env with
  | nil => exact ⟨q, rfl, by rwa [ListWorld.restamp, List.append_nil]⟩
  | cons e l' ih =>
    obtain ⟨hk, hkeys⟩ := List.forall_mem_cons.1 hkey
    have hinsert := KeyMultivalueQueue.Refines.insert h (clk env.reads) key (entryOf e).value
    have hnew : l.map entryOf ++ [⟨key, (entryOf e).value, clk env.reads⟩] =
        (l ++ [{ e with time := clk env.reads }]).map entryOf := by
      simp [entryOf, hk]
    rw [hnew] at hinsert
    obtain ⟨q', hq', hl'⟩ := ih hinsert (env.tick 1) hkeys
    refine ⟨q', ?_, ?_⟩
    · rw [List.map_cons, List.foldl_cons, hq', Environment.tick, Environment.tick,
        Environment.tick, List.length_cons, Nat.add_comm l'.length, Nat.add_assoc]
    · rwa [List.append_assoc] at hl'

/-- A pass of the dispatch loop with nothing to do. -/
theorem initiateNext_done (h : w.Refines s) (hidle : s.Idle) :
    w.initiateNext clk = .ok (.done w) := by
  have hcond : (!w.manager.freeWorkers.isEmpty && !w.manager.pendingRequests.empty) = false := by
    rw [h.freeWorkers, h.pending_empty]
    rcases hidle with hnil | hnil <;> simp [hnil]
  rw [World.initiateNext, if_neg (by simp [hcond])]
  rfl

/-- A pass of the dispatch loop that starts a job. -/
theorem initiateNext_yield (clk : Clock) (h : w.Refines s) {worker : Mbox} {freeWorkers : List Mbox}
    {e : Entry ResizeRequestKey RequestHandle} {pending : RequestList}
    (hfree : s.freeWorkers = worker :: freeWorkers) (hpending : s.pending = e :: pending) :
    ∃ w', w.initiateNext clk = .ok (.yield w') ∧ w'.Refines (s.initiateNext clk) := by
  have hcond : (!w.manager.freeWorkers.isEmpty && !w.manager.pendingRequests.empty) = true := by
    rw [h.freeWorkers, h.pending_empty, hfree, hpending]; rfl
  obtain ⟨tok, htok, hpts⟩ := LinkedIndex.RefinesWith.oldest_cons h.pending
    (show s.pending.map entryOf = entryOf e :: pending.map entryOf by rw [hpending]; rfl)
  have hkey : w.manager.pendingRequests.key tok = .ok e.key := hpts.key
  obtain ⟨q', hq', hl'⟩ := KeyMultivalueQueue.Points.extractValuesForKey hpts
  have hl : [] ++ entryOf e :: pending.map entryOf = s.pending.map entryOf := by rw [hpending]; rfl
  rw [hl, filter_equivalent, ofKey_map_entryOf, List.map_map] at hq'
  rw [hl, filter_not_equivalent, exceptKey_map_entryOf] at hl'
  have hvalues : w.manager.pendingRequests.extractValuesForKey tok =
      .ok (q', (ofKey e.key s.pending).map fun d => (entryOf d).value) := hq'
  obtain ⟨r', hr', hin'⟩ := insertAll clk h.inprogress w.env e.key
    (ofKey e.key s.pending) fun d hd => of_decide_eq_true (List.mem_filter.1 hd).2
  have hnext : s.initiateNext clk = { s with
      pending := exceptKey e.key s.pending
      inprogress := s.inprogress ++ ListWorld.restamp clk s.env.reads (ofKey e.key s.pending)
      freeWorkers
      env := (s.env.tick (ofKey e.key s.pending).length).sendJob worker e.key } := by
    simp only [ListWorld.initiateNext, hfree, hpending]
  refine ⟨⟨{ w.manager with
    pendingRequests := q', inprogressRequests := r', freeWorkers },
    (w.env.tick (ofKey e.key s.pending).length).sendJob worker e.key⟩, ?_, ?_⟩
  · rw [World.initiateNext, if_pos hcond, htok]
    simp only [ok_bind, optionalValue_some, hkey, hvalues, hr', h.freeWorkers, hfree, pure_eq_ok]
  · rw [hnext]
    exact ⟨h.cache, h.memorySize, hl', h.env ▸ hin', rfl, by rw [h.env]⟩

/-- The dispatch loop ends without a fault and does what it does over lists: each pass takes a
worker from the stack, so that there are no more passes than free workers. -/
theorem tryInitiate (clk : Clock) (h : w.Refines s) :
    ∃ w', w.tryInitiatePendingRequestsProcessing clk = .ok w' ∧ w'.Refines (s.tryInitiate clk) := by
  -- Some passes over lists are left; they lead to where the whole loop over lists leads.
  refine loop_rule
    (fun w => ∃ n s', w.Refines s' ∧ s'.freeWorkers.length ≤ n ∧
      (ListWorld.initiateNext clk)^[n] s' = s.tryInitiate clk)
    (fun w => w.manager.freeWorkers.length) ?_ _ w ⟨_, s, h, le_rfl, rfl⟩ (by omega)
  rintro w ⟨n, s', h', hn, hrest⟩
  obtain ⟨hidle, heq⟩ | ⟨worker, freeWorkers, e, pending, hfree, hpending, heq⟩ :=
    s'.initiateNext_cases clk
  · refine .inl ⟨w, h'.initiateNext_done hidle, ?_⟩
    rwa [← hrest, Function.iterate_fixed heq]
  · obtain ⟨w', hw', h''⟩ := h'.initiateNext_yield clk hfree hpending
    have hlt : (s'.initiateNext clk).freeWorkers.length < s'.freeWorkers.length := by
      rw [heq, hfree, List.length_cons]
      exact Nat.lt_succ_self _
    obtain ⟨m, rfl⟩ : ∃ m, n = m + 1 := ⟨n - 1, by omega⟩
    refine .inr ⟨w', hw', ⟨m, s'.initiateNext clk, h'', by omega, ?_⟩, ?_⟩
    · rwa [Function.iterate_succ_apply] at hrest
    · rw [h''.freeWorkers, h'.freeWorkers]
      exact hlt

/-! ## Requests -/

/-- A request whose key is cached is answered with the image, which gets a new time. -/
theorem serveFromCache (h : w.Refines s) (req : RequestHandle)
    {e : Entry ResizeRequestKey DatasizableBlob} {key : ResizeRequestKey}
    (hfind : s.cache.find? (·.key = key) = some e) :
    ∃ w', w.onResizeRequest clk (resizeRequestOf req key) = .ok w' ∧
      w'.Refines (s.serveFromCache clk req e) := by
  obtain ⟨-, rfl⟩ := ListWorld.find?_key_some hfind
  rw [← find?_equivalent] at hfind
  obtain ⟨tok, l₁, l₂, hlookup, hl, hpts⟩ := CacheAlikeContainer.Refines.lookup_some h.cache hfind
  obtain ⟨c', hc', hpts'⟩ := CacheAlikeContainer.Points.updateAccessTime hpts (clk w.env.reads)
  have hcache := hpts'.refines
  have hsplit := ListWorld.exceptKey_split (hl ▸ h.keys_cache_nodup)
  rw [← hsplit, ← hl] at hcache
  have hserved : Refines ⟨{ w.manager with transformedCache := c' }, w.env.tick 1⟩ { s with
      cache := exceptKey e.key s.cache ++ [{ e with time := clk s.env.reads }]
      env := s.env.tick 1 } :=
    ⟨h.env ▸ hcache, h.memorySize, h.pending, h.inprogress, h.freeWorkers, by rw [h.env]⟩
  refine ⟨_, ?_, hserved.answer ⟨e.key, req, clk s.env.reads⟩ _⟩
  simp only [World.onResizeRequest, handleRequestForAlreadyTransformedImage,
    resizeRequestOf_requestKey, resizeRequestOf_httpReq, resizeRequestOf_targetFormat, hlookup,
    requestHandle_some, ok_bind, hpts.key, hc', hpts'.value, pure_eq_ok]

/-- A request that is not cached, and where its queues stand. -/
theorem onResizeRequest_miss (h : w.Refines s) (req : RequestHandle) {key : ResizeRequestKey}
    (hcache : key ∉ keys s.cache) :
    w.onResizeRequest clk (resizeRequestOf req key) =
      w.handleNotTransformedImage clk key (resizeRequestOf req key) := by
  have hlookup := (CacheAlikeContainer.Refines.lookup_eq_none_iff h.cache).2
    (forall_not_equivalent hcache)
  simp only [World.onResizeRequest, resizeRequestOf_requestKey, resizeRequestOf_httpReq, hlookup,
    requestHandle_some, ok_bind]

/-- `has_key` of the queue of requests in progress tells whether the list has the key. -/
theorem hasKey_inprogress (h : w.Refines s) (key : ResizeRequestKey) :
    w.manager.inprogressRequests.hasKey key = decide (key ∈ keys s.inprogress) := by
  rw [KeyMultivalueQueue.Refines.hasKey h.inprogress, any_equivalent, keys_map_entryOf]

/-- `has_key` of the queue of pending requests tells whether the list has the key. -/
theorem hasKey_pending (h : w.Refines s) (key : ResizeRequestKey) :
    w.manager.pendingRequests.hasKey key = decide (key ∈ keys s.pending) := by
  rw [KeyMultivalueQueue.Refines.hasKey h.pending, any_equivalent, keys_map_entryOf]

/-- The counter of distinct keys counts the distinct keys. -/
theorem uniqueKeys_pending (h : w.Refines s) :
    w.manager.pendingRequests.uniqueKeys = (keys s.pending).toFinset.card := by
  rw [KeyMultivalueQueue.Refines.uniqueKeys h.pending, classes_eq_card]
  exact congrArg _ (congrArg _ (keys_map_entryOf _))

/-- A request for a key in progress is put behind the others in the queue, as over lists. -/
theorem joinInprogress (h : w.Refines s) (req : RequestHandle) (key : ResizeRequestKey) :
    Refines ⟨{ w.manager with
        inprogressRequests := w.manager.inprogressRequests.insert (clk w.env.reads) key
          (resizeRequestOf req key) }, w.env.tick 1⟩ (s.joinInprogress clk req key) := by
  have hinsert := KeyMultivalueQueue.Refines.insert h.inprogress (clk w.env.reads) key
    (resizeRequestOf req key)
  refine ⟨h.cache, h.memorySize, h.pending, ?_, h.freeWorkers, by rw [h.env]; rfl⟩
  rw [ListWorld.joinInprogress, List.map_append, ← h.env]
  exact hinsert

/-- A request for another key is put behind the pending ones in the queue, as over lists. -/
theorem joinPending (clk : Clock) (h : w.Refines s) (req : RequestHandle) (key : ResizeRequestKey) :
    Refines ⟨{ w.manager with
        pendingRequests := w.manager.pendingRequests.insert (clk w.env.reads) key
          (resizeRequestOf req key) }, w.env.tick 1⟩ (s.joinPending clk req key) := by
  have hinsert := KeyMultivalueQueue.Refines.insert h.pending (clk w.env.reads) key
    (resizeRequestOf req key)
  refine ⟨h.cache, h.memorySize, ?_, h.inprogress, h.freeWorkers, by rw [h.env]; rfl⟩
  rw [ListWorld.joinPending, List.map_append, ← h.env]
  exact hinsert

/-- A refused request leaves the manager as it is. -/
theorem onResizeRequest_reject (clk : Clock) (h : w.Refines s) (req : RequestHandle)
    {key : ResizeRequestKey} (hcache : key ∉ keys s.cache) (hin : key ∉ keys s.inprogress)
    (hpending : key ∉ keys s.pending)
    (hfull : maxPendingRequests ≤ (keys s.pending).toFinset.card) :
    w.onResizeRequest clk (resizeRequestOf req key) = .ok (w.answer req (do503Response req)) := by
  rw [h.onResizeRequest_miss req hcache]
  simp only [handleNotTransformedImage, h.hasKey_inprogress, h.hasKey_pending,
    h.uniqueKeys_pending, decide_eq_true_iff, if_neg hin, if_neg hpending,
    if_neg (Nat.not_lt.2 hfull), resizeRequestOf_httpReq, requestHandle_some, ok_bind, pure_eq_ok]

/-- `on_resize_request` ends without a fault and does what it does over lists, wherever the request
goes. -/
theorem onResizeRequest (h : w.Refines s) (req : RequestHandle) (key : ResizeRequestKey) :
    ∃ w', w.onResizeRequest clk (resizeRequestOf req key) = .ok w' ∧
      w'.Refines (s.onResizeRequest clk req key) := by
  rw [ListWorld.onResizeRequest]
  cases hfind : s.cache.find? (·.key = key) with
  | some e => exact h.serveFromCache req hfind
  | none =>
    rw [h.onResizeRequest_miss req (ListWorld.find?_key_none hfind)]
    simp only [handleNotTransformedImage, h.hasKey_inprogress, h.hasKey_pending,
      h.uniqueKeys_pending, decide_eq_true_iff]
    split
    · exact ⟨_, rfl, h.joinInprogress req key⟩
    split
    · exact ⟨_, rfl, h.joinPending clk req key⟩
    split
    · exact (h.joinPending clk req key).tryInitiate clk
    · exact ⟨_, rfl, h.answer ⟨key, req, clk s.env.reads⟩ fun _ => do503Response req⟩

/-! ## Results -/

/-- A worker that is free again is pushed onto the stack in both. -/
theorem pushFreeWorker (h : w.Refines s) (worker : Mbox) :
    (w.pushFreeWorker worker).Refines (s.pushFreeWorker worker) :=
  ⟨h.cache, h.memorySize, h.pending, h.inprogress, congrArg _ h.freeWorkers, h.env⟩

/-- The size of the first image leaves the counter together with the image. -/
theorem evictOldest_yield {e : Entry ResizeRequestKey DatasizableBlob} {l : ImageList}
    (h : w.Refines s) (hcache : s.cache = e :: l)
    (hcond : maxTransformedCacheMemorySize < s.memorySize ∧ l ≠ []) :
    ∃ w', w.evictOldest = .ok (.yield w') ∧
      w'.Refines { s with cache := l, memorySize := s.memorySize - e.value.size } := by
  have hif : (decide (maxTransformedCacheMemorySize < w.manager.transformedCacheMemorySize) &&
      decide (1 < w.manager.transformedCache.size)) = true := by
    rw [h.memorySize, CacheAlikeContainer.Refines.size h.cache, hcache, List.length_cons,
      Bool.and_eq_true, decide_eq_true_iff, decide_eq_true_iff]
    exact ⟨hcond.1, Nat.succ_lt_succ (List.length_pos_iff.2 hcond.2)⟩
  obtain ⟨tok, htok, hpts⟩ := LinkedIndex.RefinesWith.oldest_cons h.cache hcache
  obtain ⟨c', hc', hl'⟩ := CacheAlikeContainer.Points.erase hpts
  refine ⟨{ w with manager := { w.manager with
    transformedCacheMemorySize := w.manager.transformedCacheMemorySize - e.value.size
    transformedCache := c' } }, ?_, ?_⟩
  · rw [World.evictOldest, if_pos hif, htok]
    simp only [ok_bind, optionalValue_some, hpts.value, hc', pure_eq_ok]
  · exact ⟨hl', congrArg (· - e.value.size) h.memorySize, h.pending, h.inprogress, h.freeWorkers,
      h.env⟩

/-- A pass of the eviction loop does nothing when the counter is within the limit or one image is
left. -/
theorem evictOldest_done (h : w.Refines s)
    (hcond : ¬ (maxTransformedCacheMemorySize < s.memorySize ∧ 1 < s.cache.length)) :
    w.evictOldest = .ok (.done w) := by
  have hif : ¬ (decide (maxTransformedCacheMemorySize < w.manager.transformedCacheMemorySize) &&
      decide (1 < w.manager.transformedCache.size)) = true := by
    rwa [h.memorySize, CacheAlikeContainer.Refines.size h.cache, Bool.and_eq_true,
      decide_eq_true_iff, decide_eq_true_iff]
  rw [World.evictOldest, if_neg hif]
  rfl

/-- The eviction loop ends with what eviction over lists leaves. -/
theorem evict (h : w.Refines s) :
    ∃ w', loop .diverged World.evictOldest (w.manager.transformedCache.size + 1) w = .ok w' ∧
      w'.Refines { s with
        cache := (ListWorld.evict s.cache s.memorySize).1
        memorySize := (ListWorld.evict s.cache s.memorySize).2 } := by
  refine loop_rule
    (fun w => ∃ l m, w.Refines { s with cache := l, memorySize := m } ∧
      ListWorld.evict l m = ListWorld.evict s.cache s.memorySize)
    (fun w => w.manager.transformedCache.size) ?_ _ w ⟨_, _, h, rfl⟩ (Nat.lt_succ_self _)
  rintro w ⟨l, m, h', heq⟩
  by_cases hcond : maxTransformedCacheMemorySize < m ∧ 1 < l.length
  · obtain ⟨hm, hlen⟩ := hcond
    obtain _ | ⟨e, _ | ⟨d, l⟩⟩ := l
    · exact absurd hlen (Nat.not_lt_zero 1)
    · exact absurd hlen (Nat.lt_irrefl 1)
    · obtain ⟨w', hw', h''⟩ := h'.evictOldest_yield rfl ⟨hm, List.cons_ne_nil d l⟩
      refine .inr ⟨w', hw', ⟨d :: l, m - e.value.size, h'', ?_⟩, ?_⟩
      · rw [← heq, ListWorld.evict, if_pos hm]
      · rw [CacheAlikeContainer.Refines.size h''.cache, CacheAlikeContainer.Refines.size h'.cache]
        exact Nat.lt_succ_self _
  · refine .inl ⟨w, h'.evictOldest_done hcond, ?_⟩
    have hstop : ListWorld.evict l m = (l, m) := by
      obtain _ | ⟨e, _ | ⟨d, l⟩⟩ := l
      · rfl
      · rfl
      · rw [ListWorld.evict, if_neg fun hm => hcond ⟨hm, by simp⟩]
    rw [← heq, hstop]
    exact h'

/-- An image enters the cache and the counter. -/
theorem insertImage (clk : Clock) (h : w.Refines s) {key : ResizeRequestKey}
    (blob : DatasizableBlob) (hkey : key ∉ keys s.cache) :
    (w.insertImage clk key blob).Refines { s with
      cache := s.cache ++ [⟨key, blob, clk s.env.reads⟩]
      memorySize := s.memorySize + blob.size
      env := (s.env.tick 1).store key blob } := by
  have hinsert := CacheAlikeContainer.Refines.insert_new h.cache (clk w.env.reads) blob
    (forall_not_equivalent hkey)
  refine ⟨h.env ▸ hinsert, congrArg (· + blob.size) h.memorySize, h.pending, h.inprogress,
    h.freeWorkers, ?_⟩
  rw [World.insertImage, h.env]

/-- A key that is not cached is stored, and the oldest images make room. -/
theorem store (clk : Clock) (h : w.Refines s) {key : ResizeRequestKey} (blob : DatasizableBlob)
    (hkey : key ∉ keys s.cache) :
    ∃ w', w.storeTransformedImageToCache clk key blob = .ok w' ∧
      w'.Refines (s.store clk key blob) := by
  rw [storeTransformedImageToCache_eq]
  exact (h.insertImage clk blob hkey).evict

/-- All requests are answered, each once, and every handle is still there. -/
theorem answerAll (h : w.Refines s) (respond : ResizeRequest → RequestHandle → Response)
    (l : RequestList) :
    ∃ w', w.answerAll respond (l.map fun e => (entryOf e).value) = .ok w' ∧
      w'.Refines (ListWorld.answer (fun e => respond (entryOf e).value e.value) l s) := by
  induction l generalizing w s with
  | nil =>
    refine ⟨w, rfl, ?_⟩
    rw [ListWorld.answer, List.map_nil, List.append_nil]
    exact h
  | cons e l ih =>
    obtain ⟨w', hw', h'⟩ := ih (h.answer e fun e => respond (entryOf e).value e.value)
    refine ⟨w', hw', ?_⟩
    rw [ListWorld.answer, ListWorld.answer, List.append_assoc] at h'
    exact h'

/-- The requests of a key in progress are found and handed over, and only those. -/
theorem extract (h : w.Refines s) {key : ResizeRequestKey} (hkey : key ∈ keys s.inprogress) :
    ∃ tok w', w.manager.inprogressRequests.findFirstForKey key = some tok ∧
      w.extractInprogressRequests tok =
        .ok (w', (ofKey key s.inprogress).map fun e => (entryOf e).value) ∧
      w'.Refines (s.extract key) := by
  rw [← keys_map_entryOf] at hkey
  obtain ⟨e, he, hek⟩ := List.mem_map.1 hkey
  obtain ⟨d, hd⟩ := Option.isSome_iff_exists.1 (List.find?_isSome.2
    ⟨e, he, decide_eq_true hek⟩ : ((s.inprogress.map entryOf).find? (·.key = key)).isSome)
  obtain ⟨-, rfl⟩ := ListWorld.find?_key_some hd
  rw [← find?_equivalent] at hd
  obtain ⟨tok, l₁, l₂, htok, hl, hpts⟩ :=
    KeyMultivalueQueue.Refines.findFirstForKey_some h.inprogress hd
  obtain ⟨q', hq', hl'⟩ := KeyMultivalueQueue.Points.extractValuesForKey hpts
  rw [← hl, filter_equivalent, ofKey_map_entryOf, List.map_map] at hq'
  rw [← hl, filter_not_equivalent, exceptKey_map_entryOf] at hl'
  refine ⟨tok, { w with manager := { w.manager with inprogressRequests := q' } }, htok, ?_,
    h.cache, h.memorySize, h.pending, hl', h.freeWorkers, h.env⟩
  rw [extractInprogressRequests, hq']; rfl

/-- A result whose key is in progress and not cached is handled without a fault. -/
theorem onResizeResult (h : w.Refines s) {cmd : ResizeResult}
    (hin : cmd.key ∈ keys ((s.pushFreeWorker cmd.worker).tryInitiate clk).inprogress)
    (hcache : cmd.key ∉ keys ((s.pushFreeWorker cmd.worker).tryInitiate clk).cache) :
    ∃ w', w.onResizeResult clk cmd = .ok w' ∧ w'.Refines (s.onResizeResult clk cmd) := by
  obtain ⟨w₁, hw₁, h₁⟩ := (h.pushFreeWorker cmd.worker).tryInitiate clk
  obtain ⟨tok, w₂, htok, hw₂, h₂⟩ := h₁.extract hin
  simp only [World.onResizeResult, ListWorld.onResizeResult, hw₁, htok, hw₂, ok_bind,
    optionalValue_some]
  cases hresult : cmd.result with
  | successful result =>
    obtain ⟨w₃, hw₃, h₃⟩ := h₂.store clk result.imageBlob hcache
    obtain ⟨w₄, hw₄, h₄⟩ := h₃.answerAll (fun rq _ => serveTransformedImage result.imageBlob
      rq.targetFormat .transform (additionalHeaders result)) _
    refine ⟨w₄, ?_, ?_⟩
    · simp only [onSuccessfulResize, hw₃, ok_bind]
      exact hw₄
    · simp only [ListWorld.finish, hresult]
      have hformat : ∀ e ∈ ofKey cmd.key
          ((s.pushFreeWorker cmd.worker).tryInitiate clk).inprogress,
          (entryOf e).value.targetFormat = cmd.key.format := fun e he =>
        congrArg ResizeRequestKey.format (of_decide_eq_true (List.mem_filter.1 he).2)
      rw [ListWorld.answer] at h₄ ⊢
      rwa [List.map_congr_left fun e he => by rw [hformat e he]] at h₄
  | failed result =>
    obtain ⟨w₃, hw₃, h₃⟩ := h₂.answerAll (fun _ req => do404Response req) _
    refine ⟨w₃, hw₃, ?_⟩
    simp only [ListWorld.finish, hresult]
    exact h₃

/-! ## Deletion of the cache and timers -/

/-- `on_delete_cache_request` ends without a fault and does what it does over lists, with the right
token and with any other. -/
theorem onDeleteCacheRequest (h : w.Refines s) (envToken : Option CxxString) (req : RequestHandle)
    (token : CxxString) :
    ∃ w', w.onDeleteCacheRequest envToken ⟨some req, token⟩ = .ok w' ∧
      w'.Refines (s.onDeleteCacheRequest envToken req token) := by
  have hdelayed : ∀ text, Refines { w with env := w.env.sendDelayed ⟨req, text⟩ }
      { s with env := s.env.sendDelayed ⟨req, text⟩ } := by
    intro text
    rw [h.env]
    exact h.withEnv _
  simp only [World.onDeleteCacheRequest, ListWorld.onDeleteCacheRequest, requestHandle_some,
    ok_bind]
  cases envToken.filter (· ≠ []) with
  | none => exact ⟨_, rfl, hdelayed _⟩
  | some envToken =>
    by_cases htoken : token = envToken
    · simp only [if_pos htoken]
      refine ⟨_, rfl, CacheAlikeContainer.refines_clear _, h.memorySize, h.pending, h.inprogress,
        h.freeWorkers, ?_⟩
      rw [← h.env]; rfl
    · simp only [if_neg htoken]
      exact ⟨_, rfl, hdelayed _⟩

/-- A pass of the loop of `on_clear_cache`. -/
theorem clearOldest {timeBorder : TimePoint} (h : w.Refines s) :
    (∃ e l, s.cache = e :: l ∧ expired timeBorder e ∧
      ∃ w', clearOldest timeBorder w = .ok (.yield w') ∧ w'.Refines { s with cache := l }) ∨
    (clearOldest timeBorder w = .ok (.done w) ∧
      s.cache.dropWhile (expired timeBorder) = s.cache) := by
  have hempty := LinkedIndex.RefinesWith.empty h.cache
  rw [World.clearOldest]
  cases hcache : s.cache with
  | nil =>
    rw [hcache] at hempty
    rw [if_neg (by simp [hempty])]
    exact .inr ⟨rfl, rfl⟩
  | cons e l =>
    rw [hcache] at hempty
    obtain ⟨tok, htok, hpts⟩ := LinkedIndex.RefinesWith.oldest_cons h.cache hcache
    rw [if_pos (by simp [hempty])]
    simp only [htok, ok_bind, optionalValue_some, hpts.accessTime]
    by_cases hold : e.time < timeBorder
    · obtain ⟨c', hc', hl'⟩ := CacheAlikeContainer.Points.erase hpts
      rw [if_pos hold, hc']
      exact .inl ⟨e, l, rfl, decide_eq_true hold, _, rfl, hl', h.memorySize, h.pending,
        h.inprogress, h.freeWorkers, h.env⟩
    · rw [if_neg hold]
      exact .inr ⟨rfl, List.dropWhile_cons_of_neg (by simpa [expired] using hold)⟩

/-- `on_clear_cache` ends without a fault and does what it does over lists: its passes erase the
images one by one from the oldest on, until the first one that is young enough. -/
theorem onClearCache (clk : Clock) (h : w.Refines s) :
    ∃ w', w.onClearCache clk = .ok w' ∧ w'.Refines (s.onClearCache clk) := by
  rw [World.onClearCache, ListWorld.onClearCache, ← h.env]
  let old : Entry ResizeRequestKey DatasizableBlob → Bool :=
    expired (clk w.env.reads - maxCacheLifetime)
  refine loop_rule
    (fun w' => ∃ l, w'.Refines { s with cache := l, env := w.env.tick 1 } ∧
      l.dropWhile old = s.cache.dropWhile old)
    (fun w' => w'.manager.transformedCache.size) ?_ _ _ ⟨_, h.withEnv _, rfl⟩
    (Nat.lt_succ_self _)
  rintro w' ⟨l, h', heq⟩
  obtain ⟨e, l', hl, hold, w'', hw'', h''⟩ | ⟨hdone, hl⟩ := h'.clearOldest
  · cases hl
    refine .inr ⟨w'', hw'', ⟨l', h'', ?_⟩, ?_⟩
    · rw [← heq, List.dropWhile_cons_of_pos hold]
    · rw [CacheAlikeContainer.Refines.size h''.cache, CacheAlikeContainer.Refines.size h'.cache]
      exact Nat.lt_succ_self _
  · refine .inl ⟨w', hdone, ?_⟩
    have hl : l.dropWhile old = l := hl
    rw [← show _ = s.cache.dropWhile old from heq, hl]
    exact h'

/-- A pass of the loop of `on_check_pending_requests`. The handle is moved out of an element that is
then erased, so no request without a handle stays in the queue. -/
theorem rejectOldest {timeBorder : TimePoint} (h : w.Refines s) :
    (∃ e l, s.pending = e :: l ∧ expired timeBorder e ∧
      ∃ w', rejectOldest timeBorder w = .ok (.yield w') ∧
        w'.Refines
          (ListWorld.answer (fun e => do504Response e.value) [e] { s with pending := l })) ∨
    (rejectOldest timeBorder w = .ok (.done w) ∧
      s.pending.dropWhile (expired timeBorder) = s.pending ∧
      s.pending.takeWhile (expired timeBorder) = []) := by
  have hempty := h.pending_empty
  rw [World.rejectOldest]
  cases hpending : s.pending with
  | nil =>
    rw [hpending] at hempty
    rw [if_neg (by simp [hempty])]
    exact .inr ⟨rfl, rfl, rfl⟩
  | cons e l =>
    rw [hpending] at hempty
    obtain ⟨tok, htok, hpts⟩ := LinkedIndex.RefinesWith.oldest_cons h.pending
      (show s.pending.map entryOf = entryOf e :: l.map entryOf by rw [hpending]; rfl)
    rw [if_pos (by simp [hempty])]
    simp only [htok, ok_bind, optionalValue_some, hpts.accessTime]
    by_cases hold : e.time < timeBorder
    · rw [if_pos (show (entryOf e).time < timeBorder from hold)]
      simp only [hpts.value, ok_bind]
      obtain ⟨q₁, hq₁, hpts₁⟩ := KeyMultivalueQueue.Points.setValue hpts
        { (entryOf e).value with httpReq := none }
      obtain ⟨q₂, hq₂, hl₂⟩ := KeyMultivalueQueue.Points.erase hpts₁
      refine .inl ⟨e, l, rfl, decide_eq_true hold, _, ?_,
        answer (w := { w with manager := { w.manager with pendingRequests := q₂ } })
          (s := { s with pending := l }) ⟨h.cache, h.memorySize, hl₂, h.inprogress,
            h.freeWorkers, h.env⟩ e _⟩
      simp only [hq₁, ok_bind, hpts₁.key, hq₂]
      rfl
    · rw [if_neg (show ¬ (entryOf e).time < timeBorder from hold)]
      exact .inr ⟨rfl, List.dropWhile_cons_of_neg (by simpa [expired] using hold),
        List.takeWhile_cons_of_neg (by simpa [expired] using hold)⟩

/-- `on_check_pending_requests` ends without a fault and does what it does over lists: its passes
answer the requests one by one from the oldest on, until the first one that is young enough. -/
theorem onCheckPendingRequests (clk : Clock) (h : w.Refines s) :
    ∃ w', w.onCheckPendingRequests clk = .ok w' ∧ w'.Refines (s.onCheckPendingRequests clk) := by
  rw [World.onCheckPendingRequests, ListWorld.onCheckPendingRequests, ← h.env]
  let old : Entry ResizeRequestKey RequestHandle → Bool :=
    expired (clk w.env.reads - maxPendingTime)
  let rest (l : RequestList) (answered : List (RequestHandle × Response)) : ListWorld :=
    { s with pending := l, env := { w.env.tick 1 with answered := answered } }
  -- What is answered so far and what is left to answer make up what is answered in the end.
  refine loop_rule
    (fun w' => ∃ l answered, w'.Refines (rest l answered) ∧
      l.dropWhile old = s.pending.dropWhile old ∧
      answered ++ (l.takeWhile old).map (fun e => (e.value, do504Response e.value)) =
        w.env.answered ++ (s.pending.takeWhile old).map fun e => (e.value, do504Response e.value))
    (fun w' => w'.manager.pendingRequests.items.length) ?_ _ _
    ⟨_, _, h.withEnv _, rfl, rfl⟩ (Nat.lt_succ_self _)
  rintro w' ⟨l, answered, h', hdrop, htake⟩
  have hlength : ∀ {w : World} {s : ListWorld}, w.Refines s →
      w.manager.pendingRequests.items.length = s.pending.length := by
    intro w s h
    obtain ⟨es, hes, -, heq⟩ := h.pending
    have hlen := congrArg List.length heq
    rwa [List.length_map, List.length_map, ← List.length_map (f := LinkedEntry.itemNode),
      ← hes.items.length_eq] at hlen
  obtain ⟨e, l', hl, hold, w'', hw'', h''⟩ | ⟨hdone, hl, htaken⟩ := h'.rejectOldest
  · cases hl
    refine .inr ⟨w'', hw'', ⟨l', answered ++ [(e.value, do504Response e.value)], h'', ?_, ?_⟩, ?_⟩
    · rw [← hdrop, List.dropWhile_cons_of_pos hold]
    · rw [← htake, List.takeWhile_cons_of_pos hold, List.map_cons, List.append_assoc]; rfl
    · rw [hlength h'', hlength h']
      exact Nat.lt_succ_self _
  · refine .inl ⟨w', hdone, ?_⟩
    have hl : l.dropWhile old = l := hl
    have htaken : l.takeWhile old = [] := htaken
    rw [htaken, List.map_nil, List.append_nil] at htake
    rw [hl] at hdrop
    rw [← show _ = s.pending.dropWhile old from hdrop]
    rw [htake] at h'
    exact h'

end Refines

/-! ## Steps and runs -/

/-- In the middle of `on_resize_result` the key of the result is in progress and not cached. -/
theorem protocol_deliverResult (clk : Clock) {workers : List Mbox}
    (hp : s.Protocol workers []) {i : Nat} {cmd : ResizeResult}
    (hcmd : s.env.resizeResults[i]? = some cmd) :
    ((ListWorld.pushFreeWorker { s with env := s.env.deliverResult i } cmd.worker).tryInitiate
      clk).Protocol workers [cmd.key] :=
  (hp.deliverResult hcmd).tryInitiate clk

/-- What an action does to the code it does to the lists, and it does not fault. -/
theorem step_refines (clk : Clock) {workers : List Mbox} (h : w.Refines s)
    (hp : s.Protocol workers []) (a : Action) :
    ∃ w', step clk w a = .ok w' ∧ w'.Refines (s.next clk a) := by
  cases a with
  | resizeRequest keepAlive image targetFormat params =>
    rw [step, ListWorld.next, ← h.env]
    exact (h.withEnv _).onResizeRequest ⟨w.env.accepted, keepAlive⟩ ⟨image, targetFormat, params⟩
  | deleteCacheRequest keepAlive token envToken =>
    rw [step, ListWorld.next, ← h.env]
    exact (h.withEnv _).onDeleteCacheRequest _ _ _
  | transform i result =>
    rw [step, ListWorld.next, ← h.env]
    cases w.env.transformerRequests[i]? with
    | none => exact ⟨w, rfl, h⟩
    | some cmd => exact ⟨_, rfl, h.withEnv _⟩
  | resizeResult i =>
    rw [step, ListWorld.next, h.env]
    cases hcmd : s.env.resizeResults[i]? with
    | none => exact ⟨w, rfl, h⟩
    | some cmd =>
      have hp' := protocol_deliverResult clk hp hcmd
      have hkey := (hp'.inprogress cmd.key).2 (by simp)
      exact (h.withEnv _).onResizeResult hkey fun hk => hp'.cache_inprogress _ hk hkey
  | negativeDeleteCacheResponse i =>
    rw [step, ListWorld.next, h.env]
    cases s.env.negativeResponses[i]? with
    | none => exact ⟨w, rfl, h⟩
    | some cmd => exact ⟨_, rfl, h.withEnv _⟩
  | clearCache => exact h.onClearCache clk
  | checkPendingRequests => exact h.onCheckPendingRequests clk

/-- No run faults, and the lists go through the same states. -/
theorem run_refines (clk : Clock) (workers : List Mbox) (actions : List Action) :
    ∃ w, run (step clk) (init workers) actions = .ok w ∧
      w.Refines (actions.foldl (ListWorld.next clk) (ListWorld.init workers)) ∧
      (actions.foldl (ListWorld.next clk) (ListWorld.init workers)).Protocol workers [] := by
  obtain ⟨w, hw, hrefines, hp⟩ := run_simulates (step clk) (ListWorld.next clk)
    (fun w s => w.Refines s ∧ s.Protocol workers [])
    (fun w s a ⟨h, hp⟩ => by
      obtain ⟨w', hw', h'⟩ := step_refines clk h hp a
      exact ⟨w', hw', h', hp.next a⟩)
    actions _ _ ⟨refines_init workers, ListWorld.protocol_init workers⟩
  exact ⟨w, hw, hrefines, hp⟩

/-- The state in which a run ends follows the lists. -/
theorem refines_of_run {clk : Clock} {workers : List Mbox} {actions : List Action} {w : World}
    (hrun : run (step clk) (init workers) actions = .ok w) :
    w.Refines (actions.foldl (ListWorld.next clk) (ListWorld.init workers)) := by
  obtain ⟨w', hw', h, -⟩ := run_refines clk workers actions
  rw [hrun] at hw'
  cases hw'
  exact h

/-- What the code and the lists show to an observer. -/
structure SameAs (w : World) (s : ListWorld) : Prop where
  cache : w.manager.transformedCache.toList = s.cache
  memorySize : w.manager.transformedCacheMemorySize = s.memorySize
  pending : w.manager.pendingRequests.toList = s.pending.map entryOf
  inprogress : w.manager.inprogressRequests.toList = s.inprogress.map entryOf
  freeWorkers : w.manager.freeWorkers = s.freeWorkers
  env : w.env = s.env
  /-- The trees of the containers find what is in the lists. -/
  lookup : ∀ k, w.manager.transformedCache.read? (w.manager.transformedCache.lookup k) =
    .ok (s.cache.find? (·.key = k))
  hasKey : ∀ k, (w.manager.pendingRequests.hasKey k = true ↔ k ∈ keys s.pending) ∧
    (w.manager.inprogressRequests.hasKey k = true ↔ k ∈ keys s.inprogress)
  uniqueKeys : w.manager.pendingRequests.uniqueKeys = (keys s.pending).toFinset.card

/-- What refines the lists shows to the outside what they show. -/
theorem Refines.sameAs {w : World} {s : ListWorld} (h : w.Refines s) : w.SameAs s where
  cache := LinkedIndex.RefinesWith.toList_eq h.cache
  memorySize := h.memorySize
  pending := LinkedIndex.RefinesWith.toList_eq h.pending
  inprogress := LinkedIndex.RefinesWith.toList_eq h.inprogress
  freeWorkers := h.freeWorkers
  env := h.env
  lookup k := by
    rw [CacheAlikeContainer.Refines.read?_lookup h.cache k, find?_equivalent]
  hasKey k := by
    rw [h.hasKey_pending, h.hasKey_inprogress, decide_eq_true_iff, decide_eq_true_iff]
    exact ⟨Iff.rfl, Iff.rfl⟩
  uniqueKeys := h.uniqueKeys_pending

/-- The manager of the code does what the manager over lists does: no run faults, and in every state
of every run both show the same. -/
theorem manager_refines_lists (clk : Clock) (workers : List Mbox) (actions : List Action) :
    ∃ w, run (step clk) (init workers) actions = .ok w ∧
      w.SameAs (actions.foldl (ListWorld.next clk) (ListWorld.init workers)) := by
  obtain ⟨w, hw, h, -⟩ := run_refines clk workers actions
  exact ⟨w, hw, h.sameAs⟩

end World

end Shrimp
