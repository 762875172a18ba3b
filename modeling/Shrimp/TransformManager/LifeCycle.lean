import Shrimp.TransformManager.Dispatch

/-!
# The life of a key

A key is absent, pending, in progress or cached. `KeyMoves` is the automaton of these stages: which
action takes a key from which stage to which other one, and what must be true at that moment.
`key_life_cycle` says that every step of every run moves every key along it, so that nothing else
starts a transformation, stores an image or lets one go, and that a result answers everyone who had
asked for its key.
-/

namespace Shrimp

open Execution

/-- Where a key is. -/
inductive Stage
  | absent
  | pending
  | inprogress
  | cached
deriving DecidableEq, Repr

/-- How the key `k` may move, where these workers are free and these results in flight. -/
inductive KeyMoves (freeWorkers : List Mbox) (resizeResults : List ResizeResult)
    (k : ResizeRequestKey) : World.Action → Stage → Stage → Prop
  | stay (a : World.Action) (stage : Stage) : KeyMoves freeWorkers resizeResults k a stage stage
  /-- It is asked for while all workers are busy. -/
  | queue {a : World.Action} (hkey : a.requestKey = some k) (hbusy : freeWorkers = []) :
    KeyMoves freeWorkers resizeResults k a .absent .pending
  /-- It is asked for and there is a worker. -/
  | start {a : World.Action} (hkey : a.requestKey = some k) (hfree : freeWorkers ≠ []) :
    KeyMoves freeWorkers resizeResults k a .absent .inprogress
  /-- The result of another key frees a worker. -/
  | dispatch {i : Nat} {cmd : ResizeResult} (hcmd : resizeResults[i]? = some cmd)
    (hkey : cmd.key ≠ k) :
    KeyMoves freeWorkers resizeResults k (.resizeResult i) .pending .inprogress
  /-- All its requests waited for too long. -/
  | timeOut : KeyMoves freeWorkers resizeResults k .checkPendingRequests .pending .absent
  /-- Its image arrives. -/
  | store {i : Nat} {cmd : ResizeResult} {result : SuccessfulResize}
    (hcmd : resizeResults[i]? = some cmd) (hkey : cmd.key = k)
    (hresult : cmd.result = .successful result) :
    KeyMoves freeWorkers resizeResults k (.resizeResult i) .inprogress .cached
  /-- Its failure arrives. -/
  | fail {i : Nat} {cmd : ResizeResult} {result : FailedResize}
    (hcmd : resizeResults[i]? = some cmd) (hkey : cmd.key = k)
    (hresult : cmd.result = .failed result) :
    KeyMoves freeWorkers resizeResults k (.resizeResult i) .inprogress .absent
  /-- Its image makes room for that of another key. -/
  | evict {i : Nat} {cmd : ResizeResult} {result : SuccessfulResize}
    (hcmd : resizeResults[i]? = some cmd) (hkey : cmd.key ≠ k)
    (hresult : cmd.result = .successful result) :
    KeyMoves freeWorkers resizeResults k (.resizeResult i) .cached .absent
  /-- Its image was not used for too long. -/
  | expire : KeyMoves freeWorkers resizeResults k .clearCache .cached .absent
  /-- The cache is deleted with the admin token. -/
  | delete {keepAlive : Bool} {token : CxxString} {envToken : Option CxxString}
    (htoken : envToken.filter (· ≠ []) = some token) :
    KeyMoves freeWorkers resizeResults k (.deleteCacheRequest keepAlive token envToken)
      .cached .absent

namespace ListWorld

variable {clk : Clock} {workers : List Mbox} {s s' : ListWorld} {k : ResizeRequestKey}

/-- The stage of a key. -/
def stage (s : ListWorld) (k : ResizeRequestKey) : Stage :=
  if k ∈ keys s.cache then .cached
  else if k ∈ keys s.inprogress then .inprogress
  else if k ∈ keys s.pending then .pending
  else .absent

/-- The stage of a key depends on whether it is in each of the lists. -/
theorem stage_congr (hcache : k ∈ keys s'.cache ↔ k ∈ keys s.cache)
    (hin : k ∈ keys s'.inprogress ↔ k ∈ keys s.inprogress)
    (hpending : k ∈ keys s'.pending ↔ k ∈ keys s.pending) : s'.stage k = s.stage k := by
  simp only [stage, hcache, hin, hpending]

/-- A key in the cache is cached. -/
theorem stage_cached (h : k ∈ keys s.cache) : s.stage k = .cached := if_pos h

/-- A key in the queue of requests in progress is in progress, since it is not cached. -/
theorem Protocol.stage_inprogress (hp : Protocol workers [] s) (h : k ∈ keys s.inprogress) :
    s.stage k = .inprogress := by
  rw [stage, if_neg fun hcache => hp.cache_inprogress k hcache h, if_pos h]

/-- A key in the queue of pending requests is pending, being neither cached nor in progress. -/
theorem Protocol.stage_pending (hp : Protocol workers [] s) (h : k ∈ keys s.pending) :
    s.stage k = .pending := by
  rw [stage, if_neg fun hcache => hp.cache_pending k hcache h,
    if_neg (hp.pending_inprogress k h), if_pos h]

/-- A key in none of the lists is absent. -/
theorem stage_absent (hcache : k ∉ keys s.cache) (hin : k ∉ keys s.inprogress)
    (hpending : k ∉ keys s.pending) : s.stage k = .absent := by
  rw [stage, if_neg hcache, if_neg hin, if_neg hpending]

/-! ## What dispatching moves -/

/-- Somebody waits for a key exactly if it is in one of the queues. -/
theorem waiting_ne_nil : s.waiting k ≠ [] ↔ k ∈ keys s.inprogress ∨ k ∈ keys s.pending := by
  rw [ListWorld.waiting, ne_eq, List.append_eq_nil_iff, List.map_eq_nil_iff, List.map_eq_nil_iff,
    ofKey_eq_nil, ofKey_eq_nil]
  tauto

/-- A key that waits goes on waiting, in progress or not. -/
theorem waits_tryInitiate (clk : Clock) (s : ListWorld) (k : ResizeRequestKey) :
    (k ∈ keys (s.tryInitiate clk).inprogress ∨ k ∈ keys (s.tryInitiate clk).pending) ↔
      (k ∈ keys s.inprogress ∨ k ∈ keys s.pending) := by
  rw [← waiting_ne_nil, ← waiting_ne_nil, waiting_tryInitiate]

/-- Keys in progress stay there. -/
theorem inprogress_tryInitiate (clk : Clock) (s : ListWorld) (h : k ∈ keys s.inprogress) :
    k ∈ keys (s.tryInitiate clk).inprogress := by
  obtain ⟨new, hnew, -⟩ := (dispatch_tryInitiate clk s).moved
  rw [hnew]
  exact mem_keys_append.2 (.inl h)

/-- Without a free worker there is nothing to dispatch. -/
theorem tryInitiate_of_busy (h : s.freeWorkers = []) : s.tryInitiate clk = s := by
  rw [ListWorld.tryInitiate, h]
  rfl

/-- The only pending key goes to a free worker. -/
theorem pending_tryInitiate_joinPending (clk : Clock) (req : RequestHandle) (key : ResizeRequestKey)
    (hfree : s.freeWorkers ≠ []) (hpending : s.pending = []) :
    ((s.joinPending clk req key).tryInitiate clk).pending = [] := by
  have hd := dispatch_tryInitiate clk (s.joinPending clk req key)
  obtain ⟨n, hn⟩ := Nat.exists_eq_succ_of_ne_zero
    (fun hzero => hfree (List.length_eq_zero_iff.1 hzero) : s.freeWorkers.length ≠ 0)
  rw [hd.pending]
  have hjoined : (s.joinPending clk req key).pending = [⟨key, req, clk s.env.reads⟩] := by
    rw [ListWorld.joinPending, hpending, List.nil_append]
  have hfree' : (s.joinPending clk req key).freeWorkers.length = n + 1 := hn
  rw [hjoined, hfree']
  simp [List.eraseDups_cons]

/-! ## What eviction leaves -/

/-- Eviction leaves an image. -/
theorem evict_ne_nil : ∀ (l : ImageList) (memorySize : UInt64), l ≠ [] → (evict l memorySize).1 ≠ []
  | [e], _, _ => List.cons_ne_nil e []
  | e :: d :: l, memorySize, _ => by
    rw [evict]
    split
    · exact evict_ne_nil (d :: l) _ (List.cons_ne_nil d l)
    · exact List.cons_ne_nil e _

/-- The image that was just stored stays. -/
theorem mem_evict_concat (l : ImageList) (e : Entry ResizeRequestKey DatasizableBlob)
    (memorySize : UInt64) : e ∈ (evict (l ++ [e]) memorySize).1 := by
  obtain ⟨gone, hgone⟩ := evict_suffix (l ++ [e]) memorySize
  obtain ⟨survivors, d, hkept⟩ : ∃ survivors d,
      (evict (l ++ [e]) memorySize).1 = survivors ++ [d] :=
    ⟨_, _, (List.dropLast_append_getLast (evict_ne_nil _ memorySize (by simp))).symm⟩
  rw [hkept, ← List.append_assoc] at hgone
  obtain ⟨-, hlast⟩ := List.append_inj' hgone rfl
  cases hlast
  rw [hkept]
  simp

/-! ## The moves of an action -/

/-- A request moves no key but its own, and that only if it is new. -/
theorem keyMoves_onResizeRequest (hp : Protocol workers [] s) (hidle : s.Idle) {a : World.Action}
    (req : RequestHandle) {key : ResizeRequestKey} (ha : a.requestKey = some key)
    (hp' : Protocol workers [] (s.onResizeRequest clk req key)) :
    KeyMoves s.freeWorkers s.env.resizeResults k a (s.stage k)
      ((s.onResizeRequest clk req key).stage k) := by
  have hstay : (s.onResizeRequest clk req key).stage k = s.stage k →
      KeyMoves s.freeWorkers s.env.resizeResults k a (s.stage k)
        ((s.onResizeRequest clk req key).stage k) := fun heq => heq ▸ .stay a _
  obtain ⟨e, he, -, heq⟩ | ⟨-, hin, heq⟩ | ⟨-, -, hpending, heq⟩ | ⟨hcache, hin, hpending, -, heq⟩ |
    ⟨-, -, -, -, heq⟩ := onResizeRequest_cases clk s req key
  · refine hstay (heq ▸ stage_congr ?_ Iff.rfl Iff.rfl)
    exact (keys_serveFromCache clk hp.cached req he).mem_iff
  · refine hstay (heq ▸ stage_congr Iff.rfl ?_ Iff.rfl)
    show k ∈ keys (s.inprogress ++ [_]) ↔ _
    rw [mem_keys_append]
    exact or_iff_left_of_imp fun hk => by cases List.mem_singleton.1 hk; exact hin
  · refine hstay (heq ▸ stage_congr Iff.rfl Iff.rfl ?_)
    show k ∈ keys (s.pending ++ [_]) ↔ _
    rw [mem_keys_append]
    exact or_iff_left_of_imp fun hk => by cases List.mem_singleton.1 hk; exact hpending
  · have hjoin : ∀ k', k' ∈ keys (s.joinPending clk req key).pending ↔
        k' ∈ keys s.pending ∨ k' = key := by
      simp [ListWorld.joinPending, keys]
    rw [heq] at hp' hstay ⊢
    by_cases hbusy : s.freeWorkers = []
    · rw [tryInitiate_of_busy (s := s.joinPending clk req key) hbusy] at hp' hstay ⊢
      by_cases hk : k = key
      · subst hk
        rw [stage_absent hcache hin hpending, hp'.stage_pending ((hjoin k).2 (.inr rfl))]
        exact .queue ha hbusy
      · exact hstay (stage_congr Iff.rfl Iff.rfl ((hjoin k).trans (or_iff_left hk)))
    · have hnil := hidle.resolve_left hbusy
      have hnone := pending_tryInitiate_joinPending clk req key hbusy hnil
      have hwaits : k ∈ keys ((s.joinPending clk req key).tryInitiate clk).inprogress ↔
          k ∈ keys s.inprogress ∨ k = key := by
        have hiff := waits_tryInitiate clk (s.joinPending clk req key) k
        rw [hnone, hjoin, hnil] at hiff
        exact ((or_iff_left List.not_mem_nil).symm.trans hiff).trans
          (or_congr_right (or_iff_right List.not_mem_nil))
      by_cases hk : k = key
      · subst hk
        rw [stage_absent hcache hin hpending, hp'.stage_inprogress (hwaits.2 (.inr rfl))]
        exact .start ha hbusy
      · refine hstay (stage_congr ?_ (hwaits.trans (or_iff_left hk)) ?_)
        · rw [(dispatched_tryInitiate clk _).cache]
          rfl
        · rw [hnone, hnil]
  · exact hstay (heq ▸ rfl)

/-- A result takes its key out of the queue of requests in progress and leaves the pending requests
alone. -/
theorem finish_inprogress (clk : Clock) (s : ListWorld) (cmd : ResizeResult)
    (requests : RequestList) :
    ((s.extract cmd.key).finish clk cmd requests).inprogress = exceptKey cmd.key s.inprogress ∧
      ((s.extract cmd.key).finish clk cmd requests).pending = s.pending := by
  cases hresult : cmd.result <;> simp only [ListWorld.finish, hresult] <;> exact ⟨rfl, rfl⟩

/-- A failure leaves the cache alone. -/
theorem finish_cache_failed (clk : Clock) (s : ListWorld) {cmd : ResizeResult}
    (requests : RequestList) {reason : FailedResize} (h : cmd.result = .failed reason) :
    ((s.extract cmd.key).finish clk cmd requests).cache = s.cache := by
  simp only [ListWorld.finish, h]
  rfl

/-- The image of the result is cached, and other images only leave. -/
theorem finish_cache_successful (clk : Clock) (s : ListWorld) {cmd : ResizeResult}
    (requests : RequestList) {result : SuccessfulResize} (h : cmd.result = .successful result) :
    cmd.key ∈ keys ((s.extract cmd.key).finish clk cmd requests).cache ∧
      ∀ k ∈ keys ((s.extract cmd.key).finish clk cmd requests).cache,
        k ∈ keys s.cache ∨ k = cmd.key := by
  simp only [ListWorld.finish, h]
  constructor
  · exact List.mem_map_of_mem
      (mem_evict_concat s.cache ⟨cmd.key, result.imageBlob, clk s.env.reads⟩ _)
  · intro k hk
    have hmem := ((evict_suffix (s.cache ++ [⟨cmd.key, result.imageBlob, clk s.env.reads⟩])
      (s.memorySize + result.imageBlob.size)).sublist.map (·.key)).subset hk
    simpa [keys] using hmem

/-- The end of `on_resize_result` for the key of the result. -/
theorem keyMoves_finish_self {freeWorkers : List Mbox} {resizeResults : List ResizeResult}
    {cmd : ResizeResult} (hp : Protocol workers [cmd.key] s) (requests : RequestList) {i : Nat}
    (hcmd : resizeResults[i]? = some cmd) :
    KeyMoves freeWorkers resizeResults cmd.key (.resizeResult i) .inprogress
      (((s.extract cmd.key).finish clk cmd requests).stage cmd.key) := by
  have hin : cmd.key ∈ keys s.inprogress := (hp.inprogress cmd.key).2 (by simp)
  obtain ⟨hinprogress, hpending⟩ := finish_inprogress clk s cmd requests
  cases hresult : cmd.result with
  | successful result =>
    rw [stage_cached (finish_cache_successful clk s requests hresult).1]
    exact .store hcmd rfl hresult
  | failed reason =>
    rw [stage_absent]
    · exact .fail hcmd rfl hresult
    · rw [finish_cache_failed clk s requests hresult]
      exact fun hcache => hp.cache_inprogress _ hcache hin
    · rw [hinprogress]
      exact fun hk => (mem_keys_exceptKey.1 hk).2 rfl
    · rw [hpending]
      exact fun hk => hp.pending_inprogress _ hk hin

/-- The end of `on_resize_result` for a cached key other than that of the result. -/
theorem keyMoves_finish_cached {freeWorkers : List Mbox} {resizeResults : List ResizeResult}
    {cmd : ResizeResult} (hp : Protocol workers [cmd.key] s) (requests : RequestList) {i : Nat}
    (hcmd : resizeResults[i]? = some cmd) (hne : cmd.key ≠ k) (hcached : k ∈ keys s.cache) :
    KeyMoves freeWorkers resizeResults k (.resizeResult i) .cached
      (((s.extract cmd.key).finish clk cmd requests).stage k) := by
  obtain ⟨hinprogress, hpending⟩ := finish_inprogress clk s cmd requests
  by_cases hkept : k ∈ keys ((s.extract cmd.key).finish clk cmd requests).cache
  · rw [stage_cached hkept]
    exact .stay _ _
  cases hresult : cmd.result with
  | failed reason =>
    rw [finish_cache_failed clk s requests hresult] at hkept
    exact absurd hcached hkept
  | successful result =>
    rw [stage_absent hkept]
    · exact .evict hcmd hne hresult
    · rw [hinprogress]
      exact fun hk => hp.cache_inprogress _ hcached (mem_keys_exceptKey.1 hk).1
    · rw [hpending]
      exact hp.cache_pending _ hcached

/-- The result of another key brings nothing in. -/
theorem stage_finish_absent {cmd : ResizeResult} (hkey : cmd.key ≠ k) (hcached : k ∉ keys s.cache)
    (hin : k ∉ keys s.inprogress) (hpending : k ∉ keys s.pending) :
    ((s.extract cmd.key).finish clk cmd (ofKey cmd.key s.inprogress)).stage k = .absent := by
  obtain ⟨hinprogress', hpending'⟩ := finish_inprogress clk s cmd (ofKey cmd.key s.inprogress)
  rw [stage_absent]
  · cases hresult : cmd.result with
    | failed reason =>
      rw [finish_cache_failed clk s _ hresult]
      exact hcached
    | successful result =>
      intro hk
      obtain hk | hk := (finish_cache_successful clk s _ hresult).2 k hk
      · exact hcached hk
      · exact hkey hk.symm
  · rw [hinprogress']
    exact fun hk => hin (mem_keys_exceptKey.1 hk).1
  · rw [hpending']
    exact hpending

/-- The result of a key moves this key, and others only by the room it needs and by the worker it
frees. -/
theorem keyMoves_onResizeResult (hp : Protocol workers [] s) {i : Nat} {cmd : ResizeResult}
    (hcmd : s.env.resizeResults[i]? = some cmd)
    (hp' : Protocol workers []
      (ListWorld.onResizeResult clk { s with env := s.env.deliverResult i } cmd)) :
    KeyMoves s.freeWorkers s.env.resizeResults k (.resizeResult i) (s.stage k)
      ((ListWorld.onResizeResult clk { s with env := s.env.deliverResult i } cmd).stage k) := by
  have hp₁ := hp.deliverResult hcmd
  have hp₂ := hp₁.tryInitiate clk
  have hwaits := waits_tryInitiate clk
    (pushFreeWorker { s with env := s.env.deliverResult i } cmd.worker) k
  have hcache := (dispatched_tryInitiate clk
    (pushFreeWorker { s with env := s.env.deliverResult i } cmd.worker)).cache
  have hkeep := inprogress_tryInitiate (k := k) clk
    (pushFreeWorker { s with env := s.env.deliverResult i } cmd.worker)
  rw [ListWorld.onResizeResult] at hp' ⊢
  generalize ListWorld.tryInitiate clk
    (pushFreeWorker { s with env := s.env.deliverResult i } cmd.worker) = s₂ at *
  have hcache : s₂.cache = s.cache := hcache
  obtain ⟨hinprogress, hpending⟩ := finish_inprogress clk s₂ cmd (ofKey cmd.key s₂.inprogress)
  by_cases hkey : cmd.key = k
  · subst hkey
    rw [hp.stage_inprogress ((hp₁.inprogress cmd.key).2 (by simp))]
    exact keyMoves_finish_self hp₂ _ hcmd
  have hin' : k ∈ keys s₂.inprogress →
      k ∈ keys ((s₂.extract cmd.key).finish clk cmd (ofKey cmd.key s₂.inprogress)).inprogress := by
    intro hk
    rw [hinprogress]
    exact mem_keys_exceptKey.2 ⟨hk, Ne.symm hkey⟩
  by_cases hcached : k ∈ keys s.cache
  · rw [stage_cached hcached]
    exact keyMoves_finish_cached hp₂ _ hcmd hkey (hcache ▸ hcached)
  by_cases hin : k ∈ keys s.inprogress
  · rw [hp.stage_inprogress hin, hp'.stage_inprogress (hin' (hkeep hin))]
    exact .stay _ _
  by_cases hpend : k ∈ keys s.pending
  · rw [hp.stage_pending hpend]
    rcases hwaits.2 (.inr hpend) with hk | hk
    · rw [hp'.stage_inprogress (hin' hk)]
      exact .dispatch hcmd hkey
    · rw [← hpending] at hk
      rw [hp'.stage_pending hk]
      exact .stay _ _
  · have hnone : k ∉ keys s₂.inprogress ∧ k ∉ keys s₂.pending :=
      not_or.1 fun hk => (hwaits.1 hk).elim hin hpend
    rw [stage_absent hcached hin hpend,
      stage_finish_absent hkey (hcache ▸ hcached) hnone.1 hnone.2]
    exact .stay _ _

/-- Where only the cache loses keys, those leave it. -/
theorem keyMoves_cache (hp : Protocol workers [] s) {a : World.Action}
    (hin : s'.inprogress = s.inprogress) (hpending : s'.pending = s.pending)
    (hsub : keys s'.cache ⊆ keys s.cache)
    (hmove : KeyMoves s.freeWorkers s.env.resizeResults k a .cached .absent) :
    KeyMoves s.freeWorkers s.env.resizeResults k a (s.stage k) (s'.stage k) := by
  by_cases hcached : k ∈ keys s.cache
  · rw [stage_cached hcached]
    by_cases hkept : k ∈ keys s'.cache
    · rw [stage_cached hkept]
      exact .stay _ _
    · rw [stage_absent hkept (hin ▸ hp.cache_inprogress k hcached)
        (hpending ▸ hp.cache_pending k hcached)]
      exact hmove
  · have hsame : s'.stage k = s.stage k :=
      stage_congr (iff_of_false (fun hk => hcached (hsub hk)) hcached) (hin ▸ Iff.rfl)
        (hpending ▸ Iff.rfl)
    rw [hsame]
    exact .stay _ _

/-- At a sweep of the pending requests a pending key may become absent, and no other key moves. -/
theorem keyMoves_onCheckPendingRequests (hp : Protocol workers [] s) :
    KeyMoves s.freeWorkers s.env.resizeResults k .checkPendingRequests (s.stage k)
      ((s.onCheckPendingRequests clk).stage k) := by
  have hsub : keys (s.onCheckPendingRequests clk).pending ⊆ keys s.pending :=
    ((List.dropWhile_sublist _).map _).subset
  by_cases hpending : k ∈ keys s.pending
  · rw [hp.stage_pending hpending]
    by_cases hkept : k ∈ keys (s.onCheckPendingRequests clk).pending
    · have hp' : Protocol workers [] (s.onCheckPendingRequests clk) := hp.onCheckPendingRequests
      rw [hp'.stage_pending hkept]
      exact .stay _ _
    · have habsent : (s.onCheckPendingRequests clk).stage k = .absent :=
        stage_absent (fun hcache => hp.cache_pending k hcache hpending)
          (hp.pending_inprogress k hpending) hkept
      rw [habsent]
      exact .timeOut
  · have hsame : (s.onCheckPendingRequests clk).stage k = s.stage k :=
      stage_congr Iff.rfl Iff.rfl (iff_of_false (fun hk => hpending (hsub hk)) hpending)
    rw [hsame]
    exact .stay _ _

/-- Every action moves every key as it may. -/
theorem keyMoves_next (clk : Clock) (hs : s.InOrder workers) (a : World.Action)
    (k : ResizeRequestKey) :
    KeyMoves s.freeWorkers s.env.resizeResults k a (s.stage k) ((s.next clk a).stage k) := by
  have hp := hs.protocol
  have hp' : Protocol workers [] (s.next clk a) := (hs.next a).protocol
  cases a with
  | resizeRequest keepAlive image targetFormat params =>
    exact keyMoves_onResizeRequest (s := { s with env := s.env.receive _ _ })
      (hp.withEnv _ rfl rfl) hs.idle _ rfl hp'
  | deleteCacheRequest keepAlive token envToken =>
    rw [ListWorld.next]
    obtain ⟨htoken, heq⟩ | ⟨-, text, heq⟩ := onDeleteCacheRequest_cases _ envToken _ token <;>
      rw [heq]
    · exact keyMoves_cache hp rfl rfl (List.nil_subset _) (.delete htoken)
    · exact .stay _ _
  | transform i result => rw [ListWorld.next]; split <;> exact .stay _ _
  | resizeResult i =>
    rw [ListWorld.next] at hp' ⊢
    split
    case h_1 cmd hcmd =>
      simp only [hcmd] at hp'
      exact keyMoves_onResizeResult hp hcmd hp'
    case h_2 => exact .stay _ _
  | negativeDeleteCacheResponse i => rw [ListWorld.next]; split <;> exact .stay _ _
  | clearCache =>
    exact keyMoves_cache hp rfl rfl ((List.dropWhile_sublist _).map _).subset .expire
  | checkPendingRequests => exact keyMoves_onCheckPendingRequests hp

/-- After the result of a key no request for it waits. -/
theorem waiting_onResizeResult (hs : s.InOrder workers) {i : Nat} {cmd : ResizeResult}
    (hcmd : s.env.resizeResults[i]? = some cmd) :
    (s.next clk (.resizeResult i)).waiting cmd.key = [] := by
  have hp₂ := (hs.protocol.deliverResult hcmd).tryInitiate clk
  have hnext : s.next clk (.resizeResult i) =
      ListWorld.onResizeResult clk { s with env := s.env.deliverResult i } cmd := by
    simp only [ListWorld.next, hcmd]
  obtain ⟨hinprogress, hpending⟩ := finish_inprogress clk (ListWorld.tryInitiate clk
    (pushFreeWorker { s with env := s.env.deliverResult i } cmd.worker)) cmd (ofKey cmd.key
      (ListWorld.tryInitiate clk
        (pushFreeWorker { s with env := s.env.deliverResult i } cmd.worker)).inprogress)
  refine not_not.1 fun hne => ?_
  rw [← ne_eq, waiting_ne_nil, hnext, ListWorld.onResizeResult, hinprogress, hpending] at hne
  rcases hne with hk | hk
  · exact (mem_keys_exceptKey.1 hk).2 rfl
  · exact hp₂.pending_inprogress _ hk ((hp₂.inprogress cmd.key).2 (by simp))

/-- After the result of a key all requests received for it are answered. -/
theorem answeredFor_onResizeResult (hs : s.InOrder workers) {i : Nat} {cmd : ResizeResult}
    (hcmd : s.env.resizeResults[i]? = some cmd) :
    (s.next clk (.resizeResult i)).env.answeredFor cmd.key =
      (s.next clk (.resizeResult i)).env.receivedFor cmd.key := by
  have hs' : (s.next clk (.resizeResult i)).InOrder workers := hs.next _
  have hfifo := hs'.requests.fifo cmd.key
  rw [waiting_onResizeResult hs hcmd, List.append_nil] at hfifo
  simpa [handles] using hfifo

end ListWorld

namespace World

variable {clk : Clock} {workers : List Mbox} {w : World} {s : ListWorld}

/-- The stage of a key. -/
def stage (w : World) (k : ResizeRequestKey) : Stage :=
  if k ∈ w.cachedKeys then .cached
  else if k ∈ w.inprogressKeys then .inprogress
  else if k ∈ w.pendingKeys then .pending
  else .absent

/-- The stage of a key in the world is its stage over lists. -/
theorem Refines.stage (h : w.Refines s) (k : ResizeRequestKey) : w.stage k = s.stage k := by
  rw [World.stage, h.cachedKeys, h.inprogressKeys, h.pendingKeys]
  rfl

/-- How keys move from here. -/
structure KeyLifeCycle (clk : Clock) (w : World) : Prop where
  /-- Every action moves every key along the automaton. -/
  moves : ∀ a, ∃ w', step clk w a = .ok w' ∧ ∀ k,
    KeyMoves w.manager.freeWorkers w.env.resizeResults k a (w.stage k) (w'.stage k)
  /-- When the result of a key arrives all requests received for it are answered. -/
  answers : ∀ i cmd w', w.env.resizeResults[i]? = some cmd →
    step clk w (.resizeResult i) = .ok w' → ∀ req, (req, cmd.key) ∈ w'.env.received →
      req ∈ w'.env.answered.map Prod.fst

/-- In every reachable state every action moves every key from its stage to the next one as
`KeyMoves` says, and a result answers all requests for its key. -/
theorem key_life_cycle (clk : Clock) (workers : List Mbox) (actions : List Action) :
    ∃ w, run (step clk) (init workers) actions = .ok w ∧ KeyLifeCycle clk w := by
  obtain ⟨w, s, hw, h, hs⟩ := run_inOrder clk workers actions
  refine ⟨w, hw, ?_, ?_⟩
  · intro a
    obtain ⟨w', hw', h'⟩ := step_refines clk h hs.protocol a
    refine ⟨w', hw', fun k => ?_⟩
    rw [h.stage, h'.stage, h.freeWorkers, h.env]
    exact ListWorld.keyMoves_next clk hs a k
  · intro i cmd w' hcmd hstep req hreq
    obtain ⟨w'', hw'', h'⟩ := step_refines clk h hs.protocol (.resizeResult i)
    cases hstep.symm.trans hw''
    rw [h.env] at hcmd
    rw [h'.env] at hreq ⊢
    have hall : (s.next clk (.resizeResult i)).env.answeredFor cmd.key =
        (s.next clk (.resizeResult i)).env.receivedFor cmd.key :=
      ListWorld.answeredFor_onResizeResult hs hcmd
    have hmem := Environment.mem_receivedFor.2 hreq
    rw [← hall] at hmem
    exact List.mem_of_mem_filter hmem

end World

end Shrimp
