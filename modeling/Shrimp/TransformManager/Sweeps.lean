import Shrimp.TransformManager.Chronology

/-!
# The sweeps of the two timers

`on_check_pending_requests` and `on_clear_cache` in every reachable state of a run whose clock never
runs backwards: what they remove is exactly what is too old (`pending_sweep`, `cache_sweep`), where
the time of a pending request is that of its arrival (`QueuedAt`) and the time of an image that of
its last access (`LastAccess`).
-/

namespace Shrimp.World

open Execution

variable {clk : Clock} {workers : List Mbox} {actions : List Action} {w : World} {s : ListWorld}

/-! ## The frame of a sweep -/

/-- A pass of the loop of `on_clear_cache` touches nothing but the cache. -/
theorem clearOldest_frame {timeBorder : TimePoint} {r : ForInStep World}
    (h : clearOldest timeBorder w = .ok r) : r = .done w ∨ ∃ transformedCache,
      r = .yield { w with manager := { w.manager with transformedCache } } := by
  rw [clearOldest] at h
  split at h
  · obtain ⟨oldest, -, h⟩ := bind_eq_ok.1 h
    obtain ⟨atoken, -, h⟩ := bind_eq_ok.1 h
    obtain ⟨time, -, h⟩ := bind_eq_ok.1 h
    split at h
    · obtain ⟨transformedCache, -, h⟩ := bind_eq_ok.1 h
      cases h
      exact .inr ⟨transformedCache, rfl⟩
    · cases h
      exact .inl rfl
  · cases h
    exact .inl rfl

/-- The sweep of the cache touches nothing but the cache and reads the clock once. -/
theorem onClearCache_frame {w' : World} (h : w.onClearCache clk = .ok w') :
    w' = ⟨{ w.manager with transformedCache := w'.manager.transformedCache }, w.env.tick 1⟩ := by
  obtain ⟨c, rfl⟩ : ∃ c, w' = ⟨{ w.manager with transformedCache := c }, w.env.tick 1⟩ := by
    refine loop_invariant
      (fun v => ∃ c, v = ⟨{ w.manager with transformedCache := c }, w.env.tick 1⟩) ?_ h ⟨_, rfl⟩
    rintro v r ⟨c, rfl⟩ hbody
    obtain rfl | ⟨c', rfl⟩ := clearOldest_frame hbody
    · exact ⟨_, .inl rfl, c, rfl⟩
    · exact ⟨_, .inr rfl, c', rfl⟩
  rfl

/-- A pass of the loop of `on_check_pending_requests` touches nothing but the pending requests and
the answers. -/
theorem rejectOldest_frame {timeBorder : TimePoint} {r : ForInStep World}
    (h : rejectOldest timeBorder w = .ok r) : r = .done w ∨ ∃ pendingRequests answered,
      r = .yield ⟨{ w.manager with pendingRequests }, { w.env with answered }⟩ := by
  rw [rejectOldest] at h
  split at h
  · obtain ⟨oldest, -, h⟩ := bind_eq_ok.1 h
    obtain ⟨atoken, -, h⟩ := bind_eq_ok.1 h
    obtain ⟨time, -, h⟩ := bind_eq_ok.1 h
    split at h
    · obtain ⟨value, -, h⟩ := bind_eq_ok.1 h
      obtain ⟨emptied, -, h⟩ := bind_eq_ok.1 h
      obtain ⟨key, -, h⟩ := bind_eq_ok.1 h
      obtain ⟨shown, -, h⟩ := bind_eq_ok.1 h
      obtain ⟨pendingRequests, -, h⟩ := bind_eq_ok.1 h
      obtain ⟨req, -, h⟩ := bind_eq_ok.1 h
      cases h
      exact .inr ⟨pendingRequests, _, rfl⟩
    · cases h
      exact .inl rfl
  · cases h
    exact .inl rfl

/-- The sweep of the pending requests touches nothing but these and the answers, and reads the clock
once. -/
theorem onCheckPendingRequests_frame {w' : World} (h : w.onCheckPendingRequests clk = .ok w') :
    w' = ⟨{ w.manager with pendingRequests := w'.manager.pendingRequests },
      { w.env.tick 1 with answered := w'.env.answered }⟩ := by
  obtain ⟨q, answered, rfl⟩ : ∃ q answered,
      w' = ⟨{ w.manager with pendingRequests := q }, { w.env.tick 1 with answered }⟩ := by
    refine loop_invariant (fun v => ∃ q answered,
      v = ⟨{ w.manager with pendingRequests := q }, { w.env.tick 1 with answered }⟩) ?_ h
      ⟨_, _, rfl⟩
    rintro v r ⟨q, answered, rfl⟩ hbody
    obtain rfl | ⟨q', answered', rfl⟩ := rejectOldest_frame hbody
    · exact ⟨_, .inl rfl, q, answered, rfl⟩
    · exact ⟨_, .inr rfl, q', answered', rfl⟩
  rfl

/-! ## The pending requests -/

/-- The entry was made when its request arrived in the run, and its time is that of its arrival. -/
def QueuedAt (clk : Clock) (workers : List Mbox) (actions : List Action)
    (e : Entry ResizeRequestKey ResizeRequest) : Prop :=
  ∃ before keepAlive image targetFormat params after w,
    actions = before ++ .resizeRequest keepAlive image targetFormat params :: after ∧
    run (step clk) (init workers) before = .ok w ∧
    e = ⟨⟨image, targetFormat, params⟩,
      ⟨some ⟨w.env.accepted, keepAlive⟩, image, targetFormat, params⟩, clk w.env.reads⟩

/-- Every pending request was queued at some step of the run. -/
theorem queuedAt_of_run (hrun : run (step clk) (init workers) actions = .ok w)
    {e : Entry ResizeRequestKey ResizeRequest} (he : e ∈ w.manager.pendingRequests.toList) :
    QueuedAt clk workers actions e := by
  have hnot : e ∉ (init workers).manager.pendingRequests.toList := by
    rw [LinkedIndex.RefinesWith.toList_eq (refines_init workers).pending]
    exact List.not_mem_nil
  obtain ⟨before, a, after, w₁, w₂, rfl, hbefore, hstep, hnot₁, hmem₂⟩ :=
    run_begins (P := fun w => e ∈ w.manager.pendingRequests.toList) hrun hnot he
  have h₁ := refines_of_run hbefore
  have h₂ := refines_of_run (run_concat_eq_ok.2 ⟨w₁, hbefore, hstep⟩)
  rw [List.foldl_concat] at h₂
  rw [LinkedIndex.RefinesWith.toList_eq h₁.pending] at hnot₁
  rw [LinkedIndex.RefinesWith.toList_eq h₂.pending] at hmem₂
  obtain ⟨d, hd, rfl⟩ := List.mem_map.1 hmem₂
  obtain hd | ⟨keepAlive, image, targetFormat, params, rfl, rfl⟩ :=
    ListWorld.mem_pending_next clk _ a hd
  · exact absurd (List.mem_map_of_mem hd) hnot₁
  · refine ⟨before, keepAlive, image, targetFormat, params, after, w₁, rfl, hbefore, ?_⟩
    rw [h₁.env]; rfl

/-- What `on_check_pending_requests` does when it takes `w`, the state after `actions`, to `w'`. -/
structure PendingSweep (clk : Clock) (workers : List Mbox) (actions : List Action) (w w' : World) :
    Prop where
  queued : ∀ e ∈ w.manager.pendingRequests.toList, QueuedAt clk workers actions e
  arrival : (w.manager.pendingRequests.toList.filterMap (·.value.httpReq)).Pairwise
    fun a b => a.id < b.id
  answered : w'.env.answered = w.env.answered ++
    (w.manager.pendingRequests.toList.filter fun e =>
      maxPendingTime < clk w.env.reads - e.time).filterMap fun e =>
        e.value.httpReq.map fun req => (req, do504Response req)
  timed_out : ∀ p ∈ w'.env.answered.drop w.env.answered.length,
    p.2.statusLine = .statusGatewayTimeOut
  remaining : w'.manager.pendingRequests.toList = w.manager.pendingRequests.toList.filter fun e =>
    clk w.env.reads - e.time ≤ maxPendingTime
  keys : ∀ k, w'.manager.pendingRequests.hasKey k = true ↔
    ∃ e ∈ w.manager.pendingRequests.toList, e.key = k ∧ clk w.env.reads - e.time ≤ maxPendingTime
  unique_keys : w'.manager.pendingRequests.uniqueKeys = w'.pendingKeys.toFinset.card
  others : w' = ⟨{ w.manager with pendingRequests := w'.manager.pendingRequests },
    { w.env.tick 1 with answered := w'.env.answered }⟩

/-- No handle was moved out of a waiting request. -/
theorem filterMap_httpReq (l : RequestList) :
    ((l.map entryOf).filterMap fun e => e.value.httpReq) = handles l := by
  induction l with
  | nil => rfl
  | cons e l ih => exact congrArg (e.value :: ·) ih

/-- What is older than the border is older than its lifetime. -/
theorem expired_eq {V : Type} (now lifetime : TimePoint) (e : Entry ResizeRequestKey V) :
    expired (now - lifetime) e = decide (lifetime < now - e.time) := by
  have hswap (a b c : Int) : a < b - c ↔ c < b - a := by omega
  exact decide_eq_decide.2 (hswap e.time now lifetime)

/-- What is not older than the border is within its lifetime. -/
theorem not_expired_eq {V : Type} (now lifetime : TimePoint) (e : Entry ResizeRequestKey V) :
    (!expired (now - lifetime) e) = decide (now - e.time ≤ lifetime) := by
  have hswap (a b c : Int) : ¬ a < b - c ↔ b - a ≤ c := by omega
  rw [expired, ← decide_not]
  exact decide_eq_decide.2 (hswap e.time now lifetime)

/-- What a sweep answers and what it leaves. -/
theorem pending_sweep_lists (hs : s.Chronology clk) :
    (s.onCheckPendingRequests clk).env.answered = s.env.answered ++
      ((s.pending.filter fun e => maxPendingTime < clk s.env.reads - e.time).map fun e =>
        (e.value, do504Response e.value)) ∧
    (s.onCheckPendingRequests clk).pending =
      s.pending.filter fun e => clk s.env.reads - e.time ≤ maxPendingTime := by
  have hsorted := expired_pairwise hs.pending.1 (clk s.env.reads - maxPendingTime)
  constructor
  · show _ ++ (s.pending.takeWhile (expired (clk s.env.reads - maxPendingTime))).map _ = _
    rw [takeWhile_eq_filter hsorted, List.filter_congr fun e _ => expired_eq _ _ e]
    rfl
  · show s.pending.dropWhile (expired (clk s.env.reads - maxPendingTime)) = _
    rw [dropWhile_eq_filter hsorted, List.filter_congr fun e _ => not_expired_eq _ _ e]

/-- In every reachable state of a run with a clock that never runs backwards the sweep answers
exactly the pending requests that waited for too long with 504, each once and in the order of their
arrival, and leaves all others and everything else as they are. -/
theorem pending_sweep (clk : Clock) (hclock : Monotone clk) (workers : List Mbox)
    (actions : List Action) :
    ∃ w w', run (step clk) (init workers) actions = .ok w ∧ w.onCheckPendingRequests clk = .ok w' ∧
      PendingSweep clk workers actions w w' := by
  obtain ⟨w, hw, h, -⟩ := run_refines clk workers actions
  have hs := ListWorld.chronology_foldl hclock workers actions
  have hids := (ListWorld.arrivals_foldl clk workers actions).pending
  obtain ⟨w', hw', h'⟩ := h.onCheckPendingRequests clk
  obtain ⟨hanswered, hremaining⟩ := pending_sweep_lists hs
  have hlist := LinkedIndex.RefinesWith.toList_eq h.pending
  have hlist' := LinkedIndex.RefinesWith.toList_eq h'.pending
  have hleft : w'.manager.pendingRequests.toList = w.manager.pendingRequests.toList.filter fun e =>
      clk w.env.reads - e.time ≤ maxPendingTime := by
    rw [hlist', hlist, hremaining, h.env, List.filter_map]
    rfl
  refine ⟨w, w', hw, hw', fun e he => queuedAt_of_run hw he, ?_, ?_, ?_, hleft, ?_, ?_,
    onCheckPendingRequests_frame hw'⟩
  · rw [hlist, filterMap_httpReq]
    exact List.pairwise_map.2 hids
  · rw [h'.env, h.env, hlist, hanswered, List.filter_map, ← List.map_filterMap, filterMap_httpReq,
      List.map_map]
    rfl
  · rw [h'.env, h.env, hanswered, List.drop_left]
    intro p hp
    obtain ⟨e, -, rfl⟩ := List.mem_map.1 hp
    exact do504Response_statusLine e.value
  · intro k
    rw [h'.hasKey_pending, decide_eq_true_iff, ← h'.pendingKeys, World.pendingKeys, hleft]
    simp only [Shrimp.keys, List.mem_map, List.mem_filter, decide_eq_true_iff]
    exact exists_congr fun e => by rw [and_assoc, and_comm (a := e.key = k)]
  · rw [h'.uniqueKeys_pending, h'.pendingKeys]

/-- A clock that shows the same time more at each reading. -/
theorem monotone_mul {pause : Int} (h : 0 ≤ pause) : Monotone (fun n => pause * n : Clock) :=
  fun _ _ hmn => Int.mul_le_mul_of_nonneg_left (Int.ofNat_le.2 hmn) h

/-- Three requests for two keys, the first two of which waited for too long; the clock shows 15
seconds more at each reading. -/
theorem pending_sweep_two_keys : ∃ w w',
    run (step fun n => 15000000000 * n) (init [])
      [.resizeRequest true [47] .png ⟨.width, 100, by decide⟩,
      .resizeRequest true [48] .png ⟨.width, 100, by decide⟩,
      .resizeRequest true [47] .png ⟨.width, 100, by decide⟩] = .ok w ∧
    w.onCheckPendingRequests (fun n => 15000000000 * n) = .ok w' ∧
    PendingSweep (fun n => 15000000000 * n) []
      [.resizeRequest true [47] .png ⟨.width, 100, by decide⟩,
      .resizeRequest true [48] .png ⟨.width, 100, by decide⟩,
      .resizeRequest true [47] .png ⟨.width, 100, by decide⟩] w w' :=
  pending_sweep (fun n => 15000000000 * n) (monotone_mul (by decide)) [] _

/-! ## The cache -/

/-- The action stores an image under the key, or finds one in the cache, at the time `t`. -/
inductive Accesses (clk : Clock) (w : World) (key : ResizeRequestKey) (t : TimePoint) :
    Action → Prop
  | hit {keepAlive : Bool} {image : CxxString} {targetFormat : ImageFormat}
    {params : ResizeParams} (hkey : key = ⟨image, targetFormat, params⟩)
    (hcached : key ∈ w.cachedKeys) (ht : t = clk w.env.reads) :
    Accesses clk w key t (.resizeRequest keepAlive image targetFormat params)
  | insert {i : Nat} {cmd : ResizeResult} {result : SuccessfulResize} {w₁ w₂ : World}
    {requests : List ResizeRequest} (hcmd : w.env.resizeResults[i]? = some cmd)
    (hresult : cmd.result = .successful result) (hkey : cmd.key = key)
    (hhandover : ResultHandover clk { w with env := w.env.deliverResult i } cmd w₁ w₂ requests)
    (ht : t = clk w₂.env.reads) : Accesses clk w key t (.resizeResult i)

/-- The last step of the run that stored or found an image under the key did so at the time `t`. -/
def LastAccess (clk : Clock) (workers : List Mbox) (actions : List Action) (key : ResizeRequestKey)
    (t : TimePoint) : Prop :=
  ∃ before a after w, actions = before ++ a :: after ∧
    run (step clk) (init workers) before = .ok w ∧ Accesses clk w key t a ∧
    ∀ before' a' after' w', after = before' ++ a' :: after' →
      run (step clk) (init workers) (before ++ a :: before') = .ok w' →
      ∀ t', ¬ Accesses clk w' key t' a'

/-- An image in the cache after a result is the one the result brings, or it was there before under
another key. -/
theorem mem_cache_onResizeResult (h : w.Refines s) (hp : s.Protocol workers []) {i : Nat}
    {cmd : ResizeResult} (hcmd : s.env.resizeResults[i]? = some cmd)
    {e : Entry ResizeRequestKey DatasizableBlob}
    (he : e ∈ (ListWorld.onResizeResult clk { s with env := s.env.deliverResult i } cmd).cache) :
    Accesses clk w e.key e.time (.resizeResult i) ∨
      e ∈ s.cache ∧ ∀ t, ¬ Accesses clk w e.key t (.resizeResult i) := by
  have hd := ListWorld.dispatched_tryInitiate clk
    (ListWorld.pushFreeWorker { s with env := s.env.deliverResult i } cmd.worker)
  have hcmd' : w.env.resizeResults[i]? = some cmd := h.env ▸ hcmd
  cases hresult : cmd.result with
  | failed result =>
    simp only [ListWorld.onResizeResult, ListWorld.finish, hresult] at he
    have he : e ∈ (ListWorld.tryInitiate clk _).cache := he
    rw [hd.cache] at he
    refine .inr ⟨he, ?_⟩
    intro t haccess
    cases haccess with
    | insert hcmd'' hresult' =>
      cases hcmd'.symm.trans hcmd''
      cases hresult.symm.trans hresult'
  | successful result =>
    simp only [ListWorld.onResizeResult, ListWorld.finish, hresult] at he
    obtain ⟨w₁, w₂, requests, -, hhandover, h₂⟩ := h.handover clk hp hcmd
    have hp' := protocol_deliverResult clk hp hcmd
    have hkey : cmd.key ∉ keys _ := fun hk =>
      hp'.cache_inprogress cmd.key hk ((hp'.inprogress cmd.key).2 (by simp))
    rcases List.mem_append.1 ((ListWorld.evict_suffix _ _).sublist.subset he) with he | he
    · refine .inr ⟨hd.cache ▸ he, ?_⟩
      intro t haccess
      cases haccess with
      | insert hcmd'' hresult' hkey' =>
        cases hcmd'.symm.trans hcmd''
        exact hkey (hkey' ▸ List.mem_map_of_mem he)
    · cases List.mem_singleton.1 he
      exact .inl (.insert hcmd' hresult rfl hhandover (h₂.env ▸ rfl))

/-- An image in the cache after a step has just been stored or found, or it was there before and the
step does not access its key. -/
theorem mem_cache_step (h : w.Refines s) (hs : s.InOrder workers) (a : Action)
    {e : Entry ResizeRequestKey DatasizableBlob} (he : e ∈ (s.next clk a).cache) :
    Accesses clk w e.key e.time a ∨ e ∈ s.cache ∧ ∀ t, ¬ Accesses clk w e.key t a := by
  have hp := hs.protocol
  cases a with
  | resizeRequest keepAlive image targetFormat params =>
    rw [ListWorld.next] at he
    have hmiss : (⟨image, targetFormat, params⟩ : ResizeRequestKey) ∉ keys s.cache → e ∈ s.cache →
        Accesses clk w e.key e.time (.resizeRequest keepAlive image targetFormat params) ∨
        e ∈ s.cache ∧
          ∀ t, ¬ Accesses clk w e.key t (.resizeRequest keepAlive image targetFormat params) := by
      intro hnew he
      refine .inr ⟨he, ?_⟩
      rintro t ⟨hkey, -, -⟩
      exact hnew (hkey ▸ List.mem_map_of_mem he)
    obtain ⟨d, hd, hkey, heq⟩ | ⟨hnew, -, heq⟩ | ⟨hnew, -, -, heq⟩ | ⟨hnew, -, -, -, heq⟩ |
      ⟨hnew, -, -, -, heq⟩ := ListWorld.onResizeRequest_cases clk { s with
        env := s.env.receive ⟨s.env.accepted, keepAlive⟩ ⟨image, targetFormat, params⟩ }
        ⟨s.env.accepted, keepAlive⟩ ⟨image, targetFormat, params⟩ <;> rw [heq] at he
    · rcases List.mem_append.1 he with he | he
      · obtain ⟨he, hne⟩ := List.mem_filter.1 he
        refine .inr ⟨he, ?_⟩
        rintro t ⟨hkey', -, -⟩
        exact of_decide_eq_true hne (hkey'.trans hkey.symm)
      · cases List.mem_singleton.1 he
        exact .inl (.hit hkey (h.cachedKeys ▸ List.mem_map.2 ⟨d, hd, rfl⟩) (h.env ▸ rfl))
    · exact hmiss hnew he
    · exact hmiss hnew he
    · rw [(ListWorld.dispatched_tryInitiate clk _).cache] at he
      exact hmiss hnew he
    · exact hmiss hnew he
  | deleteCacheRequest keepAlive token envToken =>
    refine .inr ⟨?_, by rintro t ⟨⟩⟩
    rw [ListWorld.next] at he
    obtain ⟨-, heq⟩ | ⟨-, text, heq⟩ := ListWorld.onDeleteCacheRequest_cases _ envToken _ token <;>
      rw [heq] at he
    · cases he
    · exact he
  | transform i result =>
    refine .inr ⟨?_, by rintro t ⟨⟩⟩
    rw [ListWorld.next] at he
    split at he <;> exact he
  | resizeResult i =>
    rw [ListWorld.next] at he
    cases hcmd : s.env.resizeResults[i]? with
    | none =>
      simp only [hcmd] at he
      refine .inr ⟨he, ?_⟩
      intro t haccess
      cases haccess with
      | insert hcmd' => rw [h.env, hcmd] at hcmd'; cases hcmd'
    | some cmd =>
      simp only [hcmd] at he
      exact mem_cache_onResizeResult h hp hcmd he
  | negativeDeleteCacheResponse i =>
    refine .inr ⟨?_, by rintro t ⟨⟩⟩
    rw [ListWorld.next] at he
    split at he <;> exact he
  | clearCache => exact .inr ⟨(List.dropWhile_sublist _).subset he, by rintro t ⟨⟩⟩
  | checkPendingRequests => exact .inr ⟨he, by rintro t ⟨⟩⟩

/-- The time of a cached image is that of the last access to its key. -/
theorem lastAccess_of_run (hrun : run (step clk) (init workers) actions = .ok w)
    {e : Entry ResizeRequestKey DatasizableBlob} (he : e ∈ w.manager.transformedCache.toList) :
    LastAccess clk workers actions e.key e.time := by
  have hnot : e ∉ (init workers).manager.transformedCache.toList := by
    rw [LinkedIndex.RefinesWith.toList_eq (refines_init workers).cache]
    exact List.not_mem_nil
  have hstep : ∀ before a after w₁ w₂, actions = before ++ a :: after →
      run (step clk) (init workers) before = .ok w₁ → step clk w₁ a = .ok w₂ →
      e ∈ w₂.manager.transformedCache.toList → Accesses clk w₁ e.key e.time a ∨
        e ∈ w₁.manager.transformedCache.toList ∧ ¬ ∃ t, Accesses clk w₁ e.key t a := by
    rintro before a after w₁ w₂ - hbefore hstep he₂
    have h₁ := refines_of_run hbefore
    have h₂ := refines_of_run (run_concat_eq_ok.2 ⟨w₁, hbefore, hstep⟩)
    rw [List.foldl_concat] at h₂
    rw [LinkedIndex.RefinesWith.toList_eq h₂.cache] at he₂
    rw [LinkedIndex.RefinesWith.toList_eq h₁.cache]
    refine (mem_cache_step h₁ (ListWorld.inOrder_foldl clk workers before) a he₂).imp_right ?_
    exact fun ⟨he₁, hnone⟩ => ⟨he₁, not_exists.2 hnone⟩
  obtain ⟨before, a, after, w₁, rfl, hbefore, haccess, hlater⟩ :=
    run_last (P := fun w => e ∈ w.manager.transformedCache.toList) hnot hstep hrun he
  exact ⟨before, a, after, w₁, rfl, hbefore, haccess,
    fun before' a' after' w' hafter hw' => not_exists.1 (hlater before' a' after' w' hafter hw')⟩

/-- What `on_clear_cache` does when it takes `w`, the state after `actions`, to `w'`. -/
structure CacheSweep (clk : Clock) (workers : List Mbox) (actions : List Action) (w w' : World) :
    Prop where
  last_access : ∀ e ∈ w.manager.transformedCache.toList,
    LastAccess clk workers actions e.key e.time
  remaining : w'.manager.transformedCache.toList =
    w.manager.transformedCache.toList.filter fun e => clk w.env.reads - e.time ≤ maxCacheLifetime
  others : w' = ⟨{ w.manager with transformedCache := w'.manager.transformedCache }, w.env.tick 1⟩

/-- In every reachable state of a run with a clock that never runs backwards the sweep removes
exactly the images whose last access is too long ago, and leaves all others and everything else as
they are. -/
theorem cache_sweep (clk : Clock) (hclock : Monotone clk) (workers : List Mbox)
    (actions : List Action) :
    ∃ w w', run (step clk) (init workers) actions = .ok w ∧ w.onClearCache clk = .ok w' ∧
      CacheSweep clk workers actions w w' := by
  obtain ⟨w, hw, h, -⟩ := run_refines clk workers actions
  have hs := ListWorld.chronology_foldl hclock workers actions
  obtain ⟨w', hw', h'⟩ := h.onClearCache clk
  refine ⟨w, w', hw, hw', fun e he => lastAccess_of_run hw he, ?_, onClearCache_frame hw'⟩
  rw [LinkedIndex.RefinesWith.toList_eq h.cache, LinkedIndex.RefinesWith.toList_eq h'.cache, h.env]
  show List.dropWhile (expired (clk _ - maxCacheLifetime)) _ = _
  rw [dropWhile_eq_filter (expired_pairwise hs.cache.1 _),
    List.filter_congr fun e _ => not_expired_eq _ _ e]

/-- Four images, the first of which is found in the cache after the others were stored. The clock
shows 15 minutes more at each reading, so that the second and the third image are too old for the
sweep that follows. -/
theorem cache_sweep_four_images : ∃ w w', ∃ actions : List Action,
    run (step fun n => 900000000000 * n) (init [⟨0⟩]) actions = .ok w ∧
    w.onClearCache (fun n => 900000000000 * n) = .ok w' ∧
    w.cachedKeys.map (·.path) = [[48], [49], [50], [47]] ∧
    w'.cachedKeys.map (·.path) = [[50], [47]] ∧
    CacheSweep (fun n => 900000000000 * n) [⟨0⟩] actions w w' := by
  let actions : List Action := [.resizeRequest true [47] .png ⟨.width, 100, by decide⟩,
    .transform 0 (.successful ⟨⟨⟨0, 1⟩, 0⟩, 0, 0⟩), .resizeResult 0,
    .resizeRequest true [48] .png ⟨.width, 100, by decide⟩,
    .transform 0 (.successful ⟨⟨⟨1, 1⟩, 0⟩, 0, 0⟩), .resizeResult 0,
    .resizeRequest true [49] .png ⟨.width, 100, by decide⟩,
    .transform 0 (.successful ⟨⟨⟨2, 1⟩, 0⟩, 0, 0⟩), .resizeResult 0,
    .resizeRequest true [50] .png ⟨.width, 100, by decide⟩,
    .transform 0 (.successful ⟨⟨⟨3, 1⟩, 0⟩, 0, 0⟩), .resizeResult 0,
    .resizeRequest true [47] .png ⟨.width, 100, by decide⟩]
  obtain ⟨w, w', hw, hw', hsweep⟩ :=
    cache_sweep (fun n => 900000000000 * n) (monotone_mul (by decide)) [⟨0⟩] actions
  have h := refines_of_run hw
  obtain ⟨v, hv, h'⟩ := h.onClearCache fun n => 900000000000 * n
  cases hw'.symm.trans hv
  refine ⟨w, w', actions, hw, hw', ?_, ?_, hsweep⟩
  · rw [h.cachedKeys]
    decide +kernel
  · rw [h'.cachedKeys]
    decide +kernel

end Shrimp.World
