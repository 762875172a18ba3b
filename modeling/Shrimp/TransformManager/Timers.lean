import Shrimp.TransformManager.Sweeps

/-!
# How long anything is kept

The sweeps bound the age of what they leave, and the timers of `so_evt_start` bound the time between
two sweeps. `waits_bounded` puts both together: in a run whose timers are late by no more than
`late`, a pending request waits for the longest pending time, one period of its timer and `late` at
most, and an image that nobody asks for stays in the cache for its lifetime, one period of the other
timer and `late`.
-/

namespace Shrimp

open Execution

/-- `clear_cache_period`, one minute. -/
def clearCachePeriod : TimePoint := 60 * 10 ^ 9

/-- `check_pending_period`, 5 seconds. -/
def checkPendingPeriod : TimePoint := 5 * 10 ^ 9

/-- A signal sent by `send_periodic`. -/
structure PeriodicSignal where
  signal : World.Action
  pause : TimePoint
  period : TimePoint
deriving DecidableEq, Repr

/-- `so_evt_start`. -/
def soEvtStart : List PeriodicSignal :=
  [⟨.clearCache, clearCachePeriod, clearCachePeriod⟩,
    ⟨.checkPendingRequests, checkPendingPeriod, checkPendingPeriod⟩]

namespace ListWorld

variable {clk : Clock} {workers : List Mbox} {s : ListWorld}

/-- The clock is read, and what the cache got is of that time. -/
theorem fresh_onResizeResult (hclock : Monotone clk) (s : ListWorld) (cmd : ResizeResult) :
    s.env.reads ≤ (s.onResizeResult clk cmd).env.reads ∧
      ∀ e ∈ (s.onResizeResult clk cmd).cache, e ∈ s.cache ∨ clk s.env.reads ≤ e.time := by
  have hreads : s.env.reads ≤ ((s.pushFreeWorker cmd.worker).tryInitiate clk).env.reads :=
    (sublist_tryInitiate clk (s.pushFreeWorker cmd.worker)).2
  have hcache : ((s.pushFreeWorker cmd.worker).tryInitiate clk).cache = s.cache :=
    (dispatched_tryInitiate clk (s.pushFreeWorker cmd.worker)).cache
  cases hresult : cmd.result with
  | failed result =>
    simp only [ListWorld.onResizeResult, ListWorld.finish, hresult]
    exact ⟨hreads, fun e he => .inl (hcache ▸ he)⟩
  | successful result =>
    simp only [ListWorld.onResizeResult, ListWorld.finish, hresult]
    refine ⟨hreads.trans (Nat.le_succ _), fun e he => ?_⟩
    obtain he | he := List.mem_append.1 ((evict_suffix _ _).sublist.subset he)
    · exact .inl (hcache ▸ he)
    · cases List.mem_singleton.1 he
      exact .inr (hclock hreads)

/-- A request for an image turns no clock back, and the image it finds gets the time it reads. -/
theorem fresh_onResizeRequest (clk : Clock) (s : ListWorld) (req : RequestHandle)
    (key : ResizeRequestKey) :
    s.env.reads ≤ (s.onResizeRequest clk req key).env.reads ∧
      ∀ e ∈ (s.onResizeRequest clk req key).cache, e ∈ s.cache ∨ clk s.env.reads ≤ e.time := by
  obtain ⟨e, -, -, heq⟩ | ⟨-, -, heq⟩ | ⟨-, -, -, heq⟩ | ⟨-, -, -, -, heq⟩ |
    ⟨-, -, -, -, heq⟩ := onResizeRequest_cases clk s req key <;> rw [heq]
  · refine ⟨Nat.le_succ _, fun d hd => ?_⟩
    obtain hd | hd := List.mem_append.1 hd
    · exact .inl (List.mem_of_mem_filter hd)
    · cases List.mem_singleton.1 hd
      exact .inr le_rfl
  · exact ⟨Nat.le_succ _, fun d hd => .inl hd⟩
  · exact ⟨Nat.le_succ _, fun d hd => .inl hd⟩
  · have hreads := (sublist_tryInitiate clk (s.joinPending clk req key)).2
    refine ⟨(Nat.le_succ _).trans hreads, fun d hd => .inl ?_⟩
    rwa [(dispatched_tryInitiate clk _).cache] at hd
  · exact ⟨le_rfl, fun d hd => .inl hd⟩

/-- No action turns the clock back, and an image in the cache that was not there before has a time
the action read. -/
theorem fresh_next (hclock : Monotone clk) (s : ListWorld) (a : World.Action) :
    s.env.reads ≤ (s.next clk a).env.reads ∧
      ∀ e ∈ (s.next clk a).cache, e ∈ s.cache ∨ clk s.env.reads ≤ e.time := by
  cases a with
  | resizeRequest keepAlive image targetFormat params =>
    exact fresh_onResizeRequest clk { s with env := s.env.receive _ _ } _ _
  | deleteCacheRequest keepAlive token envToken =>
    rw [ListWorld.next]
    obtain ⟨-, heq⟩ | ⟨-, text, heq⟩ := onDeleteCacheRequest_cases _ envToken _ token <;> rw [heq]
    · exact ⟨le_rfl, fun e he => absurd he List.not_mem_nil⟩
    · exact ⟨le_rfl, fun e he => .inl he⟩
  | transform i result =>
    rw [ListWorld.next]
    split <;> exact ⟨le_rfl, fun e he => .inl he⟩
  | resizeResult i =>
    rw [ListWorld.next]
    split
    case h_1 cmd hcmd =>
      exact fresh_onResizeResult hclock { s with env := s.env.deliverResult i } cmd
    case h_2 => exact ⟨le_rfl, fun e he => .inl he⟩
  | negativeDeleteCacheResponse i =>
    rw [ListWorld.next]
    split <;> exact ⟨le_rfl, fun e he => .inl he⟩
  | clearCache =>
    exact ⟨Nat.le_succ _, fun e he => .inl ((List.dropWhile_sublist _).subset he)⟩
  | checkPendingRequests => exact ⟨Nat.le_succ _, fun e he => .inl he⟩

/-- A pending request that was not there before has a time the action read. -/
theorem young_pending_next (clk : Clock) (s : ListWorld) (a : World.Action) :
    ∀ e ∈ (s.next clk a).pending, e ∈ s.pending ∨ clk s.env.reads ≤ e.time := by
  intro e he
  obtain hold | ⟨keepAlive, path, targetFormat, params, -, rfl⟩ := mem_pending_next clk s a he
  · exact .inl hold
  · exact .inr le_rfl

end ListWorld

/-- At the time `t` no entry was older than `lifetime`. -/
def Young {V : Type} (t lifetime : TimePoint) (l : List (Entry ResizeRequestKey V)) : Prop :=
  ∀ e ∈ l, t - e.time ≤ lifetime

/-- What was young at the time `t`, and what came later, was. -/
theorem Young.renew {V : Type} {t now lifetime : TimePoint}
    {l l' : List (Entry ResizeRequestKey V)} (h : Young t lifetime l) (hlifetime : 0 ≤ lifetime)
    (hnow : t ≤ now) (hnew : ∀ e ∈ l', e ∈ l ∨ now ≤ e.time) : Young t lifetime l' := by
  intro e he
  obtain hold | hlate := hnew e he
  · exact h e hold
  · exact (Int.sub_nonpos_of_le (hnow.trans hlate)).trans hlifetime

/-- How old the entries are that were young at the time `t`. -/
theorem Young.age_le {V : Type} {t now lifetime passed : TimePoint}
    {l : List (Entry ResizeRequestKey V)} (h : Young t lifetime l) (hnow : now ≤ t + passed) :
    ∀ e ∈ l, now - e.time ≤ lifetime + passed := by
  intro e he
  have hage := h e he
  have hsum (a b c d f : Int) (h₁ : a - b ≤ c) (h₂ : d ≤ a + f) : d - b ≤ c + f := by omega
  exact hsum t e.time lifetime now passed hage hnow

namespace ListWorld

variable {clk : Clock} {s : ListWorld} {t lifetime : TimePoint}

/-- Lists that only get entries of the time of their action stay young over a run. -/
theorem young_foldl {V : Type} (entries : ListWorld → List (Entry ResizeRequestKey V))
    (hclock : Monotone clk) (hlifetime : 0 ≤ lifetime)
    (hnew : ∀ s a, ∀ e ∈ entries (s.next clk a), e ∈ entries s ∨ clk s.env.reads ≤ e.time)
    (hpast : t ≤ clk s.env.reads) (h : Young t lifetime (entries s))
    (actions : List World.Action) :
    Young t lifetime (entries (actions.foldl (ListWorld.next clk) s)) :=
  (foldl_invariant (fun s => t ≤ clk s.env.reads ∧ Young t lifetime (entries s))
    (fun s a ⟨hpast, h⟩ => ⟨hpast.trans (hclock (fresh_next hclock s a).1),
      h.renew hlifetime hpast (hnew s a)⟩) actions s ⟨hpast, h⟩).2

end ListWorld

namespace World

variable {clk : Clock} {workers : List Mbox} {late : TimePoint} {actions : List Action} {w : World}

/-- In the state `w` after `actions` the pause of a timer or its period is not yet over since the
start or since one of its ticks, or only since `late`. -/
def OnTime (clk : Clock) (workers : List Mbox) (late : TimePoint) (actions : List Action)
    (w : World) (timer : PeriodicSignal) : Prop :=
  clk w.env.reads ≤ clk 0 + (timer.pause + late) ∨
    ∃ before after w₁, actions = before ++ timer.signal :: after ∧
      run (step clk) (init workers) before = .ok w₁ ∧
      clk w.env.reads ≤ clk w₁.env.reads + (timer.period + late)

/-- How old the entries are after `actions`. -/
structure WaitsBounded (clk : Clock) (workers : List Mbox) (late : TimePoint)
    (actions : List Action) (w : World) : Prop where
  /-- A request that waits for a worker arrived not longer ago than this. -/
  pending : ∀ e ∈ w.manager.pendingRequests.toList, QueuedAt clk workers actions e ∧
    clk w.env.reads - e.time ≤ maxPendingTime + (checkPendingPeriod + late)
  /-- An image in the cache was stored or asked for not longer ago than this. -/
  cached : ∀ e ∈ w.manager.transformedCache.toList,
    LastAccess clk workers actions e.key e.time ∧
    clk w.env.reads - e.time ≤ maxCacheLifetime + (clearCachePeriod + late)

/-- What a list holds that a signal clears of what is older than `lifetime`. -/
theorem age_le_of_onTime {V : Type} (entries : ListWorld → List (Entry ResizeRequestKey V))
    (hclock : Monotone clk) {lifetime : TimePoint} (hlifetime : 0 ≤ lifetime)
    (hnew : ∀ s a, ∀ e ∈ entries (s.next clk a), e ∈ entries s ∨ clk s.env.reads ≤ e.time)
    (hinit : entries (.init workers) = []) {timer : PeriodicSignal}
    (hpause : timer.pause = timer.period)
    (hsweep : ∀ s : ListWorld, s.Chronology clk →
      Young (clk s.env.reads) lifetime (entries (s.next clk timer.signal)))
    (hrun : run (step clk) (init workers) actions = .ok w)
    (htimer : OnTime clk workers late actions w timer) :
    ∀ e ∈ entries (actions.foldl (ListWorld.next clk) (.init workers)),
      clk w.env.reads - e.time ≤ lifetime + (timer.period + late) := by
  obtain hstart | ⟨before, after, w₁, rfl, hbefore, hnow⟩ := htimer
  · have hyoung : Young (clk 0) lifetime (entries (.init workers)) := by
      rw [hinit]
      exact fun e he => absurd he List.not_mem_nil
    exact (ListWorld.young_foldl entries hclock hlifetime hnew le_rfl hyoung actions).age_le
      (hpause ▸ hstart)
  · have h₁ := refines_of_run hbefore
    have hchronology := ListWorld.chronology_foldl hclock workers before
    rw [h₁.env] at hnow
    rw [List.foldl_append, List.foldl_cons]
    exact (ListWorld.young_foldl entries hclock hlifetime hnew
      (hclock (ListWorld.fresh_next hclock _ timer.signal).1) (hsweep _ hchronology) after).age_le
      hnow

/-- In a run with a clock that never runs backwards and with timers that are late by `late` at most
no request is pending and no image is cached for much longer than the sweeps allow. -/
theorem waits_bounded (clk : Clock) (hclock : Monotone clk) (workers : List Mbox) (late : TimePoint)
    (actions : List Action) (w : World) (hrun : run (step clk) (init workers) actions = .ok w)
    (htimers : ∀ timer ∈ soEvtStart, OnTime clk workers late actions w timer) :
    WaitsBounded clk workers late actions w := by
  have h := refines_of_run hrun
  have hclear := htimers ⟨.clearCache, clearCachePeriod, clearCachePeriod⟩ (by simp [soEvtStart])
  have hcheck := htimers ⟨.checkPendingRequests, checkPendingPeriod, checkPendingPeriod⟩
    (by simp [soEvtStart])
  refine ⟨fun e he => ⟨queuedAt_of_run hrun he, ?_⟩, fun e he => ⟨lastAccess_of_run hrun he, ?_⟩⟩
  · rw [LinkedIndex.RefinesWith.toList_eq h.pending] at he
    obtain ⟨d, hd, rfl⟩ := List.mem_map.1 he
    refine age_le_of_onTime ListWorld.pending hclock (by decide)
      (ListWorld.young_pending_next clk) rfl rfl ?_ hrun hcheck d hd
    intro s hs e he
    rw [ListWorld.next, (pending_sweep_lists hs).2] at he
    exact of_decide_eq_true (List.mem_filter.1 he).2
  · rw [LinkedIndex.RefinesWith.toList_eq h.cache] at he
    refine age_le_of_onTime ListWorld.cache hclock (by decide)
      (fun s a => (ListWorld.fresh_next hclock s a).2) rfl rfl ?_ hrun hclear e he
    intro s hs e he
    have hleft : (s.onClearCache clk).cache =
        s.cache.filter fun e => clk s.env.reads - e.time ≤ maxCacheLifetime := by
      show List.dropWhile (expired (clk _ - maxCacheLifetime)) _ = _
      rw [dropWhile_eq_filter (expired_pairwise hs.cache.1 _),
        List.filter_congr fun e _ => not_expired_eq _ _ e]
    rw [ListWorld.next, hleft] at he
    exact of_decide_eq_true (List.mem_filter.1 he).2

/-- With one worker an image is cached, and found in the cache after the timer of the pending
requests ticked; a request for a third key waits while the worker makes a second image. The clock
shows two seconds more at each reading. -/
theorem waits_bounded_three_keys : ∃ w, ∃ before : List Action,
    run (step fun n => 2000000000 * n) (init [⟨0⟩]) (before ++ [.checkPendingRequests,
      .resizeRequest true [47] .png ⟨.width, 100, by decide⟩]) = .ok w ∧
    w.cachedKeys.map (·.path) = [[47]] ∧ w.pendingKeys.map (·.path) = [[49]] ∧
    WaitsBounded (fun n => 2000000000 * n) [⟨0⟩] 0 (before ++ [.checkPendingRequests,
      .resizeRequest true [47] .png ⟨.width, 100, by decide⟩]) w := by
  let before : List Action := [.resizeRequest true [47] .png ⟨.width, 100, by decide⟩,
    .transform 0 (.successful ⟨⟨⟨0, 1⟩, 0⟩, 0, 0⟩), .resizeResult 0,
    .resizeRequest true [48] .png ⟨.width, 100, by decide⟩,
    .resizeRequest true [49] .png ⟨.width, 100, by decide⟩]
  obtain ⟨w₁, hw₁, h₁, -⟩ := run_refines (fun n => 2000000000 * n) [⟨0⟩] before
  obtain ⟨w, hw, h, -⟩ := run_refines (fun n => 2000000000 * n) [⟨0⟩]
    (before ++ [.checkPendingRequests, .resizeRequest true [47] .png ⟨.width, 100, by decide⟩])
  refine ⟨w, before, hw, ?_, ?_, waits_bounded (fun n => 2000000000 * n)
    (monotone_mul (by decide)) [⟨0⟩] 0 _ w hw ?_⟩
  · rw [h.cachedKeys]
    decide +kernel
  · rw [h.pendingKeys]
    decide +kernel
  · intro timer htimer
    rcases List.mem_cons.1 htimer with rfl | htimer
    · -- The timer of the cache has not ticked yet.
      refine .inl ?_
      rw [h.env]
      decide +kernel
    · cases List.mem_singleton.1 htimer
      refine .inr ⟨before, _, w₁, rfl, hw₁, ?_⟩
      rw [h.env, h₁.env]
      decide +kernel

end World

end Shrimp
