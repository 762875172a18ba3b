import Shrimp.TransformManager.Answers

/-!
# The dispatch loop

`try_initiate_pending_requests_processing` hands the keys that wait longest to the free workers.
`dispatch_tryInitiate` says which keys these are and where their requests go, over lists;
`dispatch_complete` says it of the loop of the code, in the two places where it is called.
-/

namespace Shrimp

open Execution

/-- The keys of the entries of all other keys are all other keys. -/
theorem keys_exceptKey {V : Type} (k : ResizeRequestKey) (l : List (Entry ResizeRequestKey V)) :
    keys (exceptKey k l) = (keys l).filter (· ≠ k) :=
  (List.filter_map (f := fun e : Entry ResizeRequestKey V => e.key) (p := (· ≠ k))).symm

/-- The first key comes first, and then those of the other entries. -/
theorem eraseDups_keys_cons {V : Type} (e : Entry ResizeRequestKey V)
    (l : List (Entry ResizeRequestKey V)) :
    (keys (e :: l)).eraseDups = e.key :: (keys (exceptKey e.key (e :: l))).eraseDups := by
  rw [keys_exceptKey, keys, List.map_cons, List.eraseDups_cons, List.filter_cons_of_neg (by simp)]
  congr 2
  refine List.filter_congr ?_
  intro k _
  by_cases hk : k = e.key <;> simp [hk]

/-- A list without its duplicates has none. -/
theorem nodup_eraseDups {α : Type} [DecidableEq α] : ∀ l : List α, l.eraseDups.Nodup
  | [] => List.nodup_nil
  | a :: l => by
    rw [List.eraseDups_cons, List.nodup_cons]
    refine ⟨fun hmem => ?_, nodup_eraseDups _⟩
    have := (List.mem_filter.1 (List.mem_eraseDups.1 hmem)).2
    simp at this
termination_by l => l.length
decreasing_by exact Nat.lt_succ_of_le (List.length_filter_le _ _)

/-- Removing repetitions leaves as many elements as there are different ones. -/
theorem length_eraseDups {α : Type} [DecidableEq α] (l : List α) :
    l.eraseDups.length = l.toFinset.card := by
  rw [← List.toFinset_card_of_nodup (nodup_eraseDups l)]
  congr 1
  ext a
  rw [List.mem_toFinset, List.mem_toFinset, List.mem_eraseDups]

namespace ListWorld

variable {clk : Clock} {workers : List Mbox} {finishing : List ResizeRequestKey} {s : ListWorld}

/-- The keys `ks` go to as many free workers, the top of the stack first, and their requests into
progress. -/
structure Dispatches (s s' : ListWorld) (ks : List ResizeRequestKey) : Prop where
  jobs : s'.env.transformerRequests =
    s.env.transformerRequests ++ List.zipWith Transformer.ResizeRequest.mk s.freeWorkers ks
  freeWorkers : s'.freeWorkers = s.freeWorkers.drop ks.length
  pending : s'.pending = s.pending.filter fun e => e.key ∉ ks
  moved : ∃ new, s'.inprogress = s.inprogress ++ new ∧ ∀ e ∈ new, e.key ∈ ks

/-- To dispatch nothing changes nothing. -/
theorem Dispatches.nil (s : ListWorld) : Dispatches s s [] where
  jobs := by rw [List.zipWith_nil_right, List.append_nil]
  freeWorkers := rfl
  pending := by simp
  moved := ⟨[], (List.append_nil _).symm, fun _ h => absurd h List.not_mem_nil⟩

/-- A first key goes before the others. -/
theorem Dispatches.cons {s' : ListWorld} {worker : Mbox} {freeWorkers : List Mbox}
    {e : Entry ResizeRequestKey RequestHandle}
    {ks : List ResizeRequestKey} (hfree : s.freeWorkers = worker :: freeWorkers)
    (heq : s.initiateNext clk = { s with
        pending := exceptKey e.key s.pending
        inprogress := s.inprogress ++ restamp clk s.env.reads (ofKey e.key s.pending)
        freeWorkers
        env := (s.env.tick (ofKey e.key s.pending).length).sendJob worker e.key })
    (h : Dispatches (s.initiateNext clk) s' ks) : Dispatches s s' (e.key :: ks) := by
  rw [heq] at h
  obtain ⟨new, hnew, hks⟩ := h.moved
  refine ⟨?_, ?_, ?_, restamp clk s.env.reads (ofKey e.key s.pending) ++ new, ?_, ?_⟩
  · rw [h.jobs, hfree, List.zipWith_cons_cons, List.append_cons]
    rfl
  · rw [h.freeWorkers, hfree]
    rfl
  · rw [h.pending, exceptKey, List.filter_filter]
    refine List.filter_congr ?_
    intro d _
    simp [Bool.and_comm]
  · rw [hnew, List.append_assoc]
  · intro d hd
    rcases List.mem_append.1 hd with hd | hd
    · have hkey : d.key ∈ keys (restamp clk s.env.reads (ofKey e.key s.pending)) :=
        List.mem_map_of_mem hd
      rw [keys_restamp, mem_keys_ofKey] at hkey
      rw [hkey.2]
      exact List.mem_cons_self
    · exact List.mem_cons_of_mem _ (hks d hd)

/-- The keys that go are the first distinct ones, as many as there are free workers. -/
theorem dispatch_iterate : ∀ (n : Nat) (s : ListWorld), s.freeWorkers.length = n →
    Dispatches s ((initiateNext clk)^[n] s) ((keys s.pending).eraseDups.take n)
  | 0, s, _ => .nil s
  | n + 1, s, hn => by
    rw [Function.iterate_succ_apply]
    obtain ⟨hidle, heq⟩ | ⟨worker, freeWorkers, e, pending, hfree, hpending, heq⟩ :=
      initiateNext_cases clk s
    · have hnil : s.pending = [] := by
        refine hidle.resolve_left ?_
        intro hfree
        rw [hfree] at hn
        cases hn
      rw [heq, Function.iterate_fixed heq, hnil]
      exact .nil s
    · rw [hfree, List.length_cons, Nat.add_right_cancel_iff] at hn
      have ih := dispatch_iterate n (s.initiateNext clk) (by rw [heq]; exact hn)
      have hpending' : (s.initiateNext clk).pending = exceptKey e.key s.pending := by rw [heq]
      have hcons := ih.cons hfree heq
      rwa [hpending', hpending, ← List.take_succ_cons, ← eraseDups_keys_cons, ← hpending] at hcons

/-- The dispatch loop dispatches the first of the pending keys, as many as there are free workers.
-/
theorem dispatch_tryInitiate (clk : Clock) (s : ListWorld) :
    Dispatches s (s.tryInitiate clk) ((keys s.pending).eraseDups.take s.freeWorkers.length) :=
  dispatch_iterate _ s rfl

end ListWorld

namespace World

variable {clk : Clock} {workers : List Mbox} {finishing : List ResizeRequestKey} {w : World}
  {s : ListWorld}

/-- What the dispatch loop does when it takes `w` to `w'`. -/
structure DispatchComplete (w w' : World) (ks : List ResizeRequestKey) : Prop where
  /-- The keys that go are the first ones, in the order of their longest waiting requests. -/
  keys : ks = w.pendingKeys.eraseDups.take w.manager.freeWorkers.length
  distinct : ks.Nodup
  count : ks.length = min w.manager.freeWorkers.length w.pendingKeys.toFinset.card
  jobs : w'.env.transformerRequests = w.env.transformerRequests ++
    List.zipWith Transformer.ResizeRequest.mk w.manager.freeWorkers ks
  workers : w.manager.freeWorkers.Nodup
  freeWorkers : w'.manager.freeWorkers = w.manager.freeWorkers.drop ks.length
  pending : w'.manager.pendingRequests.toList =
    w.manager.pendingRequests.toList.filter fun e => e.key ∉ ks
  dispatched : ∀ k ∈ ks, (ofKey k w'.manager.inprogressRequests.toList).map (·.value) =
    (ofKey k w.manager.pendingRequests.toList).map (·.value)
  inprogress : ∃ new, w'.manager.inprogressRequests.toList =
    w.manager.inprogressRequests.toList ++ new ∧ ∀ e ∈ new, e.key ∈ ks

/-- The requests of a key are told by their handles. -/
theorem values_ofKey (k : ResizeRequestKey) (l : RequestList) :
    (ofKey k (l.map entryOf)).map (·.value) =
      (handles (ofKey k l)).map fun req => resizeRequestOf req k := by
  rw [ofKey_map_entryOf, handles, List.map_map, List.map_map]
  refine List.map_congr_left ?_
  intro e he
  rw [← of_decide_eq_true (List.mem_filter.1 he).2]
  rfl

/-- The dispatch loop in a world that follows the lists. -/
theorem Refines.dispatchComplete (clk : Clock) (h : w.Refines s) (hp : s.Protocol workers finishing)
    (hworkers : workers.Nodup) :
    ∃ w' ks, w.tryInitiatePendingRequestsProcessing clk = .ok w' ∧ DispatchComplete w w' ks := by
  obtain ⟨w', hw', h'⟩ := h.tryInitiate clk
  have hd := ListWorld.dispatch_tryInitiate clk s
  have hwaiting := ListWorld.waiting_tryInitiate clk s
  generalize hks : (keys s.pending).eraseDups.take s.freeWorkers.length = ks at hd
  have hpending := LinkedIndex.RefinesWith.toList_eq h.pending
  have hpending' := LinkedIndex.RefinesWith.toList_eq h'.pending
  have hin := LinkedIndex.RefinesWith.toList_eq h.inprogress
  have hin' := LinkedIndex.RefinesWith.toList_eq h'.inprogress
  have hlength : ks.length = min s.freeWorkers.length (keys s.pending).toFinset.card := by
    rw [← hks, List.length_take, length_eraseDups]
  have hkeys : ∀ k ∈ ks, k ∈ keys s.pending := by
    intro k hk
    rw [← hks] at hk
    exact List.mem_eraseDups.1 (List.mem_of_mem_take hk)
  refine ⟨w', ks, hw', ⟨?_, ?_, ?_, ?_, ?_, ?_, ?_, ?_, ?_⟩⟩
  · rw [h.pendingKeys, h.freeWorkers, hks]
  · rw [← hks]
    exact (List.take_sublist _ _).nodup (nodup_eraseDups _)
  · rw [h.pendingKeys, h.freeWorkers, hlength]
  · rw [h'.env, h.env, h.freeWorkers, hd.jobs]
  · rw [h.freeWorkers]
    exact (List.nodup_append'.1 (hp.workers.nodup_iff.2 hworkers)).1
  · rw [h'.freeWorkers, h.freeWorkers, hd.freeWorkers]
  · rw [hpending', hpending, hd.pending, List.filter_map]
    rfl
  · intro k hk
    have hnone : ofKey k s.inprogress = [] :=
      ofKey_eq_nil.2 (hp.pending_inprogress k (hkeys k hk))
    have hnone' : ofKey k (s.tryInitiate clk).pending = [] := by
      refine ofKey_eq_nil.2 ?_
      rw [hd.pending]
      intro hmem
      obtain ⟨e, he, rfl⟩ := List.mem_map.1 hmem
      exact of_decide_eq_true (List.mem_filter.1 he).2 hk
    have hmoved := hwaiting k
    rw [ListWorld.waiting, ListWorld.waiting, hnone, hnone'] at hmoved
    rw [hin', hpending, values_ofKey, values_ofKey]
    simpa [handles] using congrArg (List.map fun req => resizeRequestOf req k) hmoved
  · obtain ⟨new, hnew, hnewkeys⟩ := hd.moved
    refine ⟨new.map entryOf, ?_, ?_⟩
    · rw [hin', hin, hnew, List.map_append]
    · intro e he
      obtain ⟨d, hd, rfl⟩ := List.mem_map.1 he
      exact hnewkeys d hd

/-- What `on_resize_result` does after `try_initiate_pending_requests_processing`. -/
def finishResult (clk : Clock) (cmd : ResizeResult) (w : World) : Except Fault World := do
  let atoken ← optionalValue (w.manager.inprogressRequests.findFirstForKey cmd.key)
  let (w, requests) ← w.extractInprogressRequests atoken
  match cmd.result with
  | .successful result => w.onSuccessfulResize clk cmd.key result requests
  | .failed _ => w.onFailedResize requests

/-- `on_resize_result` pushes the worker, runs the dispatch loop and goes on with the result. -/
theorem onResizeResult_eq (clk : Clock) (w : World) (cmd : ResizeResult) :
    w.onResizeResult clk cmd =
      ((w.pushFreeWorker cmd.worker).tryInitiatePendingRequestsProcessing clk >>=
        finishResult clk cmd) := rfl

/-- The two calls of `try_initiate_pending_requests_processing`: the action that makes the call when
it happens in `w`, the state of the call, and what the handler does after it. -/
inductive AtDispatch (clk : Clock) (w : World) :
    Action → World → (World → Except Fault World) → Prop
  /-- A request for a new key was stored. The handler ends with the call. -/
  | stored (keepAlive : Bool) (image : CxxString) (targetFormat : ImageFormat)
    (params : ResizeParams)
    (hcached : w.manager.transformedCache.lookup ⟨image, targetFormat, params⟩ = none)
    (hinprogress : w.manager.inprogressRequests.hasKey ⟨image, targetFormat, params⟩ = false)
    (hpending : w.manager.pendingRequests.hasKey ⟨image, targetFormat, params⟩ = false)
    (hroom : w.manager.pendingRequests.uniqueKeys < maxPendingRequests) :
    AtDispatch clk w (.resizeRequest keepAlive image targetFormat params)
      ⟨{ w.manager with
        pendingRequests := w.manager.pendingRequests.insert (clk w.env.reads)
          ⟨image, targetFormat, params⟩
          ⟨some ⟨w.env.accepted, keepAlive⟩, image, targetFormat, params⟩ },
        (w.env.receive ⟨w.env.accepted, keepAlive⟩ ⟨image, targetFormat, params⟩).tick 1⟩
      pure
  /-- The worker of a result was freed. The handler goes on to answer the requests of its key. -/
  | freed (i : Nat) (cmd : ResizeResult) (hcmd : w.env.resizeResults[i]? = some cmd) :
    AtDispatch clk w (.resizeResult i)
      (pushFreeWorker { w with env := w.env.deliverResult i } cmd.worker) (finishResult clk cmd)

/-- The action makes the call. -/
theorem AtDispatch.step {a : Action} {w₀ : World} {rest : World → Except Fault World}
    (hcall : AtDispatch clk w a w₀ rest) :
    World.step clk w a = (w₀.tryInitiatePendingRequestsProcessing clk >>= rest) := by
  cases hcall with
  | stored keepAlive image targetFormat params hcached hinprogress hpending hroom =>
    rw [bind_pure]
    simp only [World.step, onResizeRequest, ResizeRequest.requestKey, requestHandle_some, ok_bind,
      hcached, handleNotTransformedImage, hinprogress, hpending, if_pos hroom, Bool.false_eq_true,
      if_false]
    rfl
  | freed i cmd hcmd =>
    have hstep : World.step clk w (.resizeResult i) =
        onResizeResult clk { w with env := w.env.deliverResult i } cmd := by
      simp only [World.step, hcmd]
    rw [hstep, onResizeResult_eq]

/-- A key the look-up does not find is not cached. -/
theorem Refines.not_cached (h : w.Refines s) {key : ResizeRequestKey}
    (hcached : w.manager.transformedCache.lookup key = none) : key ∉ keys s.cache := by
  cases hfind : s.cache.find? (·.key = key) with
  | none => exact ListWorld.find?_key_none hfind
  | some e =>
    rw [← find?_equivalent] at hfind
    obtain ⟨tok, l₁, l₂, hlookup, -⟩ := CacheAlikeContainer.Refines.lookup_some h.cache hfind
    rw [hcached] at hlookup
    cases hlookup

/-- In every reachable state in which the dispatch loop is called it ends, and it hands the first
distinct pending keys to as many different free workers, with all their requests in the order of
their arrival, and leaves the requests of all other keys as they are. The handler goes on in the
state that the loop leaves. -/
theorem dispatch_complete (clk : Clock) (workers : List Mbox) (hworkers : workers.Nodup)
    (actions : List Action) {w w₀ : World} {a : Action} {rest : World → Except Fault World}
    (hrun : run (World.step clk) (init workers) actions = .ok w)
    (hcall : AtDispatch clk w a w₀ rest) :
    World.step clk w a = (w₀.tryInitiatePendingRequestsProcessing clk >>= rest) ∧
    ∃ w₁ ks, w₀.tryInitiatePendingRequestsProcessing clk = .ok w₁ ∧
      World.step clk w a = rest w₁ ∧ DispatchComplete w₀ w₁ ks := by
  have h := refines_of_run hrun
  have hp := (ListWorld.inOrder_foldl clk workers actions).protocol
  refine ⟨hcall.step, ?_⟩
  suffices hloop : ∃ w₁ ks, w₀.tryInitiatePendingRequestsProcessing clk = .ok w₁ ∧
      DispatchComplete w₀ w₁ ks by
    obtain ⟨w₁, ks, hw₁, hcomplete⟩ := hloop
    exact ⟨w₁, ks, hw₁, by rw [hcall.step, hw₁, ok_bind], hcomplete⟩
  cases hcall with
  | stored keepAlive image targetFormat params hcached hinprogress hpending hroom =>
    have hcached := h.not_cached hcached
    rw [h.hasKey_inprogress, decide_eq_false_iff_not] at hinprogress
    rw [h.uniqueKeys_pending] at hroom
    have h' := (h.withEnv (w.env.receive ⟨w.env.accepted, keepAlive⟩
      ⟨image, targetFormat, params⟩)).joinPending clk ⟨w.env.accepted, keepAlive⟩
        ⟨image, targetFormat, params⟩
    have hp' := (hp.withEnv (w.env.receive ⟨w.env.accepted, keepAlive⟩
      ⟨image, targetFormat, params⟩) (h.env ▸ rfl) (h.env ▸ rfl)).joinPending_new clk
        ⟨w.env.accepted, keepAlive⟩ hcached hinprogress hroom
    exact h'.dispatchComplete clk hp' hworkers
  | freed i cmd hcmd =>
    rw [h.env] at hcmd
    exact ((h.withEnv (w.env.deliverResult i)).pushFreeWorker cmd.worker).dispatchComplete clk
      (h.env ▸ hp.deliverResult hcmd) hworkers

/-- One worker is freed while two keys wait. -/
theorem dispatch_complete_two_keys : ∃ w w₀ cmd,
    run (step fun n => n) (init [⟨0⟩]) [.resizeRequest true [47] .png ⟨.width, 100, by decide⟩,
      .resizeRequest true [48] .png ⟨.width, 100, by decide⟩,
      .resizeRequest true [49] .png ⟨.width, 100, by decide⟩,
      .resizeRequest true [48] .png ⟨.width, 100, by decide⟩,
      .transform 0 (.failed ⟨"no such file"⟩)] = .ok w ∧
    World.step (fun n => n) w (.resizeResult 0) =
      (w₀.tryInitiatePendingRequestsProcessing (fun n => n) >>= finishResult (fun n => n) cmd) ∧
    ∃ w₁ ks, w₀.tryInitiatePendingRequestsProcessing (fun n => n) = .ok w₁ ∧
      World.step (fun n => n) w (.resizeResult 0) = finishResult (fun n => n) cmd w₁ ∧
      DispatchComplete w₀ w₁ ks := by
  obtain ⟨w, hw, href, -⟩ := run_refines (fun n => n) [⟨0⟩]
    [.resizeRequest true [47] .png ⟨.width, 100, by decide⟩,
      .resizeRequest true [48] .png ⟨.width, 100, by decide⟩,
      .resizeRequest true [49] .png ⟨.width, 100, by decide⟩,
      .resizeRequest true [48] .png ⟨.width, 100, by decide⟩,
      .transform 0 (.failed ⟨"no such file"⟩)]
  have hcmd : w.env.resizeResults[0]? = some ⟨⟨0⟩, ⟨[47], .png, ⟨.width, 100, by decide⟩⟩,
      .failed ⟨"no such file"⟩⟩ := by rw [href.env]; rfl
  exact ⟨w, _, _, hw, dispatch_complete (fun n => n) [⟨0⟩] (by decide) _ hw (.freed 0 _ hcmd)⟩

end World

end Shrimp
