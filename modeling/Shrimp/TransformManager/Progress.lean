import Shrimp.TransformManager.Answers

/-!
# Progress

How much is left to do. A key that waits costs three deliveries: its job reaches a worker, which
answers, and the result reaches the manager. Every delivery lowers the `backlog`, and nothing but an
arriving request raises it, so that `drains` can bound the deliveries of any run and say how a
server that gets no more requests comes to rest with everyone answered.
-/

namespace Shrimp

open Execution

/-! ## What is left to do -/

/-- A message in flight is delivered. -/
def Environment.delivers (env : Environment) : World.Action → Bool
  | .transform i _ => i < env.transformerRequests.length
  | .resizeResult i => i < env.resizeResults.length
  | .negativeDeleteCacheResponse i => i < env.negativeResponses.length
  | _ => false

/-- The most an action adds to the backlog. -/
def World.Action.income : World.Action → Nat
  | .resizeRequest _ _ _ _ => 3
  | .deleteCacheRequest _ _ _ => 1
  | _ => 0

/-- Without the entries of one of its keys a list has one key less. -/
theorem card_keys_exceptKey {V : Type} {e : Entry ResizeRequestKey V}
    {l : List (Entry ResizeRequestKey V)} (he : e ∈ l) :
    (keys (exceptKey e.key l)).toFinset.card + 1 = (keys l).toFinset.card := by
  have herase : (keys (exceptKey e.key l)).toFinset = (keys l).toFinset.erase e.key := by
    ext k
    rw [Finset.mem_erase, List.mem_toFinset, List.mem_toFinset, mem_keys_exceptKey, and_comm]
  rw [herase, Finset.card_erase_add_one (List.mem_toFinset.2 (List.mem_map_of_mem he))]

namespace ListWorld

variable {clk : Clock} {workers : List Mbox} {s : ListWorld}

/-- The keys that wait for a worker. -/
def pendingCount (s : ListWorld) : Nat := (keys s.pending).toFinset.card

/-- The deliveries that are due for what has arrived. -/
def backlog (s : ListWorld) : Nat :=
  3 * s.pendingCount + 2 * s.env.transformerRequests.length + s.env.resizeResults.length +
    s.env.negativeResponses.length

/-- Dispatching makes a job of a key. -/
theorem pendingCount_initiateNext (clk : Clock) (s : ListWorld) :
    (s.initiateNext clk).pendingCount + (s.initiateNext clk).env.transformerRequests.length =
      s.pendingCount + s.env.transformerRequests.length := by
  obtain ⟨-, heq⟩ | ⟨worker, freeWorkers, e, pending, -, hpending, heq⟩ :=
    initiateNext_cases clk s <;> rw [heq]
  have hcard := card_keys_exceptKey (l := s.pending) (e := e) (by simp [hpending])
  simp only [pendingCount, Environment.sendJob, Environment.tick, List.length_append,
    List.length_singleton]
  omega

/-- Dispatching makes a job of each pending key it takes. -/
theorem pendingCount_tryInitiate (clk : Clock) (s : ListWorld) :
    (s.tryInitiate clk).pendingCount + (s.tryInitiate clk).env.transformerRequests.length =
      s.pendingCount + s.env.transformerRequests.length :=
  Function.Iterate.rec (fun s' : ListWorld =>
      s'.pendingCount + s'.env.transformerRequests.length =
        s.pendingCount + s.env.transformerRequests.length) rfl
    (fun s' h => (pendingCount_initiateNext clk s').trans h) _

/-- With fewer keys pending fewer are counted. -/
theorem pendingCount_mono {s' : ListWorld} (h : keys s'.pending ⊆ keys s.pending) :
    s'.pendingCount ≤ s.pendingCount :=
  Finset.card_le_card fun _ hk => List.mem_toFinset.2 (h (List.mem_toFinset.1 hk))

/-- A job is due for two deliveries, its key was due for three. -/
theorem backlog_tryInitiate (clk : Clock) (s : ListWorld) :
    (s.tryInitiate clk).backlog ≤ s.backlog := by
  have hd := dispatched_tryInitiate clk s
  have hcount := pendingCount_tryInitiate clk s
  have hmono := pendingCount_mono hd.pending
  have hresults : (s.tryInitiate clk).env.resizeResults = s.env.resizeResults := by rw [hd.env]
  have hnegative : (s.tryInitiate clk).env.negativeResponses = s.env.negativeResponses := by
    rw [hd.env]
  rw [backlog, backlog, hresults, hnegative]
  omega

/-- One request makes one key more pending at most. -/
theorem pendingCount_joinPending (clk : Clock) (s : ListWorld) (req : RequestHandle)
    (key : ResizeRequestKey) : (s.joinPending clk req key).pendingCount ≤ s.pendingCount + 1 := by
  have hkeys : (keys (s.joinPending clk req key).pending).toFinset =
      insert key (keys s.pending).toFinset := by
    ext k
    simp [ListWorld.joinPending, eq_comm]
  rw [pendingCount, hkeys]
  exact Finset.card_insert_le _ _

/-- A request for an image makes one key more pending at most, and that one is due for three
deliveries. -/
theorem backlog_onResizeRequest (clk : Clock) (s : ListWorld) (req : RequestHandle)
    (key : ResizeRequestKey) : (s.onResizeRequest clk req key).backlog ≤ s.backlog + 3 := by
  have hjoin : (s.joinPending clk req key).backlog ≤ s.backlog + 3 := by
    have hcount := pendingCount_joinPending clk s req key
    show 3 * (s.joinPending clk req key).pendingCount + 2 * s.env.transformerRequests.length +
      s.env.resizeResults.length + s.env.negativeResponses.length ≤ s.backlog + 3
    rw [backlog]
    omega
  obtain ⟨e, -, -, heq⟩ | ⟨-, -, heq⟩ | ⟨-, -, -, heq⟩ | ⟨-, -, -, -, heq⟩ |
    ⟨-, -, -, -, heq⟩ := onResizeRequest_cases clk s req key <;> rw [heq]
  · exact Nat.le_add_right _ 3
  · exact Nat.le_add_right _ 3
  · exact hjoin
  · exact (backlog_tryInitiate clk _).trans hjoin
  · exact Nat.le_add_right _ 3

/-- The answers to a result are no messages. -/
theorem backlog_finish (s : ListWorld) (cmd : ResizeResult) (requests : RequestList) :
    ((s.extract cmd.key).finish clk cmd requests).backlog = s.backlog := by
  cases hresult : cmd.result <;> simp only [ListWorld.finish, hresult] <;> rfl

/-- Every delivery lowers the backlog, and only an arriving request raises it. -/
theorem backlog_next (clk : Clock) (s : ListWorld) (a : World.Action) :
    (s.next clk a).backlog + (s.env.delivers a).toNat ≤ s.backlog + a.income := by
  cases a with
  | resizeRequest keepAlive image targetFormat params =>
    exact backlog_onResizeRequest clk { s with env := s.env.receive _ _ } _ _
  | deleteCacheRequest keepAlive token envToken =>
    rw [ListWorld.next]
    obtain ⟨-, heq⟩ | ⟨-, text, heq⟩ := onDeleteCacheRequest_cases _ envToken _ token <;> rw [heq]
    · exact Nat.le_add_right _ 1
    · simp only [backlog, pendingCount, Environment.sendDelayed, Environment.receiveDelete,
        Environment.delivers, World.Action.income, List.length_append, List.length_singleton,
        Bool.toNat_false]
      omega
  | transform i result =>
    rw [ListWorld.next]
    cases hcmd : s.env.transformerRequests[i]? with
    | none =>
      have hout := List.getElem?_eq_none_iff.1 hcmd
      simp [Environment.delivers, Nat.not_lt.2 hout]
    | some cmd =>
      obtain ⟨hlt, -⟩ := List.getElem?_eq_some_iff.1 hcmd
      have hlength := List.length_eraseIdx_add_one hlt
      simp only [backlog, pendingCount, Environment.transform, Environment.delivers, hlt,
        World.Action.income, List.length_append, List.length_singleton, decide_true,
        Bool.toNat_true]
      omega
  | resizeResult i =>
    rw [ListWorld.next]
    cases hcmd : s.env.resizeResults[i]? with
    | none =>
      have hout := List.getElem?_eq_none_iff.1 hcmd
      simp [Environment.delivers, Nat.not_lt.2 hout]
    | some cmd =>
      obtain ⟨hlt, -⟩ := List.getElem?_eq_some_iff.1 hcmd
      have hlength := List.length_eraseIdx_add_one hlt
      have htry := backlog_tryInitiate clk
        (pushFreeWorker { s with env := s.env.deliverResult i } cmd.worker)
      have hdelivered : (pushFreeWorker { s with env := s.env.deliverResult i } cmd.worker).backlog
          + 1 = s.backlog := by
        simp only [backlog, pendingCount, pushFreeWorker, Environment.deliverResult]
        omega
      simp only [onResizeResult, backlog_finish, Environment.delivers, hlt, World.Action.income,
        decide_true, Bool.toNat_true]
      omega
  | negativeDeleteCacheResponse i =>
    rw [ListWorld.next]
    cases hcmd : s.env.negativeResponses[i]? with
    | none =>
      have hout := List.getElem?_eq_none_iff.1 hcmd
      simp [Environment.delivers, Nat.not_lt.2 hout]
    | some cmd =>
      obtain ⟨hlt, -⟩ := List.getElem?_eq_some_iff.1 hcmd
      have hlength := List.length_eraseIdx_add_one hlt
      simp only [backlog, pendingCount, onNegativeDeleteCacheResponse, Environment.answer,
        Environment.deliverNegative, Environment.delivers, hlt, World.Action.income, decide_true,
        Bool.toNat_true]
      omega
  | clearCache => exact le_rfl
  | checkPendingRequests =>
    have hcount : (s.onCheckPendingRequests clk).pendingCount ≤ s.pendingCount :=
      pendingCount_mono ((List.dropWhile_sublist _).map _).subset
    show 3 * (s.onCheckPendingRequests clk).pendingCount +
      2 * s.env.transformerRequests.length + s.env.resizeResults.length +
      s.env.negativeResponses.length + 0 ≤ s.backlog + 0
    rw [backlog]
    omega

/-- Where no message is in flight no request waits and every worker is free. -/
theorem InOrder.queues_eq_nil (hs : s.InOrder workers) (hworkers : workers ≠ [])
    (hjobs : s.env.transformerRequests = []) (hresults : s.env.resizeResults = []) :
    s.pending = [] ∧ s.inprogress = [] ∧ s.freeWorkers.Perm workers := by
  have hfree := hs.protocol.workers
  rw [Environment.busy, hjobs, hresults, List.map_nil, List.map_nil, List.append_nil,
    List.append_nil] at hfree
  have hpending : s.pending = [] := by
    refine hs.idle.resolve_left ?_
    intro hnil
    rw [hnil] at hfree
    exact hworkers hfree.nil_eq.symm
  have hin : keys s.inprogress = [] := by
    refine List.eq_nil_iff_forall_not_mem.2 ?_
    intro k hk
    rw [hs.protocol.inprogress, Environment.outstanding, hjobs, hresults] at hk
    exact List.not_mem_nil hk
  exact ⟨hpending, List.map_eq_nil_iff.1 hin, hfree⟩

end ListWorld

namespace World

variable {clk : Clock} {workers : List Mbox} {w : World} {s : ListWorld}

/-! ## Coming to rest -/

/-- The deliveries that are due for what has arrived. -/
def backlog (w : World) : Nat :=
  3 * w.pendingKeys.toFinset.card + 2 * w.env.transformerRequests.length +
    w.env.resizeResults.length + w.env.negativeResponses.length

/-- The backlog of the world is that over lists. -/
theorem Refines.backlog (h : w.Refines s) : w.backlog = s.backlog := by
  rw [World.backlog, h.pendingKeys, h.env]
  rfl

/-- No message is in flight. -/
structure Silent (w : World) : Prop where
  jobs : w.env.transformerRequests = []
  results : w.env.resizeResults = []
  negativeResponses : w.env.negativeResponses = []

/-- Everything that arrived was answered, once, nothing waits, and the workers are free. -/
structure AtRest (workers : List Mbox) (w : World) : Prop where
  requests : ∀ req k, (req, k) ∈ w.env.received → (w.env.answered.map Prod.fst).count req = 1
  deletes : ∀ req ∈ w.env.receivedDeletes, (w.env.answered.map Prod.fst).count req = 1
  pending : w.manager.pendingRequests.toList = []
  inprogress : w.manager.inprogressRequests.toList = []
  freeWorkers : w.manager.freeWorkers.Perm workers

/-- A server without messages in flight is at rest. -/
theorem Refines.atRest (h : w.Refines s) (hs : s.InOrder workers) (hworkers : workers ≠ [])
    (hsilent : w.Silent) : AtRest workers w := by
  have hr := hs.requests
  have hnegative := hsilent.negativeResponses
  obtain ⟨hpending, hin, hfree⟩ := hs.queues_eq_nil hworkers (h.env ▸ hsilent.jobs)
    (h.env ▸ hsilent.results)
  rw [h.env] at hnegative
  refine ⟨?_, ?_, ?_, ?_, h.freeWorkers ▸ hfree⟩
  · intro req k hk
    rw [h.env] at hk ⊢
    have hfifo := hr.fifo k
    rw [ListWorld.waiting, hpending, hin] at hfifo
    have hanswered : s.env.answeredFor k = s.env.receivedFor k := by
      simpa [handles] using hfifo
    rw [← count_answeredFor hk, hanswered]
    exact List.count_eq_one_of_mem (hr.received_nodup k) (Environment.mem_receivedFor.2 hk)
  · intro req hreq
    rw [h.env] at hreq ⊢
    have hdeletes := hr.deletes
    rw [hnegative, List.map_nil, List.append_nil, List.append_nil] at hdeletes
    rw [← count_answeredDeletes hreq, hdeletes.count_eq]
    exact List.count_eq_one_of_mem hr.deletes_nodup hreq
  · rw [LinkedIndex.RefinesWith.toList_eq h.pending, hpending, List.map_nil]
  · rw [LinkedIndex.RefinesWith.toList_eq h.inprogress, hin, List.map_nil]

/-- What becomes of the messages in flight. -/
structure Drains (clk : Clock) (workers : List Mbox) (w : World) : Prop where
  /-- However the run goes on, every delivery takes one from the backlog. -/
  bounded : ∀ actions w', run (step clk) w actions = .ok w' →
    w'.backlog + total (step clk) (fun w a => (w.env.delivers a).toNat) w actions ≤
      w.backlog + (actions.map Action.income).sum
  /-- When all messages have been delivered the server is at rest. -/
  silent : ∀ actions w', run (step clk) w actions = .ok w' → w'.Silent → AtRest workers w'
  /-- Delivering the oldest message of a kind leads there, whatever the workers make of their
  jobs. -/
  comes_to_rest : ∀ result, ∃ deliveries w',
    (∀ a ∈ deliveries, a ∈ [.transform 0 result, .resizeResult 0, .negativeDeleteCacheResponse 0]) ∧
    deliveries.length ≤ w.backlog ∧ run (step clk) w deliveries = .ok w' ∧ AtRest workers w'

/-- The world is one that follows the lists. -/
def InOrder (workers : List Mbox) (w : World) : Prop :=
  ∃ s : ListWorld, w.Refines s ∧ s.InOrder workers

/-- A step ends without a fault, keeps the order, and shortens the backlog by one if it delivers
something, up to what its action brings in. -/
theorem InOrder.step (clk : Clock) (hw : w.InOrder workers) (a : Action) :
    ∃ w', World.step clk w a = .ok w' ∧ w'.InOrder workers ∧
      w'.backlog + (w.env.delivers a).toNat ≤ w.backlog + a.income := by
  obtain ⟨s, h, hs⟩ := hw
  obtain ⟨w', hw', h'⟩ := step_refines clk h hs.protocol a
  refine ⟨w', hw', ⟨_, h', hs.next a⟩, ?_⟩
  rw [h'.backlog, h.backlog, h.env]
  exact ListWorld.backlog_next clk s a

/-- The same of a step that was taken. -/
theorem InOrder.of_step {a : Action} {w' : World} (hw : w.InOrder workers)
    (hstep : World.step clk w a = .ok w') :
    w'.InOrder workers ∧ w'.backlog + (w.env.delivers a).toNat ≤ w.backlog + a.income := by
  obtain ⟨w'', hw'', hrest⟩ := hw.step clk a
  cases hstep.symm.trans hw''
  exact hrest

/-- While a message is in flight the oldest one of some kind can be delivered. -/
theorem delivers_of_not_silent (result : ResizeOutcome) (hnot : ¬ w.Silent) :
    ∃ a ∈ [Action.transform 0 result, .resizeResult 0, .negativeDeleteCacheResponse 0],
      w.env.delivers a = true ∧ a.income = 0 := by
  by_contra hnone
  have hall : ∀ a ∈ [Action.transform 0 result, .resizeResult 0, .negativeDeleteCacheResponse 0],
      a.income = 0 → ¬ w.env.delivers a = true := fun a ha hincome hdelivers =>
    hnone ⟨a, ha, hdelivers, hincome⟩
  simp only [List.forall_mem_cons, Action.income, Environment.delivers, decide_eq_true_eq,
    Nat.not_lt, Nat.le_zero, List.length_eq_zero_iff, forall_const] at hall
  exact hnot ⟨hall.1, hall.2.1, hall.2.2.1⟩

/-- In every reachable state each delivery takes one from what is left to do and only arriving
requests add to it; a server with no message in flight has answered everyone, and from every state
as many deliveries as are due at most lead there. -/
theorem drains (clk : Clock) (workers : List Mbox) (hworkers : workers ≠ [])
    (actions : List Action) :
    ∃ w, run (step clk) (init workers) actions = .ok w ∧ Drains clk workers w := by
  obtain ⟨w, s, hw, h, hs⟩ := run_inOrder clk workers actions
  have hw₀ : w.InOrder workers := ⟨s, h, hs⟩
  refine ⟨w, hw, ?_, ?_, ?_⟩
  · intro actions w' hrun
    rw [← total_of_action (step clk) Action.income hrun]
    exact potential_add_total_le (InOrder workers) backlog
      (fun w a w' hin hstep => hin.of_step hstep) hw₀ hrun
  · intro actions w' hrun hsilent
    obtain ⟨s', h', hs'⟩ := run_invariant (InOrder workers)
      (fun w a w' hin hstep => (hin.of_step hstep).1) hw₀ hrun
    exact h'.atRest hs' hworkers hsilent
  · intro result
    obtain ⟨deliveries, w', hall, hlength, hrun, ⟨s', h', hs'⟩, hsilent⟩ :=
      exists_run_of_variant (InOrder workers) backlog
        (· ∈ [Action.transform 0 result, .resizeResult 0, .negativeDeleteCacheResponse 0]) Silent
        (fun w hin => by
          by_cases hsilent : w.Silent
          · exact .inl hsilent
          · obtain ⟨a, ha, hdelivers, hincome⟩ := delivers_of_not_silent result hsilent
            obtain ⟨w', hw', hin', hle⟩ := hin.step clk a
            rw [hdelivers, hincome] at hle
            exact .inr ⟨a, w', ha, hw', hin', hle⟩)
        w.backlog w hw₀ le_rfl
    exact ⟨deliveries, w', hall, hlength, hrun, h'.atRest hs' hworkers hsilent⟩

/-- Two requests for two keys and one worker. -/
theorem drains_two_keys : ∃ w,
    run (step fun n => n) (init [⟨0⟩]) [.resizeRequest true [47] .png ⟨.width, 100, by decide⟩,
      .resizeRequest true [48] .png ⟨.width, 100, by decide⟩] = .ok w ∧
    Drains (fun n => n) [⟨0⟩] w :=
  drains (fun n => n) [⟨0⟩] (by decide) _

end World

end Shrimp
