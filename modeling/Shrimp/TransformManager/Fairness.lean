import Shrimp.TransformManager.Answers
import Shrimp.TransformManager.Chronology

/-!
# Which keys get a job, and how often

A key gets a job when it leaves the pending requests. `jobs_le_requests` says that no key is ever
transformed more often than it was asked for. `bounded_bypass` follows one pending request: while it
waits, a key gets a job only if a request for it arrived before, and then no more than one, so that
fewer keys than may be pending pass it by.
-/

namespace Shrimp

open Execution

/-- The keys of all jobs so far, done or under way. -/
def Environment.jobKeys (env : Environment) : List ResizeRequestKey :=
  env.produced.map (·.key) ++ env.transformerRequests.map (·.key)

/-- The number of jobs for a key so far. -/
def Environment.jobsFor (env : Environment) (k : ResizeRequestKey) : Nat := env.jobKeys.count k

/-- One if the key is in the list. -/
def held (k : ResizeRequestKey) (l : List ResizeRequestKey) : Nat := if k ∈ l then 1 else 0

/-- A key of a part of a list is a key of the list. -/
theorem held_mono {k : ResizeRequestKey} {l l' : List ResizeRequestKey} (h : l ⊆ l') :
    held k l ≤ held k l' := by
  by_cases hk : k ∈ l
  · simp [held, hk, h hk]
  · simp [held, hk]

/-- A worker that does a job passes its key on. -/
theorem Environment.jobsFor_transform (env : Environment) {i : Nat}
    {cmd : Transformer.ResizeRequest} (h : env.transformerRequests[i]? = some cmd)
    (result : ResizeOutcome) (k : ResizeRequestKey) :
    (env.transform i (Transformer.onResizeRequest cmd result)).jobsFor k = env.jobsFor k := by
  have hcount := ((perm_eraseIdx h).map (·.key)).count_eq k
  simp only [List.map_cons, List.count_cons] at hcount
  simp only [jobsFor, jobKeys, Environment.transform, Transformer.onResizeRequest, List.map_append,
    List.count_append, List.map_singleton, List.count_singleton]
  omega

/-- A request that arrives is received for its key, behind the others for it, and for no other. -/
theorem Environment.receivedFor_receive (env : Environment) (req : RequestHandle)
    (key k : ResizeRequestKey) : (env.receive req key).receivedFor k =
      env.receivedFor k ++ if key = k then [req] else [] := by
  simp only [receivedFor, receive, List.filter_append, List.map_append, List.filter_singleton]
  by_cases hkey : key = k <;> simp [hkey]

namespace ListWorld

variable {clk : Clock} {workers : List Mbox} {s s' : ListWorld}

/-- Dispatching a key turns it into a job. -/
theorem jobsFor_sendJob (env : Environment) (n : Nat) (worker : Mbox)
    (key k : ResizeRequestKey) :
    ((env.tick n).sendJob worker key).jobsFor k = env.jobsFor k + if key = k then 1 else 0 := by
  simp only [Environment.jobsFor, Environment.jobKeys, Environment.sendJob, Environment.tick,
    List.map_append, List.count_append, List.map_singleton, List.count_singleton, beq_iff_eq]
  omega

/-! ## Jobs and requests -/

/-- Every job for a key, and the key itself if it is pending, goes back to a request of its own. -/
def JobsCovered (s : ListWorld) : Prop :=
  ∀ k, s.env.jobsFor k + held k (keys s.pending) ≤ (s.env.receivedFor k).length

/-- Fewer pending keys and the same jobs and requests are covered as well. -/
theorem JobsCovered.mono (h : JobsCovered s) (hjobs : ∀ k, s'.env.jobsFor k = s.env.jobsFor k)
    (hpending : keys s'.pending ⊆ keys s.pending)
    (hreceived : s'.env.received = s.env.received) : JobsCovered s' := by
  intro k
  have hk := h k
  have hheld := held_mono (k := k) hpending
  rw [hjobs, Environment.receivedFor, hreceived]
  rw [Environment.receivedFor] at hk
  omega

/-- A pass of the dispatch loop makes a job of a pending key, and the sum of both stays. -/
theorem JobsCovered.initiateNext (h : JobsCovered s) : JobsCovered (s.initiateNext clk) := by
  obtain ⟨-, heq⟩ | ⟨worker, freeWorkers, e, pending, -, hpending, heq⟩ :=
    initiateNext_cases clk s <;> rw [heq]
  · exact h
  intro k
  have hk := h k
  have hmem : e.key ∈ keys s.pending := by simp [hpending, keys]
  show ((s.env.tick _).sendJob worker e.key).jobsFor k +
    held k (keys (exceptKey e.key s.pending)) ≤ (s.env.receivedFor k).length
  rw [jobsFor_sendJob]
  by_cases hek : e.key = k
  · subst hek
    simp only [held, hmem, if_true] at hk
    simp only [held, mem_keys_exceptKey, ne_eq, not_true_eq_false, and_false, if_true, if_false]
    exact hk
  · have hheld := held_mono (k := k) (keys_exceptKey_sublist (k := e.key) (l := s.pending)).subset
    rw [if_neg hek]
    omega

/-- So does the whole loop. -/
theorem JobsCovered.tryInitiate (h : JobsCovered s) : JobsCovered (s.tryInitiate clk) :=
  Function.Iterate.rec JobsCovered h (fun _ h => h.initiateNext) _

/-- One more request covers as many jobs as before. -/
theorem JobsCovered.receive (h : JobsCovered s) (req : RequestHandle) (key : ResizeRequestKey) :
    JobsCovered { s with env := s.env.receive req key } := by
  intro k
  show s.env.jobsFor k + held k (keys s.pending) ≤ _
  rw [Environment.receivedFor_receive, List.length_append]
  exact (h k).trans (Nat.le_add_right _ _)

/-- A request that arrives covers one more job for its key. -/
theorem JobsCovered.joinPending (h : JobsCovered s) (req : RequestHandle)
    (key : ResizeRequestKey) :
    JobsCovered (ListWorld.joinPending clk { s with env := s.env.receive req key } req key) := by
  intro k
  have hk := h k
  show s.env.jobsFor k + held k (keys (s.pending ++ [⟨key, req, clk s.env.reads⟩])) ≤
    ((s.env.receive req key).receivedFor k).length
  rw [Environment.receivedFor_receive, List.length_append]
  by_cases hkey : key = k
  · have hheld : held k (keys (s.pending ++ [⟨key, req, clk s.env.reads⟩])) ≤ 1 := by
      unfold held
      split <;> omega
    have hjobs : s.env.jobsFor k ≤ (s.env.receivedFor k).length :=
      (Nat.le_add_right _ _).trans hk
    rw [if_pos hkey, List.length_singleton]
    exact Nat.add_le_add hjobs hheld
  · have hheld : held k (keys (s.pending ++ [⟨key, req, clk s.env.reads⟩])) =
        held k (keys s.pending) := by
      simp only [held, mem_keys_append, keys, List.map_singleton, List.mem_singleton,
        Ne.symm hkey, or_false]
    rw [if_neg hkey]
    exact (congrArg (s.env.jobsFor k + ·) hheld).le.trans hk

/-- A request for an image makes its key pending at most once, and it is one request more. -/
theorem JobsCovered.onResizeRequest (h : JobsCovered s) (req : RequestHandle)
    (key : ResizeRequestKey) : JobsCovered
      (ListWorld.onResizeRequest clk { s with env := s.env.receive req key } req key) := by
  obtain ⟨e, -, -, heq⟩ | ⟨-, -, heq⟩ | ⟨-, -, -, heq⟩ | ⟨-, -, -, -, heq⟩ |
    ⟨-, -, -, -, heq⟩ := onResizeRequest_cases clk _ req key <;> rw [heq]
  · exact (h.receive req key).mono (fun _ => rfl) (fun _ => id) rfl
  · exact (h.receive req key).mono (fun _ => rfl) (fun _ => id) rfl
  · exact h.joinPending req key
  · exact (h.joinPending req key).tryInitiate
  · exact (h.receive req key).mono (fun _ => rfl) (fun _ => id) rfl

/-- Storing and answering begin no jobs. -/
theorem finish_jobs (clk : Clock) (s : ListWorld) (cmd : ResizeResult) (requests : RequestList) :
    ((s.extract cmd.key).finish clk cmd requests).pending = s.pending ∧
      (∀ k, ((s.extract cmd.key).finish clk cmd requests).env.jobsFor k = s.env.jobsFor k) ∧
      ((s.extract cmd.key).finish clk cmd requests).env.received = s.env.received := by
  cases hresult : cmd.result <;> simp only [ListWorld.finish, hresult] <;>
    exact ⟨rfl, fun _ => rfl, rfl⟩

/-- Every action keeps the jobs covered. -/
theorem JobsCovered.next (h : JobsCovered s) (a : World.Action) : JobsCovered (s.next clk a) := by
  cases a with
  | resizeRequest keepAlive image targetFormat params => exact h.onResizeRequest _ _
  | deleteCacheRequest keepAlive token envToken =>
    rw [ListWorld.next]
    obtain ⟨-, heq⟩ | ⟨-, text, heq⟩ := onDeleteCacheRequest_cases _ envToken _ token <;> rw [heq]
    · exact h.mono (fun _ => rfl) (fun _ => id) rfl
    · exact h.mono (fun _ => rfl) (fun _ => id) rfl
  | transform i result =>
    rw [ListWorld.next]
    split
    case h_1 cmd hcmd =>
      exact h.mono (s.env.jobsFor_transform hcmd result) (fun _ => id) rfl
    case h_2 => exact h
  | resizeResult i =>
    rw [ListWorld.next]
    split
    case h_1 cmd hcmd =>
      have hdelivered : JobsCovered
          (pushFreeWorker { s with env := s.env.deliverResult i } cmd.worker) :=
        h.mono (fun _ => rfl) (fun _ => id) rfl
      have hdispatched : JobsCovered (ListWorld.tryInitiate clk
          (pushFreeWorker { s with env := s.env.deliverResult i } cmd.worker)) :=
        hdelivered.tryInitiate
      obtain ⟨hpending, hjobs, hreceived⟩ := finish_jobs clk (ListWorld.tryInitiate clk
          (pushFreeWorker { s with env := s.env.deliverResult i } cmd.worker)) cmd _
      refine hdispatched.mono hjobs ?_ hreceived
      rw [ListWorld.onResizeResult, hpending]
      exact fun _ => id
    case h_2 => exact h
  | negativeDeleteCacheResponse i =>
    rw [ListWorld.next]
    split <;> exact h.mono (fun _ => rfl) (fun _ => id) rfl
  | clearCache => exact h.mono (fun _ => rfl) (fun _ => id) rfl
  | checkPendingRequests =>
    exact h.mono (fun _ => rfl) ((List.dropWhile_sublist _).map _).subset rfl

/-- In every run the jobs for a key are covered by the requests for it. -/
theorem jobsCovered_foldl (clk : Clock) (workers : List Mbox) (actions : List World.Action) :
    JobsCovered (actions.foldl (next clk) (init workers)) :=
  foldl_invariant JobsCovered (fun _ a h => h.next a) actions _ fun _ => Nat.le_refl 0

/-! ## What passes a waiting request -/

/-- The keys of the requests that arrived before a request for `k` and still wait, but for `k`. -/
def keysAhead (req : RequestHandle) (k : ResizeRequestKey) (l : RequestList) :
    List ResizeRequestKey := keys (l.filter fun e => e.value.id < req.id ∧ e.key ≠ k)

/-- A key is ahead of a request for `k` if it is another one and an earlier request for it is
pending. -/
theorem mem_keysAhead {req : RequestHandle} {k k' : ResizeRequestKey} {l : RequestList} :
    k' ∈ keysAhead req k l ↔ k' ≠ k ∧ ∃ e ∈ l, e.value.id < req.id ∧ e.key = k' := by
  simp only [keysAhead, keys, List.mem_map, List.mem_filter, decide_eq_true_iff]
  constructor
  · rintro ⟨e, ⟨he, hid, hne⟩, rfl⟩
    exact ⟨hne, e, he, hid, rfl⟩
  · rintro ⟨hne, e, he, hid, rfl⟩
    exact ⟨e, ⟨he, hid, hne⟩, rfl⟩

/-- With fewer pending requests fewer keys are ahead. -/
theorem keysAhead_mono (req : RequestHandle) (k : ResizeRequestKey) {l l' : RequestList}
    (h : l'.Sublist l) : keysAhead req k l' ⊆ keysAhead req k l :=
  ((h.filter _).map _).subset

/-- A request that arrives later is not ahead. -/
theorem keysAhead_append {req req' : RequestHandle} (k key : ResizeRequestKey) (l : RequestList)
    (time : TimePoint) (hid : req.id ≤ req'.id) :
    keysAhead req k (l ++ [⟨key, req', time⟩]) = keysAhead req k l := by
  have hnot : ¬ req'.id < req.id := Nat.not_lt.2 hid
  simp [keysAhead, List.filter_append, hnot]

/-- Between `s` and `s'` every key ahead of a request for `k` gets one job at most, and the others
get none. -/
def Bypasses (req : RequestHandle) (k : ResizeRequestKey) (s s' : ListWorld) : Prop :=
  ∀ k', s'.env.jobsFor k' + held k' (keysAhead req k s'.pending) ≤
    s.env.jobsFor k' + held k' (keysAhead req k s.pending)

/-- Where no job begins and requests only leave, no key passes. -/
theorem Bypasses.of_sublist (req : RequestHandle) (k : ResizeRequestKey)
    (hjobs : ∀ k', s'.env.jobsFor k' = s.env.jobsFor k') (hpending : s'.pending.Sublist s.pending) :
    Bypasses req k s s' := by
  intro k'
  rw [hjobs]
  exact Nat.add_le_add_left (held_mono (keysAhead_mono req k hpending)) _

/-- What passes in two parts of a run is what passes in the whole. -/
theorem Bypasses.trans {req : RequestHandle} {k : ResizeRequestKey} {s'' : ListWorld}
    (h : Bypasses req k s s') (h' : Bypasses req k s' s'') : Bypasses req k s s'' :=
  fun k' => (h' k').trans (h k')

/-- The key that is dispatched while a request waits is ahead of it. -/
theorem bypasses_initiateNext {req : RequestHandle} {k : ResizeRequestKey}
    (harrivals : s.pending.Pairwise fun a b => a.value.id < b.value.id)
    (hkey : ∀ e ∈ s.pending, e.value = req → e.key = k)
    (hreq : req ∈ handles (s.initiateNext clk).pending) :
    Bypasses req k s (s.initiateNext clk) := by
  obtain ⟨-, heq⟩ | ⟨worker, freeWorkers, e, pending, -, hpending, heq⟩ :=
    initiateNext_cases clk s <;> rw [heq] at hreq ⊢
  · exact fun _ => le_rfl
  obtain ⟨d, hd, rfl⟩ := List.mem_map.1 hreq
  obtain ⟨hd, hne⟩ := List.mem_filter.1 hd
  have hne : d.key ≠ e.key := of_decide_eq_true hne
  have hd' : d ∈ pending := by
    rw [hpending] at hd
    exact (List.mem_cons.1 hd).resolve_left fun h => hne (h ▸ rfl)
  have hid : e.value.id < d.value.id := by
    rw [hpending] at harrivals
    exact (List.pairwise_cons.1 harrivals).1 d hd'
  have hek : e.key ≠ k := fun h => hne ((hkey d hd rfl).trans h.symm)
  have hahead : e.key ∈ keysAhead d.value k s.pending :=
    mem_keysAhead.2 ⟨hek, e, by simp [hpending], hid, rfl⟩
  intro k'
  show ((s.env.tick _).sendJob worker e.key).jobsFor k' +
    held k' (keysAhead d.value k (exceptKey e.key s.pending)) ≤ _
  rw [jobsFor_sendJob]
  by_cases hk' : e.key = k'
  · subst hk'
    have hgone : e.key ∉ keysAhead d.value k (exceptKey e.key s.pending) := by
      rw [mem_keysAhead]
      rintro ⟨-, c, hc, -, hkey⟩
      exact of_decide_eq_true (List.mem_filter.1 hc).2 hkey
    simp [held, hahead, hgone]
  · have hheld := held_mono (k := k') (keysAhead_mono d.value k
      (List.filter_sublist : (exceptKey e.key s.pending).Sublist s.pending))
    rw [if_neg hk', Nat.add_zero]
    exact Nat.add_le_add_left hheld _

/-- The dispatch loop gives jobs to the keys ahead first, so that a request it leaves pending is
passed by these only, each of which is then no longer ahead. -/
theorem bypasses_tryInitiate {req : RequestHandle} {k : ResizeRequestKey}
    (harrivals : s.pending.Pairwise fun a b => a.value.id < b.value.id)
    (hkey : ∀ e ∈ s.pending, e.value = req → e.key = k)
    (hreq : req ∈ handles (s.tryInitiate clk).pending) : Bypasses req k s (s.tryInitiate clk) := by
  have h : (s.tryInitiate clk).pending.Sublist s.pending ∧
      (req ∈ handles (s.tryInitiate clk).pending → Bypasses req k s (s.tryInitiate clk)) := by
    refine Function.Iterate.rec (fun s' : ListWorld => s'.pending.Sublist s.pending ∧
      (req ∈ handles s'.pending → Bypasses req k s s')) ⟨.refl _, fun _ _ => le_rfl⟩ ?_ _
    rintro s' ⟨hsub, hbypasses⟩
    have hsub' : (s'.initiateNext clk).pending.Sublist s'.pending := by
      obtain ⟨-, heq⟩ | ⟨worker, freeWorkers, e, pending, -, -, heq⟩ :=
        initiateNext_cases clk s' <;> rw [heq]
      exact List.filter_sublist
    refine ⟨hsub'.trans hsub, fun hreq => ?_⟩
    exact (hbypasses ((hsub'.map _).subset hreq)).trans
      (bypasses_initiateNext (harrivals.sublist hsub) (fun e he => hkey e (hsub.subset he)) hreq)
  exact h.2 hreq

/-- A request that still waits waited before. -/
theorem mem_pending_of_next (hs : s.InOrder workers) {req : RequestHandle} {k : ResizeRequestKey}
    (hk : (req, k) ∈ s.env.received) {a : World.Action}
    (hreq : req ∈ handles (s.next clk a).pending) : req ∈ handles s.pending := by
  obtain ⟨e, he, rfl⟩ := List.mem_map.1 hreq
  obtain he | ⟨keepAlive, image, targetFormat, params, -, rfl⟩ := mem_pending_next clk s a he
  · exact List.mem_map_of_mem he
  · exact absurd hk ((hs.requests.fresh rfl).1 k)

/-- A request that arrives later is not ahead of one that waits, and the dispatch loop it may start
passes over none. -/
theorem bypasses_onResizeRequest (ha : Arrivals s) {req req' : RequestHandle}
    {k : ResizeRequestKey} (key : ResizeRequestKey)
    (hkey : ∀ e ∈ s.pending, e.value = req → e.key = k) (hid : req.id < s.env.accepted)
    (hid' : req'.id = s.env.accepted)
    (hreq : req ∈ handles (ListWorld.onResizeRequest clk
      { s with env := s.env.receive req' key } req' key).pending) :
    Bypasses req k s (ListWorld.onResizeRequest clk
      { s with env := s.env.receive req' key } req' key) := by
  have hjoin : Bypasses req k s (ListWorld.joinPending clk
      { s with env := s.env.receive req' key } req' key) := by
    intro k'
    show s.env.jobsFor k' + held k' (keysAhead req k (s.pending ++ [_])) ≤ _
    rw [keysAhead_append k key s.pending _ (hid'.symm ▸ hid.le)]
  obtain ⟨e, -, -, heq⟩ | ⟨-, -, heq⟩ | ⟨-, -, -, heq⟩ | ⟨-, -, -, -, heq⟩ |
    ⟨-, -, -, -, heq⟩ := onResizeRequest_cases clk _ req' key <;> rw [heq] at hreq ⊢
  · exact .of_sublist req k (fun _ => rfl) (.refl _)
  · exact .of_sublist req k (fun _ => rfl) (.refl _)
  · exact hjoin
  · refine hjoin.trans (bypasses_tryInitiate ?_ ?_ hreq)
    · refine List.pairwise_append.2 ⟨ha.pending, List.pairwise_singleton _ _, ?_⟩
      intro e he d hd
      cases List.mem_singleton.1 hd
      exact hid'.symm ▸ ha.accepted e he
    · intro e he heq
      rcases List.mem_append.1 he with he | he
      · exact hkey e he heq
      · cases List.mem_singleton.1 he
        cases heq
        exact absurd hid' hid.ne
  · exact .of_sublist req k (fun _ => rfl) (.refl _)

/-- Every action that leaves a request waiting lets only keys ahead of it pass. -/
theorem bypasses_next (hs : s.InOrder workers) (ha : Arrivals s) {req : RequestHandle}
    {k : ResizeRequestKey} (hk : (req, k) ∈ s.env.received) {a : World.Action}
    (hreq : req ∈ handles (s.next clk a).pending) : Bypasses req k s (s.next clk a) := by
  have hkey : ∀ e ∈ s.pending, e.value = req → e.key = k := by
    rintro e he rfl
    exact hs.requests.key_unique (World.received_of_mem hs (List.mem_append_left _ he)) hk
  have hid : req.id < s.env.accepted := by
    obtain ⟨e, he, rfl⟩ := List.mem_map.1 (mem_pending_of_next hs hk hreq)
    exact ha.accepted e he
  cases a with
  | resizeRequest keepAlive image targetFormat params =>
    exact bypasses_onResizeRequest ha _ hkey hid rfl hreq
  | deleteCacheRequest keepAlive token envToken =>
    rw [ListWorld.next]
    obtain ⟨-, heq⟩ | ⟨-, text, heq⟩ := onDeleteCacheRequest_cases _ envToken _ token <;> rw [heq]
    · exact .of_sublist req k (fun _ => rfl) (.refl _)
    · exact .of_sublist req k (fun _ => rfl) (.refl _)
  | transform i result =>
    rw [ListWorld.next]
    split
    case h_1 cmd hcmd => exact .of_sublist req k (s.env.jobsFor_transform hcmd result) (.refl _)
    case h_2 => exact fun _ => le_rfl
  | resizeResult i =>
    rw [ListWorld.next] at hreq ⊢
    split
    case h_1 cmd hcmd =>
      simp only [hcmd] at hreq
      obtain ⟨hpending, hjobs, -⟩ := finish_jobs clk (ListWorld.tryInitiate clk
          (pushFreeWorker { s with env := s.env.deliverResult i } cmd.worker)) cmd
        (ofKey cmd.key (ListWorld.tryInitiate clk
          (pushFreeWorker { s with env := s.env.deliverResult i } cmd.worker)).inprogress)
      rw [ListWorld.onResizeResult, hpending] at hreq
      have hdispatch : Bypasses req k
          (pushFreeWorker { s with env := s.env.deliverResult i } cmd.worker)
          (ListWorld.tryInitiate clk
            (pushFreeWorker { s with env := s.env.deliverResult i } cmd.worker)) :=
        bypasses_tryInitiate ha.pending hkey hreq
      intro k'
      rw [ListWorld.onResizeResult, hpending, hjobs]
      exact hdispatch k'
    case h_2 => exact fun _ => le_rfl
  | negativeDeleteCacheResponse i =>
    rw [ListWorld.next]
    split <;> exact .of_sublist req k (fun _ => rfl) (.refl _)
  | clearCache => exact .of_sublist req k (fun _ => rfl) (.refl _)
  | checkPendingRequests => exact .of_sublist req k (fun _ => rfl) (List.dropWhile_sublist _)

/-- A run that leaves a request waiting lets only keys ahead of it pass, each of them once. -/
theorem bypasses_foldl (hs : s.InOrder workers) (ha : Arrivals s) {req : RequestHandle}
    {k : ResizeRequestKey} (hk : (req, k) ∈ s.env.received) (actions : List World.Action)
    (hreq : req ∈ handles (actions.foldl (next clk) s).pending) :
    req ∈ handles s.pending ∧ Bypasses req k s (actions.foldl (next clk) s) := by
  induction actions using List.reverseRecOn with
  | nil => exact ⟨hreq, fun _ => le_rfl⟩
  | append_singleton actions a ih =>
    have hs' : (actions.foldl (next clk) s).InOrder workers :=
      foldl_invariant (InOrder workers) (fun _ a h => h.next a) actions s hs
    have ha' : Arrivals (actions.foldl (next clk) s) :=
      foldl_invariant Arrivals (fun _ a h => h.next clk a) actions s ha
    have hk' := (logGrows_foldl clk actions s).received.subset hk
    rw [List.foldl_concat] at hreq ⊢
    obtain ⟨hwaited, hbypasses⟩ := ih (mem_pending_of_next hs' hk' hreq)
    exact ⟨hwaited, hbypasses.trans (bypasses_next hs' ha' hk' hreq)⟩

end ListWorld

namespace World

variable {clk : Clock} {workers : List Mbox} {w w' : World} {s : ListWorld}

/-- In every run the jobs for a key, and the key itself if it is pending, are not more than the
requests that arrived for it. -/
theorem jobs_le_requests (clk : Clock) (workers : List Mbox) (actions : List Action) :
    ∃ w, run (step clk) (init workers) actions = .ok w ∧
      ∀ k, w.env.jobsFor k + held k w.pendingKeys ≤ (w.env.receivedFor k).length := by
  obtain ⟨w, hw, h, -⟩ := run_refines clk workers actions
  refine ⟨w, hw, fun k => ?_⟩
  rw [h.pendingKeys, h.env]
  exact ListWorld.jobsCovered_foldl clk workers actions k

/-- The other keys with a pending request that arrived before `req`. -/
def keysAhead (w : World) (req : RequestHandle) (k : ResizeRequestKey) : List ResizeRequestKey :=
  keys (w.manager.pendingRequests.toList.filter fun e =>
    e.value.httpReq.any (fun earlier => earlier.id < req.id) ∧ e.key ≠ k)

/-- The keys ahead in the queue are those ahead in the list. -/
theorem Refines.keysAhead (h : w.Refines s) (req : RequestHandle) (k : ResizeRequestKey) :
    w.keysAhead req k = ListWorld.keysAhead req k s.pending := by
  rw [World.keysAhead, LinkedIndex.RefinesWith.toList_eq h.pending, List.filter_map,
    keys_map_entryOf]
  refine congrArg keys (List.filter_congr ?_)
  intro e _
  exact decide_eq_decide.2 (by simp [entryOf, resizeRequestOf])

/-- A request for `k` waits from `w` to `w'`. -/
structure BoundedBypass (req : RequestHandle) (k : ResizeRequestKey) (w w' : World) : Prop where
  /-- What is pending at the end was pending all the time. -/
  waits : some req ∈ storedHandles w.manager.pendingRequests
  /-- A key got one job if a request for it was ahead, and otherwise none. -/
  ahead : ∀ k', w'.env.jobsFor k' ≤ w.env.jobsFor k' + held k' (w.keysAhead req k)
  /-- All together fewer jobs began than keys may be pending. -/
  few : w'.env.jobKeys.length < w.env.jobKeys.length + maxPendingRequests

/-- The keys ahead of a request and its own are pending. -/
theorem card_keysAhead_lt (hs : s.InOrder workers) (req : RequestHandle) {k : ResizeRequestKey}
    (hk : k ∈ keys s.pending) :
    (ListWorld.keysAhead req k s.pending).toFinset.card < maxPendingRequests := by
  refine (Finset.card_lt_card ?_).trans_le hs.protocol.admitted
  rw [Finset.ssubset_iff_of_subset]
  · refine ⟨k, List.mem_toFinset.2 hk, ?_⟩
    rw [List.mem_toFinset, ListWorld.mem_keysAhead]
    exact fun h => h.1 rfl
  · intro k' hk'
    rw [List.mem_toFinset] at hk' ⊢
    obtain ⟨-, e, he, -, rfl⟩ := ListWorld.mem_keysAhead.1 hk'
    exact List.mem_map_of_mem he

/-- What grows by one at most at every key of a list grows by the number of keys at most. -/
theorem length_le_of_count_le {l l' ks : List ResizeRequestKey}
    (h : ∀ k, l'.count k ≤ l.count k + held k ks) : l'.length ≤ l.length + ks.toFinset.card := by
  have hle : (l' : Multiset ResizeRequestKey) ≤ l + ks.toFinset.val := by
    rw [Multiset.le_iff_count]
    intro k
    rw [Multiset.count_add, Multiset.coe_count, Multiset.coe_count,
      Multiset.count_eq_of_nodup ks.toFinset.nodup]
    simpa [held] using h k
  have hcard := Multiset.card_le_card hle
  rwa [Multiset.card_add, Multiset.coe_card, Multiset.coe_card] at hcard

/-- While a request waits for a worker no key gets a job but those that were asked for before, each
of them once, and these are fewer than 64. -/
theorem bounded_bypass (clk : Clock) (workers : List Mbox) (before actions : List Action)
    {req : RequestHandle} {k : ResizeRequestKey}
    (hbefore : run (step clk) (init workers) before = .ok w) (hk : (req, k) ∈ w.env.received)
    (hrun : run (step clk) w actions = .ok w')
    (hwaits : some req ∈ storedHandles w'.manager.pendingRequests) : BoundedBypass req k w w' := by
  have h := refines_of_run hbefore
  have h' : w'.Refines (actions.foldl (ListWorld.next clk)
      (before.foldl (ListWorld.next clk) (ListWorld.init workers))) := by
    rw [← List.foldl_append]
    exact refines_of_run (by rw [run_append, hbefore, ok_bind, hrun])
  have hs := ListWorld.inOrder_foldl clk workers before
  have ha := ListWorld.arrivals_foldl clk workers before
  rw [h.env] at hk
  rw [storedHandles_eq h'.pending, List.mem_map_of_injective (Option.some_injective _)] at hwaits
  obtain ⟨hwaited, hbypasses⟩ := ListWorld.bypasses_foldl hs ha hk actions hwaits
  have hahead : ∀ k', w'.env.jobsFor k' ≤ w.env.jobsFor k' + held k' (w.keysAhead req k) := by
    intro k'
    rw [h.keysAhead, h.env, h'.env]
    exact (Nat.le_add_right _ _).trans (hbypasses k')
  refine ⟨?_, hahead, ?_⟩
  · rw [storedHandles_eq h.pending]
    exact List.mem_map_of_mem hwaited
  · obtain ⟨e, he, rfl⟩ := List.mem_map.1 hwaited
    have hkey : e.key = k :=
      hs.requests.key_unique (received_of_mem hs (List.mem_append_left _ he)) hk
    have hmem : e.key ∈ keys (before.foldl (ListWorld.next clk) (.init workers)).pending :=
      List.mem_map_of_mem he
    rw [hkey] at hmem
    have hcard := card_keysAhead_lt hs e.value hmem
    rw [← h.keysAhead] at hcard
    exact (length_le_of_count_le hahead).trans_lt (Nat.add_lt_add_left hcard _)

/-- With one worker a second and a third key wait. When the worker is free again, the second key
gets the job that the request for the third one had to let pass; a fourth key then waits, too. -/
theorem bounded_bypass_four_keys : ∃ w w',
    run (step fun n => n) (init [⟨0⟩]) [.resizeRequest true [47] .png ⟨.width, 100, by decide⟩,
      .resizeRequest true [48] .png ⟨.width, 100, by decide⟩,
      .resizeRequest true [49] .png ⟨.width, 100, by decide⟩] = .ok w ∧
    run (step fun n => n) w [.transform 0 (.successful ⟨⟨⟨0, 1⟩, 0⟩, 0, 0⟩), .resizeResult 0,
      .resizeRequest true [50] .png ⟨.width, 100, by decide⟩] = .ok w' ∧
    w.keysAhead ⟨2, true⟩ ⟨[49], .png, ⟨.width, 100, by decide⟩⟩ =
      [⟨[48], .png, ⟨.width, 100, by decide⟩⟩] ∧
    w.env.jobKeys.map (·.path) = [[47]] ∧ w'.env.jobKeys.map (·.path) = [[47], [48]] ∧
    BoundedBypass ⟨2, true⟩ ⟨[49], .png, ⟨.width, 100, by decide⟩⟩ w w' := by
  obtain ⟨w', hw', h', -⟩ := run_refines (fun n => n) [⟨0⟩]
    ([.resizeRequest true [47] .png ⟨.width, 100, by decide⟩,
      .resizeRequest true [48] .png ⟨.width, 100, by decide⟩,
      .resizeRequest true [49] .png ⟨.width, 100, by decide⟩] ++
      [.transform 0 (.successful ⟨⟨⟨0, 1⟩, 0⟩, 0, 0⟩), .resizeResult 0,
      .resizeRequest true [50] .png ⟨.width, 100, by decide⟩])
  rw [run_append, bind_eq_ok] at hw'
  obtain ⟨w, hw, hrun⟩ := hw'
  have h := refines_of_run hw
  refine ⟨w, w', hw, hrun, ?_, ?_, ?_, bounded_bypass (fun n => n) [⟨0⟩] _ _ hw ?_ hrun ?_⟩
  · rw [h.keysAhead]
    decide
  · rw [h.env]
    decide
  · rw [h'.env]
    decide
  · rw [h.env]
    decide
  · rw [storedHandles_eq h'.pending]
    decide

end World

end Shrimp
