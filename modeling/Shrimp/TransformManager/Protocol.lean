import Shrimp.TransformManager.ListWorld

/-!
# The protocol between the manager and its workers

`Protocol workers finishing s` ties the free workers, the messages in flight and the three stages of
a key together: every worker is free or has one message in flight, the keys in progress are those of
the messages in flight, and no key is in two stages. In the middle of `onResizeResult` the key of
the result is still in progress although its message is gone; `finishing` holds such keys and is
empty between handlers. `Protocol.next` says that every action keeps it, and `Idle.next` that no
worker is ever left idle beside a pending request.
-/

namespace Shrimp

/-! ## Entries of a key -/

section Keys
variable {V : Type} {k k' : ResizeRequestKey} {l : List (Entry ResizeRequestKey V)}

/-- Without the entries of a key all other keys are there as before. -/
theorem mem_keys_exceptKey : k' ∈ keys (exceptKey k l) ↔ k' ∈ keys l ∧ k' ≠ k := by
  simp only [keys, exceptKey, List.mem_map, List.mem_filter, decide_eq_true_iff]
  constructor
  · rintro ⟨e, ⟨he, hne⟩, rfl⟩
    exact ⟨⟨e, he, rfl⟩, hne⟩
  · rintro ⟨⟨e, he, rfl⟩, hne⟩
    exact ⟨e, ⟨he, hne⟩, rfl⟩

/-- The entries of a key have that key, and there are some if the list has the key. -/
theorem mem_keys_ofKey : k' ∈ keys (ofKey k l) ↔ k' ∈ keys l ∧ k' = k := by
  simp only [keys, ofKey, List.mem_map, List.mem_filter, decide_eq_true_iff]
  constructor
  · rintro ⟨e, ⟨he, heq⟩, rfl⟩
    exact ⟨⟨e, he, rfl⟩, heq⟩
  · rintro ⟨⟨e, he, rfl⟩, heq⟩
    exact ⟨e, ⟨he, heq⟩, rfl⟩

/-- A key has no entries exactly if it is not among the keys. -/
theorem ofKey_eq_nil : ofKey k l = [] ↔ k ∉ keys l := by
  simp [ofKey, keys, List.filter_eq_nil_iff]

/-- The keys of two lists together are those of the one and of the other. -/
theorem mem_keys_append {l' : List (Entry ResizeRequestKey V)} :
    k ∈ keys (l ++ l') ↔ k ∈ keys l ∨ k ∈ keys l' := by
  rw [keys, List.map_append, List.mem_append]

/-- Without the entries of a key the other keys stay in their order. -/
theorem keys_exceptKey_sublist : (keys (exceptKey k l)).Sublist (keys l) :=
  List.filter_sublist.map _

/-- New times do not change the keys. -/
@[simp] theorem keys_restamp (clk : Clock) (n : Nat) (l : RequestList) :
    keys (ListWorld.restamp clk n l) = keys l := by
  induction l generalizing n with
  | nil => rfl
  | cons e l ih => simp only [ListWorld.restamp, keys, List.map_cons]; exact congrArg _ (ih (n + 1))

end Keys

/-! ## Messages in flight -/

namespace Environment

/-- The keys of the jobs and results in flight. -/
def outstanding (env : Environment) : List ResizeRequestKey :=
  env.transformerRequests.map (·.key) ++ env.resizeResults.map (·.key)

/-- The workers whose job or result is in flight. -/
def busy (env : Environment) : List Mbox :=
  env.transformerRequests.map (·.worker) ++ env.resizeResults.map (·.worker)

/-- The key of a job that is sent is outstanding, beside those that were so before. -/
theorem outstanding_sendJob (env : Environment) (worker : Mbox) (key : ResizeRequestKey) :
    (env.sendJob worker key).outstanding.Perm (key :: env.outstanding) := by
  simp only [outstanding, sendJob, List.map_append, List.map_singleton, List.append_assoc]
  exact List.perm_middle

/-- The worker a job is sent to is busy, beside those that were so before. -/
theorem busy_sendJob (env : Environment) (worker : Mbox) (key : ResizeRequestKey) :
    (env.sendJob worker key).busy.Perm (worker :: env.busy) := by
  simp only [busy, sendJob, List.map_append, List.map_singleton, List.append_assoc]
  exact List.perm_middle

/-- A place of a list is the element there before all others. -/
theorem perm_eraseIdx {α : Type} {l : List α} {i : Nat} {x : α} (h : l[i]? = some x) :
    l.Perm (x :: l.eraseIdx i) := by
  obtain ⟨hi, rfl⟩ := List.getElem?_eq_some_iff.1 h
  exact (List.getElem_cons_eraseIdx_perm hi).symm

/-- A worker passes the key of its job on. -/
theorem outstanding_transform (env : Environment) {i : Nat} {cmd : Transformer.ResizeRequest}
    (h : env.transformerRequests[i]? = some cmd) (result : ResizeOutcome) :
    (env.transform i (Transformer.onResizeRequest cmd result)).outstanding.Perm
      env.outstanding := by
  have hjobs := (perm_eraseIdx h).map (·.key)
  simp only [outstanding, transform, List.map_append, List.map_singleton, ← List.append_assoc]
  refine (List.perm_append_singleton _ _).trans ?_
  exact (hjobs.symm.append_right (env.resizeResults.map (·.key)))

/-- A worker stays busy until its result is delivered. -/
theorem busy_transform (env : Environment) {i : Nat} {cmd : Transformer.ResizeRequest}
    (h : env.transformerRequests[i]? = some cmd) (result : ResizeOutcome) :
    (env.transform i (Transformer.onResizeRequest cmd result)).busy.Perm env.busy := by
  have hjobs := (perm_eraseIdx h).map (·.worker)
  simp only [busy, transform, List.map_append, List.map_singleton, ← List.append_assoc]
  refine (List.perm_append_singleton _ _).trans ?_
  exact (hjobs.symm.append_right (env.resizeResults.map (·.worker)))

/-- The key of a result was outstanding until the result is delivered. -/
theorem outstanding_deliverResult (env : Environment) {i : Nat} {cmd : ResizeResult}
    (h : env.resizeResults[i]? = some cmd) :
    env.outstanding.Perm (cmd.key :: (env.deliverResult i).outstanding) :=
  (((perm_eraseIdx h).map (·.key)).append_left _).trans List.perm_middle

/-- The worker of a result was busy until the result is delivered. -/
theorem busy_deliverResult (env : Environment) {i : Nat} {cmd : ResizeResult}
    (h : env.resizeResults[i]? = some cmd) :
    env.busy.Perm (cmd.worker :: (env.deliverResult i).busy) :=
  (((perm_eraseIdx h).map (·.worker)).append_left _).trans List.perm_middle

end Environment

namespace ListWorld

variable {clk : Clock} {workers : List Mbox} {finishing : List ResizeRequestKey} {s : ListWorld}

/-! ## The invariant -/

/-- Workers, messages and keys are in order, the keys `finishing` being between their result and
their answers. -/
structure Protocol (workers : List Mbox) (finishing : List ResizeRequestKey) (s : ListWorld) :
    Prop where
  workers : (s.freeWorkers ++ s.env.busy).Perm workers
  outstanding : (s.env.outstanding ++ finishing).Nodup
  inprogress : ∀ k, k ∈ keys s.inprogress ↔ k ∈ s.env.outstanding ++ finishing
  cached : (keys s.cache).Nodup
  cache_pending : ∀ k ∈ keys s.cache, k ∉ keys s.pending
  cache_inprogress : ∀ k ∈ keys s.cache, k ∉ keys s.inprogress
  pending_inprogress : ∀ k ∈ keys s.pending, k ∉ keys s.inprogress
  admitted : (keys s.pending).toFinset.card ≤ maxPendingRequests

/-- No worker is free or no request is pending. -/
def Idle (s : ListWorld) : Prop := s.freeWorkers = [] ∨ s.pending = []

/-- At the start all workers are free, and there are neither requests nor images. -/
theorem protocol_init (workers : List Mbox) : Protocol workers [] (init workers) where
  workers := by
    simp [init, Environment.busy, Environment.init]
  outstanding := List.nodup_nil
  inprogress _ := Iff.rfl
  cached := List.nodup_nil
  cache_pending _ h := absurd h List.not_mem_nil
  cache_inprogress _ h := absurd h List.not_mem_nil
  pending_inprogress _ h := absurd h List.not_mem_nil
  admitted := Nat.zero_le _

/-- Dropping images and pending requests, and adding requests to keys in progress, is harmless. -/
theorem Protocol.mono (h : Protocol workers finishing s) {s' : ListWorld}
    (hfree : s'.freeWorkers = s.freeWorkers) (hbusy : s'.env.busy = s.env.busy)
    (hout : s'.env.outstanding = s.env.outstanding) (hcached : (keys s'.cache).Nodup)
    (hcache : keys s'.cache ⊆ keys s.cache) (hpending : keys s'.pending ⊆ keys s.pending)
    (hinprogress : ∀ k, k ∈ keys s'.inprogress ↔ k ∈ keys s.inprogress) :
    Protocol workers finishing s' where
  workers := by rw [hfree, hbusy]; exact h.workers
  outstanding := by rw [hout]; exact h.outstanding
  inprogress k := by rw [hinprogress, hout]; exact h.inprogress k
  cached := hcached
  cache_pending k hk hk' := h.cache_pending k (hcache hk) (hpending hk')
  cache_inprogress k hk hk' := h.cache_inprogress k (hcache hk) ((hinprogress k).1 hk')
  pending_inprogress k hk hk' := h.pending_inprogress k (hpending hk) ((hinprogress k).1 hk')
  admitted := (Finset.card_le_card fun k hk =>
    List.mem_toFinset.2 (hpending (List.mem_toFinset.1 hk))).trans h.admitted

/-- What does not show in the messages in flight is harmless. -/
theorem Protocol.withEnv (h : Protocol workers finishing s) (env : Environment)
    (hbusy : env.busy = s.env.busy) (hout : env.outstanding = s.env.outstanding) :
    Protocol workers finishing { s with env } :=
  h.mono rfl hbusy hout h.cached (fun _ => id) (fun _ => id) fun _ => Iff.rfl

/-! ## Dispatching -/

/-- A pass of the dispatch loop has nothing to do, or it hands the first pending key to the first
free worker. -/
theorem initiateNext_cases (clk : Clock) (s : ListWorld) :
    (Idle s ∧ s.initiateNext clk = s) ∨
    ∃ worker freeWorkers e pending, s.freeWorkers = worker :: freeWorkers ∧
      s.pending = e :: pending ∧ s.initiateNext clk = { s with
        pending := exceptKey e.key s.pending
        inprogress := s.inprogress ++ restamp clk s.env.reads (ofKey e.key s.pending)
        freeWorkers
        env := (s.env.tick (ofKey e.key s.pending).length).sendJob worker e.key } := by
  cases hfree : s.freeWorkers with
  | nil => exact .inl ⟨.inl hfree, by simp only [initiateNext, hfree]⟩
  | cons worker freeWorkers =>
    cases hpending : s.pending with
    | nil => exact .inl ⟨.inr hpending, by simp only [initiateNext, hfree, hpending]⟩
    | cons e pending =>
      refine .inr ⟨worker, freeWorkers, e, pending, rfl, rfl, ?_⟩
      rw [← hpending]
      simp only [initiateNext, hfree, hpending]

/-- A pass of the dispatch loop. -/
theorem Protocol.initiateNext (h : Protocol workers finishing s) :
    Protocol workers finishing (s.initiateNext clk) := by
  obtain ⟨-, heq⟩ | ⟨worker, freeWorkers, e, pending, hfree, hpending, heq⟩ :=
    initiateNext_cases clk s <;> rw [heq]
  · exact h
  have hmem : e.key ∈ keys s.pending := by simp [hpending, keys]
  have hnew : e.key ∉ s.env.outstanding ++ finishing := fun hk =>
    h.pending_inprogress _ hmem ((h.inprogress _).2 hk)
  have hout :=
    Environment.outstanding_sendJob (s.env.tick (ofKey e.key s.pending).length) worker e.key
  have hbusy := Environment.busy_sendJob (s.env.tick (ofKey e.key s.pending).length) worker e.key
  -- The keys in progress are the old ones and that of the job.
  have hin : ∀ k, k ∈ keys (s.inprogress ++ restamp clk s.env.reads (ofKey e.key s.pending)) ↔
      k ∈ keys s.inprogress ∨ k = e.key := by
    intro k
    rw [mem_keys_append, keys_restamp, mem_keys_ofKey]
    exact or_congr_right ⟨fun hk => hk.2, fun hk => ⟨hk ▸ hmem, hk⟩⟩
  refine ⟨?_, ?_, ?_, h.cached, ?_, ?_, ?_, ?_⟩
  · have hws := h.workers
    rw [hfree] at hws
    exact ((hbusy.append_left _).trans List.perm_middle).trans hws
  · exact ((hout.append_right finishing).nodup_iff).2 (List.nodup_cons.2 ⟨hnew, h.outstanding⟩)
  · intro k
    rw [hin, (hout.append_right finishing).mem_iff, h.inprogress, List.cons_append, List.mem_cons,
      or_comm]
    rfl
  · intro k hk hk'
    exact h.cache_pending k hk (mem_keys_exceptKey.1 hk').1
  · intro k hk hk'
    rcases (hin k).1 hk' with hk' | rfl
    · exact h.cache_inprogress k hk hk'
    · exact h.cache_pending _ hk hmem
  · intro k hk hk'
    obtain ⟨hk, hne⟩ := mem_keys_exceptKey.1 hk
    rcases (hin k).1 hk' with hk' | hk'
    · exact h.pending_inprogress k hk hk'
    · exact hne hk'
  · refine (Finset.card_le_card fun k hk => ?_).trans h.admitted
    exact List.mem_toFinset.2 (keys_exceptKey_sublist.subset (List.mem_toFinset.1 hk))

/-- Dispatching keeps the protocol, since each of its passes does. -/
theorem Protocol.tryInitiate (clk : Clock) (h : Protocol workers finishing s) :
    Protocol workers finishing (s.tryInitiate clk) :=
  Function.Iterate.rec (Protocol workers finishing) h (fun _ h => h.initiateNext) _

/-- After as many passes as there are free workers the dispatch loop has nothing left to do. -/
theorem idle_iterate : ∀ (n : Nat) (s : ListWorld), s.freeWorkers.length ≤ n →
    Idle ((initiateNext clk)^[n] s)
  | 0, _, hn => .inl (List.length_eq_zero_iff.1 (Nat.le_zero.1 hn))
  | n + 1, s, hn => by
    rw [Function.iterate_succ_apply]
    obtain ⟨hidle, heq⟩ | ⟨worker, freeWorkers, e, pending, hfree, hpending, heq⟩ :=
      initiateNext_cases clk s
    · rw [heq, Function.iterate_fixed heq]
      exact hidle
    · refine idle_iterate n _ ?_
      rw [heq]
      rw [hfree, List.length_cons] at hn
      exact Nat.le_of_succ_le_succ hn

/-- `try_initiate_pending_requests_processing` leaves no worker free beside a pending request. -/
theorem idle_tryInitiate (clk : Clock) (s : ListWorld) : Idle (s.tryInitiate clk) :=
  idle_iterate _ s le_rfl

/-- What dispatching leaves alone, and where its jobs come from. -/
structure Dispatched (s s' : ListWorld) : Prop where
  cache : s'.cache = s.cache
  memorySize : s'.memorySize = s.memorySize
  env : s'.env = { s.env with
    reads := s'.env.reads, transformerRequests := s'.env.transformerRequests }
  pending : keys s'.pending ⊆ keys s.pending
  jobs : ∃ new, s'.env.transformerRequests = s.env.transformerRequests ++ new ∧
    ∀ job ∈ new, job.key ∈ keys s.pending

/-- To dispatch nothing leaves everything alone. -/
theorem Dispatched.refl (s : ListWorld) : Dispatched s s :=
  ⟨rfl, rfl, rfl, fun _ => id, [], (List.append_nil _).symm, fun _ h => absurd h List.not_mem_nil⟩

/-- One more pass sends a job for a pending key to a free worker, or does nothing. -/
theorem Dispatched.initiateNext {s₀ : ListWorld} (h : Dispatched s₀ s) :
    Dispatched s₀ (s.initiateNext clk) := by
  obtain ⟨-, heq⟩ | ⟨worker, freeWorkers, e, pending, hfree, hpending, heq⟩ :=
    initiateNext_cases clk s <;> rw [heq]
  · exact h
  · obtain ⟨new, hjobs, hnew⟩ := h.jobs
    refine ⟨h.cache, h.memorySize, ?_, ?_, new ++ [⟨worker, e.key⟩], ?_, ?_⟩
    · simp only [Environment.tick, Environment.sendJob]
      rw [h.env]
    · exact List.Subset.trans keys_exceptKey_sublist.subset h.pending
    · simp only [Environment.tick, Environment.sendJob, hjobs, List.append_assoc]
    · intro job hjob
      rcases List.mem_append.1 hjob with hjob | hjob
      · exact hnew job hjob
      · cases List.mem_singleton.1 hjob
        exact h.pending (by simp [hpending, keys])

/-- The whole dispatch loop leaves alone what each of its passes does. -/
theorem dispatched_tryInitiate (clk : Clock) (s : ListWorld) : Dispatched s (s.tryInitiate clk) :=
  Function.Iterate.rec (Dispatched s) (.refl s) (fun _ h => h.initiateNext) _

/-! ## Requests -/

/-- A request for a new key is admitted while there is room. -/
theorem Protocol.joinPending_new (clk : Clock) (h : Protocol workers finishing s)
    (req : RequestHandle)
    {key : ResizeRequestKey} (hcache : key ∉ keys s.cache) (hin : key ∉ keys s.inprogress)
    (hroom : (keys s.pending).toFinset.card < maxPendingRequests) :
    Protocol workers finishing (s.joinPending clk req key) := by
  have hmem : ∀ k, k ∈ keys (s.joinPending clk req key).pending ↔ k ∈ keys s.pending ∨ k = key := by
    simp [ListWorld.joinPending, keys]
  refine ⟨h.workers, h.outstanding, h.inprogress, h.cached, ?_, h.cache_inprogress, ?_, ?_⟩
  · intro k hk hk'
    rcases (hmem k).1 hk' with hk' | rfl
    · exact h.cache_pending k hk hk'
    · exact hcache hk
  · intro k hk hk'
    rcases (hmem k).1 hk with hk | rfl
    · exact h.pending_inprogress k hk hk'
    · exact hin hk'
  · have hsub : (keys (s.joinPending clk req key).pending).toFinset ⊆
        insert key (keys s.pending).toFinset := by
      intro k hk
      rw [Finset.mem_insert, List.mem_toFinset, or_comm, ← hmem]
      exact List.mem_toFinset.1 hk
    exact ((Finset.card_le_card hsub).trans (Finset.card_insert_le _ _)).trans hroom

/-- An entry found by its key is in the list and has the key. -/
theorem find?_key_some {V : Type} {l : List (Entry ResizeRequestKey V)} {key : ResizeRequestKey}
    {e : Entry ResizeRequestKey V} (h : l.find? (·.key = key) = some e) : e ∈ l ∧ e.key = key :=
  ⟨List.mem_of_find?_eq_some h, of_decide_eq_true
    (List.find?_some (p := fun d : Entry ResizeRequestKey V => d.key = key) h)⟩

/-- If no entry is found by a key, the list does not have the key. -/
theorem find?_key_none {V : Type} {l : List (Entry ResizeRequestKey V)} {key : ResizeRequestKey}
    (h : l.find? (·.key = key) = none) : key ∉ keys l := by
  rintro hmem
  obtain ⟨e, he, rfl⟩ := List.mem_map.1 hmem
  exact List.find?_eq_none.1 h e he (decide_eq_true rfl)

/-- Where a request for an image goes. -/
theorem onResizeRequest_cases (clk : Clock) (s : ListWorld) (req : RequestHandle)
    (key : ResizeRequestKey) :
    (∃ e ∈ s.cache, e.key = key ∧ s.onResizeRequest clk req key = s.serveFromCache clk req e) ∨
    (key ∉ keys s.cache ∧ key ∈ keys s.inprogress ∧
      s.onResizeRequest clk req key = s.joinInprogress clk req key) ∨
    (key ∉ keys s.cache ∧ key ∉ keys s.inprogress ∧ key ∈ keys s.pending ∧
      s.onResizeRequest clk req key = s.joinPending clk req key) ∨
    (key ∉ keys s.cache ∧ key ∉ keys s.inprogress ∧ key ∉ keys s.pending ∧
      (keys s.pending).toFinset.card < maxPendingRequests ∧
      s.onResizeRequest clk req key = (s.joinPending clk req key).tryInitiate clk) ∨
    (key ∉ keys s.cache ∧ key ∉ keys s.inprogress ∧ key ∉ keys s.pending ∧
      maxPendingRequests ≤ (keys s.pending).toFinset.card ∧
      s.onResizeRequest clk req key = s.reject clk req key) := by
  rw [onResizeRequest]
  cases hfind : s.cache.find? (·.key = key) with
  | some e =>
    obtain ⟨he, hk⟩ := find?_key_some hfind
    exact .inl ⟨e, he, hk, rfl⟩
  | none =>
    have hcache := find?_key_none hfind
    by_cases hin : key ∈ keys s.inprogress
    · exact .inr (.inl ⟨hcache, hin, if_pos hin⟩)
    by_cases hpending : key ∈ keys s.pending
    · exact .inr (.inr (.inl ⟨hcache, hin, hpending, (if_neg hin).trans (if_pos hpending)⟩))
    by_cases hroom : (keys s.pending).toFinset.card < maxPendingRequests
    · exact .inr (.inr (.inr (.inl ⟨hcache, hin, hpending, hroom,
        (if_neg hin).trans ((if_neg hpending).trans (if_pos hroom))⟩)))
    · exact .inr (.inr (.inr (.inr ⟨hcache, hin, hpending, Nat.le_of_not_lt hroom,
        (if_neg hin).trans ((if_neg hpending).trans (if_neg hroom))⟩)))

/-- A request to delete the cache carries the admin token, or its answer is put off. -/
theorem onDeleteCacheRequest_cases (s : ListWorld) (envToken : Option CxxString)
    (req : RequestHandle) (token : CxxString) :
    (envToken.filter (· ≠ []) = some token ∧ s.onDeleteCacheRequest envToken req token =
      { s with
        cache := []
        env := s.env.answer req (do200PlaintextResponse req "Cache deleted\r\n") }) ∨
    (envToken.filter (· ≠ []) ≠ some token ∧ ∃ text, s.onDeleteCacheRequest envToken req token =
      { s with env := s.env.sendDelayed ⟨req, text⟩ }) := by
  unfold onDeleteCacheRequest
  cases envToken.filter (· ≠ []) with
  | none => exact .inr ⟨nofun, _, rfl⟩
  | some valid =>
    by_cases htoken : token = valid
    · exact .inl ⟨htoken ▸ rfl, if_pos htoken⟩
    · exact .inr ⟨fun h => htoken (Option.some.inj h).symm, _, if_neg htoken⟩

/-- Where keys differ, the entries of all other keys are those before and behind an entry. -/
theorem exceptKey_split {V : Type} {l₁ l₂ : List (Entry ResizeRequestKey V)}
    {e : Entry ResizeRequestKey V} (h : (keys (l₁ ++ e :: l₂)).Nodup) :
    exceptKey e.key (l₁ ++ e :: l₂) = l₁ ++ l₂ := by
  have hne : ∀ d ∈ l₁ ++ l₂, d.key ≠ e.key := by
    rw [keys, List.map_append, List.map_cons, List.nodup_middle, List.nodup_cons] at h
    intro d hd heq
    exact h.1 (heq ▸ List.map_append ▸ List.mem_map_of_mem hd)
  rw [exceptKey, List.filter_append, List.filter_cons_of_neg (by simp), ← List.filter_append,
    List.filter_eq_self]
  exact fun d hd => decide_eq_true (hne d hd)

/-- A cache hit only moves the entry. -/
theorem keys_serveFromCache (clk : Clock) (h : (keys s.cache).Nodup) (req : RequestHandle)
    {e : Entry ResizeRequestKey DatasizableBlob} (he : e ∈ s.cache) :
    (keys (s.serveFromCache clk req e).cache).Perm (keys s.cache) := by
  obtain ⟨l₁, l₂, hl⟩ := List.append_of_mem he
  rw [hl] at h
  have hperm : (l₁ ++ l₂ ++ [{ e with time := clk s.env.reads }]).Perm
      (l₁ ++ { e with time := clk s.env.reads } :: l₂) :=
    (List.perm_append_singleton _ _).trans List.perm_middle.symm
  show (keys (exceptKey e.key s.cache ++ [_])).Perm _
  rw [hl, exceptKey_split h]
  refine (hperm.map (·.key)).trans (List.Perm.of_eq ?_)
  rw [keys, List.map_append, List.map_append]
  rfl

/-- Wherever a request for an image goes, the protocol is kept: a cached key is not added to a
queue, and a new key only while there is room. -/
theorem Protocol.onResizeRequest (h : Protocol workers [] s) (req : RequestHandle)
    (key : ResizeRequestKey) : Protocol workers [] (s.onResizeRequest clk req key) := by
  obtain ⟨e, he, -, heq⟩ | ⟨-, hin, heq⟩ | ⟨-, -, hpending, heq⟩ | ⟨hcache, hin, -, hroom, heq⟩ |
    ⟨-, -, -, -, heq⟩ := onResizeRequest_cases clk s req key <;> rw [heq]
  · have hkeys := keys_serveFromCache clk h.cached req he
    exact h.mono rfl rfl rfl (hkeys.nodup_iff.2 h.cached) hkeys.subset (fun _ => id)
      fun _ => Iff.rfl
  · refine h.mono rfl rfl rfl h.cached (fun _ => id) (fun _ => id) ?_
    intro k
    simp only [ListWorld.joinInprogress, keys, List.map_append, List.map_singleton, List.mem_append,
      List.mem_singleton]
    exact ⟨fun hk => hk.elim id fun hk => hk ▸ hin, .inl⟩
  · refine h.mono rfl rfl rfl h.cached (fun _ => id) ?_ fun _ => Iff.rfl
    intro k hk
    simp only [ListWorld.joinPending, keys, List.map_append, List.map_singleton, List.mem_append,
      List.mem_singleton] at hk
    exact hk.elim id fun hk => hk ▸ hpending
  · exact (h.joinPending_new clk req hcache hin hroom).tryInitiate clk
  · exact h.withEnv _ rfl rfl

/-- After a request for an image no worker is free beside a pending request: the dispatch loop ran,
or the request joined others of its key that no worker was free for, or neither the workers nor the
pending requests have changed. -/
theorem Idle.onResizeRequest (h : Idle s) (req : RequestHandle) (key : ResizeRequestKey) :
    Idle (s.onResizeRequest clk req key) := by
  obtain ⟨e, -, -, heq⟩ | ⟨-, -, heq⟩ | ⟨-, -, hpending, heq⟩ | ⟨-, -, -, -, heq⟩ |
    ⟨-, -, -, -, heq⟩ := onResizeRequest_cases clk s req key <;> rw [heq]
  · exact h
  · exact h
  · refine .inl (h.resolve_right ?_)
    intro hnil
    rw [hnil] at hpending
    exact List.not_mem_nil hpending
  · exact idle_tryInitiate clk _
  · exact h

/-! ## Results -/

/-- The delivered result leaves its key behind, and its worker is free. -/
theorem Protocol.deliverResult (h : Protocol workers [] s) {i : Nat} {cmd : ResizeResult}
    (hcmd : s.env.resizeResults[i]? = some cmd) :
    Protocol workers [cmd.key]
      (pushFreeWorker { s with env := s.env.deliverResult i } cmd.worker) := by
  have hout : s.env.outstanding.Perm ((s.env.deliverResult i).outstanding ++ [cmd.key]) :=
    (Environment.outstanding_deliverResult _ hcmd).trans (List.perm_append_singleton _ _).symm
  have hout' : (s.env.outstanding ++ []).Perm
      ((s.env.deliverResult i).outstanding ++ [cmd.key]) := by
    rwa [List.append_nil]
  refine ⟨?_, hout'.nodup_iff.1 h.outstanding, ?_, h.cached, h.cache_pending,
    h.cache_inprogress, h.pending_inprogress, h.admitted⟩
  · have hbusy := Environment.busy_deliverResult s.env hcmd
    exact (((hbusy.append_left _).trans List.perm_middle).symm).trans h.workers
  · intro k
    exact (h.inprogress k).trans hout'.mem_iff

/-- Eviction keeps a part of the images, the last of them in any case. -/
theorem evict_suffix : ∀ (l : ImageList) (memorySize : UInt64), (evict l memorySize).1 <:+ l
  | [], _ => List.suffix_refl _
  | [_], _ => List.suffix_refl _
  | e :: d :: l, memorySize => by
    rw [evict]
    split
    · exact (evict_suffix (d :: l) _).trans (List.suffix_cons _ _)
    · exact List.suffix_refl _

/-- The requests of the key of a result are gone, and the key may be cached. -/
theorem Protocol.finish {cmd : ResizeResult} (h : Protocol workers [cmd.key] s)
    (requests : RequestList) :
    Protocol workers [] ((s.extract cmd.key).finish clk cmd requests) := by
  have hkey : cmd.key ∈ keys s.inprogress := (h.inprogress _).2 (by simp)
  have hnodup := List.nodup_append'.1 h.outstanding
  have hout : ∀ k, k ∈ keys (exceptKey cmd.key s.inprogress) ↔ k ∈ s.env.outstanding ++ [] := by
    intro k
    rw [mem_keys_exceptKey, h.inprogress, List.mem_append, List.append_nil, List.mem_singleton]
    constructor
    · rintro ⟨hk | hk, hne⟩
      · exact hk
      · exact absurd hk hne
    · exact fun hk => ⟨.inl hk, fun heq => hnodup.2.2 hk (by simp [heq])⟩
  have hnodup' : (s.env.outstanding ++ []).Nodup := by
    rw [List.append_nil]
    exact hnodup.1
  have hin : ∀ k, k ∈ keys (exceptKey cmd.key s.inprogress) → k ∈ keys s.inprogress :=
    fun k hk => (mem_keys_exceptKey.1 hk).1
  cases hresult : cmd.result with
  | failed result =>
    simp only [ListWorld.finish, hresult]
    exact ⟨h.workers, hnodup', hout, h.cached, h.cache_pending,
      fun k hk hk' => h.cache_inprogress k hk (hin k hk'),
      fun k hk hk' => h.pending_inprogress k hk (hin k hk'), h.admitted⟩
  | successful result =>
    simp only [ListWorld.finish, hresult]
    let e : Entry ResizeRequestKey DatasizableBlob :=
      ⟨cmd.key, result.imageBlob, clk s.env.reads⟩
    have hcache : (keys (evict (s.cache ++ [e]) (s.memorySize + result.imageBlob.size)).1).Sublist
        (keys s.cache ++ [cmd.key]) := by
      simpa [keys, e] using ((evict_suffix (s.cache ++ [e]) _).sublist.map (·.key))
    have hmem : ∀ k ∈ keys (evict (s.cache ++ [e]) (s.memorySize + result.imageBlob.size)).1,
        k ∈ keys s.cache ∨ k = cmd.key := by
      intro k hk
      simpa using hcache.subset hk
    have hnew : cmd.key ∉ keys s.cache := fun hk => h.cache_inprogress _ hk hkey
    refine ⟨h.workers, hnodup', hout, hcache.nodup ?_, ?_, ?_,
      fun k hk hk' => h.pending_inprogress k hk (hin k hk'), h.admitted⟩
    · exact h.cached.append (List.nodup_singleton _) (List.disjoint_singleton.2 hnew)
    · intro k hk hk'
      rcases hmem k hk with hk | rfl
      · exact h.cache_pending k hk hk'
      · exact h.pending_inprogress _ hk' hkey
    · intro k hk hk'
      rcases hmem k hk with hk | rfl
      · exact h.cache_inprogress k hk (hin k hk')
      · exact (mem_keys_exceptKey.1 hk').2 rfl

/-- Answering and storing touch neither the workers nor the pending requests. -/
theorem Idle.finish (h : Idle s) (cmd : ResizeResult) (requests : RequestList) :
    Idle ((s.extract cmd.key).finish clk cmd requests) := by
  cases hresult : cmd.result <;> simp only [ListWorld.finish, hresult] <;> exact h

/-! ## Deletion of the cache, timers, and all actions -/

/-- A request to delete the cache keeps the protocol, which allows to drop all images. -/
theorem Protocol.onDeleteCacheRequest (h : Protocol workers [] s) (envToken : Option CxxString)
    (req : RequestHandle) (token : CxxString) :
    Protocol workers [] (s.onDeleteCacheRequest envToken req token) := by
  obtain ⟨-, heq⟩ | ⟨-, text, heq⟩ := onDeleteCacheRequest_cases s envToken req token <;> rw [heq]
  · exact h.mono rfl rfl rfl List.nodup_nil (List.nil_subset _) (fun _ => id) fun _ => Iff.rfl
  · exact h.withEnv _ rfl rfl

/-- A request to delete the cache touches neither the workers nor the pending requests. -/
theorem Idle.onDeleteCacheRequest (h : Idle s) (envToken : Option CxxString)
    (req : RequestHandle) (token : CxxString) :
    Idle (s.onDeleteCacheRequest envToken req token) := by
  obtain ⟨-, heq⟩ | ⟨-, text, heq⟩ := onDeleteCacheRequest_cases s envToken req token <;> rw [heq]
  · exact h
  · exact h

/-- The sweep of the cache keeps the protocol, which allows to drop images. -/
theorem Protocol.onClearCache (h : Protocol workers [] s) :
    Protocol workers [] (s.onClearCache clk) := by
  have hsub : (keys (s.onClearCache clk).cache).Sublist (keys s.cache) :=
    (List.dropWhile_sublist _).map _
  exact h.mono rfl rfl rfl (hsub.nodup h.cached) hsub.subset (fun _ => id) fun _ => Iff.rfl

/-- The sweep of the pending requests keeps the protocol, which allows to drop these. -/
theorem Protocol.onCheckPendingRequests (h : Protocol workers [] s) :
    Protocol workers [] (s.onCheckPendingRequests clk) := by
  have hsub : (keys (s.onCheckPendingRequests clk).pending).Sublist (keys s.pending) :=
    (List.dropWhile_sublist _).map _
  exact h.mono rfl rfl rfl h.cached (fun _ => id) hsub.subset fun _ => Iff.rfl

/-- If no request was pending before the sweep, none is pending after it. -/
theorem Idle.onCheckPendingRequests (h : Idle s) : Idle (s.onCheckPendingRequests clk) := by
  refine h.imp_right ?_
  intro hnil
  show s.pending.dropWhile _ = []
  rw [hnil]; rfl

/-- Every action keeps the protocol. -/
theorem Protocol.next (h : Protocol workers [] s) (a : World.Action) :
    Protocol workers [] (s.next clk a) := by
  cases a with
  | resizeRequest keepAlive image targetFormat params =>
    exact (h.withEnv (s.env.receive _ _) rfl rfl).onResizeRequest _ _
  | deleteCacheRequest keepAlive token envToken =>
    exact (h.withEnv (s.env.receiveDelete _) rfl rfl).onDeleteCacheRequest _ _ _
  | transform i result =>
    rw [ListWorld.next]
    split
    case h_1 cmd hcmd =>
      have hout : (_ ++ []).Perm (_ ++ []) :=
        (Environment.outstanding_transform s.env hcmd result).append_right []
      refine ⟨?_, hout.nodup_iff.2 h.outstanding, ?_, h.cached, h.cache_pending,
        h.cache_inprogress, h.pending_inprogress, h.admitted⟩
      · exact ((Environment.busy_transform s.env hcmd result).append_left _).trans h.workers
      · intro k
        exact (h.inprogress k).trans hout.mem_iff.symm
    case h_2 => exact h
  | resizeResult i =>
    rw [ListWorld.next]
    split
    case h_1 cmd hcmd => exact ((h.deliverResult hcmd).tryInitiate clk).finish _
    case h_2 => exact h
  | negativeDeleteCacheResponse i =>
    rw [ListWorld.next]
    split
    case h_1 cmd hcmd => exact h.withEnv _ rfl rfl
    case h_2 => exact h
  | clearCache => exact h.onClearCache
  | checkPendingRequests => exact h.onCheckPendingRequests

/-- No action leaves a worker idle beside a pending request. -/
theorem Idle.next (h : Idle s) (a : World.Action) : Idle (s.next clk a) := by
  cases a with
  | resizeRequest keepAlive image targetFormat params =>
    exact Idle.onResizeRequest (s := { s with env := s.env.receive _ _ }) h _ _
  | deleteCacheRequest keepAlive token envToken =>
    exact Idle.onDeleteCacheRequest (s := { s with env := s.env.receiveDelete _ }) h _ _ _
  | transform i result => rw [ListWorld.next]; split <;> exact h
  | resizeResult i =>
    rw [ListWorld.next]
    split
    case h_1 cmd hcmd => exact (idle_tryInitiate clk _).finish _ _
    case h_2 => exact h
  | negativeDeleteCacheResponse i => rw [ListWorld.next]; split <;> exact h
  | clearCache => exact h
  | checkPendingRequests => exact h.onCheckPendingRequests

end ListWorld

end Shrimp
