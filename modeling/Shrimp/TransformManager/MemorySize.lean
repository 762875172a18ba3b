import Shrimp.TransformManager.Safety

/-!
# The counter of the cache memory

`m_transformed_cache_memory_size` is kept by hand beside the cache. Storing an image and evicting
one keep it right, but `on_clear_cache` and `on_delete_cache_request` remove images and leave it
alone. `uncounted` is the total size an action removes in this way, and `memorySize_next` says that
the counter runs ahead of the true total by exactly these sizes, modulo 2^64 as the counter has 64
bits. Hence in every reachable state it is the true total and `uncountedSoFar` together
(`memoryDrift_of_run`), and it is right in all states of a run exactly if no action of the run
removes images of any size uncounted (`memory_size_accounted_iff`); otherwise it never comes back
(`memory_size_not_accounted`).
-/

namespace Shrimp

open Execution

/-! ## Sizes -/

/-- Two lists of images have the size of both together. -/
theorem totalSize_append (l l' : ImageList) : totalSize (l ++ l') = totalSize l + totalSize l' := by
  rw [totalSize, List.map_append, List.sum_append]; rfl

/-- The size of a list of images with one in front of it. -/
theorem totalSize_cons (e : Entry ResizeRequestKey DatasizableBlob) (l : ImageList) :
    totalSize (e :: l) = e.value.size.toNat + totalSize l := List.sum_cons

/-- The size of a list of images with one behind it. -/
theorem totalSize_concat (l : ImageList) (e : Entry ResizeRequestKey DatasizableBlob) :
    totalSize (l ++ [e]) = totalSize l + e.value.size.toNat := by
  rw [totalSize_append, totalSize_cons]; rfl

/-- The last images of a list are not larger than all of them. -/
theorem totalSize_suffix_le {l l' : ImageList} (h : l' <:+ l) : totalSize l' ≤ totalSize l := by
  obtain ⟨front, rfl⟩ := h
  rw [totalSize_append]
  exact Nat.le_add_left _ _

/-- The total size of all images ever put into the cache. -/
def Environment.storedSize (env : Environment) : Nat :=
  (env.stored.map fun p => p.2.size.toNat).sum

/-- An image that is put into the cache adds its size to what was stored in all. -/
theorem Environment.storedSize_store (env : Environment) (key : ResizeRequestKey)
    (blob : DatasizableBlob) :
    (env.store key blob).storedSize = env.storedSize + blob.size.toNat := by
  simp [storedSize, store]

/-- The total size of the images that leave the cache in an action while the counter stays. -/
def uncounted (now : TimePoint) (images : ImageList) : World.Action → Nat
  | .deleteCacheRequest _ token envToken =>
    if envToken.filter (· ≠ []) = some token then totalSize images else 0
  | .clearCache => totalSize (images.takeWhile (expired (now - maxCacheLifetime)))
  | _ => 0

namespace ListWorld

variable {clk : Clock} {workers : List Mbox} {s s' : ListWorld} {u u' : Nat}

/-! ## One action -/

/-- The counter is not below the true total and not above the total of all that was stored. -/
structure MemoryBounds (s : ListWorld) : Prop where
  lower : totalSize s.cache ≤ s.memorySize.toNat
  upper : s.memorySize.toNat ≤ s.env.storedSize

/-- The counter holds `u` bytes beside those of the cached images, all of which were stored. -/
structure MemoryDrift (u : Nat) (s : ListWorld) : Prop where
  counter : s.memorySize = .ofNat (u + totalSize s.cache)
  stored : u + totalSize s.cache ≤ s.env.storedSize

/-- How the counter moves while the size `u` leaves uncounted. -/
structure MemoryMoves (u : Nat) (s s' : ListWorld) : Prop where
  drift : s'.memorySize + .ofNat (totalSize s.cache) =
    s.memorySize + .ofNat (u + totalSize s'.cache)
  growth : u + totalSize s'.cache + s.env.storedSize ≤ totalSize s.cache + s'.env.storedSize

/-- Where neither the size of the images nor the counter changes, nothing is removed uncounted. -/
theorem MemoryMoves.same (hcache : totalSize s'.cache = totalSize s.cache)
    (hmemory : s'.memorySize = s.memorySize) (hstored : s'.env.stored = s.env.stored) :
    MemoryMoves 0 s s' where
  drift := by rw [hcache, hmemory, Nat.zero_add]
  growth := by rw [hcache, Nat.zero_add, Environment.storedSize, Environment.storedSize, hstored]

/-- Where a move starts is told by the cache, the counter and the log alone. -/
theorem MemoryMoves.startsAt {s₀ : ListWorld} (h : MemoryMoves u s₀ s')
    (hcache : s₀.cache = s.cache) (hmemory : s₀.memorySize = s.memorySize)
    (hstored : s₀.env.stored = s.env.stored) : MemoryMoves u s s' where
  drift := by rw [← hcache, ← hmemory]; exact h.drift
  growth := by rw [← hcache, Environment.storedSize, ← hstored]; exact h.growth

/-- What is removed uncounted in two moves adds up. -/
theorem MemoryMoves.trans {s₁ : ListWorld} (h : MemoryMoves u s s₁) (h' : MemoryMoves u' s₁ s') :
    MemoryMoves (u + u') s s' where
  drift := by
    have hdrift := h.drift
    have hdrift' := h'.drift
    rw [UInt64.ofNat_add] at hdrift hdrift' ⊢
    rw [UInt64.ofNat_add]
    grind
  growth := by
    have hgrowth := h.growth
    have hgrowth' := h'.growth
    omega

/-- What leaves uncounted adds up in the counter. -/
theorem MemoryDrift.moves (h : MemoryDrift u s) (hmoves : MemoryMoves u' s s') :
    MemoryDrift (u + u') s' where
  counter := by
    have hcounter := h.counter
    have hdrift := hmoves.drift
    rw [UInt64.ofNat_add] at hcounter hdrift ⊢
    rw [UInt64.ofNat_add]
    grind
  stored := by
    have hstored := h.stored
    have hgrowth := hmoves.growth
    omega

/-- A counter that can hold all that was stored does not overflow. -/
theorem MemoryDrift.toNat_memorySize (h : MemoryDrift u s) (hstored : s.env.storedSize < 2 ^ 64) :
    s.memorySize.toNat = u + totalSize s.cache := by
  rw [h.counter]
  exact UInt64.toNat_ofNat_of_lt' (h.stored.trans_lt hstored)

/-- As long as less was stored than the counter can hold, it is never below the size of the cached
images, and never above what was stored. -/
theorem MemoryDrift.bounds (h : MemoryDrift u s) (hstored : s.env.storedSize < 2 ^ 64) :
    MemoryBounds s where
  lower := (Nat.le_add_left _ u).trans_eq (h.toNat_memorySize hstored).symm
  upper := (h.toNat_memorySize hstored).trans_le h.stored

/-- Dispatching has nothing to do with the cache. -/
theorem memoryMoves_tryInitiate (clk : Clock) (s : ListWorld) :
    MemoryMoves 0 s (s.tryInitiate clk) := by
  have hd := dispatched_tryInitiate clk s
  exact .same (by rw [hd.cache]) hd.memorySize (by rw [hd.env])

/-- A cache hit changes the order only. -/
theorem totalSize_serveFromCache (clk : Clock) (h : (keys s.cache).Nodup) (req : RequestHandle)
    {e : Entry ResizeRequestKey DatasizableBlob} (he : e ∈ s.cache) :
    totalSize (s.serveFromCache clk req e).cache = totalSize s.cache := by
  obtain ⟨l₁, l₂, hl⟩ := List.append_of_mem he
  have hcache : (s.serveFromCache clk req e).cache =
      exceptKey e.key s.cache ++ [{ e with time := clk s.env.reads }] := rfl
  rw [hl] at h hcache
  rw [hcache, hl, exceptKey_split h, totalSize_append, totalSize_append, totalSize_append,
    totalSize_cons, totalSize_cons]
  simp only [totalSize, List.map_nil, List.sum_nil]
  omega

/-- Eviction takes from the counter what it takes from the cache. -/
theorem evict_drift : ∀ (l : ImageList) (memorySize : UInt64),
    (evict l memorySize).2 + .ofNat (totalSize l) =
      memorySize + .ofNat (totalSize (evict l memorySize).1)
  | [], _ => rfl
  | [_], _ => rfl
  | e :: d :: l, memorySize => by
    rw [evict]
    split
    · have ih := evict_drift (d :: l) (memorySize - e.value.size)
      rw [totalSize_cons, UInt64.ofNat_add, UInt64.ofNat_toNat]
      grind
    · rfl

/-- Storing an image counts it. -/
theorem memoryMoves_store (clk : Clock) (s : ListWorld) (key : ResizeRequestKey)
    (blob : DatasizableBlob) : MemoryMoves 0 s (s.store clk key blob) := by
  let e : Entry ResizeRequestKey DatasizableBlob := ⟨key, blob, clk s.env.reads⟩
  have hsize : totalSize (s.cache ++ [e]) = totalSize s.cache + blob.size.toNat :=
    totalSize_concat s.cache e
  have hdrift := evict_drift (s.cache ++ [e]) (s.memorySize + blob.size)
  have hle := totalSize_suffix_le (evict_suffix (s.cache ++ [e]) (s.memorySize + blob.size))
  constructor
  · show (evict (s.cache ++ [e]) (s.memorySize + blob.size)).2 + .ofNat (totalSize s.cache) =
      s.memorySize +
        .ofNat (0 + totalSize (evict (s.cache ++ [e]) (s.memorySize + blob.size)).1)
    rw [hsize, UInt64.ofNat_add, UInt64.ofNat_toNat] at hdrift
    rw [Nat.zero_add]
    grind
  · show 0 + totalSize (evict (s.cache ++ [e]) (s.memorySize + blob.size)).1 + s.env.storedSize ≤
      totalSize s.cache + ((s.env.tick 1).store key blob).storedSize
    rw [Environment.storedSize_store]
    show _ ≤ totalSize s.cache + (s.env.storedSize + blob.size.toNat)
    omega

/-- The images a result brings are counted. -/
theorem memoryMoves_onResizeResult (clk : Clock) (s : ListWorld) (cmd : ResizeResult) :
    MemoryMoves 0 s (s.onResizeResult clk cmd) := by
  have htry : MemoryMoves 0 s ((s.pushFreeWorker cmd.worker).tryInitiate clk) :=
    (memoryMoves_tryInitiate clk (s.pushFreeWorker cmd.worker)).startsAt rfl rfl rfl
  cases hresult : cmd.result with
  | failed result =>
    simp only [ListWorld.onResizeResult, ListWorld.finish, hresult]
    exact ⟨htry.drift, htry.growth⟩
  | successful result =>
    simp only [ListWorld.onResizeResult, ListWorld.finish, hresult]
    have hstore := memoryMoves_store clk
      (((s.pushFreeWorker cmd.worker).tryInitiate clk).extract cmd.key) cmd.key result.imageBlob
    show MemoryMoves (0 + 0 + 0) s _
    exact (htry.trans (hstore.startsAt rfl rfl rfl)).trans (.same rfl rfl rfl)

/-- Every action moves the counter away from the true total by what it removes uncounted. -/
theorem memorySize_next (hp : Protocol workers [] s) (a : World.Action) :
    MemoryMoves (uncounted (clk s.env.reads) s.cache a) s (s.next clk a) := by
  cases a with
  | resizeRequest keepAlive image targetFormat params =>
    show MemoryMoves 0 s _
    rw [ListWorld.next]
    obtain ⟨e, he, -, heq⟩ | ⟨-, -, heq⟩ | ⟨-, -, -, heq⟩ | ⟨-, -, -, -, heq⟩ |
      ⟨-, -, -, -, heq⟩ := onResizeRequest_cases clk { s with
        env := s.env.receive ⟨s.env.accepted, keepAlive⟩ ⟨image, targetFormat, params⟩ }
        ⟨s.env.accepted, keepAlive⟩ ⟨image, targetFormat, params⟩ <;> rw [heq]
    · exact .same (totalSize_serveFromCache clk (s := { s with
        env := s.env.receive ⟨s.env.accepted, keepAlive⟩ ⟨image, targetFormat, params⟩ })
        hp.cached _ he) rfl rfl
    · exact .same rfl rfl rfl
    · exact .same rfl rfl rfl
    · exact (memoryMoves_tryInitiate clk _).startsAt rfl rfl rfl
    · exact .same rfl rfl rfl
  | deleteCacheRequest keepAlive token envToken =>
    rw [ListWorld.next, uncounted]
    obtain ⟨hvalid, heq⟩ | ⟨hvalid, text, heq⟩ :=
      onDeleteCacheRequest_cases _ envToken _ token <;> rw [heq]
    · rw [if_pos hvalid]
      exact ⟨rfl, le_rfl⟩
    · rw [if_neg hvalid]
      exact .same rfl rfl rfl
  | transform i result => rw [ListWorld.next]; split <;> exact .same rfl rfl rfl
  | resizeResult i =>
    rw [ListWorld.next]
    cases hcmd : s.env.resizeResults[i]? with
    | none => exact .same rfl rfl rfl
    | some cmd =>
      exact (memoryMoves_onResizeResult clk { s with env := s.env.deliverResult i }
        cmd).startsAt rfl rfl rfl
  | negativeDeleteCacheResponse i => rw [ListWorld.next]; split <;> exact .same rfl rfl rfl
  | clearCache =>
    have hsplit := congrArg totalSize (List.takeWhile_append_dropWhile
      (p := expired (clk s.env.reads - maxCacheLifetime)) (l := s.cache))
    rw [totalSize_append] at hsplit
    constructor
    · show s.memorySize + .ofNat (totalSize s.cache) = s.memorySize + .ofNat
        (totalSize (s.cache.takeWhile (expired (clk s.env.reads - maxCacheLifetime))) +
          totalSize (s.cache.dropWhile (expired (clk s.env.reads - maxCacheLifetime))))
      rw [hsplit]
    · exact (congrArg (· + s.env.storedSize) hsplit).le
  | checkPendingRequests => exact .same rfl rfl rfl

/-- The total size of what was stored only grows. -/
theorem LogGrows.storedSize_le {env env' : Environment} (h : LogGrows env env') :
    env.storedSize ≤ env'.storedSize := by
  obtain ⟨new, hnew⟩ := h.stored
  rw [Environment.storedSize, Environment.storedSize, ← hnew, List.map_append, List.sum_append]
  exact Nat.le_add_right _ _

end ListWorld

namespace World

variable {clk : Clock} {workers : List Mbox} {w : World} {s : ListWorld}

/-- The counter equals the sum of the sizes of the cached images. -/
def MemorySizeAccounted (w : World) : Prop :=
  w.manager.transformedCacheMemorySize.toNat = totalSize w.manager.transformedCache.toList

/-- The action removes no images, or only empty ones, without taking their sizes from the counter: a
tick of the cache timer finds no image of any size too old, and a request with the admin token finds
none at all. -/
def KeepsMemorySize (clk : Clock) (w : World) : Action → Prop
  | .deleteCacheRequest _ token envToken =>
    envToken = some token → token ≠ [] → totalSize w.manager.transformedCache.toList = 0
  | .clearCache => totalSize (w.manager.transformedCache.toList.takeWhile
      (expired (clk w.env.reads - maxCacheLifetime))) = 0
  | _ => True

/-- What leaves the cache of `w` uncounted in an action. -/
def uncounted (clk : Clock) (w : World) (a : Action) : Nat :=
  Shrimp.uncounted (clk w.env.reads) w.manager.transformedCache.toList a

/-- What left the cache uncounted in a run of the manager. -/
def uncountedSoFar (clk : Clock) (workers : List Mbox) (before : List Action) : Nat :=
  total (step clk) (uncounted clk) (init workers) before

/-- What an action removes uncounted can be told from the list of images. -/
theorem Refines.uncounted_eq (h : w.Refines s) (a : Action) :
    w.uncounted clk a = Shrimp.uncounted (clk s.env.reads) s.cache a := by
  rw [uncounted, LinkedIndex.RefinesWith.toList_eq h.cache, h.env]

/-- The counter of the manager is right exactly if that over lists is. -/
theorem Refines.accounted_iff (h : w.Refines s) :
    w.MemorySizeAccounted ↔ s.memorySize.toNat = totalSize s.cache := by
  rw [MemorySizeAccounted, h.memorySize, LinkedIndex.RefinesWith.toList_eq h.cache]

/-- An action keeps the counter right exactly if it removes nothing uncounted. -/
theorem keepsMemorySize_iff (a : Action) : w.KeepsMemorySize clk a ↔ w.uncounted clk a = 0 := by
  cases a with
  | deleteCacheRequest keepAlive token envToken =>
    rw [KeepsMemorySize, uncounted, Shrimp.uncounted]
    have hiff : envToken.filter (· ≠ []) = some token ↔ envToken = some token ∧ token ≠ [] := by
      simp only [Option.filter_eq_some_iff, ne_eq, decide_eq_true_eq]
    by_cases htoken : envToken = some token ∧ token ≠ []
    · rw [if_pos (hiff.2 htoken)]
      exact ⟨fun hempty => hempty htoken.1 htoken.2, fun hempty _ _ => hempty⟩
    · rw [if_neg fun hvalid => htoken (hiff.1 hvalid)]
      exact iff_of_true (fun heq hne => absurd ⟨heq, hne⟩ htoken) rfl
  | clearCache => rfl
  | resizeRequest | transform | resizeResult | negativeDeleteCacheResponse | checkPendingRequests =>
    exact iff_of_true trivial rfl

/-! ## Runs -/

/-- In every reachable state the counter is the true total and what left uncounted together. -/
theorem memoryDrift_of_run {before : List Action}
    (hrun : run (step clk) (init workers) before = .ok w) :
    (before.foldl (ListWorld.next clk) (ListWorld.init workers)).MemoryDrift
      (uncountedSoFar clk workers before) := by
  induction before using List.reverseRecOn generalizing w with
  | nil => exact ⟨rfl, le_rfl⟩
  | append_singleton before a ih =>
    obtain ⟨w₁, hw₁, -⟩ := run_concat_eq_ok.1 hrun
    rw [uncountedSoFar, total_concat _ hw₁, (refines_of_run hw₁).uncounted_eq, List.foldl_concat]
    exact (ih hw₁).moves
      (ListWorld.memorySize_next (ListWorld.inOrder_foldl clk workers before).protocol a)

/-- In a run that stores less than the counter can hold, the counter is right exactly if nothing
left uncounted. -/
theorem accounted_iff_of_run {before : List Action}
    (hrun : run (step clk) (init workers) before = .ok w) (hstored : w.env.storedSize < 2 ^ 64) :
    w.MemorySizeAccounted ↔ uncountedSoFar clk workers before = 0 := by
  have href := refines_of_run hrun
  rw [href.env] at hstored
  rw [href.accounted_iff, (memoryDrift_of_run hrun).toNat_memorySize hstored]
  exact Nat.add_eq_right

/-- If the counter is right before an action, it is right after it exactly if the action removes no
size uncounted. -/
theorem accounted_step_iff (clk : Clock) (workers : List Mbox) (before : List Action) (a : Action)
    {w w' : World} (hbefore : run (step clk) (init workers) before = .ok w)
    (hstep : step clk w a = .ok w') (hstored : w.env.storedSize < 2 ^ 64)
    (hstored' : w'.env.storedSize < 2 ^ 64) (h : w.MemorySizeAccounted) :
    w'.MemorySizeAccounted ↔ w.KeepsMemorySize clk a := by
  have hafter := run_concat_eq_ok.2 ⟨w, hbefore, hstep⟩
  rw [accounted_iff_of_run hbefore hstored] at h
  rw [accounted_iff_of_run hafter hstored', keepsMemorySize_iff, uncountedSoFar,
    total_concat _ hbefore]
  rw [uncountedSoFar] at h
  rw [h, Nat.zero_add]

/-- Every part of a run stores no more than the whole run. -/
theorem storedSize_le_of_run {before after : List Action} {w w' : World}
    (hbefore : run (step clk) (init workers) before = .ok w)
    (hrun : run (step clk) (init workers) (before ++ after) = .ok w') :
    w.env.storedSize ≤ w'.env.storedSize := by
  rw [(refines_of_run hbefore).env, (refines_of_run hrun).env, List.foldl_append]
  exact (ListWorld.logGrows_foldl clk after _).storedSize_le

/-- In a run that stores less than the counter can hold, the counter equals the total size of the
cached images in every state exactly if no action of the run removes images uncounted. -/
theorem memory_size_accounted_iff (clk : Clock) (workers : List Mbox) (actions : List Action)
    {w : World} (hrun : run (step clk) (init workers) actions = .ok w)
    (hstored : w.env.storedSize < 2 ^ 64) :
    (∀ before after w', actions = before ++ after →
      run (step clk) (init workers) before = .ok w' → w'.MemorySizeAccounted) ↔
    ∀ before a after w', actions = before ++ a :: after →
      run (step clk) (init workers) before = .ok w' → w'.KeepsMemorySize clk a := by
  refine run_always_iff hrun ((refines_init workers).accounted_iff.2 rfl) ?_
  rintro before a after w₁ w₂ rfl hbefore hstep
  have hconcat := run_concat_eq_ok.2 ⟨w₁, hbefore, hstep⟩
  have hle := storedSize_le_of_run hbefore hrun
  rw [List.append_cons] at hrun
  exact accounted_step_iff clk workers before a hbefore hstep (hle.trans_lt hstored)
    ((storedSize_le_of_run hconcat hrun).trans_lt hstored)

/-- The counter is right once an image was stored. -/
theorem memory_size_accounted_iff_one_image : ∃ w,
    run (step fun n => n) (init [⟨0⟩]) [.resizeRequest true [47] .png ⟨.width, 100, by decide⟩,
      .transform 0 (.successful ⟨⟨⟨0, 1⟩, 0⟩, 0, 0⟩), .resizeResult 0] = .ok w ∧
    w.MemorySizeAccounted := by
  obtain ⟨w, hw, href, -⟩ := run_refines (fun n => n) [⟨0⟩]
    [.resizeRequest true [47] .png ⟨.width, 100, by decide⟩,
      .transform 0 (.successful ⟨⟨⟨0, 1⟩, 0⟩, 0, 0⟩), .resizeResult 0]
  have hstored : w.env.storedSize < 2 ^ 64 := by rw [href.env]; decide
  refine ⟨w, hw, (memory_size_accounted_iff _ _ _ hw hstored).2 ?_ _ []
    w (List.append_nil _).symm hw⟩
  intro before a after w' hsplit _
  have ha : a ∈ before ++ a :: after := List.mem_append_right _ List.mem_cons_self
  rw [← hsplit] at ha
  obtain _ | ⟨_, _ | ⟨_, _ | ⟨_, ha⟩⟩⟩ := ha
  · trivial
  · trivial
  · trivial
  · cases ha

/-- The counter is wrong once an admin has deleted a cached image. -/
theorem memory_size_not_accounted :
    ¬ ∀ clk workers actions w, run (step clk) (init workers) actions = .ok w →
      w.env.storedSize < 2 ^ 64 → w.MemorySizeAccounted := by
  intro h
  obtain ⟨w, hw, href, -⟩ := run_refines (fun n => n) [⟨0⟩]
    [.resizeRequest true [47] .png ⟨.width, 100, by decide⟩,
      .transform 0 (.successful ⟨⟨⟨0, 1⟩, 0⟩, 0, 0⟩), .resizeResult 0,
      .deleteCacheRequest true [1] (some [1])]
  have haccounted := h _ _ _ w hw (by rw [href.env]; decide)
  rw [href.accounted_iff] at haccounted
  revert haccounted
  decide

end World

end Shrimp
