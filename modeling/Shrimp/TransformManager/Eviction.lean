import Shrimp.TransformManager.MemorySize

/-!
# Eviction by size

`store_transformed_image_to_cache` evicts by the counter, which may be ahead of the true total of
the cached images but is never behind it (`MemoryBounds`). `evict_shortest` says what the loop over
lists removes, `size_eviction` what the loop of the code does at every pass and in the end, and
`real_memory_bound` that the true total is within the limit in every reachable state, unless a
single image is cached.
-/

namespace Shrimp

open Execution

/-- The eviction loop may stop: the counter is within the limit or one image is left. -/
def MayStop (counter : Nat) (images : ImageList) : Prop :=
  counter ≤ maxTransformedCacheMemorySize.toNat ∨ images.length = 1

/-- `gone` is the shortest part in front of the images after whose removal the loop may stop, `kept`
the rest, and `left` the counter without the sizes of what is gone. -/
structure EvictsShortest (images : ImageList) (counter : Nat) (gone kept : ImageList)
    (left : Nat) : Prop where
  split : images = gone ++ kept
  counted : left + totalSize gone = counter
  stops : MayStop left kept
  shortest : ∀ n < gone.length, ¬ MayStop (counter - totalSize (gone.take n)) (images.drop n)
  nonempty : kept ≠ []

/-- The true total is within the limit or one image is cached. -/
def WithinLimit (images : ImageList) : Prop :=
  totalSize images ≤ maxTransformedCacheMemorySize.toNat ∨ images.length = 1

/-- No images are within the limit. -/
theorem WithinLimit.nil : WithinLimit [] := .inl (Nat.zero_le _)

/-- Removing images at the front keeps the limit. -/
theorem WithinLimit.suffix {l l' : ImageList} (h : WithinLimit l) (hsuffix : l' <:+ l) :
    WithinLimit l' := by
  obtain ⟨gone, rfl⟩ := hsuffix
  rcases h with h | h
  · rw [totalSize_append] at h
    exact .inl (by omega)
  · rw [List.length_append] at h
    cases l' with
    | nil => exact .nil
    | cons e l' =>
      rw [List.length_cons] at h
      exact .inr (by rw [List.length_cons]; omega)

/-- What eviction keeps is within the limit, or one image, if the counter was not below the true
sum. -/
theorem EvictsShortest.withinLimit {images gone kept : ImageList} {counter left : Nat}
    (h : EvictsShortest images counter gone kept left) (hcounter : totalSize images ≤ counter) :
    WithinLimit kept := by
  have hcounted := h.counted
  rw [h.split, totalSize_append] at hcounter
  exact h.stops.imp_left fun hstop => by omega

/-- The last image stays. -/
theorem EvictsShortest.last {images gone kept : ImageList} {counter left : Nat}
    {e : Entry ResizeRequestKey DatasizableBlob}
    (h : EvictsShortest (images ++ [e]) counter gone kept left) :
    ∃ survivors, kept = survivors ++ [e] := by
  obtain ⟨survivors, d, rfl⟩ : ∃ survivors d, kept = survivors ++ [d] :=
    ⟨_, _, (List.dropLast_append_getLast h.nonempty).symm⟩
  have hsplit := h.split
  rw [← List.append_assoc] at hsplit
  obtain ⟨-, hlast⟩ := List.append_inj' hsplit rfl
  exact ⟨survivors, congrArg _ hlast.symm⟩

namespace ListWorld

variable {clk : Clock} {workers : List Mbox} {s : ListWorld}

/-- Eviction removes the shortest part in front after which it may stop. -/
theorem evict_shortest : ∀ (l : ImageList) (memorySize : UInt64), l ≠ [] →
    totalSize l ≤ memorySize.toNat →
    ∃ gone, EvictsShortest l memorySize.toNat gone (evict l memorySize).1
      (evict l memorySize).2.toNat
  | [e], memorySize, _, _ =>
    ⟨[], rfl, rfl, .inr rfl, fun _ hn => absurd hn (Nat.not_lt_zero _), List.cons_ne_nil e []⟩
  | e :: d :: l, memorySize, _, h => by
    rw [evict]
    split
    case isTrue hlt =>
      rw [totalSize_cons] at h
      have hle : e.value.size ≤ memorySize := UInt64.le_iff_toNat_le.2 (by omega)
      have hsub := UInt64.toNat_sub_of_le _ _ hle
      obtain ⟨gone, hrest⟩ := evict_shortest (d :: l) (memorySize - e.value.size)
        (List.cons_ne_nil d l) (by omega)
      have hcounted := hrest.counted
      refine ⟨e :: gone, congrArg _ hrest.split, ?_, hrest.stops, ?_, hrest.nonempty⟩
      · rw [totalSize_cons]
        omega
      · intro n hn
        cases n with
        | zero =>
          rintro (hstop | hstop)
          · exact absurd (UInt64.lt_iff_toNat_lt.1 hlt) (Nat.not_lt.2 hstop)
          · simp at hstop
        | succ n =>
          have hn' := hrest.shortest n (Nat.lt_of_succ_lt_succ hn)
          rwa [hsub, Nat.sub_sub, ← totalSize_cons, ← List.take_succ_cons] at hn'
    case isFalse hle =>
      exact ⟨[], rfl, rfl, .inl (Nat.not_lt.1 fun hlt => hle (UInt64.lt_iff_toNat_lt.2 hlt)),
        fun _ hn => absurd hn (Nat.not_lt_zero _), List.cons_ne_nil e (d :: l)⟩

/-- The counter with a new image, as long as it does not overflow. -/
theorem MemoryBounds.toNat_add (h : MemoryBounds s) {blob : DatasizableBlob}
    (hroom : s.env.storedSize + blob.size.toNat < 2 ^ 64) :
    (s.memorySize + blob.size).toNat = s.memorySize.toNat + blob.size.toNat := by
  have hupper := h.upper
  rw [UInt64.toNat_add, Nat.mod_eq_of_lt (by omega)]

/-- What storing an image evicts. -/
theorem evictsShortest_store (clk : Clock) (h : MemoryBounds s) (key : ResizeRequestKey)
    {blob : DatasizableBlob}
    (hroom : s.env.storedSize + blob.size.toNat < 2 ^ 64) :
    totalSize (s.cache ++ [⟨key, blob, clk s.env.reads⟩]) ≤
      s.memorySize.toNat + blob.size.toNat ∧
    ∃ gone, EvictsShortest (s.cache ++ [⟨key, blob, clk s.env.reads⟩])
      (s.memorySize.toNat + blob.size.toNat) gone (s.store clk key blob).cache
      (s.store clk key blob).memorySize.toNat := by
  have hlower := h.lower
  have hsize : totalSize (s.cache ++ [⟨key, blob, clk s.env.reads⟩]) =
      totalSize s.cache + blob.size.toNat := totalSize_concat s.cache _
  have hevict := evict_shortest (s.cache ++ [⟨key, blob, clk s.env.reads⟩])
    (s.memorySize + blob.size) (by simp) (by rw [hsize, h.toNat_add hroom]; omega)
  rw [h.toNat_add hroom] at hevict
  exact ⟨by omega, hevict⟩

/-- Freeing the worker of a result and dispatching store nothing. -/
theorem MemoryBounds.freed (h : MemoryBounds s) (clk : Clock) (i : Nat) (worker : Mbox) :
    MemoryBounds ((pushFreeWorker { s with env := s.env.deliverResult i } worker).tryInitiate clk) ∧
    ((pushFreeWorker { s with env := s.env.deliverResult i } worker).tryInitiate
      clk).env.storedSize = s.env.storedSize := by
  have hd := dispatched_tryInitiate clk
    (pushFreeWorker { s with env := s.env.deliverResult i } worker)
  refine ⟨⟨?_, ?_⟩, ?_⟩
  · rw [hd.cache, hd.memorySize]
    exact h.lower
  · rw [hd.memorySize, hd.env]
    exact h.upper
  · rw [hd.env]
    rfl

/-- Storing an image keeps the true total within the limit. -/
theorem withinLimit_store (h : MemoryBounds s) (key : ResizeRequestKey) {blob : DatasizableBlob}
    (hroom : s.env.storedSize + blob.size.toNat < 2 ^ 64) :
    WithinLimit (s.store clk key blob).cache := by
  obtain ⟨hsize, gone, hevict⟩ := evictsShortest_store clk h key hroom
  exact hevict.withinLimit hsize

/-- Every action keeps the true total within the limit. -/
theorem withinLimit_next (hb : MemoryBounds s) (hp : Protocol workers [] s)
    (h : WithinLimit s.cache) (a : World.Action)
    (hroom : (s.next clk a).env.storedSize < 2 ^ 64) : WithinLimit (s.next clk a).cache := by
  cases a with
  | resizeRequest keepAlive image targetFormat params =>
    rw [ListWorld.next]
    obtain ⟨e, he, -, heq⟩ | ⟨-, -, heq⟩ | ⟨-, -, -, heq⟩ | ⟨-, -, -, -, heq⟩ |
      ⟨-, -, -, -, heq⟩ := onResizeRequest_cases clk { s with
        env := s.env.receive ⟨s.env.accepted, keepAlive⟩ ⟨image, targetFormat, params⟩ }
        ⟨s.env.accepted, keepAlive⟩ ⟨image, targetFormat, params⟩ <;> rw [heq]
    · have hsize := totalSize_serveFromCache clk (s := { s with
        env := s.env.receive ⟨s.env.accepted, keepAlive⟩ ⟨image, targetFormat, params⟩ })
        hp.cached ⟨s.env.accepted, keepAlive⟩ he
      have hlength := (keys_serveFromCache clk (s := { s with
        env := s.env.receive ⟨s.env.accepted, keepAlive⟩ ⟨image, targetFormat, params⟩ })
        hp.cached ⟨s.env.accepted, keepAlive⟩ he).length_eq
      rw [List.length_map, List.length_map] at hlength
      exact h.imp (hsize.trans_le ·) hlength.trans
    · exact h
    · exact h
    · rw [(dispatched_tryInitiate clk _).cache]
      exact h
    · exact h
  | deleteCacheRequest keepAlive token envToken =>
    rw [ListWorld.next]
    obtain ⟨-, heq⟩ | ⟨-, text, heq⟩ := onDeleteCacheRequest_cases _ envToken _ token <;> rw [heq]
    · exact .nil
    · exact h
  | transform i result => rw [ListWorld.next]; split <;> exact h
  | resizeResult i =>
    rw [ListWorld.next] at hroom ⊢
    cases hcmd : s.env.resizeResults[i]? with
    | none => exact h
    | some cmd =>
      simp only [hcmd] at hroom ⊢
      have hd := dispatched_tryInitiate clk
        (pushFreeWorker { s with env := s.env.deliverResult i } cmd.worker)
      have hb' := (hb.freed clk i cmd.worker).1
      cases hresult : cmd.result with
      | failed result =>
        simp only [ListWorld.onResizeResult, ListWorld.finish, hresult]
        show WithinLimit (ListWorld.tryInitiate clk _).cache
        rw [hd.cache]
        exact h
      | successful result =>
        simp only [ListWorld.onResizeResult, ListWorld.finish, hresult] at hroom ⊢
        exact withinLimit_store (s := (ListWorld.tryInitiate clk _).extract cmd.key)
          ⟨hb'.lower, hb'.upper⟩ cmd.key
          ((Environment.storedSize_store _ cmd.key result.imageBlob).symm.trans_lt hroom)
  | negativeDeleteCacheResponse i => rw [ListWorld.next]; split <;> exact h
  | clearCache => exact h.suffix (List.dropWhile_suffix _)
  | checkPendingRequests => exact h

/-- The true total stays within the limit in a run that stores less than the counter can hold. -/
theorem withinLimit_foldl (clk : Clock) (workers : List Mbox) (actions : List World.Action)
    (hstored : (actions.foldl (next clk) (init workers)).env.storedSize < 2 ^ 64) :
    WithinLimit (actions.foldl (next clk) (init workers)).cache := by
  induction actions using List.reverseRecOn with
  | nil => exact .nil
  | append_singleton actions a ih =>
    rw [List.foldl_append] at hstored ⊢
    have hbefore := (logGrows_next clk _ a).storedSize_le.trans_lt hstored
    obtain ⟨w, hw, -⟩ := World.run_refines clk workers actions
    exact withinLimit_next ((World.memoryDrift_of_run hw).bounds hbefore)
      (inOrder_foldl clk workers actions).protocol (ih hbefore) a hstored

end ListWorld

namespace World

variable {clk : Clock} {workers : List Mbox} {w : World} {s : ListWorld}

/-! ## The eviction loop of the code -/

/-- A pass of the eviction loop removes the oldest image, and takes its size from a counter that is
not below it. -/
structure EvictionPass (v v' : World) (e : Entry ResizeRequestKey DatasizableBlob)
    (rest : ImageList) : Prop where
  oldest : ∃ tok, v.manager.transformedCache.oldest = .ok (some tok) ∧
    v.manager.transformedCache.read tok = .ok e
  before : v.manager.transformedCache.toList = e :: rest
  after : v'.manager.transformedCache.toList = rest
  no_wrap : e.value.size ≤ v.manager.transformedCacheMemorySize
  counter : v'.manager.transformedCacheMemorySize =
    v.manager.transformedCacheMemorySize - e.value.size

/-- What a pass of the eviction loop over lists does. -/
theorem Refines.evictOldest_yielded {v v' : World} (h : v.Refines s)
    (hbody : v.evictOldest = .ok (.yield v')) :
    ∃ e d l, s.cache = e :: d :: l ∧ maxTransformedCacheMemorySize < s.memorySize ∧
      v'.Refines { s with cache := d :: l, memorySize := s.memorySize - e.value.size } := by
  by_cases hcond : maxTransformedCacheMemorySize < s.memorySize ∧ 1 < s.cache.length
  · obtain ⟨hm, hlen⟩ := hcond
    obtain ⟨e, d, l, hcache⟩ : ∃ e d l, s.cache = e :: d :: l := by
      rcases hcache : s.cache with _ | ⟨e, _ | ⟨d, l⟩⟩
      · rw [hcache] at hlen
        exact absurd hlen (Nat.not_lt_zero 1)
      · rw [hcache] at hlen
        exact absurd hlen (Nat.lt_irrefl 1)
      · exact ⟨e, d, l, rfl⟩
    obtain ⟨w', hw', h'⟩ := h.evictOldest_yield hcache ⟨hm, List.cons_ne_nil d l⟩
    cases hw'.symm.trans hbody
    exact ⟨e, d, l, hcache, hm, h'⟩
  · cases (h.evictOldest_done hcond).symm.trans hbody

/-- Where the passes of the eviction loop are. -/
theorem Refines.evictOldest_passes (h : w.Refines s) {v : World}
    (hpasses : Passes evictOldest w v) :
    ∃ l m, v.Refines { s with cache := l, memorySize := m } ∧ l <:+ s.cache ∧
      (totalSize s.cache ≤ s.memorySize.toNat → totalSize l ≤ m.toNat) := by
  refine hpasses.invariant (fun v => ∃ l m, v.Refines { s with cache := l, memorySize := m } ∧
    l <:+ s.cache ∧ (totalSize s.cache ≤ s.memorySize.toNat → totalSize l ≤ m.toNat)) ?_
    ⟨_, _, h, List.suffix_refl _, id⟩
  rintro v v' ⟨l, m, h', hsuffix, hle⟩ hbody
  obtain ⟨e, d, l', hcache, -, h''⟩ := h'.evictOldest_yielded hbody
  have hcache : l = e :: d :: l' := hcache
  subst hcache
  refine ⟨_, _, h'', (List.suffix_cons e (d :: l')).trans hsuffix, ?_⟩
  intro hsize
  have hle := hle hsize
  rw [totalSize_cons] at hle
  have hsub := UInt64.toNat_sub_of_le m e.value.size (UInt64.le_iff_toNat_le.2 (by omega))
  show totalSize (d :: l') ≤ (m - e.value.size).toNat
  omega

/-- Every pass of the eviction loop is in order. -/
theorem Refines.evictionPass (h : w.Refines s) (hsize : totalSize s.cache ≤ s.memorySize.toNat)
    {v v' : World} (hpasses : Passes evictOldest w v)
    (hbody : v.evictOldest = .ok (.yield v')) : ∃ e rest, EvictionPass v v' e rest := by
  obtain ⟨l, m, h', -, hle⟩ := h.evictOldest_passes hpasses
  obtain ⟨e, d, l', hcache, -, h''⟩ := h'.evictOldest_yielded hbody
  have hcache : l = e :: d :: l' := hcache
  subst hcache
  obtain ⟨tok, htok, hpts⟩ := LinkedIndex.RefinesWith.oldest_cons h'.cache rfl
  refine ⟨e, d :: l', ⟨tok, htok, hpts.read⟩, LinkedIndex.RefinesWith.toList_eq h'.cache,
    LinkedIndex.RefinesWith.toList_eq h''.cache, ?_, ?_⟩
  · rw [h'.memorySize, UInt64.le_iff_toNat_le]
    have hle := hle hsize
    rw [totalSize_cons] at hle
    show e.value.size.toNat ≤ m.toNat
    omega
  · rw [h''.memorySize, h'.memorySize]

/-- What `store_transformed_image_to_cache` does when it takes `w` to `w'` and removes `gone`. -/
structure SizeEviction (clk : Clock) (w w' : World) (key : ResizeRequestKey)
    (blob : DatasizableBlob) (gone : ImageList) : Prop where
  shortest : EvictsShortest
    (w.manager.transformedCache.toList ++ [⟨key, blob, clk w.env.reads⟩])
    (w.manager.transformedCacheMemorySize.toNat + blob.size.toNat) gone
    w'.manager.transformedCache.toList w'.manager.transformedCacheMemorySize.toNat
  new_stays : ∃ survivors, w'.manager.transformedCache.toList =
    survivors ++ [⟨key, blob, clk w.env.reads⟩]
  passes : ∀ v v', Passes evictOldest (w.insertImage clk key blob) v →
    v.evictOldest = .ok (.yield v') → ∃ e rest, EvictionPass v v' e rest

/-- Storing an image in a state that refines lists evicts the shortest prefix that brings the
counter within the limit, and each of its passes reads an oldest image that is there. -/
theorem Refines.sizeEviction (clk : Clock) (h : w.Refines s) (hb : s.MemoryBounds)
    {key : ResizeRequestKey} (blob : DatasizableBlob) (hkey : key ∉ keys s.cache)
    (hroom : s.env.storedSize + blob.size.toNat < 2 ^ 64) :
    ∃ w' gone, w.storeTransformedImageToCache clk key blob = .ok w' ∧
      SizeEviction clk w w' key blob gone := by
  obtain ⟨w', hw', h'⟩ := h.store clk blob hkey
  have hinsert := h.insertImage clk blob hkey
  obtain ⟨hsize, gone, hevict⟩ := ListWorld.evictsShortest_store clk hb key hroom
  have hshortest : EvictsShortest
      (w.manager.transformedCache.toList ++ [⟨key, blob, clk w.env.reads⟩])
      (w.manager.transformedCacheMemorySize.toNat + blob.size.toNat) gone
      w'.manager.transformedCache.toList w'.manager.transformedCacheMemorySize.toNat := by
    rw [LinkedIndex.RefinesWith.toList_eq h.cache, LinkedIndex.RefinesWith.toList_eq h'.cache,
      h.memorySize, h'.memorySize, h.env]
    exact hevict
  refine ⟨w', gone, hw', hshortest, hshortest.last, ?_⟩
  intro v v' hpasses hbody
  refine hinsert.evictionPass ?_ hpasses hbody
  show totalSize (s.cache ++ [_]) ≤ (s.memorySize + blob.size).toNat
  rw [hb.toNat_add hroom]
  exact hsize

/-! ## Runs -/

/-- A run that stores less than the counter can hold keeps the counter within its bounds. -/
theorem memoryBounds_of_run {actions : List Action}
    (hrun : run (step clk) (init workers) actions = .ok w) (hstored : w.env.storedSize < 2 ^ 64) :
    ∃ s, w.Refines s ∧ s.InOrder workers ∧ s.MemoryBounds := by
  have h := refines_of_run hrun
  rw [h.env] at hstored
  exact ⟨_, h, ListWorld.inOrder_foldl clk workers actions,
    (memoryDrift_of_run hrun).bounds hstored⟩

/-- Where the step of a successful result stores its image. -/
theorem Refines.step_successful (clk : Clock) (h : w.Refines s) (hp : s.Protocol workers [])
    {i : Nat} {cmd : ResizeResult} (hcmd : s.env.resizeResults[i]? = some cmd)
    {result : SuccessfulResize} (hresult : cmd.result = .successful result) :
    ∃ w₁ w₂ requests w₃ w', ResultHandover clk { w with env := w.env.deliverResult i } cmd w₁ w₂
        requests ∧
      w₂.Refines (((ListWorld.pushFreeWorker { s with env := s.env.deliverResult i }
        cmd.worker).tryInitiate clk).extract cmd.key) ∧
      cmd.key ∉ keys ((ListWorld.pushFreeWorker { s with env := s.env.deliverResult i }
        cmd.worker).tryInitiate clk).cache ∧
      w₂.storeTransformedImageToCache clk cmd.key result.imageBlob = .ok w₃ ∧
      step clk w (.resizeResult i) = .ok w' ∧ w'.manager = w₃.manager := by
  obtain ⟨w₁, w₂, requests, -, hhandover, h₂⟩ := h.handover clk hp hcmd
  have hp' := (hp.deliverResult hcmd).tryInitiate clk
  have hkey : cmd.key ∉ keys ((ListWorld.pushFreeWorker { s with env := s.env.deliverResult i }
      cmd.worker).tryInitiate clk).cache := fun hk =>
    hp'.cache_inprogress cmd.key hk ((hp'.inprogress cmd.key).2 (by simp))
  obtain ⟨w', hw', -⟩ := step_refines clk h hp (.resizeResult i)
  have hstep := hw'
  simp only [step, h.env, hcmd] at hstep
  rw [← h.env, hhandover.onResizeResult hresult, World.onSuccessfulResize, bind_eq_ok] at hstep
  obtain ⟨w₃, hw₃, hanswer⟩ := hstep
  exact ⟨w₁, w₂, requests, w₃, w', hhandover, h₂, hkey, hw₃, hw', answerAll_manager hanswer⟩

/-- In a run that stores less than the counter can hold, the eviction loop ends for every successful
result. It removes the shortest part of the images, the least recently accessed ones first, after
which the counter is within the limit or one image is left; the new image and the other survivors
stay as they are, and every pass takes the size of what it removes from the counter without wrapping
around. -/
theorem size_eviction (clk : Clock) (workers : List Mbox) (actions : List Action) {w : World}
    (hrun : run (step clk) (init workers) actions = .ok w) {i : Nat} {cmd : ResizeResult}
    (hcmd : w.env.resizeResults[i]? = some cmd) {result : SuccessfulResize}
    (hresult : cmd.result = .successful result)
    (hstored : w.env.storedSize + result.imageBlob.size.toNat < 2 ^ 64) :
    ∃ w₁ w₂ requests w₃ gone w',
      ResultHandover clk { w with env := w.env.deliverResult i } cmd w₁ w₂ requests ∧
      w₂.storeTransformedImageToCache clk cmd.key result.imageBlob = .ok w₃ ∧
      SizeEviction clk w₂ w₃ cmd.key result.imageBlob gone ∧
      step clk w (.resizeResult i) = .ok w' ∧ w'.manager = w₃.manager := by
  obtain ⟨s, h, hs, hb⟩ := memoryBounds_of_run hrun (by omega)
  rw [h.env] at hcmd hstored
  obtain ⟨w₁, w₂, requests, w₃, w', hhandover, h₂, hkey, hw₃, hw', hmanager⟩ :=
    h.step_successful clk hs.protocol hcmd hresult
  obtain ⟨hb', hstored'⟩ := hb.freed clk i cmd.worker
  obtain ⟨w₃', gone, hw₃', hevict⟩ := h₂.sizeEviction clk
    ⟨hb'.lower, hb'.upper⟩ result.imageBlob hkey (hstored' ▸ hstored)
  cases hw₃.symm.trans hw₃'
  exact ⟨w₁, w₂, requests, w₃, gone, w', hhandover, hw₃, hevict, hw', hmanager⟩

/-- The second of two images of 60 MiB is about to evict the first. -/
theorem size_eviction_two_images : ∃ w, ∃ cmd : ResizeResult, ∃ result : SuccessfulResize,
    run (step fun n => n) (init [⟨0⟩]) [.resizeRequest true [47] .png ⟨.width, 100, by decide⟩,
      .transform 0 (.successful ⟨⟨⟨0, 62914560⟩, 0⟩, 0, 0⟩), .resizeResult 0,
      .resizeRequest true [48] .png ⟨.width, 100, by decide⟩,
      .transform 0 (.successful ⟨⟨⟨1, 62914560⟩, 0⟩, 0, 0⟩)] = .ok w ∧
    ∃ w₁ w₂ requests w₃ gone w',
      ResultHandover (fun n => n) { w with env := w.env.deliverResult 0 } cmd w₁ w₂ requests ∧
      w₂.storeTransformedImageToCache (fun n => n) cmd.key result.imageBlob = .ok w₃ ∧
      SizeEviction (fun n => n) w₂ w₃ cmd.key result.imageBlob gone ∧
      step (fun n => n) w (.resizeResult 0) = .ok w' ∧ w'.manager = w₃.manager := by
  obtain ⟨w, hw, href, -⟩ := run_refines (fun n => n) [⟨0⟩]
    [.resizeRequest true [47] .png ⟨.width, 100, by decide⟩,
      .transform 0 (.successful ⟨⟨⟨0, 62914560⟩, 0⟩, 0, 0⟩), .resizeResult 0,
      .resizeRequest true [48] .png ⟨.width, 100, by decide⟩,
      .transform 0 (.successful ⟨⟨⟨1, 62914560⟩, 0⟩, 0, 0⟩)]
  have hcmd : w.env.resizeResults[0]? = some ⟨⟨0⟩, ⟨[48], .png, ⟨.width, 100, by decide⟩⟩,
      .successful ⟨⟨⟨1, 62914560⟩, 0⟩, 0, 0⟩⟩ := by rw [href.env]; rfl
  have hstored : w.env.storedSize + 62914560 < 2 ^ 64 := by rw [href.env]; decide
  exact ⟨w, _, ⟨⟨⟨1, 62914560⟩, 0⟩, 0, 0⟩, hw, size_eviction _ _ _ hw hcmd rfl hstored⟩

/-- In every state of a run that stores less than the counter can hold, the cached images are within
the limit or there is exactly one. -/
theorem real_memory_bound (clk : Clock) (workers : List Mbox) (actions : List Action) {w : World}
    (hrun : run (step clk) (init workers) actions = .ok w) (hstored : w.env.storedSize < 2 ^ 64) :
    totalSize w.manager.transformedCache.toList ≤ maxTransformedCacheMemorySize.toNat ∨
      w.manager.transformedCache.size = 1 := by
  have h := refines_of_run hrun
  rw [h.env] at hstored
  rw [LinkedIndex.RefinesWith.toList_eq h.cache, CacheAlikeContainer.Refines.size h.cache]
  exact ListWorld.withinLimit_foldl clk workers actions hstored

/-- An image of 200 MiB stays as long as it is alone. -/
theorem real_memory_bound_one_image : ∃ w,
    run (step fun n => n) (init [⟨0⟩]) [.resizeRequest true [47] .png ⟨.width, 100, by decide⟩,
      .transform 0 (.successful ⟨⟨⟨0, 209715200⟩, 0⟩, 0, 0⟩), .resizeResult 0] = .ok w ∧
    (totalSize w.manager.transformedCache.toList ≤ maxTransformedCacheMemorySize.toNat ∨
      w.manager.transformedCache.size = 1) := by
  obtain ⟨w, hw, href, -⟩ := run_refines (fun n => n) [⟨0⟩]
    [.resizeRequest true [47] .png ⟨.width, 100, by decide⟩,
      .transform 0 (.successful ⟨⟨⟨0, 209715200⟩, 0⟩, 0, 0⟩), .resizeResult 0]
  have hstored : w.env.storedSize < 2 ^ 64 := by rw [href.env]; decide
  exact ⟨w, hw, real_memory_bound _ _ _ hw hstored⟩

end World

end Shrimp
