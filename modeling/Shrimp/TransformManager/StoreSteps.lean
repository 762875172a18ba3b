import Shrimp.Containers.InsertSteps
import Shrimp.TransformManager.Safety

/-!
# Storing an image without memory

`store_transformed_image_to_cache` with an `insert` that may run out of memory: the counter takes
its new value only behind it, so an exception leaves both as they were. `insert_all_or_nothing` puts
this together with what the containers guarantee in every state they can reach, insertions that
failed before included.
-/

namespace Shrimp

open Execution

namespace World

variable (clk : Clock)

/-- A part of `store_transformed_image_to_cache`. What it did before it throws remains done. -/
abbrev Storing := ExceptT BadAlloc (StateT World (Except Fault))

/-- `m_transformed_cache.insert( .. )`. -/
def insertToCache (alloc : Allocations) (key : ResizeRequestKey) (imageBlob : DatasizableBlob) :
    Storing Unit := do
  let w ← get
  let call ← w.manager.transformedCache.insertCall alloc (clk w.env.reads) key imageBlob
  set (⟨{ w.manager with transformedCache := call.container }, w.env.tick 1⟩ : World)
  ExceptT.mk (pure call.result)

/-- The loop of `store_transformed_image_to_cache`; every pass removes an image. -/
def evictImages : Storing Unit := do
  let w ← get
  set (← loop .diverged evictOldest (w.manager.transformedCache.size + 1) w)

/-- The body of `store_transformed_image_to_cache`. -/
def storeBody (alloc : Allocations) (key : ResizeRequestKey) (imageBlob : DatasizableBlob) :
    Storing Unit := do
  -- Precalculate the new size of a cache.
  let updatedCacheSize := (← get).manager.transformedCacheMemorySize + imageBlob.size
  -- Move transformed image into cache.
  insertToCache clk alloc key imageBlob
  modify fun w => {
    manager := { w.manager with transformedCacheMemorySize := updatedCacheSize }
    env := w.env.store key imageBlob }
  -- Some old images must be removed in that case.
  evictImages

/-- A call of `store_transformed_image_to_cache`: did it throw, and what did it leave? -/
def storeCall (w : World) (alloc : Allocations) (key : ResizeRequestKey)
    (imageBlob : DatasizableBlob) : Except Fault (Except BadAlloc Unit × World) :=
  (storeBody clk alloc key imageBlob).run.run w

/-- With memory a call is `store_transformed_image_to_cache`, without it the image is not stored and
not counted. -/
structure StoresAllOrNothing (w : World) (alloc : Allocations) (key : ResizeRequestKey)
    (imageBlob : DatasizableBlob) : Prop where
  success : alloc.granted = true → w.storeCall clk alloc key imageBlob = do
    return (.ok (), ← w.storeTransformedImageToCache clk key imageBlob)
  failure : alloc.granted = false → ∃ call,
    w.manager.transformedCache.insertCall alloc (clk w.env.reads) key imageBlob = .ok call ∧
    w.storeCall clk alloc key imageBlob =
      .ok (.error ⟨⟩, ⟨{ w.manager with transformedCache := call.container }, w.env.tick 1⟩) ∧
    call.container.items = w.manager.transformedCache.items ∧
    call.container.accessInfo = w.manager.transformedCache.accessInfo

section Call
variable {clk : Clock} {w : World} {alloc : Allocations} {key : ResizeRequestKey}
  {imageBlob : DatasizableBlob}

/-- Whether `insert` throws or not, the container it left is in place. -/
theorem run_insertToCache {call : InsertCall (CacheAlikeContainer ResizeRequestKey DatasizableBlob)}
    (hcall : w.manager.transformedCache.insertCall alloc (clk w.env.reads) key imageBlob =
      .ok call) :
    (insertToCache clk alloc key imageBlob).run.run w =
      .ok (call.result, ⟨{ w.manager with transformedCache := call.container }, w.env.tick 1⟩) := by
  unfold insertToCache
  rw [run_bind_ok rfl, hcall]
  rfl

/-- The loop allocates nothing. -/
theorem run_evictImages (w : World) : evictImages.run.run w = do
    return (.ok (), ← loop .diverged evictOldest (w.manager.transformedCache.size + 1) w) := by
  unfold evictImages
  rw [run_bind_ok rfl]
  cases loop Fault.diverged evictOldest (w.manager.transformedCache.size + 1) w with
  | error x => rfl
  | ok w' => rfl

end Call

/-- Whichever allocation fails, the image is stored or the manager is as before, and the counter is
added to in the first case only. -/
theorem storesAllOrNothing (w : World) (alloc : Allocations) (key : ResizeRequestKey)
    (imageBlob : DatasizableBlob) : w.StoresAllOrNothing clk alloc key imageBlob where
  success halloc := by
    have hcall := w.manager.transformedCache.insertCall_granted (clk w.env.reads) key imageBlob
      halloc
    unfold storeCall storeBody
    rw [run_bind_ok rfl, run_bind_ok (run_insertToCache hcall), run_bind_ok rfl,
      storeTransformedImageToCache_eq]
    exact run_evictImages (w.insertImage clk key imageBlob)
  failure halloc := by
    obtain ⟨heap, discarded, hcall, -⟩ := w.manager.transformedCache.insertCall_refused
      (clk w.env.reads) key imageBlob halloc
    refine ⟨_, hcall, ?_, rfl, rfl⟩
    unfold storeCall storeBody
    rw [run_bind_ok rfl, run_bind_error (run_insertToCache hcall)]

end World

/-- Insertions are all or nothing. -/
structure InsertionsAllOrNothing (K V : Type) [LT K] [DecidableLT K] : Prop where
  /-- Whatever was done to a container, and whichever insertions failed, it holds what the others
  left, and the next insertion is all or nothing. -/
  cache : ∀ ops : List (CacheAlikeContainer.Op K V × Allocations), ∃ c,
    run CacheAlikeContainer.stepAlloc .init ops = .ok c ∧
    c.toList = (((ops.filter CacheAlikeContainer.Op.takesEffect).map Prod.fst).foldl
      RecencyList.step ([], [])).1 ∧
    c.InsertsSafely
  /-- So it is with a queue. -/
  queue : ∀ ops : List (KeyMultivalueQueue.Op K V × Allocations), ∃ q,
    run KeyMultivalueQueue.stepAlloc .init ops = .ok q ∧
    q.toList = (((ops.filter KeyMultivalueQueue.Op.takesEffect).map Prod.fst).foldl
      ListQueue.step ([], [])).1 ∧
    q.InsertsSafely
  /-- The containers of the manager are in such a state between its handlers. -/
  manager : ∀ (clk : Clock) (workers : List Mbox) (actions : List World.Action), ∃ w,
    run (World.step clk) (World.init workers) actions = .ok w ∧
    w.manager.transformedCache.InsertsSafely ∧ w.manager.pendingRequests.InsertsSafely ∧
    w.manager.inprogressRequests.InsertsSafely
  /-- Where `store_transformed_image_to_cache` fails to insert, it does not count either. -/
  store : ∀ (clk : Clock) (w : World) alloc key imageBlob,
    w.StoresAllOrNothing clk alloc key imageBlob

/-- An insertion that runs out of memory changes nothing, and one that does not changes all there is
to change, in every state the containers can reach. -/
theorem insert_all_or_nothing {K V : Type} [LT K] [DecidableLT K]
    [IsStrictWeakOrder K (· < ·)] : InsertionsAllOrNothing K V where
  cache ops := by
    obtain ⟨c, hrun, h⟩ := CacheAlikeContainer.run_stepAlloc ops
    exact ⟨c, hrun, LinkedIndex.RefinesWith.toList_eq h,
      CacheAlikeContainer.Refines.insertsSafely h⟩
  queue ops := by
    obtain ⟨q, hrun, h⟩ := KeyMultivalueQueue.run_stepAlloc ops
    exact ⟨q, hrun, LinkedIndex.RefinesWith.toList_eq h,
      KeyMultivalueQueue.Refines.insertsSafely h⟩
  manager clk workers actions := by
    obtain ⟨w, s, hrun, h, -⟩ := World.run_inOrder clk workers actions
    exact ⟨w, hrun, CacheAlikeContainer.Refines.insertsSafely h.cache,
      KeyMultivalueQueue.Refines.insertsSafely h.pending,
      KeyMultivalueQueue.Refines.insertsSafely h.inprogress⟩
  store clk w alloc key imageBlob := w.storesAllOrNothing clk alloc key imageBlob

/-- The second key finds no memory for its map node. -/
theorem insert_all_or_nothing_second_key : ∃ c : CacheAlikeContainer Nat Nat,
    run CacheAlikeContainer.stepAlloc .init
      [(.insert 5 1 10, ⟨true, true⟩), (.insert 6 2 20, ⟨true, false⟩)] = .ok c ∧
    c.toList = [⟨1, 10, 5⟩] ∧ c.InsertsSafely :=
  (insert_all_or_nothing (K := Nat) (V := Nat)).cache
    [(.insert 5 1 10, ⟨true, true⟩), (.insert 6 2 20, ⟨true, false⟩)]

end Shrimp
