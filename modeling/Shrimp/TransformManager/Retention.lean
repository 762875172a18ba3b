import Mathlib.Tactic.IntervalCases
import Shrimp.TransformManager.Eviction
import Shrimp.TransformManager.Sweeps

/-!
# Why images leave the cache

An image should leave the cache because it was not used for too long, because an admin deleted the
cache, or because the images do not fit into the limit and it is the least recently accessed one
(`MayLeave`). The eviction loop decides by the counter instead of the true total, and the counter
runs ahead of it by what left the cache uncounted so far; then images are evicted that would fit.
`cache_retention_iff` says exactly when this does not happen: whenever some of the images fit into
the limit together with a new one, they do so with the uncounted bytes on top (`FitsWithUncounted`).
-/

namespace Shrimp

open Execution

/-- The counter when the images are in the cache and `drift` bytes left it uncounted. -/
def counterOf (drift : Nat) (images : ImageList) : UInt64 := .ofNat (drift + totalSize images)

/-- Of the images, the counter is above the limit for all of them, for those that are left when the
oldest one is removed, and so on until only `kept` are left. -/
def ExceedsUntil (drift : Nat) (images kept : ImageList) : Prop :=
  ∀ longer, kept <:+ longer → longer <:+ images →
    maxTransformedCacheMemorySize < counterOf drift longer

/-- Removing an image takes its size from the counter. -/
theorem counterOf_cons (drift : Nat) (e : Entry ResizeRequestKey DatasizableBlob) (l : ImageList) :
    counterOf drift (e :: l) - e.value.size = counterOf drift l := by
  have hsum : drift + totalSize (e :: l) = drift + totalSize l + e.value.size.toNat := by
    rw [totalSize_cons]
    omega
  rw [counterOf, counterOf, hsum, UInt64.ofNat_add, UInt64.ofNat_toNat]
  grind

/-- A new image adds its size to the counter. -/
theorem counterOf_concat (drift : Nat) (l : ImageList)
    (new : Entry ResizeRequestKey DatasizableBlob) :
    counterOf drift (l ++ [new]) = counterOf drift l + new.value.size := by
  rw [counterOf, counterOf, totalSize_concat, ← Nat.add_assoc, UInt64.ofNat_add,
    UInt64.ofNat_toNat]

/-- The counter, which is ahead by the drift, is above the limit after an image was added. -/
theorem lt_counterOf_concat {drift : Nat} {l : ImageList}
    {new : Entry ResizeRequestKey DatasizableBlob} :
    maxTransformedCacheMemorySize < counterOf drift (l ++ [new]) ↔
      maxTransformedCacheMemorySize.toNat <
        (drift + totalSize l + new.value.size.toNat) % 2 ^ 64 := by
  rw [UInt64.lt_iff_toNat_lt, counterOf_concat, UInt64.toNat_add, counterOf, UInt64.toNat_ofNat',
    Nat.mod_add_mod]

/-- A counter that is above the limit up to some images is so from the second image on, too. -/
theorem ExceedsUntil.of_cons {drift : Nat} {images kept : ImageList}
    {a : Entry ResizeRequestKey DatasizableBlob} (h : ExceedsUntil drift (a :: images) kept) :
    ExceedsUntil drift images kept :=
  fun longer hkept hlonger => h longer hkept (hlonger.trans (List.suffix_cons a images))

/-- The counter is above the limit for all the images and until only `kept` of the others are
left. -/
theorem ExceedsUntil.cons {drift : Nat} {images kept : ImageList}
    {a : Entry ResizeRequestKey DatasizableBlob} (h : ExceedsUntil drift images kept)
    (ha : maxTransformedCacheMemorySize < counterOf drift (a :: images)) :
    ExceedsUntil drift (a :: images) kept := by
  intro longer hkept hlonger
  rcases List.suffix_cons_iff.1 hlonger with rfl | hlonger
  · exact ha
  · exact h longer hkept hlonger

/-- A counter that is above the limit is so before the first image is evicted. -/
theorem ExceedsUntil.all {drift : Nat} {images : ImageList}
    (h : maxTransformedCacheMemorySize < counterOf drift images) :
    ExceedsUntil drift images images := by
  intro longer hkept hlonger
  rw [hlonger.eq_of_length_le hkept.length_le]
  exact h

/-- With a new image at the end, which all the lists share. -/
theorem exceedsUntil_concat {drift : Nat} {images tail : ImageList}
    {new : Entry ResizeRequestKey DatasizableBlob} :
    ExceedsUntil drift (images ++ [new]) (tail ++ [new]) ↔
      ∀ longer, tail <:+ longer → longer <:+ images → maxTransformedCacheMemorySize.toNat <
        (drift + totalSize longer + new.value.size.toNat) % 2 ^ 64 := by
  have hconcat : ∀ {l l' : ImageList}, l ++ [new] <:+ l' ++ [new] ↔ l <:+ l' := by
    intro l l'
    rw [List.suffix_concat_iff]
    simp
  constructor
  · intro h longer htail hlonger
    exact lt_counterOf_concat.1 (h (longer ++ [new]) (hconcat.2 htail) (hconcat.2 hlonger))
  · intro h longer htail hsuffix
    rcases List.suffix_concat_iff.1 hsuffix with rfl | ⟨longer, rfl, -⟩
    · simp at htail
    · exact lt_counterOf_concat.2 (h longer (hconcat.1 htail) (hconcat.1 hsuffix))

/-- A tail that begins with an element that occurs once is told by that element. -/
theorem suffix_unique {α : Type} {l r r' : List α} {e : α} (hl : l.Nodup) (h : e :: r <:+ l)
    (h' : e :: r' <:+ l) : r = r' := by
  have hkey : ∀ {r r' : List α}, e :: r' <:+ l → e :: r <:+ e :: r' → r = r' := by
    intro r r' hr' hsub
    rcases List.suffix_cons_iff.1 hsub with heq | hsub
    · exact (List.cons.inj heq).2
    · have hnodup := hr'.sublist.nodup hl
      exact absurd (hsub.subset List.mem_cons_self) (List.nodup_cons.1 hnodup).1
  rcases List.suffix_or_suffix_of_suffix h h' with hsub | hsub
  · exact hkey h' hsub
  · exact (hkey h hsub).symm

namespace ListWorld

/-- What eviction removes while the counter is above the limit. -/
theorem evict_removes {drift : Nat} : ∀ (gone kept : ImageList), 2 ≤ kept.length →
    ExceedsUntil drift (gone ++ kept) kept →
    (evict (gone ++ kept) (counterOf drift (gone ++ kept))).1 <:+ kept.tail
  | [], e :: d :: kept, _, h => by
    have habove := h (e :: d :: kept) List.suffix_rfl List.suffix_rfl
    rw [List.nil_append, evict, if_pos habove]
    exact evict_suffix _ _
  | a :: gone, e :: d :: kept, hlength, h => by
    have habove := h (a :: gone ++ e :: d :: kept) (List.suffix_append _ _) List.suffix_rfl
    have hcons : evict (a :: gone ++ e :: d :: kept)
        (counterOf drift (a :: gone ++ e :: d :: kept)) =
        evict (gone ++ e :: d :: kept) (counterOf drift (gone ++ e :: d :: kept)) := by
      rw [← counterOf_cons drift a (gone ++ e :: d :: kept)]
      cases gone <;> exact if_pos habove
    rw [hcons]
    exact evict_removes gone _ hlength h.of_cons

/-- Eviction removes an image only after the counter was above the limit up to that image, and never
the last one. -/
theorem evict_gone (drift : Nat) : ∀ l : ImageList,
    ∃ gone, l = gone ++ (evict l (counterOf drift l)).1 ∧ ∀ early e late,
      gone = early ++ e :: late →
      ExceedsUntil drift l (e :: late ++ (evict l (counterOf drift l)).1) ∧
      late ++ (evict l (counterOf drift l)).1 ≠ []
  | [] => ⟨[], rfl, by simp⟩
  | [_] => ⟨[], rfl, by simp⟩
  | a :: b :: l => by
    rw [evict]
    split
    case isTrue habove =>
      rw [counterOf_cons]
      obtain ⟨gone, hsplit, hgone⟩ := evict_gone drift (b :: l)
      refine ⟨a :: gone, congrArg _ hsplit, ?_⟩
      intro early e late heq
      cases early with
      | nil =>
        obtain ⟨rfl, rfl⟩ := List.cons.inj heq
        rw [List.cons_append, ← hsplit]
        exact ⟨.all habove, List.cons_ne_nil b l⟩
      | cons a' early =>
        obtain ⟨rfl, hrest⟩ := List.cons.inj heq
        obtain ⟨hexceeds, hne⟩ := hgone early e late hrest
        exact ⟨hexceeds.cons habove, hne⟩
    case isFalse => exact ⟨[], rfl, by simp⟩

/-- The image of a successful result is stored. -/
theorem storedSize_resizeResult {clk : Clock} {s : ListWorld} {i : Nat} {cmd : ResizeResult}
    (hcmd : s.env.resizeResults[i]? = some cmd) {result : SuccessfulResize}
    (hresult : cmd.result = .successful result) :
    (s.next clk (.resizeResult i)).env.storedSize =
      s.env.storedSize + result.imageBlob.size.toNat := by
  simp only [ListWorld.next, hcmd, ListWorld.onResizeResult, ListWorld.finish, hresult]
  refine (Environment.storedSize_store _ cmd.key result.imageBlob).trans ?_
  show (ListWorld.tryInitiate clk _).env.storedSize + _ = _
  rw [(dispatched_tryInitiate clk _).env]
  rfl

end ListWorld

namespace World

variable {clk : Clock} {workers : List Mbox} {w : World} {s : ListWorld}

/-! ## The policy -/

/-- The image of the entry is not in the cache. -/
def Gone (w : World) (e : Entry ResizeRequestKey DatasizableBlob) : Prop :=
  ∀ d ∈ w.manager.transformedCache.toList, d.key = e.key → d.value ≠ e.value

/-- Why an image may leave the cache of `w`. -/
inductive MayLeave (clk : Clock) (w : World) (e : Entry ResizeRequestKey DatasizableBlob) :
    Action → Prop
  /-- The timer of the cache finds that its last access is too long ago. -/
  | expired (hold : maxCacheLifetime < clk w.env.reads - e.time) : MayLeave clk w e .clearCache
  /-- The cache is deleted by a request that carries the admin token, which is not empty. -/
  | deleted (keepAlive : Bool) {token : CxxString} (htoken : token ≠ []) :
    MayLeave clk w e (.deleteCacheRequest keepAlive token (some token))
  /-- A pass of the eviction loop that a new image causes removes it, while it is the least recently
  accessed image and all images together exceed the limit. -/
  | evicted {i : Nat} {cmd : ResizeResult} {result : SuccessfulResize} {w₁ w₂ v v' : World}
    {requests : List ResizeRequest} {rest : ImageList} (hcmd : w.env.resizeResults[i]? = some cmd)
    (hresult : cmd.result = .successful result)
    (hhandover : ResultHandover clk { w with env := w.env.deliverResult i } cmd w₁ w₂ requests)
    (hpasses : Passes evictOldest (w₂.insertImage clk cmd.key result.imageBlob) v)
    (hbody : v.evictOldest = .ok (.yield v'))
    (hbefore : v.manager.transformedCache.toList = e :: rest)
    (hafter : v'.manager.transformedCache.toList = rest)
    (holdest : ∀ d ∈ rest, e.time ≤ d.time)
    (hexceeds : maxTransformedCacheMemorySize.toNat < totalSize (e :: rest)) :
    MayLeave clk w e (.resizeResult i)

/-- Every image that leaves the cache in this action may leave it. -/
def RetentionPolicy (clk : Clock) (w : World) (a : Action) : Prop :=
  ∀ w', step clk w a = .ok w' → ∀ e ∈ w.manager.transformedCache.toList, w'.Gone e →
    MayLeave clk w e a

/-- The result `i` brings an image of `size` bytes that fits into the limit together with `tail`,
which are some of the cached images, at least one, and the most recently accessed ones. -/
structure FittingTail (w : World) (i : Nat) (tail : ImageList) (size : Nat) : Prop where
  brought : ∃ cmd result, w.env.resizeResults[i]? = some cmd ∧ cmd.result = .successful result ∧
    result.imageBlob.size.toNat = size
  recent : tail <:+ w.manager.transformedCache.toList
  nonempty : tail ≠ []
  fits : totalSize tail + size ≤ maxTransformedCacheMemorySize.toNat

/-- The images that fit into the limit with a new one do so with `drift` bytes on top. -/
def FitsWithUncounted (drift : Nat) (w : World) : Action → Prop
  | .resizeResult i => ∀ tail size, w.FittingTail i tail size →
    drift + totalSize tail + size ≤ maxTransformedCacheMemorySize.toNat
  | _ => True

/-- What this comes to for a counter that may overflow: modulo 2^64 these images, or more of them,
fit with `drift` bytes on top. -/
def FitsModuloUncounted (drift : Nat) (w : World) : Action → Prop
  | .resizeResult i => ∀ tail size, w.FittingTail i tail size →
    ∃ longer, tail <:+ longer ∧ longer <:+ w.manager.transformedCache.toList ∧
      (drift + totalSize longer + size) % 2 ^ 64 ≤ maxTransformedCacheMemorySize.toNat
  | _ => True

/-- An image that is still there, with whatever time, is not gone. -/
theorem not_gone {e : Entry ResizeRequestKey DatasizableBlob}
    (h : ∃ d ∈ w.manager.transformedCache.toList, d.key = e.key ∧ d.value = e.value) :
    ¬ w.Gone e := by
  obtain ⟨d, hd, hkey, hvalue⟩ := h
  exact fun hgone => hgone d hd hkey hvalue

/-! ## The eviction loop -/

/-- While the counter is above the limit the passes of the eviction loop go through the images, the
oldest one first. -/
theorem Refines.evictOldest_reaches {drift : Nat} : ∀ (early : ImageList) {w : World}
    {s : ListWorld}, w.Refines s → ∀ {e d : Entry ResizeRequestKey DatasizableBlob}
    {rest : ImageList}, s.cache = early ++ e :: d :: rest →
    s.memorySize = counterOf drift s.cache → ExceedsUntil drift s.cache (e :: d :: rest) →
    ∃ v v', Passes evictOldest w v ∧ v.evictOldest = .ok (.yield v') ∧
      v.manager.transformedCache.toList = e :: d :: rest ∧
      v'.manager.transformedCache.toList = d :: rest
  | [], w, s, h, e, d, rest, hcache, hmemory, hexceeds => by
    have habove := hexceeds s.cache (hcache ▸ List.suffix_rfl) List.suffix_rfl
    obtain ⟨w', hw', h'⟩ := h.evictOldest_yield hcache ⟨hmemory ▸ habove, by simp⟩
    exact ⟨w, w', .start, hw', (LinkedIndex.RefinesWith.toList_eq h.cache).trans hcache,
      LinkedIndex.RefinesWith.toList_eq h'.cache⟩
  | a :: early, w, s, h, e, d, rest, hcache, hmemory, hexceeds => by
    have habove := hexceeds s.cache (hcache ▸ List.suffix_append _ _) List.suffix_rfl
    obtain ⟨w', hw', h'⟩ := h.evictOldest_yield hcache ⟨hmemory ▸ habove, by simp⟩
    rw [hcache] at hmemory hexceeds
    obtain ⟨v, v', hpasses, hbody, hbefore, hafter⟩ := h'.evictOldest_reaches early rfl
      ((congrArg (· - a.value.size) hmemory).trans (counterOf_cons drift a _)) hexceeds.of_cons
    exact ⟨v, v', (Passes.start.pass hw').trans hpasses, hbody, hbefore, hafter⟩

/-- The images when a successful result was stored, and those the step leaves. -/
theorem Refines.stored (hclock : Monotone clk) (h : w.Refines s) (hp : s.Protocol workers [])
    (ht : s.Chronology clk) {i : Nat} {cmd : ResizeResult}
    (hcmd : s.env.resizeResults[i]? = some cmd) {result : SuccessfulResize}
    (hresult : cmd.result = .successful result) :
    ∃ w₁ w₂ requests w' new s₀,
      ResultHandover clk { w with env := w.env.deliverResult i } cmd w₁ w₂ requests ∧
      (w₂.insertImage clk cmd.key result.imageBlob).Refines s₀ ∧ s₀.cache = s.cache ++ [new] ∧
      s₀.memorySize = s.memorySize + result.imageBlob.size ∧ new.value = result.imageBlob ∧
      (keys (s.cache ++ [new])).Nodup ∧ ((s.cache ++ [new]).Pairwise fun a b => a.time ≤ b.time) ∧
      step clk w (.resizeResult i) = .ok w' ∧ w'.manager.transformedCache.toList =
        (ListWorld.evict (s.cache ++ [new]) (s.memorySize + result.imageBlob.size)).1 := by
  obtain ⟨w₁, w₂, requests, w₃, w', hhandover, h₂, hkey, hw₃, hw', hmanager⟩ :=
    h.step_successful clk hp hcmd hresult
  have ht₂ := ListWorld.Chronology.tryInitiate hclock
    (s := ListWorld.pushFreeWorker { s with env := s.env.deliverResult i } cmd.worker)
    ⟨ht.cache, ht.pending⟩
  have hd := ListWorld.dispatched_tryInitiate clk
    (ListWorld.pushFreeWorker { s with env := s.env.deliverResult i } cmd.worker)
  have hcache := hd.cache
  have hmemory := hd.memorySize
  generalize (ListWorld.pushFreeWorker { s with env := s.env.deliverResult i }
    cmd.worker).tryInitiate clk = s₂ at h₂ hkey ht₂ hcache hmemory
  have hcache : s₂.cache = s.cache := hcache
  have hmemory : s₂.memorySize = s.memorySize := hmemory
  obtain ⟨w₃', hw₃', h₃⟩ := h₂.store clk result.imageBlob hkey
  cases hw₃.symm.trans hw₃'
  refine ⟨w₁, w₂, requests, w', ⟨cmd.key, result.imageBlob, clk s₂.env.reads⟩, _, hhandover,
    h₂.insertImage clk result.imageBlob hkey, ?_, ?_, rfl, ?_, ?_, hw', ?_⟩
  · exact congrArg (· ++ _) hcache
  · exact congrArg (· + _) hmemory
  · rw [hcache] at hkey
    rw [keys, List.map_append]
    exact hp.cached.append (List.nodup_singleton _) (List.disjoint_singleton.2 hkey)
  · rw [← hcache]
    exact (ht₂.cache.push (List.Sublist.refl _) le_rfl rfl).1
  · rw [hmanager, LinkedIndex.RefinesWith.toList_eq h₃.cache, ← hcache, ← hmemory]
    rfl

/-- Where a list with a new element at its end is split, the second part ends with the new one. -/
theorem split_of_concat_eq {α : Type} {l early late : List α} {new d : α}
    (h : l ++ [new] = early ++ d :: late) :
    ∃ kept, l = early ++ kept ∧ d :: late = kept ++ [new] := by
  obtain ⟨kept, last, hlast⟩ :=
    (List.eq_nil_or_concat (d :: late)).resolve_left (List.cons_ne_nil d late)
  rw [List.concat_eq_append] at hlast
  rw [hlast, ← List.append_assoc] at h
  obtain ⟨hl, hnew⟩ := List.append_inj' h rfl
  exact ⟨kept, hl, hnew ▸ hlast⟩

/-- An image whose key none of those that are left has is gone. -/
theorem gone_of_subset {e : Entry ResizeRequestKey DatasizableBlob} {l : ImageList}
    (hnodup : (keys (e :: l)).Nodup) (hleft : w.manager.transformedCache.toList ⊆ l) :
    w.Gone e := by
  intro d hd hkey
  have hmem : d.key ∈ keys l := List.mem_map_of_mem (hleft hd)
  rw [hkey] at hmem
  exact absurd hmem (List.nodup_cons.1 hnodup).1

section Result
variable {drift : Nat} (hclock : Monotone clk) (h : w.Refines s) (hp : s.Protocol workers [])
  (ht : s.Chronology clk) (hd : s.MemoryDrift drift) {i : Nat} {cmd : ResizeResult}
  (hcmd : s.env.resizeResults[i]? = some cmd) {result : SuccessfulResize}
  (hresult : cmd.result = .successful result)
include hclock h hp ht hd hcmd hresult

/-- If a result evicts only images that may leave, those that fit also do with the uncounted
bytes. -/
theorem fitsModuloUncounted_of_retention (hpolicy : RetentionPolicy clk w (.resizeResult i)) :
    w.FitsModuloUncounted drift (.resizeResult i) := by
  intro tail size htail
  have hcmd' : w.env.resizeResults[i]? = some cmd := h.env ▸ hcmd
  obtain ⟨cmd₁, result₁, hcmd₁, hresult₁, rfl⟩ := htail.brought
  cases hcmd'.symm.trans hcmd₁
  cases hresult.symm.trans hresult₁
  have hlist := LinkedIndex.RefinesWith.toList_eq h.cache
  have hrecent := htail.recent
  rw [hlist] at hrecent ⊢
  by_contra hnone
  push Not at hnone
  obtain ⟨w₁, w₂, requests, w', new, s₀, hhandover, h₀, hcache₀, -, hvalue, hnodup, -, hw',
    hleft⟩ := h.stored hclock hp ht hcmd hresult
  rw [← hvalue, hd.counter] at hleft
  rw [← hvalue] at hnone
  obtain ⟨early, himages⟩ := hrecent
  obtain ⟨e, kept, rfl⟩ := List.exists_cons_of_ne_nil htail.nonempty
  have hsplit : s.cache ++ [new] = early ++ e :: (kept ++ [new]) := by
    rw [← himages, List.append_assoc, List.cons_append]
  have hexceeds := exceedsUntil_concat.2 hnone
  rw [hsplit, List.cons_append] at hexceeds
  have hremoved := ListWorld.evict_removes early (e :: (kept ++ [new])) (by simp) hexceeds
  rw [← hsplit, counterOf_concat, counterOf, ← hleft] at hremoved
  -- The image `e` is gone although it fits, so the policy says that it did not fit.
  have he : e ∈ s.cache := himages ▸ List.mem_append_right _ List.mem_cons_self
  rw [hsplit] at hnodup
  have hgone : w'.Gone e := gone_of_subset
    (((List.suffix_append early _).sublist.map _).nodup hnodup) hremoved.subset
  cases hpolicy w' hw' e (hlist ▸ he) hgone with
  | @evicted _ cmd₂ result₂ _ w₂' v _ _ rest' hcmd₂ hresult₂ hhandover₂ hpasses _ hbefore _ _
      hexceeds' =>
    cases hcmd'.symm.trans hcmd₂
    cases hresult.symm.trans hresult₂
    cases hhandover.unique hhandover₂
    obtain ⟨l, m, hv, hsuffix, -⟩ := h₀.evictOldest_passes hpasses
    rw [LinkedIndex.RefinesWith.toList_eq hv.cache] at hbefore
    have hbefore : l = e :: rest' := hbefore
    rw [hcache₀, hsplit, hbefore] at hsuffix
    have hsame : rest' = kept ++ [new] :=
      suffix_unique (List.Nodup.of_map _ hnodup) hsuffix (List.suffix_append early _)
    rw [hsame, ← List.cons_append, totalSize_concat, hvalue] at hexceeds'
    exact absurd htail.fits (Nat.not_le.2 hexceeds')

/-- If the images that fit also do with the uncounted bytes, a result evicts only images that may
leave. -/
theorem retention_of_fitsModuloUncounted (hfits : w.FitsModuloUncounted drift (.resizeResult i)) :
    RetentionPolicy clk w (.resizeResult i) := by
  intro w'' hw'' e he hgone
  have hcmd' : w.env.resizeResults[i]? = some cmd := h.env ▸ hcmd
  have hlist := LinkedIndex.RefinesWith.toList_eq h.cache
  obtain ⟨w₁, w₂, requests, w', new, s₀, hhandover, h₀, hcache₀, hmemory₀, hvalue, -, htimes, hw',
    hleft⟩ := h.stored hclock hp ht hcmd hresult
  cases hw'.symm.trans hw''
  rw [hlist] at he
  have hcounter : s.memorySize + result.imageBlob.size = counterOf drift (s.cache ++ [new]) := by
    rw [counterOf_concat, counterOf, hd.counter, hvalue]
  obtain ⟨gone, hsplit, hremoved⟩ := ListWorld.evict_gone drift (s.cache ++ [new])
  rw [← hcounter, ← hleft] at hsplit hremoved
  have hmem : e ∈ gone := by
    have := List.mem_append_left [new] he
    rw [hsplit] at this
    rcases List.mem_append.1 this with hmem | hmem
    · exact hmem
    · exact absurd hgone (not_gone ⟨e, hmem, rfl, rfl⟩)
  obtain ⟨early, late, rfl⟩ := List.append_of_mem hmem
  obtain ⟨hexceeds, hne⟩ := hremoved early e late rfl
  obtain ⟨d, rest, hrest⟩ := List.exists_cons_of_ne_nil hne
  rw [List.append_assoc, List.cons_append, hrest] at hsplit
  rw [List.cons_append, hrest] at hexceeds
  obtain ⟨v, v', hpasses, hbody, hbefore, hafter⟩ := h₀.evictOldest_reaches early
    (hcache₀.trans hsplit) (hmemory₀.trans (hcounter.trans (congrArg _ hcache₀.symm)))
    (hcache₀ ▸ hexceeds)
  refine .evicted hcmd' hresult hhandover hpasses hbody hbefore hafter ?_ ?_
  · rw [hsplit] at htimes
    exact (List.pairwise_cons.1 (List.pairwise_append.1 htimes).2.1).1
  · -- Those that are left end with the new image, and the others would be a tail that fits.
    obtain ⟨kept, hcache, hkept⟩ := split_of_concat_eq (hsplit.trans (List.append_cons early e _))
    rw [← List.append_cons] at hcache
    rw [hkept, ← List.cons_append] at hexceeds ⊢
    by_contra hle
    rw [Nat.not_lt, totalSize_concat, hvalue] at hle
    obtain ⟨longer, htail, hlonger, hmod⟩ := hfits (e :: kept) result.imageBlob.size.toNat
      ⟨⟨cmd, result, hcmd', hresult, rfl⟩, hlist ▸ hcache ▸ List.suffix_append _ _,
        List.cons_ne_nil e kept, hle⟩
    have habove := exceedsUntil_concat.1 hexceeds longer htail (hlist ▸ hlonger)
    rw [hvalue] at habove
    exact absurd hmod (Nat.not_le.2 habove)

/-- A result evicts only images that may leave exactly if those that fit also do with the uncounted
bytes. -/
theorem retention_resizeResult_iff :
    RetentionPolicy clk w (.resizeResult i) ↔ w.FitsModuloUncounted drift (.resizeResult i) :=
  ⟨fitsModuloUncounted_of_retention hclock h hp ht hd hcmd hresult,
    retention_of_fitsModuloUncounted hclock h hp ht hd hcmd hresult⟩

end Result

/-! ## Steps and runs -/

/-- Where an action leaves all images in the cache, the policy holds and there is nothing to
decide. -/
theorem retention_of_same {a : Action} {s' : ListWorld} (h : w.Refines s)
    (hstep : ∃ w', step clk w a = .ok w' ∧ w'.Refines s')
    (hsame : ∀ e ∈ s.cache, ∃ d ∈ s'.cache, d.key = e.key ∧ d.value = e.value) :
    RetentionPolicy clk w a := by
  obtain ⟨w', hw', h'⟩ := hstep
  intro w'' hw'' e he hgone
  cases hw'.symm.trans hw''
  rw [LinkedIndex.RefinesWith.toList_eq h.cache] at he
  refine absurd hgone (not_gone ?_)
  rw [LinkedIndex.RefinesWith.toList_eq h'.cache]
  exact hsame e he

/-- A request for an image leaves all images in the cache. -/
theorem cache_onResizeRequest (clk : Clock) (h : (keys s.cache).Nodup) (req : RequestHandle)
    (key : ResizeRequestKey) : ∀ e ∈ s.cache, ∃ d ∈ (s.onResizeRequest clk req key).cache,
      d.key = e.key ∧ d.value = e.value := by
  intro e he
  obtain ⟨hit, hmem, -, heq⟩ | ⟨-, -, heq⟩ | ⟨-, -, -, heq⟩ | ⟨-, -, -, -, heq⟩ |
    ⟨-, -, -, -, heq⟩ := ListWorld.onResizeRequest_cases clk s req key <;> rw [heq]
  · by_cases hkey : e.key = hit.key
    · cases List.inj_on_of_nodup_map h he hmem hkey
      exact ⟨_, List.mem_append_right _ (List.mem_singleton.2 rfl), rfl, rfl⟩
    · exact ⟨e, List.mem_append_left _ (List.mem_filter.2 ⟨he, decide_eq_true hkey⟩), rfl, rfl⟩
  · exact ⟨e, he, rfl, rfl⟩
  · exact ⟨e, he, rfl, rfl⟩
  · rw [(ListWorld.dispatched_tryInitiate clk _).cache]
    exact ⟨e, he, rfl, rfl⟩
  · exact ⟨e, he, rfl, rfl⟩

/-- A tick of the cache timer removes only images that are too old. -/
theorem retention_clearCache (h : w.Refines s) : RetentionPolicy clk w .clearCache := by
  obtain ⟨w', hw', h'⟩ := h.onClearCache clk
  intro w'' hw'' e he hgone
  cases Except.ok.inj (hw'.symm.trans hw'')
  rw [LinkedIndex.RefinesWith.toList_eq h.cache] at he
  have hsplit := List.takeWhile_append_dropWhile
    (p := expired (clk s.env.reads - maxCacheLifetime)) (l := s.cache)
  rw [← hsplit] at he
  rcases List.mem_append.1 he with he | he
  · have hold := List.all_eq_true.1 List.all_takeWhile e he
    rw [expired_eq, decide_eq_true_iff, ← h.env] at hold
    exact .expired hold
  · exact absurd hgone (not_gone ⟨e, LinkedIndex.RefinesWith.toList_eq h'.cache ▸ he, rfl, rfl⟩)

/-- An action follows the policy exactly if the images that fit also do with the uncounted bytes. -/
theorem retention_step_iff {drift : Nat} (hclock : Monotone clk) (h : w.Refines s)
    (hp : s.Protocol workers []) (ht : s.Chronology clk) (hd : s.MemoryDrift drift) (a : Action) :
    RetentionPolicy clk w a ↔ w.FitsModuloUncounted drift a := by
  have hstep := step_refines clk h hp a
  cases a with
  | resizeRequest keepAlive image targetFormat params =>
    exact iff_of_true (retention_of_same h hstep (cache_onResizeRequest clk (s := { s with
      env := s.env.receive _ _ }) hp.cached _ _)) trivial
  | deleteCacheRequest keepAlive token envToken =>
    refine iff_of_true ?_ trivial
    by_cases hvalid : envToken.filter (· ≠ []) = some token
    · rw [Option.filter_eq_some_iff] at hvalid
      obtain ⟨rfl, htoken⟩ := hvalid
      exact fun _ _ _ _ _ => .deleted keepAlive (of_decide_eq_true htoken)
    · refine retention_of_same h hstep fun e he => ⟨e, ?_, rfl, rfl⟩
      rw [ListWorld.next]
      obtain ⟨hvalid', -⟩ | ⟨-, text, heq⟩ :=
        ListWorld.onDeleteCacheRequest_cases _ envToken _ token
      · exact absurd hvalid' hvalid
      · rw [heq]
        exact he
  | transform i result =>
    refine iff_of_true (retention_of_same h hstep fun e he => ⟨e, ?_, rfl, rfl⟩) trivial
    rw [ListWorld.next]
    split <;> exact he
  | resizeResult i =>
    cases hcmd : s.env.resizeResults[i]? with
    | none =>
      refine iff_of_true (retention_of_same h hstep fun e he => ⟨e, ?_, rfl, rfl⟩) ?_
      · simp only [ListWorld.next, hcmd]
        exact he
      · intro tail size htail
        obtain ⟨cmd', result', hcmd', -⟩ := htail.brought
        rw [h.env, hcmd] at hcmd'
        cases hcmd'
    | some cmd =>
      cases hresult : cmd.result with
      | failed result =>
        refine iff_of_true (retention_of_same h hstep fun e he => ⟨e, ?_, rfl, rfl⟩) ?_
        · simp only [ListWorld.next, hcmd, ListWorld.onResizeResult, ListWorld.finish, hresult]
          show e ∈ (ListWorld.tryInitiate clk _).cache
          rw [(ListWorld.dispatched_tryInitiate clk _).cache]
          exact he
        · intro tail size htail
          obtain ⟨cmd', result', hcmd', hresult', -⟩ := htail.brought
          rw [h.env, hcmd] at hcmd'
          cases hcmd'
          cases hresult.symm.trans hresult'
      | successful result => exact retention_resizeResult_iff hclock h hp ht hd hcmd hresult
  | negativeDeleteCacheResponse i =>
    refine iff_of_true (retention_of_same h hstep fun e he => ⟨e, ?_, rfl, rfl⟩) trivial
    rw [ListWorld.next]
    split <;> exact he
  | clearCache => exact iff_of_true (retention_clearCache h) trivial
  | checkPendingRequests =>
    exact iff_of_true (retention_of_same h hstep fun e he => ⟨e, he, rfl, rfl⟩) trivial

/-- A counter that can hold all that is stored does not overflow. -/
theorem fitsModuloUncounted_iff (clk : Clock) {drift : Nat} (h : w.Refines s)
    (hd : s.MemoryDrift drift) {a : Action} (hstored : (s.next clk a).env.storedSize < 2 ^ 64) :
    w.FitsModuloUncounted drift a ↔ w.FitsWithUncounted drift a := by
  cases a with
  | resizeResult i =>
    constructor
    · intro hfits tail size htail
      obtain ⟨longer, hlonger, hcached, hmod⟩ := hfits tail size htail
      obtain ⟨cmd, result, hcmd, hresult, rfl⟩ := htail.brought
      rw [h.env] at hcmd
      rw [ListWorld.storedSize_resizeResult hcmd hresult] at hstored
      rw [LinkedIndex.RefinesWith.toList_eq h.cache] at hcached
      have hle := totalSize_suffix_le hlonger
      have hle' := totalSize_suffix_le hcached
      have hdrift := hd.stored
      rw [Nat.mod_eq_of_lt (by omega)] at hmod
      omega
    · intro hfits tail size htail
      exact ⟨tail, List.suffix_rfl, htail.recent, (Nat.mod_le _ _).trans (hfits tail size htail)⟩
  | _ => exact Iff.rfl

/-- What holds before every action of a run of the manager, of the actions so far, the state and the
action. -/
def Throughout (clk : Clock) (workers : List Mbox) (actions : List Action)
    (P : List Action → World → Action → Prop) : Prop :=
  ∀ before a after w, actions = before ++ a :: after →
    run (step clk) (init workers) before = .ok w → P before w a

/-- What holds at every step of a run may be replaced by what is the same in reachable states. -/
theorem throughout_congr {actions : List Action} {P Q : List Action → World → Action → Prop}
    (h : ∀ before a after w, actions = before ++ a :: after →
      run (step clk) (init workers) before = .ok w → (P before w a ↔ Q before w a)) :
    Throughout clk workers actions P ↔ Throughout clk workers actions Q := by
  constructor
  · intro hP before a after w hsplit hrun
    exact (h before a after w hsplit hrun).1 (hP before a after w hsplit hrun)
  · intro hQ before a after w hsplit hrun
    exact (h before a after w hsplit hrun).2 (hQ before a after w hsplit hrun)

/-- In every run with a clock that never runs backwards, images leave the cache only as they may
exactly if, whenever some of them fit into the limit with a new one, they do so together with the
bytes that left the cache uncounted so far: modulo 2^64 in general, and as they are in a run that
stores less than the counter can hold. -/
theorem cache_retention_iff (clk : Clock) (hclock : Monotone clk) (workers : List Mbox)
    (actions : List Action) :
    (Throughout clk workers actions (fun _ w a => RetentionPolicy clk w a) ↔
      Throughout clk workers actions fun before w a =>
        w.FitsModuloUncounted (uncountedSoFar clk workers before) a) ∧
    ∀ w', run (step clk) (init workers) actions = .ok w' → w'.env.storedSize < 2 ^ 64 →
      (Throughout clk workers actions (fun _ w a => RetentionPolicy clk w a) ↔
        Throughout clk workers actions fun before w a =>
          w.FitsWithUncounted (uncountedSoFar clk workers before) a) := by
  have hmodulo : Throughout clk workers actions (fun _ w a => RetentionPolicy clk w a) ↔
      Throughout clk workers actions fun before w a =>
        w.FitsModuloUncounted (uncountedSoFar clk workers before) a :=
    throughout_congr fun before a _ w _ hrun => retention_step_iff hclock (refines_of_run hrun)
      (ListWorld.inOrder_foldl clk workers before).protocol
      (ListWorld.chronology_foldl hclock workers before) (memoryDrift_of_run hrun) a
  refine ⟨hmodulo, ?_⟩
  intro w' hrun' hstored
  rw [(refines_of_run hrun').env] at hstored
  refine hmodulo.trans (throughout_congr ?_)
  rintro before a after w rfl hrun
  rw [List.foldl_append, List.foldl_cons] at hstored
  exact fitsModuloUncounted_iff clk (refines_of_run hrun) (memoryDrift_of_run hrun)
    ((ListWorld.logGrows_foldl clk after _).storedSize_le.trans_lt hstored)

/-- What a successful result at the end of a run asks for, in the terms of the manager over
lists. -/
theorem fitsWithUncounted_of_run {before : List Action}
    (hrun : run (step clk) (init workers) before = .ok w) {s : ListWorld}
    (hs : before.foldl (ListWorld.next clk) (ListWorld.init workers) = s)
    (hstored : s.env.storedSize < 2 ^ 64) {i : Nat} (cmd : ResizeResult)
    (hcmd : s.env.resizeResults[i]? = some cmd) {result : SuccessfulResize}
    (hresult : cmd.result = .successful result)
    (hfits : ∀ tail ∈ s.cache.tails, tail ≠ [] →
      totalSize tail + result.imageBlob.size.toNat ≤ maxTransformedCacheMemorySize.toNat →
      s.memorySize.toNat + totalSize tail + result.imageBlob.size.toNat ≤
        maxTransformedCacheMemorySize.toNat + totalSize s.cache) :
    w.FitsWithUncounted (uncountedSoFar clk workers before) (.resizeResult i) := by
  intro tail size htail
  have h := refines_of_run hrun
  have hd := memoryDrift_of_run hrun
  rw [hs] at h hd
  obtain ⟨cmd', result', hcmd', hresult', rfl⟩ := htail.brought
  rw [h.env] at hcmd'
  cases hcmd.symm.trans hcmd'
  cases hresult.symm.trans hresult'
  have hrecent := htail.recent
  rw [LinkedIndex.RefinesWith.toList_eq h.cache] at hrecent
  have hle := hfits tail ((List.mem_tails _ _).2 hrecent) htail.nonempty htail.fits
  rw [hd.toNat_memorySize hstored] at hle
  omega

/-- An admin deletes an image of 10 MiB, so that the counter is ahead by these. When an image of
20 MiB is then stored beside those of 60 MiB and 30 MiB, the oldest one is evicted and the others,
which fit together with the 10 MiB, stay. -/
theorem cache_retention_iff_four_images : ∃ w w', ∃ before : List Action,
    run (step fun n => n) (init [⟨0⟩]) before = .ok w ∧
    step (fun n => n) w (.resizeResult 0) = .ok w' ∧
    uncountedSoFar (fun n => n) [⟨0⟩] before = 10485760 ∧
    w.manager.transformedCache.toList.map (·.value.size) = [62914560, 31457280] ∧
    w'.manager.transformedCache.toList.map (·.value.size) = [31457280, 20971520] ∧
    Throughout (fun n => n) [⟨0⟩] (before ++ [.resizeResult 0]) fun _ w a =>
      RetentionPolicy (fun n => n) w a := by
  have hclock : Monotone (fun n => n : Clock) := fun _ _ h => Int.ofNat_le.2 h
  let before : List Action := [.resizeRequest true [46] .png ⟨.width, 100, by decide⟩,
    .transform 0 (.successful ⟨⟨⟨0, 10485760⟩, 0⟩, 0, 0⟩), .resizeResult 0,
    .deleteCacheRequest true [1] (some [1]),
    .resizeRequest true [47] .png ⟨.width, 100, by decide⟩,
    .transform 0 (.successful ⟨⟨⟨1, 62914560⟩, 0⟩, 0, 0⟩), .resizeResult 0,
    .resizeRequest true [48] .png ⟨.width, 100, by decide⟩,
    .transform 0 (.successful ⟨⟨⟨2, 31457280⟩, 0⟩, 0, 0⟩), .resizeResult 0,
    .resizeRequest true [49] .png ⟨.width, 100, by decide⟩,
    .transform 0 (.successful ⟨⟨⟨3, 20971520⟩, 0⟩, 0, 0⟩)]
  let cmd (image : UInt8) (data : Nat) (size : UInt64) : ResizeResult :=
    ⟨⟨0⟩, ⟨[image], .png, ⟨.width, 100, by decide⟩⟩, .successful ⟨⟨⟨data, size⟩, 0⟩, 0, 0⟩⟩
  obtain ⟨w, hw, h, hp⟩ := run_refines (fun n => n) [⟨0⟩] before
  obtain ⟨w', hw', h'⟩ := step_refines (fun n => n) h hp (.resizeResult 0)
  have hrun' := run_concat_eq_ok.2 ⟨w, hw, hw'⟩
  have hdrift := (memoryDrift_of_run hw).toNat_memorySize (by decide +kernel)
  have hmemory : (before.foldl (ListWorld.next fun n => n) (ListWorld.init [⟨0⟩])).memorySize =
    104857600 := by decide +kernel
  have hsizes : totalSize (before.foldl (ListWorld.next fun n => n)
    (ListWorld.init [⟨0⟩])).cache = 94371840 := by decide +kernel
  refine ⟨w, w', before, hw, hw', ?_, ?_, ?_, ?_⟩
  · rw [hmemory, hsizes] at hdrift
    exact Nat.add_right_cancel (hdrift.symm.trans (by decide))
  · rw [LinkedIndex.RefinesWith.toList_eq h.cache]
    decide +kernel
  · rw [LinkedIndex.RefinesWith.toList_eq h'.cache]
    decide +kernel
  · refine ((cache_retention_iff (fun n => n) hclock [⟨0⟩] (before ++ [.resizeResult 0])).2 w'
      hrun' ?_).2 ?_
    · rw [h'.env]
      decide +kernel
    · intro early a late v hsplit hrun
      have hearly : early = (before ++ [Action.resizeResult 0]).take early.length := by
        rw [hsplit, List.take_left']
        rfl
      have ha : (before ++ [Action.resizeResult 0])[early.length]? = some a := by
        rw [hsplit]
        simp
      have hlength : early.length < 13 := by
        have := congrArg List.length hsplit
        simp [before] at this
        omega
      rw [hearly] at hrun ⊢
      generalize early.length = k at hrun ha hlength ⊢
      interval_cases k <;> cases ha <;> try exact True.intro
      · exact fitsWithUncounted_of_run hrun rfl (by decide +kernel) (cmd 46 0 10485760)
          (by decide +kernel) rfl (by decide +kernel)
      · exact fitsWithUncounted_of_run hrun rfl (by decide +kernel) (cmd 47 1 62914560)
          (by decide +kernel) rfl (by decide +kernel)
      · exact fitsWithUncounted_of_run hrun rfl (by decide +kernel) (cmd 48 2 31457280)
          (by decide +kernel) rfl (by decide +kernel)
      · exact fitsWithUncounted_of_run hrun rfl (by decide +kernel) (cmd 49 3 20971520)
          (by decide +kernel) rfl (by decide +kernel)

/-- An admin deletes an image of 60 MiB; when an image of 20 MiB is then stored beside one of
30 MiB, the counter is above the limit, and the latter is evicted. -/
theorem cache_retention_violated :
    ¬ ∀ (clk : Clock) (workers : List Mbox) (before : List Action) (a : Action) (w : World),
      Monotone clk → run (step clk) (init workers) before = .ok w → RetentionPolicy clk w a := by
  intro hpolicy
  have hclock : Monotone (fun n => n : Clock) := fun _ _ h => Int.ofNat_le.2 h
  let before : List Action := [.resizeRequest true [47] .png ⟨.width, 100, by decide⟩,
    .transform 0 (.successful ⟨⟨⟨0, 62914560⟩, 0⟩, 0, 0⟩), .resizeResult 0,
    .deleteCacheRequest true [1] (some [1]),
    .resizeRequest true [48] .png ⟨.width, 100, by decide⟩,
    .transform 0 (.successful ⟨⟨⟨1, 31457280⟩, 0⟩, 0, 0⟩), .resizeResult 0,
    .resizeRequest true [49] .png ⟨.width, 100, by decide⟩,
    .transform 0 (.successful ⟨⟨⟨2, 20971520⟩, 0⟩, 0, 0⟩)]
  obtain ⟨w, hw, h, hp⟩ := run_refines (fun n => n) [⟨0⟩] before
  have hd := memoryDrift_of_run hw
  have hstored : (before.foldl (ListWorld.next fun n => n)
    (ListWorld.init [⟨0⟩])).env.storedSize + 20971520 < 2 ^ 64 := by decide +kernel
  have hcmd : (before.foldl (ListWorld.next fun n => n)
      (ListWorld.init [⟨0⟩])).env.resizeResults[0]? = some ⟨⟨0⟩,
        ⟨[49], .png, ⟨.width, 100, by decide⟩⟩, .successful ⟨⟨⟨2, 20971520⟩, 0⟩, 0, 0⟩⟩ := by
    decide +kernel
  have hfits := (retention_step_iff hclock h hp
    (ListWorld.chronology_foldl hclock [⟨0⟩] before) hd (.resizeResult 0)).1
    (hpolicy _ _ before (.resizeResult 0) w hclock hw)
  rw [fitsModuloUncounted_iff (fun n => n) h hd (by decide +kernel)] at hfits
  have hcache : totalSize (before.foldl (ListWorld.next fun n => n)
    (ListWorld.init [⟨0⟩])).cache = 31457280 := by decide +kernel
  have hmemory : (before.foldl (ListWorld.next fun n => n)
    (ListWorld.init [⟨0⟩])).memorySize.toNat = 94371840 := by decide +kernel
  rw [hd.toNat_memorySize (by omega)] at hmemory
  have hlist := LinkedIndex.RefinesWith.toList_eq h.cache
  -- The image of 30 MiB fits with the new one, but not with the 60 MiB that were deleted.
  have hle := hfits (before.foldl (ListWorld.next fun n => n) (ListWorld.init [⟨0⟩])).cache 20971520
    ⟨⟨_, _, h.env ▸ hcmd, rfl, rfl⟩, hlist ▸ List.suffix_rfl, by decide +kernel, by
      rw [hcache]; decide⟩
  rw [hmemory] at hle
  exact absurd hle (by decide)

end World

end Shrimp
