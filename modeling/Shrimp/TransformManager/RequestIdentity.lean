import Shrimp.TransformManager.Safety

/-!
# Which requests are taken for the same

The cache and both queues of the manager know a key only through `operator<`. `SameRequest` says
which keys should be one: a key is a path, a format, a mode and, but for `keep_original`, a value.
`SeparatesRequests` says of a container that whatever it finds, refuses, counts or takes out by its
key is right for that notion, and `key_order_separates_requests` that this holds of the three
containers in every run, the order being a total one whose equivalent keys are those of the same
request.
-/

namespace Shrimp

open KeyOrder Execution

/-! ## The order of the keys -/

/-- `operator<` is a total order of the keys that can be built, and two keys are equivalent exactly
if they are of the same request. -/
structure ResizeRequestKey.OrdersRequests : Prop where
  /-- There are no other keys than those with parameters from `make`. -/
  built : ∀ a : ResizeRequestKey, ∃ width height maxSide,
    ResizeParams.make width height maxSide = .ok a.params
  irrefl : ∀ a : ResizeRequestKey, ¬ a < a
  trans : ∀ a b c : ResizeRequestKey, a < b → b < c → a < c
  total : ∀ a b : ResizeRequestKey, a < b ∨ a = b ∨ b < a
  equivalent : ∀ a b : ResizeRequestKey, (¬ a < b ∧ ¬ b < a) ↔ a.SameRequest b
  equals : ∀ a b : ResizeRequestKey, KeyMultivalueQueue.equals a b = true ↔ a.SameRequest b

/-- The order of the keys is strict and total, and tells two keys apart exactly if they ask for
different images. -/
theorem ResizeRequestKey.ordersRequests : ResizeRequestKey.OrdersRequests where
  built a := a.params.exists_make
  irrefl a := irrefl_of (· < ·) a
  trans _ _ _ := trans_of (· < ·)
  total a b := by
    by_cases hlt : a < b
    · exact .inl hlt
    · by_cases hgt : b < a
      · exact .inr (.inr hgt)
      · exact .inr (.inl ((equivalent_iff a b).1 ⟨hlt, hgt⟩))
  equivalent := equivalent_iff_sameRequest
  equals a b := KeyMultivalueQueue.equals_iff.trans (equivalent_iff_sameRequest a b)

/-! ## The containers -/

section Containers
variable {V : Type}

/-- The container holds at most one value for a request, and finds it for that request only. -/
structure CacheAlikeContainer.SeparatesRequests (c : CacheAlikeContainer ResizeRequestKey V) :
    Prop where
  distinct : c.toList.Pairwise fun a b => ¬ a.key.SameRequest b.key
  hit : ∀ key atoken, c.lookup key = some atoken →
    ∃ e ∈ c.toList, c.read atoken = .ok e ∧ e.key.SameRequest key
  miss : ∀ key, c.lookup key = none → ∀ e ∈ c.toList, ¬ e.key.SameRequest key
  /-- The value of the same request stays, another request gets an entry of its own. -/
  insert : ∀ now key value, (c.insert now key value).toList =
    if ∃ e ∈ c.toList, e.key.SameRequest key then c.toList else c.toList ++ [⟨key, value, now⟩]

/-- The queue keeps the values of a request together and those of different requests apart. -/
structure KeyMultivalueQueue.SeparatesRequests (q : KeyMultivalueQueue ResizeRequestKey V) :
    Prop where
  hasKey : ∀ key, q.hasKey key = true ↔ ∃ e ∈ q.toList, e.key.SameRequest key
  found : ∀ key atoken, q.findFirstForKey key = some atoken →
    ∃ e ∈ q.toList, q.read atoken = .ok e ∧ e.key.SameRequest key
  /-- All values of the request of a token are taken out, and no others. -/
  extracted : ∀ atoken e, q.read atoken = .ok e → ∃ q',
    q.extractValuesForKey atoken =
      .ok (q', (q.toList.filter fun d => d.key.SameRequest e.key).map (·.value)) ∧
    q'.toList = q.toList.filter fun d => ¬ d.key.SameRequest e.key
  uniqueKeys : q.uniqueKeys = (keys q.toList).toFinset.card

/-- A cache in order separates requests. -/
theorem CacheAlikeContainer.Refines.separatesRequests
    {c : CacheAlikeContainer ResizeRequestKey V} {l : List (Entry ResizeRequestKey V)}
    (h : c.Refines l) : c.SeparatesRequests := by
  have hl : c.toList = l := LinkedIndex.RefinesWith.toList_eq h
  refine ⟨?_, ?_, ?_, ?_⟩ <;>
    simp only [hl, ← ResizeRequestKey.equivalent_iff_sameRequest]
  · exact CacheAlikeContainer.Refines.distinct h
  · intro key atoken hlookup
    obtain ⟨e, l₁, l₂, hfind, -, hpts⟩ := Refines.points_of_lookup h hlookup
    exact ⟨e, List.mem_of_find?_eq_some hfind, hpts.read, by simpa using List.find?_some hfind⟩
  · exact fun key => (Refines.lookup_eq_none_iff h).1
  · intro now key value
    split
    · next hex =>
      obtain ⟨e, he, hk⟩ := hex
      exact LinkedIndex.RefinesWith.toList_eq (Refines.insert_known h now value he hk)
    · next hex =>
      have hnew : ∀ e ∈ l, ¬ Equivalent e.key key := fun e he hk => hex ⟨e, he, hk⟩
      exact LinkedIndex.RefinesWith.toList_eq (Refines.insert_new h now value hnew)

/-- A queue in order separates requests. -/
theorem KeyMultivalueQueue.Refines.separatesRequests
    {q : KeyMultivalueQueue ResizeRequestKey V} {l : List (Entry ResizeRequestKey V)}
    (h : q.Refines l) : q.SeparatesRequests := by
  have hl : q.toList = l := LinkedIndex.RefinesWith.toList_eq h
  refine ⟨?_, ?_, ?_, ?_⟩ <;>
    simp only [hl, ← ResizeRequestKey.equivalent_iff_sameRequest]
  · intro key
    rw [Refines.hasKey h, List.any_eq_true]
    simp only [decide_eq_true_eq]
  · intro key atoken hfirst
    obtain ⟨e, l₁, l₂, hfind, -, hpts⟩ := Refines.points_of_findFirstForKey h hfirst
    exact ⟨e, List.mem_of_find?_eq_some hfind, hpts.read, by simpa using List.find?_some hfind⟩
  · intro atoken e hread
    obtain ⟨l₁, l₂, rfl, hpts⟩ := LinkedIndex.RefinesWith.points_of_read h hread
    obtain ⟨q', hq', h'⟩ := Points.extractValuesForKey hpts
    exact ⟨q', hq', LinkedIndex.RefinesWith.toList_eq h'⟩
  · rw [Refines.uniqueKeys h, classes_eq_card, keys]

end Containers

/-! ## The manager -/

/-- The keys of resize requests are totally ordered, and in every run of the manager the cache and
both queues, which see nothing of them but this order, take two keys for the same exactly if they
are of the same request. -/
theorem key_order_separates_requests : ResizeRequestKey.OrdersRequests ∧
    ∀ (clk : Clock) (workers : List Mbox) (actions : List World.Action), ∃ w,
      run (World.step clk) (World.init workers) actions = .ok w ∧
      w.manager.transformedCache.SeparatesRequests ∧
      w.manager.pendingRequests.SeparatesRequests ∧
      w.manager.inprogressRequests.SeparatesRequests := by
  refine ⟨ResizeRequestKey.ordersRequests, ?_⟩
  intro clk workers actions
  obtain ⟨w, s, hrun, h, -⟩ := World.run_inOrder clk workers actions
  exact ⟨w, hrun, CacheAlikeContainer.Refines.separatesRequests h.cache,
    KeyMultivalueQueue.Refines.separatesRequests h.pending,
    KeyMultivalueQueue.Refines.separatesRequests h.inprogress⟩

end Shrimp
