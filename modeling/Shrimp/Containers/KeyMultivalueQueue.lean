import Shrimp.Containers.LinkedIndex
import Shrimp.Lib.Execution

/-!
# `key_multivalue_queue_t`

The queue of `key_multivalue_queue.hpp`: a multimap and an access list that point into each other
and a counter of distinct keys. `KeyMultivalueQueue.Holds q es` is its invariant: the access list is
`es` in insertion order, the multimap is the stable sort of `es` by key, the counter is the number
of distinct keys. Each operation has one lemma about `Holds`.
-/

namespace Shrimp

open KeyOrder LinkedIndex

/-- `key_multivalue_queue_t`. -/
structure KeyMultivalueQueue (K V : Type) extends LinkedIndex K V where
  uniqueKeys : Nat
deriving DecidableEq, Repr

/-- Decrement of a `std::size_t`. It wraps at zero; upward the counters below cannot reach the top
of the type, every unit of them being a node in memory. -/
def sizeDec (n : Nat) : Nat := if n = 0 then 2 ^ 64 - 1 else n - 1

namespace KeyMultivalueQueue

variable {K V : Type}

/-- The default constructor. -/
def init : KeyMultivalueQueue K V := ⟨⟨[], [], 0⟩, 0⟩

section Code
variable [LT K] [DecidableLT K]

/-- `equals`. -/
def equals (a b : K) : Bool := !decide (a < b) && !decide (b < a)

/-- `insert`, where `now` is the reading of the clock it takes. -/
def insert (q : KeyMultivalueQueue K V) (now : TimePoint) (key : K) (value : V) :
    KeyMultivalueQueue K V :=
  -- The only node of `tmp_ac`, which the splice hands over to `m_access_info`.
  let tmpIt := q.heap
  let it := q.heap + 1
  let items := insertUpper itemKey ⟨it, key, value, tmpIt⟩ q.items
  let accessInfo := q.accessInfo ++ [⟨tmpIt, now, some it⟩]
  let isUnique := !(NodeSeq.prev items it).any fun p => equals p.val.1 key
  ⟨⟨items, accessInfo, q.heap + 2⟩, q.uniqueKeys + if isUnique then 1 else 0⟩

/-- `m_items.find`: the first element with an equivalent key. -/
def find (q : KeyMultivalueQueue K V) (key : K) : Option (Node (K × WrappedValue V)) :=
  q.items.find? fun n => equals n.val.1 key

/-- `has_key`. -/
def hasKey (q : KeyMultivalueQueue K V) (key : K) : Bool := (q.find key).isSome

/-- `find_first_for_key`. -/
def findFirstForKey (q : KeyMultivalueQueue K V) (key : K) : Option AccessToken :=
  (q.find key).map fun n => ⟨n.addr⟩

/-- `erase`. -/
def erase (q : KeyMultivalueQueue K V) (atoken : AccessToken) :
    Except Fault (KeyMultivalueQueue K V) := do
  -- Access info must be removed first.
  let accessInfo ← iterator (NodeSeq.erase q.accessInfo (← q.accessIt atoken))
  let itKey ← q.key atoken
  let isUnique := !(NodeSeq.prev q.items atoken.it).any (fun p => equals p.val.1 itKey) &&
    !(NodeSeq.next q.items atoken.it).any fun n => equals n.val.1 itKey
  let uniqueKeys := if isUnique then sizeDec q.uniqueKeys else q.uniqueKeys
  let items ← iterator (NodeSeq.erase q.items atoken.it)
  return ⟨⟨items, accessInfo, q.heap⟩, uniqueKeys⟩

/-- The loop body of `move_to_tmp`: the element at `it` leaves the queue for `tmp_storage`. -/
def moveToTmp (s : LinkedIndex K V × List (Node (K × WrappedValue V))) (it : Addr) :
    Except Fault (LinkedIndex K V × List (Node (K × WrappedValue V))) := do
  let p ← iterator (NodeSeq.deref s.1.items it)
  let accessInfo ← iterator (NodeSeq.erase s.1.accessInfo p.2.accessIt)
  let items ← iterator (NodeSeq.erase s.1.items it)
  return (⟨items, accessInfo, s.1.heap⟩, insertUpper itemKey ⟨it, p⟩ s.2)

/-- `extract_values_for_key`: the new queue and the values handed to the lambda, in order.
Extracting a node leaves the iterators to the others valid, so the loop visits the addresses of the
equal range as it is when the loop starts. -/
def extractValuesForKey (q : KeyMultivalueQueue K V) (atoken : AccessToken) :
    Except Fault (KeyMultivalueQueue K V × List V) := do
  let key ← q.key atoken
  let range := NodeSeq.addrs (equalRange itemKey key q.items)
  let (c, tmpStorage) ← range.foldlM moveToTmp (q.toLinkedIndex, [])
  return (⟨c, sizeDec q.uniqueKeys⟩, tmpStorage.map fun n => n.val.2.value)

end Code

/-- The assignment `atoken.value() = v`. -/
def setValue (q : KeyMultivalueQueue K V) (atoken : AccessToken) (v : V) :
    Except Fault (KeyMultivalueQueue K V) := do
  let items ← iterator (NodeSeq.modify q.items atoken.it fun p => (p.1, { p.2 with value := v }))
  return { q with items := items }

/-! ## The invariant -/

variable [LT K] [DecidableLT K]

/-- The queue holds the entries `es`, in insertion order. -/
structure Holds (q : KeyMultivalueQueue K V) (es : List (LinkedEntry K V)) : Prop
    extends Links q.toLinkedIndex es where
  sorted : q.items = sortBy itemKey (es.map LinkedEntry.itemNode)
  unique : q.uniqueKeys = classes (es.map (·.key))

/-- `equals` tells keys that are equivalent in the order. -/
theorem equals_iff {a b : K} : equals a b = true ↔ Equivalent a b := by
  simp [equals, KeyOrder.Equivalent]

/-- The same as an equation of truth values. -/
theorem equals_eq (a b : K) : equals a b = decide (Equivalent a b) := by
  rw [Bool.eq_iff_iff, equals_iff, decide_eq_true_iff]

/-- A neighbour test finds an equal key exactly if its neighbour is there and has one. -/
theorem any_equals (o : Option (Node (K × WrappedValue V))) (k : K) :
    o.any (fun n => equals n.val.1 k) = true ↔ ∃ n ∈ o, Equivalent (itemKey n) k := by
  cases o <;> simp [equals_iff]

/-- A new queue holds no entries. -/
theorem holds_init : (init : KeyMultivalueQueue K V).Holds [] where
  items := .nil
  accessInfo := rfl
  itemAddrs := List.nodup_nil
  accessAddrs := List.nodup_nil
  below _ he := absurd he List.not_mem_nil
  sorted := rfl
  unique := rfl

/-- A step of `move_to_tmp` on the node of an entry. -/
theorem moveToTmp_eq {c : LinkedIndex K V} {ds : List (LinkedEntry K V)} (hc : c.Links ds)
    {d : LinkedEntry K V} (hd : d ∈ ds) (tmp : List (Node (K × WrappedValue V))) :
    moveToTmp (c, tmp) d.itemAddr =
      .ok (⟨NodeSeq.without c.items d.itemAddr, NodeSeq.without c.accessInfo d.accessAddr, c.heap⟩,
        insertUpper itemKey d.itemNode tmp) := by
  simp only [moveToTmp, hc.deref_item hd, hc.erase_access hd, hc.erase_item hd, iterator_some,
    Execution.ok_bind, Execution.pure_eq_ok]
  rfl

/-- The loop of `move_to_tmp` over the nodes of `rs` moves them all. -/
theorem moveToTmp_foldlM : ∀ (rs ds : List (LinkedEntry K V)) (c : LinkedIndex K V)
    (tmp : List (Node (K × WrappedValue V))), c.Links ds → (∀ r ∈ rs, r ∈ ds) →
    (rs.map LinkedEntry.itemAddr).Nodup →
    ∃ c', (rs.map LinkedEntry.itemAddr).foldlM moveToTmp (c, tmp) =
        .ok (c', (rs.map LinkedEntry.itemNode).foldl (fun acc n => insertUpper itemKey n acc) tmp) ∧
      c'.Links (ds.filter fun d => d.itemAddr ∉ rs.map LinkedEntry.itemAddr) ∧
      c'.items = c.items.filter fun n => n.addr ∉ rs.map LinkedEntry.itemAddr
  | [], ds, c, tmp, hc, _, _ => by
    refine ⟨c, rfl, ?_, ?_⟩
    · rwa [List.filter_eq_self.2 (by simp)]
    · rw [List.filter_eq_self.2 (by simp)]
  | r :: rs, ds, c, tmp, hc, hsub, hnodup => by
    have hr : r ∈ ds := hsub r (by simp)
    obtain ⟨hr', hnodup'⟩ := List.nodup_cons.1 hnodup
    have hsub' : ∀ x ∈ rs, x ∈ r.others ds := fun x hx =>
      List.mem_filter.2 ⟨hsub x (by simp [hx]), decide_eq_true fun heq =>
        hr' (heq ▸ List.mem_map_of_mem hx)⟩
    obtain ⟨c', hrun, hlinks, hitems⟩ :=
      moveToTmp_foldlM rs _ _ (insertUpper itemKey r.itemNode tmp) (hc.without hr) hsub' hnodup'
    refine ⟨c', ?_, ?_, ?_⟩
    · rw [List.map_cons, List.foldlM_cons, moveToTmp_eq hc hr, Execution.ok_bind, hrun]
      rfl
    · rw [List.filter_filter] at hlinks
      simpa [Bool.and_comm] using hlinks
    · rw [hitems, NodeSeq.without, List.filter_filter]
      refine List.filter_congr ?_
      intro n _
      simp [Bool.and_comm]

namespace Holds

variable [IsStrictWeakOrder K (· < ·)] {q : KeyMultivalueQueue K V} {es : List (LinkedEntry K V)}
  (h : q.Holds es)
include h

/-- The items are sorted by their keys. -/
theorem sortedBy : SortedBy itemKey q.items := h.sorted ▸ sorted_sortBy _

omit [IsStrictWeakOrder K (· < ·)] in
/-- The map has an element with an equivalent key if an entry has one. -/
theorem exists_item_iff (k : K) :
    (∃ n ∈ q.items, Equivalent (itemKey n) k) ↔ ∃ e ∈ es, Equivalent e.key k := by
  constructor
  · rintro ⟨n, hn, hk⟩
    obtain ⟨e, he, rfl⟩ := h.exists_of_mem_items hn
    exact ⟨e, he, hk⟩
  · rintro ⟨e, he, hk⟩
    exact ⟨e.itemNode, h.itemNode_mem he, hk⟩

/-- `insert` appends an entry. -/
theorem insert (now : TimePoint) (k : K) (v : V) :
    (q.insert now k v).Holds (es ++ [⟨⟨k, v, now⟩, q.heap + 1, q.heap⟩]) where
  toLinks := h.push k v now (perm_insertUpper _ _ _)
  sorted := by
    rw [List.map_append, List.map_singleton, sortBy_concat, ← h.sorted]; rfl
  unique := by
    let n : Node (K × WrappedValue V) := ⟨q.heap + 1, k, v, q.heap⟩
    have hnew : (insertUpper itemKey n q.items) =
        (q.items.filter fun m => ¬ k < itemKey m) ++ n :: q.items.filter fun m => k < itemKey m :=
      h.sortedBy.insertUpper_eq n
    have hnodup : (NodeSeq.addrs (insertUpper itemKey n q.items)).Nodup :=
      (h.push k v now (perm_insertUpper _ _ _)).nodup_items
    have hsort : SortedBy itemKey (insertUpper itemKey n q.items) := h.sortedBy.insertUpper n
    rw [hnew] at hnodup hsort
    -- The left neighbour decides: an equivalent key is not greater than the new one.
    have hleft : (∃ m ∈ q.items.filter (fun m => ¬ k < itemKey m), Equivalent (itemKey m) k) ↔
        ∃ e ∈ es, Equivalent e.key k := by
      rw [← h.exists_item_iff]
      constructor
      · rintro ⟨m, hm, hk⟩
        exact ⟨m, List.mem_of_mem_filter hm, hk⟩
      · rintro ⟨m, hm, hk⟩
        exact ⟨m, List.mem_filter.2 ⟨hm, decide_eq_true hk.2⟩, hk⟩
    have hprev : (NodeSeq.prev (insertUpper itemKey n q.items) (q.heap + 1)).any
        (fun p => equals p.val.1 k) = decide (∃ e ∈ es, Equivalent e.key k) := by
      rw [Bool.eq_iff_iff, decide_eq_true_iff, any_equals, ← hleft, hnew]
      rw [NodeSeq.prev_split hnodup]
      exact hsort.equiv_before.symm
    show q.uniqueKeys + _ = _
    rw [List.map_append, List.map_singleton, classes_concat, h.unique]
    simp only [n] at hprev
    simp only [hprev, Bool.not_eq_true', decide_eq_false_iff_not, List.mem_map,
      exists_exists_and_eq_and, Equivalent.comm (a := k), ite_not]

/-- The elements of one class, as the multimap and as the queue order them. -/
theorem filter_items (k : K) :
    (q.items.filter fun n => Equivalent (itemKey n) k) =
      (es.filter fun e => Equivalent e.key k).map LinkedEntry.itemNode := by
  rw [h.sorted, filter_equiv_sortBy, List.filter_map]; rfl

/-- `find` finds the first entry with an equivalent key. -/
theorem find (k : K) :
    q.find k = (es.find? fun e => Equivalent e.key k).map LinkedEntry.itemNode := by
  simp only [KeyMultivalueQueue.find, equals_eq]
  rw [← List.head?_filter, h.filter_items, List.head?_map, List.head?_filter]

/-- `has_key` tells whether an entry has an equivalent key. -/
theorem hasKey (k : K) : q.hasKey k = es.any fun e => Equivalent e.key k := by
  rw [KeyMultivalueQueue.hasKey, h.find, Option.isSome_map, Bool.eq_iff_iff, List.find?_isSome,
    List.any_eq_true]

/-- `find_first_for_key` finds the first entry of an equivalent key. -/
theorem findFirstForKey (k : K) :
    q.findFirstForKey k = (es.find? fun e => Equivalent e.key k).map fun e => ⟨e.itemAddr⟩ := by
  rw [KeyMultivalueQueue.findFirstForKey, h.find, Option.map_map]; rfl

/-- Removing entries from the queue's members removes them from the order too. -/
theorem filter_sorted (p : LinkedEntry K V → Bool) (r : Node (K × WrappedValue V) → Bool)
    (hpr : ∀ e ∈ es, r e.itemNode = p e) :
    q.items.filter r = sortBy itemKey ((es.filter p).map LinkedEntry.itemNode) := by
  rw [h.sorted, filter_sortBy, List.filter_map]
  exact congrArg _ (congrArg _ (List.filter_congr hpr))

/-- An entry is the only one of its key exactly if neither neighbour in the map has that key. -/
theorem isUnique {e : LinkedEntry K V} (he : e ∈ es) :
    ((NodeSeq.prev q.items e.itemAddr).any (fun p => equals p.val.1 e.key) = true ∨
      (NodeSeq.next q.items e.itemAddr).any (fun n => equals n.val.1 e.key) = true) ↔
    ∃ d ∈ e.others es, Equivalent d.key e.key := by
  obtain ⟨l₁, l₂, hsplit⟩ := List.append_of_mem (h.itemNode_mem he)
  have hnodup := h.nodup_items
  have hsort := h.sortedBy
  have hrest := h.without_items (e := e)
  rw [hsplit] at hnodup hsort hrest
  have hrest : (l₁ ++ l₂).Perm _ := NodeSeq.without_split hnodup ▸ hrest
  rw [any_equals, any_equals, hsplit, ← e.itemNode_addr, NodeSeq.prev_split hnodup,
    NodeSeq.next_split hnodup]
  refine (or_congr hsort.equiv_before hsort.equiv_behind).symm.trans ?_
  constructor
  · rintro (⟨n, hn, hk⟩ | ⟨n, hn, hk⟩)
    · obtain ⟨d, hd, rfl⟩ := List.mem_map.1 (hrest.mem_iff.1 (List.mem_append_left _ hn))
      exact ⟨d, hd, hk⟩
    · obtain ⟨d, hd, rfl⟩ := List.mem_map.1 (hrest.mem_iff.1 (List.mem_append_right _ hn))
      exact ⟨d, hd, hk⟩
  · rintro ⟨d, hd, hk⟩
    rcases List.mem_append.1 (hrest.mem_iff.2 (List.mem_map_of_mem hd)) with hn | hn
    · exact .inl ⟨_, hn, hk⟩
    · exact .inr ⟨_, hn, hk⟩

/-- The keys of the queue are those of `e` and of the other entries. -/
theorem classes_without {e : LinkedEntry K V} (he : e ∈ es) :
    q.uniqueKeys = classes ((e.others es).map (·.key)) +
      if ∃ d ∈ e.others es, Equivalent d.key e.key then 0 else 1 := by
  obtain ⟨l₁, l₂, rfl⟩ := List.append_of_mem he
  have hperm : ((l₁ ++ e :: l₂).map (·.key)).Perm (e.key :: (l₁ ++ l₂).map (·.key)) := by
    simp
  rw [h.unique, classes_perm hperm, classes_cons, h.others_split]
  simp only [List.mem_map, exists_exists_and_eq_and, Equivalent.comm (a := e.key)]

/-- `erase` of the token of an entry removes that entry. -/
theorem erase {e : LinkedEntry K V} (he : e ∈ es) :
    ∃ q', q.erase ⟨e.itemAddr⟩ = .ok q' ∧ q'.Holds (e.others es) := by
  have hcount := h.classes_without he
  have huniq := h.isUnique he
  refine ⟨⟨⟨NodeSeq.without q.items e.itemAddr, NodeSeq.without q.accessInfo e.accessAddr, q.heap⟩,
    classes ((e.others es).map (·.key))⟩, ?_, h.without he, ?_, rfl⟩
  · rw [KeyMultivalueQueue.erase, h.accessIt he, Execution.ok_bind, h.erase_access he,
      iterator_some, Execution.ok_bind, h.key he, Execution.ok_bind, h.erase_item he]
    simp only [iterator_some, Execution.ok_bind, Execution.pure_eq_ok]
    congr 2
    by_cases hex : ∃ d ∈ e.others es, Equivalent d.key e.key
    · rw [if_pos hex] at hcount
      rcases huniq.2 hex with hp | hn
      · simp [hp, hcount]
      · simp [hn, hcount]
    · rw [if_neg hex] at hcount
      have hnot := mt huniq.1 hex
      rw [not_or, Bool.not_eq_true, Bool.not_eq_true] at hnot
      simp [hnot.1, hnot.2, hcount, sizeDec]
  · exact h.filter_sorted _ _ fun d _ => rfl

/-- `extract_values_for_key` hands over the values of one class in insertion order and removes its
entries. -/
theorem extractValuesForKey {e : LinkedEntry K V} (he : e ∈ es) :
    ∃ q', q.extractValuesForKey ⟨e.itemAddr⟩ =
        .ok (q', (es.filter fun d => Equivalent d.key e.key).map (·.value)) ∧
      q'.Holds (es.filter fun d => ¬ Equivalent d.key e.key) := by
  let rs := es.filter fun d => Equivalent d.key e.key
  have hsub : ∀ r ∈ rs, r ∈ es := fun r hr => List.mem_of_mem_filter hr
  have hnodup : (rs.map LinkedEntry.itemAddr).Nodup :=
    h.itemAddrs.sublist (List.filter_sublist.map _)
  have hrange : NodeSeq.addrs (equalRange itemKey e.key q.items) =
      rs.map LinkedEntry.itemAddr := by
    rw [h.sortedBy.equalRange_eq, h.filter_items, NodeSeq.addrs, List.map_map]; rfl
  have htmp : sortBy itemKey (rs.map LinkedEntry.itemNode) = rs.map LinkedEntry.itemNode := by
    refine sortBy_eq_self ?_
    intro a ha b hb
    obtain ⟨r, hr, rfl⟩ := List.mem_map.1 ha
    obtain ⟨s, hs, rfl⟩ := List.mem_map.1 hb
    have hr : Equivalent r.key e.key := of_decide_eq_true (List.mem_filter.1 hr).2
    have hs : Equivalent s.key e.key := of_decide_eq_true (List.mem_filter.1 hs).2
    exact (hr.trans hs.symm).1
  have hrest : ∀ d ∈ es, decide (d.itemAddr ∉ rs.map LinkedEntry.itemAddr) =
      decide (¬ Equivalent d.key e.key) := by
    intro d hd
    refine decide_eq_decide.2 (not_congr ⟨?_, ?_⟩)
    · intro hmem
      obtain ⟨r, hr, heq⟩ := List.mem_map.1 hmem
      cases List.inj_on_of_nodup_map h.itemAddrs (hsub r hr) hd heq
      exact of_decide_eq_true (List.mem_filter.1 hr).2
    · intro hk
      exact List.mem_map_of_mem (List.mem_filter.2 ⟨hd, decide_eq_true hk⟩)
  have hcount : q.uniqueKeys = classes ((es.filter fun d => ¬ Equivalent d.key e.key).map (·.key))
      + 1 := by
    have hex : ∃ k ∈ es.map (·.key), Equivalent k e.key :=
      ⟨e.key, List.mem_map_of_mem he, .refl _⟩
    rw [h.unique, classes_filter _ e.key, if_pos hex, List.filter_map]
    rfl
  obtain ⟨c, hrun, hlinks, hitems⟩ :=
    moveToTmp_foldlM rs es q.toLinkedIndex [] h.toLinks hsub hnodup
  rw [List.filter_congr hrest] at hlinks
  refine ⟨⟨c, classes ((es.filter fun d => ¬ Equivalent d.key e.key).map (·.key))⟩, ?_,
    hlinks, ?_, rfl⟩
  · rw [KeyMultivalueQueue.extractValuesForKey, h.key he, Execution.ok_bind]
    simp only [hrange, hrun, Execution.ok_bind, Execution.pure_eq_ok]
    rw [show List.foldl _ _ _ = _ from htmp, List.map_map, hcount]
    rfl
  · show c.items = _
    rw [hitems, h.filter_sorted (fun d => d.itemAddr ∉ rs.map LinkedEntry.itemAddr) _
      fun _ _ => rfl, List.filter_congr hrest]

omit [IsStrictWeakOrder K (· < ·)] in
/-- Assigning to the value of an entry changes nothing else. -/
theorem setValue {e : LinkedEntry K V} (he : e ∈ es) (v : V) :
    ∃ q', q.setValue ⟨e.itemAddr⟩ v = .ok q' ∧
      q'.Holds (es.map fun d => if d.itemAddr = e.itemAddr then { d with value := v } else d) := by
  let upd : LinkedEntry K V → LinkedEntry K V := fun d =>
    if d.itemAddr = e.itemAddr then { d with value := v } else d
  let updNode : Node (K × WrappedValue V) → Node (K × WrappedValue V) := fun n =>
    if n.addr = e.itemAddr then ⟨n.addr, n.val.1, { n.val.2 with value := v }⟩ else n
  have hnode : LinkedEntry.itemNode ∘ upd = updNode ∘ LinkedEntry.itemNode := by
    funext d
    by_cases hd : d.itemAddr = e.itemAddr <;> simp [upd, updNode, hd, LinkedEntry.itemNode]
  have hkeep : LinkedEntry.itemAddr ∘ upd = LinkedEntry.itemAddr ∧
      LinkedEntry.accessAddr ∘ upd = LinkedEntry.accessAddr ∧
      LinkedEntry.accessNode ∘ upd = LinkedEntry.accessNode ∧
      (fun d : LinkedEntry K V => d.key) ∘ upd = fun d => d.key := by
    refine ⟨?_, ?_, ?_, ?_⟩ <;> funext d <;>
      by_cases hd : d.itemAddr = e.itemAddr <;> simp [upd, hd, LinkedEntry.accessNode]
  have hmem : e.itemAddr ∈ NodeSeq.addrs q.items :=
    NodeSeq.mem_addrs_of_mem (h.itemNode_mem he)
  refine ⟨{ q with items := q.items.map updNode }, ?_, ⟨?_, ?_, ?_, ?_, ?_⟩, ?_, ?_⟩
  · rw [KeyMultivalueQueue.setValue, NodeSeq.modify, if_pos hmem]; rfl
  · rw [List.map_map, hnode, ← List.map_map]
    exact h.items.map _
  · rw [List.map_map, hkeep.2.2.1]
    exact h.accessInfo
  · rw [List.map_map, hkeep.1]
    exact h.itemAddrs
  · rw [List.map_map, hkeep.2.1]
    exact h.accessAddrs
  · rintro d' hd'
    obtain ⟨d, hd, rfl⟩ := List.mem_map.1 hd'
    have := h.below d hd
    split <;> exact this
  · show q.items.map updNode = _
    rw [h.sorted, map_sortBy itemKey updNode (fun n => by simp only [updNode]; split <;> rfl),
      List.map_map, ← hnode, List.map_map]
  · rw [List.map_map, hkeep.2.2.2]
    exact h.unique

end Holds

end KeyMultivalueQueue

end Shrimp
