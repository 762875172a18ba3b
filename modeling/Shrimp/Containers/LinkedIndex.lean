import Shrimp.CommonTypes
import Shrimp.Lib.KeyOrder
import Shrimp.Lib.NodeSeq

/-!
# A map and an access list that point into each other

`cache_alike_container_t` and `key_multivalue_queue_t` declare the same two members: an associative
container whose values hold an iterator into the access list, and an access list whose nodes hold an
iterator into the associative container. `LinkedIndex` is that pair. `Links c es` says that it is in
order: the entries `es`, each with the addresses of its two nodes, are the access list as it stands
and the map up to its own order. `LinkedIndex.toList` reads the entries off along the access list.
-/

namespace Shrimp

/-- `access_info_t`: `m_value_it` is singular until the map node exists. -/
structure AccessInfo where
  accessTime : TimePoint
  valueIt : Option Addr
deriving DecidableEq, Repr

/-- `wrapped_value_t`. -/
structure WrappedValue (V : Type) where
  value : V
  accessIt : Addr
deriving DecidableEq, Repr

/-- `access_token_t`, an iterator into the map. -/
structure AccessToken where
  it : Addr
deriving DecidableEq, Repr

/-- The members `m_items` and `m_access_info`. New nodes get addresses from `heap` on: the allocator
never hands out the address of a live node. -/
structure LinkedIndex (K V : Type) where
  items : List (Node (K × WrappedValue V))
  accessInfo : List (Node AccessInfo)
  heap : Addr
deriving DecidableEq, Repr

/-- The key of a map node. -/
abbrev itemKey {K V : Type} (n : Node (K × WrappedValue V)) : K := n.val.1

/-- What a container keeps for one insertion: a key, a value and an access time. -/
structure Entry (K V : Type) where
  key : K
  value : V
  time : TimePoint
deriving DecidableEq, Repr

/-- An entry with the addresses of its map node and of its access-list node. -/
structure LinkedEntry (K V : Type) extends Entry K V where
  itemAddr : Addr
  accessAddr : Addr

namespace LinkedEntry

variable {K V : Type}

/-- The map node of an entry. -/
def itemNode (e : LinkedEntry K V) : Node (K × WrappedValue V) :=
  ⟨e.itemAddr, e.key, e.value, e.accessAddr⟩

/-- The access-list node of an entry. -/
def accessNode (e : LinkedEntry K V) : Node AccessInfo := ⟨e.accessAddr, e.time, some e.itemAddr⟩

/-- The entries but for `e`. -/
abbrev others (e : LinkedEntry K V) (es : List (LinkedEntry K V)) : List (LinkedEntry K V) :=
  es.filter fun d => d.itemAddr ≠ e.itemAddr

@[simp] theorem itemNode_addr (e : LinkedEntry K V) : e.itemNode.addr = e.itemAddr := rfl
@[simp] theorem accessNode_addr (e : LinkedEntry K V) : e.accessNode.addr = e.accessAddr := rfl
@[simp] theorem accessNode_val (e : LinkedEntry K V) :
    e.accessNode.val = ⟨e.time, some e.itemAddr⟩ := rfl

end LinkedEntry

/-! ## Access tokens -/

namespace LinkedIndex

variable {K V : Type}

/-- The element an access token points to. -/
def item (c : LinkedIndex K V) (atoken : AccessToken) : Except Fault (K × WrappedValue V) :=
  iterator (NodeSeq.deref c.items atoken.it)

/-- `access_token_t::key`. -/
def key (c : LinkedIndex K V) (atoken : AccessToken) : Except Fault K := do
  return (← c.item atoken).1

/-- `access_token_t::value`. -/
def value (c : LinkedIndex K V) (atoken : AccessToken) : Except Fault V := do
  return (← c.item atoken).2.value

/-- `access_token_t::access_it`. -/
def accessIt (c : LinkedIndex K V) (atoken : AccessToken) : Except Fault Addr := do
  return (← c.item atoken).2.accessIt

/-- `access_token_t::access_time`. -/
def accessTime (c : LinkedIndex K V) (atoken : AccessToken) : Except Fault TimePoint := do
  return (← iterator (NodeSeq.deref c.accessInfo (← c.accessIt atoken))).accessTime

/-- `empty`. -/
def empty (c : LinkedIndex K V) : Bool := c.items.isEmpty

/-- `oldest`: the element the head of the access list points to. -/
def oldest (c : LinkedIndex K V) : Except Fault (Option AccessToken) :=
  if !c.empty then do
    let front ← iterator c.accessInfo.head?
    return some ⟨← iterator front.val.valueIt⟩
  else
    return none

/-- The entries along the access list. -/
def toList (c : LinkedIndex K V) : List (Entry K V) :=
  c.accessInfo.filterMap fun n => do
    let p ← NodeSeq.deref c.items (← n.val.valueIt)
    return ⟨p.1, p.2.value, n.val.accessTime⟩

/-- The token of the `i`-th element along the access list. -/
def tokenAt (c : LinkedIndex K V) (i : Nat) : Option AccessToken := do
  let n ← c.accessInfo[i]?
  return ⟨← n.val.valueIt⟩

/-- Map nodes and access-list nodes are in one-to-one correspondence through their iterators. -/
structure OneToOne (c : LinkedIndex K V) : Prop where
  items_nodup : (NodeSeq.addrs c.items).Nodup
  accessInfo_nodup : (NodeSeq.addrs c.accessInfo).Nodup
  access : ∀ m ∈ c.items, ∃ n ∈ c.accessInfo, m.val.2.accessIt = n.addr ∧
    n.val.valueIt = some m.addr
  value : ∀ n ∈ c.accessInfo, ∃ m ∈ c.items, n.val.valueIt = some m.addr ∧
    m.val.2.accessIt = n.addr

/-- The two members hold the entries `es`, in access order. -/
structure Links (c : LinkedIndex K V) (es : List (LinkedEntry K V)) : Prop where
  items : c.items.Perm (es.map LinkedEntry.itemNode)
  accessInfo : c.accessInfo = es.map LinkedEntry.accessNode
  itemAddrs : (es.map LinkedEntry.itemAddr).Nodup
  accessAddrs : (es.map LinkedEntry.accessAddr).Nodup
  below : ∀ e ∈ es, e.itemAddr < c.heap ∧ e.accessAddr < c.heap

namespace Links

variable {c : LinkedIndex K V} {es : List (LinkedEntry K V)} (h : Links c es)
include h

/-- No two items have the same address. -/
theorem nodup_items : (NodeSeq.addrs c.items).Nodup := by
  have hmap : (NodeSeq.addrs c.items).Perm (es.map LinkedEntry.itemAddr) := by
    simpa [NodeSeq.addrs, Function.comp_def] using h.items.map Node.addr
  exact hmap.nodup_iff.2 h.itemAddrs

/-- No two access records have the same address. -/
theorem nodup_accessInfo : (NodeSeq.addrs c.accessInfo).Nodup := by
  have hmap : NodeSeq.addrs c.accessInfo = es.map LinkedEntry.accessAddr := by
    simp [NodeSeq.addrs, h.accessInfo, Function.comp_def]
  exact hmap ▸ h.accessAddrs

/-- The item of an entry is among the items. -/
theorem itemNode_mem {e : LinkedEntry K V} (he : e ∈ es) : e.itemNode ∈ c.items :=
  h.items.mem_iff.2 (List.mem_map_of_mem he)

/-- The access record of an entry is among the access records. -/
theorem accessNode_mem {e : LinkedEntry K V} (he : e ∈ es) : e.accessNode ∈ c.accessInfo :=
  h.accessInfo ▸ List.mem_map_of_mem he

/-- Every item belongs to an entry. -/
theorem exists_of_mem_items {n : Node (K × WrappedValue V)} (hn : n ∈ c.items) :
    ∃ e ∈ es, e.itemNode = n := by simpa using h.items.mem_iff.1 hn

/-- An entry is determined by the address of its map node, and by that of its access-list node. -/
theorem itemAddr_eq_iff {d e : LinkedEntry K V} (hd : d ∈ es) (he : e ∈ es) :
    d.itemAddr = e.itemAddr ↔ d.accessAddr = e.accessAddr :=
  ⟨fun heq => List.inj_on_of_nodup_map h.itemAddrs hd he heq ▸ rfl,
    fun heq => List.inj_on_of_nodup_map h.accessAddrs hd he heq ▸ rfl⟩

/-- The address of an item leads to the key and the value of its entry, and to its access record. -/
theorem deref_item {e : LinkedEntry K V} (he : e ∈ es) :
    NodeSeq.deref c.items e.itemAddr = some (e.key, ⟨e.value, e.accessAddr⟩) :=
  NodeSeq.deref_of_mem h.nodup_items (h.itemNode_mem he)

/-- The address of an access record leads to the time of its entry and to its item. -/
theorem deref_access {e : LinkedEntry K V} (he : e ∈ es) :
    NodeSeq.deref c.accessInfo e.accessAddr = some ⟨e.time, some e.itemAddr⟩ :=
  NodeSeq.deref_of_mem h.nodup_accessInfo (h.accessNode_mem he)

/-! The accessors of the token of an entry read the entry. -/

/-- Through the token of an entry its item is read without a fault. -/
theorem item {e : LinkedEntry K V} (he : e ∈ es) :
    c.item ⟨e.itemAddr⟩ = .ok (e.key, ⟨e.value, e.accessAddr⟩) := by
  rw [LinkedIndex.item, h.deref_item he, iterator_some]

/-- Through the token of an entry its key is read. -/
theorem key {e : LinkedEntry K V} (he : e ∈ es) : c.key ⟨e.itemAddr⟩ = .ok e.key := by
  rw [LinkedIndex.key, h.item he]; rfl

/-- Through the token of an entry its value is read. -/
theorem value {e : LinkedEntry K V} (he : e ∈ es) : c.value ⟨e.itemAddr⟩ = .ok e.value := by
  rw [LinkedIndex.value, h.item he]; rfl

/-- Through the token of an entry the address of its access record is read. -/
theorem accessIt {e : LinkedEntry K V} (he : e ∈ es) :
    c.accessIt ⟨e.itemAddr⟩ = .ok e.accessAddr := by
  rw [LinkedIndex.accessIt, h.item he]; rfl

/-- Through the token of an entry its time is read. -/
theorem accessTime {e : LinkedEntry K V} (he : e ∈ es) :
    c.accessTime ⟨e.itemAddr⟩ = .ok e.time := by
  rw [LinkedIndex.accessTime, h.accessIt he]
  show (iterator (NodeSeq.deref c.accessInfo e.accessAddr) >>= _) = _
  rw [h.deref_access he]; rfl

/-- The container is empty exactly if it has no entries. -/
theorem empty_iff : c.empty = es.isEmpty := by
  have hlen : c.items.length = es.length := by simpa using h.items.length_eq
  rw [LinkedIndex.empty, Bool.eq_iff_iff, List.isEmpty_iff, List.isEmpty_iff,
    ← List.length_eq_zero_iff, ← List.length_eq_zero_iff, hlen]

/-- The oldest element is the head of the access order. -/
theorem oldest : c.oldest = .ok (es.head?.map fun e => ⟨e.itemAddr⟩) := by
  rw [LinkedIndex.oldest, h.empty_iff, h.accessInfo]
  cases es <;> rfl

/-- Reading along the access list gives the entries. -/
theorem toList_eq : c.toList = es.map (·.toEntry) := by
  have hread : ∀ e ∈ es, (do
      let p ← NodeSeq.deref c.items (← e.accessNode.val.valueIt)
      return (⟨p.1, p.2.value, e.accessNode.val.accessTime⟩ : Entry K V)) = some e.toEntry := by
    intro e he
    simp [h.deref_item he]
  rw [LinkedIndex.toList, h.accessInfo, List.filterMap_map, ← List.filterMap_eq_map]
  exact List.filterMap_congr hread

/-- The `i`-th token is the address of the item of the `i`-th entry. -/
theorem tokenAt (i : Nat) : c.tokenAt i = es[i]?.map fun e => ⟨e.itemAddr⟩ := by
  rw [LinkedIndex.tokenAt, h.accessInfo, List.getElem?_map]
  cases es[i]? <;> rfl

/-- Each item has its own access record, and each access record its own item. -/
theorem oneToOne : c.OneToOne where
  items_nodup := h.nodup_items
  accessInfo_nodup := h.nodup_accessInfo
  access m hm := by
    obtain ⟨e, he, rfl⟩ := h.exists_of_mem_items hm
    exact ⟨e.accessNode, h.accessNode_mem he, rfl, rfl⟩
  value n hn := by
    rw [h.accessInfo] at hn
    obtain ⟨e, he, rfl⟩ := List.mem_map.1 hn
    exact ⟨e.itemNode, h.itemNode_mem he, rfl, rfl⟩

/-- Addresses may be handed out for other nodes. -/
theorem grow {heap : Addr} (hle : c.heap ≤ heap) : Links ⟨c.items, c.accessInfo, heap⟩ es where
  items := h.items
  accessInfo := h.accessInfo
  itemAddrs := h.itemAddrs
  accessAddrs := h.accessAddrs
  below e he := ⟨(h.below e he).1.trans_le hle, (h.below e he).2.trans_le hle⟩

/-- A new node pair at the end of the access list, the map node anywhere. -/
theorem push {items : List (Node (K × WrappedValue V))} (k : K) (v : V) (t : TimePoint)
    (hitems : items.Perm (⟨c.heap + 1, k, v, c.heap⟩ :: c.items)) :
    Links ⟨items, c.accessInfo ++ [⟨c.heap, t, some (c.heap + 1)⟩], c.heap + 2⟩
      (es ++ [⟨⟨k, v, t⟩, c.heap + 1, c.heap⟩]) where
  items := by
    rw [List.map_append]
    exact hitems.trans ((h.items.cons _).trans (List.perm_append_singleton _ _).symm)
  accessInfo := by rw [List.map_append, h.accessInfo]; rfl
  itemAddrs := by
    rw [List.map_append, List.map_singleton]
    refine h.itemAddrs.append (List.nodup_singleton _) (List.disjoint_singleton.2 ?_)
    intro hmem
    obtain ⟨e, he, heq⟩ := List.mem_map.1 hmem
    exact Nat.ne_of_lt (Nat.lt_succ_of_lt (h.below e he).1) heq
  accessAddrs := by
    rw [List.map_append, List.map_singleton]
    refine h.accessAddrs.append (List.nodup_singleton _) (List.disjoint_singleton.2 ?_)
    intro hmem
    obtain ⟨e, he, heq⟩ := List.mem_map.1 hmem
    exact Nat.ne_of_lt (h.below e he).2 heq
  below e he := by
    rcases List.mem_append.1 he with he | he
    · exact ⟨Nat.lt_add_right 2 (h.below e he).1, Nat.lt_add_right 2 (h.below e he).2⟩
    · cases List.mem_singleton.1 he
      exact ⟨by simp, by simp⟩

/-- A part of the entries, with the two members cut down to it. -/
theorem filter {p : LinkedEntry K V → Bool} {items : List (Node (K × WrappedValue V))}
    {accessInfo : List (Node AccessInfo)}
    (hitems : items.Perm ((es.filter p).map LinkedEntry.itemNode))
    (haccess : accessInfo = (es.filter p).map LinkedEntry.accessNode) :
    Links ⟨items, accessInfo, c.heap⟩ (es.filter p) where
  items := hitems
  accessInfo := haccess
  itemAddrs := h.itemAddrs.sublist (List.filter_sublist.map _)
  accessAddrs := h.accessAddrs.sublist (List.filter_sublist.map _)
  below e he := h.below e (List.mem_of_mem_filter he)

omit h in
/-- The other entries are those before and behind an entry. -/
theorem others_split {es₁ es₂ : List (LinkedEntry K V)} {e : LinkedEntry K V}
    (h : c.Links (es₁ ++ e :: es₂)) : e.others (es₁ ++ e :: es₂) = es₁ ++ es₂ := by
  have hne : ∀ d ∈ es₁ ++ es₂, d.itemAddr ≠ e.itemAddr := by
    have hnodup := h.itemAddrs
    rw [List.map_append, List.map_cons, List.nodup_middle, List.nodup_cons] at hnodup
    intro d hd heq
    exact hnodup.1 (heq ▸ List.map_append ▸ List.mem_map_of_mem hd)
  rw [LinkedEntry.others, List.filter_append, List.filter_cons_of_neg (by simp),
    ← List.filter_append, List.filter_eq_self]
  exact fun d hd => decide_eq_true (hne d hd)

/-- The map without the node of `e` holds the other entries. -/
theorem without_items {e : LinkedEntry K V} :
    (NodeSeq.without c.items e.itemAddr).Perm
      ((e.others es).map LinkedEntry.itemNode) := by
  have := h.items.filter fun n => n.addr ≠ e.itemAddr
  rwa [List.filter_map] at this

/-- The access list without the node of `e` holds the other entries, in the same order. -/
theorem without_access {e : LinkedEntry K V} (he : e ∈ es) :
    NodeSeq.without c.accessInfo e.accessAddr =
      (e.others es).map LinkedEntry.accessNode := by
  rw [NodeSeq.without, h.accessInfo, List.filter_map]
  refine congrArg _ (List.filter_congr ?_)
  intro d hd
  exact decide_eq_decide.2 (not_congr (h.itemAddr_eq_iff hd he).symm)

/-- Removing both nodes of `e` leaves the other entries. -/
theorem without {e : LinkedEntry K V} (he : e ∈ es) :
    Links ⟨NodeSeq.without c.items e.itemAddr, NodeSeq.without c.accessInfo e.accessAddr, c.heap⟩
      (e.others es) :=
  h.filter h.without_items (h.without_access he)

/-- To erase the item of an entry leaves all other items. -/
theorem erase_item {e : LinkedEntry K V} (he : e ∈ es) :
    NodeSeq.erase c.items e.itemAddr = some (NodeSeq.without c.items e.itemAddr) :=
  NodeSeq.erase_of_mem (h.itemNode_mem he)

/-- To erase the access record of an entry leaves all others. -/
theorem erase_access {e : LinkedEntry K V} (he : e ∈ es) :
    NodeSeq.erase c.accessInfo e.accessAddr = some (NodeSeq.without c.accessInfo e.accessAddr) :=
  NodeSeq.erase_of_mem (h.accessNode_mem he)

end Links

/-! ## Entries and tokens without addresses

`P` is what a container keeps of its entries beyond `Links`.
-/

/-- The container holds the entries `l`, in access order. -/
def RefinesWith (c : LinkedIndex K V) (P : List (LinkedEntry K V) → Prop) (l : List (Entry K V)) :
    Prop :=
  ∃ es, c.Links es ∧ P es ∧ es.map (·.toEntry) = l

/-- The token `tok` points to the entry `e` between `l₁` and `l₂`. -/
def PointsWith (c : LinkedIndex K V) (P : List (LinkedEntry K V) → Prop) (tok : AccessToken)
    (l₁ : List (Entry K V)) (e : Entry K V) (l₂ : List (Entry K V)) : Prop :=
  ∃ es₁ d es₂, c.Links (es₁ ++ d :: es₂) ∧ P (es₁ ++ d :: es₂) ∧ es₁.map (·.toEntry) = l₁ ∧
    d.toEntry = e ∧ es₂.map (·.toEntry) = l₂ ∧ tok = ⟨d.itemAddr⟩

/-- All that a token gives access to. -/
def read (c : LinkedIndex K V) (tok : AccessToken) : Except Fault (Entry K V) := do
  return ⟨← c.key tok, ← c.value tok, ← c.accessTime tok⟩

/-- All that an optional token gives access to. -/
def read? (c : LinkedIndex K V) : Option AccessToken → Except Fault (Option (Entry K V))
  | none => return none
  | some tok => return some (← c.read tok)

namespace RefinesWith

variable {c : LinkedIndex K V} {P : List (LinkedEntry K V) → Prop} {l : List (Entry K V)}
  (h : c.RefinesWith P l)
include h

/-- Reading along the access list gives the list. -/
theorem toList_eq : c.toList = l := by
  obtain ⟨es, hes, -, rfl⟩ := h
  exact hes.toList_eq

/-- Items and access records belong together one by one. -/
theorem oneToOne : c.OneToOne := by
  obtain ⟨es, hes, -⟩ := h
  exact hes.oneToOne

/-- The container is empty exactly if the list is. -/
theorem empty : c.empty = l.isEmpty := by
  obtain ⟨es, hes, -, rfl⟩ := h
  rw [hes.empty_iff, List.isEmpty_map]

/-- The `i`-th token points to the `i`-th entry. -/
theorem tokenAt {i : Nat} {e : Entry K V} (he : l[i]? = some e) :
    ∃ tok, c.tokenAt i = some tok ∧ c.PointsWith P tok (l.take i) e (l.drop (i + 1)) := by
  obtain ⟨es, hes, hP, rfl⟩ := h
  rw [List.getElem?_map, Option.map_eq_some_iff] at he
  obtain ⟨d, hd, rfl⟩ := he
  obtain ⟨hi, rfl⟩ := List.getElem?_eq_some_iff.1 hd
  have hsplit : es.take i ++ es[i] :: es.drop (i + 1) = es := by
    rw [← List.drop_eq_getElem_cons hi, List.take_append_drop]
  refine ⟨⟨es[i].itemAddr⟩, by rw [hes.tokenAt, hd]; rfl, es.take i, es[i], es.drop (i + 1), ?_, ?_,
    List.map_take, rfl, List.map_drop, rfl⟩
  · rwa [hsplit]
  · rwa [hsplit]

/-- There is no token behind the end of the list. -/
theorem tokenAt_none {i : Nat} (hi : l[i]? = none) : c.tokenAt i = none := by
  obtain ⟨es, hes, -, rfl⟩ := h
  rw [List.getElem?_map, Option.map_eq_none_iff] at hi
  rw [hes.tokenAt, hi]; rfl

/-- Every live element has exactly one place in the access order. -/
theorem existsUnique_tokenAt {tok : AccessToken} (htok : tok.it ∈ NodeSeq.addrs c.items) :
    ∃! i, c.tokenAt i = some tok := by
  obtain ⟨es, hes, -, rfl⟩ := h
  obtain ⟨n, hn, hnit⟩ := List.mem_map.1 htok
  obtain ⟨d, hd, rfl⟩ := hes.exists_of_mem_items hn
  obtain ⟨i, hi, rfl⟩ := List.mem_iff_getElem.1 hd
  refine ⟨i, ?_, ?_⟩
  · show c.tokenAt i = some tok
    rw [hes.tokenAt, List.getElem?_eq_getElem hi]
    exact congrArg some (congrArg AccessToken.mk hnit)
  · intro j hj
    simp only [hes.tokenAt, Option.map_eq_some_iff] at hj
    obtain ⟨d', hd', rfl⟩ := hj
    obtain ⟨hj, rfl⟩ := List.getElem?_eq_some_iff.1 hd'
    have hnodup := hes.itemAddrs
    have hi' : i < (es.map LinkedEntry.itemAddr).length := by simpa using hi
    have hj' : j < (es.map LinkedEntry.itemAddr).length := by simpa using hj
    have haddr : (es.map LinkedEntry.itemAddr)[j] = (es.map LinkedEntry.itemAddr)[i] := by
      rw [List.getElem_map, List.getElem_map]
      exact hnit.symm
    exact (List.Nodup.getElem_inj_iff hnodup).1 haddr

/-- An empty container has no oldest entry. -/
theorem oldest_nil (hl : l = []) : c.oldest = .ok none := by
  obtain ⟨es, hes, -, rfl⟩ := h
  rw [hes.oldest, List.map_eq_nil_iff.1 hl]; rfl

/-- The oldest token points to the first entry. -/
theorem oldest_cons {e : Entry K V} {l' : List (Entry K V)} (hl : l = e :: l') :
    ∃ tok, c.oldest = .ok (some tok) ∧ c.PointsWith P tok [] e l' := by
  obtain ⟨es, hes, hP, rfl⟩ := h
  obtain ⟨d, es', rfl, rfl, rfl⟩ := List.map_eq_cons_iff.1 hl
  exact ⟨⟨d.itemAddr⟩, by rw [hes.oldest]; rfl, [], d, es', hes, hP, rfl, rfl, rfl, rfl⟩

end RefinesWith

namespace PointsWith

variable {c : LinkedIndex K V} {P : List (LinkedEntry K V) → Prop} {tok : AccessToken}
  {l₁ l₂ : List (Entry K V)} {e : Entry K V} (h : c.PointsWith P tok l₁ e l₂)
include h

/-- A container with a token for an entry stands for the list with that entry. -/
theorem refines : c.RefinesWith P (l₁ ++ e :: l₂) := by
  obtain ⟨es₁, d, es₂, hes, hP, rfl, rfl, rfl, rfl⟩ := h
  exact ⟨_, hes, hP, by simp⟩

/-- The token gives the key of its entry. -/
theorem key : c.key tok = .ok e.key := by
  obtain ⟨es₁, d, es₂, hes, -, -, rfl, -, rfl⟩ := h
  exact hes.key (by simp)

/-- The token gives the value of its entry. -/
theorem value : c.value tok = .ok e.value := by
  obtain ⟨es₁, d, es₂, hes, -, -, rfl, -, rfl⟩ := h
  exact hes.value (by simp)

/-- The token gives the time of its entry. -/
theorem accessTime : c.accessTime tok = .ok e.time := by
  obtain ⟨es₁, d, es₂, hes, -, -, rfl, -, rfl⟩ := h
  exact hes.accessTime (by simp)

/-- The token gives its entry. -/
theorem read : c.read tok = .ok e := by
  rw [LinkedIndex.read, h.key, h.value, h.accessTime]; rfl

/-- So does a token that there may be. -/
theorem read? : c.read? (some tok) = .ok (some e) := by
  rw [LinkedIndex.read?, h.read]; rfl

end PointsWith

/-- What `oldest` finds is read as the first entry. -/
theorem RefinesWith.read?_oldest {c : LinkedIndex K V} {P : List (LinkedEntry K V) → Prop}
    {l : List (Entry K V)} (h : c.RefinesWith P l) :
    ∃ atoken, c.oldest = .ok atoken ∧ c.read? atoken = .ok l.head? := by
  cases hl : l with
  | nil => exact ⟨none, h.oldest_nil hl, rfl⟩
  | cons e l' =>
    obtain ⟨tok, htok, hpts⟩ := h.oldest_cons hl
    exact ⟨some tok, htok, hpts.read?⟩

/-- The token of the first entry with a property points to it. -/
theorem Links.points_of_find? {c : LinkedIndex K V} {es : List (LinkedEntry K V)} (h : c.Links es)
    {P : List (LinkedEntry K V) → Prop} (hP : P es) {p : Entry K V → Bool} {d : LinkedEntry K V}
    (hd : (es.find? fun e => p e.toEntry) = some d) :
    ∃ e l₁ l₂, (es.map (·.toEntry)).find? p = some e ∧ es.map (·.toEntry) = l₁ ++ e :: l₂ ∧
      c.PointsWith P ⟨d.itemAddr⟩ l₁ e l₂ := by
  have hfind : (es.map (·.toEntry)).find? p = some d.toEntry := by
    rw [List.find?_map, Option.map_eq_some_iff]
    exact ⟨d, hd, rfl⟩
  obtain ⟨es₁, es₂, rfl⟩ := List.append_of_mem (List.mem_of_find?_eq_some hd)
  exact ⟨d.toEntry, es₁.map (·.toEntry), es₂.map (·.toEntry), hfind, by simp, es₁, d, es₂, h, hP,
    rfl, rfl, rfl, rfl⟩

/-- A token that can be read points to what was read. -/
theorem RefinesWith.points_of_read {c : LinkedIndex K V} {P : List (LinkedEntry K V) → Prop}
    {l : List (Entry K V)} (h : c.RefinesWith P l) {tok : AccessToken} {e : Entry K V}
    (he : c.read tok = .ok e) :
    ∃ l₁ l₂, l = l₁ ++ e :: l₂ ∧ c.PointsWith P tok l₁ e l₂ := by
  have hlive : tok.it ∈ NodeSeq.addrs c.items := by
    by_contra hnot
    rw [LinkedIndex.read, LinkedIndex.key, LinkedIndex.item, NodeSeq.deref_of_notMem hnot] at he
    cases he
  obtain ⟨i, hi, -⟩ := h.existsUnique_tokenAt hlive
  cases hl : l[i]? with
  | none => cases (h.tokenAt_none hl).symm.trans hi
  | some d =>
    obtain ⟨tok', htok', hpts⟩ := h.tokenAt hl
    cases htok'.symm.trans hi
    cases Except.ok.inj (hpts.read.symm.trans he)
    obtain ⟨hlt, rfl⟩ := List.getElem?_eq_some_iff.1 hl
    exact ⟨l.take i, l.drop (i + 1), by rw [← List.drop_eq_getElem_cons hlt, List.take_append_drop],
      hpts⟩

end LinkedIndex

end Shrimp
