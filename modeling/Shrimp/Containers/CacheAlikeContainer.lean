import Shrimp.Containers.LinkedIndex
import Shrimp.Lib.Execution

/-!
# `cache_alike_container_t`

The container of `cache_alike_container.hpp`: a map with unique keys and an access list that point
into each other. `CacheAlikeContainer.Holds c es` is its invariant: the access list is `es` in the
order of the last accesses, and the map holds the same entries in strict key order. Each operation
has one lemma about `Holds`, and `Refines` and `Points` forget the addresses.
-/

namespace Shrimp

open KeyOrder LinkedIndex

/-- `cache_alike_container_t`. -/
structure CacheAlikeContainer (K V : Type) extends LinkedIndex K V
deriving DecidableEq, Repr

namespace CacheAlikeContainer

variable {K V : Type}

/-- The default constructor. -/
def init : CacheAlikeContainer K V := ⟨⟨[], [], 0⟩⟩

section Code
variable [LT K] [DecidableLT K]

/-- `m_items.find`. -/
def find (c : CacheAlikeContainer K V) (key : K) : Option (Node (K × WrappedValue V)) :=
  c.items.find? fun n => Equivalent n.val.1 key

/-- `insert`, where `now` is the reading of the clock it takes. -/
def insert (c : CacheAlikeContainer K V) (now : TimePoint) (key : K) (value : V) :
    CacheAlikeContainer K V :=
  -- The only node of `tmp_ac`.
  let tmpIt := c.heap
  let it := c.heap + 1
  match c.find key with
  -- `emplace` refuses a known key, and `tmp_ac` goes away with its node.
  | some _ => ⟨⟨c.items, c.accessInfo, c.heap + 2⟩⟩
  | none => ⟨⟨insertUpper itemKey ⟨it, key, value, tmpIt⟩ c.items,
      c.accessInfo ++ [⟨tmpIt, now, some it⟩], c.heap + 2⟩⟩

/-- `lookup`. -/
def lookup (c : CacheAlikeContainer K V) (key : K) : Option AccessToken :=
  (c.find key).map fun n => ⟨n.addr⟩

end Code

/-- `erase`. -/
def erase (c : CacheAlikeContainer K V) (atoken : AccessToken) :
    Except Fault (CacheAlikeContainer K V) := do
  -- Access info must be removed first.
  let accessInfo ← iterator (NodeSeq.erase c.accessInfo (← c.accessIt atoken))
  let items ← iterator (NodeSeq.erase c.items atoken.it)
  return ⟨⟨items, accessInfo, c.heap⟩⟩

/-- `clear`. -/
def clear (c : CacheAlikeContainer K V) : CacheAlikeContainer K V := ⟨⟨[], [], c.heap⟩⟩

/-- `size`. -/
def size (c : CacheAlikeContainer K V) : Nat := c.items.length

/-- `update_access_time`, where `now` is the reading of the clock it takes. -/
def updateAccessTime (c : CacheAlikeContainer K V) (now : TimePoint) (atoken : AccessToken) :
    Except Fault (CacheAlikeContainer K V) := do
  let it ← c.accessIt atoken
  let accessInfo ← iterator (NodeSeq.modify c.accessInfo it fun i => { i with accessTime := now })
  -- Use splice operation in order not to allocate.
  let accessInfo ← iterator (NodeSeq.moveToEnd accessInfo it)
  return ⟨⟨c.items, accessInfo, c.heap⟩⟩

/-! ## The invariant -/

variable [LT K]

/-- The container holds the entries `es`, in the order of their last accesses. -/
structure Holds (c : CacheAlikeContainer K V) (es : List (LinkedEntry K V)) : Prop
    extends Links c.toLinkedIndex es where
  sorted : c.items.Pairwise fun a b => itemKey a < itemKey b

/-- A container without nodes holds no entries. -/
theorem holds_nil (heap : Addr) : (⟨⟨[], [], heap⟩⟩ : CacheAlikeContainer K V).Holds [] where
  items := .nil
  accessInfo := rfl
  itemAddrs := List.nodup_nil
  accessAddrs := List.nodup_nil
  below _ he := absurd he List.not_mem_nil
  sorted := .nil

namespace Holds

variable {c : CacheAlikeContainer K V} {es : List (LinkedEntry K V)} (h : c.Holds es)
include h

/-- The size is the number of entries. -/
theorem size : c.size = es.length := by
  rw [CacheAlikeContainer.size, h.items.length_eq, List.length_map]

/-- `erase` of the token of an entry removes that entry. -/
theorem erase {e : LinkedEntry K V} (he : e ∈ es) :
    ∃ c', c.erase ⟨e.itemAddr⟩ = .ok c' ∧ c'.Holds (e.others es) := by
  refine ⟨⟨⟨NodeSeq.without c.items e.itemAddr, NodeSeq.without c.accessInfo e.accessAddr, c.heap⟩⟩,
    ?_, h.without he, h.sorted.filter _⟩
  rw [CacheAlikeContainer.erase, h.accessIt he, Execution.ok_bind, h.erase_access he,
    iterator_some, Execution.ok_bind, h.erase_item he]
  rfl

/-- `update_access_time` moves the entry of its token to the end and gives it the current time. -/
theorem updateAccessTime {es₁ es₂ : List (LinkedEntry K V)} {e : LinkedEntry K V}
    (hes : es = es₁ ++ e :: es₂) (now : TimePoint) :
    ∃ c', c.updateAccessTime now ⟨e.itemAddr⟩ = .ok c' ∧
      c'.Holds (es₁ ++ es₂ ++ [{ e with time := now }]) := by
  subst hes
  have haccess := h.accessInfo
  have hnodup := h.nodup_accessInfo
  rw [haccess, List.map_append, List.map_cons] at hnodup
  have hperm : (es₁ ++ es₂ ++ [e]).Perm (es₁ ++ e :: es₂) :=
    (List.perm_append_singleton e (es₁ ++ es₂)).trans List.perm_middle.symm
  refine ⟨⟨⟨c.items, (es₁ ++ es₂ ++ [{ e with time := now }]).map LinkedEntry.accessNode, c.heap⟩⟩,
    ?_, ⟨?_, rfl, ?_, ?_, ?_⟩, h.sorted⟩
  · have hmod := NodeSeq.modify_split hnodup fun i => { i with accessTime := now }
    have hend := NodeSeq.moveToEnd_split (n := (LinkedEntry.accessNode { e with time := now }))
      (show (NodeSeq.addrs (es₁.map LinkedEntry.accessNode ++
        LinkedEntry.accessNode { e with time := now } :: es₂.map LinkedEntry.accessNode)).Nodup by
        simpa using hnodup)
    simp only [LinkedEntry.accessNode_addr] at hmod hend
    rw [CacheAlikeContainer.updateAccessTime, h.accessIt (by simp), Execution.ok_bind, haccess,
      List.map_append, List.map_cons, hmod, iterator_some, Execution.ok_bind]
    simp only [LinkedEntry.accessNode_val]
    exact (congrArg (iterator · >>= _) hend).trans (by simp)
  · have hnode : (es₁ ++ es₂ ++ [{ e with time := now }]).map LinkedEntry.itemNode =
        (es₁ ++ es₂ ++ [e]).map LinkedEntry.itemNode := by simp [LinkedEntry.itemNode]
    exact hnode ▸ h.items.trans (hperm.map LinkedEntry.itemNode).symm
  · have := (hperm.map LinkedEntry.itemAddr).nodup_iff.2 h.itemAddrs
    simpa using this
  · have := (hperm.map LinkedEntry.accessAddr).nodup_iff.2 h.accessAddrs
    simpa using this
  · intro d hd
    rcases List.mem_append.1 hd with hd | hd
    · exact h.below d (hperm.mem_iff.1 (List.mem_append_left _ hd))
    · cases List.mem_singleton.1 hd
      exact h.below e (by simp)

/-- No two entries have equivalent keys. -/
theorem distinct : es.Pairwise fun a b => ¬ Equivalent a.key b.key := by
  have hitems : c.items.Pairwise fun a b => ¬ Equivalent (itemKey a) (itemKey b) :=
    h.sorted.imp fun hlt heq => heq.1 hlt
  exact List.pairwise_map.1 ((h.items.pairwise_iff fun {a b} hab heq => hab heq.symm).1 hitems)

variable [IsStrictWeakOrder K (· < ·)]

/-- The items are sorted by their keys. -/
theorem sortedBy : SortedBy itemKey c.items :=
  h.sorted.imp fun hlt => asymm_of (· < ·) hlt

variable [DecidableLT K]

/-- `find` finds the entry with an equivalent key. -/
theorem find (k : K) :
    c.find k = (es.find? fun e => Equivalent e.key k).map LinkedEntry.itemNode := by
  rw [CacheAlikeContainer.find]
  cases hfind : es.find? (fun e => Equivalent e.key k) with
  | none =>
    refine List.find?_eq_none.2 ?_
    intro n hn
    obtain ⟨e, he, rfl⟩ := h.exists_of_mem_items hn
    exact List.find?_eq_none.1 hfind e he
  | some e =>
    have he : e ∈ es := List.mem_of_find?_eq_some hfind
    have hek := List.find?_some hfind
    rw [decide_eq_true_eq] at hek
    cases hitem : c.items.find? (fun n => Equivalent n.val.1 k) with
    | none =>
      exact absurd (decide_eq_true hek) (List.find?_eq_none.1 hitem _ (h.itemNode_mem he))
    | some n =>
      obtain ⟨d, hd, rfl⟩ := h.exists_of_mem_items (List.mem_of_find?_eq_some hitem)
      have hdk : Equivalent d.key k := of_decide_eq_true (List.find?_some (p := fun n :
        Node (K × WrappedValue V) => Equivalent n.val.1 k) hitem)
      have hde : d = e := by
        by_contra hne
        exact h.distinct.forall hd he hne (hdk.trans hek.symm)
      rw [hde]; rfl

/-- `find` fails exactly if no entry has an equivalent key. -/
theorem find_eq_none_iff {k : K} : c.find k = none ↔ ∀ e ∈ es, ¬ Equivalent e.key k := by
  rw [h.find, Option.map_eq_none_iff, List.find?_eq_none]
  simp only [decide_eq_true_eq]

/-- `find` finds a known key. -/
theorem exists_find {k : K} {e : LinkedEntry K V} (he : e ∈ es) (hk : Equivalent e.key k) :
    ∃ n, c.find k = some n :=
  Option.ne_none_iff_exists'.1 fun hnone => h.find_eq_none_iff.1 hnone e he hk

/-- `insert` of a new key appends an entry. -/
theorem insert_new (now : TimePoint) {k : K} (v : V) (hk : ∀ e ∈ es, ¬ Equivalent e.key k) :
    (c.insert now k v).Holds (es ++ [⟨⟨k, v, now⟩, c.heap + 1, c.heap⟩]) := by
  have hnone : c.find k = none := h.find_eq_none_iff.2 hk
  let n : Node (K × WrappedValue V) := ⟨c.heap + 1, k, v, c.heap⟩
  have hnew : c.insert now k v =
      ⟨⟨insertUpper itemKey n c.items, c.accessInfo ++ [⟨c.heap, now, some (c.heap + 1)⟩],
        c.heap + 2⟩⟩ := by
    simp only [insert, hnone, n]
  rw [hnew]
  refine ⟨h.push k v now (perm_insertUpper _ _ _), ?_⟩
  show (insertUpper itemKey n c.items).Pairwise _
  rw [h.sortedBy.insertUpper_eq, List.pairwise_append, List.pairwise_cons]
  refine ⟨h.sorted.filter _, ⟨?_, h.sorted.filter _⟩, ?_⟩
  · intro m hm
    simpa using (List.mem_filter.1 hm).2
  · intro m hm m' hm'
    have hmk : itemKey m < k := by
      obtain ⟨e, he, rfl⟩ := h.exists_of_mem_items (List.mem_of_mem_filter hm)
      have hle : ¬ k < e.key := of_decide_eq_true (List.mem_filter.1 hm).2
      by_contra hlt
      exact hk e he ⟨hlt, hle⟩
    rcases List.mem_cons.1 hm' with rfl | hm'
    · exact hmk
    · exact trans_of (· < ·) hmk (by simpa using (List.mem_filter.1 hm').2)

/-- `insert` of a known key changes nothing. -/
theorem insert_known (now : TimePoint) {k : K} (v : V) {e : LinkedEntry K V} (he : e ∈ es)
    (hk : Equivalent e.key k) : (c.insert now k v).Holds es := by
  obtain ⟨n, hn⟩ := h.exists_find he hk
  have hsame : c.insert now k v = ⟨⟨c.items, c.accessInfo, c.heap + 2⟩⟩ := by
    simp only [insert, hn]
  rw [hsame]
  exact ⟨h.grow (Nat.le_add_right c.heap 2), h.sorted⟩

end Holds

end CacheAlikeContainer

end Shrimp
