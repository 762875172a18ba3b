import Shrimp.Containers.CacheRefinement
import Shrimp.Containers.QueueRefinement

/-!
# Insertions that run out of memory

`insert` of both containers allocates twice, and either allocation may throw. Here its body is run
statement by statement on the members of the container and the local list `tmp_ac`, and what it did
before it throws remains done. `insertCall_granted` and `insertCall_refused` say what a call leaves
for every answer of the allocator, `LinkedIndex.AllOrNothing` and its extensions what can be relied
on. In a run whose insertions may fail, those that fail might as well be left out (`run_stepAlloc`).
-/

namespace Shrimp

open KeyOrder Execution

/-- `std::bad_alloc`. -/
structure BadAlloc
deriving DecidableEq, Repr

/-- The answers of the allocator to a call of `insert`: is there memory for the node of `tmp_ac`,
and for that of `m_items`? -/
structure Allocations where
  accessNode : Bool
  itemNode : Bool
deriving DecidableEq, Repr

/-- There is memory for both nodes. -/
def Allocations.granted (alloc : Allocations) : Bool := alloc.accessNode && alloc.itemNode

/-- What the body of `insert` works on: the members of the container, with those it has beyond the
map and the access list in `others`, and its local list. -/
structure InsertState (K V M : Type) extends LinkedIndex K V where
  others : M
  tmpAc : List (Node AccessInfo)

/-- A part of the body of `insert`. What it did before it throws remains done. -/
abbrev Insertion (K V M : Type) := ExceptT BadAlloc (StateT (InsertState K V M) (Except Fault))

/-- How a call of `insert` ended: with or without an exception, the container it left, and the nodes
that went away with `tmp_ac`. -/
structure InsertCall (C : Type) where
  result : Except BadAlloc Unit
  container : C
  discarded : List (Node AccessInfo)

/-! ## The statements -/

namespace Insertion

variable {K V M : Type}

/-- A node is allocated. -/
def allocate (granted : Bool) : Insertion K V M Addr := do
  if granted then
    let s ← get
    set { s with heap := s.heap + 1 }
    return s.heap
  else
    throw BadAlloc.mk

/-- `access_info_container_t tmp_ac{ { steady_clock::now() } }`. -/
def makeTmpAc (granted : Bool) (now : TimePoint) : Insertion K V M Unit := do
  let it ← allocate granted
  modify fun s => { s with tmpAc := [⟨it, now, none⟩] }

/-- The node `tmp_ac.begin()` points to. -/
def tmpFront : Insertion K V M (Node AccessInfo) := do
  match (← get).tmpAc with
  | n :: _ => return n
  | [] => throwThe Fault .danglingIterator

/-- `tmp_ac.front().m_value_it = it`. -/
def setValueIt (it : Addr) : Insertion K V M Unit := do
  let n ← tmpFront
  modify fun s => { s with tmpAc := ⟨n.addr, { n.val with valueIt := some it }⟩ :: s.tmpAc.tail }

/-- `m_access_info.splice( m_access_info.end(), tmp_ac, tmp_ac.begin() )`. -/
def spliceTmpAc : Insertion K V M Unit := do
  let n ← tmpFront
  modify fun s => { s with accessInfo := s.accessInfo ++ [n], tmpAc := s.tmpAc.tail }

variable [LT K] [DecidableLT K]

/-- `m_items.emplace` of a `std::multimap`. -/
def emplace (granted : Bool) (key : K) (value : WrappedValue V) : Insertion K V M Addr := do
  let it ← allocate granted
  modify fun s => { s with items := insertUpper itemKey ⟨it, key, value⟩ s.items }
  return it

/-- `m_items.emplace` of a `std::map`: the element with the key, and whether it is the new one. The
node is made before the key is looked for, and thrown away if the key is known. -/
def emplaceUnique (granted : Bool) (key : K) (value : WrappedValue V) :
    Insertion K V M (Addr × Bool) := do
  let it ← allocate granted
  match (← get).items.find? fun n => Equivalent n.val.1 key with
  | some n => return (n.addr, false)
  | none =>
    modify fun s => { s with items := insertUpper itemKey ⟨it, key, value⟩ s.items }
    return (it, true)

end Insertion

section Bodies
variable {K V : Type} [LT K] [DecidableLT K]

open Insertion

/-- The body of `cache_alike_container_t::insert`. -/
def CacheAlikeContainer.insertBody (alloc : Allocations) (now : TimePoint) (key : K) (value : V) :
    Insertion K V Unit Unit := do
  -- For exception safety we use a temporary access_info's list.
  makeTmpAc alloc.accessNode now
  let (it, inserted) ← emplaceUnique alloc.itemNode key ⟨value, (← tmpFront).addr⟩
  if inserted then
    -- Now we can store access info for it.
    setValueIt it
    spliceTmpAc

/-- A call of `cache_alike_container_t::insert`. -/
def CacheAlikeContainer.insertCall (c : CacheAlikeContainer K V) (alloc : Allocations)
    (now : TimePoint) (key : K) (value : V) :
    Except Fault (InsertCall (CacheAlikeContainer K V)) := do
  let (result, s) ← (insertBody alloc now key value).run.run ⟨c.toLinkedIndex, (), []⟩
  return ⟨result, ⟨s.toLinkedIndex⟩, s.tmpAc⟩

/-- The body of `key_multivalue_queue_t::insert`, whose other member is `m_unique_keys`. -/
def KeyMultivalueQueue.insertBody (alloc : Allocations) (now : TimePoint) (key : K) (value : V) :
    Insertion K V Nat Unit := do
  -- For exception safety we use a temporary access_info's list.
  makeTmpAc alloc.accessNode now
  let it ← emplace alloc.itemNode key ⟨value, (← tmpFront).addr⟩
  -- Now we can store access info for it.
  setValueIt it
  spliceTmpAc
  -- Count of unique keys must be updated if it was a new key.
  modify fun s =>
    let isUnique := !(NodeSeq.prev s.items it).any fun p => equals p.val.1 key
    { s with others := s.others + if isUnique then 1 else 0 }

/-- A call of `key_multivalue_queue_t::insert`. -/
def KeyMultivalueQueue.insertCall (q : KeyMultivalueQueue K V) (alloc : Allocations)
    (now : TimePoint) (key : K) (value : V) :
    Except Fault (InsertCall (KeyMultivalueQueue K V)) := do
  let (result, s) ← (insertBody alloc now key value).run.run ⟨q.toLinkedIndex, q.uniqueKeys, []⟩
  return ⟨result, ⟨s.toLinkedIndex, s.others⟩, s.tmpAc⟩

end Bodies

/-! ## What a call leaves -/

section Calls
variable {K V : Type} [LT K] [DecidableLT K]

/-- The node of `tmp_ac` as it is made. -/
abbrev tmpNode (heap : Addr) (now : TimePoint) : Node AccessInfo := ⟨heap, now, none⟩

/-- `emplace` of a `std::map`, where there is memory. -/
theorem Insertion.run_emplaceUnique {M : Type} (key : K) (value : WrappedValue V)
    (s : InsertState K V M) : (emplaceUnique true key value).run.run s =
      match s.items.find? fun n => Equivalent n.val.1 key with
      | some n => .ok (.ok (n.addr, false), { s with heap := s.heap + 1 })
      | none => .ok (.ok (s.heap, true),
          { s with
            heap := s.heap + 1
            items := insertUpper itemKey ⟨s.heap, key, value⟩ s.items }) := by
  unfold emplaceUnique
  rw [run_bind_ok rfl, run_bind_ok rfl]
  cases s.items.find? fun n => Equivalent n.val.1 key with
  | none => rfl
  | some n => rfl

namespace CacheAlikeContainer

variable (c : CacheAlikeContainer K V) (now : TimePoint) (key : K) (value : V)

/-- With memory for both nodes a call is `insert`; the node of `tmp_ac` is left over where the key
is known. -/
theorem insertCall_granted {alloc : Allocations} (halloc : alloc.granted = true) :
    c.insertCall alloc now key value = .ok ⟨.ok (), c.insert now key value,
      if (c.find key).isSome then [tmpNode c.heap now] else []⟩ := by
  have hrun := Insertion.run_emplaceUnique key ⟨value, c.heap⟩
    (⟨⟨c.items, c.accessInfo, c.heap + 1⟩, (), [tmpNode c.heap now]⟩ : InsertState K V Unit)
  obtain ⟨_ | _, _ | _⟩ := alloc <;> try cases halloc
  unfold insertCall insertBody insert find
  cases hfind : c.items.find? fun n => Equivalent n.val.1 key with
  | none =>
    simp only [hfind] at hrun
    rw [run_bind_ok rfl, run_bind_ok rfl, run_bind_ok hrun]
    rfl
  | some n =>
    simp only [hfind] at hrun
    rw [run_bind_ok rfl, run_bind_ok rfl, run_bind_ok hrun]
    rfl

/-- Without memory a call ends before it changes a member. -/
theorem insertCall_refused {alloc : Allocations} (halloc : alloc.granted = false) :
    ∃ heap discarded, c.insertCall alloc now key value =
        .ok ⟨.error ⟨⟩, ⟨c.items, c.accessInfo, heap⟩, discarded⟩ ∧
      c.heap ≤ heap ∧ ∀ n ∈ discarded, c.heap ≤ n.addr := by
  obtain ⟨_ | _, _ | _⟩ := alloc
  · exact ⟨c.heap, [], rfl, le_rfl, nofun⟩
  · exact ⟨c.heap, [], rfl, le_rfl, nofun⟩
  · exact ⟨c.heap + 1, [tmpNode c.heap now], rfl, Nat.le_succ _, by simp⟩
  · cases halloc

end CacheAlikeContainer

namespace KeyMultivalueQueue

variable (q : KeyMultivalueQueue K V) (now : TimePoint) (key : K) (value : V)

/-- With memory for both nodes a call is `insert`. -/
theorem insertCall_granted {alloc : Allocations} (halloc : alloc.granted = true) :
    q.insertCall alloc now key value = .ok ⟨.ok (), q.insert now key value, []⟩ := by
  obtain ⟨_ | _, _ | _⟩ := alloc <;> try cases halloc
  rfl

/-- Without memory a call ends before it changes a member. -/
theorem insertCall_refused {alloc : Allocations} (halloc : alloc.granted = false) :
    ∃ heap discarded, q.insertCall alloc now key value =
        .ok ⟨.error ⟨⟩, ⟨⟨q.items, q.accessInfo, heap⟩, q.uniqueKeys⟩, discarded⟩ ∧
      q.heap ≤ heap ∧ ∀ n ∈ discarded, q.heap ≤ n.addr := by
  obtain ⟨_ | _, _ | _⟩ := alloc
  · exact ⟨q.heap, [], rfl, le_rfl, nofun⟩
  · exact ⟨q.heap, [], rfl, le_rfl, nofun⟩
  · exact ⟨q.heap + 1, [tmpNode q.heap now], rfl, Nat.le_succ _, by simp⟩
  · cases halloc

end KeyMultivalueQueue

end Calls

/-! ## All or nothing -/

section Guarantee
variable {K V : Type}

namespace LinkedIndex

/-- None of the nodes is in the access list, and no element of the map leads to one. -/
def Forgets (c : LinkedIndex K V) (nodes : List (Node AccessInfo)) : Prop :=
  ∀ n ∈ nodes, n.addr ∉ NodeSeq.addrs c.accessInfo ∧ ∀ m ∈ c.items, m.val.2.accessIt ≠ n.addr

/-- The members of `c'` are those of `c` with two nodes more, which hold the entry and lead to each
other, that of the access list at its end. -/
def Gains (c c' : LinkedIndex K V) (e : Entry K V) : Prop :=
  ∃ m n, c'.items.Perm (m :: c.items) ∧ c'.accessInfo = c.accessInfo ++ [n] ∧
    m.val = (e.key, ⟨e.value, n.addr⟩) ∧ n.val = ⟨e.time, some m.addr⟩

/-- The members lead to none but the nodes of their entries. -/
theorem Links.forgets {c : LinkedIndex K V} {es : List (LinkedEntry K V)} (h : c.Links es)
    {nodes : List (Node AccessInfo)} (hnodes : ∀ n ∈ nodes, ∀ e ∈ es, e.accessAddr ≠ n.addr) :
    c.Forgets nodes := by
  intro n hn
  constructor
  · rw [h.accessInfo]
    intro hmem
    obtain ⟨d, hd, heq⟩ := List.mem_map.1 hmem
    obtain ⟨e, he, rfl⟩ := List.mem_map.1 hd
    exact hnodes n hn e he heq
  · intro m hm
    obtain ⟨e, he, rfl⟩ := h.exists_of_mem_items hm
    exact hnodes n hn e he

/-- What the insertions of both containers guarantee about the members they share, where `c'` is
left of `c`. -/
structure AllOrNothing (alloc : Allocations) (c c' : LinkedIndex K V)
    (result : Except BadAlloc Unit) (discarded : List (Node AccessInfo)) : Prop where
  ok_iff : result = .ok () ↔ alloc.granted = true
  failure : result ≠ .ok () → c'.items = c.items ∧ c'.accessInfo = c.accessInfo
  oneToOne : c'.OneToOne
  forgets : c'.Forgets discarded

/-- Members that were left as they are meet the guarantee, if the nodes thrown away were new. -/
theorem Links.unchanged {c : LinkedIndex K V} {es : List (LinkedEntry K V)} (h : c.Links es)
    {alloc : Allocations} {result : Except BadAlloc Unit} {heap : Addr}
    {nodes : List (Node AccessInfo)} (hresult : result = .ok () ↔ alloc.granted = true)
    (hle : c.heap ≤ heap) (hnodes : ∀ n ∈ nodes, c.heap ≤ n.addr) :
    AllOrNothing alloc c ⟨c.items, c.accessInfo, heap⟩ result nodes where
  ok_iff := hresult
  failure _ := ⟨rfl, rfl⟩
  oneToOne := (h.grow hle).oneToOne
  forgets := (h.grow hle).forgets fun n hn e he =>
    Nat.ne_of_lt ((h.below e he).2.trans_le (hnodes n hn))

/-- So do members in order, if there was memory and no node was thrown away. -/
theorem Links.changed {c c' : LinkedIndex K V} {es : List (LinkedEntry K V)} (h : c'.Links es)
    {alloc : Allocations} (halloc : alloc.granted = true) :
    AllOrNothing alloc c c' (.ok ()) [] where
  ok_iff := iff_of_true rfl halloc
  failure hfail := absurd rfl hfail
  oneToOne := h.oneToOne
  forgets := nofun

end LinkedIndex

/-- What a call of `insert` for the entry `e` guarantees. -/
structure CacheAlikeContainer.InsertsAllOrNothing [LT K] (c : CacheAlikeContainer K V)
    (alloc : Allocations) (e : Entry K V) (call : InsertCall (CacheAlikeContainer K V)) : Prop
    extends LinkedIndex.AllOrNothing alloc c.toLinkedIndex call.container.toLinkedIndex call.result
      call.discarded where
  known : call.result = .ok () → (∃ d ∈ c.toList, Equivalent d.key e.key) →
    call.container.items = c.items ∧ call.container.accessInfo = c.accessInfo
  new : call.result = .ok () → (∀ d ∈ c.toList, ¬ Equivalent d.key e.key) →
    c.Gains call.container.toLinkedIndex e

/-- What a call of `insert` for the entry `e` guarantees. -/
structure KeyMultivalueQueue.InsertsAllOrNothing [LT K] [DecidableLT K]
    (q : KeyMultivalueQueue K V) (alloc : Allocations) (e : Entry K V)
    (call : InsertCall (KeyMultivalueQueue K V)) : Prop
    extends LinkedIndex.AllOrNothing alloc q.toLinkedIndex call.container.toLinkedIndex call.result
      call.discarded where
  uniqueKeys : call.result ≠ .ok () → call.container.uniqueKeys = q.uniqueKeys
  new : call.result = .ok () → q.Gains call.container.toLinkedIndex e
  counted : call.container.uniqueKeys = classes (call.container.toList.map (·.key))

variable [LT K] [DecidableLT K]

/-- Whatever is inserted next, the call is all or nothing. -/
def CacheAlikeContainer.InsertsSafely (c : CacheAlikeContainer K V) : Prop :=
  ∀ alloc now key value, ∃ call, c.insertCall alloc now key value = .ok call ∧
    c.InsertsAllOrNothing alloc ⟨key, value, now⟩ call

/-- Whatever is inserted next, the call is all or nothing. -/
def KeyMultivalueQueue.InsertsSafely (q : KeyMultivalueQueue K V) : Prop :=
  ∀ alloc now key value, ∃ call, q.insertCall alloc now key value = .ok call ∧
    q.InsertsAllOrNothing alloc ⟨key, value, now⟩ call

variable [IsStrictWeakOrder K (· < ·)]

namespace CacheAlikeContainer

variable {c : CacheAlikeContainer K V} {es : List (LinkedEntry K V)} (h : c.Holds es)
include h

/-- The call of a new key. -/
theorem Holds.insertsAllOrNothing_new {alloc : Allocations} (halloc : alloc.granted = true)
    (now : TimePoint) {key : K} (value : V) (hnew : ∀ e ∈ es, ¬ Equivalent e.key key) :
    c.InsertsAllOrNothing alloc ⟨key, value, now⟩ ⟨.ok (), c.insert now key value, []⟩ := by
  have hnone : c.find key = none := h.find_eq_none_iff.2 hnew
  refine ⟨(h.insert_new now value hnew).toLinks.changed halloc, ?_, ?_⟩
  · rintro - ⟨d, hd, hk⟩
    rw [h.toList_eq] at hd
    obtain ⟨e, he, rfl⟩ := List.mem_map.1 hd
    exact absurd hk (hnew e he)
  · intro _ _
    simp only [insert, hnone]
    exact ⟨_, _, perm_insertUpper _ _ _, rfl, rfl, rfl⟩

/-- The call of a known key. -/
theorem Holds.insertsAllOrNothing_known {alloc : Allocations} (halloc : alloc.granted = true)
    (now : TimePoint) {key : K} (value : V) {e : LinkedEntry K V} (he : e ∈ es)
    (hk : Equivalent e.key key) : c.InsertsAllOrNothing alloc ⟨key, value, now⟩
      ⟨.ok (), c.insert now key value, [tmpNode c.heap now]⟩ := by
  obtain ⟨n, hn⟩ := h.exists_find he hk
  simp only [insert, hn]
  refine ⟨h.unchanged (iff_of_true rfl halloc) (Nat.le_add_right _ 2) (by simp), ?_, ?_⟩
  · exact fun _ _ => ⟨rfl, rfl⟩
  · intro _ hnot
    rw [h.toList_eq] at hnot
    exact absurd hk (hnot _ (List.mem_map_of_mem he))

omit h in
/-- A call meets the guarantee. It does to the entries what `insert` does if there is memory, and
nothing otherwise. -/
theorem Refines.insertCall {l : List (Entry K V)} (h : c.Refines l) (alloc : Allocations)
    (now : TimePoint) (key : K) (value : V) :
    ∃ call, c.insertCall alloc now key value = .ok call ∧
      c.InsertsAllOrNothing alloc ⟨key, value, now⟩ call ∧
      call.container.Refines
        (if alloc.granted then (RecencyList.apply l (.insert now key value)).1 else l) := by
  obtain ⟨c', happly, h'⟩ := apply_refines h (.insert now key value)
  cases happly
  obtain ⟨es, hlinks, hes, rfl⟩ := h
  cases halloc : alloc.granted with
  | true =>
    have hcall := c.insertCall_granted now key value halloc
    by_cases hknown : ∃ e ∈ es, Equivalent e.key key
    · obtain ⟨e, he, hk⟩ := hknown
      rw [if_pos (Option.isSome_iff_exists.2 (hes.exists_find he hk))] at hcall
      exact ⟨_, hcall, hes.insertsAllOrNothing_known halloc now value he hk, h'⟩
    · have hnew : ∀ e ∈ es, ¬ Equivalent e.key key := fun e he hk => hknown ⟨e, he, hk⟩
      rw [hes.find_eq_none_iff.2 hnew] at hcall
      exact ⟨_, hcall, hes.insertsAllOrNothing_new halloc now value hnew, h'⟩
  | false =>
    obtain ⟨heap, discarded, hcall, hle, hnodes⟩ := c.insertCall_refused now key value halloc
    have hresult : Except.error (BadAlloc.mk) = .ok () ↔ alloc.granted = true :=
      iff_of_false nofun (by simp [halloc])
    refine ⟨_, hcall, ⟨hlinks.unchanged hresult hle hnodes, nofun, nofun⟩, ?_⟩
    exact Holds.refines ⟨hlinks.grow hle, hes.sorted⟩

omit h in
theorem Refines.insertsSafely {l : List (Entry K V)} (h : c.Refines l) : c.InsertsSafely := by
  intro alloc now key value
  obtain ⟨call, hcall, hall, -⟩ := h.insertCall alloc now key value
  exact ⟨call, hcall, hall⟩

end CacheAlikeContainer

namespace KeyMultivalueQueue

variable {q : KeyMultivalueQueue K V}

/-- A call meets the guarantee. It does to the entries what `insert` does if there is memory, and
nothing otherwise. -/
theorem Refines.insertCall {l : List (Entry K V)} (h : q.Refines l) (alloc : Allocations)
    (now : TimePoint) (key : K) (value : V) :
    ∃ call, q.insertCall alloc now key value = .ok call ∧
      q.InsertsAllOrNothing alloc ⟨key, value, now⟩ call ∧
      call.container.Refines
        (if alloc.granted then (ListQueue.apply l (.insert now key value)).1 else l) := by
  have h' := h.insert now key value
  have hcounted (q' : KeyMultivalueQueue K V) (l' : List (Entry K V)) (hl' : q'.Refines l') :
      q'.uniqueKeys = classes (q'.toList.map (·.key)) := by
    rw [hl'.uniqueKeys, hl'.toList_eq]
  obtain ⟨es, hlinks, hes, rfl⟩ := h
  cases halloc : alloc.granted with
  | true =>
    refine ⟨_, q.insertCall_granted now key value halloc, ⟨?_, nofun, ?_, hcounted _ _ h'⟩, h'⟩
    · exact (hes.insert now key value).toLinks.changed halloc
    · exact fun _ => ⟨_, _, perm_insertUpper _ _ _, rfl, rfl, rfl⟩
  | false =>
    obtain ⟨heap, discarded, hcall, hle, hnodes⟩ := q.insertCall_refused now key value halloc
    have hresult : Except.error (BadAlloc.mk) = .ok () ↔ alloc.granted = true :=
      iff_of_false nofun (by simp [halloc])
    have hsame : Holds ⟨⟨q.items, q.accessInfo, heap⟩, q.uniqueKeys⟩ es :=
      ⟨hlinks.grow hle, hes.sorted, hes.unique⟩
    exact ⟨_, hcall, ⟨hlinks.unchanged hresult hle hnodes, fun _ => rfl, nofun,
      hcounted _ _ hsame.refines⟩, hsame.refines⟩

theorem Refines.insertsSafely {l : List (Entry K V)} (h : q.Refines l) : q.InsertsSafely := by
  intro alloc now key value
  obtain ⟨call, hcall, hall, -⟩ := h.insertCall alloc now key value
  exact ⟨call, hcall, hall⟩

end KeyMultivalueQueue

end Guarantee

/-! ## Runs -/

section Runs
variable {K V : Type} [LT K] [DecidableLT K]

namespace CacheAlikeContainer

/-- Performs an operation, an insertion with the given allocations. An exception ends no more than
that operation. -/
def stepAlloc (c : CacheAlikeContainer K V) :
    Op K V × Allocations → Except Fault (CacheAlikeContainer K V)
  | (.insert now key value, alloc) => do return (← c.insertCall alloc now key value).container
  | (op, _) => do return (← c.apply op).1

/-- Only an insertion without memory has no effect. -/
def Op.takesEffect : Op K V × Allocations → Bool
  | (.insert _ _ _, alloc) => alloc.granted
  | _ => true

variable [IsStrictWeakOrder K (· < ·)]

/-- An operation does to the entries what it does if it takes effect, and nothing otherwise. -/
theorem stepAlloc_refines {c : CacheAlikeContainer K V} {l : List (Entry K V)} (h : c.Refines l)
    (op : Op K V) (alloc : Allocations) : ∃ c', c.stepAlloc (op, alloc) = .ok c' ∧
      c'.Refines (if Op.takesEffect (op, alloc) then (RecencyList.apply l op).1 else l) := by
  cases op with
  | insert now key value =>
    obtain ⟨call, hcall, -, h'⟩ := h.insertCall alloc now key value
    exact ⟨call.container, by rw [stepAlloc, hcall]; rfl, h'⟩
  | lookup | erase | clear | updateAccessTime | empty | size | oldest =>
    obtain ⟨c', hc', h'⟩ := apply_refines h _
    exact ⟨c', by simp only [stepAlloc, hc', ok_bind, pure_eq_ok], h'⟩

/-- A run in which insertions may fail leaves the entries of the run without those that fail. -/
theorem run_stepAlloc (ops : List (Op K V × Allocations)) :
    ∃ c, run stepAlloc init ops = .ok c ∧
      c.Refines (((ops.filter Op.takesEffect).map Prod.fst).foldl RecencyList.step ([], [])).1 := by
  rw [List.foldl_map, List.foldl_filter]
  refine run_simulates stepAlloc _
    (fun (c : CacheAlikeContainer K V) (t : RecencyList K V × List (Obs K V)) => c.Refines t.1) ?_
    ops init ([], []) refines_init
  rintro c t ⟨op, alloc⟩ h
  obtain ⟨c', hc', h'⟩ := stepAlloc_refines h op alloc
  refine ⟨c', hc', ?_⟩
  cases heffect : Op.takesEffect (op, alloc) <;> simpa [heffect, RecencyList.step] using h'

end CacheAlikeContainer

namespace KeyMultivalueQueue

/-- Performs an operation, an insertion with the given allocations. An exception ends no more than
that operation. -/
def stepAlloc (q : KeyMultivalueQueue K V) :
    Op K V × Allocations → Except Fault (KeyMultivalueQueue K V)
  | (.insert now key value, alloc) => do return (← q.insertCall alloc now key value).container
  | (op, _) => do return (← q.apply op).1

/-- Only an insertion without memory has no effect. -/
def Op.takesEffect : Op K V × Allocations → Bool
  | (.insert _ _ _, alloc) => alloc.granted
  | _ => true

variable [IsStrictWeakOrder K (· < ·)]

/-- An operation does to the entries what it does if it takes effect, and nothing otherwise. -/
theorem stepAlloc_refines {q : KeyMultivalueQueue K V} {l : List (Entry K V)} (h : q.Refines l)
    (op : Op K V) (alloc : Allocations) : ∃ q', q.stepAlloc (op, alloc) = .ok q' ∧
      q'.Refines (if Op.takesEffect (op, alloc) then (ListQueue.apply l op).1 else l) := by
  cases op with
  | insert now key value =>
    obtain ⟨call, hcall, -, h'⟩ := h.insertCall alloc now key value
    exact ⟨call.container, by rw [stepAlloc, hcall]; rfl, h'⟩
  | erase | extractValuesForKey | hasKey | findFirstForKey | empty | uniqueKeys | oldest =>
    obtain ⟨q', hq', h'⟩ := apply_refines h _
    exact ⟨q', by simp only [stepAlloc, hq', ok_bind, pure_eq_ok], h'⟩

/-- A run in which insertions may fail leaves the entries of the run without those that fail. -/
theorem run_stepAlloc (ops : List (Op K V × Allocations)) :
    ∃ q, run stepAlloc init ops = .ok q ∧
      q.Refines (((ops.filter Op.takesEffect).map Prod.fst).foldl ListQueue.step ([], [])).1 := by
  rw [List.foldl_map, List.foldl_filter]
  refine run_simulates stepAlloc _
    (fun (q : KeyMultivalueQueue K V) (t : ListQueue K V × List (Obs K V)) => q.Refines t.1) ?_
    ops init ([], []) refines_init
  rintro q t ⟨op, alloc⟩ h
  obtain ⟨q', hq', h'⟩ := stepAlloc_refines h op alloc
  refine ⟨q', hq', ?_⟩
  cases heffect : Op.takesEffect (op, alloc) <;> simpa [heffect, ListQueue.step] using h'

end KeyMultivalueQueue

end Runs

end Shrimp
