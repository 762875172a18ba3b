import Shrimp.Containers.KeyMultivalueQueue

/-!
# The queue is a list of entries

`q.Refines l` says that the queue `q` is in order and holds the entries `l` in insertion order, and
`q.Points tok l₁ e l₂` that `tok` is the token of the entry `e` between `l₁` and `l₂`. Every
operation has one rule for `Refines`, and none of them mentions an address. `ListQueue` is the plain
list the queue stands for, with the same operations, and `queue_refines_list` says that no sequence
of operations can tell the two apart.
-/

namespace Shrimp.KeyMultivalueQueue

open KeyOrder LinkedIndex

variable {K V : Type} [LT K] [DecidableLT K]

/-- The queue is in order and holds the entries `l`. -/
abbrev Refines (q : KeyMultivalueQueue K V) (l : List (Entry K V)) : Prop :=
  q.RefinesWith q.Holds l

/-- The token `tok` points to the entry `e` between `l₁` and `l₂`. -/
abbrev Points (q : KeyMultivalueQueue K V) (tok : AccessToken) (l₁ : List (Entry K V))
    (e : Entry K V) (l₂ : List (Entry K V)) : Prop :=
  q.PointsWith q.Holds tok l₁ e l₂

/-- A queue that holds some entries stands for their list. -/
theorem Holds.refines {q : KeyMultivalueQueue K V} {es : List (LinkedEntry K V)} (h : q.Holds es) :
    q.Refines (es.map (·.toEntry)) := ⟨es, h.toLinks, h, rfl⟩

/-- A new queue stands for the empty list. -/
theorem refines_init : (init : KeyMultivalueQueue K V).Refines [] := holds_init.refines

namespace Refines

variable {q : KeyMultivalueQueue K V} {l : List (Entry K V)} (h : q.Refines l)
include h

/-- The counter is the number of classes of equivalent keys. -/
theorem uniqueKeys : q.uniqueKeys = classes (l.map (·.key)) := by
  obtain ⟨es, -, hes, rfl⟩ := h
  rw [hes.unique, List.map_map]; rfl

variable [IsStrictWeakOrder K (· < ·)]

/-- A new entry comes last. -/
theorem insert (now : TimePoint) (k : K) (v : V) :
    (q.insert now k v).Refines (l ++ [⟨k, v, now⟩]) := by
  obtain ⟨es, -, hes, rfl⟩ := h
  simpa using (hes.insert now k v).refines

/-- `has_key` tells whether the list has an equivalent key. -/
theorem hasKey (k : K) : q.hasKey k = l.any fun e => Equivalent e.key k := by
  obtain ⟨es, -, hes, rfl⟩ := h
  rw [hes.hasKey, List.any_map]; rfl

/-- `find_first_for_key` fails exactly if no entry has an equivalent key. -/
theorem findFirstForKey_eq_none_iff {k : K} :
    q.findFirstForKey k = none ↔ ∀ e ∈ l, ¬ Equivalent e.key k := by
  obtain ⟨es, -, hes, rfl⟩ := h
  rw [hes.findFirstForKey, Option.map_eq_none_iff, List.find?_eq_none, List.forall_mem_map]
  simp only [decide_eq_true_eq]

/-- What `find_first_for_key` finds is the first entry with an equivalent key. -/
theorem points_of_findFirstForKey {k : K} {tok : AccessToken}
    (hfirst : q.findFirstForKey k = some tok) :
    ∃ e l₁ l₂, (l.find? fun e => Equivalent e.key k) = some e ∧ l = l₁ ++ e :: l₂ ∧
      q.Points tok l₁ e l₂ := by
  obtain ⟨es, -, hes, rfl⟩ := h
  rw [hes.findFirstForKey, Option.map_eq_some_iff] at hfirst
  obtain ⟨d, hd, rfl⟩ := hfirst
  exact hes.toLinks.points_of_find? hes (p := fun e => Equivalent e.key k) hd

/-- `find_first_for_key` finds the first entry with an equivalent key. -/
theorem findFirstForKey_some {k : K} {e : Entry K V}
    (he : (l.find? fun e => Equivalent e.key k) = some e) :
    ∃ tok l₁ l₂, q.findFirstForKey k = some tok ∧ l = l₁ ++ e :: l₂ ∧ q.Points tok l₁ e l₂ := by
  cases hfirst : q.findFirstForKey k with
  | none =>
    have hk : Equivalent e.key k := by simpa using List.find?_some he
    exact absurd hk (h.findFirstForKey_eq_none_iff.1 hfirst e (List.mem_of_find?_eq_some he))
  | some tok =>
    obtain ⟨d, l₁, l₂, hd, hl, hpts⟩ := h.points_of_findFirstForKey hfirst
    cases hd.symm.trans he
    exact ⟨tok, l₁, l₂, rfl, hl, hpts⟩

/-- What `find_first_for_key` finds is read as the first entry with an equivalent key. -/
theorem read?_findFirstForKey (k : K) :
    q.read? (q.findFirstForKey k) = .ok (l.find? fun e => Equivalent e.key k) := by
  cases hfirst : q.findFirstForKey k with
  | none =>
    have hnone : (l.find? fun e => Equivalent e.key k) = none :=
      List.find?_eq_none.2 (by simpa using h.findFirstForKey_eq_none_iff.1 hfirst)
    rw [hnone]; rfl
  | some tok =>
    obtain ⟨e, l₁, l₂, hfind, -, hpts⟩ := h.points_of_findFirstForKey hfirst
    rw [hfind, hpts.read?]

end Refines

namespace Points

variable {q : KeyMultivalueQueue K V} {tok : AccessToken} {l₁ l₂ : List (Entry K V)} {e : Entry K V}
  (h : q.Points tok l₁ e l₂)
include h

/-- Assigning to the value keeps the place of the entry. -/
theorem setValue (v : V) :
    ∃ q', q.setValue tok v = .ok q' ∧ q'.Points tok l₁ { e with value := v } l₂ := by
  obtain ⟨es₁, d, es₂, -, hes, rfl, rfl, rfl, rfl⟩ := h
  obtain ⟨q', hq', hholds⟩ := hes.setValue (e := d) (by simp) v
  have hnodup := hes.itemAddrs
  rw [List.map_append, List.map_cons, List.nodup_middle, List.nodup_cons, List.mem_append,
    not_or] at hnodup
  -- The other entries have other addresses, so the assignment passes them by.
  have hkeep : ∀ es : List (LinkedEntry K V), d.itemAddr ∉ es.map LinkedEntry.itemAddr →
      (es.map fun x => if x.itemAddr = d.itemAddr then { x with value := v } else x) = es := by
    intro es hes
    refine (List.map_congr_left fun x hx => if_neg fun heq => hes ?_).trans (List.map_id' es)
    exact heq ▸ List.mem_map_of_mem hx
  rw [List.map_append, List.map_cons, hkeep es₁ hnodup.1.1, hkeep es₂ hnodup.1.2,
    if_pos rfl] at hholds
  exact ⟨q', hq', es₁, { d with value := v }, es₂, hholds.toLinks, hholds, rfl,
    rfl, rfl, rfl⟩

variable [IsStrictWeakOrder K (· < ·)]

/-- `erase` removes exactly the entry of its token. -/
theorem erase : ∃ q', q.erase tok = .ok q' ∧ q'.Refines (l₁ ++ l₂) := by
  obtain ⟨es₁, d, es₂, -, hes, rfl, rfl, rfl, rfl⟩ := h
  obtain ⟨q', hq', hholds⟩ := hes.erase (e := d) (by simp)
  rw [hes.others_split] at hholds
  exact ⟨q', hq', by simpa using hholds.refines⟩

/-- `extract_values_for_key` hands over the values of the token's key in order and removes exactly
the entries of that key. -/
theorem extractValuesForKey :
    ∃ q', q.extractValuesForKey tok = .ok (q',
        ((l₁ ++ e :: l₂).filter fun d => Equivalent d.key e.key).map (·.value)) ∧
      q'.Refines ((l₁ ++ e :: l₂).filter fun d => ¬ Equivalent d.key e.key) := by
  obtain ⟨es₁, d, es₂, -, hes, rfl, rfl, rfl, rfl⟩ := h
  obtain ⟨q', hq', hholds⟩ := hes.extractValuesForKey (e := d) (by simp)
  have hmap : es₁.map (·.toEntry) ++ d.toEntry :: es₂.map (·.toEntry) =
      (es₁ ++ d :: es₂).map (·.toEntry) := by simp
  refine ⟨q', ?_, ?_⟩
  · rw [hq', hmap, List.filter_map, List.map_map]; rfl
  · rw [hmap, List.filter_map]
    exact hholds.refines

end Points

/-! ## Sequences of operations -/

/-- An operation on the queue. A token is given by the place of its element in the access list; if
there is no such element the operation is left out. -/
inductive Op (K V : Type)
  | insert (now : TimePoint) (key : K) (value : V)
  | erase (i : Nat)
  | extractValuesForKey (i : Nat)
  | hasKey (key : K)
  | findFirstForKey (key : K)
  | empty
  | uniqueKeys
  | oldest

/-- What the caller of an operation sees: a flag, a count, the element of a returned token, or the
values handed to its lambda. -/
inductive Obs (K V : Type)
  | done
  | flag (b : Bool)
  | count (n : Nat)
  | element (e : Option (Entry K V))
  | values (vs : List V)
deriving DecidableEq, Repr

/-- Performs an operation on the queue. -/
def apply (q : KeyMultivalueQueue K V) : Op K V → Except Fault (KeyMultivalueQueue K V × Obs K V)
  | .insert now k v => return (q.insert now k v, .done)
  | .erase i =>
    match q.tokenAt i with
    | some tok => return (← q.erase tok, .done)
    | none => return (q, .done)
  | .extractValuesForKey i =>
    match q.tokenAt i with
    | some tok => do
      let (q', vs) ← q.extractValuesForKey tok
      return (q', .values vs)
    | none => return (q, .done)
  | .hasKey k => return (q, .flag (q.hasKey k))
  | .findFirstForKey k => return (q, .element (← q.read? (q.findFirstForKey k)))
  | .empty => return (q, .flag q.empty)
  | .uniqueKeys => return (q, .count q.uniqueKeys)
  | .oldest => return (q, .element (← q.read? (← q.oldest)))

end Shrimp.KeyMultivalueQueue

namespace Shrimp

/-- A plain list of entries in insertion order, with the operations of the queue. -/
abbrev ListQueue (K V : Type) := List (Entry K V)

namespace ListQueue

open KeyOrder KeyMultivalueQueue

variable {K V : Type} [LT K] [DecidableLT K]

/-- Performs an operation on the list. -/
def apply (l : ListQueue K V) : Op K V → ListQueue K V × Obs K V
  | .insert now k v => (l ++ [⟨k, v, now⟩], .done)
  | .erase i => (l.eraseIdx i, .done)
  | .extractValuesForKey i =>
    match l[i]? with
    | some e => (l.filter fun d => ¬ Equivalent d.key e.key,
        .values ((l.filter fun d => Equivalent d.key e.key).map (·.value)))
    | none => (l, .done)
  | .hasKey k => (l, .flag (l.any fun e => Equivalent e.key k))
  | .findFirstForKey k => (l, .element (l.find? fun e => Equivalent e.key k))
  | .empty => (l, .flag l.isEmpty)
  | .uniqueKeys => (l, .count (classes (l.map (·.key))))
  | .oldest => (l, .element l.head?)

/-- Performs an operation and notes what its caller saw. -/
def step (s : ListQueue K V × List (Obs K V)) (op : Op K V) : ListQueue K V × List (Obs K V) :=
  ((apply s.1 op).1, s.2 ++ [(apply s.1 op).2])

end ListQueue

namespace KeyMultivalueQueue

open KeyOrder

variable {K V : Type} [LT K] [DecidableLT K]

/-- Performs an operation and notes what its caller saw. -/
def step (s : KeyMultivalueQueue K V × List (Obs K V)) (op : Op K V) :
    Except Fault (KeyMultivalueQueue K V × List (Obs K V)) := do
  let (q, obs) ← s.1.apply op
  return (q, s.2 ++ [obs])

variable [IsStrictWeakOrder K (· < ·)]

/-- One operation does to the queue what it does to the list, and shows the same. -/
theorem apply_refines {q : KeyMultivalueQueue K V} {l : List (Entry K V)} (h : q.Refines l)
    (op : Op K V) : ∃ q', q.apply op = .ok (q', (ListQueue.apply l op).2) ∧
      q'.Refines (ListQueue.apply l op).1 := by
  cases op with
  | insert now k v => exact ⟨_, rfl, h.insert now k v⟩
  | erase i =>
    simp only [apply, ListQueue.apply]
    cases hi : l[i]? with
    | none =>
      refine ⟨q, by rw [h.tokenAt_none hi]; rfl, ?_⟩
      rwa [List.eraseIdx_of_length_le (List.getElem?_eq_none_iff.1 hi)]
    | some e =>
      obtain ⟨tok, htok, hpts⟩ := h.tokenAt hi
      obtain ⟨q', hq', hl'⟩ := Points.erase hpts
      rw [← List.eraseIdx_eq_take_drop_succ] at hl'
      exact ⟨q', by rw [htok]; simp only [hq']; rfl, hl'⟩
  | extractValuesForKey i =>
    simp only [apply, ListQueue.apply]
    cases hi : l[i]? with
    | none => exact ⟨q, by rw [h.tokenAt_none hi]; rfl, h⟩
    | some e =>
      obtain ⟨tok, htok, hpts⟩ := h.tokenAt hi
      obtain ⟨hlt, rfl⟩ := List.getElem?_eq_some_iff.1 hi
      obtain ⟨q', hq', hl'⟩ := Points.extractValuesForKey hpts
      rw [← List.drop_eq_getElem_cons hlt, List.take_append_drop] at hq' hl'
      exact ⟨q', by rw [htok]; simp only [hq']; rfl, hl'⟩
  | hasKey k => exact ⟨q, by simp only [apply, ListQueue.apply, h.hasKey]; rfl, h⟩
  | findFirstForKey k => exact ⟨q, by rw [apply, h.read?_findFirstForKey]; rfl, h⟩
  | empty => exact ⟨q, by simp only [apply, ListQueue.apply, h.empty]; rfl, h⟩
  | uniqueKeys => exact ⟨q, by simp only [apply, ListQueue.apply, h.uniqueKeys]; rfl, h⟩
  | oldest =>
    obtain ⟨atoken, holdest, hread⟩ := h.read?_oldest
    exact ⟨q, by rw [apply, holdest, Execution.ok_bind, hread]; rfl, h⟩

/-- A live element keeps the counter of distinct keys above zero. -/
theorem Refines.uniqueKeys_pos {q : KeyMultivalueQueue K V} {l : List (Entry K V)}
    (h : q.Refines l) {tok : AccessToken} (htok : tok.it ∈ NodeSeq.addrs q.items) :
    0 < q.uniqueKeys := by
  obtain ⟨i, hi, -⟩ := h.existsUnique_tokenAt htok
  cases hl : l with
  | nil => rw [h.tokenAt_none (by rw [hl]; rfl)] at hi; cases hi
  | cons e l' =>
    have hmem : ∃ k ∈ (e :: l').map (·.key), Equivalent k e.key := ⟨e.key, by simp, .refl _⟩
    rw [h.uniqueKeys, hl, classes_filter _ e.key, if_pos hmem]
    exact Nat.succ_pos _

/-- No sequence of operations tells the queue from a list of (key, value, time) in insertion order.
None of them faults, the queue ends with the entries of the list, its map nodes and access-list
nodes in one-to-one correspondence; every live element has one place in the order, and whatever
`erase` or `extract_values_for_key` are asked to remove next, the counter is not zero. -/
theorem queue_refines_list (ops : List (Op K V)) :
    ∃ q obs, Execution.run step (init, []) ops = .ok (q, obs) ∧
      ops.foldl ListQueue.step ([], []) = (q.toList, obs) ∧ q.OneToOne ∧
      ∀ tok : AccessToken, tok.it ∈ NodeSeq.addrs q.items →
        (∃! i, q.tokenAt i = some tok) ∧ 0 < q.uniqueKeys := by
  obtain ⟨⟨q, obs⟩, hrun, hq, hobs⟩ := Execution.run_simulates step ListQueue.step
    (fun (s : KeyMultivalueQueue K V × List (Obs K V)) t => s.1.Refines t.1 ∧ s.2 = t.2)
    (fun s t op ⟨hs, hobs⟩ => by
      obtain ⟨q', hq', hl'⟩ := apply_refines hs op
      exact ⟨(q', s.2 ++ [(ListQueue.apply t.1 op).2]), by rw [step, hq']; rfl, hl', by
        rw [hobs]; rfl⟩)
    ops (init, []) ([], []) ⟨refines_init, rfl⟩
  refine ⟨q, obs, hrun, ?_, hq.oneToOne, fun tok htok =>
    ⟨hq.existsUnique_tokenAt htok, hq.uniqueKeys_pos htok⟩⟩
  exact Prod.ext hq.toList_eq.symm hobs.symm

/-- Two keys, of which one is taken out whole. -/
theorem queue_refines_list_two_keys : ∃ q : KeyMultivalueQueue Nat Nat, ∃ obs,
    Execution.run step (init, []) [.insert 5 1 10, .insert 6 2 20, .insert 7 1 30, .uniqueKeys,
      .extractValuesForKey 2, .oldest] = .ok (q, obs) ∧
    q.toList = [⟨2, 20, 6⟩] ∧ q.OneToOne ∧
    obs.drop 3 = [.count 2, .values [10, 30], .element (some ⟨2, 20, 6⟩)] := by
  obtain ⟨q, obs, hrun, hlist, hone, -⟩ := queue_refines_list (K := Nat) (V := Nat)
    [.insert 5 1 10, .insert 6 2 20, .insert 7 1 30, .uniqueKeys, .extractValuesForKey 2, .oldest]
  obtain ⟨hq, hobs⟩ := Prod.mk.inj hlist
  exact ⟨q, obs, hrun, hq.symm, hone, by rw [← hobs]; rfl⟩

end KeyMultivalueQueue

end Shrimp
