import Shrimp.Containers.CacheAlikeContainer

/-!
# The cache is a recency list

`c.Refines l` says that the container `c` is in order and holds the entries `l`, the least recently
accessed one first, and `c.Points tok l₁ e l₂` that `tok` is the token of the entry `e` between `l₁`
and `l₂`. `RecencyList` is the plain list the container stands for, and `cache_refines_list` says
that no sequence of operations can tell the two apart, and that a clock that does not run backwards
keeps the list in the order of its times.
-/

namespace Shrimp.CacheAlikeContainer

open KeyOrder LinkedIndex

variable {K V : Type} [LT K]

/-- The container is in order and holds the entries `l`. -/
abbrev Refines (c : CacheAlikeContainer K V) (l : List (Entry K V)) : Prop :=
  c.RefinesWith c.Holds l

/-- The token `tok` points to the entry `e` between `l₁` and `l₂`. -/
abbrev Points (c : CacheAlikeContainer K V) (tok : AccessToken) (l₁ : List (Entry K V))
    (e : Entry K V) (l₂ : List (Entry K V)) : Prop :=
  c.PointsWith c.Holds tok l₁ e l₂

/-- A container that holds some entries stands for their list. -/
theorem Holds.refines {c : CacheAlikeContainer K V} {es : List (LinkedEntry K V)} (h : c.Holds es) :
    c.Refines (es.map (·.toEntry)) := ⟨es, h.toLinks, h, rfl⟩

/-- A new container stands for the empty list. -/
theorem refines_init : (init : CacheAlikeContainer K V).Refines [] := (holds_nil 0).refines

/-- A container that was cleared stands for the empty list. -/
theorem refines_clear (c : CacheAlikeContainer K V) : c.clear.Refines [] :=
  (holds_nil c.heap).refines

namespace Points

variable {c : CacheAlikeContainer K V} {tok : AccessToken} {l₁ l₂ : List (Entry K V)}
  {e : Entry K V}
  (h : c.Points tok l₁ e l₂)
include h

/-- `erase` removes exactly the entry of its token. -/
theorem erase : ∃ c', c.erase tok = .ok c' ∧ c'.Refines (l₁ ++ l₂) := by
  obtain ⟨es₁, d, es₂, -, hes, rfl, rfl, rfl, rfl⟩ := h
  obtain ⟨c', hc', hholds⟩ := hes.erase (e := d) (by simp)
  rw [hes.others_split] at hholds
  exact ⟨c', hc', by simpa using hholds.refines⟩

/-- `update_access_time` moves exactly the entry of its token to the end; the token stays good. -/
theorem updateAccessTime (now : TimePoint) :
    ∃ c', c.updateAccessTime now tok = .ok c' ∧
      c'.Points tok (l₁ ++ l₂) { e with time := now } [] := by
  obtain ⟨es₁, d, es₂, -, hes, rfl, rfl, rfl, rfl⟩ := h
  obtain ⟨c', hc', hholds⟩ := hes.updateAccessTime rfl now
  exact ⟨c', hc', es₁ ++ es₂, { d with time := now }, [], hholds.toLinks, hholds, by simp, rfl,
    rfl, rfl⟩

end Points

namespace Refines

variable {c : CacheAlikeContainer K V} {l : List (Entry K V)} (h : c.Refines l)
include h

/-- The size is the length of the list. -/
theorem size : c.size = l.length := by
  obtain ⟨es, -, hes, rfl⟩ := h
  rw [hes.size, List.length_map]

/-- No two entries have equivalent keys. -/
theorem distinct : l.Pairwise fun a b => ¬ Equivalent a.key b.key := by
  obtain ⟨es, -, hes, rfl⟩ := h
  exact List.pairwise_map.2 hes.distinct

variable [DecidableLT K] [IsStrictWeakOrder K (· < ·)]

/-- `insert` of a new key appends an entry. -/
theorem insert_new (now : TimePoint) {k : K} (v : V) (hk : ∀ e ∈ l, ¬ Equivalent e.key k) :
    (c.insert now k v).Refines (l ++ [⟨k, v, now⟩]) := by
  obtain ⟨es, -, hes, rfl⟩ := h
  simpa using (hes.insert_new now v fun e he => hk _ (List.mem_map_of_mem he)).refines

/-- `insert` of a known key changes nothing. -/
theorem insert_known (now : TimePoint) {k : K} (v : V) {e : Entry K V} (he : e ∈ l)
    (hk : Equivalent e.key k) : (c.insert now k v).Refines l := by
  obtain ⟨es, -, hes, rfl⟩ := h
  obtain ⟨d, hd, rfl⟩ := List.mem_map.1 he
  exact (hes.insert_known now v hd hk).refines

/-- `lookup` fails exactly if no entry has an equivalent key. -/
theorem lookup_eq_none_iff {k : K} : c.lookup k = none ↔ ∀ e ∈ l, ¬ Equivalent e.key k := by
  obtain ⟨es, -, hes, rfl⟩ := h
  rw [lookup, Option.map_eq_none_iff, hes.find_eq_none_iff, List.forall_mem_map]

/-- What `lookup` finds is the entry with an equivalent key. -/
theorem points_of_lookup {k : K} {tok : AccessToken} (hlookup : c.lookup k = some tok) :
    ∃ e l₁ l₂, (l.find? fun e => Equivalent e.key k) = some e ∧ l = l₁ ++ e :: l₂ ∧
      c.Points tok l₁ e l₂ := by
  obtain ⟨es, -, hes, rfl⟩ := h
  rw [lookup, hes.find, Option.map_map, Option.map_eq_some_iff] at hlookup
  obtain ⟨d, hd, rfl⟩ := hlookup
  exact hes.toLinks.points_of_find? hes (p := fun e => Equivalent e.key k) hd

/-- `lookup` finds the entry with an equivalent key. -/
theorem lookup_some {k : K} {e : Entry K V} (he : (l.find? fun e => Equivalent e.key k) = some e) :
    ∃ tok l₁ l₂, c.lookup k = some tok ∧ l = l₁ ++ e :: l₂ ∧ c.Points tok l₁ e l₂ := by
  cases hlookup : c.lookup k with
  | none =>
    have hk : Equivalent e.key k := by simpa using List.find?_some he
    exact absurd hk (h.lookup_eq_none_iff.1 hlookup e (List.mem_of_find?_eq_some he))
  | some tok =>
    obtain ⟨d, l₁, l₂, hd, hl, hpts⟩ := h.points_of_lookup hlookup
    cases hd.symm.trans he
    exact ⟨tok, l₁, l₂, rfl, hl, hpts⟩

/-- What `lookup` finds is read as the entry with an equivalent key. -/
theorem read?_lookup (k : K) :
    c.read? (c.lookup k) = .ok (l.find? fun e => Equivalent e.key k) := by
  cases hlookup : c.lookup k with
  | none =>
    have hnone : (l.find? fun e => Equivalent e.key k) = none :=
      List.find?_eq_none.2 (by simpa using h.lookup_eq_none_iff.1 hlookup)
    rw [hnone]; rfl
  | some tok =>
    obtain ⟨e, l₁, l₂, hfind, -, hpts⟩ := h.points_of_lookup hlookup
    rw [hfind, hpts.read?]

end Refines

/-! ## Sequences of operations -/

/-- An operation on the container, with the reading of the clock it takes. A token is given by the
place of its element in the access list; if there is no such element the operation is left out. -/
inductive Op (K V : Type)
  | insert (now : TimePoint) (key : K) (value : V)
  | lookup (key : K)
  | erase (i : Nat)
  | clear
  | updateAccessTime (now : TimePoint) (i : Nat)
  | empty
  | size
  | oldest

/-- The reading of the clock an operation takes. -/
def Op.now? : Op K V → Option TimePoint
  | .insert now _ _ | .updateAccessTime now _ => some now
  | _ => none

/-- What the caller of an operation sees: a flag, a count, or the element of a returned token. -/
inductive Obs (K V : Type)
  | done
  | flag (b : Bool)
  | count (n : Nat)
  | element (e : Option (Entry K V))
deriving DecidableEq, Repr

/-- Performs an operation on the container. -/
def apply [DecidableLT K] (c : CacheAlikeContainer K V) :
    Op K V → Except Fault (CacheAlikeContainer K V × Obs K V)
  | .insert now k v => return (c.insert now k v, .done)
  | .lookup k => return (c, .element (← c.read? (c.lookup k)))
  | .erase i =>
    match c.tokenAt i with
    | some tok => return (← c.erase tok, .done)
    | none => return (c, .done)
  | .clear => return (c.clear, .done)
  | .updateAccessTime now i =>
    match c.tokenAt i with
    | some tok => return (← c.updateAccessTime now tok, .done)
    | none => return (c, .done)
  | .empty => return (c, .flag c.empty)
  | .size => return (c, .count c.size)
  | .oldest => return (c, .element (← c.read? (← c.oldest)))

/-- Performs an operation and notes what its caller saw. -/
def step [DecidableLT K] (s : CacheAlikeContainer K V × List (Obs K V)) (op : Op K V) :
    Except Fault (CacheAlikeContainer K V × List (Obs K V)) := do
  let (c, obs) ← s.1.apply op
  return (c, s.2 ++ [obs])

end Shrimp.CacheAlikeContainer

namespace Shrimp

/-- A plain list of entries, the least recently accessed one first, with the operations of the
container. -/
abbrev RecencyList (K V : Type) := List (Entry K V)

namespace RecencyList

open KeyOrder CacheAlikeContainer

variable {K V : Type} [LT K] [DecidableLT K]

/-- Performs an operation on the list. -/
def apply (l : RecencyList K V) : Op K V → RecencyList K V × Obs K V
  | .insert now k v =>
    (if ∃ e ∈ l, Equivalent e.key k then l else l ++ [⟨k, v, now⟩], .done)
  | .lookup k => (l, .element (l.find? fun e => Equivalent e.key k))
  | .erase i => (l.eraseIdx i, .done)
  | .clear => ([], .done)
  | .updateAccessTime now i =>
    match l[i]? with
    | some e => (l.eraseIdx i ++ [{ e with time := now }], .done)
    | none => (l, .done)
  | .empty => (l, .flag l.isEmpty)
  | .size => (l, .count l.length)
  | .oldest => (l, .element l.head?)

/-- Performs an operation and notes what its caller saw. -/
def step (s : RecencyList K V × List (Obs K V)) (op : Op K V) : RecencyList K V × List (Obs K V) :=
  ((apply s.1 op).1, s.2 ++ [(apply s.1 op).2])

/-- The times along the list do not decrease, and none is later than `now`. -/
def Chronological (l : RecencyList K V) (now : TimePoint) : Prop :=
  (l.Pairwise fun a b => a.time ≤ b.time) ∧ ∀ e ∈ l, e.time ≤ now

omit [LT K] [DecidableLT K] in
/-- A part of a chronological list, with an entry of the current time behind it. -/
theorem Chronological.push {l l' : RecencyList K V} {t now : TimePoint} (h : l.Chronological t)
    (hl' : l'.Sublist l) (hnow : t ≤ now) {e : Entry K V} (he : e.time = now) :
    Chronological (l' ++ [e]) now := by
  refine ⟨List.pairwise_append.2 ⟨h.1.sublist hl', List.pairwise_singleton _ _, ?_⟩, ?_⟩
  · intro a ha b hb
    cases List.mem_singleton.1 hb
    exact he ▸ (h.2 a (hl'.subset ha)).trans hnow
  · intro a ha
    rcases List.mem_append.1 ha with ha | ha
    · exact (h.2 a (hl'.subset ha)).trans hnow
    · cases List.mem_singleton.1 ha
      exact he.le

omit [LT K] [DecidableLT K] in
/-- A part of a list is in order of time as well. -/
theorem Chronological.sublist {l l' : RecencyList K V} {t : TimePoint} (h : l.Chronological t)
    (hl' : l'.Sublist l) : l'.Chronological t :=
  ⟨h.1.sublist hl', fun e he => h.2 e (hl'.subset he)⟩

/-- An operation keeps the list chronological if its reading is not earlier than the last one. -/
theorem Chronological.apply {l : RecencyList K V} {t : TimePoint} (h : l.Chronological t)
    (op : Op K V) (hop : ∀ now ∈ op.now?, t ≤ now) :
    Chronological (l.apply op).1 (op.now?.getD t) := by
  cases op with
  | insert now k v =>
    have hnow : t ≤ now := hop now rfl
    simp only [RecencyList.apply]
    split
    · exact ⟨h.1, fun e he => (h.2 e he).trans hnow⟩
    · exact h.push (List.Sublist.refl l) hnow rfl
  | erase i => exact h.sublist (List.eraseIdx_sublist l i)
  | clear => exact h.sublist (List.nil_sublist l)
  | updateAccessTime now i =>
    have hnow : t ≤ now := hop now rfl
    simp only [RecencyList.apply]
    split
    · exact h.push (List.eraseIdx_sublist l i) hnow rfl
    · exact ⟨h.1, fun e he => (h.2 e he).trans hnow⟩
  | lookup | empty | size | oldest => exact h

/-- A sequence of operations whose readings never decrease leaves a chronological list. -/
theorem Chronological.foldl : ∀ (ops : List (Op K V)) (s : RecencyList K V × List (Obs K V))
    (t : TimePoint), Chronological s.1 t → (∀ now ∈ ops.filterMap Op.now?, t ≤ now) →
    (ops.filterMap Op.now?).Pairwise (· ≤ ·) →
    ∃ t', Chronological (ops.foldl step s).1 t'
  | [], _, t, h, _, _ => ⟨t, h⟩
  | op :: ops, s, t, h, hle, hmono => by
    cases hnow : op.now? with
    | none =>
      have hstep := h.apply op (by simp [hnow])
      rw [hnow, Option.getD_none] at hstep
      rw [List.filterMap_cons_none hnow] at hle hmono
      exact foldl ops (step s op) t hstep hle hmono
    | some now =>
      rw [List.filterMap_cons_some hnow] at hle hmono
      have hstep := h.apply op (by simpa [hnow] using hle now (by simp))
      rw [hnow, Option.getD_some] at hstep
      obtain ⟨hnext, hmono'⟩ := List.pairwise_cons.1 hmono
      exact foldl ops (step s op) now hstep hnext hmono'

/-- Where the readings never decrease, the times along the list do not decrease. -/
theorem times_foldl (ops : List (Op K V)) (hclock : (ops.filterMap Op.now?).Pairwise (· ≤ ·)) :
    (ops.foldl step ([], [])).1.Pairwise fun a b => a.time ≤ b.time := by
  -- The empty list is chronological for the first reading, whatever that is.
  obtain ⟨t, hfirst⟩ : ∃ t, ∀ now ∈ ops.filterMap Op.now?, t ≤ now := by
    cases hreads : ops.filterMap Op.now? with
    | nil => exact ⟨0, by simp⟩
    | cons t reads =>
      rw [hreads] at hclock
      refine ⟨t, ?_⟩
      intro now hnow
      rcases List.mem_cons.1 hnow with rfl | hnow
      · exact le_rfl
      · exact (List.pairwise_cons.1 hclock).1 now hnow
  obtain ⟨t', htimes, -⟩ := Chronological.foldl ops ([], []) t ⟨.nil, by simp⟩ hfirst hclock
  exact htimes

omit [LT K] [DecidableLT K] in
/-- The head of a list whose times do not decrease has a minimal time. -/
theorem oldest_minimal {l : RecencyList K V} (htimes : l.Pairwise fun a b => a.time ≤ b.time) :
    ∀ oldest ∈ l.head?, ∀ e ∈ l, oldest.time ≤ e.time := by
  intro oldest hold e he
  obtain ⟨l', rfl⟩ := List.head?_eq_some_iff.1 hold
  rcases List.mem_cons.1 he with rfl | he
  · exact le_rfl
  · exact (List.pairwise_cons.1 htimes).1 e he

end RecencyList

namespace CacheAlikeContainer

open KeyOrder

variable {K V : Type} [LT K] [DecidableLT K] [IsStrictWeakOrder K (· < ·)]

/-- One operation does to the container what it does to the list, and shows the same. -/
theorem apply_refines {c : CacheAlikeContainer K V} {l : List (Entry K V)} (h : c.Refines l)
    (op : Op K V) : ∃ c', c.apply op = .ok (c', (RecencyList.apply l op).2) ∧
      c'.Refines (RecencyList.apply l op).1 := by
  cases op with
  | insert now k v =>
    refine ⟨_, rfl, ?_⟩
    show (c.insert now k v).Refines (if ∃ e ∈ l, Equivalent e.key k then l else l ++ [⟨k, v, now⟩])
    split
    case isTrue hex =>
      obtain ⟨e, he, hk⟩ := hex
      exact Refines.insert_known h now v he hk
    case isFalse hex => exact Refines.insert_new h now v fun e he hk => hex ⟨e, he, hk⟩
  | lookup k => exact ⟨c, by rw [apply, Refines.read?_lookup h]; rfl, h⟩
  | erase i =>
    simp only [apply, RecencyList.apply]
    cases hi : l[i]? with
    | none =>
      refine ⟨c, by rw [h.tokenAt_none hi]; rfl, ?_⟩
      rwa [List.eraseIdx_of_length_le (List.getElem?_eq_none_iff.1 hi)]
    | some e =>
      obtain ⟨tok, htok, hpts⟩ := h.tokenAt hi
      obtain ⟨c', hc', hl'⟩ := Points.erase hpts
      rw [← List.eraseIdx_eq_take_drop_succ] at hl'
      exact ⟨c', by rw [htok]; simp only [hc']; rfl, hl'⟩
  | clear => exact ⟨_, rfl, refines_clear c⟩
  | updateAccessTime now i =>
    simp only [apply, RecencyList.apply]
    cases hi : l[i]? with
    | none => exact ⟨c, by rw [h.tokenAt_none hi]; rfl, h⟩
    | some e =>
      obtain ⟨tok, htok, hpts⟩ := h.tokenAt hi
      obtain ⟨c', hc', hpts'⟩ := Points.updateAccessTime hpts now
      have hl' := hpts'.refines
      rw [← List.eraseIdx_eq_take_drop_succ] at hl'
      exact ⟨c', by rw [htok]; simp only [hc']; rfl, hl'⟩
  | empty => exact ⟨c, by simp only [apply, RecencyList.apply, h.empty]; rfl, h⟩
  | size => exact ⟨c, by simp only [apply, RecencyList.apply, Refines.size h]; rfl, h⟩
  | oldest =>
    obtain ⟨atoken, holdest, hread⟩ := h.read?_oldest
    exact ⟨c, by rw [apply, holdest, Execution.ok_bind, hread]; rfl, h⟩

/-- No sequence of operations whose clock readings never decrease tells the container from a list of
(key, value, time) in recency order. None of them faults, the container ends with the entries of the
list, its map nodes and access-list nodes in one-to-one correspondence; no two keys are equivalent,
the times along the list do not decrease, and so the oldest entry has a minimal one. -/
theorem cache_refines_list (ops : List (Op K V))
    (hclock : (ops.filterMap Op.now?).Pairwise (· ≤ ·)) :
    ∃ c obs, Execution.run step (init, []) ops = .ok (c, obs) ∧
      ops.foldl RecencyList.step ([], []) = (c.toList, obs) ∧ c.OneToOne ∧
      (∀ tok : AccessToken, tok.it ∈ NodeSeq.addrs c.items → ∃! i, c.tokenAt i = some tok) ∧
      (c.toList.Pairwise fun a b => ¬ Equivalent a.key b.key) ∧
      (c.toList.Pairwise fun a b => a.time ≤ b.time) ∧
      ∀ oldest ∈ c.toList.head?, ∀ e ∈ c.toList, oldest.time ≤ e.time := by
  obtain ⟨⟨c, obs⟩, hrun, hc, hobs⟩ := Execution.run_simulates step RecencyList.step
    (fun (s : CacheAlikeContainer K V × List (Obs K V)) t => s.1.Refines t.1 ∧ s.2 = t.2)
    (fun s t op ⟨hs, hobs⟩ => by
      obtain ⟨c', hc', hl'⟩ := apply_refines hs op
      exact ⟨(c', s.2 ++ [(RecencyList.apply t.1 op).2]), by rw [step, hc']; rfl, hl', by
        rw [hobs]; rfl⟩)
    ops (init, []) ([], []) ⟨refines_init, rfl⟩
  have hlist := hc.toList_eq
  have htimes : c.toList.Pairwise fun a b => a.time ≤ b.time := by
    rw [hlist]
    exact RecencyList.times_foldl ops hclock
  refine ⟨c, obs, hrun, Prod.ext hlist.symm hobs.symm, hc.oneToOne, ?_, ?_, htimes,
    RecencyList.oldest_minimal htimes⟩
  · intro tok htok
    exact hc.existsUnique_tokenAt htok
  · rw [hlist]
    exact Refines.distinct hc

/-- An access makes the oldest entry the newest one, and a second value for its key is dropped. -/
theorem cache_refines_list_two_keys : ∃ c : CacheAlikeContainer Nat Nat, ∃ obs,
    Execution.run step (init, []) [.insert 5 1 10, .insert 6 2 20, .updateAccessTime 7 0,
      .insert 8 1 30] = .ok (c, obs) ∧
    c.toList = [⟨2, 20, 6⟩, ⟨1, 10, 7⟩] ∧ c.OneToOne := by
  obtain ⟨c, obs, hrun, hlist, hone, -⟩ := cache_refines_list (K := Nat) (V := Nat)
    [.insert 5 1 10, .insert 6 2 20, .updateAccessTime 7 0, .insert 8 1 30] (by decide)
  exact ⟨c, obs, hrun, (congrArg Prod.fst hlist).symm, hone⟩

end CacheAlikeContainer

end Shrimp
