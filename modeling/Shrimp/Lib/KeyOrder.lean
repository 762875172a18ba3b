import Mathlib.Data.List.Pairwise
import Mathlib.Data.List.Sort
import Mathlib.Data.Finset.Card
import Mathlib.Data.Finset.Dedup
import Mathlib.Order.RelClasses

/-!
# Sequences sorted by a key under a strict weak order

An ordered associative container with equivalent keys keeps its elements sorted by key and puts a
new element behind the ones whose key is equivalent to its own. `insertUpper` is that insertion and
`sortBy` the sequence a series of insertions builds: a stable sort of the insertion order. The fact
everything else rests on is that sorting commutes with filtering (`filter_sortBy`), so that removing
elements from the container and from the insertion order comes to the same.

`classes` counts the distinct keys of a sequence, up to the equivalence of the order.
-/

namespace KeyOrder

variable {α κ : Type*} [LT κ]

/-- Two keys are equivalent when neither is less than the other. -/
def Equivalent (a b : κ) : Prop := ¬ a < b ∧ ¬ b < a

instance [DecidableLT κ] (a b : κ) : Decidable (Equivalent a b) :=
  inferInstanceAs (Decidable (¬ a < b ∧ ¬ b < a))

/-- Equivalence of keys goes both ways. -/
theorem Equivalent.symm {a b : κ} (h : Equivalent a b) : Equivalent b a := ⟨h.2, h.1⟩

/-- The two keys may be exchanged. -/
theorem Equivalent.comm {a b : κ} : Equivalent a b ↔ Equivalent b a :=
  ⟨Equivalent.symm, Equivalent.symm⟩

/-- "Not equivalent" is symmetric. -/
instance (key : α → κ) : Std.Symm fun a b => ¬ Equivalent (key a) (key b) :=
  ⟨fun _ _ hab heq => hab heq.symm⟩

section WeakOrder
variable [IsStrictWeakOrder κ (· < ·)]

/-- A key is equivalent to itself, the order being irreflexive. -/
theorem Equivalent.refl (a : κ) : Equivalent a a := ⟨irrefl_of (· < ·) a, irrefl_of (· < ·) a⟩

/-- Equivalence of keys is transitive, the order being a strict weak one. -/
theorem Equivalent.trans {a b c : κ} (h₁ : Equivalent a b) (h₂ : Equivalent b c) : Equivalent a c :=
  IsStrictWeakOrder.incomp_trans a b c h₁ h₂

/-- A key below another one is below everything equivalent to it. -/
theorem lt_of_lt_of_equiv {a b c : κ} (h : a < b) (hbc : Equivalent b c) : a < c := by
  by_contra hac
  have hca : ¬ c < a := fun hca => hbc.2 (trans_of (· < ·) hca h)
  exact (Equivalent.trans ⟨hac, hca⟩ hbc.symm).1 h

/-- Everything equivalent to a key below another one is below that one. -/
theorem lt_of_equiv_of_lt {a b c : κ} (hab : Equivalent a b) (h : b < c) : a < c := by
  by_contra hac
  have hca : ¬ c < a := fun hca => hab.2 (trans_of (· < ·) h hca)
  exact (Equivalent.trans hab.symm ⟨hac, hca⟩).1 h

/-- "Not greater" is transitive. -/
theorem not_lt_trans {a b c : κ} (h₁ : ¬ b < a) (h₂ : ¬ c < b) : ¬ c < a := by
  intro hca
  by_cases hab : a < b
  · exact h₂ (trans_of (· < ·) hca hab)
  · exact h₂ (lt_of_lt_of_equiv hca ⟨hab, h₁⟩)

end WeakOrder

/-- A strict total order is a strict weak order. -/
instance (priority := 100) isStrictWeakOrder [IsStrictTotalOrder κ (· < ·)] :
    IsStrictWeakOrder κ (· < ·) := isStrictWeakOrder_of_isOrderConnected

/-- When incomparable keys are equal, equivalence is equality. -/
theorem equiv_iff_eq [IsStrictTotalOrder κ (· < ·)] {a b : κ} : Equivalent a b ↔ a = b := by
  refine ⟨?_, fun h => h ▸ Equivalent.refl a⟩
  intro h
  rcases trichotomous_of (· < ·) a b with hab | hab | hab
  · exact absurd hab h.1
  · exact hab
  · exact absurd hab h.2

/-! ## Sorted sequences -/

variable (key : α → κ)

/-- No element is followed by one with a smaller key. -/
def SortedBy (l : List α) : Prop := l.Pairwise fun a b => ¬ key b < key a

variable {key} in
/-- A part of a sorted list is sorted. -/
theorem SortedBy.filter {l : List α} (h : SortedBy key l) (p : α → Bool) :
    SortedBy key (l.filter p) := List.Pairwise.filter p h

section Insert
variable [DecidableLT κ]

/-- Inserts an element behind the ones whose key is not greater than its own. -/
def insertUpper (x : α) (l : List α) : List α := l.orderedInsert (fun a b => key a < key b) x

/-- The elements from the lower to the upper bound of a key. -/
def equalRange (k : κ) (l : List α) : List α :=
  (l.dropWhile fun x => key x < k).takeWhile fun x => ¬ k < key x

/-- The sequence that inserting the elements of `l` one after another builds. -/
def sortBy (l : List α) : List α := l.foldl (fun acc x => insertUpper key x acc) []

/-- An insertion adds one element. -/
theorem perm_insertUpper (x : α) (l : List α) : (insertUpper key x l).Perm (x :: l) :=
  List.perm_orderedInsert _ x l

/-- The last element of the insertion order is inserted last. -/
theorem sortBy_concat (l : List α) (x : α) :
    sortBy key (l ++ [x]) = insertUpper key x (sortBy key l) := by
  simp [sortBy, List.foldl_append]

/-- A map that keeps the keys commutes with sorting. -/
theorem map_sortBy (f : α → α) (hf : ∀ x, key (f x) = key x) (l : List α) :
    (sortBy key l).map f = sortBy key (l.map f) := by
  induction l using List.reverseRecOn with
  | nil => rfl
  | append_singleton l x ih =>
    rw [sortBy_concat, List.map_append, List.map_singleton, sortBy_concat, ← ih]
    exact List.map_orderedInsert _ _ f _ _ (fun a _ => by rw [hf, hf]) fun a _ => by rw [hf, hf]

section WeakOrder
variable [IsStrictWeakOrder κ (· < ·)] {key}

/-- In a sorted sequence the elements before the first one with a key above `k` are all the
elements with a key not above `k`, and the rest are those above it. -/
theorem SortedBy.split_upper {l : List α} (h : SortedBy key l) (k : κ) :
    (l.takeWhile fun y => ¬ k < key y) = (l.filter fun y => ¬ k < key y) ∧
      (l.dropWhile fun y => ¬ k < key y) = l.filter fun y => k < key y := by
  induction l with
  | nil => exact ⟨rfl, rfl⟩
  | cons y l ih =>
    obtain ⟨hy, hl⟩ := List.pairwise_cons.1 h
    obtain ⟨ih₁, ih₂⟩ := ih hl
    by_cases hk : k < key y
    · have habove : ∀ z ∈ l, k < key z := by
        intro z hz
        by_contra hz'
        exact not_lt_trans (hy z hz) hz' hk
      have hnone : (l.filter fun y => ¬ k < key y) = [] := by
        simpa [List.filter_eq_nil_iff] using habove
      have hall : (l.filter fun y => k < key y) = l := by
        simpa [List.filter_eq_self] using habove
      constructor
      · simpa [hk] using hnone.symm
      · simp [hk, hall]
    · constructor
      · simpa [hk] using ih₁
      · simpa [hk] using ih₂

/-- In a sorted sequence the elements from the first one with a key not below `k` are all the
elements with a key not below `k`. -/
theorem SortedBy.dropWhile_lower {l : List α} (h : SortedBy key l) (k : κ) :
    (l.dropWhile fun y => key y < k) = l.filter fun y => ¬ key y < k := by
  induction l with
  | nil => rfl
  | cons y l ih =>
    obtain ⟨hy, hl⟩ := List.pairwise_cons.1 h
    by_cases hk : key y < k
    · simpa [hk] using ih hl
    · have hall : (l.filter fun y => ¬ key y < k) = l := by
        rw [List.filter_eq_self]
        intro z hz
        exact decide_eq_true (not_lt_trans hk (hy z hz))
      simp only [List.dropWhile_cons, List.filter_cons, hk, decide_false, decide_true,
        Bool.false_eq_true, ↓reduceIte, not_false_eq_true, hall]

/-- In a sorted list the new element comes behind all that are not above it and in front of all that
are. -/
theorem SortedBy.insertUpper_eq {l : List α} (h : SortedBy key l) (x : α) :
    insertUpper key x l =
      (l.filter fun y => ¬ key x < key y) ++ x :: l.filter fun y => key x < key y := by
  rw [insertUpper, List.orderedInsert_eq_take_drop, (h.split_upper (key x)).1,
    (h.split_upper (key x)).2]

/-- An insertion keeps the list sorted. -/
theorem SortedBy.insertUpper {l : List α} (h : SortedBy key l) (x : α) :
    SortedBy key (insertUpper key x l) := by
  rw [h.insertUpper_eq, SortedBy, List.pairwise_append, List.pairwise_cons]
  refine ⟨h.filter _, ⟨?_, h.filter _⟩, ?_⟩
  · intro y hy
    have hxy : key x < key y := by simpa using (List.mem_filter.1 hy).2
    exact asymm_of (· < ·) hxy
  · intro y hy z hz
    have hy' : ¬ key x < key y := by simpa using (List.mem_filter.1 hy).2
    rcases List.mem_cons.1 hz with rfl | hz
    · exact hy'
    · have hxz : key x < key z := by simpa using (List.mem_filter.1 hz).2
      exact fun hzy => hy' (trans_of (· < ·) hxz hzy)

/-- Filtering after an insertion filters the old elements and inserts what is kept. -/
theorem SortedBy.filter_insertUpper {l : List α} (h : SortedBy key l) (x : α) (p : α → Bool) :
    (KeyOrder.insertUpper key x l).filter p =
      if p x then KeyOrder.insertUpper key x (l.filter p) else l.filter p := by
  rw [h.insertUpper_eq, List.filter_append, List.filter_cons, List.filter_comm p,
    List.filter_comm p]
  split
  · rw [(h.filter p).insertUpper_eq]
  · have hsplit := (h.filter p).split_upper (key x)
    rw [← hsplit.1, ← hsplit.2, List.takeWhile_append_dropWhile]

/-- Inserting one element after another sorts a list. -/
theorem sorted_sortBy (l : List α) : SortedBy key (sortBy key l) := by
  induction l using List.reverseRecOn with
  | nil => exact .nil
  | append_singleton l x ih => rw [sortBy_concat]; exact ih.insertUpper x

/-- Sorting commutes with filtering. -/
theorem filter_sortBy (l : List α) (p : α → Bool) :
    (sortBy key l).filter p = sortBy key (l.filter p) := by
  induction l using List.reverseRecOn with
  | nil => rfl
  | append_singleton l x ih =>
    rw [sortBy_concat, (sorted_sortBy l).filter_insertUpper, ih, List.filter_append]
    by_cases hx : p x = true
    · simp [hx, sortBy_concat]
    · simp [hx]

/-- Elements of one class keep their order. -/
theorem sortBy_eq_self {l : List α} (h : ∀ a ∈ l, ∀ b ∈ l, ¬ key a < key b) :
    sortBy key l = l := by
  induction l using List.reverseRecOn with
  | nil => rfl
  | append_singleton l x ih =>
    have hl : sortBy key l = l := ih fun a ha b hb => h a (by simp [ha]) b (by simp [hb])
    have hsort : SortedBy key l := hl ▸ sorted_sortBy l
    have hnone : (l.filter fun y => key x < key y) = [] := by
      simpa [List.filter_eq_nil_iff] using fun y hy => h x (by simp) y (by simp [hy])
    have hall : (l.filter fun y => ¬ key x < key y) = l := by
      simpa [List.filter_eq_self] using fun y hy => h x (by simp) y (by simp [hy])
    rw [sortBy_concat, hl, hsort.insertUpper_eq, hall, hnone]

/-- The equal range of a sorted sequence holds exactly the elements with an equivalent key. -/
theorem SortedBy.equalRange_eq {l : List α} (h : SortedBy key l) (k : κ) :
    equalRange key k l = l.filter fun x => Equivalent (key x) k := by
  rw [equalRange, h.dropWhile_lower, ((h.filter _).split_upper k).1, List.filter_filter]
  congr 1
  funext x
  simp only [← Bool.decide_and]
  exact decide_eq_decide.2 and_comm

/-- The elements of one class come out of the sort in insertion order. -/
theorem filter_equiv_sortBy (l : List α) (k : κ) :
    ((sortBy key l).filter fun x => Equivalent (key x) k) =
      l.filter fun x => Equivalent (key x) k := by
  rw [filter_sortBy]
  refine sortBy_eq_self ?_
  intro a ha b hb
  have ha : Equivalent (key a) k := by simpa using (List.mem_filter.1 ha).2
  have hb : Equivalent (key b) k := by simpa using (List.mem_filter.1 hb).2
  exact (ha.trans hb.symm).1

omit [DecidableLT κ] in
/-- An element equivalent to `x` before it forces one directly before it. -/
theorem SortedBy.equiv_before {l₁ l₂ : List α} {x : α} (h : SortedBy key (l₁ ++ x :: l₂)) :
    (∃ y ∈ l₁, Equivalent (key y) (key x)) ↔ ∃ y ∈ l₁.getLast?, Equivalent (key y) (key x) := by
  constructor
  · rintro ⟨y, hy, hxy⟩
    obtain ⟨l, z, rfl⟩ : ∃ l z, l₁ = l ++ [z] := by
      rcases List.eq_nil_or_concat l₁ with rfl | ⟨l, z, rfl⟩
      · cases hy
      · exact ⟨l, z, by simp⟩
    refine ⟨z, by simp, ?_⟩
    rcases List.mem_append.1 hy with hy | hy
    · obtain ⟨hpre, -, hcross⟩ := List.pairwise_append.1 h
      have hyz : ¬ key z < key y := (List.pairwise_append.1 hpre).2.2 y hy z (by simp)
      have hzx : ¬ key x < key z := hcross z (by simp) x (by simp)
      exact ⟨fun hlt => hyz (lt_of_lt_of_equiv hlt hxy.symm), hzx⟩
    · cases List.mem_singleton.1 hy
      exact hxy
  · rintro ⟨y, hy, hxy⟩
    exact ⟨y, List.mem_of_getLast? hy, hxy⟩

omit [DecidableLT κ] in
/-- An element equivalent to `x` behind it forces one directly behind it. -/
theorem SortedBy.equiv_behind {l₁ l₂ : List α} {x : α} (h : SortedBy key (l₁ ++ x :: l₂)) :
    (∃ y ∈ l₂, Equivalent (key y) (key x)) ↔ ∃ y ∈ l₂.head?, Equivalent (key y) (key x) := by
  constructor
  · rintro ⟨y, hy, hxy⟩
    cases l₂ with
    | nil => cases hy
    | cons z l =>
      refine ⟨z, rfl, ?_⟩
      rcases List.mem_cons.1 hy with rfl | hy
      · exact hxy
      · obtain ⟨hx, hzl⟩ := List.pairwise_cons.1 (List.pairwise_append.1 h).2.1
        have hzy : ¬ key y < key z := (List.pairwise_cons.1 hzl).1 y hy
        exact ⟨hx z (by simp), fun hlt => hzy (lt_of_equiv_of_lt hxy hlt)⟩
  · rintro ⟨y, hy, hxy⟩
    exact ⟨y, List.mem_of_head? hy, hxy⟩

end WeakOrder
end Insert

/-! ## Counting distinct keys -/

section Classes
variable [DecidableLT κ]

/-- The number of distinct keys in a sequence of keys, up to equivalence. -/
def classes : List κ → Nat
  | [] => 0
  | k :: ks => classes ks + if ∃ k' ∈ ks, Equivalent k k' then 0 else 1

/-- A key in front adds a class if none of the others is equivalent to it. -/
theorem classes_cons (k : κ) (ks : List κ) :
    classes (k :: ks) = classes ks + if ∃ k' ∈ ks, Equivalent k k' then 0 else 1 := rfl

variable [IsStrictWeakOrder κ (· < ·)]

/-- The count does not depend on the order. -/
theorem classes_perm {ks ks' : List κ} (h : ks.Perm ks') : classes ks = classes ks' := by
  induction h with
  | nil => rfl
  | cons k h ih => simp only [classes_cons, ih, h.mem_iff]
  | trans _ _ ih₁ ih₂ => exact ih₁.trans ih₂
  | swap a b l =>
    simp only [classes_cons, List.exists_mem_cons_iff]
    by_cases hab : Equivalent a b
    · have hiff : (∃ k' ∈ l, Equivalent a k') ↔ ∃ k' ∈ l, Equivalent b k' :=
        ⟨fun ⟨c, hc, h⟩ => ⟨c, hc, hab.symm.trans h⟩, fun ⟨c, hc, h⟩ => ⟨c, hc, hab.trans h⟩⟩
      simp [hab, hab.symm, hiff]
    · have hba : ¬ Equivalent b a := fun h => hab h.symm
      simp only [hab, hba, false_or]
      omega

/-- A key at the end adds a class if none of the others is equivalent to it. -/
theorem classes_concat (ks : List κ) (k : κ) :
    classes (ks ++ [k]) = classes ks + if ∃ k' ∈ ks, Equivalent k k' then 0 else 1 := by
  rw [classes_perm (List.perm_append_singleton k ks), classes_cons]

/-- Removing a whole class lowers the count by one. -/
theorem classes_filter (ks : List κ) (k : κ) :
    classes ks = classes (ks.filter fun k' => ¬ Equivalent k' k) +
      if ∃ k' ∈ ks, Equivalent k' k then 1 else 0 := by
  induction ks with
  | nil => simp
  | cons a l ih =>
    by_cases ha : Equivalent a k
    · have hiff : (∃ k' ∈ l, Equivalent a k') ↔ ∃ k' ∈ l, Equivalent k' k :=
        ⟨fun ⟨c, hc, h⟩ => ⟨c, hc, h.symm.trans ha⟩,
          fun ⟨c, hc, h⟩ => ⟨c, hc, ha.trans h.symm⟩⟩
      simp only [classes_cons, List.exists_mem_cons_iff, List.filter_cons, ha, hiff, true_or,
        not_true_eq_false, decide_false, Bool.false_eq_true, ↓reduceIte]
      split at ih <;> rename_i hex <;> simp only [hex, ↓reduceIte] <;> omega
    · have hiff : (∃ k' ∈ l, Equivalent a k') ↔
          ∃ k' ∈ l.filter (fun k' => ¬ Equivalent k' k), Equivalent a k' := by
        constructor
        · rintro ⟨c, hc, h⟩
          exact ⟨c, List.mem_filter.2 ⟨hc, by simpa using fun hck => ha (h.trans hck)⟩, h⟩
        · rintro ⟨c, hc, h⟩
          exact ⟨c, List.mem_of_mem_filter hc, h⟩
      simp only [classes_cons, List.exists_mem_cons_iff, List.filter_cons, ha, false_or,
        not_false_eq_true, decide_true, ↓reduceIte, hiff]
      omega

omit [IsStrictWeakOrder κ (· < ·)] in
/-- When equivalence is equality, the count is the size of the set of keys. -/
theorem classes_eq_card [DecidableEq κ] [IsStrictTotalOrder κ (· < ·)] (ks : List κ) :
    classes ks = ks.toFinset.card := by
  induction ks with
  | nil => rfl
  | cons k l ih =>
    rw [classes_cons, List.toFinset_cons, ih]
    by_cases hk : k ∈ l
    · simp [equiv_iff_eq, hk]
    · simp [equiv_iff_eq, hk, Finset.card_insert_of_notMem]

end Classes

end KeyOrder
