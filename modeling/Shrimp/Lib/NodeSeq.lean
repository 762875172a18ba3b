import Mathlib.Data.List.Basic
import Mathlib.Data.List.Nodup

/-!
# Sequences of nodes with stable addresses

The node-based standard containers keep every element in a node of its own, and an iterator is the
address of a node: it stays valid while other nodes come and go. A container is here the sequence of
its nodes in iteration order, and an iterator that denotes no node of the sequence cannot be used
(the operations return `none`). The rules below are for sequences whose addresses are distinct.
-/

/-- The address of a node. -/
abbrev Addr := Nat

/-- A node of a node-based container. -/
structure Node (α : Type*) where
  addr : Addr
  val : α
deriving DecidableEq, Repr

namespace NodeSeq

variable {α : Type*}

/-- The addresses of a sequence of nodes. -/
def addrs (l : List (Node α)) : List Addr := l.map Node.addr

/-- What the iterator `a` points to. -/
def deref (l : List (Node α)) (a : Addr) : Option α := (l.find? (·.addr = a)).map Node.val

/-- The sequence without the node at `a`. -/
def without (l : List (Node α)) (a : Addr) : List (Node α) := l.filter (·.addr ≠ a)

/-- Removes the node at `a`. -/
def erase (l : List (Node α)) (a : Addr) : Option (List (Node α)) :=
  if a ∈ addrs l then some (without l a) else none

/-- Overwrites the contents of the node at `a`. -/
def modify (l : List (Node α)) (a : Addr) (f : α → α) : Option (List (Node α)) :=
  if a ∈ addrs l then some (l.map fun n => if n.addr = a then ⟨n.addr, f n.val⟩ else n) else none

/-- Moves the node at `a` to the end of its sequence. -/
def moveToEnd (l : List (Node α)) (a : Addr) : Option (List (Node α)) :=
  (l.find? (·.addr = a)).map fun n => without l a ++ [n]

/-- The node before the one at `a`, if that is not the first one. -/
def prev (l : List (Node α)) (a : Addr) : Option (Node α) := (l.takeWhile (·.addr ≠ a)).getLast?

/-- The node behind the one at `a`, if that is not the last one. -/
def next (l : List (Node α)) (a : Addr) : Option (Node α) := (l.dropWhile (·.addr ≠ a)).tail.head?

@[simp] theorem addrs_cons (n : Node α) (l : List (Node α)) : addrs (n :: l) = n.addr :: addrs l :=
  rfl
@[simp] theorem addrs_append (l l' : List (Node α)) : addrs (l ++ l') = addrs l ++ addrs l' :=
  List.map_append

/-- The address of a node is among the addresses. -/
theorem mem_addrs_of_mem {l : List (Node α)} {n : Node α} (h : n ∈ l) : n.addr ∈ addrs l :=
  List.mem_map_of_mem h

/-- Among distinct addresses a node is determined by its own. -/
theorem eq_of_addr {l : List (Node α)} (hl : (addrs l).Nodup) {m n : Node α} (hm : m ∈ l)
    (hn : n ∈ l) (h : m.addr = n.addr) : m = n := List.inj_on_of_nodup_map hl hm hn h

/-- Where addresses differ, a node is found by its own. -/
theorem find_of_mem {l : List (Node α)} (hl : (addrs l).Nodup) {n : Node α} (hn : n ∈ l) :
    l.find? (·.addr = n.addr) = some n := by
  cases hf : l.find? (fun m => m.addr = n.addr) with
  | none => exact absurd (List.find?_eq_none.1 hf n hn) (by simp)
  | some m =>
    have hm : m.addr = n.addr := by simpa using List.find?_some hf
    rw [eq_of_addr hl (List.mem_of_find?_eq_some hf) hn hm]

/-- Where addresses differ, that of a node leads to its value. -/
theorem deref_of_mem {l : List (Node α)} (hl : (addrs l).Nodup) {n : Node α} (hn : n ∈ l) :
    deref l n.addr = some n.val := by
  rw [deref, find_of_mem hl hn]; rfl

/-- An address that no node has leads nowhere. -/
theorem deref_of_notMem {l : List (Node α)} {a : Addr} (ha : a ∉ addrs l) : deref l a = none := by
  rw [deref, Option.map_eq_none_iff, List.find?_eq_none]
  intro n hn
  rw [decide_eq_true_eq]
  exact fun heq => ha (heq ▸ mem_addrs_of_mem hn)

/-- A node that is there can be erased. -/
theorem erase_of_mem {l : List (Node α)} {n : Node α} (hn : n ∈ l) :
    erase l n.addr = some (without l n.addr) := if_pos (mem_addrs_of_mem hn)

section Split
variable {l₁ l₂ : List (Node α)} {n : Node α} (h : (addrs (l₁ ++ n :: l₂)).Nodup)
include h

/-- The nodes in front of a node have other addresses. -/
theorem ne_of_mem_left {m : Node α} (hm : m ∈ l₁) : m.addr ≠ n.addr := by
  rw [addrs_append, addrs_cons, List.nodup_append] at h
  exact h.2.2 _ (mem_addrs_of_mem hm) _ (by simp)

/-- The nodes behind a node have other addresses. -/
theorem ne_of_mem_right {m : Node α} (hm : m ∈ l₂) : m.addr ≠ n.addr := by
  rw [addrs_append, addrs_cons, List.nodup_append] at h
  exact fun he => (List.nodup_cons.1 h.2.1).1 (he ▸ mem_addrs_of_mem hm)

/-- The node before `n` ends what precedes `n`. -/
theorem prev_split : prev (l₁ ++ n :: l₂) n.addr = l₁.getLast? := by
  have hall : ∀ m ∈ l₁, (decide (m.addr ≠ n.addr)) = true := fun m hm =>
    decide_eq_true (ne_of_mem_left h hm)
  rw [prev, List.takeWhile_append_of_pos hall]
  simp

/-- The node behind `n` begins what follows `n`. -/
theorem next_split : next (l₁ ++ n :: l₂) n.addr = l₂.head? := by
  have hall : ∀ m ∈ l₁, (decide (m.addr ≠ n.addr)) = true := fun m hm =>
    decide_eq_true (ne_of_mem_left h hm)
  rw [next, List.dropWhile_append_of_pos hall]
  simp

/-- Removing `n` leaves what precedes and what follows it. -/
theorem without_split : without (l₁ ++ n :: l₂) n.addr = l₁ ++ l₂ := by
  have hl : l₁.filter (·.addr ≠ n.addr) = l₁ :=
    List.filter_eq_self.2 fun m hm => decide_eq_true (ne_of_mem_left h hm)
  have hr : l₂.filter (·.addr ≠ n.addr) = l₂ :=
    List.filter_eq_self.2 fun m hm => decide_eq_true (ne_of_mem_right h hm)
  rw [without, List.filter_append, List.filter_cons_of_neg (by simp), hl, hr]

/-- Overwriting `n` keeps what precedes and what follows it. -/
theorem modify_split (f : α → α) :
    modify (l₁ ++ n :: l₂) n.addr f = some (l₁ ++ ⟨n.addr, f n.val⟩ :: l₂) := by
  have hkeep : ∀ l : List (Node α), (∀ m ∈ l, m.addr ≠ n.addr) →
      (l.map fun m => if m.addr = n.addr then ⟨m.addr, f m.val⟩ else m) = l := fun l hl =>
    (List.map_congr_left fun m hm => if_neg (hl m hm)).trans (List.map_id' l)
  rw [modify, if_pos (mem_addrs_of_mem (by simp)), List.map_append, List.map_cons, if_pos rfl,
    hkeep l₁ fun m hm => ne_of_mem_left h hm, hkeep l₂ fun m hm => ne_of_mem_right h hm]

/-- Moving `n` to the end closes the gap it leaves. -/
theorem moveToEnd_split : moveToEnd (l₁ ++ n :: l₂) n.addr = some (l₁ ++ l₂ ++ [n]) := by
  rw [moveToEnd, find_of_mem h (by simp), Option.map_some, without_split h]

end Split

end NodeSeq
