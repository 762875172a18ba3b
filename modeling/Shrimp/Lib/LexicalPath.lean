import Mathlib.Data.List.Infix

/-!
# Lexical paths

A path over any alphabet is cut at a separator. Its `components` are the pieces that are neither
empty nor a single dot, and `resolve` goes through them from left to right, where two dots lead back
over the component before. `resolve_append` is the rule for a path put behind a directory: without
two dots in a row the path only adds its own components.
-/

namespace LexicalPath

/-- What is put together with separators is part of the result. -/
theorem infix_intercalate {α : Type*} (s : List α) {c : List α} {cs : List (List α)} (h : c ∈ cs) :
    c <:+: s.intercalate cs := by
  induction cs with
  | nil => cases h
  | cons c' cs ih =>
    rcases eq_or_ne cs [] with rfl | hne
    · rw [List.mem_singleton.1 h]
      simp
    · rw [List.intercalate_cons_of_ne_nil hne]
      rcases List.mem_cons.1 h with rfl | hmem
      · exact (List.prefix_append c (s ++ s.intercalate cs)).isInfix.trans (by simp)
      · exact (ih hmem).trans (List.suffix_append _ _).isInfix

variable {α : Type*} [DecidableEq α]

/-- The components of a path, without empty ones and single dots. -/
def components (sep dot : α) (p : List α) : List (List α) :=
  (p.splitOn sep).filter fun c => c ≠ [] ∧ c ≠ [dot]

/-- One component further: two dots remove the component before. -/
def enter (dot : α) (dir : List (List α)) (c : List α) : List (List α) :=
  if c = [dot, dot] then dir.dropLast else dir ++ [c]

/-- The components that are left of a path. -/
def resolve (sep dot : α) (p : List α) : List (List α) :=
  (components sep dot p).foldl (enter dot) []

variable {sep dot : α} {p q : List α}

/-- A separator does not belong to either of the components around it. -/
theorem components_append_cons :
    components sep dot (p ++ sep :: q) = components sep dot p ++ components sep dot q := by
  unfold components
  rw [List.splitOn_append_cons_self, List.filter_append]

/-- A separator in front adds no component. -/
@[simp] theorem components_cons_sep : components sep dot (sep :: q) = components sep dot q := by
  have h : components sep dot ([] ++ sep :: q) = _ := components_append_cons
  simpa [components] using h

/-- The pieces between separators are parts of the path. -/
theorem infix_of_mem_splitOn {c : List α} (h : c ∈ p.splitOn sep) : c <:+: p := by
  have hinfix := infix_intercalate [sep] h
  rwa [List.intercalate_splitOn] at hinfix

/-- Components other than two dots are added one after another. -/
theorem foldl_enter {cs : List (List α)} (h : ∀ c ∈ cs, c ≠ [dot, dot]) (dir : List (List α)) :
    cs.foldl (enter dot) dir = dir ++ cs := by
  induction cs generalizing dir with
  | nil => simp
  | cons c cs ih =>
    have hc : enter dot dir c = dir ++ [c] := if_neg (h c List.mem_cons_self)
    rw [List.foldl_cons, hc, ih fun c' hc' => h c' (List.mem_cons_of_mem c hc')]
    simp

/-- A path without two dots in a row, put behind a directory, adds exactly its components. -/
theorem resolve_append (hdots : ¬ [dot, dot] <:+: q) :
    resolve sep dot (p ++ sep :: q) = resolve sep dot p ++ components sep dot q := by
  have hne : ∀ c ∈ components sep dot q, c ≠ [dot, dot] := by
    rintro c hc rfl
    exact hdots (infix_of_mem_splitOn (List.mem_of_mem_filter hc))
  unfold resolve
  rw [components_append_cons, List.foldl_append, foldl_enter hne]

end LexicalPath
