import Mathlib.Data.Int.ConditionallyCompleteOrder
import Mathlib.Order.ConditionallyCompleteLattice.Basic
import Shrimp.TransformManager.Safety

/-!
# Times of the entries, and the sweeps that rely on them

Both sweeps stop at the first entry that is young enough. This is right as long as the entries are
in the order of their times, which `Chronology` says and every action keeps while the readings of
the clock do not decrease. `QueuedAt` and `LastAccess` say what the time of an entry is in terms of
the run: when its request was queued, and when its image was stored or last found in the cache.
-/

namespace Shrimp

open Execution

/-- Where an entry that satisfies `p` only has such entries in front, those are taken. -/
theorem takeWhile_eq_filter {α : Type} {p : α → Bool} {l : List α}
    (h : l.Pairwise fun a b => p b → p a) : l.takeWhile p = l.filter p := by
  induction l with
  | nil => rfl
  | cons a l ih =>
    obtain ⟨ha, hl⟩ := List.pairwise_cons.1 h
    by_cases hpa : p a
    · rw [List.takeWhile_cons_of_pos hpa, List.filter_cons_of_pos hpa, ih hl]
    · have hnone : l.filter p = [] := List.filter_eq_nil_iff.2 fun b hb hpb => hpa (ha b hb hpb)
      rw [List.takeWhile_cons_of_neg hpa, List.filter_cons_of_neg hpa, hnone]

/-- Where an entry that satisfies `p` only has such entries in front, the others are left. -/
theorem dropWhile_eq_filter {α : Type} {p : α → Bool} {l : List α}
    (h : l.Pairwise fun a b => p b → p a) : l.dropWhile p = l.filter fun a => !p a := by
  induction l with
  | nil => rfl
  | cons a l ih =>
    obtain ⟨ha, hl⟩ := List.pairwise_cons.1 h
    by_cases hpa : p a
    · rw [List.dropWhile_cons_of_pos hpa, List.filter_cons_of_neg (by simp [hpa]), ih hl]
    · have hall : ∀ b ∈ a :: l, (!p b) = true := by
        intro b hb
        rcases List.mem_cons.1 hb with rfl | hb
        · simpa using hpa
        · simpa using fun hpb => hpa (ha b hb hpb)
      rw [List.dropWhile_cons_of_neg hpa, List.filter_eq_self.2 hall]

/-- In the order of the times the expired entries are in front. -/
theorem expired_pairwise {V : Type} {l : List (Entry ResizeRequestKey V)}
    (h : l.Pairwise fun a b => a.time ≤ b.time) (timeBorder : TimePoint) :
    l.Pairwise fun a b => expired timeBorder b → expired timeBorder a := by
  refine h.imp ?_
  intro a b hab hb
  rw [expired, decide_eq_true_iff] at hb ⊢
  exact hab.trans_lt hb

namespace ListWorld

variable {clk : Clock} {workers : List Mbox} {s s' : ListWorld}

/-! ## The order of the entries -/

/-- The cached images and the pending requests are in the order of their times. -/
structure Chronology (clk : Clock) (s : ListWorld) : Prop where
  cache : RecencyList.Chronological s.cache (clk s.env.reads)
  pending : RecencyList.Chronological s.pending (clk s.env.reads)

/-- The pending requests are in the order in which they arrived. -/
structure Arrivals (s : ListWorld) : Prop where
  pending : s.pending.Pairwise fun a b => a.value.id < b.value.id
  accepted : ∀ e ∈ s.pending, e.value.id < s.env.accepted

/-- A part of a list is in order of time as well, also as seen from a later time. -/
theorem chronological_mono {V : Type} {l l' : RecencyList ResizeRequestKey V} {t t' : TimePoint}
    (h : l.Chronological t) (hl : l'.Sublist l) (ht : t ≤ t') : l'.Chronological t' :=
  ⟨h.1.sublist hl, fun e he => (h.2 e (hl.subset he)).trans ht⟩

/-- Dropping entries is harmless, and so is reading the clock. -/
theorem Chronology.mono (hclock : Monotone clk) (h : Chronology clk s)
    (hcache : s'.cache.Sublist s.cache) (hpending : s'.pending.Sublist s.pending)
    (hreads : s.env.reads ≤ s'.env.reads) : Chronology clk s' :=
  ⟨chronological_mono h.cache hcache (hclock hreads),
    chronological_mono h.pending hpending (hclock hreads)⟩

/-- Fewer pending requests are in the order of their arrival as well. -/
theorem Arrivals.mono (h : Arrivals s) (hpending : s'.pending.Sublist s.pending)
    (haccepted : s.env.accepted ≤ s'.env.accepted) : Arrivals s' :=
  ⟨h.pending.sublist hpending,
    fun e he => (h.accepted e (hpending.subset he)).trans_le haccepted⟩

/-- What dispatching does to the pending requests and to the clock. -/
theorem sublist_tryInitiate (clk : Clock) (s : ListWorld) :
    (s.tryInitiate clk).pending.Sublist s.pending ∧
      s.env.reads ≤ (s.tryInitiate clk).env.reads := by
  refine Function.Iterate.rec
    (fun s' : ListWorld => s'.pending.Sublist s.pending ∧ s.env.reads ≤ s'.env.reads)
    ⟨List.Sublist.refl _, le_rfl⟩ ?_ _
  rintro s' ⟨hpending, hreads⟩
  obtain ⟨-, heq⟩ | ⟨worker, freeWorkers, e, pending, -, -, heq⟩ := initiateNext_cases clk s' <;>
    rw [heq]
  · exact ⟨hpending, hreads⟩
  · exact ⟨List.filter_sublist.trans hpending, hreads.trans (Nat.le_add_right _ _)⟩

/-- Dispatching only takes requests out of the pending ones and turns no clock back. -/
theorem Chronology.tryInitiate (hclock : Monotone clk) (h : Chronology clk s) :
    Chronology clk (s.tryInitiate clk) := by
  obtain ⟨hpending, hreads⟩ := sublist_tryInitiate clk s
  refine h.mono hclock ?_ hpending hreads
  rw [(dispatched_tryInitiate clk s).cache]

/-- Dispatching only takes requests out of the pending ones. -/
theorem Arrivals.tryInitiate (clk : Clock) (h : Arrivals s) : Arrivals (s.tryInitiate clk) := by
  refine h.mono (sublist_tryInitiate clk s).1 ?_
  rw [(dispatched_tryInitiate clk s).env]
  exact le_rfl

/-- A new pending request has the time that was read last, and comes last. -/
theorem Chronology.joinPending (hclock : Monotone clk) (h : Chronology clk s) (req : RequestHandle)
    (key : ResizeRequestKey) : Chronology clk (s.joinPending clk req key) := by
  have hnow := hclock (Nat.le_succ s.env.reads)
  have hpush := h.pending.push (List.Sublist.refl s.pending) le_rfl
    (e := ⟨key, req, clk s.env.reads⟩) rfl
  exact ⟨chronological_mono h.cache (List.Sublist.refl _) hnow,
    chronological_mono hpush (List.Sublist.refl _) hnow⟩

/-- Wherever a request for an image goes, it comes last there and has the latest time. -/
theorem Chronology.onResizeRequest (hclock : Monotone clk) (h : Chronology clk s)
    (req : RequestHandle) (key : ResizeRequestKey) :
    Chronology clk (s.onResizeRequest clk req key) := by
  have hnow := hclock (Nat.le_succ s.env.reads)
  obtain ⟨e, he, -, heq⟩ | ⟨-, -, heq⟩ | ⟨-, -, -, heq⟩ | ⟨-, -, -, -, heq⟩ |
    ⟨-, -, -, -, heq⟩ := onResizeRequest_cases clk s req key <;> rw [heq]
  · have hpush := h.cache.push
      (show (exceptKey e.key s.cache).Sublist s.cache from List.filter_sublist) le_rfl
      (e := { e with time := clk s.env.reads }) rfl
    exact ⟨chronological_mono hpush (List.Sublist.refl _) hnow,
      chronological_mono h.pending (List.Sublist.refl _) hnow⟩
  · exact h.mono hclock (List.Sublist.refl _) (List.Sublist.refl _) (Nat.le_succ _)
  · exact h.joinPending hclock req key
  · exact (h.joinPending hclock req key).tryInitiate hclock
  · exact h.mono hclock (List.Sublist.refl _) (List.Sublist.refl _) le_rfl

/-- An image that is stored comes last and has the latest time; eviction keeps a part of the list.
-/
theorem Chronology.finish (hclock : Monotone clk) (h : Chronology clk s) (cmd : ResizeResult)
    (requests : RequestList) :
    Chronology clk ((s.extract cmd.key).finish clk cmd requests) := by
  have hnow := hclock (Nat.le_succ s.env.reads)
  cases hresult : cmd.result with
  | failed result =>
    simp only [ListWorld.finish, hresult]
    exact h.mono hclock (List.Sublist.refl _) (List.Sublist.refl _) le_rfl
  | successful result =>
    simp only [ListWorld.finish, hresult]
    have hpush := h.cache.push (List.Sublist.refl s.cache) le_rfl
      (e := ⟨cmd.key, result.imageBlob, clk s.env.reads⟩) rfl
    exact ⟨chronological_mono hpush (evict_suffix _ _).sublist hnow,
      chronological_mono h.pending (List.Sublist.refl _) hnow⟩

/-- Every action keeps the entries in the order of their times. -/
theorem Chronology.next (hclock : Monotone clk) (h : Chronology clk s) (a : World.Action) :
    Chronology clk (s.next clk a) := by
  cases a with
  | resizeRequest keepAlive image targetFormat params =>
    exact Chronology.onResizeRequest (s := { s with env := s.env.receive _ _ }) hclock
      ⟨h.cache, h.pending⟩ _ _
  | deleteCacheRequest keepAlive token envToken =>
    rw [ListWorld.next]
    obtain ⟨-, heq⟩ | ⟨-, text, heq⟩ := onDeleteCacheRequest_cases _ envToken _ token <;> rw [heq]
    · exact h.mono hclock (List.nil_sublist _) (List.Sublist.refl _) le_rfl
    · exact ⟨h.cache, h.pending⟩
  | transform i result => rw [ListWorld.next]; split <;> exact ⟨h.cache, h.pending⟩
  | resizeResult i =>
    rw [ListWorld.next]
    split
    case h_1 cmd hcmd =>
      exact (Chronology.tryInitiate hclock
        (s := pushFreeWorker { s with env := s.env.deliverResult i } cmd.worker)
        ⟨h.cache, h.pending⟩).finish hclock cmd _
    case h_2 => exact h
  | negativeDeleteCacheResponse i =>
    rw [ListWorld.next]
    split <;> exact ⟨h.cache, h.pending⟩
  | clearCache =>
    exact h.mono hclock (List.dropWhile_sublist _) (List.Sublist.refl _) (Nat.le_succ _)
  | checkPendingRequests =>
    exact h.mono hclock (List.Sublist.refl _) (List.dropWhile_sublist _) (Nat.le_succ _)

/-- In every run of a clock that never runs backwards the cache and the pending requests are in
order of time. -/
theorem chronology_foldl (hclock : Monotone clk) (workers : List Mbox)
    (actions : List World.Action) : Chronology clk (actions.foldl (next clk) (init workers)) :=
  foldl_invariant (Chronology clk) (fun _ a h => h.next hclock a) actions _
    ⟨⟨.nil, fun _ he => absurd he List.not_mem_nil⟩, ⟨.nil, fun _ he => absurd he List.not_mem_nil⟩⟩

/-- A request that arrived after all others comes behind them. -/
theorem Arrivals.joinPending (clk : Clock) (h : Arrivals s) {req : RequestHandle}
    (key : ResizeRequestKey) (hnew : ∀ e ∈ s.pending, e.value.id < req.id)
    (haccepted : req.id < s.env.accepted) : Arrivals (s.joinPending clk req key) := by
  refine ⟨List.pairwise_append.2 ⟨h.pending, List.pairwise_singleton _ _, ?_⟩, ?_⟩
  · intro e he d hd
    cases List.mem_singleton.1 hd
    exact hnew e he
  · intro e he
    rcases List.mem_append.1 he with he | he
    · exact h.accepted e he
    · cases List.mem_singleton.1 he
      exact haccepted

/-- A request for an image that arrived after all others comes behind them, if it is to wait for a
worker. -/
theorem Arrivals.onResizeRequest (clk : Clock) (h : Arrivals s) {req : RequestHandle}
    (key : ResizeRequestKey) (hnew : ∀ e ∈ s.pending, e.value.id < req.id)
    (haccepted : req.id < s.env.accepted) : Arrivals (s.onResizeRequest clk req key) := by
  obtain ⟨e, he, -, heq⟩ | ⟨-, -, heq⟩ | ⟨-, -, -, heq⟩ | ⟨-, -, -, -, heq⟩ |
    ⟨-, -, -, -, heq⟩ := onResizeRequest_cases clk s req key <;> rw [heq]
  · exact ⟨h.pending, h.accepted⟩
  · exact ⟨h.pending, h.accepted⟩
  · exact h.joinPending clk key hnew haccepted
  · exact (h.joinPending clk key hnew haccepted).tryInitiate clk
  · exact ⟨h.pending, h.accepted⟩

/-- Every action keeps the pending requests in the order in which they arrived. -/
theorem Arrivals.next (clk : Clock) (h : Arrivals s) (a : World.Action) :
    Arrivals (s.next clk a) := by
  cases a with
  | resizeRequest keepAlive image targetFormat params =>
    have haccepted : s.env.accepted <
        (s.env.receive ⟨s.env.accepted, keepAlive⟩ ⟨image, targetFormat, params⟩).accepted := by
      simp only [Environment.accepted, Environment.receive, List.length_append,
        List.length_singleton]
      omega
    exact Arrivals.onResizeRequest (s := { s with env := s.env.receive _ _ }) clk
      ⟨h.pending, fun e he => (h.accepted e he).trans haccepted⟩ _ h.accepted haccepted
  | deleteCacheRequest keepAlive token envToken =>
    have haccepted : s.env.accepted ≤
        (s.env.receiveDelete ⟨s.env.accepted, keepAlive⟩).accepted := by
      simp only [Environment.accepted, Environment.receiveDelete, List.length_append,
        List.length_singleton]
      omega
    rw [ListWorld.next]
    obtain ⟨-, heq⟩ | ⟨-, text, heq⟩ := onDeleteCacheRequest_cases _ envToken _ token <;> rw [heq]
    · exact h.mono (List.Sublist.refl _) haccepted
    · exact h.mono (List.Sublist.refl _) haccepted
  | transform i result => rw [ListWorld.next]; split <;> exact ⟨h.pending, h.accepted⟩
  | resizeResult i =>
    rw [ListWorld.next]
    split
    case h_1 cmd hcmd =>
      have h' := Arrivals.tryInitiate clk
        (s := pushFreeWorker { s with env := s.env.deliverResult i } cmd.worker)
        ⟨h.pending, h.accepted⟩
      cases hresult : cmd.result <;>
        simp only [ListWorld.onResizeResult, ListWorld.finish, hresult] <;>
        exact ⟨h'.pending, h'.accepted⟩
    case h_2 => exact h
  | negativeDeleteCacheResponse i =>
    rw [ListWorld.next]
    split <;> exact ⟨h.pending, h.accepted⟩
  | clearCache => exact ⟨h.pending, h.accepted⟩
  | checkPendingRequests => exact h.mono (List.dropWhile_sublist _) le_rfl

/-- In every run the pending requests are in the order of their arrival. -/
theorem arrivals_foldl (clk : Clock) (workers : List Mbox) (actions : List World.Action) :
    Arrivals (actions.foldl (next clk) (init workers)) :=
  foldl_invariant Arrivals (fun _ a h => h.next clk a) actions _
    ⟨.nil, fun _ he => absurd he List.not_mem_nil⟩

/-! ## Where entries come from -/

/-- What is pending after dispatching was pending before. -/
theorem mem_pending_tryInitiate (clk : Clock) {e : Entry ResizeRequestKey RequestHandle}
    (he : e ∈ (s.tryInitiate clk).pending) : e ∈ s.pending :=
  (sublist_tryInitiate clk s).1.subset he

/-- A pending request was pending before, or it just arrived. -/
theorem mem_pending_next (clk : Clock) (s : ListWorld) (a : World.Action)
    {e : Entry ResizeRequestKey RequestHandle} (he : e ∈ (s.next clk a).pending) :
    e ∈ s.pending ∨ ∃ keepAlive image targetFormat params,
      a = .resizeRequest keepAlive image targetFormat params ∧
      e = ⟨⟨image, targetFormat, params⟩, ⟨s.env.accepted, keepAlive⟩, clk s.env.reads⟩ := by
  cases a with
  | resizeRequest keepAlive image targetFormat params =>
    have hjoined : ∀ e ∈ (ListWorld.joinPending clk { s with
        env := s.env.receive ⟨s.env.accepted, keepAlive⟩ ⟨image, targetFormat, params⟩ }
        ⟨s.env.accepted, keepAlive⟩ ⟨image, targetFormat, params⟩).pending,
        e ∈ s.pending ∨ e = ⟨⟨image, targetFormat, params⟩, ⟨s.env.accepted, keepAlive⟩,
          clk s.env.reads⟩ := by
      intro e he
      exact (List.mem_append.1 he).imp_right List.mem_singleton.1
    rw [ListWorld.next] at he
    obtain ⟨e, -, -, heq⟩ | ⟨-, -, heq⟩ | ⟨-, -, -, heq⟩ | ⟨-, -, -, -, heq⟩ |
      ⟨-, -, -, -, heq⟩ := onResizeRequest_cases clk { s with
        env := s.env.receive ⟨s.env.accepted, keepAlive⟩ ⟨image, targetFormat, params⟩ }
        ⟨s.env.accepted, keepAlive⟩ ⟨image, targetFormat, params⟩ <;> rw [heq] at he
    · exact .inl he
    · exact .inl he
    · exact (hjoined e he).imp_right fun heq => ⟨_, _, _, _, rfl, heq⟩
    · exact (hjoined e (mem_pending_tryInitiate clk he)).imp_right fun heq => ⟨_, _, _, _, rfl, heq⟩
    · exact .inl he
  | deleteCacheRequest keepAlive token envToken =>
    refine .inl ?_
    rw [ListWorld.next] at he
    obtain ⟨-, heq⟩ | ⟨-, text, heq⟩ := onDeleteCacheRequest_cases _ envToken _ token <;>
      rw [heq] at he
    · exact he
    · exact he
  | transform i result => rw [ListWorld.next] at he; split at he <;> exact .inl he
  | resizeResult i =>
    refine .inl ?_
    rw [ListWorld.next] at he
    split at he
    case h_1 cmd hcmd =>
      refine mem_pending_tryInitiate clk
        (s := pushFreeWorker { s with env := s.env.deliverResult i } cmd.worker) ?_
      cases hresult : cmd.result <;>
        simp only [ListWorld.onResizeResult, ListWorld.finish, hresult] at he <;> exact he
    case h_2 => exact he
  | negativeDeleteCacheResponse i => rw [ListWorld.next] at he; split at he <;> exact .inl he
  | clearCache => exact .inl he
  | checkPendingRequests => exact .inl ((List.dropWhile_sublist _).subset he)

end ListWorld

end Shrimp
