import Mathlib.Algebra.Notation.Lemmas
import Shrimp.TransformManager.Fairness
import Shrimp.TransformManager.LifeCycle
import Shrimp.TransformManager.Progress

/-!
# When an image is made again

A key gets a job when it comes into progress, and no other one before the result of the first was
lost: the transformation failed, or the image left the cache. `jobs_le_setbacks` bounds the jobs for
a key in any part of a run by these setbacks.
-/

namespace Shrimp

open Execution

namespace Stage

/-- One if a job for the key may begin without a setback. -/
def due : Stage → Nat
  | .absent | .pending => 1
  | .inprogress | .cached => 0

/-- One if the key lost its job or its image. -/
def setback : Stage → Stage → Nat
  | .inprogress, .absent | .cached, .absent => 1
  | _, _ => 0

/-- One if there is a job for the key. -/
def jobs : Stage → Nat
  | .inprogress => 1
  | _ => 0

end Stage

namespace ListWorld

variable {clk : Clock} {workers : List Mbox} {s : ListWorld} {k : ResizeRequestKey}

/-- One if the action brings the result of the key. -/
def brings (s : ListWorld) (k : ResizeRequestKey) : World.Action → Nat
  | .resizeResult i => if (s.env.resizeResults[i]?).any (·.key = k) then 1 else 0
  | _ => 0

/-- The jobs for a key that are no longer outstanding are `n` more. -/
def Finishes (k : ResizeRequestKey) (n : Nat) (env env' : Environment) : Prop :=
  env'.jobsFor k + env.outstanding.count k = env.jobsFor k + env'.outstanding.count k + n

/-- Where jobs and results stay as they are, no job ends. -/
theorem Finishes.same {env env' : Environment} (hproduced : env'.produced = env.produced)
    (hjobs : env'.transformerRequests = env.transformerRequests)
    (hresults : env'.resizeResults = env.resizeResults) : Finishes k 0 env env' := by
  rw [Finishes, Environment.jobsFor, Environment.jobsFor, Environment.jobKeys, Environment.jobKeys,
    Environment.outstanding, Environment.outstanding, hproduced, hjobs, hresults, Nat.add_zero]

/-- The jobs that end in two moves add up. -/
theorem Finishes.trans {env env' env'' : Environment} {m n : Nat} (h : Finishes k m env env')
    (h' : Finishes k n env' env'') : Finishes k (m + n) env env'' := by
  unfold Finishes at h h' ⊢
  omega

/-- A job that begins is outstanding. -/
theorem finishes_initiateNext (clk : Clock) (s : ListWorld) (k : ResizeRequestKey) :
    Finishes k 0 s.env (s.initiateNext clk).env := by
  obtain ⟨-, heq⟩ | ⟨worker, freeWorkers, e, pending, -, -, heq⟩ := initiateNext_cases clk s <;>
    rw [heq]
  · exact .same rfl rfl rfl
  · have hcount := (Environment.outstanding_sendJob (s.env.tick (ofKey e.key s.pending).length)
      worker e.key).count_eq k
    rw [List.count_cons] at hcount
    rw [Finishes, jobsFor_sendJob, hcount]
    simp only [beq_iff_eq]
    show s.env.jobsFor k + _ + s.env.outstanding.count k =
      s.env.jobsFor k + (s.env.outstanding.count k + _) + 0
    omega

/-- Dispatching ends no job. -/
theorem finishes_tryInitiate (clk : Clock) (s : ListWorld) (k : ResizeRequestKey) :
    Finishes k 0 s.env (s.tryInitiate clk).env :=
  Function.Iterate.rec (fun s' : ListWorld => Finishes k 0 s.env s'.env) (.same rfl rfl rfl)
    (fun s' h => h.trans (finishes_initiateNext clk s' k)) _

/-- The result that is delivered ends one job for its key, and none for others. -/
theorem finishes_onResizeResult (clk : Clock) {i : Nat} {cmd : ResizeResult}
    (hcmd : s.env.resizeResults[i]? = some cmd) (k : ResizeRequestKey) :
    Finishes k (if cmd.key = k then 1 else 0) s.env
      (ListWorld.onResizeResult clk { s with env := s.env.deliverResult i } cmd).env := by
  have hdeliver : Finishes k (if cmd.key = k then 1 else 0) s.env (s.env.deliverResult i) := by
    have hcount := (Environment.outstanding_deliverResult s.env hcmd).count_eq k
    rw [List.count_cons] at hcount
    simp only [beq_iff_eq] at hcount
    show s.env.jobsFor k + s.env.outstanding.count k =
      s.env.jobsFor k + (s.env.deliverResult i).outstanding.count k + _
    omega
  have htry := finishes_tryInitiate clk
    (pushFreeWorker { s with env := s.env.deliverResult i } cmd.worker) k
  refine Finishes.trans (n := 0) (hdeliver.trans htry) ?_
  cases hresult : cmd.result <;>
    simp only [ListWorld.onResizeResult, ListWorld.finish, hresult] <;> exact .same rfl rfl rfl

/-- A job ends when its result arrives, and no other time. -/
theorem finishes_next (clk : Clock) (s : ListWorld) (a : World.Action) (k : ResizeRequestKey) :
    Finishes k (s.brings k a) s.env (s.next clk a).env := by
  cases a with
  | resizeRequest keepAlive image targetFormat params =>
    rw [ListWorld.next]
    obtain ⟨e, -, -, heq⟩ | ⟨-, -, heq⟩ | ⟨-, -, -, heq⟩ | ⟨-, -, -, -, heq⟩ |
      ⟨-, -, -, -, heq⟩ := onResizeRequest_cases clk _ _ _ <;> rw [heq]
    case inr.inr.inr.inl => exact finishes_tryInitiate clk _ k
    all_goals exact .same rfl rfl rfl
  | deleteCacheRequest keepAlive token envToken =>
    rw [ListWorld.next]
    obtain ⟨-, heq⟩ | ⟨-, text, heq⟩ := onDeleteCacheRequest_cases _ envToken _ token <;> rw [heq]
    · exact .same rfl rfl rfl
    · exact .same rfl rfl rfl
  | transform i result =>
    rw [ListWorld.next]
    split
    case h_1 cmd hcmd =>
      rw [Finishes, Environment.jobsFor_transform s.env hcmd,
        (Environment.outstanding_transform s.env hcmd result).count_eq k]
      rfl
    case h_2 => exact .same rfl rfl rfl
  | resizeResult i =>
    rw [ListWorld.next, brings]
    cases hcmd : s.env.resizeResults[i]? with
    | some cmd =>
      simp only [Option.any_some, decide_eq_true_iff]
      exact finishes_onResizeResult clk hcmd k
    | none => exact .same rfl rfl rfl
  | negativeDeleteCacheResponse i =>
    rw [ListWorld.next]
    split <;> exact .same rfl rfl rfl
  | clearCache => exact .same rfl rfl rfl
  | checkPendingRequests => exact .same rfl rfl rfl

/-- A key has one job under way if it is in progress, and none otherwise. -/
theorem jobs_stage (hp : Protocol workers [] s) (k : ResizeRequestKey) :
    (s.stage k).jobs = s.env.outstanding.count k := by
  have hnodup := hp.outstanding
  rw [List.append_nil] at hnodup
  by_cases hin : k ∈ keys s.inprogress
  · have hmem := (hp.inprogress k).1 hin
    rw [List.append_nil] at hmem
    rw [hp.stage_inprogress hin, List.count_eq_one_of_mem hnodup hmem]
    rfl
  · have hmem : k ∉ s.env.outstanding := fun h =>
      hin ((hp.inprogress k).2 (List.mem_append_left _ h))
    rw [List.count_eq_zero_of_not_mem hmem, stage, if_neg hin]
    split
    · rfl
    · split <;> rfl

/-- An action brings one result for a key at most. -/
theorem brings_le_one (s : ListWorld) (k : ResizeRequestKey) (a : World.Action) :
    s.brings k a ≤ 1 := by
  cases a with
  | resizeResult i => exact ite_le_one le_rfl zero_le_one
  | _ => exact zero_le_one

/-- A key whose result is brought has a job before and none afterwards. -/
theorem jobs_of_brings (clk : Clock) (hs : s.InOrder workers) {a : World.Action}
    (hbrings : s.brings k a ≠ 0) :
    (s.stage k).jobs = 1 ∧ ((s.next clk a).stage k).jobs = 0 := by
  cases a with
  | resizeResult i =>
    rw [brings] at hbrings
    cases hcmd : s.env.resizeResults[i]? with
    | none => simp [hcmd] at hbrings
    | some cmd =>
      obtain rfl : cmd.key = k := by
        by_contra hne
        simp [hcmd, hne] at hbrings
      have hs' : (s.next clk (.resizeResult i)).InOrder workers := hs.next _
      have hwaits : ¬ (cmd.key ∈ keys (s.next clk (.resizeResult i)).inprogress ∨
          cmd.key ∈ keys (s.next clk (.resizeResult i)).pending) := by
        rw [← waiting_ne_nil, waiting_onResizeResult hs hcmd]
        exact not_not.2 rfl
      have hout := (Environment.outstanding_deliverResult s.env hcmd).count_eq cmd.key
      rw [List.count_cons_self] at hout
      have hone := jobs_stage hs.protocol cmd.key
      have hle : s.env.outstanding.count cmd.key ≤ 1 := by
        have hnodup := hs.protocol.outstanding
        rw [List.append_nil] at hnodup
        exact List.nodup_iff_count_le_one.1 hnodup cmd.key
      refine ⟨by omega, ?_⟩
      rw [stage, if_neg fun hin => hwaits (.inl hin)]
      split
      · rfl
      · split <;> rfl
  | _ => exact absurd rfl hbrings

/-- A job begins, or may begin, only if one was due or after a setback. -/
theorem jobsFor_next (clk : Clock) (hs : s.InOrder workers) (a : World.Action)
    (k : ResizeRequestKey) :
    (s.next clk a).env.jobsFor k + ((s.next clk a).stage k).due ≤
      s.env.jobsFor k + (s.stage k).due + (s.stage k).setback ((s.next clk a).stage k) := by
  have hfinishes : Finishes k (s.brings k a) s.env (s.next clk a).env := finishes_next clk s a k
  have hs' : (s.next clk a).InOrder workers := hs.next a
  rw [Finishes, ← jobs_stage hs.protocol, ← jobs_stage hs'.protocol] at hfinishes
  have hbrings : s.brings k a ≠ 0 → (s.stage k).jobs = 1 ∧ ((s.next clk a).stage k).jobs = 0 :=
    jobs_of_brings clk hs
  have hone : s.brings k a ≤ 1 := brings_le_one s k a
  have hmoves := keyMoves_next clk hs a k
  generalize hstage : s.stage k = stage at hfinishes hbrings hmoves ⊢
  generalize hstage' : (s.next clk a).stage k = stage' at hfinishes hbrings hmoves ⊢
  cases hmoves with
  | stay =>
    cases stage <;> simp [Stage.jobs, Stage.due, Stage.setback] at hfinishes hbrings ⊢ <;> omega
  | _ =>
    simp [Stage.jobs, Stage.due, Stage.setback] at hfinishes hbrings ⊢
    omega

end ListWorld

namespace World

variable {clk : Clock} {workers : List Mbox} {w w' : World}

/-- One if the action takes the job or the image from the key. -/
def setback (clk : Clock) (k : ResizeRequestKey) (w : World) (a : Action) : Nat :=
  match step clk w a with
  | .ok w' => (w.stage k).setback (w'.stage k)
  | .error _ => 0

/-- In a step the jobs for a key, with the one that is due, grow by its setbacks at most. -/
theorem InOrder.jobsFor_step {a : Action} (hw : w.InOrder workers) (k : ResizeRequestKey)
    (hstep : World.step clk w a = .ok w') :
    w'.env.jobsFor k + (w'.stage k).due ≤
      w.env.jobsFor k + (w.stage k).due + setback clk k w a := by
  obtain ⟨s, h, hs⟩ := hw
  obtain ⟨w'', hw'', h'⟩ := step_refines clk h hs.protocol a
  cases hstep.symm.trans hw''
  simp only [setback, hstep]
  rw [h.stage, h'.stage, h.env, h'.env]
  exact ListWorld.jobsFor_next clk hs a k

/-- In any part of any run a key gets no more jobs than one that was due and one for each time it
lost its job or its image. -/
theorem jobs_le_setbacks (clk : Clock) (workers : List Mbox) (before actions : List Action) :
    ∃ w w', run (step clk) (init workers) before = .ok w ∧ run (step clk) w actions = .ok w' ∧
      ∀ k, w'.env.jobsFor k + (w'.stage k).due ≤
        w.env.jobsFor k + (w.stage k).due + total (step clk) (setback clk k) w actions := by
  obtain ⟨w', hw', -⟩ := run_refines clk workers (before ++ actions)
  rw [run_append, bind_eq_ok] at hw'
  obtain ⟨w, hw, hrun⟩ := hw'
  refine ⟨w, w', hw, hrun, fun k => ?_⟩
  have hin : w.InOrder workers :=
    ⟨_, refines_of_run hw, ListWorld.inOrder_foldl clk workers before⟩
  have hle : w'.env.jobsFor k + (w'.stage k).due + total (step clk) (fun _ _ => 0) w actions ≤
      w.env.jobsFor k + (w.stage k).due + total (step clk) (setback clk k) w actions :=
    potential_add_total_le (InOrder workers) (fun w => w.env.jobsFor k + (w.stage k).due)
      (fun w a w' hin hstep => ⟨(hin.of_step hstep).1, hin.jobsFor_step k hstep⟩) hin hrun
  exact (Nat.le_add_right _ _).trans hle

end World

end Shrimp
