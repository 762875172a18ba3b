import Shrimp.Server.Accounts
import Shrimp.TransformManager.Progress

/-!
# The server comes to rest

Whatever state a run of the server reached, delivering the messages that are there, without any new
request, answers everyone: `server_comes_to_rest` counts four deliveries at most for a message in
the mailbox and those the manager is due to, after which nothing waits and every worker is free.
-/

namespace Shrimp

open Execution HttpServer

namespace Server

variable {Image : Type} {params : AppParams} {lib : Restinio} {clk : Clock} {workers : List Mbox}
  {s : Server}

/-- The world of a server whose parts fit together is in order, being reachable. -/
theorem Wired.inOrder (h : Wired params lib clk workers s) : s.world.InOrder workers := by
  obtain ⟨actions, hrun⟩ := h.world
  exact ⟨_, World.refines_of_run hrun, ListWorld.inOrder_foldl clk workers actions⟩

/-- The deliveries that are due for what was sent. -/
def backlog (s : Server) : Nat := 4 * s.mailbox.length + s.world.backlog

/-- The manager does something with a message in flight. -/
theorem backlog_lt_of_delivers (h : Wired params lib clk workers s) {a : World.Action}
    (hdelivers : s.world.env.delivers a = true) (hincome : a.income = 0) {world : World}
    (hstep : World.step clk s.world a = .ok world) : backlog { s with world } < s.backlog := by
  have hle := (h.inOrder.of_step hstep).2
  rw [hdelivers, hincome, Bool.toNat_true] at hle
  show 4 * s.mailbox.length + world.backlog < 4 * s.mailbox.length + s.world.backlog
  omega

/-- The message that waits longest reaches the manager. -/
theorem step_message (h : Wired params lib clk workers s) (envToken : Option CxxString)
    {msg : Message} {mailbox : List Message} (hmailbox : s.mailbox = msg :: mailbox) :
    ∃ s' : Server, step params lib clk s (.message envToken : Event Image) = .ok s' ∧
      s'.arrivals = s.arrivals ∧ s'.backlog < s.backlog := by
  obtain ⟨keepAlive, hreq⟩ := httpReq_head h hmailbox
  obtain ⟨hdeliver, -⟩ := deliver_eq_step clk envToken hreq
  obtain ⟨world, hstep, -, hle⟩ :=
    h.inOrder.step clk (msg.action envToken ⟨s.world.env.accepted, keepAlive⟩)
  refine ⟨{ s with world, mailbox }, ?_, rfl, ?_⟩
  · rw [step, hmailbox]
    simp only [hdeliver, hstep]
    rfl
  · have hincome : (msg.action envToken ⟨s.world.env.accepted, keepAlive⟩).income ≤ 3 := by
      cases msg <;> simp [Message.action, World.Action.income]
    show 4 * mailbox.length + world.backlog < 4 * s.mailbox.length + s.world.backlog
    rw [hmailbox, List.length_cons]
    omega

/-- The events that deliver the oldest message of a kind, or do the oldest job. -/
def deliveries (envToken : Option CxxString) (m : Magick Image) (e : FloatErrors)
    (t : Transformer.Timing) : List (Event Image) :=
  [.message envToken, .work 0 m e t, .resizeResult 0, .negativeDeleteCacheResponse 0]

/-- Nothing is under way. -/
def Silent (s : Server) : Prop := s.mailbox = [] ∧ s.world.Silent

/-- As long as something is under way it can be delivered, and less is left to do. -/
theorem exists_delivery (h : Wired params lib clk workers s) (envToken : Option CxxString)
    (m : Magick Image) (e : FloatErrors) (t : Transformer.Timing) :
    s.Silent ∨ ∃ event s', event ∈ deliveries envToken m e t ∧
      step params lib clk s event = .ok s' ∧ s'.arrivals = s.arrivals ∧ s'.backlog < s.backlog := by
  have hworld (a : World.Action) (hdelivers : s.world.env.delivers a = true)
      (hincome : a.income = 0) :
      ∃ s' : Server, (World.step clk s.world a >>= fun world => .ok { s with world }) = .ok s' ∧
        s'.arrivals = s.arrivals ∧ s'.backlog < s.backlog := by
    obtain ⟨world, hstep, -⟩ := h.inOrder.step clk a
    exact ⟨{ s with world }, by rw [hstep]; rfl, rfl,
      backlog_lt_of_delivers h hdelivers hincome hstep⟩
  cases hmailbox : s.mailbox with
  | cons msg mailbox =>
    obtain ⟨s', hs'⟩ := step_message h envToken hmailbox
    exact .inr ⟨.message envToken, s', by simp [deliveries], hs'⟩
  | nil =>
    cases hjobs : s.world.env.transformerRequests with
    | cons job jobs =>
      obtain ⟨s', hs'⟩ := hworld (.transform 0 (Transformer.handleResizeRequest m
        params.storage.rootDir e t job.key)) (by simp [Environment.delivers, hjobs]) rfl
      refine .inr ⟨.work 0 m e t, s', by simp [deliveries], ?_, hs'.2⟩
      rw [step, hjobs]
      exact hs'.1
    | nil =>
      cases hresults : s.world.env.resizeResults with
      | cons res results =>
        obtain ⟨s', hs'⟩ :=
          hworld (.resizeResult 0) (by simp [Environment.delivers, hresults]) rfl
        exact .inr ⟨.resizeResult 0, s', by simp [deliveries], hs'⟩
      | nil =>
        cases hnegative : s.world.env.negativeResponses with
        | cons resp responses =>
          obtain ⟨s', hs'⟩ := hworld (.negativeDeleteCacheResponse 0)
            (by simp [Environment.delivers, hnegative]) rfl
          exact .inr ⟨.negativeDeleteCacheResponse 0, s', by simp [deliveries], hs'⟩
        | nil => exact .inl ⟨hmailbox, hjobs, hresults, hnegative⟩

/-- Where nothing is under way, everyone who sent a message was answered. -/
theorem Wired.answered_of_silent (h : Wired params lib clk workers s) (hworkers : workers ≠ [])
    (hsilent : s.Silent) : World.AtRest workers s.world ∧ ∀ a ∈ s.arrivals, a.messages ≠ [] →
      (s.world.env.answered.map Prod.fst).count a.req.handle = 1 := by
  obtain ⟨actions, hrun⟩ := h.world
  have hrest := (World.refines_of_run hrun).atRest
    (ListWorld.inOrder_foldl clk workers actions) hworkers hsilent.2
  refine ⟨hrest, ?_⟩
  intro a ha hne
  obtain ⟨msg, hmsg⟩ := List.exists_mem_of_ne_nil _ hne
  obtain ⟨delivered, hsent, -, hreceived, hdeletes⟩ := h.mailbox
  rw [hsilent.1, List.append_nil] at hsent
  have hmem : msg ∈ delivered := hsent ▸ List.mem_flatMap.2 ⟨a, ha, hmsg⟩
  have hreq := h.httpReq_of_mem ha hmsg
  cases msg with
  | resizeRequest cmd =>
    refine hrest.requests a.req.handle cmd.requestKey ?_
    rw [hreceived]
    exact List.mem_filterMap.2 ⟨_, hmem, Option.map_eq_some_iff.2 ⟨_, hreq, rfl⟩⟩
  | deleteCacheRequest cmd =>
    refine hrest.deletes a.req.handle ?_
    rw [hdeletes]
    exact List.mem_filterMap.2 ⟨_, hmem, hreq⟩

/-- Some of the events `allowed`, no more than are due, answer every request that was sent to the
manager, once, and leave nothing waiting and all workers free. -/
def ComesToRest (params : AppParams) (lib : Restinio) (clk : Clock) (workers : List Mbox)
    (allowed : List (Event Image)) (s : Server) : Prop :=
  ∃ more s', (∀ event ∈ more, event ∈ allowed) ∧ more.length ≤ s.backlog ∧
    run (step params lib clk) s more = .ok s' ∧ s'.arrivals = s.arrivals ∧
    World.AtRest workers s'.world ∧ ∀ a ∈ s.arrivals, a.messages ≠ [] →
      (s'.world.env.answered.map Prod.fst).count a.req.handle = 1

/-- Delivering what is under way answers everyone, whatever the workers will make of their jobs. -/
theorem Wired.comesToRest (h : Wired params lib clk workers s) (hworkers : workers ≠ [])
    (envToken : Option CxxString) (m : Magick Image) (e : FloatErrors) (t : Transformer.Timing) :
    ComesToRest params lib clk workers (deliveries envToken m e t) s := by
  obtain ⟨more, s', hmore, hlength, hrun, ⟨h', harrivals⟩, hsilent⟩ := exists_run_of_variant
    (fun s' => Wired params lib clk workers s' ∧ s'.arrivals = s.arrivals) backlog
    (· ∈ deliveries envToken m e t) Silent
    (fun s₁ ⟨h₁, harrivals₁⟩ => by
      obtain hsilent | ⟨event, s₂, hevent, hstep, harrivals₂, hlt⟩ :=
        exists_delivery h₁ envToken m e t
      · exact .inl hsilent
      · obtain ⟨s₂', hstep', h₂, -⟩ := h₁.step event
        cases hstep.symm.trans hstep'
        exact .inr ⟨event, s₂, hevent, hstep, ⟨h₂, harrivals₂.trans harrivals₁⟩, hlt⟩)
    s.backlog s ⟨h, rfl⟩ le_rfl
  obtain ⟨hrest, hanswered⟩ := h'.answered_of_silent hworkers hsilent
  exact ⟨more, s', hmore, hlength, hrun, harrivals, hrest,
    fun a ha hne => hanswered a (harrivals ▸ ha) hne⟩

/-- From every state a run of the server reaches, whatever the workers will make of their jobs,
delivering what is under way answers everyone. -/
theorem server_comes_to_rest (params : AppParams) (lib : Restinio) (clk : Clock)
    (workers : List Mbox) (hworkers : workers ≠ []) (events : List (Event Image))
    (envToken : Option CxxString) (m : Magick Image) (e : FloatErrors) (t : Transformer.Timing) :
    ∃ s, run (step params lib clk) (init workers) events = .ok s ∧
      ComesToRest params lib clk workers (deliveries envToken m e t) s := by
  obtain ⟨s, hs, h⟩ := wired_of_events params lib clk workers events
  exact ⟨s, hs, h.comesToRest hworkers envToken m e t⟩

/-- A photo was asked for and nothing delivered yet. -/
theorem server_comes_to_rest_photo : ∃ s,
    run (step {} (.plain fun _ => none) fun n => n) (init [⟨1⟩])
      ([.httpGet true (cxxString "/photo.jpg") (cxxString "op=resize&max=100") (cxxString "jpg")
        ⟨cxxString "photo.jpg", by decide⟩ fun _ => none] : List (Event Geometry)) = .ok s ∧
    ComesToRest {} (.plain fun _ => none) (fun n => n) [⟨1⟩]
      (deliveries none (.ofSizes fun _ => some ⟨4000, 3000⟩) .exact ⟨7, 5, 0⟩) s :=
  server_comes_to_rest {} (.plain fun _ => none) (fun n => n) [⟨1⟩] (by decide) _ none
    (.ofSizes fun _ => some ⟨4000, 3000⟩) .exact ⟨7, 5, 0⟩

end Server

end Shrimp
