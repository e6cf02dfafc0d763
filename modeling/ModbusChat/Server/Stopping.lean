import ModbusChat.Server.Sockets

set_option autoImplicit false

namespace ModbusChat.Server

open BigEndian Effects Wire

section Returns

variable {server : ServerViewModel} {fd : Fd}

theorem accept_returns (error : String) : ((acceptClient fd error).run server).result = .ok () := by
  by_cases refused : fd < 0
  · rw [acceptClient, if_pos refused]
    rfl
  · rw [acceptClient_run refused]

theorem remove_returns
    (fits : ∀ fd record, server.registry.findByFd fd = some record → RecordFits fd record) :
    ((removeClient fd).run server).result = .ok () := by
  cases found : server.registry.findByFd fd with
  | none => rw [removeClient_missing found]
  | some record =>
    obtain ⟨others, -, -, run⟩ := removeClient_onlyRemoves fits found
    rw [show (removeClient fd).run server = _ from run]

theorem frame_returns {sender : ClientRecord} (frame : Frame)
    (fits : ∀ fd record, server.registry.findByFd fd = some record → RecordFits fd record)
    (found : server.registry.findByFd fd = some sender) (notBanned : sender.id ∉ server.bannedIds) :
    ((handleClientData fd (some frame)).run server).result = .ok () := by
  by_cases throws : ∃ failure, Throws server fd frame failure
  · obtain ⟨failure, throws⟩ := throws
    obtain ⟨shown, text, -, run⟩ := handleClientData_reported fits found notBanned throws
    rw [run]
  · cases decoded : decodeAppMessage frame with
    | error failure => exact absurd ⟨failure, .inl decoded⟩ throws
    | ok message =>
      have run := handleClientData_run (not_silenced found notBanned) decoded
      cases returned : ((dispatch createMessageDispatcher fd message).run server).result with
      | error failure => exact absurd ⟨failure, .inr ⟨message, decoded, returned⟩⟩ throws
      | ok value => rw [run, Outcome.orElse_result returned, returned]

theorem data_returns {incoming : Option Frame}
    (fits : ∀ fd record, server.registry.findByFd fd = some record → RecordFits fd record)
    (heard : incoming.isSome → fd ∈ server.registry.allFds) :
    ((handleClientData fd incoming).run server).result = .ok () := by
  by_cases banned : ∃ sender ∈ server.registry.findByFd fd, server.isBanned sender.id
  · obtain ⟨sender, found, banned⟩ := banned
    have id : sender.id ∈ server.bannedIds := by simpa [ServerViewModel.isBanned] using banned
    rw [handleClientData_banned found (fits fd sender found).short id]
    exact remove_returns fits
  · cases incoming with
    | none =>
      rw [handleClientData_closed banned]
      split_ifs
      · rw [Outcome.orElse_result (remove_returns fits), remove_returns fits]
      · rfl
    | some frame =>
      obtain ⟨sender, found⟩ := mem_allFds.mp (heard rfl)
      refine frame_returns frame fits found fun id => banned ⟨sender, found, ?_⟩
      simpa [ServerViewModel.isBanned] using id

theorem disconnect_returns (fds : List Fd) :
    ((disconnectClients fds).run server).result = .ok () := by
  induction fds generalizing server with
  | nil => rfl
  | cons fd fds ih =>
    cases found : server.registry.findByFd fd with
    | none =>
      rw [disconnectClients_missing found]
      exact ih
    | some record =>
      rw [disconnectClients_found found]
      exact ih

theorem insertBans_length (ids : List UInt32) (server : ServerViewModel) :
    (insertBans ids server).1.length ≤ ids.length := by
  induction ids generalizing server with
  | nil => exact le_rfl
  | cons id ids ih =>
    simp only [insertBans]
    split_ifs
    · exact (ih server).trans (Nat.le_succ _)
    · exact (ih _).trans (Nat.le_succ _)
    · exact Nat.succ_le_succ (ih _)

theorem admin_returns {lines : List Bytes}
    (few : ∀ line ∈ lines, ∀ ids ∈ parseAdminCommand line, ids.length ≤ kMaxU16Count) :
    ((processAdminQueue lines).run server).result = .ok () := by
  induction lines generalizing server with
  | nil => rfl
  | cons line lines ih =>
    obtain ⟨here, rest⟩ := List.forall_mem_cons.mp few
    simp only [processAdminQueue]
    cases parsed : parseAdminCommand line with
    | none => exact ih rest
    | some ids =>
      have short := (insertBans_length ids server).trans (here ids parsed)
      have returned : ((banIds ids).run server).result = .ok () := by
        rw [banIds_run]
        dsimp only
        rw [if_pos short]
        split_ifs <;> rfl
      simp only [Action.run_bind]
      rw [Outcome.andThen_result returned]
      exact ih rest

end Returns

/-- Neither `poll` fails nor does the operator ban more ids at once than a message can hold. -/
def LoopEvent.Calm : LoopEvent → Prop
  | .poll .failed => False
  | .enter lines => ∀ line ∈ lines, ∀ ids ∈ parseAdminCommand line, ids.length ≤ kMaxU16Count
  | _ => True

instance LoopEvent.Calm.decidable : (event : LoopEvent) → Decidable event.Calm
  | .enter lines => inferInstanceAs
      (Decidable (∀ line ∈ lines, ∀ ids ∈ parseAdminCommand line, ids.length ≤ kMaxU16Count))
  | .poll .failed => .isFalse id
  | .poll .interrupted | .poll .timedOut | .poll (.ready _) | .visit .. | .requestStop =>
    .isTrue trivial

namespace EventLoop

def Alive (loop : EventLoop) : Prop := ∀ failure, loop.phase ≠ .crashed failure

section Alive

variable {loop : EventLoop} {event : LoopEvent}

-- A stopped server reads no more lines of the operator, and a failure of `poll` ends its loop.
def Smooth (loop : EventLoop) (event : LoopEvent) : Prop :=
  loop.Kernel event ∧ (loop.server.running = true → event.Calm)

instance Smooth.decidable (loop : EventLoop) (event : LoopEvent) : Decidable (loop.Smooth event) :=
  inferInstanceAs (Decidable (_ ∧ (_ → _)))

theorem Safe.returns (safe : loop.Safe) (smooth : loop.Smooth event) :
    (loop.outcome event).result = .ok () := by
  have fits := reachable_recordFits safe.reachable
  have makes := @makes_cases loop event
  unfold outcome
  generalize loop.makes event = call at makes ⊢
  cases makes with
  | nothing | stops => rfl
  | administers running => exact admin_returns (smooth.2 running)
  | leaves => exact disconnect_returns _
  | drops fd => exact remove_returns fits
  | accepts => exact accept_returns _
  | reads next => exact data_returns fits (smooth.1.heard next)

theorem Safe.alive_step (safe : loop.Safe) (smooth : loop.Smooth event) (alive : loop.Alive) :
    (loop.step event).Alive := by
  have returned := safe.returns smooth
  have moved := @stepped loop event
  generalize loop.step event = later at moved ⊢
  intro failure broken
  cases moved with
  | stops => exact alive failure broken
  | goes stays quiet left crashed =>
    rcases crashed failure broken with before | ⟨rfl, running⟩
    · exact alive failure (before.trans broken)
    · exact smooth.2 running
  | @calls call next stays made left crashed =>
    rw [outcome, made] at returned
    simp only [EventLoop.call, returned] at broken
    exact crashed _ _ failure broken

theorem reachable_alive (reachable : Runs.Reachable EventLoop.Initial Smooth step loop) :
    loop.Safe ∧ loop.Alive := by
  refine reachable.invariant (fun loop => loop.Safe ∧ loop.Alive) ?_ fun _ _ so smooth =>
    ⟨so.1.step smooth.1, so.1.alive_step smooth so.2⟩
  intro loop initial
  exact ⟨initial.safe, fun failure broken => by cases initial.2.2.symm.trans broken⟩

end Alive

end EventLoop

/-- No order of connections, hang-ups, messages and stops makes `run` throw. -/
theorem server_survives {loop : EventLoop}
    (reachable : Runs.Reachable EventLoop.Initial EventLoop.Smooth EventLoop.step loop) :
    loop.Alive :=
  (EventLoop.reachable_alive reachable).2

theorem server_survives_stoppedMidway :
    (stoppedMidway.foldl EventLoop.step { listener := 3, phase := .head [{ fd := 3 }] }).Alive :=
  server_survives (Runs.Reachable.foldl (.start ⟨rfl, by decide, rfl⟩) (by decide +kernel))

def Phase.remaining : Phase → Nat
  | .head _ => 1
  | .polling pollfds => pollfds.length + 2
  | .hangUps _ pending => pending.length + 1
  | .readable _ pending => pending.length + 2
  | .left | .crashed _ => 0

def Phase.takes : Phase → LoopEvent → Bool
  | .head _, .enter _ | .polling _, .poll _ | .hangUps .., .visit .. | .readable .., .visit .. =>
    true
  | _, _ => false

namespace EventLoop

def Advances (loop : EventLoop) (event : LoopEvent) : Prop := loop.phase.takes event

instance Advances.decidable (loop : EventLoop) (event : LoopEvent) :
    Decidable (loop.Advances event) :=
  inferInstanceAs (Decidable (_ = true))

section Remaining

variable {loop : EventLoop} {event : LoopEvent}

theorem Advances.stays (next : loop.Advances event) : event ≠ .requestStop := by
  rintro rfl
  cases phase : loop.phase <;> simp [Advances, Phase.takes, phase] at next

theorem remaining_call {action : ServerM Unit} {next : ServerViewModel → List Effect → Phase}
    {bound : Nat} (bounded : ∀ server output, (next server output).remaining ≤ bound) :
    (loop.call action next).phase.remaining ≤ bound := by
  simp only [call]
  split
  · exact bounded _ _
  · exact Nat.zero_le _

theorem remaining_leave (loop : EventLoop) : loop.leave.phase.remaining = 0 :=
  Nat.le_zero.mp (remaining_call fun _ _ => le_rfl)

-- Nobody is accepted any more, so that no entries are added.
theorem remaining_visit (stopped : loop.server.running = false) (closed : loop.listener < 0)
    (accepted : Fd) (error : String) (incoming : Option Frame)
    (next : loop.Advances (.visit accepted error incoming)) :
    (loop.step (.visit accepted error incoming)).phase.remaining < loop.phase.remaining := by
  cases phase : loop.phase with
  | head | polling | left | crashed => simp [Advances, Phase.takes, phase] at next
  | hangUps visited pending =>
    cases pending with
    | nil =>
      simp only [step, phase, stopped, Bool.false_eq_true, if_false, remaining_leave]
      exact Nat.zero_lt_succ _
    | cons entry pending =>
      simp only [step, phase, hangUp, stopped, Bool.false_eq_true, if_false]
      split_ifs <;> exact Nat.lt_succ_self _
  | readable visited pending =>
    cases pending with
    | nil =>
      simp only [step, phase, Phase.remaining]
      exact Nat.lt_succ_self _
    | cons entry pending =>
      simp only [step, phase, serve]
      split_ifs with skipped listening
      · exact Nat.lt_succ_self _
      · exact absurd (.inl (listening ▸ closed)) skipped
      · exact Nat.lt_succ_of_le (remaining_call fun _ _ => le_rfl)

theorem remaining_step (safe : loop.Safe) (stopped : loop.server.running = false)
    (next : loop.Advances event) :
    (loop.step event).phase.remaining < loop.phase.remaining := by
  cases event with
  | requestStop => exact absurd rfl next.stays
  | enter lines =>
    cases phase : loop.phase with
    | head pollfds =>
      simp only [step, phase, stopped, Bool.false_eq_true, if_false, remaining_leave]
      exact Nat.zero_lt_one
    | polling | hangUps | readable | left | crashed => simp [Advances, Phase.takes, phase] at next
  | poll result =>
    cases phase : loop.phase with
    | polling pollfds =>
      cases result with
      | interrupted | timedOut =>
        simp only [step, phase, Phase.remaining]
        omega
      | failed =>
        simp only [step, phase, stopped, Bool.false_eq_true, if_false, remaining_leave]
        exact Nat.zero_lt_succ _
      | ready revents =>
        simp only [step, phase, Phase.remaining, List.length_drop, List.length_mapIdx]
        omega
    | head | hangUps | readable | left | crashed => simp [Advances, Phase.takes, phase] at next
  | visit accepted error incoming =>
    exact remaining_visit stopped (safe.stopped stopped) accepted error incoming next

theorem Safe.advances (safe : loop.Safe) (alive : loop.Alive) (running : loop.phase ≠ .left) :
    ∃ event, loop.Advances event ∧ loop.Smooth event := by
  have refused : loop.Smooth (.visit (-1) "" none) := by
    refine ⟨⟨⟨fun member => ?_, .inl (by decide)⟩, trivial⟩, fun _ => trivial⟩
    obtain ⟨record, found⟩ := Table.mem_iff_lookup.mp member
    exact (reachable_recordFits safe.reachable (-1) record found).nonnegative (by decide)
  cases phase : loop.phase with
  | head =>
    exact ⟨.enter [], by simp [Advances, Phase.takes, phase],
      ⟨trivial, trivial⟩, by simp [LoopEvent.Calm]⟩
  | polling =>
    exact ⟨.poll .timedOut, by simp [Advances, Phase.takes, phase], ⟨trivial, trivial⟩,
      fun _ => trivial⟩
  | hangUps | readable =>
    exact ⟨.visit (-1) "" none, by simp [Advances, Phase.takes, phase], refused⟩
  | left => exact absurd phase running
  | crashed failure => exact absurd phase (alive failure)

end Remaining

end EventLoop

/--
Once the server is told to stop, `run` returns: whatever `poll` and the clients do, the loop makes
no more steps than there are entries left, and at each point it has returned or can go on.
-/
theorem stop_returns {loop : EventLoop} {events : List LoopEvent}
    (reachable : Runs.Reachable EventLoop.Initial EventLoop.Smooth EventLoop.step loop)
    (stopped : loop.server.running = false)
    (goes : Runs.Admissible (fun loop event => loop.Smooth event ∧ loop.Advances event)
      EventLoop.step loop events) :
    let later := events.foldl EventLoop.step loop
    events.length + later.phase.remaining ≤ loop.phase.remaining ∧
      (later.phase = .left ∨ ∃ event, later.Advances event ∧ later.Smooth event) := by
  intro later
  have start := EventLoop.reachable_alive reachable
  have guarded := goes.strengthen
    (fun loop => (loop.Safe ∧ loop.Alive) ∧ loop.server.running = false)
    (fun loop event so may => ⟨⟨so.1.1.step may.1.1, so.1.1.alive_step may.1 so.1.2⟩, ?_⟩)
    ⟨start, stopped⟩
  · refine ⟨@Runs.Admissible.length_le _ _ _ _ (fun loop => loop.phase.remaining)
      (fun loop event may => EventLoop.remaining_step may.1.1.1 may.1.2 may.2.2) _ _ guarded, ?_⟩
    have ends : later.Safe ∧ later.Alive := EventLoop.reachable_alive
      (reachable.foldl (goes.weaken fun _ _ may => may.1))
    by_cases left : later.phase = .left
    · exact .inl left
    · exact .inr (ends.1.advances ends.2 left)
  · exact (EventLoop.running_step may.2.stays).trans so.2

theorem stop_returns_stoppedMidway :
    let loop :=
      (stoppedMidway.take 11).foldl EventLoop.step { listener := 3, phase := .head [{ fd := 3 }] }
    (stoppedMidway.drop 11).length ≤ loop.phase.remaining ∧
      ((stoppedMidway.drop 11).foldl EventLoop.step loop).phase = .left := by
  intro loop
  have reachable : Runs.Reachable EventLoop.Initial EventLoop.Smooth EventLoop.step loop :=
    Runs.Reachable.foldl (.start ⟨rfl, by decide, rfl⟩) (by decide +kernel)
  have returns :=
    @stop_returns loop (stoppedMidway.drop 11) reachable (by decide +kernel) (by decide +kernel)
  exact ⟨(Nat.le_add_right _ _).trans returns.1, by decide +kernel⟩

end ModbusChat.Server
