import ModbusChat.Server.BadMessages
import ModbusChat.Server.EventLoop
import ModbusChat.Shared.Handles
import ModbusChat.Shared.Traces

set_option autoImplicit false

-- Descriptors are numbers that the kernel gives out again as soon as they are closed, so a server
-- that writes to a closed one may reach somebody else. It never does, not even while it is being
-- stopped.

namespace ModbusChat.Server

open BigEndian Effects Wire Handles

-- What an effect does to descriptors. The listening socket is closed once only.
def Effect.uses (listener : Fd) : Effect → List (Use Fd)
  | .send fd _ _ | .shutdown fd => [.touch fd]
  | .close fd => [.release fd]
  | .watch fd => [.acquire fd]
  | .closeListener => if listener < 0 then [] else [.touch listener, .release listener]
  | .display _ => []

-- The descriptors of the clients and of the listening socket, which is negative once it is closed.
def descriptors (listener : Fd) (registry : ClientRegistry) : Finset Fd :=
  registry.allFds.toFinset ∪ if listener < 0 then ∅ else {listener}

theorem mem_descriptors {listener fd : Fd} {registry : ClientRegistry} :
    fd ∈ descriptors listener registry ↔ fd ∈ registry.allFds ∨ ¬ listener < 0 ∧ fd = listener := by
  unfold descriptors
  split_ifs with closed <;> simp [closed, or_comm]

def Effect.Touches (held : Finset Fd) : Effect → Prop
  | .send fd _ _ | .shutdown fd => fd ∈ held
  | .display _ => True
  | .close _ | .watch _ | .closeListener => False

theorem after_of_touches {held : Finset Fd} {output : List Effect}
    (touches : ∀ effect ∈ output, effect.Touches held) (listener : Fd) :
    after held (output.flatMap (·.uses listener)) = some held := by
  refine after_touches fun use member => ?_
  obtain ⟨effect, emitted, member⟩ := List.mem_flatMap.mp member
  have may := touches effect emitted
  cases effect with
  | send fd | shutdown fd => exact ⟨fd, may, List.mem_singleton.mp member⟩
  | display => cases member
  | close | watch | closeListener => exact may.elim

def Effect.Speaks : Effect → Prop
  | .send .. | .display _ => True
  | .shutdown _ | .close _ | .watch _ | .closeListener => False

theorem Effect.Speaks.touches {held : Finset Fd} {output : List Effect}
    (speaks : ∀ effect ∈ output, effect.Speaks) (open_ : ∀ sent ∈ sends output, sent.1 ∈ held) :
    ∀ effect ∈ output, effect.Touches held := by
  intro effect member
  have may := speaks effect member
  cases effect with
  | send fd type payload =>
    exact open_ (fd, type, payload) (List.mem_filterMap.mpr ⟨_, member, rfl⟩)
  | display => trivial
  | shutdown | close | watch | closeListener => exact may.elim

section Speaks

theorem speaks_map_send (targets : List Fd) (type : MsgType) (payload : Bytes) :
    ∀ effect ∈ targets.map fun fd => Effect.send fd type payload, effect.Speaks := by
  intro effect member
  obtain ⟨fd, -, rfl⟩ := List.mem_map.mp member
  trivial

theorem speaks_sendError (fd : Fd) (text : Bytes) : (sendError fd text).Emits Effect.Speaks :=
  (Action.emits_lift _).bind fun _ => Action.emits_emit trivial

theorem speaks_registerNickname (fd : Fd) (nickname : Bytes) :
    (registerNickname fd nickname).Emits Effect.Speaks := by
  refine Action.emits_get.bind fun server => ?_
  split
  · exact Action.emits_pure _
  · split_ifs
    · exact speaks_sendError _ _
    · exact speaks_sendError _ _
    · exact speaks_sendError _ _
    · refine (Action.emits_modify _).bind fun _ => (Action.emits_emit trivial).bind fun _ => ?_
      refine (Action.emits_lift _).bind fun _ => Action.emits_get.bind fun _ => ?_
      exact Action.emits_emitAll (speaks_map_send _ _ _)

theorem speaks_relay (deliverType : MsgType) (logLabel : String) (fd : Fd) (chat : ChatPayload) :
    (relay deliverType logLabel fd chat).Emits Effect.Speaks := by
  refine Action.emits_get.bind fun server => ?_
  split
  · exact Action.emits_pure _
  · split_ifs
    · exact Action.emits_pure _
    · refine (Action.emits_lift _).bind fun toLabel => (Action.emits_emit trivial).bind fun _ =>
        (Action.emits_lift _).bind fun deliver => ?_
      exact Action.emits_emitAll (speaks_map_send _ _ _)
    · refine (Action.emits_lift _).bind fun toLabel => (Action.emits_emit trivial).bind fun _ =>
        (Action.emits_lift _).bind fun target => ?_
      split
      · exact speaks_sendError _ _
      · exact (Action.emits_lift _).bind fun _ => Action.emits_emit trivial

theorem speaks_dispatch (fd : Fd) (message : AppMessage) :
    (dispatch createMessageDispatcher fd message).Emits Effect.Speaks := by
  unfold dispatch
  split
  · rename_i handler chosen
    have listed := List.mem_of_find?_eq_some chosen
    simp only [createMessageDispatcher, List.mem_cons, List.not_mem_nil, or_false] at listed
    rcases listed with rfl | rfl | rfl | rfl | rfl
    · simp only [registerMessageHandler]
      split
      · exact speaks_registerNickname _ _
      · exact Action.emits_lift _
    · simp only [chatMessageHandler]
      split
      · exact speaks_relay _ _ _ _
      · exact Action.emits_lift _
    · simp only [opaqueUnicastHandler]
      split
      · exact speaks_relay _ _ _ _
      · exact Action.emits_lift _
    · simp only [opaqueUnicastHandler]
      split
      · exact speaks_relay _ _ _ _
      · exact Action.emits_lift _
    · exact Action.emits_get.bind fun _ => (Action.emits_lift _).bind fun _ =>
        Action.emits_emit trivial
  · exact speaks_sendError _ _

theorem speaks_catchException (fd : Fd) (failure : Failure) :
    (catchException fd failure).Emits Effect.Speaks := by
  unfold catchException
  split
  · exact Action.emits_lift _
  · exact (Action.emits_emit trivial).bind fun _ => speaks_sendError _ _

theorem speaks_frame {server : ServerViewModel} {fd : Fd} (frame : Frame)
    (free : ¬ ∃ sender ∈ server.registry.findByFd fd, server.isBanned sender.id) :
    ∀ effect ∈ ((handleClientData fd (some frame)).run server).output, effect.Speaks := by
  cases decoded : decodeAppMessage frame with
  | error failure =>
    rw [handleClientData_undecoded free decoded]
    exact speaks_catchException fd failure server
  | ok message =>
    rw [handleClientData_run free decoded]
    exact (speaks_dispatch fd message).tryCatch (speaks_catchException fd) server

end Speaks

def Proper (listener : Fd) (server : ServerViewModel)
    (outcome : Outcome ServerViewModel Effect Failure Unit) : Prop :=
  after (descriptors listener server.registry) (outcome.output.flatMap (·.uses listener)) =
    some (descriptors listener outcome.state.registry)

section Proper

variable {server : ServerViewModel} {listener fd : Fd}

theorem Proper.of_touches {outcome : Outcome ServerViewModel Effect Failure Unit}
    (touches : ∀ effect ∈ outcome.output, effect.Touches (descriptors listener server.registry))
    (same : ∀ fd, fd ∈ outcome.state.registry.allFds ↔ fd ∈ server.registry.allFds) :
    Proper listener server outcome := by
  rw [Proper, after_of_touches touches]
  refine congrArg some (Finset.ext fun fd => ?_)
  rw [mem_descriptors, mem_descriptors, same]

theorem proper_accept (vacant : fd ∉ server.registry.allFds) (apart : fd < 0 ∨ fd ≠ listener)
    (error : String) : Proper listener server ((acceptClient fd error).run server) := by
  by_cases refused : fd < 0
  · simp only [acceptClient, if_pos refused]
    refine .of_touches (fun effect member => ?_) fun _ => Iff.rfl
    obtain rfl := List.mem_singleton.mp member
    trivial
  · have fresh : fd ∉ descriptors listener server.registry := fun member => by
      rcases mem_descriptors.mp member with listed | ⟨-, same⟩
      · exact vacant listed
      · exact apart.resolve_left refused same
    have grown : insert fd (descriptors listener server.registry) =
        descriptors listener (server.enroll fd).registry := by
      refine Finset.ext fun other => ?_
      rw [Finset.mem_insert, mem_descriptors, mem_descriptors, mem_allFds_enroll, or_assoc]
    rw [Proper, acceptClient_run refused, List.flatMap_cons,
      show Effect.uses listener (.watch fd) ++ _ =
        .acquire fd :: _ from rfl, after_acquire fresh, grown]
    refine after_of_touches ?_ listener
    refine List.forall_mem_cons.mpr ⟨trivial, List.forall_mem_cons.mpr ⟨?_, ?_⟩⟩
    · exact mem_descriptors.mpr (.inl (mem_allFds_enroll.mpr (.inl rfl)))
    · intro effect member
      obtain ⟨other, chosen, rfl⟩ := List.mem_map.mp member
      exact mem_descriptors.mpr (.inl (List.mem_of_mem_filter chosen))

theorem descriptors_drop (apart : ¬ listener < 0 → fd ≠ listener) :
    (descriptors listener server.registry).erase fd =
      descriptors listener (server.drop fd).registry := by
  refine Finset.ext fun other => ?_
  rw [Finset.mem_erase, mem_descriptors, mem_descriptors, mem_allFds_drop]
  constructor
  · rintro ⟨different, still | own⟩
    · exact .inl ⟨still, different⟩
    · exact .inr own
  · rintro (⟨still, different⟩ | ⟨open_, rfl⟩)
    · exact ⟨different, .inl still⟩
    · exact ⟨(apart open_).symm, .inr ⟨open_, rfl⟩⟩

theorem OnlyRemoves.proper {record : ClientRecord} {event : Event}
    (removal : OnlyRemoves server fd record event) (listed : fd ∈ server.registry.allFds)
    (apart : ¬ listener < 0 → fd ≠ listener) :
    Proper listener server (event.action.run server) := by
  obtain ⟨others, -, members, run⟩ := removal
  have held : fd ∈ descriptors listener server.registry := mem_descriptors.mpr (.inl listed)
  rw [Proper, run, List.flatMap_cons, List.flatMap_cons,
    show Effect.uses listener (.display _) ++ (Effect.uses listener (.close fd) ++ _) =
      .release fd :: _ from rfl, after_release held, descriptors_drop apart]
  refine after_of_touches (fun effect member => ?_) listener
  obtain ⟨other, chosen, rfl⟩ := List.mem_map.mp member
  exact mem_descriptors.mpr (.inl (mem_allFds_drop.mpr ((members other).mp chosen)))

variable (sound : server.registry.Sound)
  (fits : ∀ fd record, server.registry.findByFd fd = some record → RecordFits fd record)
  (apart : ¬ listener < 0 → listener ∉ server.registry.allFds)

include fits apart in
theorem proper_remove : Proper listener server ((removeClient fd).run server) := by
  cases found : server.registry.findByFd fd with
  | none =>
    rw [removeClient_missing found]
    rfl
  | some record =>
    have listed : fd ∈ server.registry.allFds := mem_allFds.mpr ⟨record, found⟩
    exact (removeClient_onlyRemoves fits found).proper listed fun open_ same =>
      apart open_ (same ▸ listed)

include sound fits apart in
theorem proper_data {incoming : Option Frame}
    (heard : incoming.isSome → fd ∈ server.registry.allFds) :
    Proper listener server ((handleClientData fd incoming).run server) := by
  cases found : server.registry.findByFd fd with
  | none =>
    cases incoming with
    | some frame =>
      obtain ⟨record, here⟩ := mem_allFds.mp (heard rfl)
      cases here.symm.trans found
    | none =>
      have free : ¬ ∃ sender ∈ server.registry.findByFd fd, server.isBanned sender.id := by
        simp [found]
      rw [handleClientData_closed free]
      split_ifs
      · rw [removeClient_missing found]
        rfl
      · rfl
  | some sender =>
    have listed : fd ∈ server.registry.allFds := mem_allFds.mpr ⟨sender, found⟩
    have removed (removal : OnlyRemoves server fd sender (.data fd incoming)) :
        Proper listener server ((handleClientData fd incoming).run server) :=
      removal.proper listed fun open_ same => apart open_ (same ▸ listed)
    cases data_cases sound fits found incoming with
    | removed cause removal => exact removed removal
    | named arrived notBanned decoded may short run =>
      rw [run]
      refine .of_touches (List.forall_mem_cons.mpr ⟨trivial, fun effect member => ?_⟩)
        fun _ => mem_allFds_rename
      obtain ⟨other, chosen, rfl⟩ := List.mem_map.mp member
      exact mem_descriptors.mpr (.inl (mem_allFds_rename.mp (List.mem_of_mem_filter chosen)))
    | answered notBanned same answers =>
      cases incoming with
      | none =>
        by_cases running : server.running = true
        · exact removed (closed_onlyRemoves fits found running)
        · rw [handleClientData_closed (not_silenced found notBanned), if_neg running]
          rfl
      | some frame =>
        refine .of_touches ?_ fun _ => by rw [same]
        refine Effect.Speaks.touches (speaks_frame frame (not_silenced found notBanned))
          fun sent member => mem_descriptors.mpr (.inl ?_)
        cases answers sent member with
        | refuses | lists => exact listed
        | passes short signed hears =>
          obtain ⟨hearer, here, -⟩ := hears
          exact mem_allFds.mpr ⟨hearer, here⟩

include sound in
theorem touches_ban (ids : List UInt32) :
    ∀ effect ∈ ((banIds ids).run server).output,
      effect.Touches (descriptors listener server.registry) := by
  intro effect member
  rw [banIds_run] at member
  dsimp only at member
  split_ifs at member
  · obtain rfl := List.mem_singleton.mp member
    trivial
  · rw [List.mem_append, List.mem_append, List.mem_singleton] at member
    rcases member with told | cut | rfl
    · obtain ⟨other, chosen, rfl⟩ := List.mem_map.mp told
      have listed := List.mem_of_mem_filter chosen
      rw [insertBans_registry] at listed
      exact mem_descriptors.mpr (.inl listed)
    · obtain ⟨other, chosen, rfl⟩ := List.mem_map.mp cut
      obtain ⟨id, -, connected⟩ := List.mem_filterMap.mp chosen
      rw [insertBans_registry] at connected
      obtain ⟨record, here, -⟩ := sound.byId id other connected
      exact mem_descriptors.mpr (.inl (mem_allFds.mpr ⟨record, here⟩))
    · trivial
  · cases member

include sound in
theorem touches_admin (lines : List Bytes) :
    ((processAdminQueue lines).run server).state.registry = server.registry ∧
      ∀ effect ∈ ((processAdminQueue lines).run server).output,
        effect.Touches (descriptors listener server.registry) := by
  induction lines generalizing server with
  | nil => exact ⟨rfl, by simp [processAdminQueue]⟩
  | cons line lines ih =>
    simp only [processAdminQueue]
    cases parseAdminCommand line with
    | none =>
      obtain ⟨registry, touches⟩ := ih sound
      exact ⟨registry, List.forall_mem_cons.mpr ⟨trivial, touches⟩⟩
    | some ids =>
      have now := @touches_ban server listener sound ids
      have same : ((banIds ids).run server).state.registry = server.registry := by
        rw [show ((banIds ids).run server).state = _ from step_ban server ids, insertBans_registry]
      simp only [Action.run_bind]
      generalize (banIds ids).run server = outcome at now same
      obtain ⟨between, output, failure | value⟩ := outcome
      · exact ⟨same, now⟩
      · change between.registry = server.registry at same
        have later := @ih between (same ▸ sound)
        rw [same] at later
        obtain ⟨registry, touches⟩ := later
        exact ⟨registry, List.forall_mem_append.mpr ⟨now, touches⟩⟩

theorem disconnectClients_missing (missing : server.registry.findByFd fd = none) (fds : List Fd) :
    (disconnectClients (fd :: fds)).run server = (disconnectClients fds).run server := by
  simp only [disconnectClients, Action.run_bind, Action.run_get, Outcome.andThen_ok,
    Outcome.before_nil, ClientRegistry.remove_none missing]

theorem disconnectClients_found {record : ClientRecord}
    (found : server.registry.findByFd fd = some record) (fds : List Fd) :
    (disconnectClients (fd :: fds)).run server =
      ((disconnectClients fds).run (server.drop fd)).before
        [.display (.clientDisconnected record.id record.nickname), .shutdown fd, .close fd] := by
  have removed := (ClientRegistry.remove_some found).1
  rw [drop_some found]
  simp only [disconnectClients, Action.run_bind, Action.run_get, Outcome.andThen_ok,
    Outcome.before_nil]
  generalize server.registry.remove fd = result at removed ⊢
  obtain ⟨_, registry⟩ := result
  obtain rfl := removed
  rfl

include apart in
theorem proper_disconnect (fds : List Fd) :
    Proper listener server ((disconnectClients fds).run server) := by
  induction fds generalizing server with
  | nil => rfl
  | cons fd fds ih =>
    cases found : server.registry.findByFd fd with
    | none =>
      rw [disconnectClients_missing found]
      exact ih apart
    | some record =>
      have listed : fd ∈ server.registry.allFds := mem_allFds.mpr ⟨record, found⟩
      have held : fd ∈ descriptors listener server.registry := mem_descriptors.mpr (.inl listed)
      have elsewhere (open_ : ¬ listener < 0) : fd ≠ listener :=
        fun same => apart open_ (same ▸ listed)
      have still (open_ : ¬ listener < 0) : listener ∉ (server.drop fd).registry.allFds :=
        fun member =>
        apart open_ (mem_allFds_drop.mp member).1
      rw [Proper, disconnectClients_found found, Outcome.before_output, List.flatMap_append,
        show List.flatMap _ [Effect.display _, .shutdown fd, .close fd] ++ _ =
          .touch fd :: .release fd :: _ from rfl, after_touch held, after_release held,
        descriptors_drop elsewhere]
      exact ih still

end Proper

inductive LoopCall where
  | nothing
  | admin (lines : List Bytes)
  | serves (event : Event)

def LoopCall.action : LoopCall → ServerM Unit
  | .nothing => pure ()
  | .admin lines => processAdminQueue lines
  | .serves event => event.action

namespace EventLoop

def reading? (loop : EventLoop) : Option Fd :=
  match loop.phase with
  | .readable _ (entry :: _) =>
      if entry.fd < 0 ∨ ¬ entry.readable ∨ entry.fd = loop.listener then none else some entry.fd
  | _ => none

def makes (loop : EventLoop) : LoopEvent → LoopCall
  | .requestStop => .serves .requestStop
  | .enter lines =>
      match loop.phase with
      | .head _ => if loop.server.running then .admin lines else .serves .disconnectAll
      | _ => .nothing
  | .poll result =>
      match loop.phase, result with
      | .polling _, .failed => if loop.server.running then .nothing else .serves .disconnectAll
      | _, _ => .nothing
  | .visit accepted error incoming =>
      match loop.phase with
      | .hangUps _ (entry :: _) =>
          if entry.failed then
            if loop.server.running then .serves (.remove entry.fd) else .nothing
          else .nothing
      | .hangUps _ [] => if loop.server.running then .nothing else .serves .disconnectAll
      | .readable _ (entry :: _) =>
          if entry.fd < 0 ∨ ¬ entry.readable then .nothing
          else if entry.fd = loop.listener then .serves (.accept accepted error)
          else .serves (.data entry.fd incoming)
      | _ => .nothing

def outcome (loop : EventLoop) (event : LoopEvent) : Outcome ServerViewModel Effect Failure Unit :=
  (loop.makes event).action.run loop.server

def uses (loop : EventLoop) (event : LoopEvent) : List (Use Fd) :=
  (loop.outcome event).output.flatMap (·.uses loop.listener)

def held (loop : EventLoop) : Finset Fd := descriptors loop.listener loop.server.registry

/-- The kernel gives out closed descriptors only, and nothing can be read from a closed one. -/
def Kernel (loop : EventLoop) (event : LoopEvent) : Prop :=
  loop.Allowed event ∧
    match event with
    | .visit _ _ (some _) => loop.reading?.all (· ∈ loop.server.registry.clientsByFd)
    | _ => True

instance Kernel.decidable (loop : EventLoop) : (event : LoopEvent) → Decidable (loop.Kernel event)
  | .visit accepted error (some frame) => inferInstanceAs (Decidable
      (loop.Allowed (.visit accepted error (some frame)) ∧
        loop.reading?.all (· ∈ loop.server.registry.clientsByFd) = true))
  | .visit accepted error none =>
    inferInstanceAs (Decidable (loop.Allowed (.visit accepted error none) ∧ True))
  | .enter _ | .poll _ | .requestStop => .isTrue ⟨trivial, trivial⟩

theorem Kernel.heard {loop : EventLoop} {accepted fd : Fd} {error : String}
    {incoming : Option Frame}
    (kernel : loop.Kernel (.visit accepted error incoming)) (next : loop.reading? = some fd)
    (arrived : incoming.isSome) : fd ∈ loop.server.registry.allFds := by
  obtain ⟨frame, rfl⟩ := Option.isSome_iff_exists.mp arrived
  have heard : loop.reading?.all (· ∈ loop.server.registry.clientsByFd) = true := kernel.2
  have listed : fd ∈ loop.server.registry.clientsByFd := by simpa [next] using heard
  exact listed

-- All that a step can do: it may stop the server, only go on, or make a call.
inductive Stepped (loop : EventLoop) (event : LoopEvent) : EventLoop → Prop
  | stops (stop : event = .requestStop) :
      Stepped loop event
        { loop with server := Server.step loop.server .requestStop, listener := -1 }
  | goes {phase : Phase} (stays : event ≠ .requestStop) (quiet : loop.makes event = .nothing)
      (left : phase = .left → loop.phase = .left)
      (crashed : ∀ failure, phase = .crashed failure →
        loop.phase = phase ∨ event = .poll .failed ∧ loop.server.running = true) :
      Stepped loop event { loop with phase }
  | calls {call : LoopCall} {next : ServerViewModel → List Effect → Phase}
      (stays : event ≠ .requestStop) (made : loop.makes event = call)
      (left : ∀ server output, next server output = .left → call = .serves .disconnectAll)
      (crashed : ∀ server output failure, next server output ≠ .crashed failure) :
      Stepped loop event (loop.call call.action next)

section Step

variable {loop : EventLoop}

theorem stepped_leave {event : LoopEvent} (stays : event ≠ .requestStop)
    (made : loop.makes event = .serves .disconnectAll) : Stepped loop event loop.leave :=
  .calls stays made (fun _ _ _ => rfl) fun _ _ _ => by simp

theorem stepped_idle {event : LoopEvent} (stays : event ≠ .requestStop)
    (quiet : loop.makes event = .nothing) : Stepped loop event loop :=
  .goes stays quiet id fun _ _ => .inl rfl

theorem stepped_enter (lines : List Bytes) :
    Stepped loop (.enter lines) (loop.step (.enter lines)) := by
  cases phase : loop.phase with
  | head pollfds =>
    simp only [step, phase]
    split_ifs with running
    · exact @Stepped.calls loop _ (.admin lines) _ (by simp)
        (by simp [makes, phase, running]) (by simp)
        (by simp)
    · exact stepped_leave (by simp) (by simp [makes, phase, running])
  | polling | hangUps | readable | left | crashed =>
    simp only [step, phase]
    exact stepped_idle (by simp) (by simp [makes, phase])

theorem stepped_poll (result : Poll) : Stepped loop (.poll result) (loop.step (.poll result)) := by
  cases phase : loop.phase with
  | polling pollfds =>
    cases result with
    | interrupted | timedOut | ready =>
      simp only [step, phase]
      exact .goes (by simp) (by simp [makes, phase]) (by simp) (by simp)
    | failed =>
      simp only [step, phase]
      split_ifs with running
      · exact .goes (by simp) (by simp [makes, phase, running]) (by simp) fun _ _ =>
          .inr ⟨rfl, running⟩
      · exact stepped_leave (by simp) (by simp [makes, phase, running])
  | head | hangUps | readable | left | crashed =>
    simp only [step, phase]
    exact stepped_idle (by simp) (by simp [makes, phase])

theorem stepped_visit (accepted : Fd) (error : String) (incoming : Option Frame) :
    Stepped loop (.visit accepted error incoming) (loop.step (.visit accepted error incoming)) := by
  cases phase : loop.phase with
  | hangUps visited pending =>
    cases pending with
    | nil =>
      simp only [step, phase]
      split_ifs with running
      · exact .goes (by simp) (by simp [makes, phase, running]) (by simp) (by simp)
      · exact stepped_leave (by simp) (by simp [makes, phase, running])
    | cons entry pending =>
      simp only [step, phase, hangUp]
      split_ifs with failed running
      · exact @Stepped.calls loop _ (.serves (.remove entry.fd)) _ (by simp)
          (by simp [makes, phase, failed, running]) (by simp) (by simp)
      · exact .goes (by simp) (by simp [makes, phase, failed, running]) (by simp) (by simp)
      · exact .goes (by simp) (by simp [makes, phase, failed]) (by simp) (by simp)
  | readable visited pending =>
    cases pending with
    | nil =>
      simp only [step, phase]
      exact .goes (by simp) (by simp [makes, phase]) (by simp) (by simp)
    | cons entry pending =>
      simp only [step, phase, serve]
      split_ifs with skipped listening
      · exact .goes (by simp) (by simp only [makes, phase, if_pos skipped]) (by simp) (by simp)
      · exact @Stepped.calls loop _ (.serves (.accept accepted error)) _ (by simp)
          (by simp only [makes, phase, if_neg skipped, if_pos listening]) (by simp) (by simp)
      · exact @Stepped.calls loop _ (.serves (.data entry.fd incoming)) _ (by simp)
          (by simp only [makes, phase, if_neg skipped, if_neg listening]) (by simp) (by simp)
  | head | polling | left | crashed =>
    simp only [step, phase]
    exact stepped_idle (by simp) (by simp [makes, phase])

theorem stepped (event : LoopEvent) : Stepped loop event (loop.step event) := by
  cases event with
  | requestStop => exact .stops rfl
  | enter lines => exact stepped_enter lines
  | poll result => exact stepped_poll result
  | visit accepted error incoming => exact stepped_visit accepted error incoming

theorem step_outcome (loop : EventLoop) (event : LoopEvent) :
    (loop.step event).server = (loop.outcome event).state := by
  have moved := @stepped loop event
  generalize loop.step event = after at moved ⊢
  cases moved with
  | stops stop =>
    subst stop
    rfl
  | goes stays quiet =>
    rw [outcome, quiet]
    rfl
  | calls stays made =>
    rw [outcome, made]
    rfl

theorem step_listener (event : LoopEvent) :
    event = .requestStop ∧ (loop.step event).listener = -1 ∨
      event ≠ .requestStop ∧ (loop.step event).listener = loop.listener := by
  have moved := @stepped loop event
  generalize loop.step event = after at moved ⊢
  cases moved with
  | stops stop => exact .inl ⟨stop, rfl⟩
  | goes stays => exact .inr ⟨stays, rfl⟩
  | calls stays => exact .inr ⟨stays, rfl⟩

inductive Makes (loop : EventLoop) : LoopEvent → LoopCall → Prop
  | nothing {event : LoopEvent} (stays : event ≠ .requestStop) : Makes loop event .nothing
  | stops : Makes loop .requestStop (.serves .requestStop)
  | administers {lines : List Bytes} (running : loop.server.running = true) :
      Makes loop (.enter lines) (.admin lines)
  | leaves {event : LoopEvent} (stays : event ≠ .requestStop)
      (stopped : loop.server.running = false) :
      Makes loop event (.serves .disconnectAll)
  | drops {accepted : Fd} {error : String} {incoming : Option Frame} (fd : Fd) :
      Makes loop (.visit accepted error incoming) (.serves (.remove fd))
  | accepts {accepted : Fd} {error : String} {incoming : Option Frame} :
      Makes loop (.visit accepted error incoming) (.serves (.accept accepted error))
  | reads {accepted fd : Fd} {error : String} {incoming : Option Frame}
      (next : loop.reading? = some fd) :
      Makes loop (.visit accepted error incoming) (.serves (.data fd incoming))

theorem makes_cases (event : LoopEvent) : Makes loop event (loop.makes event) := by
  unfold makes
  cases event with
  | requestStop => exact .stops
  | enter lines =>
    dsimp only
    split
    · split_ifs with running
      · exact .administers running
      · exact .leaves (by simp) (by simpa using running)
    · exact .nothing (by simp)
  | poll result =>
    dsimp only
    split
    · split_ifs with running
      · exact .nothing (by simp)
      · exact .leaves (by simp) (by simpa using running)
    · exact .nothing (by simp)
  | visit accepted error incoming =>
    dsimp only
    split
    · split_ifs
      · exact .drops _
      · exact .nothing (by simp)
      · exact .nothing (by simp)
    · split_ifs with running
      · exact .nothing (by simp)
      · exact .leaves (by simp) (by simpa using running)
    · rename_i visited entry pending phase
      split_ifs with skipped listening
      · exact .nothing (by simp)
      · exact .accepts
      · refine .reads ?_
        rw [not_or] at skipped
        simp only [reading?, phase]
        rw [if_neg (by tauto)]
    · exact .nothing (by simp)

structure Safe (loop : EventLoop) : Prop where
  reachable : Server.Reachable loop.server
  apart : ¬ loop.listener < 0 → loop.listener ∉ loop.server.registry.allFds
  stopped : loop.server.running = false → loop.listener < 0
  finished : loop.phase = .left → loop.server.running = false ∧ loop.server.registry.allFds = []

end Step

end EventLoop

theorem mem_allFds_foldl_drop (fds : List Fd) (server : ServerViewModel) {fd : Fd} :
    fd ∈ (fds.foldl ServerViewModel.drop server).registry.allFds ↔
      fd ∈ server.registry.allFds ∧ fd ∉ fds := by
  induction fds generalizing server with
  | nil => simp
  | cons first fds ih =>
    rw [List.foldl_cons, ih, mem_allFds_drop, List.mem_cons, not_or]
    tauto

theorem allFds_disconnectAll (server : ServerViewModel) :
    (step server .disconnectAll).registry.allFds = [] := by
  refine List.eq_nil_iff_forall_not_mem.mpr fun fd member => ?_
  rw [step_disconnectAll, mem_allFds_foldl_drop] at member
  exact member.2 member.1

namespace EventLoop

section Safe

variable {loop : EventLoop} {event : LoopEvent}

theorem Makes.admitted {call : Event} (makes : Makes loop event (.serves call))
    (kernel : loop.Kernel event) :
    Server.Allowed loop.server call := by
  cases makes with
  | accepts => exact kernel.1.1
  | stops | leaves | drops | reads => trivial

theorem Makes.listed {call : Event} (makes : Makes loop event (.serves call))
    (kernel : loop.Kernel event)
    {fd : Fd} (listed : fd ∈ (Server.step loop.server call).registry.allFds) :
    fd ∈ loop.server.registry.allFds ∨ ¬ fd < 0 ∧ fd ≠ loop.listener := by
  cases makes with
  | stops => exact .inl listed
  | leaves =>
    rw [allFds_disconnectAll] at listed
    cases listed
  | drops =>
    rw [step_remove, mem_allFds_drop] at listed
    exact .inl listed.1
  | @accepts accepted =>
    rw [step_accept] at listed
    split_ifs at listed with refused
    · exact .inl listed
    · rcases mem_allFds_enroll.mp listed with rfl | before
      · exact .inr ⟨refused, kernel.1.2.resolve_left refused⟩
      · exact .inl before
  | reads => exact .inl (mem_allFds_data _ fd |>.mp listed).1

theorem Safe.reachable_step (safe : loop.Safe) (kernel : loop.Kernel event) :
    Server.Reachable (loop.step event).server := by
  rw [step_outcome, outcome]
  have makes := @makes_cases loop event
  generalize loop.makes event = call at makes ⊢
  cases call with
  | nothing => exact safe.reachable
  | admin lines =>
    obtain ⟨lists, state⟩ := processAdminQueue_state lines loop.server
    have bans := (admissible_bans lists loop.server).weaken fun _ _ => Served.allowed
    rw [show (LoopCall.admin lines).action = processAdminQueue lines from rfl, state]
    exact safe.reachable.foldl bans
  | serves call => exact safe.reachable.next (makes.admitted kernel)

theorem Safe.apart_step (safe : loop.Safe) (kernel : loop.Kernel event)
    (open_ : ¬ (loop.step event).listener < 0) :
    (loop.step event).listener ∉ (loop.step event).server.registry.allFds := by
  rcases @step_listener loop event with ⟨-, closed⟩ | ⟨-, same⟩
  · rw [closed] at open_
    exact absurd (by decide) open_
  · rw [same] at open_ ⊢
    rw [step_outcome, outcome]
    have makes := @makes_cases loop event
    generalize loop.makes event = call at makes ⊢
    cases call with
    | nothing => exact safe.apart open_
    | admin lines =>
      rw [show (LoopCall.admin lines).action = processAdminQueue lines from rfl,
        (@touches_admin _ 0 (reachable_sound safe.reachable) lines).1]
      exact safe.apart open_
    | serves call =>
      intro member
      rcases makes.listed kernel member with before | ⟨-, other⟩
      · exact safe.apart open_ before
      · exact other rfl

theorem running_step (stays : event ≠ .requestStop) :
    (loop.step event).server.running = loop.server.running := by
  rw [step_outcome, outcome]
  have makes := @makes_cases loop event
  generalize loop.makes event = call at makes ⊢
  cases call with
  | nothing => rfl
  | admin lines =>
    obtain ⟨lists, state⟩ := processAdminQueue_state lines loop.server
    rw [show (LoopCall.admin lines).action = processAdminQueue lines from rfl, state]
    refine List.foldlRecOn (motive := fun (server : ServerViewModel) =>
      server.running = loop.server.running) _ _ rfl ?_
    intro server same call member
    obtain ⟨ids, -, rfl⟩ := List.mem_map.mp member
    exact (step_running (by simp)).trans same
  | serves call =>
    refine step_running ?_
    rintro rfl
    cases makes
    exact stays rfl

theorem Safe.stopped_step (safe : loop.Safe) (stopped : (loop.step event).server.running = false) :
    (loop.step event).listener < 0 := by
  rcases @step_listener loop event with ⟨-, closed⟩ | ⟨stays, same⟩
  · rw [closed]
    decide
  · rw [same]
    exact safe.stopped ((running_step stays).symm.trans stopped)

theorem Safe.finished_step (safe : loop.Safe) (finished : (loop.step event).phase = .left) :
    (loop.step event).server.running = false ∧ (loop.step event).server.registry.allFds = [] := by
  have moved := @stepped loop event
  have running := @running_step loop event
  generalize loop.step event = later at moved finished running ⊢
  cases moved with
  | stops => exact ⟨rfl, (safe.finished finished).2⟩
  | goes stays quiet left => exact safe.finished (left finished)
  | @calls call next stays made left crashed =>
    have makes := @makes_cases loop event
    rw [made] at makes
    have leaving : call = .serves .disconnectAll := by
      simp only [EventLoop.call] at finished
      split at finished
      · exact left _ _ finished
      · cases finished
    subst leaving
    cases makes with
    | leaves _ stopped => exact ⟨(running stays).trans stopped, allFds_disconnectAll loop.server⟩

theorem Safe.step (safe : loop.Safe) (kernel : loop.Kernel event) : (loop.step event).Safe :=
  ⟨safe.reachable_step kernel, safe.apart_step kernel, safe.stopped_step, safe.finished_step⟩

theorem Initial.safe (initial : loop.Initial) : loop.Safe := by
  obtain ⟨empty, listening, phase⟩ := initial
  refine ⟨.start empty, fun _ => ?_, fun stopped => ?_, fun finished => ?_⟩
  · rw [empty]
    exact List.not_mem_nil
  · rw [empty] at stopped
    cases stopped
  · cases phase.symm.trans finished

theorem uses_stop (safe : loop.Safe) :
    after loop.held (loop.uses .requestStop) = some (loop.step .requestStop).held := by
  have cut : ∀ effect ∈ loop.server.registry.allFds.map Effect.shutdown,
      effect.Touches (descriptors (-1) loop.server.registry) := by
    intro effect member
    obtain ⟨fd, listed, rfl⟩ := List.mem_map.mp member
    exact mem_descriptors.mpr (.inl listed)
  have output : loop.uses .requestStop = Effect.uses loop.listener .closeListener ++
      (loop.server.registry.allFds.map Effect.shutdown).flatMap (·.uses loop.listener) := rfl
  rw [output]
  refine (after_append ?_).trans (after_of_touches cut _)
  rw [Effect.uses]
  split_ifs with closed
  · refine congrArg some (Finset.ext fun fd => ?_)
    rw [EventLoop.held, mem_descriptors, mem_descriptors]
    simp [closed]
  · have held : loop.listener ∈ loop.held := mem_descriptors.mpr (.inr ⟨closed, rfl⟩)
    rw [after_touch held, after_release held]
    refine congrArg some (Finset.ext fun fd => ?_)
    rw [Finset.mem_erase, EventLoop.held, mem_descriptors, mem_descriptors]
    have elsewhere (listed : fd ∈ loop.server.registry.allFds) : fd ≠ loop.listener := fun same =>
      safe.apart closed (same ▸ listed)
    constructor
    · rintro ⟨other, listed | ⟨-, same⟩⟩
      · exact .inl listed
      · exact absurd same other
    · rintro (listed | ⟨closed, -⟩)
      · exact ⟨elsewhere listed, .inl listed⟩
      · exact absurd (by decide) closed

theorem uses_step (safe : loop.Safe) (kernel : loop.Kernel event) :
    after loop.held (loop.uses event) = some (loop.step event).held := by
  rcases @step_listener loop event with ⟨stop, -⟩ | ⟨stays, same⟩
  · subst stop
    exact uses_stop safe
  · rw [EventLoop.held, EventLoop.held, uses, same, step_outcome]
    have sound := reachable_sound safe.reachable
    have fits := reachable_recordFits safe.reachable
    have makes := @makes_cases loop event
    change Proper loop.listener loop.server (loop.outcome event)
    unfold outcome
    generalize loop.makes event = call at makes ⊢
    cases makes with
    | nothing => rfl
    | stops => exact absurd rfl stays
    | @administers lines =>
      obtain ⟨registry, touches⟩ := @touches_admin _ loop.listener sound lines
      exact .of_touches touches fun _ => by
        rw [show (LoopCall.admin lines).action = processAdminQueue lines from rfl, registry]
    | leaves => exact proper_disconnect safe.apart _
    | drops fd => exact proper_remove fits safe.apart
    | @accepts accepted error incoming => exact proper_accept kernel.1.1 kernel.1.2 error
    | @reads accepted fd error incoming next =>
      exact proper_data sound fits safe.apart (kernel.heard next)

end Safe

end EventLoop

/--
Whatever the kernel reports and whatever the clients send, the server writes to, shuts down and
closes only descriptors that are open, and these are the clients' and the listening socket's. Each
is closed once, and when `run` returns, also after a stop at any time, none is left open.
-/
theorem sockets_used_properly {loop : EventLoop} {events : List LoopEvent} (initial : loop.Initial)
    (kernel : Runs.Admissible EventLoop.Kernel EventLoop.step loop events) :
    let uses := Runs.observed EventLoop.uses EventLoop.step loop events
    let later := events.foldl EventLoop.step loop
    after {loop.listener} uses = some later.held ∧
      (later.phase = .left → later.held = ∅ ∧ ∀ fd,
        uses.count (.release fd) = uses.count (.acquire fd) + if fd = loop.listener then 1
          else 0) := by
  intro uses later
  have start : after {loop.listener} [] = some loop.held := by
    refine congrArg some (Finset.ext fun fd => ?_)
    rw [EventLoop.held, mem_descriptors, initial.1, Finset.mem_singleton]
    simp [initial.2.1, ClientRegistry.allFds]
  have run := kernel.accounted
    (fun (later : EventLoop) uses => later.Safe ∧ after {loop.listener} uses = some later.held)
    (fun _ _ _ so kernel =>
      ⟨so.1.step kernel, (after_append so.2).trans (EventLoop.uses_step so.1 kernel)⟩)
    ⟨initial.safe, start⟩
  rw [List.nil_append] at run
  obtain ⟨safe, used⟩ := run
  refine ⟨used, fun left => ?_⟩
  obtain ⟨stopped, empty⟩ := safe.finished left
  have closed : later.held = ∅ := by
    refine Finset.eq_empty_iff_forall_notMem.mpr fun fd member => ?_
    rcases mem_descriptors.mp member with listed | ⟨open_, -⟩
    · rw [empty] at listed
      cases listed
    · exact open_ (safe.stopped stopped)
  refine ⟨closed, fun fd => ?_⟩
  have balance := balanced used fd
  simp only [show (events.foldl EventLoop.step loop).held = ∅ from closed, Finset.notMem_empty,
    if_false, Finset.mem_singleton, Nat.add_zero] at balance
  exact balance.symm

-- A stop during the second pass: the entry of the listening socket is stale when it is visited.
def stoppedMidway : List LoopEvent :=
  let quiet := LoopEvent.visit (-1) "" none
  [.enter [], .poll (.ready fun _ => POLLIN), quiet, .visit 4 "" none, quiet, quiet,
    .enter [ascii "ban:9"], .poll (.ready fun _ => POLLIN), quiet, quiet, .requestStop, quiet,
    .visit (-1) "" (some (makeFrame .listUsers [])), quiet, .enter []]

theorem sockets_used_properly_stoppedMidway :
    (stoppedMidway.foldl EventLoop.step { listener := 3, phase := .head [{ fd := 3 }] }).phase =
      .left ∧
      (stoppedMidway.foldl EventLoop.step { listener := 3, phase := .head [{ fd := 3 }] }).held =
        ∅ := by
  have left : (stoppedMidway.foldl EventLoop.step
      { listener := 3, phase := .head [{ fd := 3 }] }).phase = .left := by decide +kernel
  have used := @sockets_used_properly { listener := 3, phase := .head [{ fd := 3 }] } stoppedMidway
    ⟨rfl, by decide, rfl⟩ (by decide +kernel)
  exact ⟨left, (used.2 left).1⟩

end ModbusChat.Server
