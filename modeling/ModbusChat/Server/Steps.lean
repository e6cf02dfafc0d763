import ModbusChat.Server.RegistryIndexes
import ModbusChat.Server.ServerViewModel
import ModbusChat.Wire.Accepted

set_option autoImplicit false

namespace ModbusChat.Server

open BigEndian Effects Wire

theorem sendError_keeps (fd : Fd) (text : Bytes) : (sendError fd text).Keeps :=
  (Action.keeps_lift _).bind fun _ => Action.keeps_emit _

namespace PresenceBroadcaster

theorem broadcast_keeps (type : MsgType) (payload : Bytes) (exceptFd : Fd) :
    (broadcast type payload exceptFd).Keeps :=
  Action.keeps_get.bind fun _ => Action.keeps_emitAll _

theorem userJoined_keeps (id : UInt32) (nickname : Bytes) (exceptFd : Fd) :
    (userJoined id nickname exceptFd).Keeps :=
  (Action.keeps_lift _).bind fun _ => broadcast_keeps _ _ _

theorem userLeft_keeps (id : UInt32) (nickname : Bytes) : (userLeft id nickname).Keeps :=
  (Action.keeps_lift _).bind fun _ => broadcast_keeps _ _ _

end PresenceBroadcaster

theorem relay_keeps (deliverType : MsgType) (logLabel : String) (fd : Fd) (chat : ChatPayload) :
    (relay deliverType logLabel fd chat).Keeps := by
  refine Action.keeps_get.bind fun server => ?_
  cases server.registry.findByFd fd with
  | none => exact Action.keeps_pure _
  | some sender =>
    dsimp only
    split
    · exact Action.keeps_pure _
    · refine (Action.keeps_lift _).bind fun toLabel => (Action.keeps_emit _).bind fun _ => ?_
      split
      · exact (Action.keeps_lift _).bind fun _ => Action.keeps_emitAll _
      · refine (Action.keeps_lift _).bind fun target => ?_
        cases target with
        | error text => exact sendError_keeps _ _
        | ok targetFd => exact (Action.keeps_lift _).bind fun _ => Action.keeps_emit _

theorem listUsers_keeps (fd : Fd) (message : AppMessage) :
    (listUsersMessageHandler.handle fd message).Keeps :=
  Action.keeps_get.bind fun _ => (Action.keeps_lift _).bind fun _ => Action.keeps_emit _

-- The checks that `RegisterMessageHandler` makes before it renames a client.
structure MayRegister (server : ServerViewModel) (fd : Fd) (nickname : Bytes) : Prop where
  connected : ∃ record ∈ server.registry.findByFd fd,
    server.registry.nicknameTakenByOther nickname record.id = false
  nonempty : nickname ≠ []
  notReserved : nickname ≠ kBroadcastRecipient

instance MayRegister.decidable (server : ServerViewModel) (fd : Fd) (nickname : Bytes) :
    Decidable (MayRegister server fd nickname) :=
  decidable_of_iff
    ((∃ record ∈ server.registry.findByFd fd,
        server.registry.nicknameTakenByOther nickname record.id = false) ∧
      nickname ≠ [] ∧ nickname ≠ kBroadcastRecipient)
    ⟨fun ⟨connected, nonempty, notReserved⟩ => ⟨connected, nonempty, notReserved⟩,
      fun may => ⟨may.connected, may.nonempty, may.notReserved⟩⟩

def ServerViewModel.rename (server : ServerViewModel) (fd : Fd) (nickname : Bytes) :
    ServerViewModel :=
  { server with registry := server.registry.setNickname fd nickname }

theorem registerNickname_state (server : ServerViewModel) (fd : Fd) (nickname : Bytes) :
    ((registerNickname fd nickname).run server).state = server ∨
      MayRegister server fd nickname ∧
        ((registerNickname fd nickname).run server).state = server.rename fd nickname := by
  simp only [registerNickname, Action.run_bind, Action.run_get, Outcome.andThen_ok,
    Outcome.before_nil]
  cases connected : server.registry.findByFd fd with
  | none => exact .inl rfl
  | some record =>
    dsimp only
    split_ifs with empty reserved taken
    · exact .inl (sendError_keeps _ _ _)
    · exact .inl (sendError_keeps _ _ _)
    · exact .inl (sendError_keeps _ _ _)
    · refine .inr ⟨⟨⟨record, connected, by simpa using taken⟩, empty, reserved⟩, ?_⟩
      exact Action.state_bind
        (fun _ => (Action.keeps_emit _).bind fun _ => PresenceBroadcaster.userJoined_keeps _ _ _) _

theorem dispatch_state (server : ServerViewModel) (fd : Fd) (message : AppMessage) :
    ((dispatch createMessageDispatcher fd message).run server).state = server ∨
      ∃ nickname, message.payload = .register nickname ∧ MayRegister server fd nickname ∧
        ((dispatch createMessageDispatcher fd message).run server).state =
          server.rename fd nickname := by
  obtain ⟨type, payload⟩ := message
  cases type
  case register =>
    cases payload with
    | register nickname =>
      exact (registerNickname_state server fd nickname).imp_right fun renamed =>
        ⟨nickname, rfl, renamed⟩
    | _ => exact .inl rfl
  case chat | keyOffer | roomKeyOffer =>
    cases payload with
    | chat chat => exact .inl (relay_keeps _ _ fd chat server)
    | _ => exact .inl rfl
  case listUsers => exact .inl (listUsers_keeps fd _ server)
  all_goals exact .inl (sendError_keeps fd _ server)

-- The server without the client of one descriptor, whose id is free again unless it is banned.
def ServerViewModel.drop (server : ServerViewModel) (fd : Fd) : ServerViewModel :=
  match server.registry.remove fd with
  | (none, _) => server
  | (some record, registry) => { server with registry }.releaseClientId record.id

@[simp] theorem releaseClientId_registry (server : ServerViewModel) (id : UInt32) :
    (server.releaseClientId id).registry = server.registry := by
  unfold ServerViewModel.releaseClientId
  split_ifs <;> rfl

@[simp] theorem releaseClientId_bannedIds (server : ServerViewModel) (id : UInt32) :
    (server.releaseClientId id).bannedIds = server.bannedIds := by
  unfold ServerViewModel.releaseClientId
  split_ifs <;> rfl

@[simp] theorem releaseClientId_nextId (server : ServerViewModel) (id : UInt32) :
    (server.releaseClientId id).nextId = server.nextId := by
  unfold ServerViewModel.releaseClientId
  split_ifs <;> rfl

theorem mem_releaseClientId_freeIds {server : ServerViewModel} {id other : UInt32} :
    other ∈ (server.releaseClientId id).freeIds ↔
      other ∈ server.freeIds ∨ other = id ∧ id ∉ server.bannedIds := by
  unfold ServerViewModel.releaseClientId ServerViewModel.isBanned
  split_ifs with banned
  · simp_all
  · simp_all [or_comm]

theorem drop_none {server : ServerViewModel} {fd : Fd}
    (missing : server.registry.findByFd fd = none) : server.drop fd = server := by
  simp [ServerViewModel.drop, ClientRegistry.remove_none missing]

theorem drop_some {server : ServerViewModel} {fd : Fd} {record : ClientRecord}
    (found : server.registry.findByFd fd = some record) :
    server.drop fd =
      { server with registry := (server.registry.remove fd).2 }.releaseClientId record.id := by
  have removed := (ClientRegistry.remove_some found).1
  unfold ServerViewModel.drop
  generalize server.registry.remove fd = result at removed ⊢
  obtain ⟨_, registry⟩ := result
  obtain rfl := removed
  rfl

theorem removeClient_state (server : ServerViewModel) (fd : Fd) :
    ((removeClient fd).run server).state = server.drop fd := by
  simp only [removeClient, Action.run_bind, Action.run_get, Outcome.andThen_ok, Outcome.before_nil,
    ServerViewModel.drop]
  rcases server.registry.remove fd with ⟨_ | record, registry⟩
  · rfl
  · exact PresenceBroadcaster.userLeft_keeps _ _ _

@[simp] theorem allocateClientId_registry (server : ServerViewModel) :
    server.allocateClientId.2.registry = server.registry := by
  unfold ServerViewModel.allocateClientId
  split <;> rfl

@[simp] theorem allocateClientId_bannedIds (server : ServerViewModel) :
    server.allocateClientId.2.bannedIds = server.bannedIds := by
  unfold ServerViewModel.allocateClientId
  split <;> rfl

def ServerViewModel.enroll (server : ServerViewModel) (fd : Fd) : ServerViewModel :=
  let (id, server) := server.allocateClientId
  { server with registry := (server.registry.add fd id).2 }

theorem step_accept (server : ServerViewModel) (fd : Fd) (error : String) :
    step server (.accept fd error) = if fd < 0 then server else server.enroll fd := by
  simp only [step, Event.action, acceptClient]
  split_ifs with failed
  · rfl
  · simp only [send, display, Action.run_bind, Action.run_get, Action.run_modify, Action.run_emit,
      Outcome.andThen_ok, Outcome.before_nil, Outcome.before_state]
    rw [PresenceBroadcaster.userJoined_keeps]
    rfl

theorem step_remove (server : ServerViewModel) (fd : Fd) :
    step server (.remove fd) = server.drop fd := removeClient_state server fd

theorem catchException_keeps (fd : Fd) (failure : Failure) : (catchException fd failure).Keeps := by
  unfold catchException
  cases failure.what? with
  | none => exact Action.keeps_lift _
  | some what => exact (Action.keeps_emit _).bind fun _ => sendError_keeps _ _

theorem receive_register {incoming : Option Frame} {message : AppMessage} {nickname : Bytes}
    (received : receive incoming = .ok (some message))
    (register : message.payload = .register nickname) :
    nickname.length ≤ kMaxU16Count := by
  cases incoming with
  | none => simp [receive] at received
  | some frame =>
    obtain ⟨decoded, parsed, same⟩ := bind_eq_ok.mp received
    obtain rfl : decoded = message := Option.some.inj (Except.ok.inj same)
    obtain ⟨payload, -, read⟩ := decodeAppMessage_ok parsed
    exact (decodeString_ok (decodePayload_register (register ▸ read)).2).2

theorem step_data (server : ServerViewModel) (fd : Fd) (incoming : Option Frame) :
    step server (.data fd incoming) = server ∨
      step server (.data fd incoming) = server.drop fd ∨
        ∃ nickname, nickname.length ≤ kMaxU16Count ∧ MayRegister server fd nickname ∧
          step server (.data fd incoming) = server.rename fd nickname := by
  simp only [step, Event.action, handleClientData, Action.state_tryCatch (catchException_keeps fd),
    Action.run_bind, Action.run_get, Outcome.andThen_ok, Outcome.before_nil]
  split
  · exact .inr (.inl (removeClient_state server fd))
  · rw [Action.run_bind, Action.run_lift]
    rcases received : receive incoming with failure | _ | message
    · exact .inl rfl
    · rw [Outcome.andThen_ok, Outcome.before_nil]
      dsimp only
      split
      · exact .inr (.inl (removeClient_state server fd))
      · exact .inl rfl
    · rw [Outcome.andThen_ok, Outcome.before_nil]
      rcases dispatch_state server fd message with same | ⟨nickname, register, may, renamed⟩
      · exact .inl same
      · exact .inr (.inr ⟨nickname, receive_register received register, may, renamed⟩)

theorem broadcastBannedIds_keeps (ids : List UInt32) : (broadcastBannedIds ids).Keeps :=
  (Action.keeps_lift _).bind fun _ => Action.keeps_get.bind fun _ => Action.keeps_emitAll _

@[simp] theorem insertBans_registry (ids : List UInt32) (server : ServerViewModel) :
    (insertBans ids server).2.registry = server.registry := by
  induction ids generalizing server with
  | nil => rfl
  | cons id ids ih =>
    by_cases zero : id = 0
    · simpa only [insertBans, if_pos zero] using ih server
    · simp only [insertBans, if_neg zero, ih]

theorem step_ban (server : ServerViewModel) (ids : List UInt32) :
    step server (.ban ids) = (insertBans ids server).2 := by
  simp only [step, Event.action, banIds, Action.run_bind, Action.run_get, Action.run_modify,
    Outcome.andThen_ok, Outcome.before_nil]
  split
  · rfl
  · exact ((broadcastBannedIds_keeps _).bind fun _ =>
      (Action.keeps_emitAll _).bind fun _ => Action.keeps_emit _) _

theorem step_requestStop (server : ServerViewModel) :
    step server .requestStop = { server with running := false } := rfl

theorem disconnectClients_state (server : ServerViewModel) (fds : List Fd) :
    ((disconnectClients fds).run server).state = fds.foldl ServerViewModel.drop server := by
  induction fds generalizing server with
  | nil => rfl
  | cons fd fds ih =>
    simp only [disconnectClients, Action.run_bind, Action.run_get, Outcome.andThen_ok,
      Outcome.before_nil, List.foldl_cons, ServerViewModel.drop]
    rcases server.registry.remove fd with ⟨_ | record, registry⟩
    · exact ih server
    · exact ih _

theorem step_disconnectAll (server : ServerViewModel) :
    step server .disconnectAll = server.registry.allFds.foldl ServerViewModel.drop server :=
  disconnectClients_state server _

theorem findByFd_drop {server : ServerViewModel} {fd other : Fd} {record : ClientRecord}
    (found : (server.drop fd).registry.findByFd other = some record) :
    other ≠ fd ∧ server.registry.findByFd other = some record := by
  cases present : server.registry.findByFd fd with
  | none =>
    rw [drop_none present] at found
    exact ⟨fun same => by simp [same, present] at found, found⟩
  | some removed =>
    rw [drop_some present, releaseClientId_registry,
      (ClientRegistry.remove_some present).2.1] at found
    split_ifs at found with same
    exact ⟨same, found⟩

theorem step_record {server : ServerViewModel} {event : Event} {fd : Fd} {record : ClientRecord}
    (found : (step server event).registry.findByFd fd = some record) :
    server.registry.findByFd fd = some record ∨
      (¬ fd < 0 ∧ ∃ id, record = { fd, id }) ∨
      ∃ old nickname, server.registry.findByFd fd = some old ∧ nickname.length ≤ kMaxU16Count ∧
        MayRegister server fd nickname ∧ record = { old with nickname, registered := true } := by
  cases event with
  | accept client error =>
    rw [step_accept] at found
    split_ifs at found with failed
    · exact .inl found
    · simp only [ServerViewModel.enroll, allocateClientId_registry,
        ClientRegistry.findByFd_add] at found
      split_ifs at found with same
      · subst same
        exact .inr (.inl ⟨failed, _, (Option.some.inj found).symm⟩)
      · exact .inl found
  | remove client =>
    rw [step_remove] at found
    exact .inl (findByFd_drop found).2
  | data client incoming =>
    rcases step_data server client incoming with same | dropped | ⟨nickname, short, may, renamed⟩
    · exact .inl (same ▸ found)
    · rw [dropped] at found
      exact .inl (findByFd_drop found).2
    · obtain ⟨old, present, -⟩ := may.connected
      rw [renamed, ServerViewModel.rename,
        (ClientRegistry.setNickname_some nickname present).1] at found
      split_ifs at found with same
      · subst same
        exact .inr (.inr ⟨old, nickname, present, short, may, (Option.some.inj found).symm⟩)
      · exact .inl found
  | ban ids =>
    rw [step_ban, insertBans_registry] at found
    exact .inl found
  | requestStop => exact .inl found
  | disconnectAll =>
    rw [step_disconnectAll] at found
    -- one client after the other is dropped, and a record that is left has been there all along
    have old (fds : List Fd) (later : ServerViewModel)
        (here : (fds.foldl ServerViewModel.drop later).registry.findByFd fd = some record) :
        later.registry.findByFd fd = some record := by
      induction fds generalizing later with
      | nil => exact here
      | cons first fds ih => exact (findByFd_drop (ih _ here)).2
    exact .inl (old _ server found)

theorem drop_running (server : ServerViewModel) (fd : Fd) :
    (server.drop fd).running = server.running := by
  cases found : server.registry.findByFd fd with
  | none => rw [drop_none found]
  | some record =>
    rw [drop_some found, ServerViewModel.releaseClientId]
    split_ifs <;> rfl

theorem insertBans_running (ids : List UInt32) (server : ServerViewModel) :
    (insertBans ids server).2.running = server.running := by
  induction ids generalizing server with
  | nil => rfl
  | cons id ids ih =>
    by_cases zero : id = 0
    · simpa only [insertBans, if_pos zero] using ih server
    · simp only [insertBans, if_neg zero, ih]

theorem step_running {server : ServerViewModel} {event : Event} (other : event ≠ .requestStop) :
    (step server event).running = server.running := by
  cases event with
  | accept fd error =>
    rw [step_accept]
    split_ifs
    · rfl
    · simp only [ServerViewModel.enroll, ServerViewModel.allocateClientId]
      split <;> rfl
  | remove fd => rw [step_remove, drop_running]
  | data fd incoming =>
    rcases step_data server fd incoming with same | dropped | ⟨nickname, -, -, renamed⟩
    · rw [same]
    · rw [dropped, drop_running]
    · rw [renamed, ServerViewModel.rename]
  | ban ids => rw [step_ban, insertBans_running]
  | requestStop => exact absurd rfl other
  | disconnectAll =>
    rw [step_disconnectAll]
    exact List.foldlRecOn (motive := fun after => after.running = server.running) _ _ rfl
      fun after same fd _ => (drop_running after fd).trans same

end ModbusChat.Server
