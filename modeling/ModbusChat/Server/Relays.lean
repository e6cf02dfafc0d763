import ModbusChat.Server.Answers
import ModbusChat.Server.BadMessages

set_option autoImplicit false

namespace ModbusChat.Server

open BigEndian Effects Wire

section Distinct

variable {server : ServerViewModel} {fd : Fd}

def SendsOnce (output : List Effect) : Prop := ((sends output).map Prod.fst).Nodup

theorem sendsOnce_map {targets : List Fd} (distinct : targets.Nodup) (type : MsgType)
    (payload : Bytes) :
    SendsOnce (targets.map fun target => .send target type payload) := by
  rw [SendsOnce, sends_map_send, List.map_map]
  exact (List.map_id targets).symm ▸ distinct

theorem sendError_once (text : Bytes) : SendsOnce ((sendError fd text).run server).output := by
  rw [sendError_run]
  split_ifs <;> simp [SendsOnce, sends, Effect.sent?]

theorem listUsers_once (message : AppMessage) :
    SendsOnce ((listUsersMessageHandler.handle fd message).run server).output := by
  simp only [listUsersMessageHandler, Action.run_bind, Action.run_get, Outcome.andThen_ok,
    Outcome.before_nil, Action.run_lift]
  cases encodeUsersList server.registry.collectUsers with
  | error failure => simp [SendsOnce, sends]
  | ok payload => simp [SendsOnce, sends, send, Effect.sent?]

theorem registerNickname_once {record : ClientRecord} {nickname : Bytes}
    (found : server.registry.findByFd fd = some record) (short : nickname.length ≤ kMaxU16Count) :
    SendsOnce ((registerNickname fd nickname).run server).output := by
  by_cases may : MayRegister server fd nickname
  · rw [registerNickname_run found may short]
    exact sendsOnce_map ((AList.keys_nodup _).filter _) _ _
  · obtain ⟨text, -, refused⟩ := registerNickname_refused found may
    rw [refused]
    exact sendError_once _

theorem relay_once {sender : ClientRecord} {frame : Frame} {type : MsgType} {chat : ChatPayload}
    (found : server.registry.findByFd fd = some sender) (notBanned : sender.id ∉ server.bannedIds)
    (decoded : decodeAppMessage frame = .ok { type, payload := .chat chat }) :
    SendsOnce ((handleClientData fd (some frame)).run server).output := by
  obtain ⟨recipient, target, -, -, -, run⟩ := handleClientData_chat found notBanned decoded
  rw [run]
  split_ifs
  · exact sendsOnce_map (broadcastTargets_nodup server fd) _ _
  · cases target with
    | error text =>
      rw [SendsOnce, sends_display, sends_relayedTo_error]
      simp
    | ok targetFd =>
      rw [SendsOnce, sends_display]
      simp [relayedTo, sends, Effect.sent?]

theorem Reported.once {outcome : Outcome ServerViewModel Effect Failure Unit}
    (reported : Reported server fd outcome) : SendsOnce outcome.output := by
  obtain ⟨shown, text, -, rfl⟩ := reported
  simp [SendsOnce, sends, Effect.sent?, List.filterMap_map, Function.comp_def]

theorem handleClientData_once {sender : ClientRecord} {frame : Frame}
    (fits : ∀ fd record, server.registry.findByFd fd = some record → RecordFits fd record)
    (found : server.registry.findByFd fd = some sender) :
    SendsOnce ((handleClientData fd (some frame)).run server).output := by
  by_cases banned : sender.id ∈ server.bannedIds
  · obtain ⟨others, distinct, -, run⟩ :=
      banned_onlyRemoves fits found banned
        (rfl : (Event.data fd (some frame)).connection? = some fd)
    rw [show (handleClientData fd (some frame)).run server = _ from run]
    exact sendsOnce_map distinct _ _
  have free := not_silenced found banned
  cases decoded : decodeAppMessage frame with
  | error failure => exact (handleClientData_reported fits found banned (.inl decoded)).once
  | ok message =>
    obtain ⟨type, payload⟩ := message
    cases result : ((dispatch createMessageDispatcher fd ⟨type, payload⟩).run server).result with
    | error failure =>
      exact (handleClientData_reported fits found banned (.inr ⟨_, decoded, result⟩)).once
    | ok value =>
      obtain ⟨bytes, -, parsed⟩ := decodeAppMessage_ok decoded
      have carried := decodePayload_carries parsed
      -- nothing was thrown, so the handler's messages are all there is
      have run := handleClientData_run free decoded
      rw [Outcome.orElse_result result] at run
      cases type
      case chat | keyOffer | roomKeyOffer =>
        cases payload with
        | chat chat => exact relay_once found banned decoded
        | _ => exact carried.elim
      all_goals rw [run]
      case register =>
        cases payload with
        | register nickname =>
          exact registerNickname_once found (decodeString_ok (decodePayload_register parsed).2).2
        | _ => exact carried.elim
      case listUsers => exact listUsers_once _
      all_goals exact sendError_once _

def Unrelayed (sent : Fd × MsgType × Bytes) : Prop :=
  sent.2.1 = .error ∨ sent.2.1 = .usersList ∨ sent.2.1 = .userJoined ∨ sent.2.1 = .userLeft

theorem registerNickname_unrelayed {record : ClientRecord} {nickname : Bytes}
    (found : server.registry.findByFd fd = some record) (short : nickname.length ≤ kMaxU16Count) :
    ∀ sent ∈ sends ((registerNickname fd nickname).run server).output, Unrelayed sent := by
  intro sent member
  by_cases may : MayRegister server fd nickname
  · rw [registerNickname_run found may short, sends_display, sends_map_send] at member
    obtain ⟨other, -, rfl⟩ := List.mem_map.mp member
    exact .inr (.inr (.inl rfl))
  · obtain ⟨text, -, refused⟩ := registerNickname_refused found may
    rw [refused] at member
    obtain rfl := sendError_sent member
    exact .inl rfl

theorem handleClientData_relays {sender : ClientRecord} {frame : Frame}
    {sent : Fd × MsgType × Bytes}
    (fits : ∀ fd record, server.registry.findByFd fd = some record → RecordFits fd record)
    (found : server.registry.findByFd fd = some sender)
    (member : sent ∈ sends ((handleClientData fd (some frame)).run server).output) :
    Unrelayed sent ∨ ∃ type chat, decodeAppMessage frame = .ok { type, payload := .chat chat } ∧
      sent.2.1 = deliverType type := by
  by_cases banned : sender.id ∈ server.bannedIds
  · obtain ⟨others, -, -, run⟩ :=
      banned_onlyRemoves fits found banned
        (rfl : (Event.data fd (some frame)).connection? = some fd)
    rw [show (handleClientData fd (some frame)).run server = _ from run] at member
    change sent ∈ sends (others.map _) at member
    rw [sends_map_send] at member
    obtain ⟨other, -, rfl⟩ := List.mem_map.mp member
    exact .inl (.inr (.inr (.inr rfl)))
  have free := not_silenced found banned
  cases decoded : decodeAppMessage frame with
  | error failure =>
    rw [handleClientData_undecoded free decoded] at member
    obtain ⟨text, rfl⟩ := catchException_sent member
    exact .inl (.inl rfl)
  | ok message =>
    obtain ⟨type, payload⟩ := message
    obtain ⟨bytes, -, parsed⟩ := decodeAppMessage_ok decoded
    have carried := decodePayload_carries parsed
    have caught {action : ServerM Unit}
        (run : (handleClientData fd (some frame)).run server =
          (action.run server).orElse (catchException fd))
        (answers : ∀ sent ∈ sends (action.run server).output, Unrelayed sent) : Unrelayed sent :=
      caught_sent answers (fun _ => .inl rfl) sent (run ▸ member)
    have run := handleClientData_run free decoded
    cases type
    case chat | keyOffer | roomKeyOffer =>
      cases payload with
      | chat chat =>
        obtain ⟨recipient, target, -, -, -, relay⟩ := handleClientData_chat found banned decoded
        rw [relay, sends_display] at member
        split_ifs at member
        · rw [sends_map_send] at member
          obtain ⟨other, -, rfl⟩ := List.mem_map.mp member
          exact .inr ⟨_, chat, rfl, rfl⟩
        · cases target with
          | error text =>
            rw [sends_relayedTo_error, List.mem_singleton] at member
            exact .inl (.inl (member ▸ rfl))
          | ok targetFd =>
            obtain rfl : sent = (targetFd, _, _) := by
              simpa [relayedTo, sends, Effect.sent?] using member
            exact .inr ⟨_, chat, rfl, rfl⟩
      | _ => exact carried.elim
    case register =>
      cases payload with
      | register nickname =>
        have short := (decodeString_ok (decodePayload_register parsed).2).2
        exact .inl (caught run (registerNickname_unrelayed found short))
      | _ => exact carried.elim
    case listUsers =>
      refine .inl (caught run fun sent member => ?_)
      obtain ⟨payload, -, rfl⟩ := listUsers_sent member
      exact .inr (.inl rfl)
    all_goals
      refine .inl (caught run fun sent member => ?_)
      obtain rfl := sendError_sent member
      exact .inl rfl

theorem peerKey_offered {sender : ClientRecord} {frame : Frame} {sent : Fd × MsgType × Bytes}
    (fits : ∀ fd record, server.registry.findByFd fd = some record → RecordFits fd record)
    (found : server.registry.findByFd fd = some sender)
    (member : sent ∈ sends ((handleClientData fd (some frame)).run server).output)
    (key : sent.2.1 = .peerKey) :
    ∃ chat, decodeAppMessage frame = .ok { type := .keyOffer, payload := .chat chat } := by
  rcases handleClientData_relays fits found member with unrelayed | ⟨type, chat, decoded, relayed⟩
  · simp [Unrelayed, key] at unrelayed
  · obtain ⟨bytes, -, parsed⟩ := decodeAppMessage_ok decoded
    rcases (decodePayload_chat parsed).1 with rfl | rfl | rfl
    · cases key.symm.trans relayed
    · exact ⟨chat, decoded⟩
    · cases key.symm.trans relayed

end Distinct

end ModbusChat.Server
