import ModbusChat.Server.Presence

set_option autoImplicit false

namespace ModbusChat.Server

open BigEndian Effects Wire

-- A message of the server that brings no key: an answer, a delivery, or the new name of the sender.
def Keyless (id : UInt32) (sent : Fd × MsgType × Bytes) : Prop :=
  sent.2.1 = .error ∨ sent.2.1 = .usersList ∨ sent.2.1 = .deliver ∨
    sent.2.1 = .userJoined ∧
      ∃ nickname, nickname.length ≤ kMaxU16Count ∧ sent.2.2 = userBytes { id, nickname }

variable {server : ServerViewModel} {fd : Fd} {id : UInt32}

theorem sendError_keyless (text : Bytes) :
    ∀ sent ∈ sends ((sendError fd text).run server).output, Keyless id sent := by
  intro sent member
  obtain rfl := sendError_sent member
  exact .inl rfl

theorem caught_keyless {action : ServerM Unit}
    (tried : ∀ sent ∈ sends (action.run server).output, Keyless id sent) :
    ∀ sent ∈ sends ((action.run server).orElse (catchException fd)).output, Keyless id sent :=
  caught_sent tried fun _ => .inl rfl

theorem registerNickname_keyless {sender : ClientRecord} {nickname : Bytes}
    (found : server.registry.findByFd fd = some sender) (short : nickname.length ≤ kMaxU16Count) :
    ∀ sent ∈ sends ((registerNickname fd nickname).run server).output, Keyless sender.id sent := by
  intro sent member
  by_cases may : MayRegister server fd nickname
  · rw [registerNickname_run found may short, sends_display, sends_map_send] at member
    obtain ⟨other, -, rfl⟩ := List.mem_map.mp member
    exact .inr (.inr (.inr ⟨rfl, nickname, short, rfl⟩))
  · obtain ⟨text, -, refused⟩ := registerNickname_refused found may
    rw [refused] at member
    exact sendError_keyless _ sent member

theorem listUsers_keyless (message : AppMessage) :
    ∀ sent ∈ sends ((listUsersMessageHandler.handle fd message).run server).output,
      Keyless id sent := by
  intro sent member
  obtain ⟨payload, -, rfl⟩ := listUsers_sent member
  exact .inr (.inl rfl)

theorem chat_keyless {sender : ClientRecord} {frame : Frame} {chat : ChatPayload}
    (found : server.registry.findByFd fd = some sender) (notBanned : sender.id ∉ server.bannedIds)
    (decoded : decodeAppMessage frame = .ok { type := .chat, payload := .chat chat }) :
    ∀ sent ∈ sends ((handleClientData fd (some frame)).run server).output, Keyless id sent := by
  obtain ⟨recipient, target, -, -, -, run⟩ := handleClientData_chat found notBanned decoded
  rw [run, sends_display]
  intro sent member
  split_ifs at member
  · rw [sends_map_send] at member
    obtain ⟨other, -, rfl⟩ := List.mem_map.mp member
    exact .inr (.inr (.inl rfl))
  · cases target with
    | error text =>
      rw [sends_relayedTo_error, List.mem_singleton] at member
      exact .inl (member ▸ rfl)
    | ok targetFd =>
      obtain rfl : sent = (targetFd, .deliver, _) := by
        simpa [relayedTo, sends, Effect.sent?, deliverType] using member
      exact .inr (.inr (.inl rfl))

theorem handleClientData_keyless {sender : ClientRecord} {frame : Frame}
    (found : server.registry.findByFd fd = some sender) (notBanned : sender.id ∉ server.bannedIds)
    (plain : ∀ type chat, decodeAppMessage frame = .ok { type, payload := .chat chat } →
      type = .chat) :
    ∀ sent ∈ sends ((handleClientData fd (some frame)).run server).output,
      Keyless sender.id sent := by
  have free := not_silenced found notBanned
  cases decoded : decodeAppMessage frame with
  | error failure =>
    rw [handleClientData_undecoded free decoded]
    intro sent member
    obtain ⟨text, rfl⟩ := catchException_sent member
    exact .inl rfl
  | ok message =>
    obtain ⟨type, payload⟩ := message
    obtain ⟨bytes, -, parsed⟩ := decodeAppMessage_ok decoded
    have carried := decodePayload_carries parsed
    cases type
    case chat =>
      cases payload with
      | chat chat => exact chat_keyless found notBanned decoded
      | _ => exact carried.elim
    case keyOffer | roomKeyOffer =>
      cases payload with
      | chat chat => cases plain _ chat decoded
      | _ => exact carried.elim
    all_goals rw [handleClientData_run free decoded]
    case register =>
      cases payload with
      | register nickname =>
        have short := (decodeString_ok (decodePayload_register parsed).2).2
        exact caught_keyless (registerNickname_keyless found short)
      | _ => exact carried.elim
    case listUsers => exact caught_keyless (listUsers_keyless _)
    all_goals exact caught_keyless (sendError_keyless (ascii "Unsupported message type"))

theorem offer_sends {sender : ClientRecord} {frame : Frame} {type : MsgType} {chat : ChatPayload}
    {peerId : UInt32} (sound : server.registry.Sound) (complete : server.registry.Complete)
    (found : server.registry.findByFd fd = some sender) (notBanned : sender.id ∉ server.bannedIds)
    (decoded : decodeAppMessage frame = .ok { type, payload := .chat chat })
    (tag : chat.recipientTag = kRecipientById) (data : readU32Be chat.recipientData = some peerId) :
    (∃ targetFd target, server.registry.findByFd targetFd = some target ∧ target.id = peerId ∧
        peerId ∉ server.bannedIds ∧
        sends ((handleClientData fd (some frame)).run server).output =
          [(targetFd, deliverType type, writeU32Be sender.id ++ stringBytes chat.text)]) ∨
      (∀ other receiver, server.registry.findByFd other = some receiver →
        ¬ (receiver.id = peerId ∧ peerId ∉ server.bannedIds)) ∧
        ∃ text,
          sends ((handleClientData fd (some frame)).run server).output = [(fd, .error, text)] := by
  obtain ⟨recipient, target, ⟨sameTag, sameData⟩, -, resolved, run⟩ :=
    handleClientData_chat found notBanned decoded
  have unicast : chat.recipientTag ≠ kRecipientBroadcast := by
    rw [tag]
    decide
  have names (record : ClientRecord) : Names chat record ↔ peerId = record.id := by
    simp [Names, tag, data, kRecipientById, kRecipientByNickname]
  have resolves := resolves_iff_names sound complete sameTag sameData
  rw [run, sends_display, if_neg unicast]
  cases target with
  | ok targetFd =>
    obtain ⟨record, listed, named, free⟩ := (resolves targetFd).mp (unicastTarget_eq_ok.mp resolved)
    have same := (names record).mp named
    exact .inl ⟨targetFd, record, listed, same.symm, same ▸ free, rfl⟩
  | error text =>
    refine .inr ⟨?_, _, sends_relayedTo_error _ _ _ _⟩
    rintro other receiver listed ⟨same, free⟩
    have target :=
      (resolves other).mpr ⟨receiver, listed, (names receiver).mpr same.symm, same ▸ free⟩
    have found : unicastTarget server chat (label recipient) = .ok (.ok other) :=
      unicastTarget_eq_ok.mpr target
    cases found.symm.trans resolved

theorem step_frame {frame : Frame}
    (free : ¬ ∃ client ∈ server.registry.findByFd fd, server.isBanned client.id) :
    step server (.data fd (some frame)) = server ∨
      ∃ nickname, MayRegister server fd nickname ∧
        step server (.data fd (some frame)) = server.rename fd nickname := by
  simp only [step, Event.action, handleClientData, Action.state_tryCatch (catchException_keeps fd),
    Action.run_bind, Action.run_get, Outcome.andThen_ok, Outcome.before_nil, if_neg free, receive]
  cases decodeAppMessage frame with
  | error failure => exact .inl rfl
  | ok message =>
    rcases dispatch_state server fd message with same | ⟨nickname, -, may, renamed⟩
    · exact .inl same
    · exact .inr ⟨nickname, may, renamed⟩

def Event.connection? : Event → Option Fd
  | .remove fd | .data fd _ => some fd
  | .accept _ _ | .ban _ | .requestStop | .disconnectAll => none

def OnlyRemoves (server : ServerViewModel) (fd : Fd) (record : ClientRecord) (event : Event) :
    Prop :=
  ∃ others : List Fd, others.Nodup ∧
    (∀ other, other ∈ others ↔ other ∈ server.registry.allFds ∧ other ≠ fd) ∧
    event.action.run server =
      ⟨server.drop fd,
        .display (.clientDisconnected record.id record.nickname) :: .close fd ::
          others.map fun other =>
            .send other .userLeft (userBytes { id := record.id, nickname := record.nickname }),
        .ok ()⟩

theorem removeClient_onlyRemoves {server : ServerViewModel} {fd : Fd} {record : ClientRecord}
    (fits : ∀ fd record, server.registry.findByFd fd = some record → RecordFits fd record)
    (found : server.registry.findByFd fd = some record) :
    OnlyRemoves server fd record (.remove fd) := by
  refine ⟨(server.drop fd).registry.allFds, (server.drop fd).registry.clientsByFd.keys_nodup,
    fun other => mem_allFds_drop, ?_⟩
  have nonnegative : (server.drop fd).registry.allFds.filter (· ≠ -1) =
      (server.drop fd).registry.allFds := by
    refine List.filter_eq_self.mpr fun other listed => decide_eq_true ?_
    rintro rfl
    obtain ⟨client, here⟩ := mem_allFds.mp (mem_allFds_drop.mp listed).1
    exact (fits _ client here).nonnegative (by decide)
  rw [← nonnegative]
  exact removeClient_run found (fits fd record found).short

theorem banned_onlyRemoves {server : ServerViewModel} {fd : Fd} {record : ClientRecord}
    {event : Event}
    (fits : ∀ fd record, server.registry.findByFd fd = some record → RecordFits fd record)
    (found : server.registry.findByFd fd = some record) (banned : record.id ∈ server.bannedIds)
    (touches : event.connection? = some fd) : OnlyRemoves server fd record event := by
  have removal := removeClient_onlyRemoves fits found
  cases event with
  | remove other =>
    obtain rfl := Option.some.inj touches
    exact removal
  | data other incoming =>
    obtain rfl := Option.some.inj touches
    obtain ⟨others, distinct, remaining, run⟩ := removal
    refine ⟨others, distinct, remaining, ?_⟩
    exact (handleClientData_banned found (fits _ record found).short banned incoming).trans run
  | _ => cases touches

theorem closed_onlyRemoves {server : ServerViewModel} {fd : Fd} {record : ClientRecord}
    (fits : ∀ fd record, server.registry.findByFd fd = some record → RecordFits fd record)
    (found : server.registry.findByFd fd = some record) (running : server.running = true) :
    OnlyRemoves server fd record (.data fd none) := by
  by_cases banned : record.id ∈ server.bannedIds
  · exact banned_onlyRemoves fits found banned rfl
  · obtain ⟨others, distinct, remaining, run⟩ := removeClient_onlyRemoves fits found
    refine ⟨others, distinct, remaining, ?_⟩
    have closed := handleClientData_closed (not_silenced found banned)
    rw [if_pos running] at closed
    exact closed.trans (by rw [show (removeClient fd).run server = _ from run, Outcome.orElse_ok])

def Hears (server : ServerViewModel) (fd : Fd) : Prop :=
  ∃ record, server.registry.findByFd fd = some record ∧ record.id ∉ server.bannedIds

-- An answer to the sender, or a message of the sender passed on to a client that is not banned.
inductive Answers (server : ServerViewModel) (fd : Fd) (sender : ClientRecord) :
    Fd × MsgType × Bytes → Prop
  | refuses (text : Bytes) : Answers server fd sender (fd, .error, text)
  | lists {payload : Bytes} (encoded : encodeUsersList server.registry.collectUsers = .ok payload) :
      Answers server fd sender (fd, .usersList, payload)
  | passes {other : Fd} {type : MsgType} {payload text : Bytes} (short : text.length ≤ kMaxU16Count)
      (signed : payload = writeU32Be sender.id ++ stringBytes text) (hears : Hears server other)
      (relayed : type = .deliver ∨ type = .peerKey ∨ type = .roomKey) :
      Answers server fd sender (other, type, payload)

-- The client goes, takes a name, or is answered by a server that stays as it is.
inductive DataOutcome (server : ServerViewModel) (fd : Fd) (sender : ClientRecord)
    (incoming : Option Frame) : Prop
  | removed (cause : sender.id ∈ server.bannedIds ∨ incoming = none ∧ server.running = true)
      (only : OnlyRemoves server fd sender (.data fd incoming))
  | named {frame : Frame} {nickname : Bytes} (arrived : incoming = some frame)
      (notBanned : sender.id ∉ server.bannedIds)
      (decoded : decodeAppMessage frame = .ok { type := .register, payload := .register nickname })
      (may : MayRegister server fd nickname) (short : nickname.length ≤ kMaxU16Count)
      (run : (handleClientData fd incoming).run server =
        ⟨server.rename fd nickname,
          .display (.clientRegistered sender.id nickname) ::
            (((server.rename fd nickname).registry.allFds.filter (· ≠ fd)).map fun other =>
              .send other .userJoined (userBytes { id := sender.id, nickname })),
          .ok ()⟩)
  | answered (notBanned : sender.id ∉ server.bannedIds)
      (same : ((handleClientData fd incoming).run server).state = server)
      (answers : ∀ sent ∈ sends ((handleClientData fd incoming).run server).output,
        Answers server fd sender sent)

theorem relay_answers {frame : Frame} {sender : ClientRecord} {type : MsgType} {chat : ChatPayload}
    (sound : server.registry.Sound) (found : server.registry.findByFd fd = some sender)
    (notBanned : sender.id ∉ server.bannedIds)
    (decoded : decodeAppMessage frame = .ok { type, payload := .chat chat }) :
    ((handleClientData fd (some frame)).run server).state = server ∧
      ∀ sent ∈ sends ((handleClientData fd (some frame)).run server).output,
        Answers server fd sender sent := by
  obtain ⟨recipient, target, -, short, resolved, run⟩ :=
    handleClientData_chat found notBanned decoded
  obtain ⟨bytes, -, parsed⟩ := decodeAppMessage_ok decoded
  have relayed : deliverType type = .deliver ∨ deliverType type = .peerKey ∨
      deliverType type = .roomKey := by
    rcases (decodePayload_chat parsed).1 with rfl | rfl | rfl <;> simp [deliverType]
  rw [run, sends_display]
  refine ⟨rfl, fun sent member => ?_⟩
  split_ifs at member
  · rw [sends_map_send] at member
    obtain ⟨other, listed, rfl⟩ := List.mem_map.mp member
    exact .passes short rfl (mem_broadcastTargets.mp listed).2 relayed
  · cases target with
    | error text =>
      rw [sends_relayedTo_error, List.mem_singleton] at member
      exact member ▸ .refuses _
    | ok targetFd =>
      obtain rfl : sent = (targetFd, _, _) := by simpa [relayedTo, sends, Effect.sent?] using member
      exact .passes short rfl ((unicastTarget_eq_ok.mp resolved).names sound) relayed

theorem answered_outcome {sender : ClientRecord} {frame : Frame} {action : ServerM Unit}
    (notBanned : sender.id ∉ server.bannedIds)
    (run : (handleClientData fd (some frame)).run server =
      (action.run server).orElse (catchException fd)) (keeps : action.Keeps)
    (answers : ∀ sent ∈ sends (action.run server).output, Answers server fd sender sent) :
    DataOutcome server fd sender (some frame) := by
  refine .answered notBanned ?_ ?_
  · rw [run]
    exact (Action.state_tryCatch (catchException_keeps fd) server).trans (keeps server)
  · rw [run]
    exact caught_sent answers .refuses

theorem sendError_answers {sender : ClientRecord} (text : Bytes) :
    ∀ sent ∈ sends ((sendError fd text).run server).output, Answers server fd sender sent :=
  fun _ member => sendError_sent member ▸ .refuses _

theorem register_outcome {sender : ClientRecord} {frame : Frame} {nickname : Bytes}
    (found : server.registry.findByFd fd = some sender) (notBanned : sender.id ∉ server.bannedIds)
    (decoded : decodeAppMessage frame = .ok { type := .register, payload := .register nickname }) :
    DataOutcome server fd sender (some frame) := by
  obtain ⟨bytes, -, parsed⟩ := decodeAppMessage_ok decoded
  have short := (decodeString_ok (decodePayload_register parsed).2).2
  have run : (handleClientData fd (some frame)).run server =
      ((registerNickname fd nickname).run server).orElse (catchException fd) :=
    handleClientData_run (not_silenced found notBanned) decoded
  by_cases may : MayRegister server fd nickname
  · refine .named rfl notBanned decoded may short ?_
    rw [run, registerNickname_run found may short, Outcome.orElse_ok]
  · obtain ⟨text, -, refused⟩ := registerNickname_refused found may
    rw [refused] at run
    exact answered_outcome notBanned run (sendError_keeps fd _) (sendError_answers _)

theorem frame_outcome {sender : ClientRecord} (sound : server.registry.Sound)
    (found : server.registry.findByFd fd = some sender) (notBanned : sender.id ∉ server.bannedIds)
    (frame : Frame) : DataOutcome server fd sender (some frame) := by
  have free := not_silenced found notBanned
  cases decoded : decodeAppMessage frame with
  | error failure =>
    have run := handleClientData_undecoded free decoded
    refine .answered notBanned (run ▸ catchException_keeps fd failure server) fun sent member => ?_
    rw [run] at member
    obtain ⟨text, rfl⟩ := catchException_sent member
    exact .refuses text
  | ok message =>
    obtain ⟨type, payload⟩ := message
    obtain ⟨bytes, -, parsed⟩ := decodeAppMessage_ok decoded
    have carried := decodePayload_carries parsed
    have run := handleClientData_run free decoded
    cases type
    case chat | keyOffer | roomKeyOffer =>
      cases payload with
      | chat chat =>
        obtain ⟨same, answers⟩ := relay_answers sound found notBanned decoded
        exact .answered notBanned same answers
      | _ => exact carried.elim
    case register =>
      cases payload with
      | register nickname => exact register_outcome found notBanned decoded
      | _ => exact carried.elim
    case listUsers =>
      refine answered_outcome notBanned run (listUsers_keeps fd _) fun sent member => ?_
      obtain ⟨payload, encoded, rfl⟩ := listUsers_sent member
      exact .lists encoded
    all_goals exact answered_outcome notBanned run (sendError_keeps fd _) (sendError_answers _)

theorem data_cases {sender : ClientRecord} (sound : server.registry.Sound)
    (fits : ∀ fd record, server.registry.findByFd fd = some record → RecordFits fd record)
    (found : server.registry.findByFd fd = some sender) (incoming : Option Frame) :
    DataOutcome server fd sender incoming := by
  by_cases banned : sender.id ∈ server.bannedIds
  · exact .removed (.inl banned) (banned_onlyRemoves fits found banned rfl)
  · cases incoming with
    | none =>
      by_cases running : server.running = true
      · exact .removed (.inr ⟨rfl, running⟩) (closed_onlyRemoves fits found running)
      · have silent := handleClientData_closed (not_silenced found banned)
        rw [if_neg running] at silent
        exact .answered banned (by simp [silent]) (by simp [silent, sends])
    | some frame => exact frame_outcome sound found banned frame

end ModbusChat.Server
