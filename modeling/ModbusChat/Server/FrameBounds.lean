import ModbusChat.Server.Presence
import ModbusChat.Wire.Brevity
import ModbusChat.Wire.Stream

set_option autoImplicit false

namespace ModbusChat.Server

open BigEndian Effects Wire

/--
A message goes out well formed: the length field counts its PDU exactly, its receiver decodes what
the sender built, and the next read starts right behind it.
-/
def WellFramed (type : MsgType) (payload : Bytes) : Prop :=
  let frame := makeFrame type payload
  (lengthField frame).toNat = frame.pdu.length + 1 ∧
  (∃ value, encodePayload type value = .ok payload ∧
    decodeAppMessage frame = .ok { type, payload := value }) ∧
  ∀ (more : Bytes) (chunks : List Bytes) (after : List Arrival), (∀ chunk ∈ chunks, chunk ≠ []) →
    chunks.flatten = encode frame ++ more →
    ∃ remaining : List Bytes, (∀ chunk ∈ remaining, chunk ≠ []) ∧ remaining.flatten = more ∧
      readFrame (arriving chunks after) = .ok (.done frame (arriving remaining after))

theorem wellFramed_iff {type : MsgType} {payload : Bytes} {value : AppPayload}
    (built : encodePayload type value = .ok payload) (addressed : value.Addressed) :
    WellFramed type payload ↔ payload.length ≤ 65532 := by
  have size : (makeFrame type payload).pdu.length = payload.length + 2 := rfl
  have small : (makeFrame type payload).pdu.length ≤ 65534 ↔ payload.length ≤ 65532 := by omega
  rw [← small]
  constructor
  · intro framed
    exact (lengthField_exact _).mp framed.1
  · intro fits
    refine ⟨(lengthField_exact _).mpr fits, ⟨value, built, ?_⟩, ?_⟩
    · rw [decodeAppMessage_frame, decodePayload_encodePayload addressed built, ok_bind, except_pure]
    · intro more chunks after nonempty stream
      exact readFrame_arriving _ fits more chunks after nonempty stream

theorem wellFramed_error_iff {text : Bytes} (short : text.length ≤ kMaxU16Count) :
    WellFramed .error (stringBytes text) ↔ text.length ≤ 65530 := by
  have built : encodePayload .error (.error text) = .ok (stringBytes text) :=
    encodeString_eq_ok.mpr ⟨short, rfl⟩
  rw [wellFramed_iff built trivial, stringBytes_length]
  omega

theorem wellFramed_presence_iff {type : MsgType} (presence : type = .userJoined ∨ type = .userLeft)
    {id : UInt32} {nickname : Bytes} (short : nickname.length ≤ kMaxU16Count) :
    WellFramed type (userBytes { id, nickname }) ↔ nickname.length ≤ 65526 := by
  have size : (userBytes { id, nickname }).length = 6 + nickname.length := userBytes_length _
  have encoded : encodeUserInfo { id, nickname } = .ok (userBytes { id, nickname }) :=
    encodeUserInfo_eq_ok.mpr ⟨short, rfl⟩
  rcases presence with rfl | rfl
  · have built : encodePayload .userJoined (.userJoined id nickname) = _ := encoded
    rw [wellFramed_iff built trivial]
    omega
  · have built : encodePayload .userLeft (.userLeft id nickname) = _ := encoded
    rw [wellFramed_iff built trivial]
    omega

theorem wellFramed_chat_iff {type : MsgType} (relayed : type = .chat ∨ type = .keyOffer)
    {chat : ChatPayload} {recipient : Recipient} (tag : chat.recipientTag = recipient.tag)
    (data : recipient.data = .ok chat.recipientData) {payload : Bytes}
    (built : encodeChat chat = .ok payload) :
    WellFramed type payload ↔ 7 + chat.recipientData.length + chat.text.length ≤ 65532 := by
  have encoded : encodePayload type (.chat chat) = .ok payload := by
    rcases relayed with rfl | rfl
    · exact built
    · exact built
  rw [wellFramed_iff encoded ⟨recipient, tag, data⟩, (encodeChat_eq_ok.mp built).2]
  simp only [List.length_append, List.length_cons, writeU32Be_length, stringBytes_length]
  omega

def PresenceFits (server : ServerViewModel) (fd : Fd) (nickname : Bytes) : Prop :=
  nickname.length ≤ 65526 ∨ ∀ other ∈ server.registry.allFds, other = fd

-- A text that is too long for a string is replaced by a short one.
def ErrorFits (text : Bytes) : Prop := text.length ≤ 65530 ∨ kMaxU16Count < text.length

-- A list of too many users is refused before it is written.
def ListFits (users : List UserInfo) : Prop :=
  kMaxU16Count < users.length ∨
    kUint16Size + (users.map fun user => 6 + user.nickname.length).sum ≤ 65532

/--
The sizes, before the message is handled, that keep every answer to it within its length field.
-/
def AnswersFit (server : ServerViewModel) (fd : Fd) (sender : ClientRecord) (frame : Frame) :
    Prop :=
  if sender.id ∈ server.bannedIds then PresenceFits server fd sender.nickname
  else
    match decodeAppMessage frame with
    | .ok { type := .register, payload := .register nickname } =>
        MayRegister server fd nickname → PresenceFits server fd nickname
    | .ok { type := .listUsers, payload := _ } => ListFits server.registry.collectUsers
    | .ok { type := _, payload := .chat chat } =>
        chat.recipientTag ≠ kRecipientBroadcast → ∀ toLabel text,
          ClientRegistry.recipientLabel chat = .ok toLabel →
          unicastTarget server chat toLabel = .ok (.error text) → ErrorFits text
    | _ => True

theorem presence_framed_iff {server : ServerViewModel} {fd : Fd} {targets : List Fd}
    {type : MsgType}
    {id : UInt32} {nickname : Bytes} (presence : type = .userJoined ∨ type = .userLeft)
    (short : nickname.length ≤ kMaxU16Count)
    (members : ∀ other, other ∈ targets ↔ other ∈ server.registry.allFds ∧ other ≠ fd) :
    (∀ sent ∈ sends (targets.map fun other => .send other type (userBytes { id, nickname })),
      WellFramed sent.2.1 sent.2.2) ↔ PresenceFits server fd nickname := by
  rw [sends_map_send, List.forall_mem_map]
  simp only [wellFramed_presence_iff presence short, PresenceFits, members]
  constructor
  · intro framed
    by_cases small : nickname.length ≤ 65526
    · exact .inl small
    · right
      intro other member
      by_contra apart
      exact small (framed other ⟨member, apart⟩)
  · rintro (small | alone) other ⟨member, apart⟩
    · exact small
    · exact absurd (alone other member) apart

theorem brief_framed {text : String} (brief : (ascii text).length ≤ 64) :
    WellFramed .error (stringBytes (ascii text)) := by
  rw [wellFramed_error_iff (by rw [kMaxU16Count]; omega)]
  omega

theorem caught_framed {server : ServerViewModel} {fd : Fd} {failure : Failure}
    (brief : Brief failure) :
    ∀ sent ∈ sends ((catchException fd failure).run server).output,
      WellFramed sent.2.1 sent.2.2 := by
  unfold catchException
  cases text : failure.what? with
  | none => simp [sends]
  | some what =>
    have small := brief what text
    simp only [display, Action.run_bind, Action.run_emit, Outcome.andThen_ok, sendError_run,
      show (ascii what).length ≤ kMaxU16Count by rw [kMaxU16Count]; omega, if_true,
      Outcome.before_mk, List.cons_append, List.nil_append, sends_display]
    intro sent member
    obtain rfl : sent = (fd, .error, stringBytes (ascii what)) := by
      simpa [sends, Effect.sent?] using member
    exact brief_framed small

theorem sendError_framed {server : ServerViewModel} {fd : Fd} {text : String}
    (brief : (ascii text).length ≤ 64) :
    ∀ sent ∈ sends (((sendError fd (ascii text)).run server).orElse (catchException fd)).output,
      WellFramed sent.2.1 sent.2.2 := by
  have short : (ascii text).length ≤ kMaxU16Count := by rw [kMaxU16Count]; omega
  intro sent member
  rw [sendError_run, if_pos short] at member
  obtain rfl : sent = (fd, .error, stringBytes (ascii text)) := by
    simpa [sends, Effect.sent?] using member
  exact brief_framed brief

section Answers

variable {server : ServerViewModel} {fd : Fd} {sender : ClientRecord} {frame : Frame}

theorem banned_framed_iff (found : server.registry.findByFd fd = some sender)
    (fit : ∀ other record, server.registry.findByFd other = some record → RecordFits other record)
    (banned : sender.id ∈ server.bannedIds) :
    (∀ sent ∈ sends ((handleClientData fd (some frame)).run server).output,
      WellFramed sent.2.1 sent.2.2) ↔ PresenceFits server fd sender.nickname := by
  have short := (fit fd sender found).short
  rw [handleClientData_banned found short banned, removeClient_run found short]
  refine presence_framed_iff (.inr rfl) short fun other => ?_
  simp only [List.mem_filter, mem_allFds_drop, decide_eq_true_eq]
  constructor
  · exact And.left
  · intro member
    refine ⟨member, ?_⟩
    rintro rfl
    obtain ⟨record, here⟩ := mem_allFds.mp member.1
    exact absurd (fit _ record here).nonnegative (by decide)

theorem undecoded_framed {failure : Failure}
    (notBanned : ¬ ∃ client ∈ server.registry.findByFd fd, server.isBanned client.id)
    (undecoded : decodeAppMessage frame = .error failure) :
    ∀ sent ∈ sends ((handleClientData fd (some frame)).run server).output,
      WellFramed sent.2.1 sent.2.2 := by
  rw [handleClientData_undecoded notBanned undecoded]
  exact caught_framed (decodeAppMessage_brief frame failure undecoded)

theorem register_framed_iff {nickname : Bytes} (found : server.registry.findByFd fd = some sender)
    (short : nickname.length ≤ kMaxU16Count) :
    (∀ sent ∈ sends (((registerNickname fd nickname).run server).orElse (catchException fd)).output,
      WellFramed sent.2.1 sent.2.2) ↔
        (MayRegister server fd nickname → PresenceFits server fd nickname) := by
  by_cases may : MayRegister server fd nickname
  · rw [registerNickname_run found may short]
    simp only [Outcome.orElse_ok, may, true_imp_iff, sends_display]
    refine presence_framed_iff (.inl rfl) short fun other => ?_
    simp only [List.mem_filter, mem_allFds_rename, decide_eq_true_eq]
  · obtain ⟨text, brief, run⟩ := registerNickname_refused found may
    rw [run]
    simp only [may, false_imp_iff, iff_true]
    exact sendError_framed brief

theorem listUsers_framed_iff
    (fit : ∀ other record, server.registry.findByFd other = some record → RecordFits other record)
    (message : AppMessage) :
    (∀ sent ∈ sends (((listUsersMessageHandler.handle fd message).run server).orElse
      (catchException fd)).output, WellFramed sent.2.1 sent.2.2) ↔
        ListFits server.registry.collectUsers := by
  have short := ClientRegistry.collectUsers_short fit
  generalize listed : server.registry.collectUsers = users at short
  have size :
      (users.flatMap userBytes).length = (users.map fun user => 6 + user.nickname.length).sum := by
    simp [List.length_flatMap]
  simp only [listUsersMessageHandler, Action.run_bind, Action.run_get, Outcome.andThen_ok,
    Outcome.before_nil, Action.run_lift, listed]
  by_cases few : users.length ≤ kMaxU16Count
  · have built := encodeUsersList_eq_ok.mpr ⟨few, short, rfl⟩
    have encoded : encodePayload .usersList (.usersList users) = _ := built
    simp only [built, Outcome.andThen_ok, send, Action.run_emit, Outcome.before_mk,
      Outcome.orElse_ok, List.nil_append, sends, Effect.sent?, List.filterMap_cons,
      List.filterMap_nil, List.mem_singleton, forall_eq]
    rw [wellFramed_iff encoded trivial, List.length_append, size, writeU16Be_length, ListFits,
      kUint16Size]
    omega
  · have refused : encodeUsersList users = .error (.runtimeError "Too many users") := by
      simp [encodeUsersList, show users.length > kMaxU16Count by omega]
    simp only [refused, Outcome.andThen_error, Outcome.orElse_error, ListFits,
      show kMaxU16Count < users.length by omega, true_or, iff_true, Outcome.before_nil]
    refine caught_framed ?_
    rintro _ ⟨⟩
    decide

theorem chat_framed_iff {type : MsgType} {chat : ChatPayload}
    (found : server.registry.findByFd fd = some sender) (notBanned : sender.id ∉ server.bannedIds)
    (decoded : decodeAppMessage frame = .ok { type, payload := .chat chat })
    (fits : frame.pdu.length ≤ 65534) :
    (∀ sent ∈ sends ((handleClientData fd (some frame)).run server).output,
      WellFramed sent.2.1 sent.2.2) ↔
        (chat.recipientTag ≠ kRecipientBroadcast → ∀ toLabel text,
          ClientRegistry.recipientLabel chat = .ok toLabel →
          unicastTarget server chat toLabel = .ok (.error text) → ErrorFits text) := by
  obtain ⟨recipient, target, ⟨tag, data⟩, short, resolved, run⟩ :=
    handleClientData_chat found notBanned decoded
  obtain ⟨payload, read, parsed⟩ := decodeAppMessage_ok decoded
  obtain ⟨isRelayed, chatDecoded⟩ := decodePayload_chat parsed
  -- The header of a chat is longer than that of a delivery, so the text fits again.
  have textSize : 6 + chat.text.length ≤ 65532 := by
    have inside := (decodeChatPayload_ok chatDecoded).2.2
    have size := (suffix_ok read).2
    simp only [kChatHeaderSize, kUint32Size, kUint16Size, kPduAppHeaderSize] at inside size
    omega
  have relayed : WellFramed (deliverType type) (writeU32Be sender.id ++ stringBytes chat.text) := by
    have encoded : encodePayload (deliverType type) (.deliver sender.id chat.text) =
        .ok (writeU32Be sender.id ++ stringBytes chat.text) := by
      rcases isRelayed with rfl | rfl | rfl <;> exact encodeDeliver_eq_ok.mpr ⟨short, rfl⟩
    rw [wellFramed_iff encoded trivial, List.length_append, writeU32Be_length, stringBytes_length]
    omega
  rw [run]
  by_cases broadcast : chat.recipientTag = kRecipientBroadcast
  · rw [if_pos broadcast, sends_display, sends_map_send, List.forall_mem_map]
    simp [broadcast, relayed]
  · have condition : (chat.recipientTag ≠ kRecipientBroadcast → ∀ toLabel text,
        ClientRegistry.recipientLabel chat = .ok toLabel →
        unicastTarget server chat toLabel = .ok (.error text) → ErrorFits text) ↔
          ∀ text, target = .error text → ErrorFits text := by
      rw [recipientLabel_eq tag data]
      constructor
      · intro small text failed
        exact small broadcast (label recipient) text rfl (failed ▸ resolved)
      · rintro small - toLabel text ⟨⟩ failed
        exact small text (Except.ok.inj (resolved.symm.trans failed))
    rw [if_neg broadcast, sends_display, condition]
    cases target with
    | ok targetFd => simp [relayedTo, sends, Effect.sent?, relayed]
    | error text =>
      simp only [sends_relayedTo_error, List.mem_singleton, forall_eq, Except.error.injEq,
        forall_eq', errorText]
      split_ifs with shortText
      · rw [wellFramed_error_iff shortText, ErrorFits]
        omega
      · exact iff_of_true (brief_framed (by decide)) (.inr (by omega))

theorem unsupported_framed {message : AppMessage}
    (unsupported : dispatch createMessageDispatcher fd message =
      sendError fd (ascii "Unsupported message type"))
    (notBanned : ¬ ∃ client ∈ server.registry.findByFd fd, server.isBanned client.id)
    (decoded : decodeAppMessage frame = .ok message) :
    ∀ sent ∈ sends ((handleClientData fd (some frame)).run server).output,
      WellFramed sent.2.1 sent.2.2 := by
  rw [handleClientData_run notBanned decoded, unsupported]
  exact sendError_framed (by decide)

/-- Every answer goes out well formed exactly when the sizes it is made from allow it. -/
theorem answers_framed_iff (reachable : Reachable server)
    (connected : server.registry.findByFd fd = some sender) (fits : frame.pdu.length ≤ 65534) :
    (∀ sent ∈ sends ((handleClientData fd (some frame)).run server).output,
      WellFramed sent.2.1 sent.2.2) ↔ AnswersFit server fd sender frame := by
  have fit := reachable_recordFits reachable
  unfold AnswersFit
  by_cases banned : sender.id ∈ server.bannedIds
  · rw [if_pos banned]
    exact banned_framed_iff connected fit banned
  · rw [if_neg banned]
    have notBanned := not_silenced connected banned
    cases decoded : decodeAppMessage frame with
    | error failure => simpa using undecoded_framed notBanned decoded
    | ok message =>
      obtain ⟨type, payload⟩ := message
      obtain ⟨bytes, -, parsed⟩ := decodeAppMessage_ok decoded
      have carried := decodePayload_carries parsed
      cases type
      case register =>
        cases payload with
        | register nickname =>
          have short := (decodeString_ok (decodePayload_register parsed).2).2
          rw [handleClientData_run notBanned decoded]
          exact register_framed_iff connected short
        | _ => exact carried.elim
      case listUsers =>
        rw [handleClientData_run notBanned decoded]
        exact listUsers_framed_iff fit _
      case chat | keyOffer | roomKeyOffer =>
        cases payload with
        | chat chat => exact chat_framed_iff connected banned decoded fits
        | _ => exact carried.elim
      all_goals
        have framed := unsupported_framed rfl notBanned decoded
        cases payload with
        | chat chat => exact carried.elim
        | _ => exact iff_of_true framed trivial

theorem answers_framed_iff_spoofed :
    (∀ sent ∈ sends ((handleClientData 3 (some spoofedFrame)).run twoClients).output,
      WellFramed sent.2.1 sent.2.2) ↔ AnswersFit twoClients 3 { fd := 3, id := 1 } spoofedFrame :=
  answers_framed_iff
    (Runs.Reachable.foldl (.start (show Initial {} from rfl)) (by decide +kernel))
    (by decide +kernel) (by decide +kernel)

end Answers

theorem twoClients_register {nickname : Bytes} (short : nickname.length ≤ kMaxU16Count)
    (nonempty : nickname ≠ []) (notReserved : nickname ≠ kBroadcastRecipient) :
    sends ((handleClientData 3 (some (makeFrame .register (stringBytes nickname)))).run
      twoClients).output = [(4, .userJoined, userBytes { id := 1, nickname })] := by
  have decoded : decodeAppMessage (makeFrame .register (stringBytes nickname)) =
      .ok { type := .register, payload := .register nickname } := by
    rw [decodeAppMessage_frame]
    simp only [decodePayload, decodeString_bytes short, ok_bind, except_pure]
  have found : twoClients.registry.findByFd 3 = some { fd := 3, id := 1 } := by decide +kernel
  have registered := registerNickname_run found ⟨⟨_, found, rfl⟩, nonempty, notReserved⟩ short
  have others : (twoClients.rename 3 nickname).registry.allFds.filter (· ≠ 3) = [4] := rfl
  have dispatched : dispatch createMessageDispatcher 3
      { type := .register, payload := .register nickname } = registerNickname 3 nickname := rfl
  rw [handleClientData_run (by decide +kernel) decoded, dispatched, registered, others]
  rfl

-- A nickname of 65527 bytes can be registered, but the others cannot be told.
theorem register_wraps {nickname : Bytes} (long : nickname.length = 65527) :
    (makeFrame .register (stringBytes nickname)).pdu.length ≤ 65534 ∧
    sends ((handleClientData 3 (some (makeFrame .register (stringBytes nickname)))).run
      twoClients).output = [(4, .userJoined, userBytes { id := 1, nickname })] ∧
    (makeFrame .userJoined (userBytes { id := 1, nickname })).pdu.length = 65535 ∧
    lengthField (makeFrame .userJoined (userBytes { id := 1, nickname })) = 0 := by
  have size : (makeFrame .userJoined (userBytes { id := 1, nickname })).pdu.length = 65535 := by
    simp only [makeFrame, List.length_cons, userBytes_length, long]
  refine ⟨?_, ?_, size, ?_⟩
  · simp only [makeFrame, List.length_cons, stringBytes_length, long]
    omega
  · refine twoClients_register (by rw [long, kMaxU16Count]; omega) ?_ ?_
    · rintro rfl
      simp at long
    · rintro rfl
      simp [kBroadcastRecipient, ascii] at long
  · rw [lengthField, size]
    decide

theorem longNickname_wraps :
    Reachable twoClients ∧
    ∃ nickname : Bytes, (makeFrame .register (stringBytes nickname)).pdu.length ≤ 65534 ∧
      sends ((handleClientData 3 (some (makeFrame .register (stringBytes nickname)))).run
        twoClients).output = [(4, .userJoined, userBytes { id := 1, nickname })] ∧
      (makeFrame .userJoined (userBytes { id := 1, nickname })).pdu.length = 65535 ∧
      lengthField (makeFrame .userJoined (userBytes { id := 1, nickname })) = 0 :=
  ⟨Runs.Reachable.foldl (.start (show Initial {} from rfl)) (by decide +kernel),
    List.replicate 65527 97, register_wraps List.length_replicate⟩

end ModbusChat.Server
