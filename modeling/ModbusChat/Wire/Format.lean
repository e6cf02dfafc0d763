import ModbusChat.Wire.Bounds

set_option autoImplicit false

namespace ModbusChat.Wire

open BigEndian Effects

/--
The payloads of a message type: the encoding of the value and whatever follows it. Only `AssignId`
takes more than its encoder writes, as its flag may be left out and be any byte.
-/
def MsgType.Reads (type : MsgType) (payload : Bytes) (value : AppPayload) : Prop :=
  match type with
  | .assignId =>
    ∃ id rest, payload = writeU32Be id ++ rest ∧ value = .assignId id (rest.headD 0 != 0)
  | _ => value.Addressed ∧ ∃ bytes, encodePayload type value = .ok bytes ∧ bytes <+: payload

theorem decodePayload_iff {payload : Bytes} {type : MsgType} {value : AppPayload} :
    decodePayload payload type = .ok value ↔ type.Reads payload value := by
  constructor
  · intro decoded
    cases type
    case assignId => exact decodeAssignId_iff.mp decoded
    case register | error =>
      obtain ⟨text, textRead, decoded⟩ := bind_eq_ok.mp decoded
      obtain rfl := Except.ok.inj decoded
      obtain ⟨short, rest, rfl⟩ := decodeString_iff.mp textRead
      exact ⟨trivial, stringBytes text, encodeString_eq_ok.mpr ⟨short, rfl⟩, rest, rfl⟩
    case chat | keyOffer | roomKeyOffer =>
      obtain ⟨chat, chatRead, decoded⟩ := bind_eq_ok.mp decoded
      obtain rfl := Except.ok.inj decoded
      obtain ⟨recipient, short, rest, rfl⟩ := decodeChatPayload_iff.mp chatRead
      exact ⟨recipient, _, encodeChat_eq_ok.mpr ⟨short, rfl⟩, rest, by simp⟩
    case deliver | peerKey | roomKey =>
      obtain ⟨fromId, text, rfl, short, rest, rfl⟩ := decodeDeliverPayload_iff.mp decoded
      exact ⟨trivial, _, encodeDeliver_eq_ok.mpr ⟨short, rfl⟩, rest, by simp⟩
    case userJoined | userLeft =>
      obtain ⟨⟨info, after⟩, infoRead, decoded⟩ := bind_eq_ok.mp decoded
      obtain rfl := Except.ok.inj decoded
      obtain ⟨short, -, rest, rfl⟩ := (@decodeUserInfo_iff [] _ _ _).mp infoRead
      exact ⟨trivial, userBytes info, encodeUserInfo_eq_ok.mpr ⟨short, rfl⟩, rest, rfl⟩
    case listUsers =>
      obtain rfl := Except.ok.inj decoded
      exact ⟨trivial, [], rfl, payload, rfl⟩
    case usersList =>
      obtain ⟨users, rfl, count, short, rest, rfl⟩ := decodeUsersList_iff.mp decoded
      exact ⟨trivial, _, encodeUsersList_eq_ok.mpr ⟨count, short, rfl⟩, rest, by simp⟩
    case bannedIds =>
      obtain ⟨ids, rfl, count, rest, rfl⟩ := decodeBannedIds_iff.mp decoded
      exact ⟨trivial, _, encodeBannedIds_eq_ok.mpr ⟨count, rfl⟩, rest, by simp⟩
  · intro reads
    cases type
    case assignId => exact decodeAssignId_iff.mpr reads
    all_goals
      obtain ⟨addressed, bytes, encoded, rest, rfl⟩ := reads
      exact decodePayload_append addressed encoded rest

theorem decodeAppMessage_iff {frame : Frame} {message : AppMessage} :
    decodeAppMessage frame = .ok message ↔
      ∃ payload, frame.pdu = kAppFunctionCode :: message.type.toUInt8 :: payload ∧
        message.type.Reads payload message.payload := by
  constructor
  · intro decoded
    obtain ⟨payload, pdu, parsed⟩ := decodeAppMessage_split decoded
    exact ⟨payload, pdu, decodePayload_iff.mp parsed⟩
  · rintro ⟨payload, pdu, reads⟩
    -- Of a frame, only the PDU is looked at.
    have same : decodeAppMessage frame = decodeAppMessage (makeFrame message.type payload) := by
      obtain ⟨transactionId, unitId, _⟩ := frame
      obtain rfl := pdu
      rfl
    rw [same, decodeAppMessage_frame, decodePayload_iff.mpr reads, ok_bind, except_pure]

theorem MsgType.Reads.encodes {type : MsgType} {payload : Bytes} {value : AppPayload}
    (reads : type.Reads payload value) :
    value.Addressed ∧ ∃ bytes, encodePayload type value = .ok bytes ∧
      (type ≠ .assignId → bytes <+: payload) := by
  cases type
  case assignId =>
    obtain ⟨id, rest, -, rfl⟩ := reads
    exact ⟨trivial, _, rfl, fun other => absurd rfl other⟩
  all_goals
    obtain ⟨addressed, bytes, encoded, start⟩ := reads
    exact ⟨addressed, bytes, encoded, fun _ => start⟩

theorem decodeAppMessage_exact (frame : Frame) :
    (∀ message, decodeAppMessage frame = .ok message ↔
      ∃ payload, frame.pdu = kAppFunctionCode :: message.type.toUInt8 :: payload ∧
        message.type.Reads payload message.payload) ∧
    (∀ message, decodeAppMessage frame = .ok message →
      message.type.Carries message.payload ∧
        ∃ bytes, encodePayload message.type message.payload = .ok bytes ∧
          (message.type ≠ .assignId → bytes <+: frame.pdu.drop kPduAppHeaderSize) ∧
          ∀ transactionId,
            decodeAppMessage (makeFrame message.type bytes transactionId) = .ok message) ∧
    decodeAppMessage frame ≠ .error .outOfBounds := by
  refine ⟨fun message => decodeAppMessage_iff, ?_, decodeAppMessage_bounded frame⟩
  intro message decoded
  obtain ⟨payload, pdu, parsed⟩ := decodeAppMessage_split decoded
  obtain ⟨addressed, bytes, encoded, start⟩ := (decodePayload_iff.mp parsed).encodes
  refine ⟨decodePayload_carries parsed, bytes, encoded, ?_, ?_⟩
  · rw [pdu]
    exact start
  · intro transactionId
    rw [decodeAppMessage_frame, decodePayload_encodePayload addressed encoded, ok_bind, except_pure]

theorem decodeAppMessage_exact_flagless :
    decodeAppMessage { pdu := [0x41, 0x02, 0, 0, 0, 7] } =
        .ok { type := .assignId, payload := .assignId 7 false } ∧
      MsgType.Carries .assignId (.assignId 7 false) := by
  have decoded : decodeAppMessage { pdu := [0x41, 0x02, 0, 0, 0, 7] } =
      .ok { type := .assignId, payload := .assignId 7 false } := by decide
  exact ⟨decoded, ((decodeAppMessage_exact _).2.1 _ decoded).1⟩

end ModbusChat.Wire
