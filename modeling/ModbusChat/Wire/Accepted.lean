import ModbusChat.Wire.RoundTrip

set_option autoImplicit false

namespace ModbusChat.Wire

open BigEndian Effects

-- Each decoder accepts a buffer exactly when the encoding of a value stands at its front, and
-- returns that value. Where a decoder works at an offset, the bytes up to it are `before`.

theorem suffix_split {data rest : Bytes} {offset : Nat} (read : suffix data offset = .ok rest) :
    ∃ before, before.length = offset ∧ data = before ++ rest := by
  unfold suffix at read
  split_ifs at read with inside
  obtain rfl := Except.ok.inj read
  exact ⟨data.take offset, List.length_take_of_le inside, (List.take_append_drop offset data).symm⟩

theorem suffix_ok {data rest : Bytes} {offset : Nat} (read : suffix data offset = .ok rest) :
    offset ≤ data.length ∧ rest.length = data.length - offset := by
  obtain ⟨before, rfl, rfl⟩ := suffix_split read
  simp

theorem toNat_le_kMaxU16Count (value : UInt16) : value.toNat ≤ kMaxU16Count := by
  have := value.toNat_lt
  rw [kMaxU16Count]
  omega

theorem decodeString_iff {data value : Bytes} :
    decodeString data = .ok value ↔
      value.length ≤ kMaxU16Count ∧ ∃ rest, data = stringBytes value ++ rest := by
  constructor
  · intro decoded
    unfold decodeString at decoded
    split_ifs at decoded with short
    obtain ⟨strLen, lengthRead, decoded⟩ := bind_eq_ok.mp decoded
    split_ifs at decoded with truncated
    obtain ⟨tail, rfl⟩ := readU16Be_eq_some.mp (inBounds_eq_ok.mp lengthRead)
    rw [List.length_append, writeU16Be_length, kUint16Size] at truncated
    -- not truncated: as many bytes follow the length field as it says
    have size : (tail.take strLen.toNat).length = strLen.toNat := by
      rw [List.length_take]
      omega
    obtain rfl : tail.take strLen.toNat = value := by
      unfold slice at decoded
      split_ifs at decoded with inside
      rw [← Except.ok.inj decoded, ← List.take_drop]
      rfl
    refine ⟨?_, tail.drop strLen.toNat, ?_⟩
    · rw [size]
      exact toNat_le_kMaxU16Count strLen
    · rw [stringBytes, size, UInt16.ofNat_toNat, List.append_assoc, List.take_append_drop]
  · rintro ⟨short, rest, rfl⟩
    exact decodeString_stringBytes short rest

theorem decodeString_ok {data value : Bytes} (decoded : decodeString data = .ok value) :
    kUint16Size + value.length ≤ data.length ∧ value.length ≤ kMaxU16Count := by
  obtain ⟨short, rest, rfl⟩ := decodeString_iff.mp decoded
  refine ⟨?_, short⟩
  rw [List.length_append, stringBytes_length, kUint16Size]
  omega

theorem decodeUserInfo_iff {before tail : Bytes} {info : UserInfo} {after : Nat} :
    decodeUserInfo (before ++ tail) before.length = .ok (info, after) ↔
      info.nickname.length ≤ kMaxU16Count ∧ after = before.length + (userBytes info).length ∧
        ∃ rest, tail = userBytes info ++ rest := by
  constructor
  · intro decoded
    unfold decodeUserInfo at decoded
    split_ifs at decoded with short
    rw [suffix_append, ok_bind] at decoded
    obtain ⟨id, idRead, decoded⟩ := bind_eq_ok.mp decoded
    obtain ⟨text, rfl⟩ := readU32Be_eq_some.mp (inBounds_eq_ok.mp idRead)
    have further : suffix (before ++ (writeU32Be id ++ text)) (before.length + kUint32Size) =
        .ok text := by
      rw [← List.append_assoc]
      exact suffix_append_of_eq (by simp [kUint32Size])
    obtain ⟨string, stringRead, decoded⟩ := bind_eq_ok.mp decoded
    obtain rfl := Except.ok.inj (further.symm.trans stringRead)
    obtain ⟨nickname, nicknameRead, decoded⟩ := bind_eq_ok.mp decoded
    obtain ⟨rfl, rfl⟩ := Prod.mk.inj (Except.ok.inj decoded)
    obtain ⟨bounded, rest, rfl⟩ := decodeString_iff.mp nicknameRead
    refine ⟨bounded, ?_, rest, ?_⟩
    · simp only [userBytes_length, kUint32Size, kUint16Size]
      omega
    · rw [userBytes, List.append_assoc]
  · rintro ⟨short, rfl, rest, rfl⟩
    exact decodeUserInfo_userBytes short before rest

theorem decodeUsers_iff {before tail : Bytes} {count : Nat} {users : List UserInfo} :
    decodeUsers (before ++ tail) count before.length = .ok users ↔
      users.length = count ∧ (∀ user ∈ users, user.nickname.length ≤ kMaxU16Count) ∧
        ∃ rest, tail = users.flatMap userBytes ++ rest := by
  constructor
  · intro decoded
    -- As for the encoder's direction, what has been read moves from the tail to the front.
    induction count generalizing before tail users with
    | zero =>
      obtain rfl := Except.ok.inj decoded
      exact ⟨rfl, by simp, tail, rfl⟩
    | succ count ih =>
      obtain ⟨⟨info, after⟩, infoRead, decoded⟩ := bind_eq_ok.mp decoded
      obtain ⟨others, othersRead, decoded⟩ := bind_eq_ok.mp decoded
      obtain rfl := Except.ok.inj decoded
      obtain ⟨short, rfl, rest, rfl⟩ := decodeUserInfo_iff.mp infoRead
      rw [← List.append_assoc, ← List.length_append] at othersRead
      obtain ⟨size, shorts, rest, rfl⟩ := ih othersRead
      exact ⟨congrArg (· + 1) size, List.forall_mem_cons.mpr ⟨short, shorts⟩, rest, by simp⟩
  · rintro ⟨rfl, short, rest, rfl⟩
    exact decodeUsers_userBytes short before rest

theorem decodeIds_iff {before tail : Bytes} {count : Nat} {ids : List UInt32} :
    decodeIds (before ++ tail) count before.length = .ok ids ↔
      ids.length = count ∧ ∃ rest, tail = ids.flatMap writeU32Be ++ rest := by
  constructor
  · intro decoded
    induction count generalizing before tail ids with
    | zero =>
      obtain rfl := Except.ok.inj decoded
      exact ⟨rfl, tail, rfl⟩
    | succ count ih =>
      rw [decodeIds, suffix_append, ok_bind] at decoded
      obtain ⟨id, idRead, decoded⟩ := bind_eq_ok.mp decoded
      obtain ⟨others, othersRead, decoded⟩ := bind_eq_ok.mp decoded
      obtain rfl := Except.ok.inj decoded
      obtain ⟨rest, rfl⟩ := readU32Be_eq_some.mp (inBounds_eq_ok.mp idRead)
      have further : before.length + kUint32Size = (before ++ writeU32Be id).length := by
        simp [kUint32Size]
      rw [← List.append_assoc, further] at othersRead
      obtain ⟨size, rest, rfl⟩ := ih othersRead
      exact ⟨congrArg (· + 1) size, rest, by simp⟩
  · rintro ⟨rfl, rest, rfl⟩
    exact decodeIds_writeU32Be ids before rest

theorem decodeRecipient_iff {before tail data : Bytes} {tag : UInt8} {after : Nat} :
    decodeRecipient (before ++ tail) tag before.length = .ok (data, after) ↔
      after = before.length + data.length ∧
        (∃ recipient : Recipient, tag = recipient.tag ∧ recipient.data = .ok data) ∧
          ∃ rest, tail = data ++ rest := by
  constructor
  · intro decoded
    unfold decodeRecipient at decoded
    split_ifs at decoded with byId short byNickname broadcast
    · obtain ⟨bytes, sliced, decoded⟩ := bind_eq_ok.mp decoded
      obtain ⟨rfl, rfl⟩ := Prod.mk.inj (Except.ok.inj decoded)
      rw [List.length_append] at short
      have size : (tail.take kUint32Size).length = kUint32Size := by
        rw [List.length_take]
        omega
      obtain rfl : tail.take kUint32Size = bytes := by
        unfold slice at sliced
        split_ifs at sliced with inside
        rw [← Except.ok.inj sliced, List.take_length_add_append, List.drop_left]
      -- any four bytes are the encoding of some id
      obtain ⟨id, written⟩ := exists_writeU32Be size
      exact ⟨by rw [size], ⟨.byId id, byId, congrArg Except.ok written⟩, tail.drop kUint32Size,
        (List.take_append_drop _ _).symm⟩
    · rw [suffix_append, ok_bind] at decoded
      obtain ⟨nickname, nicknameRead, decoded⟩ := bind_eq_ok.mp decoded
      obtain ⟨bytes, encoded, decoded⟩ := bind_eq_ok.mp decoded
      obtain ⟨rfl, rfl⟩ := Prod.mk.inj (Except.ok.inj decoded)
      obtain ⟨-, rest, rfl⟩ := decodeString_iff.mp nicknameRead
      obtain ⟨-, rfl⟩ := encodeString_eq_ok.mp encoded
      exact ⟨rfl, ⟨.byNickname nickname, byNickname, encoded⟩, rest, rfl⟩
    · obtain ⟨rfl, rfl⟩ := Prod.mk.inj (Except.ok.inj decoded)
      exact ⟨rfl, ⟨.broadcast, broadcast, rfl⟩, tail, rfl⟩
  · rintro ⟨rfl, ⟨recipient, rfl, built⟩, rest, rfl⟩
    exact decodeRecipient_data built before rest

theorem decodeChatPayload_iff {payload : Bytes} {chat : ChatPayload} :
    decodeChatPayload payload = .ok chat ↔
      (∃ recipient : Recipient,
        chat.recipientTag = recipient.tag ∧ recipient.data = .ok chat.recipientData) ∧
      chat.text.length ≤ kMaxU16Count ∧
      ∃ rest, payload = writeU32Be chat.fromId ++
        (chat.recipientTag :: (chat.recipientData ++ (stringBytes chat.text ++ rest))) := by
  constructor
  · intro decoded
    unfold decodeChatPayload at decoded
    split_ifs at decoded with short
    obtain ⟨fromId, idRead, decoded⟩ := bind_eq_ok.mp decoded
    obtain ⟨tail, rfl⟩ := readU32Be_eq_some.mp (inBounds_eq_ok.mp idRead)
    obtain ⟨tag, tagRead, decoded⟩ := bind_eq_ok.mp decoded
    obtain ⟨tail, rfl⟩ : ∃ rest, tail = tag :: rest := by
      cases tail with
      | nil => exact absurd (inBounds_eq_ok.mp tagRead) (by simp [kUint32Size, writeU32Be])
      | cons byte rest =>
        obtain rfl : byte = tag := Option.some.inj (inBounds_eq_ok.mp tagRead)
        exact ⟨rest, rfl⟩
    -- the recipient is read at the offset behind the sender and the tag
    have header : writeU32Be fromId ++ tag :: tail = (writeU32Be fromId ++ [tag]) ++ tail := by simp
    rw [header] at decoded
    obtain ⟨⟨data, offset⟩, recipientRead, decoded⟩ := bind_eq_ok.mp decoded
    obtain ⟨rfl, recipient, tail, rfl⟩ :=
      (@decodeRecipient_iff (writeU32Be fromId ++ [tag]) _ _ _ _).mp recipientRead
    obtain ⟨string, stringRead, decoded⟩ := bind_eq_ok.mp decoded
    rw [← List.append_assoc _ data, ← List.length_append, suffix_append] at stringRead
    obtain rfl := Except.ok.inj stringRead
    obtain ⟨text, textRead, decoded⟩ := bind_eq_ok.mp decoded
    obtain rfl := Except.ok.inj decoded
    obtain ⟨bounded, rest, rfl⟩ := decodeString_iff.mp textRead
    exact ⟨recipient, bounded, rest, rfl⟩
  · rintro ⟨⟨recipient, tag, built⟩, short, rest, rfl⟩
    exact decodeChatPayload_append tag built short rest

theorem decodeChatPayload_ok {payload : Bytes} {chat : ChatPayload}
    (decoded : decodeChatPayload payload = .ok chat) :
    (∃ recipient : Recipient,
      chat.recipientTag = recipient.tag ∧ recipient.data = .ok chat.recipientData) ∧
    chat.text.length ≤ kMaxU16Count ∧
    kChatHeaderSize + chat.recipientData.length + (kUint16Size + chat.text.length) ≤
      payload.length := by
  obtain ⟨recipient, short, rest, rfl⟩ := decodeChatPayload_iff.mp decoded
  refine ⟨recipient, short, ?_⟩
  simp only [List.length_append, List.length_cons, writeU32Be_length, stringBytes_length,
    kChatHeaderSize, kUint32Size, kUint16Size]
  omega

theorem decodeDeliverPayload_iff {payload : Bytes} {value : AppPayload} :
    decodeDeliverPayload payload = .ok value ↔
      ∃ fromId text, value = .deliver fromId text ∧ text.length ≤ kMaxU16Count ∧
        ∃ rest, payload = writeU32Be fromId ++ (stringBytes text ++ rest) := by
  constructor
  · intro decoded
    unfold decodeDeliverPayload at decoded
    split_ifs at decoded with short
    obtain ⟨fromId, idRead, decoded⟩ := bind_eq_ok.mp decoded
    obtain ⟨tail, rfl⟩ := readU32Be_eq_some.mp (inBounds_eq_ok.mp idRead)
    have further : suffix (writeU32Be fromId ++ tail) kUint32Size = .ok tail :=
      suffix_append_of_eq rfl
    rw [further, ok_bind] at decoded
    obtain ⟨text, textRead, decoded⟩ := bind_eq_ok.mp decoded
    obtain rfl := Except.ok.inj decoded
    obtain ⟨bounded, rest, rfl⟩ := decodeString_iff.mp textRead
    exact ⟨fromId, text, rfl, bounded, rest, rfl⟩
  · rintro ⟨fromId, text, rfl, short, rest, rfl⟩
    exact decodeDeliverPayload_append short fromId rest

-- The flag of `AssignId` may be missing, and any byte but zero sets it.
theorem decodeAssignId_iff {payload : Bytes} {value : AppPayload} :
    decodeAssignId payload = .ok value ↔
      ∃ id rest, payload = writeU32Be id ++ rest ∧ value = .assignId id (rest.headD 0 != 0) := by
  constructor
  · intro decoded
    unfold decodeAssignId at decoded
    split_ifs at decoded with short flagged
    · obtain ⟨id, idRead, decoded⟩ := bind_eq_ok.mp decoded
      obtain ⟨flag, flagRead, decoded⟩ := bind_eq_ok.mp decoded
      obtain rfl := Except.ok.inj decoded
      obtain ⟨rest, rfl⟩ := readU32Be_eq_some.mp (inBounds_eq_ok.mp idRead)
      cases rest with
      | nil => simp [kUint32Size] at flagged
      | cons byte rest =>
        obtain rfl : byte = flag := Option.some.inj (inBounds_eq_ok.mp flagRead)
        exact ⟨id, byte :: rest, rfl, rfl⟩
    · obtain ⟨id, idRead, decoded⟩ := bind_eq_ok.mp decoded
      obtain rfl := Except.ok.inj decoded
      obtain ⟨rest, rfl⟩ := readU32Be_eq_some.mp (inBounds_eq_ok.mp idRead)
      cases rest with
      | nil => exact ⟨id, [], rfl, rfl⟩
      | cons byte rest => simp [kUint32Size] at flagged
  · rintro ⟨id, rest, rfl, rfl⟩
    have enough : ¬ (writeU32Be id ++ rest).length < kUint32Size := by simp [kUint32Size]
    simp only [decodeAssignId, enough, if_false, readU32Be_write, inBounds_some, ok_bind]
    cases rest with
    | nil => rfl
    | cons byte rest => rw [if_pos (by simp [kUint32Size])]; rfl

theorem decodeUsersList_iff {payload : Bytes} {value : AppPayload} :
    decodeUsersList payload = .ok value ↔
      ∃ users, value = .usersList users ∧ users.length ≤ kMaxU16Count ∧
        (∀ user ∈ users, user.nickname.length ≤ kMaxU16Count) ∧
        ∃ rest, payload = writeU16Be (UInt16.ofNat users.length) ++
          (users.flatMap userBytes ++ rest) := by
  constructor
  · intro decoded
    unfold decodeUsersList at decoded
    split_ifs at decoded with short
    obtain ⟨count, countRead, decoded⟩ := bind_eq_ok.mp decoded
    obtain ⟨users, usersRead, decoded⟩ := bind_eq_ok.mp decoded
    obtain rfl := Except.ok.inj decoded
    obtain ⟨tail, rfl⟩ := readU16Be_eq_some.mp (inBounds_eq_ok.mp countRead)
    obtain ⟨size, bounded, rest, rfl⟩ := (@decodeUsers_iff (writeU16Be count) _ _ _).mp usersRead
    refine ⟨users, rfl, ?_, bounded, rest, ?_⟩
    · rw [size]
      exact toNat_le_kMaxU16Count count
    · rw [size, UInt16.ofNat_toNat]
  · rintro ⟨users, rfl, count, short, rest, rfl⟩
    exact decodeUsersList_append count short rest

theorem decodeBannedIds_iff {payload : Bytes} {value : AppPayload} :
    decodeBannedIds payload = .ok value ↔
      ∃ ids, value = .bannedIds ids ∧ ids.length ≤ kMaxU16Count ∧
        ∃ rest, payload = writeU16Be (UInt16.ofNat ids.length) ++
          (ids.flatMap writeU32Be ++ rest) := by
  constructor
  · intro decoded
    unfold decodeBannedIds at decoded
    split_ifs at decoded with short
    obtain ⟨count, countRead, decoded⟩ := bind_eq_ok.mp decoded
    split_ifs at decoded with truncated
    obtain ⟨ids, idsRead, decoded⟩ := bind_eq_ok.mp decoded
    obtain rfl := Except.ok.inj decoded
    obtain ⟨tail, rfl⟩ := readU16Be_eq_some.mp (inBounds_eq_ok.mp countRead)
    obtain ⟨size, rest, rfl⟩ := (@decodeIds_iff (writeU16Be count) _ _ _).mp idsRead
    refine ⟨ids, rfl, ?_, rest, ?_⟩
    · rw [size]
      exact toNat_le_kMaxU16Count count
    · rw [size, UInt16.ofNat_toNat]
  · rintro ⟨ids, rfl, count, rest, rfl⟩
    exact decodeBannedIds_append count rest

theorem MsgType.toUInt8_of_ofUInt8 {byte : UInt8} {type : MsgType}
    (known : MsgType.ofUInt8 byte = some type) : type.toUInt8 = byte := by
  simpa using List.find?_some known

theorem decodeAppMessage_split {frame : Frame} {message : AppMessage}
    (decoded : decodeAppMessage frame = .ok message) :
    ∃ payload, frame.pdu = kAppFunctionCode :: message.type.toUInt8 :: payload ∧
      decodePayload payload message.type = .ok message.payload := by
  unfold decodeAppMessage at decoded
  split_ifs at decoded with short
  obtain ⟨code, codeRead, decoded⟩ := bind_eq_ok.mp decoded
  split_ifs at decoded with foreign
  obtain ⟨byte, byteRead, decoded⟩ := bind_eq_ok.mp decoded
  split at decoded
  · simp at decoded
  · rename_i type known
    obtain ⟨payload, read, decoded⟩ := bind_eq_ok.mp decoded
    obtain ⟨value, parsed, decoded⟩ := bind_eq_ok.mp decoded
    obtain rfl := Except.ok.inj decoded
    refine ⟨payload, ?_, parsed⟩
    -- the two bytes in front of the payload are those that were read and checked
    obtain ⟨before, size, split⟩ := suffix_split read
    match before, size with
    | [first, second], _ =>
      simp only [split, inBounds_eq_ok] at codeRead byteRead
      obtain rfl : first = code := Option.some.inj codeRead
      obtain rfl : second = byte := Option.some.inj byteRead
      rw [split, MsgType.toUInt8_of_ofUInt8 known, not_not.mp foreign]
      rfl

theorem decodeAppMessage_ok {frame : Frame} {message : AppMessage}
    (decoded : decodeAppMessage frame = .ok message) :
    ∃ payload, suffix frame.pdu kPduAppHeaderSize = .ok payload ∧
      decodePayload payload message.type = .ok message.payload := by
  obtain ⟨payload, pdu, parsed⟩ := decodeAppMessage_split decoded
  exact ⟨payload, pdu ▸ suffix_append [kAppFunctionCode, message.type.toUInt8] payload, parsed⟩

def MsgType.Carries : MsgType → AppPayload → Prop
  | .register, .register _ | .assignId, .assignId _ _ | .chat, .chat _ | .keyOffer, .chat _
  | .roomKeyOffer, .chat _ | .deliver, .deliver _ _ | .peerKey, .deliver _ _
  | .roomKey, .deliver _ _ | .error, .error _ | .userJoined, .userJoined _ _
  | .userLeft, .userLeft _ _ | .listUsers, .listUsers | .usersList, .usersList _
  | .bannedIds, .bannedIds _ => True
  | _, _ => False

theorem decodePayload_carries {payload : Bytes} {type : MsgType} {value : AppPayload}
    (decoded : decodePayload payload type = .ok value) : type.Carries value := by
  cases type
  case bannedIds =>
    obtain ⟨ids, rfl, -⟩ := decodeBannedIds_iff.mp decoded
    trivial
  case assignId =>
    obtain ⟨id, rest, -, rfl⟩ := decodeAssignId_iff.mp decoded
    trivial
  case deliver | peerKey | roomKey =>
    obtain ⟨fromId, text, rfl, -⟩ := decodeDeliverPayload_iff.mp decoded
    trivial
  case usersList =>
    obtain ⟨users, rfl, -⟩ := decodeUsersList_iff.mp decoded
    trivial
  case listUsers => exact Except.ok.inj decoded ▸ trivial
  all_goals
    obtain ⟨part, -, decoded⟩ := bind_eq_ok.mp decoded
    exact Except.ok.inj decoded ▸ trivial

theorem decodePayload_chat {payload : Bytes} {type : MsgType} {chat : ChatPayload}
    (decoded : decodePayload payload type = .ok (.chat chat)) :
    (type = .chat ∨ type = .keyOffer ∨ type = .roomKeyOffer) ∧
      decodeChatPayload payload = .ok chat := by
  have carried := decodePayload_carries decoded
  cases type
  case chat | keyOffer | roomKeyOffer => simpa [decodePayload, bind_eq_ok] using decoded
  all_goals exact carried.elim

theorem decodePayload_register {payload : Bytes} {type : MsgType} {nickname : Bytes}
    (decoded : decodePayload payload type = .ok (.register nickname)) :
    type = .register ∧ decodeString payload = .ok nickname := by
  have carried := decodePayload_carries decoded
  cases type
  case register => simpa [decodePayload, bind_eq_ok] using decoded
  all_goals exact carried.elim

end ModbusChat.Wire
