import ModbusChat.Wire.Protocol

set_option autoImplicit false

namespace ModbusChat.Wire

open BigEndian Effects

def encodePayload (type : MsgType) : AppPayload → Except Failure Bytes
  | .register nickname =>
      match type with
      | .register => encodeRegister nickname
      | _ => throw .badVariantAccess
  | .assignId id createRoom =>
      match type with
      | .assignId => return encodeAssignId id createRoom
      | _ => throw .badVariantAccess
  | .chat message =>
      match type with
      | .chat | .keyOffer | .roomKeyOffer => encodeChat message
      | _ => throw .badVariantAccess
  | .deliver fromId text =>
      match type with
      | .deliver | .peerKey | .roomKey => encodeDeliver fromId text
      | _ => throw .badVariantAccess
  | .error text =>
      match type with
      | .error => encodeError text
      | _ => throw .badVariantAccess
  | .userJoined id nickname =>
      match type with
      | .userJoined => encodeUserJoined id nickname
      | _ => throw .badVariantAccess
  | .userLeft id nickname =>
      match type with
      | .userLeft => encodeUserLeft id nickname
      | _ => throw .badVariantAccess
  | .listUsers =>
      match type with
      | .listUsers => return encodeListUsers
      | _ => throw .badVariantAccess
  | .usersList users =>
      match type with
      | .usersList => encodeUsersList users
      | _ => throw .badVariantAccess
  | .bannedIds ids =>
      match type with
      | .bannedIds => encodeBannedIds ids
      | _ => throw .badVariantAccess

def AppPayload.Addressed : AppPayload → Prop
  | .chat message => ∃ recipient : Recipient,
      message.recipientTag = recipient.tag ∧ recipient.data = .ok message.recipientData
  | _ => True

def stringBytes (value : Bytes) : Bytes := writeU16Be (UInt16.ofNat value.length) ++ value

def userBytes (info : UserInfo) : Bytes := writeU32Be info.id ++ stringBytes info.nickname

@[simp] theorem stringBytes_length (value : Bytes) :
    (stringBytes value).length = 2 + value.length := by
  simp [stringBytes]

@[simp] theorem userBytes_length (info : UserInfo) :
    (userBytes info).length = 6 + info.nickname.length := by
  simp [userBytes]
  omega

theorem encodeString_eq_ok {value bytes : Bytes} :
    encodeString value = .ok bytes ↔ value.length ≤ kMaxU16Count ∧ bytes = stringBytes value := by
  by_cases long : value.length > kMaxU16Count
  · simp [encodeString, long]
  · have short : value.length ≤ kMaxU16Count := by omega
    simp [encodeString, long, short, stringBytes, eq_comm]

theorem encodeUserInfo_eq_ok {info : UserInfo} {bytes : Bytes} :
    encodeUserInfo info = .ok bytes ↔
      info.nickname.length ≤ kMaxU16Count ∧ bytes = userBytes info := by
  simp only [encodeUserInfo, bind_eq_ok, encodeString_eq_ok, except_pure, Except.ok.injEq]
  constructor
  · rintro ⟨_, ⟨short, rfl⟩, rfl⟩
    exact ⟨short, rfl⟩
  · rintro ⟨short, rfl⟩
    exact ⟨_, ⟨short, rfl⟩, rfl⟩

theorem encodeUsers_eq_ok {users : List UserInfo} {bytes : Bytes} :
    encodeUsers users = .ok bytes ↔
      (∀ user ∈ users, user.nickname.length ≤ kMaxU16Count) ∧ bytes = users.flatMap userBytes := by
  induction users generalizing bytes with
  | nil => simp [encodeUsers, eq_comm]
  | cons user users ih =>
    simp only [encodeUsers, bind_eq_ok, encodeUserInfo_eq_ok, ih, except_pure, Except.ok.injEq,
      List.forall_mem_cons, List.flatMap_cons]
    constructor
    · rintro ⟨_, ⟨short, rfl⟩, _, ⟨others, rfl⟩, rfl⟩
      exact ⟨⟨short, others⟩, rfl⟩
    · rintro ⟨⟨short, others⟩, rfl⟩
      exact ⟨_, ⟨short, rfl⟩, _, ⟨others, rfl⟩, rfl⟩

theorem encodeIds_eq_flatMap (ids : List UInt32) : encodeIds ids = ids.flatMap writeU32Be := by
  induction ids with
  | nil => rfl
  | cons id ids ih => simp [encodeIds, ih]

theorem ofNat_toNat_of_le {n : Nat} (small : n ≤ kMaxU16Count) : (UInt16.ofNat n).toNat = n := by
  simp only [kMaxU16Count] at small
  rw [UInt16.toNat_ofNat']
  omega

theorem decodeString_stringBytes {value : Bytes} (short : value.length ≤ kMaxU16Count)
    (rest : Bytes) :
    decodeString (stringBytes value ++ rest) = .ok value := by
  have length : (UInt16.ofNat value.length).toNat = value.length := ofNat_toNat_of_le short
  have enough : ¬ (stringBytes value ++ rest).length < kUint16Size := by
    rw [List.length_append, stringBytes_length, kUint16Size]
    omega
  have whole : ¬ (stringBytes value ++ rest).length < kUint16Size + value.length := by
    simp [kUint16Size]
  have inside : kUint16Size ≤ kUint16Size + value.length ∧
      kUint16Size + value.length ≤ (stringBytes value ++ rest).length := by omega
  have field : readU16Be (stringBytes value ++ rest) = some (UInt16.ofNat value.length) := by
    rw [stringBytes, List.append_assoc, readU16Be_write]
  have taken :
      (stringBytes value ++ rest).take (kUint16Size + value.length) = stringBytes value := by
    rw [show kUint16Size + value.length = (stringBytes value).length by simp [kUint16Size],
      List.take_left]
  simp only [decodeString, enough, if_false, field, inBounds_some, ok_bind, length, whole, slice,
    inside, and_self, if_true, taken]
  rfl

theorem decodeString_bytes {value : Bytes} (short : value.length ≤ kMaxU16Count) :
    decodeString (stringBytes value) = .ok value := by
  simpa using decodeString_stringBytes short []

theorem suffix_append (before after : Bytes) :
    suffix (before ++ after) before.length = .ok after := by
  simp [suffix]

theorem suffix_append_of_eq {before after : Bytes} {offset : Nat} (at_ : offset = before.length) :
    suffix (before ++ after) offset = .ok after := by
  rw [at_, suffix_append]

theorem slice_middle (before middle after : Bytes) :
    slice (before ++ (middle ++ after)) before.length (before.length + middle.length) =
      .ok middle := by
  have inside : before.length ≤ before.length + middle.length ∧
      before.length + middle.length ≤ (before ++ (middle ++ after)).length := by
    simp only [List.length_append]
    omega
  rw [slice, if_pos inside, List.take_length_add_append, List.drop_left, List.take_left]

theorem decodeUserInfo_userBytes {info : UserInfo} (short : info.nickname.length ≤ kMaxU16Count)
    (before rest : Bytes) :
    decodeUserInfo (before ++ (userBytes info ++ rest)) before.length =
      .ok (info, before.length + (userBytes info).length) := by
  have enough : ¬ (before ++ (userBytes info ++ rest)).length < before.length + kUint32Size := by
    simp [kUint32Size]
    omega
  have second : suffix (before ++ (userBytes info ++ rest)) (before.length + kUint32Size) =
      .ok (stringBytes info.nickname ++ rest) := by
    have regroup : before ++ (userBytes info ++ rest) =
        (before ++ writeU32Be info.id) ++ (stringBytes info.nickname ++ rest) := by
      simp [userBytes]
    rw [regroup]
    exact suffix_append_of_eq (by simp [kUint32Size])
  have idField : readU32Be (userBytes info ++ rest) = some info.id := by
    rw [userBytes, List.append_assoc, readU32Be_write]
  simp only [decodeUserInfo, enough, if_false, suffix_append, ok_bind, idField, inBounds_some,
    second, decodeString_stringBytes short, except_pure, userBytes_length]
  simp only [kUint32Size, kUint16Size, Nat.add_assoc, Except.ok.injEq, Prod.mk.injEq, true_and]
  omega

theorem decodeUsers_userBytes {users : List UserInfo}
    (short : ∀ user ∈ users, user.nickname.length ≤ kMaxU16Count) (before rest : Bytes) :
    decodeUsers (before ++ (users.flatMap userBytes ++ rest)) users.length before.length =
      .ok users := by
  -- The induction carries the running offset: it is the length of what has been read.
  induction users generalizing before with
  | nil => rfl
  | cons user users ih =>
    have head := decodeUserInfo_userBytes (short user (by simp)) before
      (users.flatMap userBytes ++ rest)
    have tail := ih (fun other member => short other (List.mem_cons_of_mem _ member))
      (before ++ userBytes user)
    rw [List.length_append, List.append_assoc] at tail
    simp only [List.flatMap_cons, List.append_assoc, List.length_cons, decodeUsers, head, ok_bind,
      tail, except_pure]

theorem decodeIds_writeU32Be (ids : List UInt32) (before rest : Bytes) :
    decodeIds (before ++ (ids.flatMap writeU32Be ++ rest)) ids.length before.length = .ok ids := by
  induction ids generalizing before with
  | nil => rfl
  | cons id ids ih =>
    have tail := ih (before ++ writeU32Be id)
    rw [List.length_append, List.append_assoc, writeU32Be_length] at tail
    simp only [List.flatMap_cons, List.append_assoc, List.length_cons, decodeIds, suffix_append,
      ok_bind, readU32Be_write, inBounds_some, show kUint32Size = 4 from rfl, tail, except_pure]

theorem decodeDeliverPayload_append {text : Bytes} (short : text.length ≤ kMaxU16Count)
    (fromId : UInt32) (rest : Bytes) :
    decodeDeliverPayload (writeU32Be fromId ++ (stringBytes text ++ rest)) =
      .ok (.deliver fromId text) := by
  have enough : ¬ (writeU32Be fromId ++ (stringBytes text ++ rest)).length < kUint32Size := by
    simp [kUint32Size]
  have body : suffix (writeU32Be fromId ++ (stringBytes text ++ rest)) kUint32Size =
      .ok (stringBytes text ++ rest) := suffix_append_of_eq rfl
  simp only [decodeDeliverPayload, enough, if_false, readU32Be_write, inBounds_some, ok_bind, body,
    decodeString_stringBytes short, except_pure]

theorem decodeDeliverPayload_bytes {text : Bytes} (short : text.length ≤ kMaxU16Count)
    (fromId : UInt32) :
    decodeDeliverPayload (writeU32Be fromId ++ stringBytes text) = .ok (.deliver fromId text) := by
  simpa using decodeDeliverPayload_append short fromId []

theorem decodeRecipient_data {recipient : Recipient} {data : Bytes}
    (built : recipient.data = .ok data) (before rest : Bytes) :
    decodeRecipient (before ++ (data ++ rest)) recipient.tag before.length =
      .ok (data, before.length + data.length) := by
  cases recipient with
  | byId id =>
    obtain rfl : writeU32Be id = data := by simpa [Recipient.data] using built
    have enough : ¬ (before ++ (writeU32Be id ++ rest)).length < before.length + kUint32Size := by
      simp [kUint32Size]
    have range := slice_middle before (writeU32Be id) rest
    rw [writeU32Be_length, ← show kUint32Size = 4 from rfl] at range
    simp only [decodeRecipient, Recipient.tag, if_true, enough, if_false, range, ok_bind,
      except_pure]
    rfl
  | byNickname nickname =>
    obtain ⟨short, rfl⟩ := encodeString_eq_ok.mp built
    have other : kRecipientByNickname ≠ kRecipientById := by decide
    simp only [decodeRecipient, Recipient.tag, other, if_false, if_true, suffix_append, ok_bind,
      decodeString_stringBytes short, encodeString_eq_ok.mpr ⟨short, rfl⟩, except_pure]
  | broadcast =>
    obtain rfl : [] = data := by simpa [Recipient.data] using built
    rfl

theorem decodeChatPayload_append {chat : ChatPayload} {recipient : Recipient}
    (tag : chat.recipientTag = recipient.tag) (built : recipient.data = .ok chat.recipientData)
    (short : chat.text.length ≤ kMaxU16Count) (rest : Bytes) :
    decodeChatPayload (writeU32Be chat.fromId ++
      (chat.recipientTag :: (chat.recipientData ++ (stringBytes chat.text ++ rest)))) =
        .ok chat := by
  generalize whole : writeU32Be chat.fromId ++
    (chat.recipientTag :: (chat.recipientData ++ (stringBytes chat.text ++ rest))) = payload
  have header : payload = (writeU32Be chat.fromId ++ [chat.recipientTag]) ++
      (chat.recipientData ++ (stringBytes chat.text ++ rest)) := by
    rw [← whole]
    simp
  have enough : ¬ payload.length < kChatHeaderSize := by
    rw [header]
    simp only [kChatHeaderSize, kUint32Size, List.length_append, List.length_cons,
      writeU32Be_length]
    omega
  have fromField : readU32Be payload = some chat.fromId := by
    rw [← whole, readU32Be_write]
  have tagField : payload[kUint32Size]? = some chat.recipientTag := by
    rw [← whole]
    rfl
  have recipientField : decodeRecipient payload chat.recipientTag kChatHeaderSize =
      .ok (chat.recipientData, kChatHeaderSize + chat.recipientData.length) := by
    rw [header, tag]
    exact decodeRecipient_data built (writeU32Be chat.fromId ++ [recipient.tag]) _
  have body : suffix payload (kChatHeaderSize + chat.recipientData.length) =
      .ok (stringBytes chat.text ++ rest) := by
    rw [header, ← List.append_assoc]
    exact suffix_append_of_eq (by simp [kChatHeaderSize, kUint32Size]; omega)
  simp only [decodeChatPayload, enough, if_false, fromField, inBounds_some, ok_bind, tagField,
    recipientField, body, decodeString_stringBytes short, except_pure]

theorem decodeChatPayload_bytes {chat : ChatPayload} {recipient : Recipient}
    (tag : chat.recipientTag = recipient.tag) (built : recipient.data = .ok chat.recipientData)
    (short : chat.text.length ≤ kMaxU16Count) :
    decodeChatPayload (writeU32Be chat.fromId ++
      (chat.recipientTag :: (chat.recipientData ++ stringBytes chat.text))) = .ok chat := by
  simpa using decodeChatPayload_append tag built short []

theorem encodeDeliver_eq_ok {fromId : UInt32} {text bytes : Bytes} :
    encodeDeliver fromId text = .ok bytes ↔
      text.length ≤ kMaxU16Count ∧ bytes = writeU32Be fromId ++ stringBytes text := by
  simp only [encodeDeliver, bind_eq_ok, encodeString_eq_ok, except_pure, Except.ok.injEq]
  constructor
  · rintro ⟨_, ⟨short, rfl⟩, rfl⟩
    exact ⟨short, rfl⟩
  · rintro ⟨short, rfl⟩
    exact ⟨_, ⟨short, rfl⟩, rfl⟩

theorem encodeChat_eq_ok {chat : ChatPayload} {bytes : Bytes} :
    encodeChat chat = .ok bytes ↔ chat.text.length ≤ kMaxU16Count ∧
      bytes = writeU32Be chat.fromId ++
        (chat.recipientTag :: (chat.recipientData ++ stringBytes chat.text)) := by
  simp only [encodeChat, bind_eq_ok, encodeString_eq_ok, except_pure, Except.ok.injEq]
  constructor
  · rintro ⟨_, ⟨short, rfl⟩, rfl⟩
    exact ⟨short, rfl⟩
  · rintro ⟨short, rfl⟩
    exact ⟨_, ⟨short, rfl⟩, rfl⟩

theorem encodeUsersList_eq_ok {users : List UserInfo} {bytes : Bytes} :
    encodeUsersList users = .ok bytes ↔ users.length ≤ kMaxU16Count ∧
      (∀ user ∈ users, user.nickname.length ≤ kMaxU16Count) ∧
      bytes = writeU16Be (UInt16.ofNat users.length) ++ users.flatMap userBytes := by
  by_cases long : users.length > kMaxU16Count
  · have excess : ¬ users.length ≤ kMaxU16Count := by omega
    simp [encodeUsersList, long, excess]
  · have count : users.length ≤ kMaxU16Count := by omega
    simp only [encodeUsersList, long, if_false, count, true_and, bind_eq_ok, encodeUsers_eq_ok,
      except_pure, Except.ok.injEq]
    constructor
    · rintro ⟨_, ⟨short, rfl⟩, rfl⟩
      exact ⟨short, rfl⟩
    · rintro ⟨short, rfl⟩
      exact ⟨_, ⟨short, rfl⟩, rfl⟩

theorem encodeBannedIds_eq_ok {ids : List UInt32} {bytes : Bytes} :
    encodeBannedIds ids = .ok bytes ↔ ids.length ≤ kMaxU16Count ∧
      bytes = writeU16Be (UInt16.ofNat ids.length) ++ ids.flatMap writeU32Be := by
  by_cases long : ids.length > kMaxU16Count
  · have excess : ¬ ids.length ≤ kMaxU16Count := by omega
    simp [encodeBannedIds, long, excess]
  · have count : ids.length ≤ kMaxU16Count := by omega
    simp [encodeBannedIds, long, count, encodeIds_eq_flatMap, eq_comm]

theorem decodeUserInfo_userBytes_front {info : UserInfo}
    (short : info.nickname.length ≤ kMaxU16Count) (rest : Bytes) :
    decodeUserInfo (userBytes info ++ rest) 0 = .ok (info, (userBytes info).length) := by
  simpa using decodeUserInfo_userBytes short [] rest

theorem decodeUserInfo_bytes {info : UserInfo} (short : info.nickname.length ≤ kMaxU16Count) :
    decodeUserInfo (userBytes info) 0 = .ok (info, (userBytes info).length) := by
  simpa using decodeUserInfo_userBytes_front short []

theorem decodeUsersList_append {users : List UserInfo} (count : users.length ≤ kMaxU16Count)
    (short : ∀ user ∈ users, user.nickname.length ≤ kMaxU16Count) (rest : Bytes) :
    decodeUsersList (writeU16Be (UInt16.ofNat users.length) ++ (users.flatMap userBytes ++ rest)) =
      .ok (.usersList users) := by
  have enough : ¬ (writeU16Be (UInt16.ofNat users.length) ++
      (users.flatMap userBytes ++ rest)).length < kUint16Size := by
    rw [List.length_append, writeU16Be_length, kUint16Size]
    omega
  have decoded : decodeUsers (writeU16Be (UInt16.ofNat users.length) ++
      (users.flatMap userBytes ++ rest)) users.length kUint16Size = .ok users :=
    decodeUsers_userBytes short (writeU16Be (UInt16.ofNat users.length)) rest
  simp only [decodeUsersList, enough, if_false, readU16Be_write, inBounds_some, ok_bind,
    ofNat_toNat_of_le count, decoded, except_pure]

theorem decodeBannedIds_append {ids : List UInt32} (count : ids.length ≤ kMaxU16Count)
    (rest : Bytes) :
    decodeBannedIds (writeU16Be (UInt16.ofNat ids.length) ++ (ids.flatMap writeU32Be ++ rest)) =
      .ok (.bannedIds ids) := by
  have size : (ids.flatMap writeU32Be).length = ids.length * kUint32Size := by
    simp [List.length_flatMap, kUint32Size]
  have enough :
      ¬ (writeU16Be (UInt16.ofNat ids.length) ++ (ids.flatMap writeU32Be ++ rest)).length <
      kUint16Size := by
    rw [List.length_append, writeU16Be_length, kUint16Size]
    omega
  have whole : ¬ (writeU16Be (UInt16.ofNat ids.length) ++ (ids.flatMap writeU32Be ++ rest)).length <
      kUint16Size + ids.length * kUint32Size := by
    rw [List.length_append, List.length_append, size, writeU16Be_length, kUint16Size]
    omega
  have decoded :
      decodeIds (writeU16Be (UInt16.ofNat ids.length) ++ (ids.flatMap writeU32Be ++ rest))
      ids.length kUint16Size = .ok ids :=
    decodeIds_writeU32Be ids (writeU16Be (UInt16.ofNat ids.length)) rest
  simp only [decodeBannedIds, enough, if_false, readU16Be_write, inBounds_some, ok_bind,
    ofNat_toNat_of_le count, whole, decoded, except_pure]

theorem decodeBannedIds_bytes {ids : List UInt32} (count : ids.length ≤ kMaxU16Count) :
    decodeBannedIds (writeU16Be (UInt16.ofNat ids.length) ++ ids.flatMap writeU32Be) =
      .ok (.bannedIds ids) := by
  simpa using decodeBannedIds_append count []

theorem decodePayload_append {type : MsgType} {payload : AppPayload} {bytes : Bytes}
    (addressed : payload.Addressed) (encoded : encodePayload type payload = .ok bytes)
    (rest : Bytes) :
    decodePayload (bytes ++ rest) type = .ok payload := by
  cases payload with
  | register nickname =>
    cases type <;> simp only [encodePayload, except_throw, reduceCtorEq] at encoded
    obtain ⟨short, rfl⟩ := encodeString_eq_ok.mp encoded
    simp only [decodePayload, decodeString_stringBytes short, ok_bind, except_pure]
  | assignId id createRoom =>
    cases type <;> simp only [encodePayload, except_throw, reduceCtorEq] at encoded
    obtain rfl : encodeAssignId id createRoom = bytes := by simpa using encoded
    simp only [decodePayload, decodeAssignId, encodeAssignId, List.append_assoc, readU32Be_write,
      inBounds_some, ok_bind]
    have flagged :
        (writeU32Be id ++ ([if createRoom then 1 else 0] ++ rest)).length > kUint32Size := by
      simp [kUint32Size]
    have enough :
        ¬ (writeU32Be id ++ ([if createRoom then 1 else 0] ++ rest)).length < kUint32Size := by
      omega
    simp only [enough, flagged, if_false, if_true]
    cases createRoom <;> rfl
  | chat message =>
    obtain ⟨recipient, tag, built⟩ := addressed
    cases type <;> simp only [encodePayload, except_throw, reduceCtorEq] at encoded <;>
    · obtain ⟨short, rfl⟩ := encodeChat_eq_ok.mp encoded
      simp only [decodePayload, List.append_assoc, List.cons_append,
        decodeChatPayload_append tag built short, ok_bind, except_pure]
  | deliver fromId text =>
    cases type <;> simp only [encodePayload, except_throw, reduceCtorEq] at encoded <;>
    · obtain ⟨short, rfl⟩ := encodeDeliver_eq_ok.mp encoded
      simp only [decodePayload, List.append_assoc, decodeDeliverPayload_append short]
  | error text =>
    cases type <;> simp only [encodePayload, except_throw, reduceCtorEq] at encoded
    obtain ⟨short, rfl⟩ := encodeString_eq_ok.mp encoded
    simp only [decodePayload, decodeString_stringBytes short, ok_bind, except_pure]
  | userJoined id nickname =>
    cases type <;> simp only [encodePayload, except_throw, reduceCtorEq] at encoded
    obtain ⟨short, rfl⟩ := encodeUserInfo_eq_ok.mp encoded
    simp only [decodePayload, decodeUserInfo_userBytes_front short, ok_bind, except_pure]
  | userLeft id nickname =>
    cases type <;> simp only [encodePayload, except_throw, reduceCtorEq] at encoded
    obtain ⟨short, rfl⟩ := encodeUserInfo_eq_ok.mp encoded
    simp only [decodePayload, decodeUserInfo_userBytes_front short, ok_bind, except_pure]
  | listUsers =>
    cases type <;> simp only [encodePayload, except_throw, reduceCtorEq] at encoded
    rfl
  | usersList users =>
    cases type <;> simp only [encodePayload, except_throw, reduceCtorEq] at encoded
    obtain ⟨count, short, rfl⟩ := encodeUsersList_eq_ok.mp encoded
    simp only [decodePayload, List.append_assoc, decodeUsersList_append count short]
  | bannedIds ids =>
    cases type <;> simp only [encodePayload, except_throw, reduceCtorEq] at encoded
    obtain ⟨count, rfl⟩ := encodeBannedIds_eq_ok.mp encoded
    simp only [decodePayload, List.append_assoc, decodeBannedIds_append count]

theorem decodePayload_encodePayload {type : MsgType} {payload : AppPayload} {bytes : Bytes}
    (addressed : payload.Addressed) (encoded : encodePayload type payload = .ok bytes) :
    decodePayload bytes type = .ok payload := by
  simpa using decodePayload_append addressed encoded []

theorem decodeAppMessage_frame (type : MsgType) (bytes : Bytes) (transactionId : UInt16) :
    decodeAppMessage (makeFrame type bytes transactionId) = do
      let payload ← decodePayload bytes type
      return { type, payload } := by
  have body : suffix (kAppFunctionCode :: type.toUInt8 :: bytes) kPduAppHeaderSize = .ok bytes :=
    suffix_append [kAppFunctionCode, type.toUInt8] bytes
  have enough : ¬ (kAppFunctionCode :: type.toUInt8 :: bytes).length < kPduAppHeaderSize := by
    simp [kPduAppHeaderSize]
  simp only [decodeAppMessage, makeFrame, enough, if_false, List.getElem?_cons_zero,
    List.getElem?_cons_succ, inBounds_some, ok_bind, ne_eq, not_true_eq_false,
    MsgType.ofUInt8_toUInt8, body]

/-- Every message type and every payload its encoder accepts is decoded to itself. -/
theorem decodeAppMessage_makeFrame (type : MsgType) (payload : AppPayload) (bytes : Bytes)
    (transactionId : UInt16) (addressed : payload.Addressed)
    (encoded : encodePayload type payload = .ok bytes) :
    decodeAppMessage (makeFrame type bytes transactionId) = .ok { type, payload } := by
  rw [decodeAppMessage_frame, decodePayload_encodePayload addressed encoded, ok_bind, except_pure]

theorem decodeAppMessage_makeFrame_nickname :
    let chat : ChatPayload :=
      { fromId := 1, recipientTag := kRecipientByNickname,
        recipientData := writeU16Be 3 ++ ascii "bob", text := ascii "hi" }
    decodeAppMessage (makeFrame .chat
      (writeU32Be 1 ++ (kRecipientByNickname :: (writeU16Be 3 ++ ascii "bob" ++
        (writeU16Be 2 ++ ascii "hi")))) 9) = .ok { type := .chat, payload := .chat chat } :=
  decodeAppMessage_makeFrame .chat _ _ 9 ⟨.byNickname (ascii "bob"), rfl, rfl⟩ rfl

end ModbusChat.Wire
