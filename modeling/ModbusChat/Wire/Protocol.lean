import ModbusChat.Wire.ModbusTcp

set_option autoImplicit false

namespace ModbusChat.Wire

open BigEndian Effects

inductive MsgType where
  | register | assignId | chat | deliver | error | userJoined | userLeft
  | listUsers | usersList | keyOffer | roomKeyOffer | bannedIds | peerKey | roomKey
  deriving DecidableEq, Repr

def MsgType.toUInt8 : MsgType → UInt8
  | .register => 0x01
  | .assignId => 0x02
  | .chat => 0x03
  | .deliver => 0x04
  | .error => 0x05
  | .userJoined => 0x06
  | .userLeft => 0x07
  | .listUsers => 0x08
  | .usersList => 0x09
  | .keyOffer => 0x0A
  | .roomKeyOffer => 0x0B
  | .bannedIds => 0x0C
  | .peerKey => 0x0D
  | .roomKey => 0x0E

def MsgType.all : List MsgType :=
  [.register, .assignId, .chat, .deliver, .error, .userJoined, .userLeft, .listUsers, .usersList,
    .keyOffer, .roomKeyOffer, .bannedIds, .peerKey, .roomKey]

-- The source casts any byte to the enumeration; `none` are the values of its `default` branch.
def MsgType.ofUInt8 (byte : UInt8) : Option MsgType :=
  MsgType.all.find? fun type => type.toUInt8 = byte

@[simp] theorem MsgType.ofUInt8_toUInt8 (type : MsgType) : ofUInt8 type.toUInt8 = some type := by
  cases type <;> rfl

def kUint16Size : Nat := 2
def kUint32Size : Nat := 4
def kPduAppHeaderSize : Nat := 2
def kChatHeaderSize : Nat := kUint32Size + 1
def kMaxU16Count : Nat := 0xFFFF

def kRecipientById : UInt8 := 0x01
def kRecipientByNickname : UInt8 := 0x02
def kRecipientBroadcast : UInt8 := 0x03

def kBroadcastRecipient : Bytes := ascii "all"

structure ChatPayload where
  fromId : UInt32
  recipientTag : UInt8
  recipientData : Bytes
  text : Bytes
  deriving DecidableEq, Repr

structure UserInfo where
  id : UInt32
  nickname : Bytes
  deriving DecidableEq, Repr

inductive AppPayload where
  | register (nickname : Bytes)
  | assignId (id : UInt32) (createRoom : Bool)
  | chat (chat : ChatPayload)
  | deliver (fromId : UInt32) (text : Bytes)
  | error (text : Bytes)
  | userJoined (id : UInt32) (nickname : Bytes)
  | userLeft (id : UInt32) (nickname : Bytes)
  | listUsers
  | usersList (users : List UserInfo)
  | bannedIds (ids : List UInt32)
  deriving DecidableEq, Repr

structure AppMessage where
  type : MsgType
  payload : AppPayload
  deriving DecidableEq, Repr

-- The pointer `data + offset` together with the length `len - offset`.
def suffix (data : Bytes) (offset : Nat) : Except Failure Bytes :=
  if offset ≤ data.length then .ok (data.drop offset) else .error .outOfBounds

def decodeString (data : Bytes) : Except Failure Bytes :=
  if data.length < kUint16Size then throw (.runtimeError "Invalid string payload")
  else do
    let strLen ← inBounds (readU16Be data)
    if data.length < kUint16Size + strLen.toNat then
      throw (.runtimeError "Truncated string payload")
    else slice data kUint16Size (kUint16Size + strLen.toNat)

def encodeString (value : Bytes) : Except Failure Bytes :=
  if value.length > kMaxU16Count then throw (.runtimeError "String too long")
  else return writeU16Be (UInt16.ofNat value.length) ++ value

def decodeUserInfo (data : Bytes) (offset : Nat) : Except Failure (UserInfo × Nat) :=
  if data.length < offset + kUint32Size then throw (.runtimeError "UserInfo id too short")
  else do
    let id ← inBounds (readU32Be (← suffix data offset))
    let offset := offset + kUint32Size
    let nickname ← decodeString (← suffix data offset)
    return ({ id, nickname }, offset + (kUint16Size + nickname.length))

def encodeUserInfo (info : UserInfo) : Except Failure Bytes := do
  let nicknameBytes ← encodeString info.nickname
  return writeU32Be info.id ++ nicknameBytes

def decodeRecipient (payload : Bytes) (tag : UInt8) (offset : Nat) : Except Failure (Bytes × Nat) :=
  if tag = kRecipientById then
    if payload.length < offset + kUint32Size then
      throw (.runtimeError "Chat id recipient too short")
    else do
      let data ← slice payload offset (offset + kUint32Size)
      return (data, offset + kUint32Size)
  else if tag = kRecipientByNickname then do
    let nickname ← decodeString (← suffix payload offset)
    let data ← encodeString nickname
    return (data, offset + data.length)
  else if tag = kRecipientBroadcast then return ([], offset)
  else throw (.runtimeError "Unknown recipient tag")

def decodeChatPayload (payload : Bytes) : Except Failure ChatPayload :=
  if payload.length < kChatHeaderSize then throw (.runtimeError "Chat payload too short")
  else do
    let fromId ← inBounds (readU32Be payload)
    let recipientTag ← inBounds payload[kUint32Size]?
    let (recipientData, offset) ← decodeRecipient payload recipientTag kChatHeaderSize
    let text ← decodeString (← suffix payload offset)
    return { fromId, recipientTag, recipientData, text }

def decodeDeliverPayload (payload : Bytes) : Except Failure AppPayload :=
  if payload.length < kUint32Size then throw (.runtimeError "Deliver payload too short")
  else do
    let fromId ← inBounds (readU32Be payload)
    let text ← decodeString (← suffix payload kUint32Size)
    return .deliver fromId text

def decodeAssignId (payload : Bytes) : Except Failure AppPayload :=
  if payload.length < kUint32Size then throw (.runtimeError "AssignId payload too short")
  else do
    let id ← inBounds (readU32Be payload)
    if payload.length > kUint32Size then
      let flag ← inBounds payload[kUint32Size]?
      return .assignId id (flag != 0)
    else return .assignId id false

def decodeUsers (payload : Bytes) : (count offset : Nat) → Except Failure (List UserInfo)
  | 0, _ => return []
  | count + 1, offset => do
      let (info, offset) ← decodeUserInfo payload offset
      let users ← decodeUsers payload count offset
      return info :: users

def decodeUsersList (payload : Bytes) : Except Failure AppPayload :=
  if payload.length < kUint16Size then throw (.runtimeError "UsersList payload too short")
  else do
    let count ← inBounds (readU16Be payload)
    let users ← decodeUsers payload count.toNat kUint16Size
    return .usersList users

def decodeIds (payload : Bytes) : (count offset : Nat) → Except Failure (List UInt32)
  | 0, _ => return []
  | count + 1, offset => do
      let id ← inBounds (readU32Be (← suffix payload offset))
      let ids ← decodeIds payload count (offset + kUint32Size)
      return id :: ids

def decodeBannedIds (payload : Bytes) : Except Failure AppPayload :=
  if payload.length < kUint16Size then throw (.runtimeError "BannedIds payload too short")
  else do
    let count ← inBounds (readU16Be payload)
    if payload.length < kUint16Size + count.toNat * kUint32Size then
      throw (.runtimeError "BannedIds payload truncated")
    else
      let ids ← decodeIds payload count.toNat kUint16Size
      return .bannedIds ids

def decodePayload (payload : Bytes) : MsgType → Except Failure AppPayload
  | .register => return .register (← decodeString payload)
  | .assignId => decodeAssignId payload
  | .chat | .keyOffer | .roomKeyOffer => return .chat (← decodeChatPayload payload)
  | .deliver | .peerKey | .roomKey => decodeDeliverPayload payload
  | .error => return .error (← decodeString payload)
  | .userJoined => do
      let (info, _) ← decodeUserInfo payload 0
      return .userJoined info.id info.nickname
  | .userLeft => do
      let (info, _) ← decodeUserInfo payload 0
      return .userLeft info.id info.nickname
  | .listUsers => return .listUsers
  | .usersList => decodeUsersList payload
  | .bannedIds => decodeBannedIds payload

def decodeAppMessage (frame : Frame) : Except Failure AppMessage :=
  if frame.pdu.length < kPduAppHeaderSize then throw (.runtimeError "PDU too short")
  else do
    if (← inBounds frame.pdu[0]?) ≠ kAppFunctionCode then
      throw (.runtimeError "Unexpected function code")
    else
      match MsgType.ofUInt8 (← inBounds frame.pdu[1]?) with
      | none => throw (.runtimeError "Unknown message type")
      | some type =>
          let payload ← decodePayload (← suffix frame.pdu kPduAppHeaderSize) type
          return { type, payload }

def makeFrame (type : MsgType) (payload : Bytes) (transactionId : UInt16 := 0) : Frame :=
  { transactionId, unitId := 0, pdu := kAppFunctionCode :: type.toUInt8 :: payload }

def encodeRegister (nickname : Bytes) : Except Failure Bytes := encodeString nickname

def encodeAssignId (id : UInt32) (createRoom : Bool) : Bytes :=
  writeU32Be id ++ [if createRoom then 1 else 0]

def encodeChat (chat : ChatPayload) : Except Failure Bytes := do
  let textBytes ← encodeString chat.text
  return writeU32Be chat.fromId ++ (chat.recipientTag :: (chat.recipientData ++ textBytes))

def encodeDeliver (fromId : UInt32) (text : Bytes) : Except Failure Bytes := do
  let textBytes ← encodeString text
  return writeU32Be fromId ++ textBytes

def encodeError (text : Bytes) : Except Failure Bytes := encodeString text

def encodeUserJoined (id : UInt32) (nickname : Bytes) : Except Failure Bytes :=
  encodeUserInfo { id, nickname }

def encodeUserLeft (id : UInt32) (nickname : Bytes) : Except Failure Bytes :=
  encodeUserInfo { id, nickname }

def encodeListUsers : Bytes := []

def encodeUsers : List UserInfo → Except Failure Bytes
  | [] => return []
  | user :: users => do
      let bytes ← encodeUserInfo user
      let rest ← encodeUsers users
      return bytes ++ rest

def encodeUsersList (users : List UserInfo) : Except Failure Bytes :=
  if users.length > kMaxU16Count then throw (.runtimeError "Too many users")
  else return writeU16Be (UInt16.ofNat users.length) ++ (← encodeUsers users)

def encodeIds : List UInt32 → Bytes
  | [] => []
  | id :: ids => writeU32Be id ++ encodeIds ids

def encodeBannedIds (ids : List UInt32) : Except Failure Bytes :=
  if ids.length > kMaxU16Count then throw (.runtimeError "Too many banned ids")
  else return writeU16Be (UInt16.ofNat ids.length) ++ encodeIds ids

-- Recipients as the functions of `OutgoingMessageBuilder` write them.
inductive Recipient where
  | byId (id : UInt32)
  | byNickname (nickname : Bytes)
  | broadcast
  deriving DecidableEq, Repr

def Recipient.tag : Recipient → UInt8
  | .byId _ => kRecipientById
  | .byNickname _ => kRecipientByNickname
  | .broadcast => kRecipientBroadcast

def Recipient.data : Recipient → Except Failure Bytes
  | .byId id => return writeU32Be id
  | .byNickname nickname => encodeString nickname
  | .broadcast => return []

def buildChatLike (fromId : UInt32) (recipientTag : UInt8) (recipientData text : Bytes) :
    Except Failure Bytes :=
  encodeChat { fromId, recipientTag, recipientData, text }

def buildChatById (fromId recipientId : UInt32) (text : Bytes) : Except Failure Bytes :=
  buildChatLike fromId kRecipientById (writeU32Be recipientId) text

def buildChatByNickname (fromId : UInt32) (recipient text : Bytes) : Except Failure Bytes := do
  buildChatLike fromId kRecipientByNickname (← encodeString recipient) text

def buildChatBroadcast (fromId : UInt32) (text : Bytes) : Except Failure Bytes :=
  buildChatLike fromId kRecipientBroadcast [] text

def buildKeyOffer (fromId recipientId : UInt32) (body : Bytes) : Except Failure Bytes :=
  buildChatLike fromId kRecipientById (writeU32Be recipientId) body

def buildRoomKeyOffer (fromId recipientId : UInt32) (body : Bytes) : Except Failure Bytes :=
  buildChatLike fromId kRecipientById (writeU32Be recipientId) body

def buildListUsers : Bytes := encodeListUsers

-- What `transport_->receive` makes of the result of `read_frame`.
def receive : Option Frame → Except Failure (Option AppMessage)
  | none => return none
  | some frame => return some (← decodeAppMessage frame)

end ModbusChat.Wire
