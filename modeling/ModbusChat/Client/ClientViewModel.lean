import Mathlib.Data.Finset.Insert
import ModbusChat.Client.PeerKeyStore
import ModbusChat.Wire.Protocol

set_option autoImplicit false

namespace ModbusChat.Client

open BigEndian Effects Wire

/--
The state of a client. `online` says whether writes to its socket succeed, `random` is what
`fill_random` has still to return.
-/
structure ClientViewModel where
  nickname : Bytes := []
  configuredKeystore : Bytes := []
  myId : UInt32 := 0
  keyStore : PeerKeyStore := {}
  idByNickname : Table Bytes UInt32 := ∅
  nicknameById : Table UInt32 Bytes := ∅
  keyOfferedTo : Finset UInt32 := ∅
  running : Bool := true
  exitAnnounced : Bool := false
  online : Bool := true
  random : Nat → UInt8

inductive OutputLine where
  | status (step : Bytes) (percent : Nat)
  | inputReady
  | myId (id : UInt32)
  | usage
  | delivered (fromId : UInt32) (text : Bytes)
  | userJoined (id : UInt32) (nickname : Bytes)
  | userLeft (id : UInt32) (nickname : Bytes)
  | usersList (users : List UserInfo)
  | error (text : Bytes)
  | notice (text : Bytes)
  | serverDisconnected
  deriving DecidableEq, Repr

inductive ClientEffect where
  | send (type : MsgType) (payload : Bytes)
  | logInfo (text : Bytes)
  | logError (text : Bytes)
  | display (line : OutputLine)
  | shutdownSocket
  | closeStdin
  deriving DecidableEq, Repr

abbrev ClientM := Action ClientViewModel ClientEffect Failure

def display (line : OutputLine) : ClientM Unit := .emit (.display line)

-- A catch clause of the client takes any `std::exception`.
def catchClause {α : Type} (handler : Bytes → ClientM α) (failure : Failure) : ClientM α :=
  match failure.what? with
  | none => .lift (.error failure)
  | some what => handler (ascii what)

def catching {α : Type} (action : ClientM α) (handler : Bytes → ClientM α) : ClientM α :=
  .tryCatch action (catchClause handler)

def logText (brief : String) (detail : Bytes) : Bytes :=
  if detail = [] then ascii brief else ascii brief ++ (ascii " | " ++ detail)

def reportError (brief : String) (detail : Bytes) : ClientM Unit := do
  .emit (.logError (logText brief detail))
  display (.error (ascii brief))

def reportInfo (brief : String) (detail : Bytes) : ClientM Unit := do
  .emit (.logInfo (logText brief detail))
  display (.notice (ascii brief))

def fillRandom (size : Nat) : ClientM Bytes := do
  let client ← Action.get
  Action.modify fun client => { client with random := fun i => client.random (i + size) }
  return (List.range size).map client.random

-- The payload is an argument of the call: building it may throw before anything is written.
def send (type : MsgType) (payload : Except Failure Bytes) : ClientM Bool := do
  let bytes ← Action.lift payload
  let client ← Action.get
  if client.online then do
    .emit (.send type bytes)
    return true
  else return false

def defaultKeystoreName (nickname : Bytes) : Bytes :=
  if nickname = [] then ascii "client.keys" else nickname ++ ascii ".keys"

def ClientViewModel.keystorePath (client : ClientViewModel) : Bytes :=
  if client.configuredKeystore ≠ [] then client.configuredKeystore
  else defaultKeystoreName client.nickname

section Cipher

variable (cipher : Monocypher)

def generateKeypair : ClientM (Bytes × Bytes) := do
  let secretKey ← fillRandom kSecretKeySize
  return (secretKey, cipher.x25519PublicKey secretKey)

def generateRoomKey : ClientM Bytes := fillRandom kRoomKeySize

-- `loaded` is what `keystore_file_.load` returns; what it has stored is in the state already.
def loadOrCreateIdentity (loaded : Except Failure Bool) : ClientM Unit := do
  let path := (← Action.get).keystorePath
  let found ← catching (.lift loaded) fun what => do
    reportError "Keystore load failed, creating new keys" what
    return false
  if found then reportInfo "Keystore loaded" (ascii "path=" ++ path)
  else do
    let (secretKey, publicKey) ← generateKeypair cipher
    let keyStore ← Action.lift ((← Action.get).keyStore.setIdentity secretKey publicKey)
    Action.modify fun client => { client with keyStore }
    reportInfo "Generated new identity keypair" (ascii "keystore=" ++ path)

def receiveAssignedId (incoming : Option Frame) : ClientM Unit := do
  display (.status (ascii "Waiting for assigned id") 75)
  match ← Action.lift (receive incoming) with
  | some { type := .assignId, payload := .assignId id createRoom } =>
      Action.modify fun client => { client with myId := id }
      display (.status (ascii "Got id=" ++ toDecimal id) 85)
      display (.myId id)
      .emit (.logInfo (ascii "assigned id=" ++ (toDecimal id ++
        (ascii " create_room=" ++ ascii (if createRoom then "1" else "0")))))
      if createRoom ∧ (← Action.get).keyStore.roomKey = none then do
        let roomKey ← generateRoomKey
        let keyStore ← Action.lift ((← Action.get).keyStore.setRoomKey roomKey)
        Action.modify fun client => { client with keyStore }
        reportInfo "Created room key" []
      else return
  | some { type := .assignId, .. } => .lift (.error .badVariantAccess)
  | _ => .lift (.error (.runtimeError "Failed to receive assigned id"))

def registerNickname : ClientM Unit := do
  let client ← Action.get
  if client.nickname = [] then return
  else do
    display (.status (ascii "Registering nickname=" ++ client.nickname) 92)
    if ← send .register (encodeRegister client.nickname) then return
    else reportError "Failed to register nickname" (ascii "nickname=" ++ client.nickname)

-- `run` from the connected socket to the start of the two loops.
def startUp (incoming : Option Frame) : ClientM Unit := do
  receiveAssignedId incoming
  registerNickname
  display (.status (ascii "Startup complete") 100)
  display .inputReady
  display .usage

def sendKeyOffer (peerId : UInt32) : ClientM Unit := do
  let client ← Action.get
  if peerId = 0 ∨ peerId = client.myId then return
  else if peerId ∈ client.keyOfferedTo then return
  else do
    Action.modify fun client => { client with keyOfferedTo := insert peerId client.keyOfferedTo }
    if ← send .keyOffer (buildKeyOffer client.myId peerId client.keyStore.identityPublic) then
      reportInfo "Sent KeyOffer" (ascii "peer_id=" ++ toDecimal peerId)
    else do
      Action.modify fun client => { client with keyOfferedTo := client.keyOfferedTo.erase peerId }
      reportError "Send failed" (ascii "KeyOffer to id=" ++ toDecimal peerId)

-- A call of the cipher inside its own try block: the text of the exception, or the result.
def attempt (result : Except Failure Bytes) : ClientM (Except Bytes Bytes) :=
  catching (do return .ok (← Action.lift result)) fun what => return .error what

def maybeSendRoomKey (peerId : UInt32) : ClientM Unit := do
  let client ← Action.get
  match client.keyStore.roomKey, client.keyStore.peerPublic peerId with
  | some roomKey, some peerPk =>
      let nonce ← fillRandom kNonceSize
      match ← attempt (sealRoomKey cipher nonce client.keyStore.identitySecret peerPk roomKey) with
      | .error what =>
          reportError "Failed to seal room key"
            (ascii "peer_id=" ++ (toDecimal peerId ++ (ascii " err=" ++ what)))
      | .ok sealed =>
          if ← send .roomKeyOffer (buildRoomKeyOffer client.myId peerId sealed) then
            reportInfo "Sent RoomKeyOffer" (ascii "peer_id=" ++ toDecimal peerId)
          else reportError "Send failed" (ascii "RoomKeyOffer to id=" ++ toDecimal peerId)
  | _, _ => return

def sendEncryptedChatById (recipientId : UInt32) (plaintext : Bytes) : ClientM Unit := do
  let client ← Action.get
  match client.keyStore.peerPublic recipientId with
  | none =>
      reportError "No key for peer"
        (ascii "id=" ++ (toDecimal recipientId ++ (ascii " hint=/key " ++ toDecimal recipientId)))
  | some peerPk =>
      let nonce ← fillRandom kNonceSize
      match ← attempt
          (encryptForPeer cipher nonce client.keyStore.identitySecret peerPk plaintext) with
      | .error what =>
          reportError "Encrypt failed"
            (ascii "id=" ++ (toDecimal recipientId ++ (ascii " err=" ++ what)))
      | .ok sealed =>
          if ← send .chat (buildChatById client.myId recipientId sealed) then return
          else reportError "Send failed" (ascii "Chat to id=" ++ toDecimal recipientId)

def sendEncryptedChatByNickname (nickname plaintext : Bytes) : ClientM Unit := do
  let client ← Action.get
  match client.idByNickname.lookup nickname with
  | none =>
      reportError "Unknown nickname" (ascii "nickname=" ++ (nickname ++ ascii " hint=/users"))
  | some recipientId => sendEncryptedChatById cipher recipientId plaintext

def sendEncryptedBroadcast (plaintext : Bytes) : ClientM Unit := do
  let client ← Action.get
  match client.keyStore.roomKey with
  | none => reportError "No room key yet" (ascii "wait for RoomKeyOffer or be first client")
  | some roomKey =>
      let nonce ← fillRandom kNonceSize
      match ← attempt (encryptWithRoomKey cipher nonce roomKey plaintext) with
      | .error what => reportError "Encrypt broadcast failed" what
      | .ok sealed =>
          if ← send .chat (buildChatBroadcast client.myId sealed) then return
          else reportError "Send failed" (ascii "Chat broadcast")

def attemptWith (key : Option Bytes) (missing : String)
    (decrypt : Bytes → Except Failure Bytes) : ClientM (Except Bytes Bytes) :=
  match key with
  | none => return .error (ascii missing)
  | some key => attempt (decrypt key)

-- The key of the sender is tried first, then the room key.
def decryptDeliver (fromId : UInt32) (body : Bytes) : ClientM (Option Bytes) := do
  let store := (← Action.get).keyStore
  match ← attemptWith (store.peerPublic fromId) "no peer key" fun peerPk =>
      decryptFromPeer cipher store.identitySecret peerPk body with
  | .ok plain => return some plain
  | .error peerErr => do
      match ← attemptWith store.roomKey "no room key" fun roomKey =>
          decryptWithRoomKey cipher roomKey body with
      | .ok plain => return some plain
      | .error roomErr => do
          .emit (.logError (ascii "decrypt failed from_id=" ++ (toDecimal fromId ++
            (ascii " peer=[" ++ (peerErr ++ (ascii "] room=[" ++ (roomErr ++ ascii "]")))))))
          return none

inductive InputCommand where
  | listUsers
  | exit
  | chatById (recipientId : UInt32) (text : Bytes)
  | chatByNickname (recipientNickname text : Bytes)
  | chatBroadcast (text : Bytes)
  | keyOffer (recipientId : UInt32)
  | invalid
  deriving DecidableEq, Repr

def handleInputCommand : InputCommand → ClientM Unit
  | .listUsers => do
      if ← send .listUsers (.ok buildListUsers) then return
      else reportError "Send failed" (ascii "ListUsers")
  | .exit => Action.modify fun client => { client with running := false }
  | .keyOffer recipientId => sendKeyOffer recipientId
  | .chatById recipientId text => sendEncryptedChatById cipher recipientId text
  | .chatByNickname nickname text => sendEncryptedChatByNickname cipher nickname text
  | .chatBroadcast text => sendEncryptedBroadcast cipher text
  | .invalid => reportError "Invalid format" (ascii "use recipient:text or /users /key /exit")

-- The table updates of a presence message and of each entry of a users list.
def ClientViewModel.learnNickname (client : ClientViewModel) (user : UserInfo) : ClientViewModel :=
  { client with
    nicknameById := client.nicknameById.insert user.id user.nickname
    idByNickname :=
      if user.nickname = [] then client.idByNickname
      else client.idByNickname.insert user.nickname user.id }

def ClientViewModel.forgetNickname (client : ClientViewModel) (user : UserInfo) : ClientViewModel :=
  { client with
    nicknameById := client.nicknameById.erase user.id
    idByNickname :=
      if user.nickname = [] then client.idByNickname else client.idByNickname.erase user.nickname }

-- `IncomingMessagePresenter::present`.
def present (message : AppMessage) : ClientM Unit :=
  match message.type, message.payload with
  | .deliver, .deliver fromId text => display (.delivered fromId text)
  | .userJoined, .userJoined id nickname => display (.userJoined id nickname)
  | .userLeft, .userLeft id nickname => display (.userLeft id nickname)
  | .usersList, .usersList users => display (.usersList users)
  | .error, .error text => display (.error text)
  | .deliver, _ | .userJoined, _ | .userLeft, _ | .usersList, _ | .error, _ =>
      .lift (.error .badVariantAccess)
  | _, _ => return

def receivePeerKey (fromId : UInt32) (text : Bytes) : ClientM Unit :=
  catching
    (do
      let keyStore ← Action.lift ((← Action.get).keyStore.setPeerPublic fromId text)
      Action.modify fun client => { client with keyStore }
      reportInfo "Received pubkey" (ascii "from_id=" ++ toDecimal fromId)
      sendKeyOffer fromId
      maybeSendRoomKey cipher fromId)
    fun what => reportError "Invalid PeerKey"
      (ascii "from_id=" ++ (toDecimal fromId ++ (ascii " err=" ++ what)))

def receiveRoomKey (fromId : UInt32) (text : Bytes) : ClientM Unit :=
  catching
    (do
      let store := (← Action.get).keyStore
      match store.peerPublic fromId with
      | none => reportError "RoomKey from unknown peer" (ascii "from_id=" ++ toDecimal fromId)
      | some peerPk =>
          let room ← Action.lift (openRoomKey cipher store.identitySecret peerPk text)
          let keyStore ← Action.lift (store.setRoomKey room)
          Action.modify fun client => { client with keyStore }
          reportInfo "Received room key" (ascii "from_id=" ++ toDecimal fromId))
    fun what => reportError "Failed to open room key" what

def handleIncoming (message : AppMessage) : ClientM Unit :=
  match message.type, message.payload with
  | .deliver, .deliver fromId text => do
      match ← decryptDeliver cipher fromId text with
      | none => reportError "Decrypt failed" (ascii "from_id=" ++ toDecimal fromId)
      | some plain => display (.delivered fromId plain)
  | .peerKey, .deliver fromId text => receivePeerKey cipher fromId text
  | .roomKey, .deliver fromId text => receiveRoomKey cipher fromId text
  | .bannedIds, .bannedIds ids => do
      Action.modify fun client => { client with keyStore := client.keyStore.erasePeers ids }
      reportInfo "Admin banned ids" ((ascii ",").intercalate (ids.map toDecimal))
  | .userJoined, .userJoined id nickname => do
      Action.modify (·.learnNickname { id, nickname })
      present message
      if id ≠ (← Action.get).myId then sendKeyOffer id else return
  | .userLeft, .userLeft id nickname => do
      Action.modify (·.forgetNickname { id, nickname })
      present message
  | .usersList, .usersList users => do
      Action.modify fun client => users.foldl ClientViewModel.learnNickname client
      present message
  | .deliver, _ | .peerKey, _ | .roomKey, _ | .bannedIds, _ | .userJoined, _ | .userLeft, _
  | .usersList, _ => .lift (.error .badVariantAccess)
  | _, _ => present message

def announceServerLost : ClientM Unit := do
  if (← Action.get).exitAnnounced then return
  else do
    Action.modify fun client => { client with exitAnnounced := true }
    display .serverDisconnected

-- One turn of `receive_loop`.
def receiveNext (incoming : Option Frame) : ClientM Unit :=
  catching
    (do
      match ← Action.lift (receive incoming) with
      | none => do
          announceServerLost
          Action.modify fun client => { client with running := false }
          .emit .shutdownSocket
          .emit .closeStdin
      | some message => handleIncoming cipher message)
    fun what => reportError "Decode failed" what

end Cipher

-- A chat that goes out encrypted: its key, if there is one, what is done with it, and what is
-- reported.
structure SealedChat where
  key : Option Bytes
  keyless : String × Bytes
  encrypt : Bytes → Bytes → Except Failure Bytes
  failed : Bytes → String × Bytes
  build : Bytes → Except Failure Bytes
  unsent : Bytes

namespace SealedChat

-- What `send_encrypted_chat_by_id` and `send_encrypted_broadcast` have in common.
def send (chat : SealedChat) : ClientM Unit :=
  match chat.key with
  | none => reportError chat.keyless.1 chat.keyless.2
  | some key => do
      let nonce ← fillRandom kNonceSize
      match ← attempt (chat.encrypt key nonce) with
      | .error what => reportError (chat.failed what).1 (chat.failed what).2
      | .ok sealed =>
          if ← Client.send .chat (chat.build sealed) then return
          else reportError "Send failed" chat.unsent

def direct (cipher : Monocypher) (recipientId : UInt32) (plaintext : Bytes)
    (client : ClientViewModel) :
    SealedChat where
  key := client.keyStore.peerPublic recipientId
  keyless := ("No key for peer",
    ascii "id=" ++ (toDecimal recipientId ++ (ascii " hint=/key " ++ toDecimal recipientId)))
  encrypt peerPk nonce :=
    encryptForPeer cipher nonce client.keyStore.identitySecret peerPk plaintext
  failed what :=
    ("Encrypt failed", ascii "id=" ++ (toDecimal recipientId ++ (ascii " err=" ++ what)))
  build := buildChatById client.myId recipientId
  unsent := ascii "Chat to id=" ++ toDecimal recipientId

def broadcast (cipher : Monocypher) (plaintext : Bytes) (client : ClientViewModel) :
    SealedChat where
  key := client.keyStore.roomKey
  keyless := ("No room key yet", ascii "wait for RoomKeyOffer or be first client")
  encrypt roomKey nonce := encryptWithRoomKey cipher nonce roomKey plaintext
  failed what := ("Encrypt broadcast failed", what)
  build := buildChatBroadcast client.myId
  unsent := ascii "Chat broadcast"

end SealedChat

theorem sendEncryptedChatById_eq (cipher : Monocypher) (recipientId : UInt32) (plaintext : Bytes) :
    sendEncryptedChatById cipher recipientId plaintext =
      Action.get >>= fun client => (SealedChat.direct cipher recipientId plaintext client).send :=
  rfl

theorem sendEncryptedBroadcast_eq (cipher : Monocypher) (plaintext : Bytes) :
    sendEncryptedBroadcast cipher plaintext =
      Action.get >>= fun client => (SealedChat.broadcast cipher plaintext client).send := rfl

end ModbusChat.Client
