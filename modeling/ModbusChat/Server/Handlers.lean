import ModbusChat.Server.ServerContext

set_option autoImplicit false

namespace ModbusChat.Server

open BigEndian Effects Wire

structure MessageHandler where
  canHandle : MsgType → Bool
  handle : Fd → AppMessage → ServerM Unit

def registerNickname (fd : Fd) (nickname : Bytes) : ServerM Unit := do
  let server ← Action.get
  match server.registry.findByFd fd with
  | none => return
  | some record =>
      if nickname = [] then sendError fd (ascii "Nickname cannot be empty")
      else if nickname = kBroadcastRecipient then sendError fd (ascii "Nickname 'all' is reserved")
      else if server.registry.nicknameTakenByOther nickname record.id then
        sendError fd (ascii "Nickname already taken")
      else do
        Action.modify fun server =>
          { server with registry := server.registry.setNickname fd nickname }
        display (.clientRegistered record.id nickname)
        PresenceBroadcaster.userJoined record.id nickname fd

def registerMessageHandler : MessageHandler where
  canHandle type := type = .register
  handle fd message :=
    match message.payload with
    | .register nickname => registerNickname fd nickname
    | _ => .lift (.error .badVariantAccess)

-- Everyone a broadcast from `fd` goes to.
def broadcastTargets (server : ServerViewModel) (fd : Fd) : List Fd :=
  server.registry.allFds.filter fun targetFd =>
    targetFd ≠ fd ∧ ∃ target ∈ server.registry.findByFd targetFd, ¬ server.isBanned target.id

-- The recipient of a relayed message that is not a broadcast, or the error its sender gets.
def unicastTarget (server : ServerViewModel) (chat : ChatPayload) (toLabel : Bytes) :
    Except Failure (Except Bytes Fd) := do
  match ← server.registry.resolveRecipient chat with
  | none => return .error (ascii "Unknown recipient: " ++ toLabel)
  | some targetId =>
      if server.isBanned targetId then return .error (ascii "Recipient banned: " ++ toLabel)
      else
        match server.registry.fdById targetId with
        | none => return .error (ascii "Recipient offline: " ++ toLabel)
        | some targetFd => return .ok targetFd

def relay (deliverType : MsgType) (logLabel : String) (fd : Fd) (chat : ChatPayload) :
    ServerM Unit := do
  let server ← Action.get
  match server.registry.findByFd fd with
  | none => return
  | some sender =>
      if server.isBanned sender.id then return
      else do
        let fromId := sender.id
        let toLabel ← Action.lift (ClientRegistry.recipientLabel chat)
        display (.chat fromId toLabel logLabel)
        if chat.recipientTag = kRecipientBroadcast then do
          let deliver ← Action.lift (encodeDeliver fromId chat.text)
          .emitAll ((broadcastTargets server fd).map fun targetFd =>
            .send targetFd deliverType deliver)
        else do
          match ← Action.lift (unicastTarget server chat toLabel) with
          | .error text => sendError fd text
          | .ok targetFd =>
              send targetFd deliverType (← Action.lift (encodeDeliver fromId chat.text))

def chatMessageHandler : MessageHandler where
  canHandle type := type = .chat
  handle fd message :=
    match message.payload with
    | .chat chat => relay .deliver "Chat" fd chat
    | _ => .lift (.error .badVariantAccess)

def opaqueUnicastHandler (requestType deliverType : MsgType) (logLabel : String) :
    MessageHandler where
  canHandle type := type = requestType
  handle fd message :=
    match message.payload with
    | .chat chat => relay deliverType logLabel fd chat
    | _ => .lift (.error .badVariantAccess)

def listUsersMessageHandler : MessageHandler where
  canHandle type := type = .listUsers
  handle fd _ := do
    let server ← Action.get
    send fd .usersList (← Action.lift (encodeUsersList server.registry.collectUsers))

def createMessageDispatcher : List MessageHandler :=
  [registerMessageHandler, chatMessageHandler,
    opaqueUnicastHandler .keyOffer .peerKey "KeyOffer",
    opaqueUnicastHandler .roomKeyOffer .roomKey "RoomKeyOffer",
    listUsersMessageHandler]

def dispatch (handlers : List MessageHandler) (fd : Fd) (message : AppMessage) : ServerM Unit :=
  match handlers.find? fun handler => handler.canHandle message.type with
  | some handler => handler.handle fd message
  | none => sendError fd (ascii "Unsupported message type")

end ModbusChat.Server
