import ModbusChat.Server.Handlers
import ModbusChat.Shared.Runs

set_option autoImplicit false

namespace ModbusChat.Server

open BigEndian Effects Wire

def takeFree (banned : Finset UInt32) :
    (free : List UInt32) → free.Pairwise (· < ·) → Option UInt32 × OrderedSet UInt32
  | [], _ => (none, ∅)
  | id :: rest, sorted =>
      if id ∈ banned then takeFree banned rest sorted.tail else (some id, ⟨rest, sorted.tail⟩)

-- Among `fuel + 1` consecutive ids one is not banned, so counting the banned ids is fuel enough.
def skipBanned (banned : Finset UInt32) : (fuel : Nat) → UInt32 → UInt32
  | 0, nextId => nextId
  | fuel + 1, nextId => if nextId ∈ banned then skipBanned banned fuel (nextId + 1) else nextId

def ServerViewModel.allocateClientId (server : ServerViewModel) : UInt32 × ServerViewModel :=
  match takeFree server.bannedIds server.freeIds.elements server.freeIds.sorted with
  | (some id, freeIds) => (id, { server with freeIds })
  | (none, freeIds) =>
      let id := skipBanned server.bannedIds server.bannedIds.card server.nextId
      (id, { server with freeIds, nextId := id + 1 })

def ServerViewModel.releaseClientId (server : ServerViewModel) (id : UInt32) : ServerViewModel :=
  if server.isBanned id then server else { server with freeIds := server.freeIds.insert id }

def broadcastBannedIds (ids : List UInt32) : ServerM Unit := do
  let payload ← Action.lift (encodeBannedIds ids)
  let server ← Action.get
  let targets := server.registry.allFds.filter fun fd =>
    ∃ client ∈ server.registry.findByFd fd, ¬ server.isBanned client.id
  .emitAll (targets.map fun fd => .send fd .bannedIds payload)

-- The first loop of `ban_ids`: the ids that were not banned before, and the updated server.
def insertBans : List UInt32 → ServerViewModel → List UInt32 × ServerViewModel
  | [], server => ([], server)
  | id :: ids, server =>
      if id = 0 then insertBans ids server
      else
        let (newlyBanned, after) := insertBans ids
          { server with
            bannedIds := insert id server.bannedIds
            freeIds := server.freeIds.erase id }
        (if server.isBanned id then newlyBanned else id :: newlyBanned, after)

def bannedMessage (ids : List UInt32) : Bytes :=
  ascii "banned ids=" ++ (ascii ",").intercalate (ids.map toDecimal)

def banIds (ids : List UInt32) : ServerM Unit := do
  let (newlyBanned, server) := insertBans ids (← Action.get)
  Action.modify fun _ => server
  if newlyBanned = [] then display (.adminMessage (ascii "no new ids banned"))
  else do
    broadcastBannedIds newlyBanned
    .emitAll ((newlyBanned.filterMap server.registry.fdById).map .shutdown)
    display (.adminMessage (bannedMessage newlyBanned))

def acceptClient (clientFd : Fd) (error : String) : ServerM Unit :=
  if clientFd < 0 then display (.acceptFailed error)
  else do
    let server ← Action.get
    let createRoom := server.registry.allFds.isEmpty
    let (id, server) := server.allocateClientId
    let (record, registry) := server.registry.add clientFd id
    Action.modify fun _ => { server with registry }
    .emit (.watch clientFd)
    display (.clientConnected record.id)
    send clientFd .assignId (encodeAssignId record.id createRoom)
    PresenceBroadcaster.userJoined record.id [] clientFd

def removeClient (fd : Fd) : ServerM Unit := do
  let server ← Action.get
  match server.registry.remove fd with
  | (none, _) => return
  | (some record, registry) =>
      display (.clientDisconnected record.id record.nickname)
      Action.modify fun server => { server with registry }.releaseClientId record.id
      .emit (.close fd)
      PresenceBroadcaster.userLeft record.id record.nickname

def disconnectClients : List Fd → ServerM Unit
  | [] => return
  | fd :: fds => do
      let server ← Action.get
      match server.registry.remove fd with
      | (none, _) => disconnectClients fds
      | (some record, registry) =>
          display (.clientDisconnected record.id record.nickname)
          Action.modify fun server => { server with registry }.releaseClientId record.id
          .emit (.shutdown fd)
          .emit (.close fd)
          disconnectClients fds

def disconnectAllClients : ServerM Unit := do
  disconnectClients (← Action.get).registry.allFds

def requestStop : ServerM Unit := do
  Action.modify fun server => { server with running := false }
  .emit .closeListener
  .emitAll ((← Action.get).registry.allFds.map .shutdown)

def catchException (fd : Fd) (failure : Failure) : ServerM Unit :=
  match failure.what? with
  | none => .lift (.error failure)
  | some what => do
      display (.decodeError what)
      sendError fd (ascii what)

def handleClientData (fd : Fd) (incoming : Option Frame) : ServerM Unit :=
  .tryCatch
    (do
      let server ← Action.get
      if ∃ sender ∈ server.registry.findByFd fd, server.isBanned sender.id then removeClient fd
      else
        match ← Action.lift (receive incoming) with
        | none => if server.running then removeClient fd else return
        | some message => dispatch createMessageDispatcher fd message)
    (catchException fd)

/--
One call into the server: `accept` carries the descriptor that the listening socket returned and
the text of `errno`, `data` what `read_frame` returns on a readable connection, `remove` a
descriptor that poll reports as failed.
-/
inductive Event where
  | accept (fd : Fd) (error : String)
  | remove (fd : Fd)
  | data (fd : Fd) (incoming : Option Frame)
  | ban (ids : List UInt32)
  | requestStop
  | disconnectAll
  deriving DecidableEq, Repr

def Event.action : Event → ServerM Unit
  | .accept fd error => acceptClient fd error
  | .remove fd => removeClient fd
  | .data fd incoming => handleClientData fd incoming
  | .ban ids => banIds ids
  | .requestStop => Server.requestStop
  | .disconnectAll => disconnectAllClients

def step (server : ServerViewModel) (event : Event) : ServerViewModel :=
  (event.action.run server).state

def Initial (server : ServerViewModel) : Prop := server = {}

-- The kernel never returns a descriptor that is still open.
def Allowed (server : ServerViewModel) : Event → Prop
  | .accept fd _ => fd ∉ server.registry.clientsByFd
  | _ => True

instance (server : ServerViewModel) : (event : Event) → Decidable (Allowed server event)
  | .accept fd _ => inferInstanceAs (Decidable (fd ∉ server.registry.clientsByFd))
  | .remove _ | .data _ _ | .ban _ | .requestStop | .disconnectAll => .isTrue trivial

abbrev Reachable : ServerViewModel → Prop := Runs.Reachable Initial Allowed step

end ModbusChat.Server
