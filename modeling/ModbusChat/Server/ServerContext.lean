import Mathlib.Data.Finset.Card
import ModbusChat.Server.ClientRegistry

set_option autoImplicit false

namespace ModbusChat.Server

open BigEndian Effects Wire

structure ServerViewModel where
  registry : ClientRegistry := {}
  nextId : UInt32 := 1
  freeIds : OrderedSet UInt32 := ∅
  bannedIds : Finset UInt32 := ∅
  running : Bool := true

inductive ViewLine where
  | acceptFailed (error : String)
  | clientConnected (id : UInt32)
  | clientDisconnected (id : UInt32) (nickname : Bytes)
  | clientRegistered (id : UInt32) (nickname : Bytes)
  | chat (fromId : UInt32) (toLabel : Bytes) (kind : String)
  | decodeError (error : String)
  | adminMessage (text : Bytes)
  deriving DecidableEq, Repr

-- What the server does to the world: socket calls, entries of the poll set and lines of its view.
inductive Effect where
  | send (fd : Fd) (type : MsgType) (payload : Bytes)
  | shutdown (fd : Fd)
  | close (fd : Fd)
  | watch (fd : Fd)
  | closeListener
  | display (line : ViewLine)
  deriving DecidableEq, Repr

abbrev ServerM := Action ServerViewModel Effect Failure

def ServerViewModel.isBanned (server : ServerViewModel) (id : UInt32) : Bool :=
  id ∈ server.bannedIds

-- Nothing in the server reads the result of a write, so a send is only its request.
def send (fd : Fd) (type : MsgType) (payload : Bytes) : ServerM Unit :=
  .emit (.send fd type payload)

def display (line : ViewLine) : ServerM Unit := .emit (.display line)

def sendError (fd : Fd) (text : Bytes) : ServerM Unit := do
  send fd .error (← Action.lift (encodeError text))

namespace PresenceBroadcaster

def broadcast (type : MsgType) (payload : Bytes) (exceptFd : Fd) : ServerM Unit := do
  let server ← Action.get
  .emitAll ((server.registry.allFds.filter (· ≠ exceptFd)).map fun fd => .send fd type payload)

def userJoined (id : UInt32) (nickname : Bytes) (exceptFd : Fd) : ServerM Unit := do
  broadcast .userJoined (← Action.lift (encodeUserJoined id nickname)) exceptFd

def userLeft (id : UInt32) (nickname : Bytes) : ServerM Unit := do
  broadcast .userLeft (← Action.lift (encodeUserLeft id nickname)) (-1)

end PresenceBroadcaster

end ModbusChat.Server
