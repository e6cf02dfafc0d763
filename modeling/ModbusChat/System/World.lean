import ModbusChat.Client.Identity
import ModbusChat.Client.KeyAgent
import ModbusChat.Server.Routing

set_option autoImplicit false

-- A world is the server together with the client processes connected to it. Both directions of a
-- connection are queues of whole messages. A client has two threads that send: the one that reads
-- the user's commands and the one that handles the server's messages. A handler updates the client
-- at once and leaves what it sends in the outbox of its thread, from where the frames are written
-- one by one, so that the frames of the two threads may interleave on the socket in any way.

namespace ModbusChat.System

open BigEndian Effects Wire Client
open Server (Fd ServerViewModel)

structure Node where
  client : ClientViewModel
  started : Bool := false
  typing : List Packet := []
  replying : List Packet := []
  toServer : List Packet := []
  fromServer : List Packet := []

/-- A client as the exchange of keys sees it, with the id the server knows it by. -/
structure Party where
  id : UInt32
  started : Bool
  agent : KeyAgent
  typing : List Request
  replying : List Request
  toServer : List Request
  fromServer : List Notice

def Node.party (node : Node) (id : UInt32) : Party where
  id := id
  started := node.started
  agent := node.client.agent
  typing := node.typing.map Packet.request
  replying := node.replying.map Packet.request
  toServer := node.toServer.map Packet.request
  fromServer := node.fromServer.map Packet.notice

def Party.out (party : Party) : List Request := party.toServer ++ (party.replying ++ party.typing)

-- The client holds a room key, or creates one as soon as it reads its first message.
def Party.HasRoomKey (party : Party) : Prop :=
  party.agent.keyStore.roomKey ≠ none ∨
    ¬ party.started ∧ ∃ first ∈ party.fromServer.head?, first = .assigned party.id true

instance (party : Party) : Decidable party.HasRoomKey :=
  inferInstanceAs (Decidable (_ ∨ _))

-- The offer of the client's key to an id is still to be made or still on its way to the server.
def Party.CanOffer (party : Party) (id : UInt32) : Prop :=
  id ∈ party.agent.keyOfferedTo → .keyOffer id party.agent.keyStore.identityPublic ∈ party.out

instance (party : Party) (id : UInt32) : Decidable (party.CanOffer id) :=
  inferInstanceAs (Decidable (_ → _))

/--
What the statements about whole runs refer to; no part of the program reads it. A new client is
noted with the clients that can pass the room key on to it, a received public key with its sender.
-/
inductive Happening where
  | joined (fd : Fd) (givers : List Fd)
  | peerKey (fd : Fd) (fromId : UInt32) (key : Bytes)
  deriving DecidableEq, Repr

structure World where
  server : ServerViewModel := {}
  nodes : Table Fd Node := ∅
  history : List Happening := []

def World.party (world : World) (fd : Fd) : Option Party :=
  match world.nodes.lookup fd, world.server.registry.findByFd fd with
  | some node, some record => some (node.party record.id)
  | _, _ => none

def World.connected (world : World) : List (Fd × Party) :=
  world.nodes.keys.filterMap fun fd => (world.party fd).map fun party => (fd, party)

def World.nextId (world : World) : UInt32 := world.server.allocateClientId.1

def World.givers (world : World) : List Fd :=
  world.nodes.keys.filter fun fd =>
    ∃ party ∈ world.party fd,
      party.id ∉ world.server.bannedIds ∧ party.HasRoomKey ∧ party.CanOffer world.nextId

def inbox (fd : Fd) (output : List Server.Effect) : List Packet :=
  ((Server.sends output).filter (·.1 = fd)).map fun sent =>
    { type := sent.2.1, payload := sent.2.2 }

-- A call into the server: its messages are queued, and a client that it drops is gone.
def World.call (world : World) (event : Server.Event) : World :=
  let outcome := event.action.run world.server
  { world with
    server := outcome.state
    nodes :=
      (world.nodes.mapWithKey fun fd node =>
        { node with fromServer := node.fromServer ++ inbox fd outcome.output }).restrict
          fun fd => fd ∈ outcome.state.registry.clientsByFd }

inductive Thread where
  | input
  | receiver
  deriving DecidableEq, Repr

-- `join` carries the nickname, the key store that was loaded, if any, and the random source.
inductive Event where
  | join (fd : Fd) (nickname : Bytes) (saved : Option PeerKeyStore) (random : Nat → UInt8)
  | leave (fd : Fd)
  | ban (ids : List UInt32)
  | serverReceive (fd : Fd)
  | clientReceive (fd : Fd)
  | command (fd : Fd) (command : InputCommand)
  | flush (fd : Fd) (thread : Thread)

section Step

variable (cipher : Monocypher)

-- A client process up to the point where it waits for its id.
def launch (nickname : Bytes) (saved : Option PeerKeyStore) (random : Nat → UInt8) :
    ClientViewModel :=
  ((loadOrCreateIdentity cipher (.ok saved.isSome)).run
    { nickname, random, keyStore := saved.getD {} }).state

def Node.handle (node : Node) (packet : Packet) : Node :=
  if node.started then
    let outcome := (receiveNext cipher (some packet.frame)).run node.client
    { node with client := outcome.state, replying := packets outcome.output }
  else
    -- nothing else runs yet, so what the start sends is on the socket when it returns
    let outcome := (startUp (some packet.frame)).run node.client
    { node with
      client := outcome.state
      started := outcome.result.isOk
      toServer := node.toServer ++ packets outcome.output }

def Node.obey (node : Node) (command : InputCommand) : Node :=
  let outcome := (handleInputCommand cipher command).run node.client
  { node with client := outcome.state, typing := packets outcome.output }

def Node.flush (node : Node) : Thread → Node
  | .input => { node with
      typing := node.typing.tail, toServer := node.toServer ++ node.typing.take 1 }
  | .receiver => { node with
      replying := node.replying.tail, toServer := node.toServer ++ node.replying.take 1 }

def noted (fd : Fd) : Notice → List Happening
  | .peerKey fromId key => [.peerKey fd fromId key]
  | _ => []

def World.updateNode (world : World) (fd : Fd) (update : Node → Node) : World :=
  match world.nodes.lookup fd with
  | none => world
  | some node => { world with nodes := world.nodes.insert fd (update node) }

def step (world : World) : Event → World
  | .join fd nickname saved random =>
      World.call
        { world with
          nodes := world.nodes.insert fd { client := launch cipher nickname saved random }
          history := .joined fd world.givers :: world.history }
        (.accept fd "")
  | .leave fd => world.call (.remove fd)
  | .ban ids => world.call (.ban ids)
  | .serverReceive fd =>
      match world.nodes.lookup fd with
      | none => world
      | some node =>
          match node.toServer with
          | [] => world
          | packet :: rest =>
              (world.updateNode fd fun node => { node with toServer := rest }).call
                (.data fd (some packet.frame))
  | .clientReceive fd =>
      match world.nodes.lookup fd with
      | none => world
      | some node =>
          match node.fromServer with
          | [] => world
          | packet :: rest =>
              { world.updateNode fd fun node =>
                  { node with fromServer := rest }.handle cipher packet with
                history := (if node.started then noted fd packet.notice else []) ++ world.history }
  | .command fd command => world.updateNode fd (·.obey cipher command)
  | .flush fd thread => world.updateNode fd (·.flush thread)

def Initial (world : World) : Prop := world = {}

/--
The kernel hands out only closed descriptors; a nickname that no frame can carry or a key store that
is no key store ends the client before it connects; and a thread that has not written all its frames
is not back in its loop.
-/
def Allowed (world : World) : Event → Prop
  | .join fd nickname saved _ =>
      fd ∉ world.server.registry.clientsByFd ∧ ¬ fd < 0 ∧ nickname.length ≤ kMaxU16Count ∧
        ∀ store ∈ saved, store.WellFormed cipher
  | .clientReceive fd => ∀ node ∈ world.nodes.lookup fd, node.replying = []
  | .command fd _ => ∀ node ∈ world.nodes.lookup fd, node.started ∧ node.typing = []
  | .leave _ | .ban _ | .serverReceive _ | .flush _ _ => True

instance Allowed.decidable (world : World) :
    (event : Event) → Decidable (Allowed cipher world event)
  | .join fd nickname saved _ => inferInstanceAs (Decidable
      (fd ∉ world.server.registry.clientsByFd ∧ ¬ fd < 0 ∧ nickname.length ≤ kMaxU16Count ∧
        ∀ store ∈ saved, store.WellFormed cipher))
  | .clientReceive fd =>
      inferInstanceAs (Decidable (∀ node ∈ world.nodes.lookup fd, node.replying = []))
  | .command fd _ => inferInstanceAs (Decidable
      (∀ node ∈ world.nodes.lookup fd, node.started ∧ node.typing = []))
  | .leave _ | .ban _ | .serverReceive _ | .flush _ _ => .isTrue trivial

abbrev Reachable : World → Prop := Runs.Reachable Initial (Allowed cipher) (step cipher)

end Step

def World.Quiescent (world : World) : Prop :=
  ∀ node ∈ world.nodes.values,
    node.typing = [] ∧ node.replying = [] ∧ node.toServer = [] ∧ node.fromServer = []

instance (world : World) : Decidable world.Quiescent :=
  inferInstanceAs (Decidable (∀ node ∈ world.nodes.values, _))

def createdStore (cipher : Monocypher) (random : Nat → UInt8) : PeerKeyStore :=
  let secretKey := (List.range kSecretKeySize).map random
  { identitySecret := secretKey, identityPublic := cipher.x25519PublicKey secretKey }

theorem launch_eq (cipher : Monocypher) (nickname : Bytes) (saved : Option PeerKeyStore)
    (random : Nat → UInt8) :
    (launch cipher nickname saved random).agent =
        { myId := 0, keyStore := saved.getD (createdStore cipher random), keyOfferedTo := ∅ } ∧
      (launch cipher nickname saved random).nickname = nickname ∧
      (launch cipher nickname saved random).online = true := by
  cases saved with
  | some store => exact ⟨rfl, rfl, rfl⟩
  | none =>
    have missing : NotLoaded (.ok false) := rfl
    unfold launch
    rw [Option.isSome_none, loadOrCreateIdentity_created missing]
    exact ⟨rfl, rfl, rfl⟩

theorem createdStore_wellFormed (cipher : Monocypher) (random : Nat → UInt8) :
    (createdStore cipher random).WellFormed cipher where
  secretSize := by simp [createdStore]
  pair := rfl
  roomSize := by simp [createdStore]
  peerSize := by simp [createdStore, Table.values]

theorem launch_wellFormed {cipher : Monocypher} {saved : Option PeerKeyStore}
    (genuine : ∀ store ∈ saved, store.WellFormed cipher) (nickname : Bytes) (random : Nat → UInt8) :
    (launch cipher nickname saved random).agent.keyStore.WellFormed cipher := by
  rw [(launch_eq cipher nickname saved random).1]
  cases saved with
  | none => exact createdStore_wellFormed cipher random
  | some store => exact genuine store rfl

theorem World.party_eq {world : World} {fd : Fd} {party : Party} :
    world.party fd = some party ↔
      ∃ node record, world.nodes.lookup fd = some node ∧
        world.server.registry.findByFd fd = some record ∧ node.party record.id = party := by
  unfold World.party
  cases world.nodes.lookup fd with
  | none => simp
  | some node => cases world.server.registry.findByFd fd <;> simp

theorem World.mem_connected {world : World} {fd : Fd} {party : Party} :
    (fd, party) ∈ world.connected ↔ world.party fd = some party := by
  simp only [World.connected, List.mem_filterMap, Option.map_eq_some_iff, Prod.mk.injEq]
  constructor
  · rintro ⟨_, -, _, found, rfl, rfl⟩
    exact found
  · intro found
    obtain ⟨node, record, here, -⟩ := World.party_eq.mp found
    exact ⟨fd, Table.mem_iff_lookup.mpr ⟨node, here⟩, party, found, rfl, rfl⟩

theorem World.Quiescent.queues {world : World} (quiescent : world.Quiescent) {fd : Fd}
    {party : Party}
    (connected : world.party fd = some party) : party.out = [] ∧ party.fromServer = [] := by
  obtain ⟨node, record, found, -, rfl⟩ := World.party_eq.mp connected
  obtain ⟨typing, replying, toServer, fromServer⟩ :=
    quiescent node (Table.mem_values.mpr ⟨fd, found⟩)
  simp [Party.out, Node.party, typing, replying, toServer, fromServer]

end ModbusChat.System
