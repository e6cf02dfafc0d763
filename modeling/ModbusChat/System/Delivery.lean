import ModbusChat.Client.Delivery
import ModbusChat.Server.FrameBounds
import ModbusChat.System.Audience
import ModbusChat.System.KeyExchange
import ModbusChat.System.Wild

set_option autoImplicit false

namespace ModbusChat.System

open BigEndian Effects Wire Client
open Server (Fd ServerViewModel ClientRecord WellFramed)

/-- A line that sends a text to a client, by a numeral of its id or by a nickname. -/
inductive Addresses (client : ClientViewModel) (id : UInt32) (text : Bytes) : (line : Bytes) → Prop
  | byId {numeral : Bytes} (numeric : isNumericRecipient numeral)
      (value : Text.ofDigits numeral = id.toNat) : Addresses client id text (numeral ++ 58 :: text)
  | byNickname {nickname : Bytes} (known : client.idByNickname.lookup nickname = some id)
      (accepted : parseInputLine (nickname ++ 58 :: text) client.myId =
        .ok (.chatByNickname nickname text)) :
      Addresses client id text (nickname ++ 58 :: text)

theorem addresses_toDecimal (client : ClientViewModel) (id : UInt32) (text : Bytes) :
    Addresses client id text (toDecimal id ++ 58 :: text) :=
  .byId (isNumericRecipient_toDecimal id) (Text.ofDigits_toDecimal id)

/--
Typing the line makes its author write one frame, and that frame makes the server send one message
to each of the targets and nothing to anyone else.
-/
def Carries (cipher : Monocypher) (author : ClientViewModel) (line : Bytes)
    (server : ServerViewModel) (fd : Fd) (targets : List Fd) (message : Bytes) : Prop :=
  ∃ sent, ((typeIn cipher (line ++ [10])).run author).output = [.send .chat sent] ∧
    WellFramed .chat sent ∧ WellFramed .deliver message ∧
    ∀ other,
      inbox other ((Server.handleClientData fd (some (makeFrame .chat sent))).run server).output =
      if other ∈ targets then [{ type := .deliver, payload := message }] else []

/-- All that a client does with the message is to print the text and whom it comes from. -/
def Shows (cipher : Monocypher) (reader : ClientViewModel) (message : Bytes) (fromId : UInt32)
    (text : Bytes) : Prop :=
  ((receiveNext cipher (some (makeFrame .deliver message))).run reader).output =
    [.display (.delivered fromId text)]

section Relayed

variable {server : ServerViewModel} {fd : Fd} {sender : ClientRecord} {chat : ChatPayload}
  {recipient : Recipient} {sent : Bytes} (found : server.registry.findByFd fd = some sender)
  (notBanned : sender.id ∉ server.bannedIds) (tag : chat.recipientTag = recipient.tag)
  (data : recipient.data = .ok chat.recipientData) (built : encodeChat chat = .ok sent)

theorem wellFramed_deliver (fromId : UInt32) {text : Bytes} (fits : text.length ≤ 65526) :
    WellFramed .deliver (writeU32Be fromId ++ stringBytes text) := by
  have short : text.length ≤ kMaxU16Count := by
    rw [kMaxU16Count]
    omega
  have encoded : encodePayload .deliver (.deliver fromId text) =
      .ok (writeU32Be fromId ++ stringBytes text) := encodeDeliver_eq_ok.mpr ⟨short, rfl⟩
  rw [Server.wellFramed_iff encoded trivial, List.length_append, writeU32Be_length,
    stringBytes_length]
  omega

include found notBanned tag data built

theorem broadcast_inbox (broadcast : chat.recipientTag = kRecipientBroadcast) (other : Fd) :
    inbox other ((Server.handleClientData fd (some (makeFrame .chat sent))).run server).output =
      if other ∈ Server.broadcastTargets server fd then
        [{ type := .deliver, payload := writeU32Be sender.id ++ stringBytes chat.text }]
      else [] := by
  obtain ⟨_, _, -, -, -, run⟩ :=
    Server.handleClientData_chat found notBanned (decode_encodeChat tag data built)
  refine inbox_broadcast ?_ (Server.broadcastTargets_nodup server fd) other
  rw [run, if_pos broadcast, Server.sends_display, Server.sends_map_send, Server.deliverType]

theorem unicast_inbox (unicast : chat.recipientTag ≠ kRecipientBroadcast) {targetFd : Fd}
    (resolves : Server.Resolves server chat targetFd) (other : Fd) :
    inbox other ((Server.handleClientData fd (some (makeFrame .chat sent))).run server).output =
      if other ∈ [targetFd] then
        [{ type := .deliver, payload := writeU32Be sender.id ++ stringBytes chat.text }]
      else [] := by
  obtain ⟨_, target, -, -, resolved, run⟩ :=
    Server.handleClientData_chat found notBanned (decode_encodeChat tag data built)
  obtain rfl : target = .ok targetFd :=
    Except.ok.inj (resolved.symm.trans (Server.unicastTarget_eq_ok.mpr resolves))
  refine inbox_broadcast ?_ (List.nodup_singleton targetFd) other
  rw [run, if_neg unicast]
  rfl

-- Whoever is sent a `Deliver` is the one that the registry finds; an error goes out with another
-- type.
theorem resolves_of_delivered (unicast : chat.recipientTag ≠ kRecipientBroadcast) {peerFd : Fd}
    {message : Bytes}
    (delivered : inbox peerFd
      ((Server.handleClientData fd (some (makeFrame .chat sent))).run server).output =
      [{ type := .deliver, payload := message }]) : Server.Resolves server chat peerFd := by
  obtain ⟨_, target, -, -, resolved, run⟩ :=
    Server.handleClientData_chat found notBanned (decode_encodeChat tag data built)
  rw [run, if_neg unicast, inbox, Server.sends_display] at delivered
  cases target with
  | error text =>
    rw [Server.sends_relayedTo_error] at delivered
    by_cases same : fd = peerFd <;> simp [same] at delivered
  | ok targetFd =>
    by_cases same : targetFd = peerFd
    · exact same ▸ Server.unicastTarget_eq_ok.mp resolved
    · simp [Server.relayedTo, Server.sends, Server.Effect.sent?, same] at delivered

end Relayed

theorem Addresses.typed {cipher : Monocypher} {client : ClientViewModel} {id : UInt32}
    {text line : Bytes}
    (addresses : Addresses client id text line) (running : client.running = true)
    (unbroken : 10 ∉ line) :
    ((typeIn cipher (line ++ [10])).run client).output =
      ((sendEncryptedChatById cipher id text).run client).output := by
  cases addresses with
  | byId numeric value =>
    exact typeIn_line running unbroken (by simp) (parseInputLine_byId numeric value)
  | byNickname known accepted =>
    rw [typeIn_line running unbroken (by simp) accepted]
    simp only [handleInputCommand, sendEncryptedChatByNickname, Action.run_bind, Action.run_get,
      Outcome.andThen_ok, Outcome.before_nil, known]

section Carried

variable {cipher : Monocypher} {author : Node} (able : author.Able cipher)
  (running : author.client.running = true) {server : ServerViewModel} {fd : Fd}
  {sender : ClientRecord}
  (found : server.registry.findByFd fd = some sender) (notBanned : sender.id ∉ server.bannedIds)
  {text : Bytes}
include able running

theorem direct_typed {id : UInt32} {peerPk line : Bytes}
    (known : author.client.keyStore.peerPublic id = some peerPk) (short : text.length ≤ 65481)
    (addresses : Addresses author.client id text line) (unbroken : 10 ∉ line) :
    ∃ nonce sent, nonce.length = kNonceSize ∧
      ((typeIn cipher (line ++ [10])).run author.client).output = [.send .chat sent] ∧
      (let body := aeadEncrypt cipher
        (cipher.x25519 author.client.keyStore.identitySecret peerPk) nonce text
       encodeChat ⟨author.client.myId, kRecipientById, writeU32Be id, body⟩ = .ok sent ∧
        WellFramed .chat sent ∧ ∀ fromId, WellFramed .deliver
          (writeU32Be fromId ++ stringBytes body)) := by
  have small : text.length ≤ 65495 := by omega
  obtain ⟨nonce, sent, nonceSize, built, output⟩ :=
    sendEncryptedChatById_sends able.ready.1 able.wellFormed small known
  have size := aeadEncrypt_length cipher
    (cipher.x25519 author.client.keyStore.identitySecret peerPk) nonce text
  rw [nonceSize, kNonceSize, kMacSize] at size
  refine ⟨nonce, sent, nonceSize, (addresses.typed running unbroken).trans output, built, ?_,
    fun fromId => ?_⟩
  · apply (@Server.wellFramed_chat_iff .chat (.inl rfl) _ (.byId id) rfl rfl _ built).mpr
    simp only [writeU32Be_length, size]
    omega
  · exact wellFramed_deliver _ (by omega)

include found notBanned

theorem direct_carried {peerFd : Fd} {id : UInt32} {peerPk line : Bytes}
    (known : author.client.keyStore.peerPublic id = some peerPk) (free : id ∉ server.bannedIds)
    (indexed : server.registry.fdById id = some peerFd) (short : text.length ≤ 65481)
    (addresses : Addresses author.client id text line) (unbroken : 10 ∉ line) :
    ∃ nonce, nonce.length = kNonceSize ∧
      Carries cipher author.client line server fd [peerFd] (writeU32Be sender.id ++ stringBytes
        (aeadEncrypt cipher (cipher.x25519 author.client.keyStore.identitySecret peerPk) nonce
          text)) := by
  obtain ⟨nonce, sent, nonceSize, output, built, framed, framedBack⟩ :=
    direct_typed able running known short addresses unbroken
  have resolves : Server.Resolves server ⟨author.client.myId, kRecipientById, writeU32Be id,
      aeadEncrypt cipher (cipher.x25519 author.client.keyStore.identitySecret peerPk) nonce text⟩
        peerFd := by
    refine ⟨id, ?_, free, indexed⟩
    rw [Server.resolveRecipient_byId _ rfl rfl, indexed]
    rfl
  have unicast : kRecipientById ≠ kRecipientBroadcast := by decide
  exact ⟨nonce, nonceSize, sent, output, framed, framedBack _,
    @unicast_inbox _ _ _ _ (.byId id) _ found notBanned rfl rfl built unicast _ resolves⟩

theorem indexed_of_carried {peerFd : Fd} {id : UInt32} {peerPk line message : Bytes}
    (known : author.client.keyStore.peerPublic id = some peerPk) (short : text.length ≤ 65481)
    (addresses : Addresses author.client id text line) (unbroken : 10 ∉ line)
    (carried : Carries cipher author.client line server fd [peerFd] message) :
    server.registry.fdById id = some peerFd := by
  obtain ⟨nonce, sent, -, output, built, -, -⟩ :=
    direct_typed able running known short addresses unbroken
  obtain ⟨other, typed, -, -, inboxes⟩ := carried
  obtain rfl : sent = other := by simpa [output] using typed
  have delivered := inboxes peerFd
  rw [if_pos (List.mem_singleton.mpr rfl)] at delivered
  have unicast : kRecipientById ≠ kRecipientBroadcast := by decide
  obtain ⟨found_, resolved, -, indexed⟩ :=
    @resolves_of_delivered _ _ _ _ (.byId id) _ found notBanned rfl rfl built unicast _ _ delivered
  rw [Server.resolveRecipient_byId _ rfl rfl, Except.ok.injEq] at resolved
  split_ifs at resolved
  rwa [Option.some.inj resolved]

theorem broadcast_carried {roomKey : Bytes} (held : author.client.keyStore.roomKey = some roomKey)
    (short : text.length ≤ 65485) (unbroken : 10 ∉ text) :
    ∃ nonce, nonce.length = kNonceSize ∧
      Carries cipher author.client (kBroadcastRecipient ++ 58 :: text) server fd
        (Server.broadcastTargets server fd)
        (writeU32Be sender.id ++ stringBytes (aeadEncrypt cipher roomKey nonce text)) := by
  have small : text.length ≤ 65495 := by omega
  obtain ⟨nonce, sent, nonceSize, built, output⟩ :=
    sendEncryptedBroadcast_sends able.ready.1 able.wellFormed small held
  have size := aeadEncrypt_length cipher roomKey nonce text
  rw [nonceSize, kNonceSize, kMacSize] at size
  have line : 10 ∉ kBroadcastRecipient ++ 58 :: text := by
    simp [unbroken, show (10 : UInt8) ∉ kBroadcastRecipient by decide]
  have typed := @typeIn_line cipher _ _ _ running line (by simp) parseInputLine_broadcast
  refine ⟨nonce, nonceSize, sent, typed.trans output, ?_, ?_, fun other => ?_⟩
  · apply (@Server.wellFramed_chat_iff .chat (.inl rfl) _ .broadcast rfl rfl _ built).mpr
    simp only [List.length_nil, size]
    omega
  · exact wellFramed_deliver _ (by omega)
  · exact @broadcast_inbox _ _ _ _ .broadcast _ found notBanned rfl rfl built rfl other

end Carried

/--
A line reaches its receiver exactly when the index of the server leads to it, and a broadcast
everyone with the room key. The two worlds and the server may be those of one moment, or of three
between which anything happens.
-/
theorem lines_delivered {cipher : Monocypher} (ideal : cipher.Ideal) {typing reading : World}
    (typed : WildReachable cipher typing) (read : WildReachable cipher reading)
    {server : ServerViewModel} {fd : Fd} {author : Node} {sender : ClientRecord}
    (here : typing.nodes.lookup fd = some author) (running : author.client.running = true)
    (found : server.registry.findByFd fd = some sender) (notBanned : sender.id ∉ server.bannedIds)
    (text : Bytes) :
    (∀ (peerFd : Fd) (receiver : ClientRecord) (reader : Node) (line : Bytes),
      server.registry.findByFd peerFd = some receiver → receiver.id ∉ server.bannedIds →
      reading.nodes.lookup peerFd = some reader →
      author.client.keyStore.peerPublic receiver.id = some reader.client.keyStore.identityPublic →
      reader.client.keyStore.peerPublic sender.id = some author.client.keyStore.identityPublic →
      text.length ≤ 65481 → Addresses author.client receiver.id text line → 10 ∉ line →
      ((∃ message, Carries cipher author.client line server fd [peerFd] message ∧
          Shows cipher reader.client message sender.id text) ↔
        server.registry.fdById receiver.id = some peerFd)) ∧
    (∀ roomKey, author.client.keyStore.roomKey = some roomKey → text.length ≤ 65485 → 10 ∉ text →
      ∃ message,
        Carries cipher author.client (kBroadcastRecipient ++ 58 :: text) server fd
          (Server.broadcastTargets server fd) message ∧
        ∀ (peerFd : Fd) (receiver : ClientRecord) (reader : Node), peerFd ≠ fd →
          server.registry.findByFd peerFd = some receiver → receiver.id ∉ server.bannedIds →
          reading.nodes.lookup peerFd = some reader →
          reader.client.keyStore.roomKey = some roomKey →
          peerFd ∈ Server.broadcastTargets server fd ∧
            Shows cipher reader.client message sender.id text) := by
  have able := (wild_sane typed).able fd author here
  refine ⟨fun peerFd receiver reader line _ free there theirKey ourKey short addresses unbroken =>
    ?_,
    fun roomKey held short unbroken => ?_⟩
  · constructor
    · rintro ⟨message, carried, -⟩
      exact indexed_of_carried able running found notBanned theirKey short addresses
        unbroken carried
    · intro indexed
      have reads := (wild_sane read).able peerFd reader there
      obtain ⟨nonce, nonceSize, carried⟩ :=
        direct_carried able running found notBanned theirKey free indexed short addresses unbroken
      refine ⟨_, carried, receiveNext_shows (sealed_short (by omega) nonceSize _) ?_⟩
      -- the reader holds the public half of the key that the author encrypts with
      rw [able.wellFormed.pair] at ourKey
      exact decryptDeliver_fromPeer ideal reads.wellFormed nonceSize ourKey
  · obtain ⟨nonce, nonceSize, carried⟩ :=
      broadcast_carried able running found notBanned held short unbroken
    refine ⟨_, carried, fun peerFd receiver reader apart listed free there same => ⟨?_, ?_⟩⟩
    · exact Server.mem_broadcastTargets.mpr ⟨apart, receiver, listed, free⟩
    · have reads := (wild_sane read).able peerFd reader there
      exact receiveNext_shows (sealed_short (by omega) nonceSize _)
        (decryptDeliver_withRoomKey ideal reads.wellFormed nonceSize same)

def acquainted : World :=
  [WildEvent.own (.join 3 [] none (keysFrom 10)), .own (.clientReceive 3),
    .own (.join 4 (ascii "al") none (keysFrom 20)), .own (.clientReceive 4),
    .own (.serverReceive 4),
    .own (.clientReceive 3), .own (.flush 3 .receiver), .own (.serverReceive 3),
    .own (.clientReceive 4),
    .own (.flush 4 .receiver), .own (.serverReceive 4), .own (.clientReceive 3),
    .own (.clientReceive 3),
    .own (.flush 3 .receiver), .own (.serverReceive 3), .own (.clientReceive 4)].foldl
      (wildStep transparent) {}

theorem lines_delivered_acquainted :
    ∃ author reader, acquainted.nodes.lookup 3 = some author ∧
      acquainted.nodes.lookup 4 = some reader ∧
      (∀ line ∈ [toDecimal 2 ++ 58 :: ascii "a:b", ascii "al" ++ 58 :: ascii "a:b"], ∃ message,
        Carries transparent author.client line acquainted.server 3 [4] message ∧
          Shows transparent reader.client message 1 (ascii "a:b")) ∧
      ∃ message, Carries transparent author.client (kBroadcastRecipient ++ 58 :: ascii "a:b")
          acquainted.server 3 (Server.broadcastTargets acquainted.server 3) message ∧
        Shows transparent reader.client message 1 (ascii "a:b") := by
  have reachable : WildReachable transparent acquainted :=
    Runs.Reachable.foldl (.start rfl) (by decide +kernel)
  have present : (acquainted.nodes.lookup 3).isSome ∧ (acquainted.nodes.lookup 4).isSome := by
    decide +kernel
  obtain ⟨author, here⟩ := Option.isSome_iff_exists.mp present.1
  obtain ⟨reader, there⟩ := Option.isSome_iff_exists.mp present.2
  have facts : ∀ author ∈ acquainted.nodes.lookup 3, ∀ reader ∈ acquainted.nodes.lookup 4,
      author.client.running = true ∧ author.client.myId = 1 ∧
      author.client.keyStore.peerPublic 2 = some reader.client.keyStore.identityPublic ∧
      reader.client.keyStore.peerPublic 1 = some author.client.keyStore.identityPublic ∧
      author.client.idByNickname.lookup (ascii "al") = some 2 ∧
      author.client.keyStore.roomKey.isSome ∧
      reader.client.keyStore.roomKey = author.client.keyStore.roomKey := by decide +kernel
  obtain ⟨running, own, theirKey, ourKey, named, hasRoom, sameRoom⟩ :=
    facts author here reader there
  obtain ⟨roomKey, room⟩ := Option.isSome_iff_exists.mp hasRoom
  have sender : acquainted.server.registry.findByFd 3 = some { fd := 3, id := 1 } := by
    decide +kernel
  obtain ⟨direct, broadcast⟩ :=
    lines_delivered transparent_ideal reachable reachable here running sender
    (by decide +kernel) (ascii "a:b")
  have receiver : acquainted.server.registry.findByFd 4 =
      some { fd := 4, id := 2, nickname := ascii "al", registered := true } := by decide +kernel
  have delivered (line : Bytes) (addresses : Addresses author.client 2 (ascii "a:b") line)
      (unbroken : 10 ∉ line) :=
        (direct 4 _ reader line receiver (by decide +kernel) there theirKey ourKey
    (by decide) addresses unbroken).mpr (by decide +kernel)
  refine ⟨author, reader, here, there, fun line member => ?_, ?_⟩
  · rw [List.mem_pair] at member
    rcases member with rfl | rfl
    · exact delivered _ (addresses_toDecimal _ _ _) (by decide)
    · refine delivered _ (.byNickname named (parseInputLine_nickname_iff.mpr ?_)) (by decide)
      decide
  · obtain ⟨message, carried, shown⟩ := broadcast roomKey room (by decide) (by decide)
    exact ⟨message, carried, (shown 4 _ reader (by decide) receiver (by decide +kernel) there
      (sameRoom.trans room)).2⟩

section Exhausted

variable {cipher : Monocypher} {world : World}

theorem wildStep_join (all : AllBanned world.server) {fd : Fd} (accepted : ¬ fd < 0)
    (nickname : Bytes) (saved : Option PeerKeyStore) (random : Nat → UInt8) :
    let after := wildStep cipher world (.own (.join fd nickname saved random))
    after.server = world.server.enroll fd ∧
      after.nodes.lookup fd = some
        { client := launch cipher nickname saved random
          fromServer := [{ type := .assignId
                           payload := encodeAssignId 0 world.server.registry.allFds.isEmpty }] } ∧
      ∀ other node, other ≠ fd → world.nodes.lookup other = some node →
        other ∈ world.server.registry.clientsByFd →
        ∃ next, after.nodes.lookup other = some next ∧ next.client = node.client ∧
          next.started = node.started := by
  have server : Server.step world.server (.accept fd "") = world.server.enroll fd := by
    rw [Server.step_accept, if_neg accepted]
  have heard := accept_inbox accepted world.server ""
  refine ⟨server, ?_, fun other node apart here present => ?_⟩
  · have listed : fd ∈ (world.server.enroll fd).registry.clientsByFd :=
      Server.mem_allFds_enroll.mpr (.inl rfl)
    simp only [wildStep, step, World.call_lookup, server, if_pos listed]
    rw [show AList.lookup fd _ = _ from AList.lookup_insert _]
    have told := heard fd
    rw [if_pos rfl, all.allocate.1] at told
    exact congrArg (fun packets => some (Node.mk _ _ _ _ _ packets)) told
  · have listed : other ∈ (world.server.enroll fd).registry.clientsByFd :=
      Server.mem_allFds_enroll.mpr (.inr present)
    simp only [wildStep, step, World.call_lookup, server, if_pos listed]
    rw [show AList.lookup other _ = _ from AList.lookup_insert_ne apart, here]
    exact ⟨_, rfl, rfl, rfl⟩

theorem wildStep_receive {fd : Fd} {node : Node} {packet : Packet} {rest : List Packet}
    (here : world.nodes.lookup fd = some node) (queue : node.fromServer = packet :: rest) :
    let after := wildStep cipher world (.own (.clientReceive fd))
    after.server = world.server ∧
      after.nodes.lookup fd = some (Node.handle cipher { node with fromServer := rest } packet) ∧
      ∀ other, other ≠ fd → after.nodes.lookup other = world.nodes.lookup other := by
  have nodes : (wildStep cipher world (.own (.clientReceive fd))).nodes =
      world.nodes.insert fd (Node.handle cipher { node with fromServer := rest } packet) := by
    simp only [wildStep, step, here, queue, World.updateNode]
  simp only [nodes]
  refine ⟨?_, AList.lookup_insert _, fun other apart => AList.lookup_insert_ne apart⟩
  simp only [wildStep, step, here, queue, World.updateNode]

end Exhausted

def storeOfZero (own other : Nat) : PeerKeyStore :=
  { createdStore transparent (keysFrom own) with
    peers :=
      (∅ : Table UInt32 Bytes).insert 0 (createdStore transparent (keysFrom other)).identityPublic }

def arrival (fd : Fd) (own other : Nat) : List WildEvent :=
  [.own (.join fd [] (some (storeOfZero own other)) (keysFrom own)), .own (.clientReceive fd)]

def arrived (own other : Nat) (createRoom : Bool) : Node :=
  Node.handle transparent
    { client := launch transparent [] (some (storeOfZero own other)) (keysFrom own) }
    { type := .assignId, payload := encodeAssignId 0 createRoom }

theorem arrived_ready (own other : Nat) (createRoom : Bool) :
    (arrived own other createRoom).started = true ∧
      (arrived own other createRoom).client.running = true ∧
      (arrived own other createRoom).client.keyStore.identityPublic =
        (createdStore transparent (keysFrom own)).identityPublic ∧
      (arrived own other createRoom).client.keyStore.peerPublic 0 =
        some (createdStore transparent (keysFrom other)).identityPublic := by
  cases createRoom <;> exact ⟨rfl, rfl, rfl, rfl⟩

section Arrival

variable {world : World} (all : AllBanned world.server) {fd : Fd} (accepted : ¬ fd < 0)
  {own other : Nat}
include all accepted

theorem arrival_run :
    let after := (arrival fd own other).foldl (wildStep transparent) world
    after.server = world.server.enroll fd ∧
      (∃ createRoom, after.nodes.lookup fd = some (arrived own other createRoom)) ∧
      ∀ earlier node, earlier ≠ fd → world.nodes.lookup earlier = some node →
        earlier ∈ world.server.registry.clientsByFd →
        ∃ next, after.nodes.lookup earlier = some next ∧ next.client = node.client ∧
          next.started = node.started := by
  obtain ⟨server, here, others⟩ := @wildStep_join transparent world all fd accepted []
    (some (storeOfZero own other)) (keysFrom own)
  obtain ⟨sameServer, handled, same⟩ := @wildStep_receive transparent _ fd _ _ [] here rfl
  refine ⟨sameServer.trans server, ⟨_, handled⟩, fun earlier node apart there present => ?_⟩
  obtain ⟨next, kept, facts⟩ := others earlier node apart there present
  exact ⟨next, (same earlier apart).trans kept, facts⟩

theorem arrival_reachable (reachable : WildReachable transparent world)
    (vacant : world.server.registry.findByFd fd = none)
    (genuine : (storeOfZero own other).WellFormed transparent) :
    WildReachable transparent ((arrival fd own other).foldl (wildStep transparent) world) := by
  have joins : WildAllowed transparent world
      (.own (.join fd [] (some (storeOfZero own other)) (keysFrom own))) := by
    refine ⟨AList.lookup_eq_none.mp vacant, accepted, Nat.zero_le _, ?_⟩
    rintro store ⟨⟩
    exact genuine
  have fresh := (@wildStep_join transparent world all fd accepted [] (some (storeOfZero own other))
    (keysFrom own)).2.1
  have reads : WildAllowed transparent (wildStep transparent world
      (.own (.join fd [] (some (storeOfZero own other)) (keysFrom own))))
        (.own (.clientReceive fd)) := by
    intro node here
    obtain rfl := Option.some.inj (fresh.symm.trans here)
    rfl
  exact (reachable.next joins).next reads

end Arrival

def exhausted (lists : List (List UInt32)) : World :=
  (lists.map fun ids => WildEvent.own (.ban ids)).foldl (wildStep transparent) {}

theorem exhausted_run (lists : List (List UInt32)) :
    WildReachable transparent (exhausted lists) ∧
      (exhausted lists).server = (lists.map Server.Event.ban).foldl Server.step {} := by
  suffices run : ∀ world, WildReachable transparent world →
      WildReachable transparent
        ((lists.map fun ids => WildEvent.own (.ban ids)).foldl (wildStep transparent) world) ∧
      ((lists.map fun ids => WildEvent.own (.ban ids)).foldl (wildStep transparent) world).server =
        (lists.map Server.Event.ban).foldl Server.step world.server from run {} (.start rfl)
  induction lists with
  | nil => exact fun world reachable => ⟨reachable, rfl⟩
  | cons ids lists ih => exact fun world reachable => ih _ (reachable.next trivial)

def strangers (lists : List (List UInt32)) : World :=
  (arrival 4 20 10).foldl (wildStep transparent)
    ((arrival 3 10 20).foldl (wildStep transparent) (exhausted lists))

-- Two clients that are not banned hold each other's keys, but what the second writes to the first
-- comes back to the second, and nobody else is sent anything.
def Misdelivered (world : World) : Prop :=
  ∃ author reader, world.nodes.lookup 4 = some author ∧ world.nodes.lookup 3 = some reader ∧
    (author.started = true ∧ author.client.running = true ∧ reader.started = true) ∧
    world.server.registry.findByFd 4 = some { fd := 4, id := 0 } ∧
    world.server.registry.findByFd 3 = some { fd := 3, id := 0 } ∧ 0 ∉ world.server.bannedIds ∧
    author.client.keyStore.peerPublic 0 = some reader.client.keyStore.identityPublic ∧
    reader.client.keyStore.peerPublic 0 = some author.client.keyStore.identityPublic ∧
    ∃ message, Carries transparent author.client (toDecimal 0 ++ 58 :: ascii "hi") world.server
      4 [4] message

theorem strangers_misdelivered {lists : List (List UInt32)} (all : ∀ id, ∃ ids ∈ lists, id ∈ ids) :
    WildReachable transparent (strangers lists) ∧ Misdelivered (strangers lists) := by
  obtain ⟨reachable, server⟩ := exhausted_run lists
  have banned := allBanned_of_bans all
  have registry := (Server.foldl_ban lists {}).1
  rw [← server] at banned registry
  have vacant (fd : Fd) : (exhausted lists).server.registry.findByFd fd = none := by
    rw [registry]
    rfl
  unfold strangers
  generalize exhausted lists = world at reachable banned vacant
  have first := arrival_reachable banned (by decide : ¬ (3 : Fd) < 0) reachable (vacant 3)
    (by decide +kernel : (storeOfZero 10 20).WellFormed transparent)
  obtain ⟨firstServer, ⟨readerRoom, firstNode⟩, -⟩ :=
    @arrival_run world banned 3 (by decide) 10 20
  generalize (arrival 3 10 20).foldl (wildStep transparent) world =
    before at first firstServer firstNode
  have still : AllBanned before.server := firstServer ▸ banned.enroll 3
  have listed (fd : Fd) : before.server.registry.findByFd fd =
      if fd = 3 then some { fd := 3, id := 0 } else none := by
    rw [firstServer, banned.findByFd_enroll, vacant]
  have second := arrival_reachable still (by decide : ¬ (4 : Fd) < 0) first (listed 4)
    (by decide +kernel : (storeOfZero 20 10).WellFormed transparent)
  obtain ⟨secondServer, ⟨authorRoom, author⟩, others⟩ :=
    @arrival_run before still 4 (by decide) 20 10
  obtain ⟨reader, there, client, started⟩ := others 3 _ (by decide) firstNode
    (Table.mem_iff_lookup.mpr ⟨_, listed 3⟩)
  generalize (arrival 4 20 10).foldl (wildStep transparent) before = after
    at second secondServer author there
  have records (fd : Fd) : after.server.registry.findByFd fd =
      if fd = 4 then some { fd := 4, id := 0 } else before.server.registry.findByFd fd := by
    rw [secondServer, still.findByFd_enroll]
  have free : 0 ∉ after.server.bannedIds := by
    rw [secondServer, (still.enroll 4).banned]
    simp
  obtain ⟨authorStarted, running, authorKey, authorKnows⟩ := arrived_ready 20 10 authorRoom
  obtain ⟨readerStarted, -, readerKey, readerKnows⟩ := arrived_ready 10 20 readerRoom
  have indexed : after.server.registry.fdById 0 = some 4 := by
    rw [secondServer, still.fdById_enroll]
  have typed := addresses_toDecimal (arrived 20 10 authorRoom).client 0 (ascii "hi")
  -- the index leads the author's message back to the author
  obtain ⟨_, -, carried⟩ :=
    direct_carried ((wild_sane second).able 4 _ author) running (records 4) free
    authorKnows free indexed (by decide) typed (by decide)
  refine ⟨second, _, reader, author, there, ⟨authorStarted, running, started.trans readerStarted⟩,
    records 4, (records 3).trans (listed 3), free, ?_, ?_, _, carried⟩
  · rw [authorKnows, client, readerKey]
  · rw [client, readerKnows, authorKey]

-- Once every id is banned, the clients that come share id 0, and only the last of them is found.
theorem strangers_wrong :
    WildReachable transparent (strangers banEverything) ∧ Misdelivered (strangers banEverything) :=
  strangers_misdelivered mem_banEverything

end ModbusChat.System
