import ModbusChat.System.KeyExchange

set_option autoImplicit false

-- Only the client that finds the room empty creates a room key. Everyone else gets it from a giver,
-- a client that held one when the newcomer joined, in three messages: the giver's key, the
-- newcomer's key, and the sealed room key. What the giver sends to the newcomer arrives in order,
-- so that the room key never arrives before the key it is opened with.

namespace ModbusChat.System

open BigEndian Wire Client
open Server (Fd)

def giversOf (fd : Fd) (history : List Happening) : List Fd :=
  match history.find? (·.joins fd) with
  | some (.joined _ givers) => givers
  | _ => []

def World.suppliers (world : World) (banned : Finset UInt32) (stays : Fd → Bool) (fd : Fd) :
    List Fd :=
  (giversOf fd world.history).filter fun giver =>
    stays giver ∧ JoinedBefore giver fd world.history ∧ ∃ party ∈ world.party giver,
      party.id ∉ banned

-- Every client that stays and is not banned has a room key or somebody to get it from.
def World.Supplied (world : World) (banned : Finset UInt32) (stays : Fd → Bool) : Prop :=
  ∀ client ∈ world.connected, stays client.1 → client.2.id ∉ banned →
    client.2.HasRoomKey ∨ world.suppliers banned stays client.1 ≠ []

instance (world : World) (banned : Finset UInt32) (stays : Fd → Bool) :
    Decidable (world.Supplied banned stays) :=
  inferInstanceAs (Decidable (∀ client ∈ world.connected, _))

inductive Gossip where
  | key (publicKey : Bytes)
  | room (sealed : Bytes)
  deriving DecidableEq

def requestGossip (peerId : UInt32) : Request → Option Gossip
  | .keyOffer id publicKey => if id = peerId then some (.key publicKey) else none
  | .roomKeyOffer id sealed => if id = peerId then some (.room sealed) else none
  | _ => none

-- Nothing that the user has made the client send to a peer is still to be written.
def Party.QuietTo (peerId : UInt32) (party : Party) : Prop :=
  ∀ request ∈ party.typing, requestGossip peerId request = none

instance (peerId : UInt32) (party : Party) : Decidable (party.QuietTo peerId) :=
  inferInstanceAs (Decidable (∀ request ∈ party.typing, _))

def World.CountsOn (world : World) (fd giver : Fd) : Prop :=
  giver ∈ giversOf fd world.history ∧ JoinedBefore giver fd world.history

instance (world : World) (fd giver : Fd) : Decidable (world.CountsOn fd giver) :=
  inferInstanceAs (Decidable (_ ∧ _))

/--
Clients join with empty key stores, while ids are left, and find the room empty or a client that can
pass the room key on. Whoever leaves or is banned leaves nobody without a room key behind that has
no other giver. An offer that is made on command goes out on another thread than the room key, which
may overtake it: nobody offers its key on command to a client that counts on it.
-/
def RoomSupplied (cipher : Monocypher) (world : World) (event : Event) : Prop :=
  Allowed cipher world event ∧
    match event with
    | .join _ _ saved _ => saved.isNone ∧ Server.RoomLeft world.server ∧
        (world.connected = [] ∨ world.givers ≠ []) ∧
        ∀ client ∈ world.connected, client.2.QuietTo world.nextId
    | .leave fd => world.Supplied world.server.bannedIds (· ≠ fd)
    | .ban ids => world.Supplied (world.network.bannedAfter ids) fun _ => true
    | .command fd input => ∀ party ∈ world.party fd, ∀ client ∈ world.connected,
        world.CountsOn client.1 fd →
          ∀ request ∈ (party.agent.command input).2, requestGossip client.2.id request = none
    | _ => True

instance RoomSupplied.decidable (cipher : Monocypher) (world : World) :
    (event : Event) → Decidable (RoomSupplied cipher world event)
  | .join fd nickname saved random =>
      have : Decidable (world.connected = []) := decidable_of_iff _ List.isEmpty_iff
      inferInstanceAs (Decidable
        (Allowed cipher world (.join fd nickname saved random) ∧ saved.isNone ∧
          world.server.usedIds.card < 2 ^ 32 - 2 ∧ (world.connected = [] ∨ world.givers ≠ []) ∧
          ∀ client ∈ world.connected, client.2.QuietTo world.nextId))
  | .leave fd => inferInstanceAs (Decidable (True ∧ world.Supplied world.server.bannedIds (· ≠ fd)))
  | .ban ids => inferInstanceAs (Decidable
      (True ∧ world.Supplied (world.network.bannedAfter ids) fun _ => true))
  | .command fd input => inferInstanceAs (Decidable (Allowed cipher world (.command fd input) ∧
      ∀ party ∈ world.party fd, ∀ client ∈ world.connected, world.CountsOn client.1 fd →
        ∀ request ∈ (party.agent.command input).2, requestGossip client.2.id request = none))
  | .clientReceive fd =>
    inferInstanceAs (Decidable (Allowed cipher world (.clientReceive fd) ∧ True))
  | .serverReceive _ | .flush _ _ => .isTrue ⟨trivial, trivial⟩

/-- Every connected client that is not banned holds a room key. -/
def World.RoomKeysHeld (world : World) : Prop :=
  ∀ fd party, world.party fd = some party → party.id ∉ world.server.bannedIds →
    party.agent.keyStore.roomKey ≠ none

def noticeGossip (fromId : UInt32) : Notice → Option Gossip
  | .peerKey id publicKey => if id = fromId then some (.key publicKey) else none
  | .roomKey id sealed => if id = fromId then some (.room sealed) else none
  | _ => none

-- All that is on its way from one client to another, the first to arrive first.
def stream (giver taker : Party) : List Gossip :=
  taker.fromServer.filterMap (noticeGossip giver.id) ++
    (giver.toServer ++ giver.replying).filterMap (requestGossip taker.id)

section Stream

variable {giver taker : Party} {notices : List Notice}

theorem gossip_other {peerId : UInt32} {requests : List Request}
    (plain : ∀ request ∈ requests, request = .other) :
    requests.filterMap (requestGossip peerId) = [] := by
  refine List.filterMap_eq_nil_iff.mpr fun request member => ?_
  rw [plain request member]
  rfl

theorem stream_hear (silent : notices.filterMap (noticeGossip giver.id) = [])
    (heard : List Notice) :
    stream (giver.hear heard) (taker.hear notices) = stream giver taker := by
  simp only [stream, Party.hear, List.filterMap_append, silent, List.append_nil]

-- What the server reads off the giver's connection is what it writes to the taker's.
theorem relayed_gossip {banned : Finset UInt32} (free : taker.id ∉ banned) (sender : UInt32)
    (request : Request) :
    (relayed banned sender taker.id request).filterMap (noticeGossip giver.id) =
      if sender = giver.id then (requestGossip taker.id request).toList else [] := by
  cases request with
  | keyOffer peerId key =>
    by_cases addressed : taker.id = peerId
    · subst addressed
      by_cases same : sender = giver.id <;> simp [relayed, free, noticeGossip, requestGossip, same]
    · simp [relayed, addressed, Ne.symm addressed, requestGossip]
  | roomKeyOffer peerId sealed =>
    by_cases addressed : taker.id = peerId
    · subst addressed
      by_cases same : sender = giver.id <;> simp [relayed, free, noticeGossip, requestGossip, same]
    · simp [relayed, addressed, Ne.symm addressed, requestGossip]
  | misaddressed => simp [relayed, requestGossip]
  | other => simp [relayed, requestGossip]

theorem harmless_gossip {id : UInt32}
    (harmless : ∀ notice ∈ notices, notice = .other ∨ notice = .joined id) :
    notices.filterMap (noticeGossip giver.id) = [] := by
  refine List.filterMap_eq_nil_iff.mpr fun notice member => ?_
  rcases harmless notice member with rfl | rfl <;> rfl

end Stream

inductive StreamStep (cipher : Monocypher) (giver taker : Party) (giver' taker' : Party) : Prop
  | calm (same : stream giver' taker' = stream giver taker)
      (peers : taker'.agent.keyStore.peerPublic giver.id = taker.agent.keyStore.peerPublic giver.id)
      (secret : taker'.agent.keyStore.identitySecret = taker.agent.keyStore.identitySecret)
      (kept : ∀ fromId key, .peerKey fromId key ∈ giver.fromServer →
        .peerKey fromId key ∈ giver'.fromServer)
  | speaks {notice : Notice} {rest : List Notice} {nonce : Bytes} (running : giver.started = true)
      (queue : giver.fromServer = notice :: rest) (size : nonce.length = kNonceSize)
      (left : giver'.fromServer = rest)
      (answer : stream giver' taker' = stream giver taker ++
        (giver.agent.receive cipher nonce notice).2.filterMap (requestGossip taker.id))
      (same : taker' = taker)
  | listens {notice : Notice} {rest : List Notice} {nonce : Bytes} (running : taker.started = true)
      (queue : taker.fromServer = notice :: rest)
      (handled : taker'.agent = (taker.agent.receive cipher nonce notice).1)
      (read : stream giver taker = (noticeGossip giver.id notice).toList ++ stream giver' taker')
      (same : giver' = giver)

section StreamStep

variable {cipher : Monocypher} {network after : Network} {event : Event} {fd other : Fd}
  {giver taker giver' taker' : Party}

theorem StreamStep.refl : StreamStep cipher giver taker giver taker :=
  .calm rfl rfl rfl fun _ _ member => member

theorem StreamStep.hear {notices : List Notice}
    (silent : notices.filterMap (noticeGossip giver.id) = []) (heard : List Notice) :
    StreamStep cipher giver taker (giver.hear heard) (taker.hear notices) :=
  .calm (stream_hear silent heard) rfl rfl fun _ _ member => List.mem_append_left _ member

theorem StreamStep.flush_giver (quiet : giver.QuietTo taker.id) (thread : Thread) :
    StreamStep cipher giver taker (giver.flush thread) taker := by
  cases thread with
  | input =>
    have plain : (giver.typing.take 1).filterMap (requestGossip taker.id) = [] :=
      List.filterMap_eq_nil_iff.mpr fun request member =>
        quiet request (List.mem_of_mem_take member)
    refine .calm ?_ rfl rfl fun _ _ member => member
    simp only [stream, Party.flush, List.filterMap_append, plain, List.append_nil]
  | receiver =>
    refine .calm ?_ rfl rfl fun _ _ member => member
    have split : giver.replying.take 1 ++ giver.replying.tail = giver.replying := by
      cases giver.replying <;> simp
    simp only [stream, Party.flush, List.append_assoc, split]

theorem StreamStep.flush_taker (thread : Thread) :
    StreamStep cipher giver taker giver (taker.flush thread) := by
  cases thread <;> exact .calm rfl rfl rfl fun _ _ member => member

theorem StreamStep.passes {banned : Finset UInt32} (free : taker.id ∉ banned) {request : Request}
    {rest : List Request} (queue : giver.toServer = request :: rest) {noise : List Notice}
    (noisy : noise.filterMap (noticeGossip giver.id) = []) (heard : List Notice) :
    StreamStep cipher giver taker (Party.hear { giver with toServer := rest } heard)
      (taker.hear (relayed banned giver.id taker.id request ++ noise)) := by
  have passed := @relayed_gossip giver taker banned free giver.id request
  refine .calm ?_ rfl rfl fun _ _ member => List.mem_append_left _ member
  -- the message moves from the end of one queue to the end of the other
  simp only [stream, Party.hear, List.filterMap_append, passed, noisy, if_true, queue,
    List.cons_append, List.append_nil, List.append_assoc]
  cases gossip : requestGossip taker.id request <;> simp [gossip]

theorem Network.put_pair {acting : Fd} {actor actor' : Party}
    (connected : network.parties acting = some actor) (apart : fd ≠ other)
    (giverWas : network.parties fd = some giver) (takerWas : network.parties other = some taker)
    (giverNow : network.put acting actor' fd = some giver')
    (takerNow : network.put acting actor' other = some taker') :
    (actor = giver ∧ giver' = actor' ∧ taker' = taker) ∨
      (actor = taker ∧ giver' = giver ∧ taker' = actor') ∨ giver' = giver ∧ taker' = taker := by
  rcases Network.put_cases connected giverWas giverNow with ⟨rfl, acts, now⟩ | ⟨-, same⟩
  · have idle := (Network.put_cases connected takerWas takerNow).resolve_left (apart ·.1.symm)
    exact .inl ⟨acts, now, idle.2⟩
  · rcases Network.put_cases connected takerWas takerNow with ⟨-, acts, now⟩ | ⟨-, idle⟩
    · exact .inr (.inl ⟨acts, same, now⟩)
    · exact .inr (.inr ⟨same, idle⟩)

theorem Moves.streamStep (moves : Moves cipher network event after) (base : network.Base cipher)
    (apart : fd ≠ other)
    (ids : taker.id ≠ giver.id) (free : taker.id ∉ network.banned) (quiet : giver.QuietTo taker.id)
    (giverWas : network.parties fd = some giver) (takerWas : network.parties other = some taker)
    (giverNow : after.parties fd = some giver') (takerNow : after.parties other = some taker') :
    StreamStep cipher giver taker giver' taker' := by
  cases moves with
  | @join joined nickname saved random createRoom givers nextId vacant =>
    rcases Network.welcome_eq.mp giverNow with ⟨rfl, -⟩ | ⟨-, before, found, rfl⟩
    · simp [vacant] at giverWas
    · obtain rfl := Option.some.inj (found.symm.trans giverWas)
      rcases Network.welcome_eq.mp takerNow with ⟨rfl, -⟩ | ⟨-, before', found', rfl⟩
      · simp [vacant] at takerWas
      · obtain rfl := Option.some.inj (found'.symm.trans takerWas)
        exact .hear rfl _
  | leave connected =>
    obtain ⟨-, before, found, rfl⟩ := Network.dismiss_eq.mp giverNow
    obtain ⟨-, before', found', rfl⟩ := Network.dismiss_eq.mp takerNow
    obtain rfl := Option.some.inj (found.symm.trans giverWas)
    obtain rfl := Option.some.inj (found'.symm.trans takerWas)
    exact .hear rfl _
  | @ban ids newly heard nextId inserted told =>
    obtain ⟨before, found, rfl⟩ := Option.map_eq_some_iff.mp giverNow
    obtain ⟨before', found', rfl⟩ := Option.map_eq_some_iff.mp takerNow
    obtain rfl := Option.some.inj (found.symm.trans giverWas)
    obtain rfl := Option.some.inj (found'.symm.trans takerWas)
    refine .hear ?_ _
    split_ifs
    · rfl
    · rcases told with rfl | rfl <;> rfl
  | @serve sentBy sender request rest noise nextId connected _ queue harmless =>
    obtain ⟨before, giverPut, rfl⟩ := Option.map_eq_some_iff.mp giverNow
    obtain ⟨before', takerPut, rfl⟩ := Option.map_eq_some_iff.mp takerNow
    have noisy := @harmless_gossip giver _ _ (harmless other)
    rcases Network.put_eq.mp giverPut with ⟨rfl, rfl⟩ | ⟨elsewhere, found⟩
    · obtain rfl := Option.some.inj (connected.symm.trans giverWas)
      obtain ⟨-, found'⟩ := (Network.put_eq.mp takerPut).resolve_left (apart ·.1.symm)
      obtain rfl := Option.some.inj (found'.symm.trans takerWas)
      exact .passes free queue noisy _
    · obtain rfl := Option.some.inj (found.symm.trans giverWas)
      have sentOther : sender.id ≠ before.id := fun same =>
        elsewhere (base.distinct giverWas connected same.symm)
      have ids' : before'.id = taker.id := by
        rcases Network.put_eq.mp takerPut with ⟨rfl, rfl⟩ | ⟨-, found'⟩
        · rw [Option.some.inj (connected.symm.trans takerWas)]
        · rw [Option.some.inj (found'.symm.trans takerWas)]
      have passed := @relayed_gossip before taker network.banned free sender.id request
      rw [if_neg sentOther, ← ids'] at passed
      have silent : (relayed network.banned sender.id before'.id request ++ noise other).filterMap
          (noticeGossip before.id) = [] := by
        rw [List.filterMap_append, passed, noisy]
        rfl
      rcases Network.put_eq.mp takerPut with ⟨rfl, rfl⟩ | ⟨-, found'⟩
      · obtain rfl := Option.some.inj (connected.symm.trans takerWas)
        exact .calm (stream_hear silent _) rfl rfl fun _ _ member => List.mem_append_left _ member
      · obtain rfl := Option.some.inj (found'.symm.trans takerWas)
        exact .hear silent _
  | receive connected running idle queue size =>
    rcases Network.put_pair connected apart giverWas takerWas giverNow takerNow with
      ⟨rfl, rfl, rfl⟩ | ⟨rfl, rfl, rfl⟩ | ⟨rfl, rfl⟩
    · refine .speaks running queue size rfl ?_ rfl
      simp [stream, idle]
    · refine .listens running queue rfl ?_ rfl
      rename_i notice _ _
      cases told : noticeGossip giver'.id notice <;> simp [stream, queue, told]
    · exact .refl
  | start connected waiting queue size plain =>
    rcases Network.put_pair connected apart giverWas takerWas giverNow takerNow with
      ⟨rfl, rfl, rfl⟩ | ⟨rfl, rfl, rfl⟩ | ⟨rfl, rfl⟩
    · refine .calm ?_ rfl rfl fun fromId key member => ?_
      · simp [stream, gossip_other plain]
      · rw [queue] at member
        exact (List.mem_cons.mp member).resolve_left (by simp)
    · refine .calm ?_ rfl rfl fun _ _ member => member
      simp only [stream, queue]
      rfl
    · exact .refl
  | command connected running idle plain =>
    rcases Network.put_pair connected apart giverWas takerWas giverNow takerNow with
      ⟨rfl, rfl, rfl⟩ | ⟨rfl, rfl, rfl⟩ | ⟨rfl, rfl⟩
    · exact .calm rfl rfl rfl fun _ _ member => member
    · exact .calm rfl (by simp) (by simp) fun _ _ member => member
    · exact .refl
  | @flush wrote writer thread connected =>
    rcases Network.put_pair connected apart giverWas takerWas giverNow takerNow with
      ⟨rfl, rfl, rfl⟩ | ⟨rfl, rfl, rfl⟩ | ⟨rfl, rfl⟩
    · exact .flush_giver quiet thread
    · exact .flush_taker thread
    · exact .refl
  | idle =>
    obtain rfl := Option.some.inj (giverWas.symm.trans giverNow)
    obtain rfl := Option.some.inj (takerWas.symm.trans takerNow)
    exact .refl

end StreamStep

def Knows (taker giver : Party) : Prop :=
  taker.agent.keyStore.peerPublic giver.id = some giver.agent.keyStore.identityPublic

-- A room key that the taker will be able to open is on its way.
def RoomKeyComing (cipher : Monocypher) (giver taker : Party) : Prop :=
  ∃ before sealed rest roomKey, stream giver taker = before ++ .room sealed :: rest ∧
    (Knows taker giver ∨ .key giver.agent.keyStore.identityPublic ∈ before) ∧
    openRoomKey cipher taker.agent.keyStore.identitySecret
      giver.agent.keyStore.identityPublic sealed =
      .ok roomKey

structure Supplying (cipher : Monocypher) (giver taker : Party) : Prop where
  holds : giver.HasRoomKey
  quiet : giver.QuietTo taker.id
  toTaker : Knows taker giver ∨ .key giver.agent.keyStore.identityPublic ∈ stream giver taker ∨
    taker.id ∉ giver.agent.keyOfferedTo ∧ .joined taker.id ∈ giver.fromServer
  toGiver : giver.id ∉ taker.agent.keyOfferedTo ∨
    .keyOffer giver.id taker.agent.keyStore.identityPublic ∈ taker.out ∨
    .peerKey taker.id taker.agent.keyStore.identityPublic ∈ giver.fromServer ∨
    RoomKeyComing cipher giver taker ∨ taker.agent.keyStore.roomKey ≠ none
  answered : Knows taker giver → giver.id ∈ taker.agent.keyOfferedTo
  own : ∀ key, .key key ∈ stream giver taker → key = giver.agent.keyStore.identityPublic

section Supplying

variable {cipher : Monocypher} {giver taker giver' taker' : Party}

theorem requestGossip_key {peerId : UInt32} {request : Request} {key : Bytes} :
    requestGossip peerId request = some (.key key) ↔ request = .keyOffer peerId key := by
  cases request <;> simp [requestGossip]

theorem noticeGossip_key {fromId : UInt32} {notice : Notice} {key : Bytes} :
    noticeGossip fromId notice = some (.key key) ↔ notice = .peerKey fromId key := by
  cases notice <;> simp [noticeGossip]

theorem noticeGossip_room {fromId : UInt32} {notice : Notice} {sealed : Bytes} :
    noticeGossip fromId notice = some (.room sealed) ↔ notice = .roomKey fromId sealed := by
  cases notice <;> simp [noticeGossip]

theorem mem_stream_of_out (quiet : giver.QuietTo taker.id) {key : Bytes}
    (sent : .keyOffer taker.id key ∈ giver.out) : .key key ∈ stream giver taker := by
  have written : .keyOffer taker.id key ∈ giver.toServer ++ giver.replying := by
    simp only [Party.out, List.mem_append] at sent ⊢
    rcases sent with sent | sent | typed
    · exact .inl sent
    · exact .inr sent
    · simpa [requestGossip] using quiet _ typed
  refine List.mem_append_right _ (List.mem_filterMap.mpr ⟨_, written, ?_⟩)
  simp [requestGossip]

theorem out_of_mem_stream {key : Bytes} (member : .key key ∈ stream giver taker) :
    .peerKey giver.id key ∈ taker.fromServer ∨ .keyOffer taker.id key ∈ giver.out := by
  rcases List.mem_append.mp member with heard | sent
  · obtain ⟨notice, queued, told⟩ := List.mem_filterMap.mp heard
    obtain rfl := noticeGossip_key.mp told
    exact .inl queued
  · obtain ⟨request, written, told⟩ := List.mem_filterMap.mp sent
    obtain rfl := requestGossip_key.mp told
    refine .inr ?_
    simp only [Party.out, List.mem_append] at written ⊢
    tauto

theorem receive_answer (ideal : cipher.Ideal) {agent : KeyAgent} {id : UInt32}
    {nonce secret : Bytes}
    (wellFormed : agent.keyStore.WellFormed cipher) (holds : agent.keyStore.roomKey ≠ none)
    (nonceSize : nonce.length = kNonceSize) (secretSize : secret.length = kSecretKeySize) :
    ∃ sealed roomKey, openRoomKey cipher secret agent.keyStore.identityPublic sealed = .ok roomKey ∧
      (agent.receive cipher nonce (.peerKey id (cipher.x25519PublicKey secret))).2 =
        ((agent.learn id (cipher.x25519PublicKey secret)).offer id).2 ++ [.roomKeyOffer id
          sealed] := by
  obtain ⟨roomKey, held⟩ := Option.ne_none_iff_exists'.mp holds
  obtain ⟨sealed, done, opens⟩ := openRoomKey_sealRoomKey ideal nonceSize wellFormed.secretSize
    secretSize (wellFormed.roomSize roomKey held)
  rw [← wellFormed.pair] at opens
  refine ⟨sealed, roomKey, opens, ?_⟩
  have known : (agent.learn id (cipher.x25519PublicKey secret)).keyStore.peerPublic id =
      some (cipher.x25519PublicKey secret) := by
    rw [KeyAgent.learn, PeerKeyStore.peerPublic_insert, if_pos rfl]
  have room :
      (agent.learn id (cipher.x25519PublicKey secret)).keyStore.roomKey = some roomKey := held
  have sealing : sealRoomKey cipher nonce
      (agent.learn id (cipher.x25519PublicKey secret)).keyStore.identitySecret
      (cipher.x25519PublicKey secret) roomKey = .ok sealed := done
  simp only [KeyAgent.receive, cipher.public_size, if_true, KeyAgent.share, KeyAgent.offer_keyStore,
    known, room, sealing]

section Next

variable {network after : Network} {new : List Happening} {fd other : Fd}
  (supplying : Supplying cipher giver taker) (step : StreamStep cipher giver taker giver' taker')
  (giverNext : giver.Next network after new fd giver')
  (takerNext : taker.Next network after new other taker')

include supplying step giverNext in
theorem Supplying.own_next (base : giver'.Base cipher after.banned)
    (key : Bytes) (member : .key key ∈ stream giver' taker') :
    key = giver'.agent.keyStore.identityPublic := by
  have old (member : .key key ∈ stream giver taker) :
      key = giver'.agent.keyStore.identityPublic := by
    rw [giverNext.identity]
    exact supplying.own key member
  cases step with
  | calm same => exact old (same ▸ member)
  | speaks running queue size left answer same =>
    rcases out_of_mem_stream member with heard | sent
    · refine old (List.mem_append_left _ (List.mem_filterMap.mpr ⟨_, same ▸ heard, ?_⟩))
      simp [noticeGossip, giverNext.id]
    · exact base.offers _ key sent
  | listens running queue handled read same =>
    refine old ?_
    rw [read]
    exact List.mem_append_right _ member

include supplying step giverNext in
theorem Supplying.knows_next (base : taker.Base cipher network.banned)
    (free : giver.id ∉ network.banned) (knows : Knows taker giver) : Knows taker' giver' := by
  unfold Knows at knows ⊢
  rw [giverNext.id, giverNext.identity]
  cases step with
  | calm _ peers => rw [peers, knows]
  | speaks running queue size left answer same => rw [same, knows]
  | @listens notice rest nonce running queue handled read same =>
    rw [handled, KeyAgent.receive_peerPublic, knows]
    cases notice with
    | peerKey fromId key =>
      simp only [Notice.hold]
      split_ifs with learned
      · -- a key from the giver's id is the giver's
        refine congrArg some (supplying.own key (List.mem_append_left _ ?_))
        rw [queue]
        simp [noticeGossip, learned.1]
      · rfl
    | banned ids =>
      have kept : giver.id ∉ ids := fun member =>
        free (base.bans ids (queue ▸ List.mem_cons_self) _ member)
      simp [Notice.hold, kept]
    | _ => rfl

include supplying step giverNext takerNext in
theorem Supplying.answered_next (base : taker.Base cipher network.banned) (nonzero : giver.id ≠ 0)
    (ids : taker.id ≠ giver.id) (knows : Knows taker' giver') :
    giver'.id ∈ taker'.agent.keyOfferedTo := by
  unfold Knows at knows
  rw [giverNext.id, giverNext.identity] at knows
  rw [giverNext.id]
  have old (known : Knows taker giver) : giver.id ∈ taker'.agent.keyOfferedTo :=
    takerNext.offered (supplying.answered known)
  cases step with
  | calm _ peers => exact old (peers.symm.trans knows)
  | speaks running queue size left answer same => exact old (same ▸ knows)
  | @listens notice rest nonce running queue handled read same =>
    rw [handled, KeyAgent.receive_peerPublic] at knows
    rw [handled]
    have introduced (introduces : notice.Introduces giver.id) :
        giver.id ∈ (taker.agent.receive cipher nonce notice).1.keyOfferedTo :=
      (KeyAgent.mem_receive_keyOfferedTo cipher nonce taker.agent notice).mpr
        (.inr ⟨introduces, nonzero, (base.running running).symm ▸ ids.symm⟩)
    -- a key that is not forgotten was known before, or has just been read and answered
    have kept (known : Knows taker giver) :
        giver.id ∈ (taker.agent.receive cipher nonce notice).1.keyOfferedTo := handled ▸ old known
    cases notice with
    | peerKey fromId key =>
      simp only [Notice.hold] at knows
      split_ifs at knows with learned
      · exact introduced ⟨learned.1.symm, learned.2⟩
      · exact kept knows
    | banned ids =>
      simp only [Notice.hold] at knows
      split_ifs at knows
      exact kept knows
    | _ => exact kept knows

include giverNext in
theorem knows_read {notice : Notice} {nonce : Bytes}
    (handled : taker'.agent = (taker.agent.receive cipher nonce notice).1)
    (told : noticeGossip giver.id notice = some (.key giver.agent.keyStore.identityPublic))
    (size : giver.agent.keyStore.identityPublic.length = kPublicKeySize) : Knows taker' giver' := by
  obtain rfl := noticeGossip_key.mp told
  unfold Knows
  rw [handled, KeyAgent.receive_peerPublic, giverNext.id, giverNext.identity]
  simp [Notice.hold, size]

include supplying step giverNext takerNext in
theorem Supplying.toTaker_next (base : taker.Base cipher network.banned)
    (size : giver.agent.keyStore.identityPublic.length = kPublicKeySize)
    (free : giver.id ∉ network.banned) (nonzero : taker.id ≠ 0) (ids : taker.id ≠ giver.id)
    (quiet : giver'.QuietTo taker'.id) :
    Knows taker' giver' ∨ .key giver'.agent.keyStore.identityPublic ∈ stream giver' taker' ∨
      taker'.id ∉ giver'.agent.keyOfferedTo ∧ .joined taker'.id ∈ giver'.fromServer := by
  rcases supplying.toTaker with knows | coming | ⟨fresh, told⟩
  · exact .inl (supplying.knows_next step giverNext base free knows)
  · rw [giverNext.identity]
    cases step with
    | calm same => exact .inr (.inl (same ▸ coming))
    | speaks running queue _ left answer same =>
      rw [answer]
      exact .inr (.inl (List.mem_append_left _ coming))
    | @listens notice rest nonce running queue handled read same =>
      rw [read] at coming
      rcases List.mem_append.mp coming with first | later
      · exact .inl (knows_read giverNext handled (by simpa using first) size)
      · exact .inr (.inl later)
  · rw [takerNext.id]
    by_cases offered : taker.id ∈ giver'.agent.keyOfferedTo
    · have sent := (giverNext.offers _ offered).resolve_left fresh
      rw [← takerNext.id] at sent
      rw [giverNext.identity]
      exact .inr (.inl (mem_stream_of_out quiet sent))
    · rcases giverNext.heard _ told with still | ⟨-, introduced⟩
      · exact .inr (.inr ⟨offered, still⟩)
      · exact absurd (introduced _ rfl nonzero ids) offered

include supplying step giverNext in
theorem Supplying.coming_next (base : taker.Base cipher network.banned)
    (size : giver.agent.keyStore.identityPublic.length = kPublicKeySize)
    (free : giver.id ∉ network.banned) (coming : RoomKeyComing cipher giver taker) :
    RoomKeyComing cipher giver' taker' ∨ taker'.agent.keyStore.roomKey ≠ none := by
  obtain ⟨before, sealed, rest, roomKey, split, openable, opens⟩ := coming
  have knows := supplying.knows_next step giverNext base free
  unfold RoomKeyComing
  rw [giverNext.identity]
  cases step with
  | calm same _ secret =>
    rw [same, secret]
    exact .inl ⟨before, sealed, rest, roomKey, split, openable.imp_left knows, opens⟩
  | @speaks notice _ nonce running queue _ left answer same =>
    rw [answer, split, same]
    refine .inl ⟨before, sealed, rest ++ (giver.agent.receive cipher nonce notice).2.filterMap
      (requestGossip taker.id), roomKey, by simp, ?_, opens⟩
    exact openable.imp_left fun known => same ▸ knows known
  | @listens notice _ nonce running queue handled read same =>
    rw [handled, (KeyAgent.receive_identity cipher nonce taker.agent notice).2.1]
    rw [split] at read
    cases told : noticeGossip giver.id notice with
    | none =>
      simp only [told, Option.toList_none, List.nil_append] at read
      exact .inl ⟨before, sealed, rest, roomKey, read.symm, openable.imp_left knows, opens⟩
    | some gossip =>
      simp only [told, Option.toList_some, List.singleton_append] at read
      cases before with
      | nil =>
        -- the room key is what the taker reads, and it has the giver's key already
        obtain ⟨rfl, -⟩ := List.cons.inj read
        obtain rfl := noticeGossip_room.mp told
        have known : Knows taker giver := openable.resolve_right (by simp)
        have opened : taker.agent.openFrom cipher giver.id sealed = some roomKey :=
          (KeyAgent.openFrom_eq_some cipher taker.agent).mpr ⟨_, known, opens⟩
        right
        rw [KeyAgent.receive_roomKey]
        simp [opened]
      | cons first before =>
        -- something in front of the room key is read, perhaps the giver's key that opens it
        obtain ⟨rfl, later⟩ := List.cons.inj read
        refine .inl ⟨before, sealed, rest, roomKey, later.symm, ?_, opens⟩
        rcases openable with known | member
        · exact .inl (knows known)
        · rcases List.mem_cons.mp member with same | member
          · exact .inl (knows_read giverNext handled (same ▸ told) size)
          · exact .inr member

include supplying step giverNext takerNext in
theorem Supplying.toGiver_next (ideal : cipher.Ideal) (giverBase : giver.Base cipher network.banned)
    (takerBase : taker.Base cipher network.banned) (connected : after.parties fd = some giver')
    (free : giver.id ∉ network.banned) (ids : taker.id ≠ giver.id)
    (roomKept : taker.agent.keyStore.roomKey ≠ none → taker'.agent.keyStore.roomKey ≠ none) :
    giver'.id ∉ taker'.agent.keyOfferedTo ∨
      .keyOffer giver'.id taker'.agent.keyStore.identityPublic ∈ taker'.out ∨
      .peerKey taker'.id taker'.agent.keyStore.identityPublic ∈ giver'.fromServer ∨
      RoomKeyComing cipher giver' taker' ∨ taker'.agent.keyStore.roomKey ≠ none := by
  rw [giverNext.id, takerNext.id, takerNext.identity]
  rcases supplying.toGiver with fresh | sent | underway | coming | holds
  · by_cases offered : giver.id ∈ taker'.agent.keyOfferedTo
    · exact .inr (.inl ((takerNext.offers _ offered).resolve_left fresh))
    · exact .inl offered
  -- the taker's key is with the taker, then with the server, then with the giver
  · rcases takerNext.sent _ sent with still | passed
    · exact .inr (.inl still)
    · refine .inr (.inr (.inl (passed fd giver' connected _ (mem_relayed.mpr ?_))))
      rw [giverNext.id]
      exact ⟨free, .inl ⟨_, rfl, rfl⟩⟩
  · have size := giverBase.wellFormed.publicSize
    have knows := supplying.knows_next step giverNext takerBase free
    cases step with
    | calm _ _ _ kept => exact .inr (.inr (.inl (kept _ _ underway)))
    | listens running queue handled read same => exact .inr (.inr (.inl (same ▸ underway)))
    | @speaks notice rest nonce running queue nonceSize left answer same =>
      rw [queue] at underway
      rcases List.mem_cons.mp underway with rfl | later
      · -- the giver reads the taker's key and answers with the room key
        have holding : giver.agent.keyStore.roomKey ≠ none :=
          supplying.holds.resolve_right fun waiting => waiting.1 running
        obtain ⟨sealed, roomKey, opens, requests⟩ :=
          @receive_answer cipher ideal giver.agent taker.id
          nonce _ giverBase.wellFormed holding nonceSize takerBase.wellFormed.secretSize
        rw [← takerBase.wellFormed.pair] at requests
        have gossip : stream giver' taker' = (stream giver taker ++
            ((giver.agent.learn taker.id taker.agent.keyStore.identityPublic).offer
              taker.id).2.filterMap
              (requestGossip taker.id)) ++ .room sealed :: [] := by
          rw [answer, requests]
          simp [requestGossip]
        refine .inr (.inr (.inr (.inl ⟨_, sealed, [], roomKey, gossip, ?_, ?_⟩)))
        · rw [giverNext.identity]
          rcases supplying.toTaker with known | coming | ⟨fresh, -⟩
          · exact .inl (knows known)
          · exact .inr (List.mem_append_left _ coming)
          · refine .inr (List.mem_append_right _ (List.mem_filterMap.mpr
              ⟨.keyOffer taker.id giver.agent.keyStore.identityPublic,
                ?_, by simp [requestGossip]⟩))
            refine (KeyAgent.mem_offer_requests _ _).mpr ⟨rfl, takerBase.nonzero, ?_, fresh⟩
            exact (giverBase.running running).symm ▸ ids
        · rw [same, giverNext.identity]
          exact opens
      · exact .inr (.inr (.inl (left ▸ later)))
  · exact .inr (.inr (.inr (supplying.coming_next step giverNext takerBase
      giverBase.wellFormed.publicSize free coming)))
  · exact .inr (.inr (.inr (.inr (roomKept holds))))

include supplying step giverNext takerNext in
theorem Supplying.next (ideal : cipher.Ideal) (giverBase : giver.Base cipher network.banned)
    (takerBase : taker.Base cipher network.banned) (later : giver'.Base cipher after.banned)
    (connected : after.parties fd = some giver') (free : giver.id ∉ network.banned)
    (ids : taker.id ≠ giver.id) (quiet : giver'.QuietTo taker'.id) (holds : giver'.HasRoomKey)
    (roomKept : taker.agent.keyStore.roomKey ≠ none → taker'.agent.keyStore.roomKey ≠ none) :
    Supplying cipher giver' taker' where
  holds := holds
  quiet := quiet
  toTaker := supplying.toTaker_next step giverNext takerNext takerBase
    giverBase.wellFormed.publicSize free takerBase.nonzero ids quiet
  toGiver :=
    supplying.toGiver_next step giverNext takerNext ideal giverBase takerBase connected free
    ids roomKept
  answered := supplying.answered_next step giverNext takerNext takerBase giverBase.nonzero ids
  own := supplying.own_next step giverNext later

end Next

theorem Supplying.newcomer {banned : Finset UInt32} {id : UInt32} {agent : KeyAgent}
    {createRoom : Bool}
    (base : giver.Base cipher banned) (quiet : giver.QuietTo id)
    (holds : (giver.hear [.joined id]).HasRoomKey)
    (canOffer : giver.CanOffer id) (nothing : agent.keyOfferedTo = ∅)
    (nobody : agent.keyStore.peerPublic giver.id = none) :
    Supplying cipher (giver.hear [.joined id]) (.newcomer id agent createRoom) where
  holds := holds
  quiet := quiet
  toTaker := by
    by_cases offered : id ∈ giver.agent.keyOfferedTo
    · exact .inr (.inl (mem_stream_of_out quiet (canOffer offered)))
    · exact .inr (.inr ⟨offered, List.mem_append_right _ List.mem_cons_self⟩)
  toGiver := by simp [Party.newcomer, nothing]
  answered knows := by
    have known : agent.keyStore.peerPublic giver.id = some _ := knows
    simp [nobody] at known
  own key member := by
    rcases out_of_mem_stream member with heard | sent
    · simp [Party.newcomer] at heard
    · exact base.offers _ key sent

end Supplying

section PartyStep

variable {cipher : Monocypher} {network : Network} {event : Event} {fd : Fd} {party later : Party}
  (step : PartyStep cipher network event fd party later)

include step in
theorem PartyStep.roomKept (holds : party.agent.keyStore.roomKey ≠ none) :
    later.agent.keyStore.roomKey ≠ none := by
  cases step with
  | hears | served => exact holds
  | @receives notice rest nonce =>
    change (party.agent.receive cipher nonce notice).1.keyStore.roomKey ≠ none
    rw [KeyAgent.receive_roomKey]
    cases notice with
    | roomKey fromId sealed => simp [Option.or_eq_none_iff, holds]
    | _ => exact holds
  | @starts createRoom rest fresh =>
    change (party.agent.start party.id createRoom fresh).keyStore.roomKey ≠ none
    rw [KeyAgent.start_keeps _ fun creates => holds creates.2]
    exact holds
  | commands => simpa using holds
  | flushes thread => cases thread <;> exact holds

theorem Party.HasRoomKey.hear {banned : Finset UInt32} (base : party.Base cipher banned)
    (holds : party.HasRoomKey) (notices : List Notice) : (party.hear notices).HasRoomKey := by
  refine holds.imp_right fun ⟨waiting, first, head, assigned⟩ => ⟨waiting, first, ?_, assigned⟩
  obtain ⟨⟨createRoom, rest, queue⟩, -⟩ := base.waiting (by simpa using waiting)
  simpa [Party.hear, queue] using head

include step in
theorem PartyStep.hasRoomKey {banned : Finset UInt32} (base : party.Base cipher banned)
    (holds : party.HasRoomKey) : later.HasRoomKey := by
  by_cases held : party.agent.keyStore.roomKey = none
  · obtain ⟨waiting, first, head, rfl⟩ := holds.resolve_left (not_not_intro held)
    obtain ⟨-, silent, -⟩ := base.waiting (by simpa using waiting)
    cases step with
    | hears => exact holds.hear base _
    | served queue => simp [Party.out, queue] at silent
    | receives _ running => exact absurd running waiting
    | @starts createRoom rest fresh _ _ _ queue =>
      obtain rfl : createRoom = true := by simpa [queue] using head
      refine .inl ?_
      change (party.agent.start party.id true fresh).keyStore.roomKey ≠ none
      rw [KeyAgent.start_creates _ ⟨rfl, held⟩]
      simp
    | commands _ running => exact absurd running waiting
    | flushes thread => cases thread <;> exact holds
  · exact .inl (step.roomKept held)

include step in
theorem PartyStep.quiet {peerId : UInt32} (quiet : party.QuietTo peerId)
    (silent : ∀ input, event = .command fd input →
      ∀ request ∈ (party.agent.command input).2, requestGossip peerId request = none) :
    later.QuietTo peerId := by
  cases step with
  | commands now _ _ plain =>
    intro request typed
    rcases List.mem_append.mp typed with offer | chatter
    · exact silent _ now request offer
    · rw [plain request chatter]
      rfl
  | flushes thread =>
    cases thread with
    | input => exact fun request typed => quiet request (List.mem_of_mem_tail typed)
    | receiver => exact quiet
  | _ => exact quiet

end PartyStep

def Network.Counts (network : Network) (fd giverFd : Fd) (giver : Party) : Prop :=
  giverFd ∈ giversOf fd network.history ∧ JoinedBefore giverFd fd network.history ∧
    network.parties giverFd = some giver

def Network.Lasting (network after : Network) : Prop :=
  ∀ fd party, network.parties fd = some party → (after.parties fd).isSome →
    party.id ∉ after.banned →
    party.HasRoomKey ∨ ∃ giverFd giver, network.Counts fd giverFd giver ∧
      (after.parties giverFd).isSome ∧ giver.id ∉ after.banned

structure Network.Supply (cipher : Monocypher) (network : Network) : Prop where
  others : ∀ {fd : Fd} {party : Party}, network.parties fd = some party →
    fd ∉ giversOf fd network.history
  supplying : ∀ {fd newFd : Fd} {giver taker : Party}, network.Counts newFd fd giver →
    network.parties newFd = some taker → giver.id ∉ network.banned → taker.id ∉ network.banned →
      Supplying cipher giver taker
  supplied : network.Lasting network

-- Nothing that a giver is made to send on command can be overtaken by the room key.
structure Network.InOrder (network : Network) (event : Event) : Prop where
  command : ∀ {fd newFd : Fd} {giver taker : Party} {input : InputCommand},
    event = .command fd input → network.Counts newFd fd giver →
    network.parties newFd = some taker →
      ∀ request ∈ (giver.agent.command input).2, requestGossip taker.id request = none
  empty : ∀ {fd : Fd} {nickname : Bytes} {saved : Option PeerKeyStore} {random : Nat → UInt8},
    event = .join fd nickname saved random → saved = none
  quiet : ∀ {fd : Fd} {nickname : Bytes} {saved : Option PeerKeyStore} {random : Nat → UInt8},
    event = .join fd nickname saved random →
      ∀ {other : Fd} {party : Party}, network.parties other = some party →
        party.QuietTo network.nextId

section Supply

variable {cipher : Monocypher} {network after : Network} {event : Event}

theorem giversOf_append {fd : Fd} {new : List Happening}
    (others : ∀ happening ∈ new, happening.joins fd = false) (history : List Happening) :
    giversOf fd (new ++ history) = giversOf fd history := by
  have nobody : new.find? (·.joins fd) = none := by simpa using others
  simp [giversOf, List.find?_append, nobody]

theorem giversOf_joined (fd : Fd) (givers : List Fd) (history : List Happening) :
    giversOf fd (.joined fd givers :: history) = givers := by
  simp [giversOf, Happening.joins]

theorem Network.Supply.lasting (supply : network.Supply cipher)
    (moves : Moves cipher network event after)
    (leaves : ∀ fd, event = .leave fd → after.parties fd = none → network.Lasting after)
    (bans : ∀ ids, event = .ban ids → after.banned = network.bannedAfter ids →
      network.Lasting after) :
    network.Lasting after := by
  -- unless somebody leaves or is banned, the givers of before are all still there
  have unchanged (stay : ∀ fd, event ≠ .leave fd) (same : after.banned = network.banned) :
      network.Lasting after := by
    intro fd party was _ free
    rw [same] at free ⊢
    refine (supply.supplied fd party was (by simp [was]) free).imp_right ?_
    rintro ⟨giverFd, giver, counts, -, giverFree⟩
    obtain ⟨later, now⟩ := moves.stays counts.2.2 giverFree (stay giverFd)
    exact ⟨giverFd, giver, counts, by simp [now], giverFree⟩
  cases moves with
  | @leave _ fd party _ connected cause =>
    rcases cause with rfl | ⟨rfl, -⟩
    · exact leaves fd rfl (by simp [Network.dismiss])
    · exact unchanged (by simp) rfl
  | ban => exact bans _ rfl rfl
  | idle => exact supply.supplied
  | _ => exact unchanged (by simp) rfl

theorem Moves.newcomer_supplied (moves : Moves cipher network event after) {fd : Fd} {later : Party}
    (vacant : network.parties fd = none) (now : after.parties fd = some later)
    (found : (∀ other, network.parties other = none) ∨ ∃ giver, network.Gives giver) :
    later.HasRoomKey ∨ ∃ giverFd giver, after.Counts fd giverFd giver ∧
      (after.parties giverFd).isSome ∧ giver.id ∉ after.banned := by
  obtain ⟨nickname, saved, random, createRoom, givers, rfl, rfl, parties, history,
    first, counted⟩ :=
    moves.newcomer vacant now
  have banned := moves.banned_eq (by simp)
  rcases found with nobody | ⟨giverFd, gives⟩
  · obtain rfl := first.mpr nobody
    exact .inl (.inr ⟨by simp [Party.newcomer], _, rfl, rfl⟩)
  · obtain ⟨giver, was, free, -⟩ := id gives
    have apart : giverFd ≠ fd := by
      rintro rfl
      simp [vacant] at was
    have still : after.parties giverFd = some (giver.hear [.joined network.nextId]) := by
      rw [parties]
      exact Network.welcome_eq.mpr (.inr ⟨apart, giver, was, rfl⟩)
    refine .inr ⟨giverFd, _, ⟨?_, ?_, still⟩, by simp [still], banned ▸ free⟩
    · rw [history, giversOf_joined]
      exact (counted giverFd).mpr gives
    · simp [history, JoinedBefore, sinceJoined, Happening.joins]

theorem Network.Counts.next {new : List Happening} {fd newFd : Fd} {giver giver' taker : Party}
    (history : after.history = new ++ network.history)
    (others : ∀ fd party, network.parties fd = some party →
      ∀ happening ∈ new, happening.joins fd = false)
    (there : network.parties newFd = some taker) (here : network.parties fd = some giver)
    (still : after.parties fd = some giver') :
    after.Counts newFd fd giver' ↔ network.Counts newFd fd giver := by
  have later := others newFd taker there
  unfold Network.Counts JoinedBefore
  rw [history, giversOf_append later, sinceJoined_append later]
  constructor
  · rintro ⟨counted, before, -⟩
    exact ⟨counted, fun happening member => before happening (List.mem_append_right _ member), here⟩
  · rintro ⟨counted, before, -⟩
    refine ⟨counted, fun happening member => ?_, still⟩
    rcases List.mem_append.mp member with new | old
    · exact others fd giver here happening new
    · exact before happening old

theorem Moves.supplied (moves : Moves cipher network event after) (base : network.Base cipher)
    (lasting : network.Lasting after)
    (joins : ∀ fd nickname saved random, event = .join fd nickname saved random →
      (∀ other, network.parties other = none) ∨ ∃ giver, network.Gives giver) :
    after.Lasting after := by
  obtain ⟨new, history, others, next⟩ := moves.next base
  intro fd later now _ laterFree
  cases was : network.parties fd with
  | none =>
    obtain ⟨nickname, saved, random, _, _, joined, -⟩ := moves.newcomer was now
    exact moves.newcomer_supplied was now (joins _ _ _ _ joined)
  | some party =>
    have id := (next fd party later was now).id
    rcases lasting fd party was (by simp [now]) (id ▸ laterFree) with
      holds | ⟨giverFd, giver, counts, still, giverFree⟩
    · exact .inl ((moves.partyStep was now).hasRoomKey (base.each was) holds)
    · obtain ⟨giver', here⟩ := Option.isSome_iff_exists.mp still
      refine .inr ⟨giverFd, giver', ?_, still, ?_⟩
      · exact (Network.Counts.next history others was counts.2.2 here).mpr counts
      · rw [(next giverFd giver giver' counts.2.2 here).id]
        exact giverFree

theorem Moves.supplying (moves : Moves cipher network event after) (ideal : cipher.Ideal)
    (base : network.Base cipher) (supply : network.Supply cipher)
    (order : network.InOrder event)
    {fd newFd : Fd} {giver taker : Party} (counts : after.Counts newFd fd giver)
    (there : after.parties newFd = some taker) (giverFree : giver.id ∉ after.banned)
    (takerFree : taker.id ∉ after.banned) : Supplying cipher giver taker := by
  have free {id : UInt32} (notBanned : id ∉ after.banned) : id ∉ network.banned :=
    fun banned => notBanned (moves.banned_subset banned)
  have here := counts.2.2
  cases thereBefore : network.parties newFd with
  | none =>
    -- the taker is the one that joins
    obtain ⟨nickname, _, random, createRoom, givers, joins, rfl, parties, history, -, counted⟩ :=
      moves.newcomer thereBefore there
    obtain rfl := order.empty joins
    have member := counts.1
    rw [history, giversOf_joined, counted] at member
    obtain ⟨party, was, -, holds, canOffer⟩ := member
    rw [parties] at here
    have apart : fd ≠ newFd := by
      rintro rfl
      simp [thereBefore] at was
    obtain ⟨before, found, rfl⟩ := ((Network.welcome_eq.mp here).resolve_left (apart ·.1)).2
    obtain rfl := Option.some.inj (found.symm.trans was)
    have launched := (launch_eq cipher nickname none random).1
    refine .newcomer (base.each was) (order.quiet joins was) (holds.hear (base.each was) _) canOffer
      ?_ ?_
    · rw [launched]
    · rw [launched]
      rfl
  | some takerBefore =>
    obtain ⟨new, history, others, next⟩ := moves.next base
    cases hereBefore : network.parties fd with
    | none =>
      obtain ⟨_, _, _, _, givers, -, -, -, joined, -⟩ := moves.newcomer hereBefore here
      have apart : newFd ≠ fd := by
        rintro rfl
        simp [hereBefore] at thereBefore
      -- the giver cannot be the one that joins
      have latest : .joined fd givers ∈ sinceJoined newFd after.history := by
        simp [joined, sinceJoined, Happening.joins, apart.symm]
      simpa [Happening.joins] using counts.2.1 _ latest
    | some giverBefore =>
      have before := (Network.Counts.next history others thereBefore hereBefore here).mp counts
      have apart : fd ≠ newFd := by
        rintro rfl
        exact supply.others hereBefore before.1
      have giverNext := next fd giverBefore giver hereBefore here
      have takerNext := next newFd takerBefore taker thereBefore there
      rw [giverNext.id] at giverFree
      rw [takerNext.id] at takerFree
      have ids : takerBefore.id ≠ giverBefore.id := fun same =>
        apart (base.distinct hereBefore thereBefore same.symm)
      have still := supply.supplying before thereBefore (free giverFree) (free takerFree)
      have gossip := moves.streamStep base apart ids (free takerFree) still.quiet hereBefore
        thereBefore here there
      have quiet := (moves.partyStep hereBefore here).quiet still.quiet fun input commanded =>
        order.command commanded before thereBefore
      rw [← takerNext.id] at quiet
      exact still.next gossip giverNext takerNext ideal (base.each hereBefore)
        (base.each thereBefore) ((moves.base base).each here) here (free giverFree) ids quiet
        ((moves.partyStep hereBefore here).hasRoomKey (base.each hereBefore) still.holds)
        (moves.partyStep thereBefore there).roomKept

theorem Moves.supply (moves : Moves cipher network event after) (ideal : cipher.Ideal)
    (base : network.Base cipher) (supply : network.Supply cipher) (lasting : network.Lasting after)
    (order : network.InOrder event)
    (found : ∀ fd nickname saved random, event = .join fd nickname saved random →
      (∀ other, network.parties other = none) ∨ ∃ giver, network.Gives giver) :
    after.Supply cipher := by
  refine ⟨fun {fd later} now => ?_, moves.supplying ideal base supply order,
    moves.supplied base lasting found⟩
  cases was : network.parties fd with
  | none =>
    obtain ⟨_, _, _, _, givers, -, -, -, joined, -, counted⟩ := moves.newcomer was now
    rw [joined, giversOf_joined, counted]
    rintro ⟨party, connected, -⟩
    simp [was] at connected
  | some party =>
    obtain ⟨new, history, others, -⟩ := moves.next base
    rw [history, giversOf_append (others fd party was)]
    exact supply.others was

end Supply

section Held

variable {cipher : Monocypher} {world : World}

theorem World.Supplied.lasting {after : Network} {event : Event} {stays : Fd → Bool}
    (supplied : world.Supplied after.banned stays) (moves : Moves cipher world.network event after)
    (there : ∀ fd, (after.parties fd).isSome → stays fd)
    (leaves : ∀ fd, stays fd → event ≠ .leave fd) : world.network.Lasting after := by
  intro fd party was now free
  refine (supplied (fd, party) (World.mem_connected.mpr was) (there fd now) free).imp_right ?_
  intro some
  obtain ⟨giverFd, member⟩ := List.exists_mem_of_ne_nil _ some
  obtain ⟨counted, meets⟩ := List.mem_filter.mp member
  obtain ⟨stay, before, giver, found, giverFree⟩ := of_decide_eq_true meets
  obtain ⟨later, still⟩ := moves.stays found (fun banned => giverFree (moves.banned_subset banned))
    (leaves giverFd stay)
  exact ⟨giverFd, giver, ⟨counted, before, found⟩, by simp [still], giverFree⟩

theorem RoomSupplied.lasting {event : Event} {after : Network}
    (guard : RoomSupplied cipher world event) (supply : world.network.Supply cipher)
    (moves : Moves cipher world.network event after) : world.network.Lasting after := by
  refine supply.lasting moves ?_ ?_
  · rintro fd rfl gone
    have supplied : world.Supplied world.network.banned (· ≠ fd) := guard.2
    rw [← moves.banned_eq (by simp)] at supplied
    refine supplied.lasting moves (fun other now => decide_eq_true ?_) fun other stay same => ?_
    · rintro rfl
      simp [gone] at now
    · exact of_decide_eq_true stay (Event.leave.inj same).symm
  · rintro ids rfl banned
    have supplied : world.Supplied (world.network.bannedAfter ids) fun _ => true := guard.2
    rw [← banned] at supplied
    exact supplied.lasting moves (fun _ _ => rfl) (by simp)

theorem RoomSupplied.inOrder {event : Event} (guard : RoomSupplied cipher world event) :
    world.network.InOrder event where
  command := by
    rintro fd newFd giver taker input rfl counts there
    exact guard.2 giver counts.2.2 (newFd, taker) (World.mem_connected.mpr there)
      ⟨counts.1, counts.2.1⟩
  empty := by
    rintro fd nickname saved random rfl
    simpa using guard.2.1
  quiet := by
    rintro fd nickname saved random rfl other party was
    exact guard.2.2.2.2 (other, party) (World.mem_connected.mpr was)

theorem RoomSupplied.found {fd : Fd} {nickname : Bytes} {saved : Option PeerKeyStore}
    {random : Nat → UInt8} (guard : RoomSupplied cipher world (.join fd nickname saved random)) :
    (∀ other, world.network.parties other = none) ∨ ∃ giver, world.network.Gives giver := by
  refine guard.2.2.2.1.imp (fun nobody other => ?_) fun some => ?_
  · refine Option.eq_none_iff_forall_ne_some.mpr fun party connected => ?_
    have member := World.mem_connected.mpr connected
    simp [nobody] at member
  · obtain ⟨giver, member⟩ := List.exists_mem_of_ne_nil _ some
    exact ⟨giver, mem_givers.mp member⟩

theorem RoomSupplied.supply {event : Event} {after : Network}
    (guard : RoomSupplied cipher world event) (ideal : cipher.Ideal)
    (base : world.network.Base cipher) (supply : world.network.Supply cipher)
    (moves : Moves cipher world.network event after) : after.Supply cipher := by
  refine moves.supply ideal base supply (guard.lasting supply moves) guard.inOrder ?_
  rintro fd nickname saved random rfl
  exact guard.found

theorem Supplying.done {giver taker : Party} (supplying : Supplying cipher giver taker)
    (giverOut : giver.out = []) (giverHeard : giver.fromServer = []) (takerOut : taker.out = [])
    (takerHeard : taker.fromServer = []) : taker.agent.keyStore.roomKey ≠ none := by
  have silent : stream giver taker = [] := by
    simp only [Party.out, List.append_eq_nil_iff] at giverOut
    simp [stream, takerHeard, giverOut.1, giverOut.2.1]
  have knows : Knows taker giver := by
    rcases supplying.toTaker with knows | coming | ⟨-, told⟩
    · exact knows
    · simp [silent] at coming
    · simp [giverHeard] at told
  rcases supplying.toGiver with fresh | sent | underway | coming | holds
  · exact absurd (supplying.answered knows) fresh
  · simp [takerOut] at sent
  · simp [giverHeard] at underway
  · obtain ⟨_, _, _, _, split, -⟩ := coming
    simp [silent] at split
  · exact holds

end Held

theorem room_keys_held {cipher : Monocypher} (ideal : cipher.Ideal) {world : World}
    (reachable : Runs.Reachable Initial (RoomSupplied cipher) (step cipher) world)
    (quiescent : world.Quiescent) : world.RoomKeysHeld := by
  have holds : world.network.Supply cipher := by
    refine (reachable_invariant ?_ (Network.Supply cipher) ?_ ?_ reachable).2
    · rintro world event ⟨allowed, ready⟩
      refine ⟨allowed, ?_⟩
      cases event with
      | join fd nickname saved random => exact ready.2.1
      | _ => trivial
    · have nobody {fd : Fd} {party : Party} : (World.network {}).parties fd ≠ some party := by
        intro found
        cases found
      exact ⟨fun found => (nobody found).elim, fun counts => (nobody counts.2.2).elim,
        fun _ _ found => (nobody found).elim⟩
    · exact fun world event after base supply guard moves => guard.supply ideal base supply moves
  intro fd party connected free
  obtain ⟨out, heard⟩ := quiescent.queues connected
  have connectedNow : (world.network.parties fd).isSome :=
    Option.isSome_iff_exists.mpr ⟨party, connected⟩
  rcases holds.supplied fd party connected connectedNow free with
    (held | ⟨-, first, head, -⟩) | ⟨giverFd, giver, counts, -, giverFree⟩
  · exact held
  · simp [heard] at head
  · obtain ⟨giverOut, giverHeard⟩ := quiescent.queues counts.2.2
    exact (holds.supplying counts connected giverFree free).done giverOut giverHeard out heard

-- The newcomer asks with /key for the room key, and who created it leaves when it has passed it on.
def handedOver : World :=
  [Event.join 3 [] none (keysFrom 10), .clientReceive 3, .join 4 [] none (keysFrom 20),
    .clientReceive 4, .command 4 (.keyOffer 1), .clientReceive 3, .flush 3 .receiver,
    .serverReceive 3,
    .clientReceive 4, .flush 4 .input, .serverReceive 4, .clientReceive 3, .flush 3 .receiver,
    .serverReceive 3, .clientReceive 4, .leave 3, .clientReceive 4].foldl (step transparent) {}

theorem room_keys_held_handedOver :
    handedOver.connected.map Prod.fst = [4] ∧ handedOver.Quiescent ∧ handedOver.RoomKeysHeld := by
  have reachable :
      Runs.Reachable Initial (RoomSupplied transparent) (step transparent) handedOver :=
    Runs.Reachable.foldl (.start rfl) (by decide +kernel)
  have quiescent : handedOver.Quiescent := by decide +kernel
  exact ⟨by decide +kernel, quiescent, room_keys_held transparent_ideal reachable quiescent⟩

-- The newcomer that got a spent id has no room key, and nobody will send it one.
theorem reusedSpent_keyless :
    transparent.Ideal ∧ Reachable transparent reusedSpent ∧ reusedSpent.Quiescent ∧
      ¬ reusedSpent.RoomKeysHeld := by
  refine ⟨transparent_ideal, reusedSpent_reachable, by decide +kernel, fun held => ?_⟩
  have present : (reusedSpent.party 5).isSome := by decide +kernel
  obtain ⟨newer, there⟩ := Option.isSome_iff_exists.mp present
  have keyless : ∀ newer ∈ reusedSpent.party 5,
      newer.id ∉ reusedSpent.server.bannedIds ∧ newer.agent.keyStore.roomKey = none := by
    decide +kernel
  obtain ⟨free, none⟩ := keyless newer there
  exact held 5 newer there free none

end ModbusChat.System
