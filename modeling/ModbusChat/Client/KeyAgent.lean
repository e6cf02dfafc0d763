import ModbusChat.Client.ClientViewModel
import ModbusChat.Wire.Accepted
import ModbusChat.Wire.RoundTrip

set_option autoImplicit false

namespace ModbusChat.Client

open BigEndian Effects Wire

-- Of all that a client stores and prints, only its id, its key store and the set of peers it has
-- offered its key to decide about the exchange of keys. `KeyAgent` is this part on its own, driven
-- by the few messages that matter to it; the handlers of the client follow it step by step.

structure Packet where
  type : MsgType
  payload : Bytes
  deriving DecidableEq, Repr

def Packet.frame (packet : Packet) : Frame := makeFrame packet.type packet.payload

def ClientEffect.packet? : ClientEffect → Option Packet
  | .send type payload => some { type, payload }
  | _ => none

def packets (output : List ClientEffect) : List Packet := output.filterMap ClientEffect.packet?

/-- What a message of the server tells a holder of keys. -/
inductive Notice where
  | assigned (id : UInt32) (createRoom : Bool)
  | joined (id : UInt32)
  | banned (ids : List UInt32)
  | peerKey (fromId : UInt32) (key : Bytes)
  | roomKey (fromId : UInt32) (sealed : Bytes)
  | other
  deriving DecidableEq, Repr

/-- What a message of a client asks the server to pass on. -/
inductive Request where
  | keyOffer (peerId : UInt32) (key : Bytes)
  | roomKeyOffer (peerId : UInt32) (sealed : Bytes)
  | misaddressed
  | other
  deriving DecidableEq, Repr

def Packet.notice (packet : Packet) : Notice :=
  match packet.type with
  | .assignId =>
      match decodePayload packet.payload .assignId with
      | .ok (.assignId id createRoom) => .assigned id createRoom
      | _ => .other
  | .userJoined =>
      match decodePayload packet.payload .userJoined with
      | .ok (.userJoined id _) => .joined id
      | _ => .other
  | .bannedIds =>
      match decodePayload packet.payload .bannedIds with
      | .ok (.bannedIds ids) => .banned ids
      | _ => .other
  | .peerKey =>
      match decodePayload packet.payload .peerKey with
      | .ok (.deliver fromId text) => .peerKey fromId text
      | _ => .other
  | .roomKey =>
      match decodePayload packet.payload .roomKey with
      | .ok (.deliver fromId text) => .roomKey fromId text
      | _ => .other
  | _ => .other

def Notice.Introduces (peerId : UInt32) : Notice → Prop
  | .joined id => id = peerId
  | .peerKey fromId key => fromId = peerId ∧ key.length = kPublicKeySize
  | _ => False

def Notice.hold (id : UInt32) (held : Option Bytes) : Notice → Option Bytes
  | .peerKey fromId key => if id = fromId ∧ key.length = kPublicKeySize then some key else held
  | .banned ids => if id ∈ ids then none else held
  | _ => held

-- A relayed message to one id; no client sends its keys to a nickname or to everyone.
def addressed (make : UInt32 → Bytes → Request) (chat : ChatPayload) : Request :=
  if chat.recipientTag = kRecipientById then
    match readU32Be chat.recipientData with
    | some id => make id chat.text
    | none => .misaddressed
  else .misaddressed

def Packet.request (packet : Packet) : Request :=
  match packet.type with
  | .keyOffer =>
      match decodePayload packet.payload .keyOffer with
      | .ok (.chat chat) => addressed .keyOffer chat
      | _ => .other
  | .roomKeyOffer =>
      match decodePayload packet.payload .roomKeyOffer with
      | .ok (.chat chat) => addressed .roomKeyOffer chat
      | _ => .other
  | _ => .other

structure KeyAgent where
  myId : UInt32
  keyStore : PeerKeyStore
  keyOfferedTo : Finset UInt32

def ClientViewModel.agent (client : ClientViewModel) : KeyAgent :=
  { myId := client.myId, keyStore := client.keyStore, keyOfferedTo := client.keyOfferedTo }

namespace KeyAgent

def offer (agent : KeyAgent) (peerId : UInt32) : KeyAgent × List Request :=
  if peerId = 0 ∨ peerId = agent.myId ∨ peerId ∈ agent.keyOfferedTo then (agent, [])
  else
    ({ agent with keyOfferedTo := insert peerId agent.keyOfferedTo },
      [.keyOffer peerId agent.keyStore.identityPublic])

def learn (agent : KeyAgent) (peerId : UInt32) (key : Bytes) : KeyAgent :=
  { agent with keyStore := { agent.keyStore with peers := agent.keyStore.peers.insert peerId key } }

section Cipher

variable (cipher : Monocypher) (nonce : Bytes)

def share (agent : KeyAgent) (peerId : UInt32) : List Request :=
  match agent.keyStore.roomKey, agent.keyStore.peerPublic peerId with
  | some roomKey, some peerPk =>
      match sealRoomKey cipher nonce agent.keyStore.identitySecret peerPk roomKey with
      | .ok sealed => [.roomKeyOffer peerId sealed]
      | .error _ => []
  | _, _ => []

def openFrom (agent : KeyAgent) (fromId : UInt32) (sealed : Bytes) : Option Bytes :=
  match agent.keyStore.peerPublic fromId with
  | none => none
  | some peerPk => (openRoomKey cipher agent.keyStore.identitySecret peerPk sealed).toOption

def receive (agent : KeyAgent) : Notice → KeyAgent × List Request
  | .peerKey fromId key =>
      if key.length = kPublicKeySize then
        let (next, requests) := (agent.learn fromId key).offer fromId
        (next, requests ++ next.share cipher nonce fromId)
      else (agent, [])
  | .roomKey fromId sealed =>
      match agent.openFrom cipher fromId sealed with
      | some roomKey =>
        ({ agent with keyStore := { agent.keyStore with roomKey := some roomKey } }, [])
      | none => (agent, [])
  | .banned ids => ({ agent with keyStore := agent.keyStore.erasePeers ids }, [])
  | .joined id => agent.offer id
  | .assigned _ _ | .other => (agent, [])

end Cipher

def command (agent : KeyAgent) : InputCommand → KeyAgent × List Request
  | .keyOffer recipientId => agent.offer recipientId
  | _ => (agent, [])

def start (agent : KeyAgent) (id : UInt32) (createRoom : Bool) (fresh : Bytes) : KeyAgent :=
  { agent with
    myId := id
    keyStore :=
      { agent.keyStore with
        roomKey := if createRoom ∧ agent.keyStore.roomKey = none then some fresh
          else agent.keyStore.roomKey } }

section Offer

variable (agent : KeyAgent) (peerId : UInt32)

@[simp] theorem offer_keyStore : (agent.offer peerId).1.keyStore = agent.keyStore := by
  unfold offer
  split_ifs <;> rfl

@[simp] theorem offer_myId : (agent.offer peerId).1.myId = agent.myId := by
  unfold offer
  split_ifs <;> rfl

theorem mem_offer_keyOfferedTo {other : UInt32} :
    other ∈ (agent.offer peerId).1.keyOfferedTo ↔
      other ∈ agent.keyOfferedTo ∨ other = peerId ∧ peerId ≠ 0 ∧ peerId ≠ agent.myId := by
  unfold offer
  split_ifs with kept
  · constructor
    · exact .inl
    · rintro (offered | ⟨rfl, nonzero, apart⟩)
      · exact offered
      · exact (kept.resolve_left nonzero).resolve_left apart
  · simp only [Finset.mem_insert, not_or] at kept ⊢
    constructor
    · rintro (rfl | offered)
      · exact .inr ⟨rfl, kept.1, kept.2.1⟩
      · exact .inl offered
    · rintro (offered | ⟨rfl, -⟩)
      · exact .inr offered
      · exact .inl rfl

theorem mem_offer_requests {request : Request} :
    request ∈ (agent.offer peerId).2 ↔
      request = .keyOffer peerId agent.keyStore.identityPublic ∧
        peerId ≠ 0 ∧ peerId ≠ agent.myId ∧ peerId ∉ agent.keyOfferedTo := by
  unfold offer
  split_ifs with kept
  · constructor
    · simp
    · rintro ⟨-, nonzero, apart, fresh⟩
      exact absurd ((kept.resolve_left nonzero).resolve_left apart) fresh
  · simp only [not_or] at kept
    simp [kept]

end Offer

section Receive

variable (cipher : Monocypher) (nonce : Bytes) (agent : KeyAgent) (notice : Notice)

theorem receive_identity :
    (agent.receive cipher nonce notice).1.myId = agent.myId ∧
      (agent.receive cipher nonce notice).1.keyStore.identitySecret =
        agent.keyStore.identitySecret ∧
      (agent.receive cipher nonce notice).1.keyStore.identityPublic =
        agent.keyStore.identityPublic := by
  cases notice with
  | peerKey fromId key =>
    simp only [receive]
    split_ifs <;> simp [learn]
  | roomKey fromId sealed =>
    simp only [receive]
    split <;> exact ⟨rfl, rfl, rfl⟩
  | banned ids =>
    obtain ⟨secret, identity, -⟩ := @PeerKeyStore.erasePeers_keys agent.keyStore ids
    exact ⟨rfl, secret, identity⟩
  | joined id => simp [receive]
  | assigned id createRoom => exact ⟨rfl, rfl, rfl⟩
  | other => exact ⟨rfl, rfl, rfl⟩

theorem mem_receive_keyOfferedTo {peerId : UInt32} :
    peerId ∈ (agent.receive cipher nonce notice).1.keyOfferedTo ↔
      peerId ∈ agent.keyOfferedTo ∨ notice.Introduces peerId ∧ peerId ≠ 0 ∧
      peerId ≠ agent.myId := by
  cases notice with
  | peerKey fromId key =>
    simp only [receive, Notice.Introduces]
    split_ifs with size
    · rw [mem_offer_keyOfferedTo]
      simp only [learn, size]
      grind
    · simp [size]
  | roomKey fromId sealed =>
    simp only [receive, Notice.Introduces]
    split <;> simp
  | joined id =>
    simp only [receive, Notice.Introduces, mem_offer_keyOfferedTo]
    grind
  | banned ids => simp [receive, Notice.Introduces]
  | assigned id createRoom => simp [receive, Notice.Introduces]
  | other => simp [receive, Notice.Introduces]

theorem mem_share {request : Request} {peerId : UInt32} :
    request ∈ agent.share cipher nonce peerId ↔
      ∃ roomKey peerPk sealed, agent.keyStore.roomKey = some roomKey ∧
        agent.keyStore.peerPublic peerId = some peerPk ∧
        sealRoomKey cipher nonce agent.keyStore.identitySecret peerPk roomKey = .ok sealed ∧
        request = .roomKeyOffer peerId sealed := by
  unfold share
  cases agent.keyStore.roomKey with
  | none => simp
  | some roomKey =>
    cases agent.keyStore.peerPublic peerId with
    | none => simp
    | some peerPk =>
      cases done :
        sealRoomKey cipher nonce agent.keyStore.identitySecret peerPk roomKey <;> simp [done]

theorem mem_receive_requests {request : Request} :
    request ∈ (agent.receive cipher nonce notice).2 ↔
      (∃ peerId, request = .keyOffer peerId agent.keyStore.identityPublic ∧
        notice.Introduces peerId ∧
        peerId ≠ 0 ∧ peerId ≠ agent.myId ∧ peerId ∉ agent.keyOfferedTo) ∨
      ∃ peerId key roomKey sealed, notice = .peerKey peerId key ∧ key.length = kPublicKeySize ∧
        agent.keyStore.roomKey = some roomKey ∧
        sealRoomKey cipher nonce agent.keyStore.identitySecret key roomKey = .ok sealed ∧
        request = .roomKeyOffer peerId sealed := by
  cases notice with
  | peerKey fromId key =>
    simp only [receive, Notice.Introduces]
    split_ifs with size
    · simp only [List.mem_append, mem_offer_requests, mem_share, offer_keyStore, learn,
        PeerKeyStore.peerPublic_insert, if_true]
      constructor
      · rintro (⟨rfl, fresh⟩ | ⟨roomKey, peerPk, sealed, held, known, done, rfl⟩)
        · exact .inl ⟨fromId, rfl, ⟨rfl, size⟩, fresh⟩
        · obtain rfl : key = peerPk := Option.some.inj known
          exact .inr ⟨fromId, key, roomKey, sealed, rfl, size, held, done, rfl⟩
      · rintro (⟨peerId, rfl, ⟨rfl, -⟩, fresh⟩ | ⟨_, _, roomKey, sealed, same, -, held, done, rfl⟩)
        · exact .inl ⟨rfl, fresh⟩
        · obtain ⟨rfl, rfl⟩ := Notice.peerKey.inj same
          exact .inr ⟨roomKey, key, sealed, held, rfl, done, rfl⟩
    · constructor
      · simp
      · rintro (⟨peerId, -, ⟨-, right⟩, -⟩ | ⟨_, _, _, _, same, right, -⟩)
        · exact absurd right size
        · exact absurd ((Notice.peerKey.inj same).2 ▸ right) size
  | joined id =>
    simp only [receive, Notice.Introduces, mem_offer_requests]
    constructor
    · rintro ⟨rfl, fresh⟩
      exact .inl ⟨id, rfl, rfl, fresh⟩
    · rintro (⟨peerId, rfl, rfl, fresh⟩ | ⟨_, _, _, _, same, -⟩)
      · exact ⟨rfl, fresh⟩
      · cases same
  | roomKey fromId sealed =>
    simp only [receive, Notice.Introduces]
    split <;> simp
  | banned ids => simp [receive, Notice.Introduces]
  | assigned id createRoom => simp [receive, Notice.Introduces]
  | other => simp [receive, Notice.Introduces]

theorem openFrom_eq_some {fromId : UInt32} {sealed room : Bytes} :
    agent.openFrom cipher fromId sealed = some room ↔
      ∃ peerPk, agent.keyStore.peerPublic fromId = some peerPk ∧
        openRoomKey cipher agent.keyStore.identitySecret peerPk sealed = .ok room := by
  unfold openFrom
  cases agent.keyStore.peerPublic fromId with
  | none => simp
  | some peerPk =>
    cases done : openRoomKey cipher agent.keyStore.identitySecret peerPk sealed <;>
      simp [done, Except.toOption]

theorem receive_peerPublic (id : UInt32) :
    (agent.receive cipher nonce notice).1.keyStore.peerPublic id =
      notice.hold id (agent.keyStore.peerPublic id) := by
  cases notice with
  | peerKey fromId key =>
    simp only [receive, Notice.hold]
    by_cases size : key.length = kPublicKeySize
    · simp only [size, if_true, offer_keyStore, learn, PeerKeyStore.peerPublic_insert, and_true]
    · simp only [size, if_false, and_false]
  | roomKey fromId sealed =>
    simp only [receive, Notice.hold]
    split <;> rfl
  | joined id => simp [receive, Notice.hold]
  | banned ids => exact PeerKeyStore.peerPublic_erasePeers ids id
  | assigned id createRoom => rfl
  | other => rfl

theorem receive_roomKey :
    (agent.receive cipher nonce notice).1.keyStore.roomKey =
      match notice with
      | .roomKey fromId sealed => (agent.openFrom cipher fromId sealed).or agent.keyStore.roomKey
      | _ => agent.keyStore.roomKey := by
  cases notice with
  | peerKey fromId key =>
    simp only [receive]
    split_ifs <;> simp [learn]
  | roomKey fromId sealed =>
    simp only [receive]
    cases agent.openFrom cipher fromId sealed <;> rfl
  | joined id => simp [receive]
  | banned ids => exact (@PeerKeyStore.erasePeers_keys agent.keyStore ids).2.2
  | assigned id createRoom => rfl
  | other => rfl

theorem receive_wellFormed (wellFormed : agent.keyStore.WellFormed cipher) :
    (agent.receive cipher nonce notice).1.keyStore.WellFormed cipher := by
  obtain ⟨-, secret, identity⟩ := receive_identity cipher nonce agent notice
  constructor
  case secretSize =>
    rw [secret, wellFormed.secretSize]
  case pair =>
    rw [identity, secret, wellFormed.pair]
  case roomSize =>
    rw [receive_roomKey]
    intro roomKey held
    cases notice with
    | roomKey fromId sealed =>
      -- an opened key has the right size, any other was there before
      rcases Option.or_eq_some_iff.mp held with opened | ⟨-, old⟩
      · obtain ⟨peerPk, -, done⟩ := (openFrom_eq_some cipher agent).mp opened
        exact openRoomKey_size done
      · exact wellFormed.roomSize roomKey old
    | _ => exact wellFormed.roomSize roomKey held
  case peerSize =>
    intro key known
    obtain ⟨id, known⟩ := PeerKeyStore.mem_peers_values.mp known
    rw [receive_peerPublic] at known
    have old (known : agent.keyStore.peerPublic id = some key) : key.length = kPublicKeySize :=
      wellFormed.peerSize key (PeerKeyStore.mem_peers_values.mpr ⟨id, known⟩)
    cases notice with
    | peerKey fromId new =>
      simp only [Notice.hold] at known
      split_ifs at known with learned
      · exact Option.some.inj known ▸ learned.2
      · exact old known
    | banned ids =>
      simp only [Notice.hold] at known
      split_ifs at known
      exact old known
    | _ => exact old known

end Receive

section Command

variable (agent : KeyAgent) (input : InputCommand)

@[simp] theorem command_keyStore : (agent.command input).1.keyStore = agent.keyStore := by
  cases input <;> simp [command]

@[simp] theorem command_myId : (agent.command input).1.myId = agent.myId := by
  cases input <;> simp [command]

theorem mem_command_keyOfferedTo {peerId : UInt32} :
    peerId ∈ (agent.command input).1.keyOfferedTo ↔
      peerId ∈ agent.keyOfferedTo ∨ input = .keyOffer peerId ∧ peerId ≠ 0 ∧
      peerId ≠ agent.myId := by
  cases input with
  | keyOffer recipientId =>
    simp only [command, mem_offer_keyOfferedTo, InputCommand.keyOffer.injEq]
    grind
  | _ => simp [command]

theorem mem_command_requests {request : Request} :
    request ∈ (agent.command input).2 ↔
      ∃ peerId, input = .keyOffer peerId ∧
        request = .keyOffer peerId agent.keyStore.identityPublic ∧
        peerId ≠ 0 ∧ peerId ≠ agent.myId ∧ peerId ∉ agent.keyOfferedTo := by
  cases input with
  | keyOffer recipientId => simp [command, mem_offer_requests]
  | _ => simp [command]

end Command

theorem start_creates (agent : KeyAgent) {createRoom : Bool}
    (creates : createRoom ∧ agent.keyStore.roomKey = none) (id : UInt32) (fresh : Bytes) :
    agent.start id createRoom fresh =
      { agent with myId := id, keyStore := { agent.keyStore with roomKey := some fresh } } := by
  rw [start, if_pos creates]

theorem start_keeps (agent : KeyAgent) {createRoom : Bool}
    (keeps : ¬ (createRoom ∧ agent.keyStore.roomKey = none)) (id : UInt32) (fresh : Bytes) :
    agent.start id createRoom fresh = { agent with myId := id } := by
  rw [start, if_neg keeps]

end KeyAgent

end ModbusChat.Client
