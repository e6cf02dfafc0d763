import ModbusChat.Client.Deeds
import ModbusChat.Client.KeyAgent

set_option autoImplicit false

namespace ModbusChat.Client

open BigEndian Effects Wire

theorem packets_append (first second : List ClientEffect) :
    packets (first ++ second) = packets first ++ packets second := List.filterMap_append

-- What no handler changes, besides what the key agent may.
def ClientViewModel.settings (client : ClientViewModel) : Bytes × Bool :=
  (client.nickname, client.online)

/--
The outcome of an action is what the key agent does: its next state, and the requests it makes.
-/
structure Follows {α : Type} (client : ClientViewModel)
    (outcome : Outcome ClientViewModel ClientEffect Failure α) (agent : KeyAgent)
    (requests : List Request) : Prop where
  agent : outcome.state.agent = agent
  requests : (packets outcome.output).map Packet.request = requests
  settings : outcome.state.settings = client.settings

-- What is the same in every step that concerns the key agent as little as a report does.
def Apart (client : ClientViewModel) (output : List ClientEffect) (after : ClientViewModel) :
    Prop :=
  after.agent = client.agent ∧ after.settings = client.settings ∧
    ∀ request ∈ (packets output).map Packet.request, request = .other

theorem chains_apart : Chains Apart where
  refl _ := ⟨rfl, rfl, by simp [packets]⟩
  trans first second := by
    refine ⟨second.1.trans first.1, second.2.1.trans first.2.1, ?_⟩
    rw [packets_append, List.map_append]
    exact fun request member => (List.mem_append.mp member).elim (first.2.2 request)
      (second.2.2 request)

theorem Quiet.packets {client after : ClientViewModel} {output : List ClientEffect}
    (quiet : Quiet client output after) : packets output = [] := by
  cases quiet with
  | @report effect plain => cases effect <;> first | rfl | cases plain
  | draw size => rfl

theorem Quiet.standing {client after : ClientViewModel} {output : List ClientEffect}
    (quiet : Quiet client output after) :
    after.agent = client.agent ∧ after.settings = client.settings := by
  cases quiet <;> exact ⟨rfl, rfl⟩

theorem Idle.packets {α : Type} {action : ClientM α} (idle : Idle action)
    (client : ClientViewModel) :
    packets (action.run client).output = [] := by
  refine List.filterMap_eq_nil_iff.mpr ?_
  refine (idle client).path.relates (chains_emits fun effect => effect.packet? = none)
    fun quiet => ?_
  exact List.filterMap_eq_nil_iff.mp quiet.packets

theorem Idle.follows {α : Type} {action : ClientM α} (idle : Idle action)
    (client : ClientViewModel) :
    Follows client (action.run client) client.agent [] := by
  have same := (idle client).path.relates
    (chains_view fun client : ClientViewModel => (client.agent, client.settings))
    fun quiet => Prod.ext quiet.standing.1 quiet.standing.2
  refine ⟨congrArg Prod.fst same, ?_, congrArg Prod.snd same⟩
  rw [idle.packets]
  rfl

-- What is neither an offer nor a change of keys.
def Deed.chatter : Deed → Bool
  | .quiet | .deliver | .register | .listUsers | .chat _ | .learn | .stop | .close => true
  | .offer _ | .share | .keys | .identity | .assign => false

theorem Does.apart {cipher : Monocypher} {client after : ClientViewModel}
    {output : List ClientEffect}
    {deed : Deed} (does : Does cipher client deed output after) (chatter : deed.chatter = true) :
    Apart client output after := by
  cases does with
  | quiet quiet =>
    refine ⟨quiet.standing.1, quiet.standing.2, ?_⟩
    rw [quiet.packets]
    simp
  | close closes =>
    refine ⟨rfl, rfl, ?_⟩
    rcases closes with rfl | rfl <;> simp [packets, ClientEffect.packet?]
  | note | offer | share | keys | identity | assign => cases chatter
  | _ => exact ⟨rfl, rfl, by simp [packets, ClientEffect.packet?, Packet.request]⟩

theorem Conducted.apart {α : Type} {cipher : Monocypher} {deeds : List Deed}
    {client : ClientViewModel} {outcome : Outcome ClientViewModel ClientEffect Failure α}
    (conducted : Conducted cipher deeds client outcome)
    (chatter : ∀ deed ∈ deeds, deed.chatter = true) :
    Apart client outcome.output outcome.state := by
  refine conducted.relates chains_apart fun member does => does.apart ?_
  rcases List.mem_cons.mp member with rfl | member
  · rfl
  · exact chatter _ member

theorem Does.silent {cipher : Monocypher} {client after : ClientViewModel}
    {output : List ClientEffect}
    {deed : Deed} (does : Does cipher client deed output after) (silent : deed.silent = true) :
    ∀ effect ∈ output, effect.packet? = none := by
  cases does with
  | quiet quiet => exact List.filterMap_eq_nil_iff.mp quiet.packets
  | close closes => rcases closes with rfl | rfl <;> simp [ClientEffect.packet?]
  | register | listUsers | note | offer | share | direct | broadcast => cases silent
  | _ => simp [ClientEffect.packet?]

theorem silent_path {cipher : Monocypher} {deeds : List Deed} {client after : ClientViewModel}
    {output : List ClientEffect}
    (path : Path (Doing cipher deeds Deed.silent) client output after) :
    packets output = [] := by
  refine List.filterMap_eq_nil_iff.mpr ?_
  refine path.relates (chains_emits fun effect => effect.packet? = none) ?_
  rintro _ _ _ ⟨deed, -, silent, does⟩
  exact does.silent silent

theorem Prepares.packets {α : Type} {cipher : Monocypher} {deeds : List Deed} {action : ClientM α}
    (prepares : Prepares cipher deeds action) (client : ClientViewModel) :
    packets (action.run client).output = [] := silent_path (prepares client).path

theorem Conducted.follows {α : Type} {cipher : Monocypher} {deeds : List Deed}
    {client : ClientViewModel} {outcome : Outcome ClientViewModel ClientEffect Failure α}
    (conducted : Conducted cipher deeds client outcome)
    (apart : ∀ deed ∈ deeds, deed.chatter = true ∧ deed.silent = true) :
    Follows client outcome client.agent [] := by
  obtain ⟨agent, settings, -⟩ := conducted.apart fun deed member => (apart deed member).1
  have silent : packets outcome.output = [] := by
    refine List.filterMap_eq_nil_iff.mpr ?_
    refine conducted.relates (chains_emits fun effect => effect.packet? = none)
      fun member does => ?_
    rcases List.mem_cons.mp member with rfl | member
    · exact does.silent rfl
    · exact does.silent (apart _ member).2
  refine ⟨agent, ?_, settings⟩
  rw [silent]
  rfl

section Follows

variable {α β : Type} {client : ClientViewModel}
  {outcome : Outcome ClientViewModel ClientEffect Failure α}
  {agent later : KeyAgent} {requests more : List Request}

theorem Follows.andThen {next : α → ClientM β} {value : α}
    (first : Follows client outcome agent requests) (returned : outcome.result = .ok value)
    (second : Follows outcome.state ((next value).run outcome.state) later more) :
    Follows client (outcome.andThen next) later (requests ++ more) := by
  obtain ⟨state, output, _⟩ := outcome
  obtain rfl := returned
  refine ⟨second.agent, ?_, second.settings.trans first.settings⟩
  rw [Outcome.andThen_ok, Outcome.before_output, packets_append, List.map_append, second.requests,
    ← first.requests]

theorem Follows.andThen_idle {next : α → ClientM β} (first : Follows client outcome agent requests)
    (rest : ∀ value, Idle (next value)) : Follows client (outcome.andThen next) agent requests := by
  cases returned : outcome.result with
  | error failure =>
    obtain ⟨state, output, _⟩ := outcome
    obtain rfl := returned
    exact ⟨first.agent, first.requests, first.settings⟩
  | ok value =>
    have both := first.andThen returned ((rest value).follows outcome.state)
    rwa [List.append_nil, first.agent] at both

theorem Follows.caught {handler : Bytes → ClientM α} (tried : Follows client outcome agent requests)
    (handled : ∀ what, Idle (handler what)) :
    Follows client (outcome.orElse (catchClause handler)) agent requests := by
  obtain ⟨state, output, failure | value⟩ := outcome
  · rw [Outcome.orElse_error, catchClause]
    cases failure.what? with
    | none =>
      refine ⟨tried.agent, ?_, tried.settings⟩
      rw [Action.run_lift, Outcome.before_mk, List.append_nil]
      exact tried.requests
    | some what =>
      have rest := (handled (ascii what)).follows state
      refine ⟨rest.agent.trans tried.agent, ?_, rest.settings.trans tried.settings⟩
      rw [Outcome.before_output, packets_append, List.map_append, rest.requests, List.append_nil]
      exact tried.requests
  · exact tried

end Follows

theorem decode_buildChatLike {fromId peerId : UInt32} {body bytes : Bytes}
    (built : buildChatLike fromId kRecipientById (writeU32Be peerId) body = .ok bytes) :
    decodeChatPayload bytes = .ok ⟨fromId, kRecipientById, writeU32Be peerId, body⟩ := by
  obtain ⟨short, rfl⟩ := encodeChat_eq_ok.mp built
  exact @decodeChatPayload_bytes _ (.byId peerId) rfl rfl short

theorem addressed_byId (make : UInt32 → Bytes → Request) (fromId peerId : UInt32) (body : Bytes) :
    addressed make ⟨fromId, kRecipientById, writeU32Be peerId, body⟩ = make peerId body := by
  have read := readU32Be_write peerId []
  rw [List.append_nil] at read
  simp only [addressed, if_true, read]

theorem request_keyOffer {fromId peerId : UInt32} {body bytes : Bytes}
    (built : buildKeyOffer fromId peerId body = .ok bytes) :
    (Packet.mk .keyOffer bytes).request = .keyOffer peerId body := by
  simp only [Packet.request, decodePayload, decode_buildChatLike built, ok_bind, except_pure,
    addressed_byId]

theorem request_roomKeyOffer {fromId peerId : UInt32} {body bytes : Bytes}
    (built : buildRoomKeyOffer fromId peerId body = .ok bytes) :
    (Packet.mk .roomKeyOffer bytes).request = .roomKeyOffer peerId body := by
  simp only [Packet.request, decodePayload, decode_buildChatLike built, ok_bind, except_pure,
    addressed_byId]

theorem buildChatLike_ok {text : Bytes} (short : text.length ≤ kMaxU16Count) (fromId : UInt32)
    (tag : UInt8) (data : Bytes) : ∃ bytes, buildChatLike fromId tag data text = .ok bytes :=
  ⟨_, encodeChat_eq_ok.mpr ⟨short, rfl⟩⟩

section SealedChat

variable {chat : SealedChat} {client : ClientViewModel} {key : Bytes}

theorem SealedChat.send_keyless (missing : chat.key = none) :
    chat.send = reportError chat.keyless.1 chat.keyless.2 := by
  simp only [SealedChat.send, missing]

theorem SealedChat.send_sealed {sealed : Bytes} (held : chat.key = some key)
    (encrypted : chat.encrypt key client.nonce = .ok sealed) :
    chat.send.run client =
      (do if ← Client.send .chat (chat.build sealed) then return
          else reportError "Send failed" chat.unsent : ClientM Unit).run client.drawn := by
  simp only [SealedChat.send, held, Action.run_bind, fillRandom_run, encrypted, attempt_ok,
    Outcome.andThen_ok, Outcome.before_nil]

theorem SealedChat.send_unsealed {failure : Failure} {what : String} (held : chat.key = some key)
    (refused : chat.encrypt key client.nonce = .error failure)
    (caught : failure.what? = some what) :
    chat.send.run client =
      (reportError (chat.failed (ascii what)).1 (chat.failed (ascii what)).2).run client.drawn := by
  simp only [SealedChat.send, held, Action.run_bind, fillRandom_run, refused, attempt_error, caught,
    Outcome.andThen_ok, Outcome.before_nil]

theorem SealedChat.send_sends {sealed bytes : Bytes} (online : client.online = true)
    (held : chat.key = some key) (encrypted : chat.encrypt key client.nonce = .ok sealed)
    (built : chat.build sealed = .ok bytes) :
    (chat.send.run client).output = [.send .chat bytes] := by
  have sent := send_online client.drawn online .chat bytes
  rw [SealedChat.send_sealed held encrypted, built, Action.run_bind, sent]
  rfl

theorem SealedChat.direct_encrypt {cipher : Monocypher} {recipientId : UInt32}
    {plaintext peerPk : Bytes} (secretSize : client.keyStore.identitySecret.length = kSecretKeySize)
    (peerSize : peerPk.length = kPublicKeySize) (nonce : Bytes) :
    (SealedChat.direct cipher recipientId plaintext client).encrypt peerPk nonce =
      .ok (aeadEncrypt cipher (cipher.x25519 client.keyStore.identitySecret peerPk) nonce
        plaintext) := by
  simp only [SealedChat.direct, encryptForPeer, sharedSecret_ok secretSize peerSize, ok_bind,
    except_pure]

theorem SealedChat.broadcast_encrypt {cipher : Monocypher} {plaintext roomKey : Bytes}
    (size : roomKey.length = kRoomKeySize) (nonce : Bytes) :
    (SealedChat.broadcast cipher plaintext client).encrypt roomKey nonce =
      .ok (aeadEncrypt cipher roomKey nonce plaintext) := by
  simp only [SealedChat.broadcast, encryptWithRoomKey, requireSize_ok size, ok_bind, except_pure]

end SealedChat

section Handlers

variable {cipher : Monocypher} {client : ClientViewModel} (online : client.online = true)
include online

theorem sendKeyOffer_follows (short : client.keyStore.identityPublic.length ≤ kMaxU16Count)
    (peerId : UInt32) :
    ((sendKeyOffer peerId).run client).result = .ok () ∧
      Follows client ((sendKeyOffer peerId).run client) (client.agent.offer peerId).1
        (client.agent.offer peerId).2 := by
  simp only [sendKeyOffer, Action.run_bind, Action.run_get, Outcome.andThen_ok, Outcome.before_nil]
  by_cases own : peerId = 0 ∨ peerId = client.myId
  · have kept : client.agent.offer peerId = (client.agent, []) := by
      rw [KeyAgent.offer, if_pos (own.imp_right .inl)]
    rw [if_pos own, kept]
    exact ⟨rfl, rfl, rfl, rfl⟩
  rw [if_neg own]
  by_cases offered : peerId ∈ client.keyOfferedTo
  · have kept : client.agent.offer peerId = (client.agent, []) := by
      rw [KeyAgent.offer, if_pos (.inr (.inr offered))]
    rw [if_pos offered, kept]
    exact ⟨rfl, rfl, rfl, rfl⟩
  have made : client.agent.offer peerId =
      ({ client.agent with keyOfferedTo := insert peerId client.agent.keyOfferedTo },
        [.keyOffer peerId client.keyStore.identityPublic]) := by
    have fresh : ¬ (peerId = 0 ∨ peerId = client.agent.myId ∨ peerId ∈ client.agent.keyOfferedTo) :=
      fun taken => taken.elim (own ∘ .inl) fun taken => taken.elim (own ∘ .inr) offered
    rw [KeyAgent.offer, if_neg fresh]
    rfl
  obtain ⟨bytes, built⟩ := buildChatLike_ok short client.myId kRecipientById (writeU32Be peerId)
  have sent := send_online { client with keyOfferedTo := insert peerId client.keyOfferedTo } online
    .keyOffer bytes
  rw [if_neg offered, made]
  simp only [Action.run_bind, Action.run_modify, Outcome.andThen_ok, Outcome.before_nil,
    show buildKeyOffer client.myId peerId client.keyStore.identityPublic =
      .ok bytes from built, sent,
    if_true]
  refine ⟨rfl, rfl, ?_, rfl⟩
  exact congrArg (fun request => [request]) (request_keyOffer built)

omit online in
theorem sealRoomKey_length {nonce mySecret peerPublic roomKey sealed : Bytes}
    (nonceSize : nonce.length = kNonceSize)
    (done : sealRoomKey cipher nonce mySecret peerPublic roomKey = .ok sealed) :
    sealed.length ≤ kMaxU16Count := by
  obtain ⟨_, checked, done⟩ := bind_eq_ok.mp done
  obtain ⟨shared, _, done⟩ := bind_eq_ok.mp done
  have roomSize : roomKey.length = kRoomKeySize := by
    by_contra wrong
    simp [requireSize, wrong] at checked
  rw [← Except.ok.inj done, aeadEncrypt_length, nonceSize, roomSize]
  decide

theorem maybeSendRoomKey_follows (peerId : UInt32) :
    ∃ nonce, nonce.length = kNonceSize ∧
      Follows client ((maybeSendRoomKey cipher peerId).run client) client.agent
        (client.agent.share cipher nonce peerId) := by
  refine ⟨client.nonce, client.nonce_length, ?_⟩
  simp only [maybeSendRoomKey, Action.run_bind, Action.run_get, Outcome.andThen_ok,
    Outcome.before_nil, KeyAgent.share, ClientViewModel.agent]
  cases held : client.keyStore.roomKey with
  | none => exact ⟨rfl, rfl, rfl⟩
  | some roomKey =>
    cases known : client.keyStore.peerPublic peerId with
    | none => exact ⟨rfl, rfl, rfl⟩
    | some peerPk =>
      simp only [Action.run_bind, fillRandom_run, Outcome.andThen_ok, Outcome.before_nil]
      cases done :
        sealRoomKey cipher client.nonce client.keyStore.identitySecret peerPk roomKey with
      | error failure =>
        rw [attempt_error]
        cases failure.what? <;> exact ⟨rfl, rfl, rfl⟩
      | ok sealed =>
        obtain ⟨bytes, built⟩ := buildChatLike_ok (sealRoomKey_length client.nonce_length done)
          client.myId kRecipientById (writeU32Be peerId)
        have sent := send_online client.drawn online .roomKeyOffer bytes
        simp only [attempt_ok, Outcome.andThen_ok, Outcome.before_nil, Action.run_bind,
          show buildRoomKeyOffer client.myId peerId sealed = .ok bytes from built, sent, if_true]
        refine ⟨rfl, ?_, rfl⟩
        exact congrArg (fun request => [request]) (request_roomKeyOffer built)

theorem receivePeerKey_follows (short : client.keyStore.identityPublic.length ≤ kMaxU16Count)
    (fromId : UInt32) (key : Bytes) :
    ∃ nonce, nonce.length = kNonceSize ∧
      Follows client ((receivePeerKey cipher fromId key).run client)
        (client.agent.receive cipher nonce (.peerKey fromId key)).1
        (client.agent.receive cipher nonce (.peerKey fromId key)).2 := by
  have handled what := idle_reportError "Invalid PeerKey"
    (ascii "from_id=" ++ (toDecimal fromId ++ (ascii " err=" ++ what)))
  simp only [receivePeerKey, catching, Action.run_tryCatch]
  by_cases size : key.length = kPublicKeySize
  · have learned : client.keyStore.setPeerPublic fromId key =
        .ok { client.keyStore with peers := client.keyStore.peers.insert fromId key } := by
      simp [PeerKeyStore.setPeerPublic, size]
    -- the client once the key is stored: the offer and the room key are sent from here
    let knowing : ClientViewModel :=
      { client with keyStore :=
          { client.keyStore with peers := client.keyStore.peers.insert fromId key } }
    obtain ⟨returned, offered⟩ := @sendKeyOffer_follows knowing online short fromId
    have onlineStill : ((sendKeyOffer fromId).run knowing).state.online = true :=
      (congrArg Prod.snd offered.settings).trans online
    obtain ⟨nonce, nonceSize, shared⟩ := @maybeSendRoomKey_follows cipher _ onlineStill fromId
    have both : Follows knowing
        (((sendKeyOffer fromId).run knowing).andThen fun _ => maybeSendRoomKey cipher fromId) _ _ :=
      offered.andThen returned shared
    rw [offered.agent] at both
    have answers : client.agent.receive cipher nonce (.peerKey fromId key) =
        ((knowing.agent.offer fromId).1, (knowing.agent.offer fromId).2 ++
          (knowing.agent.offer fromId).1.share cipher nonce fromId) := by
      simp only [KeyAgent.receive, if_pos size]
      rfl
    refine ⟨nonce, nonceSize, Follows.caught ?_ handled⟩
    simp only [Action.run_bind, Action.run_get, Action.run_lift, Outcome.andThen_ok,
      Outcome.before_nil, learned, Action.run_modify, answers]
    exact ⟨both.agent, both.requests, both.settings⟩
  · refine ⟨List.replicate kNonceSize 0, by simp, Follows.caught ?_ handled⟩
    have refused : client.keyStore.setPeerPublic fromId key =
        .error (.runtimeError "invalid peer public key size") := by
      simp [PeerKeyStore.setPeerPublic, size]
    simp only [Action.run_bind, Action.run_get, Action.run_lift, Outcome.andThen_ok,
      Outcome.before_nil, refused, Outcome.andThen_error, KeyAgent.receive, if_neg size]
    exact ⟨rfl, rfl, rfl⟩

omit online in
theorem receiveRoomKey_follows (nonce : Bytes) (fromId : UInt32) (sealed : Bytes) :
    Follows client ((receiveRoomKey cipher fromId sealed).run client)
      (client.agent.receive cipher nonce (.roomKey fromId sealed)).1
      (client.agent.receive cipher nonce (.roomKey fromId sealed)).2 := by
  refine Follows.caught ?_ fun _ => idle_reportError _ _
  simp only [Action.run_bind, Action.run_get, Outcome.andThen_ok, Outcome.before_nil,
    KeyAgent.receive, KeyAgent.openFrom, ClientViewModel.agent]
  cases known : client.keyStore.peerPublic fromId with
  | none => exact (idle_reportError _ _).follows client
  | some peerPk =>
    simp only [Action.run_bind, Action.run_lift]
    cases opened : openRoomKey cipher client.keyStore.identitySecret peerPk sealed with
    | error failure => exact ⟨rfl, rfl, rfl⟩
    | ok room =>
      have stored : client.keyStore.setRoomKey room =
          .ok { client.keyStore with roomKey := some room } := by
        simp [PeerKeyStore.setRoomKey, openRoomKey_size opened]
      simp only [Outcome.andThen_ok, Outcome.before_nil, Action.run_bind, Action.run_lift, stored]
      exact ⟨rfl, rfl, rfl⟩

theorem userJoined_follows (short : client.keyStore.identityPublic.length ≤ kMaxU16Count)
    (id : UInt32) (nickname : Bytes) :
    Follows client
      ((handleIncoming cipher { type := .userJoined, payload := .userJoined id nickname }).run
        client)
      (client.agent.offer id).1 (client.agent.offer id).2 := by
  change Follows client (Outcome.before [.display (.userJoined id nickname)] (Action.run
    (if id ≠ client.myId then sendKeyOffer id else return) (client.learnNickname { id, nickname })))
      _ _
  have named : (client.learnNickname { id, nickname }).agent = client.agent := rfl
  by_cases own : id = client.myId
  · have kept : client.agent.offer id = (client.agent, []) := by
      rw [KeyAgent.offer, if_pos (.inr (.inl own))]
    rw [if_neg (not_not.mpr own), kept]
    exact ⟨rfl, rfl, rfl⟩
  · have offered :=
      (@sendKeyOffer_follows (client.learnNickname { id, nickname }) online short id).2
    rw [if_pos own]
    rw [named] at offered
    exact ⟨offered.agent, offered.requests, offered.settings⟩

theorem handleIncoming_follows (short : client.keyStore.identityPublic.length ≤ kMaxU16Count)
    {packet : Packet} {payload : AppPayload}
    (decoded : decodePayload packet.payload packet.type = .ok payload) :
    ∃ nonce, nonce.length = kNonceSize ∧
      Follows client ((handleIncoming cipher { type := packet.type, payload }).run client)
        (client.agent.receive cipher nonce packet.notice).1
        (client.agent.receive cipher nonce packet.notice).2 := by
  have carried := decodePayload_carries decoded
  have someNonce : (List.replicate kNonceSize (0 : UInt8)).length = kNonceSize := by simp
  obtain ⟨type, bytes⟩ := packet
  cases type
  case peerKey =>
    cases payload with
    | deliver fromId key =>
      simp only [Packet.notice, decoded]
      exact receivePeerKey_follows online short fromId key
    | _ => exact carried.elim
  case roomKey =>
    cases payload with
    | deliver fromId sealed =>
      simp only [Packet.notice, decoded]
      exact ⟨_, someNonce, receiveRoomKey_follows _ fromId sealed⟩
    | _ => exact carried.elim
  case bannedIds =>
    cases payload with
    | bannedIds ids =>
      simp only [Packet.notice, decoded]
      exact ⟨_, someNonce, rfl, rfl, rfl⟩
    | _ => exact carried.elim
  case userJoined =>
    cases payload with
    | userJoined id nickname =>
      simp only [Packet.notice, decoded]
      exact ⟨_, someNonce, userJoined_follows online short id nickname⟩
    | _ => exact carried.elim
  case usersList | userLeft | deliver =>
    exact ⟨_, someNonce, Conducted.follows (handleIncoming_conducts _ client)
      (by simp [messageDeeds, Deed.chatter, Deed.silent])⟩
  case assignId =>
    cases payload with
    | assignId id createRoom =>
      simp only [Packet.notice, decoded]
      exact ⟨_, someNonce, rfl, rfl, rfl⟩
    | _ => exact carried.elim
  -- the presenter gets the rest, errors of the server among them
  all_goals cases payload <;> first | exact carried.elim | exact ⟨_, someNonce, rfl, rfl, rfl⟩

theorem receiveNext_follows (short : client.keyStore.identityPublic.length ≤ kMaxU16Count)
    (packet : Packet) :
    ∃ nonce, nonce.length = kNonceSize ∧
      Follows client ((receiveNext cipher (some packet.frame)).run client)
        (client.agent.receive cipher nonce packet.notice).1
        (client.agent.receive cipher nonce packet.notice).2 := by
  have handled what := idle_reportError "Decode failed" what
  simp only [receiveNext, catching, Action.run_tryCatch, Action.run_bind, receive, Packet.frame,
    decodeAppMessage_frame, Action.run_lift]
  cases decoded : decodePayload packet.payload packet.type with
  | error failure =>
    have nothing : packet.notice = .other := by
      obtain ⟨type, bytes⟩ := packet
      cases type <;> simp only [Packet.notice, decoded]
    rw [nothing]
    exact ⟨List.replicate kNonceSize 0, by simp, Follows.caught ⟨rfl, rfl, rfl⟩ handled⟩
  | ok payload =>
    obtain ⟨nonce, nonceSize, follows⟩ := handleIncoming_follows online short decoded
    exact ⟨nonce, nonceSize, follows.caught handled⟩

end Handlers

theorem handleInputCommand_follows {cipher : Monocypher} {client : ClientViewModel}
    (online : client.online = true) (short : client.keyStore.identityPublic.length ≤ kMaxU16Count)
    (command : InputCommand) :
    ∃ chatter, (∀ request ∈ chatter, request = .other) ∧
      Follows client ((handleInputCommand cipher command).run client)
        (client.agent.command command).1 ((client.agent.command command).2 ++ chatter) := by
  by_cases offers : ∃ recipientId, command = .keyOffer recipientId
  · obtain ⟨recipientId, rfl⟩ := offers
    refine ⟨[], by simp, ?_⟩
    rw [List.append_nil]
    exact (sendKeyOffer_follows online short recipientId).2
  · have chatter : ∀ deed ∈ command.deeds, deed.chatter = true := by
      intro deed member
      rcases mem_commandDeeds member with rfl | ⟨rfl, -⟩ | ⟨peerId, -, same⟩ | rfl
      · rfl
      · rfl
      · exact absurd ⟨peerId, same⟩ offers
      · rfl
    have kept : client.agent.command command = (client.agent, []) := by
      cases command with
      | keyOffer recipientId => exact absurd ⟨recipientId, rfl⟩ offers
      | _ => rfl
    obtain ⟨agent, settings, others⟩ :=
      Conducted.apart ((@handleInputCommand_speaks cipher command).conducts client) chatter
    rw [kept]
    exact ⟨_, others, agent, rfl, settings⟩

theorem notice_assigned {packet : Packet} {id : UInt32} {createRoom : Bool}
    (told : packet.notice = .assigned id createRoom) :
    packet.type = .assignId ∧ decodePayload packet.payload .assignId =
      .ok (.assignId id createRoom) := by
  obtain ⟨type, bytes⟩ := packet
  cases type
  case assignId =>
    simp only [Packet.notice] at told
    split at told
    · next decoded =>
      obtain ⟨rfl, rfl⟩ := Notice.assigned.inj told
      exact ⟨rfl, decoded⟩
    · cases told
  all_goals
    simp only [Packet.notice] at told
    first | cases told | (split at told <;> cases told)

section Start

variable {client : ClientViewModel} {packet : Packet} {id : UInt32} {createRoom : Bool}

theorem receiveAssignedId_follows (client : ClientViewModel)
    (told : packet.notice = .assigned id createRoom) :
    ∃ fresh, fresh.length = kRoomKeySize ∧
      ((receiveAssignedId (some packet.frame)).run client).result = .ok () ∧
      Follows client ((receiveAssignedId (some packet.frame)).run client)
        (client.agent.start id createRoom fresh) [] := by
  obtain ⟨type, decoded⟩ := notice_assigned told
  have received : receive (some packet.frame) =
      .ok (some { type := .assignId, payload := .assignId id createRoom }) := by
    simp only [receive, Packet.frame, decodeAppMessage_frame, type, decoded, ok_bind, except_pure]
  refine ⟨(List.range kRoomKeySize).map client.random, by simp, ?_⟩
  simp only [receiveAssignedId, received, display, Action.run_bind, Action.run_emit,
    Action.run_lift, Action.run_modify, Action.run_get, Outcome.andThen_ok, Outcome.before_nil]
  by_cases creates : createRoom ∧ client.keyStore.roomKey = none
  · rw [if_pos creates]
    have stored : client.keyStore.setRoomKey ((List.range kRoomKeySize).map client.random) =
        .ok { client.keyStore with
          roomKey := some ((List.range kRoomKeySize).map client.random) } := by
      simp [PeerKeyStore.setRoomKey]
    simp only [generateRoomKey, fillRandom, Action.run_bind, Action.run_get, Action.run_modify,
      Action.run_pure, Action.run_lift, Outcome.andThen_ok, Outcome.before_nil, stored]
    exact ⟨rfl, (client.agent.start_creates creates id _).symm, rfl, rfl⟩
  · rw [if_neg creates]
    exact ⟨rfl, (client.agent.start_keeps creates id _).symm, rfl, rfl⟩

theorem registerNickname_follows (online : client.online = true)
    (short : client.nickname.length ≤ kMaxU16Count) :
    ∃ chatter, (∀ request ∈ chatter, request = .other) ∧
      (registerNickname.run client).result = .ok () ∧
      Follows client (registerNickname.run client) client.agent chatter := by
  simp only [registerNickname, Action.run_bind, Action.run_get, Outcome.andThen_ok,
    Outcome.before_nil]
  by_cases anonymous : client.nickname = []
  · rw [if_pos anonymous]
    exact ⟨[], by simp, rfl, rfl, rfl, rfl⟩
  · have encoded : encodeRegister client.nickname = .ok (stringBytes client.nickname) :=
      encodeString_eq_ok.mpr ⟨short, rfl⟩
    rw [if_neg anonymous]
    simp only [display, Action.run_bind, Action.run_emit, Outcome.andThen_ok, encoded,
      send_online client online, if_true]
    exact ⟨[.other], by simp, rfl, rfl, rfl, rfl⟩

theorem startUp_follows (online : client.online = true)
    (short : client.nickname.length ≤ kMaxU16Count)
    (told : packet.notice = .assigned id createRoom) :
    ∃ fresh chatter, fresh.length = kRoomKeySize ∧ (∀ request ∈ chatter, request = .other) ∧
      ((startUp (some packet.frame)).run client).result = .ok () ∧
      Follows client ((startUp (some packet.frame)).run client)
        (client.agent.start id createRoom fresh) chatter := by
  obtain ⟨fresh, size, returned, assigned⟩ := receiveAssignedId_follows client told
  have settings := assigned.settings
  obtain ⟨chatter, plain, registered, follows⟩ := registerNickname_follows
    ((congrArg Prod.snd settings).trans online)
    ((congrArg (List.length ∘ Prod.fst) settings).trans_le short)
  have idle : Idle (do
      display (.status (ascii "Startup complete") 100)
      display .inputReady
      display .usage) :=
    (idle_report rfl).bind fun _ => (idle_report rfl).bind fun _ => idle_report rfl
  have rest := follows.andThen_idle fun _ : Unit => idle
  rw [assigned.agent] at rest
  refine ⟨fresh, chatter, size, plain, ?_, ?_⟩
  · rw [startUp, Action.run_bind, Outcome.andThen_result returned, Action.run_bind,
      Outcome.andThen_result registered]
    rfl
  · exact assigned.andThen returned rest

end Start

end ModbusChat.Client
