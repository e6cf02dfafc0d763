import ModbusChat.Client.DirectMessages
import ModbusChat.Client.InputCommandParser

set_option autoImplicit false

namespace ModbusChat.Client

open BigEndian Effects Wire Text

theorem typeIn_line {cipher : Monocypher} {client : ClientViewModel} {line : Bytes}
    {command : InputCommand} (running : client.running = true) (unbroken : 10 ∉ line)
    (nonempty : line ≠ []) (parsed : parseInputLine line client.myId = .ok command) :
    ((typeIn cipher (line ++ [10])).run client).output =
      ((handleInputCommand cipher command).run client).output := by
  have lines : getlines 10 (line ++ [10]) = [line] := getlines_field_append unbroken []
  rw [typeIn, lines, inputLoop_line running nonempty parsed]

section Sending

variable {cipher : Monocypher} {client : ClientViewModel} (online : client.online = true)
  (wellFormed : client.keyStore.WellFormed cipher) {plaintext : Bytes}
  (short : plaintext.length ≤ 65495)
include online wellFormed short

omit online wellFormed in
theorem sealed_short {nonce : Bytes} (nonceSize : nonce.length = kNonceSize) (key : Bytes) :
    (aeadEncrypt cipher key nonce plaintext).length ≤ kMaxU16Count := by
  rw [aeadEncrypt_length, nonceSize, kNonceSize, kMacSize, kMaxU16Count]
  omega

theorem sendEncryptedChatById_sends {recipientId : UInt32} {peerPk : Bytes}
    (known : client.keyStore.peerPublic recipientId = some peerPk) :
    ∃ nonce bytes, nonce.length = kNonceSize ∧
      buildChatById client.myId recipientId
        (aeadEncrypt cipher (cipher.x25519 client.keyStore.identitySecret peerPk) nonce plaintext) =
          .ok bytes ∧
      ((sendEncryptedChatById cipher recipientId plaintext).run client).output = [.send .chat
        bytes] := by
  have peerSize :=
    wellFormed.peerSize peerPk (PeerKeyStore.mem_peers_values.mpr ⟨recipientId, known⟩)
  obtain ⟨bytes, built⟩ := buildChatLike_ok
    (sealed_short short client.nonce_length (cipher.x25519 client.keyStore.identitySecret peerPk))
    client.myId kRecipientById (writeU32Be recipientId)
  have encrypted := @SealedChat.direct_encrypt client cipher recipientId plaintext peerPk
    wellFormed.secretSize peerSize client.nonce
  refine ⟨client.nonce, bytes, client.nonce_length, built, ?_⟩
  rw [sendEncryptedChatById_eq, Action.run_bind, Action.run_get, Outcome.andThen_ok,
    Outcome.before_nil]
  exact SealedChat.send_sends online known encrypted built

theorem sendEncryptedBroadcast_sends {roomKey : Bytes}
    (held : client.keyStore.roomKey = some roomKey) :
    ∃ nonce bytes, nonce.length = kNonceSize ∧
      buildChatBroadcast client.myId (aeadEncrypt cipher roomKey nonce plaintext) = .ok bytes ∧
      ((sendEncryptedBroadcast cipher plaintext).run client).output = [.send .chat bytes] := by
  obtain ⟨bytes, built⟩ :=
    buildChatLike_ok (sealed_short short client.nonce_length roomKey) client.myId
    kRecipientBroadcast []
  have encrypted := @SealedChat.broadcast_encrypt client cipher plaintext roomKey
    (wellFormed.roomSize roomKey held) client.nonce
  refine ⟨client.nonce, bytes, client.nonce_length, built, ?_⟩
  rw [sendEncryptedBroadcast_eq, Action.run_bind, Action.run_get, Outcome.andThen_ok,
    Outcome.before_nil]
  exact SealedChat.send_sends online held encrypted built

end Sending

section Receiving

variable {cipher : Monocypher} {client : ClientViewModel} {fromId : UInt32} {sealed plain : Bytes}

theorem receiveNext_shows (short : sealed.length ≤ kMaxU16Count)
    (opened : (decryptDeliver cipher fromId sealed).run client = ⟨client, [], .ok (some plain)⟩) :
    ((receiveNext cipher (some (makeFrame .deliver (writeU32Be fromId ++ stringBytes sealed)))).run
      client).output = [.display (.delivered fromId plain)] := by
  have decoded : decodePayload (writeU32Be fromId ++ stringBytes sealed) .deliver =
      .ok (.deliver fromId sealed) := decodeDeliverPayload_bytes short fromId
  simp only [receiveNext, catching, Action.run_tryCatch, Action.run_bind, Action.run_lift, receive,
    decodeAppMessage_frame, decoded, ok_bind, except_pure, Outcome.andThen_ok, Outcome.before_nil,
    handleIncoming, opened, display, Action.run_emit, Outcome.orElse_ok]

variable (ideal : cipher.Ideal) (wellFormed : client.keyStore.WellFormed cipher) {nonce : Bytes}
  (nonceSize : nonce.length = kNonceSize)
include ideal wellFormed nonceSize

theorem decryptDeliver_fromPeer {theirs : Bytes}
    (known : client.keyStore.peerPublic fromId = some (cipher.x25519PublicKey theirs)) :
    (decryptDeliver cipher fromId (aeadEncrypt cipher
      (cipher.x25519 theirs client.keyStore.identityPublic) nonce plain)).run client =
        ⟨client, [], .ok (some plain)⟩ := by
  have opens :=
    @decryptFromPeer_agreed cipher ideal nonce theirs _ nonceSize wellFormed.secretSize plain
  rw [← wellFormed.pair] at opens
  simp only [decryptDeliver, Action.run_bind, Action.run_get, Outcome.andThen_ok,
    Outcome.before_nil, attemptWith, known, opens, attempt_ok, Action.run_pure]

theorem decryptDeliver_withRoomKey {roomKey : Bytes}
    (held : client.keyStore.roomKey = some roomKey) :
    (decryptDeliver cipher fromId (aeadEncrypt cipher roomKey nonce plain)).run client =
      ⟨client, [], .ok (some plain)⟩ := by
  have opens :
      decryptWithRoomKey cipher roomKey (aeadEncrypt cipher roomKey nonce plain) = .ok plain := by
    simp only [decryptWithRoomKey, requireSize_ok (wellFormed.roomSize roomKey held), ok_bind,
      aeadDecrypt_same ideal nonceSize]
  simp only [decryptDeliver, Action.run_bind, Action.run_get, Outcome.andThen_ok,
    Outcome.before_nil, held]
  cases known : client.keyStore.peerPublic fromId with
  | none =>
    simp only [attemptWith, Action.run_pure, Outcome.andThen_ok, Outcome.before_nil,
      Action.run_bind, opens, attempt_ok]
  | some peerPk =>
    have peerSize := wellFormed.peerSize peerPk (PeerKeyStore.mem_peers_values.mpr ⟨fromId, known⟩)
    have tried : decryptFromPeer cipher client.keyStore.identitySecret peerPk
        (aeadEncrypt cipher roomKey nonce plain) = aeadDecrypt cipher
          (cipher.x25519 client.keyStore.identitySecret peerPk)
          (aeadEncrypt cipher roomKey nonce plain) := by
      rw [decryptFromPeer, sharedSecret_ok wellFormed.secretSize peerSize, ok_bind]
    simp only [attemptWith, tried]
    -- the key shared with the sender does not open the text, unless to what it is
    obtain same | refused := aeadDecrypt_other ideal nonceSize roomKey
      (cipher.x25519 client.keyStore.identitySecret peerPk) plain
    · simp only [same, attempt_ok, Outcome.andThen_ok, Outcome.before_nil, Action.run_pure]
    · simp only [refused, attempt_error, Failure.what?, Outcome.andThen_ok, Outcome.before_nil,
        Action.run_bind, opens, attempt_ok, Action.run_pure]

end Receiving

end ModbusChat.Client
