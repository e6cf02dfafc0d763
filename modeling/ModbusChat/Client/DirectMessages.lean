import ModbusChat.Client.Confinement

set_option autoImplicit false

namespace ModbusChat.Client

open BigEndian Effects Wire

def EncryptedFor (cipher : Monocypher) (client : ClientViewModel) (recipientId : UInt32)
    (peerPublic plaintext : Bytes) (packet : Packet) : Prop :=
  packet.type = .chat ∧ ∃ nonce sealed,
    encryptForPeer cipher nonce client.keyStore.identitySecret peerPublic plaintext = .ok sealed ∧
    buildChatById client.myId recipientId sealed = .ok packet.payload

theorem decode_encodeChat {chat : ChatPayload} {recipient : Recipient} {bytes : Bytes}
    (tag : chat.recipientTag = recipient.tag) (data : recipient.data = .ok chat.recipientData)
    (built : encodeChat chat = .ok bytes) :
    decodeAppMessage (makeFrame .chat bytes) = .ok { type := .chat, payload := .chat chat } := by
  have decoded : decodePayload bytes .chat = .ok (.chat chat) :=
    decodePayload_encodePayload ⟨recipient, tag, data⟩ built
  simp only [decodeAppMessage_frame, decoded, ok_bind, except_pure]

theorem decode_buildChatById {fromId recipientId : UInt32} {text bytes : Bytes}
    (built : buildChatById fromId recipientId text = .ok bytes) :
    decodeAppMessage (Packet.mk .chat bytes).frame = .ok
      { type := .chat
        payload := .chat { fromId, recipientTag := kRecipientById,
                           recipientData := writeU32Be recipientId, text } } :=
  @decode_encodeChat _ (.byId recipientId) _ rfl rfl built

variable {cipher : Monocypher} {client : ClientViewModel} {packet : Packet}

theorem command_lasting (cipher : Monocypher) (command : InputCommand) (client : ClientViewModel) :
    Lasting client ((handleInputCommand cipher command).run client).state := by
  refine (@handleInputCommand_speaks cipher command client).path.relates chains_lasting ?_
  rintro _ _ _ ⟨deed, -, settled, does⟩
  exact does.lasting settled

-- A command leaves in place all that its messages depend on, so they are permitted before it as
-- well.
theorem command_permitted {command : InputCommand}
    (member : packet ∈ packets ((handleInputCommand cipher command).run client).output) :
    ∃ keyOfferedTo, Permitted cipher { client with keyOfferedTo } (.typed command) packet := by
  refine ⟨((handleInputCommand cipher command).run client).state.keyOfferedTo, ?_⟩
  refine (action_confined cipher (.typed command) client packet member).lasting ⟨?_, subset_rfl⟩
  exact (command_lasting cipher command client).standing.symm

theorem sendEncryptedChatById_encrypts {recipientId : UInt32} {peerPublic : Bytes}
    (bound : ∀ key ∈ client.keyStore.peerPublic recipientId, key = peerPublic) {plaintext : Bytes}
    (member : packet ∈
      packets ((sendEncryptedChatById cipher recipientId plaintext).run client).output) :
    EncryptedFor cipher client recipientId peerPublic plaintext packet := by
  obtain ⟨_, permitted⟩ :=
    @command_permitted cipher client packet (.chatById recipientId plaintext) member
  cases permitted with
  | direct spoken known size shut built =>
    rcases spoken with same | ⟨nickname, same, -⟩
    · cases same
      obtain rfl := bound _ known
      exact ⟨rfl, _, _, shut, built⟩
    · cases same
  | keyOffer cause => simp at cause

theorem sendEncryptedChatByNickname_addressed {nickname plaintext : Bytes}
    (member : packet ∈
      packets ((sendEncryptedChatByNickname cipher nickname plaintext).run client).output) :
    ∃ recipientId sealed, client.idByNickname.lookup nickname = some recipientId ∧
      packet.type = .chat ∧ buildChatById client.myId recipientId sealed = .ok packet.payload := by
  obtain ⟨_, permitted⟩ :=
    @command_permitted cipher client packet (.chatByNickname nickname plaintext) member
  cases permitted with
  | direct spoken known size shut built =>
    rcases spoken with same | ⟨nickname, same, looked⟩
    · cases same
    · cases same
      exact ⟨_, _, looked, rfl, built⟩
  | keyOffer cause => simp at cause

end ModbusChat.Client
