import ModbusChat.Wire.Accepted

set_option autoImplicit false

namespace ModbusChat.Wire

open BigEndian Effects

class RecipientTraits (ρ : Type) where
  tag : UInt8
  serialize : ρ → Except Failure Bytes
  deserialize : Bytes → Except Failure ρ
  -- How far `Message::deserialize` moves past the recipient at the front of these bytes.
  width : Bytes → Except Failure Nat

instance idRecipient : RecipientTraits UInt32 where
  tag := kRecipientById
  serialize value := return writeU32Be value
  deserialize data :=
    if data.length < kUint32Size then throw (.runtimeError "Invalid id recipient payload")
    else inBounds (readU32Be data)
  width _ := return kUint32Size

instance nicknameRecipient : RecipientTraits Bytes where
  tag := kRecipientByNickname
  serialize value := encodeString value
  deserialize data := decodeString data
  -- The length is read from the raw bytes again, not taken from the decoded nickname.
  width data := do
    let strLen ← inBounds (readU16Be data)
    return kUint16Size + strLen.toNat

structure Message (ρ : Type) where
  recipient : ρ
  payload : Bytes
  fromId : UInt32 := 0
  deriving DecidableEq, Repr

section Layout

variable {ρ : Type} [RecipientTraits ρ]

def Message.serialize (message : Message ρ) : Except Failure Bytes := do
  let recipientBytes ← RecipientTraits.serialize message.recipient
  let payloadBytes ← encodeString message.payload
  return RecipientTraits.tag ρ :: (recipientBytes ++ payloadBytes)

def Message.deserialize (data : Bytes) : Except Failure (Message ρ) :=
  if data.length < 1 then throw (.runtimeError "Empty message payload")
  else do
    if (← inBounds data[0]?) ≠ RecipientTraits.tag ρ then
      throw (.runtimeError "Recipient tag mismatch")
    else
      let recipient ← RecipientTraits.deserialize (← suffix data 1)
      let width ← RecipientTraits.width ρ (← suffix data 1)
      let payload ← decodeString (← suffix data (1 + width))
      return { recipient, payload }

class LawfulRecipient (ρ : Type) [RecipientTraits ρ] : Prop where
  addresses (data : Bytes) :
    (∃ recipient : Recipient, RecipientTraits.tag ρ = recipient.tag ∧ recipient.data = .ok data) ↔
      ∃ recipient : ρ, RecipientTraits.serialize recipient = .ok data
  reads (data : Bytes) (recipient : ρ) (width : Nat) :
    RecipientTraits.deserialize data = .ok recipient ∧ RecipientTraits.width ρ data = .ok width ↔
      ∃ written rest, RecipientTraits.serialize recipient = .ok written ∧
        width = written.length ∧ data = written ++ rest

instance lawfulId : LawfulRecipient UInt32 where
  addresses data := by
    constructor
    · rintro ⟨recipient, tag, written⟩
      cases recipient with
      | byId id => exact ⟨id, written⟩
      | byNickname nickname =>
        exact absurd tag (show kRecipientById ≠ kRecipientByNickname by decide)
      | broadcast => exact absurd tag (by decide)
    · rintro ⟨id, written⟩
      exact ⟨.byId id, rfl, written⟩
  reads data id width := by
    constructor
    · rintro ⟨read, wide⟩
      simp only [RecipientTraits.deserialize] at read
      split_ifs at read with short
      obtain ⟨rest, rfl⟩ := readU32Be_eq_some.mp (inBounds_eq_ok.mp read)
      exact ⟨writeU32Be id, rest, rfl, (Except.ok.inj wide).symm, rfl⟩
    · rintro ⟨written, rest, serialized, rfl, rfl⟩
      obtain rfl := Except.ok.inj serialized
      have enough : ¬ (writeU32Be id ++ rest).length < kUint32Size := by simp [kUint32Size]
      simp only [RecipientTraits.deserialize, enough, if_false, readU32Be_write, inBounds_some,
        true_and]
      rfl

instance lawfulNickname : LawfulRecipient Bytes where
  addresses data := by
    constructor
    · rintro ⟨recipient, tag, written⟩
      cases recipient with
      | byId id => exact absurd tag (show kRecipientByNickname ≠ kRecipientById by decide)
      | byNickname nickname => exact ⟨nickname, written⟩
      | broadcast => exact absurd tag (by decide)
    · rintro ⟨nickname, written⟩
      exact ⟨.byNickname nickname, rfl, written⟩
  reads data nickname width := by
    constructor
    · rintro ⟨read, wide⟩
      obtain ⟨short, rest, rfl⟩ := decodeString_iff.mp read
      refine ⟨stringBytes nickname, rest, encodeString_eq_ok.mpr ⟨short, rfl⟩, ?_, rfl⟩
      -- The raw length field of an accepted nickname is its length.
      simp only [RecipientTraits.width, stringBytes, List.append_assoc, readU16Be_write,
        inBounds_some, ok_bind, except_pure, ofNat_toNat_of_le short] at wide
      rw [← Except.ok.inj wide, stringBytes_length, kUint16Size]
    · rintro ⟨written, rest, serialized, rfl, rfl⟩
      obtain ⟨short, rfl⟩ := encodeString_eq_ok.mp serialized
      refine ⟨decodeString_stringBytes short rest, ?_⟩
      simp only [RecipientTraits.width, stringBytes, List.append_assoc, readU16Be_write,
        inBounds_some, ok_bind, except_pure, ofNat_toNat_of_le short]
      simp [kUint16Size]

theorem suffix_tag (tag : UInt8) (data : Bytes) : suffix (tag :: data) 1 = .ok data :=
  suffix_append [tag] data

theorem suffix_recipient (tag : UInt8) (written tail : Bytes) :
    suffix (tag :: (written ++ tail)) (1 + written.length) = .ok tail := by
  rw [← List.cons_append]
  exact suffix_append_of_eq (by simp [Nat.add_comm])

variable [LawfulRecipient ρ]

theorem Message.deserialize_iff {data : Bytes} {message : Message ρ} :
    Message.deserialize data = .ok message ↔
      message.fromId = 0 ∧ message.payload.length ≤ kMaxU16Count ∧
        ∃ written rest, RecipientTraits.serialize message.recipient = .ok written ∧
          data = RecipientTraits.tag ρ :: (written ++ (stringBytes message.payload ++ rest)) := by
  constructor
  · intro read
    unfold Message.deserialize at read
    split_ifs at read with empty
    obtain ⟨tag, tagRead, read⟩ := bind_eq_ok.mp read
    split_ifs at read with mismatch
    obtain rfl := not_not.mp mismatch
    cases data with
    | nil => simp at empty
    | cons byte data =>
      obtain rfl : byte = RecipientTraits.tag ρ := Option.some.inj (inBounds_eq_ok.mp tagRead)
      simp only [suffix_tag, ok_bind] at read
      obtain ⟨recipient, recipientRead, read⟩ := bind_eq_ok.mp read
      obtain ⟨width, widthRead, read⟩ := bind_eq_ok.mp read
      obtain ⟨written, tail, serialized, rfl, rfl⟩ :=
        (LawfulRecipient.reads data recipient width).mp ⟨recipientRead, widthRead⟩
      rw [suffix_recipient, ok_bind] at read
      obtain ⟨payload, payloadRead, read⟩ := bind_eq_ok.mp read
      obtain rfl := Except.ok.inj read
      obtain ⟨short, rest, rfl⟩ := decodeString_iff.mp payloadRead
      exact ⟨rfl, short, written, rest, serialized, rfl⟩
  · obtain ⟨recipient, payload, fromId⟩ := message
    rintro ⟨rfl, short, written, rest, serialized, rfl⟩
    obtain ⟨recipientRead, widthRead⟩ := (LawfulRecipient.reads _ recipient _).mpr
      ⟨written, stringBytes payload ++ rest, serialized, rfl, rfl⟩
    have enough : ¬ (RecipientTraits.tag ρ ::
        (written ++ (stringBytes payload ++ rest))).length < 1 := by simp
    simp only [Message.deserialize, enough, if_false, List.getElem?_cons_zero, inBounds_some,
      ok_bind, ne_eq, not_true_eq_false, suffix_tag, recipientRead, widthRead, suffix_recipient,
      decodeString_stringBytes short, except_pure]

theorem decodeChatPayload_of_deserialize {data : Bytes} {message : Message ρ} (fromId : UInt32)
    (read : Message.deserialize data = .ok message) :
    ∃ written, RecipientTraits.serialize message.recipient = .ok written ∧
      decodeChatPayload (writeU32Be fromId ++ data) =
        .ok { fromId, recipientTag := RecipientTraits.tag ρ, recipientData := written,
              text := message.payload } := by
  obtain ⟨-, short, written, rest, serialized, rfl⟩ := Message.deserialize_iff.mp read
  have addressed := (LawfulRecipient.addresses written).mpr ⟨message.recipient, serialized⟩
  exact ⟨written, serialized, decodeChatPayload_iff.mpr ⟨addressed, short, rest, rfl⟩⟩

theorem deserialize_of_decodeChatPayload {fromId : UInt32} {data : Bytes} {chat : ChatPayload}
    (decoded : decodeChatPayload (writeU32Be fromId ++ data) = .ok chat)
    (tag : chat.recipientTag = RecipientTraits.tag ρ) :
    ∃ message : Message ρ, Message.deserialize data = .ok message := by
  obtain ⟨addressed, short, rest, bytes⟩ := decodeChatPayload_iff.mp decoded
  -- both senders take four bytes, so what follows them is the same
  obtain ⟨-, rfl⟩ := List.append_inj bytes (by simp)
  obtain ⟨recipient, serialized⟩ :=
    (LawfulRecipient.addresses chat.recipientData).mp (tag ▸ addressed)
  refine ⟨{ recipient, payload := chat.text }, ?_⟩
  exact Message.deserialize_iff.mpr ⟨rfl, short, chat.recipientData, rest, serialized, by rw [tag]⟩

/-- One decoder takes a chat to this kind of recipient exactly when the other does. -/
def LayoutsAgree (ρ : Type) [RecipientTraits ρ] : Prop :=
  ∀ front data : Bytes, front.length = kUint32Size →
    ((∃ chat, decodeChatPayload (front ++ data) = .ok chat ∧
        chat.recipientTag = RecipientTraits.tag ρ) ↔
      ∃ message : Message ρ, Message.deserialize data = .ok message) ∧
    ∀ chat, ∀ message : Message ρ, decodeChatPayload (front ++ data) = .ok chat →
      Message.deserialize data = .ok message →
        RecipientTraits.serialize message.recipient = .ok chat.recipientData ∧
          RecipientTraits.deserialize chat.recipientData = .ok message.recipient ∧
          message.payload = chat.text

theorem layoutsAgree : LayoutsAgree ρ := by
  intro front data size
  obtain ⟨fromId, rfl⟩ := exists_writeU32Be size
  refine ⟨⟨?_, ?_⟩, ?_⟩
  · rintro ⟨chat, decoded, tag⟩
    exact deserialize_of_decodeChatPayload decoded tag
  · rintro ⟨message, read⟩
    obtain ⟨written, -, decoded⟩ := decodeChatPayload_of_deserialize fromId read
    exact ⟨_, decoded, rfl⟩
  · intro chat message decoded read
    obtain ⟨written, serialized, same⟩ := decodeChatPayload_of_deserialize fromId read
    obtain rfl := Except.ok.inj (same.symm.trans decoded)
    have readBack := (LawfulRecipient.reads written message.recipient written.length).mpr
      ⟨written, [], serialized, rfl, (List.append_nil written).symm⟩
    exact ⟨serialized, readBack.1, rfl⟩

end Layout

theorem buildChatById_serialize (fromId id : UInt32) (text : Bytes) :
    buildChatById fromId id text =
      (writeU32Be fromId ++ ·) <$> Message.serialize
        { recipient := id, payload := text, fromId } := by
  simp only [buildChatById, buildChatLike, encodeChat, Message.serialize, RecipientTraits.serialize]
  cases encodeString text <;> rfl

theorem buildChatByNickname_serialize (fromId : UInt32) (nickname text : Bytes) :
    buildChatByNickname fromId nickname text =
      (writeU32Be fromId ++ ·) <$>
        Message.serialize { recipient := nickname, payload := text, fromId } := by
  simp only [buildChatByNickname, buildChatLike, encodeChat, Message.serialize,
    RecipientTraits.serialize]
  cases encodeString nickname <;> cases encodeString text <;> rfl

theorem chat_layouts_agree :
    (∀ fromId id text, buildChatById fromId id text =
      (writeU32Be fromId ++ ·) <$> Message.serialize { recipient := id, payload := text, fromId }) ∧
    (∀ fromId nickname text, buildChatByNickname fromId nickname text =
      (writeU32Be fromId ++ ·) <$>
        Message.serialize { recipient := nickname, payload := text, fromId }) ∧
    LayoutsAgree UInt32 ∧ LayoutsAgree Bytes :=
  ⟨buildChatById_serialize, buildChatByNickname_serialize, layoutsAgree, layoutsAgree⟩

theorem chat_layouts_agree_trailing :
    ∃ chat, decodeChatPayload ([0, 0, 0, 9] ++ [1, 0, 0, 0, 5, 0, 2, 104, 105, 33]) = .ok chat ∧
      chat.recipientTag = kRecipientById := by
  have read :
      (Message.deserialize [1, 0, 0, 0, 5, 0, 2, 104, 105, 33] : Except Failure (Message UInt32)) =
      .ok { recipient := 5, payload := ascii "hi" } := by decide
  exact (chat_layouts_agree.2.2.1 [0, 0, 0, 9] _ rfl).1.mpr ⟨_, read⟩

end ModbusChat.Wire
