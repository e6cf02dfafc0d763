import ModbusChat.Wire.Protocol

set_option autoImplicit false

namespace ModbusChat.Wire

open BigEndian Effects

def Brief (failure : Failure) : Prop := ∀ what ∈ failure.what?, (ascii what).length ≤ 64

def FailsBriefly {α : Type} (result : Except Failure α) : Prop :=
  ∀ failure, result = .error failure → Brief failure

section Combinators

variable {α β : Type}

theorem failsBriefly_ok (value : α) : FailsBriefly (.ok value) := by
  intro failure failed
  cases failed

theorem failsBriefly_throw (what : String) (short : (ascii what).length ≤ 64) :
    FailsBriefly (throw (.runtimeError what) : Except Failure α) := by
  rintro failure ⟨⟩ _ ⟨⟩
  exact short

theorem FailsBriefly.bind {first : Except Failure α} {next : α → Except Failure β}
    (brief : FailsBriefly first) (rest : ∀ value, FailsBriefly (next value)) :
    FailsBriefly (first >>= next) := by
  cases first with
  | error failure =>
    rintro _ ⟨⟩
    exact brief failure rfl
  | ok value => exact rest value

theorem FailsBriefly.ite {condition : Prop} [Decidable condition] {yes no : Except Failure α}
    (first : FailsBriefly yes) (second : FailsBriefly no) :
    FailsBriefly (if condition then yes else no) := by
  split
  · exact first
  · exact second

theorem failsBriefly_inBounds (value : Option α) : FailsBriefly (inBounds value) := by
  rintro failure failed what text
  cases value with
  | none => cases failed; cases text
  | some _ => cases failed

end Combinators

theorem failsBriefly_outOfBounds {α : Type} :
    FailsBriefly (.error .outOfBounds : Except Failure α) := by
  rintro failure ⟨⟩ what ⟨⟩

theorem slice_brief (buffer : Bytes) (first last : Nat) : FailsBriefly (slice buffer first last) :=
  (failsBriefly_ok _).ite failsBriefly_outOfBounds

theorem suffix_brief (data : Bytes) (offset : Nat) : FailsBriefly (suffix data offset) :=
  (failsBriefly_ok _).ite failsBriefly_outOfBounds

theorem decodeString_brief (data : Bytes) : FailsBriefly (decodeString data) :=
  (failsBriefly_throw _ (by decide)).ite <| (failsBriefly_inBounds _).bind fun _ =>
    (failsBriefly_throw _ (by decide)).ite (slice_brief _ _ _)

theorem encodeString_brief (value : Bytes) : FailsBriefly (encodeString value) :=
  (failsBriefly_throw _ (by decide)).ite (failsBriefly_ok _)

theorem decodeUserInfo_brief (data : Bytes) (offset : Nat) :
    FailsBriefly (decodeUserInfo data offset) :=
  (failsBriefly_throw _ (by decide)).ite <| (suffix_brief _ _).bind fun _ =>
    (failsBriefly_inBounds _).bind fun _ => (suffix_brief _ _).bind fun _ =>
      (decodeString_brief _).bind fun _ => failsBriefly_ok _

theorem decodeRecipient_brief (payload : Bytes) (tag : UInt8) (offset : Nat) :
    FailsBriefly (decodeRecipient payload tag offset) :=
  .ite (.ite (failsBriefly_throw _ (by decide))
    ((slice_brief _ _ _).bind fun _ => failsBriefly_ok _)) <|
    .ite ((suffix_brief _ _).bind fun _ => (decodeString_brief _).bind fun _ =>
      (encodeString_brief _).bind fun _ => failsBriefly_ok _) <|
    .ite (failsBriefly_ok _) (failsBriefly_throw _ (by decide))

theorem decodeChatPayload_brief (payload : Bytes) : FailsBriefly (decodeChatPayload payload) :=
  (failsBriefly_throw _ (by decide)).ite <| (failsBriefly_inBounds _).bind fun _ =>
    (failsBriefly_inBounds _).bind fun _ => (decodeRecipient_brief _ _ _).bind fun _ =>
      (suffix_brief _ _).bind fun _ => (decodeString_brief _).bind fun _ => failsBriefly_ok _

theorem decodeDeliverPayload_brief (payload : Bytes) :
    FailsBriefly (decodeDeliverPayload payload) :=
  (failsBriefly_throw _ (by decide)).ite <| (failsBriefly_inBounds _).bind fun _ =>
    (suffix_brief _ _).bind fun _ => (decodeString_brief _).bind fun _ => failsBriefly_ok _

theorem decodeAssignId_brief (payload : Bytes) : FailsBriefly (decodeAssignId payload) :=
  (failsBriefly_throw _ (by decide)).ite <| (failsBriefly_inBounds _).bind fun _ =>
    .ite ((failsBriefly_inBounds _).bind fun _ => failsBriefly_ok _) (failsBriefly_ok _)

theorem decodeUsers_brief (payload : Bytes) (count offset : Nat) :
    FailsBriefly (decodeUsers payload count offset) := by
  induction count generalizing offset with
  | zero => exact failsBriefly_ok _
  | succ count ih =>
    exact (decodeUserInfo_brief _ _).bind fun _ => (ih _).bind fun _ => failsBriefly_ok _

theorem decodeUsersList_brief (payload : Bytes) : FailsBriefly (decodeUsersList payload) :=
  (failsBriefly_throw _ (by decide)).ite <| (failsBriefly_inBounds _).bind fun _ =>
    (decodeUsers_brief _ _ _).bind fun _ => failsBriefly_ok _

theorem decodeIds_brief (payload : Bytes) (count offset : Nat) :
    FailsBriefly (decodeIds payload count offset) := by
  induction count generalizing offset with
  | zero => exact failsBriefly_ok _
  | succ count ih =>
    exact (suffix_brief _ _).bind fun _ => (failsBriefly_inBounds _).bind fun _ =>
      (ih _).bind fun _ => failsBriefly_ok _

theorem decodeBannedIds_brief (payload : Bytes) : FailsBriefly (decodeBannedIds payload) :=
  (failsBriefly_throw _ (by decide)).ite <| (failsBriefly_inBounds _).bind fun _ =>
    (failsBriefly_throw _ (by decide)).ite <| (decodeIds_brief _ _ _).bind fun _ =>
      failsBriefly_ok _

theorem decodePayload_brief (payload : Bytes) (type : MsgType) :
    FailsBriefly (decodePayload payload type) := by
  cases type
  case register | error => exact (decodeString_brief _).bind fun _ => failsBriefly_ok _
  case assignId => exact decodeAssignId_brief _
  case chat | keyOffer | roomKeyOffer =>
    exact (decodeChatPayload_brief _).bind fun _ => failsBriefly_ok _
  case deliver | peerKey | roomKey => exact decodeDeliverPayload_brief _
  case userJoined | userLeft => exact (decodeUserInfo_brief _ _).bind fun _ => failsBriefly_ok _
  case listUsers => exact failsBriefly_ok _
  case usersList => exact decodeUsersList_brief _
  case bannedIds => exact decodeBannedIds_brief _

theorem decodeAppMessage_brief (frame : Frame) : FailsBriefly (decodeAppMessage frame) := by
  refine (failsBriefly_throw _ (by decide)).ite <| (failsBriefly_inBounds _).bind fun _ =>
    (failsBriefly_throw _ (by decide)).ite <| (failsBriefly_inBounds _).bind fun byte => ?_
  cases MsgType.ofUInt8 byte with
  | none => exact failsBriefly_throw _ (by decide)
  | some type =>
    exact (suffix_brief _ _).bind fun _ => (decodePayload_brief _ _).bind fun _ => failsBriefly_ok _

end ModbusChat.Wire
