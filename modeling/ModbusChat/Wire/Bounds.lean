import ModbusChat.Wire.Accepted
import ModbusChat.Wire.Framing

set_option autoImplicit false

namespace ModbusChat.Wire

open BigEndian Effects

def Bounded {α : Type} (result : Except Failure α) : Prop := result ≠ .error .outOfBounds

section Combinators

variable {α β : Type}

theorem bounded_ok (value : α) : Bounded (.ok value) := by
  rintro ⟨⟩

theorem bounded_throw (what : String) :
    Bounded (throw (.runtimeError what) : Except Failure α) := by
  rintro ⟨⟩

theorem Bounded.bind {first : Except Failure α} {next : α → Except Failure β}
    (bounded : Bounded first) (rest : ∀ value, first = .ok value → Bounded (next value)) :
    Bounded (first >>= next) := by
  cases first with
  | error failure =>
    rintro ⟨⟩
    exact bounded rfl
  | ok value => exact rest value rfl

theorem Bounded.ite {condition : Prop} [Decidable condition] {yes no : Except Failure α}
    (first : condition → Bounded yes) (second : ¬ condition → Bounded no) :
    Bounded (if condition then yes else no) := by
  split
  · exact first ‹_›
  · exact second ‹_›

theorem bounded_inBounds {value : Option α} (present : value.isSome) :
    Bounded (inBounds value) := by
  obtain ⟨value, rfl⟩ := Option.isSome_iff_exists.mp present
  exact bounded_ok value

end Combinators

theorem readU16Be_isSome {data : Bytes} (enough : kUint16Size ≤ data.length) :
    (readU16Be data).isSome := by
  match data, enough with
  | _ :: _ :: _, _ => rfl

theorem readU32Be_isSome {data : Bytes} (enough : kUint32Size ≤ data.length) :
    (readU32Be data).isSome := by
  match data, enough with
  | _ :: _ :: _ :: _ :: _, _ => rfl

theorem getElem?_isSome {data : Bytes} {index : Nat} (inside : index < data.length) :
    data[index]?.isSome := by
  simpa using inside

theorem slice_bounded {buffer : Bytes} {first last : Nat} (ordered : first ≤ last)
    (inside : last ≤ buffer.length) : Bounded (slice buffer first last) := by
  rw [slice, if_pos ⟨ordered, inside⟩]
  exact bounded_ok _

theorem suffix_bounded {data : Bytes} {offset : Nat} (inside : offset ≤ data.length) :
    Bounded (suffix data offset) := by
  rw [suffix, if_pos inside]
  exact bounded_ok _

theorem decode_whole {header body : Bytes} {length : UInt16}
    (headerSize : header.length = kMbapHeaderSize)
    (field : readU16Be (header.drop kMbapLengthFieldOffset) = some length) (nonzero : length ≠ 0)
    (bodySize : body.length = length.toNat) :
    ∃ frame : Frame, frame.pdu = body.tail ∧
      decode (header ++ body) = .ok (some (frame, (header ++ body).length)) := by
  match header, headerSize with
  | [a, b, c, d, e, f], _ =>
    match body, bodySize with
    | [], empty => exact absurd (UInt16.toNat_inj.mp empty.symm) nonzero
    | unitId :: pdu, size =>
      have announced : ((e.toUInt16 <<< 8) ||| f.toUInt16).toNat = pdu.length + 1 := by
        rw [Option.some.inj
          (show some ((e.toUInt16 <<< 8) ||| f.toUInt16) = some length from field),
          ← size, List.length_cons]
      have read := decode_front a b c d e f unitId announced []
      rw [List.append_nil] at read
      refine ⟨{ transactionId := (a.toUInt16 <<< 8) ||| b.toUInt16, unitId, pdu }, rfl,
        read.trans ?_⟩
      simp only [kMbapUnitHeaderSize, List.cons_append, List.nil_append, List.length_cons]
      rw [Nat.add_comm]

theorem decodeString_bounded (data : Bytes) : Bounded (decodeString data) := by
  refine .ite (fun _ => bounded_throw _) fun enough => ?_
  refine (bounded_inBounds (readU16Be_isSome (by omega))).bind fun size _ => ?_
  exact .ite (fun _ => bounded_throw _) fun whole => slice_bounded (by omega) (by omega)

theorem encodeString_bounded (value : Bytes) : Bounded (encodeString value) :=
  .ite (fun _ => bounded_throw _) fun _ => bounded_ok _

theorem decodeUserInfo_bounded (data : Bytes) (offset : Nat) :
    Bounded (decodeUserInfo data offset) := by
  refine .ite (fun _ => bounded_throw _) fun enough => ?_
  refine (suffix_bounded (by omega)).bind fun rest read => ?_
  have size := (suffix_ok read).2
  refine (bounded_inBounds (readU32Be_isSome (by omega))).bind fun id _ => ?_
  refine (suffix_bounded (by omega)).bind fun text _ => ?_
  exact (decodeString_bounded text).bind fun _ _ => bounded_ok _

theorem decodeRecipient_bounded {payload : Bytes} (tag : UInt8) {offset : Nat}
    (inside : offset ≤ payload.length) : Bounded (decodeRecipient payload tag offset) := by
  refine .ite (fun _ => ?_) fun _ => .ite (fun _ => ?_) fun _ =>
    .ite (fun _ => bounded_ok _) fun _ => bounded_throw _
  · exact .ite (fun _ => bounded_throw _) fun enough =>
      (slice_bounded (by omega) (by omega)).bind fun _ _ => bounded_ok _
  · exact (suffix_bounded inside).bind fun _ _ => (decodeString_bounded _).bind fun _ _ =>
      (encodeString_bounded _).bind fun _ _ => bounded_ok _

theorem decodeRecipient_inside {payload data : Bytes} {tag : UInt8} {offset after : Nat}
    (inside : offset ≤ payload.length)
    (decoded : decodeRecipient payload tag offset = .ok (data, after)) :
    after ≤ payload.length := by
  have size := List.length_take_of_le inside
  rw [← List.take_append_drop offset payload] at decoded
  nth_rewrite 3 [← size] at decoded
  obtain ⟨rfl, -, rest, split⟩ := decodeRecipient_iff.mp decoded
  have := congrArg List.length split
  rw [List.length_drop, List.length_append] at this
  omega

theorem decodeChatPayload_bounded (payload : Bytes) : Bounded (decodeChatPayload payload) := by
  refine .ite (fun _ => bounded_throw _) fun enough => ?_
  have header : kChatHeaderSize = kUint32Size + 1 := rfl
  refine (bounded_inBounds (readU32Be_isSome (by omega))).bind fun _ _ => ?_
  refine (bounded_inBounds (getElem?_isSome (by omega))).bind fun tag _ => ?_
  refine (decodeRecipient_bounded tag (by omega)).bind fun read recipientRead => ?_
  have inside := decodeRecipient_inside (by omega) recipientRead
  exact (suffix_bounded inside).bind fun _ _ => (decodeString_bounded _).bind fun _ _ =>
    bounded_ok _

theorem decodeDeliverPayload_bounded (payload : Bytes) :
    Bounded (decodeDeliverPayload payload) := by
  refine .ite (fun _ => bounded_throw _) fun enough => ?_
  refine (bounded_inBounds (readU32Be_isSome (by omega))).bind fun _ _ => ?_
  exact (suffix_bounded (by omega)).bind fun _ _ => (decodeString_bounded _).bind fun _ _ =>
    bounded_ok _

theorem decodeAssignId_bounded (payload : Bytes) : Bounded (decodeAssignId payload) := by
  refine .ite (fun _ => bounded_throw _) fun enough => ?_
  refine (bounded_inBounds (readU32Be_isSome (by omega))).bind fun _ _ => ?_
  refine .ite (fun flagged => ?_) fun _ => bounded_ok _
  exact (bounded_inBounds (getElem?_isSome flagged)).bind fun _ _ => bounded_ok _

theorem decodeUsers_bounded (payload : Bytes) (count offset : Nat) :
    Bounded (decodeUsers payload count offset) := by
  induction count generalizing offset with
  | zero => exact bounded_ok _
  | succ count ih =>
    exact (decodeUserInfo_bounded payload offset).bind fun read _ =>
      (ih read.2).bind fun _ _ => bounded_ok _

theorem decodeUsersList_bounded (payload : Bytes) : Bounded (decodeUsersList payload) := by
  refine .ite (fun _ => bounded_throw _) fun enough => ?_
  refine (bounded_inBounds (readU16Be_isSome (by omega))).bind fun count _ => ?_
  exact (decodeUsers_bounded payload _ _).bind fun _ _ => bounded_ok _

theorem decodeIds_bounded {payload : Bytes} {count offset : Nat}
    (enough : offset + count * kUint32Size ≤ payload.length) :
    Bounded (decodeIds payload count offset) := by
  induction count generalizing offset with
  | zero => exact bounded_ok _
  | succ count ih =>
    rw [Nat.succ_mul] at enough
    refine (suffix_bounded (by omega)).bind fun rest read => ?_
    have size := (suffix_ok read).2
    refine (bounded_inBounds (readU32Be_isSome (by omega))).bind fun _ _ => ?_
    exact (ih (by omega)).bind fun _ _ => bounded_ok _

theorem decodeBannedIds_bounded (payload : Bytes) : Bounded (decodeBannedIds payload) := by
  refine .ite (fun _ => bounded_throw _) fun enough => ?_
  refine (bounded_inBounds (readU16Be_isSome (by omega))).bind fun count _ => ?_
  refine .ite (fun _ => bounded_throw _) fun whole => ?_
  exact (decodeIds_bounded (by omega)).bind fun _ _ => bounded_ok _

theorem decodePayload_bounded (payload : Bytes) (type : MsgType) :
    Bounded (decodePayload payload type) := by
  cases type
  case register | error => exact (decodeString_bounded _).bind fun _ _ => bounded_ok _
  case assignId => exact decodeAssignId_bounded _
  case chat | keyOffer | roomKeyOffer =>
    exact (decodeChatPayload_bounded _).bind fun _ _ => bounded_ok _
  case deliver | peerKey | roomKey => exact decodeDeliverPayload_bounded _
  case userJoined | userLeft => exact (decodeUserInfo_bounded _ _).bind fun _ _ => bounded_ok _
  case listUsers => exact bounded_ok _
  case usersList => exact decodeUsersList_bounded _
  case bannedIds => exact decodeBannedIds_bounded _

theorem decodeAppMessage_bounded (frame : Frame) : Bounded (decodeAppMessage frame) := by
  refine .ite (fun _ => bounded_throw _) fun enough => ?_
  have header : kPduAppHeaderSize = 2 := rfl
  refine (bounded_inBounds (getElem?_isSome (by omega))).bind fun _ _ => ?_
  refine .ite (fun _ => bounded_throw _) fun _ => ?_
  refine (bounded_inBounds (getElem?_isSome (by omega))).bind fun byte _ => ?_
  cases MsgType.ofUInt8 byte with
  | none => exact bounded_throw _
  | some type =>
    exact (suffix_bounded (by omega)).bind fun _ _ =>
      (decodePayload_bounded _ _).bind fun _ _ => bounded_ok _

theorem readExact_length {size : Nat} {arrivals rest : List Arrival} {bytes : Bytes}
    (read : readExact size arrivals = .done bytes rest) : bytes.length = size := by
  fun_induction readExact size arrivals generalizing bytes rest with
  | case1 =>
    cases read
    rfl
  | case4 size chunk later nonempty fits more final done ih =>
    cases read
    rw [List.length_append, ih done]
    omega
  | case7 size chunk later nonempty long =>
    cases read
    rw [List.length_take]
    omega
  | _ => simp_all

-- `read_frame` turns an empty length away before `decode` can slice by it.
theorem readFrame_bounded (arrivals : List Arrival) : Bounded (readFrame arrivals) := by
  unfold readFrame
  split
  · exact bounded_ok _
  · exact bounded_ok _
  · rename_i header rest headerRead
    have headerSize := readExact_length headerRead
    have present : (readU16Be (header.drop kMbapLengthFieldOffset)).isSome := by
      apply readU16Be_isSome
      rw [List.length_drop, headerSize]
      decide
    refine (bounded_inBounds present).bind fun length field =>
      .ite (fun _ => bounded_ok _) fun nonzero => ?_
    split
    · exact bounded_ok _
    · exact bounded_ok _
    · rename_i body after bodyRead
      have announced : readU16Be (header.drop kMbapLengthFieldOffset) = some length := by
        obtain ⟨value, read⟩ := Option.isSome_iff_exists.mp present
        rw [read] at field ⊢
        exact congrArg some (Except.ok.inj field)
      obtain ⟨frame, -, decoded⟩ :=
        decode_whole headerSize announced nonzero (readExact_length bodyRead)
      rw [decoded]
      exact .ite (fun _ => bounded_ok _) fun _ => bounded_ok _

end ModbusChat.Wire
