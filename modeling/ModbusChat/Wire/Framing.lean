import ModbusChat.Wire.ModbusTcp

set_option autoImplicit false

namespace ModbusChat.Wire

open BigEndian Effects

def clearProtocolId (bytes : Bytes) : Bytes :=
  bytes.take 2 ++ (writeU16Be kProtocolId ++ bytes.drop 4)

/-- What `decode` makes of a buffer when it behaves: nothing yet, or the frame at its front. -/
def Framed (buffer : Bytes) : Prop :=
  decode buffer = .ok none ∨
    ∃ frame consumed, decode buffer = .ok (some (frame, consumed)) ∧
      kMbapUnitHeaderSize ≤ consumed ∧ consumed ≤ buffer.length ∧
      slice buffer kMbapUnitHeaderSize consumed = .ok frame.pdu ∧
      (∀ more, decode (buffer ++ more) = .ok (some (frame, consumed))) ∧
      encode frame = clearProtocolId (buffer.take consumed)

-- A whole header whose length field leaves no room for the unit identifier it counts.
def EmptyLength (buffer : Bytes) : Prop :=
  kMbapUnitHeaderSize ≤ buffer.length ∧ readU16Be (buffer.drop kMbapLengthFieldOffset) = some 0

instance decidableEmptyLength (buffer : Bytes) : Decidable (EmptyLength buffer) :=
  inferInstanceAs (Decidable (_ ∧ _))

theorem decode_front (a b c d e f unitId : UInt8) {pdu : Bytes}
    (announced : ((e.toUInt16 <<< 8) ||| f.toUInt16).toNat = pdu.length + 1) (more : Bytes) :
    decode (a :: b :: c :: d :: e :: f :: unitId :: (pdu ++ more)) =
      .ok (some ({ transactionId := (a.toUInt16 <<< 8) ||| b.toUInt16, unitId, pdu },
        kMbapUnitHeaderSize + pdu.length)) := by
  set length := (e.toUInt16 <<< 8) ||| f.toUInt16 with field
  set buffer := a :: b :: c :: d :: e :: f :: unitId :: (pdu ++ more) with bytes
  have size : buffer.length = kMbapUnitHeaderSize + pdu.length + more.length := by
    simp only [bytes, List.length_cons, List.length_append, kMbapUnitHeaderSize]
    omega
  have total : kMbapHeaderSize + length.toNat = kMbapUnitHeaderSize + pdu.length := by
    rw [announced, kMbapHeaderSize, kMbapUnitHeaderSize]
    omega
  have lengthRead : readU16Be (buffer.drop kMbapLengthFieldOffset) = some length := rfl
  have transactionRead : readU16Be buffer = some ((a.toUInt16 <<< 8) ||| b.toUInt16) := rfl
  have unitRead : buffer[kMbapHeaderSize]? = some unitId := rfl
  have pduRead : slice buffer kMbapUnitHeaderSize (kMbapUnitHeaderSize + pdu.length) = .ok pdu := by
    rw [slice, if_pos ⟨by omega, by omega⟩, ← List.take_drop]
    exact congrArg Except.ok List.take_left
  have enough : ¬ buffer.length < kMbapUnitHeaderSize := by omega
  have whole : ¬ buffer.length < kMbapUnitHeaderSize + pdu.length := by omega
  simp only [decode, enough, if_false, lengthRead, inBounds_some, ok_bind, total, whole,
    transactionRead, unitRead, pduRead, except_pure]

theorem encode_front (a b c d e f unitId : UInt8) {pdu : Bytes}
    (announced : ((e.toUInt16 <<< 8) ||| f.toUInt16).toNat = pdu.length + 1) :
    encode { transactionId := (a.toUInt16 <<< 8) ||| b.toUInt16, unitId, pdu } =
      clearProtocolId (a :: b :: c :: d :: e :: f :: unitId :: pdu) := by
  have length : UInt16.ofNat (pdu.length + kUnitIdLengthContribution) =
      (e.toUInt16 <<< 8) ||| f.toUInt16 := by
    rw [kUnitIdLengthContribution, ← announced, UInt16.ofNat_toNat]
  simp only [encode, length, writeU16Be_read]
  rfl

theorem framed_front (a b c d e f unitId : UInt8) {pdu : Bytes}
    (announced : ((e.toUInt16 <<< 8) ||| f.toUInt16).toNat = pdu.length + 1) (rest : Bytes) :
    Framed (a :: b :: c :: d :: e :: f :: unitId :: (pdu ++ rest)) := by
  set buffer := a :: b :: c :: d :: e :: f :: unitId :: (pdu ++ rest) with bytes
  have inside : kMbapUnitHeaderSize + pdu.length ≤ buffer.length := by
    simp only [bytes, List.length_cons, List.length_append, kMbapUnitHeaderSize]
    omega
  have front : buffer.take (kMbapUnitHeaderSize + pdu.length) =
      a :: b :: c :: d :: e :: f :: unitId :: pdu := by
    rw [bytes, Nat.add_comm]
    simp only [kMbapUnitHeaderSize, List.take_succ_cons, List.take_left]
  refine .inr ⟨_, _, decode_front a b c d e f unitId announced rest, Nat.le_add_right _ _, inside,
    ?_, ?_, ?_⟩
  · rw [slice, if_pos ⟨Nat.le_add_right _ _, inside⟩, front]
    rfl
  · intro more
    simp only [bytes, List.cons_append, List.append_assoc]
    exact decode_front a b c d e f unitId announced (rest ++ more)
  · rw [front]
    exact encode_front a b c d e f unitId announced

theorem exists_header {buffer : Bytes} (long : kMbapUnitHeaderSize ≤ buffer.length) :
    ∃ a b c d e f unitId rest, buffer = a :: b :: c :: d :: e :: f :: unitId :: rest := by
  match buffer, long with
  | a :: b :: c :: d :: e :: f :: unitId :: rest, _ => exact ⟨a, b, c, d, e, f, unitId, rest, rfl⟩

-- The slice from byte 7 to byte 6.
theorem decode_emptyLength {buffer : Bytes} (empty : EmptyLength buffer) :
    decode buffer = .error .outOfBounds := by
  obtain ⟨long, lengthRead⟩ := empty
  have enough := Nat.not_lt.mpr long
  obtain ⟨a, b, c, d, e, f, unitId, rest, rfl⟩ := exists_header long
  have whole : ¬ (a :: b :: c :: d :: e :: f :: unitId :: rest).length < kMbapHeaderSize := by
    simp [kMbapHeaderSize]
  simp only [decode, enough, if_false, lengthRead, inBounds_some, ok_bind, UInt16.toNat_zero,
    Nat.add_zero, whole]
  rfl

theorem EmptyLength.not_framed {buffer : Bytes} (empty : EmptyLength buffer) : ¬ Framed buffer := by
  have thrown := decode_emptyLength empty
  rintro (waiting | ⟨frame, consumed, read, -⟩)
  · exact absurd (thrown.symm.trans waiting) (by simp)
  · exact absurd (thrown.symm.trans read) (by simp)

theorem framed_iff (buffer : Bytes) : Framed buffer ↔ ¬ EmptyLength buffer := by
  constructor
  · intro framed empty
    exact empty.not_framed framed
  · intro counted
    by_cases short : buffer.length < kMbapUnitHeaderSize
    · exact .inl (by simp only [decode, short, if_true])
    have long := Nat.not_lt.mp short
    obtain ⟨a, b, c, d, e, f, unitId, rest, rfl⟩ := exists_header long
    set length := (e.toUInt16 <<< 8) ||| f.toUInt16 with field
    have positive : length.toNat ≠ 0 := fun zero =>
      counted ⟨long, congrArg some (UInt16.toNat_inj.mp zero)⟩
    by_cases cut : rest.length < length.toNat - 1
    · -- The rest of the PDU has yet to arrive.
      refine .inl ?_
      have waiting : (a :: b :: c :: d :: e :: f :: unitId :: rest).length <
          kMbapHeaderSize + length.toNat := by
        simp only [List.length_cons, kMbapHeaderSize]
        omega
      simp only [decode, short, if_false, show readU16Be (List.drop kMbapLengthFieldOffset
        (a :: b :: c :: d :: e :: f :: unitId :: rest)) = some length from rfl, inBounds_some,
        ok_bind, waiting, if_true, except_pure]
    · have announced : length.toNat = (rest.take (length.toNat - 1)).length + 1 := by
        rw [List.length_take]
        omega
      have framed := framed_front a b c d e f unitId announced (rest.drop (length.toNat - 1))
      rwa [List.take_append_drop] at framed

theorem framed_iff_emptyLength :
    decode [0, 1, 0, 0, 0, 0, 7, 0x41] = .error .outOfBounds ∧
      ¬ Framed [0, 1, 0, 0, 0, 0, 7, 0x41] := by
  have empty : EmptyLength [0, 1, 0, 0, 0, 0, 7, 0x41] := by decide
  exact ⟨decode_emptyLength empty, empty.not_framed⟩

end ModbusChat.Wire
