import ModbusChat.Shared.Blocks
import ModbusChat.Wire.Framing
import ModbusChat.Wire.Stream

set_option autoImplicit false

namespace ModbusChat.Wire

open BigEndian Effects

-- What `read_frame` still asks for when it has these bytes of a frame: first the header, then the
-- rest.
def wanted (taken : Bytes) : Nat :=
  if taken.length < kMbapHeaderSize then kMbapHeaderSize - taken.length
  else kMbapHeaderSize +
    ((readU16Be (taken.drop kMbapLengthFieldOffset)).getD 0).toNat - taken.length

def gathered (taken : Bytes) : Option Frame :=
  match decode taken with
  | .ok (some (frame, consumed)) => if consumed = taken.length then some frame else none
  | _ => none

-- One direction of a connection: what `read_frame` has of a frame, and what the kernel holds.
structure Pipe where
  taken : Bytes := []
  transit : Bytes := []
  deriving DecidableEq, Repr

-- A `read`, which the kernel answers with at most `count` bytes.
def Pipe.read (pipe : Pipe) (count : Nat) : Pipe where
  taken := pipe.taken ++ pipe.transit.take (min count (wanted pipe.taken))
  transit := pipe.transit.drop (min count (wanted pipe.taken))

theorem wanted_encode {frame : Frame} (fits : frame.pdu.length ≤ 65534) :
    wanted (encode frame) = 0 := by
  have field :
      readU16Be ((encode frame).drop kMbapLengthFieldOffset) = some (lengthField frame) := by
    simpa using readU16Be_lengthField frame []
  have exactLength := (lengthField_exact frame).mpr fits
  rw [wanted, encode_length, if_neg (by simp only [kMbapHeaderSize]; omega), field,
    Option.getD_some, exactLength]
  simp only [kMbapHeaderSize]
  omega

theorem lengthField_append {taken : Bytes} (header : kMbapHeaderSize ≤ taken.length)
    (more : Bytes) :
    readU16Be ((taken ++ more).drop kMbapLengthFieldOffset) =
      readU16Be (taken.drop kMbapLengthFieldOffset) := by
  rcases taken with _ | ⟨a, _ | ⟨b, _ | ⟨c, _ | ⟨d, _ | ⟨e, _ | ⟨f, taken⟩⟩⟩⟩⟩⟩ <;>
    first | rfl | simp [kMbapHeaderSize] at header

theorem readU16Be_header {frame : Frame} {part rest : Bytes} (whole : encode frame = part ++ rest)
    (header : kMbapHeaderSize ≤ part.length) :
    readU16Be (part.drop kMbapLengthFieldOffset) = some (lengthField frame) := by
  rw [← lengthField_append header rest, ← whole]
  simpa using readU16Be_lengthField frame []

theorem wanted_part {frame : Frame} {part rest : Bytes} (fits : frame.pdu.length ≤ 65534)
    (whole : encode frame = part ++ rest) (left : rest ≠ []) :
    0 < wanted part ∧ wanted part ≤ rest.length := by
  have size := congrArg List.length whole
  rw [encode_length, List.length_append] at size
  have positive := List.length_pos_iff_ne_nil.mpr left
  unfold wanted
  split_ifs with short
  · simp only [kMbapHeaderSize] at short ⊢
    omega
  · rw [readU16Be_header whole (Nat.not_lt.mp short), Option.getD_some,
      (lengthField_exact frame).mpr fits]
    simp only [kMbapHeaderSize]
    omega

theorem gathered_encode {frame : Frame} (fits : frame.pdu.length ≤ 65534) :
    gathered (encode frame) = some frame := by
  simp only [gathered, decode_encode frame fits, if_true]

def frameFormat : Blocks.Format UInt8 Frame where
  Valid frame := frame.pdu.length ≤ 65534
  encode := encode
  decode := gathered
  wanted := wanted
  nonempty fits empty := by
    have size := congrArg List.length empty
    simp at size
  decode_encode := gathered_encode
  wanted_whole := wanted_encode
  wanted_part := wanted_part

theorem Pipe.read_holds {pipe : Pipe} {behind : Bytes} {frames : List Frame}
    (holds : frameFormat.Holds pipe.taken (pipe.transit ++ behind) frames) (count : Nat) :
    frameFormat.Holds (pipe.read count).taken ((pipe.read count).transit ++ behind) frames := by
  let asked := min count (wanted pipe.taken)
  have few : min asked pipe.transit.length ≤ frameFormat.wanted pipe.taken :=
    (Nat.min_le_left _ _).trans (Nat.min_le_right _ _)
  have present : min asked pipe.transit.length ≤ pipe.transit.length := Nat.min_le_right _ _
  have next := holds.take few
  rw [List.take_append_of_le_length present, List.drop_append_of_le_length present,
    ← List.take_eq_take_min, ← List.drop_eq_drop_min] at next
  exact next

section ReadFrame

def finished (taken : Bytes) (after : List Arrival) : Reading Frame :=
  (gathered taken).elim (.failed after) (.done · after)

def Announced (taken : Bytes) : Prop :=
  kMbapHeaderSize ≤ taken.length → taken.length ≤
    kMbapHeaderSize + ((readU16Be (taken.drop kMbapLengthFieldOffset)).getD 0).toNat

theorem Announced.read {pipe : Pipe} (announced : Announced pipe.taken) (count : Nat) :
    Announced (pipe.read count).taken := by
  intro header
  have size : (pipe.read count).taken.length ≤ pipe.taken.length + wanted pipe.taken := by
    simp only [Pipe.read, List.length_append, List.length_take]
    omega
  by_cases short : pipe.taken.length < kMbapHeaderSize
  · rw [wanted, if_pos short] at size
    omega
  · have early := Nat.not_lt.mp short
    rw [wanted, if_neg short] at size
    have room := announced early
    rw [show (pipe.read count).taken = pipe.taken ++ _ from rfl] at size ⊢
    rw [lengthField_append early]
    omega

theorem reads_announced {pipe : Pipe} (announced : Announced pipe.taken) (counts : List Nat) :
    Announced (counts.foldl Pipe.read pipe).taken := by
  induction counts generalizing pipe with
  | nil => exact announced
  | cons count counts ih => exact ih (announced.read count)

theorem decode_complete {taken : Bytes} {length : UInt16} (nonzero : length ≠ 0)
    (field : readU16Be (taken.drop kMbapLengthFieldOffset) = some length)
    (size : taken.length = kMbapHeaderSize + length.toNat) :
    ∃ frame, decode taken = .ok (some (frame, taken.length)) := by
  have positive : length.toNat ≠ 0 := fun zero => nonzero (UInt16.toNat_inj.mp zero)
  obtain ⟨a, b, c, d, e, f, unitId, pdu, rfl⟩ : ∃ a b c d e f unitId rest,
      taken = a :: b :: c :: d :: e :: f :: unitId :: rest :=
    exists_header (by rw [size]; simp only [kMbapHeaderSize, kMbapUnitHeaderSize]; omega)
  have announced : ((e.toUInt16 <<< 8) ||| f.toUInt16).toNat = pdu.length + 1 := by
    have same : ((e.toUInt16 <<< 8) ||| f.toUInt16) = length := Option.some.inj field
    simp only [List.length_cons, kMbapHeaderSize] at size
    rw [same]
    omega
  have decoded := decode_front a b c d e f unitId announced []
  have total :
      kMbapUnitHeaderSize + pdu.length = (a :: b :: c :: d :: e :: f :: unitId :: pdu).length := by
    simp only [List.length_cons, kMbapUnitHeaderSize]
    omega
  rw [List.append_nil, total] at decoded
  exact ⟨_, decoded⟩

theorem readFrame_complete {taken : Bytes} (announced : Announced taken) (whole : wanted taken = 0)
    (chunks : List Bytes) (after : List Arrival) (nonempty : ∀ chunk ∈ chunks, chunk ≠ [])
    (stream : chunks.flatten = taken) :
    readFrame (arriving chunks after) = .ok (finished taken after) := by
  have header : kMbapHeaderSize ≤ taken.length := by
    by_contra short
    rw [wanted, if_pos (by omega)] at whole
    omega
  obtain ⟨length, field⟩ :
    ∃ length, readU16Be (taken.drop kMbapLengthFieldOffset) = some length := by
    rcases taken with _ | ⟨a, _ | ⟨b, _ | ⟨c, _ | ⟨d, _ | ⟨e, _ | ⟨f, taken⟩⟩⟩⟩⟩⟩ <;>
      first | exact ⟨_, rfl⟩ | simp [kMbapHeaderSize] at header
  have size : taken.length = kMbapHeaderSize + length.toNat := by
    have most := announced header
    rw [wanted, if_neg (by omega)] at whole
    rw [field, Option.getD_some] at whole most
    omega
  have headerSize : (taken.take kMbapHeaderSize).length = kMbapHeaderSize := by
    rw [List.length_take, Nat.min_eq_left header]
  have bodySize : (taken.drop kMbapHeaderSize).length = length.toNat := by
    rw [List.length_drop]
    omega
  have front :
      readU16Be ((taken.take kMbapHeaderSize).drop kMbapLengthFieldOffset) = some length := by
    rw [← field, ← lengthField_append headerSize.ge (taken.drop kMbapHeaderSize),
      List.take_append_drop]
  by_cases zero : length = 0
  · -- `read_frame` gives up before it looks for a body
    obtain ⟨remaining, kept, rest, read⟩ :=
      readExact_arriving kMbapHeaderSize chunks after nonempty (by rw [stream]; exact header)
    rw [stream] at rest read
    rw [zero, UInt16.toNat_zero, Nat.add_zero] at size
    obtain rfl := chunks_eq_nil kept (rest.trans (by rw [← size, List.drop_length]))
    have short : decode taken = .ok none := by
      rw [decode, if_pos (by rw [size]; decide)]
    simp only [readFrame, read, front, inBounds_some, ok_bind, zero, if_true, except_pure, finished,
      gathered, short, Option.elim_none]
    rfl
  · obtain ⟨frame, decoded⟩ := decode_complete zero field size
    obtain ⟨remaining, kept, rest, read⟩ := readFrame_whole headerSize front zero bodySize
      (by rw [List.take_append_drop]; exact decoded) chunks after nonempty
      (by rw [List.append_nil, List.take_append_drop]; exact stream)
    obtain rfl := chunks_eq_nil kept rest
    rw [read, finished, gathered, decoded]
    simp only [if_true, Option.elim_some]
    rfl

/--
A `read_frame` that has been given all it asks for returns what the bytes decode to, in however many
pieces they have come.
-/
theorem readFrame_reads (pipe : Pipe) (fresh : pipe.taken = []) (counts : List Nat)
    (whole : wanted (counts.foldl Pipe.read pipe).taken = 0) (chunks : List Bytes)
    (after : List Arrival) (nonempty : ∀ chunk ∈ chunks, chunk ≠ [])
    (stream : chunks.flatten = (counts.foldl Pipe.read pipe).taken) :
    readFrame (arriving chunks after) =
      .ok (finished (counts.foldl Pipe.read pipe).taken after) := by
  have announced : Announced pipe.taken := by
    rw [fresh]
    intro header
    simp [kMbapHeaderSize] at header
  exact readFrame_complete (reads_announced announced counts) whole chunks after nonempty stream

end ReadFrame

end ModbusChat.Wire
