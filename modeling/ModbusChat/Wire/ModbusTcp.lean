import ModbusChat.Shared.Bytes
import ModbusChat.Shared.Effects

set_option autoImplicit false

namespace ModbusChat.Wire

open BigEndian Effects

/--
How a call can end other than by returning. `outOfBounds` is not an exception of the program: it
marks a read or a slice outside its buffer, which the source leaves undefined.
-/
inductive Failure where
  | runtimeError (what : String)
  | badVariantAccess
  | outOfBounds
  deriving DecidableEq, Repr

def Failure.what? : Failure → Option String
  | .runtimeError what => some what
  | .badVariantAccess => some "std::get: wrong index for variant"
  | .outOfBounds => none

def inBounds {α : Type} : Option α → Except Failure α
  | some value => .ok value
  | none => .error .outOfBounds

@[simp] theorem inBounds_some {α : Type} (value : α) : inBounds (some value) = .ok value := rfl

theorem inBounds_eq_ok {α : Type} {read : Option α} {value : α} :
    inBounds read = .ok value ↔ read = some value := by
  cases read <;> simp [inBounds]

-- The half-open range of a buffer that a pair of iterators spans.
def slice (buffer : Bytes) (first last : Nat) : Except Failure Bytes :=
  if first ≤ last ∧ last ≤ buffer.length then .ok ((buffer.take last).drop first)
  else .error .outOfBounds

def kAppFunctionCode : UInt8 := 0x41
def kMbapHeaderSize : Nat := 6
def kMbapUnitHeaderSize : Nat := 7
def kMbapLengthFieldOffset : Nat := 4
def kUnitIdLengthContribution : Nat := 1
def kProtocolId : UInt16 := 0

structure Frame where
  transactionId : UInt16 := 0
  unitId : UInt8 := 0
  pdu : Bytes := []
  deriving DecidableEq, Repr

-- The cast of the length to 16 bits is unchecked in the source as well.
def encode (frame : Frame) : Bytes :=
  writeU16Be frame.transactionId ++ (writeU16Be kProtocolId ++
    (writeU16Be (UInt16.ofNat (frame.pdu.length + kUnitIdLengthContribution)) ++
      (frame.unitId :: frame.pdu)))

def decode (buffer : Bytes) : Except Failure (Option (Frame × Nat)) :=
  if buffer.length < kMbapUnitHeaderSize then .ok none
  else do
    let length ← inBounds (readU16Be (buffer.drop kMbapLengthFieldOffset))
    let total := kMbapHeaderSize + length.toNat
    if buffer.length < total then return none
    let transactionId ← inBounds (readU16Be buffer)
    let unitId ← inBounds buffer[kMbapHeaderSize]?
    let pdu ← slice buffer kMbapUnitHeaderSize total
    return some ({ transactionId, unitId, pdu }, total)

/-- What the kernel answers to one round of `poll` and `read`; an empty chunk is end of file. -/
inductive Arrival where
  | pollFailed
  | hangUp
  | readFailed
  | data (chunk : Bytes)
  deriving DecidableEq, Repr

inductive Reading (α : Type) where
  | done (value : α) (rest : List Arrival)
  | failed (rest : List Arrival)
  | blocked
  deriving DecidableEq, Repr

def readExact : Nat → List Arrival → Reading Bytes
  | 0, arrivals => .done [] arrivals
  | _ + 1, [] => .blocked
  | size + 1, .data chunk :: rest =>
      if chunk = [] then .failed rest
      else if chunk.length ≤ size + 1 then
        match readExact (size + 1 - chunk.length) rest with
        | .done more rest => .done (chunk ++ more) rest
        | .failed rest => .failed rest
        | .blocked => .blocked
      else
        -- `read` takes only what was asked for; the kernel keeps the remainder.
        .done (chunk.take (size + 1)) (.data (chunk.drop (size + 1)) :: rest)
  | _ + 1, _ :: rest => .failed rest

def readFrame (arrivals : List Arrival) : Except Failure (Reading Frame) :=
  match readExact kMbapHeaderSize arrivals with
  | .blocked => .ok .blocked
  | .failed rest => .ok (.failed rest)
  | .done header rest => do
      let length ← inBounds (readU16Be (header.drop kMbapLengthFieldOffset))
      if length = 0 then return .failed rest
      match readExact length.toNat rest with
      | .blocked => return .blocked
      | .failed rest => return .failed rest
      | .done body rest =>
          match ← decode (header ++ body) with
          | none => return .failed rest
          | some (frame, consumed) =>
              if consumed ≠ (header ++ body).length then return .failed rest
              else return .done frame rest

-- The sending half of a connection: the bytes the kernel has taken, and in how many calls.
structure Outbound where
  wire : Bytes := []
  calls : Nat := 0

-- `accept i` is the kernel's answer to the `i`-th `send`, never more than it was offered.
def writeExact (accept : Nat → Int) (out : Outbound) (buffer : Bytes) : Bool × Outbound :=
  if buffer = [] then (true, out)
  else
    let n := min (accept out.calls) buffer.length
    if n ≤ 0 then (false, { out with calls := out.calls + 1 })
    else
      writeExact accept { wire := out.wire ++ buffer.take n.toNat, calls := out.calls + 1 }
        (buffer.drop n.toNat)
termination_by buffer.length
decreasing_by
  have : 0 < buffer.length := List.length_pos_of_ne_nil ‹_›
  simp only [List.length_drop]
  omega

def writeFrame (accept : Nat → Int) (out : Outbound) (frame : Frame) : Bool × Outbound :=
  writeExact accept out (encode frame)

@[simp] theorem encode_length (frame : Frame) : (encode frame).length = 7 + frame.pdu.length := by
  simp [encode]
  omega

def lengthField (frame : Frame) : UInt16 :=
  UInt16.ofNat (frame.pdu.length + kUnitIdLengthContribution)

theorem lengthField_exact (frame : Frame) :
    (lengthField frame).toNat = frame.pdu.length + 1 ↔ frame.pdu.length ≤ 65534 := by
  have value : (lengthField frame).toNat = (frame.pdu.length + 1) % 65536 := UInt16.toNat_ofNat'
  rw [value]
  omega

theorem readU16Be_lengthField (frame : Frame) (rest : Bytes) :
    readU16Be ((encode frame ++ rest).drop kMbapLengthFieldOffset) = some (lengthField frame) := by
  have header : (encode frame ++ rest).drop kMbapLengthFieldOffset =
      writeU16Be (lengthField frame) ++ (frame.unitId :: frame.pdu ++ rest) := by
    simp [encode, kMbapLengthFieldOffset, lengthField, writeU16Be]
  rw [header, readU16Be_write]

theorem decode_encode (frame : Frame) (fits : frame.pdu.length ≤ 65534) :
    decode (encode frame) = .ok (some (frame, (encode frame).length)) := by
  have field :
      readU16Be ((encode frame).drop kMbapLengthFieldOffset) = some (lengthField frame) := by
    simpa using readU16Be_lengthField frame []
  have total : kMbapHeaderSize + (lengthField frame).toNat = (encode frame).length := by
    rw [(lengthField_exact frame).mpr fits, encode_length]
    simp only [kMbapHeaderSize]
    omega
  have transaction : readU16Be (encode frame) = some frame.transactionId := by
    simp only [encode, readU16Be_write]
  have unit : (encode frame)[kMbapHeaderSize]? = some frame.unitId := by
    simp [encode, kMbapHeaderSize, writeU16Be]
  have body : slice (encode frame) kMbapUnitHeaderSize (encode frame).length = .ok frame.pdu := by
    have inside : 7 ≤ (encode frame).length := by simp
    simp only [slice, kMbapUnitHeaderSize, inside, le_refl, and_self, if_true, List.take_length]
    simp [encode, writeU16Be]
  have long : ¬ (encode frame).length < kMbapUnitHeaderSize := by
    simp [kMbapUnitHeaderSize]
  simp only [decode, long, if_false, field, inBounds_some, ok_bind, total, lt_irrefl,
    transaction, unit, body]
  rfl

end ModbusChat.Wire
