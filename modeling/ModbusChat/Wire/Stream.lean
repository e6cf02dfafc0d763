import ModbusChat.Wire.ModbusTcp

set_option autoImplicit false

namespace ModbusChat.Wire

open BigEndian Effects

def writeFrames (accept : Nat → Int) : Outbound → List Frame → Bool × Outbound
  | out, [] => (true, out)
  | out, frame :: frames =>
      match writeFrame accept out frame with
      | (true, out) => writeFrames accept out frames
      | (false, out) => (false, out)

def readFrames : Nat → List Arrival → Except Failure (Reading (List Frame))
  | 0, arrivals => .ok (.done [] arrivals)
  | count + 1, arrivals => do
      match ← readFrame arrivals with
      | .blocked => return .blocked
      | .failed rest => return .failed rest
      | .done frame rest =>
          match ← readFrames count rest with
          | .blocked => return .blocked
          | .failed rest => return .failed rest
          | .done frames rest => return .done (frame :: frames) rest

-- One round of the loop: the kernel takes a part of the bytes, and at least one.
theorem writeExact_call (accept : Nat → Int) (accepting : ∀ i, 0 < accept i) (out : Outbound)
    {buffer : Bytes} (nonempty : buffer ≠ []) :
    ∃ count, 0 < count ∧ count ≤ buffer.length ∧ writeExact accept out buffer =
      writeExact accept { wire := out.wire ++ buffer.take count, calls := out.calls + 1 }
        (buffer.drop count) := by
  have positive : 0 < buffer.length := List.length_pos_of_ne_nil nonempty
  have taken := accepting out.calls
  have progress : ¬ min (accept out.calls) (buffer.length : Int) ≤ 0 := by omega
  refine ⟨(min (accept out.calls) (buffer.length : Int)).toNat, by omega, by omega, ?_⟩
  rw [writeExact]
  simp only [if_neg nonempty, if_neg progress]

theorem writeExact_accepting (accept : Nat → Int) (accepting : ∀ i, 0 < accept i)
    (out : Outbound) (buffer : Bytes) :
    ∃ calls, writeExact accept out buffer = (true, { wire := out.wire ++ buffer, calls }) := by
  -- Every call takes at least one byte, so the induction is on what is left to send.
  induction size : buffer.length using Nat.strong_induction_on generalizing out buffer with
  | _ size ih =>
    by_cases empty : buffer = []
    · subst empty
      exact ⟨out.calls, by simp [writeExact]⟩
    · obtain ⟨count, positive, inside, call⟩ := writeExact_call accept accepting out empty
      obtain ⟨calls, rest⟩ := ih (buffer.drop count).length (by rw [List.length_drop]; omega)
        { wire := out.wire ++ buffer.take count, calls := out.calls + 1 } _ rfl
      refine ⟨calls, ?_⟩
      simp only [call, rest, List.append_assoc, List.take_append_drop]

theorem writeFrames_accepting (accept : Nat → Int) (accepting : ∀ i, 0 < accept i)
    (out : Outbound) (frames : List Frame) :
    ∃ calls, writeFrames accept out frames =
      (true, { wire := out.wire ++ (frames.map encode).flatten, calls }) := by
  induction frames generalizing out with
  | nil => exact ⟨out.calls, by simp [writeFrames]⟩
  | cons frame frames ih =>
    obtain ⟨sent, first⟩ := writeExact_accepting accept accepting out (encode frame)
    obtain ⟨calls, rest⟩ := ih { wire := out.wire ++ encode frame, calls := sent }
    refine ⟨calls, ?_⟩
    simp [writeFrames, writeFrame, first, rest]

-- A stretch of the stream as it becomes readable: chunks in order, then whatever follows.
def arriving (chunks : List Bytes) (after : List Arrival) : List Arrival :=
  chunks.map .data ++ after

theorem readExact_arriving (size : Nat) (chunks : List Bytes) (after : List Arrival)
    (nonempty : ∀ chunk ∈ chunks, chunk ≠ []) (enough : size ≤ chunks.flatten.length) :
    ∃ remaining : List Bytes, (∀ chunk ∈ remaining, chunk ≠ []) ∧
      remaining.flatten = chunks.flatten.drop size ∧
      readExact size (arriving chunks after) =
        .done (chunks.flatten.take size) (arriving remaining after) := by
  -- a chunk is taken whole and less is asked for, or it is cut and the rest of it stays
  induction chunks generalizing size with
  | nil =>
    have zero : size = 0 := by simpa using enough
    exact ⟨[], by simp, by simp [zero], by simp [zero, readExact]⟩
  | cons chunk chunks ih =>
    cases size with
    | zero => exact ⟨chunk :: chunks, nonempty, by simp, by simp [readExact]⟩
    | succ size =>
      have present : chunk ≠ [] := nonempty chunk (by simp)
      have later : ∀ other ∈ chunks, other ≠ [] := fun other member =>
        nonempty other (List.mem_cons_of_mem _ member)
      simp only [List.flatten_cons, List.length_append] at enough
      by_cases whole : chunk.length ≤ size + 1
      · obtain ⟨remaining, kept, rest, read⟩ := ih (size + 1 - chunk.length) later (by omega)
        refine ⟨remaining, kept, ?_, ?_⟩
        · rw [rest, List.flatten_cons, List.drop_append, List.drop_eq_nil_of_le whole,
            List.nil_append]
        · simp only [arriving, List.map_cons, List.cons_append, readExact, present, if_false, whole,
            if_true, List.flatten_cons, List.take_append, List.take_of_length_le whole]
          simp only [arriving] at read
          rw [read]
      · have inside : size + 1 ≤ chunk.length := by omega
        refine ⟨chunk.drop (size + 1) :: chunks, ?_, ?_, ?_⟩
        · intro other member
          rcases List.mem_cons.mp member with same | member
          · rw [same, ← List.length_pos_iff_ne_nil, List.length_drop]
            omega
          · exact later other member
        · rw [List.flatten_cons, List.flatten_cons, List.drop_append_of_le_length inside]
        · simp only [arriving, List.map_cons, List.cons_append, readExact, present, if_false, whole,
            List.flatten_cons, List.take_append_of_le_length inside]

theorem readFrame_whole {header body more : Bytes} {length : UInt16} {frame : Frame}
    (headerSize : header.length = kMbapHeaderSize)
    (field : readU16Be (header.drop kMbapLengthFieldOffset) = some length) (nonzero : length ≠ 0)
    (bodySize : body.length = length.toNat)
    (decoded : decode (header ++ body) = .ok (some (frame, (header ++ body).length)))
    (chunks : List Bytes) (after : List Arrival) (nonempty : ∀ chunk ∈ chunks, chunk ≠ [])
    (stream : chunks.flatten = header ++ (body ++ more)) :
    ∃ remaining : List Bytes, (∀ chunk ∈ remaining, chunk ≠ []) ∧ remaining.flatten = more ∧
      readFrame (arriving chunks after) = .ok (.done frame (arriving remaining after)) := by
  have size : chunks.flatten.length = header.length + (body.length + more.length) := by
    simp [stream]
  obtain ⟨middle, middleKept, middleRest, headerRead⟩ :=
    readExact_arriving kMbapHeaderSize chunks after nonempty (by omega)
  rw [stream, ← headerSize, List.drop_left] at middleRest
  rw [stream, ← headerSize, List.take_left, headerSize] at headerRead
  obtain ⟨remaining, kept, rest, bodyRead⟩ :=
    readExact_arriving length.toNat middle after middleKept (by
      rw [middleRest, List.length_append]
      omega)
  rw [middleRest, ← bodySize, List.drop_left] at rest
  rw [middleRest, ← bodySize, List.take_left, bodySize] at bodyRead
  refine ⟨remaining, kept, rest, ?_⟩
  simp only [readFrame, headerRead, field, inBounds_some, ok_bind, nonzero, if_false, bodyRead,
    decoded, ne_eq, not_true_eq_false, except_pure]

theorem readFrame_arriving (frame : Frame) (fits : frame.pdu.length ≤ 65534) (more : Bytes)
    (chunks : List Bytes) (after : List Arrival) (nonempty : ∀ chunk ∈ chunks, chunk ≠ [])
    (stream : chunks.flatten = encode frame ++ more) :
    ∃ remaining : List Bytes, (∀ chunk ∈ remaining, chunk ≠ []) ∧ remaining.flatten = more ∧
      readFrame (arriving chunks after) = .ok (.done frame (arriving remaining after)) := by
  have exactLength := (lengthField_exact frame).mpr fits
  have nonzero : lengthField frame ≠ 0 := by
    intro zero
    rw [zero] at exactLength
    simp at exactLength
  have headerSize : ((encode frame).take kMbapHeaderSize).length = kMbapHeaderSize := by
    rw [List.length_take, encode_length, kMbapHeaderSize]
    omega
  have bodySize : ((encode frame).drop kMbapHeaderSize).length = (lengthField frame).toNat := by
    rw [List.length_drop, encode_length, exactLength, kMbapHeaderSize]
    omega
  have field : readU16Be (((encode frame).take kMbapHeaderSize).drop kMbapLengthFieldOffset) =
      some (lengthField frame) := readU16Be_write (lengthField frame) []
  refine readFrame_whole headerSize field nonzero bodySize ?_ chunks after nonempty ?_
  · rw [List.take_append_drop, decode_encode frame fits]
  · rw [← List.append_assoc, List.take_append_drop, stream]

theorem readFrames_arriving (frames : List Frame)
    (fits : ∀ frame ∈ frames, frame.pdu.length ≤ 65534)
    (more : Bytes) (chunks : List Bytes) (after : List Arrival)
    (nonempty : ∀ chunk ∈ chunks, chunk ≠ [])
    (stream : chunks.flatten = (frames.map encode).flatten ++ more) :
    ∃ remaining : List Bytes, (∀ chunk ∈ remaining, chunk ≠ []) ∧ remaining.flatten = more ∧
      readFrames frames.length (arriving chunks after) =
        .ok (.done frames (arriving remaining after)) := by
  induction frames generalizing chunks with
  | nil => exact ⟨chunks, nonempty, stream, rfl⟩
  | cons frame frames ih =>
    rw [List.map_cons, List.flatten_cons, List.append_assoc] at stream
    obtain ⟨middle, middleKept, rest, read⟩ := readFrame_arriving frame (fits frame (by simp))
      ((frames.map encode).flatten ++ more) chunks after nonempty stream
    obtain ⟨remaining, kept, last, later⟩ :=
      ih (fun other member => fits other (List.mem_cons_of_mem _ member)) middle middleKept rest
    refine ⟨remaining, kept, last, ?_⟩
    simp only [List.length_cons, readFrames, read, ok_bind, later, except_pure]

theorem chunks_eq_nil {chunks : List Bytes} (nonempty : ∀ chunk ∈ chunks, chunk ≠ [])
    (nothing : chunks.flatten = []) : chunks = [] := by
  rw [List.flatten_eq_nil_iff] at nothing
  exact List.eq_nil_iff_forall_not_mem.mpr fun chunk member =>
    nonempty chunk member (nothing chunk member)

/--
Frames written one after the other are read back as they were written, whatever pieces the kernel
takes and returns, and nothing beyond their bytes is consumed.
-/
theorem readFrames_writeFrames (frames : List Frame)
    (fits : ∀ frame ∈ frames, frame.pdu.length ≤ 65534)
    (accept : Nat → Int) (accepting : ∀ i, 0 < accept i) :
    ∃ out, writeFrames accept {} frames = (true, out) ∧
      ∀ (chunks : List Bytes) (after : List Arrival), (∀ chunk ∈ chunks, chunk ≠ []) →
        chunks.flatten = out.wire →
        readFrames frames.length (arriving chunks after) = .ok (.done frames after) := by
  obtain ⟨calls, written⟩ := writeFrames_accepting accept accepting {} frames
  refine ⟨_, written, fun chunks after nonempty stream => ?_⟩
  obtain ⟨remaining, kept, rest, read⟩ := readFrames_arriving frames fits [] chunks after nonempty
    (by simpa using stream)
  obtain rfl := chunks_eq_nil kept rest
  exact read

theorem readFrames_writeFrames_pair :
    ∃ out, writeFrames (fun _ => 3) {} [⟨7, 0, [0x41, 0x08]⟩, ⟨8, 1, []⟩] = (true, out) ∧
      ∀ (chunks : List Bytes) (after : List Arrival), (∀ chunk ∈ chunks, chunk ≠ []) →
        chunks.flatten = out.wire →
        readFrames 2 (arriving chunks after) =
          .ok (.done [⟨7, 0, [0x41, 0x08]⟩, ⟨8, 1, []⟩] after) :=
  readFrames_writeFrames _ (by decide) _ fun _ => by decide

end ModbusChat.Wire
