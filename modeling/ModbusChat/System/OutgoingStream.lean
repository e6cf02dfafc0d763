import ModbusChat.Shared.Writers
import ModbusChat.System.World
import ModbusChat.Wire.Stream

set_option autoImplicit false

-- `write_exact` hands a frame to the kernel in as many calls of `::send` as it takes, and no lock
-- is held between them. A `put` is one such call; a thread that turns to a frame enters
-- `write_frame`.

namespace ModbusChat.System

open BigEndian Wire Client

abbrev Socket := Writers.State Thread Frame UInt8

instance Thread.fintype : Fintype Thread where
  elems := {.input, .receiver}
  complete thread := by cases thread <;> decide

section WriteExact

variable {socket : Socket} {thread : Thread} {frame : Frame}

def putAll (socket : Socket) (thread : Thread) (counts : List Nat) : Socket :=
  (counts.map (Writers.Event.put thread)).foldl (Writers.step encode) socket

theorem put_eq {sent count : Nat} (at_ : (socket.desk thread).current = some (frame, sent))
    (inside : sent + count ≤ (encode frame).length) :
    (Writers.step encode socket (.put thread count)).stream =
        socket.stream ++ ((encode frame).drop sent).take count ∧
      (Writers.step encode socket (.put thread count)).desk thread =
        if sent + count = (encode frame).length then
          { done := (socket.desk thread).done ++ [frame] }
        else { socket.desk thread with current := some (frame, sent + count) } := by
  have taken : (((encode frame).drop sent).take count).length = count := by
    rw [List.length_take, List.length_drop]
    omega
  constructor
  · simp only [Writers.step, at_]
    rfl
  · simp only [Writers.step, at_, taken, Writers.move_desk, if_true]

-- What `write_exact` does with the rest of a frame is a sequence of such calls, the last of which
-- ends the frame.
theorem writeExact_puts (accept : Nat → Int) (accepting : ∀ i, 0 < accept i) {out : Outbound}
    {sent : Nat}
    (at_ : (socket.desk thread).current = some (frame, sent))
    (unfinished : sent < (encode frame).length) (same : out.wire = socket.stream) :
    ∃ counts, (∀ count ∈ counts, 0 < count) ∧
      (writeExact accept out ((encode frame).drop sent)).2.wire =
        (putAll socket thread counts).stream ∧
      (putAll socket thread counts).desk thread =
        { done := (socket.desk thread).done ++ [frame] } := by
  -- the induction is on the bytes that are left
  induction left : (encode frame).length - sent using Nat.strong_induction_on
    generalizing socket out sent with
  | _ left ih =>
    have rest : ((encode frame).drop sent).length = (encode frame).length - sent := List.length_drop
    have nonempty : (encode frame).drop sent ≠ [] := by
      rw [← List.length_pos_iff_ne_nil]
      omega
    obtain ⟨count, positive, fits, call⟩ := writeExact_call accept accepting out nonempty
    have inside : sent + count ≤ (encode frame).length := by omega
    obtain ⟨stream, desk⟩ := put_eq at_ inside
    have now :
        (Outbound.mk (out.wire ++ ((encode frame).drop sent).take count) (out.calls + 1)).wire =
        (Writers.step encode socket (.put thread count)).stream :=
      (congrArg (· ++ _) same).trans stream.symm
    rw [call, List.drop_drop]
    by_cases last : sent + count = (encode frame).length
    · refine ⟨[count], by simpa using positive, ?_, desk.trans (if_pos last)⟩
      rw [List.drop_of_length_le last.ge, writeExact, if_pos rfl]
      exact now
    · rw [if_neg last] at desk
      obtain ⟨counts, positives, wire, done⟩ :=
        ih ((encode frame).length - (sent + count)) (by omega)
        (congrArg Writers.Desk.current desk) (by omega) now rfl
      refine ⟨count :: counts, List.forall_mem_cons.mpr ⟨positive, positives⟩, wire, done.trans ?_⟩
      rw [desk]

end WriteExact

/--
In every run in which no thread writes while the other is midway through a frame, the stream is
whole frames in an order that keeps the order of each thread, and then at most the first part of one
frame. The server reads the frames as they were sent.
-/
theorem stream_whole {socket : Socket}
    (reachable : Runs.Reachable Writers.Initial Writers.Undivided (Writers.step encode) socket) :
    ∃ (merged : List (Thread × Frame)) (part : Bytes),
      (∀ thread, (merged.filter (·.1 = thread)).map Prod.snd = (socket.desk thread).done) ∧
      socket.stream = ((merged.map Prod.snd).map encode).flatten ++ part ∧
      (part = [] ∨ ∃ thread frame sent, (socket.desk thread).current = some (frame, sent) ∧
        sent < (encode frame).length ∧ part = (encode frame).take sent) ∧
      ((∀ entry ∈ merged, entry.2.pdu.length ≤ 65534) →
        ∀ (chunks : List Bytes) (after : List Arrival), (∀ chunk ∈ chunks, chunk ≠ []) →
          chunks.flatten = socket.stream →
          ∃ remaining : List Bytes, (∀ chunk ∈ remaining, chunk ≠ []) ∧ remaining.flatten = part ∧
            readFrames merged.length (arriving chunks after) =
              .ok (.done (merged.map Prod.snd) (arriving remaining after))) := by
  obtain ⟨merged, merges, whole⟩ := Writers.undivided_whole reachable
  have blocks : (merged.flatMap fun entry => encode entry.2) =
      ((merged.map Prod.snd).map encode).flatten := by
    rw [List.map_map, List.flatMap_def]
    rfl
  -- what follows the whole frames, if anything, is left unread
  have read {part : Bytes}
      (stream : socket.stream = ((merged.map Prod.snd).map encode).flatten ++ part)
      (fits : ∀ entry ∈ merged, entry.2.pdu.length ≤ 65534) (chunks : List Bytes)
      (after : List Arrival)
      (nonempty : ∀ chunk ∈ chunks, chunk ≠ []) (arrived : chunks.flatten = socket.stream) :
      ∃ remaining : List Bytes, (∀ chunk ∈ remaining, chunk ≠ []) ∧ remaining.flatten = part ∧
        readFrames merged.length (arriving chunks after) =
          .ok (.done (merged.map Prod.snd) (arriving remaining after)) := by
    have small : ∀ frame ∈ merged.map Prod.snd, frame.pdu.length ≤ 65534 := by
      intro frame member
      obtain ⟨entry, listed, rfl⟩ := List.mem_map.mp member
      exact fits entry listed
    simpa using readFrames_arriving _ small part chunks after nonempty (arrived.trans stream)
  cases whole with
  | between stream nobody =>
    have all : socket.stream = ((merged.map Prod.snd).map encode).flatten ++ [] := by
      rw [List.append_nil, stream, blocks]
    exact ⟨merged, [], merges, all, .inl rfl, read all⟩
  | midway at_ started unfinished stream alone =>
    rw [blocks] at stream
    exact ⟨merged, _, merges, stream, .inr ⟨_, _, _, at_, unfinished, rfl⟩, read stream⟩

def usersRequest : Frame := makeFrame .listUsers Wire.buildListUsers

def offeredKey : Frame :=
  makeFrame .keyOffer (writeU32Be 1 ++ (kRecipientById :: (writeU32Be 2 ++
    stringBytes (List.replicate kPublicKeySize 7))))

def tookTurns : Socket :=
  [Writers.Event.begin Thread.input usersRequest, .begin .receiver offeredKey, .put .input 4,
    .put .input 100, .put .receiver 30, .put .receiver 100].foldl (Writers.step encode) {}

theorem stream_whole_tookTurns :
    ∃ merged : List (Thread × Frame),
      (∀ thread, (merged.filter (·.1 = thread)).map Prod.snd = (tookTurns.desk thread).done) ∧
      tookTurns.stream = ((merged.map Prod.snd).map encode).flatten := by
  have reachable :
      Runs.Reachable Writers.Initial Writers.Undivided (Writers.step encode) tookTurns :=
    Runs.Reachable.foldl (.start rfl) (by decide +kernel)
  have idle : ∀ thread, (tookTurns.desk thread).current = none := by decide +kernel
  obtain ⟨merged, part, inOrder, stream, rest, -⟩ := stream_whole reachable
  have nothing : part = [] := by
    refine rest.resolve_right ?_
    rintro ⟨thread, frame, sent, at_, -⟩
    cases (idle thread).symm.trans at_
  exact ⟨merged, inOrder, by rw [stream, nothing, List.append_nil]⟩

-- The kernel takes three bytes of the request before the other thread writes its frame.
def spliced : Socket :=
  [Writers.Event.begin Thread.input usersRequest, .put .input 3, .begin .receiver offeredKey,
    .put .receiver 100, .put .input 100].foldl (Writers.step encode) {}

-- Both threads are done, but the stream is no merge of their frames, and the server cannot read it.
theorem spliced_torn :
    Runs.Reachable Writers.Initial Writers.Allowed (Writers.step encode) spliced ∧
      (spliced.desk .input).done = [usersRequest] ∧ (spliced.desk .receiver).done = [offeredKey] ∧
      (¬ ∃ merged : List (Thread × Frame),
        (∀ thread, (merged.filter (·.1 = thread)).map Prod.snd = (spliced.desk thread).done) ∧
        spliced.stream = ((merged.map Prod.snd).map encode).flatten) ∧
      readFrame (arriving [spliced.stream] []) =
        .ok (.failed (arriving [spliced.stream.drop 6] [])) := by
  refine ⟨Runs.Reachable.foldl (.start rfl) (by decide +kernel), by decide +kernel,
    by decide +kernel, ?_, ?_⟩
  · rintro ⟨merged, inOrder, stream⟩
    have nonempty : spliced.stream ≠ [] := by decide +kernel
    -- whichever frame comes first is at the front of the stream, and neither is
    have notFirst : ∀ thread, ∀ frame ∈ (spliced.desk thread).done,
        spliced.stream.take (encode frame).length ≠ encode frame := by decide +kernel
    cases merged with
    | nil => exact nonempty stream
    | cons entry merged =>
      have sent : entry.2 ∈ (spliced.desk entry.1).done := by
        rw [← inOrder entry.1]
        simp
      refine notFirst entry.1 entry.2 sent ?_
      rw [stream, List.map_cons, List.map_cons, List.flatten_cons, List.take_left]
  · decide +kernel

end ModbusChat.System
