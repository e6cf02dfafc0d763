import ModbusChat.Server.Presence
import ModbusChat.Wire.Bounds
import ModbusChat.Wire.Brevity
import ModbusChat.Wire.Stream

set_option autoImplicit false

namespace ModbusChat.Server

open BigEndian Effects Wire

-- Whatever a handler throws, it throws before it has changed or sent anything, and the text of the
-- exception fits into the one error message that the client gets.

/--
`handle_client_data` together with the connection that it reads: what it does and what is left to
read. There is no result while the rest of a frame is still to come.
-/
def handleArrivals (fd : Fd) (server : ServerViewModel) (arrivals : List Arrival) :
    Except Failure (Option (Outcome ServerViewModel Effect Failure Unit × List Arrival)) :=
  if ∃ sender ∈ server.registry.findByFd fd, server.isBanned sender.id then
    return some ((handleClientData fd none).run server, arrivals)
  else do
    match ← readFrame arrivals with
    | .blocked => return none
    | .failed rest => return some ((handleClientData fd none).run server, rest)
    | .done frame rest => return some ((handleClientData fd (some frame)).run server, rest)

-- The decoder throws, or the handler that the message is dispatched to.
def Throws (server : ServerViewModel) (fd : Fd) (frame : Frame) (failure : Failure) : Prop :=
  decodeAppMessage frame = .error failure ∨
    ∃ message, decodeAppMessage frame = .ok message ∧
      ((dispatch createMessageDispatcher fd message).run server).result = .error failure

def Reported (server : ServerViewModel) (fd : Fd)
    (outcome : Outcome ServerViewModel Effect Failure Unit) : Prop :=
  ∃ (shown : List ViewLine) (text : Bytes), text.length ≤ 64 ∧
    outcome = ⟨server, shown.map .display ++ [.send fd .error (stringBytes text)], .ok ()⟩

def Reportable (failure : Failure) : Prop := ∃ what ∈ failure.what?, (ascii what).length ≤ 64

theorem reportable {α : Type} {result : Except Failure α} (brief : FailsBriefly result)
    (bounded : Bounded result) {failure : Failure} (failed : result = .error failure) :
    Reportable failure := by
  have short := brief failure failed
  cases failure with
  | runtimeError what => exact ⟨what, rfl, short what rfl⟩
  | badVariantAccess => exact ⟨_, rfl, short _ rfl⟩
  | outOfBounds => exact absurd failed bounded

theorem catchException_reported {failure : Failure} (reportable : Reportable failure)
    (server : ServerViewModel) (fd : Fd) :
    Reported server fd ((catchException fd failure).run server) := by
  obtain ⟨what, text, short⟩ := reportable
  refine ⟨[.decodeError what], ascii what, short, ?_⟩
  exact catchException_reports text (short.trans (by decide)) server fd

def FailsClean (action : ServerM Unit) (server : ServerViewModel) : Prop :=
  ∀ failure, (action.run server).result = .error failure →
    Reportable failure ∧
      ∃ shown : List ViewLine, action.run server = ⟨server, shown.map .display, .error failure⟩

theorem FailsClean.reported {action : ServerM Unit} {server : ServerViewModel} {failure : Failure}
    (clean : FailsClean action server)
    (failed : (action.run server).result = .error failure) (fd : Fd) :
    Reported server fd ((action.run server).orElse (catchException fd)) := by
  obtain ⟨reportable, shown, run⟩ := clean failure failed
  obtain ⟨more, text, short, caught⟩ := catchException_reported reportable server fd
  refine ⟨shown ++ more, text, short, ?_⟩
  rw [run, Outcome.orElse_error, caught]
  simp

section Handlers

variable {server : ServerViewModel} {fd : Fd}

theorem failsClean_ok {action : ServerM Unit} (returns : (action.run server).result = .ok ()) :
    FailsClean action server := by
  intro failure failed
  cases returns.symm.trans failed

theorem sendError_failsClean (text : Bytes) : FailsClean (sendError fd text) server := by
  intro failure failed
  rw [sendError_run] at failed ⊢
  split_ifs at failed ⊢
  cases failed
  exact ⟨⟨_, rfl, by decide⟩, [], rfl⟩

theorem registerNickname_failsClean {record : ClientRecord} {nickname : Bytes}
    (found : server.registry.findByFd fd = some record) (short : nickname.length ≤ kMaxU16Count) :
    FailsClean (registerNickname fd nickname) server := by
  by_cases may : MayRegister server fd nickname
  · apply failsClean_ok
    rw [registerNickname_run found may short]
  · obtain ⟨text, -, refused⟩ := registerNickname_refused found may
    have clean := @sendError_failsClean server fd (ascii text)
    rwa [FailsClean, ← refused] at clean

theorem listUsers_failsClean
    (fits : ∀ fd record, server.registry.findByFd fd = some record → RecordFits fd record)
    (message : AppMessage) : FailsClean (listUsersMessageHandler.handle fd message) server := by
  have short := ClientRegistry.collectUsers_short fits
  intro failure failed
  simp only [listUsersMessageHandler, Action.run_bind, Action.run_get, Outcome.andThen_ok,
    Outcome.before_nil, Action.run_lift] at failed ⊢
  by_cases few : server.registry.collectUsers.length ≤ kMaxU16Count
  · rw [encodeUsersList_eq_ok.mpr ⟨few, short, rfl⟩] at failed
    cases failed
  · have refused : encodeUsersList server.registry.collectUsers =
        .error (.runtimeError "Too many users") := if_pos (Nat.lt_of_not_le few)
    rw [refused] at failed ⊢
    cases failed
    exact ⟨⟨_, rfl, by decide⟩, [], rfl⟩

theorem relay_failsClean {sender : ClientRecord} {chat : ChatPayload} {recipient : Recipient}
    (deliverType : MsgType) (logLabel : String)
    (found : server.registry.findByFd fd = some sender) (notBanned : sender.id ∉ server.bannedIds)
    (tag : chat.recipientTag = recipient.tag) (data : recipient.data = .ok chat.recipientData)
    (short : chat.text.length ≤ kMaxU16Count) :
    FailsClean (relay deliverType logLabel fd chat) server := by
  obtain ⟨target, resolved⟩ := unicastTarget_ok server tag data (label recipient)
  have run := relay_run deliverType logLabel found notBanned tag data short resolved
  intro failure failed
  rw [run] at failed ⊢
  split_ifs at failed ⊢ with broadcast
  · cases failed
  · cases target with
    | ok targetFd => cases failed
    | error text =>
      obtain ⟨reportable, shown, error⟩ := sendError_failsClean text failure failed
      refine ⟨reportable, .chat sender.id (label recipient) logLabel :: shown, ?_⟩
      dsimp only
      rw [error]
      rfl

theorem dispatch_failsClean {sender : ClientRecord} {frame : Frame} {message : AppMessage}
    (fits : ∀ fd record, server.registry.findByFd fd = some record → RecordFits fd record)
    (found : server.registry.findByFd fd = some sender) (notBanned : sender.id ∉ server.bannedIds)
    (decoded : decodeAppMessage frame = .ok message) :
    FailsClean (dispatch createMessageDispatcher fd message) server := by
  obtain ⟨type, payload⟩ := message
  obtain ⟨bytes, -, parsed⟩ := decodeAppMessage_ok decoded
  have carried := decodePayload_carries parsed
  cases type
  case chat | keyOffer | roomKeyOffer =>
    cases payload with
    | chat chat =>
      obtain ⟨relayed, chatDecoded⟩ := decodePayload_chat parsed
      obtain ⟨⟨recipient, tag, data⟩, short, -⟩ := decodeChatPayload_ok chatDecoded
      rw [dispatch_chat fd chat relayed]
      exact relay_failsClean _ _ found notBanned tag data short
    | _ => exact carried.elim
  case register =>
    cases payload with
    | register nickname =>
      exact registerNickname_failsClean found (decodeString_ok (decodePayload_register parsed).2).2
    | _ => exact carried.elim
  case listUsers => exact listUsers_failsClean fits _
  all_goals exact sendError_failsClean _

theorem handleClientData_reported {sender : ClientRecord} {frame : Frame} {failure : Failure}
    (fits : ∀ fd record, server.registry.findByFd fd = some record → RecordFits fd record)
    (found : server.registry.findByFd fd = some sender) (notBanned : sender.id ∉ server.bannedIds)
    (throws : Throws server fd frame failure) :
    Reported server fd ((handleClientData fd (some frame)).run server) := by
  have free := not_silenced found notBanned
  rcases throws with undecoded | ⟨message, decoded, failed⟩
  · rw [handleClientData_undecoded free undecoded]
    have failure :=
      reportable (decodeAppMessage_brief frame) (decodeAppMessage_bounded frame) undecoded
    exact catchException_reported failure server fd
  · rw [handleClientData_run free decoded]
    exact (dispatch_failsClean fits found notBanned decoded).reported failed fd

end Handlers

/--
A connected client sends a header and as many bytes as its length field says: the call takes just
these bytes, and if it throws then nothing happens but that the client is sent an error.
-/
theorem bad_message_harmless {server : ServerViewModel} {fd : Fd} {sender : ClientRecord}
    {header body more : Bytes} {length : UInt16} (reachable : Reachable server)
    (connected : server.registry.findByFd fd = some sender)
    (notBanned : sender.id ∉ server.bannedIds) (headerSize : header.length = kMbapHeaderSize)
    (field : readU16Be (header.drop kMbapLengthFieldOffset) = some length) (nonzero : length ≠ 0)
    (bodySize : body.length = length.toNat) (chunks : List Bytes) (after : List Arrival)
    (nonempty : ∀ chunk ∈ chunks, chunk ≠ []) (stream : chunks.flatten = header ++ (body ++ more)) :
    ∃ (frame : Frame) (remaining : List Bytes), frame.pdu = body.tail ∧
      (∀ chunk ∈ remaining, chunk ≠ []) ∧ remaining.flatten = more ∧
      handleArrivals fd server (arriving chunks after) =
        .ok (some ((handleClientData fd (some frame)).run server, arriving remaining after)) ∧
      ∀ failure, Throws server fd frame failure →
        Reported server fd ((handleClientData fd (some frame)).run server) := by
  obtain ⟨frame, pdu, decoded⟩ := decode_whole headerSize field nonzero bodySize
  obtain ⟨remaining, kept, rest, read⟩ :=
    readFrame_whole headerSize field nonzero bodySize decoded chunks after nonempty stream
  refine ⟨frame, remaining, pdu, kept, rest, ?_, fun failure throws => ?_⟩
  · simp only [handleArrivals, if_neg (not_silenced connected notBanned), read, ok_bind,
      except_pure]
  · exact handleClientData_reported (reachable_recordFits reachable) connected notBanned throws

theorem bad_message_harmless_short :
    ∃ (frame : Frame) (remaining : List Bytes), frame.pdu = [0x41] ∧
      (∀ chunk ∈ remaining, chunk ≠ []) ∧ remaining.flatten = encode (makeFrame .listUsers []) ∧
      handleArrivals 3 twoClients (arriving [[0, 7, 0, 0], [0, 2, 0, 0x41] ++
          encode (makeFrame .listUsers [])] []) =
        .ok (some ((handleClientData 3 (some frame)).run twoClients, arriving remaining [])) ∧
      Throws twoClients 3 frame (.runtimeError "PDU too short") ∧
      Reported twoClients 3 ((handleClientData 3 (some frame)).run twoClients) := by
  have reachable : Reachable twoClients := Runs.Reachable.foldl (.start rfl) (by decide +kernel)
  have connected : twoClients.registry.findByFd 3 = some { fd := 3, id := 1 } := by decide +kernel
  obtain ⟨frame, remaining, pdu, kept, rest, handled, reported⟩ :=
    @bad_message_harmless _ _ _ [0, 7, 0, 0, 0, 2] [0, 0x41] (encode (makeFrame .listUsers [])) 2
      reachable connected (by decide +kernel) rfl rfl (by decide) rfl
      [[0, 7, 0, 0], [0, 2, 0, 0x41] ++ encode (makeFrame .listUsers [])] [] (by decide) rfl
  have throws : Throws twoClients 3 frame (.runtimeError "PDU too short") := by
    refine .inl ?_
    rw [decodeAppMessage, pdu]
    rfl
  exact ⟨frame, remaining, pdu, kept, rest, handled, throws, reported _ throws⟩

end ModbusChat.Server
