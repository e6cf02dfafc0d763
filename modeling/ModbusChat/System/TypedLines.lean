import ModbusChat.Client.InputCommandParser
import ModbusChat.Client.Refinement
import ModbusChat.Server.FrameBounds

set_option autoImplicit false

namespace ModbusChat.System

open BigEndian Effects Wire Client Text
open Server (WellFramed)

/--
How a turn of `input_loop` is to end: with an error for the user, or with one sound frame at most.
-/
def Survived (outcome : Outcome ClientViewModel ClientEffect Failure Unit) : Prop :=
  outcome.result = .ok () ∧
    ((∃ text, .display (.error text) ∈ outcome.output) ∨
      (packets outcome.output).length ≤ 1 ∧
        ∀ packet ∈ packets outcome.output, WellFramed packet.type packet.payload)

section Sending

variable {client : ClientViewModel}

def Quiet (action : ClientM Unit) : Prop :=
  ∀ client, (action.run client).result = .ok () ∧ packets (action.run client).output = [] ∧
    ∀ text, .display (.error text) ∉ (action.run client).output

def Reports (action : ClientM Unit) : Prop :=
  ∀ client, (action.run client).result = .ok () ∧
    ∃ text, .display (.error text) ∈ (action.run client).output

theorem quiet_pure : Quiet (pure ()) := fun _ => ⟨rfl, rfl, fun _ => List.not_mem_nil⟩

theorem quiet_reportInfo (brief : String) (detail : Bytes) : Quiet (reportInfo brief detail) := by
  intro client
  refine ⟨rfl, rfl, fun text member => ?_⟩
  simp [reportInfo, display] at member

theorem reports_reportError (brief : String) (detail : Bytes) :
    Reports (reportError brief detail) := by
  intro client
  exact ⟨rfl, ascii brief, by simp [reportError, display]⟩

theorem Reports.after_modify {action : ClientM Unit} (reports : Reports action)
    (update : ClientViewModel → ClientViewModel) : Reports (do Action.modify update; action) :=
  fun client => reports (update client)

theorem Reports.survived {action : ClientM Unit} (reports : Reports action)
    (client : ClientViewModel) :
    Survived (action.run client) :=
  ⟨(reports client).1, .inl (reports client).2⟩

theorem Quiet.survived {action : ClientM Unit} (quiet : Quiet action) (client : ClientViewModel) :
    Survived (action.run client) := by
  obtain ⟨returned, silent, -⟩ := quiet client
  exact ⟨returned, .inr (by simp [silent])⟩

theorem survived_send {type : MsgType} {built : Except Failure Bytes}
    {success failure : ClientM Unit} (quiet : Quiet success) (reports : Reports failure) :
    Survived ((do if ← send type built then success else failure).run client) ↔
      ∃ payload, built = .ok payload ∧ (client.online = true → WellFramed type payload) := by
  cases built with
  | error thrown =>
    constructor
    · rintro ⟨returned, -⟩
      simp [send] at returned
    · rintro ⟨payload, ⟨⟩, -⟩
  | ok payload =>
    cases online : client.online with
    | false =>
      have skipped : (do if ← send type (.ok payload) then success else failure).run client =
          failure.run client := by
        simp [send, online]
      rw [skipped]
      exact iff_of_true (reports.survived client) ⟨payload, rfl,
        fun on => absurd on Bool.false_ne_true⟩
    | true =>
      obtain ⟨returned, silent, content⟩ := quiet client
      have sent : (do if ← send type (.ok payload) then success else failure).run client =
          (success.run client).before [.send type payload] := by
        simp [send_online client online]
      have packet : packets ((success.run client).before [.send type payload]).output =
          [{ type, payload }] := by
        rw [Outcome.before_output, packets_append, silent]
        rfl
      rw [sent]
      constructor
      · rintro ⟨-, ⟨text, shown⟩ | ⟨-, framed⟩⟩
        · -- nothing is wrong in the client's eyes once the frame is out
          rw [Outcome.before_output, List.mem_append] at shown
          exact absurd shown (not_or.mpr ⟨by simp, content text⟩)
        · rw [packet] at framed
          exact ⟨payload, rfl, fun _ => framed _ (List.mem_singleton.mpr rfl)⟩
      · rintro ⟨_, ⟨⟩, framed⟩
        refine ⟨returned, .inr ?_⟩
        rw [packet]
        exact ⟨le_refl 1, List.forall_mem_singleton.mpr (framed rfl)⟩

def BodyFits (client : ClientViewModel) (header size : Nat) : Prop :=
  size ≤ kMaxU16Count ∧ (client.online = true → header + size ≤ 65532)

theorem buildChatLike_fits {type : MsgType} (relayed : type = .chat ∨ type = .keyOffer)
    {recipient : Recipient} {data : Bytes} (written : recipient.data = .ok data) (fromId : UInt32)
    (body : Bytes) :
    (∃ payload, buildChatLike fromId recipient.tag data body = .ok payload ∧
      (client.online = true → WellFramed type payload)) ↔
        BodyFits client (7 + data.length) body.length := by
  set chat : ChatPayload :=
    { fromId, recipientTag := recipient.tag, recipientData := data, text := body }
  have framed {payload : Bytes} (built : encodeChat chat = .ok payload) :
      WellFramed type payload ↔ 7 + data.length + body.length ≤ 65532 :=
    Server.wellFramed_chat_iff relayed rfl written built
  constructor
  · rintro ⟨payload, built, sound⟩
    exact ⟨(encodeChat_eq_ok.mp built).1, fun online => (framed built).mp (sound online)⟩
  · rintro ⟨short, small⟩
    obtain ⟨payload, built⟩ := buildChatLike_ok short fromId recipient.tag data
    exact ⟨payload, built, fun online => (framed built).mpr (small online)⟩

end Sending

section Commands

variable {cipher : Monocypher} {client : ClientViewModel}

def kSealOverhead : Nat := kNonceSize + kMacSize

-- The sizes for a text to one user; keys of other sizes are refused before anything is built.
def DirectFits (client : ClientViewModel) (recipientId : UInt32) (text : Bytes) : Prop :=
  ∀ peerPk, client.keyStore.peerPublic recipientId = some peerPk →
    client.keyStore.identitySecret.length = kSecretKeySize → peerPk.length = kPublicKeySize →
      BodyFits client 11 (kSealOverhead + text.length)

def CommandFits (client : ClientViewModel) : InputCommand → Prop
  | .keyOffer id =>
      id = 0 ∨ id = client.myId ∨ id ∈ client.keyOfferedTo ∨
        BodyFits client 11 client.keyStore.identityPublic.length
  | .chatById recipientId text => DirectFits client recipientId text
  | .chatByNickname nickname text =>
      ∀ recipientId, client.idByNickname.lookup nickname = some recipientId →
        DirectFits client recipientId text
  | .chatBroadcast text =>
      ∀ roomKey, client.keyStore.roomKey = some roomKey → roomKey.length = kRoomKeySize →
        BodyFits client 7 (kSealOverhead + text.length)
  | .listUsers | .exit | .invalid => True

theorem sendKeyOffer_survived (id : UInt32) :
    Survived ((sendKeyOffer id).run client) ↔ CommandFits client (.keyOffer id) := by
  by_cases known : id = 0 ∨ id = client.myId
  · have idle : (sendKeyOffer id).run client = ⟨client, [], .ok ()⟩ := by simp [sendKeyOffer, known]
    rw [idle]
    refine iff_of_true (quiet_pure.survived client) ?_
    rcases known with zero | mine
    · exact .inl zero
    · exact .inr (.inl mine)
  by_cases offered : id ∈ client.keyOfferedTo
  · have idle : (sendKeyOffer id).run client = ⟨client, [], .ok ()⟩ := by
      simp [sendKeyOffer, known, offered]
    rw [idle]
    exact iff_of_true (quiet_pure.survived client) (.inr (.inr (.inl offered)))
  · obtain ⟨nonzero, other⟩ := not_or.mp known
    have run : (sendKeyOffer id).run client =
        (do
          if ← send .keyOffer (buildKeyOffer client.myId id client.keyStore.identityPublic) then
            reportInfo "Sent KeyOffer" (ascii "peer_id=" ++ toDecimal id)
          else do
            Action.modify fun client => { client with keyOfferedTo := client.keyOfferedTo.erase id }
            reportError "Send failed" (ascii "KeyOffer to id=" ++ toDecimal id) : ClientM Unit).run
              { client with keyOfferedTo := insert id client.keyOfferedTo } := by
      simp only [sendKeyOffer, Action.run_bind, Action.run_get, Outcome.andThen_ok,
        Outcome.before_nil, if_neg known, if_neg offered, Action.run_modify]
    -- the peer is noted before the offer is sent, and taken back if that fails
    rw [run, survived_send (quiet_reportInfo _ _) ((reports_reportError _ _).after_modify _)]
    simp only [CommandFits, nonzero, other, offered, false_or]
    exact @buildChatLike_fits client _ (.inr rfl) (.byId id) _ rfl _ _

theorem sealed_length (cipher : Monocypher) (client : ClientViewModel) (key text : Bytes) :
    (aeadEncrypt cipher key client.nonce text).length = kSealOverhead + text.length := by
  rw [aeadEncrypt_length, client.nonce_length, kSealOverhead]

theorem sendEncryptedChatById_survived (recipientId : UInt32) (text : Bytes) :
    Survived ((sendEncryptedChatById cipher recipientId text).run client) ↔
      DirectFits client recipientId text := by
  rw [sendEncryptedChatById_eq, Action.run_bind, Action.run_get, Outcome.andThen_ok,
    Outcome.before_nil]
  cases known : client.keyStore.peerPublic recipientId with
  | none =>
    rw [SealedChat.send_keyless known]
    refine iff_of_true ((reports_reportError _ _).survived _) fun peerPk held => ?_
    simp [known] at held
  | some peerPk =>
    by_cases sizes : client.keyStore.identitySecret.length = kSecretKeySize ∧
        peerPk.length = kPublicKeySize
    · have fits : DirectFits client recipientId text ↔
          BodyFits client 11 (kSealOverhead + text.length) := by
        constructor
        · intro fits
          exact fits peerPk known sizes.1 sizes.2
        · intro fits _ _ _ _
          exact fits
      rw [fits,
        SealedChat.send_sealed known (SealedChat.direct_encrypt sizes.1 sizes.2 client.nonce),
        survived_send quiet_pure (reports_reportError _ _), ← sealed_length cipher client]
      exact @buildChatLike_fits client _ (.inl rfl) (.byId recipientId) _ rfl _ _
    · -- a key of another size is reported, and the text is not even encrypted
      obtain ⟨what, refused⟩ := @sharedSecret_refused cipher _ _ sizes
      have unsealed :
          (SealedChat.direct cipher recipientId text client).encrypt peerPk client.nonce =
          .error (.runtimeError what) := by
        simp only [SealedChat.direct, encryptForPeer, refused, error_bind]
      rw [SealedChat.send_unsealed known unsealed rfl]
      refine iff_of_true ((reports_reportError _ _).survived _) ?_
      intro other held secretSize peerSize
      obtain rfl := Option.some.inj (known.symm.trans held)
      exact absurd ⟨secretSize, peerSize⟩ sizes

theorem sendEncryptedBroadcast_survived (text : Bytes) :
    Survived ((sendEncryptedBroadcast cipher text).run client) ↔
      CommandFits client (.chatBroadcast text) := by
  rw [sendEncryptedBroadcast_eq, Action.run_bind, Action.run_get, Outcome.andThen_ok,
    Outcome.before_nil]
  cases held : client.keyStore.roomKey with
  | none =>
    rw [SealedChat.send_keyless held]
    refine iff_of_true ((reports_reportError _ _).survived _) fun roomKey present => ?_
    simp [held] at present
  | some roomKey =>
    by_cases size : roomKey.length = kRoomKeySize
    · have fits : CommandFits client (.chatBroadcast text) ↔
          BodyFits client 7 (kSealOverhead + text.length) := by
        constructor
        · intro fits
          exact fits roomKey held size
        · intro fits _ _ _
          exact fits
      rw [fits, SealedChat.send_sealed held (SealedChat.broadcast_encrypt size client.nonce),
        survived_send quiet_pure (reports_reportError _ _), ← sealed_length cipher client]
      exact @buildChatLike_fits client _ (.inl rfl) .broadcast _ rfl _ _
    · have unsealed : (SealedChat.broadcast cipher text client).encrypt roomKey client.nonce =
          .error (.runtimeError ("room key" ++ " has invalid size")) := by
        simp only [SealedChat.broadcast, encryptWithRoomKey, requireSize_error _ size, error_bind]
      rw [SealedChat.send_unsealed held unsealed rfl]
      refine iff_of_true ((reports_reportError _ _).survived _) fun other present sized => ?_
      obtain rfl := Option.some.inj (held.symm.trans present)
      exact absurd sized size

theorem handleInputCommand_survived (command : InputCommand) :
    Survived ((handleInputCommand cipher command).run client) ↔ CommandFits client command := by
  cases command with
  | listUsers =>
    have framed : WellFramed .listUsers buildListUsers :=
      (@Server.wellFramed_iff .listUsers _ .listUsers rfl trivial).mpr (by decide)
    simp only [handleInputCommand, survived_send quiet_pure (reports_reportError _ _), CommandFits,
      iff_true]
    exact ⟨_, rfl, fun _ => framed⟩
  | exit => exact iff_of_true ⟨rfl, .inr (by simp [handleInputCommand, packets])⟩ trivial
  | chatById recipientId text => exact sendEncryptedChatById_survived recipientId text
  | chatByNickname nickname text =>
    simp only [handleInputCommand, sendEncryptedChatByNickname, Action.run_bind, Action.run_get,
      Outcome.andThen_ok, Outcome.before_nil, CommandFits]
    cases known : client.idByNickname.lookup nickname with
    | none => exact iff_of_true ((reports_reportError _ _).survived _) (by simp)
    | some recipientId =>
      rw [sendEncryptedChatById_survived]
      simp
  | chatBroadcast text => exact sendEncryptedBroadcast_survived text
  | keyOffer id => exact sendKeyOffer_survived id
  | invalid => exact iff_of_true ((reports_reportError _ _).survived _) trivial

end Commands

/-- A line whose numeral and whose text are small enough, for the state the client is in. -/
def LineFits (client : ClientViewModel) (line : Bytes) : Prop :=
  client.running = true →
    (58 ∈ line → ¬ (ascii "/key").isPrefixOf line → isNumericRecipient (recipientPart line) →
      ofDigits (recipientPart line) < 2 ^ 64) ∧
    ∀ command, parseInputLine line client.myId = .ok command → CommandFits client command

theorem typed_line_survived_iff (cipher : Monocypher) (client : ClientViewModel) (line : Bytes) :
    Survived ((inputLoop cipher [line]).run client) ↔ LineFits client line := by
  cases running : client.running with
  | false =>
    have idle : (inputLoop cipher [line]).run client = ⟨client, [], .ok ()⟩ := by
      simp [inputLoop, running]
    rw [idle]
    exact iff_of_true (quiet_pure.survived client) fun awake => by simp [running] at awake
  | true =>
    by_cases empty : line = []
    · subst empty
      have idle : (inputLoop cipher [[]]).run client = ⟨client, [], .ok ()⟩ := by
        simp [inputLoop]
      rw [idle]
      refine iff_of_true (quiet_pure.survived client) fun _ => ⟨by simp, fun command parsed => ?_⟩
      obtain rfl := Except.ok.inj parsed
      trivial
    · simp only [LineFits, running, true_implies, ← @parseInputLine_returns_iff line client.myId]
      cases parsed : parseInputLine line client.myId with
      | error thrown =>
        -- no handler stands between the parser and the loop
        refine iff_of_false ?_ ?_
        · rintro ⟨returned, -⟩
          simp [inputLoop, running, empty, parsed] at returned
        · rintro ⟨⟨command, ⟨⟩⟩, -⟩
      | ok command =>
        rw [inputLoop_line running empty parsed, handleInputCommand_survived]
        simp

def roomMember : ClientViewModel :=
  { keyStore := { roomKey := some (List.replicate kRoomKeySize 7) }, random := fun _ => 0 }

-- One line throws out of the loop; the other is sent with a length field that is wrong by 65536.
theorem typed_line_deadly :
    ¬ Survived ((inputLoop transparent [ascii "99999999999999999999:x"]).run roomMember) ∧
      ¬ Survived ((inputLoop transparent [kBroadcastRecipient ++ 58 :: List.replicate 65486 97]).run
        roomMember) := by
  constructor
  · rintro ⟨returned, -⟩
    have thrown :
        parseInputLine (ascii "99999999999999999999:x") 0 = .error (.runtimeError "stoul") := by
      decide
    have present : ascii "99999999999999999999:x" ≠ [] := by decide
    simp [inputLoop, roomMember, present, thrown] at returned
  · have present : kBroadcastRecipient ++ 58 :: List.replicate 65486 97 ≠ [] :=
      List.append_ne_nil_of_right_ne_nil _ (List.cons_ne_nil _ _)
    rw [inputLoop_line rfl present parseInputLine_broadcast, handleInputCommand_survived]
    intro fits
    have exceeds := (fits _ rfl (List.length_replicate)).2 rfl
    rw [List.length_replicate] at exceeds
    exact absurd exceeds (by decide)

end ModbusChat.System
