import ModbusChat.Client.Identity
import ModbusChat.Client.InputCommandParser
import ModbusChat.Shared.Paths
import ModbusChat.Wire.Bounds

set_option autoImplicit false

namespace ModbusChat.Client

open BigEndian Effects PeerKeyStore Wire

section Bounds

variable {cipher : Monocypher}

theorem requireSize_bounded (data : Bytes) (expected : Nat) (label : String) :
    Bounded (requireSize data expected label) :=
  .ite (fun _ => bounded_throw _) fun _ => bounded_ok _

theorem sharedSecret_bounded (mySecret peerPublic : Bytes) :
    Bounded (sharedSecret cipher mySecret peerPublic) :=
  (requireSize_bounded _ _ _).bind fun _ _ => (requireSize_bounded _ _ _).bind fun _ _ =>
    bounded_ok _

theorem aeadDecrypt_bounded (key blob : Bytes) : Bounded (aeadDecrypt cipher key blob) := by
  refine .ite (fun _ => bounded_throw _) fun _ => ?_
  split
  · exact bounded_throw _
  · exact bounded_ok _

theorem sealRoomKey_bounded (nonce mySecret peerPublic roomKey : Bytes) :
    Bounded (sealRoomKey cipher nonce mySecret peerPublic roomKey) :=
  (requireSize_bounded _ _ _).bind fun _ _ => (sharedSecret_bounded _ _).bind fun _ _ =>
    bounded_ok _

theorem openRoomKey_bounded (mySecret peerPublic sealed : Bytes) :
    Bounded (openRoomKey cipher mySecret peerPublic sealed) :=
  (sharedSecret_bounded _ _).bind fun _ _ => (aeadDecrypt_bounded _ _).bind fun _ _ =>
    .ite (fun _ => bounded_throw _) fun _ => bounded_ok _

theorem buildChatLike_bounded (fromId : UInt32) (tag : UInt8) (data text : Bytes) :
    Bounded (buildChatLike fromId tag data text) :=
  (encodeString_bounded text).bind fun _ _ => bounded_ok _

theorem parseIdMessage_bounded (line : Bytes) (fromId : UInt32) :
    Bounded (parseIdMessage line fromId) := by
  unfold parseIdMessage
  split
  · exact bounded_ok _
  · dsimp only
    refine .ite (fun _ => bounded_ok _) fun _ => ?_
    split
    · exact bounded_throw _
    · exact bounded_ok _

theorem parseInputLine_bounded (line : Bytes) (fromId : UInt32) :
    Bounded (parseInputLine line fromId) := by
  refine .ite (fun _ => bounded_ok _) fun _ => .ite (fun _ => bounded_ok _) fun _ =>
    .ite (fun _ => bounded_ok _) fun _ => .ite (fun _ => bounded_ok _) fun _ => ?_
  refine (parseIdMessage_bounded line fromId).bind fun found _ => ?_
  cases found with
  | some message => exact bounded_ok _
  | none =>
    dsimp only
    split
    · exact .ite (fun _ => bounded_ok _) fun _ => bounded_ok _
    · exact bounded_ok _

end Bounds

def InputCommand.Says (client : ClientViewModel) (text : Bytes) (recipientId : UInt32)
    (command : InputCommand) : Prop :=
  command = .chatById recipientId text ∨ ∃ nickname, command = .chatByNickname nickname text ∧
    client.idByNickname.lookup nickname = some recipientId

-- The kinds of steps that the handlers are made of.
inductive Deed where
  | quiet
  | deliver
  | register
  | listUsers
  | offer (peerId : UInt32)
  | share
  | chat (command : InputCommand)
  | keys
  | identity
  | assign
  | learn
  | stop
  | close
  deriving DecidableEq

namespace Deed

def silent : Deed → Bool
  | .register | .listUsers | .offer _ | .share | .chat _ => false
  | .quiet | .deliver | .keys | .identity | .assign | .learn | .stop | .close => true

-- What a message to the server depends on is in place before the first of them is sent.
def settled : Deed → Bool
  | .keys | .identity | .assign | .learn => false
  | .quiet | .deliver | .register | .listUsers | .offer _ | .share | .chat _ | .stop | .close =>
    true

end Deed

def ClientEffect.plain : ClientEffect → Bool
  | .display (.delivered ..) | .display .serverDisconnected => false
  | .display _ | .logInfo _ | .logError _ => true
  | .send .. | .shutdownSocket | .closeStdin => false

inductive Quiet (client : ClientViewModel) : List ClientEffect → ClientViewModel → Prop
  | report {effect : ClientEffect} (plain : effect.plain = true) : Quiet client [effect] client
  | draw (size : Nat) : Quiet client [] { client with random := fun i => client.random (i + size) }

inductive Does (cipher : Monocypher) (client : ClientViewModel) :
    Deed → List ClientEffect → ClientViewModel → Prop
  | quiet {output : List ClientEffect} {after : ClientViewModel}
      (quiet : Quiet client output after) :
      Does cipher client .quiet output after
  | deliver (fromId : UInt32) (text : Bytes) :
      Does cipher client .deliver [.display (.delivered fromId text)] client
  | register {payload : Bytes} (named : client.nickname ≠ [])
      (encoded : encodeRegister client.nickname = .ok payload) :
      Does cipher client .register [.send .register payload] client
  | listUsers : Does cipher client .listUsers [.send .listUsers buildListUsers] client
  -- the id is noted before the offer is built, and stays noted where that throws
  | note {peerId : UInt32} (fresh : peerId ∉ client.keyOfferedTo) :
      Does cipher client (.offer peerId) []
        { client with keyOfferedTo := insert peerId client.keyOfferedTo }
  | offer {peerId : UInt32} {payload : Bytes} (apart : peerId ≠ 0 ∧ peerId ≠ client.myId)
      (fresh : peerId ∉ client.keyOfferedTo)
      (built : buildKeyOffer client.myId peerId client.keyStore.identityPublic = .ok payload) :
      Does cipher client (.offer peerId) [.send .keyOffer payload]
        { client with keyOfferedTo := insert peerId client.keyOfferedTo }
  | share {peerId : UInt32} {peerPk roomKey nonce sealed payload : Bytes}
      (known : client.keyStore.peerPublic peerId = some peerPk)
      (held : client.keyStore.roomKey = some roomKey) (size : nonce.length = kNonceSize)
      (shut : sealRoomKey cipher nonce client.keyStore.identitySecret peerPk roomKey = .ok sealed)
      (built : buildRoomKeyOffer client.myId peerId sealed = .ok payload) :
      Does cipher client .share [.send .roomKeyOffer payload] client
  | direct {command : InputCommand} {recipientId : UInt32}
      {text peerPk nonce sealed payload : Bytes}
      (spoken : command.Says client text recipientId)
      (known : client.keyStore.peerPublic recipientId = some peerPk)
      (size : nonce.length = kNonceSize)
      (shut : encryptForPeer cipher nonce client.keyStore.identitySecret peerPk text = .ok sealed)
      (built : buildChatById client.myId recipientId sealed = .ok payload) :
      Does cipher client (.chat command) [.send .chat payload] client
  | broadcast {text roomKey nonce sealed payload : Bytes}
      (held : client.keyStore.roomKey = some roomKey) (size : nonce.length = kNonceSize)
      (shut : encryptWithRoomKey cipher nonce roomKey text = .ok sealed)
      (built : buildChatBroadcast client.myId sealed = .ok payload) :
      Does cipher client (.chat (.chatBroadcast text)) [.send .chat payload] client
  | keys {operation : Operation} (spares : operation.sparesIdentity = true) :
      Does cipher client .keys [] { client with keyStore := step client.keyStore operation }
  | identity (operation : Operation) :
      Does cipher client .identity [] { client with keyStore := step client.keyStore operation }
  | assign (id : UInt32) : Does cipher client .assign [] { client with myId := id }
  | learn (nicknameById : Table UInt32 Bytes) (idByNickname : Table Bytes UInt32) :
      Does cipher client .learn [] { client with nicknameById, idByNickname }
  | stop : Does cipher client .stop [] { client with running := false }
  | announce :
      Does cipher client .close [.display .serverDisconnected] { client with exitAnnounced := true }
  | close {effect : ClientEffect} (closes : effect = .shutdownSocket ∨ effect = .closeStdin) :
      Does cipher client .close [effect] client

def Doing (cipher : Monocypher) (deeds : List Deed) (stage : Deed → Bool) (client : ClientViewModel)
    (output : List ClientEffect) (after : ClientViewModel) : Prop :=
  ∃ deed ∈ Deed.quiet :: deeds, stage deed = true ∧ Does cipher client deed output after

def Caught (failure : Failure) : Prop := failure ≠ .outOfBounds

section Kinds

variable {α : Type}

abbrev Idle (action : ClientM α) : Prop := action.Takes Quiet Caught

abbrev Prepares (cipher : Monocypher) (deeds : List Deed) (action : ClientM α) : Prop :=
  action.Takes (Doing cipher deeds Deed.silent) Caught

abbrev Speaks (cipher : Monocypher) (deeds : List Deed) (action : ClientM α) : Prop :=
  action.Takes (Doing cipher deeds Deed.settled) Caught

abbrev Conducted (cipher : Monocypher) (deeds : List Deed) (client : ClientViewModel)
    (outcome : Outcome ClientViewModel ClientEffect Failure α) : Prop :=
  outcome.Stages (Doing cipher deeds Deed.silent) (Doing cipher deeds Deed.settled) Caught client

-- The one account of a handler: what it prepares, then what it says.
abbrev Conducts (cipher : Monocypher) (deeds : List Deed) (action : ClientM α) : Prop :=
  action.Stages (Doing cipher deeds Deed.silent) (Doing cipher deeds Deed.settled) Caught

end Kinds

section Combinators

variable {α β : Type} {cipher : Monocypher} {deeds : List Deed} {stage : Deed → Bool}
  {client after : ClientViewModel} {output : List ClientEffect}

theorem Does.doing {deed : Deed} (does : Does cipher client deed output after)
    (member : deed ∈ deeds) (staged : stage deed = true) :
    Doing cipher deeds stage client output after :=
  ⟨deed, .tail _ member, staged, does⟩

theorem Idle.prepares {action : ClientM α} (idle : Idle action) : Prepares cipher deeds action :=
  fun client => (idle client).mono fun quiet => ⟨.quiet, .head _, rfl, .quiet quiet⟩

theorem Idle.speaks {action : ClientM α} (idle : Idle action) : Speaks cipher deeds action :=
  fun client => (idle client).mono fun quiet => ⟨.quiet, .head _, rfl, .quiet quiet⟩

theorem Prepares.conducts {action : ClientM α} (prepares : Prepares cipher deeds action) :
    Conducts cipher deeds action := fun client => (prepares client).early

theorem Speaks.conducts {action : ClientM α} (speaks : Speaks cipher deeds action) :
    Conducts cipher deeds action := fun client => (speaks client).late

theorem Speaks.mono {action : ClientM α} {more : List Deed} (within : deeds ⊆ more)
    (speaks : Speaks cipher deeds action) : Speaks cipher more action := by
  intro client
  refine (speaks client).mono ?_
  rintro _ _ _ ⟨deed, member, settled, does⟩
  exact ⟨deed, List.cons_subset_cons _ within member, settled, does⟩

theorem Conducted.relates {outcome : Outcome ClientViewModel ClientEffect Failure α}
    {relation : ClientViewModel → List ClientEffect → ClientViewModel → Prop}
    (conducted : Conducted cipher deeds client outcome) (chains : Chains relation)
    (each : ∀ {deed client output after}, deed ∈ Deed.quiet :: deeds →
      Does cipher client deed output after → relation client output after) :
    relation client outcome.output outcome.state := by
  refine Outcome.Stages.relates chains ?_ ?_ conducted
  · rintro _ _ _ ⟨deed, member, -, does⟩
    exact each member does
  · rintro _ _ _ ⟨deed, member, -, does⟩
    exact each member does

theorem Conducted.bounded {outcome : Outcome ClientViewModel ClientEffect Failure α}
    (conducted : Conducted cipher deeds client outcome) : Bounded outcome.result :=
  fun thrown => conducted.throws _ thrown rfl

theorem takes_bounded {step : ClientViewModel → List ClientEffect → ClientViewModel → Prop}
    {value : Except Failure α} (bounded : Bounded value) :
    (.lift value : ClientM α).Takes step Caught :=
  Action.takes_lift fun _ same caught => bounded (same.trans (congrArg Except.error caught))

theorem takes_caught {step : ClientViewModel → List ClientEffect → ClientViewModel → Prop}
    {handler : Bytes → ClientM α} (handled : ∀ what, (handler what).Takes step Caught)
    {failure : Failure} (caught : Caught failure) :
    (catchClause handler failure).Takes step Caught := by
  cases failure with
  | outOfBounds => exact absurd rfl caught
  | runtimeError what => exact handled _
  | badVariantAccess => exact handled _

theorem takes_catching {step : ClientViewModel → List ClientEffect → ClientViewModel → Prop}
    {action : ClientM α} {handler : Bytes → ClientM α} (tried : action.Takes step Caught)
    (handled : ∀ what, (handler what).Takes step Caught) :
    (catching action handler).Takes step Caught :=
  tried.tryCatch fun _ => takes_caught handled

theorem Conducts.catching {action : ClientM α} {handler : Bytes → ClientM α}
    (tried : Conducts cipher deeds action) (handled : ∀ what, Idle (handler what)) :
    Conducts cipher deeds (Client.catching action handler) :=
  Action.Stages.tryCatch tried fun _ => takes_caught fun what => (handled what).speaks

theorem catching_returns {action : ClientM α} {handler : Bytes → ClientM α}
    {client : ClientViewModel} (bounded : Bounded (action.run client).result)
    (returns : ∀ what client, ∃ value, ((handler what).run client).result = .ok value) :
    ∃ value, ((catching action handler).run client).result = .ok value := by
  rw [catching, Action.run_tryCatch]
  generalize action.run client = outcome at bounded ⊢
  obtain ⟨state, output, failure | value⟩ := outcome
  · cases failure with
    | outOfBounds => exact absurd rfl bounded
    | runtimeError what => exact returns _ state
    | badVariantAccess => exact returns _ state
  · exact ⟨value, rfl⟩

end Combinators

section Runs

theorem send_online (client : ClientViewModel) (online : client.online = true) (type : MsgType)
    (bytes : Bytes) :
    (send type (.ok bytes)).run client = ⟨client, [.send type bytes], .ok true⟩ := by
  simp [send, online]

theorem attempt_ok (client : ClientViewModel) (value : Bytes) :
    (attempt (.ok value)).run client = ⟨client, [], .ok (.ok value)⟩ := rfl

theorem attempt_error (client : ClientViewModel) (failure : Failure) :
    (attempt (.error failure)).run client =
      match failure.what? with
      | none => ⟨client, [], .error failure⟩
      | some what => ⟨client, [], .ok (.error (ascii what))⟩ := by
  cases failure <;> rfl

theorem attempt_returned {client : ClientViewModel} {result : Except Failure Bytes} {value : Bytes}
    (returned : ((attempt result).run client).result = .ok (.ok value)) : result = .ok value := by
  cases result with
  | ok bytes =>
    obtain rfl : bytes = value := Except.ok.inj (Except.ok.inj returned)
    rfl
  | error failure =>
    rw [attempt_error] at returned
    cases text : failure.what? <;> simp [text] at returned

def ClientViewModel.nonce (client : ClientViewModel) : Bytes :=
  (List.range kNonceSize).map client.random

def ClientViewModel.drawn (client : ClientViewModel) : ClientViewModel :=
  { client with random := fun i => client.random (i + kNonceSize) }

theorem ClientViewModel.nonce_length (client : ClientViewModel) :
    client.nonce.length = kNonceSize := by
  simp [ClientViewModel.nonce]

theorem fillRandom_run (client : ClientViewModel) :
    (fillRandom kNonceSize).run client = ⟨client.drawn, [], .ok client.nonce⟩ := rfl

end Runs

section Idle

theorem idle_report {effect : ClientEffect} (plain : effect.plain = true) :
    Idle (.emit effect : ClientM Unit) := Action.takes_emit fun _ => .report plain

theorem idle_reportError (brief : String) (detail : Bytes) : Idle (reportError brief detail) :=
  (idle_report rfl).bind fun _ => idle_report rfl

theorem idle_reportInfo (brief : String) (detail : Bytes) : Idle (reportInfo brief detail) :=
  (idle_report rfl).bind fun _ => idle_report rfl

theorem idle_fillRandom (size : Nat) : Idle (fillRandom size) := by
  refine Action.takes_get.bind fun client => Action.Takes.bind ?_ fun _ => Action.takes_pure _
  exact Action.takes_modify fun client => .draw size

theorem idle_attempt {result : Except Failure Bytes} (bounded : Bounded result) :
    Idle (attempt result) :=
  takes_catching ((takes_bounded bounded).bind fun _ => Action.takes_pure _) fun _ =>
    Action.takes_pure _

theorem idle_attemptWith {decrypt : Bytes → Except Failure Bytes}
    (bounded : ∀ key, Bounded (decrypt key))
    (key : Option Bytes) (missing : String) : Idle (attemptWith key missing decrypt) := by
  cases key with
  | none => exact Action.takes_pure _
  | some key => exact idle_attempt (bounded key)

theorem idle_decryptDeliver (cipher : Monocypher) (fromId : UInt32) (body : Bytes) :
    Idle (decryptDeliver cipher fromId body) := by
  refine Action.takes_get.bind fun client =>
    Action.Takes.bind (idle_attemptWith (fun key => ?_) _ _) fun direct => ?_
  · exact (sharedSecret_bounded _ _).bind fun _ _ => aeadDecrypt_bounded _ _
  cases direct with
  | ok plain => exact Action.takes_pure _
  | error peerErr =>
    refine Action.Takes.bind (idle_attemptWith (fun key => ?_) _ _) fun room => ?_
    · exact (requireSize_bounded _ _ _).bind fun _ _ => aeadDecrypt_bounded _ _
    cases room with
    | ok plain => exact Action.takes_pure _
    | error roomErr => exact (idle_report rfl).bind fun _ => Action.takes_pure _

theorem idle_unlessSent (sent : Bool) (brief : String) (detail : Bytes) :
    Idle (if sent then return else reportError brief detail : ClientM Unit) := by
  cases sent with
  | true => exact Action.takes_pure _
  | false => exact idle_reportError _ _

theorem badVariant_bounded {α : Type} : Bounded (.error .badVariantAccess : Except Failure α) := by
  rintro ⟨⟩

-- A chat never gets here: its body is opened first and shown by the handler itself.
theorem idle_present {message : AppMessage} (other : message.type ≠ .deliver) :
    Idle (present message) := by
  unfold present
  split
  · exact absurd ‹_› other
  all_goals first
    | exact idle_report rfl
    | exact takes_bounded badVariant_bounded
    | exact Action.takes_pure _

end Idle

section Speaking

variable {cipher : Monocypher} {client : ClientViewModel}

theorem send_takes {step : ClientViewModel → List ClientEffect → ClientViewModel → Prop}
    {type : MsgType} {payload : Except Failure Bytes} (bounded : Bounded payload)
    (sent : ∀ bytes, payload = .ok bytes → step client [.send type bytes] client) :
    ((send type payload).run client).Takes step Caught client := by
  refine (takes_bounded bounded client).bind fun bytes built => ?_
  by_cases online : client.online = true
  · simp only [Action.run_lift, Action.run_bind, Action.run_get, Outcome.andThen_ok,
      Outcome.before_nil, if_pos online, Action.run_emit, Action.run_pure]
    exact ⟨.one (sent bytes built), by simp⟩
  · simp only [Action.run_lift, Action.run_bind, Action.run_get, Outcome.andThen_ok,
      Outcome.before_nil, if_neg online]
    exact Action.takes_pure false client

theorem sendKeyOffer_speaks (peerId : UInt32) :
    Speaks cipher [.offer peerId] (sendKeyOffer peerId) := by
  intro client
  simp only [sendKeyOffer, Action.run_bind, Action.run_get, Outcome.andThen_ok, Outcome.before_nil]
  split_ifs with self offered
  · exact Action.takes_pure () client
  · exact Action.takes_pure () client
  have bounded := buildChatLike_bounded client.myId kRecipientById (writeU32Be peerId)
    client.keyStore.identityPublic
  simp only [Action.run_bind, Action.run_modify, Outcome.andThen_ok, Outcome.before_nil]
  cases built : buildKeyOffer client.myId peerId client.keyStore.identityPublic with
  | error failure =>
    refine ⟨.one ((Does.note offered).doing (.head _) rfl), fun _ same => ?_⟩
    rintro rfl
    obtain rfl := Except.error.inj same
    exact bounded built
  | ok payload =>
    by_cases online : client.online = true
    · rw [send_online { client with keyOfferedTo := insert peerId client.keyOfferedTo } online]
      have told : Speaks cipher [.offer peerId]
          (reportInfo "Sent KeyOffer" (ascii "peer_id=" ++ toDecimal peerId)) :=
        (idle_reportInfo _ _).speaks
      obtain ⟨onward, throws⟩ :=
        told { client with keyOfferedTo := insert peerId client.keyOfferedTo }
      have noted : Doing cipher [.offer peerId] Deed.settled client _ _ :=
        (Does.offer (not_or.mp self) offered built).doing (.head _) rfl
      exact ⟨.step noted onward, throws⟩
    · -- the id is taken out again when the write fails
      have restored :
          { client with keyOfferedTo := (insert peerId client.keyOfferedTo).erase peerId } =
          client := by
        rw [Finset.erase_insert offered]
      simp only [send, Action.run_bind, Action.run_lift, Action.run_get, Outcome.andThen_ok,
        Outcome.before_nil, if_neg online, Action.run_pure, Bool.false_eq_true, if_false,
        Action.run_modify, restored]
      exact (idle_reportError _ _).speaks client

theorem sealing_takes {encrypt build : Bytes → Except Failure Bytes} {type : MsgType}
    {failed : Bytes → ClientM Unit} {sent : Bool → ClientM Unit} {deed : Deed}
    (encrypts : Bounded (encrypt client.nonce)) (builds : ∀ sealed, Bounded (build sealed))
    (fails : ∀ what, Idle (failed what)) (told : ∀ flag, Idle (sent flag))
    (settled : deed.settled = true)
    (does : ∀ sealed payload, encrypt client.nonce = .ok sealed → build sealed = .ok payload →
      Does cipher client.drawn deed [.send type payload] client.drawn) :
    ((do
      let nonce ← fillRandom kNonceSize
      match ← attempt (encrypt nonce) with
      | .error what => failed what
      | .ok sealed => do sent (← send type (build sealed)) : ClientM Unit).run client).Takes
        (Doing cipher [deed] Deed.settled) Caught client := by
  refine ((idle_fillRandom _).speaks client).bind fun nonce drawn => ?_
  obtain rfl : client.nonce = nonce := Except.ok.inj drawn
  refine ((idle_attempt encrypts).speaks _).bind fun result returned => ?_
  cases done : encrypt client.nonce with
  | error failure =>
    cases result with
    | error what => exact (fails what).speaks _
    | ok sealed => cases (attempt_returned returned).symm.trans done
  | ok sealed =>
    rw [done] at returned
    obtain rfl : .ok sealed = result := Except.ok.inj returned
    refine Outcome.Takes.bind (send_takes (builds sealed) fun payload built => ?_) fun flag _ =>
      (told flag).speaks _
    exact (does sealed payload done built).doing (.head _) settled

theorem maybeSendRoomKey_speaks (peerId : UInt32) :
    Speaks cipher [.share] (maybeSendRoomKey cipher peerId) := by
  intro client
  simp only [maybeSendRoomKey, Action.run_bind, Action.run_get, Outcome.andThen_ok,
    Outcome.before_nil]
  cases held : client.keyStore.roomKey with
  | none => exact Action.takes_pure () client
  | some roomKey =>
    cases known : client.keyStore.peerPublic peerId with
    | none => exact Action.takes_pure () client
    | some peerPk =>
      refine sealing_takes (sealRoomKey_bounded _ _ _ _) (fun _ => buildChatLike_bounded _ _ _ _)
        (fun _ => idle_reportError _ _) (fun flag => ?_) rfl fun _ _ shut built => ?_
      · cases flag with
        | true => exact idle_reportInfo _ _
        | false => exact idle_reportError _ _
      · exact .share known held client.nonce_length shut built

theorem SealedChat.speaks {chat : SealedChat} {deed : Deed}
    (encrypts : ∀ key nonce, Bounded (chat.encrypt key nonce))
    (builds : ∀ sealed, Bounded (chat.build sealed)) (settled : deed.settled = true)
    (does : ∀ key sealed payload, chat.key = some key → chat.encrypt key client.nonce = .ok sealed →
      chat.build sealed = .ok payload → Does cipher client.drawn deed [.send .chat payload]
        client.drawn) :
    (chat.send.run client).Takes (Doing cipher [deed] Deed.settled) Caught client := by
  unfold SealedChat.send
  cases held : chat.key with
  | none => exact (idle_reportError _ _).speaks client
  | some key =>
    exact sealing_takes (encrypts key _) builds (fun _ => idle_reportError _ _)
      (fun flag => idle_unlessSent flag _ _) settled fun sealed payload =>
        does key sealed payload held

theorem sendEncryptedChatById_speaks {command : InputCommand} {recipientId : UInt32} {text : Bytes}
    (spoken : command.Says client text recipientId) :
    ((sendEncryptedChatById cipher recipientId text).run client).Takes
      (Doing cipher [.chat command] Deed.settled) Caught client := by
  rw [sendEncryptedChatById_eq]
  refine SealedChat.speaks (fun _ _ => ?_) (fun _ => buildChatLike_bounded _ _ _ _) rfl
    fun key sealed payload known shut built => ?_
  · exact (sharedSecret_bounded _ _).bind fun _ _ => bounded_ok _
  · exact .direct spoken known client.nonce_length shut built

theorem sendEncryptedChatByNickname_speaks (nickname text : Bytes) :
    Speaks cipher [.chat (.chatByNickname nickname text)]
      (sendEncryptedChatByNickname cipher nickname text) := by
  intro client
  simp only [sendEncryptedChatByNickname, Action.run_bind, Action.run_get, Outcome.andThen_ok,
    Outcome.before_nil]
  cases known : client.idByNickname.lookup nickname with
  | none => exact (idle_reportError _ _).speaks client
  | some recipientId => exact sendEncryptedChatById_speaks (.inr ⟨nickname, rfl, known⟩)

theorem sendEncryptedBroadcast_speaks (text : Bytes) :
    Speaks cipher [.chat (.chatBroadcast text)] (sendEncryptedBroadcast cipher text) := by
  intro client
  rw [sendEncryptedBroadcast_eq]
  refine SealedChat.speaks (fun _ _ => ?_) (fun _ => buildChatLike_bounded _ _ _ _) rfl
    fun key sealed payload held shut built => ?_
  · exact (requireSize_bounded _ _ _).bind fun _ _ => bounded_ok _
  · exact .broadcast held client.nonce_length shut built

def InputCommand.deeds : InputCommand → List Deed
  | .listUsers => [.listUsers]
  | .exit => [.stop]
  | .keyOffer recipientId => [.offer recipientId]
  | .invalid => []
  | .chatById recipientId text => [.chat (.chatById recipientId text)]
  | .chatByNickname nickname text => [.chat (.chatByNickname nickname text)]
  | .chatBroadcast text => [.chat (.chatBroadcast text)]

theorem mem_commandDeeds {command : InputCommand} {deed : Deed} (member : deed ∈ command.deeds) :
    deed = .stop ∨ deed = .listUsers ∧ command = .listUsers ∨
      (∃ peerId, deed = .offer peerId ∧ command = .keyOffer peerId) ∨ deed = .chat command := by
  cases command <;> simp_all [InputCommand.deeds]

theorem handleInputCommand_speaks (command : InputCommand) :
    Speaks cipher command.deeds (handleInputCommand cipher command) := by
  cases command with
  | listUsers =>
    intro client
    refine Outcome.Takes.bind (send_takes (bounded_ok _) fun bytes built => ?_) fun flag _ =>
      (idle_unlessSent flag _ _).speaks _
    obtain rfl := Except.ok.inj built
    exact Does.listUsers.doing (.head _) rfl
  | exit => exact Action.takes_modify fun client => Does.stop.doing (.head _) rfl
  | chatById recipientId text => exact fun client => sendEncryptedChatById_speaks (.inl rfl)
  | chatByNickname nickname text => exact sendEncryptedChatByNickname_speaks nickname text
  | chatBroadcast text => exact sendEncryptedBroadcast_speaks text
  | keyOffer recipientId => exact sendKeyOffer_speaks recipientId
  | invalid => exact (idle_reportError _ _).speaks

theorem registerNickname_speaks : Speaks cipher [.register] registerNickname := by
  intro client
  simp only [registerNickname, Action.run_bind, Action.run_get, Outcome.andThen_ok,
    Outcome.before_nil]
  split_ifs with anonymous
  · exact Action.takes_pure () client
  · refine ((idle_report rfl).speaks client).bind fun _ _ => Outcome.Takes.bind ?_ fun flag _ =>
      (idle_unlessSent flag _ _).speaks _
    exact send_takes (encodeString_bounded _) fun payload encoded =>
      (Does.register anonymous encoded).doing (.head _) rfl

end Speaking

section Preparing

variable {cipher : Monocypher} {deeds : List Deed}

theorem setRoomKey_bounded (store : PeerKeyStore) (roomKey : Bytes) :
    Bounded (store.setRoomKey roomKey) :=
  .ite (fun _ => bounded_throw _) fun _ => bounded_ok _

theorem setPeerPublic_bounded (store : PeerKeyStore) (peerId : UInt32) (key : Bytes) :
    Bounded (store.setPeerPublic peerId key) :=
  .ite (fun _ => bounded_throw _) fun _ => bounded_ok _

theorem setIdentity_bounded (store : PeerKeyStore) (secretKey publicKey : Bytes) :
    Bounded (store.setIdentity secretKey publicKey) :=
  .ite (fun _ => bounded_throw _) fun _ => bounded_ok _

theorem Doing.keys {client : ClientViewModel} {keyStore : PeerKeyStore} (operation : Operation)
    (spares : operation.sparesIdentity = true) (stored : step client.keyStore operation = keyStore)
    (member : .keys ∈ deeds) : Doing cipher deeds Deed.silent client [] { client with keyStore } :=
  stored ▸ (Does.keys spares).doing member rfl

theorem storesRoomKey_prepares (roomKey : Bytes) {rest : ClientM Unit} (idle : Idle rest)
    (member : .keys ∈ deeds) :
    Prepares cipher deeds (do
      let keyStore ← Action.lift ((← Action.get).keyStore.setRoomKey roomKey)
      Action.modify fun client => { client with keyStore }
      rest) := by
  intro client
  refine (Action.takes_get client).bind fun _ got => ?_
  obtain rfl := Except.ok.inj got
  refine (takes_bounded (setRoomKey_bounded _ roomKey) client).bind fun keyStore stored => ?_
  refine Outcome.Takes.bind ⟨.one ?_, by simp⟩ fun _ _ => idle.prepares _
  exact Doing.keys (.setRoomKey roomKey) rfl (update_ok stored) member

theorem receiveRoomKey_prepares (fromId : UInt32) (sealed : Bytes) :
    Prepares cipher [.keys] (receiveRoomKey cipher fromId sealed) := by
  refine takes_catching (fun client => ?_) fun what => (idle_reportError _ _).prepares
  refine (Action.takes_get client).bind fun _ got => ?_
  obtain rfl := Except.ok.inj got
  dsimp only
  split
  · exact (idle_reportError _ _).prepares client
  · refine (takes_bounded (openRoomKey_bounded _ _ _) client).bind fun room _ => ?_
    exact storesRoomKey_prepares room (idle_reportInfo _ _) (.head _) client

theorem receivePeerKey_conducts (fromId : UInt32) (key : Bytes) :
    Conducts cipher [.keys, .offer fromId, .share] (receivePeerKey cipher fromId key) := by
  refine Conducts.catching (fun client => ?_) fun what => idle_reportError _ _
  refine (Action.takes_get client).bind_stages fun _ got => ?_
  obtain rfl := Except.ok.inj got
  refine (takes_bounded (setPeerPublic_bounded _ fromId key) client).bind_stages
    fun keyStore stored => ?_
  refine Outcome.Takes.bind_stages ⟨.one ?_, by simp⟩ fun _ _ => ?_
  · exact Doing.keys (.setPeerPublic fromId key) rfl (update_ok stored) (.head _)
  refine Speaks.conducts ?_ _
  refine (idle_reportInfo _ _).speaks.bind fun _ => ?_
  exact ((sendKeyOffer_speaks fromId).mono (by simp)).bind fun _ =>
    (maybeSendRoomKey_speaks fromId).mono (by simp)

theorem foldl_learnNickname (users : List UserInfo) (client : ClientViewModel) :
    ∃ nicknameById idByNickname, users.foldl ClientViewModel.learnNickname client =
      { client with nicknameById, idByNickname } := by
  induction users generalizing client with
  | nil => exact ⟨_, _, rfl⟩
  | cons user users ih =>
    obtain ⟨nicknameById, idByNickname, same⟩ := ih (client.learnNickname user)
    exact ⟨nicknameById, idByNickname, same⟩

theorem learning_prepares {update : ClientViewModel → ClientViewModel} (member : .learn ∈ deeds)
    (learns : ∀ client, ∃ nicknameById idByNickname, update client =
      { client with nicknameById, idByNickname }) :
    Prepares cipher deeds (Action.modify update : ClientM Unit) := by
  refine Action.takes_modify fun client => ?_
  obtain ⟨nicknameById, idByNickname, same⟩ := learns client
  rw [same]
  exact (Does.learn _ _).doing member rfl

def messageDeeds (message : AppMessage) : List Deed :=
  match message.type, message.payload with
  | .deliver, _ => [.deliver]
  | .peerKey, .deliver fromId _ => [.keys, .offer fromId, .share]
  | .roomKey, _ | .bannedIds, _ => [.keys]
  | .userJoined, .userJoined id _ => [.learn, .offer id]
  | .userLeft, _ | .usersList, _ => [.learn]
  | _, _ => []

theorem mem_messageDeeds {message : AppMessage} {deed : Deed}
    (member : deed ∈ messageDeeds message) :
    deed = .deliver ∧ message.type = .deliver ∨ deed = .keys ∨ deed = .share ∨
      (∃ peerId, deed = .offer peerId) ∨
      deed = .learn ∧
      (message.type = .userJoined ∨ message.type = .userLeft ∨ message.type = .usersList) := by
  obtain ⟨type, payload⟩ := message
  cases type <;> cases payload <;> simp_all [messageDeeds]
  all_goals rcases member with rfl | rfl | rfl <;> simp

theorem welcome_speaks {message : AppMessage} (other : message.type ≠ .deliver) (id : UInt32) :
    Speaks cipher [.offer id] (do
      present message
      if id ≠ (← Action.get).myId then sendKeyOffer id else return) := by
  refine (idle_present other).speaks.bind fun _ => Action.takes_get.bind fun client => ?_
  split
  · exact sendKeyOffer_speaks id
  · exact Action.takes_pure _

theorem handleIncoming_conducts (message : AppMessage) :
    Conducts cipher (messageDeeds message) (handleIncoming cipher message) := by
  obtain ⟨type, payload⟩ := message
  have refused : Conducts cipher (messageDeeds ⟨type, payload⟩)
      (.lift (.error .badVariantAccess) : ClientM Unit) :=
    Prepares.conducts (takes_bounded badVariant_bounded)
  have shows (other : type ≠ .deliver) : Idle (present ⟨type, payload⟩) := idle_present other
  cases type
  case deliver =>
    cases payload with
    | deliver fromId text =>
      refine Speaks.conducts ((idle_decryptDeliver _ _ _).speaks.bind fun plain => ?_)
      cases plain with
      | none => exact (idle_reportError _ _).speaks
      | some plain => exact Action.takes_emit fun client => (Does.deliver _ _).doing (.head _) rfl
    | _ => exact refused
  case peerKey =>
    cases payload with
    | deliver fromId text => exact receivePeerKey_conducts fromId text
    | _ => exact refused
  case roomKey =>
    cases payload with
    | deliver fromId text => exact (receiveRoomKey_prepares fromId text).conducts
    | _ => exact refused
  case bannedIds =>
    cases payload with
    | bannedIds ids =>
      refine Prepares.conducts (Action.Takes.bind (Action.takes_modify fun client => ?_) fun _ =>
        (idle_reportInfo _ _).prepares)
      exact Doing.keys (.erasePeers ids) rfl rfl (.head _)
    | _ => exact refused
  case userJoined =>
    cases payload with
    | userJoined id nickname =>
      exact (learning_prepares (.head _) fun client => ⟨_, _, rfl⟩).bind_stages fun _ =>
        ((welcome_speaks (by simp) id).mono (by simp)).conducts
    | _ => exact refused
  case userLeft =>
    cases payload with
    | userLeft id nickname =>
      exact Prepares.conducts ((learning_prepares (.head _) fun client => ⟨_, _, rfl⟩).bind fun _ =>
        (shows (by simp)).prepares)
    | _ => exact refused
  case usersList =>
    cases payload with
    | usersList users =>
      exact Prepares.conducts
        ((learning_prepares (.head _) (foldl_learnNickname users)).bind fun _ =>
        (shows (by simp)).prepares)
    | _ => exact refused
  -- the presenter gets the rest
  all_goals exact (shows (by simp)).speaks.conducts

theorem receiveNext_some (frame : Frame) :
    receiveNext cipher (some frame) =
      catching (Action.lift (decodeAppMessage frame) >>= handleIncoming cipher)
        (reportError "Decode failed") := by
  rw [receiveNext, receive]
  cases decodeAppMessage frame <;> rfl

def frameDeeds (frame : Frame) : List Deed :=
  match decodeAppMessage frame with
  | .ok message => messageDeeds message
  | .error _ => []

theorem handleFrame_conducts (frame : Frame) :
    Conducts cipher (frameDeeds frame)
      (Action.lift (decodeAppMessage frame) >>= handleIncoming cipher) := by
  intro client
  refine (takes_bounded (decodeAppMessage_bounded frame) client).bind_stages
    fun message decoded => ?_
  have same : frameDeeds frame = messageDeeds message := by
    rw [frameDeeds, show decodeAppMessage frame = .ok message from decoded]
  rw [same]
  exact handleIncoming_conducts message client

theorem receiveNext_conducts (frame : Frame) :
    Conducts cipher (frameDeeds frame) (receiveNext cipher (some frame)) := by
  rw [receiveNext_some]
  exact (handleFrame_conducts frame).catching fun what => idle_reportError _ _

theorem receiveNext_returns (frame : Frame) (client : ClientViewModel) :
    ((receiveNext cipher (some frame)).run client).result = .ok () := by
  rw [receiveNext_some]
  exact (catching_returns (Conducted.bounded (handleFrame_conducts frame client)) fun _ _ =>
    ⟨(), rfl⟩).choose_spec

theorem receiveNext_none :
    receiveNext cipher none = catching
      (do
        announceServerLost
        Action.modify fun client => { client with running := false }
        .emit .shutdownSocket
        .emit .closeStdin)
      (reportError "Decode failed") := rfl

theorem announceServerLost_speaks : Speaks cipher [.close, .stop] announceServerLost := by
  intro client
  refine (Action.takes_get client).bind fun _ got => ?_
  obtain rfl := Except.ok.inj got
  split
  · exact Action.takes_pure () client
  · exact ⟨.one (Does.announce.doing (.head _) rfl), by simp [display]⟩

theorem receiveNext_closed : Conducts cipher [.close, .stop] (receiveNext cipher none) := by
  rw [receiveNext_none]
  refine Conducts.catching (Speaks.conducts (announceServerLost_speaks.bind fun _ => ?_))
    fun what =>
    idle_reportError _ _
  refine Action.Takes.bind (Action.takes_modify fun client => Does.stop.doing (by simp) rfl)
    fun _ => ?_
  refine Action.Takes.bind (Action.takes_emit fun client => ?_) fun _ =>
    Action.takes_emit fun client => ?_
  · exact (Does.close (.inl rfl)).doing (.head _) rfl
  · exact (Does.close (.inr rfl)).doing (.head _) rfl

theorem receiveAssignedId_prepares (incoming : Option Frame) :
    Prepares cipher [.assign, .keys, .register] (receiveAssignedId incoming) := by
  have bounded : Bounded (receive incoming) := by
    cases incoming with
    | none => exact bounded_ok _
    | some frame => exact (decodeAppMessage_bounded frame).bind fun _ _ => bounded_ok _
  refine (idle_report rfl).prepares.bind fun _ => (takes_bounded bounded).bind fun message => ?_
  split
  · refine Action.Takes.bind (Action.takes_modify fun client => (Does.assign _).doing (.head _) rfl)
      fun _ => ?_
    refine (idle_report rfl).prepares.bind fun _ => (idle_report rfl).prepares.bind fun _ => ?_
    refine (idle_report rfl).prepares.bind fun _ => Action.takes_get.bind fun client => ?_
    split
    · refine (idle_fillRandom _).prepares.bind fun roomKey => ?_
      exact storesRoomKey_prepares roomKey (idle_reportInfo _ _) (by simp)
    · exact Action.takes_pure _
  · exact takes_bounded badVariant_bounded
  · exact takes_bounded (bounded_throw _)

theorem startUp_conducts (incoming : Option Frame) :
    Conducts cipher [.assign, .keys, .register] (startUp incoming) := by
  refine (receiveAssignedId_prepares incoming).bind_stages fun _ => Speaks.conducts ?_
  refine (registerNickname_speaks.mono (by simp)).bind fun _ => ?_
  exact (idle_report rfl).speaks.bind fun _ => (idle_report rfl).speaks.bind fun _ =>
    (idle_report rfl).speaks

end Preparing

section Identity

variable {cipher : Monocypher}

theorem load_bounded (file : Option Bytes) (password : Bytes) (store : PeerKeyStore) :
    Bounded ((EncryptedKeyStoreFile.load cipher file password).run store).result := by
  have decrypt (sealed : Bytes) : Bounded (decryptKeystore cipher password sealed) :=
    .ite (fun _ => bounded_throw _) fun _ => aeadDecrypt_bounded _ _
  unfold EncryptedKeyStoreFile.load
  split
  · exact bounded_ok _
  split
  · exact bounded_ok _
  exact (readsInside_lift (decrypt _)).bind (fun plain => (deserialize_inside plain).bind fun _ =>
    readsInside_pure _) store

-- What is loaded is what `deserialize` makes of the store, however far it gets.
theorem load_state (file : Option Bytes) (password : Bytes) (store : PeerKeyStore) :
    ((EncryptedKeyStoreFile.load cipher file password).run store).state = store ∨
      ∃ plain, ((EncryptedKeyStoreFile.load cipher file password).run store).state =
        step store (.deserialize plain) := by
  unfold EncryptedKeyStoreFile.load
  split
  · exact .inl rfl
  split
  · exact .inl rfl
  rw [Action.run_bind, Action.run_lift]
  cases decryptKeystore cipher password _ with
  | error failure => exact .inl rfl
  | ok plain =>
    refine .inr ⟨plain, ?_⟩
    rw [Outcome.andThen_ok, Outcome.before_nil, Action.state_bind fun _ => Action.keeps_pure _]
    rfl

theorem loadOrCreateIdentity_prepares {loaded : Except Failure Bool} (bounded : Bounded loaded) :
    Prepares cipher [.identity] (loadOrCreateIdentity cipher loaded) := by
  refine Action.takes_get.bind fun client =>
    Action.Takes.bind (takes_catching (takes_bounded bounded)
    fun what => (idle_reportError _ _).prepares.bind fun _ => Action.takes_pure _) fun found => ?_
  cases found with
  | true => exact (idle_reportInfo _ _).prepares
  | false =>
    refine Action.Takes.bind ((idle_fillRandom _).prepares.bind fun _ => Action.takes_pure _)
      fun pair client => ?_
    refine (Action.takes_get client).bind fun _ got => ?_
    obtain rfl := Except.ok.inj got
    refine (takes_bounded (setIdentity_bounded _ pair.1 pair.2) client).bind
      fun keyStore stored => ?_
    refine Outcome.Takes.bind ⟨.one ?_, by simp⟩ fun _ _ => (idle_reportInfo _ _).prepares _
    have same : step client.keyStore (.setIdentity pair.1 pair.2) = keyStore := update_ok stored
    exact same ▸ (Does.identity (.setIdentity pair.1 pair.2)).doing (.head _) rfl

theorem startIdentity_prepares (file : Option Bytes) (password : Bytes) :
    Prepares cipher [.identity] (startIdentity cipher file password) := by
  intro client
  refine (Action.takes_get client).bind fun _ got => ?_
  obtain rfl := Except.ok.inj got
  refine Outcome.Takes.bind ⟨?_, by simp⟩ fun _ _ =>
    loadOrCreateIdentity_prepares (load_bounded file password client.keyStore) _
  rcases @load_state cipher file password client.keyStore with same | ⟨plain, same⟩
  · simp only [Action.run_modify, same]
    exact .done
  · simp only [Action.run_modify, same]
    exact .one ((Does.identity (.deserialize plain)).doing (.head _) rfl)

end Identity

end ModbusChat.Client
