import ModbusChat.System.ChatOrder

set_option autoImplicit false

namespace ModbusChat.Client

open BigEndian Effects Wire

def ClientEffect.shown? : ClientEffect → Option (UInt32 × Bytes)
  | .display (.delivered fromId text) => some (fromId, text)
  | _ => none

def InputCommand.text? : InputCommand → Option Bytes
  | .chatById _ text | .chatByNickname _ text | .chatBroadcast text => some text
  | .listUsers | .exit | .keyOffer _ | .invalid => none

def Mute {α : Type} (action : ClientM α) : Prop := action.Emits fun effect => effect.shown? = none

theorem Does.mute {cipher : Monocypher} {client after : ClientViewModel}
    {output : List ClientEffect}
    {deed : Deed} (does : Does cipher client deed output after) (other : deed ≠ .deliver) :
    ∀ effect ∈ output, effect.shown? = none := by
  cases does with
  | quiet quiet =>
    cases quiet with
    | @report said plain =>
      intro effect member
      obtain rfl := List.mem_singleton.mp member
      cases effect with
      | display line => cases line <;> first | rfl | cases plain
      | _ => rfl
    | draw size => simp
  | deliver => exact absurd rfl other
  | close closes => rcases closes with rfl | rfl <;> simp [ClientEffect.shown?]
  | _ => simp [ClientEffect.shown?]

theorem Conducts.mute {α : Type} {cipher : Monocypher} {deeds : List Deed} {action : ClientM α}
    (conducts : Conducts cipher deeds action) (other : .deliver ∉ deeds) : Mute action := by
  intro client
  refine Conducted.relates (conducts client) (chains_emits fun effect => effect.shown? = none)
    fun member does =>
    does.mute ?_
  rintro rfl
  exact other (by simpa using member)

theorem Idle.mute {α : Type} {action : ClientM α} (idle : Idle action) : Mute action :=
  Conducts.mute (@Idle.speaks _ transparent [] _ idle).conducts (by simp)

def Opens (cipher : Monocypher) (body text : Bytes) : Prop :=
  ∃ key, aeadDecrypt cipher key body = .ok text

section Shown

variable {cipher : Monocypher} {client : ClientViewModel}

theorem attemptWith_ok {key : Option Bytes} {missing : String}
    {decrypt : Bytes → Except Failure Bytes}
    {plain : Bytes}
    (returned : ((attemptWith key missing decrypt).run client).result = .ok (.ok plain)) :
    ∃ held, decrypt held = .ok plain := by
  unfold attemptWith at returned
  split at returned
  · cases returned
  · exact ⟨_, attempt_returned returned⟩

theorem decryptFromPeer_opens {secret peerPk body plain : Bytes}
    (opened : decryptFromPeer cipher secret peerPk body = .ok plain) : Opens cipher body plain := by
  unfold decryptFromPeer at opened
  cases shared : sharedSecret cipher secret peerPk with
  | error failure =>
    rw [shared] at opened
    cases opened
  | ok key =>
    rw [shared] at opened
    exact ⟨key, opened⟩

theorem decryptWithRoomKey_opens {roomKey body plain : Bytes}
    (opened : decryptWithRoomKey cipher roomKey body = .ok plain) : Opens cipher body plain := by
  unfold decryptWithRoomKey at opened
  cases sized : requireSize roomKey kRoomKeySize "room key" with
  | error failure =>
    rw [sized] at opened
    cases opened
  | ok value =>
    rw [sized] at opened
    exact ⟨roomKey, opened⟩

theorem decryptDeliver_opens {fromId : UInt32} {body plain : Bytes}
    (returned : ((decryptDeliver cipher fromId body).run client).result = .ok (some plain)) :
    Opens cipher body plain := by
  unfold decryptDeliver at returned
  obtain ⟨_, got, returned⟩ := Action.result_bind returned
  obtain ⟨first, tried, returned⟩ := Action.result_bind returned
  cases first with
  | ok opened =>
    obtain rfl := Option.some.inj (Except.ok.inj returned)
    obtain ⟨peerPk, opens⟩ := attemptWith_ok tried
    exact decryptFromPeer_opens opens
  | error peerErr =>
    obtain ⟨second, triedRoom, returned⟩ := Action.result_bind returned
    cases second with
    | ok opened =>
      obtain rfl := Option.some.inj (Except.ok.inj returned)
      obtain ⟨roomKey, opens⟩ := attemptWith_ok triedRoom
      exact decryptWithRoomKey_opens opens
    | error roomErr => cases returned

theorem handleIncoming_shown {message : AppMessage} {effect : ClientEffect} {fromId : UInt32}
    {text : Bytes} (member : effect ∈ ((handleIncoming cipher message).run client).output)
    (shown : effect.shown? = some (fromId, text)) :
    message.type = .deliver ∧ ∃ body, message.payload = .deliver fromId body ∧
      Opens cipher body text := by
  have unmute {α : Type} {action : ClientM α} {client : ClientViewModel} (mute : Mute action)
      (member : effect ∈ (action.run client).output) : False := by
    cases (mute client effect member).symm.trans shown
  by_cases deliver : message.type = .deliver
  · refine ⟨deliver, ?_⟩
    obtain ⟨type, payload⟩ := message
    obtain rfl := deliver
    cases payload with
    | deliver sender body =>
      rcases Action.mem_output_bind member with early | ⟨opened, returned, late⟩
      · exact (unmute (idle_decryptDeliver cipher sender body).mute early).elim
      · cases opened with
        | none => exact (unmute (idle_reportError _ _).mute late).elim
        | some plain =>
          obtain rfl : effect = .display (.delivered sender plain) := List.mem_singleton.mp late
          cases shown
          exact ⟨body, rfl, decryptDeliver_opens returned⟩
    | _ => cases member
  · refine (unmute (Conducts.mute (handleIncoming_conducts message) fun shows => deliver ?_)
      member).elim
    have kinds := mem_messageDeeds shows
    simpa using kinds

theorem receiveNext_shown {packet : Packet} {effect : ClientEffect} {fromId : UInt32} {text : Bytes}
    (member : effect ∈ ((receiveNext cipher (some packet.frame)).run client).output)
    (shown : effect.shown? = some (fromId, text)) :
    ∃ body, System.delivered packet = some (fromId, body) ∧ Opens cipher body text := by
  rcases Action.mem_output_tryCatch member with tried | ⟨failure, -, caught⟩
  · rcases Action.mem_output_bind tried with early | ⟨value, received, late⟩
    · cases early
    · cases decoded : decodeAppMessage packet.frame with
      | error failure => simp [receive, decoded] at received
      | ok message =>
        obtain rfl : value = some message := by simpa [receive, decoded, eq_comm] using received
        obtain ⟨deliver, body, carried, opens⟩ := handleIncoming_shown late shown
        obtain ⟨type, payload⟩ := message
        obtain rfl := deliver
        obtain rfl := carried
        obtain ⟨type, parsed⟩ := System.decode_type decoded
        exact ⟨body, by simp only [System.delivered, type, parsed], opens⟩
  · have mute : Mute (catchClause (fun what => reportError "Decode failed" what) failure) := by
      unfold catchClause
      split
      · exact Action.emits_lift _
      · exact (idle_reportError _ _).mute
    cases (mute _ effect caught).symm.trans shown

end Shown

end ModbusChat.Client

namespace ModbusChat.System

open BigEndian Effects Wire Client
open Server (Fd ServerViewModel ClientRecord)

section Call

variable {server : ServerViewModel} {fd : Fd}

theorem mem_inbox_delivered {output : List Server.Effect} {chat : UInt32 × Bytes}
    (member : chat ∈ (inbox fd output).filterMap delivered) :
    ∃ payload, (fd, .deliver, payload) ∈ Server.sends output ∧
      delivered { type := .deliver, payload } = some chat := by
  obtain ⟨packet, told, heard⟩ := List.mem_filterMap.mp member
  have type : packet.type = .deliver := by
    by_contra other
    cases (delivered_other other).symm.trans heard
  obtain ⟨type, payload⟩ := packet
  subst type
  exact ⟨payload, mem_inbox.mp told, heard⟩

theorem relays_of_inbox {call : Server.Event} (fits : ∀ fd record,
      server.registry.findByFd fd = some record → Server.RecordFits fd record)
    (served : Server.Served server call) {chat : UInt32 × Bytes}
    (member : chat ∈ (inbox fd (call.action.run server).output).filterMap delivered) :
    ∃ client frame sender payload, call = .data client (some frame) ∧
      server.registry.findByFd client = some sender ∧
      decodeAppMessage frame = .ok { type := .chat, payload := .chat payload } ∧
      chat = (sender.id, payload.text) := by
  by_cases framed : ∃ client frame, call = .data client (some frame)
  · obtain ⟨client, frame, rfl⟩ := framed
    obtain ⟨sender, found⟩ := served.connected rfl
    obtain ⟨bytes, sent, heard⟩ := mem_inbox_delivered member
    change _ ∈
      Server.sends ((Server.handleClientData client (some frame)).run server).output at sent
    have free : sender.id ∉ server.bannedIds := fun banned => by
      have removes : Server.OnlyRemoves server client sender (.data client (some frame)) :=
        Server.banned_onlyRemoves fits found banned rfl
      rw [onlyRemoves_undelivered removes] at member
      cases member
    rcases Server.handleClientData_relays fits found sent with
      unrelayed | ⟨type, chat, decoded, relayed⟩
    · simp [Server.Unrelayed] at unrelayed
    · obtain ⟨_, -, parsed⟩ := decodeAppMessage_ok decoded
      rcases (decodePayload_chat parsed).1 with rfl | rfl | rfl
      · refine ⟨client, frame, sender, chat, rfl, found, decoded, ?_⟩
        obtain ⟨recipient, target, -, short, -, run⟩ :=
          Server.handleClientData_chat found free decoded
        obtain rfl : bytes = writeU32Be sender.id ++ stringBytes chat.text := by
          rw [run, Server.sends_display] at sent
          split_ifs at sent
          · rw [Server.sends_map_send] at sent
            obtain ⟨other, -, same⟩ := List.mem_map.mp sent
            exact (congrArg (fun sent => sent.2.2) same).symm
          · cases target with
            | error text => simp [Server.sends_relayedTo_error] at sent
            | ok targetFd =>
              exact (Prod.mk.inj (Prod.mk.inj (List.mem_singleton.mp sent)).2).2
        rw [delivered_deliver sender.id short] at heard
        exact (Option.some.inj heard).symm
      · cases relayed
      · cases relayed
  · have silent := @inbox_unframed server fd call fits served fun client frame same =>
      framed ⟨client, frame, same⟩
    rw [silent] at member
    cases member

end Call

def SealedAs (cipher : Monocypher) (text body : Bytes) : Prop :=
  ∃ key nonce, nonce.length = kNonceSize ∧ body = aeadEncrypt cipher key nonce text

theorem SealedAs.opened {cipher : Monocypher} (ideal : cipher.Ideal) {text body plain : Bytes}
    (shut : SealedAs cipher text body) (opens : Opens cipher body plain) : plain = text := by
  obtain ⟨key, nonce, size, rfl⟩ := shut
  obtain ⟨other, opened⟩ := opens
  rcases aeadDecrypt_other ideal size key other text with same | refused
  · exact Except.ok.inj (opened.symm.trans same)
  · cases opened.symm.trans refused

theorem sealed_of_permitted {cipher : Monocypher} {client : ClientViewModel}
    {command : InputCommand}
    {packet : Packet} {chat : ChatPayload}
    (permitted : Permitted cipher client (.typed command) packet)
    (decoded : decodeAppMessage packet.frame = .ok { type := .chat, payload := .chat chat }) :
    ∃ text, SealedAs cipher text chat.text ∧ command.text? = some text := by
  have type := (decode_type decoded).1
  cases permitted with
  | @direct _ _ text peerPk nonce _ _ spoken known size shut built =>
    cases (decode_buildChatById built).symm.trans decoded
    refine ⟨text, ?_, ?_⟩
    · unfold encryptForPeer at shut
      cases shared : sharedSecret cipher client.keyStore.identitySecret peerPk with
      | error failure =>
        rw [shared] at shut
        cases shut
      | ok key =>
        rw [shared] at shut
        exact ⟨key, nonce, size, (Except.ok.inj shut).symm⟩
    · rcases spoken with rfl | ⟨nickname, rfl, -⟩ <;> rfl
  | @broadcast text roomKey nonce _ _ held size shut built =>
    cases (@decode_encodeChat _ .broadcast _ rfl rfl built).symm.trans decoded
    refine ⟨text, ?_, rfl⟩
    unfold encryptWithRoomKey at shut
    cases sized : requireSize roomKey kRoomKeySize "room key" with
    | error failure =>
      rw [sized] at shut
      cases shut
    | ok value =>
      rw [sized] at shut
      exact ⟨roomKey, nonce, size, (Except.ok.inj shut).symm⟩
  | listUsers | keyOffer => cases type

def speaks (world : World) : WildEvent → List (UInt32 × Bytes)
  | .own (.command fd command) =>
      match world.server.registry.findByFd fd, command.text? with
      | some record, some text => [(record.id, text)]
      | _, _ => []
  | _ => []

def shows (cipher : Monocypher) (world : World) (fd : Fd) : List (UInt32 × Bytes) :=
  match world.nodes.lookup fd with
  | some { client, started := true, fromServer := packet :: _, .. } =>
      ((receiveNext cipher (some packet.frame)).run client).output.filterMap ClientEffect.shown?
  | _ => []

/-- Whoever has an id sends only what the program sends. -/
def Vouched (id : UInt32) (world : World) : WildEvent → Prop
  | .own _ => True
  | .frame fd _ => ∀ record ∈ world.server.registry.findByFd fd, record.id ≠ id

instance Vouched.decidable (id : UInt32) (world : World) :
    (event : WildEvent) → Decidable (Vouched id world event)
  | .own _ => .isTrue trivial
  | .frame fd _ =>
    inferInstanceAs (Decidable (∀ record ∈ world.server.registry.findByFd fd, record.id ≠ id))

-- Every chat on its way is the encryption of a text that was typed under the id it goes under.
structure World.Attributed (cipher : Monocypher) (id : UInt32) (world : World)
    (spoken : List (UInt32 × Bytes)) : Prop where
  sane : world.Sane cipher
  honest : ∀ fd node, world.nodes.lookup fd = some node → node.Honest
  written : ∀ fd node record packet chat, world.nodes.lookup fd = some node →
    world.server.registry.findByFd fd = some record → packet ∈ node.toServer ++ node.typing →
    decodeAppMessage packet.frame = .ok { type := .chat, payload := .chat chat } →
    ∃ text, SealedAs cipher text chat.text ∧ (record.id, text) ∈ spoken
  queued : ∀ fd node body, world.nodes.lookup fd = some node →
    (id, body) ∈ node.fromServer.filterMap delivered →
    ∃ text, SealedAs cipher text body ∧ (id, text) ∈ spoken

section Attributed

variable {cipher : Monocypher} {id : UInt32} {world : World} {spoken : List (UInt32 × Bytes)}

theorem wild_sameId (sane : world.Sane cipher) {event : WildEvent}
    (may : WildAllowed cipher world event)
    {fd : Fd} {record later : ClientRecord}
    (found : world.server.registry.findByFd fd = some record)
    (still : (wildStep cipher world event).server.registry.findByFd fd = some later) :
    later.id = record.id := by
  rw [wild_server sane.connected] at still
  cases calls : event.call? world with
  | none =>
    rw [calls] at still
    rw [Option.some.inj (found.symm.trans still)]
  | some call =>
    rw [calls] at still
    exact Server.step_sameId (wild_served sane.connected may calls) found still

theorem World.Attributed.written_step (attributed : world.Attributed cipher id spoken)
    {event : WildEvent} (may : WildAllowed cipher world event) {fd : Fd} {node next : Node}
    {record : ClientRecord} (here : world.nodes.lookup fd = some node)
    (found : world.server.registry.findByFd fd = some record)
    (moved : OutStep cipher world event fd node next) {packet : Packet} {chat : ChatPayload}
    (member : packet ∈ next.toServer ++ next.typing)
    (decoded : decodeAppMessage packet.frame = .ok { type := .chat, payload := .chat chat }) :
    ∃ text, SealedAs cipher text chat.text ∧ (record.id, text) ∈ spoken ++ speaks world event := by
  have chats := (decode_type decoded).1
  have old (before : packet ∈ node.toServer ++ node.typing) :
      ∃ text, SealedAs cipher text chat.text ∧
        (record.id, text) ∈ spoken ++ speaks world event := by
    obtain ⟨text, shut, said⟩ :=
      attributed.written fd node record packet chat here found before decoded
    exact ⟨text, shut, List.mem_append_left _ said⟩
  have honest := attributed.honest fd node here
  cases moved with
  | kept toServer typing => exact old (toServer ▸ typing ▸ member)
  | read queue receives toServer typing =>
    refine old ?_
    rw [queue]
    rw [toServer, typing] at member
    exact List.mem_cons_of_mem _ member
  | @handled received rest =>
    obtain ⟨more, plain, toServer, typing, -⟩ :=
      @handle_out cipher { node with fromServer := rest } received
    rw [toServer, typing, List.append_assoc, List.mem_append, List.mem_append] at member
    rcases member with early | late | mine
    · exact old (List.mem_append_left _ early)
    · exact absurd chats (plain packet late)
    · exact old (List.mem_append_right _ mine)
  | @obeyed command typed =>
    subst typed
    rcases List.mem_append.mp member with early | late
    · exact old (List.mem_append_left _ early)
    · obtain ⟨text, shut, said⟩ := sealed_of_permitted
        (action_confined cipher (.typed command) node.client packet late) decoded
      refine ⟨text, shut, List.mem_append_right _ ?_⟩
      simp [speaks, found, said]
  | @flushed thread =>
    cases thread with
    | input => exact old (node.flush_input ▸ member)
    | receiver =>
      rw [Node.flush, List.append_assoc, List.mem_append, List.mem_append] at member
      rcases member with early | late | mine
      · exact old (List.mem_append_left _ early)
      · exact absurd chats (honest.replies packet (List.mem_of_mem_take late))
      · exact old (List.mem_append_right _ mine)

theorem World.Attributed.told_step (attributed : world.Attributed cipher id spoken)
    {event : WildEvent} (may : WildAllowed cipher world event) (vouched : Vouched id world event)
    {call : Server.Event} (calls : event.call? world = some call) {fd : Fd} {body : Bytes}
    (member : (id, body) ∈ (inbox fd (call.action.run world.server).output).filterMap delivered) :
    ∃ text, SealedAs cipher text body ∧ (id, text) ∈ spoken := by
  obtain ⟨author, frame, sender, payload, rfl, found, decoded, same⟩ := relays_of_inbox
    (Server.reachable_recordFits attributed.sane.reachable)
    (wild_served attributed.sane.connected may calls) member
  obtain ⟨rfl, rfl⟩ := Prod.mk.inj same
  cases event with
  | frame target arrived =>
    cases calls
    exact absurd rfl (vouched sender found)
  | own event =>
    cases event with
    | serverReceive target =>
      obtain ⟨packet, waits, same⟩ := Option.map_eq_some_iff.mp calls
      cases same
      obtain ⟨node, here, queue⟩ := Option.bind_eq_some_iff.mp waits
      refine attributed.written author node sender packet payload here found ?_ decoded
      exact List.mem_append_left _ (List.mem_of_mem_head? queue)
    | leave target =>
      simp only [WildEvent.call?] at calls
      split_ifs at calls
      cases calls
    | join | ban | clientReceive | command | flush => cases calls

theorem World.Attributed.queued_step (attributed : world.Attributed cipher id spoken)
    {event : WildEvent} (may : WildAllowed cipher world event) (vouched : Vouched id world event)
    {fd : Fd} {node next : Node} (here : world.nodes.lookup fd = some node)
    (moved : NodeStep cipher world event fd node next) {body : Bytes}
    (member : (id, body) ∈ next.fromServer.filterMap delivered) :
    ∃ text, SealedAs cipher text body ∧ (id, text) ∈ spoken := by
  have old := attributed.queued fd node body here
  cases moved with
  | told calls client started heard =>
    rw [heard, List.filterMap_append, List.mem_append] at member
    rcases member with before | arrives
    · exact old before
    · exact attributed.told_step may vouched calls arrives
  | handled reads queue =>
    rw [handle_fromServer] at member
    refine old ?_
    rw [queue, List.filterMap_cons]
    split
    · exact member
    · exact List.mem_cons_of_mem _ member
  | obeyed => exact old member
  | kept idle quiet client started same => exact old (same ▸ member)

theorem wildStep_attributed (attributed : world.Attributed cipher id spoken) {event : WildEvent}
    (may : WildAllowed cipher world event) (vouched : Vouched id world event) :
    (wildStep cipher world event).Attributed cipher id (spoken ++ speaks world event) where
  sane := wildStep_sane attributed.sane may
  honest := wildStep_honest attributed.sane attributed.honest may
  written := by
    intro fd next record packet chat now found member decoded
    cases wild_origin attributed.sane.connected may now with
    | stayed here =>
      obtain ⟨early, listed⟩ := attributed.sane.record_of_node here
      rw [wild_sameId attributed.sane may listed found]
      exact attributed.written_step may here listed (out_step attributed.sane may here now)
        member decoded
    | joined vacant accepted short genuine calls fresh =>
      rw [fresh] at member
      cases member
  queued := by
    intro fd next body now member
    cases wild_origin attributed.sane.connected may now with
    | stayed here moved =>
      obtain ⟨text, shut, said⟩ := attributed.queued_step may vouched here moved member
      exact ⟨text, shut, List.mem_append_left _ said⟩
    | joined vacant accepted short genuine calls fresh =>
      rw [fresh] at member
      simp [delivered_other] at member

end Attributed

/--
Whenever a client shows a text under an id, this text was typed before at a client that the server
knew by this id. The others may send what they like, only not from a connection that has the id.
-/
theorem shown_texts_typed {cipher : Monocypher} (ideal : cipher.Ideal) {id : UInt32}
    {events : List WildEvent}
    (admissible : Runs.Admissible (fun world event => WildAllowed cipher world event ∧
      Vouched id world event) (wildStep cipher) {} events)
    {fd : Fd} {text : Bytes}
    (shown : (id, text) ∈ shows cipher (events.foldl (wildStep cipher) {}) fd) :
    (id, text) ∈ Runs.observed speaks (wildStep cipher) {} events := by
  have start : World.Attributed cipher id {} [] :=
    ⟨wild_sane (.start rfl), by simp, by simp, by simp⟩
  have attributed := admissible.accounted (World.Attributed cipher id)
    (fun _ _ _ attributed may => wildStep_attributed attributed may.1 may.2) start
  rw [List.nil_append] at attributed
  unfold shows at shown
  split at shown
  · rename_i client typing replying toServer packet rest here
    obtain ⟨effect, member, same⟩ := List.mem_filterMap.mp shown
    obtain ⟨body, carried, opens⟩ := receiveNext_shown member same
    obtain ⟨plain, shut, said⟩ := attributed.queued fd _ body here
      (List.mem_filterMap.mpr ⟨packet, List.mem_cons_self, carried⟩)
    rwa [shut.opened ideal opens]
  · cases shown

def metBefore (own peer : UInt8) (peerId : UInt32) : PeerKeyStore :=
  { createdStore transparent (fun _ => own) with
    peers := (∅ : Table UInt32 Bytes).insert peerId (List.replicate kPublicKeySize peer) }

-- The first client says `hi` to the second, and the server passes it on.
def greeting : List WildEvent :=
  [.own (.join 3 [] (some (metBefore 7 9 2)) fun _ => 7), .own (.clientReceive 3),
    .own (.join 4 [] (some (metBefore 9 7 1)) fun _ => 9), .own (.clientReceive 4),
    .own (.command 3 (.chatById 2 (ascii "hi"))), .own (.flush 3 .input), .own (.serverReceive 3)]

theorem shown_texts_typed_greeting :
    shows transparent (greeting.foldl (wildStep transparent) {}) 4 = [(1, ascii "hi")] ∧
      (1, ascii "hi") ∈ Runs.observed speaks (wildStep transparent) {} greeting := by
  have shown :
      shows transparent (greeting.foldl (wildStep transparent) {}) 4 = [(1, ascii "hi")] := by
    decide +kernel
  have admissible : Runs.Admissible (fun world event => WildAllowed transparent world event ∧
      Vouched 1 world event) (wildStep transparent) {} greeting := by decide +kernel
  exact ⟨shown, shown_texts_typed transparent_ideal admissible (shown ▸ List.mem_singleton_self _)⟩

end ModbusChat.System
