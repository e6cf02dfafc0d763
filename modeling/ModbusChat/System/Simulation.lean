import ModbusChat.Client.Refinement
import ModbusChat.Server.Answers
import ModbusChat.System.Network

set_option autoImplicit false

namespace ModbusChat.System

open BigEndian Effects Wire Client
open Server (Fd ServerViewModel ClientRecord)

def IdsLeft (world : World) : Event → Prop
  | .join _ _ _ _ => Server.RoomLeft world.server
  | _ => True

-- The client can send: it is connected, and its nickname fits into a frame.
def Node.Ready (node : Node) : Prop :=
  node.client.online = true ∧ node.client.nickname.length ≤ kMaxU16Count

theorem Node.Ready.of_settings {node after : Node} (ready : node.Ready)
    (same : after.client.settings = node.client.settings) : after.Ready :=
  ⟨(congrArg Prod.snd same).trans ready.1,
    (congrArg (List.length ∘ Prod.fst) same).trans_le ready.2⟩

-- The server has only run its own code, and each connection has a client at its other end.
structure World.Consistent (world : World) : Prop where
  served : Runs.Reachable Server.Initial Server.IdsLeft Server.step world.server
  connected : ∀ fd, fd ∈ world.nodes ↔ fd ∈ world.server.registry.allFds
  ready : ∀ fd node, world.nodes.lookup fd = some node → node.Ready

namespace World.Consistent

variable {world : World} (consistent : world.Consistent)
include consistent

theorem reachable : Server.Reachable world.server :=
  consistent.served.weaken fun _ _ => Server.IdsLeft.allowed

theorem tidy : Server.Tidy world.server := Server.reachable_tidy consistent.served

theorem sound : world.server.registry.Sound := Server.reachable_sound consistent.reachable

theorem complete : world.server.registry.Complete := Server.reachable_complete consistent.served

theorem fits {fd : Fd} {record : ClientRecord}
    (found : world.server.registry.findByFd fd = some record) :
    Server.RecordFits fd record :=
  Server.reachable_recordFits consistent.reachable fd record found

theorem node_of_record {fd : Fd} {record : ClientRecord}
    (found : world.server.registry.findByFd fd = some record) :
    ∃ node, world.nodes.lookup fd = some node := by
  have listed := Server.mem_allFds.mpr ⟨record, found⟩
  exact Table.mem_iff_lookup.mp ((consistent.connected fd).mpr listed)

theorem record_of_node {fd : Fd} {node : Node} (found : world.nodes.lookup fd = some node) :
    ∃ record, world.server.registry.findByFd fd = some record := by
  have present := (consistent.connected fd).mp (Table.mem_iff_lookup.mpr ⟨node, found⟩)
  exact Server.mem_allFds.mp present

theorem party_eq_none {fd : Fd} : world.party fd = none ↔ world.nodes.lookup fd = none := by
  unfold World.party
  cases found : world.nodes.lookup fd with
  | none => simp
  | some node =>
    obtain ⟨record, listed⟩ := consistent.record_of_node found
    simp [listed]

end World.Consistent

theorem Node.party_hear (node : Node) (id : UInt32) (packets : List Packet) :
    ({ node with fromServer := node.fromServer ++ packets } : Node).party id =
      (node.party id).hear (packets.map Packet.notice) := by
  simp [Node.party, Party.hear]

theorem World.call_lookup (world : World) (event : Server.Event) (fd : Fd) :
    (world.call event).nodes.lookup fd =
      if fd ∈ (Server.step world.server event).registry.clientsByFd then
        (world.nodes.lookup fd).map fun node =>
          { node with
            fromServer := node.fromServer ++ inbox fd (event.action.run world.server).output }
      else none := by
  simp only [World.call, Table.lookup_restrict, Table.lookup_mapWithKey, decide_eq_true_eq]
  rfl

theorem World.call_party (world : World) (event : Server.Event) (fd : Fd) :
    (world.call event).party fd =
      (world.nodes.lookup fd).bind fun node =>
        ((Server.step world.server event).registry.findByFd fd).map fun record =>
          (node.party record.id).hear
            ((inbox fd (event.action.run world.server).output).map Packet.notice) := by
  rw [World.party, World.call_lookup,
    show (world.call event).server = Server.step world.server event from rfl]
  cases found : (Server.step world.server event).registry.findByFd fd with
  | none =>
    have absent : fd ∉ (Server.step world.server event).registry.clientsByFd :=
      AList.lookup_eq_none.mp found
    cases world.nodes.lookup fd <;> simp [absent]
  | some record =>
    have present : fd ∈ (Server.step world.server event).registry.clientsByFd :=
      Table.mem_iff_lookup.mpr ⟨record, found⟩
    cases world.nodes.lookup fd with
    | none => simp
    | some node => simp [present, Node.party_hear]

theorem inbox_send (fd target : Fd) (type : MsgType) (payload : Bytes)
    (output : List Server.Effect) :
    inbox fd (.send target type payload :: output) =
      if target = fd then { type, payload } :: inbox fd output else inbox fd output := by
  simp only [inbox, Server.sends, List.filterMap_cons, Server.Effect.sent?, List.filter_cons]
  by_cases same : target = fd <;> simp [same]

section Node

variable {cipher : Monocypher} {banned : Finset UInt32} {node : Node} {id : UInt32}

theorem identity_short (base : (node.party id).Base cipher banned) :
    node.client.keyStore.identityPublic.length ≤ kMaxU16Count := by
  have size : node.client.keyStore.identityPublic.length = kPublicKeySize :=
    base.wellFormed.publicSize
  rw [size]
  decide

theorem Node.handle_follows (base : (node.party id).Base cipher banned)
    (ready : node.Ready) {packet : Packet}
    {rest : List Packet}
    (heard : (node.party id).fromServer = packet.notice :: rest.map Packet.notice) :
    (Node.handle cipher { node with fromServer := rest } packet).client.settings =
      node.client.settings ∧
    ((node.started = true ∧ ∃ nonce, nonce.length = kNonceSize ∧
      (Node.handle cipher { node with fromServer := rest } packet).party id =
        { node.party id with
          fromServer := rest.map Packet.notice
          agent := ((node.party id).agent.receive cipher nonce packet.notice).1
          replying := ((node.party id).agent.receive cipher nonce packet.notice).2 }) ∨
    (node.started = false ∧ ∃ createRoom fresh chatter, packet.notice = .assigned id createRoom ∧
      fresh.length = kRoomKeySize ∧ (∀ request ∈ chatter, request = .other) ∧
      (Node.handle cipher { node with fromServer := rest } packet).party id =
        { node.party id with
          started := true
          fromServer := rest.map Packet.notice
          agent := (node.party id).agent.start id createRoom fresh
          toServer := (node.party id).toServer ++ chatter })) := by
  cases started : node.started with
  | true =>
    obtain ⟨nonce, size, follows⟩ :=
      @receiveNext_follows cipher node.client ready.1 (identity_short base) packet
    simp only [Node.handle, started, if_true, Node.party, follows.agent, follows.requests,
      follows.settings, true_and]
    exact .inl ⟨nonce, size, rfl⟩
  | false =>
    obtain ⟨⟨createRoom, others, first⟩, -⟩ := base.waiting started
    have told : packet.notice = .assigned id createRoom :=
      (List.cons.inj (heard.symm.trans first)).1
    obtain ⟨fresh, chatter, size, plain, returned, follows⟩ := startUp_follows ready.1 ready.2 told
    have ended : ((startUp (some packet.frame)).run node.client).result.isOk = true := by
      rw [returned]
      rfl
    simp only [Node.handle, started, Bool.false_eq_true, if_false, Node.party, follows.agent,
      follows.settings, ended, List.map_append, follows.requests, true_and]
    exact .inr ⟨createRoom, fresh, chatter, told, size, plain, rfl⟩

theorem Node.obey_follows (base : (node.party id).Base cipher banned)
    (ready : node.Ready)
    (input : InputCommand) :
    (node.obey cipher input).client.settings = node.client.settings ∧
    ∃ chatter, (∀ request ∈ chatter, request = .other) ∧
      (node.obey cipher input).party id =
        { node.party id with
          agent := ((node.party id).agent.command input).1
          typing := ((node.party id).agent.command input).2 ++ chatter } := by
  obtain ⟨chatter, plain, follows⟩ :=
    @handleInputCommand_follows cipher node.client ready.1 (identity_short base) input
  refine ⟨follows.settings, chatter, plain, ?_⟩
  simp only [Node.party, Node.obey, follows.agent, follows.requests]

end Node

theorem inbox_broadcast {output : List Server.Effect} {targets : List Fd} {type : MsgType}
    {payload : Bytes}
    (sent : Server.sends output = targets.map fun target => (target, type, payload))
    (distinct : targets.Nodup) (fd : Fd) :
    inbox fd output = if fd ∈ targets then [{ type, payload }] else [] := by
  rw [inbox, sent]
  clear sent
  induction targets with
  | nil => rfl
  | cons target targets ih =>
    obtain ⟨new, distinct⟩ := List.nodup_cons.mp distinct
    have rest := ih distinct
    rw [List.map_cons, List.filter_cons]
    by_cases same : target = fd
    · subst same
      simp only [new, if_false, List.map_eq_nil_iff] at rest
      simp [rest]
    · simpa [same, Ne.symm same] using rest

theorem accept_inbox {fd : Fd} (accepted : ¬ fd < 0) (server : ServerViewModel) (error : String)
    (other : Fd) :
    inbox other ((Server.acceptClient fd error).run server).output =
      if other = fd then
        [{ type := .assignId
           payload := encodeAssignId server.allocateClientId.1 server.registry.allFds.isEmpty }]
      else if other ∈ server.registry.allFds then
        [{ type := .userJoined
           payload := userBytes { id := server.allocateClientId.1, nickname := [] } }]
      else [] := by
  have distinct : ((server.enroll fd).registry.allFds.filter (· ≠ fd)).Nodup :=
    (AList.keys_nodup _).filter _
  have rest := inbox_broadcast (Server.sends_map_send _ .userJoined
    (userBytes { id := server.allocateClientId.1, nickname := [] })) distinct other
  simp only [List.mem_filter, Server.mem_allFds_enroll, decide_eq_true_eq] at rest
  rw [Server.acceptClient_run accepted]
  change inbox other (.send fd .assignId _ :: _) = _
  rw [inbox_send]
  by_cases same : other = fd
  · subst same
    simpa using rest
  · simpa [same, Ne.symm same] using rest

theorem notice_userJoined (id : UInt32) {nickname : Bytes}
    (short : nickname.length ≤ kMaxU16Count) :
    (Packet.mk .userJoined (userBytes { id, nickname })).notice = .joined id := by
  simp only [Packet.notice, decodePayload, @decodeUserInfo_bytes { id, nickname } short, ok_bind,
    except_pure]

theorem notice_assignId (id : UInt32) (createRoom : Bool) :
    (Packet.mk .assignId (encodeAssignId id createRoom)).notice = .assigned id createRoom := by
  have decoded : decodePayload (encodeAssignId id createRoom) .assignId =
      .ok (.assignId id createRoom) := decodePayload_encodePayload trivial rfl
  simp only [Packet.notice, decoded]

theorem notice_peerKey (fromId : UInt32) {text : Bytes} (short : text.length ≤ kMaxU16Count) :
    (Packet.mk .peerKey (writeU32Be fromId ++ stringBytes text)).notice = .peerKey fromId text := by
  simp only [Packet.notice, decodePayload, decodeDeliverPayload_bytes short]

theorem notice_roomKey (fromId : UInt32) {text : Bytes} (short : text.length ≤ kMaxU16Count) :
    (Packet.mk .roomKey (writeU32Be fromId ++ stringBytes text)).notice = .roomKey fromId text := by
  simp only [Packet.notice, decodePayload, decodeDeliverPayload_bytes short]

theorem notice_keyless {id : UInt32} {sent : Fd × MsgType × Bytes}
    (keyless : Server.Keyless id sent) :
    (Packet.mk sent.2.1 sent.2.2).notice = .other ∨
      (Packet.mk sent.2.1 sent.2.2).notice = .joined id := by
  rcases keyless with type | type | type | ⟨type, nickname, short, bytes⟩
  · exact .inl (by simp [Packet.notice, type])
  · exact .inl (by simp [Packet.notice, type])
  · exact .inl (by simp [Packet.notice, type])
  · rw [type, bytes]
    exact .inr (notice_userJoined id short)

theorem decoded_short {frame : Frame} {type : MsgType} {chat : ChatPayload}
    (decoded : decodeAppMessage frame = .ok { type, payload := .chat chat }) :
    chat.text.length ≤ kMaxU16Count := by
  obtain ⟨payload, -, parsed⟩ := decodeAppMessage_ok decoded
  exact (decodeChatPayload_ok (decodePayload_chat parsed).2).2.1

theorem addressed_cases (make : UInt32 → Bytes → Request) (chat : ChatPayload) :
    addressed make chat = .misaddressed ∨
      ∃ peerId, chat.recipientTag = kRecipientById ∧ readU32Be chat.recipientData = some peerId ∧
        addressed make chat = make peerId chat.text := by
  unfold addressed
  split_ifs with tag
  · cases data : readU32Be chat.recipientData with
    | none => exact .inl rfl
    | some peerId => exact .inr ⟨peerId, tag, rfl, rfl⟩
  · exact .inl rfl

-- An offer is a message to one id that the server passes on; nothing else brings a key.
theorem request_cases (packet : Packet) :
    packet.request = .misaddressed ∨
    (packet.request = .other ∧ ∀ type chat,
      decodeAppMessage packet.frame = .ok { type, payload := .chat chat } → type = .chat) ∨
    (∃ chat peerId, decodeAppMessage packet.frame =
      .ok { type := .keyOffer, payload := .chat chat } ∧
      chat.recipientTag = kRecipientById ∧ readU32Be chat.recipientData = some peerId ∧
      packet.request = .keyOffer peerId chat.text) ∨
    ∃ chat peerId, decodeAppMessage packet.frame =
      .ok { type := .roomKeyOffer, payload := .chat chat } ∧
      chat.recipientTag = kRecipientById ∧ readU32Be chat.recipientData = some peerId ∧
      packet.request = .roomKeyOffer peerId chat.text := by
  obtain ⟨type, payload⟩ := packet
  -- what carries no key is decoded as a chat only if it is of that type
  have plain (apart : type ≠ .keyOffer ∧ type ≠ .roomKeyOffer ∨ ∀ chat,
      decodePayload payload type ≠ .ok (.chat chat)) (type' : MsgType) (chat : ChatPayload)
      (decoded : decodeAppMessage (makeFrame type payload) =
        .ok { type := type', payload := .chat chat }) :
      type' = .chat := by
    rw [decodeAppMessage_frame] at decoded
    obtain ⟨value, parsed, same⟩ := bind_eq_ok.mp decoded
    obtain ⟨rfl, rfl⟩ := AppMessage.mk.inj (Except.ok.inj same)
    rcases apart with ⟨noKey, noRoomKey⟩ | noChat
    · exact ((decodePayload_chat parsed).1.resolve_right (by simp [noKey, noRoomKey]))
    · exact absurd parsed (noChat chat)
  cases type
  case keyOffer =>
    simp only [Packet.request, Packet.frame]
    cases parsed : decodePayload payload .keyOffer with
    | error failure => exact .inr (.inl ⟨rfl, plain (.inr (by simp [parsed]))⟩)
    | ok value =>
      cases value with
      | chat chat =>
        rcases addressed_cases .keyOffer chat with wrong | ⟨peerId, tag, data, offered⟩
        · exact .inl wrong
        · refine .inr (.inr (.inl ⟨chat, peerId, ?_, tag, data, offered⟩))
          rw [decodeAppMessage_frame, parsed, ok_bind, except_pure]
      | _ => exact (decodePayload_carries parsed).elim
  case roomKeyOffer =>
    simp only [Packet.request, Packet.frame]
    cases parsed : decodePayload payload .roomKeyOffer with
    | error failure => exact .inr (.inl ⟨rfl, plain (.inr (by simp [parsed]))⟩)
    | ok value =>
      cases value with
      | chat chat =>
        rcases addressed_cases .roomKeyOffer chat with wrong | ⟨peerId, tag, data, offered⟩
        · exact .inl wrong
        · refine .inr (.inr (.inr ⟨chat, peerId, ?_, tag, data, offered⟩))
          rw [decodeAppMessage_frame, parsed, ok_bind, except_pure]
      | _ => exact (decodePayload_carries parsed).elim
  all_goals exact .inr (.inl ⟨rfl, plain (.inl ⟨by simp, by simp⟩)⟩)

theorem inbox_removal {server : ServerViewModel} {fd client : Fd} {record here : ClientRecord}
    {event : Server.Event}
    (removal : Server.OnlyRemoves server client record event)
    (listed : server.registry.findByFd fd = some here) (apart : fd ≠ client) :
    inbox fd (event.action.run server).output =
      [{ type := .userLeft
         payload := userBytes { id := record.id, nickname := record.nickname } }] := by
  obtain ⟨others, distinct, remaining, run⟩ := removal
  have sent : Server.sends (event.action.run server).output = others.map fun other =>
      (other, .userLeft, userBytes { id := record.id, nickname := record.nickname }) := by
    rw [run]
    exact Server.sends_map_send _ _ _
  have target : fd ∈ others := (remaining fd).mpr ⟨Server.mem_allFds.mpr ⟨here, listed⟩, apart⟩
  rw [inbox_broadcast sent distinct, if_pos target]

section Steps

variable {cipher : Monocypher} {world : World} (consistent : world.Consistent)
include consistent

theorem call_remove {fd : Fd} {party : Party} (connected : world.party fd = some party) :
    (world.call (.remove fd)).network =
      { world.network with
        nextId := (world.call (.remove fd)).nextId
        parties := world.network.dismiss fd } := by
  obtain ⟨node, record, here, found, rfl⟩ := World.party_eq.mp connected
  have removal := Server.removeClient_onlyRemoves (fun _ _ => consistent.fits) found
  ext1
  · funext other
    change (world.call (.remove fd)).party other = world.network.dismiss fd other
    rw [World.call_party, Server.step_remove, Server.findByFd_drop_eq, Network.dismiss]
    split_ifs with same
    · cases world.nodes.lookup other <;> rfl
    · change _ = (world.party other).map _
      unfold World.party
      cases world.nodes.lookup other with
      | none => rfl
      | some node =>
        cases listed : world.server.registry.findByFd other with
        | none => rfl
        | some record =>
          simp only [inbox_removal removal listed same]
          rfl
  · change (Server.step world.server (.remove fd)).bannedIds = _
    rw [Server.step_remove]
    exact Server.drop_bannedIds _ _
  · rfl
  · rfl

theorem call_remove_absent {fd : Fd} (absent : world.party fd = none) :
    (world.call (.remove fd)).network =
      { world.network with nextId := (world.call (.remove fd)).nextId } := by
  have missing : world.server.registry.findByFd fd = none := by
    cases found : world.server.registry.findByFd fd with
    | none => rfl
    | some record =>
      obtain ⟨node, here⟩ := consistent.node_of_record found
      simp [World.party, here, found] at absent
  have run := Server.removeClient_missing missing
  ext1
  · funext other
    change (world.call (.remove fd)).party other = world.party other
    rw [World.call_party, Server.step_remove, Server.drop_none missing]
    simp only [Server.Event.action, run]
    unfold World.party
    cases world.nodes.lookup other with
    | none => rfl
    | some node =>
      cases world.server.registry.findByFd other with
      | none => rfl
      | some record => simp [inbox, Server.sends, Party.hear]
  · exact congrArg (fun outcome => outcome.state.bannedIds) run
  · rfl
  · rfl

omit consistent in
theorem findByFd_accept {fd : Fd} (accepted : ¬ fd < 0) (other : Fd) :
    (Server.step world.server (.accept fd "")).registry.findByFd other =
      if other = fd then some { fd, id := world.nextId }
        else world.server.registry.findByFd other := by
  rw [Server.step_accept, if_neg accepted]
  simp only [ServerViewModel.enroll, Server.allocateClientId_registry,
    Server.ClientRegistry.findByFd_add]
  rfl

omit consistent in
theorem call_accept {fd : Fd} {nickname : Bytes} {saved : Option PeerKeyStore}
    {random : Nat → UInt8} (accepted : ¬ fd < 0) :
    (step cipher world (.join fd nickname saved random)).network =
      { world.network with
        nextId := (step cipher world (.join fd nickname saved random)).nextId
        parties := world.network.welcome fd
          (.newcomer world.network.nextId (launch cipher nickname saved random).agent
            world.server.registry.allFds.isEmpty)
        history := .joined fd world.givers :: world.history } := by
  have run := Server.acceptClient_run accepted world.server ""
  have heard := accept_inbox accepted world.server ""
  rw [show world.server.allocateClientId.1 = world.nextId from rfl] at run heard
  ext1
  · funext other
    change (World.call _ _).party other = world.network.welcome fd _ other
    rw [World.call_party]
    simp only [Server.Event.action, findByFd_accept accepted, heard, Table.lookup_insert_eq,
      Network.welcome]
    by_cases same : other = fd
    · simp only [if_pos same, Option.bind_some, Option.map_some, List.map_cons, List.map_nil,
        notice_assignId]
      rfl
    · simp only [if_neg same]
      change _ = (world.party other).map _
      unfold World.party
      cases world.nodes.lookup other with
      | none => rfl
      | some node =>
        cases listed : world.server.registry.findByFd other with
        | none => rfl
        | some record =>
          have target := Server.mem_allFds.mpr ⟨record, listed⟩
          simp only [if_pos target, List.map_cons, List.map_nil,
            @notice_userJoined world.nextId [] (Nat.zero_le _)]
          rfl
  · exact (congrArg (fun outcome => outcome.state.bannedIds) run).trans
      (Server.allocateClientId_bannedIds _)
  · rfl
  · rfl

theorem isEmpty_iff :
    world.server.registry.allFds.isEmpty = true ↔ ∀ fd, world.party fd = none := by
  simp only [consistent.party_eq_none, List.isEmpty_iff]
  constructor
  · intro empty fd
    cases found : world.nodes.lookup fd with
    | none => rfl
    | some node =>
      have listed := (consistent.connected fd).mp (Table.mem_iff_lookup.mpr ⟨node, found⟩)
      simp [empty] at listed
  · intro none
    refine List.eq_nil_iff_forall_not_mem.mpr fun fd listed => ?_
    obtain ⟨node, found⟩ := Table.mem_iff_lookup.mp ((consistent.connected fd).mpr listed)
    simp [none fd] at found

omit consistent in
theorem mem_givers {fd : Fd} : fd ∈ world.givers ↔ world.network.Gives fd := by
  simp only [World.givers, List.mem_filter, decide_eq_true_eq]
  constructor
  · rintro ⟨-, party, connected, gives⟩
    exact ⟨party, connected, gives⟩
  · rintro ⟨party, connected, gives⟩
    obtain ⟨node, record, here, -⟩ := World.party_eq.mp connected
    exact ⟨Table.mem_iff_lookup.mpr ⟨node, here⟩, party, connected, gives⟩

theorem join_moves {fd : Fd} {nickname : Bytes} {saved : Option PeerKeyStore} {random : Nat → UInt8}
    (allowed : Allowed cipher world (.join fd nickname saved random))
    (room : Server.RoomLeft world.server) :
    Moves cipher world.network (.join fd nickname saved random)
      (step cipher world (.join fd nickname saved random)).network := by
  obtain ⟨closed, accepted, -, genuine⟩ := allowed
  have assigned := Server.allocateClientId_correct consistent.tidy room
  rw [call_accept accepted]
  refine .join ?_ (UInt32.pos_iff_ne_zero.mp assigned.positive) ?_ genuine (isEmpty_iff consistent)
    fun other => mem_givers
  · refine consistent.party_eq_none.mpr ?_
    cases found : world.nodes.lookup fd with
    | none => rfl
    | some node =>
      obtain ⟨record, listed⟩ := consistent.record_of_node found
      exact absurd (Table.mem_iff_lookup.mpr ⟨record, listed⟩) closed
  · intro other party connected same
    obtain ⟨node, record, -, found, rfl⟩ := World.party_eq.mp connected
    have held : world.server.allocateClientId.1 ∈ world.server.connectedIds :=
      Server.mem_connectedIds.mpr ⟨other, record, found, same⟩
    exact assigned.unused (Finset.mem_union_left _ held)

omit consistent in
theorem ban_moves (ids : List UInt32) :
    Moves cipher world.network (.ban ids) (step cipher world (.ban ids)).network := by
  have state : Server.step world.server (.ban ids) = (Server.insertBans ids world.server).2 :=
    Server.step_ban _ _
  have registry := Server.insertBans_registry ids world.server
  have banned : (Server.insertBans ids world.server).2.bannedIds = world.network.bannedAfter ids :=
    Server.insertBans_bannedIds ids world.server
  have inserted : ∀ id ∈ (Server.insertBans ids world.server).1,
      id ∈ world.network.bannedAfter ids := by
    intro id newly
    obtain ⟨listed, nonzero⟩ := Server.insertBans_newly ids world.server id newly
    refine Finset.mem_union_right _ (List.mem_toFinset.mpr (List.mem_filter.mpr ⟨listed, ?_⟩))
    exact decide_eq_true nonzero
  -- whoever is not banned hears `heard`, which the length of the message decides about
  obtain ⟨heard, told, delivered⟩ : ∃ heard : List Notice,
      (heard = [.banned (Server.insertBans ids world.server).1] ∨ heard = []) ∧
      ∀ fd record, world.server.registry.findByFd fd = some record →
        (inbox fd ((Server.banIds ids).run world.server).output).map Packet.notice =
          if record.id ∈ world.network.bannedAfter ids then [] else heard := by
    rcases Server.banIds_sends ids world.server with silent | ⟨short, sent⟩
    · exact ⟨[], .inr rfl, fun fd record found => by simp [inbox, silent]⟩
    · refine ⟨_, .inl rfl, fun fd record found => ?_⟩
      have distinct : (world.server.registry.allFds.filter fun fd =>
          ∃ client ∈ world.server.registry.findByFd fd,
            ¬ (Server.insertBans ids world.server).2.isBanned client.id).Nodup :=
        (AList.keys_nodup _).filter _
      have target : (fd ∈ world.server.registry.allFds.filter fun fd =>
          ∃ client ∈ world.server.registry.findByFd fd,
            ¬ (Server.insertBans ids world.server).2.isBanned client.id) ↔
          record.id ∉ world.network.bannedAfter ids := by
        have listed := Server.mem_allFds.mpr ⟨record, found⟩
        simp [List.mem_filter, listed, found, ServerViewModel.isBanned, banned]
      simp only [inbox_broadcast sent distinct, target]
      split_ifs
      · rfl
      · simp only [List.map_cons, List.map_nil, Packet.notice, decodePayload,
          decodeBannedIds_bytes short]
  have after : (step cipher world (.ban ids)).network =
      { world.network with
        nextId := (step cipher world (.ban ids)).nextId
        banned := world.network.bannedAfter ids
        parties := fun other => (world.network.parties other).map fun party =>
          party.hear (if party.id ∈ world.network.bannedAfter ids then [] else heard) } := by
    ext1
    · funext other
      change (world.call (.ban ids)).party other = (world.party other).map _
      rw [World.call_party, state, registry]
      unfold World.party
      cases world.nodes.lookup other with
      | none => rfl
      | some node =>
        cases found : world.server.registry.findByFd other with
        | none => rfl
        | some record =>
          have told := delivered other record found
          simp only [Option.bind_some, Option.map_some, Server.Event.action, told]
          rfl
    · exact (congrArg ServerViewModel.bannedIds state).trans banned
    · rfl
    · rfl
  rw [after]
  exact .ban inserted told

omit consistent in
theorem updateNode_party {fd : Fd} {node : Node} {record : ClientRecord} (update : Node → Node)
    (here : world.nodes.lookup fd = some node)
    (found : world.server.registry.findByFd fd = some record) :
    (world.updateNode fd update).party = world.network.put fd ((update node).party record.id) := by
  funext other
  simp only [World.updateNode, here, World.party, Table.lookup_insert_eq, Network.put,
    World.network]
  split_ifs with same
  · simp [same, found]
  · rfl

theorem updateNode_consistent {fd : Fd} {update : Node → Node}
    (ready : ∀ node, world.nodes.lookup fd = some node → (update node).Ready) :
    (world.updateNode fd update).Consistent := by
  unfold World.updateNode
  cases here : world.nodes.lookup fd with
  | none => exact consistent
  | some node =>
    refine ⟨consistent.served, fun other => ?_, fun other found lookup => ?_⟩
    · rw [← consistent.connected other, AList.mem_insert]
      constructor
      · rintro (rfl | member)
        · exact Table.mem_iff_lookup.mpr ⟨node, here⟩
        · exact member
      · exact .inr
    · rw [Table.lookup_insert_eq] at lookup
      split_ifs at lookup
      · exact Option.some.inj lookup ▸ ready node here
      · exact consistent.ready other found lookup

omit consistent in
theorem step_frame_ids {server : ServerViewModel} {fd : Fd} {frame : Frame}
    (free : ¬ ∃ client ∈ server.registry.findByFd fd, server.isBanned client.id) (other : Fd) :
    ((Server.step server (.data fd (some frame))).registry.findByFd other).map ClientRecord.id =
      (server.registry.findByFd other).map ClientRecord.id := by
  rcases Server.step_frame free with same | ⟨nickname, may, renamed⟩
  · rw [same]
  · obtain ⟨record, found, -⟩ := may.connected
    rw [renamed, ServerViewModel.rename, (Server.ClientRegistry.setNickname_some nickname found).1]
    split_ifs with same
    · rw [same, found]
      rfl
    · rfl

omit consistent in
theorem call_frame_party {fd : Fd} {frame : Frame}
    (free : ¬ ∃ client ∈ world.server.registry.findByFd fd, world.server.isBanned client.id)
    (other : Fd) :
    (world.call (.data fd (some frame))).party other =
      (world.party other).map (·.hear ((inbox other
        ((Server.handleClientData fd (some frame)).run world.server).output).map
          Packet.notice)) := by
  have ids := @step_frame_ids world.server fd frame free other
  rw [World.call_party]
  unfold World.party
  cases world.nodes.lookup other with
  | none => rfl
  | some node =>
    cases before : world.server.registry.findByFd other with
    | none =>
      rw [before, Option.map_none, Option.map_eq_none_iff] at ids
      simp [ids]
    | some record =>
      rw [before, Option.map_some] at ids
      obtain ⟨renamed, after, same⟩ := Option.map_eq_some_iff.mp ids
      simp [after, same, Server.Event.action]

theorem offer_heard {fd : Fd} {sender : ClientRecord} {frame : Frame} {type : MsgType}
    {chat : ChatPayload} {peerId : UInt32} {told : Notice}
    (found : world.server.registry.findByFd fd = some sender)
    (free : sender.id ∉ world.server.bannedIds)
    (decoded : decodeAppMessage frame = .ok { type, payload := .chat chat })
    (tag : chat.recipientTag = kRecipientById) (data : readU32Be chat.recipientData = some peerId)
    (delivered : (Packet.mk (Server.deliverType type)
      (writeU32Be sender.id ++ stringBytes chat.text)).notice = told) :
    ∃ noise : Fd → List Notice, (∀ other, ∀ notice ∈ noise other, notice = .other) ∧
      ∀ other receiver, world.server.registry.findByFd other = some receiver →
        (inbox other ((Server.handleClientData fd (some frame)).run world.server).output).map
            Packet.notice =
          (if receiver.id = peerId ∧ peerId ∉ world.server.bannedIds then [told] else []) ++
            noise other := by
  rcases Server.offer_sends consistent.sound consistent.complete found free decoded tag data with
    ⟨targetFd, target, listed, same, notBanned, sent⟩ | ⟨nobody, text, sent⟩
  · refine ⟨fun _ => [], by simp, fun other receiver there => ?_⟩
    rw [List.append_nil, inbox, sent]
    by_cases here : targetFd = other
    · subst here
      obtain rfl := Option.some.inj (listed.symm.trans there)
      simp [same, notBanned, delivered]
    · have apart : receiver.id ≠ peerId := fun equal =>
        here (consistent.complete.distinct there listed (same.trans equal.symm))
      simp [here, apart]
  · refine ⟨fun other => if fd = other then [.other] else [], ?_, fun other receiver there => ?_⟩
    · intro other notice member
      by_cases here : fd = other
      · simpa [here] using member
      · simp [here] at member
    · rw [if_neg (nobody other receiver there), inbox, sent]
      by_cases here : fd = other
      · simp [here, Packet.notice]
      · simp [here]

theorem frame_heard {fd : Fd} {sender : ClientRecord} {packet : Packet}
    (found : world.server.registry.findByFd fd = some sender)
    (free : sender.id ∉ world.server.bannedIds) (addressed : packet.request ≠ .misaddressed) :
    ∃ noise : Fd → List Notice,
      (∀ other, ∀ notice ∈ noise other, notice = .other ∨ notice = .joined sender.id) ∧
      ∀ other receiver, world.server.registry.findByFd other = some receiver →
        (inbox other ((Server.handleClientData fd (some packet.frame)).run world.server).output).map
            Packet.notice =
          relayed world.server.bannedIds sender.id receiver.id packet.request ++ noise other := by
  rcases request_cases packet with misaddressed | ⟨other, plain⟩ |
    ⟨chat, peerId, decoded, tag, data, offered⟩ | ⟨chat, peerId, decoded, tag, data, offered⟩
  · exact absurd misaddressed addressed
  · refine ⟨_, ?_, fun fd receiver there => by rw [other, relayed, List.nil_append]⟩
    intro fd notice member
    obtain ⟨packet, heard, rfl⟩ := List.mem_map.mp member
    obtain ⟨sent, sentTo, rfl⟩ := List.mem_map.mp heard
    have keyless :=
      Server.handleClientData_keyless found free plain sent (List.mem_filter.mp sentTo).1
    exact notice_keyless keyless
  · rw [offered]
    obtain ⟨noise, harmless, heard⟩ := offer_heard consistent found free decoded tag data
      (notice_peerKey sender.id (decoded_short decoded))
    exact ⟨noise, fun other notice member => .inl (harmless other notice member), heard⟩
  · rw [offered]
    obtain ⟨noise, harmless, heard⟩ := offer_heard consistent found free decoded tag data
      (notice_roomKey sender.id (decoded_short decoded))
    exact ⟨noise, fun other notice member => .inl (harmless other notice member), heard⟩

theorem call_banned {fd : Fd} {sender : ClientRecord}
    (found : world.server.registry.findByFd fd = some sender)
    (banned : sender.id ∈ world.server.bannedIds) (frame : Frame) :
    world.call (.data fd (some frame)) = world.call (.remove fd) := by
  have run : (Server.Event.data fd (some frame)).action.run world.server =
      (Server.Event.remove fd).action.run world.server :=
    Server.handleClientData_banned found (consistent.fits found).short banned (some frame)
  simp only [World.call, run]

theorem call_frame {fd : Fd} {sender : ClientRecord} {packet : Packet}
    (found : world.server.registry.findByFd fd = some sender)
    (free : sender.id ∉ world.server.bannedIds) (addressed : packet.request ≠ .misaddressed) :
    ∃ noise : Fd → List Notice,
      (∀ other, ∀ notice ∈ noise other, notice = .other ∨ notice = .joined sender.id) ∧
      (world.call (.data fd (some packet.frame))).network =
        { world.network with
          nextId := (world.call (.data fd (some packet.frame))).nextId
          parties := fun other => (world.network.parties other).map fun receiver =>
            receiver.hear (relayed world.network.banned sender.id receiver.id packet.request ++
              noise other) } := by
  have allowed := Server.not_silenced found free
  obtain ⟨noise, harmless, heard⟩ := frame_heard consistent found free addressed
  refine ⟨noise, harmless, ?_⟩
  ext1
  · funext other
    change (world.call _).party other = (world.party other).map _
    rw [call_frame_party allowed]
    cases present : world.party other with
    | none => rfl
    | some party =>
      obtain ⟨node, record, -, listed, rfl⟩ := World.party_eq.mp present
      simp only [Option.map_some, heard other record listed]
      rfl
  · change (Server.step world.server (.data fd (some packet.frame))).bannedIds = _
    rcases Server.step_frame allowed with same | ⟨nickname, -, renamed⟩
    · rw [same]
      rfl
    · rw [renamed]
      rfl
  · rfl
  · rfl

omit consistent in
theorem updateNode_server (fd : Fd) (update : Node → Node) :
    (world.updateNode fd update).server = world.server := by
  unfold World.updateNode
  split <;> rfl

omit consistent in
theorem updateNode_history (fd : Fd) (update : Node → Node) :
    (world.updateNode fd update).history = world.history := by
  unfold World.updateNode
  split <;> rfl

omit consistent in
theorem idle_moves (event : Event) : Moves cipher world.network event world.network :=
  @Moves.idle cipher world.network event world.nextId

omit consistent in
theorem updateNode_network {fd : Fd} {node : Node} {record : ClientRecord} (update : Node → Node)
    (here : world.nodes.lookup fd = some node)
    (found : world.server.registry.findByFd fd = some record) :
    (world.updateNode fd update).network =
      { world.network with parties := world.network.put fd ((update node).party record.id) } := by
  ext1
  · exact updateNode_party update here found
  · exact congrArg ServerViewModel.bannedIds (updateNode_server fd update)
  · exact congrArg (fun server => server.allocateClientId.1) (updateNode_server fd update)
  · exact updateNode_history fd update

theorem serve_moves (base : world.network.Base cipher) (fd : Fd) :
    Moves cipher world.network (.serverReceive fd)
      (step cipher world (.serverReceive fd)).network := by
  cases here : world.nodes.lookup fd with
  | none =>
    simp only [step, here]
    exact idle_moves _
  | some node =>
    cases queue : node.toServer with
    | nil =>
      simp only [step, here, queue]
      exact idle_moves _
    | cons packet rest =>
      obtain ⟨record, found⟩ := consistent.record_of_node here
      have connected : world.network.parties fd = some (node.party record.id) :=
        World.party_eq.mpr ⟨node, record, here, found, rfl⟩
      have requests :
          (node.party record.id).toServer = packet.request :: rest.map Packet.request := by
        simp [Node.party, queue]
      simp only [step, here, queue]
      -- the message is off the queue before the server looks at it
      have taken : (world.updateNode fd fun node => { node with toServer := rest }).Consistent :=
        updateNode_consistent consistent fun node here => consistent.ready fd node here
      have network := updateNode_network (fun node => { node with toServer := rest }) here found
      have server := @updateNode_server world fd fun node => { node with toServer := rest }
      generalize (world.updateNode fd fun node => { node with toServer := rest }) = read at *
      by_cases banned : record.id ∈ world.server.bannedIds
      · obtain ⟨still, present⟩ : ∃ party, read.network.parties fd = some party := by
          rw [network]
          exact ⟨_, Network.put_eq.mpr (.inl ⟨rfl, rfl⟩)⟩
        rw [call_banned taken (server ▸ found) (server ▸ banned), call_remove taken present,
          network, Network.dismiss_put]
        exact .leave connected (.inr ⟨rfl, banned⟩)
      · have told : packet.request ≠ .misaddressed := by
          intro wrong
          refine (base.each connected).addressed (List.mem_append_left _ ?_)
          rw [requests, wrong]
          exact List.mem_cons_self
        obtain ⟨noise, harmless, left⟩ := call_frame taken (server ▸ found) (server ▸ banned) told
        rw [left, network]
        exact .serve connected banned requests harmless

theorem leave_moves (fd : Fd) :
    Moves cipher world.network (.leave fd) (step cipher world (.leave fd)).network := by
  change Moves cipher world.network (.leave fd) (world.call (.remove fd)).network
  cases connected : world.party fd with
  | none =>
    rw [call_remove_absent consistent connected]
    exact .idle
  | some party =>
    rw [call_remove consistent connected]
    exact .leave connected (.inl rfl)

theorem receive_moves (base : world.network.Base cipher) {fd : Fd}
    (allowed : Allowed cipher world (.clientReceive fd)) :
    Moves cipher world.network (.clientReceive fd)
      (step cipher world (.clientReceive fd)).network := by
  cases here : world.nodes.lookup fd with
  | none =>
    simp only [step, here]
    exact idle_moves _
  | some node =>
    cases queue : node.fromServer with
    | nil =>
      simp only [step, here, queue]
      exact idle_moves _
    | cons packet rest =>
      obtain ⟨record, found⟩ := consistent.record_of_node here
      have connected : world.network.parties fd = some (node.party record.id) :=
        World.party_eq.mpr ⟨node, record, here, found, rfl⟩
      have heard : (node.party record.id).fromServer = packet.notice :: rest.map Packet.notice := by
        simp [Node.party, queue]
      have idle : (node.party record.id).replying = [] := by
        simp [Node.party, allowed node here]
      have network := updateNode_network
        (fun node => Node.handle cipher { node with fromServer := rest } packet) here found
      simp only [step, here, queue]
      change Moves cipher world.network _
        { (world.updateNode fd fun node =>
            Node.handle cipher { node with fromServer := rest } packet).network with
          history := (if node.started then noted fd packet.notice else []) ++ world.history }
      rcases (Node.handle_follows (base.each connected) (consistent.ready fd node here)
        heard).2 with
        ⟨started, nonce, size, handled⟩ | ⟨started, createRoom, fresh, chatter, told, size,
          plain, handled⟩
      · rw [network, handled, if_pos started]
        exact .receive connected started idle heard size
      · rw [network, handled, if_neg (by simp [started]), List.nil_append]
        exact .start connected started (told ▸ heard) size plain

theorem updateNode_moves {fd : Fd} {event : Event} {update : Node → Node}
    (moved : ∀ (node : Node) (record : ClientRecord), world.nodes.lookup fd = some node →
      world.network.parties fd = some (node.party record.id) →
        Moves cipher world.network event
          { world.network with parties := world.network.put fd ((update node).party record.id) }) :
    Moves cipher world.network event (world.updateNode fd update).network := by
  cases here : world.nodes.lookup fd with
  | none =>
    simp only [World.updateNode, here]
    exact idle_moves _
  | some node =>
    obtain ⟨record, found⟩ := consistent.record_of_node here
    rw [updateNode_network update here found]
    exact moved node record here (World.party_eq.mpr ⟨node, record, here, found, rfl⟩)

theorem command_moves (base : world.network.Base cipher) {fd : Fd} {input : InputCommand}
    (allowed : Allowed cipher world (.command fd input)) :
    Moves cipher world.network (.command fd input)
      (step cipher world (.command fd input)).network := by
  refine updateNode_moves consistent fun node record here connected => ?_
  obtain ⟨running, idle⟩ := allowed node here
  obtain ⟨-, chatter, plain, obeyed⟩ :=
    Node.obey_follows (base.each connected) (consistent.ready fd node here) input
  rw [obeyed]
  exact .command connected running (by simp [Node.party, idle]) plain

theorem flush_moves (fd : Fd) (thread : Thread) :
    Moves cipher world.network (.flush fd thread)
      (step cipher world (.flush fd thread)).network := by
  refine updateNode_moves consistent fun node record here connected => ?_
  have flushed : (node.flush thread).party record.id = (node.party record.id).flush thread := by
    cases thread <;> simp [Node.party, Node.flush, Party.flush, List.map_take]
  rw [flushed]
  exact .flush connected

omit consistent in
theorem call_consistent {event : Server.Event}
    (served : Runs.Reachable Server.Initial Server.IdsLeft Server.step world.server)
    (may : Server.IdsLeft world.server event)
    (covered : ∀ fd, fd ∈ (Server.step world.server event).registry.clientsByFd → fd ∈ world.nodes)
    (ready : ∀ fd node, world.nodes.lookup fd = some node → node.Ready) :
    (world.call event).Consistent := by
  refine ⟨served.next may, fun fd => ?_, fun fd node found => ?_⟩
  · change _ ↔ fd ∈ (Server.step world.server event).registry.clientsByFd
    rw [Table.mem_iff_lookup]
    simp only [World.call_lookup]
    constructor
    · rintro ⟨node, found⟩
      split_ifs at found with listed
      exact listed
    · intro listed
      obtain ⟨node, here⟩ := Table.mem_iff_lookup.mp (covered fd listed)
      simp [listed, here]
  · rw [World.call_lookup] at found
    split_ifs at found
    obtain ⟨before, here, rfl⟩ := Option.map_eq_some_iff.mp found
    exact ready fd before here

theorem call_known {event : Server.Event} (may : Server.IdsLeft world.server event)
    (known : ∀ fd record, (Server.step world.server event).registry.findByFd fd = some record →
      ∃ before, world.server.registry.findByFd fd = some before) :
    (world.call event).Consistent := by
  refine call_consistent consistent.served may (fun fd listed => ?_) consistent.ready
  obtain ⟨record, found⟩ := Table.mem_iff_lookup.mp listed
  obtain ⟨before, was⟩ := known fd record found
  exact Table.mem_iff_lookup.mpr (consistent.node_of_record was)

theorem remove_consistent (fd : Fd) : (world.call (.remove fd)).Consistent := by
  refine call_known consistent trivial fun other record found => ?_
  rw [Server.step_remove, Server.findByFd_drop_eq] at found
  split_ifs at found
  exact ⟨record, found⟩

theorem data_consistent {fd : Fd} {sender : ClientRecord} (frame : Frame)
    (found : world.server.registry.findByFd fd = some sender) :
    (world.call (.data fd (some frame))).Consistent := by
  by_cases banned : sender.id ∈ world.server.bannedIds
  · rw [call_banned consistent found banned]
    exact remove_consistent consistent fd
  · refine call_known consistent trivial fun other record listed => ?_
    have ids := @step_frame_ids world.server fd frame (Server.not_silenced found banned) other
    rw [listed] at ids
    obtain ⟨before, was, -⟩ := Option.map_eq_some_iff.mp ids.symm
    exact ⟨before, was⟩

theorem step_consistent (base : world.network.Base cipher) {event : Event}
    (allowed : Allowed cipher world event) (left : IdsLeft world event) :
    (step cipher world event).Consistent := by
  cases event with
  | join fd nickname saved random =>
    obtain ⟨closed, accepted, short, -⟩ := allowed
    obtain ⟨-, name, online⟩ := launch_eq cipher nickname saved random
    refine call_consistent consistent.served ⟨closed, fun _ => left⟩ (fun other listed => ?_)
      fun other node here => ?_
    · -- whoever is listed now was so before, or is the one that joins
      rw [AList.mem_insert]
      obtain ⟨record, found⟩ := Table.mem_iff_lookup.mp listed
      have enrolled := (findByFd_accept accepted other).symm.trans found
      split_ifs at enrolled with same
      · exact .inl same
      · exact .inr (Table.mem_iff_lookup.mpr (consistent.node_of_record enrolled))
    · rw [Table.lookup_insert_eq] at here
      split_ifs at here
      · obtain rfl := Option.some.inj here
        exact ⟨online, (congrArg List.length name).trans_le short⟩
      · exact consistent.ready other node here
  | leave fd => exact remove_consistent consistent fd
  | ban ids =>
    refine call_known consistent trivial fun other record found => ?_
    rw [Server.step_ban, Server.insertBans_registry] at found
    exact ⟨record, found⟩
  | serverReceive fd =>
    cases here : world.nodes.lookup fd with
    | none =>
      simp only [step, here]
      exact consistent
    | some node =>
      cases queue : node.toServer with
      | nil =>
        simp only [step, here, queue]
        exact consistent
      | cons packet rest =>
        obtain ⟨record, found⟩ := consistent.record_of_node here
        simp only [step, here, queue]
        -- taking the message off the queue leaves the client's settings alone
        have taken : (world.updateNode fd fun node => { node with toServer := rest }).Consistent :=
          updateNode_consistent consistent fun node here => consistent.ready fd node here
        exact data_consistent taken _ ((updateNode_server fd _).symm ▸ found)
  | clientReceive fd =>
    cases here : world.nodes.lookup fd with
    | none =>
      simp only [step, here]
      exact consistent
    | some node =>
      cases queue : node.fromServer with
      | nil =>
        simp only [step, here, queue]
        exact consistent
      | cons packet rest =>
        simp only [step, here, queue]
        have handled : (world.updateNode fd fun node =>
            Node.handle cipher { node with fromServer := rest } packet).Consistent := by
          refine updateNode_consistent consistent fun other same => ?_
          obtain rfl := Option.some.inj (here.symm.trans same)
          obtain ⟨record, found⟩ := consistent.record_of_node here
          have base := base.each (World.party_eq.mpr ⟨node, record, here, found, rfl⟩)
          have ready := consistent.ready fd node here
          exact ready.of_settings (Node.handle_follows base ready (by simp [Node.party, queue])).1
        exact ⟨handled.served, handled.connected, handled.ready⟩
  | command fd input =>
    refine updateNode_consistent consistent fun node here => ?_
    obtain ⟨record, found⟩ := consistent.record_of_node here
    have base := base.each (World.party_eq.mpr ⟨node, record, here, found, rfl⟩)
    have ready := consistent.ready fd node here
    exact ready.of_settings (Node.obey_follows base ready input).1
  | flush fd thread =>
    refine updateNode_consistent consistent fun node here => ?_
    cases thread <;> exact consistent.ready fd node here

/-- Every step of the server and its clients is a move of the network. -/
theorem simulates (base : world.network.Base cipher) {event : Event}
    (allowed : Allowed cipher world event) (left : IdsLeft world event) :
    Moves cipher world.network event (step cipher world event).network := by
  cases event with
  | join fd nickname saved random => exact join_moves consistent allowed left
  | leave fd => exact leave_moves consistent fd
  | ban ids => exact ban_moves ids
  | serverReceive fd => exact serve_moves consistent base fd
  | clientReceive fd => exact receive_moves consistent base allowed
  | command fd input => exact command_moves consistent base allowed
  | flush fd thread => exact flush_moves consistent fd thread

end Steps

section Run

variable {cipher : Monocypher} {guard : World → Event → Prop}

theorem initial_consistent : World.Consistent {} where
  served := .start rfl
  connected fd := by simp [Server.ClientRegistry.allFds]
  ready fd node found := by simp at found

theorem initial_base : Network.Base cipher (World.network {}) := by
  have nobody (fd : Fd) : World.party {} fd = none := rfl
  constructor
  · intro fd other party twin here
    cases (nobody fd).symm.trans here
  · intro fd party here
    cases (nobody fd).symm.trans here

theorem reachable_invariant
    (strict : ∀ world event, guard world event → Allowed cipher world event ∧ IdsLeft world event)
    (inv : Network → Prop) (start : inv (World.network {}))
    (preserved : ∀ world event after, world.network.Base cipher → inv world.network →
      guard world event → Moves cipher world.network event after → inv after)
    {world : World} (reachable : Runs.Reachable Initial guard (step cipher) world) :
    world.network.Base cipher ∧ inv world.network := by
  have all : world.Consistent ∧ world.network.Base cipher ∧ inv world.network := by
    refine reachable.invariant (fun world => world.Consistent ∧ world.network.Base cipher ∧
      inv world.network) ?_ ?_
    · rintro world rfl
      exact ⟨initial_consistent, initial_base, start⟩
    · rintro world event ⟨consistent, base, holds⟩ may
      obtain ⟨allowed, left⟩ := strict world event may
      have moves := simulates consistent base allowed left
      exact ⟨step_consistent consistent base allowed left, moves.base base,
        preserved world event _ base holds may moves⟩
  exact all.2

end Run

end ModbusChat.System
