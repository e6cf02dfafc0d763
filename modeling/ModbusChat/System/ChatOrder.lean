import ModbusChat.Client.DirectMessages
import ModbusChat.Server.Relays
import ModbusChat.Shared.Traces
import ModbusChat.System.Wild

set_option autoImplicit false

namespace ModbusChat.System

open BigEndian Effects Wire Client
open Server (Fd ServerViewModel ClientRecord)

/-- A chat that the server passes on: to one connection, or to all but the sender's. -/
structure Relayed where
  sender : Fd
  fromId : UInt32
  target : Option Fd
  body : Bytes
  deriving DecidableEq, Repr

def Relayed.at (fd : Fd) (relayed : Relayed) : Option (UInt32 × Bytes) :=
  match relayed.target with
  | none => if fd = relayed.sender then none else some (relayed.fromId, relayed.body)
  | some target => if fd = target then some (relayed.fromId, relayed.body) else none

def chatTarget (server : ServerViewModel) (chat : ChatPayload) : Option Fd :=
  match server.registry.resolveRecipient chat with
  | .ok (some id) => if id ∈ server.bannedIds then none else server.registry.fdById id
  | _ => none

def relays (server : ServerViewModel) : Server.Event → List Relayed
  | .data fd (some frame) =>
      match server.registry.findByFd fd, decodeAppMessage frame with
      | some sender, .ok { type := .chat, payload := .chat chat } =>
          if sender.id ∈ server.bannedIds then []
          else if chat.recipientTag = kRecipientBroadcast then
            [{ sender := fd, fromId := sender.id, target := none, body := chat.text }]
          else
            (chatTarget server chat).toList.map fun target =>
              { sender := fd, fromId := sender.id, target := some target, body := chat.text }
      | _, _ => []
  | _ => []

def delivered (packet : Packet) : Option (UInt32 × Bytes) :=
  match packet.type, decodePayload packet.payload .deliver with
  | .deliver, .ok (.deliver fromId text) => some (fromId, text)
  | _, _ => none

theorem delivered_other {packet : Packet} (other : packet.type ≠ .deliver) :
    delivered packet = none := by
  unfold delivered
  split
  · exact absurd ‹_› other
  · rfl

theorem delivered_deliver (fromId : UInt32) {text : Bytes} (short : text.length ≤ kMaxU16Count) :
    delivered { type := .deliver, payload := writeU32Be fromId ++ stringBytes text } =
      some (fromId, text) := by
  have decoded : decodePayload (writeU32Be fromId ++ stringBytes text) .deliver =
      .ok (.deliver fromId text) := decodeDeliverPayload_bytes short fromId
  simp only [delivered, decoded]

section Call

variable {server : ServerViewModel} {fd client : Fd} {sender here : ClientRecord}

theorem inbox_undelivered {output : List Server.Effect}
    (plain : ∀ sent ∈ Server.sends output, sent.2.1 ≠ .deliver) :
    (inbox fd output).filterMap delivered = [] := by
  refine List.filterMap_eq_nil_iff.mpr fun packet member => delivered_other ?_
  exact plain _ (mem_inbox.mp member)

theorem chatTarget_eq_some {chat : ChatPayload} :
    chatTarget server chat = some fd ↔ Server.Resolves server chat fd := by
  unfold chatTarget Server.Resolves
  cases server.registry.resolveRecipient chat with
  | error failure => simp
  | ok recipient =>
    cases recipient with
    | none => simp
    | some id =>
      simp only [Except.ok.injEq, Option.some.injEq, exists_eq_left']
      split_ifs with banned
      · simp [banned]
      · simp [banned]

theorem inbox_chat {frame : Frame} {chat : ChatPayload}
    (found : server.registry.findByFd client = some sender)
    (notBanned : sender.id ∉ server.bannedIds)
    (decoded : decodeAppMessage frame = .ok { type := .chat, payload := .chat chat })
    (listed : server.registry.findByFd fd = some here) (hears : here.id ∉ server.bannedIds) :
    (inbox fd ((Server.handleClientData client (some frame)).run server).output).filterMap
      delivered = (relays server (.data client (some frame))).filterMap (·.at fd) := by
  obtain ⟨recipient, target, -, short, resolved, run⟩ :=
    Server.handleClientData_chat found notBanned decoded
  simp only [run, relays, found, decoded, if_neg notBanned]
  split_ifs with broadcast
  · have sent : Server.sends (Server.Effect.display (.chat sender.id (Server.label recipient)
        (Server.logLabel .chat)) :: (Server.broadcastTargets server client).map fun targetFd =>
          .send targetFd (Server.deliverType .chat)
            (writeU32Be sender.id ++ stringBytes chat.text)) =
        (Server.broadcastTargets server client).map fun targetFd =>
          (targetFd, .deliver, writeU32Be sender.id ++ stringBytes chat.text) :=
      Server.sends_map_send _ _ _
    rw [inbox_broadcast sent (Server.broadcastTargets_nodup server client)]
    by_cases self : fd = client
    · have absent : fd ∉ Server.broadcastTargets server client := fun member =>
        (Server.mem_broadcastTargets.mp member).1 self
      rw [if_neg absent]
      simp [Relayed.at, self]
    · have listens : fd ∈ Server.broadcastTargets server client :=
        Server.mem_broadcastTargets.mpr ⟨self, here, listed, hears⟩
      simp [Relayed.at, self, listens, delivered_deliver sender.id short]
  · cases target with
    | error text =>
      have nowhere : chatTarget server chat = none := by
        refine Option.eq_none_iff_forall_ne_some.mpr fun other resolves => ?_
        have found : Server.unicastTarget server chat (Server.label recipient) = .ok (.ok other) :=
          Server.unicastTarget_eq_ok.mpr (chatTarget_eq_some.mp resolves)
        cases found.symm.trans resolved
      rw [nowhere]
      refine inbox_undelivered fun sent member => ?_
      rw [Server.sends_display, Server.sends_relayedTo_error, List.mem_singleton] at member
      simp [member]
    | ok targetFd =>
      rw [chatTarget_eq_some.mpr (Server.unicastTarget_eq_ok.mp resolved)]
      have told : inbox fd (Server.Effect.display (.chat sender.id (Server.label recipient)
          (Server.logLabel .chat)) :: Server.relayedTo (Server.deliverType .chat) client
            (writeU32Be sender.id ++ stringBytes chat.text) (.ok targetFd)) =
          if targetFd = fd then
            [{ type := .deliver, payload := writeU32Be sender.id ++ stringBytes chat.text }]
              else [] :=
        inbox_send fd targetFd _ _ []
      rw [told]
      by_cases mine : fd = targetFd
      · simp [Relayed.at, mine, delivered_deliver sender.id short]
      · simp [Relayed.at, mine, Ne.symm mine]

theorem onlyRemoves_undelivered {call : Server.Event}
    (removes : Server.OnlyRemoves server client sender call) :
    (inbox fd (call.action.run server).output).filterMap delivered = [] := by
  obtain ⟨others, -, -, run⟩ := removes
  refine inbox_undelivered fun sent member => ?_
  rw [run] at member
  change sent ∈ Server.sends (others.map _) at member
  rw [Server.sends_map_send] at member
  obtain ⟨other, -, rfl⟩ := List.mem_map.mp member
  simp

theorem relays_banned {frame : Frame} (found : server.registry.findByFd client = some sender)
    (banned : sender.id ∈ server.bannedIds) : relays server (.data client (some frame)) = [] := by
  simp only [relays, found]
  split
  · rename_i same _
    obtain rfl := Option.some.inj same
    rw [if_pos banned]
  · rfl

theorem relays_unchatted {frame : Frame} (unchatted : ¬ ∃ chat, decodeAppMessage frame =
      .ok { type := .chat, payload := .chat chat }) :
    relays server (.data client (some frame)) = [] := by
  simp only [relays]
  split
  · exact absurd ⟨_, ‹_›⟩ unchatted
  · rfl

theorem inbox_frame (fits : ∀ fd record, server.registry.findByFd fd = some record →
      Server.RecordFits fd record) (frame : Frame)
    (found : server.registry.findByFd client = some sender)
    (listed : server.registry.findByFd fd = some here) (hears : here.id ∉ server.bannedIds) :
    (inbox fd ((Server.handleClientData client (some frame)).run server).output).filterMap
      delivered = (relays server (.data client (some frame))).filterMap (·.at fd) := by
  by_cases banned : sender.id ∈ server.bannedIds
  · have removes : Server.OnlyRemoves server client sender (.data client (some frame)) :=
      Server.banned_onlyRemoves fits found banned rfl
    rw [relays_banned found banned]
    exact onlyRemoves_undelivered removes
  by_cases chats : ∃ chat, decodeAppMessage frame = .ok { type := .chat, payload := .chat chat }
  · obtain ⟨chat, decoded⟩ := chats
    exact inbox_chat found banned decoded listed hears
  · rw [relays_unchatted chats]
    refine inbox_undelivered fun sent member deliver => ?_
    rcases Server.handleClientData_relays fits found member with
      unrelayed | ⟨type, chat, decoded, relayed⟩
    · simp [Server.Unrelayed, deliver] at unrelayed
    · obtain ⟨bytes, -, parsed⟩ := decodeAppMessage_ok decoded
      rcases (decodePayload_chat parsed).1 with rfl | rfl | rfl
      · exact chats ⟨chat, decoded⟩
      · cases deliver.symm.trans relayed
      · cases deliver.symm.trans relayed

theorem inbox_unframed {call : Server.Event} (fits : ∀ fd record,
      server.registry.findByFd fd = some record → Server.RecordFits fd record)
    (served : Server.Served server call)
    (unframed : ∀ client frame, call ≠ .data client (some frame)) :
    (inbox fd (call.action.run server).output).filterMap delivered = [] := by
  cases call with
  | accept client error =>
    by_cases failed : client < 0
    · have silent : Server.sends ((Server.acceptClient client error).run server).output = [] := by
        rw [Server.acceptClient, if_pos failed]
        rfl
      refine inbox_undelivered fun sent member => ?_
      change sent ∈ Server.sends ((Server.acceptClient client error).run server).output at member
      simp [silent] at member
    · change (inbox fd ((Server.acceptClient client error).run server).output).filterMap
        delivered = []
      rw [accept_inbox failed]
      split_ifs <;> simp [delivered_other]
  | remove client =>
    obtain ⟨record, found⟩ := served.connected rfl
    exact onlyRemoves_undelivered (Server.removeClient_onlyRemoves fits found)
  | data client incoming =>
    obtain ⟨record, found⟩ := served.connected rfl
    cases incoming with
    | some frame => exact absurd rfl (unframed client frame)
    | none =>
      by_cases running : server.running = true
      · exact onlyRemoves_undelivered (Server.closed_onlyRemoves fits found running)
      · by_cases banned : record.id ∈ server.bannedIds
        · exact onlyRemoves_undelivered (Server.banned_onlyRemoves fits found banned rfl)
        · have silent := Server.handleClientData_closed (Server.not_silenced found banned)
          rw [if_neg running] at silent
          change (inbox fd ((Server.handleClientData client none).run server).output).filterMap
            _ = []
          rw [silent]
          rfl
  | ban ids =>
    refine inbox_undelivered fun sent member => ?_
    change sent ∈ Server.sends ((Server.banIds ids).run server).output at member
    rcases Server.banIds_sends ids server with silent | ⟨-, told⟩
    · simp [silent] at member
    · rw [told] at member
      obtain ⟨target, -, rfl⟩ := List.mem_map.mp member
      simp
  | requestStop | disconnectAll => exact served.elim

theorem relays_unframed {call : Server.Event}
    (unframed : ∀ client frame, call ≠ .data client (some frame)) :
    relays server call = [] := by
  unfold relays
  split
  · exact absurd rfl (unframed _ _)
  · rfl

theorem inbox_delivers {call : Server.Event} (fits : ∀ fd record,
      server.registry.findByFd fd = some record → Server.RecordFits fd record)
    (served : Server.Served server call) (listed : server.registry.findByFd fd = some here)
    (hears : here.id ∉ server.bannedIds) :
    (inbox fd (call.action.run server).output).filterMap delivered =
      (relays server call).filterMap (·.at fd) := by
  by_cases framed : ∃ client frame, call = .data client (some frame)
  · obtain ⟨client, frame, rfl⟩ := framed
    obtain ⟨record, found⟩ := served.connected rfl
    exact inbox_frame fits frame found listed hears
  · have unframed (client : Fd) (frame : Frame) : call ≠ .data client (some frame) := fun same =>
      framed ⟨client, frame, same⟩
    rw [inbox_unframed fits served unframed, relays_unframed unframed]
    rfl

end Call

def logged (world : World) (event : WildEvent) : List Relayed :=
  ((event.call? world).map (relays world.server)).getD []

def reads (fd : Fd) (world : World) (event : WildEvent) : List (UInt32 × Bytes) :=
  if event.Reads fd then
    (((world.nodes.lookup fd).bind fun node => node.fromServer.head?).bind delivered).toList
  else []

def World.unread (world : World) (fd : Fd) : List (UInt32 × Bytes) :=
  ((world.nodes.lookup fd).map fun node => node.fromServer.filterMap delivered).getD []

def World.Listens (world : World) (fd : Fd) : Prop :=
  fd ∈ world.nodes ∧ ∀ record ∈ world.server.registry.findByFd fd,
    record.id ∉ world.server.bannedIds

instance (world : World) (fd : Fd) : Decidable (world.Listens fd) :=
  inferInstanceAs (Decidable (_ ∧ ∀ record ∈ world.server.registry.findByFd fd, _))

section Downlink

variable {cipher : Monocypher} {world : World} {fd : Fd}

theorem handle_fromServer (node : Node) (packet : Packet) :
    (node.handle cipher packet).fromServer = node.fromServer := by
  unfold Node.handle
  split <;> rfl

theorem reads_unread (sane : world.Sane cipher) {event : WildEvent}
    (may : WildAllowed cipher world event) (before : world.Listens fd)
    (after : (wildStep cipher world event).Listens fd) :
    reads fd world event ++ (wildStep cipher world event).unread fd =
      world.unread fd ++ (logged world event).filterMap (·.at fd) := by
  obtain ⟨next, now⟩ := Table.mem_iff_lookup.mp after.1
  obtain ⟨node, here⟩ := Table.mem_iff_lookup.mp before.1
  obtain ⟨record, listed⟩ := sane.record_of_node here
  have queued : (wildStep cipher world event).unread fd = next.fromServer.filterMap delivered := by
    rw [World.unread, now]
    rfl
  have waiting : world.unread fd = node.fromServer.filterMap delivered := by
    rw [World.unread, here]
    rfl
  rw [queued, waiting]
  cases wild_origin sane.connected may now with
  | joined vacant => cases vacant.symm.trans listed
  | stayed found moved =>
    obtain rfl := Option.some.inj (here.symm.trans found)
    cases moved with
    | told calls client started heard present =>
      have other : ¬ event.Reads fd := fun reading => by
        cases calls.symm.trans (reading.quiet world)
      have passed := inbox_delivers (Server.reachable_recordFits sane.reachable)
        (wild_served sane.connected may calls) listed (before.2 record listed)
      rw [reads, if_neg other, List.nil_append, heard, List.filterMap_append, passed, logged, calls]
      rfl
    | @handled packet rest reading queue =>
      rw [reads, if_pos reading, here, handle_fromServer, logged, reading.quiet world]
      simp only [Option.bind_some, queue, List.head?_cons, List.filterMap_cons, Option.map_none,
        Option.getD_none, List.filterMap_nil, List.append_nil]
      cases delivered packet <;> rfl
    | obeyed other quiet =>
      rw [reads, if_neg other, logged, quiet]
      simp [Node.obey]
    | kept idle quiet client started same =>
      have none : reads fd world event = [] := by
        rw [reads]
        split_ifs with reading
        · rw [here, Option.bind_some, idle reading]
          rfl
        · rfl
      rw [none, logged, quiet, same]
      simp

end Downlink

def chatLog (cipher : Monocypher) (world : World) (events : List WildEvent) : List Relayed :=
  Runs.observed logged (wildStep cipher) world events

def chatsRead (cipher : Monocypher) (fd : Fd) (world : World) (events : List WildEvent) :
    List (UInt32 × Bytes) :=
  Runs.observed (reads fd) (wildStep cipher) world events

/--
One sequence for all: what any client reads that stays and is not banned, together with what is
still on its way to it, is what was on its way before and then its part of what the server passes
on, in the server's order.
-/
theorem chats_in_one_order {cipher : Monocypher} {world : World} {events : List WildEvent}
    (reachable : WildReachable cipher world)
    (admissible : Runs.Admissible (WildAllowed cipher) (wildStep cipher) world events) (fd : Fd)
    (stays : Runs.Throughout (World.Listens · fd) (wildStep cipher) world events) :
    chatsRead cipher fd world events ++ (events.foldl (wildStep cipher) world).unread fd =
      world.unread fd ++ (chatLog cipher world events).filterMap (·.at fd) := by
  rw [chatsRead, chatLog, Runs.filterMap_observed]
  have guarded := (admissible.strengthen (World.Sane cipher)
    (fun _ _ sane may => wildStep_sane sane may) (wild_sane reachable)).throughout stays
  refine @Runs.Admissible.conserved _ _ _ _ _ (World.unread · fd) _ _ ?_ _ _ guarded
  rintro world event ⟨⟨sane, may⟩, before, after⟩
  exact reads_unread sane may before after

-- Two clients, of which the first has started.
def twoJoined : World :=
  [WildEvent.own (.join 3 [] none fun _ => 7), .own (.clientReceive 3),
    .own (.join 4 [] none fun _ => 9)].foldl (wildStep transparent) {}

def hiToAll : Frame :=
  makeFrame .chat (writeU32Be 0 ++ (kRecipientBroadcast :: stringBytes (ascii "hi")))

-- The second greeting is still unread at the end.
def hiTwice : List WildEvent :=
  [.frame 3 hiToAll, .own (.clientReceive 4), .frame 3 hiToAll, .own (.clientReceive 4)]

theorem chats_in_one_order_hi :
    chatsRead transparent 4 twoJoined hiTwice ++ [(1, ascii "hi")] =
      (chatLog transparent twoJoined hiTwice).filterMap (·.at 4) ∧
    chatsRead transparent 4 twoJoined hiTwice = [(1, ascii "hi")] := by
  have reachable : WildReachable transparent twoJoined :=
    Runs.Reachable.foldl (.start rfl) (by decide +kernel)
  have order := @chats_in_one_order transparent twoJoined hiTwice reachable (by decide +kernel) 4
    (by decide +kernel)
  have queues : (hiTwice.foldl (wildStep transparent) twoJoined).unread 4 = [(1, ascii "hi")] ∧
      twoJoined.unread 4 = [] := by decide +kernel
  rw [queues.1, queues.2] at order
  exact ⟨order, by decide +kernel⟩

def chatFor (id : UInt32) (packet : Packet) : Option Bytes :=
  match packet.type, decodePayload packet.payload .chat with
  | .chat, .ok (.chat chat) =>
      if chat.recipientTag = kRecipientBroadcast ∨
          chat.recipientTag = kRecipientById ∧ readU32Be chat.recipientData = some id then
        some chat.text
      else none
  | _, _ => none

-- The program addresses no chat by nickname: its directory has an id for each.
def Addressed (packet : Packet) : Prop :=
  ∀ chat, decodeAppMessage packet.frame = .ok { type := .chat, payload := .chat chat } →
    chat.recipientTag ≠ kRecipientByNickname

section Packets

variable {cipher : Monocypher} {packet : Packet}

theorem decode_type {type : MsgType} {payload : AppPayload}
    (decoded : decodeAppMessage packet.frame = .ok { type, payload }) :
    packet.type = type ∧ decodePayload packet.payload type = .ok payload := by
  rw [Packet.frame, decodeAppMessage_frame] at decoded
  cases parsed : decodePayload packet.payload packet.type with
  | error failure =>
    rw [parsed] at decoded
    cases decoded
  | ok value =>
    rw [parsed] at decoded
    cases decoded
    exact ⟨rfl, parsed⟩

theorem chatFor_other (id : UInt32) (other : packet.type ≠ .chat) : chatFor id packet = none := by
  unfold chatFor
  split
  · exact absurd ‹_› other
  · rfl

theorem addressed_other (other : packet.type ≠ .chat) : Addressed packet := fun _ decoded =>
  absurd (decode_type decoded).1 other

theorem addressed_of_permitted {client : ClientViewModel} {event : ClientEvent}
    (permitted : Permitted cipher client event packet) : Addressed packet := by
  cases permitted with
  | direct spoken known size shut built =>
    intro chat decoded
    cases (decode_buildChatById built).symm.trans decoded
    exact (by decide : kRecipientById ≠ kRecipientByNickname)
  | broadcast held size shut built =>
    intro chat decoded
    cases (@decode_encodeChat _ .broadcast _ rfl rfl built).symm.trans decoded
    exact (by decide : kRecipientBroadcast ≠ kRecipientByNickname)
  | _ => exact addressed_other (by simp)

end Packets

theorem relays_sender {server : ServerViewModel} {fd : Fd} {incoming : Option Frame}
    {relayed : Relayed} (member : relayed ∈ relays server (.data fd incoming)) :
    relayed.sender = fd ∧ ∃ record, server.registry.findByFd fd = some record ∧
      relayed.fromId = record.id := by
  cases incoming with
  | none => cases member
  | some frame =>
    simp only [relays] at member
    split at member
    · rename_i sender chat found decoded
      split_ifs at member
      · simp at member
      · obtain rfl := List.mem_singleton.mp member
        exact ⟨rfl, sender, found, rfl⟩
      · obtain ⟨target, -, rfl⟩ := List.mem_map.mp member
        exact ⟨rfl, sender, found, rfl⟩
    · cases member

inductive OutStep (cipher : Monocypher) (world : World) (event : WildEvent) (fd : Fd)
    (node : Node) :
    Node → Prop
  | kept {next : Node} (toServer : next.toServer = node.toServer)
      (typing : next.typing = node.typing)
      (replying : next.replying = node.replying)
      (unread : ∀ relayed ∈ logged world event, relayed.sender = fd →
        ∃ frame, event = .frame fd frame)
      (untyped : ∀ command, event ≠ .own (.command fd command)) :
        OutStep cipher world event fd node next
  | read {packet : Packet} {rest : List Packet} {next : Node}
      (queue : node.toServer = packet :: rest)
      (receives : event = .own (.serverReceive fd)) (toServer : next.toServer = rest)
      (typing : next.typing = node.typing) (replying : next.replying = node.replying) :
      OutStep cipher world event fd node next
  | handled {packet : Packet} {rest : List Packet} (receives : event = .own (.clientReceive fd)) :
      OutStep cipher world event fd node
        (Node.handle cipher { node with fromServer := rest } packet)
  | obeyed {command : InputCommand} (typed : event = .own (.command fd command)) :
      OutStep cipher world event fd node (node.obey cipher command)
  | flushed {thread : Thread} (writes : event = .own (.flush fd thread)) :
      OutStep cipher world event fd node (node.flush thread)

section OutStep

variable {cipher : Monocypher} {world : World} {fd : Fd} {node next : Node}

theorem OutStep.of_call {event : WildEvent} (call : Server.Event)
    (run : wildStep cipher world event = world.call call)
    (unread : ∀ relayed ∈ logged world event, relayed.sender = fd →
      ∃ frame, event = .frame fd frame)
    (untyped : ∀ command, event ≠ .own (.command fd command))
    (here : world.nodes.lookup fd = some node)
    (now : (wildStep cipher world event).nodes.lookup fd = some next) :
    OutStep cipher world event fd node next := by
  rw [run] at now
  obtain ⟨old, found, rfl, -⟩ := World.call_node now
  obtain rfl := Option.some.inj (here.symm.trans found)
  exact .kept rfl rfl rfl unread untyped

theorem OutStep.of_serve {target : Fd} (here : world.nodes.lookup fd = some node)
    (now : (step cipher world (.serverReceive target)).nodes.lookup fd = some next) :
    OutStep cipher world (.own (.serverReceive target)) fd node next := by
  have idle (same : step cipher world (.serverReceive target) = world)
      (silent : logged world (.own (.serverReceive target)) = []) :
      OutStep cipher world (.own (.serverReceive target)) fd node next := by
    rw [same] at now
    obtain rfl := Option.some.inj (here.symm.trans now)
    refine .kept rfl rfl rfl (fun relayed member => ?_) (by simp)
    rw [silent] at member
    cases member
  cases found : world.nodes.lookup target with
  | none => exact idle (by simp only [step, found]) (by simp [logged, WildEvent.call?, found])
  | some held =>
    cases queue : held.toServer with
    | nil =>
      exact idle (by simp only [step, found, queue])
        (by simp [logged, WildEvent.call?, found, queue])
    | cons packet rest =>
      have calls : logged world (.own (.serverReceive target)) =
          relays world.server (.data target (some packet.frame)) := by
        simp [logged, WildEvent.call?, found, queue]
      simp only [step, found, queue] at now
      obtain ⟨early, before, rfl, -⟩ := World.call_node now
      obtain ⟨old, first, rfl⟩ := World.updateNode_node before
      obtain rfl := Option.some.inj (here.symm.trans first)
      by_cases mine : fd = target
      · subst mine
        obtain rfl := Option.some.inj (here.symm.trans found)
        exact .read queue rfl (by simp) (by simp) (by simp)
      · refine .kept (by simp [mine]) (by simp [mine]) (by simp [mine])
          (fun relayed member same => ?_)
          (by simp)
        rw [calls] at member
        exact absurd (same.symm.trans (relays_sender member).1) mine

theorem OutStep.of_update {event : WildEvent} (target : Fd) (update : Node → Node)
    (nodes : (wildStep cipher world event).nodes = (world.updateNode target update).nodes)
    (quiet : event.call? world = none) (here : world.nodes.lookup fd = some node)
    (now : (wildStep cipher world event).nodes.lookup fd = some next)
    (mine : fd = target → OutStep cipher world event fd node (update node))
    (untyped : fd ≠ target → ∀ command, event ≠ .own (.command fd command)) :
    OutStep cipher world event fd node next := by
  rw [nodes] at now
  obtain ⟨old, found, rfl⟩ := World.updateNode_node now
  obtain rfl := Option.some.inj (here.symm.trans found)
  split_ifs with same
  · exact mine same
  · refine .kept rfl rfl rfl (fun relayed member => ?_) (untyped same)
    rw [logged, quiet] at member
    cases member

theorem OutStep.of_receive {target : Fd} (here : world.nodes.lookup fd = some node)
    (now : (step cipher world (.clientReceive target)).nodes.lookup fd = some next) :
    OutStep cipher world (.own (.clientReceive target)) fd node next := by
  have idle (same : step cipher world (.clientReceive target) = world) :
      OutStep cipher world (.own (.clientReceive target)) fd node next := by
    rw [same] at now
    obtain rfl := Option.some.inj (here.symm.trans now)
    exact .kept rfl rfl rfl (fun relayed member => by cases member) (by simp)
  cases found : world.nodes.lookup target with
  | none => exact idle (by simp only [step, found])
  | some held =>
    cases queue : held.fromServer with
    | nil => exact idle (by simp only [step, found, queue])
    | cons packet rest =>
      refine .of_update target
        (fun node => { node with fromServer := rest }.handle cipher packet) ?_ rfl here now
        (fun same => .handled (same ▸ rfl)) (by simp)
      simp only [wildStep, step, found, queue]

theorem out_step (sane : world.Sane cipher) {event : WildEvent}
    (may : WildAllowed cipher world event) (here : world.nodes.lookup fd = some node)
    (now : (wildStep cipher world event).nodes.lookup fd = some next) :
    OutStep cipher world event fd node next := by
  cases event with
  | frame target frame =>
    refine .of_call _ rfl (fun relayed member same => ?_) (by simp) here now
    have sender :=
      (relays_sender (show relayed ∈ relays world.server (.data target (some frame)) from
      member)).1
    exact ⟨frame, by rw [← same, sender]⟩
  | own event =>
    cases event with
    | join target nickname saved random =>
      have apart : fd ≠ target := by
        rintro rfl
        exact may.1 (sane.connected fd (Table.mem_iff_lookup.mpr ⟨node, here⟩))
      obtain ⟨early, before, rfl, -⟩ := World.call_node now
      rw [Table.lookup_insert_eq, if_neg apart] at before
      obtain rfl := Option.some.inj (here.symm.trans before)
      exact .kept rfl rfl rfl (fun relayed member => by cases member) (by simp)
    | leave target =>
      refine .of_call (.remove target) rfl (fun relayed member => ?_) (by simp) here now
      have silent : logged world (.own (.leave target)) = [] := by
        simp only [logged, WildEvent.call?]
        split_ifs <;> rfl
      rw [silent] at member
      cases member
    | ban ids =>
      exact .of_call (.ban ids) rfl (fun relayed member => by cases member) (by simp) here now
    | serverReceive target => exact .of_serve here now
    | clientReceive target => exact .of_receive here now
    | command target command =>
      refine .of_update target (·.obey cipher command) rfl rfl here now
        (fun same => .obeyed (same ▸ rfl)) fun apart other same => ?_
      cases same
      exact apart rfl
    | flush target thread =>
      exact .of_update target (·.flush thread) rfl rfl here now
        (fun same => .flushed (same ▸ rfl)) (by simp)

end OutStep

-- The chats of a client are addressed by id or to all, and only its input thread sends them.
structure Node.Honest (node : Node) : Prop where
  queued : ∀ packet ∈ node.toServer ++ node.typing, Addressed packet
  replies : ∀ packet ∈ node.replying, packet.type ≠ .chat

section Honest

variable {cipher : Monocypher} {world : World} {fd : Fd} {node next : Node}

theorem receiveNext_unchatted {client : ClientViewModel} {incoming : Option Frame} {packet : Packet}
    (member : packet ∈ packets ((receiveNext cipher incoming).run client).output) :
    packet.type ≠ .chat := by
  have permitted := action_confined cipher (.receive incoming) client packet member
  cases permitted <;> simp

theorem startUp_unchatted {client : ClientViewModel} {incoming : Option Frame} {packet : Packet}
    (member : packet ∈ packets ((startUp incoming).run client).output) : packet.type ≠ .chat := by
  have permitted := action_confined transparent (.start incoming) client packet member
  cases permitted <;> simp

theorem handle_out (node : Node) (packet : Packet) :
    ∃ more, (∀ other ∈ more, other.type ≠ .chat) ∧
      (node.handle cipher packet).toServer = node.toServer ++ more ∧
      (node.handle cipher packet).typing = node.typing ∧
      ((∀ other ∈ node.replying, other.type ≠ .chat) →
        ∀ other ∈ (node.handle cipher packet).replying, other.type ≠ .chat) := by
  unfold Node.handle
  split
  · exact ⟨[], by simp, (List.append_nil _).symm, rfl, fun _ other => receiveNext_unchatted⟩
  · exact ⟨_, fun other => startUp_unchatted, rfl, rfl, id⟩

theorem Node.flush_input (node : Node) :
    (node.flush .input).toServer ++ (node.flush .input).typing = node.toServer ++ node.typing := by
  rw [Node.flush, List.append_assoc]
  cases node.typing <;> rfl

theorem OutStep.honest {event : WildEvent} (honest : node.Honest)
    (moved : OutStep cipher world event fd node next) : next.Honest := by
  cases moved with
  | kept toServer typing replying =>
    exact ⟨by rw [toServer, typing]; exact honest.queued, replying ▸ honest.replies⟩
  | read queue receives toServer typing replying =>
    refine ⟨fun packet member => honest.queued packet ?_, replying ▸ honest.replies⟩
    rw [toServer, typing] at member
    rw [queue]
    exact List.mem_cons_of_mem _ member
  | @handled packet rest =>
    obtain ⟨more, plain, toServer, typing, replies⟩ :=
      @handle_out cipher { node with fromServer := rest } packet
    refine ⟨fun other member => ?_, replies honest.replies⟩
    rw [toServer, typing, List.append_assoc, List.mem_append, List.mem_append] at member
    rcases member with early | late | mine
    · exact honest.queued other (List.mem_append_left _ early)
    · exact addressed_other (plain other late)
    · exact honest.queued other (List.mem_append_right _ mine)
  | @obeyed command =>
    refine ⟨fun other member => ?_, honest.replies⟩
    rcases List.mem_append.mp member with early | late
    · exact honest.queued other (List.mem_append_left _ early)
    · exact addressed_of_permitted (action_confined cipher (.typed command) node.client other late)
  | @flushed thread =>
    cases thread with
    | input =>
      refine ⟨fun other member => honest.queued other ?_, honest.replies⟩
      rwa [node.flush_input] at member
    | receiver =>
      refine ⟨fun other member => ?_,
        fun other member => honest.replies other (List.mem_of_mem_tail member)⟩
      rw [Node.flush, List.append_assoc, List.mem_append, List.mem_append] at member
      rcases member with early | late | mine
      · exact honest.queued other (List.mem_append_left _ early)
      · exact addressed_other (honest.replies other (List.mem_of_mem_take late))
      · exact honest.queued other (List.mem_append_right _ mine)

theorem wildStep_honest (sane : world.Sane cipher)
    (honest : ∀ fd node, world.nodes.lookup fd = some node → node.Honest) {event : WildEvent}
    (may : WildAllowed cipher world event) (fd : Fd) (next : Node)
    (now : (wildStep cipher world event).nodes.lookup fd = some next) : next.Honest := by
  cases wild_origin sane.connected may now with
  | stayed here => exact (out_step sane may here now).honest (honest fd _ here)
  | joined vacant accepted short genuine calls fresh =>
    rw [fresh]
    exact ⟨by simp, by simp⟩

end Honest

def Relayed.between (author reader : Fd) (relayed : Relayed) : Option Bytes :=
  if relayed.sender = author then (relayed.at reader).map Prod.snd else none

def World.unserved (world : World) (author : Fd) (readerId : UInt32) : List Bytes :=
  ((world.nodes.lookup author).map fun node =>
    (node.toServer ++ node.typing).filterMap (chatFor readerId)).getD []

def utters (cipher : Monocypher) (author : Fd) (readerId : UInt32) (world : World) :
    WildEvent → List Bytes
  | .own (.command fd command) =>
      if fd = author then
        ((world.nodes.lookup author).map fun node =>
          (node.obey cipher command).typing.filterMap (chatFor readerId)).getD []
      else []
  | _ => []

def World.Holds (world : World) (fd : Fd) (id : UInt32) : Prop :=
  fd ∈ world.nodes ∧ (∃ record ∈ world.server.registry.findByFd fd, record.id = id) ∧
    id ∉ world.server.bannedIds

instance (world : World) (fd : Fd) (id : UInt32) : Decidable (world.Holds fd id) :=
  inferInstanceAs (Decidable (_ ∧ (∃ record ∈ world.server.registry.findByFd fd, _) ∧ _))

section Uplink

variable {server : ServerViewModel} {author reader : Fd} {writes listens : ClientRecord}
  (sound : server.registry.Sound) (complete : server.registry.Complete)
  (found : server.registry.findByFd author = some writes) (free : writes.id ∉ server.bannedIds)
  (there : server.registry.findByFd reader = some listens) (hears : listens.id ∉ server.bannedIds)
  (apart : reader ≠ author)
include sound complete found free there hears apart

theorem relays_between {packet : Packet} (addressed : Addressed packet) :
    (relays server (.data author (some packet.frame))).filterMap (·.between author reader) =
      (chatFor listens.id packet).toList := by
  by_cases chats :
    ∃ chat, decodeAppMessage packet.frame = .ok { type := .chat, payload := .chat chat }
  · obtain ⟨chat, decoded⟩ := chats
    obtain ⟨type, parsed⟩ := decode_type decoded
    obtain ⟨⟨recipient, tag, data⟩, -, -⟩ := decodeChatPayload_ok (decodePayload_chat parsed).2
    simp only [relays, found, decoded, if_neg free, chatFor, type, parsed]
    by_cases broadcast : chat.recipientTag = kRecipientBroadcast
    · simp [broadcast, Relayed.between, Relayed.at, apart]
    · have byId : chat.recipientTag = kRecipientById := by
        have direct := addressed chat decoded
        rw [tag] at broadcast direct ⊢
        cases recipient with
        | byId => rfl
        | byNickname => exact absurd rfl direct
        | broadcast => exact absurd rfl broadcast
      have resolves (target : Fd) : chatTarget server chat = some target ↔
          ∃ record, server.registry.findByFd target = some record ∧
            readU32Be chat.recipientData = some record.id ∧ record.id ∉ server.bannedIds := by
        rw [chatTarget_eq_some, Server.resolves_iff_names sound complete tag data]
        simp [Server.Names, byId, kRecipientById, kRecipientByNickname]
      have distinct : ¬ kRecipientById = kRecipientBroadcast := by decide
      simp only [byId, distinct, if_false, false_or, true_and]
      by_cases mine : readU32Be chat.recipientData = some listens.id
      · rw [(resolves reader).mpr ⟨listens, there, mine, hears⟩]
        simp [mine, Relayed.between, Relayed.at]
      · rw [if_neg mine]
        refine List.filterMap_eq_nil_iff.mpr fun relayed member => ?_
        obtain ⟨target, resolved, rfl⟩ := List.mem_map.mp member
        obtain ⟨record, listed, named, -⟩ := (resolves target).mp (Option.mem_toList.mp resolved)
        have elsewhere : reader ≠ target := by
          rintro rfl
          obtain rfl := Option.some.inj (there.symm.trans listed)
          exact mine named
        simp [Relayed.between, Relayed.at, elsewhere]
  · rw [relays_unchatted chats]
    have silent : chatFor listens.id packet = none := by
      unfold chatFor
      split
      · rename_i chat type parsed
        refine absurd ⟨chat, ?_⟩ chats
        rw [Packet.frame, type, decodeAppMessage_frame, parsed]
        rfl
      · rfl
    rw [silent]
    rfl

omit sound found free there hears apart in
theorem fromId_eq {event : Server.Event} {relayed : Relayed}
    (member : relayed ∈ relays server event)
    (found : server.registry.findByFd author = some writes) :
    relayed.fromId = writes.id ↔ relayed.sender = author := by
  cases event with
  | data fd incoming =>
    obtain ⟨sender, record, listed, id⟩ := relays_sender member
    rw [id, sender]
    constructor
    · exact fun same => complete.distinct found listed same
    · rintro rfl
      rw [Option.some.inj (listed.symm.trans found)]
  | accept | remove | ban | requestStop | disconnectAll => cases member

end Uplink

def Roomy (cipher : Monocypher) (world : World) (event : WildEvent) : Prop :=
  WildAllowed cipher world event ∧
    match event with
    | .own event => IdsLeft world event
    | .frame _ _ => True

instance (cipher : Monocypher) (world : World) :
    (event : WildEvent) → Decidable (Roomy cipher world event)
  | .own (.join fd nickname saved random) => inferInstanceAs
      (Decidable (WildAllowed cipher world (.own (.join fd nickname saved random)) ∧
        world.server.usedIds.card < 2 ^ 32 - 2))
  | .own (.leave _) | .own (.ban _) | .own (.serverReceive _) | .own (.clientReceive _)
  | .own (.command ..) | .own (.flush ..) | .frame .. => inferInstanceAs (Decidable (_ ∧ True))

structure World.Sound (cipher : Monocypher) (world : World) : Prop where
  sane : world.Sane cipher
  honest : ∀ fd node, world.nodes.lookup fd = some node → node.Honest
  served : Runs.Reachable Server.Initial Server.IdsLeft Server.step world.server

section Run

variable {cipher : Monocypher} {world : World}

theorem Roomy.idsLeft (connected : ∀ fd ∈ world.nodes, fd ∈ world.server.registry.clientsByFd)
    {event : WildEvent} (may : Roomy cipher world event) {call : Server.Event}
    (calls : event.call? world = some call) : Server.IdsLeft world.server call := by
  have served := wild_served connected may.1 calls
  cases call with
  | accept fd error =>
    refine ⟨served.allowed, fun _ => ?_⟩
    cases event with
    | frame => cases calls
    | own event =>
      cases event with
      | join => exact may.2
      | leave target =>
        simp only [WildEvent.call?] at calls
        split_ifs at calls
        cases calls
      | serverReceive target =>
        obtain ⟨packet, -, other⟩ := Option.map_eq_some_iff.mp calls
        cases other
      | ban | clientReceive | command | flush => cases calls
  | requestStop | disconnectAll => exact served.elim
  | remove | data | ban => trivial

theorem wildStep_sound (sound : world.Sound cipher) {event : WildEvent}
    (may : Roomy cipher world event) : (wildStep cipher world event).Sound cipher where
  sane := wildStep_sane sound.sane may.1
  honest := wildStep_honest sound.sane sound.honest may.1
  served := by
    rw [wild_server sound.sane.connected]
    cases calls : event.call? world with
    | none => exact sound.served
    | some call => exact .next sound.served (may.idsLeft sound.sane.connected calls)

theorem roomy_sound (reachable : Runs.Reachable Initial (Roomy cipher) (wildStep cipher) world) :
    world.Sound cipher := by
  refine reachable.invariant (World.Sound cipher) ?_ fun _ _ sound may => wildStep_sound sound may
  rintro _ rfl
  exact ⟨wild_sane (.start rfl), by simp, .start rfl⟩

variable {author reader : Fd} {authorId readerId : UInt32}

theorem relays_unserved (sound : world.Sound cipher) {event : WildEvent}
    (may : WildAllowed cipher world event) (genuine : ∀ frame, event ≠ .frame author frame)
    (apart : reader ≠ author) (writes : world.Holds author authorId)
    (listens : world.Holds reader readerId) (after : author ∈ (wildStep cipher world event).nodes) :
    (logged world event).filterMap (·.between author reader) ++
        (wildStep cipher world event).unserved author readerId =
      world.unserved author readerId ++ utters cipher author readerId world event := by
  obtain ⟨next, now⟩ := Table.mem_iff_lookup.mp after
  obtain ⟨node, here⟩ := Table.mem_iff_lookup.mp writes.1
  have queued : (wildStep cipher world event).unserved author readerId =
      (next.toServer ++ next.typing).filterMap (chatFor readerId) := by
    rw [World.unserved, now]
    rfl
  have waiting : world.unserved author readerId =
      (node.toServer ++ node.typing).filterMap (chatFor readerId) := by
    rw [World.unserved, here]
    rfl
  rw [queued, waiting]
  cases out_step sound.sane may here now with
  | kept toServer typing replying unread untyped =>
    have silent : (logged world event).filterMap (·.between author reader) = [] := by
      refine List.filterMap_eq_nil_iff.mpr fun relayed member => if_neg fun same => ?_
      obtain ⟨frame, injected⟩ := unread relayed member same
      exact genuine frame injected
    have untold : utters cipher author readerId world event = [] := by
      unfold utters
      split
      · rename_i fd command
        refine if_neg fun same => ?_
        exact untyped command (same ▸ rfl)
      · rfl
    rw [silent, untold, toServer, typing, List.append_nil, List.nil_append]
  | @read packet rest _ queue receives toServer typing replying =>
    subst receives
    obtain ⟨writer, found, rfl⟩ := writes.2.1
    obtain ⟨listener, there, rfl⟩ := listens.2.1
    have calls : logged world (.own (.serverReceive author)) =
        relays world.server (.data author (some packet.frame)) := by
      simp [logged, WildEvent.call?, here, queue]
    have routed := relays_between (Server.reachable_sound sound.sane.reachable)
      (Server.reachable_complete sound.served) found writes.2.2 there listens.2.2 apart
      ((sound.honest author node here).queued packet (by simp [queue]))
    rw [calls, routed, toServer, typing, queue, List.cons_append, List.filterMap_cons]
    cases chatFor listener.id packet <;> simp [utters]
  | @handled packet rest receives =>
    subst receives
    obtain ⟨more, plain, toServer, typing, -⟩ :=
      @handle_out cipher { node with fromServer := rest } packet
    have silent : more.filterMap (chatFor readerId) = [] :=
      List.filterMap_eq_nil_iff.mpr fun other member => chatFor_other readerId (plain other member)
    simp [toServer, typing, silent, logged, WildEvent.call?, utters]
  | obeyed typed =>
    subst typed
    have idle := (may node here).2
    simp [logged, WildEvent.call?, utters, here, idle, Node.obey]
  | @flushed thread writes =>
    subst writes
    have same :
        ((node.flush thread).toServer ++ (node.flush thread).typing).filterMap (chatFor readerId) =
        (node.toServer ++ node.typing).filterMap (chatFor readerId) := by
      cases thread with
      | input => rw [node.flush_input]
      | receiver =>
        have silent : (node.replying.take 1).filterMap (chatFor readerId) = [] :=
          List.filterMap_eq_nil_iff.mpr fun other member => chatFor_other readerId
            ((sound.honest author node here).replies other (List.mem_of_mem_take member))
        simp [Node.flush, silent]
    rw [same]
    simp [logged, WildEvent.call?, utters]

def bodyFrom (id : UInt32) (chat : UInt32 × Bytes) : Option Bytes :=
  if chat.1 = id then some chat.2 else none

def World.inTransit (world : World) (author reader : Fd) (authorId readerId : UInt32) :
    List Bytes :=
  (world.unread reader).filterMap (bodyFrom authorId) ++ world.unserved author readerId

theorem between_eq (sound : world.Sound cipher) (writes : world.Holds author authorId)
    {event : WildEvent} {relayed : Relayed} (member : relayed ∈ logged world event) :
    (relayed.at reader).bind (bodyFrom authorId) = relayed.between author reader := by
  obtain ⟨writer, found, rfl⟩ := writes.2.1
  have same : relayed.fromId = writer.id ↔ relayed.sender = author := by
    unfold logged at member
    cases calls : event.call? world with
    | none =>
      rw [calls] at member
      cases member
    | some call =>
      rw [calls] at member
      exact fromId_eq (Server.reachable_complete sound.served) member found
  unfold Relayed.between Relayed.at
  cases relayed.target with
  | none => by_cases own : reader = relayed.sender <;> simp [own, same, bodyFrom]
  | some target => by_cases mine : reader = target <;> simp [mine, same, bodyFrom]

theorem reads_between (sound : world.Sound cipher) {event : WildEvent}
    (may : WildAllowed cipher world event) (writes : world.Holds author authorId)
    (before : world.Listens reader) (after : (wildStep cipher world event).Listens reader) :
    (reads reader world event).filterMap (bodyFrom authorId) ++
        ((wildStep cipher world event).unread reader).filterMap (bodyFrom authorId) =
      (world.unread reader).filterMap (bodyFrom authorId) ++
        (logged world event).filterMap (·.between author reader) := by
  have all :=
    congrArg (List.filterMap (bodyFrom authorId)) (reads_unread sound.sane may before after)
  rw [List.filterMap_append, List.filterMap_append, List.filterMap_filterMap] at all
  rw [all, List.append_cancel_left_eq]
  exact List.filterMap_congr fun relayed member => between_eq sound writes member

end Run

theorem World.Holds.listens {world : World} {fd : Fd} {id : UInt32} (holds : world.Holds fd id) :
    world.Listens fd := by
  obtain ⟨here, ⟨record, found, rfl⟩, free⟩ := holds
  refine ⟨here, fun other listed => ?_⟩
  exact Option.some.inj ((Option.mem_def.mp found).symm.trans listed) ▸ free

/-- All that arrives from a connection is what the program at its other end sends. -/
def WildEvent.Genuine (fd : Fd) : WildEvent → Prop
  | .own _ => True
  | .frame other _ => other ≠ fd

instance WildEvent.Genuine.decidable (fd : Fd) : (event : WildEvent) → Decidable (event.Genuine fd)
  | .own _ => .isTrue trivial
  | .frame other _ => inferInstanceAs (Decidable (other ≠ fd))

/--
While two clients stay connected and unbanned, whatever the others do: the chats that the first
makes for the second, by id or for all, are read by the second in this order, none twice and none
left out but those still on their way.
-/
theorem chats_first_in_first_out {cipher : Monocypher} {world : World} {events : List WildEvent}
    {author reader : Fd} {authorId readerId : UInt32}
    (reachable : Runs.Reachable Initial (Roomy cipher) (wildStep cipher) world)
    (admissible : Runs.Admissible
      (fun world event => Roomy cipher world event ∧ event.Genuine author)
      (wildStep cipher) world events) (apart : reader ≠ author)
    (stay : Runs.Throughout (fun world => world.Holds author authorId ∧ world.Holds reader readerId)
      (wildStep cipher) world events) :
    (chatsRead cipher reader world events).filterMap (bodyFrom authorId) ++
        (events.foldl (wildStep cipher) world).inTransit author reader authorId readerId =
      world.inTransit author reader authorId readerId ++
        Runs.observed (utters cipher author readerId) (wildStep cipher) world events := by
  have guarded := (admissible.strengthen (World.Sound cipher)
    (fun _ _ sound may => wildStep_sound sound may.1) (roomy_sound reachable)).throughout stay
  -- what the server passes on from the first to the second is what the one queue gives to the other
  have served := @Runs.Admissible.conserved _ _ _ _ _ (World.unserved · author readerId)
    (utters cipher author readerId)
    (fun world event => (logged world event).filterMap (·.between author reader)) ?_ _ _ guarded
  · have passed := @Runs.Admissible.conserved _ _ _ _ _
      (fun world => (world.unread reader).filterMap (bodyFrom authorId))
      (fun world event => (logged world event).filterMap (·.between author reader))
      (fun world event => (reads reader world event).filterMap (bodyFrom authorId)) ?_ _ _ guarded
    · rw [chatsRead, Runs.filterMap_observed, World.inTransit, World.inTransit, ← List.append_assoc,
        passed, List.append_assoc, served, List.append_assoc]
    · rintro world event ⟨⟨sound, may, -⟩, ⟨writes, listens⟩, -, later⟩
      exact reads_between sound may.1 writes listens.listens later.listens
  · rintro world event ⟨⟨sound, may, genuine⟩, ⟨writes, listens⟩, later, -⟩
    refine relays_unserved sound may.1 (fun frame injected => ?_) apart writes listens later.1
    rw [injected] at genuine
    exact genuine rfl

def hiTyped : List WildEvent :=
  [.own (.command 3 (.chatBroadcast (ascii "hi"))), .own (.flush 3 .input), .own (.serverReceive 3),
    .own (.clientReceive 4), .own (.clientReceive 4)]

theorem chats_first_in_first_out_hi :
    ∃ body, Runs.observed (utters transparent 3 2) (wildStep transparent) twoJoined
      hiTyped = [body] ∧
      (chatsRead transparent 4 twoJoined hiTyped).filterMap (bodyFrom 1) = [body] := by
  have reachable : Runs.Reachable Initial (Roomy transparent) (wildStep transparent) twoJoined :=
    Runs.Reachable.foldl (.start rfl) (by decide +kernel)
  have order := @chats_first_in_first_out transparent twoJoined hiTyped 3 4 1 2 reachable
    (by decide +kernel) (by decide) (by decide +kernel)
  have queues : (hiTyped.foldl (wildStep transparent) twoJoined).inTransit 3 4 1 2 = [] ∧
      twoJoined.inTransit 3 4 1 2 = [] := by
    decide +kernel
  rw [queues.1, queues.2, List.append_nil, List.nil_append] at order
  have uttered : (Runs.observed (utters transparent 3 2) (wildStep transparent) twoJoined
      hiTyped).length = 1 := by decide +kernel
  obtain ⟨body, only⟩ := List.length_eq_one_iff.mp uttered
  exact ⟨body, only, order.trans only⟩

end ModbusChat.System
