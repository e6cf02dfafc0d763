import ModbusChat.Client.Confinement
import ModbusChat.Server.Relays
import ModbusChat.Shared.Traces
import ModbusChat.System.Wild

set_option autoImplicit false

-- Every message can cause others: an offered key is answered by a room key and, the first time, by
-- an offer in return. Each message is priced by all that can still come of it, so that handling it
-- costs more than what it causes, and without commands or new connections only finitely much
-- happens.

namespace ModbusChat.Client

open BigEndian Effects Wire

theorem card_ids_le (ids : Finset UInt32) : ids.card ≤ 2 ^ 32 := by
  have bounded : ids.image UInt32.toNat ⊆ Finset.range (2 ^ 32) := by
    intro value member
    obtain ⟨id, -, rfl⟩ := Finset.mem_image.mp member
    exact Finset.mem_range.mpr id.toNat_lt
  calc ids.card = (ids.image UInt32.toNat).card :=
        (Finset.card_image_of_injective ids fun _ _ same => UInt32.toNat_inj.mp same).symm
    _ ≤ (Finset.range (2 ^ 32)).card := Finset.card_le_card bounded
    _ = 2 ^ 32 := Finset.card_range _

-- What each connection may still be owed once the server has handled a request.
def Request.stirs (clients : Nat) : Request → Nat
  | .keyOffer _ _ | .misaddressed => clients + 3
  | .roomKeyOffer _ _ | .other => 1

def Request.price (clients : Nat) (request : Request) : Nat := clients * request.stirs clients + 1

def Notice.price (clients : Nat) : Notice → Nat
  | .peerKey _ _ => clients + 3
  | .assigned _ _ | .joined _ | .banned _ | .roomKey _ _ | .other => 1

-- The offers that a client may still make: one to each id.
def KeyAgent.reserve (clients : Nat) (agent : KeyAgent) : Nat :=
  (2 ^ 32 - agent.keyOfferedTo.card) * (clients * (clients + 3) + 2)

-- A request that is still to be written costs the write as well.
def unwritten (clients : Nat) (requests : List Request) : Nat :=
  (requests.map fun request => request.price clients + 1).sum

section Price

variable (clients : Nat) (agent : KeyAgent)

theorem KeyAgent.offer_price (peerId : UInt32) :
    unwritten clients (agent.offer peerId).2 + (agent.offer peerId).1.reserve clients ≤
      agent.reserve clients := by
  unfold KeyAgent.offer
  split_ifs with done
  · simp [unwritten]
  · have fresh : peerId ∉ agent.keyOfferedTo := fun offered => done (.inr (.inr offered))
    have bound := card_ids_le (insert peerId agent.keyOfferedTo)
    rw [Finset.card_insert_of_notMem fresh] at bound
    have left :
        2 ^ 32 - agent.keyOfferedTo.card = 2 ^ 32 - (agent.keyOfferedTo.card + 1) + 1 := by omega
    simp only [unwritten, KeyAgent.reserve, Request.price, Request.stirs, List.map_cons,
      List.map_nil, List.sum_cons, List.sum_nil, Finset.card_insert_of_notMem fresh]
    rw [left, Nat.succ_mul]
    omega

theorem KeyAgent.share_price (cipher : Monocypher) (nonce : Bytes) (peerId : UInt32) :
    unwritten clients (agent.share cipher nonce peerId) ≤ clients + 2 := by
  unfold KeyAgent.share
  split
  · split <;> simp [unwritten, Request.price, Request.stirs]
  · simp [unwritten]

-- Handling a message costs more than what the client sends for it.
theorem KeyAgent.receive_price (cipher : Monocypher) (nonce : Bytes) (notice : Notice) :
    unwritten clients (agent.receive cipher nonce notice).2 +
        (agent.receive cipher nonce notice).1.reserve clients + 1 ≤
      agent.reserve clients + notice.price clients := by
  cases notice with
  | peerKey fromId key =>
    unfold KeyAgent.receive
    dsimp only
    split_ifs
    · have offered := (agent.learn fromId key).offer_price clients fromId
      have shared :=
        ((agent.learn fromId key).offer fromId).1.share_price clients cipher nonce fromId
      have same : (agent.learn fromId key).reserve clients = agent.reserve clients := rfl
      simp only [unwritten, List.map_append, List.sum_append, Notice.price] at offered shared ⊢
      omega
    · simp [unwritten, Notice.price]
  | joined id => exact Nat.succ_le_succ (agent.offer_price clients id)
  | roomKey fromId sealed =>
    unfold KeyAgent.receive
    dsimp only
    split <;> simp [unwritten, Notice.price, KeyAgent.reserve]
  | assigned | banned | other => simp [KeyAgent.receive, unwritten, Notice.price, KeyAgent.reserve]

end Price

section Brief

variable {α β : Type}

def Brief (action : ClientM α) : Prop := ∀ client, (packets (action.run client).output).length ≤ 1

theorem brief_send (type : MsgType) (payload : Except Failure Bytes) :
    Brief (send type payload) := by
  intro client
  cases payload with
  | error failure => simp [send, packets]
  | ok bytes =>
    cases online : client.online <;> simp [send, online, packets, ClientEffect.packet?]

theorem Brief.then_idle {action : ClientM α} {next : α → ClientM β} (first : Brief action)
    (rest : ∀ value, Idle (next value)) : Brief (action >>= next) := by
  intro client
  have early := first client
  rw [Action.run_bind]
  generalize action.run client = outcome at early ⊢
  obtain ⟨state, output, failure | value⟩ := outcome
  · exact early
  · rwa [Outcome.andThen_ok, Outcome.before_output, packets_append, (rest value).packets state,
      List.append_nil]

theorem brief_after {cipher : Monocypher} {deeds : List Deed} {action : ClientM α}
    {next : α → ClientM β}
    (first : Prepares cipher deeds action) (rest : ∀ value, Brief (next value)) :
    Brief (action >>= next) := by
  intro client
  have early := first.packets client
  rw [Action.run_bind]
  generalize action.run client = outcome at early ⊢
  obtain ⟨state, output, failure | value⟩ := outcome
  · rw [Outcome.andThen_error, early]
    exact Nat.zero_le _
  · rw [Outcome.andThen_ok, Outcome.before_output, packets_append, early]
    exact rest value state

theorem brief_registerNickname : Brief registerNickname := by
  intro client
  simp only [registerNickname, Action.run_bind, Action.run_get, Outcome.andThen_ok,
    Outcome.before_nil]
  split_ifs
  · exact Nat.zero_le _
  · refine (brief_send _ _).then_idle (fun sent => idle_unlessSent sent _ _) client

theorem startUp_brief (incoming : Option Frame) : Brief (startUp incoming) := by
  refine brief_after (@receiveAssignedId_prepares transparent incoming) fun _ => ?_
  exact brief_registerNickname.then_idle fun _ =>
    (idle_report rfl).bind fun _ => (idle_report rfl).bind fun _ => idle_report rfl

end Brief

end ModbusChat.Client

namespace ModbusChat.System

open BigEndian Effects Wire Client
open Server (Fd ServerViewModel ClientRecord)

-- All that can still come of what a client holds and of what is on its way to and from it.
def Node.price (clients : Nat) (node : Node) : Nat :=
  (node.toServer.map fun packet => packet.request.price clients).sum +
    unwritten clients (node.typing.map Packet.request) +
    unwritten clients (node.replying.map Packet.request) +
    (node.fromServer.map fun packet => packet.notice.price clients).sum +
    node.client.agent.reserve clients +
    bif node.started then 0 else clients + 1

def World.energy (clients : Nat) (world : World) : Nat := world.nodes.total (Node.price clients)

def Node.outbox (node : Node) : Thread → List Packet
  | .input => node.typing
  | .receiver => node.replying

/-- A step with something to do, where no user and no new client is needed. -/
def Busy (world : World) : Event → Prop
  | .serverReceive fd => ∃ node ∈ world.nodes.lookup fd, node.toServer ≠ []
  | .clientReceive fd => ∃ node ∈ world.nodes.lookup fd, node.fromServer ≠ [] ∧ node.replying = []
  | .flush fd thread => ∃ node ∈ world.nodes.lookup fd, node.outbox thread ≠ []
  | .join .. | .leave _ | .ban _ | .command .. => False

instance Busy.decidable (world : World) : (event : Event) → Decidable (Busy world event)
  | .serverReceive fd =>
      inferInstanceAs (Decidable (∃ node ∈ world.nodes.lookup fd, node.toServer ≠ []))
  | .clientReceive fd => inferInstanceAs
      (Decidable (∃ node ∈ world.nodes.lookup fd, node.fromServer ≠ [] ∧ node.replying = []))
  | .flush fd thread =>
      inferInstanceAs (Decidable (∃ node ∈ world.nodes.lookup fd, node.outbox thread ≠ []))
  | .join .. | .leave _ | .ban _ | .command .. => .isFalse id

theorem inbox_once {output : List Server.Effect} (once : Server.SendsOnce output) (fd : Fd) :
    (inbox fd output).length ≤ 1 := by
  have counted := List.nodup_iff_count_le_one.mp once fd
  rw [List.count, List.countP_map, List.countP_eq_length_filter] at counted
  rw [inbox, List.length_map]
  refine le_of_eq_of_le (congrArg List.length (List.filter_congr fun sent _ => ?_)) counted
  simp [beq_eq_decide]

section Node

variable {cipher : Monocypher} {node : Node} (clients : Nat)

theorem unwritten_flush (requests : List Packet) (some : requests ≠ []) :
    unwritten clients (requests.tail.map Packet.request) +
        ((requests.take 1).map fun packet => packet.request.price clients).sum + 1 =
      unwritten clients (requests.map Packet.request) := by
  cases requests with
  | nil => exact absurd rfl some
  | cons packet rest =>
    simp only [unwritten, List.tail_cons, List.take_succ_cons, List.take_zero, List.map_cons,
      List.map_nil, List.sum_cons, List.sum_nil]
    omega

theorem Node.price_hear (heard : List Packet) :
    ({ node with fromServer := node.fromServer ++ heard } : Node).price clients =
      node.price clients + (heard.map fun packet => packet.notice.price clients).sum := by
  simp only [Node.price, List.map_append, List.sum_append]
  omega

theorem Node.flush_price {thread : Thread} (waiting : node.outbox thread ≠ []) :
    (node.flush thread).price clients < node.price clients := by
  cases thread with
  | input =>
    have written := unwritten_flush clients node.typing waiting
    simp only [Node.price, Node.flush, List.map_append, List.sum_append] at written ⊢
    omega
  | receiver =>
    have written := unwritten_flush clients node.replying waiting
    simp only [Node.price, Node.flush, List.map_append, List.sum_append] at written ⊢
    omega

theorem started_price {sent : List Packet}
    (plain : ∀ request ∈ sent.map Packet.request, request = .other) (brief : sent.length ≤ 1) :
    (sent.map fun packet => packet.request.price clients).sum ≤ clients + 1 := by
  cases sent with
  | nil => exact Nat.zero_le _
  | cons packet rest =>
    obtain rfl : rest = [] := List.eq_nil_of_length_eq_zero (by simpa using brief)
    have other : packet.request = .other := plain _ (by simp)
    simp [other, Request.price, Request.stirs]

theorem Node.handle_price (able : node.Able cipher) {packet : Packet} {rest : List Packet}
    (queue : node.fromServer = packet :: rest) (written : node.replying = []) :
    (Node.handle cipher { node with fromServer := rest } packet).price clients <
      node.price clients := by
  cases started : node.started with
  | true =>
    obtain ⟨nonce, -, follows⟩ :=
      @receiveNext_follows cipher node.client able.ready.1 able.identityShort packet
    have paid := node.client.agent.receive_price clients cipher nonce packet.notice
    rw [← follows.agent, ← follows.requests] at paid
    simp only [Node.price, Node.handle, started, if_true, queue, written, List.map_cons,
      List.sum_cons, List.map_nil, cond_true] at paid ⊢
    have none : unwritten clients [] = 0 := rfl
    omega
  | false =>
    obtain ⟨first, others, id, createRoom, waits, told⟩ := able.waiting started
    obtain ⟨rfl, rfl⟩ := List.cons.inj (waits.symm.trans queue)
    obtain ⟨fresh, chatter, -, plain, returned, follows⟩ :=
      startUp_follows able.ready.1 able.ready.2 told
    have ended : ((startUp (some first.frame)).run node.client).result.isOk = true := by
      rw [returned]
      rfl
    have reserve : ((startUp (some first.frame)).run node.client).state.agent.reserve clients =
        node.client.agent.reserve clients := by
      rw [follows.agent]
      rfl
    have name :=
      started_price clients (follows.requests ▸ plain)
        (startUp_brief (some first.frame) node.client)
    have notice : 1 ≤ first.notice.price clients := by
      cases first.notice <;> simp [Notice.price]
    simp only [Node.price, Node.handle, started, Bool.false_eq_true, if_false, queue, List.map_cons,
      List.sum_cons, List.map_append, List.sum_append, ended, cond_true, cond_false,
        reserve] at name ⊢
    omega

end Node

section World

variable {cipher : Monocypher} {world : World} {clients : Nat}

theorem updateNode_energy {after : World} {fd : Fd} {node : Node} (update : Node → Node)
    (nodes : after.nodes = (world.updateNode fd update).nodes) (few : world.nodes.size ≤ clients)
    (here : world.nodes.lookup fd = some node)
    (cheaper : (update node).price clients < node.price clients) :
    after.energy clients < world.energy clients ∧ after.nodes.size ≤ clients := by
  have inserted : after.nodes = world.nodes.insert fd (update node) := by
    rw [nodes]
    simp only [World.updateNode, here]
  have total := Table.total_insert here (Node.price clients) (update node)
  have size := Table.size_insert here (update node)
  rw [← inserted] at total size
  simp only [World.energy]
  exact ⟨by omega, size.trans_le few⟩

theorem notice_price_light {packet : Packet} (other : packet.type ≠ .peerKey) :
    packet.notice.price clients = 1 := by
  obtain ⟨type, payload⟩ := packet
  cases type
  case peerKey => exact absurd rfl other
  all_goals
    simp only [Packet.notice]
    try split
    all_goals rfl

theorem inbox_price (sane : world.Sane cipher) {fd other : Fd} {sender : ClientRecord}
    {packet : Packet} (found : world.server.registry.findByFd fd = some sender) :
    ((inbox other ((Server.handleClientData fd (some packet.frame)).run world.server).output).map
      fun told => told.notice.price clients).sum ≤ packet.request.stirs clients := by
  have fits := Server.reachable_recordFits sane.reachable
  have once := inbox_once (@Server.handleClientData_once _ _ _ packet.frame fits found) other
  cases heard :
    inbox other ((Server.handleClientData fd (some packet.frame)).run world.server).output with
  | nil => exact Nat.zero_le _
  | cons told rest =>
    rw [heard] at once
    obtain rfl : rest = [] := List.eq_nil_of_length_eq_zero (by simpa using once)
    have member : told ∈ inbox other
        ((Server.handleClientData fd (some packet.frame)).run world.server).output := by
          simp [heard]
    rw [List.map_singleton, List.sum_singleton]
    by_cases key : told.type = .peerKey
    · -- only an offer brings a key, and it is priced for one
      obtain ⟨chat, decoded⟩ := Server.peerKey_offered fits found (mem_inbox.mp member) key
      have offers : packet.request.stirs clients = clients + 3 := by
        rcases request_cases packet with same | ⟨-, plain⟩ | ⟨_, _, -, -, -, same⟩ | ⟨_,
          _, other, -⟩
        · rw [same]
          rfl
        · cases plain _ _ decoded
        · rw [same]
          rfl
        · cases decoded.symm.trans other
      rw [offers]
      cases told.notice <;> simp [Notice.price]
    · rw [notice_price_light key]
      cases packet.request <;> simp [Request.stirs]

theorem serve_energy (sane : world.Sane cipher) (few : world.nodes.size ≤ clients) {fd : Fd}
    {node : Node} {packet : Packet} {rest : List Packet} (here : world.nodes.lookup fd = some node)
    (queue : node.toServer = packet :: rest) :
    (step cipher world (.serverReceive fd)).energy clients < world.energy clients ∧
      (step cipher world (.serverReceive fd)).nodes.size ≤ clients := by
  obtain ⟨sender, found⟩ := sane.record_of_node here
  let early := world.updateNode fd fun node => { node with toServer := rest }
  have nodes : early.nodes = world.nodes.insert fd { node with toServer := rest } := by
    simp only [early, World.updateNode, here]
  have server : early.server = world.server := by
    simp only [early, World.updateNode, here]
  have run : step cipher world (.serverReceive fd) = early.call (.data fd (some packet.frame)) := by
    simp only [step, here, queue, early]
  have taken := Table.total_insert here (Node.price clients) { node with toServer := rest }
  have size := Table.size_insert here { node with toServer := rest }
  rw [← nodes] at taken size
  have price : node.price clients =
      ({ node with toServer := rest } : Node).price clients + packet.request.price clients := by
    simp only [Node.price, queue, List.map_cons, List.sum_cons]
    omega
  have grown : (early.call (.data fd (some packet.frame))).energy clients ≤
      early.nodes.total (Node.price clients) + early.nodes.size * packet.request.stirs clients := by
    refine Table.total_restrict_mapWithKey fun other value _ => ?_
    rw [server, Node.price_hear]
    exact Nat.add_le_add_left (inbox_price sane found) _
  have most :
      early.nodes.size * packet.request.stirs clients ≤ clients * packet.request.stirs clients :=
    Nat.mul_le_mul_right _ (size ▸ few)
  rw [run]
  refine ⟨?_, (Table.size_restrict_mapWithKey _ _ _).trans (size ▸ few)⟩
  simp only [World.energy, Request.price] at price taken grown ⊢
  omega

theorem busy_energy (sane : world.Sane cipher) (few : world.nodes.size ≤ clients) {event : Event}
    (busy : Busy world event) :
    (step cipher world event).energy clients < world.energy clients ∧
      (step cipher world event).nodes.size ≤ clients := by
  cases event with
  | serverReceive fd =>
    obtain ⟨node, here, waiting⟩ := busy
    obtain ⟨packet, rest, queue⟩ := List.exists_cons_of_ne_nil waiting
    exact serve_energy sane few here queue
  | clientReceive fd =>
    obtain ⟨node, here, waiting, written⟩ := busy
    obtain ⟨packet, rest, queue⟩ := List.exists_cons_of_ne_nil waiting
    have found : world.nodes.lookup fd = some node := here
    have cheaper := Node.handle_price clients (sane.able fd node found) queue written
    have nodes : (step cipher world (.clientReceive fd)).nodes =
        (world.updateNode fd fun node =>
          { node with fromServer := rest }.handle cipher packet).nodes := by
      simp only [step, found, queue]
    exact updateNode_energy _ nodes few found cheaper
  | flush fd thread =>
    obtain ⟨node, found, waiting⟩ := busy
    exact updateNode_energy (·.flush thread) rfl few found (node.flush_price clients waiting)
  | join | leave | ban | command => exact busy.elim

theorem quiescent_iff_idle (world : World) : world.Quiescent ↔ ∀ event, ¬ Busy world event := by
  constructor
  · intro quiescent event busy
    have still {fd : Fd} {node : Node} (here : node ∈ world.nodes.lookup fd) :=
      quiescent node (Table.mem_values.mpr ⟨fd, here⟩)
    cases event with
    | serverReceive fd =>
      obtain ⟨node, here, waiting⟩ := busy
      exact waiting (still here).2.2.1
    | clientReceive fd =>
      obtain ⟨node, here, waiting, -⟩ := busy
      exact waiting (still here).2.2.2
    | flush fd thread =>
      obtain ⟨node, here, waiting⟩ := busy
      cases thread with
      | input => exact waiting (still here).1
      | receiver => exact waiting (still here).2.1
    | join | leave | ban | command => exact busy
  · intro idle node member
    obtain ⟨fd, here⟩ := Table.mem_values.mp member
    have replying : node.replying = [] :=
      not_not.mp fun waiting => idle (.flush fd .receiver) ⟨node, here, waiting⟩
    exact ⟨not_not.mp fun waiting => idle (.flush fd .input) ⟨node, here, waiting⟩, replying,
      not_not.mp fun waiting => idle (.serverReceive fd) ⟨node, here, waiting⟩,
      not_not.mp fun waiting => idle (.clientReceive fd) ⟨node, here, waiting, replying⟩⟩

theorem Busy.allowed {event : Event} (busy : Busy world event) : Allowed cipher world event := by
  cases event with
  | clientReceive fd =>
    obtain ⟨node, here, -, written⟩ := busy
    intro other found
    exact Option.some.inj ((Option.mem_def.mp here).symm.trans found) ▸ written
  | serverReceive | flush => trivial
  | join | leave | ban | command => exact busy.elim

end World

def World.settlesWithin (world : World) : Nat := world.energy world.nodes.size

/--
Whatever was sent before, by honest clients and by others: left alone, the threads of the clients
and the loop of the server take no more than so many steps in whatever order they run, and where no
step is left, nothing is in flight.
-/
theorem network_settles {cipher : Monocypher} {world : World}
    (reachable : WildReachable cipher world)
    {events : List Event} (admissible : Runs.Admissible Busy (step cipher) world events) :
    events.length ≤ world.settlesWithin ∧
      ((∀ event, ¬ Busy (events.foldl (step cipher) world) event) ↔
        (events.foldl (step cipher) world).Quiescent) := by
  refine ⟨?_, (quiescent_iff_idle _).symm⟩
  have kept : Runs.Admissible (fun other event =>
      (other.Sane cipher ∧ other.nodes.size ≤ world.nodes.size) ∧ Busy other event)
        (step cipher) world
      events := by
    refine admissible.strengthen _ ?_ ⟨wild_sane reachable, le_rfl⟩
    intro other event ready busy
    exact ⟨@wildStep_sane cipher other ready.1 (.own event) busy.allowed,
      (busy_energy ready.1 ready.2 busy).2⟩
  have counted : events.length + World.energy world.nodes.size (events.foldl (step cipher) world) ≤
      world.settlesWithin := by
    refine Runs.Admissible.length_le ?_ kept
    intro other event may
    exact (busy_energy may.1.1 may.1.2 may.2).1
  exact (Nat.le_add_right _ _).trans counted

def bothJoined : World :=
  [WildEvent.own (.join 3 (ascii "ann") none fun _ => 7),
    .own (.join 4 (ascii "bob") none fun _ => 9)].foldl
    (wildStep transparent) {}

-- Both learn their ids and send their names; the first one offers its key when it hears of the
-- second one, is offered a key in return, and shares the room key.
def introductions : List Event :=
  [.clientReceive 3, .clientReceive 3, .clientReceive 4, .flush 3 .receiver, .serverReceive 3,
    .clientReceive 4, .flush 4 .receiver, .serverReceive 3, .clientReceive 4, .serverReceive 4,
    .clientReceive 3, .serverReceive 4, .clientReceive 3, .flush 3 .receiver, .serverReceive 3,
    .clientReceive 4]

theorem network_settles_introduced :
    introductions.length ≤ bothJoined.settlesWithin ∧
      (introductions.foldl (step transparent) bothJoined).Quiescent ∧
      ((introductions.foldl (step transparent) bothJoined).nodes.lookup 4).bind
        (·.client.keyStore.roomKey) = some (List.replicate 32 7) := by
  have reachable : WildReachable transparent bothJoined :=
    Runs.Reachable.foldl (.start rfl) (by decide +kernel)
  obtain ⟨bounded, -⟩ := @network_settles transparent _ reachable introductions (by decide +kernel)
  exact ⟨bounded, by decide +kernel, by decide +kernel⟩

end ModbusChat.System
