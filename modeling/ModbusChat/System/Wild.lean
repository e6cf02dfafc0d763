import ModbusChat.System.News

set_option autoImplicit false

-- Nothing makes a client keep to the program: in a wild run a connection may bring any frame
-- besides those of its client. Ids may run out. What is left is what the server and the two ends of
-- a connection do by themselves.

namespace ModbusChat.System

open BigEndian Effects Wire Client
open Server (Fd ServerViewModel ClientRecord ClientRegistry)

inductive WildEvent where
  | own (event : Event)
  | frame (fd : Fd) (frame : Frame)

section Step

variable (cipher : Monocypher)

def wildStep (world : World) : WildEvent → World
  | .own event => step cipher world event
  | .frame fd frame => world.call (.data fd (some frame))

def WildAllowed (world : World) : WildEvent → Prop
  | .own event => Allowed cipher world event
  | .frame fd _ => fd ∈ world.nodes

instance WildAllowed.decidable (world : World) :
    (event : WildEvent) → Decidable (WildAllowed cipher world event)
  | .own event => Allowed.decidable cipher world event
  | .frame fd _ => inferInstanceAs (Decidable (fd ∈ world.nodes))

abbrev WildReachable : World → Prop := Runs.Reachable Initial (WildAllowed cipher) (wildStep cipher)

def WildEvent.Reads (fd : Fd) : WildEvent → Prop
  | .own (.clientReceive reader) => reader = fd
  | _ => False

instance WildEvent.Reads.decidable (fd : Fd) : (event : WildEvent) → Decidable (event.Reads fd)
  | .own (.clientReceive reader) => inferInstanceAs (Decidable (reader = fd))
  | .own (.join ..) | .own (.leave _) | .own (.ban _) | .own (.serverReceive _) | .own (.command ..)
  | .own (.flush ..) | .frame .. => .isFalse id

def WildEvent.call? (world : World) : WildEvent → Option Server.Event
  | .own (.join fd _ _ _) => some (.accept fd "")
  | .own (.leave fd) => if fd ∈ world.server.registry.clientsByFd then some (.remove fd) else none
  | .own (.ban ids) => some (.ban ids)
  | .own (.serverReceive fd) =>
      ((world.nodes.lookup fd).bind fun node => node.toServer.head?).map fun packet =>
        .data fd (some packet.frame)
  | .own (.clientReceive _) | .own (.command ..) | .own (.flush ..) => none
  | .frame fd arrived => some (.data fd (some arrived))

theorem WildEvent.Reads.quiet {event : WildEvent} {fd : Fd} (reads : event.Reads fd)
    (world : World) :
    event.call? world = none := by
  cases event with
  | frame => exact reads.elim
  | own event =>
    cases event with
    | clientReceive => rfl
    | _ => exact reads.elim

inductive NodeStep (world : World) (event : WildEvent) (fd : Fd) (node : Node) : Node → Prop
  | told {call : Server.Event} {next : Node} (calls : event.call? world = some call)
      (client : next.client = node.client) (started : next.started = node.started)
      (heard : next.fromServer = node.fromServer ++ inbox fd (call.action.run world.server).output)
      (present : fd ∈ (Server.step world.server call).registry.clientsByFd) :
      NodeStep world event fd node next
  | handled {packet : Packet} {rest : List Packet} (reads : event.Reads fd)
      (queue : node.fromServer = packet :: rest) :
      NodeStep world event fd node (Node.handle cipher { node with fromServer := rest } packet)
  | obeyed (other : ¬ event.Reads fd) (quiet : event.call? world = none)
      (started : node.started = true) (command : InputCommand) :
      NodeStep world event fd node (node.obey cipher command)
  | kept {next : Node} (idle : event.Reads fd → node.fromServer = [])
      (quiet : event.call? world = none) (client : next.client = node.client)
      (started : next.started = node.started) (fromServer : next.fromServer = node.fromServer) :
      NodeStep world event fd node next

inductive Origin (world : World) (event : WildEvent) (fd : Fd) (node : Node) : Prop
  | stayed {before : Node} (here : world.nodes.lookup fd = some before)
      (moved : NodeStep cipher world event fd before node)
  | joined {nickname : Bytes} {saved : Option PeerKeyStore} {random : Nat → UInt8}
      (vacant : world.server.registry.findByFd fd = none) (accepted : ¬ fd < 0)
      (short : nickname.length ≤ kMaxU16Count) (genuine : ∀ store ∈ saved, store.WellFormed cipher)
      (calls : event.call? world = some (.accept fd ""))
      (fresh : node =
        { client := launch cipher nickname saved random
          fromServer := [{ type := .assignId
                           payload := encodeAssignId world.nextId
                             world.server.registry.allFds.isEmpty }] })

end Step

theorem World.call_node {world : World} {call : Server.Event} {fd : Fd} {next : Node}
    (here : (world.call call).nodes.lookup fd = some next) :
    ∃ node, world.nodes.lookup fd = some node ∧
      next = { node with
        fromServer := node.fromServer ++ inbox fd (call.action.run world.server).output } ∧
      fd ∈ (Server.step world.server call).registry.clientsByFd := by
  rw [World.call_lookup] at here
  split_ifs at here with stays
  obtain ⟨node, found, same⟩ := Option.map_eq_some_iff.mp here
  exact ⟨node, found, same.symm, stays⟩

theorem World.updateNode_node {world : World} {fd target : Fd} {update : Node → Node} {next : Node}
    (here : (world.updateNode target update).nodes.lookup fd = some next) :
    ∃ node, world.nodes.lookup fd = some node ∧ next = if fd = target then update node
      else node := by
  unfold World.updateNode at here
  split at here
  · next absent =>
    refine ⟨next, here, ?_⟩
    rw [if_neg]
    rintro rfl
    simp [absent] at here
  · next node found =>
    rw [Table.lookup_insert_eq] at here
    split_ifs at here with same
    · subst same
      exact ⟨node, found, by rw [if_pos rfl, Option.some.inj here]⟩
    · exact ⟨next, here, by rw [if_neg same]⟩

section Origin

variable {cipher : Monocypher} {world : World} {fd : Fd} {node : Node}

theorem Origin.of_call {event : WildEvent} {early : World} {call : Server.Event}
    (calls : event.call? world = some call)
    (run : wildStep cipher world event = early.call call) (server : early.server = world.server)
    (before : ∀ node, early.nodes.lookup fd = some node →
      ∃ old, world.nodes.lookup fd = some old ∧ node.client = old.client ∧
        node.started = old.started ∧ node.fromServer = old.fromServer)
    (here : (wildStep cipher world event).nodes.lookup fd = some node) :
    Origin cipher world event fd node := by
  rw [run] at here
  obtain ⟨held, found, rfl, stays⟩ := World.call_node here
  obtain ⟨old, present, client, started, fromServer⟩ := before held found
  rw [server] at stays
  exact .stayed present (.told calls client started (by rw [fromServer, server]) stays)

theorem Origin.of_update {event : WildEvent} {target : Fd} {update : Node → Node}
    (nodes : (wildStep cipher world event).nodes = (world.updateNode target update).nodes)
    (quiet : event.call? world = none) (others : event.Reads fd → fd = target)
    (moved : ∀ old, world.nodes.lookup target = some old →
      NodeStep cipher world event target old (update old))
    (here : (wildStep cipher world event).nodes.lookup fd = some node) :
    Origin cipher world event fd node := by
  rw [nodes] at here
  obtain ⟨old, present, rfl⟩ := World.updateNode_node here
  refine .stayed present ?_
  by_cases same : fd = target
  · subst same
    rw [if_pos rfl]
    exact moved old present
  · rw [if_neg same]
    exact .kept (fun reads => absurd (others reads) same) quiet rfl rfl rfl

theorem Origin.of_idle {event : WildEvent}
    (same : (wildStep cipher world event).nodes.lookup fd = world.nodes.lookup fd)
    (quiet : event.call? world = none)
    (idle : event.Reads fd → ∀ old, world.nodes.lookup fd = some old → old.fromServer = [])
    (here : (wildStep cipher world event).nodes.lookup fd = some node) :
    Origin cipher world event fd node := by
  rw [same] at here
  exact .stayed here (.kept (fun reads => idle reads node here) quiet rfl rfl rfl)

theorem Origin.of_join {nickname : Bytes} {saved : Option PeerKeyStore} {random : Nat → UInt8}
    {target : Fd} (may : Allowed cipher world (.join target nickname saved random))
    (here : (step cipher world (.join target nickname saved random)).nodes.lookup fd = some node) :
    Origin cipher world (.own (.join target nickname saved random)) fd node := by
  obtain ⟨vacant, accepted, short, genuine⟩ := may
  by_cases same : fd = target
  · subst same
    refine @Origin.joined _ _ _ _ _ nickname saved random (AList.lookup_eq_none.mpr vacant) accepted
      short genuine rfl ?_
    obtain ⟨held, found, rfl, -⟩ := World.call_node here
    obtain rfl := Option.some.inj ((AList.lookup_insert _).symm.trans found)
    have heard := accept_inbox accepted world.server "" fd
    rw [if_pos rfl] at heard
    exact congrArg (Node.mk _ _ _ _ _) heard
  · have calls : (WildEvent.own (.join target nickname saved random)).call? world =
        some (.accept target "") := rfl
    refine .of_call calls rfl rfl (fun held found => ?_) here
    rw [show AList.lookup fd _ = _ from Table.lookup_insert_eq _ _ _ _, if_neg same] at found
    exact ⟨held, found, rfl, rfl, rfl⟩

theorem Origin.of_serve {target : Fd}
    (here : (step cipher world (.serverReceive target)).nodes.lookup fd = some node) :
    Origin cipher world (.own (.serverReceive target)) fd node := by
  cases present : world.nodes.lookup target with
  | none =>
    have same : step cipher world (.serverReceive target) = world := by simp only [step, present]
    exact .of_idle (congrArg (·.nodes.lookup fd) same) (by simp [WildEvent.call?, present])
      (fun reads => reads.elim) here
  | some sender =>
    cases queue : sender.toServer with
    | nil =>
      have same : step cipher world (.serverReceive target) = world := by
        simp only [step, present, queue]
      exact .of_idle (congrArg (·.nodes.lookup fd) same) (by simp [WildEvent.call?, present, queue])
        (fun reads => reads.elim) here
    | cons packet rest =>
      have calls : (WildEvent.own (.serverReceive target)).call? world =
          some (.data target (some packet.frame)) := by
        simp [WildEvent.call?, present, queue]
      have run : step cipher world (.serverReceive target) =
          (world.updateNode target fun node => { node with toServer := rest }).call
            (.data target (some packet.frame)) := by
        simp only [step, present, queue]
      refine .of_call calls run (updateNode_server _ _) (fun held found => ?_) here
      obtain ⟨old, before, rfl⟩ := World.updateNode_node found
      refine ⟨old, before, ?_⟩
      split_ifs <;> exact ⟨rfl, rfl, rfl⟩

theorem Origin.of_receive {target : Fd}
    (here : (step cipher world (.clientReceive target)).nodes.lookup fd = some node) :
    Origin cipher world (.own (.clientReceive target)) fd node := by
  cases present : world.nodes.lookup target with
  | none =>
    have same : step cipher world (.clientReceive target) = world := by simp only [step, present]
    refine .of_idle (congrArg (·.nodes.lookup fd) same) rfl (fun reads old found => ?_) here
    obtain rfl : target = fd := reads
    simp [present] at found
  | some reader =>
    cases queue : reader.fromServer with
    | nil =>
      have same : step cipher world (.clientReceive target) = world := by
        simp only [step, present, queue]
      refine .of_idle (congrArg (·.nodes.lookup fd) same) rfl (fun reads old found => ?_) here
      obtain rfl : target = fd := reads
      exact Option.some.inj (present.symm.trans found) ▸ queue
    | cons packet rest =>
      have nodes : (step cipher world (.clientReceive target)).nodes =
          (world.updateNode target fun node =>
            Node.handle cipher { node with fromServer := rest } packet).nodes := by
        simp only [step, present, queue]
      refine .of_update nodes rfl Eq.symm (fun old found => ?_) here
      have same : old.fromServer = packet :: rest :=
        Option.some.inj (present.symm.trans found) ▸ queue
      exact .handled rfl same

variable (connected : ∀ fd ∈ world.nodes, fd ∈ world.server.registry.clientsByFd)
include connected

theorem remove_absent {target : Fd}
    (absent : target ∉ world.server.registry.clientsByFd) (fd : Fd) :
    (world.call (.remove target)).server = world.server ∧
      (world.call (.remove target)).nodes.lookup fd = world.nodes.lookup fd := by
  have run : (Server.Event.remove target).action.run world.server = ⟨world.server, [], .ok ()⟩ :=
    Server.removeClient_missing (AList.lookup_eq_none.mpr absent)
  have after : Server.step world.server (.remove target) = world.server := by rw [Server.step, run]
  refine ⟨after, ?_⟩
  rw [World.call_lookup, after, run]
  cases present : world.nodes.lookup fd with
  | none => simp
  | some node =>
    rw [if_pos (connected fd (Table.mem_iff_lookup.mpr ⟨node, present⟩))]
    simp [inbox, Server.sends]

theorem wild_origin {event : WildEvent} (may : WildAllowed cipher world event)
    (here : (wildStep cipher world event).nodes.lookup fd = some node) :
    Origin cipher world event fd node := by
  have itself (held : Node) (found : world.nodes.lookup fd = some held) :
      ∃ old, world.nodes.lookup fd = some old ∧ held.client = old.client ∧
        held.started = old.started ∧ held.fromServer = old.fromServer :=
    ⟨held, found, rfl, rfl, rfl⟩
  cases event with
  | frame target frame => exact .of_call rfl rfl rfl itself here
  | own event =>
    cases event with
    | join target nickname saved random => exact .of_join may here
    | leave target =>
      by_cases present : target ∈ world.server.registry.clientsByFd
      · exact .of_call (if_pos present) rfl rfl itself here
      · exact .of_idle (remove_absent connected present fd).2 (if_neg present)
          (fun reads => reads.elim) here
    | ban ids => exact .of_call rfl rfl rfl itself here
    | serverReceive target => exact .of_serve here
    | clientReceive target => exact .of_receive here
    | command target command =>
      refine .of_update rfl rfl (fun reads => reads.elim) (fun old found => ?_) here
      exact .obeyed id rfl (may old found).1 command
    | flush target thread =>
      refine .of_update rfl rfl (fun reads => reads.elim) (fun old found => ?_) here
      cases thread <;> exact .kept (fun reads => reads.elim) rfl rfl rfl rfl

theorem wild_server (event : WildEvent) :
    (wildStep cipher world event).server =
      ((event.call? world).map (Server.step world.server)).getD world.server := by
  cases event with
  | frame target frame => rfl
  | own event =>
    cases event with
    | join | ban => rfl
    | leave target =>
      by_cases present : target ∈ world.server.registry.clientsByFd
      · simp only [WildEvent.call?, if_pos present]
        rfl
      · -- the server is asked to remove a client that it does not have
        simp only [WildEvent.call?, if_neg present]
        exact (remove_absent connected present target).1
    | serverReceive target =>
      simp only [wildStep, step, WildEvent.call?]
      cases present : world.nodes.lookup target with
      | none => rfl
      | some sender =>
        cases queue : sender.toServer with
        | nil => simp [queue]
        | cons packet rest =>
          simp only [Option.bind_some, queue, List.head?_cons, Option.map_some, Option.getD_some]
          exact congrArg (Server.step · _) (updateNode_server _ _)
    | clientReceive target =>
      simp only [wildStep, step]
      split
      · rfl
      · split
        · rfl
        · exact updateNode_server _ _
    | command | flush => exact updateNode_server _ _

theorem wild_served {event : WildEvent} (may : WildAllowed cipher world event) {call : Server.Event}
    (calls : event.call? world = some call) : Server.Served world.server call := by
  cases event with
  | frame target frame =>
    obtain rfl := Option.some.inj calls
    exact connected target may
  | own event =>
    cases event with
    | join target nickname saved random =>
      obtain rfl := Option.some.inj calls
      exact may.1
    | leave target =>
      simp only [WildEvent.call?] at calls
      split_ifs at calls with present
      obtain rfl := Option.some.inj calls
      exact present
    | ban ids =>
      obtain rfl := Option.some.inj calls
      trivial
    | serverReceive target =>
      obtain ⟨packet, waits, rfl⟩ := Option.map_eq_some_iff.mp calls
      obtain ⟨sender, present, -⟩ := Option.bind_eq_some_iff.mp waits
      exact connected target (Table.mem_iff_lookup.mpr ⟨sender, present⟩)
    | clientReceive | command | flush => cases calls

end Origin

-- The client works, and waits for its id until it has read it.
structure Node.Able (cipher : Monocypher) (node : Node) : Prop where
  ready : node.Ready
  wellFormed : node.client.keyStore.WellFormed cipher
  waiting : node.started = false → ∃ packet rest id createRoom,
    node.fromServer = packet :: rest ∧ packet.notice = .assigned id createRoom

section Able

variable {cipher : Monocypher} {node : Node}

theorem Node.able_launch {nickname : Bytes} {saved : Option PeerKeyStore}
    (short : nickname.length ≤ kMaxU16Count) (genuine : ∀ store ∈ saved, store.WellFormed cipher)
    (random : Nat → UInt8) (id : UInt32) (createRoom : Bool) :
    Node.Able cipher
      { client := launch cipher nickname saved random
        fromServer := [{ type := .assignId, payload := encodeAssignId id createRoom }] } where
  ready := by
    obtain ⟨-, named, online⟩ := launch_eq cipher nickname saved random
    exact ⟨online, (congrArg List.length named).trans_le short⟩
  wellFormed := launch_wellFormed genuine nickname random
  waiting := fun _ => ⟨_, _, id, createRoom, rfl, notice_assignId id createRoom⟩

theorem Node.Able.identityShort (able : node.Able cipher) :
    node.client.keyStore.identityPublic.length ≤ kMaxU16Count :=
  able.wellFormed.publicSize.trans_le (by decide)

theorem Node.Able.hear (able : node.Able cipher) {next : Node} {packets : List Packet}
    (client : next.client = node.client) (started : next.started = node.started)
    (heard : next.fromServer = node.fromServer ++ packets) : next.Able cipher where
  ready := able.ready.of_settings (congrArg ClientViewModel.settings client)
  wellFormed := by
    rw [client]
    exact able.wellFormed
  waiting := fun waits => by
    obtain ⟨packet, rest, id, createRoom, queue, told⟩ := able.waiting (started ▸ waits)
    exact ⟨packet, rest ++ packets, id, createRoom, by rw [heard, queue, List.cons_append], told⟩

theorem Node.Able.handle (able : node.Able cipher) {packet : Packet} {rest : List Packet}
    (queue : node.fromServer = packet :: rest) :
    (Node.handle cipher { node with fromServer := rest } packet).Able cipher ∧
      (Node.handle cipher { node with fromServer := rest } packet).fromServer = rest ∧
      ∀ id,
        (Node.handle cipher { node with fromServer := rest } packet).client.keyStore.peerPublic id =
        packet.notice.hold id (node.client.keyStore.peerPublic id) := by
  cases started : node.started with
  | true =>
    obtain ⟨nonce, -, follows⟩ :=
      @receiveNext_follows cipher node.client able.ready.1 able.identityShort packet
    have store := congrArg KeyAgent.keyStore follows.agent
    have held := KeyAgent.receive_peerPublic cipher nonce node.client.agent packet.notice
    simp only [Node.handle, if_true, true_and]
    refine ⟨⟨able.ready.of_settings follows.settings, ?_, fun waits => ?_⟩, fun id => ?_⟩
    · change (ClientViewModel.agent _).keyStore.WellFormed cipher
      rw [store]
      exact KeyAgent.receive_wellFormed cipher nonce node.client.agent packet.notice able.wellFormed
    · simp at waits
    · change (ClientViewModel.agent _).keyStore.peerPublic id = _
      rw [store]
      exact held id
  | false =>
    -- a client that has not started yet is waiting for its id, and that comes first
    obtain ⟨first, others, id, createRoom, waits, told⟩ := able.waiting started
    obtain ⟨rfl, rfl⟩ := List.cons.inj (waits.symm.trans queue)
    obtain ⟨fresh, chatter, size, -, returned, follows⟩ :=
      startUp_follows able.ready.1 able.ready.2 told
    have store := congrArg KeyAgent.keyStore follows.agent
    have ended : ((startUp (some first.frame)).run node.client).result.isOk = true := by
      rw [returned]
      rfl
    have wellFormed : node.client.agent.keyStore.WellFormed cipher := able.wellFormed
    simp only [Node.handle, Bool.false_eq_true, if_false, ended, true_and]
    refine ⟨⟨able.ready.of_settings follows.settings, ?_, fun waits => ?_⟩, fun peer => ?_⟩
    · change (ClientViewModel.agent _).keyStore.WellFormed cipher
      rw [store]
      exact KeyAgent.start_wellFormed wellFormed size id createRoom
    · simp at waits
    · change (ClientViewModel.agent _).keyStore.peerPublic peer = _
      rw [store, told]
      rfl

theorem Node.Able.obey (able : node.Able cipher) (started : node.started = true)
    (command : InputCommand) :
    (node.obey cipher command).Able cipher ∧
      ∀ id, (node.obey cipher command).client.keyStore.peerPublic id =
        node.client.keyStore.peerPublic id := by
  obtain ⟨chatter, -, follows⟩ :=
    @handleInputCommand_follows cipher node.client able.ready.1 able.identityShort command
  have store : (node.obey cipher command).client.keyStore = node.client.keyStore :=
    (congrArg KeyAgent.keyStore follows.agent).trans (KeyAgent.command_keyStore _ _)
  refine ⟨⟨able.ready.of_settings follows.settings, store ▸ able.wellFormed, fun waits => ?_⟩,
    fun id => by rw [store]⟩
  exact absurd (started.symm.trans waits) (by simp)

end Able

-- The server has only made the calls of its loop, and every client has a connection and works.
structure World.Sane (cipher : Monocypher) (world : World) : Prop where
  served : Runs.Reachable Server.Initial Server.Served Server.step world.server
  connected : ∀ fd ∈ world.nodes, fd ∈ world.server.registry.clientsByFd
  able : ∀ fd node, world.nodes.lookup fd = some node → node.Able cipher

namespace World.Sane

variable {cipher : Monocypher} {world : World} (sane : world.Sane cipher)
include sane

theorem reachable : Server.Reachable world.server :=
  sane.served.weaken fun _ _ => Server.Served.allowed

theorem record_of_node {fd : Fd} {node : Node} (here : world.nodes.lookup fd = some node) :
    ∃ record, world.server.registry.findByFd fd = some record :=
  Table.mem_iff_lookup.mp (sane.connected fd (Table.mem_iff_lookup.mpr ⟨node, here⟩))

theorem news {call : Server.Event} {fd : Fd} {node : Node}
    (served : Server.Served world.server call)
    (here : world.nodes.lookup fd = some node) : News world.server call fd := by
  obtain ⟨record, listed⟩ := sane.record_of_node here
  exact System.news (Server.reachable_sound sane.reachable)
    (Server.reachable_recordFits sane.reachable)
    served listed

end World.Sane

section Sane

variable {cipher : Monocypher} {world : World}

theorem NodeStep.able {event : WildEvent} {fd : Fd} {node next : Node} (able : node.Able cipher)
    (moved : NodeStep cipher world event fd node next) : next.Able cipher := by
  cases moved with
  | told calls client started heard => exact able.hear client started heard
  | handled reads queue => exact (able.handle queue).1
  | obeyed other quiet started command => exact (able.obey started command).1
  | kept idle quiet client started fromServer =>
    exact able.hear client started (fromServer.trans (List.append_nil _).symm)

theorem wildStep_sane (sane : world.Sane cipher) {event : WildEvent}
    (may : WildAllowed cipher world event) : (wildStep cipher world event).Sane cipher := by
  have server := @wild_server cipher world sane.connected event
  refine ⟨?_, fun fd member => ?_, fun fd node here => ?_⟩
  · rw [server]
    cases calls : event.call? world with
    | none => exact sane.served
    | some call => exact sane.served.next (wild_served sane.connected may calls)
  · obtain ⟨node, here⟩ := Table.mem_iff_lookup.mp member
    rw [server]
    cases wild_origin sane.connected may here with
    | stayed before moved =>
      have present := sane.connected fd (Table.mem_iff_lookup.mpr ⟨_, before⟩)
      cases moved with
      | told calls client started heard present =>
        rw [calls]
        exact present
      | handled reads queue =>
        rw [reads.quiet]
        exact present
      | obeyed other quiet | kept idle quiet =>
        rw [quiet]
        exact present
    | joined vacant accepted short genuine calls =>
      rw [calls, Option.map_some, Option.getD_some, Server.step_accept, if_neg accepted]
      exact Server.mem_allFds_enroll.mpr (.inl rfl)
  · cases wild_origin sane.connected may here with
    | stayed before moved => exact moved.able (sane.able fd _ before)
    | joined vacant accepted short genuine calls fresh =>
      rw [fresh]
      exact Node.able_launch short genuine _ _ _

theorem wild_sane (reachable : WildReachable cipher world) : world.Sane cipher := by
  refine reachable.invariant (World.Sane cipher) ?_ fun world event sane may =>
    wildStep_sane sane may
  rintro world rfl
  exact ⟨.start rfl, by simp, by simp⟩

end Sane

end ModbusChat.System
