import ModbusChat.Client.DirectMessages
import ModbusChat.Client.Directory
import ModbusChat.Client.InputCommandParser
import ModbusChat.System.KeyExchange
import ModbusChat.System.Wild

set_option autoImplicit false

namespace ModbusChat.System

open BigEndian Effects Wire Client
open Server (Fd ServerViewModel ClientRecord ClientRegistry)

def Owned (registry : ClientRegistry) (nickname : Bytes) (id : UInt32) : Prop :=
  ∃ fd record, registry.findByFd fd = some record ∧ record.id = id ∧ record.nickname = nickname

-- Every name in the directory stands for a client that has it now.
def Faithful (directory : Directory) (registry : ClientRegistry) : Prop :=
  ∀ nickname id, directory nickname = some id → nickname ≠ [] ∧ Owned registry nickname id

section Faithful

variable {directory : Directory} {registry after : ClientRegistry}

theorem Faithful.learn (faithful : Faithful directory registry) {user : UserInfo}
    (owned : Owned registry user.nickname user.id) : Faithful (directory.learn user) registry := by
  intro nickname id known
  unfold Directory.learn at known
  split_ifs at known with empty
  · exact faithful nickname id known
  · rw [Function.update_apply] at known
    split_ifs at known with same
    · obtain rfl := Option.some.inj known
      exact same ▸ ⟨empty, owned⟩
    · exact faithful nickname id known

theorem Faithful.foldl (faithful : Faithful directory registry) {users : List UserInfo}
    (owned : ∀ user ∈ users, Owned registry user.nickname user.id) :
    Faithful (users.foldl Directory.learn directory) registry := by
  induction users generalizing directory with
  | nil => exact faithful
  | cons user users ih =>
    refine ih (faithful.learn (owned user List.mem_cons_self)) fun other member => ?_
    exact owned other (List.mem_cons_of_mem _ member)

theorem Faithful.mono (faithful : Faithful directory registry)
    (kept : ∀ nickname id, nickname ≠ [] → directory nickname = some id →
      Owned registry nickname id →
      Owned after nickname id) : Faithful directory after := by
  intro nickname id known
  obtain ⟨nonempty, owned⟩ := faithful nickname id known
  exact ⟨nonempty, kept nickname id nonempty known owned⟩

end Faithful

theorem hear_userJoined (directory : Directory) {user : UserInfo}
    (short : user.nickname.length ≤ kMaxU16Count) :
    directory.hear { type := .userJoined, payload := userBytes user } = directory.learn user := by
  simp only [Directory.hear, decodePayload, decodeUserInfo_bytes short, ok_bind, except_pure]

theorem hear_userLeft (directory : Directory) {user : UserInfo}
    (short : user.nickname.length ≤ kMaxU16Count) :
    directory.hear { type := .userLeft, payload := userBytes user } = directory.forget user := by
  simp only [Directory.hear, decodePayload, decodeUserInfo_bytes short, ok_bind, except_pure]

theorem hear_other (directory : Directory) {packet : Packet} (notJoined : packet.type ≠ .userJoined)
    (notLeft : packet.type ≠ .userLeft) (notList : packet.type ≠ .usersList) :
    directory.hear packet = directory := by
  obtain ⟨type, bytes⟩ := packet
  unfold Directory.hear
  cases decoded : decodePayload bytes type with
  | error failure => simp
  | ok payload =>
    have carried := decodePayload_carries decoded
    cases type <;> cases payload <;> first | exact carried.elim | contradiction | rfl

theorem hear_usersList {directory : Directory} {server : ServerViewModel} {payload : Bytes}
    (sound : server.registry.Sound) (faithful : Faithful directory server.registry)
    (encoded : encodeUsersList server.registry.collectUsers = .ok payload) :
    Faithful (directory.hear { type := .usersList, payload }) server.registry := by
  have built :
      encodePayload .usersList (.usersList server.registry.collectUsers) = .ok payload := encoded
  have decoded : decodePayload payload .usersList = .ok (.usersList server.registry.collectUsers) :=
    decodePayload_encodePayload trivial built
  simp only [Directory.hear, decoded]
  refine faithful.foldl fun user member => ?_
  rw [ClientRegistry.collectUsers_perm.mem_iff, List.mem_map] at member
  obtain ⟨record, listed, rfl⟩ := member
  exact ⟨record.fd, record, (ClientRegistry.mem_records sound).mp listed, rfl, rfl⟩

def askedName (frame : Frame) : Option Bytes :=
  match decodeAppMessage frame with
  | .ok { type := .register, payload := .register nickname } => some nickname
  | _ => none

/-- The call gives no client that has a nickname another one. -/
def NamesKept (server : ServerViewModel) : Server.Event → Prop
  | .data fd (some frame) =>
      ∀ nickname ∈ askedName frame, ∀ record ∈ server.registry.findByFd fd,
        record.id ∉ server.bannedIds → Server.MayRegister server fd nickname →
          record.nickname = [] ∨ record.nickname = nickname
  | _ => True

instance NamesKept.decidable (server : ServerViewModel) :
    (event : Server.Event) → Decidable (NamesKept server event)
  | .data fd (some frame) => inferInstanceAs (Decidable
      (∀ nickname ∈ askedName frame, ∀ record ∈ server.registry.findByFd fd,
        record.id ∉ server.bannedIds → Server.MayRegister server fd nickname →
          record.nickname = [] ∨ record.nickname = nickname))
  | .data _ none | .accept .. | .remove _ | .ban _ | .requestStop | .disconnectAll =>
    .isTrue trivial

theorem NamesKept.name {server : ServerViewModel} {event : Server.Event} {client : Fd}
    {nickname : Bytes} {record : ClientRecord} (kept : NamesKept server event)
    (asks : Asks server event client nickname) (may : Server.MayRegister server client nickname)
    (found : server.registry.findByFd client = some record) :
    record.nickname = [] ∨ record.nickname = nickname := by
  obtain ⟨frame, rfl, decoded, notBanned⟩ := asks
  have asked : askedName frame = some nickname := by simp only [askedName, decoded]
  exact kept nickname asked record found (notBanned record found) may

theorem Owned.rename {server : ServerViewModel} {client : Fd} {record : ClientRecord}
    {nickname : Bytes} (found : server.registry.findByFd client = some record)
    (kept : record.nickname = [] ∨ record.nickname = nickname) {name : Bytes} {id : UInt32}
    (nonempty : name ≠ []) (owned : Owned server.registry name id) :
    Owned (server.rename client nickname).registry name id := by
  obtain ⟨fd, owner, listed, rfl, rfl⟩ := owned
  by_cases same : fd = client
  · subst same
    obtain rfl := Option.some.inj (found.symm.trans listed)
    refine ⟨fd, { record with nickname, registered := true }, ?_, rfl,
      (kept.resolve_left nonempty).symm⟩
    rw [Server.findByFd_rename found, if_pos rfl]
  · exact ⟨fd, owner, by rw [Server.findByFd_rename found, if_neg same, listed], rfl, rfl⟩

theorem Faithful.drop {server : ServerViewModel} {client : Fd} {record : ClientRecord}
    {directory : Directory} (faithful : Faithful directory server.registry)
    (found : server.registry.findByFd client = some record) :
    Faithful (directory.forget { id := record.id, nickname := record.nickname })
      (server.drop client).registry := by
  -- a client that stays keeps its record; the one that goes was listed under its own name only
  have stays {name : Bytes} {id : UInt32} (apart : name ≠ record.nickname)
      (owned : Owned server.registry name id) : Owned (server.drop client).registry name id := by
    obtain ⟨fd, owner, listed, rfl, rfl⟩ := owned
    have elsewhere : fd ≠ client := by
      rintro rfl
      exact apart (congrArg ClientRecord.nickname (Option.some.inj (listed.symm.trans found)))
    exact ⟨fd, owner, by rw [Server.findByFd_drop_eq, if_neg elsewhere, listed], rfl, rfl⟩
  intro name id known
  unfold Directory.forget at known
  split_ifs at known with empty
  · obtain ⟨nonempty, owned⟩ := faithful name id known
    exact ⟨nonempty, stays (fun same => nonempty (same.trans empty)) owned⟩
  · rw [Function.update_apply] at known
    split_ifs at known with same
    obtain ⟨nonempty, owned⟩ := faithful name id known
    exact ⟨nonempty, stays same owned⟩

theorem Faithful.hearAll {server : ServerViewModel} {packets : List Packet} {directory : Directory}
    (sound : server.registry.Sound) (faithful : Faithful directory server.registry)
    (plain : ∀ packet ∈ packets, packet.type ≠ .userJoined ∧ packet.type ≠ .userLeft ∧
      (packet.type = .usersList → encodeUsersList server.registry.collectUsers =
        .ok packet.payload)) :
    Faithful (packets.foldl Directory.hear directory) server.registry := by
  induction packets generalizing directory with
  | nil => exact faithful
  | cons packet packets ih =>
    refine ih ?_ fun other member => plain other (List.mem_cons_of_mem _ member)
    obtain ⟨notJoined, notLeft, lists⟩ := plain packet List.mem_cons_self
    by_cases list : packet.type = .usersList
    · obtain ⟨type, payload⟩ := packet
      obtain rfl : type = .usersList := list
      exact hear_usersList sound faithful (lists rfl)
    · rwa [hear_other directory notJoined notLeft list]

theorem News.faithful {server : ServerViewModel} {event : Server.Event} {fd : Fd}
    {directory : Directory} (news : News server event fd) (sound : server.registry.Sound)
    (fits : ∀ fd record, server.registry.findByFd fd = some record → Server.RecordFits fd record)
    (kept : NamesKept server event)
    (present : fd ∈ (Server.step server event).registry.clientsByFd)
    (faithful : Faithful directory server.registry) :
    Faithful ((inbox fd (event.action.run server).output).foldl Directory.hear directory)
      (Server.step server event).registry := by
  cases news with
  | @joined client vacant apart told after =>
    rw [told, after, List.foldl_cons, List.foldl_nil, hear_userJoined _ (Nat.zero_le _)]
    -- a newcomer has no name yet, and takes nobody's place
    refine faithful.mono fun name id nonempty known owned => ?_
    obtain ⟨other, owner, listed, same⟩ := owned
    have elsewhere : other ≠ client := by
      rintro rfl
      cases vacant.symm.trans listed
    exact ⟨other, owner, by rw [Server.findByFd_enroll, if_neg elsewhere, listed], same⟩
  | left found apart told after =>
    rw [told, after, List.foldl_cons, List.foldl_nil, hear_userLeft _ (fits _ _ found).short]
    exact faithful.drop found
  | @named client record nickname found apart asks may short told after =>
    have name := kept.name asks may found
    rw [told, after, List.foldl_cons, List.foldl_nil, hear_userJoined _ short]
    refine Faithful.learn (faithful.mono fun _ _ nonempty _ owned =>
      owned.rename found name nonempty) ?_
    refine ⟨client, { record with nickname, registered := true }, ?_, rfl, rfl⟩
    rw [Server.findByFd_rename found, if_pos rfl]
  | @renamed nickname asks may told after =>
    -- the client itself is not told of its new name
    obtain ⟨record, found, -⟩ := may.connected
    have name := kept.name asks may found
    rw [told, after]
    exact faithful.mono fun _ _ nonempty _ owned => owned.rename found name nonempty
  | plain same told =>
    rw [same]
    refine faithful.hearAll sound fun packet member => ?_
    obtain ⟨-, notJoined, notLeft, lists, -⟩ := told packet member
    exact ⟨notJoined, notLeft, lists⟩
  | gone closed => exact absurd present (AList.lookup_eq_none.mp closed)

-- The directory of a client once it has handled what the server has sent it.
def Node.expected (node : Node) : Directory :=
  node.fromServer.foldl Directory.hear node.client.directory

section Node

variable {cipher : Monocypher} {node next : Node}

theorem Node.expected_handle (able : node.Able cipher) {packet : Packet} {rest : List Packet}
    (queue : node.fromServer = packet :: rest) :
    (Node.handle cipher { node with fromServer := rest } packet).expected = node.expected := by
  have handled : (Node.handle cipher { node with fromServer := rest } packet).client.directory =
      node.client.directory.hear packet := by
    cases started : node.started with
    | true => exact receiveNext_directory cipher node.client packet
    | false =>
      obtain ⟨first, others, id, createRoom, waits, told⟩ := able.waiting started
      obtain ⟨rfl, rfl⟩ := List.cons.inj (waits.symm.trans queue)
      have type := (notice_assigned told).1
      rw [hear_other _ (by simp [type]) (by simp [type]) (by simp [type])]
      exact Conducted.directory (@startUp_conducts cipher _ node.client) (by simp)
  rw [Node.expected, Node.expected, queue, List.foldl_cons, handled, (able.handle queue).2.1]

theorem expected_launch (nickname : Bytes) (saved : Option PeerKeyStore) (random : Nat → UInt8)
    (payload : Bytes) :
    Node.expected
      { client := launch cipher nickname saved random
        fromServer := [{ type := .assignId, payload }] } = fun _ => none := by
  have empty : (launch cipher nickname saved random).directory = fun _ => none := by
    refine (Conducted.directory
      ((@loadOrCreateIdentity_prepares cipher _ (bounded_ok saved.isSome)).conducts _)
        (by simp)).trans ?_
    funext name
    exact AList.lookup_empty name
  rw [Node.expected, List.foldl_cons, List.foldl_nil, hear_other _ (by simp) (by simp) (by simp),
    empty]

end Node

def World.Faithful (world : World) : Prop :=
  ∀ fd node, world.nodes.lookup fd = some node → System.Faithful node.expected world.server.registry

/-- Ids are left for whoever comes, and nobody gives up a nickname for another one. -/
def NamesSettled (cipher : Monocypher) (world : World) (event : WildEvent) : Prop :=
  WildAllowed cipher world event ∧
    ∀ call ∈ event.call? world, Server.IdsLeft world.server call ∧ NamesKept world.server call

instance NamesSettled.decidable (cipher : Monocypher) (world : World) (event : WildEvent) :
    Decidable (NamesSettled cipher world event) :=
  inferInstanceAs (Decidable (_ ∧ _))

theorem wildStep_faithful {cipher : Monocypher} {world : World} {event : WildEvent}
    (sane : world.Sane cipher) (settled : NamesSettled cipher world event)
    (faithful : world.Faithful) :
    (wildStep cipher world event).Faithful := by
  intro fd node here
  rw [wild_server sane.connected]
  cases wild_origin sane.connected settled.1 here with
  | @stayed before found moved =>
    have expected := faithful fd before found
    have able := sane.able fd before found
    cases moved with
    | told calls client started heard present =>
      obtain ⟨-, kept⟩ := settled.2 _ calls
      have news := sane.news (wild_served sane.connected settled.1 calls) found
      rw [calls, Node.expected, heard, List.foldl_append, client]
      exact news.faithful (Server.reachable_sound sane.reachable)
        (Server.reachable_recordFits sane.reachable) kept present expected
    | handled reads queue =>
      rw [reads.quiet, Node.expected_handle able queue]
      exact expected
    | obeyed other quiet started command =>
      have same : (before.obey cipher command).expected = before.expected :=
        congrArg (before.fromServer.foldl Directory.hear)
          (command_directory cipher command before.client)
      rw [quiet, same]
      exact expected
    | kept idle quiet client started fromServer =>
      rw [quiet, Node.expected, fromServer, client]
      exact expected
  | joined vacant accepted short genuine calls fresh =>
    rw [fresh, expected_launch]
    intro name id known
    cases known

structure World.Settled (cipher : Monocypher) (world : World) : Prop where
  sane : world.Sane cipher
  idsLeft : Runs.Reachable Server.Initial Server.IdsLeft Server.step world.server
  faithful : world.Faithful

theorem reachable_settled {cipher : Monocypher} {world : World}
    (reachable : Runs.Reachable Initial (NamesSettled cipher) (wildStep cipher) world) :
    world.Settled cipher := by
  refine reachable.invariant (World.Settled cipher) ?_ fun world event holds settled => ⟨?_, ?_, ?_⟩
  · rintro world rfl
    exact ⟨⟨.start rfl, by simp, by simp⟩, .start rfl, fun fd node here => by simp at here⟩
  · exact wildStep_sane holds.sane settled.1
  · rw [wild_server holds.sane.connected]
    cases calls : event.call? world with
    | none => exact holds.idsLeft
    | some call => exact holds.idsLeft.next (settled.2 call calls).1
  · exact wildStep_faithful holds.sane settled holds.faithful

def TellsNames (packet : Packet) : Prop :=
  packet.type = .userJoined ∨ packet.type = .userLeft ∨ packet.type = .usersList

def ReachesOwner (server : ServerViewModel) (fd : Fd) (nickname : Bytes) (frame : Frame) : Prop :=
  ∀ sent ∈ Server.sends ((Server.handleClientData fd (some frame)).run server).output,
    sent.2.1 = .deliver → ∃ record, server.registry.findByFd sent.1 = some record ∧
      record.nickname = nickname

/--
A client that has no news of names before it knows nobody under a name that is not theirs, and what
its user writes to a name goes to its owner.
-/
def World.NamesRight (cipher : Monocypher) (world : World) : Prop :=
  ∀ fd node, world.nodes.lookup fd = some node → (∀ packet ∈ node.fromServer, ¬ TellsNames packet) →
    (∀ nickname id, node.client.idByNickname.lookup nickname = some id →
      Owned world.server.registry nickname id) ∧
    ∀ nickname text packet, packet ∈
        packets
          ((handleInputCommand cipher (.chatByNickname nickname text)).run node.client).output →
      ReachesOwner world.server fd nickname packet.frame

theorem expected_eq {node : Node} (handled : ∀ packet ∈ node.fromServer, ¬ TellsNames packet) :
    node.expected = node.client.directory := by
  unfold Node.expected
  generalize node.client.directory = directory
  generalize node.fromServer = queue at handled
  induction queue with
  | nil => rfl
  | cons packet packets ih =>
    have other := handled packet List.mem_cons_self
    rw [List.foldl_cons, hear_other directory (fun type => other (.inl type))
      (fun type => other (.inr (.inl type))) (fun type => other (.inr (.inr type)))]
    exact ih fun packet member => handled packet (List.mem_cons_of_mem _ member)

theorem reachesOwner {server : ServerViewModel} {fd : Fd} {sender : ClientRecord} {nickname : Bytes}
    {frame : Frame} {fromId id : UInt32} {text : Bytes} (sound : server.registry.Sound)
    (complete : server.registry.Complete)
    (fits : ∀ fd record, server.registry.findByFd fd = some record → Server.RecordFits fd record)
    (found : server.registry.findByFd fd = some sender) (owned : Owned server.registry nickname id)
    (decoded : decodeAppMessage frame = .ok
      { type := .chat
        payload := .chat
          { fromId, recipientTag := kRecipientById, recipientData := writeU32Be id, text } }) :
    ReachesOwner server fd nickname frame := by
  intro sent member delivered
  by_cases banned : sender.id ∈ server.bannedIds
  · -- the sender goes, and the others hear of that only
    have touches : (Server.Event.data fd (some frame)).connection? = some fd := rfl
    obtain ⟨others, -, -, run⟩ := Server.banned_onlyRemoves fits found banned touches
    have told : Server.sends ((Server.handleClientData fd (some frame)).run server).output = _ :=
      (congrArg (fun outcome => Server.sends outcome.output) run).trans
        (Server.sends_map_send _ _ _)
    rw [told] at member
    obtain ⟨other, -, rfl⟩ := List.mem_map.mp member
    cases delivered
  · have data : readU32Be (writeU32Be id) = some id := by
      simpa using readU32Be_write id []
    rcases Server.offer_sends sound complete found banned decoded rfl data with
      ⟨targetFd, target, listed, same, -, sends⟩ | ⟨-, text, sends⟩
    · rw [sends, List.mem_singleton] at member
      obtain ⟨other, owner, there, sameId, name⟩ := owned
      obtain rfl := complete.distinct listed there (sameId.trans same.symm)
      refine ⟨target, member ▸ listed, ?_⟩
      rwa [Option.some.inj (listed.symm.trans there)]
    · rw [sends, List.mem_singleton] at member
      rw [member] at delivered
      cases delivered

theorem nicknames_right {cipher : Monocypher} {world : World}
    (reachable : Runs.Reachable Initial (NamesSettled cipher) (wildStep cipher) world) :
    world.NamesRight cipher := by
  have settled := reachable_settled reachable
  have sound := Server.reachable_sound settled.sane.reachable
  have complete := Server.reachable_complete settled.idsLeft
  intro fd node here handled
  have known : ∀ nickname id, node.client.idByNickname.lookup nickname = some id →
      Owned world.server.registry nickname id := by
    intro nickname id listed
    have faithful := settled.faithful fd node here
    rw [expected_eq handled] at faithful
    exact (faithful nickname id listed).2
  refine ⟨known, fun nickname text packet member => ?_⟩
  obtain ⟨record, listed⟩ := settled.sane.record_of_node here
  obtain ⟨id, sealed, looked, type, built⟩ := sendEncryptedChatByNickname_addressed member
  obtain ⟨type, payload⟩ := packet
  subst type
  exact reachesOwner sound complete (Server.reachable_recordFits settled.sane.reachable) listed
    (known nickname id looked) (decode_buildChatById built)

def introduced : World :=
  [WildEvent.own (.join 3 [] none (keysFrom 10)), .own (.clientReceive 3),
    .own (.join 4 (ascii "al") none (keysFrom 20)), .own (.clientReceive 4),
    .own (.serverReceive 4),
    .own (.clientReceive 3), .own (.flush 3 .receiver), .own (.clientReceive 3)].foldl
      (wildStep transparent) {}

theorem nicknames_right_introduced :
    (∃ node ∈ introduced.nodes.lookup 3, node.client.idByNickname.lookup (ascii "al") = some 2) ∧
      Owned introduced.server.registry (ascii "al") 2 := by
  have reachable :
      Runs.Reachable Initial (NamesSettled transparent) (wildStep transparent) introduced :=
    Runs.Reachable.foldl (.start rfl) (by decide +kernel)
  have known : ∃ node ∈ introduced.nodes.lookup 3,
      node.client.idByNickname.lookup (ascii "al") = some 2 := by decide +kernel
  have handled : ∀ node ∈ introduced.nodes.lookup 3, node.fromServer = [] := by decide +kernel
  refine ⟨known, ?_⟩
  obtain ⟨node, here, listed⟩ := known
  exact (nicknames_right reachable 3 node here (by simp [handled node here])).1 _ _ listed

def reintroduced : World :=
  [WildEvent.frame 4 (makeFrame .register (stringBytes (ascii "bo"))),
    .own (.clientReceive 3)].foldl
    (wildStep transparent) introduced

-- The first client still takes the old name for the second one's.
theorem reintroduced_wrong :
    WildReachable transparent reintroduced ∧ ¬ reintroduced.NamesRight transparent := by
  have earlier : WildReachable transparent introduced :=
    Runs.Reachable.foldl (.start rfl) (by decide +kernel)
  refine ⟨earlier.foldl (by decide +kernel), fun right => ?_⟩
  have known : ∃ node ∈ reintroduced.nodes.lookup 3,
      node.client.idByNickname.lookup (ascii "al") = some 2 := by decide +kernel
  have handled : ∀ node ∈ reintroduced.nodes.lookup 3, node.fromServer = [] := by decide +kernel
  have named : ∀ record ∈ reintroduced.server.registry.records,
      record.id = 2 → record.nickname = ascii "bo" := by decide +kernel
  obtain ⟨node, here, listed⟩ := known
  obtain ⟨fd, record, found, id, name⟩ :=
    (right 3 node here (by simp [handled node here])).1 _ _ listed
  have other := named record (Table.mem_values.mpr ⟨fd, found⟩) id
  exact absurd (name.symm.trans other) (by decide)

-- The nicknames that a typed line can name: those that are not read as something else first.
def Typeable (nickname : Bytes) : Prop :=
  58 ∉ nickname ∧ ¬ isNumericRecipient nickname ∧ ¬ (ascii "/key").isPrefixOf nickname

theorem accepted_addressed_iff (server : ServerViewModel) (fd : Fd) (nickname : Bytes)
    (accepted : Server.MayRegister server fd nickname) (text : Bytes) (fromId : UInt32) :
    parseInputLine (nickname ++ 58 :: text) fromId = .ok (.chatByNickname nickname text) ↔
      Typeable nickname := by
  rw [parseInputLine_nickname_iff, isPrefixOf_key_iff]
  constructor
  · rintro ⟨unsplit, noKey, named, -⟩
    exact ⟨unsplit, named, noKey⟩
  · rintro ⟨unsplit, named, noKey⟩
    exact ⟨unsplit, noKey, named, accepted.notReserved⟩

theorem accepted_addressed_bob :
    Server.MayRegister (Server.step {} (.accept 3 "")) 3 (ascii "bob") ∧
      parseInputLine (ascii "bob:hi") 7 = .ok (.chatByNickname (ascii "bob") (ascii "hi")) := by
  have accepted : Server.MayRegister (Server.step {} (.accept 3 "")) 3 (ascii "bob") := by
    decide +kernel
  have typeable : Typeable (ascii "bob") := ⟨by decide, by decide, by decide⟩
  exact ⟨accepted, (accepted_addressed_iff _ 3 (ascii "bob") accepted (ascii "hi") 7).mpr typeable⟩

-- Three nicknames that the server gives out and nobody can write to.
theorem accepted_unaddressable :
    (Server.MayRegister (Server.step {} (.accept 3 "")) 3 (ascii "5") ∧
      parseInputLine (ascii "5:hi") 7 = .ok (.chatById 5 (ascii "hi"))) ∧
    (Server.MayRegister (Server.step {} (.accept 3 "")) 3 (ascii "a:b") ∧
      parseInputLine (ascii "a:b:hi") 7 = .ok (.chatByNickname (ascii "a") (ascii "b:hi"))) ∧
    Server.MayRegister (Server.step {} (.accept 3 "")) 3 (ascii "/keymaster") ∧
      parseInputLine (ascii "/keymaster:hi") 7 = .ok .invalid := by
  decide +kernel

end ModbusChat.System
