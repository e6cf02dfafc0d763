import ModbusChat.Server.Announcements
import ModbusChat.System.KeyExchange
import ModbusChat.System.Wild

set_option autoImplicit false

namespace ModbusChat.System

open BigEndian Effects Wire Client
open Server (Fd ServerViewModel ClientRecord newIds)

def Packet.Keyless (ids : List UInt32) (packet : Packet) : Prop :=
  ∀ id key, packet.notice = .peerKey id key → id ∉ ids

-- The client holds no key for the ids, or will hold none once it has handled so many messages.
def Node.Forgets (ids : List UInt32) (node : Node) : Nat → Prop
  | 0 => (∀ id ∈ ids, node.client.keyStore.peerPublic id = none) ∧
      ∀ packet ∈ node.fromServer, Packet.Keyless ids packet
  | pending + 1 => ∃ before packet after, node.fromServer = before ++ packet :: after ∧
      before.length = pending ∧ packet.notice = .banned ids ∧
      ∀ packet ∈ after, Packet.Keyless ids packet

theorem hold_keyless {ids : List UInt32} {packet : Packet} (keyless : Packet.Keyless ids packet)
    {id : UInt32} (member : id ∈ ids) : packet.notice.hold id none = none := by
  cases told : packet.notice with
  | peerKey fromId key =>
    have apart : ¬ (id = fromId ∧ key.length = kPublicKeySize) := by
      rintro ⟨rfl, -⟩
      exact keyless id key told member
    rw [Notice.hold, if_neg apart]
  | banned others => simp [Notice.hold]
  | _ => rfl

section Forgets

variable {cipher : Monocypher} {ids : List UInt32} {node next : Node}

theorem Node.Forgets.hear {pending : Nat} (forgets : node.Forgets ids pending)
    {packets : List Packet} (keyless : ∀ packet ∈ packets, Packet.Keyless ids packet)
    (peers : ∀ id, next.client.keyStore.peerPublic id = node.client.keyStore.peerPublic id)
    (heard : next.fromServer = node.fromServer ++ packets) : next.Forgets ids pending := by
  cases pending with
  | zero =>
    refine ⟨fun id member => (peers id).trans (forgets.1 id member), fun packet member => ?_⟩
    rw [heard, List.mem_append] at member
    exact member.elim (forgets.2 packet) (keyless packet)
  | succ pending =>
    obtain ⟨before, ban, after, queue, size, told, rest⟩ := forgets
    refine ⟨before, ban, after ++ packets, ?_, size, told, fun packet member => ?_⟩
    · rw [heard, queue, List.append_assoc, List.cons_append]
    · exact (List.mem_append.mp member).elim (rest packet) (keyless packet)

theorem Node.Forgets.keep {pending : Nat} (forgets : node.Forgets ids pending)
    (peers : ∀ id, next.client.keyStore.peerPublic id = node.client.keyStore.peerPublic id)
    (queue : next.fromServer = node.fromServer) : next.Forgets ids pending :=
  forgets.hear (List.forall_mem_nil _) peers (queue.trans (List.append_nil _).symm)

theorem Node.Forgets.handle {pending : Nat} (forgets : node.Forgets ids pending)
    (able : node.Able cipher)
    {packet : Packet} {rest : List Packet} (queue : node.fromServer = packet :: rest) :
    (Node.handle cipher { node with fromServer := rest } packet).Forgets ids (pending - 1) := by
  obtain ⟨-, fromServer, peers⟩ := @Node.Able.handle cipher _ able _ _ queue
  match pending, forgets with
  | 0, ⟨held, keyless⟩ =>
    rw [queue] at keyless
    refine ⟨fun id member => ?_, fun other member => ?_⟩
    · rw [peers, held id member]
      exact hold_keyless (keyless packet List.mem_cons_self) member
    · rw [fromServer] at member
      exact keyless other (List.mem_cons_of_mem _ member)
  | 1, ⟨before, ban, after, split, size, told, keyless⟩ =>
    obtain rfl := List.eq_nil_of_length_eq_zero size
    obtain ⟨rfl, rfl⟩ := List.cons.inj (queue.symm.trans split)
    refine ⟨fun id member => ?_, fun other member => ?_⟩
    · rw [peers, told, Notice.hold, if_pos member]
    · rw [fromServer] at member
      exact keyless other member
  | pending + 2, ⟨before, ban, after, split, size, told, keyless⟩ =>
    obtain ⟨first, before, rfl⟩ := List.exists_cons_of_length_eq_add_one size
    rw [queue, List.cons_append] at split
    obtain ⟨rfl, rfl⟩ := List.cons.inj split
    exact ⟨before, ban, after, fromServer, by simpa using size, told, keyless⟩

end Forgets

theorem News.keyless {server : ServerViewModel} {call : Server.Event} {fd : Fd} {ids : List UInt32}
    (news : News server call fd) (banned : ∀ id ∈ ids, id ∈ server.bannedIds)
    (present : fd ∈ (Server.step server call).registry.clientsByFd) :
    ∀ packet ∈ inbox fd (call.action.run server).output, Packet.Keyless ids packet := by
  intro packet member id key told
  cases news with
  | joined vacant apart heard after | left found apart heard after
  | named found apart asks may short heard after =>
    rw [heard, List.mem_singleton] at member
    rw [member, Packet.notice] at told
    dsimp only at told
    first | cases told | (split at told <;> cases told)
  | renamed asks may heard after => simp [heard] at member
  | plain same heard =>
    exact fun listed => (heard packet member).2.2.2.2 id key told (banned id listed)
  | gone closed => exact absurd present (AList.lookup_eq_none.mp closed)

section Run

variable {cipher : Monocypher} {world : World} {fd : Fd} {ids : List UInt32} {node next : Node}

theorem wildStep_forgets (sane : world.Sane cipher) {event : WildEvent}
    (may : WildAllowed cipher world event) (banned : ∀ id ∈ ids, id ∈ world.server.bannedIds)
    (here : world.nodes.lookup fd = some node)
    (there : (wildStep cipher world event).nodes.lookup fd = some next) {pending : Nat}
    (forgets : node.Forgets ids pending) :
    next.Forgets ids (if event.Reads fd then pending - 1 else pending) := by
  have able := sane.able fd node here
  cases wild_origin sane.connected may there with
  | stayed found moved =>
    obtain rfl := Option.some.inj (found.symm.trans here)
    cases moved with
    | told calls client started heard present =>
      rw [if_neg fun reads => by simp [reads.quiet] at calls]
      have news := sane.news (wild_served sane.connected may calls) here
      exact forgets.hear (news.keyless banned present) (fun id => by rw [client]) heard
    | handled reads queue =>
      rw [if_pos reads]
      exact forgets.handle able queue
    | obeyed other quiet started command =>
      rw [if_neg other]
      exact forgets.keep (able.obey started command).2 rfl
    | kept idle quiet client started fromServer =>
      have unchanged : next.Forgets ids pending :=
        forgets.keep (fun id => by rw [client]) fromServer
      split_ifs with reads
      · -- an empty queue holds no message of a ban
        cases pending with
        | zero => exact unchanged
        | succ pending =>
          obtain ⟨before, ban, after, queue, -⟩ := forgets
          simp [idle reads] at queue
      · exact unchanged
  | joined vacant =>
    obtain ⟨record, listed⟩ := sane.record_of_node here
    cases vacant.symm.trans listed

def Stays (cipher : Monocypher) (fd : Fd) : World → List WildEvent → Prop
  | world, [] => fd ∈ world.nodes
  | world, event :: events =>
    fd ∈ world.nodes ∧ Stays cipher fd (wildStep cipher world event) events

instance Stays.decidable (cipher : Monocypher) (fd : Fd) :
    ∀ world events, Decidable (Stays cipher fd world events)
  | world, [] => inferInstanceAs (Decidable (fd ∈ world.nodes))
  | world, event :: events =>
      @instDecidableAnd _ _ _ (Stays.decidable cipher fd (wildStep cipher world event) events)

theorem Stays.here {events : List WildEvent} (stays : Stays cipher fd world events) :
    fd ∈ world.nodes := by
  cases events with
  | nil => exact stays
  | cons event events => exact stays.1

theorem wildStep_bannedIds (sane : world.Sane cipher) (event : WildEvent) {id : UInt32}
    (banned : id ∈ world.server.bannedIds) :
    id ∈ (wildStep cipher world event).server.bannedIds := by
  rw [wild_server sane.connected]
  cases event.call? world with
  | none => exact banned
  | some call => exact Server.step_bannedIds _ _ banned

theorem run_forgets {events : List WildEvent} (sane : world.Sane cipher)
    (admissible : Runs.Admissible (WildAllowed cipher) (wildStep cipher) world events)
    (stays : Stays cipher fd world events) (banned : ∀ id ∈ ids, id ∈ world.server.bannedIds)
    (here : world.nodes.lookup fd = some node) {pending : Nat} (forgets : node.Forgets ids pending)
    (there : (events.foldl (wildStep cipher) world).nodes.lookup fd = some next) :
    next.Forgets ids (pending - events.countP fun event => event.Reads fd) := by
  induction events generalizing world node pending with
  | nil =>
    obtain rfl := Option.some.inj (here.symm.trans there)
    exact forgets
  | cons event events ih =>
    obtain ⟨may, admissible⟩ := admissible
    obtain ⟨middle, between⟩ := Table.mem_iff_lookup.mp stays.2.here
    have step := wildStep_forgets sane may banned here between forgets
    have rest := ih (wildStep_sane sane may) admissible stays.2
      (fun id member => wildStep_bannedIds sane event (banned id member)) between step there
    rw [List.countP_cons]
    split_ifs at rest with reads
    · simpa [reads, Nat.sub_sub, Nat.add_comm] using rest
    · simpa [reads] using rest

end Run

theorem notice_bannedIds {ids : List UInt32} (few : ids.length ≤ kMaxU16Count) :
    (Packet.mk .bannedIds (Server.idsBytes ids)).notice = .banned ids := by
  have built : encodePayload .bannedIds (.bannedIds ids) = .ok (Server.idsBytes ids) :=
    encodeBannedIds_eq_ok.mpr ⟨few, rfl⟩
  have decoded : decodePayload (Server.idsBytes ids) .bannedIds = .ok (.bannedIds ids) :=
    decodePayload_encodePayload trivial built
  simp only [Packet.notice, decoded]

theorem ban_heard {world : World} {fd : Fd} {node : Node} {record : ClientRecord}
    {ids : List UInt32} (here : world.nodes.lookup fd = some node)
    (listed : world.server.registry.findByFd fd = some record)
    (notBanned : record.id ∉ (world.call (.ban ids)).server.bannedIds)
    (new : newIds world.server.bannedIds ids ≠ [])
    (few : (newIds world.server.bannedIds ids).length ≤ kMaxU16Count) :
    ∃ ban : Packet, ban.notice = .banned (newIds world.server.bannedIds ids) ∧
      (world.call (.ban ids)).nodes.lookup fd =
        some { node with fromServer := node.fromServer ++ [ban] } := by
  have target : fd ∈ Server.banRecipients (Server.insertBans ids world.server).2 :=
    Server.mem_banRecipients.mpr ⟨record, listed, notBanned⟩
  have heard := inbox_broadcast (Server.banIds_told new few) (Server.banRecipients_nodup _) fd
  have stays : fd ∈ (Server.step world.server (.ban ids)).registry.clientsByFd := by
    rw [Server.step_ban, Server.insertBans_registry]
    exact Table.mem_iff_lookup.mpr ⟨record, listed⟩
  rw [if_pos target] at heard
  refine ⟨_, notice_bannedIds few, ?_⟩
  rw [World.call_lookup, if_pos stays, here, Option.map_some]
  exact congrArg (fun packets => some { node with fromServer := node.fromServer ++ packets }) heard

/--
After a ban that fits into a frame, a client that is not banned has the message of the ban in its
queue. From the moment it has handled it, whatever else happens, it holds no key of the new ids.
-/
theorem banned_keys_forgotten {cipher : Monocypher} {world : World} {fd : Fd} {node : Node}
    {record : ClientRecord} {ids : List UInt32} (reachable : WildReachable cipher world)
    (few : (newIds world.server.bannedIds ids).length ≤ 16382)
    (here : world.nodes.lookup fd = some node)
    (listed : world.server.registry.findByFd fd = some record)
    (notBanned : record.id ∉ (world.call (.ban ids)).server.bannedIds)
    (new : newIds world.server.bannedIds ids ≠ []) :
    (∃ ban : Packet, ban.notice = .banned (newIds world.server.bannedIds ids) ∧
      (world.call (.ban ids)).nodes.lookup fd =
        some { node with fromServer := node.fromServer ++ [ban] }) ∧
    ∀ events, Runs.Admissible (WildAllowed cipher) (wildStep cipher)
    (world.call (.ban ids)) events →
      Stays cipher fd (world.call (.ban ids)) events →
      node.fromServer.length < events.countP (fun event => event.Reads fd) →
      ∀ later, (events.foldl (wildStep cipher) (world.call (.ban ids))).nodes.lookup fd =
        some later →
        ∀ id ∈ newIds world.server.bannedIds ids, later.client.keyStore.peerPublic id = none := by
  have queued := ban_heard here listed notBanned new (few.trans (by decide))
  refine ⟨queued, fun events admissible stays handled later there id member => ?_⟩
  obtain ⟨ban, told, behind⟩ := queued
  have may : WildAllowed cipher world (.own (.ban ids)) := trivial
  have sane := wildStep_sane (wild_sane reachable) may
  have banned : ∀ id ∈ newIds world.server.bannedIds ids,
      id ∈ (world.call (.ban ids)).server.bannedIds := by
    intro id newly
    obtain ⟨listed, nonzero, -⟩ := Server.mem_newIds.mp newly
    change id ∈ (Server.step world.server (.ban ids)).bannedIds
    rw [Server.step_ban_bannedIds]
    simp [listed, nonzero]
  have waiting : Node.Forgets (newIds world.server.bannedIds ids)
      { node with fromServer := node.fromServer ++ [ban] } (node.fromServer.length + 1) :=
    ⟨node.fromServer, ban, [], rfl, rfl, told, List.forall_mem_nil _⟩
  -- as many messages have been handled as were in the queue when the ban was put behind them
  have done := run_forgets sane admissible stays banned behind waiting there
  rw [Nat.sub_eq_zero_of_le handled] at done
  exact done.1 id member

def offeredBack : World :=
  [WildEvent.own (.join 3 [] none (keysFrom 10)), .own (.clientReceive 3),
    .own (.join 4 [] none (keysFrom 20)), .own (.clientReceive 4), .own (.clientReceive 3),
    .own (.flush 3 .receiver), .own (.serverReceive 3), .own (.clientReceive 4),
    .own (.flush 4 .receiver), .own (.serverReceive 4)].foldl (wildStep transparent) {}

-- The first client reads the key, the banned one offers another, the first one reads the rest.
def lastOffers : List WildEvent :=
  [.own (.clientReceive 3), .own (.flush 3 .receiver),
    .frame 4 (makeFrame .keyOffer (writeU32Be 2 ++ (kRecipientById :: writeU32Be 1) ++
      stringBytes (List.replicate 32 7))),
    .own (.clientReceive 3), .own (.clientReceive 3)]

theorem banned_keys_forgotten_lastOffers :
    (∃ node ∈ ((lastOffers.take 1).foldl (wildStep transparent)
        (offeredBack.call (.ban [2]))).nodes.lookup 3,
      (node.client.keyStore.peerPublic 2).isSome) ∧
    ∃ later,
      (lastOffers.foldl (wildStep transparent) (offeredBack.call (.ban [2]))).nodes.lookup 3 =
        some later ∧ later.client.keyStore.peerPublic 2 = none := by
  have reachable : WildReachable transparent offeredBack :=
    Runs.Reachable.foldl (.start rfl) (by decide +kernel)
  have present : (offeredBack.nodes.lookup 3).isSome := by decide +kernel
  obtain ⟨node, here⟩ := Option.isSome_iff_exists.mp present
  have listed : offeredBack.server.registry.findByFd 3 = some { fd := 3, id := 1 } := by
    decide +kernel
  have short : ∀ node ∈ offeredBack.nodes.lookup 3,
      node.fromServer.length < lastOffers.countP fun event => event.Reads 3 := by
    decide +kernel
  obtain ⟨-, forgotten⟩ := @banned_keys_forgotten transparent offeredBack 3 node _ [2] reachable
    (by decide +kernel) here listed (by decide +kernel) (by decide +kernel)
  have stays : ((lastOffers.foldl (wildStep transparent)
      (offeredBack.call (.ban [2]))).nodes.lookup 3).isSome := by decide +kernel
  obtain ⟨later, there⟩ := Option.isSome_iff_exists.mp stays
  refine ⟨by decide +kernel, later, there, ?_⟩
  exact forgotten lastOffers (by decide +kernel) (by decide +kernel) (short node here) later there 2
    (by decide +kernel)

end ModbusChat.System
