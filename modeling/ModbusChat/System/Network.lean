import ModbusChat.System.World

set_option autoImplicit false

namespace ModbusChat.System

open BigEndian Wire Client
open Server (Fd)

@[ext] structure Network where
  parties : Fd → Option Party
  banned : Finset UInt32
  nextId : UInt32
  history : List Happening

def World.network (world : World) : Network where
  parties := world.party
  banned := world.server.bannedIds
  nextId := world.nextId
  history := world.history

def Party.hear (party : Party) (notices : List Notice) : Party :=
  { party with fromServer := party.fromServer ++ notices }

def Party.newcomer (id : UInt32) (agent : KeyAgent) (createRoom : Bool) : Party :=
  { id, started := false, agent, typing := [], replying := [], toServer := []
    fromServer := [.assigned id createRoom] }

def Party.flush (party : Party) : Thread → Party
  | .input => { party with
      typing := party.typing.tail, toServer := party.toServer ++ party.typing.take 1 }
  | .receiver => { party with
      replying := party.replying.tail, toServer := party.toServer ++ party.replying.take 1 }

def relayed (banned : Finset UInt32) (sender receiver : UInt32) : Request → List Notice
  | .keyOffer peerId key =>
      if receiver = peerId ∧ peerId ∉ banned then [.peerKey sender key] else []
  | .roomKeyOffer peerId sealed =>
      if receiver = peerId ∧ peerId ∉ banned then [.roomKey sender sealed] else []
  | .misaddressed | .other => []

def Network.Gives (network : Network) (fd : Fd) : Prop :=
  ∃ party, network.parties fd = some party ∧ party.id ∉ network.banned ∧ party.HasRoomKey ∧
    party.CanOffer network.nextId

def Network.put (network : Network) (fd : Fd) (party : Party) : Fd → Option Party :=
  fun other => if other = fd then some party else network.parties other

def Network.welcome (network : Network) (fd : Fd) (newcomer : Party) : Fd → Option Party :=
  fun other =>
    if other = fd then some newcomer else (network.parties other).map (·.hear [.joined newcomer.id])

def Network.dismiss (network : Network) (fd : Fd) : Fd → Option Party :=
  fun other => if other = fd then none else (network.parties other).map (·.hear [.other])

-- The banned ids after an admin command; id 0 cannot be banned.
def Network.bannedAfter (network : Network) (ids : List UInt32) : Finset UInt32 :=
  network.banned ∪ (ids.filter (· ≠ 0)).toFinset

inductive Moves (cipher : Monocypher) (network : Network) : Event → Network → Prop
  | join {fd : Fd} {nickname : Bytes} {saved : Option PeerKeyStore} {random : Nat → UInt8}
      {createRoom : Bool} {givers : List Fd} {nextId : UInt32} (vacant : network.parties fd = none)
      (nonzero : network.nextId ≠ 0)
      (fresh : ∀ other party, network.parties other = some party → party.id ≠ network.nextId)
      (genuine : ∀ store ∈ saved, store.WellFormed cipher)
      (first : createRoom = true ↔ ∀ other, network.parties other = none)
      (counted : ∀ other, other ∈ givers ↔ network.Gives other) :
      Moves cipher network (.join fd nickname saved random)
        { network with
          nextId
          parties := network.welcome fd
            (.newcomer network.nextId (launch cipher nickname saved random).agent createRoom)
          history := .joined fd givers :: network.history }
  | leave {event : Event} {fd : Fd} {party : Party} {nextId : UInt32}
      (connected : network.parties fd = some party)
      (cause : event = .leave fd ∨ event = .serverReceive fd ∧ party.id ∈ network.banned) :
      Moves cipher network event { network with nextId, parties := network.dismiss fd }
  | ban {ids newly : List UInt32} {heard : List Notice} {nextId : UInt32}
      (inserted : ∀ id ∈ newly, id ∈ network.bannedAfter ids)
      (told : heard = [.banned newly] ∨ heard = []) :
      Moves cipher network (.ban ids)
        { network with
          nextId
          banned := network.bannedAfter ids
          parties := fun other => (network.parties other).map fun party =>
            party.hear (if party.id ∈ network.bannedAfter ids then [] else heard) }
  | serve {fd : Fd} {party : Party} {request : Request} {rest : List Request}
      {noise : Fd → List Notice} {nextId : UInt32} (connected : network.parties fd = some party)
      (free : party.id ∉ network.banned) (queue : party.toServer = request :: rest)
      (harmless : ∀ other, ∀ notice ∈ noise other, notice = .other ∨ notice = .joined party.id) :
      Moves cipher network (.serverReceive fd)
        { network with
          nextId
          parties := fun other =>
            (network.put fd { party with toServer := rest } other).map fun receiver =>
              receiver.hear (relayed network.banned party.id receiver.id request ++ noise other) }
  | receive {fd : Fd} {party : Party} {notice : Notice} {rest : List Notice} {nonce : Bytes}
      (connected : network.parties fd = some party) (running : party.started = true)
      (idle : party.replying = []) (queue : party.fromServer = notice :: rest)
      (size : nonce.length = kNonceSize) :
      Moves cipher network (.clientReceive fd)
        { network with
          parties := network.put fd
            { party with
              fromServer := rest
              agent := (party.agent.receive cipher nonce notice).1
              replying := (party.agent.receive cipher nonce notice).2 }
          history := noted fd notice ++ network.history }
  | start {fd : Fd} {party : Party} {createRoom : Bool} {rest : List Notice} {fresh : Bytes}
      {chatter : List Request} (connected : network.parties fd = some party)
      (waiting : party.started = false)
      (queue : party.fromServer = .assigned party.id createRoom :: rest)
      (size : fresh.length = kRoomKeySize) (plain : ∀ request ∈ chatter, request = .other) :
      Moves cipher network (.clientReceive fd)
        { network with
          parties := network.put fd
            { party with
              started := true
              fromServer := rest
              agent := party.agent.start party.id createRoom fresh
              toServer := party.toServer ++ chatter } }
  | command {fd : Fd} {party : Party} {command : InputCommand} {chatter : List Request}
      (connected : network.parties fd = some party) (running : party.started = true)
      (idle : party.typing = []) (plain : ∀ request ∈ chatter, request = .other) :
      Moves cipher network (.command fd command)
        { network with
          parties := network.put fd
            { party with
              agent := (party.agent.command command).1
              typing := (party.agent.command command).2 ++ chatter } }
  | flush {fd : Fd} {party : Party} {thread : Thread}
      (connected : network.parties fd = some party) :
      Moves cipher network (.flush fd thread)
        { network with parties := network.put fd (party.flush thread) }
  | idle {event : Event} {nextId : UInt32} : Moves cipher network event { network with nextId }

theorem mem_relayed {banned : Finset UInt32} {sender receiver : UInt32} {request : Request}
    {notice : Notice} :
    notice ∈ relayed banned sender receiver request ↔ receiver ∉ banned ∧
      ((∃ key, request = .keyOffer receiver key ∧ notice = .peerKey sender key) ∨
        ∃ sealed, request = .roomKeyOffer receiver sealed ∧ notice = .roomKey sender sealed) := by
  cases request with
  | keyOffer peerId key =>
    simp only [relayed]
    split_ifs with passed
    · obtain ⟨rfl, free⟩ := passed
      simp [free]
    · simp only [List.not_mem_nil, Request.keyOffer.injEq, false_and, exists_false, or_false,
        false_iff, not_and]
      rintro free ⟨key, ⟨rfl, -⟩, -⟩
      exact passed ⟨rfl, free⟩
  | roomKeyOffer peerId sealed =>
    simp only [relayed]
    split_ifs with passed
    · obtain ⟨rfl, free⟩ := passed
      simp [free]
    · simp only [List.not_mem_nil, Request.roomKeyOffer.injEq, false_and, exists_false,
        false_or, false_iff, not_and]
      rintro free ⟨key, ⟨rfl, -⟩, -⟩
      exact passed ⟨rfl, free⟩
  | misaddressed => simp [relayed]
  | other => simp [relayed]

theorem Network.put_eq {network : Network} {fd other : Fd} {party found : Party} :
    network.put fd party other = some found ↔
      other = fd ∧ found = party ∨ other ≠ fd ∧ network.parties other = some found := by
  unfold Network.put
  split_ifs with same
  · simp [same, eq_comm]
  · simp [same]

theorem Network.put_cases {network : Network} {acting fd : Fd} {actor next party later : Party}
    (connected : network.parties acting = some actor) (was : network.parties fd = some party)
    (now : network.put acting next fd = some later) :
    fd = acting ∧ actor = party ∧ later = next ∨ fd ≠ acting ∧ later = party := by
  rcases Network.put_eq.mp now with ⟨rfl, rfl⟩ | ⟨apart, found⟩
  · exact .inl ⟨rfl, Option.some.inj (connected.symm.trans was), rfl⟩
  · exact .inr ⟨apart, Option.some.inj (found.symm.trans was)⟩

theorem Network.welcome_eq {network : Network} {fd other : Fd} {newcomer found : Party} :
    network.welcome fd newcomer other = some found ↔
      other = fd ∧ found = newcomer ∨
        other ≠ fd ∧ ∃ before, network.parties other = some before ∧
          found = before.hear [.joined newcomer.id] := by
  unfold Network.welcome
  split_ifs with same
  · simp [same, eq_comm]
  · simp [same, eq_comm]

theorem Network.dismiss_eq {network : Network} {fd other : Fd} {found : Party} :
    network.dismiss fd other = some found ↔
      other ≠ fd ∧ ∃ before, network.parties other = some before ∧
      found = before.hear [.other] := by
  unfold Network.dismiss
  split_ifs with same
  · simp [same]
  · simp [same, eq_comm]

theorem Network.dismiss_put (network : Network) (fd : Fd) (party : Party) :
    Network.dismiss { network with parties := network.put fd party } fd = network.dismiss fd := by
  funext other
  simp only [Network.dismiss, Network.put]
  split_ifs <;> rfl

structure Party.Base (cipher : Monocypher) (banned : Finset UInt32) (party : Party) : Prop where
  nonzero : party.id ≠ 0
  running : party.started = true → party.agent.myId = party.id
  waiting : party.started = false →
    (∃ createRoom rest, party.fromServer = .assigned party.id createRoom :: rest) ∧
      party.out = [] ∧ party.agent.keyOfferedTo = ∅
  wellFormed : party.agent.keyStore.WellFormed cipher
  offers : ∀ peerId key, .keyOffer peerId key ∈ party.out →
    key = party.agent.keyStore.identityPublic
  addressed : .misaddressed ∉ party.out
  bans : ∀ ids, .banned ids ∈ party.fromServer → ∀ id ∈ ids, id ∈ banned

section Base

variable {cipher : Monocypher} {banned later : Finset UInt32} {party : Party}

theorem Party.Base.hear (base : party.Base cipher banned) (more : banned ⊆ later)
    {notices : List Notice} (known : ∀ ids, .banned ids ∈ notices → ∀ id ∈ ids, id ∈ later) :
    (party.hear notices).Base cipher later where
  nonzero := base.nonzero
  running := base.running
  waiting waiting := by
    obtain ⟨⟨createRoom, rest, queue⟩, silent, none⟩ := base.waiting waiting
    exact ⟨⟨createRoom, rest ++ notices, by simp [Party.hear, queue]⟩, silent, none⟩
  wellFormed := base.wellFormed
  offers := base.offers
  addressed := base.addressed
  bans ids heard := by
    rcases List.mem_append.mp heard with old | new
    · exact fun id member => more (base.bans ids old id member)
    · exact known ids new

theorem Party.Base.send (base : party.Base cipher banned) {sent : Party}
    (sameId : sent.id = party.id)
    (sameStart : sent.started = party.started) (sameAgent : sent.agent = party.agent)
    (sameQueue : sent.fromServer = party.fromServer) (fewer : sent.out ⊆ party.out) :
    sent.Base cipher banned where
  nonzero := sameId ▸ base.nonzero
  running := by
    rw [sameStart, sameAgent, sameId]
    exact base.running
  waiting waiting := by
    rw [sameStart] at waiting
    obtain ⟨queue, silent, none⟩ := base.waiting waiting
    rw [sameId, sameQueue, sameAgent]
    exact ⟨queue, List.subset_nil.mp (silent ▸ fewer), none⟩
  wellFormed := sameAgent ▸ base.wellFormed
  offers peerId key offered := sameAgent ▸ base.offers peerId key (fewer offered)
  addressed wrong := base.addressed (fewer wrong)
  bans := by
    rw [sameQueue]
    exact base.bans

theorem Party.mem_flush_out {party : Party} (thread : Thread) {request : Request} :
    request ∈ (party.flush thread).out ↔ request ∈ party.out := by
  have split (requests : List Request) :
      request ∈ requests ↔ request ∈ requests.take 1 ∨ request ∈ requests.tail := by
    cases requests <;> simp
  cases thread with
  | input =>
    simp only [Party.out, Party.flush, List.mem_append, split party.typing]
    tauto
  | receiver =>
    simp only [Party.out, Party.flush, List.mem_append, split party.replying]
    tauto

theorem Party.Base.receive {notice : Notice} {rest : List Notice} {nonce : Bytes}
    (base : party.Base cipher banned) (running : party.started = true)
    (queue : party.fromServer = notice :: rest) :
    ({ party with
        fromServer := rest
        agent := (party.agent.receive cipher nonce notice).1
        replying := (party.agent.receive cipher nonce notice).2 } : Party).Base cipher banned := by
  obtain ⟨sameId, -, identity⟩ := KeyAgent.receive_identity cipher nonce party.agent notice
  have sent {request : Request} (member : request ∈ party.toServer ++
      ((party.agent.receive cipher nonce notice).2 ++ party.typing)) :
      request ∈ party.out ∨ request ∈ (party.agent.receive cipher nonce notice).2 := by
    simp only [Party.out, List.mem_append] at member ⊢
    tauto
  refine ⟨base.nonzero, fun _ => sameId.trans (base.running running), fun waiting => ?_,
    KeyAgent.receive_wellFormed cipher nonce party.agent notice base.wellFormed, ?_, ?_, ?_⟩
  · simp [running] at waiting
  · intro peerId key offered
    rw [identity]
    rcases sent offered with old | new
    · exact base.offers peerId key old
    · rcases (KeyAgent.mem_receive_requests cipher nonce party.agent notice).mp new with
        ⟨_, same, -⟩ | ⟨_, _, _, _, -, -, -, -, same⟩
      · exact (Request.keyOffer.inj same).2
      · cases same
  · intro wrong
    rcases sent wrong with old | new
    · exact base.addressed old
    · rcases (KeyAgent.mem_receive_requests cipher nonce party.agent notice).mp new with
        ⟨_, same, -⟩ | ⟨_, _, _, _, -, -, -, -, same⟩ <;> cases same
  · intro ids heard
    exact base.bans ids (queue ▸ List.mem_cons_of_mem _ heard)

theorem KeyAgent.start_wellFormed {agent : KeyAgent} {fresh : Bytes}
    (wellFormed : agent.keyStore.WellFormed cipher) (size : fresh.length = kRoomKeySize)
    (id : UInt32)
    (createRoom : Bool) : (agent.start id createRoom fresh).keyStore.WellFormed cipher := by
  by_cases creates : createRoom ∧ agent.keyStore.roomKey = none
  · rw [agent.start_creates creates]
    exact ⟨wellFormed.secretSize, wellFormed.pair, by simpa using size, wellFormed.peerSize⟩
  · rw [agent.start_keeps creates]
    exact wellFormed

theorem Party.Base.start {createRoom : Bool} {rest : List Notice} {fresh : Bytes}
    {chatter : List Request} (base : party.Base cipher banned) (waiting : party.started = false)
    (queue : party.fromServer = .assigned party.id createRoom :: rest)
    (size : fresh.length = kRoomKeySize) (plain : ∀ request ∈ chatter, request = .other) :
    ({ party with
        started := true
        fromServer := rest
        agent := party.agent.start party.id createRoom fresh
        toServer := party.toServer ++ chatter } : Party).Base cipher banned := by
  obtain ⟨-, silent, -⟩ := base.waiting waiting
  have sent {request : Request} (member : request ∈ party.toServer ++ chatter ++
      (party.replying ++ party.typing)) : request = .other := by
    have either : request ∈ party.out ∨ request ∈ chatter := by
      simp only [Party.out, List.mem_append] at member ⊢
      tauto
    rcases either with old | new
    · simp [silent] at old
    · exact plain request new
  refine ⟨base.nonzero, fun _ => rfl, fun waiting => ?_,
    KeyAgent.start_wellFormed base.wellFormed size _ _, ?_, ?_, ?_⟩
  · cases waiting
  · intro peerId key offered
    cases sent offered
  · intro wrong
    cases sent wrong
  · intro ids heard
    exact base.bans ids (queue ▸ List.mem_cons_of_mem _ heard)

theorem Party.Base.command {input : InputCommand} {chatter : List Request}
    (base : party.Base cipher banned) (running : party.started = true)
    (plain : ∀ request ∈ chatter, request = .other) :
    ({ party with
        agent := (party.agent.command input).1
        typing := (party.agent.command input).2 ++ chatter } : Party).Base cipher banned := by
  have sent {request : Request} (member : request ∈ party.toServer ++ (party.replying ++
      ((party.agent.command input).2 ++ chatter))) :
      request ∈ party.out ∨ request ∈ (party.agent.command input).2 ∨ request = .other := by
    simp only [Party.out, List.mem_append] at member ⊢
    rcases member with old | old | new | new
    · exact .inl (.inl old)
    · exact .inl (.inr (.inl old))
    · exact .inr (.inl new)
    · exact .inr (.inr (plain request new))
  refine ⟨base.nonzero, fun _ => ?_, fun waiting => ?_, ?_, ?_, ?_, base.bans⟩
  · rw [KeyAgent.command_myId, base.running running]
  · simp [running] at waiting
  · rw [KeyAgent.command_keyStore]
    exact base.wellFormed
  · intro peerId key offered
    rw [KeyAgent.command_keyStore]
    rcases sent offered with old | new | same
    · exact base.offers peerId key old
    · obtain ⟨_, -, same, -⟩ := (KeyAgent.mem_command_requests _ _).mp new
      exact (Request.keyOffer.inj same).2
    · cases same
  · intro wrong
    rcases sent wrong with old | new | same
    · exact base.addressed old
    · obtain ⟨_, -, same, -⟩ := (KeyAgent.mem_command_requests _ _).mp new
      cases same
    · cases same

end Base

structure Network.Base (cipher : Monocypher) (network : Network) : Prop where
  distinct : ∀ {fd other : Fd} {party twin : Party}, network.parties fd = some party →
    network.parties other = some twin → party.id = twin.id → fd = other
  each : ∀ {fd : Fd} {party : Party}, network.parties fd = some party →
    party.Base cipher network.banned

theorem Network.Base.of_parties {cipher : Monocypher} {network after : Network}
    (base : network.Base cipher)
    (old : ∀ fd party, after.parties fd = some party →
      (∃ before, network.parties fd = some before ∧ party.id = before.id) ∧
        party.Base cipher after.banned) : after.Base cipher where
  distinct here there same := by
    obtain ⟨⟨before, connected, id⟩, -⟩ := old _ _ here
    obtain ⟨⟨twin, found, twinId⟩, -⟩ := old _ _ there
    exact base.distinct connected found (id.symm.trans (same.trans twinId))
  each found := (old _ _ found).2

theorem Network.Base.put {cipher : Monocypher} {network after : Network}
    (base : network.Base cipher)
    {fd : Fd} {party next : Party} (connected : network.parties fd = some party)
    (kept : next.Base cipher network.banned) (id : next.id = party.id)
    (parties : after.parties = network.put fd next) (banned : after.banned = network.banned) :
    after.Base cipher := by
  refine base.of_parties fun other found here => ?_
  rw [parties] at here
  rw [banned]
  rcases Network.put_eq.mp here with ⟨rfl, rfl⟩ | ⟨-, was⟩
  · exact ⟨⟨party, connected, id⟩, kept⟩
  · exact ⟨⟨found, was, rfl⟩, base.each was⟩

theorem Moves.base {cipher : Monocypher} {network after : Network} {event : Event}
    (moves : Moves cipher network event after) (base : network.Base cipher) :
    after.Base cipher := by
  cases moves with
  | @join fd nickname saved random createRoom givers nextId vacant nonzero fresh genuine first =>
    constructor
    · intro fd other party twin here there same
      rcases Network.welcome_eq.mp here with ⟨rfl, rfl⟩ | ⟨-, before, was, rfl⟩ <;>
        rcases Network.welcome_eq.mp there with ⟨rfl, rfl⟩ | ⟨-, before', was', rfl⟩
      · rfl
      -- nobody has the id that the newcomer gets
      · exact (fresh _ _ was' same.symm).elim
      · exact (fresh _ _ was same).elim
      · exact base.distinct was was' same
    · intro other found here
      rcases Network.welcome_eq.mp here with ⟨rfl, rfl⟩ | ⟨-, before, was, rfl⟩
      · have launched := (launch_eq cipher nickname saved random).1
        refine ⟨nonzero, ?_, fun _ => ⟨⟨createRoom, [], rfl⟩, rfl, ?_⟩,
          launch_wellFormed genuine nickname random, ?_, ?_, ?_⟩
        · simp [Party.newcomer]
        · simp [Party.newcomer, launched]
        · simp [Party.newcomer, Party.out]
        · simp [Party.newcomer, Party.out]
        · simp [Party.newcomer]
      · exact (base.each was).hear subset_rfl (by simp)
  | @leave fd party nextId connected =>
    refine base.of_parties fun other found here => ?_
    obtain ⟨-, before, was, rfl⟩ := Network.dismiss_eq.mp here
    exact ⟨⟨before, was, rfl⟩, (base.each was).hear subset_rfl (by simp)⟩
  | @ban ids newly heard nextId inserted told =>
    refine base.of_parties fun other found here => ?_
    obtain ⟨before, was, rfl⟩ := Option.map_eq_some_iff.mp here
    refine ⟨⟨before, was, rfl⟩, (base.each was).hear Finset.subset_union_left fun ids heardOf => ?_⟩
    split_ifs at heardOf
    · simp at heardOf
    · rcases told with rfl | rfl
      · obtain rfl : ids = newly := by simpa using heardOf
        exact inserted
      · simp at heardOf
  | @serve fd party request rest noise nextId connected free queue harmless =>
    refine base.of_parties fun other found here => ?_
    obtain ⟨receiver, put, rfl⟩ := Option.map_eq_some_iff.mp here
    -- a ban is announced by the server alone, nobody can have one passed on
    have unbanned (ids : List UInt32) (heard : .banned ids ∈
        relayed network.banned party.id receiver.id request ++ noise other) : False := by
      rcases List.mem_append.mp heard with passed | noisy
      · rcases (mem_relayed.mp passed).2 with ⟨_, -, same⟩ | ⟨_, -, same⟩ <;> cases same
      · rcases harmless other _ noisy with same | same <;> cases same
    rcases Network.put_eq.mp put with ⟨rfl, rfl⟩ | ⟨-, was⟩
    · have sent : ({ party with toServer := rest } : Party).Base cipher network.banned := by
        refine (base.each connected).send rfl rfl rfl rfl ?_
        simp [Party.out, queue]
      exact ⟨⟨party, connected, rfl⟩,
        sent.hear subset_rfl fun ids heard => (unbanned ids heard).elim⟩
    · exact ⟨⟨receiver, was, rfl⟩,
        (base.each was).hear subset_rfl fun ids heard => (unbanned ids heard).elim⟩
  | @receive fd party notice rest nonce connected running idle queue size =>
    exact base.put connected ((base.each connected).receive running queue) rfl rfl rfl
  | @start fd party createRoom rest fresh chatter connected waiting queue size plain =>
    exact base.put connected ((base.each connected).start waiting queue size plain) rfl rfl rfl
  | @command fd party input chatter connected running idle plain =>
    exact base.put connected ((base.each connected).command running plain) rfl rfl rfl
  | @flush fd party thread connected =>
    have sent : (party.flush thread).Base cipher network.banned := by
      refine (base.each connected).send ?_ ?_ ?_ ?_ fun _ => (Party.mem_flush_out thread).mp
      all_goals cases thread <;> rfl
    exact base.put connected sent (by cases thread <;> rfl) rfl rfl
  | idle => exact ⟨base.distinct, base.each⟩

inductive Told (network : Network) (party : Party) : Notice → Prop
  | other : Told network party .other
  | joined (id : UInt32) : Told network party (.joined id)
  | banned (ids : List UInt32) : Told network party (.banned ids)
  | passed {fd : Fd} {sender : Party} {request : Request} {notice : Notice}
      (connected : network.parties fd = some sender) (sent : request ∈ sender.out)
      (relays : notice ∈ relayed network.banned sender.id party.id request) :
        Told network party notice

inductive PartyStep (cipher : Monocypher) (network : Network) (event : Event) (fd : Fd)
    (party : Party) : Party → Prop
  | hears {notices : List Notice} (told : ∀ notice ∈ notices, Told network party notice) :
      PartyStep cipher network event fd party (party.hear notices)
  | served {request : Request} {rest : List Request} {notices : List Notice}
      (queue : party.toServer = request :: rest)
      (told : ∀ notice ∈ notices, Told network party notice) :
      PartyStep cipher network event fd party (Party.hear { party with toServer := rest } notices)
  | receives {notice : Notice} {rest : List Notice} {nonce : Bytes}
      (now : event = .clientReceive fd)
      (running : party.started = true) (idle : party.replying = [])
      (queue : party.fromServer = notice :: rest) (size : nonce.length = kNonceSize) :
      PartyStep cipher network event fd party
        { party with
          fromServer := rest
          agent := (party.agent.receive cipher nonce notice).1
          replying := (party.agent.receive cipher nonce notice).2 }
  | starts {createRoom : Bool} {rest : List Notice} {fresh : Bytes} {chatter : List Request}
      (now : event = .clientReceive fd) (waiting : party.started = false)
      (queue : party.fromServer = .assigned party.id createRoom :: rest)
      (size : fresh.length = kRoomKeySize) (plain : ∀ request ∈ chatter, request = .other) :
      PartyStep cipher network event fd party
        { party with
          started := true
          fromServer := rest
          agent := party.agent.start party.id createRoom fresh
          toServer := party.toServer ++ chatter }
  | commands {input : InputCommand} {chatter : List Request} (now : event = .command fd input)
      (running : party.started = true) (idle : party.typing = [])
      (plain : ∀ request ∈ chatter, request = .other) :
      PartyStep cipher network event fd party
        { party with
          agent := (party.agent.command input).1
          typing := (party.agent.command input).2 ++ chatter }
  | flushes (thread : Thread) : PartyStep cipher network event fd party (party.flush thread)

theorem PartyStep.refl {cipher : Monocypher} {network : Network} {event : Event} {fd : Fd}
    {party : Party} : PartyStep cipher network event fd party party := by
  have silent : ∀ notice ∈ ([] : List Notice), Told network party notice := by simp
  simpa [Party.hear] using @PartyStep.hears cipher network event fd party [] silent

section Moves

variable {cipher : Monocypher} {network after : Network} {event : Event}
  (moves : Moves cipher network event after)
include moves

theorem Moves.partyStep {fd : Fd} {party later : Party} (was : network.parties fd = some party)
    (now : after.parties fd = some later) : PartyStep cipher network event fd party later := by
  cases moves with
  | @join joined nickname saved random createRoom givers nextId vacant =>
    rcases Network.welcome_eq.mp now with ⟨rfl, -⟩ | ⟨-, before, found, rfl⟩
    · simp [vacant] at was
    · obtain rfl := Option.some.inj (found.symm.trans was)
      refine .hears fun notice member => ?_
      obtain rfl := List.mem_singleton.mp member
      exact .joined _
  | leave connected =>
    obtain ⟨-, before, found, rfl⟩ := Network.dismiss_eq.mp now
    obtain rfl := Option.some.inj (found.symm.trans was)
    refine .hears fun notice member => ?_
    obtain rfl := List.mem_singleton.mp member
    exact .other
  | @ban ids newly heard nextId inserted told =>
    obtain ⟨before, found, rfl⟩ := Option.map_eq_some_iff.mp now
    obtain rfl := Option.some.inj (found.symm.trans was)
    refine .hears fun notice member => ?_
    split_ifs at member
    · cases member
    · rcases told with rfl | rfl
      · obtain rfl := List.mem_singleton.mp member
        exact .banned _
      · cases member
  | @serve sentBy sender request rest noise nextId connected free queue harmless =>
    obtain ⟨receiver, put, rfl⟩ := Option.map_eq_some_iff.mp now
    have told (same : receiver.id = party.id) : ∀ notice ∈
        relayed network.banned sender.id receiver.id request ++ noise fd,
          Told network party notice := by
      intro notice member
      rcases List.mem_append.mp member with passed | noisy
      · refine .passed connected (List.mem_append_left _ ?_) (same ▸ passed)
        rw [queue]
        exact List.mem_cons_self
      · rcases harmless fd notice noisy with rfl | rfl
        · exact .other
        · exact .joined _
    rcases Network.put_cases connected was put with ⟨rfl, rfl, rfl⟩ | ⟨-, rfl⟩
    · exact .served queue (told rfl)
    · exact .hears (told rfl)
  | receive connected running idle queue size =>
    rcases Network.put_cases connected was now with ⟨rfl, rfl, rfl⟩ | ⟨-, rfl⟩
    · exact .receives rfl running idle queue size
    · exact .refl
  | start connected waiting queue size plain =>
    rcases Network.put_cases connected was now with ⟨rfl, rfl, rfl⟩ | ⟨-, rfl⟩
    · exact .starts rfl waiting queue size plain
    · exact .refl
  | command connected running idle plain =>
    rcases Network.put_cases connected was now with ⟨rfl, rfl, rfl⟩ | ⟨-, rfl⟩
    · exact .commands rfl running idle plain
    · exact .refl
  | @flush wrote writer thread connected =>
    rcases Network.put_cases connected was now with ⟨rfl, rfl, rfl⟩ | ⟨-, rfl⟩
    · exact .flushes thread
    · exact .refl
  | idle =>
    obtain rfl := Option.some.inj (was.symm.trans now)
    exact .refl

theorem Moves.banned_subset : network.banned ⊆ after.banned := by
  cases moves with
  | ban inserted => exact Finset.subset_union_left
  | _ => exact subset_rfl

theorem Moves.banned_eq (other : ∀ ids, event ≠ .ban ids) : after.banned = network.banned := by
  cases moves with
  | ban => exact absurd rfl (other _)
  | _ => rfl

theorem Moves.stays {fd : Fd} {party : Party} (was : network.parties fd = some party)
    (free : party.id ∉ network.banned) (remains : event ≠ .leave fd) :
    ∃ later, after.parties fd = some later := by
  have put (other : Fd) (replaced : Party) : ∃ later,
      network.put other replaced fd = some later := by
    by_cases here : fd = other
    · exact ⟨_, Network.put_eq.mpr (.inl ⟨here, rfl⟩)⟩
    · exact ⟨_, Network.put_eq.mpr (.inr ⟨here, was⟩)⟩
  cases moves with
  | @join joined _ _ _ _ _ _ vacant =>
    have apart : fd ≠ joined := by
      rintro rfl
      simp [vacant] at was
    exact ⟨_, Network.welcome_eq.mpr (.inr ⟨apart, party, was, rfl⟩)⟩
  | @leave _ gone leaver _ connected cause =>
    have apart : fd ≠ gone := by
      rintro rfl
      obtain rfl := Option.some.inj (connected.symm.trans was)
      exact cause.elim remains fun banned => free banned.2
    exact ⟨_, Network.dismiss_eq.mpr ⟨apart, party, was, rfl⟩⟩
  | ban => exact ⟨_, Option.map_eq_some_iff.mpr ⟨party, was, rfl⟩⟩
  | serve connected =>
    obtain ⟨receiver, found⟩ := put _ _
    exact ⟨_, Option.map_eq_some_iff.mpr ⟨receiver, found, rfl⟩⟩
  | receive | start | command | flush => exact put _ _
  | idle => exact ⟨party, was⟩

theorem Moves.newcomer {fd : Fd} {later : Party} (vacant : network.parties fd = none)
    (now : after.parties fd = some later) :
    ∃ nickname saved random createRoom givers, event = .join fd nickname saved random ∧
      later = .newcomer network.nextId (launch cipher nickname saved random).agent createRoom ∧
      after.parties = network.welcome fd later ∧
      after.history = .joined fd givers :: network.history ∧
      (createRoom = true ↔ ∀ other, network.parties other = none) ∧
      ∀ other, other ∈ givers ↔ network.Gives other := by
  cases moves with
  | @join joined nickname saved random createRoom givers nextId _ _ _ _ first counted =>
    rcases Network.welcome_eq.mp now with ⟨rfl, rfl⟩ | ⟨-, before, found, -⟩
    · exact ⟨nickname, saved, random, createRoom, givers, rfl, rfl, rfl, rfl, first, counted⟩
    · simp [vacant] at found
  | leave connected =>
    obtain ⟨-, before, found, -⟩ := Network.dismiss_eq.mp now
    simp [vacant] at found
  | ban inserted =>
    obtain ⟨before, found, -⟩ := Option.map_eq_some_iff.mp now
    simp [vacant] at found
  | serve connected =>
    obtain ⟨before, found, -⟩ := Option.map_eq_some_iff.mp now
    rcases Network.put_eq.mp found with ⟨rfl, -⟩ | ⟨-, found⟩
    · simp [vacant] at connected
    · simp [vacant] at found
  | receive connected | start connected | command connected | flush connected =>
    rcases Network.put_eq.mp now with ⟨rfl, -⟩ | ⟨-, found⟩
    · simp [vacant] at connected
    · simp [vacant] at found
  | idle => simp [vacant] at now

end Moves

end ModbusChat.System
