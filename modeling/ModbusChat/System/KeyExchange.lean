import ModbusChat.System.Simulation

set_option autoImplicit false

namespace ModbusChat.System

open BigEndian Wire Client
open Server (Fd)

def keysFrom (first position : Nat) : UInt8 := UInt8.ofNat (first + position / kSecretKeySize)

def Happening.joins (fd : Fd) : Happening → Bool
  | .joined other _ => other = fd
  | .peerKey _ _ _ => false

def sinceJoined (fd : Fd) (history : List Happening) : List Happening :=
  history.takeWhile fun happening => !happening.joins fd

def JoinedBefore (fd newFd : Fd) (history : List Happening) : Prop :=
  ∀ happening ∈ sinceJoined newFd history, happening.joins fd = false

instance (fd newFd : Fd) (history : List Happening) : Decidable (JoinedBefore fd newFd history) :=
  inferInstanceAs (Decidable (∀ happening ∈ sinceJoined newFd history, _))

/-- Any two clients have received each other's key since the later of them joined. -/
def World.KeysExchanged (world : World) : Prop :=
  ∀ fd newFd older newer, world.party fd = some older → world.party newFd = some newer →
    older.id ∉ world.server.bannedIds → newer.id ∉ world.server.bannedIds → fd ≠ newFd →
    JoinedBefore fd newFd world.history →
      .peerKey newFd older.id older.agent.keyStore.identityPublic ∈
        sinceJoined newFd world.history ∧
      .peerKey fd newer.id newer.agent.keyStore.identityPublic ∈ sinceJoined newFd world.history

/--
Whoever joins gets an id, and every client that is not banned has yet to offer its key to this id or
has the offer still on its way to the server.
-/
def OffersOpen (cipher : Monocypher) (world : World) (event : Event) : Prop :=
  Allowed cipher world event ∧
    match event with
    | .join _ _ _ _ => Server.RoomLeft world.server ∧
        ∀ client ∈ world.connected,
          client.2.id ∉ world.server.bannedIds → client.2.CanOffer world.nextId
    | _ => True

instance OffersOpen.decidable (cipher : Monocypher) (world : World) :
    (event : Event) → Decidable (OffersOpen cipher world event)
  | .join fd nickname saved random => inferInstanceAs (Decidable
      (Allowed cipher world (.join fd nickname saved random) ∧
        world.server.usedIds.card < 2 ^ 32 - 2 ∧
        ∀ client ∈ world.connected,
          client.2.id ∉ world.server.bannedIds → client.2.CanOffer world.nextId))
  | .clientReceive fd =>
    inferInstanceAs (Decidable (Allowed cipher world (.clientReceive fd) ∧ True))
  | .command fd input =>
    inferInstanceAs (Decidable (Allowed cipher world (.command fd input) ∧ True))
  | .leave _ | .ban _ | .serverReceive _ | .flush _ _ => .isTrue ⟨trivial, trivial⟩

structure Party.Next (network after : Network) (new : List Happening) (fd : Fd)
    (party later : Party) : Prop where
  id : later.id = party.id
  identity : later.agent.keyStore.identityPublic = party.agent.keyStore.identityPublic
  offered : party.agent.keyOfferedTo ⊆ later.agent.keyOfferedTo
  offers : ∀ peerId ∈ later.agent.keyOfferedTo, peerId ∈ party.agent.keyOfferedTo ∨
    .keyOffer peerId party.agent.keyStore.identityPublic ∈ later.out
  sent : ∀ request ∈ party.out, request ∈ later.out ∨
    ∀ other receiver, after.parties other = some receiver →
      ∀ notice ∈ relayed network.banned party.id receiver.id request, notice ∈ receiver.fromServer
  heard : ∀ notice ∈ party.fromServer, notice ∈ later.fromServer ∨ noted fd notice ⊆ new ∧
    ∀ peerId, notice.Introduces peerId → peerId ≠ 0 → peerId ≠ party.id →
      peerId ∈ later.agent.keyOfferedTo
  received : ∀ fromId key, .peerKey fd fromId key ∈ new → key.length = kPublicKeySize →
    fromId ≠ 0 → fromId ≠ party.id → fromId ∈ later.agent.keyOfferedTo

section Next

variable {cipher : Monocypher} {network after : Network} {new : List Happening} {fd : Fd}
  {party : Party}

theorem Party.Next.hear (silent : ∀ fromId key, .peerKey fd fromId key ∉ new)
    (notices : List Notice) :
    party.Next network after new fd (party.hear notices) where
  id := rfl
  identity := rfl
  offered _ member := member
  offers _ member := .inl member
  sent _ member := .inl member
  heard _ member := .inl (List.mem_append_left _ member)
  received fromId key member := (silent fromId key member).elim

theorem Party.Next.refl (silent : ∀ fromId key, .peerKey fd fromId key ∉ new) :
    party.Next network after new fd party := by
  simpa [Party.hear] using @Party.Next.hear network after new fd party silent []

theorem Party.Next.serve {request : Request} {rest : List Request}
    (queue : party.toServer = request :: rest) (notices : List Notice)
    (passed : ∀ other receiver, after.parties other = some receiver →
      ∀ notice ∈ relayed network.banned party.id receiver.id request,
        notice ∈ receiver.fromServer) :
    party.Next network after [] fd (Party.hear { party with toServer := rest } notices) where
  id := rfl
  identity := rfl
  offered _ member := member
  offers _ member := .inl member
  sent asked member := by
    simp only [Party.out, queue, List.cons_append, List.mem_cons] at member
    rcases member with rfl | later
    · exact .inr passed
    · exact .inl later
  heard _ member := .inl (List.mem_append_left _ member)
  received _ _ member := by simp at member

theorem Party.Next.receive {notice : Notice} {rest : List Notice} {nonce : Bytes}
    (base : party.Base cipher network.banned) (running : party.started = true)
    (idle : party.replying = []) (queue : party.fromServer = notice :: rest) :
    party.Next network after (noted fd notice) fd
      { party with
        fromServer := rest
        agent := (party.agent.receive cipher nonce notice).1
        replying := (party.agent.receive cipher nonce notice).2 } := by
  have mine := base.running running
  have introduced {peerId : UInt32} (introduces : notice.Introduces peerId) (nonzero : peerId ≠ 0)
      (apart : peerId ≠ party.id) :
      peerId ∈ (party.agent.receive cipher nonce notice).1.keyOfferedTo :=
    (KeyAgent.mem_receive_keyOfferedTo cipher nonce party.agent notice).mpr
      (.inr ⟨introduces, nonzero, mine ▸ apart⟩)
  constructor
  case id => rfl
  case identity => exact (KeyAgent.receive_identity cipher nonce party.agent notice).2.2
  case offered =>
    exact fun peerId member =>
      (KeyAgent.mem_receive_keyOfferedTo cipher nonce party.agent notice).mpr (.inl member)
  case offers =>
    intro peerId member
    by_cases old : peerId ∈ party.agent.keyOfferedTo
    · exact .inl old
    · obtain ⟨introduces, nonzero, apart⟩ :=
        ((KeyAgent.mem_receive_keyOfferedTo cipher nonce party.agent notice).mp member).resolve_left
          old
      refine .inr (List.mem_append_right _ (List.mem_append_left _ ?_))
      exact (KeyAgent.mem_receive_requests cipher nonce party.agent notice).mpr
        (.inl ⟨peerId, rfl, introduces, nonzero, apart, old⟩)
  case sent =>
    intro request member
    simp only [Party.out, idle, List.nil_append, List.mem_append] at member ⊢
    tauto
  case heard =>
    intro read member
    rw [queue] at member
    rcases List.mem_cons.mp member with rfl | later
    · exact .inr ⟨List.Subset.refl _, fun _ => introduced⟩
    · exact .inl later
  case received =>
    intro fromId key member size nonzero apart
    cases notice with
    | peerKey other sent =>
      obtain ⟨-, rfl, rfl⟩ := Happening.peerKey.inj (List.mem_singleton.mp member)
      exact introduced ⟨rfl, size⟩ nonzero apart
    | _ => simp [noted] at member

theorem Party.Next.start {createRoom : Bool} {rest : List Notice} {fresh : Bytes}
    {chatter : List Request} (queue : party.fromServer = .assigned party.id createRoom :: rest) :
    party.Next network after [] fd
      { party with
        started := true
        fromServer := rest
        agent := party.agent.start party.id createRoom fresh
        toServer := party.toServer ++ chatter } where
  id := rfl
  identity := rfl
  offered _ member := member
  offers _ member := .inl member
  sent request member := by
    simp only [Party.out, List.mem_append] at member ⊢
    tauto
  heard notice member := by
    rw [queue] at member
    rcases List.mem_cons.mp member with rfl | later
    · exact .inr ⟨List.Subset.refl _, fun _ introduces => introduces.elim⟩
    · exact .inl later
  received _ _ member := by simp at member

theorem Party.Next.command {input : InputCommand} {chatter : List Request}
    (idle : party.typing = []) :
    party.Next network after [] fd
      { party with
        agent := (party.agent.command input).1
        typing := (party.agent.command input).2 ++ chatter } where
  id := rfl
  identity := by simp
  offered _ member := (KeyAgent.mem_command_keyOfferedTo _ _).mpr (.inl member)
  offers peerId member := by
    by_cases old : peerId ∈ party.agent.keyOfferedTo
    · exact .inl old
    · obtain ⟨same, nonzero, apart⟩ :=
        ((KeyAgent.mem_command_keyOfferedTo _ _).mp member).resolve_left old
      refine .inr (List.mem_append_right _ (List.mem_append_right _ (List.mem_append_left _ ?_)))
      exact (KeyAgent.mem_command_requests _ _).mpr ⟨peerId, same, rfl, nonzero, apart, old⟩
  sent request member := by
    simp only [Party.out, idle, List.append_nil, List.mem_append] at member ⊢
    tauto
  heard _ member := .inl member
  received _ _ member := by simp at member

theorem Party.Next.flush (thread : Thread) :
    party.Next network after [] fd (party.flush thread) := by
  refine ⟨?_, ?_, ?_, ?_, fun _ member => .inl ((Party.mem_flush_out thread).mpr member), ?_, ?_⟩
  · cases thread <;> rfl
  · cases thread <;> rfl
  · cases thread <;> exact fun _ member => member
  · cases thread <;> exact fun _ member => .inl member
  · cases thread <;> exact fun _ member => .inl member
  · simp

theorem Moves.next {event : Event} (moves : Moves cipher network event after)
    (base : network.Base cipher) :
    ∃ new, after.history = new ++ network.history ∧
      (∀ fd party, network.parties fd = some party →
        ∀ happening ∈ new, happening.joins fd = false) ∧
      ∀ fd party later, network.parties fd = some party → after.parties fd = some later →
        party.Next network after new fd later := by
  cases moves with
  | @join fd nickname saved random createRoom givers nextId vacant =>
    refine ⟨[.joined fd givers], rfl, fun other party was happening member => ?_,
      fun other party later was now => ?_⟩
    · obtain rfl := List.mem_singleton.mp member
      refine decide_eq_false ?_
      rintro rfl
      simp [vacant] at was
    · rcases Network.welcome_eq.mp now with ⟨rfl, -⟩ | ⟨-, before, found, rfl⟩
      · simp [vacant] at was
      · obtain rfl := Option.some.inj (found.symm.trans was)
        exact .hear (by simp) _
  | leave connected =>
    refine ⟨[], rfl, by simp, fun other party later was now => ?_⟩
    obtain ⟨-, before, found, rfl⟩ := Network.dismiss_eq.mp now
    obtain rfl := Option.some.inj (found.symm.trans was)
    exact .hear (by simp) _
  | ban inserted =>
    refine ⟨[], rfl, by simp, fun other party later was now => ?_⟩
    obtain ⟨before, found, rfl⟩ := Option.map_eq_some_iff.mp now
    obtain rfl := Option.some.inj (found.symm.trans was)
    exact .hear (by simp) _
  | @serve fd sender request rest noise nextId connected free queue =>
    refine ⟨[], rfl, by simp, fun other party later was now => ?_⟩
    obtain ⟨before, found, rfl⟩ := Option.map_eq_some_iff.mp now
    rcases Network.put_cases connected was found with ⟨rfl, rfl, rfl⟩ | ⟨-, rfl⟩
    · refine .serve queue _ fun other receiver now notice passed => ?_
      obtain ⟨before, found, rfl⟩ := Option.map_eq_some_iff.mp now
      exact List.mem_append_right _ (List.mem_append_left _ passed)
    · exact .hear (by simp) _
  | @receive fd receiver notice rest nonce connected running idle queue =>
    refine ⟨noted fd notice, rfl, ?_, fun other party later was now => ?_⟩
    · cases notice <;> simp [noted, Happening.joins]
    · rcases Network.put_cases connected was now with ⟨rfl, rfl, rfl⟩ | ⟨apart, rfl⟩
      · exact .receive (base.each was) running idle queue
      · exact .refl (by cases notice <;> simp [noted, apart])
  | @start fd starter createRoom rest fresh chatter connected waiting queue =>
    refine ⟨[], rfl, by simp, fun other party later was now => ?_⟩
    rcases Network.put_cases connected was now with ⟨rfl, rfl, rfl⟩ | ⟨-, rfl⟩
    · exact .start queue
    · exact .refl (by simp)
  | @command fd typist input chatter connected running idle =>
    refine ⟨[], rfl, by simp, fun other party later was now => ?_⟩
    rcases Network.put_cases connected was now with ⟨rfl, rfl, rfl⟩ | ⟨-, rfl⟩
    · exact .command idle
    · exact .refl (by simp)
  | @flush fd writer thread connected =>
    refine ⟨[], rfl, by simp, fun other party later was now => ?_⟩
    rcases Network.put_cases connected was now with ⟨rfl, rfl, rfl⟩ | ⟨-, rfl⟩
    · exact .flush thread
    · exact .refl (by simp)
  | idle =>
    refine ⟨[], rfl, by simp, fun other party later was now => ?_⟩
    obtain rfl := Option.some.inj (was.symm.trans now)
    exact .refl (by simp)

end Next

def OnWay (since : List Happening) (fd : Fd) (sender receiver : Party) : Prop :=
  .keyOffer receiver.id sender.agent.keyStore.identityPublic ∈ sender.out ∨
  .peerKey sender.id sender.agent.keyStore.identityPublic ∈ receiver.fromServer ∨
  .peerKey fd sender.id sender.agent.keyStore.identityPublic ∈ since

-- How far two clients are with the exchange of their keys.
structure Exchanging (since : List Happening) (fd newFd : Fd) (older newer : Party) : Prop where
  toNewer : newer.id ∉ older.agent.keyOfferedTo ∧ .joined newer.id ∈ older.fromServer ∨
    OnWay since newFd older newer
  toOlder : older.id ∉ newer.agent.keyOfferedTo ∨ OnWay since fd newer older
  answered : .peerKey newFd older.id older.agent.keyStore.identityPublic ∈ since →
    older.id ∈ newer.agent.keyOfferedTo

section Exchanging

variable {network after : Network} {new since : List Happening} {fd newFd : Fd}
  {sender receiver older newer sender' receiver' older' newer' : Party}

theorem OnWay.next (onWay : OnWay since newFd sender receiver)
    (sends : sender.Next network after new fd sender')
    (receives : receiver.Next network after new newFd receiver')
    (connected : after.parties newFd = some receiver') (free : receiver.id ∉ network.banned) :
    OnWay (new ++ since) newFd sender' receiver' := by
  unfold OnWay
  rw [sends.id, sends.identity, receives.id]
  rcases onWay with offered | underway | arrived
  · rcases sends.sent _ offered with still | passed
    · exact .inl still
    · refine .inr (.inl (passed newFd receiver' connected _ (mem_relayed.mpr ?_)))
      rw [receives.id]
      exact ⟨free, .inl ⟨_, rfl, rfl⟩⟩
  · rcases receives.heard _ underway with still | ⟨noted, -⟩
    · exact .inr (.inl still)
    · exact .inr (.inr (List.mem_append_left _ (noted List.mem_cons_self)))
  · exact .inr (.inr (List.mem_append_right _ arrived))

theorem Exchanging.next (exchanging : Exchanging since fd newFd older newer)
    (olderNext : older.Next network after new fd older')
    (newerNext : newer.Next network after new newFd newer')
    (here : after.parties fd = some older') (there : after.parties newFd = some newer')
    (olderFree : older.id ∉ network.banned) (newerFree : newer.id ∉ network.banned)
    (apart : newer.id ≠ older.id) (olderNonzero : older.id ≠ 0) (newerNonzero : newer.id ≠ 0)
    (size : older.agent.keyStore.identityPublic.length = kPublicKeySize) :
    Exchanging (new ++ since) fd newFd older' newer' := by
  have toNewer (onWay : OnWay since newFd older newer) : OnWay (new ++ since) newFd older' newer' :=
    onWay.next olderNext newerNext there newerFree
  have toOlder (onWay : OnWay since fd newer older) : OnWay (new ++ since) fd newer' older' :=
    onWay.next newerNext olderNext here olderFree
  refine ⟨?_, ?_, ?_⟩
  · rcases exchanging.toNewer with ⟨fresh, told⟩ | onWay
    · -- the older client has yet to read that the newer one is there, and offers its key
      -- when it does
      by_cases offered : newer.id ∈ older'.agent.keyOfferedTo
      · have sent := (olderNext.offers _ offered).resolve_left fresh
        refine .inr (.inl ?_)
        rw [newerNext.id, olderNext.identity]
        exact sent
      · rcases olderNext.heard _ told with still | ⟨-, introduced⟩
        · rw [newerNext.id]
          exact .inl ⟨offered, still⟩
        · exact absurd (introduced _ rfl newerNonzero apart) offered
    · exact .inr (toNewer onWay)
  · by_cases offered : older.id ∈ newer'.agent.keyOfferedTo
    · refine .inr ?_
      rcases newerNext.offers _ offered with before | sent
      · exact toOlder (exchanging.toOlder.resolve_left (not_not_intro before))
      · refine .inl ?_
        rw [olderNext.id, newerNext.identity]
        exact sent
    · rw [olderNext.id]
      exact .inl offered
  · rw [olderNext.id, olderNext.identity]
    intro arrived
    -- a key that arrives makes the newer client answer in the same step
    rcases List.mem_append.mp arrived with now | before
    · exact newerNext.received _ _ now size olderNonzero apart.symm
    · exact newerNext.offered (exchanging.answered before)

theorem Exchanging.newcomer {party : Party} {id : UInt32} {agent : KeyAgent} {createRoom : Bool}
    (canOffer : party.CanOffer id) (nothing : agent.keyOfferedTo = ∅) :
    Exchanging [] fd newFd (party.hear [.joined id]) (.newcomer id agent createRoom) where
  toNewer := by
    by_cases offered : id ∈ party.agent.keyOfferedTo
    · exact .inr (.inl (canOffer offered))
    · exact .inl ⟨offered, List.mem_append_right _ List.mem_cons_self⟩
  toOlder := by simp [Party.newcomer, nothing]
  answered := by simp

end Exchanging

theorem sinceJoined_append {fd : Fd} {new : List Happening}
    (others : ∀ happening ∈ new, happening.joins fd = false) (history : List Happening) :
    sinceJoined fd (new ++ history) = new ++ sinceJoined fd history :=
  List.takeWhile_append_of_pos (by simpa using others)

def Network.Exchanging (network : Network) : Prop :=
  ∀ fd newFd older newer, network.parties fd = some older → network.parties newFd = some newer →
    older.id ∉ network.banned → newer.id ∉ network.banned → fd ≠ newFd →
    JoinedBefore fd newFd network.history →
      System.Exchanging (sinceJoined newFd network.history) fd newFd older newer

theorem Moves.exchanging {cipher : Monocypher} {network after : Network} {event : Event}
    (moves : Moves cipher network event after) (base : network.Base cipher)
    (exchanging : network.Exchanging)
    (canOffer : ∀ fd nickname saved random, event = .join fd nickname saved random →
      ∀ other party, network.parties other = some party → party.id ∉ network.banned →
        party.CanOffer network.nextId) :
    after.Exchanging := by
  intro fd newFd older newer here there olderFree newerFree apart before
  have free {id : UInt32} (notBanned : id ∉ after.banned) : id ∉ network.banned :=
    fun banned => notBanned (moves.banned_subset banned)
  cases thereBefore : network.parties newFd with
  | none =>
    -- the newer client is the one that joins
    obtain ⟨nickname, saved, random, createRoom, givers, joins, rfl, parties, history, -⟩ :=
      moves.newcomer thereBefore there
    rw [parties] at here
    obtain ⟨party, was, rfl⟩ := ((Network.welcome_eq.mp here).resolve_left (apart ·.1)).2
    have nothing : sinceJoined newFd after.history = [] := by
      simp [history, sinceJoined, Happening.joins]
    rw [nothing]
    refine .newcomer (canOffer _ _ _ _ joins fd party was (free olderFree)) ?_
    rw [(launch_eq cipher nickname saved random).1]
  | some newerBefore =>
    cases hereBefore : network.parties fd with
    | none =>
      obtain ⟨_, _, _, _, givers, -, -, -, history, -⟩ := moves.newcomer hereBefore here
      -- the older client cannot be the one that joins
      have latest : .joined fd givers ∈ sinceJoined newFd after.history := by
        simp [history, sinceJoined, Happening.joins, apart]
      simpa [Happening.joins] using before _ latest
    | some olderBefore =>
      obtain ⟨new, history, others, next⟩ := moves.next base
      have olderNext := next fd olderBefore older hereBefore here
      have newerNext := next newFd newerBefore newer thereBefore there
      have since : sinceJoined newFd after.history = new ++ sinceJoined newFd network.history := by
        rw [history, sinceJoined_append (others newFd newerBefore thereBefore)]
      rw [since]
      rw [JoinedBefore, since] at before
      rw [olderNext.id] at olderFree
      rw [newerNext.id] at newerFree
      have still := exchanging fd newFd olderBefore newerBefore hereBefore thereBefore
        (free olderFree) (free newerFree) apart
        fun happening member => before happening (List.mem_append_right _ member)
      refine still.next olderNext newerNext here there (free olderFree) (free newerFree)
        (fun same => apart (base.distinct hereBefore thereBefore same.symm))
        (base.each hereBefore).nonzero (base.each thereBefore).nonzero
        (base.each hereBefore).wellFormed.publicSize

theorem keys_exchanged {cipher : Monocypher} {world : World}
    (reachable : Runs.Reachable Initial (OffersOpen cipher) (step cipher) world)
    (quiescent : world.Quiescent) : world.KeysExchanged := by
  have holds : world.network.Exchanging := by
    refine (reachable_invariant ?_ Network.Exchanging ?_ ?_ reachable).2
    · rintro world event ⟨allowed, ready⟩
      refine ⟨allowed, ?_⟩
      cases event with
      | join fd nickname saved random => exact ready.1
      | _ => trivial
    · intro fd newFd older newer here
      cases here
    · rintro world event after base exchanging ⟨-, ready⟩ moves
      refine moves.exchanging base exchanging ?_
      rintro fd nickname saved random rfl other party connected free
      exact ready.2 (other, party) (World.mem_connected.mpr connected) free
  intro fd newFd older newer here there olderFree newerFree apart before
  have exchanging := holds fd newFd older newer here there olderFree newerFree apart before
  obtain ⟨olderOut, olderHeard⟩ := quiescent.queues here
  obtain ⟨newerOut, newerHeard⟩ := quiescent.queues there
  -- with empty queues, a key that is on its way has arrived
  have toNewer : .peerKey newFd older.id older.agent.keyStore.identityPublic ∈
      sinceJoined newFd world.history := by
    rcases exchanging.toNewer with ⟨-, told⟩ | offered | underway | arrived
    · simp [olderHeard] at told
    · simp [olderOut] at offered
    · simp [newerHeard] at underway
    · exact arrived
  refine ⟨toNewer, ?_⟩
  rcases exchanging.toOlder with fresh | offered | underway | arrived
  · exact absurd (exchanging.answered toNewer) fresh
  · simp [newerOut] at offered
  · simp [olderHeard] at underway
  · exact arrived

def reusedUnspent : World :=
  [Event.join 3 [] none (keysFrom 10), .clientReceive 3, .join 4 [] none (keysFrom 20), .leave 4,
    .join 5 [] none (keysFrom 30), .clientReceive 5, .clientReceive 3, .flush 3 .receiver,
    .serverReceive 3, .clientReceive 3, .clientReceive 3, .clientReceive 5, .flush 5 .receiver,
    .serverReceive 5, .clientReceive 3, .flush 3 .receiver, .serverReceive 3,
    .clientReceive 5].foldl (step transparent) {}

theorem keys_exchanged_reusedUnspent :
    (reusedUnspent.party 3).map Party.id = some 1 ∧ (reusedUnspent.party 5).map Party.id = some 2 ∧
      reusedUnspent.Quiescent ∧ reusedUnspent.KeysExchanged := by
  have reachable :
      Runs.Reachable Initial (OffersOpen transparent) (step transparent) reusedUnspent :=
    Runs.Reachable.foldl (.start rfl) (by decide +kernel)
  have quiescent : reusedUnspent.Quiescent := by decide +kernel
  exact ⟨by decide +kernel, by decide +kernel, quiescent, keys_exchanged reachable quiescent⟩

-- Client 1 has exchanged keys with client 2, which leaves; the next client becomes client 2.
def reusedSpent : World :=
  [Event.join 3 [] none (keysFrom 10), .clientReceive 3, .join 4 [] none (keysFrom 20),
    .clientReceive 4, .clientReceive 3, .flush 3 .receiver, .serverReceive 3, .clientReceive 4,
    .flush 4 .receiver, .serverReceive 4, .clientReceive 3, .flush 3 .receiver, .serverReceive 3,
    .clientReceive 4, .leave 4, .clientReceive 3, .join 5 [] none (keysFrom 30), .clientReceive 3,
    .clientReceive 5].foldl (step transparent) {}

theorem reusedSpent_reachable : Reachable transparent reusedSpent :=
  Runs.Reachable.foldl (.start rfl) (by decide +kernel)

theorem reusedSpent_unexchanged :
    Reachable transparent reusedSpent ∧ reusedSpent.Quiescent ∧ ¬ reusedSpent.KeysExchanged := by
  refine ⟨reusedSpent_reachable, by decide +kernel, fun exchanged => ?_⟩
  have present : (reusedSpent.party 3).isSome ∧ (reusedSpent.party 5).isSome := by decide +kernel
  obtain ⟨⟨older, here⟩, ⟨newer, there⟩⟩ := present.imp Option.isSome_iff_exists.mp
    Option.isSome_iff_exists.mp
  have missing : ∀ older ∈ reusedSpent.party 3, ∀ newer ∈ reusedSpent.party 5,
      older.id ∉ reusedSpent.server.bannedIds ∧ newer.id ∉ reusedSpent.server.bannedIds ∧
      JoinedBefore 3 5 reusedSpent.history ∧
      .peerKey 5 older.id older.agent.keyStore.identityPublic ∉ sinceJoined 5
        reusedSpent.history := by
    decide +kernel
  obtain ⟨olderFree, newerFree, before, missing⟩ := missing older here newer there
  exact missing
    (exchanged 3 5 older newer here there olderFree newerFree (by decide) before).1

end ModbusChat.System
