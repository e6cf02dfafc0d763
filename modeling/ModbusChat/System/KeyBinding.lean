import ModbusChat.Client.DirectMessages
import ModbusChat.System.KeyExchange

set_option autoImplicit false

namespace ModbusChat.System

open BigEndian Effects Wire Client
open Server (Fd)

-- The key a client holds for an id once it has handled every message in its queue.
def Party.held (party : Party) (id : UInt32) : Option Bytes :=
  party.fromServer.foldl (Notice.hold id) (party.agent.keyStore.peerPublic id)

/--
A client that has handled all its messages holds no key for the id of another client but that
client's own, and encrypts every direct message to this id with it.
-/
def World.KeysBound (cipher : Monocypher) (world : World) : Prop :=
  ∀ fd other node peer, world.nodes.lookup fd = some node → (world.party fd).isSome →
    world.party other = some peer → fd ≠ other → node.fromServer = [] →
      (∀ key ∈ node.client.keyStore.peerPublic peer.id, key = peer.agent.keyStore.identityPublic) ∧
      ∀ plaintext, ∀ packet ∈
        packets ((sendEncryptedChatById cipher peer.id plaintext).run node.client).output,
          EncryptedFor cipher node.client peer.id peer.agent.keyStore.identityPublic
            plaintext packet

/--
Whoever joins gets an id for which no other client will hold a key but the one that the newcomer
has, and has itself no key for the id of another client but that client's own.
-/
def JoinsBound (cipher : Monocypher) (world : World) (event : Event) : Prop :=
  Allowed cipher world event ∧
    match event with
    | .join _ nickname saved random => Server.RoomLeft world.server ∧
        ∀ client ∈ world.connected,
          (∀ key ∈ client.2.held world.nextId,
            key = (launch cipher nickname saved random).keyStore.identityPublic) ∧
          ∀ key ∈ (launch cipher nickname saved random).keyStore.peerPublic client.2.id,
            key = client.2.agent.keyStore.identityPublic
    | _ => True

instance JoinsBound.decidable (cipher : Monocypher) (world : World) :
    (event : Event) → Decidable (JoinsBound cipher world event)
  | .join fd nickname saved random => inferInstanceAs (Decidable
      (Allowed cipher world (.join fd nickname saved random) ∧
        world.server.usedIds.card < 2 ^ 32 - 2 ∧
        ∀ client ∈ world.connected,
          (∀ key ∈ client.2.held world.nextId,
            key = (launch cipher nickname saved random).keyStore.identityPublic) ∧
          ∀ key ∈ (launch cipher nickname saved random).keyStore.peerPublic client.2.id,
            key = client.2.agent.keyStore.identityPublic))
  | .clientReceive fd =>
    inferInstanceAs (Decidable (Allowed cipher world (.clientReceive fd) ∧ True))
  | .command fd input =>
    inferInstanceAs (Decidable (Allowed cipher world (.command fd input) ∧ True))
  | .leave _ | .ban _ | .serverReceive _ | .flush _ _ => .isTrue ⟨trivial, trivial⟩

section Held

variable {cipher : Monocypher} {network after : Network} {event : Event}

theorem Party.held_hear (party : Party) (notices : List Notice) (id : UInt32) :
    (party.hear notices).held id = notices.foldl (Notice.hold id) (party.held id) :=
  List.foldl_append

def Network.Owns (network : Network) (id : UInt32) (key : Bytes) : Prop :=
  ∃ fd party, network.parties fd = some party ∧ party.id = id ∧
    party.agent.keyStore.identityPublic = key

theorem Told.hold {party : Party} {notice : Notice} (told : Told network party notice)
    (base : network.Base cipher) (id : UInt32) (held : Option Bytes) :
    notice.hold id held = held ∨ notice.hold id held = none ∨
      ∃ key, network.Owns id key ∧ notice.hold id held = some key := by
  cases told with
  | other => exact .inl rfl
  | joined => exact .inl rfl
  | banned ids =>
    simp only [Notice.hold]
    split_ifs
    · exact .inr (.inl rfl)
    · exact .inl rfl
  | @passed fd sender request notice connected sent relays =>
    rcases (mem_relayed.mp relays).2 with ⟨key, rfl, rfl⟩ | ⟨sealed, rfl, rfl⟩
    · -- an offer on its way carries its sender's own key
      have own := (base.each connected).offers party.id key sent
      simp only [Notice.hold]
      split_ifs with learned
      · exact .inr (.inr ⟨key, ⟨fd, sender, connected, learned.1.symm, own.symm⟩, rfl⟩)
      · exact .inl rfl
    · exact .inl rfl

theorem foldl_hold {party : Party} {notices : List Notice}
    (told : ∀ notice ∈ notices, Told network party notice) (base : network.Base cipher)
    (id : UInt32) (held : Option Bytes) :
    notices.foldl (Notice.hold id) held = held ∨ notices.foldl (Notice.hold id) held = none ∨
      ∃ key, network.Owns id key ∧ notices.foldl (Notice.hold id) held = some key := by
  induction notices generalizing held with
  | nil => exact .inl rfl
  | cons notice notices ih =>
    obtain ⟨first, rest⟩ := List.forall_mem_cons.mp told
    rw [List.foldl_cons]
    -- the last notice that changes anything decides
    rcases ih rest (notice.hold id held) with same | changed
    · rw [same]
      exact first.hold base id held
    · exact .inr changed

-- A move leaves what a party is going to hold for an id, clears it, or binds it to its owner.
theorem Moves.held (moves : Moves cipher network event after) (base : network.Base cipher) {fd : Fd}
    {party later : Party} (was : network.parties fd = some party)
    (now : after.parties fd = some later) (id : UInt32) :
    later.held id = party.held id ∨ later.held id = none ∨
      ∃ key, network.Owns id key ∧ later.held id = some key := by
  cases moves.partyStep was now with
  | hears told =>
    rw [Party.held_hear]
    exact foldl_hold told base id (party.held id)
  | served queue told =>
    rw [Party.held_hear]
    exact foldl_hold told base id (party.held id)
  | receives now running idle queue =>
    refine .inl ?_
    simp only [Party.held, queue, List.foldl_cons, KeyAgent.receive_peerPublic]
  | starts now waiting queue =>
    refine .inl ?_
    simp only [Party.held, queue, List.foldl_cons]
    rfl
  | commands => simp [Party.held]
  | flushes thread => cases thread <;> exact .inl rfl

end Held

def Network.Bound (network : Network) : Prop :=
  ∀ fd other party peer, network.parties fd = some party → network.parties other = some peer →
    fd ≠ other → ∀ key ∈ party.held peer.id, key = peer.agent.keyStore.identityPublic

theorem Moves.bound {cipher : Monocypher} {network after : Network} {event : Event}
    (moves : Moves cipher network event after) (base : network.Base cipher) (bound : network.Bound)
    (joins : ∀ fd nickname saved random, event = .join fd nickname saved random →
      ∀ other party, network.parties other = some party →
        (∀ key ∈ party.held network.nextId,
          key = (launch cipher nickname saved random).keyStore.identityPublic) ∧
        ∀ key ∈ (launch cipher nickname saved random).keyStore.peerPublic party.id,
          key = party.agent.keyStore.identityPublic) :
    after.Bound := by
  intro fd other party peer here there apart key held
  obtain ⟨_, -, -, next⟩ := moves.next base
  cases hereBefore : network.parties fd with
  | none =>
    -- a newcomer holds what it has loaded
    obtain ⟨nickname, saved, random, createRoom, givers, joined, rfl, parties, -⟩ :=
      moves.newcomer hereBefore here
    rw [parties] at there
    obtain ⟨before, was, rfl⟩ := ((Network.welcome_eq.mp there).resolve_left (apart ·.1.symm)).2
    exact (joins _ _ _ _ joined other before was).2 key held
  | some partyBefore =>
    cases thereBefore : network.parties other with
    | none =>
      obtain ⟨nickname, saved, random, createRoom, givers, joined, rfl, parties, -⟩ :=
        moves.newcomer thereBefore there
      rw [parties] at here
      obtain ⟨before, was, rfl⟩ := ((Network.welcome_eq.mp here).resolve_left (apart ·.1)).2
      rw [Party.held_hear] at held
      exact (joins _ _ _ _ joined fd before was).1 key held
    | some peerBefore =>
      have peerNext := next other peerBefore peer thereBefore there
      rw [peerNext.identity]
      rw [peerNext.id] at held
      rcases moves.held base hereBefore here peerBefore.id with
        same | cleared | ⟨learned, ⟨owner, sender, connected, owns, own⟩, now⟩
      · exact bound fd other partyBefore peerBefore hereBefore thereBefore apart key (same ▸ held)
      · simp [cleared] at held
      · obtain rfl := base.distinct connected thereBefore owns
        obtain rfl := Option.some.inj (connected.symm.trans thereBefore)
        exact (Option.some.inj (held.symm.trans now)).trans own.symm

theorem keys_bound {cipher : Monocypher} {world : World}
    (reachable : Runs.Reachable Initial (JoinsBound cipher) (step cipher) world) :
    world.KeysBound cipher := by
  have holds : world.network.Bound := by
    refine (reachable_invariant ?_ Network.Bound ?_ ?_ reachable).2
    · rintro world event ⟨allowed, ready⟩
      refine ⟨allowed, ?_⟩
      cases event with
      | join fd nickname saved random => exact ready.1
      | _ => trivial
    · intro fd other party peer here
      cases here
    · rintro world event after base bound ⟨-, ready⟩ moves
      refine moves.bound base bound ?_
      rintro fd nickname saved random rfl other party connected
      exact ready.2 (other, party) (World.mem_connected.mpr connected)
  intro fd other node peer found here there apart handled
  obtain ⟨party, here⟩ := Option.isSome_iff_exists.mp here
  obtain ⟨_, record, same, -, rfl⟩ := World.party_eq.mp here
  obtain rfl := Option.some.inj (found.symm.trans same)
  have bound : ∀ key ∈ node.client.keyStore.peerPublic peer.id,
      key = peer.agent.keyStore.identityPublic := by
    intro key known
    refine holds fd other _ peer here there apart key ?_
    rw [Party.held, show (node.party record.id).fromServer = [] from by simp [Node.party, handled]]
    exact known
  exact ⟨bound, fun plaintext packet sent => sendEncryptedChatById_encrypts bound sent⟩

theorem keys_bound_reusedUnspent :
    (∃ node ∈ reusedUnspent.nodes.lookup 3, node.client.keyStore.peerPublic 2 ≠ none) ∧
      reusedUnspent.KeysBound transparent :=
  ⟨by decide +kernel, keys_bound (Runs.Reachable.foldl (.start rfl) (by decide +kernel))⟩

-- Client 1 still holds the key of the former client 2, and would encrypt with it.
theorem reusedSpent_misbound :
    Reachable transparent reusedSpent ∧ ¬ reusedSpent.KeysBound transparent := by
  refine ⟨reusedSpent_reachable, fun bound => ?_⟩
  have present : (reusedSpent.nodes.lookup 3).isSome ∧ (reusedSpent.party 5).isSome := by
    decide +kernel
  obtain ⟨⟨node, found⟩, ⟨peer, there⟩⟩ := present.imp Option.isSome_iff_exists.mp
    Option.isSome_iff_exists.mp
  have stale : ∀ node ∈ reusedSpent.nodes.lookup 3, ∀ peer ∈ reusedSpent.party 5,
      node.fromServer = [] ∧ ∃ key ∈ node.client.keyStore.peerPublic peer.id,
        key ≠ peer.agent.keyStore.identityPublic := by
    decide +kernel
  obtain ⟨handled, key, known, wrong⟩ := stale node found peer there
  exact wrong
    ((bound 3 5 node peer found (by decide +kernel) there (by decide) handled).1 key known)

end ModbusChat.System
