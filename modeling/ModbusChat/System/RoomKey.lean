import ModbusChat.System.KeyExchange

set_option autoImplicit false

namespace ModbusChat.System

open BigEndian Wire Client
open Server (Fd)

def offeredBlob : Request → Option Bytes
  | .roomKeyOffer _ sealed => some sealed
  | _ => none

def heardBlob : Notice → Option Bytes
  | .roomKey _ sealed => some sealed
  | _ => none

def Party.blobs (party : Party) : List Bytes :=
  party.out.filterMap offeredBlob ++ party.fromServer.filterMap heardBlob

def Party.Creates (party : Party) : Prop :=
  party.started = false ∧ party.agent.keyStore.roomKey = none ∧
    party.fromServer.head? = some (.assigned party.id true)

instance (party : Party) : Decidable party.Creates := inferInstanceAs (Decidable (_ ∧ _ ∧ _))

def Network.InRoom (cipher : Monocypher) (network : Network) (roomKey : Bytes) : Prop :=
  ∃ fd party, network.parties fd = some party ∧
    (party.agent.keyStore.roomKey = some roomKey ∨ ∃ sealed ∈ party.blobs,
      Sealed cipher sealed roomKey)

/-- Any two clients that know each other and hold room keys hold the same room key. -/
def World.RoomKeysAgree (world : World) : Prop :=
  ∀ fd other party peer, world.party fd = some party → world.party other = some peer → fd ≠ other →
    party.agent.keyStore.peerPublic peer.id = some peer.agent.keyStore.identityPublic →
    peer.agent.keyStore.peerPublic party.id = some party.agent.keyStore.identityPublic →
    ∀ roomKey ∈ party.agent.keyStore.roomKey, ∀ otherKey ∈ peer.agent.keyStore.roomKey,
      roomKey = otherKey

/--
Whoever joins gets an id, and a room key that it has saved is the only one in the room: no other is
held by a connected client or on its way, and no client is about to create one.
-/
def SavedKeysFit (cipher : Monocypher) (world : World) (event : Event) : Prop :=
  Allowed cipher world event ∧
    match event with
    | .join _ nickname saved random => Server.RoomLeft world.server ∧
        ∀ roomKey ∈ (launch cipher nickname saved random).keyStore.roomKey,
          (∀ other, world.network.InRoom cipher other → other = roomKey) ∧
          ∀ client ∈ world.connected, ¬ client.2.Creates
    | _ => True

theorem mem_blobs {party : Party} {sealed : Bytes} :
    sealed ∈ party.blobs ↔ (∃ peerId, .roomKeyOffer peerId sealed ∈ party.out) ∨
      ∃ fromId, .roomKey fromId sealed ∈ party.fromServer := by
  have request (asked : Request) : offeredBlob asked = some sealed ↔
      ∃ peerId, asked = .roomKeyOffer peerId sealed := by
    cases asked <;> simp [offeredBlob]
  have notice (told : Notice) : heardBlob told = some sealed ↔
      ∃ fromId, told = .roomKey fromId sealed := by
    cases told <;> simp [heardBlob]
  simp only [Party.blobs, List.mem_append, List.mem_filterMap, request, notice]
  constructor
  · rintro (⟨_, member, peerId, rfl⟩ | ⟨_, member, fromId, rfl⟩)
    · exact .inl ⟨peerId, member⟩
    · exact .inr ⟨fromId, member⟩
  · rintro (⟨peerId, member⟩ | ⟨fromId, member⟩)
    · exact .inl ⟨_, member, peerId, rfl⟩
    · exact .inr ⟨_, member, fromId, rfl⟩

section Moves

variable {cipher : Monocypher} {network after : Network} {event : Event}

def Network.Carried (cipher : Monocypher) (network : Network) (sealed : Bytes) : Prop :=
  ∃ fd party, network.parties fd = some party ∧ (sealed ∈ party.blobs ∨
    ∃ roomKey, party.agent.keyStore.roomKey = some roomKey ∧ Sealed cipher sealed roomKey)

theorem Party.mem_blobs_hear {party : Party} {notices : List Notice} {sealed : Bytes} :
    sealed ∈ (party.hear notices).blobs ↔
      sealed ∈ party.blobs ∨ ∃ fromId, .roomKey fromId sealed ∈ notices := by
  simp only [mem_blobs, Party.hear, Party.out, List.mem_append, exists_or]
  tauto

theorem Told.carried {party : Party} {fromId : UInt32} {sealed : Bytes}
    (told : Told network party (.roomKey fromId sealed)) : network.Carried cipher sealed := by
  cases told with
  | passed connected sent relays =>
    rcases (mem_relayed.mp relays).2 with ⟨_, -, same⟩ | ⟨blob, rfl, same⟩
    · cases same
    · obtain ⟨-, rfl⟩ := Notice.roomKey.inj same
      exact ⟨_, _, connected, .inl (mem_blobs.mpr (.inl ⟨party.id, sent⟩))⟩

theorem PartyStep.carried {fd : Fd} {party later : Party}
    (step : PartyStep cipher network event fd party later) (was : network.parties fd = some party)
    {sealed : Bytes} (member : sealed ∈ later.blobs) : network.Carried cipher sealed := by
  have kept (member : sealed ∈ party.blobs) : network.Carried cipher sealed :=
    ⟨fd, party, was, .inl member⟩
  cases step with
  | hears told =>
    rcases Party.mem_blobs_hear.mp member with old | ⟨fromId, new⟩
    · exact kept old
    · exact (told _ new).carried
  | served queue told =>
    rcases Party.mem_blobs_hear.mp member with old | ⟨fromId, new⟩
    · refine kept (mem_blobs.mpr ((mem_blobs.mp old).imp_left ?_))
      rintro ⟨peerId, sent⟩
      simp only [Party.out] at sent ⊢
      rw [queue]
      exact ⟨peerId, List.mem_cons_of_mem _ sent⟩
    · exact (told _ new).carried
  | @receives notice rest nonce now running idle queue size =>
    rcases mem_blobs.mp member with ⟨peerId, sent⟩ | ⟨fromId, heard⟩
    · have either : .roomKeyOffer peerId sealed ∈ party.out ∨
          .roomKeyOffer peerId sealed ∈ (party.agent.receive cipher nonce notice).2 := by
        simp only [Party.out, List.mem_append] at sent ⊢
        tauto
      rcases either with old | new
      · exact kept (mem_blobs.mpr (.inl ⟨peerId, old⟩))
      · -- a new one is the answer to a key, and seals what the party holds
        rcases (KeyAgent.mem_receive_requests cipher nonce party.agent notice).mp new with
          ⟨_, same, -⟩ | ⟨_, _, roomKey, blob, -, -, held, done, same⟩
        · cases same
        · obtain ⟨-, rfl⟩ := Request.roomKeyOffer.inj same
          exact ⟨fd, party, was, .inr ⟨roomKey, held, sealRoomKey_sealed size done⟩⟩
    · exact kept (mem_blobs.mpr (.inr ⟨fromId, queue ▸ List.mem_cons_of_mem _ heard⟩))
  | @starts createRoom rest fresh chatter now waiting queue size plain =>
    rcases mem_blobs.mp member with ⟨peerId, sent⟩ | ⟨fromId, heard⟩
    · have either : .roomKeyOffer peerId sealed ∈ party.out ∨
          .roomKeyOffer peerId sealed ∈ chatter := by
        simp only [Party.out, List.mem_append] at sent ⊢
        tauto
      rcases either with old | new
      · exact kept (mem_blobs.mpr (.inl ⟨peerId, old⟩))
      · cases plain _ new
    · exact kept (mem_blobs.mpr (.inr ⟨fromId, queue ▸ List.mem_cons_of_mem _ heard⟩))
  | @commands input chatter now running idle plain =>
    refine kept (mem_blobs.mpr ((mem_blobs.mp member).imp_left ?_))
    rintro ⟨peerId, sent⟩
    simp only [Party.out, List.mem_append, KeyAgent.mem_command_requests, idle] at sent ⊢
    rcases sent with old | old | new | new
    · exact ⟨peerId, .inl old⟩
    · exact ⟨peerId, .inr (.inl old)⟩
    · obtain ⟨_, -, same, -⟩ := new
      cases same
    · cases plain _ new
  | flushes thread =>
    refine kept (mem_blobs.mpr ?_)
    rcases mem_blobs.mp member with ⟨peerId, sent⟩ | ⟨fromId, heard⟩
    · exact .inl ⟨peerId, (Party.mem_flush_out thread).mp sent⟩
    · cases thread <;> exact .inr ⟨fromId, heard⟩

theorem Moves.carried (moves : Moves cipher network event after) {fd : Fd} {later : Party}
    (now : after.parties fd = some later) {sealed : Bytes} (member : sealed ∈ later.blobs) :
    network.Carried cipher sealed := by
  cases was : network.parties fd with
  | none =>
    obtain ⟨nickname, saved, random, createRoom, givers, -, rfl, -⟩ := moves.newcomer was now
    simp [mem_blobs, Party.newcomer, Party.out] at member
  | some party => exact (moves.partyStep was now).carried was member

inductive RoomKeySource (cipher : Monocypher) (network : Network) (event : Event) (fd : Fd)
    (later : Party) (roomKey : Bytes) : Prop
  | held {party : Party} (was : network.parties fd = some party)
      (same : party.agent.keyStore.roomKey = some roomKey)
  | opened {party : Party} {sealed mine theirs : Bytes} (was : network.parties fd = some party)
      (member : sealed ∈ party.blobs) (done : openRoomKey cipher mine theirs sealed = .ok roomKey)
  | created {party : Party} (was : network.parties fd = some party) (creates : party.Creates)
      (now : event = .clientReceive fd) (started : later.started = true)
  | brought {nickname : Bytes} {saved : Option PeerKeyStore} {random : Nat → UInt8}
      (now : event = .join fd nickname saved random)
      (loaded : (launch cipher nickname saved random).keyStore.roomKey = some roomKey)

theorem Moves.roomKeySource (moves : Moves cipher network event after) {fd : Fd} {later : Party}
    (now : after.parties fd = some later) {roomKey : Bytes}
    (held : later.agent.keyStore.roomKey = some roomKey) :
    RoomKeySource cipher network event fd later roomKey := by
  cases was : network.parties fd with
  | none =>
    obtain ⟨nickname, saved, random, createRoom, givers, joined, rfl, -⟩ := moves.newcomer was now
    exact .brought joined held
  | some party =>
    cases moves.partyStep was now with
    | hears => exact .held was held
    | served => exact .held was held
    | @receives notice rest nonce event running idle queue =>
      simp only [KeyAgent.receive_roomKey] at held
      cases notice with
      | roomKey fromId sealed =>
        rcases Option.or_eq_some_iff.mp held with opened | ⟨-, old⟩
        · obtain ⟨peerPk, -, done⟩ := (KeyAgent.openFrom_eq_some cipher party.agent).mp opened
          exact .opened was (mem_blobs.mpr (.inr ⟨fromId, queue ▸ List.mem_cons_self⟩)) done
        · exact .held was old
      | _ => exact .held was held
    | @starts createRoom rest fresh chatter event waiting queue =>
      by_cases creates : createRoom ∧ party.agent.keyStore.roomKey = none
      · obtain ⟨rfl, none⟩ := creates
        exact .created was ⟨waiting, none, by simp [queue]⟩ event rfl
      · simp only [KeyAgent.start_keeps _ creates] at held
        exact .held was held
    | commands =>
      simp only [KeyAgent.command_keyStore] at held
      exact .held was held
    | flushes thread => cases thread <;> exact .held was held

theorem Party.Creates.of_hear {banned : Finset UInt32} {party : Party} {notices : List Notice}
    (base : party.Base cipher banned) (creates : (party.hear notices).Creates) : party.Creates := by
  obtain ⟨waiting, none, first⟩ := creates
  obtain ⟨⟨createRoom, rest, queue⟩, -⟩ := base.waiting waiting
  refine ⟨waiting, none, ?_⟩
  simpa [Party.hear, queue] using first

theorem Moves.creates (moves : Moves cipher network event after)
    (base : network.Base cipher) {fd : Fd}
    {later : Party} (now : after.parties fd = some later) (creates : later.Creates) :
    (∃ party, network.parties fd = some party ∧ party.Creates) ∨
      (∀ other, network.parties other = none) ∧ ∃ nickname saved random,
        event = .join fd nickname saved random ∧
        (launch cipher nickname saved random).keyStore.roomKey = none := by
  cases was : network.parties fd with
  | none =>
    obtain ⟨nickname, saved, random, createRoom, givers, joined, rfl, -, -, first, -⟩ :=
      moves.newcomer was now
    obtain ⟨-, none, assigned⟩ := creates
    have told : createRoom = true := by simpa [Party.newcomer] using assigned
    exact .inr ⟨first.mp told, nickname, saved, random, joined, none⟩
  | some party =>
    refine .inl ⟨party, rfl, ?_⟩
    cases moves.partyStep was now with
    | hears => exact creates.of_hear (base.each was)
    | served queue =>
      -- a client that has not started has sent nothing
      obtain ⟨-, silent, -⟩ := (base.each was).waiting creates.1
      simp [Party.out, queue] at silent
    | receives _ running => exact absurd (running.symm.trans creates.1) (by simp)
    | starts => cases creates.1
    | commands _ running => exact absurd (running.symm.trans creates.1) (by simp)
    | flushes thread => cases thread <;> exact creates

-- There is one room key, or a client that is about to create it.
structure Network.OneRoom (cipher : Monocypher) (network : Network) : Prop where
  made : ∀ {fd : Fd} {party : Party}, network.parties fd = some party →
    ∀ sealed ∈ party.blobs, ∃ roomKey, Sealed cipher sealed roomKey
  agree : ∀ {roomKey other : Bytes}, network.InRoom cipher roomKey → network.InRoom cipher other →
    roomKey = other
  empty : ∀ {fd : Fd} {party : Party}, network.parties fd = some party → party.Creates →
    ∀ roomKey, ¬ network.InRoom cipher roomKey
  alone : ∀ {fd other : Fd} {party peer : Party}, network.parties fd = some party →
    network.parties other = some peer → party.Creates → peer.Creates → fd = other

def RoomKeyCreated (network after : Network) (event : Event) (roomKey : Bytes) : Prop :=
  ∃ fd party later, network.parties fd = some party ∧ party.Creates ∧ event = .clientReceive fd ∧
    after.parties fd = some later ∧ later.started = true ∧
    later.agent.keyStore.roomKey = some roomKey

def RoomKeyBrought (cipher : Monocypher) (event : Event) (roomKey : Bytes) : Prop :=
  ∃ fd nickname saved random, event = .join fd nickname saved random ∧
    (launch cipher nickname saved random).keyStore.roomKey = some roomKey

theorem Moves.inRoom (moves : Moves cipher network event after) (ideal : cipher.Ideal)
    (room : network.OneRoom cipher) {roomKey : Bytes} (inRoom : after.InRoom cipher roomKey) :
    network.InRoom cipher roomKey ∨ RoomKeyCreated network after event roomKey ∨
      RoomKeyBrought cipher event roomKey := by
  obtain ⟨fd, later, now, held | ⟨sealed, member, isSealed⟩⟩ := inRoom
  · cases moves.roomKeySource now held with
    | held was same => exact .inl ⟨fd, _, was, .inl same⟩
    | @opened party sealed mine theirs was member done =>
      obtain ⟨original, isSealed⟩ := room.made was sealed member
      obtain rfl := openRoomKey_sealed ideal isSealed done
      exact .inl ⟨fd, party, was, .inr ⟨sealed, member, isSealed⟩⟩
    | created was creates received started =>
      exact .inr (.inl ⟨fd, _, later, was, creates, received, now, started, held⟩)
    | brought joined loaded => exact .inr (.inr ⟨fd, _, _, _, joined, loaded⟩)
  · obtain ⟨other, party, was, carried | ⟨original, holds, isOriginal⟩⟩ := moves.carried now member
    · exact .inl ⟨other, party, was, .inr ⟨sealed, carried, isSealed⟩⟩
    · obtain rfl := isOriginal.unique ideal isSealed
      exact .inl ⟨other, party, was, .inl holds⟩

theorem Moves.oneRoom (moves : Moves cipher network event after) (ideal : cipher.Ideal)
    (base : network.Base cipher) (room : network.OneRoom cipher)
    (fits : ∀ roomKey, RoomKeyBrought cipher event roomKey →
      (∀ other, network.InRoom cipher other → other = roomKey) ∧
      ∀ fd party, network.parties fd = some party → ¬ party.Creates) :
    after.OneRoom cipher := by
  -- nothing is both created and brought: the events differ
  have apart {roomKey other : Bytes} (created : RoomKeyCreated network after event roomKey)
      (brought : RoomKeyBrought cipher event other) : False := by
    obtain ⟨_, _, _, -, -, received, -⟩ := created
    obtain ⟨_, _, _, _, joined, -⟩ := brought
    cases received.symm.trans joined
  refine ⟨fun {fd later} now sealed member => ?_, fun {roomKey other} here there => ?_,
    fun {fd later} now creates roomKey inRoom =>
      ?_, fun {fd other later peer} here there mine theirs => ?_⟩
  · obtain ⟨_, party, was, carried | ⟨roomKey, -, isSealed⟩⟩ := moves.carried now member
    · exact room.made was sealed carried
    · exact ⟨roomKey, isSealed⟩
  · rcases moves.inRoom ideal room here with old | created | brought <;>
      rcases moves.inRoom ideal room there with old' | created' | brought'
    · exact room.agree old old'
    · obtain ⟨_, _, _, was, creates, -⟩ := created'
      exact absurd old (room.empty was creates _)
    · exact (fits _ brought').1 _ old
    · obtain ⟨_, _, _, was, creates, -⟩ := created
      exact absurd old' (room.empty was creates _)
    · obtain ⟨fd, party, later, was, creates, -, now, -, held⟩ := created
      obtain ⟨fd', party', later', was', creates', -, now', -, held'⟩ := created'
      obtain rfl := room.alone was was' creates creates'
      obtain rfl := Option.some.inj (now.symm.trans now')
      exact Option.some.inj (held.symm.trans held')
    · exact (apart created brought').elim
    · exact ((fits _ brought).1 _ old').symm
    · exact (apart created' brought).elim
    · obtain ⟨_, _, _, _, rfl, loaded⟩ := brought
      obtain ⟨_, _, _, _, same, loaded'⟩ := brought'
      obtain ⟨-, rfl, rfl, rfl⟩ := Event.join.inj same
      exact Option.some.inj (loaded.symm.trans loaded')
  · rcases moves.creates base now creates with
      ⟨party, was, before⟩ | ⟨nobody, nickname, saved, random, rfl, none⟩
    · rcases moves.inRoom ideal room inRoom with old | created | brought
      · exact room.empty was before roomKey old
      · obtain ⟨fd', party', later', was', creates', -, now', started, -⟩ := created
        obtain rfl := room.alone was was' before creates'
        obtain rfl := Option.some.inj (now.symm.trans now')
        exact absurd (started.symm.trans creates.1) (by simp)
      · exact (fits _ brought).2 fd party was before
    · rcases moves.inRoom ideal room inRoom with ⟨other, _, was, -⟩ | created | brought
      · exact absurd was (by simp [nobody other])
      · obtain ⟨other, _, _, was, -⟩ := created
        exact absurd was (by simp [nobody other])
      · obtain ⟨_, _, _, _, same, loaded⟩ := brought
        obtain ⟨-, rfl, rfl, rfl⟩ := Event.join.inj same
        exact absurd (none.symm.trans loaded) (by simp)
  · rcases moves.creates base here mine with ⟨party, was, before⟩ | ⟨nobody, _, _, _, joined, -⟩ <;>
      rcases moves.creates base there theirs with
        ⟨party', was', before'⟩ | ⟨nobody', _, _, _, joined', -⟩
    · exact room.alone was was' before before'
    · exact absurd was (by simp [nobody' fd])
    · exact absurd was' (by simp [nobody other])
    · exact (Event.join.inj (joined.symm.trans joined')).1

end Moves

theorem room_keys_agree {cipher : Monocypher} (ideal : cipher.Ideal) {world : World}
    (reachable : Runs.Reachable Initial (SavedKeysFit cipher) (step cipher) world) :
    world.RoomKeysAgree := by
  have holds : world.network.OneRoom cipher := by
    refine (reachable_invariant ?_ (Network.OneRoom cipher) ?_ ?_ reachable).2
    · rintro world event ⟨allowed, fits⟩
      refine ⟨allowed, ?_⟩
      cases event with
      | join fd nickname saved random => exact fits.1
      | _ => trivial
    · have nobody {fd : Fd} {party : Party} : (World.network {}).parties fd ≠ some party := by
        intro found
        cases found
      exact ⟨fun found => (nobody found).elim, fun ⟨_, _, found, _⟩ => (nobody found).elim,
        fun found => (nobody found).elim, fun found => (nobody found).elim⟩
    · rintro world event after base room ⟨-, fits⟩ moves
      refine moves.oneRoom ideal base room ?_
      rintro roomKey ⟨fd, nickname, saved, random, rfl, loaded⟩
      obtain ⟨only, nobody⟩ := fits.2 roomKey loaded
      exact ⟨only, fun other party found => nobody (other, party) (World.mem_connected.mpr found)⟩
  intro fd other party peer here there _ _ _ roomKey held otherKey heldToo
  exact holds.agree ⟨fd, party, here, .inl held⟩ ⟨other, peer, there, .inl heldToo⟩

-- A room key may be brought along when no sealed one is under way and nobody holds another.
def SavedKeysCalm (world : World) : Event → Prop
  | .join fd nickname saved random => Allowed transparent world (.join fd nickname saved random) ∧
      world.server.usedIds.card < 2 ^ 32 - 2 ∧ ∀ client ∈ world.connected,
        client.2.blobs = [] ∧ ¬ client.2.Creates ∧
        ∀ roomKey ∈ (launch transparent nickname saved random).keyStore.roomKey,
          ∀ other ∈ client.2.agent.keyStore.roomKey, other = roomKey
  | event => Allowed transparent world event

instance SavedKeysCalm.decidable (world : World) :
    (event : Event) → Decidable (SavedKeysCalm world event)
  | .join fd nickname saved random => inferInstanceAs (Decidable
      (Allowed transparent world (.join fd nickname saved random) ∧
      world.server.usedIds.card < 2 ^ 32 - 2 ∧ ∀ client ∈ world.connected, _ ∧ _ ∧
        ∀ roomKey ∈ (launch transparent nickname saved random).keyStore.roomKey,
          ∀ other ∈ client.2.agent.keyStore.roomKey, other = roomKey))
  | .clientReceive fd => inferInstanceAs (Decidable (Allowed transparent world (.clientReceive fd)))
  | .command fd input => inferInstanceAs (Decidable (Allowed transparent world (.command fd input)))
  | .leave _ | .ban _ | .serverReceive _ | .flush _ _ => .isTrue trivial

theorem SavedKeysCalm.fit {world : World} {event : Event} (calm : SavedKeysCalm world event) :
    SavedKeysFit transparent world event := by
  cases event with
  | join fd nickname saved random =>
    obtain ⟨allowed, left, quiet⟩ := calm
    refine ⟨allowed, left, fun roomKey loaded =>
      ⟨?_, fun client member => (quiet client member).2.1⟩⟩
    rintro other ⟨holder, party, found, held | ⟨sealed, member, -⟩⟩
    · exact (quiet (holder, party) (World.mem_connected.mpr found)).2.2 roomKey loaded other held
    · rw [(quiet (holder, party) (World.mem_connected.mpr found)).1] at member
      cases member
  | _ => exact ⟨calm, trivial⟩

def savedStore (identity room : Nat) : PeerKeyStore :=
  { createdStore transparent (keysFrom identity) with
    roomKey := some ((List.range kRoomKeySize).map (keysFrom room)) }

def returning (room otherRoom : Nat) : World :=
  [Event.join 3 [] (some (savedStore 10 room)) (keysFrom 11), .clientReceive 3,
    .join 4 [] (some (savedStore 20 otherRoom)) (keysFrom 21), .clientReceive 4, .clientReceive 3,
    .flush 3 .receiver, .serverReceive 3, .clientReceive 4, .flush 4 .receiver, .flush 4 .receiver,
    .serverReceive 4, .serverReceive 4, .clientReceive 3, .flush 3 .receiver, .clientReceive 3,
    .serverReceive 3, .clientReceive 4].foldl (step transparent) {}

theorem room_keys_agree_returning :
    (returning 50 50).Quiescent ∧ (returning 50 50).RoomKeysAgree ∧
      ∀ client ∈ (returning 50 50).connected, client.2.agent.keyStore.roomKey ≠ none := by
  have calm : Runs.Reachable Initial SavedKeysCalm (step transparent) (returning 50 50) :=
    Runs.Reachable.foldl (.start rfl) (by decide +kernel)
  exact ⟨by decide +kernel,
    room_keys_agree transparent_ideal (calm.weaken fun _ _ => SavedKeysCalm.fit), by decide +kernel⟩

-- The two clients have swapped their room keys.
theorem returning_disagree :
    transparent.Ideal ∧ Reachable transparent (returning 50 60) ∧ (returning 50 60).Quiescent ∧
      ¬ (returning 50 60).RoomKeysAgree := by
  refine ⟨transparent_ideal,
    Runs.Reachable.foldl (.start rfl) (by decide +kernel), by decide +kernel,
    fun agree => ?_⟩
  have present : ((returning 50 60).party 3).isSome ∧ ((returning 50 60).party 4).isSome := by
    decide +kernel
  obtain ⟨⟨party, here⟩, ⟨peer, there⟩⟩ := present.imp Option.isSome_iff_exists.mp
    Option.isSome_iff_exists.mp
  have swapped : ∀ party ∈ (returning 50 60).party 3, ∀ peer ∈ (returning 50 60).party 4,
      party.agent.keyStore.peerPublic peer.id = some peer.agent.keyStore.identityPublic ∧
      peer.agent.keyStore.peerPublic party.id = some party.agent.keyStore.identityPublic ∧
      ∃ roomKey ∈ party.agent.keyStore.roomKey, ∃ otherKey ∈ peer.agent.keyStore.roomKey,
        roomKey ≠ otherKey := by
    decide +kernel
  obtain ⟨knows, known, roomKey, held, otherKey, heldToo, differ⟩ := swapped party here peer there
  exact differ
    (agree 3 4 party peer here there (by decide) knows known roomKey held otherKey heldToo)

end ModbusChat.System
